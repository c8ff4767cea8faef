import HMailServer.Smtp.Connection.Content

/- The transmission buffer in BDAT's byte-transparent mode. `Receiving` is what
   it holds between two pieces of a transaction whose chunks have brought
   `payload`: behind the first flush, the file and the buffer together are the
   trace headers and the payload, or the message is one that is refused. -/
namespace HMailServer
open DotStuffing

namespace TransparentTransmissionBuffer

/-- What a failed write, or a size that the accept task refuses, leaves behind. -/
def Spoiled (b : TransparentTransmissionBuffer) : Prop :=
  b.writeFailed = true ∨ 0 < b.maxSizeKB ∧ b.maxSizeKB < b.dataSent / 1024

theorem append_binary (env : TransmissionEnvironment) (b : TransparentTransmissionBuffer) (data : List Byte)
    (h : b.binaryMode = true) :
    b.append env data = { b with dataSent := b.dataSent + data.length, buffer := b.buffer ++ data } := by
  unfold append
  split
  · rename_i hdata
    rw [List.length_eq_zero_iff.1 hdata]
    simp
  · simp [h]

/-- `SaveToFile_` writes all of the data, or the message is spoiled. -/
theorem saveToFile_binary (env : TransmissionEnvironment) (b : TransparentTransmissionBuffer) (data : List Byte)
    (hopen : b.fileIsOpen = true) (hcancel : b.cancelTransmission = false) :
    ∃ spool failed written,
      b.saveToFile env data = .ok { b with spool, writeFailed := failed, writesCompleted := written } ∧
        (Spoiled { b with writeFailed := failed } ∨ failed = b.writeFailed ∧ spool = b.spool ++ data) := by
  unfold saveToFile
  have hfile : ¬(!b.fileIsOpen) = true := by simp [hopen]
  have hgoes : ¬b.cancelTransmission = true := by simp [hcancel]
  split
  · rename_i hsize
    exact ⟨b.spool, b.writeFailed, b.writesCompleted, rfl, .inl (.inr hsize)⟩
  · by_cases hsim : b.simulateFailure env = true
    · rw [if_pos hsim]
      exact ⟨b.spool, true, b.writesCompleted, rfl, .inl (.inl rfl)⟩
    · rw [if_neg hsim]
      dsimp only
      split
      · exact ⟨_, true, _, rfl, .inl (.inl rfl)⟩
      · rename_i hwritten
        have hall : min (env.fwrite b.spool data) data.length = data.length := by simpa using hwritten
        refine ⟨_, b.writeFailed, _, rfl, .inr ⟨rfl, ?_⟩⟩
        rw [hall, List.take_length]

/-- A flush in binary mode empties the buffer into the file. -/
theorem flush_binary (env : TransmissionEnvironment) (b : TransparentTransmissionBuffer) (force : Bool)
    (hbinary : b.binaryMode = true) (hopen : b.fileIsOpen = true) (hcancel : b.cancelTransmission = false)
    (hflush : b.getRequiresFlush = true ∨ force = true) :
    ∃ processed spool failed written,
      b.flush env force = .ok (processed, { b with
        buffer := [], spool, writeFailed := failed, writesCompleted := written, fileIsOpen := !b.transmissionEnded }) ∧
        (Spoiled { b with writeFailed := failed } ∨ spool = b.spool ++ b.buffer) := by
  have hgo : (!b.getRequiresFlush && !force) = false := by
    rcases hflush with h | h <;> simp [h]
  unfold flush
  rw [hgo, if_neg (by simp), if_pos hbinary]
  unfold flushBinary
  by_cases hbuffer : 0 < b.buffer.length
  · obtain ⟨spool, failed, written, hsave, hresult⟩ := saveToFile_binary env { b with buffer := [] } b.buffer hopen hcancel
    rw [if_pos hbuffer, hsave]
    refine ⟨true, spool, _, written, by simp [closeIfEnded, bind, Except.bind, pure, Except.pure, hopen]; rfl, ?_⟩
    rcases hresult with (hfailed | hsize) | ⟨-, hspool⟩
    · refine .inl (.inl ?_)
      have : failed = true := hfailed
      simp [this]
    · exact .inl (.inr hsize)
    · exact .inr hspool
  · have hempty : b.buffer = [] := by
      have := List.eq_nil_of_length_eq_zero (l := b.buffer) (by omega)
      exact this
    rw [if_neg hbuffer]
    refine ⟨false, b.spool, _, b.writesCompleted, by simp [closeIfEnded, pure, Except.pure, hopen, hempty]; rfl, ?_⟩
    exact .inr (by rw [hempty, List.append_nil])

end TransparentTransmissionBuffer
end HMailServer
