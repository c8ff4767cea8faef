import HMailServer.Smtp.ReceiveFraming

/- The end of data where incorrect line endings are let through. Whatever way a
   stream is appended and flushed, forced cuts in mid-line included, the buffer and
   `flushedTail` still tell what stands in front of a dot (`Unended`), so that a
   marker of another spelling than CRLF dot CRLF is only taken at the very end of
   what was received. -/
namespace HMailServer
open DotStuffing

namespace TransparentTransmissionBuffer

/-- `b` has been fed `fed` by calls of `append` and `flush`; nothing is appended
behind the end of data. -/
inductive Fed (env : TransmissionEnvironment) : TransparentTransmissionBuffer → List Byte → Prop where
  | start (maxSizeKB : Nat) : Fed env (receiver maxSizeKB) []
  | append {b : TransparentTransmissionBuffer} {fed : List Byte} (data : List Byte) :
      Fed env b fed → b.transmissionEnded = false → Fed env (b.append env data) (fed ++ data)
  | flush {b b' : TransparentTransmissionBuffer} {fed : List Byte} {force processed : Bool} :
      Fed env b fed → b.flush env force = .ok (processed, b') → Fed env b' fed

/-- A dot at `p` between two newlines; `len` octets from the dot to the end of the
second. The stream is read with a virtual CRLF in front. -/
structure LooseMarkerAt (w : List Byte) (p len : Nat) : Prop where
  newlineBefore : (CR :: LF :: w)[p + 1]? = some LF
  dot : w[p]? = some DOT
  newlineBehind : len = 3 ∧ w[p + 1]? = some CR ∧ w[p + 2]? = some LF ∨ len = 2 ∧ w[p + 1]? = some LF

/-! ## A flush only moves octets out -/

/-- What a flush leaves alone, and the octets it moves out. -/
structure Moved (b b' : TransparentTransmissionBuffer) (k : Nat) : Prop where
  isSending : b'.isSending = b.isSending
  binaryMode : b'.binaryMode = b.binaryMode
  ended : b'.transmissionEnded = b.transmissionEnded
  nonStandard : b'.endedOnNonStandardMarker = b.endedOnNonStandardMarker
  dataSent : b'.dataSent = b.dataSent
  surplus : b'.surplusAfterTerminator = b.surplusAfterTerminator
  le : k ≤ b.buffer.length
  buffer : b'.buffer = b.buffer.drop k
  tail : b'.flushedTail = nextTail b.buffer b.flushedTail k

theorem saveToFile_frame {env : TransmissionEnvironment} {b b' : TransparentTransmissionBuffer} {data : List Byte}
    (h : b.saveToFile env data = .ok b') :
    ∃ spool writeFailed writesCompleted, b' = { b with spool, writeFailed, writesCompleted } := by
  unfold saveToFile at h
  split at h
  · cases h
    exact ⟨_, _, _, rfl⟩
  split at h
  · cases h
    exact ⟨_, _, _, rfl⟩
  split at h
  · cases h
    exact ⟨_, _, _, rfl⟩
  split at h
  · cases h
  dsimp only at h
  split at h <;> cases h <;> exact ⟨_, _, _, rfl⟩

theorem flush_moved {env : TransmissionEnvironment} {b b' : TransparentTransmissionBuffer} {force processed : Bool}
    (hs : b.isSending = false) (hb : b.binaryMode = false) (h : b.flush env force = .ok (processed, b')) :
    ∃ k, Moved b b' k := by
  unfold flush at h
  split at h
  · cases h
    exact ⟨0, rfl, rfl, rfl, rfl, rfl, rfl, Nat.zero_le _, by simp, rfl⟩
  rw [if_neg (by simp [hb])] at h
  dsimp only at h
  split at h
  · cases h
    exact ⟨0, rfl, rfl, rfl, rfl, rfl, rfl, Nat.zero_le _, by simp [closeIfEnded, checkLineLength], rfl⟩
  case h_2 k hcut =>
    have hle : k ≤ b.buffer.length := (findCut_le hcut).2
    unfold flushOut at h
    rw [show b.checkLineLength.isSending = false from hs] at h
    simp only [Bool.false_eq_true, if_false] at h
    cases hsave : saveToFile env _ _ with
    | error e =>
      rw [hsave] at h
      cases h
    | ok b₁ =>
      rw [hsave] at h
      cases h
      obtain ⟨spool, writeFailed, writesCompleted, rfl⟩ := saveToFile_frame hsave
      exact ⟨k, hs.symm, rfl, rfl, rfl, rfl, rfl, hle, rfl, rfl⟩

/-! ## The search -/

theorem looseMarkerAt_buffer (flushed buffer : List Byte) (i len : Nat) :
    LooseMarkerAt (flushed ++ buffer) (flushed.length + i) len ↔
      byteBefore buffer (tailOf flushed) i 1 = LF ∧ buffer.getD i 0 = DOT ∧
        (len = 3 ∧ buffer.getD (i + 1) 0 = CR ∧ buffer.getD (i + 2) 0 = LF ∨ len = 2 ∧ buffer.getD (i + 1) 0 = LF) := by
  have h0 := getD_buffer_iff flushed buffer i 0 (c := DOT) (by decide)
  simp only [Nat.add_zero] at h0
  rw [(byteBefore_iff flushed buffer i).1, h0, getD_buffer_iff flushed buffer i 1 (by decide),
    getD_buffer_iff flushed buffer i 2 (by decide), getD_buffer_iff flushed buffer i 1 (by decide)]
  exact ⟨fun h => ⟨h.1, h.2, h.3⟩, fun h => ⟨h.1, h.2.1, h.2.2⟩⟩

/-- A marker the search recognises is one of the stream; the standard spelling is
told from the others, and these stand at the end of the buffer. -/
theorem markerAt_some {allowBareLineFeed : Bool} {flushed buffer : List Byte} {i : Nat} {m : Marker}
    (h : markerAt allowBareLineFeed buffer (tailOf flushed) i = some m) :
    m.dotPosition = i ∧ LooseMarkerAt (flushed ++ buffer) (flushed.length + i) m.terminatorLength ∧
      i + m.terminatorLength ≤ buffer.length ∧
      (m.nonStandardMarker = false → TerminatorAt (flushed ++ buffer) (flushed.length + i)) ∧
      (m.nonStandardMarker = true →
        ¬TerminatorAt (flushed ++ buffer) (flushed.length + i) ∧ i + m.terminatorLength = buffer.length) := by
  rw [looseMarkerAt_buffer, terminatorAt_buffer]
  unfold markerAt at h
  generalize buffer.getD (i + 1) 0 = x1 at h ⊢
  generalize buffer.getD (i + 2) 0 = x2 at h ⊢
  generalize buffer.getD i 0 = x0 at h ⊢
  generalize byteBefore buffer (tailOf flushed) i 1 = y1 at h ⊢
  generalize byteBefore buffer (tailOf flushed) i 2 = y2 at h ⊢
  dsimp only at h
  by_cases hdot : x0 = DOT
  case neg => rw [if_pos hdot] at h; cases h
  by_cases hleft : y1 = LF
  case neg => rw [if_neg (not_not.2 hdot), if_pos hleft] at h; cases h
  rw [if_neg (not_not.2 hdot), if_neg (not_not.2 hleft)] at h
  by_cases hcrlf : i + 2 < buffer.length ∧ x1 = CR ∧ x2 = LF
  · -- CRLF behind the dot: the spelling turns on what is in front of it
    obtain ⟨hlen, rfl, rfl⟩ := hcrlf
    by_cases hcr : y2 = CR
    · simp [hlen, hcr] at h
      subst h
      simp [hdot, hleft, hcr]
      omega
    · simp [hlen, hcr] at h
      obtain ⟨-, hend, rfl⟩ := h
      simp [hdot, hleft, hcr, hend]
  · by_cases hlf : i + 1 < buffer.length ∧ x1 = LF
    · obtain ⟨hlen, rfl⟩ := hlf
      simp [hlen] at h
      obtain ⟨-, hend, rfl⟩ := h
      simp [hdot, hleft, hend]
    · have hright : (decide (i + 2 < buffer.length) && x1 == CR && x2 == LF) = false := by
        simpa [and_assoc] using hcrlf
      have hbare : (decide (i + 1 < buffer.length) && x1 == LF) = false := by
        simpa using hlf
      rw [hright] at h
      simp only [Bool.not_false, Bool.true_and, hbare, if_true] at h
      cases h

/-! ## The end of data -/

/-- Before the end of data: the stream is what was flushed and the buffer. -/
structure Unended (b : TransparentTransmissionBuffer) (fed : List Byte) : Prop where
  isSending : b.isSending = false
  binaryMode : b.binaryMode = false
  ended : b.transmissionEnded = false
  noSurplus : b.surplusAfterTerminator = none
  size : b.dataSent = fed.length
  split : ∃ flushed, fed = flushed ++ b.buffer ∧ b.flushedTail = tailOf flushed

/-- The data ended on a marker whose dot is the octet behind the message. -/
structure EndedOn (b : TransparentTransmissionBuffer) (fed : List Byte) (len : Nat) : Prop where
  isSending : b.isSending = false
  binaryMode : b.binaryMode = false
  ended : b.transmissionEnded = true
  marker : LooseMarkerAt fed b.getSize len
  surplus : b.HoldsSurplus (fed.drop (b.getSize + len))
  standard : b.endedOnNonStandardMarker = false → TerminatorAt fed b.getSize
  nonStandard : b.endedOnNonStandardMarker = true →
    ¬TerminatorAt fed b.getSize ∧ b.getSize + len = fed.length

theorem append_unended (env : TransmissionEnvironment) {b : TransparentTransmissionBuffer} {fed : List Byte}
    (h : b.Unended fed) (data : List Byte) :
    (b.append env data).Unended (fed ++ data) ∨ ∃ len, (b.append env data).EndedOn (fed ++ data) len := by
  obtain ⟨flushed, hfed, htail⟩ := h.split
  have hstream : fed ++ data = flushed ++ (b.buffer ++ data) := by rw [hfed, List.append_assoc]
  have hlength : fed.length = flushed.length + b.buffer.length := by rw [hfed, List.length_append]
  have hkeep : ({ b with dataSent := b.dataSent + data.length, buffer := b.buffer ++ data } :
      TransparentTransmissionBuffer).Unended (fed ++ data) :=
    ⟨h.isSending, h.binaryMode, h.ended, h.noSurplus, by simp [h.size], flushed, hstream, htail⟩
  unfold append
  split
  case isTrue hnil =>
    rw [List.eq_nil_of_length_eq_zero hnil, List.append_nil]
    exact .inl h
  dsimp only
  split
  case isFalse => exact .inl hkeep
  split
  case h_1 => exact .inl hkeep
  case h_2 m hfind =>
    right
    obtain ⟨_, i, _, _, hm, _⟩ := List.findSome?_eq_some_iff.mp hfind
    rw [htail] at hm
    obtain ⟨hdot, hmarker, hle, hstandard, hnonStandard⟩ := markerAt_some hm
    rw [List.length_append] at hle hnonStandard
    have hsize : (endOnMarker { b with dataSent := b.dataSent + data.length, buffer := b.buffer ++ data } m).getSize =
        flushed.length + i := by
      unfold getSize endOnMarker
      simp only [List.length_append, h.size, hlength, hdot]
      have hpos : m.terminatorLength = 3 ∨ m.terminatorLength = 2 := by
        rcases hmarker.newlineBehind with h | h
        · exact .inl h.1
        · exact .inr h.1
      split <;> omega
    refine ⟨m.terminatorLength, h.isSending, h.binaryMode, rfl, ?_, ?_, ?_, ?_⟩
    · rw [hsize, hstream]
      exact hmarker
    · rw [hsize, hstream, Nat.add_assoc, List.drop_length_add_append]
      unfold HoldsSurplus endOnMarker
      simp only [List.length_append, hdot, List.drop_eq_nil_iff, h.noSurplus]
      by_cases hrest : b.buffer.length + data.length ≤ i + m.terminatorLength
      · rw [if_neg (by omega), if_pos hrest]
      · rw [if_pos (by omega), if_neg hrest]
    · rw [hsize, hstream]
      exact hstandard
    · rw [hsize, hstream]
      intro hnon
      obtain ⟨hnot, hend⟩ := hnonStandard hnon
      refine ⟨hnot, ?_⟩
      simp only [List.length_append]
      omega

theorem Moved.unended {b b' : TransparentTransmissionBuffer} {k : Nat} {fed : List Byte} (hmoved : Moved b b' k)
    (h : b.Unended fed) : b'.Unended fed := by
  obtain ⟨flushed, hfed, htail⟩ := h.split
  refine ⟨hmoved.isSending.trans h.isSending, hmoved.binaryMode.trans h.binaryMode, hmoved.ended.trans h.ended,
    hmoved.surplus.trans h.noSurplus, hmoved.dataSent.trans h.size, flushed ++ b.buffer.take k, ?_, ?_⟩
  · rw [hmoved.buffer, List.append_assoc, List.take_append_drop, hfed]
  · rw [hmoved.tail, htail, nextTail_tailOf _ _ _ hmoved.le]

theorem Moved.endedOn {b b' : TransparentTransmissionBuffer} {k len : Nat} {fed : List Byte} (hmoved : Moved b b' k)
    (h : b.EndedOn fed len) : b'.EndedOn fed len := by
  have hsize : b'.getSize = b.getSize := hmoved.dataSent
  refine ⟨hmoved.isSending.trans h.isSending, hmoved.binaryMode.trans h.binaryMode, hmoved.ended.trans h.ended,
    ?_, ?_, ?_, ?_⟩
  · rw [hsize]
    exact h.marker
  · unfold HoldsSurplus
    rw [hmoved.surplus, hsize]
    exact h.surplus
  · rw [hmoved.nonStandard, hsize]
    exact h.standard
  · rw [hmoved.nonStandard, hsize]
    exact h.nonStandard

/-- At any time the data has not ended, or it has ended on a marker. -/
theorem Fed.unended_or_endedOn {env : TransmissionEnvironment} {b : TransparentTransmissionBuffer} {fed : List Byte}
    (h : Fed env b fed) : b.Unended fed ∨ ∃ len, b.EndedOn fed len := by
  induction h with
  | start maxSizeKB => exact .inl ⟨rfl, rfl, rfl, rfl, rfl, [], rfl, tailOf_nil⟩
  | append data _ hnot ih =>
    rcases ih with ih | ⟨len, ih⟩
    · exact append_unended env ih data
    · rw [ih.ended] at hnot
      cases hnot
  | flush _ hflush ih =>
    rcases ih with ih | ⟨len, ih⟩
    · obtain ⟨k, hmoved⟩ := flush_moved ih.isSending ih.binaryMode hflush
      exact .inl (hmoved.unended ih)
    · obtain ⟨k, hmoved⟩ := flush_moved ih.isSending ih.binaryMode hflush
      exact .inr ⟨len, hmoved.endedOn ih⟩

/-- Only the standard marker is taken ahead of the last octet received. The marker
that ended the data has its dot at `getSize`, and the stream is read behind the CRLF
of the DATA command. -/
theorem only_standard_marker_early {env : TransmissionEnvironment} {b : TransparentTransmissionBuffer}
    {fed : List Byte} (h : Fed env b fed) (hended : b.transmissionEnded = true) :
    ∃ len, LooseMarkerAt fed b.getSize len ∧ b.HoldsSurplus (fed.drop (b.getSize + len)) ∧
      (¬TerminatorAt fed b.getSize →
        b.endedOnNonStandardMarker = true ∧ b.surplusAfterTerminator = none ∧ b.getSize + len = fed.length) ∧
      (b.surplusAfterTerminator ≠ none → TerminatorAt fed b.getSize) := by
  obtain h | ⟨len, h⟩ := h.unended_or_endedOn
  · rw [h.ended] at hended
    cases hended
  have hnonStandard : ¬TerminatorAt fed b.getSize →
      b.endedOnNonStandardMarker = true ∧ b.surplusAfterTerminator = none ∧ b.getSize + len = fed.length := by
    intro hnot
    have hflag : b.endedOnNonStandardMarker = true := by
      rw [← Bool.not_eq_false]
      exact fun hfalse => hnot (h.standard hfalse)
    have hend := (h.nonStandard hflag).2
    have hsurplus := h.surplus
    unfold HoldsSurplus at hsurplus
    rw [hend, List.drop_length, if_pos rfl] at hsurplus
    exact ⟨hflag, hsurplus, hend⟩
  refine ⟨len, h.marker, h.surplus, hnonStandard, ?_⟩
  intro hsome
  by_contra hnot
  exact hsome (hnonStandard hnot).2.1

/-- Incorrect line endings let through, every write stored whole. -/
def lenientEnvironment : TransmissionEnvironment := { strictEnvironment with allowIncorrectLineEndings := true }

/-- "a" LF is flushed out, and a dot and LF follow. -/
theorem only_standard_marker_early_bare :
    let b := (receiver 0).append lenientEnvironment [97, LF]
    ∃ b', b.flush lenientEnvironment true = .ok (true, b') ∧
      let ended := b'.append lenientEnvironment [DOT, LF]
      ended.transmissionEnded = true ∧ ended.endedOnNonStandardMarker = true ∧
        ended.surplusAfterTerminator = none := by
  intro b
  obtain ⟨⟨processed, b'⟩, hflush⟩ : ∃ r, b.flush lenientEnvironment true = .ok r := ⟨_, rfl⟩
  have hstart : Fed lenientEnvironment (receiver 0) [] := .start 0
  have hfed := (hstart.append [97, LF] rfl).flush hflush
  cases hflush
  refine ⟨_, rfl, ?_⟩
  intro ended
  have hended : ended.transmissionEnded = true := by decide
  obtain ⟨len, -, -, hnot, -⟩ := only_standard_marker_early (hfed.append [DOT, LF] rfl) hended
  obtain ⟨hflag, hsurplus, -⟩ := hnot (by decide)
  exact ⟨hended, hflag, hsurplus⟩

/-- A message that begins with the marker ends on the CRLF of the DATA command, which
is no part of the stream: what follows the dot is surplus. -/
theorem marker_on_data_command :
    let ended := (receiver 0).append lenientEnvironment [DOT, CR, LF, 81]
    Fed lenientEnvironment ended [DOT, CR, LF, 81] ∧ ended.transmissionEnded = true ∧
      ended.surplusAfterTerminator = some [81] ∧ ended.endedOnNonStandardMarker = false ∧
      ¬[CR, LF, DOT, CR, LF] <:+: [DOT, CR, LF, 81] := by
  intro ended
  refine ⟨(Fed.start 0).append [DOT, CR, LF, 81] rfl, ?_⟩
  decide

end TransparentTransmissionBuffer
end HMailServer
