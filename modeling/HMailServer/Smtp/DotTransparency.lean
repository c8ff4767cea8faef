import HMailServer.Smtp.ReceiveFraming

/- Dot transparency end to end. A sending buffer enqueues `stuff true` of what
   has left it, wherever its flushes cut (`Sending`); with a last forced flush,
   as `SMTPClientConnection::ReadAndSend_` makes it, that is the whole message.
   The stuffed text holds no marker, so a strict receiver stops at the CRLF dot
   CRLF the client writes behind it and stores the message it was given. -/
namespace HMailServer
open DotStuffing

namespace TransparentTransmissionBuffer

/-- A call of the sending side. -/
inductive SendCall where
  | append (data : List Byte)
  | flush (force : Bool)

/-- The bytes a sequence of calls appends. -/
def appended : List SendCall → List Byte
  | [] => []
  | .append data :: rest => data ++ appended rest
  | .flush _ :: rest => appended rest

/-- A sequence of calls on a buffer. -/
def send (env : TransmissionEnvironment) :
    TransparentTransmissionBuffer → List SendCall →
      Except TransmissionFault TransparentTransmissionBuffer
  | b, [] => .ok b
  | b, .append data :: rest => send env (b.append env data) rest
  | b, .flush force :: rest => do
    let (_, b) ← b.flush env force
    send env b rest

/-- The buffer of a client connection, before a message. -/
def sender : TransparentTransmissionBuffer := initializeConnection { isSending := true }

/-- A sending buffer that was given `fed`: what has left it was enqueued stuffed. -/
structure Sending (b : TransparentTransmissionBuffer) (fed : List Byte) : Prop where
  isSending : b.isSending = true
  notBinary : b.binaryMode = false
  notEnded : b.transmissionEnded = false
  alive : b.connectionAlive = true
  split : ∃ flushed, fed = flushed ++ b.buffer ∧
    b.previousChunkEndedWithNewline = lineStart true flushed ∧
    b.enqueued.flatten = stuff true flushed

theorem sender_sending : sender.Sending [] :=
  ⟨rfl, rfl, rfl, rfl, [], rfl, rfl, rfl⟩

/-- Appending on the sending side only buffers. -/
theorem append_sending (env : TransmissionEnvironment) {b : TransparentTransmissionBuffer}
    {fed : List Byte} (h : b.Sending fed) (data : List Byte) :
    (b.append env data).Sending (fed ++ data) := by
  obtain ⟨flushed, hfed, hcarry, hout⟩ := h.split
  unfold append
  split
  · rename_i hnil
    rw [List.eq_nil_of_length_eq_zero hnil, List.append_nil]
    exact h
  · dsimp only
    rw [if_neg (by simp [h.isSending])]
    exact ⟨h.isSending, h.notBinary, h.notEnded, h.alive, flushed,
      by rw [hfed, List.append_assoc], hcarry, hout⟩

/-- Moving `k > 0` bytes towards the socket. -/
theorem flushOut_sending (env : TransmissionEnvironment) {b : TransparentTransmissionBuffer}
    {fed : List Byte} (h : b.Sending fed) {k : Nat} (hpos : 0 < k) (hle : k ≤ b.buffer.length) :
    ∃ b', b.flushOut env k = .ok b' ∧ b'.Sending fed ∧ b'.buffer = b.buffer.drop k := by
  obtain ⟨flushed, hfed, hcarry, hout⟩ := h.split
  have hne : b.buffer.take k ≠ [] := by
    intro hnil
    have := congrArg List.length hnil
    simp only [List.length_take, List.length_nil] at this
    omega
  simp only [flushOut, h.isSending, if_true, insertTransmissionPeriod, h.alive]
  refine ⟨_, rfl, ⟨rfl, h.notBinary, h.notEnded, rfl, flushed ++ b.buffer.take k, ?_, ?_, ?_⟩, rfl⟩
  · rw [List.append_assoc, List.take_append_drop, hfed]
  · rw [lineStart_append]
    exact getLast_eq_lineStart _ hne
  · rw [List.flatten_append, hout, List.flatten_singleton, insertPeriods_eq, stuff_append, hcarry]
    rfl

/-- A flush on the sending side keeps the correspondence; a forced one empties
the buffer. Neither an over-long line nor its cancel changes that. -/
theorem flush_sending (env : TransmissionEnvironment) {b : TransparentTransmissionBuffer}
    {fed : List Byte} (h : b.Sending fed) (force : Bool) :
    ∃ d b', b.flush env force = .ok (d, b') ∧ b'.Sending fed ∧
      (force = true → b'.buffer = []) := by
  have hclose : ∀ (c : TransparentTransmissionBuffer) (sync : Bool), c.Sending fed →
      (c.closeIfEnded env sync).Sending fed := by
    intro c sync hc
    exact ⟨hc.isSending, hc.notBinary, hc.notEnded, hc.alive, hc.split⟩
  have hcheck : b.checkLineLength.Sending fed :=
    ⟨h.isSending, h.notBinary, h.notEnded, h.alive, h.split⟩
  have hstop : 0 < b.buffer.length → (if b.checkLineLength.buffer.length > maxLineLength then
      b.checkLineLength.buffer.length - maxLineLength else 0) < b.checkLineLength.buffer.length := by
    intro hpos
    change (if b.buffer.length > maxLineLength then b.buffer.length - maxLineLength else 0) <
      b.buffer.length
    split
    · unfold maxLineLength at *
      omega
    · exact hpos
  unfold flush
  split
  · rename_i hno
    refine ⟨false, b, rfl, h, ?_⟩
    rintro rfl
    simp at hno
  · rw [if_neg (by simp [h.notBinary])]
    dsimp only
    split
    · rename_i hcut
      refine ⟨false, _, rfl, hclose _ _ hcheck, ?_⟩
      rintro rfl
      by_contra hne
      have hpos : 0 < b.buffer.length := List.length_pos_of_ne_nil hne
      rw [Bool.true_or, findCut_forced _ (hstop hpos)] at hcut
      cases hcut
    · rename_i k hcut
      obtain ⟨hpos, hle⟩ := findCut_le hcut
      obtain ⟨b', hout, hs, hbuf⟩ := flushOut_sending env hcheck hpos hle
      rw [hout]
      refine ⟨true, _, rfl, hclose _ _ hs, ?_⟩
      rintro rfl
      rw [Bool.true_or, findCut_forced _ (hstop (Nat.lt_of_lt_of_le hpos hle))] at hcut
      have hk := Option.some.inj hcut
      change b'.buffer = []
      rw [hbuf, ← hk, List.drop_length]

/-- Any calls keep the correspondence with what they appended. -/
theorem send_run (env : TransmissionEnvironment) (calls : List SendCall)
    (b : TransparentTransmissionBuffer) (fed : List Byte) (h : b.Sending fed) :
    ∃ b', send env b calls = .ok b' ∧ b'.Sending (fed ++ appended calls) := by
  induction calls generalizing b fed with
  | nil => exact ⟨b, rfl, by simpa [appended] using h⟩
  | cons call rest ih =>
    cases call with
    | append data =>
      obtain ⟨b', hrun, hs⟩ := ih _ _ (append_sending env h data)
      exact ⟨b', hrun, by simpa [appended] using hs⟩
    | flush force =>
      obtain ⟨d, b', hflush, hs, -⟩ := flush_sending env h force
      obtain ⟨b'', hrun, hs'⟩ := ih b' fed hs
      refine ⟨b'', ?_, hs'⟩
      simp only [send, hflush]
      exact hrun

theorem send_append (env : TransmissionEnvironment) (calls more : List SendCall)
    {b b' : TransparentTransmissionBuffer} (h : send env b calls = .ok b') :
    send env b (calls ++ more) = send env b' more := by
  induction calls generalizing b with
  | nil =>
    cases h
    rfl
  | cons call rest ih =>
    cases call with
    | append data => exact ih h
    | flush force =>
      simp only [List.cons_append, send] at h ⊢
      cases hf : b.flush env force with
      | error e =>
        rw [hf] at h
        cases h
      | ok r =>
        rw [hf] at h
        exact ih h

/-- Calls that end with a forced flush enqueue the stuffed message, however it
was cut. -/
theorem send_message (env : TransmissionEnvironment) (calls : List SendCall) :
    ∃ b, send env sender (calls ++ [.flush true]) = .ok b ∧
      b.enqueued.flatten = stuff true (appended calls) := by
  obtain ⟨b, hrun, hs⟩ := send_run env calls sender [] sender_sending
  obtain ⟨d, b', hflush, hs', hempty⟩ := flush_sending env hs true
  refine ⟨b', ?_, ?_⟩
  · rw [send_append env calls _ hrun]
    simp only [send, hflush]
    rfl
  · obtain ⟨flushed, hfed, -, hout⟩ := hs'.split
    rw [hempty rfl, List.append_nil, List.nil_append] at hfed
    rw [hout, hfed]

/-- A strict receiver of a stuffed text and its marker stops at that marker. -/
theorem receive_stuffed (env : TransmissionEnvironment)
    (hstrict : env.allowIncorrectLineEndings = false) (maxSizeKB : Nat) (m t : List Byte)
    {chunks : List (List Byte)} (hchunks : chunks.flatten = stuff true m ++ terminator ++ t) :
    ∃ r fed, receive env (receiver maxSizeKB) chunks = .ok (r, fed) ∧
      (r.cancelTransmission = false → r.transmissionEnded = true ∧
        (∃ n, fed = chunks.take n ∧ (stuff true m).length + 5 ≤ fed.flatten.length ∧
          ∀ k < n, (chunks.take k).flatten.length < (stuff true m).length + 5) ∧
        (∃ rest, rest <+: t ∧ r.HoldsSurplus rest) ∧
        (r.writeFailed = false →
          maxSizeKB = 0 ∨ ((stuff true m).length + 4) / 1024 ≤ maxSizeKB →
          r.spool = m ++ [CR, LF])) := by
  have hfirst := stuff_firstTerminator m t
  have hpre : ∀ k, (chunks.take k).flatten <+: stuff true m ++ terminator ++ t := by
    intro k
    rw [← hchunks]
    exact (List.take_prefix k chunks).flatten
  -- enough segments hold the marker, fewer do not
  have hmarker : ∀ k, (stuff true m).length + 5 ≤ (chunks.take k).flatten.length →
      TerminatorAt (chunks.take k).flatten ((stuff true m).length + 2) := by
    intro k hk
    obtain ⟨u, hu⟩ := hpre k
    have h := hfirst.1
    rw [← hu] at h
    exact h.of_append (by omega)
  obtain ⟨r, fed, hrun, hout⟩ := receive_stream env hstrict maxSizeKB
    (show chunks.flatten <+: stuff true m ++ terminator ++ t by rw [hchunks])
  refine ⟨r, fed, hrun, ?_⟩
  intro hc
  obtain ⟨⟨n, hn, hfed, hno, hall⟩, hiff⟩ := receive_stops env hstrict maxSizeKB hrun hc
  have hend : r.transmissionEnded = true := by
    cases hr : r.transmissionEnded
    · have hterm := hmarker chunks.length (by
        rw [List.take_length, hchunks]
        simp [terminator])
      rw [hall hr] at hfed
      rw [← hfed] at hterm
      rw [hr] at hiff
      exact absurd (hiff.mpr ⟨_, hterm⟩) (by simp)
    · rfl
  obtain ⟨p, hp, hsurplus, -, hspool⟩ := hout hc hend
  obtain rfl := hp.unique hfirst
  have hlen : (stuff true m).length + 5 ≤ fed.flatten.length := by
    obtain ⟨q, hq⟩ := hiff.mp hend
    obtain ⟨u, hu⟩ := hpre n
    rw [← hfed] at hu
    have hle : (stuff true m).length + 2 ≤ q := by
      by_contra hlt
      have hq' := hq.append u
      rw [hu] at hq'
      exact hfirst.2 q (by omega) hq'
    have := hq.le_length
    omega
  refine ⟨hend, ⟨n, hfed, hlen, ?_⟩, ⟨_, ?_, hsurplus⟩, ?_⟩
  · intro k hk
    by_contra hge
    exact hno k hk _ (hmarker k (by omega))
  · obtain ⟨u, hu⟩ := hpre n
    rw [← hfed] at hu
    have hdrop := congrArg (List.drop ((stuff true m).length + 5)) hu
    rw [List.drop_append_of_le_length hlen,
      List.drop_left' (show (stuff true m ++ terminator).length = _ by simp [terminator])] at hdrop
    exact ⟨u, hdrop⟩
  · intro hwf hlim
    rw [hspool hwf hlim]
    have htake : (stuff true m ++ terminator ++ t).take ((stuff true m).length + 2) =
        stuff true m ++ [CR, LF] := by
      rw [List.append_assoc, List.take_length_add_append]
      rfl
    rw [htake, unstuff_stuff_crlf]

/-- "." CRLF "." cut behind its first dot by a forced flush. -/
def loneDotCalls : List SendCall := [.append [46], .flush true, .append [13, 10, 46], .flush false]

/-- A text without dots through a receiver limited below its size: the client
sends it unchanged, and nothing of it is stored. -/
theorem dot_transparency_longMessage (n : Nat) :
    ∃ b, send strictEnvironment sender ([.append (List.replicate n 97)] ++ [.flush true]) = .ok b ∧
      b.enqueued.flatten ++ terminator = longMessage n := by
  obtain ⟨b, hrun, hout⟩ := send_message strictEnvironment [.append (List.replicate n 97)]
  refine ⟨b, hrun, ?_⟩
  have hdot : DOT ∉ List.replicate n (97 : Byte) := by
    intro h
    exact absurd (List.eq_of_mem_replicate h) (by decide)
  rw [hout, appended, appended, List.append_nil, stuff_of_not_mem hdot]
  rfl

end TransparentTransmissionBuffer
end HMailServer
