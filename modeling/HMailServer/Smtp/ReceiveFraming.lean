import HMailServer.Util.TransparentTransmissionBuffer

/- SMTP receive framing does not depend on how TCP cuts the stream. A receiving
   buffer keeps, between two calls, exactly the part of the stream behind the
   last flushed newline and three facts about the part in front of it (its last
   two bytes, whether a line starts behind it, its unstuffed text in the spool);
   `Receiving b fed` is that correspondence. `append_receiving` shows that the
   windowed marker search finds the first end-of-data marker of the whole
   stream, `FlushedBy.receiving` that moving lines out keeps the correspondence,
   and `receive_run` carries both through any list of segments. -/
namespace HMailServer
open DotStuffing

namespace TransparentTransmissionBuffer

/-! ## The transforms are the library's -/

theorem insertPeriods_eq (bol : Bool) (prev : Option Byte) (l : List Byte) :
    insertPeriods bol prev l = stuff (prev.elim bol (· == LF)) l := by
  induction l generalizing prev with
  | nil => rfl
  | cons c l ih => cases prev <;> simp [insertPeriods, stuff, ih]

theorem removePeriods_eq (bol cr : Bool) (prev : Option Byte) (l : List Byte) :
    removePeriods false bol cr prev l = unstuff (prev.elim bol (· == LF)) l := by
  induction l generalizing prev with
  | nil => rfl
  | cons c l ih => cases prev <;> simp [removePeriods, unstuff, ih]

theorem getLast_eq_lineStart (bol : Bool) {l : List Byte} (h : l ≠ []) :
    (l.getLast? == some LF) = lineStart bol l := by
  obtain ⟨a, c, rfl⟩ : ∃ a c, l = a ++ [c] := ⟨_, _, (List.dropLast_concat_getLast h).symm⟩
  rw [lineStart_concat]
  simp

/-! ## What was flushed, seen from the buffer -/

/-- The last two bytes of `flushed`, read with a virtual CRLF in front. -/
def tailOf (flushed : List Byte) : Byte × Byte :=
  ((CR :: LF :: flushed).getD flushed.length 0, (CR :: LF :: flushed).getD (flushed.length + 1) 0)

theorem tailOf_nil : tailOf [] = (CR, LF) := rfl

/-- `byteBefore` reads the whole stream, not only the buffer. -/
theorem byteBefore_tailOf (flushed buffer : List Byte) (i offset : Nat)
    (ho : offset = 1 ∨ offset = 2) :
    byteBefore buffer (tailOf flushed) i offset =
      (CR :: LF :: (flushed ++ buffer)).getD (flushed.length + i + 2 - offset) 0 := by
  have happ : CR :: LF :: (flushed ++ buffer) = (CR :: LF :: flushed) ++ buffer := rfl
  have hlen : (CR :: LF :: flushed).length = flushed.length + 2 := rfl
  unfold byteBefore
  split
  · rw [happ, List.getD_append_right _ _ _ _ (by rw [hlen]; omega), hlen]
    congr 1
    omega
  · rw [happ, List.getD_append _ _ _ _ (by rw [hlen]; omega)]
    split
    · rw [show flushed.length + i + 2 - offset = flushed.length + 1 by omega]
      rfl
    · rw [show flushed.length + i + 2 - offset = flushed.length by omega]
      rfl

theorem nextTail_tailOf (flushed buffer : List Byte) (k : Nat) (hk : k ≤ buffer.length) :
    nextTail buffer (tailOf flushed) k = tailOf (flushed ++ buffer.take k) := by
  have hlen : (flushed ++ buffer.take k).length = flushed.length + k := by simp; omega
  have hread : ∀ j, j < k → (CR :: LF :: (flushed ++ buffer.take k)).getD (flushed.length + 2 + j) 0
      = buffer.getD j 0 := by
    intro j hj
    have happ : CR :: LF :: (flushed ++ buffer.take k) = (CR :: LF :: flushed) ++ buffer.take k := rfl
    rw [happ, List.getD_append_right _ _ _ _ (by simp), List.getD_eq_getElem?_getD,
      List.getD_eq_getElem?_getD, List.getElem?_take_of_lt (by simp; omega)]
    congr 2
    simp
  unfold nextTail
  split
  · unfold tailOf
    rw [hlen, show flushed.length + k = flushed.length + 2 + (k - 2) by omega, hread _ (by omega),
      show flushed.length + 2 + (k - 2) + 1 = flushed.length + 2 + (k - 1) by omega,
      hread _ (by omega)]
  · split
    · subst k
      unfold tailOf
      rw [hlen, show flushed.length + 1 + 1 = flushed.length + 2 + 0 by omega, hread _ (by omega)]
      simp only [Prod.mk.injEq, and_true]
      rw [← List.cons_append, ← List.cons_append, List.getD_append _ _ _ _ (by simp)]
    · rw [show k = 0 by omega]
      simp

/-! ## The marker search -/

theorem getD_eq_iff {l : List Byte} {i : Nat} {c : Byte} (hc : c ≠ 0) :
    l.getD i 0 = c ↔ l[i]? = some c := by
  rw [List.getD_eq_getElem?_getD]
  cases h : l[i]? with
  | none => simp [hc.symm]
  | some x => simp

/-- A byte of the stream that is not zero, read from the buffer. -/
theorem getD_buffer_iff (flushed buffer : List Byte) (i j : Nat) {c : Byte} (hc : c ≠ 0) :
    buffer.getD (i + j) 0 = c ↔ (flushed ++ buffer)[flushed.length + i + j]? = some c := by
  rw [getD_eq_iff hc, List.getElem?_append_right (by omega)]
  rw [show flushed.length + i + j - flushed.length = i + j by omega]

theorem byteBefore_iff (flushed buffer : List Byte) (i : Nat) :
    (byteBefore buffer (tailOf flushed) i 1 = LF ↔
        (CR :: LF :: (flushed ++ buffer))[flushed.length + i + 1]? = some LF) ∧
      (byteBefore buffer (tailOf flushed) i 2 = CR ↔
        (CR :: LF :: (flushed ++ buffer))[flushed.length + i]? = some CR) := by
  have hb1 := byteBefore_tailOf flushed buffer i 1 (.inl rfl)
  have hb2 := byteBefore_tailOf flushed buffer i 2 (.inr rfl)
  rw [show flushed.length + i + 2 - 1 = flushed.length + i + 1 by omega] at hb1
  rw [show flushed.length + i + 2 - 2 = flushed.length + i by omega] at hb2
  rw [hb1, hb2]
  exact ⟨getD_eq_iff (by decide), getD_eq_iff (by decide)⟩

/-- The end-of-data marker of the stream, read the way the search reads it. -/
theorem terminatorAt_buffer (flushed buffer : List Byte) (i : Nat) :
    TerminatorAt (flushed ++ buffer) (flushed.length + i) ↔
      byteBefore buffer (tailOf flushed) i 2 = CR ∧ byteBefore buffer (tailOf flushed) i 1 = LF ∧
      buffer.getD i 0 = DOT ∧ buffer.getD (i + 1) 0 = CR ∧ buffer.getD (i + 2) 0 = LF := by
  obtain ⟨hb1, hb2⟩ := byteBefore_iff flushed buffer i
  have h0 := getD_buffer_iff flushed buffer i 0 (c := DOT) (by decide)
  have h1 := getD_buffer_iff flushed buffer i 1 (c := CR) (by decide)
  have h2 := getD_buffer_iff flushed buffer i 2 (c := LF) (by decide)
  simp only [Nat.add_zero] at h0
  rw [terminatorAt_iff, ← hb1, ← hb2, ← h1, ← h2, ← h0]

/-- With incorrect line endings refused, a turn of the search recognises the
end-of-data marker of the stream and nothing else. -/
theorem markerAt_strict (flushed buffer : List Byte) (i : Nat) (hi : i < buffer.length) :
    markerAt false buffer (tailOf flushed) i =
      if TerminatorAt (flushed ++ buffer) (flushed.length + i) then some ⟨i, 3, false⟩
      else none := by
  have hlen2 : buffer.getD (i + 2) 0 = LF → i + 2 < buffer.length := by
    intro h
    by_contra hge
    rw [List.getD_eq_default _ _ (by omega)] at h
    exact absurd h (by decide)
  have hiff := terminatorAt_buffer flushed buffer i
  unfold markerAt
  simp only [hiff]
  generalize buffer.getD (i + 1) 0 = x1
  generalize buffer.getD (i + 2) 0 = x2 at hlen2 ⊢
  generalize buffer.getD i 0 = x0
  generalize byteBefore buffer (tailOf flushed) i 1 = y1
  generalize byteBefore buffer (tailOf flushed) i 2 = y2
  by_cases c0 : x0 = DOT
  · by_cases c1 : y1 = LF
    · by_cases c3 : x1 = CR ∧ x2 = LF
      · have hlt := hlen2 c3.2
        by_cases c2 : y2 = CR
        · simp [c0, c1, c2, c3, hlt]
        · simp [c0, c1, c2, c3, hlt]
      · by_cases c4 : x1 = LF
        · simp [c0, c1, c4]
          omega
        · by_cases c5 : x1 = CR
          · have c6 : x2 ≠ LF := fun h => c3 ⟨c5, h⟩
            simp [c0, c1, c5, c6]
          · simp [c0, c1, c4, c5]
    · simp [c0, c1]
  · simp [c0]

/-- The search finds the first marker of the stream from `scanFrom` on. -/
theorem findMarker_some {flushed buffer : List Byte} {scanFrom : Nat} {m : Marker}
    (h : findMarker false buffer (tailOf flushed) scanFrom = some m) :
    ∃ i, m = ⟨i, 3, false⟩ ∧ TerminatorAt (flushed ++ buffer) (flushed.length + i) ∧
      ∀ j, scanFrom ≤ j → j < i → ¬ TerminatorAt (flushed ++ buffer) (flushed.length + j) := by
  obtain ⟨l₁, i, l₂, hl, hm, hbefore⟩ := List.findSome?_eq_some_iff.mp h
  obtain ⟨k, hk, rfl, hcons⟩ := List.range'_eq_append_iff.mp hl
  obtain ⟨rfl, hpos, -⟩ := List.range'_eq_cons_iff.mp hcons.symm
  rw [markerAt_strict flushed buffer _ (by omega)] at hm
  split at hm
  · rename_i hterm
    refine ⟨_, (Option.some.inj hm).symm, hterm, ?_⟩
    intro j hj hjk hterm'
    have := hbefore j (by rw [List.mem_range']; exact ⟨j - scanFrom, by omega, by omega⟩)
    rw [markerAt_strict flushed buffer _ (by omega), if_pos hterm'] at this
    cases this
  · cases hm

theorem findMarker_none {flushed buffer : List Byte} {scanFrom : Nat}
    (h : findMarker false buffer (tailOf flushed) scanFrom = none) (i : Nat) (hi : scanFrom ≤ i) :
    ¬ TerminatorAt (flushed ++ buffer) (flushed.length + i) := by
  intro hterm
  have hlen := hterm.le_length
  rw [List.length_append] at hlen
  have := List.findSome?_eq_none_iff.mp h i
    (by rw [List.mem_range']; exact ⟨i - scanFrom, by omega, by omega⟩)
  rw [markerAt_strict flushed buffer _ (by omega), if_pos hterm] at this
  cases this

/-! ## What one flush does -/

/-- The size limit is off, or `n` octets stay within it. -/
def WithinLimit (b : TransparentTransmissionBuffer) (n : Nat) : Prop :=
  b.maxSizeKB = 0 ∨ n / 1024 ≤ b.maxSizeKB

theorem WithinLimit.mono {b : TransparentTransmissionBuffer} {m n : Nat} (h : b.WithinLimit n)
    (hmn : m ≤ n) : b.WithinLimit m := by
  rcases h with h | h
  · exact .inl h
  · exact .inr (Nat.le_trans (Nat.div_le_div_right hmn) h)

theorem saveToFile_spec (env : TransmissionEnvironment) (b : TransparentTransmissionBuffer)
    (data : List Byte) (hopen : b.fileIsOpen = true) :
    ∃ sp wf wc, b.saveToFile env data =
        .ok { b with spool := sp, writeFailed := wf, writesCompleted := wc } ∧
      (b.writeFailed = true → wf = true) ∧
      (b.cancelTransmission = false → wf = false → b.WithinLimit b.dataSent →
        sp = b.spool ++ data) ∧
      (¬ b.WithinLimit b.dataSent → sp = b.spool) := by
  unfold saveToFile
  split
  · rename_i hlim
    refine ⟨b.spool, b.writeFailed, b.writesCompleted, rfl, id, ?_, fun _ => rfl⟩
    intro _ _ hw
    rcases hw with hw | hw <;> omega
  · rename_i hlim
    have hin : b.WithinLimit b.dataSent := by
      unfold WithinLimit
      omega
    split
    · rename_i hc
      refine ⟨b.spool, b.writeFailed, b.writesCompleted, rfl, id, ?_, fun _ => rfl⟩
      intro hc'
      rw [hc] at hc'
      cases hc'
    · split
      · exact ⟨b.spool, true, b.writesCompleted, rfl, fun _ => rfl, fun _ h => (by cases h),
          fun _ => rfl⟩
      · rw [if_neg (by simp [hopen])]
        dsimp only
        split
        · exact ⟨_, true, b.writesCompleted, rfl, fun _ => rfl, fun _ h => (by cases h),
            fun h => absurd hin h⟩
        · rename_i hfull
          refine ⟨_, b.writeFailed, _, rfl, id, fun _ _ _ => ?_, fun h => absurd hin h⟩
          rw [not_not.mp hfull, List.take_length]

/-- `b'` is `b` after a flush moved its first `k` bytes towards the file. -/
structure FlushedBy (b b' : TransparentTransmissionBuffer) (k : Nat) : Prop where
  isSending : b'.isSending = b.isSending
  binaryMode : b'.binaryMode = b.binaryMode
  ended : b'.transmissionEnded = b.transmissionEnded
  dataSent : b'.dataSent = b.dataSent
  maxSizeKB : b'.maxSizeKB = b.maxSizeKB
  surplus : b'.surplusAfterTerminator = b.surplusAfterTerminator
  fileIsOpen : b'.fileIsOpen = !b.transmissionEnded
  le : k ≤ b.buffer.length
  buffer : b'.buffer = b.buffer.drop k
  tail : b'.flushedTail = nextTail b.buffer b.flushedTail k
  carry : b'.previousChunkEndedWithNewline =
    if k = 0 then b.previousChunkEndedWithNewline else (b.buffer.take k).getLast? == some LF
  cancel : b'.cancelTransmission =
    (b.cancelTransmission || decide (b.buffer.length > maxLineLength))
  writeFailed : b.writeFailed = true → b'.writeFailed = true
  spool : b'.cancelTransmission = false → b'.writeFailed = false → b.WithinLimit b.dataSent →
    b'.spool = b.spool ++ unstuff b.previousChunkEndedWithNewline (b.buffer.take k)
  overLimit : ¬ b.WithinLimit b.dataSent → b'.spool = b.spool
  atNewline : b'.cancelTransmission = false → k = 0 ∨ b.buffer.getD (k - 1) 0 = LF
  whole : b'.cancelTransmission = false → b.transmissionEnded = true →
    (b.buffer = [] ∨ b.buffer.getLast? = some LF) → k = b.buffer.length

theorem findCut_le {buffer : List Byte} {force : Bool} {stop n k : Nat}
    (h : findCut buffer force stop n = some k) : 0 < k ∧ k ≤ n := by
  induction n with
  | zero => simp [findCut] at h
  | succ n ih =>
    simp only [findCut] at h
    split at h
    · split at h
      · have := Option.some.inj h
        omega
      · have := ih h
        omega
    · cases h

theorem findCut_newline {buffer : List Byte} {stop n k : Nat}
    (h : findCut buffer false stop n = some k) : buffer.getD (k - 1) 0 = LF := by
  induction n with
  | zero => simp [findCut] at h
  | succ n ih =>
    simp only [findCut] at h
    split at h
    · split at h
      · rename_i hlf
        have hk := Option.some.inj h
        subst hk
        simpa using hlf
      · exact ih h
    · cases h

theorem findCut_forced (buffer : List Byte) {stop n : Nat} (h : stop < n) :
    findCut buffer true stop n = some n := by
  cases n with
  | zero => omega
  | succ n => simp [findCut, h]

theorem findCut_last {buffer : List Byte} (h : buffer.getLast? = some LF) (force : Bool) :
    findCut buffer force 0 buffer.length = some buffer.length := by
  have hne : buffer ≠ [] := by
    rintro rfl
    simp at h
  obtain ⟨a, c, rfl⟩ : ∃ a c, buffer = a ++ [c] :=
    ⟨_, _, (List.dropLast_concat_getLast hne).symm⟩
  have hlen : (a ++ [c]).length = a.length + 1 := by simp
  have hc : c = LF := by simpa using h
  rw [hlen]
  simp [findCut, hc]

/-- Moving `k` bytes out of a receiving buffer. -/
theorem flushOut_receiver (env : TransmissionEnvironment) (b : TransparentTransmissionBuffer)
    (k : Nat) (hstrict : env.allowIncorrectLineEndings = false) (hs : b.isSending = false)
    (hopen : b.fileIsOpen = true) :
    ∃ sp wf wc, b.flushOut env k = .ok { b with
        lastSendEndedWithNewline := b.buffer.getD (k - 1) 0 == LF
        flushedTail := nextTail b.buffer b.flushedTail k
        buffer := b.buffer.drop k
        previousChunkEndedWithCarriageReturn := (b.buffer.take k).getLast? == some CR
        previousChunkEndedWithNewline := (b.buffer.take k).getLast? == some LF
        spool := sp, writeFailed := wf, writesCompleted := wc } ∧
      (b.writeFailed = true → wf = true) ∧
      (b.cancelTransmission = false → wf = false → b.WithinLimit b.dataSent →
        sp = b.spool ++ unstuff b.previousChunkEndedWithNewline (b.buffer.take k)) ∧
      (¬ b.WithinLimit b.dataSent → sp = b.spool) := by
  unfold flushOut
  simp only [hs, Bool.false_eq_true, if_false, removeTransmissionPeriod, hstrict, Bool.and_false,
    removePeriods_eq, Option.elim_none]
  exact saveToFile_spec env _ _ hopen

/-- A flush towards the file, forced by an over-long line or not, moves some
prefix of the buffer. -/
theorem flush_receiver (env : TransmissionEnvironment) (b : TransparentTransmissionBuffer)
    (hstrict : env.allowIncorrectLineEndings = false) (hs : b.isSending = false)
    (hb : b.binaryMode = false) (hopen : b.fileIsOpen = true) :
    ∃ d b' k, b.flush env false = .ok (d, b') ∧ FlushedBy b b' k := by
  unfold flush
  split
  · -- no flush is due: in particular the buffer is short and the data has not ended
    rename_i hno
    simp only [getRequiresFlush, Bool.not_false, Bool.and_true, Bool.not_eq_true',
      Bool.or_eq_false_iff, decide_eq_false_iff_not] at hno
    obtain ⟨hlen, hend⟩ := hno
    refine ⟨false, b, 0, rfl, rfl, rfl, rfl, rfl, rfl, rfl, by rw [hopen, hend]; rfl,
      Nat.zero_le _, by simp, rfl, by simp, ?_, id, by simp [unstuff], fun _ => rfl,
      fun _ => .inl rfl, ?_⟩
    · rw [decide_eq_false (by unfold maxLineLength; omega), Bool.or_false]
    · intro _ h
      rw [hend] at h
      cases h
  · rw [if_neg (by simp [hb])]
    -- a cancelled transmission tells nothing about the cut, so only the other case matters
    have hshort : (b.cancelTransmission || decide (b.buffer.length > maxLineLength)) = false →
        (false || decide (b.buffer.length > maxLineLength)) = false ∧
        (if b.buffer.length > maxLineLength then b.buffer.length - maxLineLength else 0) = 0 := by
      intro h
      have h := (Bool.or_eq_false_iff.mp h).2
      exact ⟨h, if_neg (of_decide_eq_false h)⟩
    have hclosed : (b.fileIsOpen && !(b.transmissionEnded && b.fileIsOpen)) =
        !b.transmissionEnded := by
      rw [hopen, Bool.and_true, Bool.true_and]
    dsimp only
    split
    · rename_i hcut
      refine ⟨false, _, 0, rfl, rfl, rfl, rfl, rfl, rfl, rfl, hclosed, Nat.zero_le _,
        by simp [closeIfEnded, checkLineLength], rfl, by simp [closeIfEnded, checkLineLength], rfl,
        ?_, ?_, fun _ => rfl, fun _ => .inl rfl, ?_⟩
      · intro h
        simp [closeIfEnded, checkLineLength, h]
      · intro _ _ _
        simp [closeIfEnded, checkLineLength, unstuff]
      · intro hc _ hlast
        obtain ⟨hf, hz⟩ := hshort hc
        by_contra hne
        have hne : b.buffer ≠ [] := fun h => hne (by rw [h]; rfl)
        change findCut b.buffer _ _ b.buffer.length = none at hcut
        rw [show b.checkLineLength.buffer = b.buffer from rfl, hf, hz,
          findCut_last (hlast.resolve_left hne)] at hcut
        cases hcut
    · rename_i k hcut
      obtain ⟨hpos, hle⟩ := findCut_le hcut
      obtain ⟨sp, wf, wc, hout, hwf, hsp, hover⟩ :=
        flushOut_receiver env b.checkLineLength k hstrict hs hopen
      rw [hout]
      refine ⟨true, _, k, rfl, rfl, rfl, rfl, rfl, rfl, rfl, hclosed, hle, rfl, rfl, ?_, rfl,
        ?_, ?_, hover, ?_, ?_⟩
      · rw [if_neg (Nat.ne_of_gt hpos)]
        rfl
      · intro h
        simp [closeIfEnded, hwf h]
      · intro hc hw hlim
        exact hsp hc (Bool.or_eq_false_iff.mp hw).1 hlim
      · intro hc
        obtain ⟨hf, hz⟩ := hshort hc
        rw [show b.checkLineLength.buffer = b.buffer from rfl, hf, hz] at hcut
        exact .inr (findCut_newline hcut)
      · intro hc _ hlast
        obtain ⟨hf, hz⟩ := hshort hc
        rw [show b.checkLineLength.buffer = b.buffer from rfl, hf, hz] at hcut
        have hne : b.buffer ≠ [] := by
          intro h
          have hle : k ≤ b.buffer.length := hle
          rw [h, List.length_nil] at hle
          omega
        rw [findCut_last (hlast.resolve_left hne)] at hcut
        exact (Option.some.inj hcut).symm

/-! ## The correspondence between the buffer and the stream -/

/-- `flushed` has left the buffer, as whole lines, and its text is in the spool
unless a write failed or `limit` octets are over the size limit. -/
structure FlushedLines (b : TransparentTransmissionBuffer) (flushed : List Byte) (limit : Nat) :
    Prop where
  tail : b.flushedTail = tailOf flushed
  carry : b.previousChunkEndedWithNewline = true
  line : lineStart true flushed = true
  spool : b.writeFailed = false → b.WithinLimit limit → b.spool = unstuff true flushed

/-- A receiving buffer that has been fed `fed` and has not seen the end of data. -/
structure Receiving (b : TransparentTransmissionBuffer) (fed : List Byte) : Prop where
  notSending : b.isSending = false
  notBinary : b.binaryMode = false
  notEnded : b.transmissionEnded = false
  notCancelled : b.cancelTransmission = false
  fileOpen : b.fileIsOpen = true
  noSurplus : b.surplusAfterTerminator = none
  size : b.dataSent = fed.length
  noMarker : ∀ p, ¬ TerminatorAt fed p
  split : ∃ flushed, fed = flushed ++ b.buffer ∧ b.FlushedLines flushed fed.length

/-- The surplus field holds `rest`, as a null pointer when there is none. -/
def HoldsSurplus (b : TransparentTransmissionBuffer) (rest : List Byte) : Prop :=
  b.surplusAfterTerminator = if rest = [] then none else some rest

/-- A receiving buffer whose last append found the end of data at `p`, before
the flush that follows. -/
structure AtEnd (b : TransparentTransmissionBuffer) (fed : List Byte) (p : Nat) : Prop where
  notSending : b.isSending = false
  notBinary : b.binaryMode = false
  ended : b.transmissionEnded = true
  fileOpen : b.fileIsOpen = true
  first : FirstTerminatorAt fed p
  surplus : b.HoldsSurplus (fed.drop (p + 3))
  size : b.dataSent = p
  split : ∃ flushed, fed.take p = flushed ++ b.buffer ∧ b.FlushedLines flushed (p + 2) ∧
    (b.buffer = [] ∨ b.buffer.getLast? = some LF)

/-- A marker cannot start in front of the buffer unless the bytes fed before
already held it: what was flushed ends with a newline. -/
theorem marker_in_buffer {flushed rest : List Byte} {p : Nat} (hline : lineStart true flushed = true)
    (hold : ¬ TerminatorAt flushed p) (h : TerminatorAt (flushed ++ rest) p) :
    flushed.length ≤ p := by
  by_contra hlt
  have hlt : p < flushed.length := by omega
  obtain ⟨a, c, rfl⟩ : ∃ a c, flushed = a ++ [c] := by
    refine ⟨_, _, (List.dropLast_concat_getLast (l := flushed) ?_).symm⟩
    rintro rfl
    simp at hlt
  rw [lineStart_concat] at hline
  have hc : c = LF := by simpa using hline
  subst hc
  have hlast : (a ++ [LF] ++ rest)[a.length]? = some LF := by simp
  obtain ⟨-, -, hd, hcr, -⟩ := (terminatorAt_iff _ _).mp h
  rw [List.length_append, List.length_singleton] at hlt
  have h1 : p ≠ a.length := by
    rintro rfl
    rw [hd] at hlast
    simp at hlast
  have h2 : p + 1 ≠ a.length := by
    intro e
    rw [e, hlast] at hcr
    simp at hcr
  exact hold (h.of_append (by simp; omega))

/-- The byte in front of a marker's dot is a newline, wherever the stream is cut. -/
theorem newline_before_marker {flushed buffer : List Byte} {i : Nat}
    (h : TerminatorAt (flushed ++ buffer) (flushed.length + i)) :
    buffer.take i = [] ∨ (buffer.take i).getLast? = some LF := by
  cases i with
  | zero => simp
  | succ i =>
    right
    have hlen := h.le_length
    rw [List.length_append] at hlen
    obtain ⟨-, hlf, -⟩ := (terminatorAt_iff _ _).mp h
    rw [show flushed.length + (i + 1) + 1 = (flushed.length + i) + 1 + 1 by omega,
      List.getElem?_cons_succ, List.getElem?_cons_succ,
      List.getElem?_append_right (by omega)] at hlf
    rw [List.getLast?_eq_getElem?, List.length_take, List.getElem?_take_of_lt (by omega)]
    rw [show min (i + 1) buffer.length - 1 = flushed.length + i - flushed.length by omega]
    exact hlf

/-- Appending a segment: the stream still has no marker and the correspondence
goes on, or its first marker was found. -/
theorem append_receiving (env : TransmissionEnvironment)
    (hstrict : env.allowIncorrectLineEndings = false) {b : TransparentTransmissionBuffer}
    {fed : List Byte} (h : b.Receiving fed) (data : List Byte) :
    (b.append env data).Receiving (fed ++ data) ∨
      ∃ p, (b.append env data).AtEnd (fed ++ data) p := by
  obtain ⟨flushed, hfed, hlines⟩ := h.split
  have hstream : fed ++ data = flushed ++ (b.buffer ++ data) := by rw [hfed, List.append_assoc]
  have hsize : fed.length = flushed.length + b.buffer.length := by rw [hfed, List.length_append]
  -- a marker of the longer stream has its dot in the buffer, and behind `scanFrom`
  have hnew : ∀ p, TerminatorAt (flushed ++ (b.buffer ++ data)) p →
      flushed.length ≤ p ∧ fed.length < p + 3 := by
    intro p hp
    refine ⟨marker_in_buffer hlines.line ?_ hp, ?_⟩
    · intro hold
      exact h.noMarker p (hfed ▸ hold.append b.buffer)
    · by_contra hle
      rw [← hstream] at hp
      exact h.noMarker p (hp.of_append (by omega))
  have hkeep : (∀ p, ¬ TerminatorAt (fed ++ data) p) →
      ({ b with dataSent := b.dataSent + data.length, buffer := b.buffer ++ data } :
        TransparentTransmissionBuffer).Receiving (fed ++ data) := by
    intro hno
    refine ⟨h.notSending, h.notBinary, h.notEnded, h.notCancelled, h.fileOpen, h.noSurplus, ?_,
      hno, flushed, hstream, hlines.tail, hlines.carry, hlines.line, ?_⟩
    · simp [h.size]
    · intro hw hlim
      exact hlines.spool hw (hlim.mono (by simp))
  unfold append
  split
  · rename_i hnil
    rw [List.eq_nil_of_length_eq_zero hnil, List.append_nil]
    exact .inl h
  · dsimp only
    split
    · split
      · -- no marker found
        rename_i hfind
        rw [hstrict, hlines.tail] at hfind
        refine .inl (hkeep ?_)
        intro p hp
        rw [hstream] at hp
        obtain ⟨hle, hlt⟩ := hnew p hp
        obtain ⟨i, rfl⟩ := Nat.exists_eq_add_of_le hle
        refine findMarker_none hfind i ?_ hp
        split <;> simp only [List.length_append] at * <;> omega
      · rename_i m hfind
        rw [hstrict, hlines.tail] at hfind
        obtain ⟨i, rfl, hterm, hfirst⟩ := findMarker_some hfind
        have hlen := hterm.le_length
        simp only [List.length_append] at hlen
        refine .inr ⟨flushed.length + i, h.notSending, h.notBinary, rfl, h.fileOpen, ?_, ?_, ?_,
          flushed, ?_, ⟨hlines.tail, hlines.carry, hlines.line, ?_⟩, newline_before_marker hterm⟩
        · rw [hstream]
          refine ⟨hterm, ?_⟩
          intro q hq hqterm
          obtain ⟨hle, hlt⟩ := hnew q hqterm
          obtain ⟨j, rfl⟩ := Nat.exists_eq_add_of_le hle
          refine hfirst j ?_ (by omega) hqterm
          split <;> simp only [List.length_append] at * <;> omega
        · have hdrop : (fed ++ data).drop (flushed.length + i + 3) =
              (b.buffer ++ data).drop (i + 3) := by
            rw [hstream, show flushed.length + i + 3 = flushed.length + (i + 3) by omega,
              List.drop_length_add_append]
          simp only [HoldsSurplus, endOnMarker, hdrop, List.drop_eq_nil_iff, h.noSurplus]
          by_cases hrest : (b.buffer ++ data).length ≤ i + 3
          · rw [if_neg (by omega), if_pos hrest]
          · rw [if_pos (by omega), if_neg hrest]
        · simp only [endOnMarker, h.size, hsize, List.length_append]
          split <;> omega
        · rw [hstream, List.take_length_add_append]
          rfl
        · intro hw hlim
          refine hlines.spool hw (hlim.mono ?_)
          have := (hnew _ hterm).2
          omega
    · -- fewer than two bytes in the buffer cannot hold a marker
      rename_i hguard
      refine .inl (hkeep ?_)
      intro p hp
      rw [hstream] at hp
      have hle := (hnew p hp).1
      have hlen := hp.le_length
      simp only [List.length_append] at hlen
      exact hguard ⟨by simp only [List.length_append]; omega, h.notSending, h.notBinary⟩

/-- What a flush that does not cancel moves out are whole lines again. -/
theorem FlushedBy.lines {b b' : TransparentTransmissionBuffer} {k limit : Nat}
    {flushed : List Byte} (hby : FlushedBy b b' k) (hc : b'.cancelTransmission = false)
    (hlines : b.FlushedLines flushed limit) (hle : b.dataSent ≤ limit) :
    b'.FlushedLines (flushed ++ b.buffer.take k) limit := by
  have hlast : k ≠ 0 → (b.buffer.take k).getLast? = some LF := by
    intro hk
    have hlf := (hby.atNewline hc).resolve_left hk
    rw [getD_eq_iff (by decide)] at hlf
    have := hby.le
    rw [List.getLast?_eq_getElem?, List.length_take, List.getElem?_take_of_lt (by omega),
      show min k b.buffer.length - 1 = k - 1 by omega]
    exact hlf
  have hcarry : b'.previousChunkEndedWithNewline = true := by
    rw [hby.carry]
    split
    · exact hlines.carry
    · rename_i hk
      simp [hlast hk]
  refine ⟨?_, hcarry, ?_, ?_⟩
  · rw [hby.tail, hlines.tail, nextTail_tailOf _ _ _ hby.le]
  · rw [lineStart_append, hlines.line]
    by_cases hk : b.buffer.take k = []
    · rw [hk]
      rfl
    · rw [← getLast_eq_lineStart true hk, hlast (by rintro rfl; simp at hk)]
      simp
  · intro hw hlim
    have hlim : b.WithinLimit limit := by
      unfold WithinLimit at hlim ⊢
      rwa [hby.maxSizeKB] at hlim
    have hw0 : b.writeFailed = false := by
      cases h : b.writeFailed
      · rfl
      · rw [hby.writeFailed h] at hw
        cases hw
    rw [hby.spool hc hw (hlim.mono hle), hlines.spool hw0 hlim, unstuff_append, hlines.line,
      hlines.carry]

/-- A flush in mid-stream keeps the correspondence, unless it cancels. -/
theorem FlushedBy.receiving {b b' : TransparentTransmissionBuffer} {k : Nat} {fed : List Byte}
    (hby : FlushedBy b b' k) (h : b.Receiving fed) (hc : b'.cancelTransmission = false) :
    b'.Receiving fed := by
  obtain ⟨flushed, hfed, hlines⟩ := h.split
  refine ⟨hby.isSending.trans h.notSending, hby.binaryMode.trans h.notBinary,
    hby.ended.trans h.notEnded, hc, by rw [hby.fileIsOpen, h.notEnded]; rfl,
    hby.surplus.trans h.noSurplus, hby.dataSent.trans h.size, h.noMarker,
    flushed ++ b.buffer.take k, ?_, hby.lines hc hlines (Nat.le_of_eq h.size)⟩
  rw [hby.buffer, List.append_assoc, List.take_append_drop, hfed]

/-- What a receiving buffer has produced once the data ended at `p`. -/
structure Received (b : TransparentTransmissionBuffer) (fed : List Byte) (p : Nat) : Prop where
  ended : b.transmissionEnded = true
  first : FirstTerminatorAt fed p
  surplus : b.HoldsSurplus (fed.drop (p + 3))
  size : b.getSize = p
  spool : b.cancelTransmission = false → b.writeFailed = false → b.WithinLimit (p + 2) →
    b.spool = unstuff true (fed.take p)

/-- The flush behind the end of data writes the rest of the message. -/
theorem FlushedBy.received {b b' : TransparentTransmissionBuffer} {k p : Nat} {fed : List Byte}
    (hby : FlushedBy b b' k) (h : b.AtEnd fed p) : b'.Received fed p := by
  refine ⟨hby.ended.trans h.ended, h.first, ?_, hby.dataSent.trans h.size, ?_⟩
  · unfold HoldsSurplus
    rw [hby.surplus]
    exact h.surplus
  · intro hc hw hlim
    obtain ⟨flushed, htake, hlines, hlast⟩ := h.split
    have hspool := (hby.lines hc hlines (by rw [h.size]; omega)).spool hw hlim
    rw [hby.whole hc h.ended hlast, List.take_length] at hspool
    rw [hspool, htake]

/-! ## A whole transmission -/

/-- Append and `Flush()` each segment, up to the first append after which the
transmission has ended; with the segments that were appended. -/
def receive (env : TransmissionEnvironment) :
    TransparentTransmissionBuffer → List (List Byte) →
      Except TransmissionFault (TransparentTransmissionBuffer × List (List Byte))
  | b, [] => .ok (b, [])
  | b, data :: rest => do
    let b := b.append env data
    let (_, b) ← b.flush env false
    if b.transmissionEnded then return (b, [data])
    let (b, fed) ← receive env b rest
    return (b, data :: fed)

/-- The buffer `ProtocolDATA_` makes: constructed, opened on the spool file and
given the size limit. -/
def receiver (maxSizeKB : Nat) : TransparentTransmissionBuffer :=
  (initializeFile { isSending := false }).setMaxSizeKB maxSizeKB

theorem receiver_receiving (maxSizeKB : Nat) : (receiver maxSizeKB).Receiving [] := by
  refine ⟨rfl, rfl, rfl, rfl, rfl, rfl, rfl, ?_, [], rfl, tailOf_nil, rfl, rfl, fun _ _ => rfl⟩
  intro p h
  have := h.le_length
  simp at this

theorem append_frame (env : TransmissionEnvironment) (b : TransparentTransmissionBuffer)
    (data : List Byte) :
    (b.append env data).isSending = b.isSending ∧ (b.append env data).binaryMode = b.binaryMode ∧
    (b.append env data).fileIsOpen = b.fileIsOpen ∧
    (b.append env data).cancelTransmission = b.cancelTransmission ∧
    (b.append env data).maxSizeKB = b.maxSizeKB ∧ (b.append env data).spool = b.spool := by
  unfold append
  split
  · simp
  · dsimp only
    split
    · split <;> simp [endOnMarker]
    · simp

/-- A cancelled transmission goes on reading and stays cancelled. -/
theorem receive_cancelled (env : TransmissionEnvironment)
    (hstrict : env.allowIncorrectLineEndings = false) (chunks : List (List Byte))
    (b : TransparentTransmissionBuffer) (hs : b.isSending = false) (hb : b.binaryMode = false)
    (hopen : b.fileIsOpen = true) (hc : b.cancelTransmission = true) :
    ∃ b' fed, receive env b chunks = .ok (b', fed) ∧ b'.cancelTransmission = true := by
  induction chunks generalizing b with
  | nil => exact ⟨b, [], rfl, hc⟩
  | cons data rest ih =>
    obtain ⟨es, eb, eo, ec, -⟩ := append_frame env b data
    obtain ⟨d, b', k, hflush, hby⟩ := flush_receiver env (b.append env data) hstrict
      (es.trans hs) (eb.trans hb) (eo.trans hopen)
    have hc' : b'.cancelTransmission = true := by rw [hby.cancel, ec, hc]; rfl
    simp only [receive, hflush]
    cases hend : b'.transmissionEnded with
    | true => exact ⟨b', [data], by simp [hend, bind, Except.bind, pure, Except.pure], hc'⟩
    | false =>
      have hopen' : b'.fileIsOpen = true := by rw [hby.fileIsOpen, ← hby.ended, hend]; rfl
      obtain ⟨b'', fed, hrun, hc''⟩ := ih b' (hby.isSending.trans (es.trans hs))
        (hby.binaryMode.trans (eb.trans hb)) hopen' hc'
      refine ⟨b'', data :: fed, ?_, hc''⟩
      simp [hend, hrun, bind, Except.bind, pure, Except.pure]

/-- A run from mid-stream never faults; unless it is cancelled it takes every
segment without meeting a marker, or ends at the first segment that completes one. -/
theorem receive_run (env : TransmissionEnvironment)
    (hstrict : env.allowIncorrectLineEndings = false) (chunks : List (List Byte))
    (b : TransparentTransmissionBuffer) (before : List Byte) (h : b.Receiving before) :
    ∃ b' fed, receive env b chunks = .ok (b', fed) ∧ (b'.cancelTransmission = false →
      b'.maxSizeKB = b.maxSizeKB ∧
      ((fed = chunks ∧ b'.Receiving (before ++ chunks.flatten)) ∨
        ∃ n p, n < chunks.length ∧ fed = chunks.take (n + 1) ∧
          (∀ q, ¬ TerminatorAt (before ++ (chunks.take n).flatten) q) ∧
          b'.Received (before ++ fed.flatten) p)) := by
  induction chunks generalizing b before with
  | nil => exact ⟨b, [], rfl, fun _ => ⟨rfl, .inl ⟨rfl, by simpa using h⟩⟩⟩
  | cons data rest ih =>
    obtain ⟨es, eb, eo, ec, em, -⟩ := append_frame env b data
    rcases append_receiving env hstrict h data with hr | ⟨p, hend⟩
    · obtain ⟨d, b', k, hflush, hby⟩ := flush_receiver env (b.append env data) hstrict
        hr.notSending hr.notBinary hr.fileOpen
      have hnot : b'.transmissionEnded = false := hby.ended.trans hr.notEnded
      have hstep : ∀ b'' fed, receive env b' rest = .ok (b'', fed) →
          receive env b (data :: rest) = .ok (b'', data :: fed) := by
        intro b'' fed hrun
        simp [receive, hflush, hnot, hrun, bind, Except.bind, pure, Except.pure]
      cases hc : b'.cancelTransmission with
      | true =>
        obtain ⟨b'', fed, hrun, hc''⟩ := receive_cancelled env hstrict rest b'
          (hby.isSending.trans hr.notSending) (hby.binaryMode.trans hr.notBinary)
          (by rw [hby.fileIsOpen, hr.notEnded]; rfl) hc
        refine ⟨b'', data :: fed, hstep b'' fed hrun, ?_⟩
        intro hno
        rw [hc''] at hno
        cases hno
      | false =>
        obtain ⟨b'', fed, hrun, hout⟩ := ih b' (before ++ data) (hby.receiving hr hc)
        refine ⟨b'', data :: fed, hstep b'' fed hrun, ?_⟩
        intro hc''
        obtain ⟨hmax, hout⟩ := hout hc''
        refine ⟨hmax.trans (hby.maxSizeKB.trans em), ?_⟩
        rcases hout with ⟨rfl, hrec⟩ | ⟨n, p, hn, hfed, hno, hrec⟩
        · exact .inl ⟨rfl, by simpa using hrec⟩
        · refine .inr ⟨n + 1, p, by simpa using hn, by simp [hfed], ?_, by simpa using hrec⟩
          intro q
          simpa using hno q
    · obtain ⟨d, b', k, hflush, hby⟩ := flush_receiver env (b.append env data) hstrict
        hend.notSending hend.notBinary hend.fileOpen
      have hrec := hby.received hend
      refine ⟨b', [data], ?_, fun _ => ⟨hby.maxSizeKB.trans em, .inr ⟨0, p, by simp, by simp, ?_, ?_⟩⟩⟩
      · simp [receive, hflush, hrec.ended, bind, Except.bind, pure, Except.pure]
      · intro q
        simpa using h.noMarker q
      · simpa using hrec

/-- The end of a run, read off the stream `w` the segments come from. -/
theorem receive_stream (env : TransmissionEnvironment)
    (hstrict : env.allowIncorrectLineEndings = false) (maxSizeKB : Nat) {w : List Byte}
    {chunks : List (List Byte)} (hw : chunks.flatten <+: w) :
    ∃ b fed, receive env (receiver maxSizeKB) chunks = .ok (b, fed) ∧
      (b.cancelTransmission = false → b.transmissionEnded = true → ∃ p, FirstTerminatorAt w p ∧
        b.HoldsSurplus (fed.flatten.drop (p + 3)) ∧ b.getSize = p ∧
        (b.writeFailed = false → maxSizeKB = 0 ∨ (p + 2) / 1024 ≤ maxSizeKB →
          b.spool = unstuff true (w.take p))) := by
  obtain ⟨b, fed, hrun, hout⟩ := receive_run env hstrict chunks _ [] (receiver_receiving maxSizeKB)
  refine ⟨b, fed, hrun, ?_⟩
  intro hc hend
  obtain ⟨hmax, ⟨-, hrec⟩ | ⟨n, p, -, hfed, -, hrec⟩⟩ := hout hc
  · rw [hrec.notEnded] at hend
    cases hend
  · rw [List.nil_append] at hrec
    have hpre : fed.flatten <+: w := by
      refine List.IsPrefix.trans ?_ hw
      rw [hfed]
      exact (List.take_prefix (n + 1) chunks).flatten
    refine ⟨p, hrec.first.of_prefix hpre, hrec.surplus, hrec.size, ?_⟩
    intro hwf hlim
    have hlen := hrec.first.1.le_length
    obtain ⟨t, rfl⟩ := hpre
    rw [hrec.spool hc hwf (by unfold WithinLimit; rw [hmax]; exact hlim),
      List.take_append_of_le_length (by omega)]

/-- A run takes the segments up to the first one that completes a marker. -/
theorem receive_stops (env : TransmissionEnvironment)
    (hstrict : env.allowIncorrectLineEndings = false) (maxSizeKB : Nat)
    {chunks fed : List (List Byte)} {b : TransparentTransmissionBuffer}
    (hrun : receive env (receiver maxSizeKB) chunks = .ok (b, fed))
    (hc : b.cancelTransmission = false) :
    (∃ n ≤ chunks.length, fed = chunks.take n ∧
      (∀ m < n, ∀ p, ¬ TerminatorAt (chunks.take m).flatten p) ∧
      (b.transmissionEnded = false → n = chunks.length)) ∧
    (b.transmissionEnded = true ↔ ∃ p, TerminatorAt fed.flatten p) := by
  obtain ⟨b', fed', hrun', hout⟩ :=
    receive_run env hstrict chunks _ [] (receiver_receiving maxSizeKB)
  rw [hrun] at hrun'
  obtain ⟨rfl, rfl⟩ := Prod.mk.inj (Except.ok.inj hrun')
  -- a marker in fewer segments would be one in more
  have hmono : ∀ m n p, m ≤ n → TerminatorAt (chunks.take m).flatten p →
      TerminatorAt (chunks.take n).flatten p := by
    intro m n p hmn h
    obtain ⟨t, ht⟩ := (List.take_prefix_take_left (l := chunks) hmn).flatten
    rw [← ht]
    exact h.append t
  obtain ⟨-, ⟨rfl, hrec⟩ | ⟨n, p, hn, hfed, hno, hrec⟩⟩ := hout hc
  · rw [List.nil_append] at hrec
    refine ⟨⟨fed.length, Nat.le_refl _, by simp, ?_, fun _ => rfl⟩, ?_⟩
    · intro m hm p h
      exact hrec.noMarker p (by simpa using hmono m fed.length p (Nat.le_of_lt hm) h)
    · rw [hrec.notEnded]
      simpa using hrec.noMarker
  · refine ⟨⟨n + 1, hn, hfed, ?_, ?_⟩, ?_⟩
    · intro m hm p h
      exact hno p (by simpa using hmono m n p (by omega) h)
    · rw [hrec.ended]
      intro h
      cases h
    · rw [hrec.ended]
      simpa using ⟨p, hrec.first.1⟩

/-- Receive framing is independent of segmentation. Whatever segments a prefix
of the stream `w` arrives in, the run stops at the first of them that completes
an end-of-data marker, and then the surplus, the size and the spool are functions
of the stream alone. -/
theorem receive_framing (env : TransmissionEnvironment)
    (hstrict : env.allowIncorrectLineEndings = false) (maxSizeKB : Nat) (w : List Byte)
    (chunks : List (List Byte)) (hw : chunks.flatten <+: w) :
    ∃ b fed, receive env (receiver maxSizeKB) chunks = .ok (b, fed) ∧
      (b.cancelTransmission = false →
        (∃ n ≤ chunks.length, fed = chunks.take n ∧
          (∀ m < n, ∀ p, ¬ TerminatorAt (chunks.take m).flatten p) ∧
          (b.transmissionEnded = false → n = chunks.length)) ∧
        (b.transmissionEnded = true ↔ ∃ p, TerminatorAt fed.flatten p) ∧
        (b.transmissionEnded = true → ∃ p, FirstTerminatorAt w p ∧
          b.HoldsSurplus (fed.flatten.drop (p + 3)) ∧ b.getSize = p ∧
          (b.writeFailed = false → maxSizeKB = 0 ∨ (p + 2) / 1024 ≤ maxSizeKB →
            b.spool = unstuff true (w.take p) ∧
            ∀ chunks' b' fed', chunks'.flatten <+: w →
              receive env (receiver maxSizeKB) chunks' = .ok (b', fed') →
              b'.cancelTransmission = false → b'.writeFailed = false →
              b'.transmissionEnded = true → b'.spool = b.spool))) := by
  obtain ⟨b, fed, hrun, hout⟩ := receive_stream env hstrict maxSizeKB hw
  refine ⟨b, fed, hrun, ?_⟩
  intro hc
  obtain ⟨hstop, hiff⟩ := receive_stops env hstrict maxSizeKB hrun hc
  refine ⟨hstop, hiff, ?_⟩
  intro hend
  obtain ⟨p, hfirst, hsurplus, hsize, hspool⟩ := hout hc hend
  refine ⟨p, hfirst, hsurplus, hsize, ?_⟩
  intro hwf hlim
  refine ⟨hspool hwf hlim, ?_⟩
  intro chunks' b' fed' hw' hrun' hc' hwf' hend'
  obtain ⟨b₂, fed₂, hrun₂, hout'⟩ := receive_stream env hstrict maxSizeKB hw'
  rw [hrun'] at hrun₂
  obtain ⟨rfl, rfl⟩ := Prod.mk.inj (Except.ok.inj hrun₂)
  obtain ⟨p', hfirst', -, -, hspool'⟩ := hout' hc' hend'
  obtain rfl := hfirst.unique hfirst'
  rw [hspool hwf hlim, hspool' hwf' hlim]

/-- Strict line endings, no fault injection, every write stored whole. -/
def strictEnvironment : TransmissionEnvironment :=
  { allowIncorrectLineEndings := false, messageStoreFsync := true, simulateSpoolWriteFailure := 0,
    fwrite := fun _ data => data.length, flushToDisk := true }

/-- "..a" CRLF "." CRLF "Q", cut inside the stuffed dot and inside the marker. -/
def splitDotChunks : List (List Byte) := [[46], [46, 97, 13], [10, 46, 13], [10, 81]]

theorem receive_framing_split_dot :
    (receive strictEnvironment (receiver 10) splitDotChunks).toOption.map
        (fun r => (r.1.spool, r.1.surplusAfterTerminator, r.1.getSize, r.1.cancelTransmission)) =
      some ([46, 97, 13, 10], some [81], 5, false) ∧
    ∃ b fed, receive strictEnvironment (receiver 10) splitDotChunks = .ok (b, fed) ∧
      (b.cancelTransmission = false →
        (b.transmissionEnded = true ↔ ∃ p, TerminatorAt fed.flatten p)) := by
  refine ⟨by decide, ?_⟩
  obtain ⟨b, fed, hrun, hout⟩ := receive_framing strictEnvironment rfl 10 splitDotChunks.flatten
    splitDotChunks (List.prefix_refl _)
  exact ⟨b, fed, hrun, fun hc => (hout hc).2.1⟩

/-! ## The size limit -/

/-- A message of `n + 2` octets, its last line ended, and the marker behind it. -/
def longMessage (n : Nat) : List Byte := List.replicate n 97 ++ [CR, LF, DOT, CR, LF]

theorem longMessage_first (n : Nat) : FirstTerminatorAt (longMessage n) (n + 2) := by
  have hdot : ∀ q, q < n + 2 → (longMessage n)[q]? ≠ some DOT := by
    intro q hq h
    unfold longMessage at h
    by_cases hn : q < n
    · rw [List.getElem?_append_left (by simpa using hn), List.getElem?_replicate_of_lt hn] at h
      exact absurd (Option.some.inj h) (by decide)
    · rw [List.getElem?_append_right (by simpa using hn), List.length_replicate] at h
      obtain h0 | h1 : q - n = 0 ∨ q - n = 1 := by omega
      · rw [h0] at h
        exact absurd (Option.some.inj h) (by decide)
      · rw [h1] at h
        exact absurd (Option.some.inj h) (by decide)
  refine ⟨?_, fun q hq h => hdot q hq ((terminatorAt_iff _ _).mp h).2.2.1⟩
  have hdrop : (CR :: LF :: List.replicate n 97 ++ terminator).drop (n + 2) = terminator :=
    List.drop_left' (by simp)
  unfold TerminatorAt
  change terminator <+: (CR :: LF :: List.replicate n 97 ++ terminator).drop (n + 2)
  rw [hdrop]

theorem longMessage_text (n : Nat) : unstuff true ((longMessage (n + 1)).take (n + 3)) ≠ [] := by
  simp [longMessage, List.replicate_succ, unstuff, DOT]

/-- A message over the limit ends as any other and leaves the spool empty: the
limit is enforced by not saving. -/
theorem receive_longMessage (env : TransmissionEnvironment)
    (hstrict : env.allowIncorrectLineEndings = false) (n maxSizeKB : Nat)
    (hover : 0 < maxSizeKB ∧ maxSizeKB < (n + 2) / 1024) (hline : n + 2 ≤ maxLineLength) :
    ∃ b, receive env (receiver maxSizeKB) [longMessage n] = .ok (b, [longMessage n]) ∧
      b.cancelTransmission = false ∧ b.transmissionEnded = true ∧ b.spool = [] := by
  obtain ⟨-, -, -, ec, em, esp⟩ := append_frame env (receiver maxSizeKB) (longMessage n)
  obtain hr | ⟨p, hend⟩ :=
    append_receiving env hstrict (receiver_receiving maxSizeKB) (longMessage n)
  · rw [List.nil_append] at hr
    exact absurd (longMessage_first n).1 (hr.noMarker _)
  rw [List.nil_append] at hend
  obtain rfl := hend.first.unique (longMessage_first n)
  obtain ⟨d, b, k, hflush, hby⟩ :=
    flush_receiver env _ hstrict hend.notSending hend.notBinary hend.fileOpen
  have hended : b.transmissionEnded = true := hby.ended.trans hend.ended
  refine ⟨b, ?_, ?_, hended, ?_⟩
  · simp [receive, hflush, hended, bind, Except.bind, pure, Except.pure]
  · rw [hby.cancel, ec]
    obtain ⟨flushed, htake, -⟩ := hend.split
    have hlen := congrArg List.length htake
    simp only [List.length_take, List.length_append] at hlen
    simp only [Bool.or_eq_false_iff, decide_eq_false_iff_not]
    exact ⟨rfl, by omega⟩
  · rw [hby.overLimit ?_, esp]
    · rfl
    · unfold WithinLimit
      rw [em, hend.size]
      change ¬ (maxSizeKB = 0 ∨ (n + 2) / 1024 ≤ maxSizeKB)
      omega

theorem receive_over_limit :
    ∃ b, receive strictEnvironment (receiver 1) [longMessage 2046] = .ok (b, [longMessage 2046]) ∧
      b.cancelTransmission = false ∧ b.transmissionEnded = true ∧
      FirstTerminatorAt (longMessage 2046) 2048 ∧
      b.spool ≠ unstuff true ((longMessage 2046).take 2048) := by
  obtain ⟨b, hrun, hc, hend, hspool⟩ := receive_longMessage strictEnvironment rfl 2046 1
    (by decide) (by decide)
  refine ⟨b, hrun, hc, hend, longMessage_first 2046, ?_⟩
  rw [hspool]
  exact (longMessage_text 2045).symm

end TransparentTransmissionBuffer
end HMailServer
