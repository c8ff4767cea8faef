import HMailServer.Tcp.Connection

/- Every received octet is handed over once. What has been handed over, what the
   transfer in progress has, the buffer and what is still to come are the stream, in
   this order, as long as every step keeps two conditions (`StepMeets`): the first CR
   that a line read finds belongs to the CRLF that it waited for, and what a raw read
   inflates to has room in the buffer. The pieces then depend on the stream alone. -/
namespace HMailServer.Tcp
open DotStuffing

/-! ## The property -/

/-- The octets of a piece, with the separator of a line put back. -/
def Piece.octets : Piece → List Byte
  | .line text => text ++ commandSeparator
  | .exact octets => octets
  | .transfer octets => octets
  | .cutShort octets => octets

def handedOver (pieces : List Piece) : List Byte := pieces.flatMap Piece.octets

/-- Each piece is what was asked for: a line has no CRLF inside, an exact read its
number of octets, unless the peer closed before they were there. -/
inductive Answers (p : Protocol) : List Piece → Prop where
  | nil : Answers p []
  | line {h : List Piece} {text : List Byte} : Answers p h → p h = .line → ¬commandSeparator <:+: text →
      Answers p (h ++ [.line text])
  | exact {h : List Piece} {numBytes : Nat} {octets : List Byte} : Answers p h → p h = .exact numBytes →
      octets.length = numBytes → Answers p (h ++ [.exact octets])
  | transfer {h : List Piece} {endOf : List Byte → Option Nat} {octets : List Byte} : Answers p h →
      p h = .transfer endOf → Answers p (h ++ [.transfer octets])
  | cutShort {h : List Piece} {octets : List Byte} : Answers p h → p h ≠ .line →
      (∀ numBytes, p h = .exact numBytes → octets.length < numBytes) → Answers p (h ++ [.cutShort octets])

/-- Nothing of the stream is lost, repeated or out of order. -/
structure Accounted (p : Protocol) (stream : List Byte) (c : Connection) : Prop where
  octets : handedOver c.handed ++ (c.transferred ++ (c.receiveBuffer ++ c.toCome)) = stream
  answers : Answers p c.handed

/-- The first CR in the buffer has its LF. -/
def FirstCrEndsLine (buffer : List Byte) : Prop := (buffer.dropWhile (· != CR)).take 2 = commandSeparator

/-- The condition on a step, in the state before it. -/
def StepMeets (c : Connection) : Event → Prop
  | .arrive count => c.compressionReadEnabled = true → c.receiveBuffer.length + count ≤ receiveBufferMaxSize
  | .complete => completion c = some .success → c.receiveBinary = false → FirstCrEndsLine c.receiveBuffer
  | .peerClosed => True

/-- What the callers of `EnqueueReadExact` promise. -/
def Polite (p : Protocol) : Prop := ∀ h numBytes, p h = .exact numBytes → 0 < numBytes ∧ numBytes ≤ receiveBufferMaxSize

/-! ## What a read waits for -/

/-- The flags of the pending read are those that the protocol's last request set. -/
structure Armed (p : Protocol) (c : Connection) : Prop where
  size : c.receiveBuffer.length ≤ receiveBufferMaxSize
  line : c.connected = true → p c.handed = .line →
    c.receiveBinary = false ∧ c.exactReadTarget = 0 ∧ c.delimitor = commandSeparator ∧ c.transferred = []
  exact : ∀ numBytes, c.connected = true → p c.handed = .exact numBytes →
    c.receiveBinary = true ∧ c.exactReadTarget = numBytes ∧ c.delimitor = [] ∧ c.transferred = []
  transfer : ∀ endOf, c.connected = true → p c.handed = .transfer endOf →
    c.receiveBinary = true ∧ c.exactReadTarget = 0 ∧ c.delimitor = []

@[simp] theorem enqueueRead_handed (p : Protocol) (c : Connection) : (enqueueRead p c).handed = c.handed := by
  unfold enqueueRead
  split <;> rfl

@[simp] theorem enqueueRead_receiveBuffer (p : Protocol) (c : Connection) :
    (enqueueRead p c).receiveBuffer = c.receiveBuffer := by
  unfold enqueueRead
  split <;> rfl

@[simp] theorem enqueueRead_toCome (p : Protocol) (c : Connection) : (enqueueRead p c).toCome = c.toCome := by
  unfold enqueueRead
  split <;> rfl

@[simp] theorem enqueueRead_transferred (p : Protocol) (c : Connection) :
    (enqueueRead p c).transferred = c.transferred := by
  unfold enqueueRead
  split <;> rfl

@[simp] theorem enqueueRead_connected (p : Protocol) (c : Connection) :
    (enqueueRead p c).connected = c.connected := by
  unfold enqueueRead
  split <;> rfl

theorem enqueueRead_armed (p : Protocol) {c : Connection} (hsize : c.receiveBuffer.length ≤ receiveBufferMaxSize)
    (htarget : c.exactReadTarget = 0) (htransferred : c.transferred = []) : Armed p (enqueueRead p c) := by
  refine ⟨?_, ?_, ?_, ?_⟩
  · rw [enqueueRead_receiveBuffer]
    exact hsize
  · intro _ hp
    rw [enqueueRead_handed] at hp
    unfold enqueueRead
    rw [hp]
    exact ⟨rfl, htarget, rfl, htransferred⟩
  · intro numBytes _ hp
    rw [enqueueRead_handed] at hp
    unfold enqueueRead
    rw [hp]
    exact ⟨rfl, rfl, rfl, htransferred⟩
  · intro endOf _ hp
    rw [enqueueRead_handed] at hp
    unfold enqueueRead
    rw [hp]
    exact ⟨rfl, htarget, rfl⟩

/-- The compressed path's test is asio's. -/
theorem compressedReadSatisfied_eq (c : Connection) : compressedReadSatisfied c = asyncReadSatisfied c := by
  unfold compressedReadSatisfied asyncReadSatisfied
  split
  · rfl
  · cases c.delimitor with
    | nil =>
      cases c.receiveBuffer with
      | nil => rfl
      | cons x rest => simp
    | cons x rest => simp

theorem completion_eq_none {c : Connection} (h : completion c = none) :
    asyncReadSatisfied c = false ∧ c.receiveBuffer.length < receiveBufferMaxSize := by
  unfold completion at h
  rw [compressedReadSatisfied_eq, ite_self] at h
  dsimp only at h
  split at h
  · cases h
  · rename_i hs
    refine ⟨by simpa using hs, ?_⟩
    split at h
    · split at h <;> cases h
    · omega

theorem completion_success {c : Connection} (h : completion c = some .success) :
    asyncReadSatisfied c = true ∨ (c.delimitor = [] ∧ receiveBufferMaxSize ≤ c.receiveBuffer.length) := by
  unfold completion at h
  rw [compressedReadSatisfied_eq, ite_self] at h
  dsimp only at h
  split at h
  · rename_i hs
    exact .inl hs
  · split at h
    · rename_i hfull
      split at h
      · rename_i hd
        rw [Bool.and_eq_true, List.isEmpty_iff] at hd
        exact .inr ⟨hd.2, hfull⟩
      · cases h
    · cases h

theorem completion_notFound {c : Connection} (h : completion c = some .notFound) :
    asyncReadSatisfied c = false ∧ receiveBufferMaxSize ≤ c.receiveBuffer.length := by
  unfold completion at h
  rw [compressedReadSatisfied_eq, ite_self] at h
  dsimp only at h
  split at h
  · cases h
  · rename_i hs
    refine ⟨by simpa using hs, ?_⟩
    split at h
    · rename_i hfull
      exact hfull
    · cases h

/-! ## A line -/

/-- Where a separator is in the buffer, the first CR has an octet behind it. -/
theorem split_at_cr {buffer : List Byte} (h : commandSeparator <:+: buffer) :
    ∃ x rest, buffer = buffer.takeWhile (· != CR) ++ CR :: x :: rest ∧
      buffer.dropWhile (· != CR) = CR :: x :: rest := by
  obtain ⟨a, b, hab⟩ := h
  have hmem : CR ∈ buffer := by
    rw [← hab]
    simp [commandSeparator]
  have hdrop : ∀ l : List Byte, commandSeparator <:+: l → ∃ x rest, l.dropWhile (· != CR) = CR :: x :: rest := by
    intro l
    induction l with
    | nil =>
      intro hl
      have := hl.length_le
      simp [commandSeparator] at this
    | cons y l ih =>
      intro hl
      by_cases hy : y = CR
      · subst hy
        cases l with
        | nil =>
          have := hl.length_le
          simp [commandSeparator] at this
        | cons x rest => exact ⟨x, rest, by simp⟩
      · rw [List.dropWhile_cons_of_pos (by simpa using hy)]
        rcases List.infix_cons_iff.1 hl with hpre | hin
        · obtain ⟨t, ht⟩ := hpre
          simp only [commandSeparator, List.cons_append, List.cons.injEq] at ht
          exact absurd ht.1.symm hy
        · exact ih hin
  obtain ⟨x, rest, hx⟩ := hdrop buffer ⟨a, b, hab⟩
  refine ⟨x, rest, ?_, hx⟩
  rw [← hx]
  exact (List.takeWhile_append_dropWhile).symm

theorem no_separator_in_text (buffer : List Byte) : ¬commandSeparator <:+: buffer.takeWhile (· != CR) := by
  rintro ⟨a, b, hab⟩
  have hmem : CR ∈ buffer.takeWhile (· != CR) := by
    rw [← hab]
    simp [commandSeparator]
  have := List.mem_takeWhile_imp hmem
  simp at this

/-! ## One step -/

section
variable {p : Protocol} {stream : List Byte} {c c' : Connection}

theorem asked_cases (p : Protocol) (c : Connection) :
    p c.handed = .line ∨ (∃ numBytes, p c.handed = .exact numBytes) ∨ ∃ endOf, p c.handed = .transfer endOf := by
  cases h : p c.handed with
  | line => exact .inl rfl
  | exact numBytes => exact .inr (.inl ⟨numBytes, rfl⟩)
  | transfer endOf => exact .inr (.inr ⟨endOf, rfl⟩)

theorem handedOver_concat (pieces : List Piece) (piece : Piece) :
    handedOver (pieces ++ [piece]) = handedOver pieces ++ piece.octets := by
  simp [handedOver]

/-- A line read that completes takes a line, a CR and one more octet. -/
theorem asyncReadCompleted_line (hc : Armed p c) (hcon : c.connected = true) (hp : p c.handed = .line)
    (hdone : completion c = some .success) :
    ∃ text x rest, c.receiveBuffer = text ++ CR :: x :: rest ∧ ¬commandSeparator <:+: text ∧
      (FirstCrEndsLine c.receiveBuffer ↔ x = LF) ∧
      asyncReadCompleted p c = enqueueRead p { c with receiveBuffer := rest, handed := c.handed ++ [.line text] } := by
  obtain ⟨hbinary, htarget, hdelimitor, -⟩ := hc.line hcon hp
  have hinfix : commandSeparator <:+: c.receiveBuffer := by
    rcases completion_success hdone with hs | ⟨hd, -⟩
    · unfold asyncReadSatisfied at hs
      rw [htarget, hdelimitor, if_neg (Nat.lt_irrefl 0), if_neg (by decide)] at hs
      exact of_decide_eq_true hs
    · rw [hdelimitor] at hd
      cases hd
  obtain ⟨x, rest, hbuffer, hdrop⟩ := split_at_cr hinfix
  refine ⟨c.receiveBuffer.takeWhile (· != CR), x, rest, hbuffer, no_separator_in_text _, ?_, ?_⟩
  · unfold FirstCrEndsLine
    rw [hdrop]
    simp [commandSeparator]
  · have hrest : (c.receiveBuffer.drop ((c.receiveBuffer.takeWhile (· != CR)).length + 1)).drop 1 = rest := by
      generalize c.receiveBuffer.takeWhile (· != CR) = text at hbuffer
      rw [hbuffer, List.drop_drop, Nat.add_assoc, List.drop_length_add_append]
      rfl
    unfold asyncReadCompleted
    rw [hbinary]
    dsimp only
    rw [if_neg Bool.false_ne_true, hrest]
    rfl

/-- An exact read that completes takes its number of octets. -/
theorem asyncReadCompleted_exact (hc : Armed p c) (hpolite : Polite p) (hcon : c.connected = true) {numBytes : Nat}
    (hp : p c.handed = .exact numBytes) (hdone : completion c = some .success) :
    numBytes ≤ c.receiveBuffer.length ∧
      asyncReadCompleted p c = enqueueRead p { c with
        receiveBuffer := c.receiveBuffer.drop numBytes
        exactReadTarget := 0
        handed := c.handed ++ [.exact (c.receiveBuffer.take numBytes)] } := by
  obtain ⟨hbinary, htarget, hdelimitor, -⟩ := hc.exact numBytes hcon hp
  obtain ⟨hpos, hmax⟩ := hpolite _ _ hp
  have hle : numBytes ≤ c.receiveBuffer.length := by
    rcases completion_success hdone with hs | ⟨-, hfull⟩
    · unfold asyncReadSatisfied at hs
      rw [htarget, if_pos hpos] at hs
      exact of_decide_eq_true hs
    · omega
  have hextract : bytesToExtract c = numBytes := by
    unfold bytesToExtract
    rw [htarget, if_pos hpos]
    omega
  refine ⟨hle, ?_⟩
  unfold asyncReadCompleted
  rw [if_pos hbinary, hextract]
  unfold parseBinary
  dsimp only
  rw [hp]

/-- A binary read that completes takes what is there. -/
theorem asyncReadCompleted_transfer (hc : Armed p c) (hcon : c.connected = true)
    {endOf : List Byte → Option Nat} (hp : p c.handed = .transfer endOf) :
    asyncReadCompleted p c =
      match endOf (c.transferred ++ c.receiveBuffer) with
      | none => { c with
          receiveBuffer := []
          exactReadTarget := 0
          transferred := c.transferred ++ c.receiveBuffer }
      | some ending => enqueueRead p { c with
          receiveBuffer := c.receiveBuffer.drop (ending - c.transferred.length)
          exactReadTarget := 0
          handed := c.handed ++ [.transfer (c.transferred ++ c.receiveBuffer.take (ending - c.transferred.length))]
          transferred := [] } := by
  obtain ⟨hbinary, htarget, -⟩ := hc.transfer endOf hcon hp
  have hextract : bytesToExtract c = c.receiveBuffer.length := by
    unfold bytesToExtract
    rw [htarget]
    rfl
  unfold asyncReadCompleted
  rw [if_pos hbinary, hextract, List.take_length, List.drop_length]
  unfold parseBinary
  dsimp only
  rw [hp]
  dsimp only
  cases hend : endOf (c.transferred ++ c.receiveBuffer) with
  | none => rfl
  | some ending =>
    have hwrite : write [] (c.receiveBuffer.drop (ending - c.transferred.length)) =
        c.receiveBuffer.drop (ending - c.transferred.length) := by
      unfold write
      apply List.take_of_length_le
      rw [List.nil_append, List.length_drop]
      exact (Nat.sub_le _ _).trans hc.size
    dsimp only
    unfold injectPipelinedBytes
    dsimp only
    rw [hwrite]

/-- What a step can do. -/
inductive Stepped (p : Protocol) (c : Connection) : Event → Connection → Prop where
  | arrivePlain {count : Nat} : completion c = none → count ≤ c.toCome.length → c.compressionReadEnabled = false →
      count ≤ readLimit c →
      Stepped p c (.arrive count)
        { c with receiveBuffer := c.receiveBuffer ++ c.toCome.take count, toCome := c.toCome.drop count }
  | arriveInflated {count : Nat} : completion c = none → count ≤ c.toCome.length → c.compressionReadEnabled = true →
      Stepped p c (.arrive count)
        { c with receiveBuffer := write c.receiveBuffer (c.toCome.take count), toCome := c.toCome.drop count }
  | line {text : List Byte} {x : Byte} {rest : List Byte} : completion c = some .success → p c.handed = .line →
      c.receiveBinary = false → c.transferred = [] → c.exactReadTarget = 0 →
      c.receiveBuffer = text ++ CR :: x :: rest → ¬commandSeparator <:+: text →
      (FirstCrEndsLine c.receiveBuffer ↔ x = LF) →
      Stepped p c .complete
        (enqueueRead p { c with receiveBuffer := rest, handed := c.handed ++ [.line text] })
  | exact {numBytes : Nat} : p c.handed = .exact numBytes → c.receiveBinary = true → c.transferred = [] →
      numBytes ≤ c.receiveBuffer.length →
      Stepped p c .complete
        (enqueueRead p { c with
          receiveBuffer := c.receiveBuffer.drop numBytes
          exactReadTarget := 0
          handed := c.handed ++ [.exact (c.receiveBuffer.take numBytes)] })
  | transferOn {endOf : List Byte → Option Nat} : p c.handed = .transfer endOf → c.receiveBinary = true →
      endOf (c.transferred ++ c.receiveBuffer) = none →
      Stepped p c .complete
        { c with receiveBuffer := [], exactReadTarget := 0, transferred := c.transferred ++ c.receiveBuffer }
  | transferEnd {endOf : List Byte → Option Nat} {ending : Nat} : p c.handed = .transfer endOf →
      c.receiveBinary = true → endOf (c.transferred ++ c.receiveBuffer) = some ending →
      Stepped p c .complete
        (enqueueRead p { c with
          receiveBuffer := c.receiveBuffer.drop (ending - c.transferred.length)
          exactReadTarget := 0
          handed := c.handed ++ [.transfer (c.transferred ++ c.receiveBuffer.take (ending - c.transferred.length))]
          transferred := [] })
  | notFound : completion c = some .notFound → p c.handed = .line → c.transferred = [] →
      ¬commandSeparator <:+: c.receiveBuffer → receiveBufferMaxSize ≤ c.receiveBuffer.length →
      Stepped p c .complete { c with connected := false }
  | closedLine : p c.handed = .line → Stepped p c .peerClosed { c with connected := false }
  | closedBinary {count : Nat} : p c.handed ≠ .line → c.toCome = [] →
      (∀ numBytes, p c.handed = .exact numBytes → c.transferred = [] ∧ c.receiveBuffer.length < numBytes) →
      Stepped p c .peerClosed
        { c with
          handed := c.handed ++ [.cutShort (c.transferred ++ c.receiveBuffer.take count)]
          transferred := []
          receiveBuffer := c.receiveBuffer.drop count
          connected := false }

theorem stepped_arrive {count : Nat} (hs : step p c (.arrive count) = some c') : Stepped p c (.arrive count) c' := by
  rw [step] at hs
  split at hs
  · cases hs
  · rename_i hopen
    obtain ⟨-, hnone, hlen⟩ : c.connected ≠ false ∧ completion c = none ∧ ¬c.toCome.length < count := by
      push Not at hopen
      exact ⟨hopen.1, hopen.2.1, Nat.not_lt.2 hopen.2.2⟩
    split at hs
    · rename_i hcompressed
      cases hs
      exact .arriveInflated hnone (by omega) hcompressed
    · rename_i hplain
      split at hs
      · cases hs
      · rename_i hlimit
        cases hs
        exact .arrivePlain hnone (by omega) (by simpa using hplain) (by omega)

theorem stepped_complete (hc : Armed p c) (hpolite : Polite p) (hs : step p c .complete = some c') :
    Stepped p c .complete c' := by
  rw [step] at hs
  split at hs
  · cases hs
  · rename_i hcon
    have hcon : c.connected = true := by simpa using hcon
    cases hdone : completion c with
    | none =>
      rw [hdone] at hs
      cases hs
    | some outcome =>
      rw [hdone] at hs
      cases outcome with
      | success =>
        cases hs
        rcases asked_cases p c with hp | ⟨numBytes, hp⟩ | ⟨endOf, hp⟩
        · obtain ⟨text, x, rest, hbuffer, htext, hcr, he⟩ := asyncReadCompleted_line hc hcon hp hdone
          obtain ⟨hbinary, htarget, -, htransferred⟩ := hc.line hcon hp
          rw [he]
          exact .line hdone hp hbinary htransferred htarget hbuffer htext hcr
        · obtain ⟨hle, he⟩ := asyncReadCompleted_exact hc hpolite hcon hp hdone
          obtain ⟨hbinary, -, -, htransferred⟩ := hc.exact numBytes hcon hp
          rw [he]
          exact .exact hp hbinary htransferred hle
        · have he := asyncReadCompleted_transfer hc hcon hp
          obtain ⟨hbinary, -, -⟩ := hc.transfer endOf hcon hp
          rw [he]
          cases hend : endOf (c.transferred ++ c.receiveBuffer) with
          | none => exact .transferOn hp hbinary hend
          | some ending => exact .transferEnd hp hbinary hend
      | notFound =>
        cases hs
        obtain ⟨hunsatisfied, hfull⟩ := completion_notFound hdone
        unfold asyncReadSatisfied at hunsatisfied
        rcases asked_cases p c with hp | ⟨numBytes, hp⟩ | ⟨endOf, hp⟩
        · obtain ⟨-, htarget, hdelimitor, htransferred⟩ := hc.line hcon hp
          rw [htarget, hdelimitor, if_neg (Nat.lt_irrefl 0), if_neg (by decide)] at hunsatisfied
          exact .notFound hdone hp htransferred (of_decide_eq_false hunsatisfied) hfull
        · -- a full buffer has what a polite protocol asks for
          obtain ⟨-, htarget, -, -⟩ := hc.exact numBytes hcon hp
          obtain ⟨hpos, hmax⟩ := hpolite _ _ hp
          rw [htarget, if_pos hpos] at hunsatisfied
          have := of_decide_eq_false hunsatisfied
          omega
        · obtain ⟨-, htarget, hdelimitor⟩ := hc.transfer endOf hcon hp
          rw [htarget, hdelimitor, if_neg (Nat.lt_irrefl 0), if_pos List.isEmpty_nil] at hunsatisfied
          cases hbuffer : c.receiveBuffer with
          | nil =>
            rw [hbuffer] at hfull
            exact absurd hfull (by decide)
          | cons y ys =>
            rw [hbuffer] at hunsatisfied
            cases hunsatisfied

theorem stepped_peerClosed (hc : Armed p c) (hpolite : Polite p) (hs : step p c .peerClosed = some c') :
    Stepped p c .peerClosed c' := by
  rw [step] at hs
  split at hs
  · cases hs
  · rename_i hopen
    push Not at hopen
    obtain ⟨hcon, hnone, hall⟩ := hopen
    have hcon : c.connected = true := by simpa using hcon
    obtain ⟨hunsatisfied, -⟩ := completion_eq_none hnone
    cases hs
    unfold asyncReadClosed
    rcases asked_cases p c with hp | ⟨numBytes, hp⟩ | ⟨endOf, hp⟩
    · obtain ⟨hbinary, -⟩ := hc.line hcon hp
      rw [if_neg (by rw [hbinary]; exact Bool.false_ne_true)]
      exact .closedLine hp
    · obtain ⟨hbinary, htarget, -, htransferred⟩ := hc.exact numBytes hcon hp
      obtain ⟨hpos, -⟩ := hpolite _ _ hp
      rw [if_pos hbinary]
      refine .closedBinary (by rw [hp]; exact Ask.noConfusion) hall fun n hn => ⟨htransferred, ?_⟩
      rw [hp] at hn
      cases hn
      unfold asyncReadSatisfied at hunsatisfied
      rw [htarget, if_pos hpos] at hunsatisfied
      exact Nat.not_le.1 (of_decide_eq_false hunsatisfied)
    · obtain ⟨hbinary, -⟩ := hc.transfer endOf hcon hp
      rw [if_pos hbinary]
      exact .closedBinary (by rw [hp]; exact Ask.noConfusion) hall fun n hn => by rw [hp] at hn; cases hn

theorem stepped (hc : Armed p c) (hpolite : Polite p) {e : Event} (hs : step p c e = some c') : Stepped p c e c' := by
  cases e with
  | arrive count => exact stepped_arrive hs
  | complete => exact stepped_complete hc hpolite hs
  | peerClosed => exact stepped_peerClosed hc hpolite hs

/-! ## What a step keeps -/

theorem write_length_le (buffer octets : List Byte) : (write buffer octets).length ≤ receiveBufferMaxSize :=
  List.length_take_le _ _

theorem readLimit_le (c : Connection) : readLimit c ≤ receiveBufferMaxSize - c.receiveBuffer.length := by
  unfold readLimit
  dsimp only
  split <;> omega

theorem Stepped.armed {e : Event} (hs : Stepped p c e c') (hc : Armed p c) : Armed p c' := by
  cases hs with
  | arrivePlain _ _ _ hlimit =>
    refine ⟨?_, hc.line, hc.exact, hc.transfer⟩
    have := readLimit_le c
    have := hc.size
    rw [List.length_append, List.length_take]
    omega
  | arriveInflated => exact ⟨write_length_le _ _, hc.line, hc.exact, hc.transfer⟩
  | line _ _ _ htransferred htarget hbuffer =>
    refine enqueueRead_armed p ?_ htarget htransferred
    have := hc.size
    rw [hbuffer, List.length_append, List.length_cons, List.length_cons] at this
    dsimp only
    omega
  | exact _ _ htransferred =>
    refine enqueueRead_armed p ?_ rfl htransferred
    dsimp only
    rw [List.length_drop]
    exact (Nat.sub_le _ _).trans hc.size
  | transferOn hp =>
    have hnot : ∀ ask, p c.handed = ask → ask = .line ∨ (∃ n, ask = .exact n) → False := by
      intro ask he hask
      rw [hp] at he
      rcases hask with h | ⟨n, h⟩ <;> rw [h] at he <;> cases he
    refine ⟨Nat.zero_le _, fun _ he => (hnot _ he (.inl rfl)).elim,
      fun n _ he => (hnot _ he (.inr ⟨n, rfl⟩)).elim, ?_⟩
    intro endOf hcon he
    obtain ⟨hbinary, -, hdelimitor⟩ := hc.transfer endOf hcon he
    exact ⟨hbinary, rfl, hdelimitor⟩
  | transferEnd =>
    refine enqueueRead_armed p ?_ rfl rfl
    dsimp only
    rw [List.length_drop]
    exact (Nat.sub_le _ _).trans hc.size
  | notFound | closedLine =>
    exact ⟨hc.size, fun h => (by cases h), fun _ h => (by cases h), fun _ h => (by cases h)⟩
  | closedBinary =>
    refine ⟨?_, fun h => (by cases h), fun _ h => (by cases h), fun _ h => (by cases h)⟩
    dsimp only
    rw [List.length_drop]
    exact (Nat.sub_le _ _).trans hc.size

theorem write_eq_iff {buffer stream : List Byte} {count : Nat} (hcount : count ≤ stream.length) :
    write buffer (stream.take count) ++ stream.drop count = buffer ++ stream ↔
      buffer.length + count ≤ receiveBufferMaxSize := by
  have htake : (stream.take count).length = count := List.length_take_of_le hcount
  constructor
  · intro h
    have hlength := congrArg List.length h
    have := write_length_le buffer (stream.take count)
    rw [List.length_append, List.length_append, List.length_drop] at hlength
    omega
  · intro hfits
    have hwrite : write buffer (stream.take count) = buffer ++ stream.take count :=
      List.take_of_length_le (by rw [List.length_append, htake]; exact hfits)
    rw [hwrite, List.append_assoc, List.take_append_drop]

/-- A step keeps everything accounted for exactly if it meets the condition. -/
theorem Stepped.accounted {e : Event} (hs : Stepped p c e c') (hacc : Accounted p stream c) :
    Accounted p stream c' ↔ StepMeets c e := by
  have hoctets := hacc.octets
  cases hs with
  | @arrivePlain count _ hlen hplain _ =>
    refine iff_of_true ⟨?_, hacc.answers⟩ fun h => by rw [hplain] at h; cases h
    dsimp only
    rw [List.append_assoc, List.take_append_drop]
    exact hoctets
  | @arriveInflated count _ hlen hcompressed =>
    rw [show StepMeets c (.arrive count) ↔ c.receiveBuffer.length + count ≤ receiveBufferMaxSize from
      ⟨fun h => h hcompressed, fun h _ => h⟩, ← write_eq_iff hlen]
    constructor
    · intro h
      have h := h.octets
      dsimp only at h
      rw [← hoctets] at h
      exact List.append_cancel_left (List.append_cancel_left h)
    · intro h
      refine ⟨?_, hacc.answers⟩
      dsimp only
      rw [h]
      exact hoctets
  | @line text x rest hdone hp hbinary htransferred _ hbuffer htext hcr =>
    rw [show StepMeets c .complete ↔ x = LF from
      ⟨fun h => hcr.1 (h hdone hbinary), fun h _ _ => hcr.2 h⟩]
    rw [hbuffer, htransferred, List.nil_append] at hoctets
    constructor
    · intro h
      have h := h.octets
      simp only [enqueueRead_handed, enqueueRead_transferred, enqueueRead_receiveBuffer, enqueueRead_toCome] at h
      rw [← hoctets, htransferred, handedOver_concat, List.nil_append, List.append_assoc] at h
      have h := List.append_cancel_left h
      simp only [Piece.octets, commandSeparator, List.append_assoc, List.cons_append, List.nil_append] at h
      have h := List.append_cancel_left h
      injection h with _ h
      injection h with h
      exact h.symm
    · intro hx
      refine ⟨?_, ?_⟩
      · simp only [enqueueRead_handed, enqueueRead_transferred, enqueueRead_receiveBuffer, enqueueRead_toCome]
        rw [← hoctets, htransferred, handedOver_concat, List.nil_append, hx]
        simp only [Piece.octets, commandSeparator, List.append_assoc, List.cons_append, List.nil_append]
      · rw [enqueueRead_handed]
        exact hacc.answers.line hp htext
  | @exact numBytes hp hbinary htransferred hle =>
    refine iff_of_true ⟨?_, ?_⟩ fun _ h => by rw [hbinary] at h; cases h
    · simp only [enqueueRead_handed, enqueueRead_transferred, enqueueRead_receiveBuffer, enqueueRead_toCome]
      rw [← hoctets, handedOver_concat, htransferred, Piece.octets, List.nil_append, List.nil_append, List.append_assoc,
        ← List.append_assoc (c.receiveBuffer.take numBytes), List.take_append_drop]
    · rw [enqueueRead_handed]
      exact hacc.answers.exact hp (List.length_take_of_le hle)
  | @transferOn endOf hp hbinary =>
    refine iff_of_true ⟨?_, hacc.answers⟩ fun _ h => by rw [hbinary] at h; cases h
    dsimp only
    rw [← hoctets, List.nil_append, List.append_assoc]
  | @transferEnd endOf ending hp hbinary =>
    refine iff_of_true ⟨?_, ?_⟩ fun _ h => by rw [hbinary] at h; cases h
    · simp only [enqueueRead_handed, enqueueRead_transferred, enqueueRead_receiveBuffer, enqueueRead_toCome]
      rw [← hoctets, handedOver_concat, Piece.octets, List.nil_append, List.append_assoc, List.append_assoc,
        ← List.append_assoc (c.receiveBuffer.take _), List.take_append_drop]
    · rw [enqueueRead_handed]
      exact hacc.answers.transfer hp
  | notFound hdone => exact iff_of_true ⟨hoctets, hacc.answers⟩ fun h => by rw [hdone] at h; cases h
  | closedLine => exact iff_of_true ⟨hoctets, hacc.answers⟩ trivial
  | @closedBinary count hp _ hexact =>
    refine iff_of_true ⟨?_, hacc.answers.cutShort hp fun n hn => ?_⟩ trivial
    · dsimp only
      rw [← hoctets, handedOver_concat, Piece.octets, List.nil_append, List.append_assoc, List.append_assoc,
        ← List.append_assoc (c.receiveBuffer.take _), List.take_append_drop]
    · obtain ⟨htransferred, hlt⟩ := hexact n hn
      rw [htransferred, List.nil_append, List.length_take]
      omega

/-- Everything is accounted for in every state of the run. -/
def AccountedThroughout (p : Protocol) (stream : List Byte) : Connection → List Event → Prop
  | c, [] => Accounted p stream c
  | c, e :: rest => Accounted p stream c ∧ ∀ c', step p c e = some c' → AccountedThroughout p stream c' rest

/-- Every step of the run meets the condition. -/
def MeetsThroughout (p : Protocol) : Connection → List Event → Prop
  | _, [] => True
  | c, e :: rest => StepMeets c e ∧ ∀ c', step p c e = some c' → MeetsThroughout p c' rest

theorem run_accounted (hpolite : Polite p) (events : List Event) : ∀ (c s : Connection), Armed p c →
    Accounted p stream c → run p c events = some s →
    (AccountedThroughout p stream c events ↔ MeetsThroughout p c events) := by
  induction events with
  | nil => exact fun c s _ hacc _ => iff_of_true hacc trivial
  | cons e rest ih =>
    intro c s hc hacc hrun
    obtain ⟨c', hs, hrun⟩ := Option.bind_eq_some_iff.1 hrun
    have hstep := stepped hc hpolite hs
    have hone := hstep.accounted hacc
    constructor
    · rintro ⟨-, hall⟩
      have hacc' : Accounted p stream c' := by
        cases rest with
        | nil => exact hall c' hs
        | cons e' rest => exact (hall c' hs).1
      refine ⟨hone.1 hacc', fun c'' hs' => ?_⟩
      rw [hs] at hs'
      cases hs'
      exact (ih c' s (hstep.armed hc) hacc' hrun).1 (hall c' hs)
    · rintro ⟨hmeets, hall⟩
      refine ⟨hacc, fun c'' hs' => ?_⟩
      rw [hs] at hs'
      cases hs'
      exact (ih c' s (hstep.armed hc) (hone.2 hmeets) hrun).2 (hall c' hs)

theorem start_armed (p : Protocol) (compressionReadEnabled : Bool) (stream : List Byte) :
    Armed p (start p compressionReadEnabled stream) :=
  enqueueRead_armed p (Nat.zero_le _) rfl rfl

theorem start_accounted (p : Protocol) (compressionReadEnabled : Bool) (stream : List Byte) :
    Accounted p stream (start p compressionReadEnabled stream) := by
  unfold start
  refine ⟨?_, ?_⟩
  · simp only [enqueueRead_handed, enqueueRead_transferred, enqueueRead_receiveBuffer, enqueueRead_toCome]
    rfl
  · rw [enqueueRead_handed]
    exact .nil

/-! ## The stream decides -/

/-- The end of a transfer is found in its own octets. -/
def Settled (p : Protocol) : Prop := ∀ h endOf, p h = .transfer endOf →
  endOf [] = none ∧ ∀ octets n, endOf octets = some n ↔ n ≤ octets.length ∧ endOf (octets.take n) = some n

/-- The next piece of the rest of a stream, and what is behind it. -/
inductive Next : Ask → List Byte → Piece → List Byte → Prop where
  | line {text rest : List Byte} : ¬commandSeparator <:+: text → text.length + 2 ≤ receiveBufferMaxSize →
      Next .line (text ++ (commandSeparator ++ rest)) (.line text) rest
  | exact {octets rest : List Byte} : Next (.exact octets.length) (octets ++ rest) (.exact octets) rest
  | transfer {endOf : List Byte → Option Nat} {octets rest : List Byte} : endOf octets = some octets.length →
      Next (.transfer endOf) (octets ++ rest) (.transfer octets) rest

/-- The first pieces of the stream, and what is behind them. -/
inductive Pieces (p : Protocol) (stream : List Byte) : List Piece → List Byte → Prop where
  | nil : Pieces p stream [] stream
  | next {h : List Piece} {piece : Piece} {rest rest' : List Byte} : Pieces p stream h rest →
      Next (p h) rest piece rest' → Pieces p stream (h ++ [piece]) rest'

theorem separator_unique {a b r r' : List Byte} (ha : ¬commandSeparator <:+: a) (hb : ¬commandSeparator <:+: b)
    (h : a ++ (commandSeparator ++ r) = b ++ (commandSeparator ++ r')) : a = b := by
  -- a longer line would have the separator of the shorter one inside
  have hlonger : ∀ {a b r r' : List Byte}, ¬commandSeparator <:+: b →
      a ++ (commandSeparator ++ r) = b ++ (commandSeparator ++ r') → b.length ≤ a.length := by
    intro a b r r' hb h
    by_contra hlt
    obtain ⟨d, rfl⟩ : ∃ d, b = a ++ d :=
      (List.prefix_of_prefix_length_le (List.prefix_append a _) (h ▸ List.prefix_append b _) (by omega)).imp
        fun _ hd => hd.symm
    rw [List.append_assoc] at h
    have h := List.append_cancel_left h
    match d with
    | [] =>
      rw [List.append_nil] at hlt
      omega
    | [x] =>
      simp only [commandSeparator, List.cons_append, List.nil_append, List.cons.injEq] at h
      exact absurd h.2.1 lf_ne_cr
    | x :: y :: d =>
      simp only [commandSeparator, List.cons_append, List.nil_append, List.cons.injEq] at h
      refine hb ⟨a, d, ?_⟩
      rw [← h.1, ← h.2.1]
      simp [commandSeparator]
  have hlength : a.length = b.length := by
    have h1 := hlonger hb h
    have h2 := hlonger ha h.symm
    omega
  exact (List.append_inj h hlength).1

theorem Next.unique (hsettled : Settled p) {h : List Piece} {rest r r' : List Byte} {x x' : Piece}
    (h1 : Next (p h) rest x r) (h2 : Next (p h) rest x' r') : x = x' ∧ r = r' := by
  generalize hask : p h = ask at h1 h2
  cases h1 with
  | @line text _ htext =>
    generalize hstream : text ++ (commandSeparator ++ r) = s at h2
    cases h2 with
    | @line text' _ htext' =>
      cases separator_unique htext htext' hstream
      exact ⟨rfl, List.append_cancel_left (List.append_cancel_left hstream)⟩
  | @exact octets =>
    generalize hstream : octets ++ r = s at h2
    generalize hlength : octets.length = n at h2
    cases h2 with
    | @exact octets' =>
      obtain ⟨ho, hr⟩ := List.append_inj hstream hlength
      exact ⟨congrArg Piece.exact ho, hr⟩
  | @transfer endOf octets _ hend =>
    generalize hstream : octets ++ r = s at h2
    cases h2 with
    | @transfer _ octets' _ hend' =>
      obtain ⟨-, hfound⟩ := hsettled h endOf hask
      have hboth : ∀ a b : List Byte, endOf a = some a.length → endOf (a ++ b) = some a.length := by
        intro a b ha
        rw [hfound]
        exact ⟨by rw [List.length_append]; omega, by rw [List.take_left]; exact ha⟩
      have hlength : octets.length = octets'.length := by
        have h1 := hboth octets r hend
        have h2 := hboth octets' r' hend'
        rw [hstream, h2] at h1
        exact (Option.some.inj h1).symm
      obtain ⟨ho, hr⟩ := List.append_inj hstream hlength
      exact ⟨congrArg Piece.transfer ho, hr⟩

theorem Pieces.split {h : List Piece} {piece : Piece} {rest : List Byte} (hp : Pieces p stream (h ++ [piece]) rest) :
    ∃ before, Pieces p stream h before ∧ Next (p h) before piece rest := by
  generalize hh : h ++ [piece] = full at hp
  cases hp with
  | nil => simp at hh
  | @next h' piece' before _ hbefore hnext =>
    obtain ⟨rfl, hpiece⟩ := List.append_inj' hh rfl
    cases hpiece
    exact ⟨before, hbefore, hnext⟩

theorem exists_concat {h : List Piece} {n : Nat} (hn : h.length = n + 1) : ∃ front piece, h = front ++ [piece] := by
  rcases List.eq_nil_or_concat h with rfl | ⟨front, piece, he⟩
  · cases hn
  · exact ⟨front, piece, by rw [he, List.concat_eq_append]⟩

theorem Pieces.unique (hsettled : Settled p) (n : Nat) : ∀ {h h' : List Piece} {r r' : List Byte}, h.length = n →
    h'.length = n → Pieces p stream h r → Pieces p stream h' r' → h = h' ∧ r = r' := by
  induction n with
  | zero =>
    intro h h' r r' hl hl' hp hp'
    rw [List.length_eq_zero_iff] at hl hl'
    subst hl hl'
    have hstart : ∀ {r : List Byte}, Pieces p stream [] r → r = stream := by
      intro r hr
      generalize hh : ([] : List Piece) = full at hr
      cases hr with
      | nil => rfl
      | next => simp at hh
    rw [hstart hp, hstart hp']
    exact ⟨rfl, rfl⟩
  | succ n ih =>
    intro h h' r r' hl hl' hp hp'
    obtain ⟨h, x, rfl⟩ := exists_concat hl
    obtain ⟨h', x', rfl⟩ := exists_concat hl'
    obtain ⟨b, hb, hnext⟩ := hp.split
    obtain ⟨b', hb', hnext'⟩ := hp'.split
    rw [List.length_append, List.length_singleton] at hl hl'
    obtain ⟨rfl, rfl⟩ := ih (by omega) (by omega) hb hb'
    obtain ⟨rfl, rfl⟩ := hnext.unique hsettled hnext'
    exact ⟨rfl, rfl⟩

/-- No further piece is in the stream. -/
def Exhausted (p : Protocol) (h : List Piece) (rest : List Byte) : Prop := ∀ piece rest', ¬Next (p h) rest piece rest'

theorem Pieces.take {h : List Piece} {r : List Byte} (n : Nat) (hp : Pieces p stream h r) :
    ∃ before, Pieces p stream (h.take n) before := by
  induction hp with
  | nil => exact ⟨stream, by rw [List.take_nil]; exact .nil⟩
  | @next h piece rest rest' hh hnext ih =>
    by_cases hn : n ≤ h.length
    · rw [List.take_append_of_le_length hn]
      exact ih
    · exact ⟨rest', by rw [List.take_of_length_le (by rw [List.length_append, List.length_singleton]; omega)]; exact .next hh hnext⟩

theorem Pieces.length_le (hsettled : Settled p) {h h' : List Piece} {r r' : List Byte} (hp : Pieces p stream h r)
    (hend : Exhausted p h r) (hp' : Pieces p stream h' r') : h'.length ≤ h.length := by
  by_contra hlt
  obtain ⟨after, hafter⟩ := hp'.take (h.length + 1)
  have hlength : (h'.take (h.length + 1)).length = h.length + 1 := List.length_take_of_le (by omega)
  generalize h'.take (h.length + 1) = longer at hafter hlength
  obtain ⟨h'', piece, rfl⟩ := exists_concat hlength
  obtain ⟨before, hbefore, hnext⟩ := hafter.split
  rw [List.length_append, List.length_singleton] at hlength
  obtain ⟨rfl, rfl⟩ := Pieces.unique hsettled h.length (by omega) rfl hbefore hp
  exact hend piece after hnext

/-- The stream has one sequence of pieces that leaves nothing more to hand over. -/
theorem Pieces.final_unique (hsettled : Settled p) {h h' : List Piece} {r r' : List Byte} (hp : Pieces p stream h r)
    (hend : Exhausted p h r) (hp' : Pieces p stream h' r') (hend' : Exhausted p h' r') : h = h' := by
  have h1 := hp.length_le hsettled hend hp'
  have h2 := hp'.length_le hsettled hend' hp
  exact (Pieces.unique hsettled h.length rfl (by omega) hp hp').1

/-! ## A run follows the stream -/

/-- The octets that are not handed over yet. -/
def remaining (c : Connection) : List Byte := c.transferred ++ (c.receiveBuffer ++ c.toCome)

/-- What holds while the peer has not closed. -/
structure OnCourse (p : Protocol) (stream : List Byte) (c : Connection) : Prop where
  pieces : Pieces p stream c.handed (remaining c)
  searching : ∀ endOf, p c.handed = .transfer endOf → endOf c.transferred = none
  stopped : c.connected = false → Exhausted p c.handed (remaining c)

theorem step_connected {e : Event} (hs : step p c e = some c') : c.connected = true := by
  by_contra hcon
  have hcon : c.connected = false := by simpa using hcon
  cases e with
  | arrive count =>
    rw [step, if_pos (.inl hcon)] at hs
    cases hs
  | complete =>
    rw [step, if_pos hcon] at hs
    cases hs
  | peerClosed =>
    rw [step, if_pos (.inl hcon)] at hs
    cases hs

/-- The pieces after one more, when the next read is armed. -/
theorem OnCourse.handOver (hsettled : Settled p) (hcourse : OnCourse p stream c) (hcon : c.connected = true)
    {piece : Piece} {buffer : List Byte} (target : Nat)
    (hnext : Next (p c.handed) (remaining c) piece (buffer ++ c.toCome)) :
    OnCourse p stream (enqueueRead p { c with
      receiveBuffer := buffer, exactReadTarget := target, handed := c.handed ++ [piece], transferred := [] }) := by
  refine ⟨?_, ?_, ?_⟩
  · unfold remaining
    simp only [enqueueRead_handed, enqueueRead_transferred, enqueueRead_receiveBuffer, enqueueRead_toCome]
    exact hcourse.pieces.next hnext
  · intro endOf hp
    rw [enqueueRead_handed] at hp
    rw [enqueueRead_transferred]
    exact (hsettled _ endOf hp).1
  · intro h
    rw [enqueueRead_connected] at h
    rw [hcon] at h
    cases h

/-- The end of a transfer lies in its last read. -/
theorem transfer_ends (hsettled : Settled p) {endOf : List Byte → Option Nat} (hp : p c.handed = .transfer endOf)
    (hbefore : endOf c.transferred = none) {ending : Nat}
    (hend : endOf (c.transferred ++ c.receiveBuffer) = some ending) :
    endOf (c.transferred ++ c.receiveBuffer.take (ending - c.transferred.length)) =
      some (c.transferred ++ c.receiveBuffer.take (ending - c.transferred.length)).length := by
  obtain ⟨-, hfound⟩ := hsettled _ endOf hp
  obtain ⟨hle, htake⟩ := (hfound _ _).1 hend
  have hlt : c.transferred.length < ending := by
    by_contra hge
    rw [List.take_append_of_le_length (by omega)] at htake
    rw [(hfound c.transferred ending).2 ⟨by omega, htake⟩] at hbefore
    cases hbefore
  have hown : (c.transferred ++ c.receiveBuffer).take ending =
      c.transferred ++ c.receiveBuffer.take (ending - c.transferred.length) := by
    rw [List.take_append, List.take_of_length_le (by omega)]
  rw [← hown, htake, List.length_take_of_le hle]

theorem Stepped.onCourse {e : Event} (hs : Stepped p c e c') (hc : Armed p c) (hsettled : Settled p)
    (hcourse : OnCourse p stream c) (hcon : c.connected = true) (hmeets : StepMeets c e) (hopen : e ≠ .peerClosed) :
    OnCourse p stream c' := by
  have hmove : ∀ {t b r : List Byte}, t ++ (b ++ r) = remaining c →
      Pieces p stream c.handed (t ++ (b ++ r)) := fun h => h ▸ hcourse.pieces
  cases hs with
  | @arrivePlain count =>
    refine ⟨hmove ?_, hcourse.searching, fun h => by rw [hcon] at h; cases h⟩
    dsimp only
    rw [List.append_assoc, List.take_append_drop]
    rfl
  | @arriveInflated count _ hlen hcompressed =>
    refine ⟨hmove ?_, hcourse.searching, fun h => by rw [hcon] at h; cases h⟩
    dsimp only
    rw [(write_eq_iff hlen).2 (hmeets hcompressed)]
    rfl
  | @line text x rest hdone hp hbinary htransferred htarget hbuffer htext hcr =>
    have hx := hcr.1 (hmeets hdone hbinary)
    have hsize := hc.size
    have hnext : Next (p c.handed) (remaining c) (.line text) (rest ++ c.toCome) := by
      have hrest : remaining c = text ++ (commandSeparator ++ (rest ++ c.toCome)) := by
        unfold remaining
        rw [htransferred, hbuffer, hx]
        simp [commandSeparator]
      rw [hp, hrest]
      rw [hbuffer, List.length_append, List.length_cons, List.length_cons] at hsize
      exact .line htext (by omega)
    have h := hcourse.handOver hsettled hcon c.exactReadTarget hnext
    rw [← htransferred] at h
    exact h
  | @exact numBytes hp hbinary htransferred hle =>
    have hnext : Next (p c.handed) (remaining c) (.exact (c.receiveBuffer.take numBytes))
        (c.receiveBuffer.drop numBytes ++ c.toCome) := by
      have hrest : remaining c = c.receiveBuffer.take numBytes ++ (c.receiveBuffer.drop numBytes ++ c.toCome) := by
        unfold remaining
        rw [htransferred, List.nil_append, ← List.append_assoc, List.take_append_drop]
      have hlength := List.length_take_of_le hle
      rw [hp, hrest]
      generalize c.receiveBuffer.take numBytes = octets at hlength
      rw [← hlength]
      exact .exact
    have h := hcourse.handOver hsettled hcon 0 hnext
    rw [← htransferred] at h
    exact h
  | @transferOn endOf hp hbinary hend =>
    refine ⟨hmove ?_, fun e' he' => ?_, fun h => by rw [hcon] at h; cases h⟩
    · dsimp only
      rw [List.nil_append, List.append_assoc]
      rfl
    · rw [hp] at he'
      cases he'
      exact hend
  | @transferEnd endOf ending hp hbinary hend =>
    apply hcourse.handOver hsettled hcon 0
    have hrest : remaining c = (c.transferred ++ c.receiveBuffer.take (ending - c.transferred.length)) ++
        (c.receiveBuffer.drop (ending - c.transferred.length) ++ c.toCome) := by
      unfold remaining
      rw [List.append_assoc, ← List.append_assoc (c.receiveBuffer.take _), List.take_append_drop]
    rw [hp, hrest]
    exact .transfer (transfer_ends hsettled hp (hcourse.searching endOf hp) hend)
  | notFound _ hp htransferred hmissing hfull =>
    refine ⟨hcourse.pieces, hcourse.searching, fun _ piece rest' hnext => hmissing ?_⟩
    -- a line that fits into the buffer would be in it
    unfold remaining at hnext
    dsimp only at hnext
    rw [hp, htransferred, List.nil_append] at hnext
    generalize hstream : c.receiveBuffer ++ c.toCome = s at hnext
    cases hnext with
    | @line text _ _ hlength =>
      have hpre : text ++ commandSeparator <+: c.receiveBuffer := by
        have hline : text ++ commandSeparator <+: text ++ (commandSeparator ++ rest') :=
          ⟨rest', List.append_assoc _ _ _⟩
        have hbuffer : c.receiveBuffer <+: text ++ (commandSeparator ++ rest') := ⟨c.toCome, hstream⟩
        refine List.prefix_of_prefix_length_le hline hbuffer ?_
        rw [List.length_append]
        exact hlength.trans hfull
      exact (List.infix_append' text commandSeparator []).trans (by rw [List.append_nil]; exact hpre.isInfix)
  | closedLine | closedBinary => exact absurd rfl hopen

/-- Nothing more happens until the peer closes. -/
def Quiet (p : Protocol) (c : Connection) : Prop := ∀ e, e ≠ .peerClosed → step p c e = none

/-- A connection that waits for nothing has handed over all that can be. -/
theorem quiet_exhausted (hpolite : Polite p) (hsettled : Settled p) (hc : Armed p c) (hcourse : OnCourse p stream c)
    (hquiet : Quiet p c) : Exhausted p c.handed (remaining c) := by
  cases hcon : c.connected with
  | false => exact hcourse.stopped hcon
  | true =>
    have hdone : completion c = none := by
      have h := hquiet .complete Event.noConfusion
      rw [step, if_neg (by rw [hcon]; exact Bool.noConfusion)] at h
      cases hcompletion : completion c with
      | none => rfl
      | some outcome =>
        rw [hcompletion] at h
        cases outcome <;> cases h
    obtain ⟨hunsatisfied, hroom⟩ := completion_eq_none hdone
    unfold asyncReadSatisfied at hunsatisfied
    have hall : c.toCome = [] := by
      by_contra hne
      have hpos := List.length_pos_iff.2 hne
      have h := hquiet (.arrive 1) Event.noConfusion
      have hlimit : 1 ≤ readLimit c := by
        have hmax : 1 ≤ maxTransferSize := by decide
        unfold readLimit
        dsimp only
        split
        · rename_i htarget
          rw [if_pos htarget] at hunsatisfied
          have := of_decide_eq_false hunsatisfied
          omega
        · omega
      rw [step, if_neg (by rw [hcon, hdone]; simp only [ne_eq, not_true_eq_false, false_or, Bool.true_eq_false]; omega)] at h
      split at h
      · cases h
      · rw [if_neg (by omega)] at h
        cases h
    have hrest : remaining c = c.transferred ++ c.receiveBuffer := by
      unfold remaining
      rw [hall, List.append_nil]
    rw [hrest]
    intro piece rest' hnext
    rcases asked_cases p c with hp | ⟨numBytes, hp⟩ | ⟨endOf, hp⟩
    · obtain ⟨-, htarget, hdelimitor, htransferred⟩ := hc.line hcon hp
      rw [htarget, hdelimitor, if_neg (Nat.lt_irrefl 0), if_neg (by decide)] at hunsatisfied
      have hmissing := of_decide_eq_false hunsatisfied
      rw [hp, htransferred, List.nil_append] at hnext
      generalize hstream : c.receiveBuffer = s at hnext
      cases hnext with
      | @line text => exact hmissing ⟨text, rest', by rw [hstream, List.append_assoc]⟩
    · obtain ⟨-, htarget, -, htransferred⟩ := hc.exact numBytes hcon hp
      obtain ⟨hpos, -⟩ := hpolite _ _ hp
      rw [htarget, if_pos hpos] at hunsatisfied
      have hfew := of_decide_eq_false hunsatisfied
      rw [hp, htransferred, List.nil_append] at hnext
      generalize hstream : c.receiveBuffer = s at hnext
      cases hnext with
      | exact =>
        have hlength := congrArg List.length hstream
        rw [List.length_append] at hlength
        omega
    · obtain ⟨-, htarget, hdelimitor⟩ := hc.transfer endOf hcon hp
      rw [htarget, hdelimitor, if_neg (Nat.lt_irrefl 0), if_pos List.isEmpty_nil] at hunsatisfied
      have hempty : c.receiveBuffer = [] := by simpa using hunsatisfied
      have hsearching := hcourse.searching endOf hp
      obtain ⟨-, hfound⟩ := hsettled _ endOf hp
      rw [hp, hempty, List.append_nil] at hnext
      generalize hstream : c.transferred = s at hnext hsearching
      cases hnext with
      | @transfer _ octets _ hend =>
        rw [(hfound _ octets.length).2 ⟨by rw [List.length_append]; omega, by rw [List.take_left]; exact hend⟩] at hsearching
        cases hsearching

theorem run_onCourse (hpolite : Polite p) (hsettled : Settled p) (events : List Event) : ∀ (c s : Connection),
    Armed p c → OnCourse p stream c → MeetsThroughout p c events → .peerClosed ∉ events → run p c events = some s →
    Armed p s ∧ OnCourse p stream s := by
  induction events with
  | nil =>
    intro c s hc hcourse _ _ hrun
    cases hrun
    exact ⟨hc, hcourse⟩
  | cons e rest ih =>
    intro c s hc hcourse hmeets hopen hrun
    rw [List.mem_cons, not_or] at hopen
    obtain ⟨c', hs, hrun⟩ := Option.bind_eq_some_iff.1 hrun
    have hstep := stepped hc hpolite hs
    exact ih c' s (hstep.armed hc)
      (hstep.onCourse hc hsettled hcourse (step_connected hs) hmeets.1 (Ne.symm hopen.1)) (hmeets.2 c' hs) hopen.2 hrun

theorem start_onCourse (hsettled : Settled p) (compressionReadEnabled : Bool) (stream : List Byte) :
    OnCourse p stream (start p compressionReadEnabled stream) := by
  unfold start
  refine ⟨?_, ?_, ?_⟩
  · unfold remaining
    simp only [enqueueRead_handed, enqueueRead_transferred, enqueueRead_receiveBuffer, enqueueRead_toCome]
    exact .nil
  · intro endOf hp
    rw [enqueueRead_handed] at hp
    rw [enqueueRead_transferred]
    exact (hsettled _ endOf hp).1
  · intro h
    rw [enqueueRead_connected] at h
    cases h

end

end HMailServer.Tcp
