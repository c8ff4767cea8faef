import Mathlib

/- Dot transparency of line-oriented protocols, over plain byte lists. `stuff`
   doubles every dot that starts a line, `unstuff` removes one dot from the
   start of every line; both carry one bit across a cut, whether the next byte
   starts a line (`lineStart`). `TerminatorAt w p` is the end-of-data marker:
   a dot at `p` with CRLF behind it and CRLF in front of it, where the stream
   is read as if a CRLF stood before its first byte. -/
namespace DotStuffing

abbrev Byte := UInt8

def CR : Byte := 13
def LF : Byte := 10
def DOT : Byte := 46

@[simp] theorem cr_ne_lf : CR ≠ LF := by decide
@[simp] theorem lf_ne_cr : LF ≠ CR := by decide
@[simp] theorem dot_ne_lf : DOT ≠ LF := by decide
@[simp] theorem lf_ne_dot : LF ≠ DOT := by decide
@[simp] theorem dot_ne_cr : DOT ≠ CR := by decide
@[simp] theorem cr_ne_dot : CR ≠ DOT := by decide

/-- Whether the byte after `l` starts a line, when the first byte of `l` does
iff `bol`. -/
def lineStart (bol : Bool) : List Byte → Bool
  | [] => bol
  | c :: rest => lineStart (c == LF) rest

/-- Double every dot that starts a line. -/
def stuff (bol : Bool) : List Byte → List Byte
  | [] => []
  | c :: rest =>
    if c == DOT && bol then DOT :: c :: stuff (c == LF) rest else c :: stuff (c == LF) rest

/-- Remove one dot from the start of every line. -/
def unstuff (bol : Bool) : List Byte → List Byte
  | [] => []
  | c :: rest =>
    if c == DOT && bol then unstuff (c == LF) rest else c :: unstuff (c == LF) rest

@[simp] theorem lineStart_append (bol : Bool) (a b : List Byte) :
    lineStart bol (a ++ b) = lineStart (lineStart bol a) b := by
  induction a generalizing bol with
  | nil => rfl
  | cons c a ih => simp only [List.cons_append, lineStart, ih]

theorem lineStart_concat (bol : Bool) (a : List Byte) (c : Byte) :
    lineStart bol (a ++ [c]) = (c == LF) := by
  simp [lineStart]

theorem stuff_append (bol : Bool) (a b : List Byte) :
    stuff bol (a ++ b) = stuff bol a ++ stuff (lineStart bol a) b := by
  induction a generalizing bol with
  | nil => rfl
  | cons c a ih =>
    simp only [List.cons_append, stuff, lineStart, ih]
    split <;> simp

theorem unstuff_append (bol : Bool) (a b : List Byte) :
    unstuff bol (a ++ b) = unstuff bol a ++ unstuff (lineStart bol a) b := by
  induction a generalizing bol with
  | nil => rfl
  | cons c a ih =>
    simp only [List.cons_append, unstuff, lineStart, ih]
    split <;> simp

theorem unstuff_stuff (bol : Bool) (m : List Byte) : unstuff bol (stuff bol m) = m := by
  induction m generalizing bol with
  | nil => rfl
  | cons c m ih =>
    by_cases h : (c == DOT && bol) = true
    · obtain ⟨hc, hb⟩ := Bool.and_eq_true_iff.mp h
      have hc : c = DOT := by simpa using hc
      subst hc
      have hd : (DOT == LF) = false := by decide
      simp [stuff, unstuff, hb, ih, hd]
    · simp only [stuff, h, if_false, Bool.false_eq_true, unstuff, ih]

theorem stuff_of_not_mem {m : List Byte} (h : DOT ∉ m) (bol : Bool) : stuff bol m = m := by
  induction m generalizing bol with
  | nil => rfl
  | cons c m ih =>
    have hc : c ≠ DOT := fun e => h (by simp [e])
    have hm : DOT ∉ m := fun hd => h (by simp [hd])
    simp [stuff, hc, ih hm]

/-! ## The end-of-data marker -/

/-- CRLF dot CRLF. -/
def terminator : List Byte := [CR, LF, DOT, CR, LF]

/-- The end-of-data marker has its dot at position `p` of `w`, read with a
virtual CRLF before the first byte. -/
def TerminatorAt (w : List Byte) (p : Nat) : Prop := terminator <+: (CR :: LF :: w).drop p

instance (w : List Byte) (p : Nat) : Decidable (TerminatorAt w p) := by
  unfold TerminatorAt; infer_instance

/-- The first end-of-data marker of `w` has its dot at `p`. -/
def FirstTerminatorAt (w : List Byte) (p : Nat) : Prop :=
  TerminatorAt w p ∧ ∀ q < p, ¬ TerminatorAt w q

theorem TerminatorAt.le_length {w : List Byte} {p : Nat} (h : TerminatorAt w p) :
    p + 3 ≤ w.length := by
  have := h.length_le
  simp only [terminator, List.length_cons, List.length_nil, List.length_drop] at this
  omega

theorem TerminatorAt.append {w : List Byte} {p : Nat} (h : TerminatorAt w p) (t : List Byte) :
    TerminatorAt (w ++ t) p := by
  have hl := h.le_length
  unfold TerminatorAt at h ⊢
  rw [← List.cons_append, ← List.cons_append, List.drop_append_of_le_length (by simp; omega)]
  exact h.trans (List.prefix_append _ _)

theorem TerminatorAt.of_append {w t : List Byte} {p : Nat} (h : TerminatorAt (w ++ t) p)
    (hl : p + 3 ≤ w.length) : TerminatorAt w p := by
  unfold TerminatorAt at h ⊢
  rw [← List.cons_append, ← List.cons_append, List.drop_append_of_le_length (by simp; omega)] at h
  exact List.prefix_of_prefix_length_le h (List.prefix_append _ _)
    (by simp [terminator]; omega)

theorem FirstTerminatorAt.of_prefix {w w' : List Byte} {p : Nat} (h : FirstTerminatorAt w p)
    (hw : w <+: w') : FirstTerminatorAt w' p := by
  obtain ⟨t, rfl⟩ := hw
  refine ⟨h.1.append t, ?_⟩
  intro q hq hterm
  have := h.1.le_length
  exact h.2 q hq (hterm.of_append (by omega))

theorem FirstTerminatorAt.unique {w : List Byte} {p q : Nat} (hp : FirstTerminatorAt w p)
    (hq : FirstTerminatorAt w q) : p = q := by
  rcases Nat.lt_trichotomy p q with h | h | h
  · exact absurd hp.1 (hq.2 p h)
  · exact h
  · exact absurd hq.1 (hp.2 q h)

/-- The five bytes of the marker, one by one. -/
theorem terminatorAt_iff (w : List Byte) (p : Nat) :
    TerminatorAt w p ↔ (CR :: LF :: w)[p]? = some CR ∧ (CR :: LF :: w)[p + 1]? = some LF ∧
      w[p]? = some DOT ∧ w[p + 1]? = some CR ∧ w[p + 2]? = some LF := by
  unfold TerminatorAt terminator
  have e0 : ∀ k, ((CR :: LF :: w).drop p)[k]? = (CR :: LF :: w)[p + k]? := fun k => by simp
  have e2 : ∀ k, (CR :: LF :: w)[p + (k + 2)]? = w[p + k]? := fun k => by
    rw [show p + (k + 2) = (p + k) + 1 + 1 by omega, List.getElem?_cons_succ,
      List.getElem?_cons_succ]
  have h0 := e0 0
  have h1 := e0 1
  have h2 := (e0 2).trans (e2 0)
  have h3 := (e0 3).trans (e2 1)
  have h4 := (e0 4).trans (e2 2)
  simp only [Nat.add_zero] at h0 h2
  rw [← h0, ← h1, ← h2, ← h3, ← h4]
  generalize (CR :: LF :: w).drop p = l
  match l with
  | [] => simp
  | [_] => simp
  | [_, _] => simp
  | [_, _, _] => simp
  | [_, _, _, _] => simp
  | a :: b :: c :: d :: e :: l =>
    simp [List.cons_prefix_cons, eq_comm]

/-! ## A stuffed text holds no marker -/

/-- Every dot that starts a line has a second dot behind it. -/
def Stuffed (bol : Bool) : List Byte → Prop
  | [] => True
  | c :: rest => (c = DOT → bol = true → rest.head? = some DOT) ∧ Stuffed (c == LF) rest

theorem stuffed_stuff (bol : Bool) (m : List Byte) : Stuffed bol (stuff bol m) := by
  induction m generalizing bol with
  | nil => trivial
  | cons c m ih =>
    by_cases h : (c == DOT && bol) = true
    · obtain ⟨hc, hb⟩ := Bool.and_eq_true_iff.mp h
      have hc : c = DOT := by simpa using hc
      subst hc
      have hd : (DOT == LF) = false := by decide
      simpa [stuff, hb, Stuffed, hd] using ih (DOT == LF)
    · simp only [stuff, h, if_false, Bool.false_eq_true, Stuffed, ih, and_true]
      intro hc hb
      simp [hc, hb] at h

theorem Stuffed.dot_dot {bol : Bool} {s : List Byte} (h : Stuffed bol s) {i : Nat}
    (hl : s[i]? = some LF) (hd : s[i + 1]? = some DOT) : s[i + 2]? = some DOT := by
  induction s generalizing bol i with
  | nil => simp at hl
  | cons c s ih =>
    cases i with
    | succ i => exact ih h.2 (by simpa using hl) (by simpa using hd)
    | zero =>
      have hc : c = LF := by simpa using hl
      subst hc
      cases s with
      | nil => simp at hd
      | cons d s =>
        have hd : d = DOT := by simpa using hd
        subst hd
        simpa [← List.head?_eq_getElem?] using h.2.1 rfl (by simp)

theorem Stuffed.head_dot {s : List Byte} (h : Stuffed true s) (hd : s[0]? = some DOT) :
    s[1]? = some DOT := by
  cases s with
  | nil => simp at hd
  | cons c s =>
    have hc : c = DOT := by simpa using hd
    simpa [← List.head?_eq_getElem?] using h.1 hc rfl

/-- No line of `s` is a single dot, under either line ending. -/
def NoLoneDot (s : List Byte) : Prop :=
  ¬ [LF, DOT, CR, LF] <:+: s ∧ ¬ [LF, DOT, LF] <:+: s ∧ ¬ [DOT, CR, LF] <+: s ∧ ¬ [DOT, LF] <+: s

/-- A dot behind a newline is followed by a dot, so by nothing else. -/
theorem Stuffed.not_infix {bol : Bool} {s : List Byte} (h : Stuffed bol s) {c : Byte}
    (hc : c ≠ DOT) (rest : List Byte) : ¬ (LF :: DOT :: c :: rest) <:+: s := by
  rintro ⟨a, b, rfl⟩
  have hread : ∀ k, (a ++ LF :: DOT :: c :: rest ++ b)[a.length + k]? =
      (LF :: DOT :: c :: (rest ++ b))[k]? := by
    intro k
    rw [List.append_assoc, List.getElem?_append_right (by omega)]
    simp
  have := h.dot_dot (i := a.length) (by simp) (by simp)
  rw [hread 2] at this
  exact hc (by simpa using this)

theorem Stuffed.not_prefix {s : List Byte} (h : Stuffed true s) {c : Byte} (hc : c ≠ DOT)
    (rest : List Byte) : ¬ (DOT :: c :: rest) <+: s := by
  rintro ⟨b, rfl⟩
  have := h.head_dot (by simp)
  exact hc (by simpa using this)

theorem stuff_noLoneDot (m : List Byte) : NoLoneDot (stuff true m) := by
  have h := stuffed_stuff true m
  exact ⟨h.not_infix (by decide) _, h.not_infix (by decide) _, h.not_prefix (by decide) _,
    h.not_prefix (by decide) _⟩

/-- The marker put behind a stuffed text is the first one. -/
theorem stuff_firstTerminator (m t : List Byte) :
    FirstTerminatorAt (stuff true m ++ terminator ++ t) ((stuff true m).length + 2) := by
  have h := stuffed_stuff true m
  generalize stuff true m = s at h
  constructor
  · unfold TerminatorAt
    rw [List.append_assoc]
    have hdrop : (CR :: LF :: s ++ (terminator ++ t)).drop (s.length + 2) = terminator ++ t :=
      List.drop_left' (by simp)
    rw [← List.cons_append, ← List.cons_append, hdrop]
    exact List.prefix_append _ _
  · intro q hq hterm
    obtain ⟨-, hlf, hdot, hcr, -⟩ := (terminatorAt_iff _ _).mp hterm
    -- the dot lies in `s`: the two bytes behind it are the marker's CRLF
    have hqs : q < s.length := by
      by_contra hge
      rw [List.append_assoc, List.getElem?_append_right (by omega)] at hdot
      obtain h0 | h1 : q - s.length = 0 ∨ q - s.length = 1 := by omega
      · rw [h0] at hdot
        simp [terminator] at hdot
      · rw [h1] at hdot
        simp [terminator] at hdot
    have hread : ∀ (k : Nat) (c : Byte), s[k]? = some c → (s ++ terminator ++ t)[k]? = some c := by
      intro k c hk
      have hlt : k < s.length := by
        by_contra hge
        rw [List.getElem?_eq_none (by omega)] at hk
        cases hk
      rw [List.append_assoc, List.getElem?_append_left hlt, hk]
    have hdot' : s[q]? = some DOT := by
      rwa [List.append_assoc, List.getElem?_append_left hqs] at hdot
    have hnext : s[q + 1]? = some DOT := by
      cases q with
      | zero => exact h.head_dot hdot'
      | succ q =>
        rw [List.getElem?_cons_succ, List.getElem?_cons_succ, List.append_assoc,
          List.getElem?_append_left (by omega)] at hlf
        exact h.dot_dot hlf hdot'
    rw [hread _ _ hnext] at hcr
    simp at hcr

/-- Unstuffing the text in front of that marker gives the message and its last
line ending. -/
theorem unstuff_stuff_crlf (m : List Byte) :
    unstuff true (stuff true m ++ [CR, LF]) = m ++ [CR, LF] := by
  rw [unstuff_append, unstuff_stuff]
  simp [unstuff]

end DotStuffing
