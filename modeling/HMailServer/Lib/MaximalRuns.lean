import Mathlib

/- The maximal runs of a predicate in a list, in order, and the pieces of a
   list by position. A piece whose elements all satisfy the predicate lies
   inside one run. -/
namespace MaximalRuns

variable {α : Type} {p : α → Bool}

def runsFrom (p : α → Bool) : List α → List α → List (List α)
  | run, [] => if run.isEmpty then [] else [run]
  | run, a :: s =>
    if p a then runsFrom p (run ++ [a]) s
    else (if run.isEmpty then [] else [run]) ++ runsFrom p [] s

def maximalRuns (p : α → Bool) (s : List α) : List (List α) := runsFrom p [] s

/-! ## Pieces -/

theorem prefix_of_prefix_append_cons {w a b : List α} {c : α} (h : w <+: a ++ c :: b) (hc : c ∉ w) : w <+: a := by
  by_cases hlen : w.length ≤ a.length
  · exact List.prefix_of_prefix_length_le h (List.prefix_append a _) hlen
  · have hac : a ++ [c] <+: a ++ c :: b := ⟨b, by simp⟩
    have hw : a ++ [c] <+: w := by
      refine List.prefix_of_prefix_length_le hac h ?_
      rw [List.length_append, List.length_singleton]
      omega
    exact absurd (hw.subset (by simp)) hc

/-- A piece without the separator lies on one side of it. -/
theorem infix_of_infix_append_cons {w a b : List α} {c : α} (h : w <:+: a ++ c :: b) (hc : c ∉ w) :
    w <:+: a ∨ w <:+: b := by
  induction a with
  | nil =>
    rcases List.infix_cons_iff.1 h with h | h
    · have hnil : w <+: [] := prefix_of_prefix_append_cons (a := []) h hc
      exact .inl hnil.isInfix
    · exact .inr h
  | cons x a ih =>
    rcases List.infix_cons_iff.1 h with h | h
    · exact .inl (prefix_of_prefix_append_cons (a := x :: a) h hc).isInfix
    · rcases ih h with h | h
      · exact .inl (h.trans (List.suffix_cons x a).isInfix)
      · exact .inr h

/-- A piece of a list by position lies in every longer one around it. -/
theorem infix_drop_take {s : List α} {i n j m : Nat} (hij : i ≤ j) (hend : j + m ≤ i + n) :
    (s.drop j).take m <:+: (s.drop i).take n := by
  have hdrop : ((s.drop i).take n).drop (j - i) = (s.drop j).take (n - (j - i)) := by
    rw [List.drop_take, List.drop_drop, Nat.add_sub_cancel' hij]
  have hpre : (s.drop j).take m <+: (s.drop j).take (n - (j - i)) := by
    apply List.take_prefix_take_left
    omega
  exact hpre.isInfix.trans (hdrop ▸ (List.drop_suffix _ _).isInfix)

theorem exists_position {w s : List α} (h : w <:+: s) :
    ∃ i, i + w.length ≤ s.length ∧ (s.drop i).take w.length = w := by
  obtain ⟨a, b, rfl⟩ := h
  refine ⟨a.length, by simp only [List.length_append]; omega, ?_⟩
  simp

/-! ## Runs -/

theorem runsFrom_spec {run s r : List α} (hrun : ∀ a ∈ run, p a = true) (hr : r ∈ runsFrom p run s) :
    r <:+: run ++ s ∧ r ≠ [] ∧ ∀ a ∈ r, p a = true := by
  induction s generalizing run with
  | nil =>
    rw [runsFrom] at hr
    split at hr
    · exact absurd hr (by simp)
    · rename_i hne
      obtain rfl := List.mem_singleton.1 hr
      refine ⟨by simp, ?_, hrun⟩
      simpa using hne
  | cons a s ih =>
    rw [runsFrom] at hr
    split at hr
    · rename_i ha
      have hrun' : ∀ b ∈ run ++ [a], p b = true := by
        intro b hb
        rcases List.mem_append.1 hb with hb | hb
        · exact hrun b hb
        · rw [List.mem_singleton.1 hb, ha]
      have h := ih hrun' hr
      rwa [List.append_assoc, List.singleton_append] at h
    · rcases List.mem_append.1 hr with hr | hr
      · split at hr
        · exact absurd hr (by simp)
        · rename_i hne
          obtain rfl := List.mem_singleton.1 hr
          refine ⟨List.infix_append_left, ?_, hrun⟩
          simpa using hne
      · obtain ⟨hin, hrest⟩ := ih (by simp) hr
        rw [List.nil_append] at hin
        exact ⟨hin.trans ((List.suffix_cons a s).isInfix.trans List.infix_append_right), hrest⟩

/-- A run is a piece of the list, not empty, and in the class throughout. -/
theorem maximalRuns_spec {s r : List α} (hr : r ∈ maximalRuns p s) :
    r <:+: s ∧ r ≠ [] ∧ ∀ a ∈ r, p a = true := by
  have h : r <:+: [] ++ s ∧ r ≠ [] ∧ ∀ a ∈ r, p a = true := runsFrom_spec (by simp) hr
  rwa [List.nil_append] at h

theorem infix_runsFrom {w run s : List α} (hne : w ≠ []) (hw : ∀ a ∈ w, p a = true) (h : w <:+: run ++ s) :
    ∃ r ∈ runsFrom p run s, w <:+: r := by
  induction s generalizing run with
  | nil =>
    rw [List.append_nil] at h
    have hrun : run.isEmpty = false := by
      cases run with
      | nil => exact absurd (List.infix_nil.1 h) hne
      | cons => rfl
    exact ⟨run, by simp [runsFrom, hrun], h⟩
  | cons a s ih =>
    rw [runsFrom]
    split
    · apply ih
      rwa [List.append_assoc, List.singleton_append]
    · rename_i ha
      have hmem : a ∉ w := fun hm => ha (hw a hm)
      rcases infix_of_infix_append_cons h hmem with h | h
      · have hrun : run.isEmpty = false := by
          cases run with
          | nil => exact absurd (List.infix_nil.1 h) hne
          | cons => rfl
        exact ⟨run, by simp [hrun], h⟩
      · obtain ⟨r, hr, hwr⟩ := @ih [] h
        exact ⟨r, by simp [hr], hwr⟩

/-- A piece that is in the class throughout lies inside one run. -/
theorem infix_maximalRuns {w s : List α} (hne : w ≠ []) (hw : ∀ a ∈ w, p a = true) (h : w <:+: s) :
    ∃ r ∈ maximalRuns p s, w <:+: r := infix_runsFrom hne hw (show w <:+: [] ++ s from h)

end MaximalRuns
