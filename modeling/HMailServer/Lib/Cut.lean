import Mathlib

/- Cutting a list at the first or at the last occurrence of a separator, as
   `Find` or `ReverseFind` and two `Mid` calls do. -/
namespace Cut

variable {α : Type} [DecidableEq α] {c : α} {s a b : List α}

def cut (c : α) : List α → Option (List α × List α)
  | [] => none
  | x :: s => if x = c then some ([], s) else (cut c s).map fun p => (x :: p.1, p.2)

def cutLast (c : α) : List α → Option (List α × List α)
  | [] => none
  | x :: s =>
    match cutLast c s with
    | some p => some (x :: p.1, p.2)
    | none => if x = c then some ([], s) else none

theorem cut_append (h : c ∉ a) : cut c (a ++ c :: b) = some (a, b) := by
  induction a with
  | nil => simp [cut]
  | cons x a ih =>
    rw [List.mem_cons, not_or] at h
    rw [List.cons_append, cut, if_neg (Ne.symm h.1), ih h.2]
    rfl

theorem eq_of_cut (h : cut c s = some (a, b)) : s = a ++ c :: b ∧ c ∉ a := by
  induction s generalizing a with
  | nil => cases h
  | cons x s ih =>
    rw [cut] at h
    split at h
    · rename_i hx
      cases h
      exact ⟨by rw [hx]; rfl, by simp⟩
    · rename_i hx
      obtain ⟨p, hp, hab⟩ := Option.map_eq_some_iff.1 h
      cases hab
      obtain ⟨hs, hc⟩ := ih hp
      refine ⟨by rw [hs]; rfl, ?_⟩
      rw [List.mem_cons, not_or]
      exact ⟨Ne.symm hx, hc⟩

theorem notMem_of_cut (h : cut c s = none) : c ∉ s := by
  intro hmem
  obtain ⟨a, b, rfl, ha⟩ := List.eq_append_cons_of_mem hmem
  rw [cut_append ha] at h
  cases h

theorem cut_eq_none (h : c ∉ s) : cut c s = none := by
  cases hcut : cut c s with
  | none => rfl
  | some p => exact absurd (by rw [(eq_of_cut hcut).1]; simp) h

theorem cutLast_eq_none : cutLast c s = none ↔ c ∉ s := by
  induction s with
  | nil => simp [cutLast]
  | cons x s ih =>
    rw [cutLast, List.mem_cons, not_or, ← ih]
    cases h : cutLast c s with
    | some p => simp
    | none =>
      by_cases hx : x = c
      · simp [hx]
      · simp [hx, Ne.symm hx]

theorem cutLast_append (h : c ∉ b) : cutLast c (a ++ c :: b) = some (a, b) := by
  induction a with
  | nil =>
    rw [List.nil_append, cutLast, cutLast_eq_none.2 h]
    simp
  | cons x a ih => rw [List.cons_append, cutLast, ih]

theorem eq_of_cutLast (h : cutLast c s = some (a, b)) : s = a ++ c :: b ∧ c ∉ b := by
  induction s generalizing a with
  | nil => cases h
  | cons x s ih =>
    rw [cutLast] at h
    cases hs : cutLast c s with
    | some p =>
      rw [hs] at h
      cases h
      obtain ⟨hs, hb⟩ := ih hs
      exact ⟨by rw [hs]; rfl, hb⟩
    | none =>
      rw [hs] at h
      dsimp only at h
      split at h
      · rename_i hx
        cases h
        exact ⟨by rw [hx]; rfl, cutLast_eq_none.1 hs⟩
      · cases h

/-- What two cuts at the last separator have in common. -/
theorem append_cons_inj_last {a' b' : List α} (hb : c ∉ b) (hb' : c ∉ b') (h : a ++ c :: b = a' ++ c :: b') :
    a = a' ∧ b = b' := by
  have h1 : cutLast c (a ++ c :: b) = some (a, b) := cutLast_append hb
  rw [h, cutLast_append hb'] at h1
  cases h1
  exact ⟨rfl, rfl⟩

end Cut
