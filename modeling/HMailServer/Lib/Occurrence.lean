import Mathlib

/- The first occurrence of one list in another. -/
namespace Occurrence

variable {α : Type} [DecidableEq α] {sub s t : List α} {i j : Nat}

/-- Where `sub` first occurs in the list. -/
def find (sub : List α) : List α → Option Nat
  | [] => if sub = [] then some 0 else none
  | c :: s => if sub.isPrefixOf (c :: s) then some 0 else (find sub s).map (· + 1)

theorem find_cons (c : α) (s : List α) :
    find sub (c :: s) = if sub <+: c :: s then some 0 else (find sub s).map (· + 1) := by
  rw [find]
  simp only [List.isPrefixOf_iff_prefix]

theorem find_eq_some_iff : find sub s = some i ↔ i ≤ s.length ∧ sub <+: s.drop i ∧ ∀ j < i, ¬sub <+: s.drop j := by
  induction s generalizing i with
  | nil =>
    rw [find]
    split
    · rename_i hsub
      subst hsub
      constructor
      · intro h
        cases h
        exact ⟨Nat.le_refl 0, List.nil_prefix, fun j hj => absurd hj (Nat.not_lt_zero j)⟩
      · rintro ⟨hi, -⟩
        rw [Nat.le_zero.1 hi]
    · rename_i hsub
      refine iff_of_false nofun fun h => hsub ?_
      rw [List.drop_nil] at h
      exact List.prefix_nil.1 h.2.1
  | cons c s ih =>
    rw [find_cons]
    split
    · rename_i hhead
      constructor
      · intro h
        cases h
        exact ⟨Nat.zero_le _, hhead, fun j hj => absurd hj (Nat.not_lt_zero j)⟩
      · rintro ⟨-, -, hfirst⟩
        cases i with
        | zero => rfl
        | succ i => exact absurd hhead (hfirst 0 (Nat.succ_pos i))
    · rename_i hhead
      cases i with
      | zero =>
        refine iff_of_false (fun h => ?_) fun h => hhead h.2.1
        obtain ⟨k, -, hk⟩ := Option.map_eq_some_iff.1 h
        exact absurd hk (Nat.succ_ne_zero k)
      | succ i =>
        rw [Option.map_eq_some_iff]
        constructor
        · rintro ⟨k, hk, hki⟩
          cases hki
          obtain ⟨hle, hat, hfirst⟩ := ih.1 hk
          refine ⟨Nat.succ_le_succ hle, hat, fun j hj => ?_⟩
          cases j with
          | zero => exact hhead
          | succ j => exact hfirst j (Nat.lt_of_succ_lt_succ hj)
        · rintro ⟨hle, hat, hfirst⟩
          exact ⟨i, ih.2 ⟨Nat.le_of_succ_le_succ hle, hat, fun j hj => hfirst (j + 1) (Nat.succ_lt_succ hj)⟩, rfl⟩

theorem find_eq_none_iff (hsub : sub ≠ []) : find sub s = none ↔ ∀ j, ¬sub <+: s.drop j := by
  induction s with
  | nil =>
    rw [find, if_neg hsub]
    refine iff_of_true rfl fun j h => hsub ?_
    rw [List.drop_nil] at h
    exact List.prefix_nil.1 h
  | cons c s ih =>
    rw [find_cons]
    split
    · rename_i hhead
      exact iff_of_false nofun fun h => h 0 hhead
    · rename_i hhead
      rw [Option.map_eq_none_iff, ih]
      constructor
      · intro h j
        cases j with
        | zero => exact hhead
        | succ j => exact h j
      · exact fun h j => h (j + 1)

/-- The whole of it is there. -/
theorem length_le_of_find (h : find sub s = some i) : i + sub.length ≤ s.length := by
  obtain ⟨hle, hat, -⟩ := find_eq_some_iff.1 h
  have hlength := hat.length_le
  rw [List.length_drop] at hlength
  omega

/-- An occurrence that ends within the front part is one of the front part. -/
theorem prefix_drop_append (h : sub <+: (s ++ t).drop i) (hi : i + sub.length ≤ s.length) : sub <+: s.drop i := by
  rw [List.drop_append_of_le_length (by omega)] at h
  exact List.prefix_of_prefix_length_le h (List.prefix_append _ _) (by rw [List.length_drop]; omega)

/-- What follows does not move the first occurrence. -/
theorem find_append (h : find sub s = some i) : find sub (s ++ t) = some i := by
  have hlength := length_le_of_find h
  obtain ⟨hle, hat, hfirst⟩ := find_eq_some_iff.1 h
  refine find_eq_some_iff.2 ⟨?_, ?_, fun j hj hother => hfirst j hj ?_⟩
  · rw [List.length_append]
    omega
  · rw [List.drop_append_of_le_length hle]
    exact hat.trans (List.prefix_append _ _)
  · exact prefix_drop_append hother (by omega)

/-- A front part with room for the first occurrence has it. -/
theorem find_of_append (h : find sub (s ++ t) = some i) (hi : i + sub.length ≤ s.length) : find sub s = some i := by
  obtain ⟨-, hat, hfirst⟩ := find_eq_some_iff.1 h
  refine find_eq_some_iff.2 ⟨by omega, prefix_drop_append hat hi, fun j hj hother => hfirst j hj ?_⟩
  rw [List.drop_append_of_le_length (by omega)]
  exact hother.trans (List.prefix_append _ _)

/-- Behind `k` elements the first occurrence is `k` nearer. -/
theorem find_drop (h : find sub s = some i) {k : Nat} (hk : k ≤ i) : find sub (s.drop k) = some (i - k) := by
  obtain ⟨hle, hat, hfirst⟩ := find_eq_some_iff.1 h
  refine find_eq_some_iff.2 ⟨?_, ?_, fun j hj hother => hfirst (k + j) (by omega) ?_⟩
  · rw [List.length_drop]
    omega
  · rw [List.drop_drop, Nat.add_sub_cancel' hk]
    exact hat
  · rwa [List.drop_drop] at hother

end Occurrence
