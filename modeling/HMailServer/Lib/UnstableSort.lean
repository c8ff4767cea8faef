import Mathlib

/- Sorting by a strict weak order when the order of equivalent elements is left
   open, as `std::sort` leaves it: which relations hold along the result
   whatever the sort does with ties. -/
namespace UnstableSort

variable {α β : Type}

/-- What a comparator has to be. -/
structure StrictWeak (lt : α → α → Bool) : Prop where
  asymm : ∀ a b, lt a b = true → lt b a = false
  trans : ∀ a b c, lt a b = false → lt b c = false → lt a c = false

theorem StrictWeak.ofKey [LinearOrder β] {lt : α → α → Bool} (key : α → β)
    (h : ∀ a b, lt a b = true ↔ key a < key b) : StrictWeak lt where
  asymm a b hab := by
    rw [← Bool.not_eq_true, h]
    exact ((h a b).1 hab).not_gt
  trans a b c hab hbc := by
    rw [← Bool.not_eq_true, h, not_lt] at *
    exact hbc.trans hab

theorem StrictWeak.notAfter_trans {lt : α → α → Bool} (h : StrictWeak lt) (a b c : α) (hab : (!lt b a) = true)
    (hbc : (!lt c b) = true) : (!lt c a) = true := by
  rw [Bool.not_eq_true'] at *
  exact h.trans c b a hbc hab

theorem StrictWeak.notAfter_total {lt : α → α → Bool} (h : StrictWeak lt) (a b : α) : (!lt b a || !lt a b) = true := by
  cases hab : lt a b with
  | false => simp
  | true => simp [h.asymm a b hab]

/-- The contract of `std::sort`. -/
def IsSort (sort : (α → α → Bool) → List α → List α) : Prop :=
  ∀ lt, StrictWeak lt → ∀ xs, (sort lt xs).Perm xs ∧ (sort lt xs).Pairwise fun a b => lt b a = false

/-- A stable sort meets it. -/
def stableSort (lt : α → α → Bool) (xs : List α) : List α := xs.mergeSort fun a b => !lt b a

theorem isSort_stableSort : IsSort (@stableSort α) := by
  intro lt h xs
  refine ⟨List.mergeSort_perm _ _, ?_⟩
  exact (List.pairwise_mergeSort h.notAfter_trans h.notAfter_total xs).imp fun hab => by simpa using hab

/-- A relation along a list without repetitions, from its pairs. -/
theorem pairwise_of_pairs {R S : α → α → Prop} {xs : List α} (hn : xs.Nodup) (hs : xs.Pairwise S)
    (h : ∀ a ∈ xs, ∀ b ∈ xs, a ≠ b → S a b → R a b) : xs.Pairwise R :=
  (List.Pairwise.and hn hs).imp_of_mem fun ha hb hab => h _ ha _ hb hab.1 hab.2

/-- The sort that puts `a` in front of `b` when they are equivalent. -/
noncomputable def favouring (front : List α) (lt : α → α → Bool) (xs : List α) : List α :=
  open Classical in if front.Perm xs then stableSort lt front else stableSort lt xs

theorem isSort_favouring (front : List α) : IsSort (favouring front) := by
  intro lt h xs
  unfold favouring
  split
  · rename_i hp
    obtain ⟨hperm, hsorted⟩ := isSort_stableSort lt h front
    exact ⟨hperm.trans hp, hsorted⟩
  · exact isSort_stableSort lt h xs

/-- Every sort of `xs` is ordered by `R` exactly if `R` holds of any two of its
    elements that the comparator allows in that order. -/
theorem pairwise_sort_iff {lt : α → α → Bool} (h : StrictWeak lt) {R : α → α → Prop} {xs : List α} (hn : xs.Nodup) :
    (∀ sort, IsSort sort → (sort lt xs).Pairwise R) ↔
      ∀ a ∈ xs, ∀ b ∈ xs, a ≠ b → lt b a = false → R a b := by
  constructor
  · intro hall a ha b hb hne hba
    obtain ⟨rest, hrest⟩ : ∃ rest, (a :: b :: rest).Perm xs := by
      have hsub : [a, b].Subperm xs := List.subperm_of_subset (by simp [hne]) (by simp [ha, hb])
      obtain ⟨l, hperm, hlist⟩ := hsub
      obtain ⟨rest, hrest⟩ := hlist.exists_perm_append
      exact ⟨rest, ((hperm.append_right rest).symm.trans hrest.symm)⟩
    have hsorted := hall (favouring (a :: b :: rest)) (isSort_favouring _)
    have hpair : [a, b].Sublist (stableSort lt (a :: b :: rest)) := by
      apply List.pair_sublist_mergeSort h.notAfter_trans h.notAfter_total
      · simpa using hba
      · simp
    rw [favouring, if_pos hrest] at hsorted
    exact List.pairwise_pair.1 (hsorted.sublist hpair)
  · intro hpairs sort hsort
    obtain ⟨hperm, hsorted⟩ := hsort lt h xs
    apply pairwise_of_pairs (hperm.nodup_iff.2 hn) hsorted
    intro a ha b hb
    exact hpairs a (hperm.mem_iff.1 ha) b (hperm.mem_iff.1 hb)

end UnstableSort
