import Mathlib

/- `std::lower_bound` and `std::binary_search` over a list that is sorted
   strictly by `less`. -/
namespace BinarySearch

variable {α : Type} (less : α → α → Bool)

/-- The first of `count` places from `first` on whose element is not less than
    `a`. The number of places bounds the turns. -/
def lowerBound (xs : List α) (a : α) : Nat → Nat → Nat → Nat
  | 0, first, _ => first
  | turns + 1, first, count =>
    if count = 0 then first
    else
      let half := count / 2
      match xs[first + half]? with
      | none => first
      | some x =>
        if less x a then lowerBound xs a turns (first + half + 1) (count - half - 1)
        else lowerBound xs a turns first half

def contains (xs : List α) (a : α) : Bool :=
  match xs[lowerBound less xs a xs.length 0 xs.length]? with
  | none => false
  | some x => !less a x

/-- In front of `first` the elements are less than `a`, from `last` on they are
    not. -/
def Splits (xs : List α) (a : α) (first last : Nat) : Prop :=
  (∀ i x, xs[i]? = some x → i < first → less x a = true) ∧ ∀ i x, xs[i]? = some x → last ≤ i → less x a = false

variable {less} {xs : List α} {a : α}

theorem less_of_lt (hsorted : xs.Pairwise fun x y => less x y = true) {i j : Nat} {x y : α} (hx : xs[i]? = some x) (hy : xs[j]? = some y) (hij : i < j) :
    less x y = true := by
  obtain ⟨hi, rfl⟩ := List.getElem?_eq_some_iff.1 hx
  obtain ⟨hj, rfl⟩ := List.getElem?_eq_some_iff.1 hy
  exact List.pairwise_iff_getElem.1 hsorted i j hi hj hij

section
variable (htrans : ∀ a b c, less a b = true → less b c = true → less a c = true)
  (hsorted : xs.Pairwise fun x y => less x y = true)
include htrans hsorted

/-- The search keeps the place it looks for between its bounds. -/
theorem lowerBound_splits (turns first count : Nat) (hturns : count ≤ turns) (hlength : first + count ≤ xs.length)
    (h : Splits less xs a first (first + count)) :
    Splits less xs a (lowerBound less xs a turns first count) (lowerBound less xs a turns first count) := by
  induction turns generalizing first count with
  | zero =>
    have hzero : count = 0 := by omega
    rw [hzero] at h
    exact h
  | succ turns ih =>
    rw [lowerBound]
    split
    · rename_i hzero
      rw [hzero] at h
      exact h
    · rename_i hpos
      have hlt : first + count / 2 < xs.length := by omega
      have hget : xs[first + count / 2]? = some xs[first + count / 2] := List.getElem?_eq_getElem hlt
      simp only [hget]
      cases hless : less xs[first + count / 2] a with
      | true =>
        rw [if_pos rfl]
        apply ih
        · omega
        · omega
        · have hlast : first + count / 2 + 1 + (count - count / 2 - 1) = first + count := by omega
          rw [hlast]
          refine ⟨fun i x hx hi => ?_, h.2⟩
          by_cases hi' : i = first + count / 2
          · rw [hi', hget] at hx
            rw [← Option.some.inj hx]
            exact hless
          · exact htrans _ _ _ (less_of_lt hsorted hx hget (by omega)) hless
      | false =>
        rw [if_neg Bool.false_ne_true]
        apply ih
        · omega
        · omega
        · refine ⟨h.1, fun i x hx hi => ?_⟩
          by_cases hi' : i = first + count / 2
          · rw [hi', hget] at hx
            rw [← Option.some.inj hx]
            exact hless
          · rw [Bool.eq_false_iff]
            intro hx'
            rw [htrans _ _ _ (less_of_lt hsorted hget hx (by omega)) hx'] at hless
            cases hless

/-- The search finds an element that is neither less nor greater. -/
theorem contains_iff : contains less xs a = true ↔ ∃ x ∈ xs, less x a = false ∧ less a x = false := by
  have hstart : Splits less xs a 0 (0 + xs.length) := by
    refine ⟨fun i _ _ hi => absurd hi (Nat.not_lt_zero i), fun i x hx hi => ?_⟩
    obtain ⟨hlt, _⟩ := List.getElem?_eq_some_iff.1 hx
    omega
  obtain ⟨hbelow, habove⟩ := lowerBound_splits htrans hsorted xs.length 0 xs.length (Nat.le_refl _) (by omega) hstart
  rw [contains]
  generalize lowerBound less xs a xs.length 0 xs.length = k at hbelow habove
  constructor
  · intro h
    cases hk : xs[k]? with
    | none =>
      rw [hk] at h
      cases h
    | some x =>
      rw [hk] at h
      exact ⟨x, List.mem_of_getElem? hk, habove k x hk (Nat.le_refl k), by simpa using h⟩
  · rintro ⟨x, hx, hxa, hax⟩
    obtain ⟨j, hj⟩ := List.mem_iff_getElem?.1 hx
    have hkj : k ≤ j := by
      by_contra hlt
      rw [hbelow j x hj (by omega)] at hxa
      cases hxa
    obtain ⟨hjlt, _⟩ := List.getElem?_eq_some_iff.1 hj
    have hget : xs[k]? = some xs[k] := List.getElem?_eq_getElem (by omega)
    rw [hget]
    by_cases hkj' : k = j
    · rw [← hkj', hget] at hj
      rw [Option.some.inj hj]
      simpa using hax
    · have hless := less_of_lt hsorted hget hj (by omega)
      have hnot : less a xs[k] = false := by
        rw [Bool.eq_false_iff]
        intro hak
        rw [htrans _ _ _ hak hless] at hax
        cases hax
      simpa using hnot

end

end BinarySearch
