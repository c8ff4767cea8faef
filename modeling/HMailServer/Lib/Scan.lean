import Mathlib

/- Scanning a list up to the first element that stops the scan. -/
namespace Scan

variable {α : Type} {p : α → Bool} {a b : List α} {x : α}

/-- A scan for `p` goes no further at `b`. -/
def Stops (p : α → Bool) (b : List α) : Prop := ∀ x, b.head? = some x → p x = false

theorem stops_nil : Stops p [] := by
  intro x hx
  cases hx

theorem stops_cons (h : p x = false) : Stops p (x :: b) := by
  intro y hy
  cases hy
  exact h

theorem Stops.append (ha : Stops p a) (hne : a ≠ []) : Stops p (a ++ b) := by
  intro y hy
  rw [List.head?_append_of_ne_nil _ hne] at hy
  exact ha y hy

theorem takeWhile_append (ha : ∀ y ∈ a, p y = true) (hb : Stops p b) : (a ++ b).takeWhile p = a := by
  rw [List.takeWhile_append_of_pos ha]
  cases b with
  | nil => rw [List.takeWhile_nil, List.append_nil]
  | cons y b => rw [List.takeWhile_cons_of_neg (by simp [hb y rfl]), List.append_nil]

theorem dropWhile_append (ha : ∀ y ∈ a, p y = true) (hb : Stops p b) : (a ++ b).dropWhile p = b := by
  rw [List.dropWhile_append_of_pos ha]
  cases b with
  | nil => rfl
  | cons y b => exact List.dropWhile_cons_of_neg (by simp [hb y rfl])

theorem findIdx?_append (ha : ∀ y ∈ a, p y = false) (hx : p x = true) :
    (a ++ x :: b).findIdx? p = some a.length := by
  induction a with
  | nil => simp [List.findIdx?_cons, hx]
  | cons y a ih =>
    have hrest := ih fun z hz => ha z (by simp [hz])
    simp [List.findIdx?_cons, ha y (by simp), hrest]

theorem findIdx?_none (h : ∀ y ∈ a, p y = false) : a.findIdx? p = none := by
  rw [List.findIdx?_eq_none_iff]
  exact h

/-- A prefix does not reach into `b` if it has not the element `b` begins
    with. -/
theorem prefix_of_append {s : List α} (h : s <+: a ++ b) (hb : ∀ x, b.head? = some x → x ∉ s) : s <+: a := by
  rcases Nat.le_total s.length a.length with hle | hge
  · exact List.prefix_of_prefix_length_le h (List.prefix_append _ _) hle
  · obtain ⟨more, rfl⟩ := List.prefix_of_prefix_length_le (List.prefix_append _ _) h hge
    rw [List.prefix_append_right_inj] at h
    cases more with
    | nil => rw [List.append_nil]
    | cons x more =>
      obtain ⟨t, rfl⟩ := h
      exact absurd (List.mem_append_right _ List.mem_cons_self) (hb x rfl)

end Scan
