import Mathlib

/- The lines of a text: each ends with the separator, but perhaps the last. -/
namespace Lines

variable {α : Type} [DecidableEq α] {sep : α}

/-- The text cut behind each separator. -/
def lines (sep : α) : List α → List (List α)
  | [] => []
  | c :: s =>
    if c = sep then [c] :: lines sep s
    else match lines sep s with
      | [] => [[c]]
      | l :: ls => (c :: l) :: ls

@[simp] theorem lines_nil : lines sep [] = [] := rfl

theorem lines_append_sep {l : List α} (hl : sep ∉ l) (s : List α) : lines sep (l ++ sep :: s) = (l ++ [sep]) :: lines sep s := by
  induction l with
  | nil => rw [List.nil_append, lines, if_pos rfl, List.nil_append]
  | cons c l ih =>
    rw [List.mem_cons, not_or] at hl
    rw [List.cons_append, lines, if_neg (Ne.symm hl.1), ih hl.2]
    rfl

/-- A last line that has no end. -/
theorem lines_of_notMem {l : List α} (hne : l ≠ []) (hl : sep ∉ l) : lines sep l = [l] := by
  induction l with
  | nil => exact absurd rfl hne
  | cons c l ih =>
    rw [List.mem_cons, not_or] at hl
    rw [lines, if_neg (Ne.symm hl.1)]
    cases l with
    | nil => rfl
    | cons d l => rw [ih (List.cons_ne_nil d l) hl.2]

/-- A text has no line, one without an end, or one with it and the rest. -/
theorem lines_induction (sep : α) {P : List α → Prop} (hnil : P []) (hlast : ∀ l, l ≠ [] → sep ∉ l → P l)
    (hline : ∀ l s, sep ∉ l → P s → P (l ++ sep :: s)) (s : List α) : P s := by
  induction hn : s.length using Nat.strong_induction_on generalizing s with
  | _ n ih =>
    by_cases hmem : sep ∈ s
    · obtain ⟨l, rest, hs, hl⟩ := List.eq_append_cons_of_mem hmem
      rw [hs, List.length_append, List.length_cons] at hn
      rw [hs]
      exact hline l rest hl (ih rest.length (by omega) rest rfl)
    · by_cases hne : s = []
      · rw [hne]
        exact hnil
      · exact hlast s hne hmem

theorem flatten_lines (sep : α) (s : List α) : (lines sep s).flatten = s := by
  induction s using lines_induction sep with
  | hnil => rfl
  | hlast l hne hl => rw [lines_of_notMem hne hl, List.flatten_singleton]
  | hline l s hl ih =>
    rw [lines_append_sep hl, List.flatten_cons, ih, List.append_assoc]
    rfl

theorem lines_eq_nil_iff {s : List α} : lines sep s = [] ↔ s = [] := by
  constructor
  · intro h
    rw [← flatten_lines sep s, h]
    rfl
  · intro h
    rw [h]
    rfl

/-- A text that ends with its separator is read by itself. -/
theorem lines_append {s : List α} (h : s = [] ∨ s.getLast? = some sep) (t : List α) :
    lines sep (s ++ t) = lines sep s ++ lines sep t := by
  induction s using lines_induction sep with
  | hnil => rfl
  | hlast l hne hl =>
    obtain ⟨front, hfront⟩ := List.getLast?_eq_some_iff.1 (h.resolve_left hne)
    exact absurd (by rw [hfront]; exact List.mem_append_right _ (List.mem_singleton_self _)) hl
  | hline l s hl ih =>
    have hrest : s = [] ∨ s.getLast? = some sep := by
      by_cases hs : s = []
      · exact .inl hs
      · apply Or.inr
        have hlast := h.resolve_left (List.append_ne_nil_of_right_ne_nil _ (List.cons_ne_nil _ _))
        rwa [List.getLast?_append_of_ne_nil _ (List.cons_ne_nil sep s), List.getLast?_cons_of_ne_nil hs] at hlast
    rw [lines_append_sep hl, List.append_assoc, List.cons_append, lines_append_sep hl, ih hrest]
    rfl

/-- Each line is the whole of a text of one line. -/
theorem lines_of_mem {s l : List α} (h : l ∈ lines sep s) : lines sep l = [l] := by
  induction s using lines_induction sep with
  | hnil => exact absurd h List.not_mem_nil
  | hlast s hne hs =>
    rw [lines_of_notMem hne hs, List.mem_singleton] at h
    rw [h, lines_of_notMem hne hs]
  | hline k s hk ih =>
    rw [lines_append_sep hk, List.mem_cons] at h
    rcases h with h | h
    · rw [h, lines_append_sep hk []]
      rfl
    · exact ih h

end Lines
