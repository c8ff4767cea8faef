import Mathlib

/- Cutting and splitting a list at a separator that does not count inside
   quotations. A quotation mark opens and closes in turn; the marks stay in the
   pieces. -/
namespace QuotedSplit

section

variable {α : Type} [DecidableEq α] (quote sep : α)

/-- Whether a quotation is open after `x`. -/
def toggle (quoted : Bool) (x : α) : Bool := if x = quote then !quoted else quoted

/-- Whether a quotation is open after `s`. -/
def quotedAfter (quoted : Bool) (s : List α) : Bool := s.foldl (toggle quote) quoted

/-- Cut at the first separator outside quotations. -/
def cutUnquoted : Bool → List α → Option (List α × List α)
  | _, [] => none
  | quoted, x :: s =>
    if x = quote then (cutUnquoted (!quoted) s).map fun p => (x :: p.1, p.2)
    else if x = sep ∧ quoted = false then some ([], s)
    else (cutUnquoted quoted s).map fun p => (x :: p.1, p.2)

/-- The pieces between separators outside quotations. -/
def splitUnquoted : Bool → List α → List (List α)
  | _, [] => [[]]
  | quoted, x :: s =>
    if x = quote then (splitUnquoted (!quoted) s).modifyHead (x :: ·)
    else if x = sep ∧ quoted = false then [] :: splitUnquoted quoted s
    else (splitUnquoted quoted s).modifyHead (x :: ·)

/-- Every separator is inside a quotation. -/
def Enclosed : Bool → List α → Prop
  | _, [] => True
  | quoted, x :: s => (x = sep → quoted = true) ∧ Enclosed (toggle quote quoted x) s

end

variable {α : Type} [DecidableEq α] {quote sep sep' : α}

/-! ## Quotations -/

theorem quotedAfter_append (quoted : Bool) (s t : List α) :
    quotedAfter quote quoted (s ++ t) = quotedAfter quote (quotedAfter quote quoted s) t :=
  List.foldl_append

theorem quotedAfter_not (quoted : Bool) (s : List α) : quotedAfter quote (!quoted) s = !quotedAfter quote quoted s := by
  induction s generalizing quoted with
  | nil => rfl
  | cons x s ih =>
    show quotedAfter quote (toggle quote (!quoted) x) s = !quotedAfter quote (toggle quote quoted x) s
    rw [← ih]
    unfold toggle
    split <;> rfl

theorem quotedAfter_of_notMem (quoted : Bool) {s : List α} (h : quote ∉ s) : quotedAfter quote quoted s = quoted := by
  induction s generalizing quoted with
  | nil => rfl
  | cons x s ih =>
    rw [List.mem_cons, not_or] at h
    show quotedAfter quote (toggle quote quoted x) s = quoted
    rw [toggle, if_neg (Ne.symm h.1), ih quoted h.2]

theorem enclosed_append (quoted : Bool) (s t : List α) :
    Enclosed quote sep quoted (s ++ t) ↔
      Enclosed quote sep quoted s ∧ Enclosed quote sep (quotedAfter quote quoted s) t := by
  induction s generalizing quoted with
  | nil => exact ⟨fun h => ⟨trivial, h⟩, fun h => h.2⟩
  | cons x s ih =>
    show _ ∧ Enclosed quote sep (toggle quote quoted x) (s ++ t) ↔ _
    rw [ih, ← and_assoc]
    rfl

theorem enclosed_of_notMem (quoted : Bool) {s : List α} (h : sep ∉ s) : Enclosed quote sep quoted s := by
  induction s generalizing quoted with
  | nil => trivial
  | cons x s ih =>
    rw [List.mem_cons, not_or] at h
    exact ⟨fun hx => absurd hx.symm h.1, ih _ h.2⟩

/-- Inside an open quotation that no mark of `s` closes. -/
theorem enclosed_quoted {s : List α} (h : quote ∉ s) : Enclosed quote sep true s := by
  induction s with
  | nil => trivial
  | cons x s ih =>
    rw [List.mem_cons, not_or] at h
    refine ⟨fun _ => rfl, ?_⟩
    rw [toggle, if_neg (Ne.symm h.1)]
    exact ih h.2

theorem quotedAfter_map {f : α → α} (hquote : ∀ x, f x = quote ↔ x = quote) (quoted : Bool) (s : List α) :
    quotedAfter quote quoted (s.map f) = quotedAfter quote quoted s := by
  induction s generalizing quoted with
  | nil => rfl
  | cons x s ih =>
    show quotedAfter quote (toggle quote quoted (f x)) (s.map f) = quotedAfter quote (toggle quote quoted x) s
    rw [ih]
    simp only [toggle, hquote]

theorem enclosed_map {f : α → α} (hquote : ∀ x, f x = quote ↔ x = quote) (hsep : ∀ x, f x = sep ↔ x = sep)
    (quoted : Bool) (s : List α) :
    Enclosed quote sep quoted (s.map f) ↔ Enclosed quote sep quoted s := by
  induction s generalizing quoted with
  | nil => exact Iff.rfl
  | cons x s ih =>
    show (f x = sep → _) ∧ Enclosed quote sep (toggle quote quoted (f x)) (s.map f) ↔ _
    rw [ih, hsep]
    simp only [toggle, hquote]
    rfl

/-! ## Cutting -/

theorem cutUnquoted_append (hne : sep ≠ quote) {quoted : Bool} {a : List α} (b : List α)
    (h : Enclosed quote sep quoted a) (hafter : quotedAfter quote quoted a = false) :
    cutUnquoted quote sep quoted (a ++ sep :: b) = some (a, b) := by
  induction a generalizing quoted with
  | nil =>
    rw [List.nil_append, cutUnquoted, if_neg hne, if_pos ⟨rfl, hafter⟩]
  | cons x a ih =>
    have hrest := ih h.2 hafter
    rw [List.cons_append, cutUnquoted]
    by_cases hx : x = quote
    · rw [toggle, if_pos hx] at hrest
      rw [if_pos hx, hrest]
      rfl
    · rw [toggle, if_neg hx] at hrest
      rw [if_neg hx, if_neg, hrest]
      · rfl
      · rintro ⟨hs, hq⟩
        rw [h.1 hs] at hq
        cases hq

theorem cutUnquoted_pass {quoted : Bool} {a s : List α} (hsep : sep ∉ a) (hquote : quote ∉ a) :
    cutUnquoted quote sep quoted (a ++ s) = (cutUnquoted quote sep quoted s).map fun p => (a ++ p.1, p.2) := by
  induction a with
  | nil => simp
  | cons x a ih =>
    rw [List.mem_cons, not_or] at hsep hquote
    rw [List.cons_append, cutUnquoted, if_neg (Ne.symm hquote.1), if_neg fun h => hsep.1 h.1.symm, ih hsep.2 hquote.2,
      Option.map_map]
    rfl

theorem eq_of_cutUnquoted (hne : sep ≠ quote) {quoted : Bool} {s a b : List α}
    (h : cutUnquoted quote sep quoted s = some (a, b)) :
    s = a ++ sep :: b ∧ Enclosed quote sep quoted a ∧ quotedAfter quote quoted a = false := by
  induction s generalizing quoted a with
  | nil => cases h
  | cons x s ih =>
    rw [cutUnquoted] at h
    split at h
    · rename_i hx
      obtain ⟨p, hp, hab⟩ := Option.map_eq_some_iff.1 h
      cases hab
      obtain ⟨rfl, hencl, hafter⟩ := ih hp
      refine ⟨rfl, ⟨fun hs => absurd (hs.symm.trans hx) hne, ?_⟩, ?_⟩
      · rw [toggle, if_pos hx]
        exact hencl
      · show quotedAfter quote (toggle quote quoted x) p.1 = false
        rw [toggle, if_pos hx, hafter]
    · rename_i hx
      split at h
      · rename_i hs
        cases h
        exact ⟨by rw [hs.1]; rfl, trivial, hs.2⟩
      · rename_i hs
        obtain ⟨p, hp, hab⟩ := Option.map_eq_some_iff.1 h
        cases hab
        obtain ⟨rfl, hencl, hafter⟩ := ih hp
        refine ⟨rfl, ⟨fun hsep => ?_, ?_⟩, ?_⟩
        · cases hq : quoted with
          | true => rfl
          | false => exact absurd ⟨hsep, hq⟩ hs
        · rw [toggle, if_neg hx]
          exact hencl
        · show quotedAfter quote (toggle quote quoted x) p.1 = false
          rw [toggle, if_neg hx, hafter]

theorem enclosed_of_cutUnquoted (hne : sep ≠ quote) {quoted : Bool} {s : List α}
    (h : cutUnquoted quote sep quoted s = none) : Enclosed quote sep quoted s := by
  induction s generalizing quoted with
  | nil => trivial
  | cons x s ih =>
    rw [cutUnquoted] at h
    split at h
    · rename_i hx
      refine ⟨fun hs => absurd (hs.symm.trans hx) hne, ?_⟩
      rw [toggle, if_pos hx]
      exact ih (Option.map_eq_none_iff.1 h)
    · rename_i hx
      split at h
      · cases h
      · rename_i hs
        refine ⟨fun hsep => ?_, ?_⟩
        · cases hq : quoted with
          | true => rfl
          | false => exact absurd ⟨hsep, hq⟩ hs
        · rw [toggle, if_neg hx]
          exact ih (Option.map_eq_none_iff.1 h)

/-! ## Splitting -/

theorem splitUnquoted_append (hne : sep ≠ quote) {quoted : Bool} {a : List α} (b : List α)
    (h : Enclosed quote sep quoted a) (hafter : quotedAfter quote quoted a = false) :
    splitUnquoted quote sep quoted (a ++ sep :: b) = a :: splitUnquoted quote sep false b := by
  induction a generalizing quoted with
  | nil =>
    rw [List.nil_append, splitUnquoted, if_neg hne, if_pos ⟨rfl, hafter⟩]
    rw [show quoted = false from hafter]
  | cons x a ih =>
    have hrest := ih h.2 hafter
    rw [List.cons_append, splitUnquoted]
    by_cases hx : x = quote
    · rw [toggle, if_pos hx] at hrest
      rw [if_pos hx, hrest]
      rfl
    · rw [toggle, if_neg hx] at hrest
      rw [if_neg hx, if_neg, hrest]
      · rfl
      · rintro ⟨hs, hq⟩
        rw [h.1 hs] at hq
        cases hq

theorem splitUnquoted_enclosed {quoted : Bool} {a : List α} (h : Enclosed quote sep quoted a) :
    splitUnquoted quote sep quoted a = [a] := by
  induction a generalizing quoted with
  | nil => rfl
  | cons x a ih =>
    have hrest := ih h.2
    rw [splitUnquoted]
    by_cases hx : x = quote
    · rw [toggle, if_pos hx] at hrest
      rw [if_pos hx, hrest]
      rfl
    · rw [toggle, if_neg hx] at hrest
      rw [if_neg hx, if_neg, hrest]
      · rfl
      · rintro ⟨hs, hq⟩
        rw [h.1 hs] at hq
        cases hq

/-- The first piece reaches to the first separator outside quotations or to the
    end, and the other pieces are those of what is left. -/
theorem splitUnquoted_spec (hne : sep ≠ quote) (quoted : Bool) (s : List α) :
    ∃ p, Enclosed quote sep quoted p ∧
      ((s = p ∧ splitUnquoted quote sep quoted s = [p]) ∨
        ∃ b, s = p ++ sep :: b ∧ quotedAfter quote quoted p = false ∧
          splitUnquoted quote sep quoted s = p :: splitUnquoted quote sep false b) := by
  cases h : cutUnquoted quote sep quoted s with
  | none =>
    have hencl := enclosed_of_cutUnquoted hne h
    exact ⟨s, hencl, .inl ⟨rfl, splitUnquoted_enclosed hencl⟩⟩
  | some p =>
    obtain ⟨a, b⟩ := p
    obtain ⟨rfl, hencl, hafter⟩ := eq_of_cutUnquoted hne h
    exact ⟨a, hencl, .inr ⟨b, rfl, hafter, splitUnquoted_append hne b hencl hafter⟩⟩

/-- Where no quotation is left open, none is in any piece; and what another
    separator's place is in `s`, it is in each piece. -/
theorem mem_splitUnquoted (hne : sep ≠ quote) {s p : List α} (hafter : quotedAfter quote false s = false)
    (hsep' : Enclosed quote sep' false s) (hp : p ∈ splitUnquoted quote sep false s) :
    Enclosed quote sep false p ∧ quotedAfter quote false p = false ∧ Enclosed quote sep' false p ∧ p ⊆ s := by
  induction hlen : s.length using Nat.strong_induction_on generalizing s with
  | _ n ih =>
    obtain ⟨first, hencl, ⟨rfl, hsplit⟩ | ⟨b, rfl, hfirst, hsplit⟩⟩ := splitUnquoted_spec hne false s
    · rw [hsplit, List.mem_singleton] at hp
      subst hp
      exact ⟨hencl, hafter, hsep', List.Subset.refl _⟩
    · -- the separator closes no quotation
      have hopen : quotedAfter quote false (first ++ sep :: b) = quotedAfter quote false b := by
        rw [quotedAfter_append, hfirst]
        show quotedAfter quote (toggle quote false sep) b = _
        rw [toggle, if_neg hne]
      rw [enclosed_append, hfirst] at hsep'
      rw [hsplit, List.mem_cons] at hp
      obtain rfl | hp := hp
      · exact ⟨hencl, hfirst, hsep'.1, List.subset_append_left _ _⟩
      · have hrest : Enclosed quote sep' false b := by
          have h := hsep'.2.2
          rwa [toggle, if_neg hne] at h
        obtain ⟨h1, h2, h3, h4⟩ := ih b.length (by rw [← hlen]; simp; omega) (hopen ▸ hafter) hrest hp rfl
        exact ⟨h1, h2, h3, fun x hx => by simp [h4 hx]⟩

end QuotedSplit
