import Mathlib

/- Patterns with two wildcards, one for a single character and one for any run.
   A text is matched in parts, one for each wildcard. What a run takes is decided
   from left to right: `Chosen better` takes a length to which no better one still
   allows a match. -/
namespace Glob

inductive Token (α : Type) where
  | char (a : α)
  | one
  | star

variable {α β : Type}

def Token.map (f : α → β) : Token α → Token β
  | .char a => .char (f a)
  | .one => .one
  | .star => .star

/-- `same` says which characters of the text a character of the pattern stands
    for. -/
inductive Parts (same : α → α → Prop) : List (Token α) → List α → List (List α) → Prop where
  | nil : Parts same [] [] []
  | char {a b : α} {p : List (Token α)} {v : List α} {parts : List (List α)} (h : same a b) (rest : Parts same p v parts) :
      Parts same (.char a :: p) (b :: v) parts
  | one (a : α) {p : List (Token α)} {v : List α} {parts : List (List α)} (rest : Parts same p v parts) :
      Parts same (.one :: p) (a :: v) ([a] :: parts)
  | star {n : Nat} {p : List (Token α)} {v : List α} {parts : List (List α)} (hn : n ≤ v.length)
      (rest : Parts same p (v.drop n) parts) : Parts same (.star :: p) v (v.take n :: parts)

def Accepts (same : α → α → Prop) (p : List (Token α)) (v : List α) : Prop := ∃ parts, Parts same p v parts

inductive Chosen (same : α → α → Prop) (better : Nat → Nat → Prop) : List (Token α) → List α → List (List α) → Prop where
  | nil : Chosen same better [] [] []
  | char {a b : α} {p : List (Token α)} {v : List α} {parts : List (List α)} (h : same a b)
      (rest : Chosen same better p v parts) : Chosen same better (.char a :: p) (b :: v) parts
  | one (a : α) {p : List (Token α)} {v : List α} {parts : List (List α)} (rest : Chosen same better p v parts) :
      Chosen same better (.one :: p) (a :: v) ([a] :: parts)
  | star {n : Nat} {p : List (Token α)} {v : List α} {parts : List (List α)} (hn : n ≤ v.length)
      (best : ∀ m ≤ v.length, better m n → ¬ Accepts same p (v.drop m)) (rest : Chosen same better p (v.drop n) parts) :
      Chosen same better (.star :: p) v (v.take n :: parts)

/-- The parts put in place of the wildcards. -/
def rebuild : List (Token α) → List (List α) → List α
  | [], _ => []
  | .char a :: p, parts => a :: rebuild p parts
  | _ :: p, part :: parts => part ++ rebuild p parts
  | _ :: p, [] => rebuild p []

/-- Where the parts begin and end in the text. -/
def spans : List (Token α) → Nat → List (List α) → List (Nat × Nat)
  | .char _ :: p, position, parts => spans p (position + 1) parts
  | .one :: p, position, part :: parts => (position, position + part.length) :: spans p (position + part.length) parts
  | .star :: p, position, part :: parts => (position, position + part.length) :: spans p (position + part.length) parts
  | _, _, _ => []

section
variable {same : α → α → Prop} {better : Nat → Nat → Prop} {p : List (Token α)} {v : List α} {parts : List (List α)}

theorem Chosen.toParts (h : Chosen same better p v parts) : Parts same p v parts := by
  induction h with
  | nil => exact .nil
  | char h _ ih => exact .char h ih
  | one a _ ih => exact .one a ih
  | star hn _ _ ih => exact .star hn ih

/-- Of two lengths one is better, so the choice is determined. -/
theorem Chosen.unique (hbetter : ∀ m n, m ≠ n → better m n ∨ better n m) {parts' : List (List α)}
    (h : Chosen same better p v parts) (h' : Chosen same better p v parts') : parts = parts' := by
  induction h generalizing parts' with
  | nil =>
    cases h'
    rfl
  | char _ _ ih =>
    cases h' with
    | char _ rest => exact ih rest
  | one a _ ih =>
    cases h' with
    | one _ rest => rw [ih rest]
  | @star n p v parts hn best rest ih =>
    cases h' with
    | @star m _ _ parts' hm best' rest' =>
      have heq : n = m := by
        by_contra hne
        rcases hbetter n m hne with hb | hb
        · exact best' n hn hb ⟨parts, rest.toParts⟩
        · exact best m hm hb ⟨parts', rest'.toParts⟩
      subst heq
      rw [ih rest']

/-- The parts rebuild the text. -/
theorem Parts.rebuilds (h : Parts same p v parts) (hrefl : ∀ a, same a a) : List.Forall₂ same (rebuild p parts) v := by
  induction h with
  | nil => exact .nil
  | char h _ ih => exact .cons h ih
  | one a _ ih => exact .cons (hrefl a) ih
  | @star n p v parts _ _ ih =>
    have hwhole : List.Forall₂ same (v.take n ++ rebuild p parts) (v.take n ++ v.drop n) :=
      List.rel_append (List.forall₂_same.2 fun a _ => hrefl a) ih
    rwa [List.take_append_drop] at hwhole

/-- A pattern without wildcards. -/
theorem accepts_chars {s : List α} : Accepts same (s.map .char) v ↔ List.Forall₂ same s v := by
  constructor
  · rintro ⟨parts, h⟩
    induction s generalizing v with
    | nil =>
      cases h
      exact .nil
    | cons a s ih =>
      cases h with
      | char h rest => exact .cons h (ih rest)
  · intro h
    induction h with
    | nil => exact ⟨[], .nil⟩
    | cons h _ ih =>
      obtain ⟨parts, hparts⟩ := ih
      exact ⟨parts, .char h hparts⟩

/-- The parts are where the spans say, whatever is behind the text. -/
theorem Parts.spans_map (h : Parts same p v parts) (front behind : List α) :
    (spans p front.length parts).map (fun span => ((front ++ (v ++ behind)).drop span.1).take (span.2 - span.1)) = parts := by
  induction h generalizing front with
  | nil => rfl
  | @char a b p v parts _ _ ih =>
    have hnext := ih (front ++ [b])
    rw [List.length_append, List.append_assoc] at hnext
    exact hnext
  | @one a p v parts _ ih =>
    have hnext := ih (front ++ [a])
    rw [List.length_append, List.append_assoc] at hnext
    rw [spans, List.map_cons, List.drop_left, Nat.add_sub_cancel_left]
    exact congrArg _ hnext
  | @star n p v parts hn _ ih =>
    have hnext := ih (front ++ v.take n)
    have hwhole : v.take n ++ (v.drop n ++ behind) = v ++ behind := by rw [← List.append_assoc, List.take_append_drop]
    have htake : (v ++ behind).take (v.take n).length = v.take n := by
      rw [List.length_take_of_le hn, List.take_append_of_le_length hn]
    rw [List.length_append, List.append_assoc, hwhole] at hnext
    rw [spans, List.map_cons, List.drop_left, Nat.add_sub_cancel_left, hnext, htake]

end

/-! ## Folding -/

section
variable {f : α → β}

/-- Characters that a folding does not tell apart. -/
def SameUnder (f : α → β) (a b : α) : Prop := f a = f b

theorem forall₂_sameUnder {s t : List α} : List.Forall₂ (SameUnder f) s t ↔ s.map f = t.map f := by
  rw [← List.forall₂_eq_eq_eq, List.forall₂_map_left_iff, List.forall₂_map_right_iff]
  rfl

theorem Parts.map {p : List (Token α)} {v : List α} {parts : List (List α)} (h : Parts (SameUnder f) p v parts) :
    Parts (· = ·) (p.map (Token.map f)) (v.map f) (parts.map (List.map f)) := by
  induction h with
  | nil => exact .nil
  | char h _ ih => exact .char h ih
  | one a _ ih => exact .one (f a) ih
  | @star n p v parts hn _ ih =>
    rw [List.map_drop] at ih
    rw [List.map_cons, List.map_cons, List.map_take]
    exact .star (by rwa [List.length_map]) ih

theorem exists_parts_of_map {p : List (Token α)} {v : List α} {parts : List (List β)}
    (h : Parts (· = ·) (p.map (Token.map f)) (v.map f) parts) :
    ∃ parts', parts = parts'.map (List.map f) ∧ Parts (SameUnder f) p v parts' := by
  induction p generalizing v parts with
  | nil =>
    cases v with
    | nil =>
      cases h
      exact ⟨[], rfl, .nil⟩
    | cons b v => cases h
  | cons token p ih =>
    cases token with
    | char a =>
      cases v with
      | nil => cases h
      | cons b v =>
        cases h with
        | char h rest =>
          obtain ⟨parts', rfl, hparts⟩ := ih rest
          exact ⟨parts', rfl, .char h hparts⟩
    | one =>
      cases v with
      | nil => cases h
      | cons b v =>
        cases h with
        | one _ rest =>
          obtain ⟨parts', rfl, hparts⟩ := ih rest
          exact ⟨[b] :: parts', rfl, .one b hparts⟩
    | star =>
      cases h with
      | @star n _ _ _ hn rest =>
        rw [← List.map_drop] at rest
        obtain ⟨parts', rfl, hparts⟩ := ih rest
        rw [List.length_map] at hn
        exact ⟨v.take n :: parts', by rw [List.map_cons, List.map_take], .star hn hparts⟩

theorem accepts_map {p : List (Token α)} {v : List α} :
    Accepts (· = ·) (p.map (Token.map f)) (v.map f) ↔ Accepts (SameUnder f) p v := by
  constructor
  · rintro ⟨parts, h⟩
    obtain ⟨parts', _, hparts⟩ := exists_parts_of_map h
    exact ⟨parts', hparts⟩
  · rintro ⟨parts, h⟩
    exact ⟨_, h.map⟩

/-- What is chosen in a folded text is chosen in the text. -/
theorem exists_chosen_of_map {better : Nat → Nat → Prop} {p : List (Token α)} {v : List α} {parts : List (List β)}
    (h : Chosen (· = ·) better (p.map (Token.map f)) (v.map f) parts) :
    ∃ parts', parts = parts'.map (List.map f) ∧ Chosen (SameUnder f) better p v parts' := by
  induction p generalizing v parts with
  | nil =>
    cases v with
    | nil =>
      cases h
      exact ⟨[], rfl, .nil⟩
    | cons b v => cases h
  | cons token p ih =>
    cases token with
    | char a =>
      cases v with
      | nil => cases h
      | cons b v =>
        cases h with
        | char h rest =>
          obtain ⟨parts', rfl, hparts⟩ := ih rest
          exact ⟨parts', rfl, .char h hparts⟩
    | one =>
      cases v with
      | nil => cases h
      | cons b v =>
        cases h with
        | one _ rest =>
          obtain ⟨parts', rfl, hparts⟩ := ih rest
          exact ⟨[b] :: parts', rfl, .one b hparts⟩
    | star =>
      cases h with
      | @star n _ _ _ hn best rest =>
        rw [← List.map_drop] at rest
        obtain ⟨parts', rfl, hparts⟩ := ih rest
        rw [List.length_map] at hn best
        refine ⟨v.take n :: parts', by rw [List.map_cons, List.map_take], .star hn (fun m hm hb haccepts => ?_) hparts⟩
        refine best m hm hb ?_
        rw [← List.map_drop]
        exact accepts_map.2 haccepts

theorem spans_map (f : α → β) (p : List (Token α)) (position : Nat) (parts : List (List α)) :
    spans (p.map (Token.map f)) position (parts.map (List.map f)) = spans p position parts := by
  induction p generalizing position parts with
  | nil => rfl
  | cons token p ih =>
    cases token with
    | char a => exact ih _ _
    | one =>
      cases parts with
      | nil => rfl
      | cons part parts =>
        rw [List.map_cons, List.map_cons, Token.map, spans, List.length_map, ih]
        rfl
    | star =>
      cases parts with
      | nil => rfl
      | cons part parts =>
        rw [List.map_cons, List.map_cons, Token.map, spans, List.length_map, ih]
        rfl

end

end Glob
