import Mathlib

/- Texts with quoted literals. A literal stands between two quotes, a quote in
   it is doubled and, where the reader knows an escape character, so is that
   character. A template is a text with holes; what the reader makes of the
   filled template is read off the template alone, provided its holes stand
   clear of its own quotes. -/
namespace QuotedLiteral

variable {α κ : Type} [DecidableEq α]

/-! ## Reading -/

inductive Lexeme (α : Type) where
  | code (c : α)
  | literal (value : List α)
  | unterminated (value : List α)
  deriving DecidableEq, Repr

/-- Where the reader stands: outside, in a literal, behind a quote that closes
    the literal unless a second one follows, or behind an escape character. -/
inductive Mode (α : Type) where
  | code
  | inside (value : List α)
  | closing (value : List α)
  | escaped (value : List α)

def lex (quote : α) (escape : Option α) : Mode α → List α → List (Lexeme α)
  | .code, [] => []
  | .inside value, [] => [.unterminated value]
  | .closing value, [] => [.literal value]
  | .escaped value, [] => [.unterminated value]
  | .code, c :: rest =>
    if c = quote then lex quote escape (.inside []) rest else .code c :: lex quote escape .code rest
  | .inside value, c :: rest =>
    if c = quote then lex quote escape (.closing value) rest
    else if escape = some c then lex quote escape (.escaped value) rest
    else lex quote escape (.inside (value ++ [c])) rest
  | .closing value, c :: rest =>
    if c = quote then lex quote escape (.inside (value ++ [quote])) rest
    else .literal value :: .code c :: lex quote escape .code rest
  | .escaped value, c :: rest => lex quote escape (.inside (value ++ [c])) rest

/-! ## Writing -/

/-- The quote, and the escape character if there is one, doubled. -/
def double (quote : α) (escape : Option α) (value : List α) : List α :=
  value.flatMap fun c => if c = quote ∨ escape = some c then [c, c] else [c]

def quoted (quote : α) (escape : Option α) (value : List α) : List α :=
  quote :: double quote escape value ++ [quote]

section Literal

variable {quote : α} {escape : Option α}

theorem double_cons (c : α) (value : List α) :
    double quote escape (c :: value) =
      (if c = quote ∨ escape = some c then [c, c] else [c]) ++ double quote escape value := rfl

/-- The reader comes to the closing quote with exactly the value. -/
theorem lex_double (value rest : List α) :
    ∀ before, lex quote escape (.inside before) (double quote escape value ++ quote :: rest) =
      lex quote escape (.closing (before ++ value)) rest := by
  induction value with
  | nil =>
    intro before
    simp [double, lex]
  | cons c value ih =>
    intro before
    have hnext := ih (before ++ [c])
    rw [List.append_assoc, List.singleton_append] at hnext
    rw [double_cons]
    by_cases hquote : c = quote
    · rw [if_pos (.inl hquote)]
      subst hquote
      simp only [List.cons_append, List.nil_append, lex, if_true]
      exact hnext
    · by_cases hc : escape = some c
      · rw [if_pos (.inr hc)]
        simp only [List.cons_append, List.nil_append, lex, if_neg hquote, if_pos hc]
        exact hnext
      · rw [if_neg (not_or.2 ⟨hquote, hc⟩)]
        simp only [List.cons_append, List.nil_append, lex, if_neg hquote, if_neg hc]
        exact hnext

theorem lex_quoted (value rest : List α) :
    lex quote escape .code (quoted quote escape value ++ rest) = lex quote escape (.closing value) rest := by
  have hinside := @lex_double α _ quote escape value rest []
  simpa [quoted, lex] using hinside

/-- Text without quotes is code outside a literal. -/
theorem lex_code {text : List α} (htext : quote ∉ text) (rest : List α) :
    lex quote escape .code (text ++ rest) = text.map .code ++ lex quote escape .code rest := by
  induction text with
  | nil => rfl
  | cons c text ih =>
    rw [List.mem_cons, not_or] at htext
    simp [lex, Ne.symm htext.1, ih htext.2]

/-- Such text also ends the literal in front of it. -/
theorem lex_closing_code {text : List α} (hne : text ≠ []) (htext : quote ∉ text) (value rest : List α) :
    lex quote escape (.closing value) (text ++ rest) =
      .literal value :: (text.map .code ++ lex quote escape .code rest) := by
  cases text with
  | nil => exact absurd rfl hne
  | cons c text =>
    rw [List.mem_cons, not_or] at htext
    simp [lex, Ne.symm htext.1, lex_code htext.2]

end Literal

/-! ## Templates -/

inductive Piece (α κ : Type) where
  | text (c : α)
  | hole (name : κ)
  deriving DecidableEq, Repr

inductive Token (α κ : Type) where
  | code (c : α)
  | literal (value : List α)
  | unterminated (value : List α)
  | hole (name : κ)
  deriving DecidableEq, Repr

/-- The modes of `lex`, and one more behind a hole for a quoted value. -/
inductive TemplateMode (α : Type) where
  | code
  | filled
  | inside (value : List α)
  | closing (value : List α)
  | escaped (value : List α)

/-- The tokens of a template. There are none if a hole stands in a literal of
    the template, or a hole for a quoted value next to a quote or to another
    such hole. -/
def lexTemplate (quote : α) (escape : Option α) (isQuoted : κ → Bool) :
    TemplateMode α → List (Piece α κ) → Option (List (Token α κ))
  | .code, [] => some []
  | .filled, [] => some []
  | .inside value, [] => some [.unterminated value]
  | .closing value, [] => some [.literal value]
  | .escaped value, [] => some [.unterminated value]
  | .code, .text c :: rest =>
    if c = quote then lexTemplate quote escape isQuoted (.inside []) rest
    else (lexTemplate quote escape isQuoted .code rest).map (.code c :: ·)
  | .code, .hole name :: rest =>
    (lexTemplate quote escape isQuoted (if isQuoted name then .filled else .code) rest).map (.hole name :: ·)
  | .filled, .text c :: rest =>
    if c = quote then none else (lexTemplate quote escape isQuoted .code rest).map (.code c :: ·)
  | .filled, .hole name :: rest =>
    if isQuoted name then none else (lexTemplate quote escape isQuoted .code rest).map (.hole name :: ·)
  | .inside value, .text c :: rest =>
    if c = quote then lexTemplate quote escape isQuoted (.closing value) rest
    else if escape = some c then lexTemplate quote escape isQuoted (.escaped value) rest
    else lexTemplate quote escape isQuoted (.inside (value ++ [c])) rest
  | .inside _, .hole _ :: _ => none
  | .closing value, .text c :: rest =>
    if c = quote then lexTemplate quote escape isQuoted (.inside (value ++ [quote])) rest
    else (lexTemplate quote escape isQuoted .code rest).map fun tokens => .literal value :: .code c :: tokens
  | .closing value, .hole name :: rest =>
    if isQuoted name then none
    else (lexTemplate quote escape isQuoted .code rest).map fun tokens => .literal value :: .hole name :: tokens
  | .escaped value, .text c :: rest => lexTemplate quote escape isQuoted (.inside (value ++ [c])) rest
  | .escaped _, .hole _ :: _ => none

/-- What fills a hole: a value to be quoted, or plain text. -/
inductive Filling (α : Type) where
  | quoted (value : List α)
  | plain (text : List α)

def Filling.isQuoted : Filling α → Bool
  | .quoted _ => true
  | .plain _ => false

def Filling.render (quote : α) (escape : Option α) : Filling α → List α
  | .quoted value => QuotedLiteral.quoted quote escape value
  | .plain text => text

def Filling.lexemes : Filling α → List (Lexeme α)
  | .quoted value => [.literal value]
  | .plain text => text.map .code

def render (quote : α) (escape : Option α) (fill : κ → Filling α) (pieces : List (Piece α κ)) : List α :=
  pieces.flatMap fun
    | .text c => [c]
    | .hole name => (fill name).render quote escape

def Token.lexemes (fill : κ → Filling α) : Token α κ → List (Lexeme α)
  | .code c => [.code c]
  | .literal value => [.literal value]
  | .unterminated value => [.unterminated value]
  | .hole name => (fill name).lexemes

/-- The mode of the reader of the filled template, and what it has still to
    give out there: behind a quoted value its literal. -/
inductive Follows : TemplateMode α → Mode α → List (Lexeme α) → Prop where
  | code : Follows .code .code []
  | filled (value : List α) : Follows .filled (.closing value) [.literal value]
  | inside (value : List α) : Follows (.inside value) (.inside value) []
  | closing (value : List α) : Follows (.closing value) (.closing value) []
  | escaped (value : List α) : Follows (.escaped value) (.escaped value) []

section Fill

variable {quote : α} {escape : Option α} {fill : κ → Filling α}

theorem render_text (c : α) (rest : List (Piece α κ)) :
    render quote escape fill (.text c :: rest) = c :: render quote escape fill rest := rfl

theorem render_hole (name : κ) (rest : List (Piece α κ)) :
    render quote escape fill (.hole name :: rest) =
      (fill name).render quote escape ++ render quote escape fill rest := rfl

/-- Read behind the template, the filled text has the tokens of the template,
    with what fills its holes in their place. -/
theorem lex_render_mode (hplain : ∀ name text, fill name = .plain text → text ≠ [] ∧ quote ∉ text)
    (pieces : List (Piece α κ)) :
    ∀ {templateMode : TemplateMode α} {mode : Mode α} {pending : List (Lexeme α)} {tokens : List (Token α κ)},
      Follows templateMode mode pending →
      lexTemplate quote escape (fun name => (fill name).isQuoted) templateMode pieces = some tokens →
      lex quote escape mode (render quote escape fill pieces) = pending ++ tokens.flatMap (Token.lexemes fill) := by
  induction pieces with
  | nil =>
    intro templateMode mode pending tokens hfollows htokens
    cases hfollows <;> simp only [lexTemplate, Option.some.injEq] at htokens <;> subst htokens <;> rfl
  | cons piece rest ih =>
    intro templateMode mode pending tokens hfollows htokens
    cases piece with
    | text c =>
      rw [render_text]
      cases hfollows with
      | code =>
        simp only [lexTemplate] at htokens
        by_cases hc : c = quote
        · rw [if_pos hc] at htokens
          simpa [lex, hc] using ih (.inside []) htokens
        · rw [if_neg hc, Option.map_eq_some_iff] at htokens
          obtain ⟨later, hlater, rfl⟩ := htokens
          simpa [lex, hc, Token.lexemes] using ih .code hlater
      | filled value =>
        simp only [lexTemplate] at htokens
        by_cases hc : c = quote
        · rw [if_pos hc] at htokens
          cases htokens
        · rw [if_neg hc, Option.map_eq_some_iff] at htokens
          obtain ⟨later, hlater, rfl⟩ := htokens
          simpa [lex, hc, Token.lexemes] using ih .code hlater
      | inside value =>
        simp only [lexTemplate] at htokens
        by_cases hc : c = quote
        · rw [if_pos hc] at htokens
          simpa [lex, hc] using ih (.closing value) htokens
        · rw [if_neg hc] at htokens
          by_cases hesc : escape = some c
          · rw [if_pos hesc] at htokens
            simpa [lex, hc, hesc] using ih (.escaped value) htokens
          · rw [if_neg hesc] at htokens
            simpa [lex, hc, hesc] using ih (.inside _) htokens
      | closing value =>
        simp only [lexTemplate] at htokens
        by_cases hc : c = quote
        · rw [if_pos hc] at htokens
          simpa [lex, hc] using ih (.inside _) htokens
        · rw [if_neg hc, Option.map_eq_some_iff] at htokens
          obtain ⟨later, hlater, rfl⟩ := htokens
          simpa [lex, hc, Token.lexemes] using ih .code hlater
      | escaped value =>
        simp only [lexTemplate] at htokens
        simpa [lex] using ih (.inside _) htokens
    | hole name =>
      rw [render_hole]
      cases hfill : fill name with
      | quoted value =>
        have hquoted : (fill name).isQuoted = true := by rw [hfill]; rfl
        cases hfollows with
        | code =>
          simp only [lexTemplate, hquoted, if_true, Option.map_eq_some_iff] at htokens
          obtain ⟨later, hlater, rfl⟩ := htokens
          have hrest := ih (.filled value) hlater
          rw [Filling.render, lex_quoted, hrest]
          simp [Token.lexemes, hfill, Filling.lexemes]
        | filled | inside | closing | escaped => simp [lexTemplate, hquoted] at htokens
      | plain text =>
        have hquoted : (fill name).isQuoted = false := by rw [hfill]; rfl
        obtain ⟨hne, htext⟩ := hplain name text hfill
        cases hfollows with
        | code =>
          simp only [lexTemplate, hquoted, Bool.false_eq_true, if_false, Option.map_eq_some_iff] at htokens
          obtain ⟨later, hlater, rfl⟩ := htokens
          rw [Filling.render, lex_code htext, ih .code hlater]
          simp [Token.lexemes, hfill, Filling.lexemes]
        | filled value | closing value =>
          simp only [lexTemplate, hquoted, Bool.false_eq_true, if_false, Option.map_eq_some_iff] at htokens
          obtain ⟨later, hlater, rfl⟩ := htokens
          rw [Filling.render, lex_closing_code hne htext, ih .code hlater]
          simp [Token.lexemes, hfill, Filling.lexemes]
        | inside | escaped => simp [lexTemplate] at htokens

/-- The reader of a filled template sees the template. -/
theorem lex_render (hplain : ∀ name text, fill name = .plain text → text ≠ [] ∧ quote ∉ text)
    {pieces : List (Piece α κ)} {tokens : List (Token α κ)}
    (htokens : lexTemplate quote escape (fun name => (fill name).isQuoted) .code pieces = some tokens) :
    lex quote escape .code (render quote escape fill pieces) = tokens.flatMap (Token.lexemes fill) :=
  lex_render_mode hplain pieces .code htokens

end Fill

end QuotedLiteral
