import HMailServer.Sieve.Script

/- The Sieve lexer (`Common/Sieve/SieveLexer.cpp`). What is left of the script from
   `pos_` on is a suffix of it, and the line is counted over what was passed. A
   product that does not fit in 64 bits is the one two's complement gives. -/
namespace HMailServer

inductive SieveTokenType where
  | identifier | tag | number | quotedString | multiLineString
  | leftBrace | rightBrace | leftBracket | rightBracket | leftParen | rightParen
  | comma | semicolon | endOfInput
  deriving DecidableEq

structure SieveToken where
  type : SieveTokenType
  value : WString := []
  number : Int := 0
  line : Nat

namespace SieveLexer

/-! ## The code -/

def isIdentifierStart (ch : WChar) : Bool := (97 ≤ ch && ch ≤ 122) || (65 ≤ ch && ch ≤ 90) || ch == 95

def isDigit (ch : WChar) : Bool := 48 ≤ ch && ch ≤ 57

def isIdentifierChar (ch : WChar) : Bool := isIdentifierStart ch || isDigit ch

def lineError (line : Nat) (what : String) : WString := wide "Line " ++ SieveParser.decimal line ++ wide ": " ++ wide what

/-- The line after what is in front of `rest` was passed. -/
def lineAt (line : Nat) (input rest : WString) : Nat := line + (input.take (input.length - rest.length)).count 10

/-- What is behind the end of a bracketed comment. -/
def commentEnd : WString → Option WString
  | a :: b :: rest => if a = 42 ∧ b = 47 then some rest else commentEnd (b :: rest)
  | _ => none

/-- `SkipWhitespaceAndComments_`. Every turn passes a character at least. -/
def skipWhitespaceAndComments : Nat → Nat → WString → Except WString (Nat × WString)
  | 0, line, input => .ok (line, input)
  | turns + 1, line, input =>
    match input with
    | [] => .ok (line, [])
    | ch :: rest =>
      if ch = 32 ∨ ch = 9 ∨ ch = 13 ∨ ch = 10 then skipWhitespaceAndComments turns (lineAt line input rest) rest
      else if ch = 35 then skipWhitespaceAndComments turns line (rest.dropWhile (· != 10))
      else if ch = 47 ∧ rest.head? = some 42 then
        match commentEnd rest.tail with
        | none => .error (lineError line "unterminated bracketed comment.")
        | some behind => skipWhitespaceAndComments turns (lineAt line input behind) behind
      else .ok (line, input)

/-- The loop of `ReadQuotedString_`: the content and what is behind the closing
    quote. -/
def quotedContent : WString → Option (WString × WString)
  | [] => none
  | [ch] => if ch = 34 then some ([], []) else none
  | ch :: next :: rest =>
    if ch = 92 then (quotedContent rest).map fun r => (next :: r.1, r.2)
    else if ch = 34 then some ([], next :: rest)
    else (quotedContent (next :: rest)).map fun r => (ch :: r.1, r.2)

/-- The rest of the line of a `text:`; `none` where something else stands on it. -/
def introducerEnd : WString → Option WString
  | [] => some []
  | ch :: rest =>
    if ch = 10 then some (10 :: rest)
    else if ch = 32 ∨ ch = 9 ∨ ch = 13 then introducerEnd rest
    else if ch = 35 then some (rest.dropWhile (· != 10))
    else none

/-- The loop of `ReadMultiLineString_`. Every turn passes a character at least. -/
def multiLineContent : Nat → WString → Option (WString × WString)
  | 0, _ => none
  | turns + 1, input =>
    if input = [] then none
    else
      let currentLine := (input.takeWhile (· != 10)).filter (· != 13)
      let rest := (input.dropWhile (· != 10)).tail
      if currentLine = [46] then some ([], rest)
      else
        let unstuffed := if currentLine.head? = some 46 then currentLine.tail else currentLine
        (multiLineContent turns rest).map fun r => (unstuffed ++ [13, 10] ++ r.1, r.2)

/-- `ReadMultiLineString_`, positioned behind the colon. -/
def readMultiLineString (line : Nat) (input : WString) : Except WString (SieveToken × WString) :=
  match introducerEnd input with
  | none => .error (lineError line "unexpected character after 'text:' introducer.")
  | some rest =>
    match multiLineContent (rest.length + 1) rest.tail with
    | none => .error (lineError line "unterminated multi-line string.")
    | some (content, behind) => .ok ({ type := .multiLineString, value := content, line := line }, behind)

/-- What a quantifier multiplies by; 1 where there is none. -/
def quantifier (ch : WChar) : Int :=
  if ch = 75 ∨ ch = 107 then 1024
  else if ch = 77 ∨ ch = 109 then 1024 * 1024
  else if ch = 71 ∨ ch = 103 then 1024 * 1024 * 1024
  else 1

/-- `ReadNumber_`. -/
def readNumber (line : Nat) (input : WString) : SieveToken × WString :=
  let digits := input.takeWhile isDigit
  let rest := input.dropWhile isDigit
  let value := WString.ttoi 64 digits
  let factor := quantifier (rest.headD 0)
  if factor = 1 then ({ type := .number, value := digits, number := value, line := line }, rest)
  else ({ type := .number, value := digits, number := (value * factor).bmod (2 ^ 64), line := line }, rest.tail)

/-- `ReadTag_`, positioned behind the colon. -/
def readTag (line : Nat) (input : WString) : Except WString (SieveToken × WString) :=
  if isIdentifierStart (input.headD 0) then
    .ok ({ type := .tag, value := input.takeWhile isIdentifierChar, line := line }, input.dropWhile isIdentifierChar)
  else .error (lineError line "expected a tag name after ':'.")

def punctuation : List (WChar × SieveTokenType) :=
  [(123, .leftBrace), (125, .rightBrace), (91, .leftBracket), (93, .rightBracket), (40, .leftParen), (41, .rightParen),
    (44, .comma), (59, .semicolon)]

/-- The token that begins with `ch`, and what is behind it. -/
def readToken (line : Nat) (ch : WChar) (rest : WString) : Except WString (SieveToken × WString) :=
  match punctuation.lookup ch with
  | some type => .ok ({ type := type, line := line }, rest)
  | none =>
    if ch = 34 then
      match quotedContent rest with
      | none => .error (lineError line "unterminated quoted string.")
      | some (content, behind) => .ok ({ type := .quotedString, value := content, line := line }, behind)
    else if ch = 58 then readTag line rest
    else if isDigit ch then .ok (readNumber line (ch :: rest))
    else if isIdentifierStart ch then
      let name := (ch :: rest).takeWhile isIdentifierChar
      let behind := (ch :: rest).dropWhile isIdentifierChar
      if WString.equalsNoCase name (wide "text") ∧ behind.head? = some 58 then readMultiLineString line behind.tail
      else .ok ({ type := .identifier, value := name, line := line }, behind)
    else .error (lineError line "unexpected character '" ++ [ch] ++ wide "'.")

/-- The loop of `Tokenize`. Every turn passes a character at least. -/
def tokenizeFrom : Nat → Nat → WString → Except WString (List SieveToken)
  | 0, line, _ => .ok [{ type := .endOfInput, line := line }]
  | turns + 1, line, input =>
    match skipWhitespaceAndComments (input.length + 1) line input with
    | .error errorMessage => .error errorMessage
    | .ok (line, []) => .ok [{ type := .endOfInput, line := line }]
    | .ok (line, ch :: rest) =>
      match readToken line ch rest with
      | .error errorMessage => .error errorMessage
      | .ok (token, behind) =>
        match tokenizeFrom turns (lineAt line (ch :: rest) behind) behind with
        | .error errorMessage => .error errorMessage
        | .ok tokens => .ok (token :: tokens)

def tokenize (script : WString) : Except WString (List SieveToken) := tokenizeFrom (script.length + 1) 1 script

/-! ## What is left -/

theorem commentEnd_suffix {input rest : WString} (h : commentEnd input = some rest) : rest <:+ input := by
  induction input with
  | nil => cases h
  | cons a input ih =>
    cases input with
    | nil => cases h
    | cons b s =>
      by_cases hend : a = 42 ∧ b = 47
      · rw [commentEnd, if_pos hend] at h
        obtain rfl := Option.some.inj h
        exact ⟨[a, b], rfl⟩
      · rw [commentEnd, if_neg hend] at h
        exact (ih h).trans (List.suffix_cons a _)

theorem skip_suffix {turns line line' : Nat} {input rest : WString}
    (h : skipWhitespaceAndComments turns line input = .ok (line', rest)) : rest <:+ input := by
  induction turns generalizing line input with
  | zero =>
    rw [skipWhitespaceAndComments] at h
    cases h
    exact List.suffix_refl _
  | succ turns ih =>
    cases input with
    | nil =>
      rw [skipWhitespaceAndComments] at h
      cases h
      exact List.suffix_refl _
    | cons ch s =>
      rw [skipWhitespaceAndComments] at h
      split at h
      · exact (ih h).trans (List.suffix_cons ch s)
      · split at h
        · exact ((ih h).trans (List.dropWhile_suffix _)).trans (List.suffix_cons ch s)
        · split at h
          · split at h
            · exact absurd h (by simp)
            · rename_i behind hend
              exact ((ih h).trans ((commentEnd_suffix hend).trans (List.tail_suffix s))).trans (List.suffix_cons ch s)
          · cases h
            exact List.suffix_refl _

theorem quotedContent_suffix {input content rest : WString} (h : quotedContent input = some (content, rest)) : rest <:+ input := by
  induction input using quotedContent.induct generalizing content with
  | case1 =>
    rw [quotedContent] at h
    exact absurd h (by simp)
  | case2 =>
    rw [quotedContent, if_pos rfl] at h
    cases h
    exact List.nil_suffix
  | case3 ch hquote =>
    rw [quotedContent, if_neg hquote] at h
    exact absurd h (by simp)
  | case4 next s ih =>
    rw [quotedContent, if_pos rfl] at h
    obtain ⟨r, hr, hpair⟩ := Option.map_eq_some_iff.1 h
    cases hpair
    exact ((ih hr).trans (List.suffix_cons next s)).trans (List.suffix_cons 92 _)
  | case5 next s _ =>
    rw [quotedContent, if_neg (by decide), if_pos rfl] at h
    cases h
    exact List.suffix_cons 34 _
  | case6 ch next s hescape hquote ih =>
    rw [quotedContent, if_neg hescape, if_neg hquote] at h
    obtain ⟨r, hr, hpair⟩ := Option.map_eq_some_iff.1 h
    cases hpair
    exact (ih hr).trans (List.suffix_cons ch _)

theorem introducerEnd_suffix {input rest : WString} (h : introducerEnd input = some rest) : rest <:+ input := by
  induction input with
  | nil =>
    rw [introducerEnd] at h
    cases h
    exact List.suffix_refl _
  | cons ch s ih =>
    rw [introducerEnd] at h
    split at h
    · rename_i hnewline
      cases h
      rw [hnewline]
    · split at h
      · exact (ih h).trans (List.suffix_cons ch s)
      · split at h
        · cases h
          exact (List.dropWhile_suffix _).trans (List.suffix_cons ch s)
        · exact absurd h (by simp)

theorem multiLineContent_suffix {turns : Nat} {input content rest : WString}
    (h : multiLineContent turns input = some (content, rest)) : rest <:+ input := by
  induction turns generalizing input content with
  | zero => exact absurd h (by simp [multiLineContent])
  | succ turns ih =>
    have hline : (input.dropWhile (· != 10)).tail <:+ input := (List.tail_suffix _).trans (List.dropWhile_suffix _)
    rw [multiLineContent] at h
    split at h
    · exact absurd h (by simp)
    · dsimp only at h
      split at h
      · cases h
        exact hline
      · obtain ⟨r, hr, hpair⟩ := Option.map_eq_some_iff.1 h
        cases hpair
        exact (ih hr).trans hline

theorem readMultiLineString_suffix {line : Nat} {input rest : WString} {token : SieveToken}
    (h : readMultiLineString line input = .ok (token, rest)) : rest <:+ input ∧ token.type ≠ .number := by
  rw [readMultiLineString] at h
  split at h
  · exact absurd h (by simp)
  · rename_i introduced hintroduced
    split at h
    · exact absurd h (by simp)
    · rename_i content behind hcontent
      cases h
      exact ⟨((multiLineContent_suffix hcontent).trans (List.tail_suffix _)).trans (introducerEnd_suffix hintroduced), by simp⟩

/-- A token is a number only where the lexer reads one. -/
theorem readToken_suffix {line : Nat} {ch : WChar} {s rest : WString} {token : SieveToken}
    (h : readToken line ch s = .ok (token, rest)) :
    rest <:+ ch :: s ∧ (token.type = .number → isDigit ch = true ∧ (token, rest) = readNumber line (ch :: s)) := by
  have hpunctuation : ∀ type, punctuation.lookup ch = some type → type ≠ .number := by
    intro type htype
    obtain ⟨before, behind, hsplit, _⟩ := List.lookup_eq_some_iff.1 htype
    have hmem : (ch, type) ∈ punctuation := by rw [hsplit]; exact List.mem_append_right _ List.mem_cons_self
    have hall : ∀ entry ∈ punctuation, entry.2 ≠ SieveTokenType.number := by decide
    exact hall _ hmem
  rw [readToken] at h
  split at h
  · rename_i type htype
    cases h
    exact ⟨List.suffix_cons ch s, fun hnumber => absurd hnumber (hpunctuation type htype)⟩
  · split at h
    · split at h
      · exact absurd h (by simp)
      · rename_i content behind hcontent
        cases h
        exact ⟨(quotedContent_suffix hcontent).trans (List.suffix_cons ch s), fun hnumber => absurd hnumber (by simp)⟩
    · split at h
      · rw [readTag] at h
        split at h
        · cases h
          exact ⟨(List.dropWhile_suffix _).trans (List.suffix_cons ch s), fun hnumber => absurd hnumber (by simp)⟩
        · exact absurd h (by simp)
      · split at h
        · rename_i hdigit
          have hread := Except.ok.inj h
          refine ⟨?_, fun _ => ⟨hdigit, hread.symm⟩⟩
          rw [readNumber] at hread
          split at hread
          · cases hread
            exact List.dropWhile_suffix _
          · cases hread
            exact (List.tail_suffix _).trans (List.dropWhile_suffix _)
        · split at h
          · have hbehind : ((ch :: s).dropWhile isIdentifierChar) <:+ ch :: s := List.dropWhile_suffix _
            dsimp only at h
            split at h
            · obtain ⟨hrest, htype⟩ := readMultiLineString_suffix h
              exact ⟨(hrest.trans (List.tail_suffix _)).trans hbehind, fun hnumber => absurd hnumber htype⟩
            · cases h
              exact ⟨hbehind, fun hnumber => absurd hnumber (by simp)⟩
          · exact absurd h (by simp)

/-- Each number of a script is read where digits stand in it. -/
theorem number_of_tokenize {script : WString} {tokens : List SieveToken} (h : tokenize script = .ok tokens) :
    ∀ token ∈ tokens, token.type = .number →
      ∃ line ch s, ch :: s <:+ script ∧ isDigit ch = true ∧ token = (readNumber line (ch :: s)).1 := by
  have hfrom : ∀ turns line input tokens, input <:+ script → tokenizeFrom turns line input = .ok tokens →
      ∀ token ∈ tokens, token.type = .number →
        ∃ line ch s, ch :: s <:+ script ∧ isDigit ch = true ∧ token = (readNumber line (ch :: s)).1 := by
    intro turns
    induction turns with
    | zero =>
      intro line input tokens _ htokens token hmem hnumber
      rw [tokenizeFrom] at htokens
      cases htokens
      rw [List.mem_singleton.1 hmem] at hnumber
      exact absurd hnumber (by simp)
    | succ turns ih =>
      intro line input tokens hinput htokens token hmem hnumber
      rw [tokenizeFrom] at htokens
      split at htokens
      · exact absurd htokens (by simp)
      · cases htokens
        rw [List.mem_singleton.1 hmem] at hnumber
        exact absurd hnumber (by simp)
      · rename_i line' ch s hskip
        have hsuffix := (skip_suffix hskip).trans hinput
        split at htokens
        · exact absurd htokens (by simp)
        · rename_i first behind hread
          obtain ⟨hbehind, hfirst⟩ := readToken_suffix hread
          split at htokens
          · exact absurd htokens (by simp)
          · rename_i more hmore
            cases htokens
            rcases List.mem_cons.1 hmem with rfl | hmem
            · obtain ⟨hdigit, heq⟩ := hfirst hnumber
              exact ⟨line', ch, s, hsuffix, hdigit, congrArg Prod.fst heq⟩
            · exact ih _ _ _ (hbehind.trans hsuffix) hmore token hmem hnumber
  exact hfrom _ _ _ tokens (List.suffix_refl script) h

end SieveLexer
end HMailServer
