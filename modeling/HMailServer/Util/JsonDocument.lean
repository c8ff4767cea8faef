import HMailServer.Lib.Json
import HMailServer.Util.WideString

/- The JSON reader, `Common/Util/JsonDocument.cpp`. The text that has not been read
   stands for the position. `number_`, a floating-point number, is left out, and with
   it what `AsInt64` makes of a fraction or an exponent, which is a parameter. -/
namespace HMailServer.JsonDocument
open Json

abbrev JsonValue := Json.Value

/-- What was wrong, and the text from there on. -/
structure Failure where
  what : String
  rest : Text

def maxDepth : Nat := 64

def skipWhitespace (s : Text) : Text := s.dropWhile isSpace

/-- `Expect_` -/
def expect (literal s : Text) : Except Failure Text :=
  if literal.isPrefixOf s then .ok (s.drop literal.length) else .error ⟨"unexpected token", s⟩

/-! ## Strings -/

/-- The loop of `ParseHex4_`. -/
def hexDigits : Nat → Nat → Text → Except Failure (Nat × Text)
  | 0, code, s => .ok (code, s)
  | _ + 1, _, [] => .error ⟨"truncated \\u escape", []⟩
  | n + 1, code, c :: s =>
    match hexDigit c with
    | some digit => hexDigits n (code * 16 + digit) s
    | none => .error ⟨"bad hex digit in a \\u escape", s⟩

def parseHex4 (s : Text) : Except Failure (Nat × Text) :=
  if s.length < 4 then .error ⟨"truncated \\u escape", s⟩ else hexDigits 4 0 s

/-- What `AppendUtf8_` appends. -/
def appendUtf8 (code : Nat) : Text :=
  if code < 0x80 then [UInt8.ofNat code]
  else if code < 0x800 then [UInt8.ofNat (0xC0 ||| code >>> 6), UInt8.ofNat (0x80 ||| code &&& 0x3F)]
  else if code < 0x10000 then
    [UInt8.ofNat (0xE0 ||| code >>> 12), UInt8.ofNat (0x80 ||| code >>> 6 &&& 0x3F), UInt8.ofNat (0x80 ||| code &&& 0x3F)]
  else
    [UInt8.ofNat (0xF0 ||| code >>> 18), UInt8.ofNat (0x80 ||| code >>> 12 &&& 0x3F),
      UInt8.ofNat (0x80 ||| code >>> 6 &&& 0x3F), UInt8.ofNat (0x80 ||| code &&& 0x3F)]

/-- The low half behind a high surrogate. -/
def parseLow (code : Nat) (s : Text) : Except Failure (Nat × Text) :=
  if [92, 117].isPrefixOf s then do
    let (low, rest) ← parseHex4 (s.drop 2)
    if low < 0xDC00 ∨ 0xDFFF < low then .error ⟨"a high surrogate without its pair", rest⟩
    else .ok (0x10000 + (code - 0xD800) <<< 10 + (low - 0xDC00), rest)
  else .error ⟨"a high surrogate without its pair", s⟩

/-- What follows `\u`. -/
def parseUnicode (s : Text) : Except Failure (Nat × Text) := do
  let (code, rest) ← parseHex4 s
  if 0xD800 ≤ code ∧ code ≤ 0xDBFF then parseLow code rest
  else if 0xDC00 ≤ code ∧ code ≤ 0xDFFF then .error ⟨"a low surrogate without its pair", rest⟩
  else .ok (code, rest)

/-- What follows a backslash. -/
def parseEscape : Text → Except Failure (Text × Text)
  | [] => .error ⟨"unterminated escape", []⟩
  | e :: s =>
    if e = 34 then .ok ([34], s)
    else if e = 92 then .ok ([92], s)
    else if e = 47 then .ok ([47], s)
    else if e = 98 then .ok ([8], s)
    else if e = 102 then .ok ([12], s)
    else if e = 110 then .ok ([10], s)
    else if e = 114 then .ok ([13], s)
    else if e = 116 then .ok ([9], s)
    else if e = 117 then do
      let (code, rest) ← parseUnicode s
      .ok (appendUtf8 code, rest)
    else .error ⟨"unknown escape", s⟩

theorem bind_ok {ε α β : Type} {x : Except ε α} {f : α → Except ε β} {b : β} :
    (x >>= f) = .ok b ↔ ∃ a, x = .ok a ∧ f a = .ok b := by
  cases x with
  | error e => exact ⟨fun h => (by cases h), fun ⟨_, h, _⟩ => (by cases h)⟩
  | ok a => exact ⟨fun h => ⟨a, rfl, h⟩, fun ⟨_, h, hf⟩ => (by cases h; exact hf)⟩

theorem hexDigits_length {n code : Nat} {s : Text} {r : Nat × Text} (h : hexDigits n code s = .ok r) :
    r.2.length ≤ s.length := by
  induction n generalizing code s with
  | zero => cases h; exact Nat.le_refl _
  | succ n ih =>
    cases s with
    | nil => cases h
    | cons c s =>
      rw [hexDigits] at h
      split at h
      · exact (ih h).trans (Nat.le_succ _)
      · cases h

theorem parseHex4_length {s : Text} {r : Nat × Text} (h : parseHex4 s = .ok r) : r.2.length ≤ s.length := by
  unfold parseHex4 at h
  split at h
  · cases h
  · exact hexDigits_length h

theorem parseUnicode_length {s : Text} {r : Nat × Text} (h : parseUnicode s = .ok r) : r.2.length ≤ s.length := by
  obtain ⟨⟨code, rest⟩, hhex, h⟩ := bind_ok.1 h
  have hrest := parseHex4_length hhex
  dsimp only at h hrest
  split at h
  · unfold parseLow at h
    split at h
    · obtain ⟨⟨low, rest'⟩, hlow, h⟩ := bind_ok.1 h
      have hrest' := parseHex4_length hlow
      rw [List.length_drop] at hrest'
      dsimp only at h hrest'
      split at h
      · cases h
      · rw [← Except.ok.inj h]
        dsimp only
        omega
    · cases h
  · split at h
    · cases h
    · cases h
      exact hrest

theorem parseEscape_length {s : Text} {r : Text × Text} (h : parseEscape s = .ok r) : r.2.length ≤ s.length := by
  cases s with
  | nil => cases h
  | cons e s =>
    have hletter : ∀ {letter c : UInt8} {other : Except Failure (Text × Text)},
        (other = .ok r → r.2.length ≤ (e :: s).length) →
          (if e = letter then Except.ok ([c], s) else other) = .ok r → r.2.length ≤ (e :: s).length := by
      intro letter c other hother h
      split at h
      · cases h
        exact Nat.le_succ _
      · exact hother h
    revert h
    unfold parseEscape
    iterate 8 refine hletter ?_
    intro h
    split at h
    · obtain ⟨⟨code, rest⟩, hcode, h⟩ := bind_ok.1 h
      cases h
      exact (parseUnicode_length hcode).trans (Nat.le_succ _)
    · cases h

/-- The loop of `ParseString_`, behind the opening quote. -/
def parseString (s out : Text) : Except Failure (Text × Text) :=
  match s with
  | [] => .error ⟨"unterminated string", []⟩
  | c :: s =>
    if c = 34 then .ok (out, s)
    else if c < 0x20 then .error ⟨"control character in a string", s⟩
    else if c ≠ 92 then parseString s (out ++ [c])
    else match h : parseEscape s with
      | .error e => .error e
      | .ok (bytes, rest) =>
        have := parseEscape_length h
        parseString rest (out ++ bytes)
termination_by s.length

/-! ## Numbers -/

/-- A fraction, where there is one. -/
def parseFraction : Text → Except Failure Text
  | [] => .ok []
  | c :: s =>
    if c = 46 then
      if s.takeWhile isDigit = [] then .error ⟨"expected a digit after the decimal point", s⟩ else .ok (s.dropWhile isDigit)
    else .ok (c :: s)

def skipSign : Text → Text
  | [] => []
  | c :: s => if c = 43 ∨ c = 45 then s else c :: s

/-- An exponent, where there is one. -/
def parseExponent : Text → Except Failure Text
  | [] => .ok []
  | c :: s =>
    if c = 101 ∨ c = 69 then
      if (skipSign s).takeWhile isDigit = [] then .error ⟨"expected a digit in the exponent", skipSign s⟩
      else .ok ((skipSign s).dropWhile isDigit)
    else .ok (c :: s)

def skipMinus : Text → Text
  | [] => []
  | c :: s => if c = 45 then s else c :: s

def parseNumber (s : Text) : Except Failure (JsonValue × Text) := do
  let digits := skipMinus s
  if digits.takeWhile isDigit = [] then .error ⟨"expected a digit", digits⟩
  else do
    let s' ← parseFraction (digits.dropWhile isDigit)
    let rest ← parseExponent s'
    .ok (.number (s.take (s.length - rest.length)), rest)

/-! ## Values -/

/-- The loop of `ParseArray_`. -/
def parseItems (value : Text → Except Failure (JsonValue × Text)) : Nat → List JsonValue → Text → Except Failure (JsonValue × Text)
  | 0, _, s => .error ⟨"", s⟩
  | n + 1, items, s => do
    let (item, rest) ← value (skipWhitespace s)
    match skipWhitespace rest with
    | [] => .error ⟨"unexpected end of text inside an array", []⟩
    | c :: rest =>
      if c = 44 then parseItems value n (items ++ [item]) rest
      else if c = 93 then .ok (.array (items ++ [item]), rest)
      else .error ⟨"expected ',' or ']' in an array", c :: rest⟩

def parseArray (value : Text → Except Failure (JsonValue × Text)) (s : Text) : Except Failure (JsonValue × Text) :=
  match skipWhitespace s with
  | 93 :: rest => .ok (.array [], rest)
  | rest => parseItems value (rest.length + 1) [] rest

/-- A name, its colon and its value. -/
def parseMember (value : Text → Except Failure (JsonValue × Text)) (s : Text) : Except Failure ((Text × JsonValue) × Text) :=
  match skipWhitespace s with
  | 34 :: s => do
    let (key, rest) ← parseString s []
    match skipWhitespace rest with
    | 58 :: rest => do
      let (member, rest) ← value (skipWhitespace rest)
      .ok ((key, member), rest)
    | rest => .error ⟨"expected ':' after a member name", rest⟩
  | rest => .error ⟨"expected a member name", rest⟩

/-- The first of a duplicated key wins. -/
def keep (members : List (Text × JsonValue)) (member : Text × JsonValue) : List (Text × JsonValue) :=
  if members.any (·.1 == member.1) then members else members ++ [member]

/-- The loop of `ParseObject_`. -/
def parseMembers (value : Text → Except Failure (JsonValue × Text)) : Nat → List (Text × JsonValue) → Text → Except Failure (JsonValue × Text)
  | 0, _, s => .error ⟨"", s⟩
  | n + 1, members, s => do
    let (member, rest) ← parseMember value s
    match skipWhitespace rest with
    | [] => .error ⟨"unexpected end of text inside an object", []⟩
    | c :: rest =>
      if c = 44 then parseMembers value n (keep members member) rest
      else if c = 125 then .ok (.object (keep members member), rest)
      else .error ⟨"expected ',' or '\x7d' in an object", c :: rest⟩

def parseObject (value : Text → Except Failure (JsonValue × Text)) (s : Text) : Except Failure (JsonValue × Text) :=
  match skipWhitespace s with
  | 125 :: rest => .ok (.object [], rest)
  | rest => parseMembers value (rest.length + 1) [] rest

/-- `ParseValue_`, with the levels that are left. -/
def parseValue : Nat → Text → Except Failure (JsonValue × Text)
  | 0, s => .error ⟨"nesting deeper than the parser accepts", s⟩
  | _ + 1, [] => .error ⟨"unexpected end of text", []⟩
  | levels + 1, c :: s =>
    if c = 123 then parseObject (parseValue levels) s
    else if c = 91 then parseArray (parseValue levels) s
    else if c = 34 then do
      let (text, rest) ← parseString s []
      .ok (.string text, rest)
    else if c = 116 then do
      let rest ← expect [116, 114, 117, 101] (c :: s)
      .ok (.bool true, rest)
    else if c = 102 then do
      let rest ← expect [102, 97, 108, 115, 101] (c :: s)
      .ok (.bool false, rest)
    else if c = 110 then do
      let rest ← expect [110, 117, 108, 108] (c :: s)
      .ok (.null, rest)
    else if c = 45 ∨ 48 ≤ c ∧ c ≤ 57 then parseNumber (c :: s)
    else .error ⟨"unexpected character", c :: s⟩

/-- `JsonParser::Parse` -/
def parseText (s : Text) : Except Failure JsonValue := do
  let (value, rest) ← parseValue (maxDepth + 1) (skipWhitespace s)
  let rest := skipWhitespace rest
  if rest = [] then .ok value else .error ⟨"text after the end of the value", rest⟩

/-- `JsonValue::Parse`: the value, or the error's text. -/
def parse (text : Text) : Except String JsonValue :=
  match parseText text with
  | .ok value => .ok value
  | .error e => .error (e.what ++ " at offset " ++ toString ((text.length - e.rest.length) % 2 ^ 32))

/-- `AsInt64`, with what becomes of a fraction or an exponent. -/
def asInt64 (ofDouble : Text → Int) : JsonValue → Int
  | .number raw =>
    if raw.any (fun c => c == 46 || c == 101 || c == 69) then ofDouble raw else WString.ttoi 64 (raw.map UInt8.toNat)
  | _ => 0

end HMailServer.JsonDocument
