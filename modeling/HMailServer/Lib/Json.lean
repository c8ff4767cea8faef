import Mathlib

/- JSON texts as byte strings and the values they denote (RFC 8259). The grammar is
   one over the numbers that it takes, so that a laxer reader can be compared with
   it. -/
namespace Json

abbrev Text := List UInt8

/-- A number is the text it is written with, a string the UTF-8 of its characters. -/
inductive Value where
  | null
  | bool (b : Bool)
  | number (raw : Text)
  | string (s : Text)
  | array (items : List Value)
  | object (members : List (Text × Value))

def isSpace (c : UInt8) : Bool := c == 32 || c == 9 || c == 13 || c == 10

def isDigit (c : UInt8) : Bool := 48 ≤ c && c ≤ 57

/-- `ws` -/
def Ws (s : Text) : Prop := ∀ c ∈ s, isSpace c = true

/-! ## Numbers -/

def Digits (s : Text) : Prop := s ≠ [] ∧ ∀ c ∈ s, isDigit c = true

/-- `[ minus ]` -/
def Sign (s : Text) : Prop := s = [] ∨ s = [45]

/-- `int` -/
def Integer (s : Text) : Prop := s = [48] ∨ Digits s ∧ s.head? ≠ some 48

/-- `[ frac ]` -/
inductive Fraction : Text → Prop
  | none : Fraction []
  | some {digits : Text} (h : Digits digits) : Fraction (46 :: digits)

/-- `[ exp ]` -/
inductive Exponent : Text → Prop
  | none : Exponent []
  | some {e : UInt8} {sign digits : Text} (he : e = 101 ∨ e = 69) (hs : sign = [] ∨ sign = [43] ∨ sign = [45])
      (h : Digits digits) : Exponent (e :: (sign ++ digits))

/-- A number whose integer part is one of these. -/
inductive Number (IntPart : Text → Prop) : Text → Prop
  | mk {sign int frac exp : Text} (hs : Sign sign) (hi : IntPart int) (hf : Fraction frac) (he : Exponent exp) :
      Number IntPart (sign ++ int ++ frac ++ exp)

/-- A digit follows a zero at the front. -/
def LeadingZero (s : Text) : Prop :=
  ∃ sign c rest, Sign sign ∧ isDigit c = true ∧ s = sign ++ 48 :: c :: rest

/-- What digits mean in decimal. -/
def digitsNumber (s : Text) : Nat := s.foldl (fun n c => n * 10 + (c.toNat - 48)) 0

/-- What a number without a fraction and an exponent means. -/
inductive Means : Text → Int → Prop
  | positive {s : Text} (h : Digits s) : Means s (digitsNumber s)
  | negative {s : Text} (h : Digits s) : Means (45 :: s) (-(digitsNumber s : Int))

/-! ## Strings -/

def hexDigit (c : UInt8) : Option Nat :=
  if 48 ≤ c ∧ c ≤ 57 then some (c.toNat - 48)
  else if 97 ≤ c ∧ c ≤ 102 then some (c.toNat - 87)
  else if 65 ≤ c ∧ c ≤ 70 then some (c.toNat - 55)
  else none

/-- `4HEXDIG` -/
inductive Hex4 : Text → Nat → Prop
  | mk {a b c d : UInt8} {p q r t : Nat} (ha : hexDigit a = some p) (hb : hexDigit b = some q) (hc : hexDigit c = some r)
      (hd : hexDigit d = some t) : Hex4 [a, b, c, d] (((p * 16 + q) * 16 + r) * 16 + t)

/-- The escapes of one letter, and what they stand for. -/
def letterEscapes : List (UInt8 × UInt8) :=
  [(34, 34), (92, 92), (47, 47), (98, 8), (102, 12), (110, 10), (114, 13), (116, 9)]

def IsHigh (code : Nat) : Prop := 0xD800 ≤ code ∧ code ≤ 0xDBFF

def IsLow (code : Nat) : Prop := 0xDC00 ≤ code ∧ code ≤ 0xDFFF

/-- What stands between the quotes, and what it means. -/
inductive Chars : Text → Text → Prop
  | nil : Chars [] []
  | unescaped {c : UInt8} {s t : Text} (hc : 32 ≤ c ∧ c ≠ 34 ∧ c ≠ 92) (h : Chars s t) : Chars (c :: s) (c :: t)
  | letter {e c : UInt8} {s t : Text} (he : (e, c) ∈ letterEscapes) (h : Chars s t) : Chars (92 :: e :: s) (c :: t)
  | scalar {hex : Text} {code : Nat} {s t : Text} (hhex : Hex4 hex code) (hhigh : ¬IsHigh code) (hlow : ¬IsLow code)
      (h : Chars s t) : Chars (92 :: 117 :: hex ++ s) (String.utf8EncodeChar (Char.ofNat code) ++ t)
  | pair {hex hex' : Text} {high low : Nat} {s t : Text} (hhex : Hex4 hex high) (hhex' : Hex4 hex' low)
      (hhigh : IsHigh high) (hlow : IsLow low) (h : Chars s t) :
      Chars (92 :: 117 :: hex ++ 92 :: 117 :: hex' ++ s)
        (String.utf8EncodeChar (Char.ofNat (0x10000 + (high - 0xD800) * 0x400 + (low - 0xDC00))) ++ t)

/-- A string. -/
inductive StringText : Text → Text → Prop
  | mk {s t : Text} (h : Chars s t) : StringText (34 :: s ++ [34]) t

/-! ## Values -/

/-- An item of an array, with the white space around it. -/
structure Item where
  left : Text
  text : Text
  right : Text
  value : Value

def Item.whole (i : Item) : Text := i.left ++ i.text ++ i.right

/-- A member of an object: the white space, the name and the colon in front of its
    value. -/
structure Member where
  before : Text
  nameText : Text
  after : Text
  name : Text
  item : Item

def Member.whole (m : Member) : Text := m.before ++ m.nameText ++ m.after ++ 58 :: m.item.whole

/-- The first of the members of one name. -/
def firstOfName : List (Text × Value) → List (Text × Value)
  | [] => []
  | m :: ms => m :: (firstOfName ms).filter fun other => other.1 ≠ m.1

variable (IntPart : Text → Prop) (maxDepth : Nat)

/-- A value at this depth, with integer parts like these and no value deeper than
    the bound. -/
inductive ValueText : Nat → Text → Value → Prop
  | null {d : Nat} (hd : d ≤ maxDepth) : ValueText d [110, 117, 108, 108] .null
  | true {d : Nat} (hd : d ≤ maxDepth) : ValueText d [116, 114, 117, 101] (.bool true)
  | false {d : Nat} (hd : d ≤ maxDepth) : ValueText d [102, 97, 108, 115, 101] (.bool false)
  | number {d : Nat} {raw : Text} (hd : d ≤ maxDepth) (h : Number IntPart raw) : ValueText d raw (.number raw)
  | string {d : Nat} {s t : Text} (hd : d ≤ maxDepth) (h : StringText s t) : ValueText d s (.string t)
  | emptyArray {d : Nat} {w : Text} (hd : d ≤ maxDepth) (hw : Ws w) : ValueText d (91 :: w ++ [93]) (.array [])
  | array {d : Nat} {items : List Item} (hd : d ≤ maxDepth) (hne : items ≠ [])
      (hws : ∀ i ∈ items, Ws i.left ∧ Ws i.right) (h : ∀ i ∈ items, ValueText (d + 1) i.text i.value) :
      ValueText d (91 :: [44].intercalate (items.map Item.whole) ++ [93]) (.array (items.map Item.value))
  | emptyObject {d : Nat} {w : Text} (hd : d ≤ maxDepth) (hw : Ws w) : ValueText d (123 :: w ++ [125]) (.object [])
  | object {d : Nat} {members : List Member} (hd : d ≤ maxDepth) (hne : members ≠ [])
      (hws : ∀ m ∈ members, Ws m.before ∧ Ws m.after ∧ Ws m.item.left ∧ Ws m.item.right)
      (hname : ∀ m ∈ members, StringText m.nameText m.name)
      (h : ∀ m ∈ members, ValueText (d + 1) m.item.text m.item.value) :
      ValueText d (123 :: [44].intercalate (members.map Member.whole) ++ [125])
        (.object (firstOfName (members.map fun m => (m.name, m.item.value))))

/-- `JSON-text` -/
inductive JsonText : Text → Value → Prop
  | mk {left text right : Text} {value : Value} (hleft : Ws left) (hright : Ws right)
      (h : ValueText IntPart maxDepth 0 text value) : JsonText (left ++ text ++ right) value

theorem jsonText_iff {IntPart : Text → Prop} {maxDepth : Nat} {s : Text} {v : Value} : JsonText IntPart maxDepth s v ↔
    ∃ left text right, s = left ++ text ++ right ∧ Ws left ∧ Ws right ∧ ValueText IntPart maxDepth 0 text v := by
  constructor
  · rintro ⟨hl, hr, h⟩
    exact ⟨_, _, _, rfl, hl, hr, h⟩
  · rintro ⟨left, text, right, rfl, hl, hr, h⟩
    exact .mk hl hr h

/-! ## Laxer grammars -/

theorem integer_digits {s : Text} (h : Integer s) : Digits s := by
  obtain rfl | h := h
  · exact ⟨List.cons_ne_nil _ _, fun c hc => by rw [List.mem_singleton.1 hc]; rfl⟩
  · exact h.1

variable {P Q : Text → Prop} {maxDepth : Nat}

theorem Number.mono (hPQ : ∀ s, P s → Q s) {raw : Text} (h : Number P raw) : Number Q raw := by
  obtain ⟨hs, hi, hf, he⟩ := h
  exact .mk hs (hPQ _ hi) hf he

theorem ValueText.mono (hPQ : ∀ s, P s → Q s) {d : Nat} {t : Text} {v : Value} (h : ValueText P maxDepth d t v) :
    ValueText Q maxDepth d t v := by
  induction h with
  | null hd => exact .null hd
  | true hd => exact .true hd
  | false hd => exact .false hd
  | number hd h => exact .number hd (h.mono hPQ)
  | string hd h => exact .string hd h
  | emptyArray hd hw => exact .emptyArray hd hw
  | array hd hne hws _ ih => exact .array hd hne hws ih
  | emptyObject hd hw => exact .emptyObject hd hw
  | object hd hne hws hname _ ih => exact .object hd hne hws hname ih

theorem JsonText.mono (hPQ : ∀ s, P s → Q s) {t : Text} {v : Value} (h : JsonText P maxDepth t v) :
    JsonText Q maxDepth t v := by
  obtain ⟨hl, hr, h⟩ := h
  exact .mk hl hr (h.mono hPQ)

end Json
