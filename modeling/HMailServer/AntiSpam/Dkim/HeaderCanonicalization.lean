import HMailServer.AntiSpam.Dkim.BodyCanonicalization
import HMailServer.AntiSpam.Dkim.TagList
import HMailServer.Mime.HeaderLoad
import HMailServer.Lib.Selection

/- Canonicalization of header fields (`Canonicalization.cpp`), and what RFC 6376
   says of it in sections 3.4.1, 3.4.2 and 5.4.2. The relaxed one works on the
   fields of the MIME parser, in wide strings, the simple one on the raw lines
   of the header. A conversion to wide characters ends at the first NUL. -/
namespace HMailServer.Dkim
open AnsiString MimeHeader

/-! ## The code -/

/-- `ToLower` ends the string at its first NUL. -/
def makeLower (s : AnsiString) : AnsiString := cstr (lower s)

def canonicalizeHeaderName (name : AnsiString) : AnsiString := trim (makeLower name)

def canonicalizeHeaderValue (value : AnsiString) : AnsiString :=
  let value := replaceFrom (ansi "\r\n ") (ansi " ") 0 value
  let value := replaceFrom (ansi "\r\n\t") (ansi " ") 0 value
  let value := collapseWhitespaceRuns value
  trim (value.rdropWhile fun c => c == 32 || c == 9)

/-- What the loop over the h= list has done so far. -/
structure Listed (α : Type) where
  result : AnsiString
  fieldList : AnsiString
  /-- The fields not used yet. -/
  fields : List α

/-- `fieldList` with one more name. -/
def addToFieldList (fieldList name : AnsiString) : AnsiString :=
  (if fieldList = [] then [] else fieldList ++ [58]) ++ name

/-- The loop of `RelaxedCanonicalization::CanonicalizeHeader`: each name takes
    the last field that has it. -/
def relaxedLoop : List AnsiString → Listed LoadedField → Listed LoadedField
  | [], s => s
  | headerField :: fieldsToInclude, s =>
    let headerField := trim headerField
    let isThis := fun field : LoadedField => equalsNoCase headerField (cstr field.name)
    match s.fields.reverse.find? isThis with
    | none => relaxedLoop fieldsToInclude s
    | some field =>
      let value := cstr field.value
      let value := if value = [] then crlf else value
      relaxedLoop fieldsToInclude
        { result := s.result ++ (cstr (canonicalizeHeaderName headerField) ++ 58 ::
            (cstr (canonicalizeHeaderValue value) ++ crlf))
          fieldList := addToFieldList s.fieldList headerField
          fields := (s.fields.reverse.eraseP isThis).reverse }

/-- The signature field that is being verified. -/
def relaxedSignature (signatureField : AnsiString × AnsiString) : AnsiString :=
  if signatureField.1 = [] then []
  else cstr (canonicalizeHeaderName signatureField.1 ++ 58 ::
    getDKIMWithoutSignature (canonicalizeHeaderValue signatureField.2))

/-- `RelaxedCanonicalization::CanonicalizeHeader`: the text and the list of the
    fields in it. -/
def relaxedCanonicalizeHeader (header : AnsiString) (signatureField : AnsiString × AnsiString)
    (fieldsToInclude : List AnsiString) (fieldList : AnsiString) : AnsiString × AnsiString :=
  let listed := relaxedLoop fieldsToInclude ⟨[], fieldList, load header true⟩
  (listed.result ++ relaxedSignature signatureField, listed.fieldList)

/-- The list of header lines, the last one first: the lines are read from the
    end, and folded ones are gathered until the line they belong to. -/
def formatHeaderLines : List AnsiString → AnsiString → List AnsiString
  | [], _ => []
  | line :: lines, foldedLines =>
    if line.head? = some 32 ∨ line.head? = some 9 then formatHeaderLines lines (line ++ crlf ++ foldedLines)
    else if 58 ∉ line then formatHeaderLines lines []
    else (line ++ crlf ++ foldedLines) :: formatHeaderLines lines []

/-- The loop of `SimpleCanonicalization::CanonicalizeHeader`. -/
def simpleLoop : List AnsiString → Listed AnsiString → Listed AnsiString
  | [], s => s
  | fieldToInclude :: fieldsToInclude, s =>
    let fieldToInclude := trim fieldToInclude
    let isThis := fun headerLine : AnsiString => equalsNoCase (headerLine.takeWhile (· != 58)) fieldToInclude
    match s.fields.find? isThis with
    | none => simpleLoop fieldsToInclude s
    | some headerLine =>
      simpleLoop fieldsToInclude
        { result := s.result ++ headerLine
          fieldList := addToFieldList s.fieldList (headerLine.takeWhile (· != 58))
          fields := s.fields.eraseP isThis }

def simpleSignature (signatureField : AnsiString × AnsiString) : AnsiString :=
  if signatureField.1 = [] then []
  else
    let headerLine := signatureField.1 ++ ansi ": " ++ getDKIMWithoutSignature signatureField.2
    if crlf.isSuffixOf headerLine then headerLine.take (headerLine.length - 2) else headerLine

/-- `SimpleCanonicalization::CanonicalizeHeader`. -/
def simpleCanonicalizeHeader (header : AnsiString) (signatureField : AnsiString × AnsiString)
    (fieldsToInclude : List AnsiString) (fieldList : AnsiString) : AnsiString × AnsiString :=
  let headerLines := StringParser.splitString header crlf
  let listed := simpleLoop fieldsToInclude ⟨[], fieldList, formatHeaderLines headerLines.reverse []⟩
  (listed.result ++ simpleSignature signatureField, listed.fieldList)

/-! ## The RFC -/

/-- A header field: its name, the white space in front of the colon, the rest of
    its first line and its continuation lines. -/
structure HeaderField where
  name : AnsiString
  beforeColon : AnsiString
  first : AnsiString
  continuation : List AnsiString
  deriving DecidableEq

namespace HeaderField

def lines (f : HeaderField) : List AnsiString := (f.name ++ f.beforeColon ++ 58 :: f.first) :: f.continuation

/-- The field as it stands in the header. -/
def text (f : HeaderField) : AnsiString := linesText f.lines

structure WellFormed (f : HeaderField) : Prop where
  name_ne_nil : f.name ≠ []
  name : ∀ c ∈ f.name, 32 < c ∧ c < 127 ∧ c ≠ 58
  beforeColon : ∀ c ∈ f.beforeColon, isWsp c = true
  first : NoLineEnd f.first
  continuation : ∀ l ∈ f.continuation, NoLineEnd l ∧ ∃ c, l.head? = some c ∧ isWsp c = true

/-- The value without its line ends. -/
def unfolded (f : HeaderField) : AnsiString := f.first ++ f.continuation.flatten

/-- Section 3.4.2: unfolded, runs of white space reduced, none at the ends. -/
def relaxedValue (f : HeaderField) : AnsiString := (reduceLine f.unfolded).dropWhile isWsp

def relaxedLine (f : HeaderField) : AnsiString := lower f.name ++ 58 :: f.relaxedValue

end HeaderField

def headerText (fields : List HeaderField) : AnsiString := fields.flatMap HeaderField.text

/-- The listed name is the field's, without regard to case. -/
def isNamed (listed : AnsiString) (f : HeaderField) : Bool := lower (trim listed) == lower f.name

/-- Section 5.4.2: each listed name takes the last field that has it and is not
    used yet, if there is one. -/
def rfcSelect (names : List AnsiString) (fields : List HeaderField) : List (AnsiString × HeaderField) × List HeaderField :=
  Selection.select isNamed names fields.reverse

def rfcRelaxedHeader (names : List AnsiString) (fields : List HeaderField) : AnsiString :=
  linesText ((rfcSelect names fields).1.map fun s => s.2.relaxedLine)

/-- Section 3.4.1: the fields as they are. -/
def rfcSimpleHeader (names : List AnsiString) (fields : List HeaderField) : AnsiString :=
  (rfcSelect names fields).1.flatMap fun s => s.2.text

/-- What is promised of the relaxed canonicalization: it leaves over the fields
    that the reference leaves over, and gives its text. -/
structure RelaxedHeaderCanonicalized (names : List AnsiString) (fields : List HeaderField) : Prop where
  selects : (relaxedLoop names ⟨[], [], load (headerText fields) true⟩).fields.reverse.map LoadedField.name =
    (rfcSelect names fields).2.map fun f => f.name ++ f.beforeColon
  bytes : ∀ signatureField fieldList,
    (relaxedCanonicalizeHeader (headerText fields) signatureField names fieldList).1 =
      rfcRelaxedHeader names fields ++ relaxedSignature signatureField

/-- The same of the simple one. -/
structure SimpleHeaderCanonicalized (names : List AnsiString) (fields : List HeaderField) : Prop where
  selects : (simpleLoop names ⟨[], [], formatHeaderLines
      (StringParser.splitString (headerText fields) crlf).reverse []⟩).fields.map (List.takeWhile (· != 58)) =
    (rfcSelect names fields).2.map fun f => f.name ++ f.beforeColon
  bytes : ∀ signatureField fieldList,
    (simpleCanonicalizeHeader (headerText fields) signatureField names fieldList).1 =
      rfcSimpleHeader names fields ++ simpleSignature signatureField

/-- There is no NUL, bare CR or bare LF in the value, and neither its own text
    nor that of a continuation line begins with a vertical tab or form feed
    behind its white space, nor does the value end with one. -/
structure HeaderField.PlainValue (f : HeaderField) : Prop where
  chars : ∀ c ∈ f.unfolded, c ≠ 0 ∧ c ≠ 13 ∧ c ≠ 10
  continuation : ∀ l ∈ f.continuation, ∀ c, (l.dropWhile isWsp).head? = some c → isSpace c = false
  first : ∀ c, f.relaxedValue.head? = some c → isSpace c = false
  last : ∀ c, f.relaxedValue.getLast? = some c → isSpace c = false

end HMailServer.Dkim
