import HMailServer.Util.AnsiString
import HMailServer.Lib.QuotedSplit

/- The parameters of a MIME header field (`MimeField`, `Common/Mime/Mime.cpp`).
   `SetParameter` and `RemoveParameter` find a parameter with the pointer scan
   of `FindParameter`, `GetParameter` splits the value with a tokenizer of its
   own. The scan runs over the C string of the value; what is left of it from a
   pointer on is a suffix. -/
namespace HMailServer

namespace MimeField
open AnsiString

/-- What `FindParameter` answers: where the value of the parameter stands. -/
structure FoundParameter where
  pos : Nat
  size : Nat
  encodedParameter : Bool
  deriving DecidableEq

/-- The length of a value: a quoted string, or all that is in front of the next
    semicolon. -/
def valueSize (value : AnsiString) : Nat :=
  match value with
  | 34 :: rest =>
    match rest.findIdx? (· == 34) with
    | some k => k + 2
    | none => (value.takeWhile (· != 59)).length
  | _ => (value.takeWhile (· != 59)).length

/-- The loop of `FindParameter`, with `s` left from position `pos` on. Every
    turn passes an equal sign, which bounds the turns. -/
def findParameterFrom (attr : AnsiString) : Nat → Nat → AnsiString → Option FoundParameter
  | 0, _, _ => none
  | n + 1, pos, s =>
    let skipped := s.takeWhile fun c => isSpace c || c == 59
    let name := s.dropWhile fun c => isSpace c || c == 59
    match name.findIdx? (· == 61) with
    | none => none
    | some equals =>
      let afterEquals := name.drop (equals + 1)
      let blanks := afterEquals.takeWhile fun c => c == 32 || c == 9
      let value := afterEquals.dropWhile fun c => c == 32 || c == 9
      let start := equals + 1 + blanks.length
      -- `nActualAttrNameSize` counts up to the value, not to the end of the name.
      let actualAttrNameSize := start - 1
      if value = [] then none
      else
        let size := valueSize value
        if lower (name.take attr.length) == lower attr &&
            (isSpace (name.getD actualAttrNameSize 0) || name.getD actualAttrNameSize 0 == 61) then
          some ⟨pos + skipped.length + start, size, attr.length < start + size && name.getD attr.length 0 == 42⟩
        else findParameterFrom attr n (pos + skipped.length + start + size) (value.drop size)

def findParameter (value attr : AnsiString) : Option FoundParameter :=
  let s := cstr value
  match s.findIdx? (· == 59) with
  | none => none
  | some k => findParameterFrom attr (s.length + 1) k (s.drop k)

/-- The value of a parameter as it is written. -/
def quoteValue (v : AnsiString) : AnsiString :=
  (if v.head? = some 34 then [] else [34]) ++ v ++ (if v.length < 2 ∨ v.getLast? ≠ some 34 then [34] else [])

def setParameter (value attr v : AnsiString) : AnsiString :=
  match findParameter value attr with
  | none => value ++ ansi "; " ++ attr ++ ansi "=" ++ quoteValue v
  | some found => value.take found.pos ++ quoteValue v ++ value.drop (found.pos + found.size)

/-- `rfind(';', pos)`. -/
def rfindSemicolon (value : AnsiString) (pos : Nat) : Option Nat :=
  let s := value.take (pos + 1)
  (s.reverse.findIdx? (· == 59)).map fun i => s.length - 1 - i

/-- The loop of `RemoveParameter`. Every turn erases a semicolon, which bounds
    the turns. -/
def removeParameterLoop (attr : AnsiString) : Nat → AnsiString → AnsiString
  | 0, value => value
  | n + 1, value =>
    match findParameter value attr with
    | none => value
    | some found =>
      match rfindSemicolon value found.pos with
      | none => value
      | some segStart =>
        removeParameterLoop attr n (value.take segStart ++ value.drop (found.pos + found.size))

def removeParameter (value attr : AnsiString) : AnsiString := removeParameterLoop attr (value.length + 1) value

def getValue (value : AnsiString) : AnsiString :=
  match value.findIdx? (· == 59) with
  | some e => trimRight (value.take e)
  | none => value

/-! ## GetParameter -/

/-- `MimeParameterRFC2184Decoder::Decode`, the loop over the encoded value. -/
def decodePercent : AnsiString → AnsiString
  | [] => []
  | [c] => if c = 37 then [] else [c]
  | [c, d] => if c = 37 then [] else c :: decodePercent [d]
  | c :: d :: e :: rest => if c = 37 then 61 :: d :: e :: decodePercent rest else c :: decodePercent (d :: e :: rest)

/-- `Find("'")` from an index; -1 if there is none. -/
def findApostrophe (s : AnsiString) (start : Nat) : Int :=
  match (s.drop start).findIdx? (· == 39) with
  | some i => (start + i : Nat)
  | none => -1

def decodeRFC2184 (input : AnsiString) : AnsiString :=
  let endOfCharacterSet := findApostrophe input 0
  let endOfLanguage := findApostrophe input (endOfCharacterSet + 1).toNat
  ansi "=?" ++ input.take endOfCharacterSet.toNat ++ ansi "?Q?" ++
    decodePercent (input.drop (endOfLanguage + 1).toNat) ++ ansi "?="

/-- A value between its name and the end of its piece, unquoted and trimmed. -/
def pieceValue (afterEquals : AnsiString) : AnsiString :=
  trimRight (match afterEquals.dropWhile (· == 32) with
    | 34 :: quoted => quoted.takeWhile (· != 34)
    | unquoted => unquoted.takeWhile fun c => c != 59 && c != 34)

/-- The loop over the pieces: the text so far and whether it is encoded. The
    answer is `none` where the loop returns. -/
def getParameterLoop (attr : AnsiString) : AnsiString → Bool → List AnsiString → Option (AnsiString × Bool)
  | strValue, encoded, [] => some (strValue, encoded)
  | strValue, encoded, piece :: pieces =>
    let value := trimLeft piece
    let parameterName := value.takeWhile fun c => c != 32 && c != 42 && c != 61
    if parameterName = [] ∧ strValue = [] then none
    else if equalsNoCase parameterName attr = false then getParameterLoop attr strValue encoded pieces
    else
      let beforeEquals := value.takeWhile (· != 61)
      getParameterLoop attr (strValue ++ pieceValue (value.drop (beforeEquals.length + 1)))
        (encoded || beforeEquals.getLast? == some 42) pieces

/-- The value of the parameter; `none` is the answer false. -/
def getParameter (value attr : AnsiString) : Option AnsiString :=
  match getParameterLoop attr [] false (QuotedSplit.splitUnquoted 34 59 false value).tail with
  | none => none
  | some (strValue, encoded) =>
    if strValue = [] then none
    else some (trimLeft (if encoded then decodeRFC2184 strValue else strValue))

example : getParameter (ansi "attachment; filename=\"semi;colon.dll\"; size=42") (ansi "size") = some (ansi "42") := by
  decide

end MimeField
end HMailServer
