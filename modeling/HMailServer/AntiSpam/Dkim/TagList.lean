import HMailServer.Util.StringParser
import HMailServer.Lib.Separated

/- The tag lists of DKIM and ARC: the parser (`DKIMParameters::Load`) and the
   two functions that take the signature out of a tag list before it is hashed,
   `Canonicalization::GetDKIMWithoutSignature_` and
   `Arc::StripSealSignatureValue_`. -/
namespace HMailServer.Dkim
open AnsiString

/-! ## The parser -/

namespace DKIMParameters

def isHexDigit (c : UInt8) : Bool := (48 ≤ c && c ≤ 57) || (65 ≤ c && c ≤ 70) || (97 ≤ c && c ≤ 102)

def hexValue (c : UInt8) : UInt8 := if 57 < c then c - 55 else c - 48

/-- `MimeCodeQP::Decode`. -/
def decodeQP : AnsiString → AnsiString
  | 61 :: high :: low :: rest =>
    if isHexDigit high then (hexValue high <<< 4 ||| hexValue low &&& 15) :: decodeQP rest
    else if high = 13 ∧ low = 10 then decodeQP rest
    else high :: decodeQP (low :: rest)
  | 61 :: _ => []
  | c :: rest => c :: decodeQP rest
  | [] => []

/-- `Replace("\r\n", "")`. -/
def removeLineEnds : AnsiString → AnsiString
  | 13 :: 10 :: s => removeLineEnds s
  | c :: s => c :: removeLineEnds s
  | [] => []

def dkimQPDecode (input : AnsiString) : AnsiString :=
  decodeQP (remove 9 (removeLineEnds (remove 32 input)))

/-- What one piece of the list sets. -/
def parameter (piece : AnsiString) : Option (AnsiString × AnsiString) :=
  match piece.findIdx? (· == 61) with
  | none => none
  | some equalsPos =>
    let paramName := trim (piece.take equalsPos)
    let paramValue := trim (piece.drop (equalsPos + 1))
    some (paramName,
      if paramName = ansi "h" ∨ paramName = ansi "b" then remove 32 paramValue
      else if paramName = ansi "i" then dkimQPDecode paramValue
      else paramValue)

/-- The assignments of `Load`, in their order. -/
def load (parameters : AnsiString) : List (AnsiString × AnsiString) :=
  (StringParser.splitString parameters (ansi ";")).filterMap parameter

/-- `GetValue`: the last assignment counts. -/
def getValue (parameters : List (AnsiString × AnsiString)) (paramName : AnsiString) : AnsiString :=
  ((parameters.reverse.find? fun p => p.1 == paramName).map Prod.snd).getD []

end DKIMParameters

/-! ## The two strippers -/

/-- The loop of `GetDKIMWithoutSignature_`, with `before` in front of the
    position and `rest` from it on. Every turn passes a semicolon, which bounds
    the turns. -/
def withoutSignatureFrom : Nat → AnsiString → AnsiString → AnsiString
  | 0, _, _ => []
  | n + 1, before, rest =>
    if rest = [] then []
    else
      let tag := rest.takeWhile (· != 59)
      let follows := rest.dropWhile (· != 59)
      match (tag.findIdx? (· == 61)).filter fun e => 0 < e && trim (tag.take e) == ansi "b" with
      | some equalsPosition => before ++ rest.take (equalsPosition + 1) ++ follows
      | none =>
        match follows with
        | [] => []
        | _ :: next => withoutSignatureFrom n (before ++ tag ++ [59]) next

def getDKIMWithoutSignature (value : AnsiString) : AnsiString := withoutSignatureFrom (value.length + 1) [] value

/-- The loop of `StripSealSignatureValue_`, with `s` from the position on. -/
def stripSealFrom : Nat → AnsiString → AnsiString
  | 0, _ => []
  | n + 1, s =>
    if s = [] then []
    else
      match s.findIdx? (· == 61) with
      | none => s
      | some equalsPosition =>
        let tagName := trim (s.take equalsPosition)
        let semicolonPosition := ((s.drop equalsPosition).findIdx? (· == 59)).map (equalsPosition + ·)
        let valueEnd := match semicolonPosition with
          | none => s.length
          | some p => p + 1
        (if equalsNoCase tagName (ansi "b") then
          s.take (equalsPosition + 1) ++ if semicolonPosition.isSome then [59] else []
        else s.take valueEnd) ++ stripSealFrom n (s.drop valueEnd)

def stripSealSignatureValue (sealValue : AnsiString) : AnsiString := stripSealFrom (sealValue.length + 1) sealValue

/-! ## What they should do -/

/-- A piece that the parser reads as the tag `b`. -/
def isSignature (piece : AnsiString) : Bool := piece.contains 61 && trim (piece.takeWhile (· != 61)) == ansi "b"

/-- The piece with `s` for the text of its signature. -/
def setSignature (s piece : AnsiString) : AnsiString :=
  if isSignature piece then piece.takeWhile (· != 61) ++ 61 :: s else piece

/-- The tag list with `s` for the text of its signature. -/
def withSignature (v s : AnsiString) : AnsiString := [59].intercalate ((v.splitOn 59).map (setSignature s))

/-- What is promised of a tag list: both delete the text of the signature and
    nothing else, whatever the text is. -/
structure StripsSignature (v : AnsiString) : Prop where
  dkim : getDKIMWithoutSignature v = withSignature v []
  arc : stripSealSignatureValue v = withSignature v []
  replaced : ∀ s, 59 ∉ s → getDKIMWithoutSignature (withSignature v s) = getDKIMWithoutSignature v ∧
    stripSealSignatureValue (withSignature v s) = stripSealSignatureValue v

/-- What `StripSealSignatureValue_` reads as tags: it runs on to the next equal
    sign, so that a piece without one becomes part of the next name. -/
def joinedTags : AnsiString → List AnsiString → List AnsiString
  | tag, [] => [tag]
  | tag, next :: rest =>
    if 61 ∈ tag then tag :: joinedTags next rest else joinedTags (tag ++ 59 :: next) rest

def sealTags (v : AnsiString) : List AnsiString :=
  match v.splitOn 59 with
  | [] => []
  | piece :: pieces => joinedTags piece pieces

/-- The name of the tag is `b`, perhaps behind pieces without an equal sign. -/
def endsInSignature (tag : AnsiString) : Bool :=
  tag.contains 61 && trim ((tag.takeWhile (· != 61)).rtakeWhile (· != 59)) == ansi "b"

/-- The name of the tag compares equal to `b`. -/
def namedB (tag : AnsiString) : Bool :=
  tag.contains 61 && equalsNoCase (trim (tag.takeWhile (· != 61))) (ansi "b")

def tagValue (tag : AnsiString) : AnsiString := (tag.dropWhile (· != 61)).tail

/-- The ARC scanner reads the tag `b` under its name, and any other tag whose
    name compares equal to it is empty. -/
def SealReadsSignature (v : AnsiString) : Prop :=
  ∀ tag ∈ sealTags v, (endsInSignature tag = true → namedB tag = true) ∧
    (namedB tag = true → endsInSignature tag = true ∨ tagValue tag = [])

example : getDKIMWithoutSignature (ansi "bh=AAb=; b=xyz; d=e") = ansi "bh=AAb=; b=; d=e" := by decide

end HMailServer.Dkim
