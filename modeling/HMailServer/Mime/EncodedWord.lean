import HMailServer.Mime.Base64
import HMailServer.Mime.QuotedPrintable
import HMailServer.Lib.Separated
import HMailServer.Lib.Utf8

/- Encoded words (`MimeEncodedWord` in `Common/Mime/MimeCode.cpp`, RFC 2047). What
   is left of the input from a pointer on is a suffix of it. The charset that
   `Decode` notes is left out: what is decoded is bytes. -/
namespace HMailServer
open AnsiString

/-! ## The code -/

/-- `MimeCodeQ::Decode`: an underscore stands for a space. -/
def MimeCodeQ.decode : AnsiString → AnsiString
  | [] => []
  | c :: input =>
    if c = 61 then
      match input with
      | d :: e :: input =>
        if MimeCodeQP.isHexDigit d then
          ((MimeCodeQP.digitValue d <<< 4) ||| (MimeCodeQP.digitValue e &&& 0x0f)) :: decode input
        else if d = 13 ∧ e = 10 then decode input
        else d :: decode (e :: input)
      | _ => []
    else (if c = 95 then 32 else c) :: decode input

namespace MimeEncodedWord

def maxEncodedWordLen : Nat := 75

/-- `Unicode::CharMoveNext`: the number of bytes it moves. A NUL stands behind
    the input. -/
def charMoveNext (utf8 : Bool) (input : List UInt8) : Nat :=
  if utf8 then 1 + (input.tail.takeWhile Utf8.isContinuation).length else 1

/-- The bytes of the whole characters that fit in a block, `moved` of which are
    passed. Every turn moves on, which bounds the turns. -/
def safeBlock (utf8 : Bool) (nMaxBlockSize : Int) : Nat → Nat → List UInt8 → Nat
  | 0, moved, _ => moved
  | turns + 1, moved, input =>
    if input = [] then moved
    else
      let step := charMoveNext utf8 input
      if nMaxBlockSize < moved + step then moved
      else safeBlock utf8 nMaxBlockSize turns (moved + step) (input.drop step)

def wordStart (charset : AnsiString) (encoding : UInt8) : AnsiString := ansi "=?" ++ charset ++ [63, encoding, 63]

/-- The loop of `BEncode`; `none` if it does not end in so many turns. -/
def bEncodeFrom (charset : AnsiString) (nMaxBlockSize : Int) : Nat → List UInt8 → Option AnsiString
  | 0, _ => none
  | turns + 1, input =>
    let utf8 := equalsNoCase charset (ansi "utf-8")
    let size := min input.length (safeBlock utf8 nMaxBlockSize input.length 0 input)
    let word := wordStart charset 66 ++ MimeCodeBase64.encode false (input.take size) ++ ansi "?="
    if input.length ≤ size then some word
    else (bEncodeFrom charset nMaxBlockSize turns (input.drop size)).map fun rest => word ++ [32] ++ rest

/-- A turn of the loop that moves on takes a byte at least, so what does not end
    in as many turns as there are bytes does not end. -/
def bEncode (charset : AnsiString) (input : List UInt8) : Option AnsiString :=
  let nMaxBlockSize : Int := ((maxEncodedWordLen : Int) - charset.length - 7).tdiv 4 * 3
  if nMaxBlockSize < 3 then some input else bEncodeFrom charset nMaxBlockSize (input.length + 1) input

def isQuoted (ch : UInt8) : Bool := ch < 33 || ch > 126 || ch == 61 || ch == 63 || ch == 95

/-- `nCodeLen`. -/
def codeLen (ch : UInt8) : Nat := if isQuoted ch then 3 else 1

def qWritten (ch : UInt8) : AnsiString := if isQuoted ch then MimeCodeQP.escape ch else [ch]

/-- The loop of `QEncode` and what is written behind it. -/
def qEncodeFrom (charset : AnsiString) (nMaxLine : Int) : Nat → List UInt8 → AnsiString
  | _, [] => ansi "?="
  | nLineLen, ch :: input =>
    let full : Bool := nMaxLine < nLineLen + codeLen ch
    let nLineLen := if full then 0 else nLineLen
    (if full then ansi "?= " else []) ++ (if nLineLen = 0 then wordStart charset 81 else []) ++
      (qWritten ch ++ qEncodeFrom charset nMaxLine (nLineLen + codeLen ch) input)

def qEncode (charset : AnsiString) (input : List UInt8) : AnsiString :=
  let nMaxLine : Int := (maxEncodedWordLen : Int) - charset.length - 7
  if nMaxLine < 3 then input else qEncodeFrom charset nMaxLine 0 input

/-- `Encode`; `none` if it does not end. -/
def encode (encoding : UInt8) (charset : AnsiString) (input : List UInt8) : Option AnsiString :=
  if charset = [] then some input
  else if input = [] then some []
  else if toLower encoding = 98 then bEncode charset input
  else some (qEncode charset input)

/-- `FieldCodeBase::SelectEncoding`. -/
def selectEncoding (nLength nNonAsciiChars : Nat) : UInt8 :=
  let nQEncodeSize := nLength + nNonAsciiChars * 2
  let nBEncodeSize := (nLength + 2) / 3 * 4
  if nQEncodeSize ≤ nBEncodeSize ∨ nNonAsciiChars * 5 ≤ nLength then 81 else 66

/-- `StringParser::Search` of two characters. -/
def searchPair (a b : UInt8) : List UInt8 → Option Nat
  | c :: d :: rest => if c = a ∧ d = b then some 0 else (searchPair a b (d :: rest)).map (· + 1)
  | _ => none

/-- An encoded word begins here: its coding, and what is behind its header. -/
def encodedWordAt (input : List UInt8) : Option (UInt8 × List UInt8) :=
  match input with
  | 61 :: 63 :: behind =>
    match behind.dropWhile (· != 63) with
    | _ :: coding :: 63 :: data => if data = [] then none else some (toLower coding, data)
    | _ => none
  | _ => none

/-- The loop of `Decode`. Every turn passes a byte at least. -/
def decodeFrom : Nat → Bool → List UInt8 → AnsiString
  | 0, _, _ => []
  | turns + 1, atStart, input =>
    if input = [] then []
    else
      let decodeWord := fun (decodePayload : AnsiString → AnsiString) (data : List UInt8) =>
        let nCodeLen := (searchPair 63 61 data).getD data.length
        decodePayload (data.take nCodeLen) ++ decodeFrom turns false (data.drop (nCodeLen + 2))
      let raw :=
        match (searchPair 61 63 input.tail).map (· + 1) with
        | none => input
        | some next =>
          (if !atStart && (input.takeWhile isSpace).length == next then [] else input.take next) ++
            decodeFrom turns false (input.drop next)
      match encodedWordAt input with
      | some (coding, data) =>
        if coding = 98 then decodeWord MimeCodeBase64.decode data
        else if coding = 113 then decodeWord MimeCodeQ.decode data
        else raw
      | none => raw

def decode (input : AnsiString) : AnsiString := decodeFrom input.length true input

end MimeEncodedWord
end HMailServer
