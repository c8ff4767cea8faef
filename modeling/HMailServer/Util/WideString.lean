import Mathlib

/- The parts of the wide `String` class (`Common/Util/StdString.h`) that the
   IMAP code reads. A `wchar_t` is a natural number: 16 bits wide on Windows, 32
   elsewhere, and nothing below depends on the width. The locale's character
   classes are a parameter. -/
namespace HMailServer

abbrev WChar := Nat
abbrev WString := List WChar

/-- A string literal of the source. -/
def wide (s : String) : WString := s.toList.map Char.toNat

/-- The character functions of the process locale. -/
structure Locale where
  isSpace : WChar → Bool
  toUpper : WChar → WChar
  toLower : WChar → WChar

namespace WString

/-- The classic locale's `tolower`, which `ssicmp` folds with. -/
def classicLower (c : WChar) : WChar := if 65 ≤ c ∧ c ≤ 90 then c + 32 else c

/-- The characters in front of the first NUL, which a C string comparison sees. -/
def cstr (s : WString) : WString := s.takeWhile (· != 0)

/-- `CompareNoCase(..) == 0`. -/
def equalsNoCase (a b : WString) : Bool := (cstr a).map classicLower == (cstr b).map classicLower

/-- Three-way comparison of `std::basic_string::compare`. -/
def compare : WString → WString → Ordering
  | [], [] => .eq
  | [], _ :: _ => .lt
  | _ :: _, [] => .gt
  | a :: s, b :: t => if a < b then .lt else if b < a then .gt else compare s t

/-- `Find` of a one-character string, from `start`; `none` is -1. -/
def findFrom (s : WString) (c : WChar) (start : Nat) : Option Nat :=
  ((s.drop start).findIdx? (· == c)).map (· + start)

/-- `Mid(first, count)` for indices in range. -/
def mid (s : WString) (first count : Nat) : WString := (s.drop first).take count

def trim (loc : Locale) (s : WString) : WString :=
  (s.dropWhile loc.isSpace).rdropWhile loc.isSpace

def makeUpper (loc : Locale) (s : WString) : WString := s.map loc.toUpper

/-- `ToLower` writes through `GetBuf`, and `RelBuf` then ends the string at its
    first NUL. -/
def makeLower (loc : Locale) (s : WString) : WString := cstr (s.map loc.toLower)

/-- `Find(sub) >= 0`. -/
def contains (s sub : WString) : Bool := s.tails.any fun t => sub.isPrefixOf t

/-- Both sides pass through `c_str()`, so each ends at its first NUL. -/
def containsNoCase (loc : Locale) (s sub : WString) : Bool :=
  contains (makeLower loc (cstr s)) (makeLower loc (cstr sub))

/-- `Replace` of a two-character string by one character, leftmost first and
    never rereading what it wrote. -/
def replacePair (a b r : WChar) : WString → WString
  | x :: y :: s => if x = a ∧ y = b then r :: replacePair a b r s else x :: replacePair a b r (y :: s)
  | s => s

/-- `StringParser::SplitString` for a one-character separator: an empty piece
    is kept between two separators and dropped at the end. -/
def splitString (s : WString) (sep : WChar) : List WString :=
  let parts := s.splitOn sep
  if parts.getLast? = some [] then parts.dropLast else parts

def digitsValue (s : WString) : Nat :=
  (s.takeWhile fun c => 48 ≤ c ∧ c ≤ 57).foldl (fun n c => 10 * n + (c - 48)) 0

/-- `_ttoi` and `_ttoi64`: leading white space and a sign, then digits, held
    at the ends of the `bits`-bit range. -/
def ttoi (bits : Nat) (s : WString) : Int :=
  let held : Int → Int := fun n => max (-(2 : Int) ^ (bits - 1)) (min n ((2 : Int) ^ (bits - 1) - 1))
  match s.dropWhile fun c => c = 32 ∨ (9 ≤ c ∧ c ≤ 13) with
  | 45 :: t => held (-(digitsValue t : Int))
  | 43 :: t => held (digitsValue t)
  | t => held (digitsValue t)

end WString

def asciiUpper (c : Nat) : Nat := if 97 ≤ c ∧ c ≤ 122 then c - 32 else c

/-- The classic locale. -/
def classicLocale : Locale where
  isSpace c := c == 32 || (9 ≤ c && c ≤ 13)
  toUpper := asciiUpper
  toLower := WString.classicLower

end HMailServer
