import HMailServer.Util.WideString
import HMailServer.Lib.Cut

/- The sender rewriting scheme for forwarded mail (`Common/Util/SRS.cpp`). The
   clock is an argument, in seconds. `Find` and `ReverseFind` with the two `Mid`
   calls behind them are a cut at the separator. -/
namespace HMailServer
open Cut

/-- What both rewriting schemes take from elsewhere: the character functions,
    the conversion to narrow characters, and the hexadecimal HMAC-SHA256. -/
structure SigningEnvironment where
  loc : Locale
  toAnsi : WString → WString
  computeHMACSHA256Hex : WString → WString → WString

namespace SRS

def base32Alphabet : WString := wide "ABCDEFGHIJKLMNOPQRSTUVWXYZ234567"
def maxAgeDays : Int := 21
def futureSkewSlot : Int := 1023
def hashHexLength : Nat := 8

def currentTimeSlot (now : Nat) : Nat := now / 86400 % 1024

def encodeTimeSlot (slot : Nat) : WString :=
  let slot := slot % 1024
  [base32Alphabet.getD (slot / 32) 0, base32Alphabet.getD (slot % 32) 0]

/-- The letters of the alphabet are distinct, so the last match of the loop is
    the first. -/
def decodeTimeSlot (encoded : WString) : Option Nat :=
  match encoded with
  | [h, l] =>
    match base32Alphabet.findIdx? (· == h), base32Alphabet.findIdx? (· == l) with
    | some high, some low => some (high * 32 + low)
    | _, _ => none
  | _ => none

def timeSlotInRange (now slot : Nat) : Bool :=
  let age : Int := (currentTimeSlot now : Int) - slot
  let age := if age < 0 then age + 1024 else age
  age ≤ maxAgeDays || futureSkewSlot ≤ age

variable (env : SigningEnvironment)

/-- The canonical signing string. -/
def canonical (timeSlot sourceDomain sourceLocal : WString) : WString :=
  env.toAnsi timeSlot ++ env.toAnsi (WString.makeLower env.loc sourceDomain) ++ env.toAnsi sourceLocal

def computeHash (secret timeSlot sourceDomain sourceLocal : WString) : WString :=
  (env.computeHMACSHA256Hex (env.toAnsi secret) (canonical env timeSlot sourceDomain sourceLocal)).take hashHexLength

/-- `Format` of `SRS0=%s=%s=%s=%s@%s`, whose arguments end at their first NUL. -/
def formatAddress (hash timeSlot sourceDomain sourceLocal forwarderDomain : WString) : WString :=
  wide "SRS0=" ++ WString.cstr hash ++ 61 :: WString.cstr timeSlot ++ 61 :: WString.cstr sourceDomain ++
    61 :: WString.cstr sourceLocal ++ 64 :: WString.cstr forwarderDomain

/-- The empty string where the source answers it. -/
def forward (now : Nat) (originalMailFrom forwarderDomain secret : WString) : WString :=
  if originalMailFrom = [] ∨ forwarderDomain = [] ∨ secret = [] then []
  else match cutLast 64 originalMailFrom with
    | none => []
    | some (sourceLocal, sourceDomain) =>
      if sourceLocal = [] ∨ sourceDomain = [] then []
      else
        let timeSlot := encodeTimeSlot (currentTimeSlot now)
        formatAddress (computeHash env secret timeSlot sourceDomain sourceLocal) timeSlot sourceDomain sourceLocal
          forwarderDomain

def isSRS0 (address : WString) : Bool :=
  match cutLast 64 address with
  | none => false
  | some (localPart, _) =>
    localPart ≠ [] && 5 ≤ localPart.length && WString.equalsNoCase (localPart.take 4) (wide "SRS0") &&
      (localPart.getD 4 0 == 61 || localPart.getD 4 0 == 43 || localPart.getD 4 0 == 45)

/-- The three separators of the payload; only the first of them is checked for
    standing at its start. -/
def splitPayload (payload : WString) : Option (WString × WString × WString × WString) :=
  match cut 61 payload with
  | none => none
  | some (hash, rest) =>
    if hash = [] then none
    else match cut 61 rest with
      | none => none
      | some (timeSlot, rest) =>
        match cut 61 rest with
        | none => none
        | some (sourceDomain, sourceLocal) => some (hash, timeSlot, sourceDomain, sourceLocal)

/-- `none` is the answer false. -/
def reverse (now : Nat) (address secret : WString) : Option WString :=
  if secret = [] ∨ !isSRS0 address then none
  else
    let localPart := ((cutLast 64 address).map Prod.fst).getD []
    match splitPayload (localPart.drop 5) with
    | none => none
    | some (hash, timeSlot, sourceDomain, sourceLocal) =>
      if timeSlot = [] ∨ sourceDomain = [] ∨ sourceLocal = [] then none
      else if !WString.equalsNoCase (computeHash env secret timeSlot sourceDomain sourceLocal) hash then none
      else match decodeTimeSlot timeSlot with
        | none => none
        | some slot => if timeSlotInRange now slot then some (sourceLocal ++ 64 :: sourceDomain) else none

end SRS
end HMailServer
