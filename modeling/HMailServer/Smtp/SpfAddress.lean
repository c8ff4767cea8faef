import HMailServer.Util.AnsiString
import HMailServer.Lib.Occurrence
import HMailServer.Lib.LongestRun

/- The addresses of an SPF evaluation (`SMTP/SPF/SPFAddress.cpp`) and the check of their
   text (`SMTP/SPF/SPFSyntax.cpp`). A 16-bit group is a natural number; an `int` that a
   hex group is read into is given by its 32 bits. -/
namespace HMailServer

namespace SPFSyntax

def isHexDigit (c : UInt8) : Bool :=
  AnsiString.isDigit c || (97 ≤ c && c ≤ 102) || (65 ≤ c && c ≤ 70)

/-- `Split`: one part more than there are separators. -/
def split (text : AnsiString) (separator : UInt8) : List AnsiString := text.splitOn separator

def isOctet (text : AnsiString) : Bool :=
  if text.length < 1 ∨ 3 < text.length then false
  else if !text.all AnsiString.isDigit then false
  else if 1 < text.length ∧ text.head? = some 48 then false
  else AnsiString.digitsValue text ≤ 255

def isHexGroup (text : AnsiString) : Bool :=
  if text.length < 1 ∨ 4 < text.length then false else text.all isHexDigit

def isValidIP4Network (text : AnsiString) : Bool :=
  let octets := split text 46
  if octets.length ≠ 4 then false else octets.all isOctet

/-- The groups of one side of a `::`; an empty side has none. -/
def writtenGroups (side : AnsiString) : List AnsiString := if side.isEmpty then [] else split side 58

/-- The loop over the groups as written: how many groups they stand for, or that one of
    them is none. -/
def countGroups : Nat → List AnsiString → Option Nat
  | written, [] => some written
  | written, group :: rest =>
    if rest.isEmpty ∧ 46 ∈ group then
      if isValidIP4Network group then countGroups (written + 2) rest else none
    else if isHexGroup group then countGroups (written + 1) rest
    else none

def isValidIP6Network (text : AnsiString) : Bool :=
  match Occurrence.find (ansi "::") text with
  | some doubleColon =>
    let before := text.take doubleColon
    let after := text.drop (doubleColon + 2)
    if (Occurrence.find (ansi "::") after).isSome then false
    else match countGroups 0 (writtenGroups before ++ writtenGroups after) with
      | some written => written ≤ 7
      | none => false
  | none =>
    match countGroups 0 (writtenGroups text) with
    | some written => written = 8
    | none => false

end SPFSyntax

inductive SPFAddress.Family where
  | none
  | ip4
  | ip6
  deriving DecidableEq

/-- Network order: four bytes for IPv4, sixteen for IPv6, the rest zero. -/
structure SPFAddress where
  family : SPFAddress.Family
  bytes : Fin 16 → UInt8
  rest_zero : (family = .none → ∀ i, bytes i = 0) ∧ (family = .ip4 → ∀ i : Fin 16, 4 ≤ i.val → bytes i = 0)
  deriving DecidableEq

namespace SPFAddress
open SPFSyntax

/-! ## Reading -/

def hexValue (c : UInt8) : Nat :=
  if 48 ≤ c ∧ c ≤ 57 then c.toNat - 48
  else if 97 ≤ c ∧ c ≤ 102 then c.toNat - 97 + 10
  else if 65 ≤ c ∧ c ≤ 70 then c.toNat - 65 + 10
  else 4294967295

/-- The four octets of a dotted quad. -/
def readIP4 (text : AnsiString) (i : Fin 4) : UInt8 :=
  match (split text 46)[i.val]? with
  | some octet => UInt8.ofNat (AnsiString.digitsValue octet)
  | none => 0

/-- A group that is no dotted quad. -/
def readHexGroup (group : AnsiString) : Nat :=
  group.foldl (fun value c => (value <<< 4 ||| hexValue c) % 4294967296) 0 % 65536

def readIP6Groups (side : AnsiString) : List Nat :=
  (writtenGroups side).flatMap fun group =>
    if 46 ∈ group then
      let quad := readIP4 group
      [(quad 0).toNat <<< 8 ||| (quad 1).toNat, (quad 2).toNat <<< 8 ||| (quad 3).toNat]
    else [readHexGroup group]

/-- One of the two bytes of a group. -/
def byteOf (group : Nat) (i : Nat) : UInt8 :=
  if i % 2 = 0 then UInt8.ofNat (group >>> 8) else UInt8.ofNat (group &&& 255)

/-- The bytes of the groups in front of the `::` and, over them, of those behind it. -/
def placeGroups (head tail : List Nat) (i : Fin 16) : UInt8 :=
  let offset := 8 - tail.length
  if offset ≤ i.val / 2 then byteOf (tail.getD (i.val / 2 - offset) 0) i
  else if i.val / 2 < head.length then byteOf (head.getD (i.val / 2) 0) i
  else 0

def readIP6 (text : AnsiString) : Option (Fin 16 → UInt8) :=
  match Occurrence.find (ansi "::") text with
  | some doubleColon =>
    let head := readIP6Groups (text.take doubleColon)
    let tail := readIP6Groups (text.drop (doubleColon + 2))
    if 8 < head.length + tail.length then none else some (placeGroups head tail)
  | none =>
    let head := readIP6Groups text
    if head.length ≠ 8 then none else some (placeGroups head [])

def isIP4Mapped (bytes : Fin 16 → UInt8) : Bool :=
  (∀ i : Fin 16, i.val < 10 → bytes i = 0) ∧ bytes 10 = 255 ∧ bytes 11 = 255

/-- An IPv4 address from its four octets. -/
def ofIP4 (quad : Fin 4 → UInt8) : SPFAddress where
  family := .ip4
  bytes := fun i => if h : i.val < 4 then quad ⟨i.val, h⟩ else 0
  rest_zero := ⟨nofun, fun _ i hi => dif_neg (by omega)⟩

def ofIP6 (bytes : Fin 16 → UInt8) : SPFAddress where
  family := .ip6
  bytes := bytes
  rest_zero := ⟨nofun, nofun⟩

/-- `TryParse`; a failure leaves the default address, which is of no family. -/
def tryParse (text : AnsiString) : Option SPFAddress :=
  if isValidIP4Network text then some (ofIP4 (readIP4 text))
  else if !isValidIP6Network text then none
  else match readIP6 text with
    | none => none
    | some bytes =>
      if isIP4Mapped bytes then some (ofIP4 fun i => bytes ⟨12 + i.val, by omega⟩)
      else some (ofIP6 bytes)

/-! ## Writing -/

/-- The digits of a number, the least significant one first, as many as the buffer holds. -/
def decimalDigits : Nat → Nat → AnsiString
  | 0, _ => []
  | room + 1, value =>
    UInt8.ofNat (48 + value % 10) :: if 0 < value / 10 then decimalDigits room (value / 10) else []

def toDecimal (value : Nat) : AnsiString := (decimalDigits 12 value).reverse

def lowerHexDigits : AnsiString := ansi "0123456789abcdef"

def writeGroup (group : Nat) : AnsiString :=
  [12, 8, 4, 0].foldl (fun text shift =>
    let nibble := group >>> shift &&& 15
    if nibble = 0 ∧ text.isEmpty ∧ 0 < shift then text else text ++ [lowerHexDigits.getD nibble 0]) []

def toDottedQuad (bytes : Fin 16 → UInt8) : AnsiString :=
  [46].intercalate ((List.ofFn fun i : Fin 4 => bytes ⟨i.val, by omega⟩).map fun octet => toDecimal octet.toNat)

/-- The 16-bit groups of the address. -/
def groups (a : SPFAddress) : List Nat :=
  List.ofFn fun i : Fin 8 =>
    (a.bytes ⟨i.val * 2, by omega⟩).toNat <<< 8 ||| (a.bytes ⟨i.val * 2 + 1, by omega⟩).toNat

structure Run where
  bestStart : Nat
  bestLength : Nat

/-- The search for the longest run of zero groups from group `i` on; the loop's own step
    follows the `i += length - 1`. -/
def searchRun (groups : List Nat) : Nat → Nat → Run → Run
  | 0, _, best => best
  | fuel + 1, i, best =>
    if 8 ≤ i then best
    else if groups.getD i 0 ≠ 0 then searchRun groups fuel (i + 1) best
    else
      let length := LongestRun.runLength (· == 0) groups i
      searchRun groups fuel (i + length - 1 + 1)
        (if best.bestLength < length then ⟨i, length⟩ else best)

/-- The groups of one side, with a colon between them. -/
def writeSide (groups : List Nat) : AnsiString := [58].intercalate (groups.map writeGroup)

def getReadableForm (a : SPFAddress) : AnsiString :=
  match a.family with
  | .ip4 => toDottedQuad a.bytes
  | .none => []
  | .ip6 =>
    let best := searchRun a.groups 8 0 ⟨0, 0⟩
    if best.bestLength < 2 then writeSide a.groups
    else
      writeSide (a.groups.take best.bestStart) ++ ansi "::" ++
        writeSide (a.groups.drop (best.bestStart + best.bestLength))

/-! ## Comparing -/

def getBitCount (a : SPFAddress) : Int :=
  match a.family with
  | .ip4 => 32
  | .ip6 => 128
  | .none => 0

def matchesPrefix (a other : SPFAddress) (prefixLength : Int) : Bool :=
  if a.family = .none ∨ a.family ≠ other.family then false
  else if prefixLength < 0 ∨ a.getBitCount < prefixLength then false
  else
    let wholeBytes := prefixLength.toNat / 8
    let remainingBits := prefixLength.toNat % 8
    if ¬∀ i : Fin 16, i.val < wholeBytes → a.bytes i = other.bytes i then false
    else if remainingBits = 0 then true
    else
      let mask := UInt8.ofNat (255 <<< (8 - remainingBits))
      ∀ i : Fin 16, i.val = wholeBytes → a.bytes i &&& mask = other.bytes i &&& mask

def equals (a other : SPFAddress) : Bool := a.matchesPrefix other a.getBitCount

end SPFAddress

end HMailServer
