import HMailServer.Imap.FolderView
import HMailServer.Util.WideString

/- Sequence sets: `IMAPCommandRangeAction::ResolveTargets_`
   (`IMAP/IMAPCommandRangeAction.cpp`) and the lookups of the view it uses, and
   what a set means by RFC 3501, section 9. -/
namespace HMailServer
open SequenceDeletion

/-- The C runtime the server is built with. -/
inductive CRuntime where
  | windows
  /-- Where `long` has 64 bits. -/
  | posix
  deriving DecidableEq

/-- `_ttoi`: held at the ends of `int`, or `wcstol` cut down to an `int`. -/
def CRuntime.ttoi (runtime : CRuntime) (s : WString) : Int :=
  match runtime with
  | .windows => WString.ttoi 32 s
  | .posix => (WString.ttoi 64 s).bmod 4294967296

namespace IMAPFolderView

variable (v : IMAPFolderView)

def getMessageCount : Int := v.entries.length

def getHighestUID : Nat := v.entries.getLast?.elim 0 IMAPViewEntry.uid

def getEntryBySequence (sequence : Int) : Option IMAPViewEntry :=
  if sequence < 1 ∨ sequence > v.entries.length then none else v.entries[(sequence - 1).toNat]?

def getEntryByUID (uid : Nat) : Option (Int × IMAPViewEntry) :=
  v.entries.zipIdx.findSome? fun (entry, i) => if entry.uid = uid then some ((i : Int) + 1, entry) else none

def getEntriesBySequenceRange (first last : Int) : List (Int × IMAPViewEntry) :=
  let first := if first < 1 then 1 else first
  let last := if last < 0 ∨ last > v.entries.length then (v.entries.length : Int) else last
  (List.range (last + 1 - first).toNat).filterMap fun (i : Nat) =>
    (v.entries[(first + (i : Int) - 1).toNat]?).map fun entry => (first + (i : Int), entry)

def getEntriesByUIDRange (first last : Nat) : List (Int × IMAPViewEntry) :=
  v.entries.zipIdx.filterMap fun (entry, i) =>
    if entry.uid < first ∨ entry.uid > last then none else some ((i : Int) + 1, entry)

/-! ## Resolving a set -/

/-- An `int` as an `unsigned int`. -/
def unsigned (n : Int) : Nat := (n % 4294967296).toNat

/-- One turn of the loop of `ResolveTargets_` in a UID command. -/
def resolveUIDs (runtime : CRuntime) (sCur sFirstPart sSecondPart : WString) (isRange : Bool) :
    List (Int × IMAPViewEntry) :=
  let highestUid := v.getHighestUID
  let firstIsStar := sFirstPart == wide "*"
  let secondIsStar := sSecondPart == wide "*"
  if (firstIsStar || secondIsStar) && highestUid == 0 then []
  else if isRange then
    let startUid := if firstIsStar then highestUid else unsigned (runtime.ttoi sFirstPart)
    let endUid := if secondIsStar then 0xFFFFFFFF else unsigned (runtime.ttoi sSecondPart)
    if endUid < startUid then v.getEntriesByUIDRange endUid startUid else v.getEntriesByUIDRange startUid endUid
  else
    let uid := if firstIsStar then highestUid else unsigned (runtime.ttoi sCur)
    if uid = 0 then [] else (v.getEntryByUID uid).toList

/-- The same for sequence numbers. -/
def resolveSequences (runtime : CRuntime) (sCur sFirstPart sSecondPart : WString) (isRange : Bool) :
    List (Int × IMAPViewEntry) :=
  let messageCount := v.getMessageCount
  let firstIsStar := sFirstPart == wide "*"
  let secondIsStar := sSecondPart == wide "*"
  if isRange then
    let startIndex := if firstIsStar then messageCount else runtime.ttoi sFirstPart
    let endIndex := if secondIsStar then messageCount else runtime.ttoi sSecondPart
    if endIndex < startIndex then v.getEntriesBySequenceRange endIndex startIndex
    else v.getEntriesBySequenceRange startIndex endIndex
  else
    let sequence := if firstIsStar then messageCount else runtime.ttoi sCur
    if sequence ≤ 0 then [] else ((v.getEntryBySequence sequence).map (sequence, ·)).toList

/-- `ResolveTargets_`. -/
def resolveTargets (runtime : CRuntime) (isUid : Bool) (sMailNos : WString) : List (Int × IMAPViewEntry) :=
  (WString.splitString sMailNos 44).flatMap fun sCur =>
    let colon := WString.findFrom sCur 58 0
    let sFirstPart := colon.elim sCur fun lColonPos => sCur.take lColonPos
    let sSecondPart := colon.elim sCur fun lColonPos => sCur.drop (lColonPos + 1)
    if isUid then v.resolveUIDs runtime sCur sFirstPart sSecondPart colon.isSome
    else v.resolveSequences runtime sCur sFirstPart sSecondPart colon.isSome

end IMAPFolderView

/-! ## What a set means -/

/-- `seq-number`: a non-zero number of 32 bits, or `*`. -/
inductive SeqNumber where
  | number (n : Nat) (valid : 0 < n ∧ n < 4294967296)
  | star

/-- A member of a `sequence-set`: one number, or a range in either order. -/
inductive SeqPart where
  | one (x : SeqNumber)
  | range (x y : SeqNumber)

/-- The text of a number is its decimal digits. -/
def SeqNumber.text : SeqNumber → WString
  | .number n _ => (Nat.toDigits 10 n).map Char.toNat
  | .star => wide "*"

def SeqPart.text : SeqPart → WString
  | .one x => x.text
  | .range x y => x.text ++ 58 :: y.text

def setText (set : List SeqPart) : WString := List.intercalate [44] (set.map SeqPart.text)

/-- The number, with `*` read as `top`. -/
def SeqNumber.value (top : Nat) : SeqNumber → Nat
  | .number n _ => n
  | .star => top

/-- The number `u` is named by the part. -/
def SeqPart.Names (top u : Nat) : SeqPart → Prop
  | .one x => u = x.value top
  | .range x y => min (x.value top) (y.value top) ≤ u ∧ u ≤ max (x.value top) (y.value top)

namespace IMAPFolderView

variable (v : IMAPFolderView)

/-- The number a message is addressed by: its UID or its position. -/
def address (isUid : Bool) (i : Nat) (entry : IMAPViewEntry) : Nat := if isUid then entry.uid else i + 1

/-- What `*` stands for: the largest UID, or the number of messages. -/
def top (isUid : Bool) : Nat := if isUid then (v.entries.map IMAPViewEntry.uid).max?.getD 0 else v.entries.length

/-- The targets are the messages the set names, each with its sequence number. -/
def NamedBy (isUid : Bool) (set : List SeqPart) (targets : List (Int × IMAPViewEntry)) : Prop :=
  ∀ sequence entry, (sequence, entry) ∈ targets ↔
    ∃ i : Nat, sequence = i + 1 ∧ v.entries[i]? = some entry ∧
      ∃ part ∈ set, part.Names (v.top isUid) (address isUid i entry)

/-- UIDs are numbers of 32 bits, not zero, and strictly increasing. -/
structure Ordered : Prop where
  increasing : v.entries.Pairwise fun a b => a.uid < b.uid
  valid : ∀ entry ∈ v.entries, 0 < entry.uid ∧ entry.uid < 4294967296

end IMAPFolderView
end HMailServer
