import Mathlib

/- The expunge records of QRESYNC (`Common/Persistence/PersistentIMAPFolder.cpp`) and
   the part of `PersistentMessage::DeleteObject` that writes them. Every database
   statement may fail; a call comes with the outcomes of its statements. The two
   floating-point estimates of the pruning are parameters of the call. -/
namespace HMailServer
namespace PersistentIMAPFolder

/-- A row of `hm_messages`. -/
structure Message where
  id : Int
  accountID : Int
  folderID : Int
  uid : Int
  deriving DecidableEq, Repr

/-- A row of `hm_imapexpunged`. -/
structure Expunged where
  accountID : Int
  folderID : Int
  uid : Int
  modSeq : Int
  deriving DecidableEq, Repr

/-- The tables; `currentModSeq` is the column of the folder's row, if it has one. -/
structure Database where
  messages : List Message
  currentModSeq : Int → Option Int
  expunged : List Expunged

/-! ## Deleting a message -/

/-- The statements of a deletion that fail. -/
structure DeletionFaults where
  delete : Bool := false
  increase : Bool := false
  read : Bool := false
  insert : Bool := false
  deriving DecidableEq, Repr

/-- `IncreaseCurrentModSeq_`. -/
def increaseCurrentModSeq (db : Database) (folderID : Int) : Database :=
  { db with currentModSeq := fun id =>
      if id = folderID then (db.currentModSeq id).map (· + 1) else db.currentModSeq id }

/-- `GetCurrentModSeq_`. -/
def getCurrentModSeq (fails : Bool) (db : Database) (folderID : Int) : Int :=
  if folderID = 0 ∨ fails then 0 else (db.currentModSeq folderID).getD 0

/-- `GetNextModSeq`; zero when a statement fails. -/
def getNextModSeq (faults : DeletionFaults) (db : Database) (folderID : Int) : Database × Int :=
  if folderID = 0 then (db, 0)
  else if faults.increase then (db, 0)
  else (increaseCurrentModSeq db folderID, getCurrentModSeq faults.read (increaseCurrentModSeq db folderID) folderID)

/-- `AddExpunged`. -/
def addExpunged (fails : Bool) (db : Database) (accountID folderID uid modSeq : Int) : Database :=
  if folderID = 0 ∨ fails then db else { db with expunged := db.expunged ++ [⟨accountID, folderID, uid, modSeq⟩] }

/-- `PersistentMessage::DeleteObject`, as far as these tables go. -/
def deleteObject (faults : DeletionFaults) (db : Database) (message : Message) : Database :=
  if message.id ≤ 0 then db
  else if faults.delete then db
  else
    let db := { db with messages := db.messages.filter fun row => row.id ≠ message.id }
    if 0 < message.accountID ∧ 0 < message.folderID then
      let (db, modSeq) := getNextModSeq faults db message.folderID
      addExpunged faults.insert db message.accountID message.folderID message.uid modSeq
    else db

/-! ## What a client is told -/

/-- The records of a folder. -/
def recordsOf (db : Database) (folderID : Int) : List Expunged := db.expunged.filter fun row => row.folderID = folderID

/-- `GetExpungedUIDsSince`, of a table that can be read. -/
def getExpungedUIDsSince (db : Database) (folderID sinceModSeq : Int) : List Int :=
  if folderID = 0 then []
  else (((recordsOf db folderID).filter fun row => sinceModSeq < row.modSeq).map Expunged.uid).mergeSort (· ≤ ·)

/-- `MIN(expungedmodseq)`. -/
def lowestModSeq (db : Database) (folderID : Int) : Option Int := ((recordsOf db folderID).map Expunged.modSeq).min?

/-- `MAX(expungedmodseq)`. -/
def highestModSeq (db : Database) (folderID : Int) : Option Int := ((recordsOf db folderID).map Expunged.modSeq).max?

/-- `RemembersExpungesSince`, of a table that can be read. -/
def remembersExpungesSince (db : Database) (folderID sinceModSeq : Int) : Bool :=
  if folderID = 0 then true
  else
    match lowestModSeq db folderID with
    | none => true
    | some lowestRemembered => lowestRemembered - 1 ≤ sinceModSeq

/-! ## Pruning -/

/-- A call of `PruneExpungedForFolder`: its arguments, what its two floating-point
estimates come to, and the statements that fail. -/
structure PruneCall where
  folderID : Int
  recordCount : Int
  keepRecords : Int
  batchRecords : Int
  cutoffEstimate : Int
  sliceEstimate : Int
  boundsFails : Bool := false
  survivorsFails : Nat → Bool := fun _ => false
  sliceFails : Nat → Bool := fun _ => false
  remainingFails : Bool := false

/-- The records from `cutoff` on. -/
def survivors (db : Database) (folderID cutoff : Int) : Int :=
  ((recordsOf db folderID).filter fun row => cutoff ≤ row.modSeq).length

/-- One step of the cutoff back towards the oldest record. -/
def lowerCutoff (lowest cutoff : Int) : Int := cutoff - ((cutoff - lowest) / 2 + 1)

/-- The loop that walks the cutoff back, with so many attempts left; `none` when its
count cannot be read. -/
def walkBack (call : PruneCall) (db : Database) (lowest : Int) : Nat → Nat → Int → Option Int
  | 0, _, cutoff => some cutoff
  | left + 1, attempt, cutoff =>
    if cutoff ≤ lowest then some cutoff
    else if call.survivorsFails attempt then none
    else if call.keepRecords ≤ survivors db call.folderID cutoff then some cutoff
    else walkBack call db lowest left (attempt + 1) (lowerCutoff lowest cutoff)

/-- The delete of one slice. -/
def deleteBelow (db : Database) (folderID boundary : Int) : Database :=
  { db with expunged := db.expunged.filter fun row => ¬(row.folderID = folderID ∧ row.modSeq < boundary) }

/-- The loop over the slices, with so many batches left. -/
def deleteSlices (call : PruneCall) (sliceWidth cutoff : Int) : Nat → Nat → Int → Database → Database
  | 0, _, _, db => db
  | left + 1, batch, boundary, db =>
    if cutoff ≤ boundary then db
    else
      let boundary := min (boundary + sliceWidth) cutoff
      if call.sliceFails batch then db
      else deleteSlices call sliceWidth cutoff left (batch + 1) boundary (deleteBelow db call.folderID boundary)

def maxAttempts : Nat := 4
def maxBatches : Nat := 64

/-- `PruneExpungedForFolder`: the database, and the number it answers. -/
def pruneExpungedForFolder (call : PruneCall) (db : Database) : Database × Int :=
  if call.folderID ≤ 0 ∨ call.keepRecords ≤ 0 ∨ call.batchRecords ≤ 0 then (db, 0)
  else if call.recordCount ≤ call.keepRecords then (db, 0)
  else if call.boundsFails then (db, 0)
  else
    let total : Int := (recordsOf db call.folderID).length
    if total ≤ call.keepRecords then (db, 0)
    else
      match lowestModSeq db call.folderID, highestModSeq db call.folderID with
      | some lowest, some highest =>
        if highest ≤ lowest then (db, 0)
        else
          let cutoff := min call.cutoffEstimate highest
          if cutoff ≤ lowest then (db, 0)
          else
            match walkBack call db lowest maxAttempts 0 cutoff with
            | none => (db, 0)
            | some cutoff =>
              if cutoff ≤ lowest then (db, 0)
              else
                let sliceWidth := min (max call.sliceEstimate 1) (highest - lowest + 1)
                let db := deleteSlices call sliceWidth cutoff maxBatches 0 lowest db
                if call.remainingFails then (db, 0)
                else (db, max (total - (recordsOf db call.folderID).length) 0)
      | _, _ => (db, 0)

end PersistentIMAPFolder
end HMailServer
