import HMailServer.Lib.SequenceDeletion

/- A session's view of its selected mailbox (`IMAP/IMAPFolderView.cpp`): the
   mapping between message sequence numbers and messages. A map or set of the
   source is a partial function or a list; the mutex is left out, every operation
   taking it for its whole run. Reading an entry out of range is `none`. -/
namespace HMailServer
open SequenceDeletion

structure IMAPViewEntry where
  messageId : Int
  uid : Nat
  deriving DecidableEq, Repr

/-- What `GetSnapshot` hands over, `none` being a null collection or message. -/
abbrev Snapshot := Option (List (Option IMAPViewEntry))

structure IMAPFolderView where
  entries : List IMAPViewEntry := []
  offsetByMessageId : Int → Option Nat := fun _ => none
  vanished : List Int := []
  highestUidSeen : Nat := 0

namespace IMAPFolderView

/-- The loop of `AppendNewMessages` for one message, and its count. -/
def appendMessage (s : IMAPFolderView × Nat) : Option IMAPViewEntry → IMAPFolderView × Nat
  | none => s
  | some message =>
    if message.uid ≤ s.1.highestUidSeen then s
    else
      ({ s.1 with
          entries := s.1.entries ++ [message]
          offsetByMessageId := fun id =>
            if id = message.messageId then some s.1.entries.length else s.1.offsetByMessageId id
          highestUidSeen := message.uid }, s.2 + 1)

def appendNewMessages (v : IMAPFolderView) (messages : Snapshot) : IMAPFolderView × Nat :=
  match messages with
  | none => (v, 0)
  | some snapshot => snapshot.foldl appendMessage (v, 0)

/-- `Initialize`. -/
def initializeView (v : IMAPFolderView) (messages : Snapshot) : IMAPFolderView :=
  (appendNewMessages
    { v with
      entries := []
      offsetByMessageId := fun _ => none
      vanished := []
      highestUidSeen := 0 } messages).1

/-- `Rebuild_`. -/
def rebuild (v : IMAPFolderView) : IMAPFolderView :=
  { v with
    offsetByMessageId := (v.entries.zipIdx.foldl
      (fun offsets e id => if id = e.1.messageId then some e.2 else offsets id) fun _ => none) }

/-- The first loop of `RemoveMessages`: the numbers, and the set of removed ids. -/
def collect (v : IMAPFolderView) (s : List Int × List Int) (messageId : Int) :
    List Int × List Int :=
  match v.offsetByMessageId messageId with
  | none => s
  | some offset =>
    if messageId ∈ s.2 then s else (s.1 ++ [(offset : Int) + 1], s.2 ++ [messageId])

/-- The UID of the entry with this number. -/
def uidAt (v : IMAPFolderView) (sequence : Int) : Option Nat :=
  (numbered v.entries sequence).map IMAPViewEntry.uid

/-- The UIDs of the entries that go, for a caller that asks for them. -/
def reportUids (v : IMAPFolderView) (sequences : List Int) : Option (List Nat) →
    Option (Option (List Nat))
  | none => some none
  | some _ => (sequences.mapM (uidAt v)).map some

/-- `RemoveMessages`. `removedUids` is the caller's vector, when there is one; it
is returned as the call leaves it. -/
def removeMessages (v : IMAPFolderView) (messageIds : List Int) (removedUids : Option (List Nat)) :
    Option (IMAPFolderView × List Int × Option (List Nat)) :=
  let collected := messageIds.foldl (collect v) ([], [])
  let removed := collected.2
  if removed.isEmpty then some (v, collected.1, removedUids)
  else
    let sequences := collected.1.mergeSort
    (reportUids v sequences removedUids).map fun removedUids =>
      (rebuild { v with
          entries := v.entries.filter fun entry => entry.messageId ∉ removed
          vanished := v.vanished.filter fun messageId => messageId ∉ removed },
        sequences.zipIdx.map (fun s => s.1 - (s.2 : Int)), removedUids)

/-- `vanished_` is ordered, as `TakeVanished` hands it out. -/
def markVanished (v : IMAPFolderView) (messageId : Int) : IMAPFolderView :=
  if (v.offsetByMessageId messageId).isNone then v
  else if messageId ∈ v.vanished then v
  else { v with vanished := v.vanished.orderedInsert (· ≤ ·) messageId }

def takeVanished (v : IMAPFolderView) : IMAPFolderView × List Int :=
  ({ v with vanished := [] }, v.vanished)

/-! ## Runs -/

inductive Operation where
  | initializeView (messages : Snapshot)
  | appendNewMessages (messages : Snapshot)
  | removeMessages (messageIds : List Int) (removedUids : Option (List Nat))
  | markVanished (messageId : Int)
  | takeVanished

/-- What the caller gets. -/
inductive Reply where
  | nothing
  | added (count : Nat)
  | removed (sequences : List Int) (removedUids : Option (List Nat))
  | vanished (messageIds : List Int)

def step (v : IMAPFolderView) : Operation → Option (IMAPFolderView × Reply)
  | .initializeView messages => some (v.initializeView messages, .nothing)
  | .appendNewMessages messages =>
    some ((v.appendNewMessages messages).1, .added (v.appendNewMessages messages).2)
  | .removeMessages messageIds removedUids =>
    (v.removeMessages messageIds removedUids).map fun r => (r.1, .removed r.2.1 r.2.2)
  | .markVanished messageId => some (v.markVanished messageId, .nothing)
  | .takeVanished => some (v.takeVanished.1, .vanished v.takeVanished.2)

def run (v : IMAPFolderView) : List Operation → Option IMAPFolderView
  | [] => some v
  | op :: rest => (v.step op).bind fun r => run r.1 rest

end IMAPFolderView
end HMailServer
