import HMailServer.Imap.MessageFlags
import HMailServer.Lib.Occurrence

/- STORE on one message: `IMAP/IMAPStore.cpp`, `FolderManager::UpdateMessageFlags`
   and `PersistentMessage::SaveFlags`. The message is the live one that all
   sessions see; the row is what `hm_messages` holds of it. -/
namespace HMailServer.IMAPStore

open WString

/-- What STORE reads and writes of a message. -/
structure Message where
  uid : Nat := 0
  flags : BitVec 16 := 0
  keywords : Keywords := {}
  modSeq : Int := 0

structure Row where
  flags : BitVec 16
  keywords : WString
  modSeq : Int
  deriving DecidableEq

def Message.row (m : Message) : Row := ⟨m.flags, m.keywords.text, m.modSeq⟩

inductive ACLPermission where
  | writeSeen
  | writeDeleted
  | writeOthers
  deriving DecidableEq

/-- What STORE reads of the connection. -/
structure Connection where
  currentFolderReadOnly : Bool := false
  condstoreEnabled : Bool := false
  checkPermission : ACLPermission → Bool := fun _ => true

/-- How the UPDATE of the row ends; one that fails may have been carried out. -/
inductive Execution where
  | done
  | failed
  | failedAfterUpdate
  deriving DecidableEq

/-- What the database and the folder list answer. -/
structure Environment where
  /-- The folder and the message in it are found. -/
  messageFound : Bool := true
  /-- `GetNextModSeq`, zero when it fails. -/
  nextModSeq : Int := 0
  execute : Execution := .done

/-- The fields of `IMAPStore`. -/
structure Store where
  isUID : Bool := false
  modifierParsed : Bool := false
  hasUnchangedSince : Bool := false
  unchangedSince : Int := 0
  modified : List Nat := []

inductive IMAPResult where
  | ok
  | no (text : WString)
  | bad (text : WString)
  deriving DecidableEq

/-- The untagged responses. -/
inductive Untagged where
  | flags (messageIndex : Nat) (flags : List WString) (uid : Nat) (modSeq : Option Int)
  | modSeq (messageIndex : Nat) (uid : Nat) (modSeq : Int)
  deriving DecidableEq

/-! ## Reading the argument -/

/-- `FindNoCase`; `none` is -1. -/
def findNoCase (loc : Locale) (s sub : WString) : Option Nat :=
  Occurrence.find (makeLower loc (cstr sub)) (makeLower loc (cstr s))

/-- `SieveParser::IsValidFlagName`. -/
def isValidFlagName (flag : WString) : Bool :=
  match flag with
  | [] => false
  | 92 :: _ =>
    [wide "\\Seen", wide "\\Answered", wide "\\Flagged", wide "\\Deleted", wide "\\Draft"].any fun name =>
      equalsNoCase flag name
  -- the parentheses, brackets and braces, %, *, the double quote and the backslash
  | _ => flag.all fun ch => 32 < ch && ch < 127 && decide (ch ∉ [40, 41, 123, 125, 91, 93, 37, 42, 34, 92])

def parseModifier (loc : Locale) (store : Store) (command : WString) : Store :=
  match findNoCase loc command (wide "UNCHANGEDSINCE") with
  | none => { store with modifierParsed := true }
  | some pos =>
    { store with
      modifierParsed := true
      unchangedSince := ttoi 64 ((command.drop (pos + 14)).dropWhile loc.isSpace)
      hasUnchangedSince := true }

/-- Whether the command lists the flag. -/
def listsFlag (loc : Locale) (command : WString) : SystemFlag → Bool
  | .seen => (findNoCase loc command (wide "\\Seen")).isSome
  | .deleted => (findNoCase loc command (wide "\\Deleted")).isSome
  | .draft => (findNoCase loc command (wide "\\Draft")).isSome
  | .answered => (findNoCase loc command (wide "\\Answered")).isSome
  | .flagged => (findNoCase loc command (wide "\\Flagged")).isSome

/-- The atoms of the flag list that are no system flags. -/
def readAtoms (loc : Locale) : List WString → Except WString (List WString)
  | [] => .ok []
  | atom :: atoms =>
    if trim loc atom = [] ∨ (trim loc atom).head? = some 92 then readAtoms loc atoms
    else if isValidFlagName (trim loc atom) = false then .error (wide "Invalid keyword: " ++ trim loc atom)
    else (readAtoms loc atoms).map (trim loc atom :: ·)

/-- What follows FLAGS or FLAGS.SILENT, without its blanks. -/
def flagList (loc : Locale) (command : WString) (pos : Nat) : WString :=
  let rest := command.drop (pos + 5)
  trim loc (if findNoCase loc rest (wide ".SILENT") = some 0 then rest.drop 7 else rest)

def readFlagList (loc : Locale) (rest : WString) : Except WString (List WString) :=
  if rest.head? = some 40 ∧ rest.getLast? ≠ some 41 then .error (wide "Unbalanced flag list")
  else
    let rest := if rest.head? = some 40 then mid rest 1 (rest.length - 2) else rest
    if 40 ∈ rest ∨ 41 ∈ rest then .error (wide "Invalid keyword: a flag is an atom")
    else readAtoms loc (splitString rest 32)

def keywordsGiven (loc : Locale) (command : WString) : Except WString (List WString) :=
  match findNoCase loc command (wide "FLAGS") with
  | none => .ok []
  | some pos => readFlagList loc (flagList loc command pos)

/-- The refusals for a right that is missing, in their order. -/
def checkPermissions (connection : Connection) (lists : SystemFlag → Bool) (keywords : List WString) : Option WString :=
  if keywords ≠ [] ∧ connection.checkPermission .writeOthers = false then
    some (wide "ACL: WriteOthers permission denied (Required for STORE command).")
  else if lists .seen = true ∧ connection.checkPermission .writeSeen = false then
    some (wide "ACL: WriteSeen permission denied (Required for STORE command).")
  else if lists .deleted = true ∧ connection.checkPermission .writeDeleted = false then
    some (wide "ACL: DeleteMessages permission denied (Required for STORE command).")
  else if (lists .draft = true ∨ lists .answered = true ∨ lists .flagged = true) ∧
      connection.checkPermission .writeOthers = false then
    some (wide "ACL: WriteOthers permission denied (Required for STORE command).")
  else none

/-! ## Editing the message -/

/-- The flags in the order in which they are edited. -/
def editOrder : List SystemFlag := [.seen, .deleted, .draft, .answered, .flagged]

/-- Each listed flag is set to `set`. -/
def editFlags (lists : SystemFlag → Bool) (set : Bool) (flags : BitVec 16) : BitVec 16 :=
  editOrder.foldl (fun flags flag => if lists flag then setFlag flags flag set else flags) flags

/-- Each flag is set as the command lists it. -/
def replaceFlags (lists : SystemFlag → Bool) (flags : BitVec 16) : BitVec 16 :=
  editOrder.foldl (fun flags flag => setFlag flags flag (lists flag)) flags

/-- Adds up to the first keyword that does not fit. -/
def addKeywords (keywords : Keywords) : List WString → Bool × Keywords
  | [] => (true, keywords)
  | keyword :: rest =>
    if (addKeyword keywords keyword).1 then addKeywords (addKeyword keywords keyword).2 rest
    else (false, (addKeyword keywords keyword).2)

/-- The edits in memory; `false` when a keyword does not fit. -/
def edit (loc : Locale) (connection : Connection) (command : WString) (keywords : List WString) (m : Message) :
    Bool × Message :=
  let lists := listsFlag loc command
  if (findNoCase loc command (wide "-FLAGS")).isSome then
    (true, { m with
      flags := editFlags lists false m.flags
      keywords := keywords.foldl removeKeyword m.keywords })
  else if (findNoCase loc command (wide "+FLAGS")).isSome then
    ((addKeywords m.keywords keywords).1, { m with
      flags := editFlags lists true m.flags
      keywords := (addKeywords m.keywords keywords).2 })
  else if (findNoCase loc command (wide "FLAGS")).isSome then
    (true, { m with
      flags := replaceFlags lists m.flags
      keywords := if connection.checkPermission .writeOthers then setKeywordList keywords else m.keywords })
  else (true, m)

/-! ## Saving it -/

/-- `PersistentMessage::SaveFlags`. -/
def saveFlags (env : Environment) (m : Message) (row : Row) : Bool × Message × Row :=
  let m := if 0 < env.nextModSeq then { m with modSeq := env.nextModSeq } else m
  match env.execute with
  | .done => (true, m, m.row)
  | .failed => (false, m, row)
  | .failedAfterUpdate => (false, m, m.row)

/-- `FolderManager::UpdateMessageFlags`, which finds the same live message. -/
def updateMessageFlags (env : Environment) (m : Message) (row : Row) : Bool × Message × Row :=
  if env.messageFound then saveFlags env m row else (false, m, row)

/-! ## The action -/

/-- What `DoAction` answers and leaves. -/
structure Answer where
  result : IMAPResult
  message : Message
  row : Row
  store : Store
  sent : List Untagged := []

def flagNames (m : Message) : List WString :=
  ([(.deleted, wide "\\Deleted"), (.answered, wide "\\Answered"), (.flagged, wide "\\Flagged"), (.draft, wide "\\Draft"),
      (.seen, wide "\\Seen")].filter fun entry => getFlag m.flags entry.1).map (·.2)

/-- `GetMessageFlags`. -/
def getMessageFlags (m : Message) (messageIndex : Nat) (includeModSeq : Bool) : Untagged :=
  .flags messageIndex (flagNames m ++ getKeywordList m.keywords.text) m.uid (if includeModSeq then some m.modSeq else none)

/-- The part of `DoAction` behind the reading of the argument. -/
def apply (loc : Locale) (env : Environment) (connection : Connection) (store : Store) (messageIndex : Nat) (m : Message)
    (row : Row) (command : WString) (keywords : List WString) : Answer :=
  let includeModSeq := connection.condstoreEnabled || store.hasUnchangedSince
  let edited := edit loc connection command keywords m
  if edited.1 = false then ⟨.no (wide "Too many keywords on the message."), edited.2, row, store, []⟩
  else
    let saved := updateMessageFlags env edited.2 row
    if saved.1 = false then ⟨.no (wide "Unable to store message flags."), saved.2.1, saved.2.2, store, []⟩
    else if (findNoCase loc command (wide "FLAGS.SILENT")).isSome then
      ⟨.ok, saved.2.1, saved.2.2, store, if includeModSeq then [.modSeq messageIndex m.uid saved.2.1.modSeq] else []⟩
    else ⟨.ok, saved.2.1, saved.2.2, store, [getMessageFlags saved.2.1 messageIndex includeModSeq]⟩

def doAction (loc : Locale) (env : Environment) (connection : Connection) (store : Store) (messageIndex : Nat)
    (m : Message) (row : Row) (command : WString) : Answer :=
  if connection.currentFolderReadOnly then
    ⟨.no (wide "Store command on read-only folder."), m, row, store, []⟩
  else
    let store := if store.modifierParsed then store else parseModifier loc store command
    if store.hasUnchangedSince = true ∧ store.unchangedSince < m.modSeq then
      -- changed since: left as it is
      ⟨.ok, m, row, { store with modified := store.modified ++ [if store.isUID then m.uid else messageIndex] }, []⟩
    else
      match keywordsGiven loc command with
      | .error text => ⟨.bad text, m, row, store, []⟩
      | .ok keywords =>
        match checkPermissions connection (listsFlag loc command) keywords with
        | some text => ⟨.no text, m, row, store, []⟩
        | none => apply loc env connection store messageIndex m row command keywords

end HMailServer.IMAPStore
