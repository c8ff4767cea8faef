import HMailServer.Sieve.VacationTracker

/- The seen-store of the duplicate test (`Common/Sieve/SieveDuplicateTracker.cpp`).
   Its file format and what it uses of the file system are those of the vacation
   store; it fails in the other direction. -/
namespace HMailServer
open Cut VacationTracker

/-- The UTF-8 form of a text, which ends at its first NUL, and its digest. -/
structure DuplicateEnvironment extends VacationEnvironment where
  toMultiByte : WString → AnsiString
  sha256 : AnsiString → AnsiString
  sha256_wellFormed : ∀ bytes, isWellFormedKey (sha256 bytes) = true
  hexDigest_eq : ∀ input, hexDigest input = sha256 (toMultiByte input)

def DuplicateEnvironment.getDuplicateStorePath (env : DuplicateEnvironment) (accountAddress : WString) : WString :=
  combine env.pathSeparator (env.getAccountDirectory accountAddress) (wide "duplicate.seen")

namespace DuplicateTracker

def storeHeaderLine : AnsiString := ansi "# hMailServer Sieve duplicate tracking, format 1"
def maxLiveRecords : Nat := 10000
def maxStoreBytes : Nat := 1024 * 1024
def maxWindowSeconds : Nat := 36500 * 86400

variable (env : DuplicateEnvironment)

/-- The text whose digest tells two messages apart. -/
def keyText (identifier handle : WString) : AnsiString := env.toMultiByte (identifier ++ 10 :: handle)

def keyFor (identifier handle : WString) : AnsiString := env.hexDigest (identifier ++ 10 :: handle)

/-- The record lines behind the header; the flag tells that some were expired. -/
def loadLines (now : Nat) : Nat → List AnsiString → Option (List Record × Bool)
  | _, [] => some ([], false)
  | recordLines, line :: rest =>
    if line = [] ∨ line.head? = some 35 then loadLines now recordLines rest
    else if maxLiveRecords < recordLines + 1 then none
    else match cut 32 line with
      | none => none
      | some (expiryText, key) =>
        if expiryText = [] then none
        else if !isAsciiInt64 expiryText || !isWellFormedKey key then none
        else match loadLines now (recordLines + 1) rest with
          | none => none
          | some (records, prunedAny) =>
            if atoi64 expiryText ≤ now then some (records, true)
            else some (⟨atoi64 expiryText, key⟩ :: records, prunedAny)

/-- The text of a store. -/
def loadContent (now : Nat) (content : AnsiString) : Option (List Record × Bool) :=
  if content = [] then none
  else match splitLines content (maxLiveRecords + 2) with
    | none => none
    | some [] => none
    | some (header :: lines) => if header ≠ storeHeaderLine then none else loadLines now 0 lines

/-- `none` where the source answers false or throws. -/
def load (io : FileOutcomes) (disk : Disk) (path : WString) (now : Nat) : Option (List Record × Bool) :=
  if !fileExists io disk path then some ([], false)
  else if maxStoreBytes < fileSize io disk path then none
  else match readCompleteTextFile env.toVacationEnvironment io disk path with
    | none => none
    | some content => loadContent now content

def storeContent (records : List Record) : AnsiString :=
  storeHeaderLine ++ [13, 10] ++ records.flatMap recordLine

def save (io : FileOutcomes) (disk : Disk) (path : WString) (records : List Record) : Disk × SaveResult :=
  if maxLiveRecords < records.length then (disk, .failed)
  else if io.directoryFails then (disk, .failed)
  else match writeToFile io disk (temporaryPath path) (storeContent records) with
    | (disk, false) => (deleteFile io disk (temporaryPath path), .failed)
    | (disk, true) =>
      if io.processStops then (disk, .stopped)
      else match move io disk (temporaryPath path) path with
        | (disk, false) => (deleteFile io disk (temporaryPath path), .failed)
        | (disk, true) => (disk, .saved)

/-- One call of `CheckAndRecord`, at the time `now`. The sum with the window is
    computed in 64 bits. -/
structure Call where
  accountAddress : WString
  identifier : WString
  handle : WString
  windowSeconds : Int
  refreshOnSeen : Bool
  now : Nat
  io : FileOutcomes
  now_lt : now + maxWindowSeconds < 2 ^ 63

/-- The window, held between a second and a century. -/
def Call.window (c : Call) : Nat :=
  if c.windowSeconds < 1 then 1
  else if (maxWindowSeconds : Int) < c.windowSeconds then maxWindowSeconds
  else c.windowSeconds.toNat

/-- What a call did. `recorded` is not in the source: the store was written with
    this call's time and window for its key. The answer is `none` where the
    process stopped. -/
structure Outcome where
  disk : Disk
  answer : Option Bool
  recorded : Bool := false

/-- The write of the store, whose answer is ignored; a stop is not. `mine` tells
    that the records have this call's one among them. -/
def saved (io : FileOutcomes) (disk : Disk) (path : WString) (records : List Record) (answer mine : Bool) : Outcome :=
  match save io disk path records with
  | (disk, .saved) => { disk, answer := some answer, recorded := mine }
  | (disk, .failed) => { disk, answer := some answer }
  | (disk, .stopped) => { disk, answer := none }

/-- The first record of the key expires at another time. -/
def refresh (key : AnsiString) (expires : Nat) : List Record → List Record
  | [] => []
  | record :: records =>
    if record.key = key then { record with expires } :: records else record :: refresh key expires records

def checkAndRecord (disk : Disk) (c : Call) : Outcome :=
  if c.identifier = [] then { disk, answer := some false }
  else
    let path := env.getDuplicateStorePath c.accountAddress
    let key := keyFor env c.identifier c.handle
    match load env c.io disk path c.now with
    | none => { disk, answer := some false }
    | some (records, prunedAny) =>
      if records.any fun record => record.key == key then
        if c.refreshOnSeen then saved c.io disk path (refresh key (c.now + c.window) records) true true
        else if prunedAny then saved c.io disk path records true false
        else { disk, answer := some true }
      else if maxLiveRecords ≤ records.length then
        if prunedAny then saved c.io disk path records false false else { disk, answer := some false }
      else saved c.io disk path (records ++ [⟨c.now + c.window, key⟩]) false true

/-- The file system after a sequence of calls. -/
def run (disk : Disk) : List Call → Disk
  | [] => disk
  | c :: calls => run (checkAndRecord env disk c).disk calls

end DuplicateTracker
end HMailServer
