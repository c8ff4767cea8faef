import HMailServer.Util.WideString
import HMailServer.Util.AnsiString
import HMailServer.Lib.Cut

/- The response-tracking store of the vacation action
   (`Common/Sieve/SieveVacationTracker.cpp`, with what it uses of
   `FileUtilities.cpp` and `File.cpp`). The file system is a map from paths to
   contents. What each call to it answers in one `ClaimResponse` is an
   argument, so that any of them may fail. -/
namespace HMailServer
open Cut

/-- The locale and path separator, the account directories, the digest of the
    UTF-8 form of a text, and the decoders for files that start with a byte
    order mark. -/
structure VacationEnvironment where
  loc : Locale
  pathSeparator : WChar
  getAccountDirectory : WString → WString
  hexDigest : WString → AnsiString
  utf8Text : AnsiString → AnsiString
  utf16Text : AnsiString → AnsiString

/-- `FileUtilities::Combine`. -/
def combine (pathSeparator : WChar) (path1 path2 : WString) : WString :=
  let firstHalf := if path1.getLast? = some 92 ∨ path1.getLast? = some 47 then path1.dropLast else path1
  let secondHalf := if path2.head? = some 92 ∨ path2.head? = some 47 then path2.tail else path2
  firstHalf ++ pathSeparator :: secondHalf

def VacationEnvironment.getVacationStorePath (env : VacationEnvironment) (accountAddress : WString) : WString :=
  combine env.pathSeparator (env.getAccountDirectory accountAddress) (wide "vacation.responses")

abbrev Disk := WString → Option AnsiString

/-- How the calls to the file system go during one `ClaimResponse`. -/
structure FileOutcomes where
  existsFails : Bool := false
  fileSizeFails : Bool := false
  openFails : Bool := false
  getSizeFails : Bool := false
  -- `fread` reports an error: `ReadChunk` throws
  readFails : Bool := false
  -- neither is the directory there nor can it be made
  directoryFails : Bool := false
  openTemporaryFails : Bool := false
  -- `fwrite` stops after so many bytes
  writeStops : Option Nat := none
  -- `fclose` flushes only so many bytes; `Close` drops its answer
  closeStops : Option Nat := none
  -- the process stops between the temporary write and the rename
  processStops : Bool := false
  moveFails : Bool := false
  deleteFails : Bool := false

namespace VacationTracker

def storeHeaderLine : AnsiString := ansi "# hMailServer Sieve vacation response tracking, format 1"
def maxLiveRecords : Nat := 2000
def maxStoreBytes : Nat := 1024 * 1024
def maxWindowSeconds : Nat := 36500 * 86400

structure Record where
  expires : Nat
  key : AnsiString
  deriving DecidableEq

def splitLines (content : AnsiString) (maxLines : Nat) : Option (List AnsiString) :=
  let lines := (content.splitOn 10).map fun line => line.rdropWhile (· == 13)
  if lines.length ≤ maxLines then some lines else none

def isAsciiInt64 (value : AnsiString) : Bool := value ≠ [] && value.length ≤ 19 && value.all AnsiString.isDigit

/-- `_atoi64` of digits, which saturates. -/
def atoi64 (value : AnsiString) : Nat := min (AnsiString.digitsValue value) (2 ^ 63 - 1)

def isWellFormedKey (key : AnsiString) : Bool :=
  key.length == 64 && key.all fun c => (48 ≤ c && c ≤ 57) || (97 ≤ c && c ≤ 102)

/-! ## The file system -/

def fileExists (io : FileOutcomes) (disk : Disk) (path : WString) : Bool := (disk path).isSome && !io.existsFails

/-- Zero where the size cannot be had. -/
def fileSize (io : FileOutcomes) (disk : Disk) (path : WString) : Nat :=
  if io.fileSizeFails then 0 else ((disk path).getD []).length

/-- `none` is the exception of `ReadChunk`. -/
def readCompleteTextFile (env : VacationEnvironment) (io : FileOutcomes) (disk : Disk) (path : WString) :
    Option AnsiString :=
  match disk path with
  | none => some []
  | some bytes =>
    if io.openFails || io.getSizeFails || bytes.isEmpty then some []
    else if io.readFails then none
    else if [0xef, 0xbb, 0xbf].isPrefixOf bytes then some (env.utf8Text bytes)
    else if [0xff, 0xfe].isPrefixOf bytes then some (env.utf16Text (bytes.drop 2))
    else some bytes

def setFile (disk : Disk) (path : WString) (content : Option AnsiString) : Disk :=
  fun p => if p = path then content else disk p

def deleteFile (io : FileOutcomes) (disk : Disk) (path : WString) : Disk :=
  if io.deleteFails then disk else setFile disk path none

/-- The file system afterwards, and whether all bytes were taken. A file that
    was opened and not completely written keeps the part that got through. -/
def writeToFile (io : FileOutcomes) (disk : Disk) (path : WString) (content : AnsiString) : Disk × Bool :=
  if io.openTemporaryFails then (disk, false)
  else match io.writeStops with
    | some count => (setFile disk path (some (content.take count)), false)
    | none =>
      match io.closeStops with
      | some count => (setFile disk path (some (content.take count)), true)
      | none => (setFile disk path (some content), true)

def move (io : FileOutcomes) (disk : Disk) (source target : WString) : Disk × Bool :=
  if io.moveFails then (disk, false) else (setFile (setFile disk target (disk source)) source none, true)

/-! ## The store -/

variable (env : VacationEnvironment)

def keyFor (sender handle : WString) : AnsiString :=
  env.hexDigest (WString.makeLower env.loc sender ++ 10 :: handle)

/-- The record lines behind the header; the flag tells that some were expired. -/
def loadLines (now : Nat) : Nat → List AnsiString → Option (List Record × Bool)
  | _, [] => some ([], false)
  | recordLines, line :: rest =>
    if line = [] ∨ line.head? = some 35 then loadLines now recordLines rest
    else if maxLiveRecords < recordLines + 1 then none
    else match cut 32 line with
      | none => none
      | some (expiryText, key) =>
        if expiryText = [] then none
        else if !isAsciiInt64 expiryText || !isWellFormedKey key then none
        else match loadLines now (recordLines + 1) rest with
          | none => none
          | some (records, prunedAny) =>
            if atoi64 expiryText ≤ now then some (records, true)
            else some (⟨atoi64 expiryText, key⟩ :: records, prunedAny)

/-- The text of a store. -/
def loadContent (now : Nat) (content : AnsiString) : Option (List Record × Bool) :=
  if content = [] then none
  else match splitLines content (maxLiveRecords + 2) with
    | none => none
    | some [] => none
    | some (header :: lines) => if header ≠ storeHeaderLine then none else loadLines now 0 lines

/-- `none` where the source answers false or throws. -/
def load (io : FileOutcomes) (disk : Disk) (path : WString) (now : Nat) : Option (List Record × Bool) :=
  if !fileExists io disk path then some ([], false)
  else if maxStoreBytes < fileSize io disk path then none
  else match readCompleteTextFile env io disk path with
    | none => none
    | some content => loadContent now content

def recordLine (record : Record) : AnsiString :=
  AnsiString.formatNat record.expires ++ 32 :: record.key ++ [13, 10]

def storeContent (records : List Record) : AnsiString :=
  storeHeaderLine ++ [13, 10] ++ records.flatMap recordLine

def temporaryPath (path : WString) : WString := path ++ wide ".tmp"

inductive SaveResult where
  | saved
  | failed
  | stopped
  deriving DecidableEq

def save (io : FileOutcomes) (disk : Disk) (path : WString) (records : List Record) : Disk × SaveResult :=
  if maxLiveRecords < records.length then (disk, .failed)
  else if io.directoryFails then (disk, .failed)
  else match writeToFile io disk (temporaryPath path) (storeContent records) with
    | (disk, false) => (deleteFile io disk (temporaryPath path), .failed)
    | (disk, true) =>
      if io.processStops then (disk, .stopped)
      else match move io disk (temporaryPath path) path with
        | (disk, false) => (deleteFile io disk (temporaryPath path), .failed)
        | (disk, true) => (disk, .saved)

/-- One call of `ClaimResponse`, at the time `now`. The sum with the window is
    computed in 64 bits. -/
structure Claim where
  accountAddress : WString
  sender : WString
  handle : WString
  intervalSeconds : Int
  now : Nat
  io : FileOutcomes
  now_lt : now + maxWindowSeconds < 2 ^ 63

/-- The recorded window. -/
def Claim.window (c : Claim) : Nat :=
  if (maxWindowSeconds : Int) < c.intervalSeconds then maxWindowSeconds else c.intervalSeconds.toNat

/-- The write-back of a pruned store; its answer is ignored, a stop is not. -/
def writeBack (io : FileOutcomes) (disk : Disk) (path : WString) (records : List Record) (prunedAny : Bool) :
    Disk × Option Bool :=
  if prunedAny then
    match save io disk path records with
    | (disk, .stopped) => (disk, none)
    | (disk, _) => (disk, some false)
  else (disk, some false)

/-- The write that grants a reply. -/
def recordResponse (io : FileOutcomes) (disk : Disk) (path : WString) (records : List Record) : Disk × Option Bool :=
  match save io disk path records with
  | (disk, .saved) => (disk, some true)
  | (disk, .failed) => (disk, some false)
  | (disk, .stopped) => (disk, none)

/-- The answer is `none` where the process stopped. -/
def claimResponse (disk : Disk) (c : Claim) : Disk × Option Bool :=
  if c.intervalSeconds ≤ 0 then (disk, some true)
  else
    let path := env.getVacationStorePath c.accountAddress
    let key := keyFor env c.sender c.handle
    match load env c.io disk path c.now with
    | none => (disk, some false)
    | some (records, prunedAny) =>
      if records.any fun record => record.key == key then writeBack c.io disk path records prunedAny
      else if maxLiveRecords ≤ records.length then writeBack c.io disk path records prunedAny
      else recordResponse c.io disk path (records ++ [⟨c.now + c.window, key⟩])

/-- The file system after a sequence of calls. -/
def run (disk : Disk) : List Claim → Disk
  | [] => disk
  | c :: calls => run (claimResponse env disk c).1 calls

end VacationTracker
end HMailServer
