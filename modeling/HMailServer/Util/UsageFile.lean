import HMailServer.Lib.Utf16
import HMailServer.Util.Decimal
import HMailServer.Util.RateLimiter

/- The state file that carries the sending quota across a restart
   (`SerializeUsage_` and `LoadUsageFile_` of `Common/Util/RateLimiter.cpp`). The file
   is UTF-16 with a byte order mark, and is read back as the text that was written.
   What is logged and reported is left out. -/
namespace HMailServer.RateLimiter

def kStateFileVersion : WString := wide "hMailServerSendingLimits 1"

/-- The longest period there is. -/
def maxPeriodSeconds : Nat := kMaxPeriodHours.toNat * 3600

def kMaxStateFileBytes : Nat := 4 * 1024 * 1024
def kMaxStateFileChars : Nat := kMaxStateFileBytes / 2 - 16

/-- The size of a file with this text. -/
def fileSize (text : WString) : Nat := 2 + 2 * (Utf16.encode text).length

/-! ## Writing -/

def bucketFields (key : WString) (bucket : UsageBucket) : List WString :=
  [WString.cstr key, WString.decimal bucket.start, WString.decimal (bucket.count .messages),
    WString.decimal (bucket.count .recipients)]

/-- `"%s\t%s\t%d\t%d\r\n"`, without the line feed. -/
def bucketLine (key : WString) (bucket : UsageBucket) : WString := [9].intercalate (bucketFields key bucket) ++ [13]

/-- Younger than the longest period. -/
def isLive (now : Nat) (bucket : UsageBucket) : Bool := now < bucket.start + maxPeriodSeconds

/-- The buckets of an account that are written. -/
def writtenBuckets (now : Nat) (buckets : UsageBuckets) : UsageBuckets :=
  buckets.filter fun bucket => (0 < bucket.count .messages || 0 < bucket.count .recipients) && isLive now bucket

def accountText (now : Nat) (account : WString × UsageBuckets) : WString :=
  (writtenBuckets now account.2).flatMap fun bucket => bucketLine account.1 bucket ++ [10]

/-- A tab or a line break in the key would corrupt the file. -/
def corrupts (key : WString) : Bool := 9 ∈ key ∨ 13 ∈ key ∨ 10 ∈ key

/-- The text so far and the accounts to come; the flag tells that some did not fit. -/
def serializeAccounts (now : Nat) : WString → List (WString × UsageBuckets) → WString × Bool
  | result, [] => (result, false)
  | result, account :: rest =>
    if kMaxStateFileChars ≤ result.length then (result, true)
    else if corrupts account.1 then serializeAccounts now result rest
    else serializeAccounts now (result ++ accountText now account) rest

def versionText : WString := kStateFileVersion ++ [13, 10]

def serializeUsage (table : AccountTable) (now : Nat) : WString × Bool := serializeAccounts now versionText table.entries

/-! ## Reading -/

/-- The counts of one bucket taken into another. -/
def mergeInto (bucket existing : UsageBucket) : UsageBucket := addTo bucket.count existing

/-- The first bucket with the same start takes the counts; `none` where there is none. -/
def mergeEqual (bucket : UsageBucket) : UsageBuckets → Option UsageBuckets
  | [] => none
  | existing :: rest =>
    if existing.start = bucket.start then some (mergeInto bucket existing :: rest)
    else (mergeEqual bucket rest).map (existing :: ·)

/-- The file is written oldest first; a bucket that goes backwards is merged with one
    of its start, or folded into the oldest. -/
def loadBucket : UsageBuckets → UsageBucket → UsageBuckets
  | [], bucket => [bucket]
  | oldest :: rest, bucket =>
    if bucket.start ≤ ((oldest :: rest).getLast (List.cons_ne_nil _ _)).start then
      (mergeEqual bucket (oldest :: rest)).getD (mergeInto bucket oldest :: rest)
    else (if kMaxBucketsPerAccount ≤ (oldest :: rest).length then rest else oldest :: rest) ++ [bucket]

def countsOf (messages recipients : Nat) : Counter → Nat
  | .messages => messages
  | .recipients => recipients

/-- The account and the bucket of a line, unless it is unreadable or too old. -/
def parseLine (loc : Locale) (now : Nat) (line : WString) : Option (WString × UsageBucket) :=
  match WString.splitString line 9 with
  | [account, start, messages, recipients] =>
    let key := normalizeAccountKey loc account
    let rawStart := WString.ttoi 64 start
    let rawMessages := WString.ttoi 32 messages
    let rawRecipients := WString.ttoi 32 recipients
    if key.isEmpty ∨ rawStart ≤ 0 ∨ rawMessages < 0 ∨ rawRecipients < 0 then none
    else
      -- a start in the future is pulled down to now
      let bucket : UsageBucket :=
        { start := min rawStart.toNat now, count := countsOf rawMessages.toNat rawRecipients.toNat }
      if isLive now bucket then some (key, bucket) else none
  | _ => none

def loadLine (loc : Locale) (now : Nat) (table : AccountTable) (line : WString) : AccountTable :=
  match parseLine loc now line with
  | none => table
  | some (key, bucket) =>
    if kMaxAccountEntries ≤ table.size ∧ table.find key = none then table
    else table.set key (loadBucket ((table.find key).getD []) bucket)

/-- The table after the lines of a text. -/
def loadUsageText (loc : Locale) (contents : WString) (now : Nat) : AccountTable :=
  match ((WString.splitString contents 10).map (WString.trim loc)).filter (· ≠ []) with
  | [] => {}
  | version :: lines =>
    if WString.equalsNoCase version kStateFileVersion then lines.foldl (loadLine loc now) {} else {}

/-- `LoadUsageFile_` into the empty table of a start; a file that is implausibly large
    is ignored. -/
def loadUsageFile (loc : Locale) (file : Option WString) (now : Nat) : AccountTable :=
  match file with
  | none => {}
  | some contents => if kMaxStateFileBytes < fileSize contents then {} else loadUsageText loc contents now

end HMailServer.RateLimiter
