import HMailServer.Lib.SlidingLock
import HMailServer.Smtp.RecipientParser

/- The lockout of a name after repeated failed logons (`Common/Util/AccountLockout.cpp`).
   Times are seconds of the wall clock. The aliases and the default domain are those
   of the configuration; what is logged and reported is left out. -/
namespace HMailServer.AccountLockout

def kMaxEntries : Nat := 100000
def kMaxFailuresPerName : Nat := 1000
def kMinSweepIntervalSeconds : Nat := 60

/-- What `NormalizeKey_` reads of the configuration. -/
structure Naming where
  loc : Locale
  domainAliases : List RecipientParser.DomainAlias
  domainByID : Nat → Option RecipientParser.Domain
  defaultDomain : WString

namespace Naming

variable (naming : Naming)

/-- `DomainAliases::ApplyAliasesOnAddress`. -/
def applyAliasesOnAddress (address : WString) : WString :=
  match naming.domainAliases.find? fun al => WString.equalsNoCase al.aliasName (StringParser.extractDomain address) with
  | none => address
  | some al =>
    match naming.domainByID al.domainID with
    | none => address
    | some domain => StringParser.extractAddress address ++ 64 :: domain.name

/-- `DefaultDomain::ApplyDefaultDomain`. -/
def applyDefaultDomain (address : WString) : WString :=
  if 64 ∈ address ∨ address.isEmpty then address
  else if naming.defaultDomain.isEmpty then address
  else address ++ 64 :: naming.defaultDomain

def normalizeKey (username : WString) : WString :=
  let key := WString.makeLower naming.loc (WString.trim naming.loc username)
  if key.isEmpty then key
  else WString.makeLower naming.loc (naming.applyDefaultDomain (naming.applyAliasesOnAddress key))

end Naming

structure Entry where
  failures : List Nat := []
  lockedUntil : Nat := 0
  deriving DecidableEq

def prune (entry : Entry) (now windowSeconds : Nat) : Entry :=
  -- a failure dated in the future is pulled back to now
  let dated := entry.failures.map fun failure => min failure now
  let live := dated.dropWhile fun failure => failure + windowSeconds ≤ now
  -- the window starts again when a lock expires
  if 0 < entry.lockedUntil ∧ entry.lockedUntil ≤ now then { failures := [], lockedUntil := 0 }
  else { entry with failures := live }

/-- `std::map<String, Entry>`. -/
abbrev Entries := AList fun _ : WString => Entry

def size (entries : Entries) : Nat := entries.entries.length

structure State where
  entries : Entries := ∅
  lastSweepTime : Nat := 0
  tableFullReported : Bool := false

/-- The names whose window has emptied leave the table. -/
def sweep (entries : Entries) (now windowSeconds : Nat) : Entries :=
  entries.keys.foldl (fun swept key =>
    match swept.lookup key with
    | none => swept
    | some entry =>
      let pruned := prune entry now windowSeconds
      if pruned.failures.isEmpty ∧ pruned.lockedUntil = 0 then swept.erase key else swept.insert key pruned) entries

/-- `IsLockedOutAt`. -/
def isLockedOutAt (naming : Naming) (s : State) (username : WString) (now lockoutSeconds : Nat) : Bool × State :=
  let key := naming.normalizeKey username
  if key.isEmpty then (false, s)
  else
    match s.entries.lookup key with
    | none => (false, s)
    | some entry =>
      -- a clock put back does not prolong the lock
      let lockedUntil := min entry.lockedUntil (now + lockoutSeconds)
      (now < lockedUntil, { s with entries := s.entries.insert key { entry with lockedUntil } })

/-- What a failure does to the entry of its name. -/
def recordFailure (entry : Entry) (now : Nat) (threshold : Int) (windowSeconds lockoutSeconds : Nat) : Entry :=
  let pruned := prune entry now windowSeconds
  -- an attempt against a locked name measures nothing
  if now < pruned.lockedUntil then pruned
  else
    let pushed := pruned.failures ++ [now]
    let failures := pushed.drop (pushed.length - kMaxFailuresPerName)
    if threshold ≤ failures.length then { failures := [], lockedUntil := now + lockoutSeconds }
    else { pruned with failures }

/-- `RecordFailureAt`. -/
def recordFailureAt (naming : Naming) (s : State) (username : WString) (now : Nat) (threshold : Int)
    (windowSeconds lockoutSeconds : Nat) : State :=
  let key := naming.normalizeKey username
  if threshold ≤ 0 ∨ key.isEmpty then s
  else
    match s.entries.lookup key with
    | some entry =>
      { s with entries := s.entries.insert key (recordFailure entry now threshold windowSeconds lockoutSeconds) }
    | none =>
      let swept :=
        if kMaxEntries ≤ size s.entries ∧ (now < s.lastSweepTime ∨ kMinSweepIntervalSeconds ≤ now - s.lastSweepTime) then
          { s with lastSweepTime := now, entries := sweep s.entries now windowSeconds }
        else s
      -- a full table leaves a new name untracked
      if kMaxEntries ≤ size swept.entries then { swept with tableFullReported := true }
      else { swept with entries := swept.entries.insert key (recordFailure {} now threshold windowSeconds lockoutSeconds) }

def recordSuccess (naming : Naming) (s : State) (username : WString) : State :=
  let key := naming.normalizeKey username
  if key.isEmpty then s else { s with entries := s.entries.erase key }

inductive Call
  | recordFailureAt (username : WString) (now : Nat)
  | recordSuccess (username : WString)
  | isLockedOutAt (username : WString) (now : Nat)

namespace Call

def username : Call → WString
  | recordFailureAt username _ => username
  | recordSuccess username => username
  | isLockedOutAt username _ => username

/-- The clock a call brings; a success has none. -/
def now : Call → Option Nat
  | recordFailureAt _ now => some now
  | recordSuccess _ => none
  | isLockedOutAt _ now => some now

end Call

def step (naming : Naming) (rule : SlidingLock.Rule) (s : State) : Call → State
  | .recordFailureAt username now => recordFailureAt naming s username now rule.threshold rule.window rule.duration
  | .recordSuccess username => recordSuccess naming s username
  | .isLockedOutAt username now => (isLockedOutAt naming s username now rule.duration).2

/-- The state after calls made on an empty table. -/
def run (naming : Naming) (rule : SlidingLock.Rule) (calls : List Call) : State := calls.foldl (step naming rule) {}

end HMailServer.AccountLockout
