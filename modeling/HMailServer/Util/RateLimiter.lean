import HMailServer.Util.WideString

/- The per-account sending quota (`Common/Util/RateLimiter.cpp`). Times are seconds
   of the wall clock. The account table is whatever the state file left of it when
   the first command came; what the file is written with is left out. -/
namespace HMailServer.RateLimiter

def kBucketsPerPeriod : Nat := 24
def kMinBucketSeconds : Nat := 60
def kMaxBucketsPerAccount : Nat := 40
def kMinPeriodHours : Int := 1
def kMaxPeriodHours : Int := 168
def kMaxAccountEntries : Nat := 100000

/-- The largest `int`. -/
def intMax : Nat := 2147483647

/-- The two counts of the quota. -/
inductive Counter
  | messages | recipients
  deriving DecidableEq

/-- The effective ceilings of an account; 0 means unlimited. -/
structure AccountSendingLimits where
  max : Counter → Int
  periodHours : Int := 24
  max_le : ∀ c, max c ≤ intMax

def AccountSendingLimits.isEnabled (limits : AccountSendingLimits) : Bool :=
  0 < limits.max .messages || 0 < limits.max .recipients

inductive AccountQuotaResult
  | quotaAllowed | quotaMessageLimitReached | quotaRecipientLimitReached
  deriving DecidableEq

structure UsageBucket where
  start : Nat
  count : Counter → Nat := fun _ => 0

abbrev UsageBuckets := List UsageBucket

def normalizeAccountKey (loc : Locale) (accountAddress : WString) : WString :=
  WString.makeLower loc (WString.trim loc accountAddress)

def getPeriodSeconds (limits : AccountSendingLimits) : Nat :=
  (min (max limits.periodHours kMinPeriodHours) kMaxPeriodHours).toNat * 3600

def getBucketSeconds (periodSeconds : Nat) : Nat := max (periodSeconds / kBucketsPerPeriod) kMinBucketSeconds

def pruneUsage (buckets : UsageBuckets) (now periodSeconds : Nat) : UsageBuckets :=
  -- a bucket dated in the future is pulled back to now
  let dated := buckets.map fun bucket => { bucket with start := min bucket.start now }
  let live := dated.dropWhile fun bucket => bucket.start + periodSeconds ≤ now
  live.drop (live.length - kMaxBucketsPerAccount)

def total (buckets : UsageBuckets) (c : Counter) : Nat := (buckets.map fun bucket => bucket.count c).sum

def sumUsage (buckets : UsageBuckets) (c : Counter) : Nat := min (total buckets c) intMax

def saturatingAdd (current addition : Nat) : Nat := if addition = 0 then current else min (current + addition) intMax

/-- `account_usage_`: one entry an account. -/
structure AccountTable where
  entries : List (WString × UsageBuckets) := []
  nodup : (entries.map Prod.fst).Nodup := by exact List.nodup_nil

namespace AccountTable

def size (table : AccountTable) : Nat := table.entries.length

def find (table : AccountTable) (key : WString) : Option UsageBuckets := table.entries.lookup key

/-- The entry of an account put in place of the one it had, or at the end. -/
def setEntry (key : WString) (buckets : UsageBuckets) : List (WString × UsageBuckets) → List (WString × UsageBuckets)
  | [] => [(key, buckets)]
  | entry :: rest => if key = entry.1 then (key, buckets) :: rest else entry :: setEntry key buckets rest

theorem mem_keys_setEntry {key other : WString} {buckets : UsageBuckets} {entries : List (WString × UsageBuckets)}
    (h : other ∈ (setEntry key buckets entries).map Prod.fst) : other = key ∨ other ∈ entries.map Prod.fst := by
  induction entries with
  | nil => exact .inl (by simpa [setEntry] using h)
  | cons entry rest ih =>
    unfold setEntry at h
    split at h
    · rename_i hkey
      rw [List.map_cons, List.mem_cons] at h ⊢
      obtain h | h := h
      · exact .inl h
      · exact .inr (.inr h)
    · rw [List.map_cons, List.mem_cons] at h ⊢
      obtain h | h := h
      · exact .inr (.inl h)
      · exact (ih h).imp_right .inr

theorem nodup_setEntry (key : WString) (buckets : UsageBuckets) {entries : List (WString × UsageBuckets)}
    (h : (entries.map Prod.fst).Nodup) : ((setEntry key buckets entries).map Prod.fst).Nodup := by
  induction entries with
  | nil => exact List.nodup_singleton key
  | cons entry rest ih =>
    rw [List.map_cons, List.nodup_cons] at h
    unfold setEntry
    split
    · rename_i hkey
      rw [List.map_cons, List.nodup_cons]
      exact ⟨hkey ▸ h.1, h.2⟩
    · rename_i hkey
      rw [List.map_cons, List.nodup_cons]
      refine ⟨fun hmem => ?_, ih h.2⟩
      obtain hmem | hmem := mem_keys_setEntry hmem
      · exact hkey hmem.symm
      · exact h.1 hmem

def set (table : AccountTable) (key : WString) (buckets : UsageBuckets) : AccountTable :=
  ⟨setEntry key buckets table.entries, nodup_setEntry key buckets table.nodup⟩

/-- The accounts kept for the longest period there is. -/
def liveEntries (entries : List (WString × UsageBuckets)) (now : Nat) : List (WString × UsageBuckets) :=
  (entries.map fun account => (account.1, pruneUsage account.2 now (kMaxPeriodHours.toNat * 3600))).filter
    fun account => account.2.isEmpty = false

theorem nodup_liveEntries {entries : List (WString × UsageBuckets)} (now : Nat) (h : (entries.map Prod.fst).Nodup) :
    ((liveEntries entries now).map Prod.fst).Nodup := by
  refine List.Nodup.sublist (List.Sublist.map _ List.filter_sublist) ?_
  rw [List.map_map]
  exact h

def dropDeadAccounts (table : AccountTable) (now : Nat) : AccountTable :=
  ⟨liveEntries table.entries now, nodup_liveEntries now table.nodup⟩

end AccountTable

structure State where
  accountUsage : AccountTable := {}
  usageDirty : Bool := false
  lastSaveTime : Nat := 0
  accountMapFullReported : Bool := false

/-- The buckets of an account; none for one that is not in the table. -/
def State.usage (s : State) (key : WString) : UsageBuckets := (s.accountUsage.find key).getD []

/-- Whether a ceiling leaves room for the addition. -/
def exceeds (limits : AccountSendingLimits) (buckets : UsageBuckets) (addition : Counter → Nat) (c : Counter) : Bool :=
  0 < limits.max c ∧ limits.max c - addition c < sumUsage buckets c

/-- The start of the slot a time falls in. -/
def slot (periodSeconds now : Nat) : Nat := now / getBucketSeconds periodSeconds * getBucketSeconds periodSeconds

def addTo (addition : Counter → Nat) (bucket : UsageBucket) : UsageBucket :=
  { bucket with count := fun c => saturatingAdd (bucket.count c) (addition c) }

/-- The addition counted: in the newest bucket where that is the slot's, or later
    than it, else in a fresh one. -/
def recordUsage (buckets : UsageBuckets) (addition : Counter → Nat) (now periodSeconds : Nat) : UsageBuckets :=
  match buckets.getLast? with
  | none => [addTo addition { start := slot periodSeconds now }]
  | some newest =>
    if slot periodSeconds now ≤ newest.start then buckets.dropLast ++ [addTo addition newest]
    else (if kMaxBucketsPerAccount ≤ buckets.length then buckets.tail else buckets) ++
      [addTo addition { start := slot periodSeconds now }]

/-- `CheckAndConsume_`, once the account is in the table. -/
def checkAndConsumeEntry (s : State) (key : WString) (addition : Counter → Nat) (limits : AccountSendingLimits) (now : Nat) :
    AccountQuotaResult × State :=
  let periodSeconds := getPeriodSeconds limits
  let buckets := pruneUsage (s.usage key) now periodSeconds
  let pruned := { s with accountUsage := s.accountUsage.set key buckets }
  if exceeds limits buckets addition .messages then (.quotaMessageLimitReached, pruned)
  else if exceeds limits buckets addition .recipients then (.quotaRecipientLimitReached, pruned)
  else
    let recorded := recordUsage buckets addition now periodSeconds
    (.quotaAllowed, { s with accountUsage := s.accountUsage.set key recorded, usageDirty := true })

def checkAndConsume (s : State) (key : WString) (addition : Counter → Nat) (limits : AccountSendingLimits) (now : Nat) :
    AccountQuotaResult × State :=
  if (s.accountUsage.find key).isSome then checkAndConsumeEntry s key addition limits now
  else
    let swept := if kMaxAccountEntries ≤ s.accountUsage.size then
      { s with accountUsage := s.accountUsage.dropDeadAccounts now } else s
    -- a full table lets the message pass uncounted
    if kMaxAccountEntries ≤ swept.accountUsage.size then (.quotaAllowed, { swept with accountMapFullReported := true })
    else checkAndConsumeEntry swept key addition limits now

/-- The part of `SaveUsage_` under the account lock. -/
def saveUsage (s : State) (force : Bool) (interval now : Nat) : State :=
  if s.usageDirty = false then s
  else
    let lastSaveTime := min s.lastSaveTime now
    if force = false ∧ now - lastSaveTime < interval then { s with lastSaveTime := lastSaveTime }
    else { s with lastSaveTime := now, usageDirty := false, accountUsage := s.accountUsage.dropDeadAccounts now }

/-- What is done under the account lock, one step each. -/
inductive Step
  | tryConsumeAccountMessage (accountAddress : WString) (limits : AccountSendingLimits) (now : Nat)
  | tryConsumeAccountRecipients (accountAddress : WString) (limits : AccountSendingLimits) (recipientCount : Int) (now : Nat)
  | saveUsage (force : Bool) (interval now : Nat)
  | saveFailed (now : Nat)

/-- What a call asks to be counted. -/
structure Charge where
  key : WString
  limits : AccountSendingLimits
  addition : Counter → Nat
  now : Nat

namespace Step

def now : Step → Nat
  | tryConsumeAccountMessage _ _ now => now
  | tryConsumeAccountRecipients _ _ _ now => now
  | saveUsage _ _ now => now
  | saveFailed now => now

/-- The charge of a call that is counted: with a ceiling, for an account, and for at
    least one message or recipient. -/
def charge (loc : Locale) : Step → Option Charge
  | tryConsumeAccountMessage accountAddress limits now =>
    let key := normalizeAccountKey loc accountAddress
    if limits.isEnabled = false ∨ key = [] then none
    else some ⟨key, limits, fun | .messages => 1 | .recipients => 0, now⟩
  | tryConsumeAccountRecipients accountAddress limits recipientCount now =>
    let key := normalizeAccountKey loc accountAddress
    if limits.isEnabled = false ∨ recipientCount ≤ 0 ∨ key = [] then none
    else some ⟨key, limits, fun | .messages => 0 | .recipients => recipientCount.toNat, now⟩
  | saveUsage _ _ _ => none
  | saveFailed _ => none

end Step

/-- One step: its answer, for a call, and the state after it. -/
def step (loc : Locale) (s : State) (call : Step) : Option AccountQuotaResult × State :=
  match call with
  | .saveUsage force interval now => (none, saveUsage s force interval now)
  | .saveFailed _ => (none, { s with usageDirty := true })
  | .tryConsumeAccountMessage .. | .tryConsumeAccountRecipients .. =>
    match call.charge loc with
    | none => (some .quotaAllowed, s)
    | some charge =>
      let result := checkAndConsume s charge.key charge.addition charge.limits charge.now
      (some result.1, result.2)

/-- The answers of a run, and the state after it. -/
def run (loc : Locale) (s : State) : List Step → List (Option AccountQuotaResult) × State
  | [] => ([], s)
  | call :: calls =>
    let first := step loc s call
    let rest := run loc first.2 calls
    (first.1 :: rest.1, rest.2)

/-- The states a run passes through, the first one included. -/
def states (loc : Locale) (s : State) : List Step → List State
  | [] => [s]
  | call :: calls => s :: states loc (step loc s call).2 calls

end HMailServer.RateLimiter
