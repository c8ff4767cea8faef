import HMailServer.Util.WideString
import HMailServer.Util.AnsiString

/- The MTA-STS policy cache (`SMTP/TlsPolicy.cpp`). `GetStsPolicy` is cut at its
   lock: a call reads the clock, reads the cache, looks in DNS, fetches over
   HTTPS and writes the cache in steps of their own, so that the calls of any
   number of delivery threads interleave. What DNS and HTTPS answer is an
   argument of the step. -/
namespace HMailServer.TlsPolicy

/-- The process locale, the conversions between wide and narrow strings, and
    `atoi`, whose value past the range of an `int` differs between platforms. -/
structure Environment where
  loc : Locale
  narrow : WString → AnsiString
  widen : AnsiString → WString
  atoi : AnsiString → Int

def maxStsMaxAge : Nat := 31557600
def minStsCacheSeconds : Nat := 300
def revalidateIntervalSeconds : Nat := 3600
def negativeCacheSeconds : Nat := 1800

inductive StsMode where
  | none
  | testing
  | enforce
  deriving DecidableEq, Repr

structure StsPolicy where
  mode : StsMode := .none
  mxPatterns : List WString := []
  deriving DecidableEq, Repr

/-! ## Strings -/

def classicLower (c : UInt8) : UInt8 := if 65 ≤ c && c ≤ 90 then c + 32 else c

/-- A C string ends at its first NUL. -/
def cstr (s : AnsiString) : AnsiString := s.takeWhile (· != 0)

/-- `StartsWith`, which compares with `CompareNoCase`. -/
def startsWith (s text : AnsiString) : Bool :=
  (cstr (s.take text.length)).map classicLower == (cstr text).map classicLower

def makeLower (s : AnsiString) : AnsiString := cstr (s.map classicLower)

/-- `StringParser::SplitString` of a narrow string. Where it finds the
    separator each piece passes through a wide `String`; an empty last piece is
    dropped. -/
def splitString (env : Environment) (s : AnsiString) (separator : UInt8) : List AnsiString :=
  let parts := s.splitOn separator
  let kept := if parts.getLast? = some [] then parts.dropLast else parts
  if separator ∈ s then kept.map fun part => env.narrow (env.widen part) else kept

/-! ## The answers of DNS and HTTPS -/

/-- `LookupStsDnsRecord_`: the policy id, from the first record of this version
    that has an `id` field. `none` among the answers is a failed lookup. -/
def lookupStsDnsRecord (env : Environment) (answer : Option (List WString)) : Option AnsiString := do
  let txtRecords ← answer
  let id ← txtRecords.findSome? fun record =>
    let narrow := AnsiString.trim (env.narrow record)
    if startsWith narrow (ansi "v=STSv1") then
      (((splitString env narrow 59).map AnsiString.trim).find? fun part => startsWith part (ansi "id=")).map fun part =>
        AnsiString.trim (part.drop 3)
    else none
  if id.isEmpty then none else some id

/-- What the loop over the lines of a policy file has gathered. -/
structure PolicyFile where
  policy : StsPolicy := {}
  maxAge : Int := 0
  versionSeen : Bool := false

/-- One line of the file; `none` is a version other than the known one. -/
def parseLine (env : Environment) (file : PolicyFile) (line : AnsiString) : Option PolicyFile :=
  let line := AnsiString.trim (line.rdropWhile (· == 13))
  match line.findIdx? (· == 58) with
  | none => some file
  | some separatorPos =>
    if separatorPos = 0 then some file
    else
      let key := makeLower (AnsiString.trim (line.take separatorPos))
      let value := AnsiString.trim (line.drop (separatorPos + 1))
      if key = ansi "version" then
        if value = ansi "STSv1" then some { file with versionSeen := true } else none
      else if key = ansi "mode" then
        let mode :=
          if makeLower value = ansi "enforce" then .enforce
          else if makeLower value = ansi "testing" then .testing
          else .none
        some { file with policy := { file.policy with mode } }
      else if key = ansi "mx" then
        if value.isEmpty then some file
        else some { file with policy := { file.policy with mxPatterns := file.policy.mxPatterns ++ [env.widen value] } }
      else if key = ansi "max_age" then
        -- `IsNumeric` reads a wide string
        if (env.widen value).all fun c => 48 ≤ c ∧ c ≤ 57 then some { file with maxAge := env.atoi value } else some file
      else some file

/-- `ParseStsPolicyBody_`. -/
def parseStsPolicyBody (env : Environment) (body : AnsiString) : Option (StsPolicy × Int) := do
  let file ← (splitString env body 10).foldlM (parseLine env) {}
  if !file.versionSeen then none
  else if file.policy.mode = .enforce ∧ file.policy.mxPatterns = [] then none
  else some (file.policy, file.maxAge)

/-- `FetchStsPolicy_`: the policy, and its age held between the bounds. `none`
    among the answers is a failed request. -/
def fetchStsPolicy (env : Environment) (answer : Option AnsiString) : Option (StsPolicy × Nat) := do
  let body ← answer
  let (policy, maxAge) ← parseStsPolicyBody env body
  some (policy, min (max maxAge.toNat minStsCacheSeconds) maxStsMaxAge)

/-! ## The cache and the calls in progress -/

/-- An entry of `sts_cache_`. `fetched` is not in the source: it is the number
    of the step that fetched the policy, and `none` for a negative entry. -/
structure CachedStsPolicy where
  policy : StsPolicy := {}
  id : AnsiString := []
  expiresAt : Nat
  revalidateAt : Nat
  fetched : Option Nat := none
  deriving DecidableEq, Repr

/-- Where a call of `GetStsPolicy` stands. -/
inductive Phase where
  -- it has read the clock
  | began
  -- it holds a snapshot of an entry that is due for revalidation
  | revalidating (cached : CachedStsPolicy)
  | refetching (cached : CachedStsPolicy) (currentId : AnsiString)
  -- it found no entry
  | looking
  | fetching (policyId : AnsiString)
  -- it is about to take the lock and write
  | storing (entry : CachedStsPolicy)
  deriving DecidableEq, Repr

/-- A call in progress: its key, its reading of the clock and the number of the
    step it began at. -/
structure Call where
  key : WString
  now : Nat
  since : Nat
  phase : Phase
  deriving DecidableEq, Repr

/-- What a call returned, and the fetch the policy came from. -/
structure Returned where
  key : WString
  now : Nat
  since : Nat
  policy : StsPolicy
  fetched : Option Nat
  deriving DecidableEq, Repr

structure State where
  cache : WString → Option CachedStsPolicy := fun _ => none
  calls : Nat → Option Call := fun _ => none
  clock : Nat := 0
  steps : Nat := 0

inductive Step where
  -- `elapsed` is how far the clock moved on before the call read it
  | begin (thread : Nat) (domain : WString) (elapsed : Nat)
  | read (thread : Nat)
  | dns (thread : Nat) (answer : Option (List WString))
  | https (thread : Nat) (answer : Option AnsiString)
  | store (thread : Nat)
  deriving DecidableEq, Repr

def State.setEntry (s : State) (key : WString) (entry : Option CachedStsPolicy) : State :=
  { s with cache := fun k => if k = key then entry else s.cache k }

def State.setCall (s : State) (thread : Nat) (call : Option Call) : State :=
  { s with calls := fun t => if t = thread then call else s.calls t }

/-- The call goes on to another phase. -/
def State.goOn (s : State) (thread : Nat) (call : Call) (phase : Phase) : State × Option Returned :=
  (s.setCall thread (some { call with phase }), none)

/-- The call returns the policy of an entry. -/
def State.finish (s : State) (thread : Nat) (call : Call) (entry : CachedStsPolicy) : State × Option Returned :=
  (s.setCall thread none,
    some { key := call.key, now := call.now, since := call.since, policy := entry.policy, fetched := entry.fetched })

/-- The first block under the lock. -/
def readCache (s : State) (thread : Nat) (call : Call) : State × Option Returned :=
  match s.cache call.key with
  | none => s.goOn thread call .looking
  | some cached =>
    if call.now ≥ cached.expiresAt then (s.setEntry call.key none).goOn thread call .looking
    else if call.now < cached.revalidateAt then s.finish thread call cached
    else
      -- only this thread revalidates
      let bumped := { cached with revalidateAt := call.now + revalidateIntervalSeconds }
      (s.setEntry call.key (some bumped)).goOn thread call (.revalidating cached)

/-- The entry for no policy. -/
def negativeEntry (call : Call) (seconds : Nat) : CachedStsPolicy :=
  { expiresAt := call.now + seconds, revalidateAt := call.now + revalidateIntervalSeconds }

def fetchedEntry (s : State) (call : Call) (id : AnsiString) (policy : StsPolicy) (maxAge : Nat) : CachedStsPolicy :=
  { policy, id, expiresAt := call.now + maxAge, revalidateAt := call.now + revalidateIntervalSeconds,
    fetched := some s.steps }

def dnsAnswered (env : Environment) (s : State) (thread : Nat) (call : Call) (answer : Option (List WString)) :
    State × Option Returned :=
  match call.phase with
  | .revalidating cached =>
    match lookupStsDnsRecord env answer with
    | none => s.finish thread call cached
    | some currentId =>
      if currentId = cached.id then s.finish thread call cached
      else s.goOn thread call (.refetching cached currentId)
  | .looking =>
    match lookupStsDnsRecord env answer with
    | none => s.goOn thread call (.storing (negativeEntry call negativeCacheSeconds))
    | some policyId => s.goOn thread call (.fetching policyId)
  | _ => (s, none)

def httpsAnswered (env : Environment) (s : State) (thread : Nat) (call : Call) (answer : Option AnsiString) :
    State × Option Returned :=
  match call.phase with
  | .refetching cached currentId =>
    match fetchStsPolicy env answer with
    | none => s.finish thread call cached
    | some (policy, maxAge) => s.goOn thread call (.storing (fetchedEntry s call currentId policy maxAge))
  | .fetching policyId =>
    match fetchStsPolicy env answer with
    | none => s.goOn thread call (.storing (negativeEntry call minStsCacheSeconds))
    | some (policy, maxAge) => s.goOn thread call (.storing (fetchedEntry s call policyId policy maxAge))
  | _ => (s, none)

/-- One step of one thread. A step for which the thread is not ready does
    nothing. -/
def act (env : Environment) (s : State) : Step → State × Option Returned
  | .begin thread domain elapsed =>
    match s.calls thread with
    | some _ => (s, none)
    | none =>
      let now := s.clock + elapsed
      ({ s with clock := now }.setCall thread
        (some { key := WString.makeLower env.loc domain, now, since := s.steps, phase := .began }), none)
  | .read thread =>
    match s.calls thread with
    | some call => if call.phase = .began then readCache s thread call else (s, none)
    | none => (s, none)
  | .dns thread answer =>
    match s.calls thread with
    | some call => dnsAnswered env s thread call answer
    | none => (s, none)
  | .https thread answer =>
    match s.calls thread with
    | some call => httpsAnswered env s thread call answer
    | none => (s, none)
  | .store thread =>
    match s.calls thread with
    | some call =>
      match call.phase with
      | .storing entry => (s.setEntry call.key (some entry)).finish thread call entry
      | _ => (s, none)
    | none => (s, none)

/-- A step, counted. -/
def step (env : Environment) (s : State) (a : Step) : State × Option Returned :=
  ({ (act env s a).1 with steps := s.steps + 1 }, (act env s a).2)

/-- The state after a run, and what its calls returned. -/
def run (env : Environment) (s : State) : List Step → State × List Returned
  | [] => (s, [])
  | a :: rest =>
    let (next, returned) := step env s a
    let (last, later) := run env next rest
    (last, returned.toList ++ later)

end HMailServer.TlsPolicy
