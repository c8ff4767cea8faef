import HMailServer.Smtp.SpfMacro

/- `check_host()` (`SMTP/SPF/SPFEvaluator.cpp`, `SPFRecordLocator.cpp` and the lookups of
   `SPFMacroExpander.cpp`). The resolver answers as it likes: its answer depends on the
   query and on all it was asked before. -/
namespace HMailServer

inductive SPFResult where
  | none
  | neutral
  | pass
  | fail
  | softFail
  | tempError
  | permError
  deriving DecidableEq

/-- One query to `SPFDnsLookup`. -/
inductive SPFQuery where
  | txt (domain : AnsiString)
  | a (host : AnsiString)
  | aaaa (host : AnsiString)
  | mx (domain : AnsiString)
  | ptr (reverseName : AnsiString)
  deriving DecidableEq

/-- What a check is given; a query without an answer could not be answered at all. -/
structure SPFEvaluator where
  lookup : List SPFQuery → SPFQuery → Option (List AnsiString)
  expander : SPFMacroExpander
  voidTermLimit : Int := 2

/-- The counters of a check, the names validated once, and the queries made, the last one
    first. -/
structure SPFState where
  terms : Nat := 0
  voidTerms : Nat := 0
  errorResult : SPFResult := .permError
  voidLookups : Nat := 0
  validatedNames : Option (List AnsiString) := none
  queries : List SPFQuery := []

abbrev SPFCheck := StateM SPFState

namespace SPFEvaluator
open SPFSyntax SPFMechanism

/-- What evaluating one directive came to. -/
inductive Match where
  | yes
  | no
  | error
  deriving DecidableEq

inductive TargetName where
  | resolved (name : AnsiString)
  | unusable
  | syntaxError
  deriving DecidableEq

/-- `SPFRecordLocator::Result`. -/
inductive Located where
  | found (record : SPFRecord)
  | noRecord
  | temporaryError
  | ambiguous
  | syntaxError
  deriving DecidableEq

def maximumTerms : Nat := 10
def maximumMxNames : Nat := 10
def maximumPtrNames : Nat := 10
def maximumDepth : Nat := maximumTerms + 2

def isAtOrBelow (name targetName : AnsiString) : Bool :=
  equalsDnsName name targetName || endsWithDnsName name (ansi "." ++ targetName)

def resultOf : Qualifier → SPFResult
  | .pass => .pass
  | .fail => .fail
  | .softFail => .softFail
  | .neutral => .neutral

variable (e : SPFEvaluator)

def client : SPFAddress := e.expander.clientAddress

/-- The queries of `CountingLookup`. -/
def query (q : SPFQuery) : SPFCheck (Option (List AnsiString)) := do
  let s ← get
  let answer := e.lookup s.queries q
  set { s with
    queries := q :: s.queries
    voidLookups := if answer = some [] then s.voidLookups + 1 else s.voidLookups }
  return answer

/-- `TryLookupAddresses_`: the records of the client's own family. -/
def lookupAddresses (host : AnsiString) : SPFCheck (Option (List AnsiString)) :=
  if e.client.family = .ip6 then e.query (.aaaa host) else e.query (.a host)

/-! ## The validated names -/

def isClient (text : AnsiString) : Bool := (SPFAddress.tryParse text).any (·.equals e.client)

def findValidatedNames : List AnsiString → SPFCheck (List AnsiString)
  | [] => return []
  | name :: names => do
    let answer ← e.lookupAddresses name
    let validated ← findValidatedNames names
    return if answer.any (·.any e.isClient) then name :: validated else validated

/-- `GetValidatedNames`: looked up once per check. -/
def getValidatedNames : SPFCheck (List AnsiString) := do
  match (← get).validatedNames with
  | some names => return names
  | none =>
    let answer ← e.query (.ptr e.client.getReverseName)
    let names ← e.findValidatedNames ((answer.getD []).take maximumPtrNames)
    modify fun s => { s with validatedNames := some names }
    return names

/-- The name the p macro prefers. -/
def preferredName (names : List AnsiString) (domain : AnsiString) : AnsiString :=
  match names.find? (equalsDnsName · domain) with
  | some name => name
  | none =>
    match names.find? (endsWithDnsName · (ansi "." ++ domain)) with
    | some name => name
    | none => names.headD (ansi "unknown")

/-- `GetMacroValue_`. -/
def macroValue (domain : AnsiString) (letter : UInt8) : SPFCheck AnsiString :=
  if letter = 112 then do return preferredName (← e.getValidatedNames) domain
  else return e.expander.getMacroValue domain letter

/-! ## The counters -/

def countTerm : SPFCheck Bool := do
  modify fun s => { s with terms := s.terms + 1 }
  return (← get).terms ≤ maximumTerms

def countVoidTerm (voidQueriesBefore : Nat) : SPFCheck Unit :=
  modify fun s => if voidQueriesBefore < s.voidLookups then { s with voidTerms := s.voidTerms + 1 } else s

/-- `GetHasTooManyVoidTerms_`. -/
def hasTooManyVoidTerms (s : SPFState) : Bool := 0 < e.voidTermLimit ∧ e.voidTermLimit < s.voidTerms

def fail (result : SPFResult) : SPFCheck Match := do
  modify fun s => { s with errorResult := result }
  return .error

/-! ## The mechanisms -/

/-- The target of a mechanism that names one, or the domain being checked. -/
def expandTarget (domainSpec : Option AnsiString) (domain : AnsiString) : SPFCheck (Option AnsiString) :=
  match domainSpec with
  | none => return some domain
  | some domainSpec => SPFMacroExpander.expandDomainSpec (e.macroValue domain) domainSpec

def readTarget (target : Option AnsiString) : TargetName :=
  match target with
  | none => .syntaxError
  | some targetName => if isValidDomainName targetName then .resolved targetName else .unusable

def resolveTargetName (domainSpec : Option AnsiString) (domain : AnsiString) : SPFCheck TargetName := do
  return readTarget (← e.expandTarget domainSpec domain)

def matchesAnyAddress (addresses : List AnsiString) (prefixLength : Nat) : Bool :=
  addresses.any fun text => (SPFAddress.tryParse text).any (e.client.matchesPrefix · prefixLength)

def prefixLengthFor (mechanism : SPFMechanism) : Nat :=
  if e.client.family = .ip6 then mechanism.ip6PrefixLength else mechanism.ip4PrefixLength

def matched (b : Bool) : Match := if b then .yes else .no

/-- The length of the mechanism's own family. -/
def literalPrefixLength (mechanism : SPFMechanism) : Nat :=
  if mechanism.type = .IP4 then mechanism.ip4PrefixLength else mechanism.ip6PrefixLength

def matchAddressLiteral (mechanism : SPFMechanism) : SPFCheck Match :=
  match SPFAddress.tryParse mechanism.address with
  | none => fail .permError
  | some network => return matched (e.client.matchesPrefix network (literalPrefixLength mechanism))

def matchA (mechanism : SPFMechanism) (targetName : AnsiString) : SPFCheck Match := do
  match ← e.lookupAddresses targetName with
  | none => fail .tempError
  | some addresses => return matched (e.matchesAnyAddress addresses (e.prefixLengthFor mechanism))

/-- The loop over the names of an mx. -/
def matchHosts (prefixLength : Nat) : List AnsiString → SPFCheck Match
  | [] => return .no
  | hostName :: hostNames => do
    match ← e.lookupAddresses hostName with
    | none => fail .tempError
    | some addresses =>
      if e.matchesAnyAddress addresses prefixLength then return .yes else matchHosts prefixLength hostNames

def matchMX (mechanism : SPFMechanism) (targetName : AnsiString) : SPFCheck Match := do
  match ← e.query (.mx targetName) with
  | none => fail .tempError
  | some hostNames =>
    if maximumMxNames < hostNames.length then fail .permError
    else e.matchHosts (e.prefixLengthFor mechanism) hostNames

def matchPTR (targetName : AnsiString) : SPFCheck Match := do
  return matched ((← e.getValidatedNames).any (isAtOrBelow · targetName))

def matchExists (targetName : AnsiString) : SPFCheck Match := do
  match ← e.query (.a targetName) with
  | none => fail .tempError
  | some addresses => return matched (!addresses.isEmpty)

/-- `MatchInclude_`, where `recur` checks the included domain. -/
def matchInclude (recur : AnsiString → SPFCheck SPFResult) (targetName : AnsiString) : SPFCheck Match := do
  match ← recur targetName with
  | .pass => return .yes
  | .fail | .softFail | .neutral => return .no
  | .tempError => fail .tempError
  | .none | .permError => fail .permError

/-- The mechanisms whose void queries `EvaluateMechanism_` charges. -/
def matchQuerying (mechanism : SPFMechanism) (targetName : AnsiString) : SPFCheck Match :=
  match mechanism.type with
  | .A => e.matchA mechanism targetName
  | .MX => e.matchMX mechanism targetName
  | .PTR => e.matchPTR targetName
  | .Exists => e.matchExists targetName
  | _ => return .no

/-- A term with its name resolved and counted. -/
def evaluateTerm (recur : AnsiString → SPFCheck SPFResult) (mechanism : SPFMechanism) (targetName : AnsiString) :
    SPFCheck Match := do
  if mechanism.type = .Include then matchInclude recur targetName
  else
    let voidQueriesBefore := (← get).voidLookups
    let outcome ← e.matchQuerying mechanism targetName
    countVoidTerm voidQueriesBefore
    return outcome

/-- The five terms that query. -/
def evaluateQueryTerm (recur : AnsiString → SPFCheck SPFResult) (mechanism : SPFMechanism) (domain : AnsiString) :
    SPFCheck Match := do
  match ← e.resolveTargetName mechanism.domainSpec domain with
  | .syntaxError => fail .permError
  | .unusable => return .no
  | .resolved targetName =>
    if !(← countTerm) then fail .permError else e.evaluateTerm recur mechanism targetName

def evaluateMechanism (recur : AnsiString → SPFCheck SPFResult) (mechanism : SPFMechanism) (domain : AnsiString) :
    SPFCheck Match :=
  match mechanism.type with
  | .All => return .yes
  | .IP4 | .IP6 => e.matchAddressLiteral mechanism
  | _ => e.evaluateQueryTerm recur mechanism domain

/-! ## The check of a domain -/

def explanationFor (record : SPFRecord) (domain : AnsiString) : SPFCheck AnsiString := do
  match record.explanationDomainSpec with
  | none => return []
  | some domainSpec =>
    match ← SPFMacroExpander.expandDomainSpec (e.macroValue domain) domainSpec with
    | none => return []
    | some targetName =>
      match ← e.query (.txt targetName) with
      | some [text] =>
        return (← SPFMacroExpander.expandExplanation (e.macroValue domain) text).getD []
      | _ => return []

/-- What `Locate` makes of the answer for a domain's text records. -/
def readRecords (answer : Option (List AnsiString)) : Located :=
  match answer with
  | none => .temporaryError
  | some textRecords =>
    match textRecords.filter SPFRecord.hasVersionTag with
    | [] => .noRecord
    | [candidate] =>
      match SPFRecord.parse candidate with
      | .error _ => .syntaxError
      | .ok record => .found record
    | _ => .ambiguous

/-- `SPFRecordLocator::Locate`. -/
def locate (domain : AnsiString) : SPFCheck Located :=
  if !isValidDomainName domain then return .noRecord
  else do return readRecords (← e.query (.txt domain))

/-- The result of a directive that matched: only a fail is explained. -/
def explained (record : SPFRecord) (domain : AnsiString) (wanted : Bool) (result : SPFResult) :
    SPFCheck (SPFResult × AnsiString) :=
  if result = .fail ∧ wanted then do return (result, ← e.explanationFor record domain)
  else return (result, [])

/-- The loop over the directives: the result of the first that decides, with its
    explanation where one is wanted. -/
def evaluateMechanisms (recur : AnsiString → SPFCheck SPFResult) (record : SPFRecord) (domain : AnsiString)
    (wanted : Bool) : List SPFMechanism → SPFCheck (Option (SPFResult × AnsiString))
  | [] => return none
  | mechanism :: mechanisms => do
    let outcome ← e.evaluateMechanism recur mechanism domain
    let s ← get
    if e.hasTooManyVoidTerms s then return some (.permError, [])
    else
      match outcome with
      | .error => return some (s.errorResult, [])
      | .no => evaluateMechanisms recur record domain wanted mechanisms
      | .yes => return some (← e.explained record domain wanted (resultOf mechanism.qualifier))

/-- The redirect of a record no directive of which matched. -/
def evaluateRedirect (recur : AnsiString → SPFCheck (SPFResult × AnsiString)) (record : SPFRecord)
    (domain : AnsiString) : SPFCheck (SPFResult × AnsiString) := do
  match record.redirectDomainSpec with
  | none => return (.neutral, [])
  | some domainSpec =>
    match ← e.resolveTargetName (some domainSpec) domain with
    | .syntaxError | .unusable => return (.permError, [])
    | .resolved targetName =>
      if !(← countTerm) then return (.permError, [])
      else
        let verdict ← recur targetName
        return if verdict.1 = .none then (.permError, []) else verdict

def evaluateRecord (recur : AnsiString → Bool → SPFCheck (SPFResult × AnsiString)) (record : SPFRecord)
    (domain : AnsiString) (wanted : Bool) : SPFCheck (SPFResult × AnsiString) := do
  if e.hasTooManyVoidTerms (← get) then return (.permError, [])
  else
    -- An include asks for no explanation.
    match ← e.evaluateMechanisms (fun name => Prod.fst <$> recur name false) record domain wanted record.mechanisms with
    | some verdict => return verdict
    | none => e.evaluateRedirect (recur · wanted) record domain

/-- `CheckDomain_` with `left` more levels of depth allowed: the result, and the explanation
    where one is wanted. -/
def checkDomain : Nat → AnsiString → Bool → SPFCheck (SPFResult × AnsiString)
  | 0, _, _ => return (.permError, [])
  | left + 1, domain, wanted => do
    let voidQueriesBefore := (← get).voidLookups
    let located ← e.locate domain
    countVoidTerm voidQueriesBefore
    match located with
    | .noRecord => return (.none, [])
    | .temporaryError => return (.tempError, [])
    | .ambiguous | .syntaxError => return (.permError, [])
    | .found record => e.evaluateRecord (checkDomain left) record domain wanted

/-- `Check`: the result and its explanation, and what the check has spent. -/
def check (domain : AnsiString) : (SPFResult × AnsiString) × SPFState :=
  (e.checkDomain (maximumDepth + 1) domain true).run {}

end SPFEvaluator
end HMailServer
