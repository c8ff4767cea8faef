import HMailServer.Sieve.Script

/- The evaluation of a Sieve script (`Common/Sieve/SieveEvaluator.cpp`). The
   members of the evaluator are split in two: what a script can read back
   (`Progress`) and what becomes of the message (`Outcome`), which only the
   delivery actions touch. The tests that look at the message, the vacation
   decision, and the fetching and parsing of included scripts are parameters. -/
namespace HMailServer
open Cut

structure VariableScope where
  privateVariables : WString → Option WString := fun _ => none
  globalNames : List WString := []
  matchVariables : List WString := []

structure SieveVacationDecision where
  recipient : WString
  subject : WString
  reason : WString
  handle : WString
  sender : WString
  days : Int
  secondsGiven : Bool
  seconds : Int
  mime : Bool
  originalSubject : WString
  originalMessageId : WString
  loopCount : Int
  deriving DecidableEq

structure SieveHeaderEdit where
  isAdd : Bool
  name : WString
  value : WString := []
  addLast : Bool := false
  indexGiven : Bool := false
  index : Int := 0
  indexFromEnd : Bool := false
  patternsGiven : Bool := false
  patterns : List WString := []
  matchType : WString := []
  caseSensitive : Bool := false
  deriving DecidableEq

structure SieveNotifyDecision where
  recipient : WString
  sender : WString
  importance : Int
  originalFrom : WString
  originalSubject : WString
  subject : WString
  loopCount : Int
  deriving DecidableEq

/-- What a test can read of the evaluator. -/
structure TestContext where
  variablesEnabled : Bool
  scope : VariableScope
  globalVariables : WString → Option WString
  flags : List WString

structure SieveEnvironment where
  loc : Locale
  getHeaderValues : WString → List WString
  -- the script text, empty where there is no such script
  includeFetch : WString → Bool → WString
  parse : WString → Option (List SieveCommand)
  -- the tests on the message: the answer, and what a successful `:matches` captured
  messageTest : WString → List SieveArgument → TestContext → Bool × Option (List WString)
  decideVacation : SieveArgumentSet → Option SieveVacationDecision

/-! ## What becomes of the message -/

/-- The actions on the message that a script executes. -/
inductive SieveAction where
  | keep
  | fileinto (mailbox : WString)
  | discard
  | redirect (target : WString) (copy : Bool)
  | reject (reason : WString)
  -- `addheader`, `deleteheader` and `notify` only leave their token
  | noted (token : WString)
  deriving DecidableEq

structure Outcome where
  actions : List WString := []
  keepLocal : Bool := true
  fileInto : WString := []
  redirects : List WString := []
  rejectGiven : Bool := false
  rejectReason : WString := []
  localDecided : Bool := false
  deriving DecidableEq

namespace Outcome

/-- A delivery action after a reject wins over it. -/
def cancelReject (o : Outcome) : Outcome :=
  if o.rejectGiven then { o with rejectGiven := false, rejectReason := [] } else o

def perform (o : Outcome) : SieveAction → Outcome
  | .keep =>
    let o := o.cancelReject
    { o with actions := o.actions ++ [wide "keep"], keepLocal := true, localDecided := true }
  | .fileinto mailbox =>
    let o := o.cancelReject
    { o with actions := o.actions ++ [wide "fileinto:" ++ mailbox], keepLocal := true, fileInto := mailbox,
             localDecided := true }
  | .discard =>
    { o with actions := o.actions ++ [wide "discard"], keepLocal := false, fileInto := [], localDecided := true }
  | .redirect target copy =>
    let o := { o with actions := o.actions ++ [wide "redirect:" ++ target], redirects := o.redirects ++ [target] }
    let o := o.cancelReject
    if !copy && !o.localDecided then { o with keepLocal := false, localDecided := true } else o
  | .reject reason =>
    -- ignored once the local copy is decided
    if o.localDecided then o
    else { o with rejectGiven := true, rejectReason := reason, keepLocal := false, localDecided := true,
                  actions := o.actions ++ [wide "reject"] }
  | .noted token => { o with actions := o.actions ++ [token] }

end Outcome

/-! ## Variables -/

structure Progress where
  stopped : Bool := false
  returned : Bool := false
  variablesEnabled : Bool := false
  -- the scope of the running script first
  scopes : List VariableScope := [{}]
  globalVariables : WString → Option WString := fun _ => none
  includeDepth : Nat := 0
  includedOnce : List WString := []
  flags : List WString := []
  flagsTouched : Bool := false
  pinnedFlags : List WString := []
  pinnedFlagsGiven : Bool := false
  vacationDecided : Bool := false
  vacation : Option SieveVacationDecision := none
  headerEdits : List SieveHeaderEdit := []
  notifications : List SieveNotifyDecision := []

namespace SieveEvaluator

variable (env : SieveEnvironment)

local instance lawfulNames : LawfulBEq WString := inferInstance

def isVariableName (name : WString) : Bool :=
  name ≠ [] && name.all fun c => (48 ≤ c && c ≤ 57) || (97 ≤ c && c ≤ 122) || (65 ≤ c && c ≤ 90) || c == 95

/-- The value of a valid reference; nothing where it is unset. -/
def variableValue (p : Progress) (name : WString) : WString :=
  match p.scopes with
  | [] => []
  | scope :: _ =>
    if name.all fun c => 48 ≤ c && c ≤ 57 then scope.matchVariables.getD (WString.ttoi 32 name).toNat []
    else
      let lowerName := WString.makeLower env.loc name
      if lowerName ∈ scope.globalNames then (p.globalVariables lowerName).getD []
      else (scope.privateVariables lowerName).getD []

theorem cut_length {c : WChar} {s a b : WString} (h : cut c s = some (a, b)) : b.length < s.length := by
  obtain ⟨rfl, _⟩ := eq_of_cut h
  simp
  omega

def expandString (p : Progress) : WString → WString
  | [] => []
  | 36 :: 123 :: rest =>
    match h : cut 125 rest with
    | none => 36 :: expandString p (123 :: rest)
    | some (name, after) =>
      if isVariableName name then variableValue env p name ++ expandString p after
      else 36 :: expandString p (123 :: rest)
  | c :: rest => c :: expandString p rest
  termination_by s => s.length
  decreasing_by
    all_goals simp only [List.length_cons]
    all_goals first | omega | (have hlt := cut_length h; omega)

def expandArgumentSet (p : Progress) (set : SieveArgumentSet) : SieveArgumentSet :=
  { set with
    stringLists := set.stringLists.map fun list => list.map (expandString env p)
    subject := expandString env p set.subject
    handle := expandString env p set.handle
    fromAddress := expandString env p set.fromAddress
    uniqueId := expandString env p set.uniqueId
    duplicateHeader := expandString env p set.duplicateHeader
    addresses := set.addresses.map (expandString env p)
    flags := set.flags.map (expandString env p) }

/-- The arguments of a command, expanded where variables are enabled. -/
def commandArguments (p : Progress) (arguments : List SieveArgument) : Option SieveArgumentSet :=
  match SieveParser.splitArguments env.loc arguments {} with
  | .error _ => none
  | .ok set => some (if p.variablesEnabled then expandArgumentSet env p set else set)

def firstString (set : SieveArgumentSet) : WString := (set.stringLists.headD []).headD []

/-- The one string of the one list, where there is just that. -/
def onlyString (set : SieveArgumentSet) : Option WString :=
  match set.stringLists with
  | [[value]] => some value
  | _ => none

/-! ## Tests -/

/-- A test on the message; what it captured becomes the match variables of the
    running script. -/
def runMessageTest (p : Progress) (name : WString) (arguments : List SieveArgument) : Bool × Progress :=
  match p.scopes with
  | [] => (false, p)
  | scope :: outer =>
    match env.messageTest name arguments ⟨p.variablesEnabled, scope, p.globalVariables, p.flags⟩ with
    | (answer, none) => (answer, p)
    | (answer, some captures) => (answer, { p with scopes := { scope with matchVariables := captures } :: outer })

mutual

def evaluateTest : SieveTest → Progress → Bool × Progress
  | .mk name arguments tests, p =>
    let name := WString.makeLower env.loc name
    if name = wide "true" then (true, p)
    else if name = wide "false" then (false, p)
    else if name = wide "not" then
      match tests with
      | [] => (false, p)
      | test :: _ => (!(evaluateTest test p).1, (evaluateTest test p).2)
    else if name = wide "allof" then evaluateAll tests p
    else if name = wide "anyof" then evaluateAny tests p
    else runMessageTest env p name arguments

def evaluateAll : List SieveTest → Progress → Bool × Progress
  | [], p => (true, p)
  | test :: tests, p =>
    if (evaluateTest test p).1 then evaluateAll tests (evaluateTest test p).2 else (false, (evaluateTest test p).2)

def evaluateAny : List SieveTest → Progress → Bool × Progress
  | [], p => (false, p)
  | test :: tests, p =>
    if (evaluateTest test p).1 then (true, (evaluateTest test p).2) else evaluateAny tests (evaluateTest test p).2

end

/-- No test is a failed test. -/
def evaluateCondition (test : Option SieveTest) (p : Progress) : Bool × Progress :=
  match test with
  | none => (false, p)
  | some test => evaluateTest env test p

/-! ## Commands -/

inductive FlagChange where
  | set
  | add
  | remove
  deriving DecidableEq

inductive SieveVerb where
  | keep | fileinto | discard | redirect | stop | flag (change : FlagChange) | vacation | addheader | deleteheader
  | set | reject | includeScript | notify | returnScript | global | require
  deriving DecidableEq

/-- The names `ExecuteCommand_` compares with, in its order. -/
def verbs : List (WString × SieveVerb) :=
  [(wide "keep", .keep), (wide "fileinto", .fileinto), (wide "discard", .discard), (wide "redirect", .redirect),
    (wide "stop", .stop), (wide "setflag", .flag .set), (wide "addflag", .flag .add),
    (wide "removeflag", .flag .remove), (wide "vacation", .vacation), (wide "addheader", .addheader),
    (wide "deleteheader", .deleteheader), (wide "set", .set), (wide "reject", .reject), (wide "ereject", .reject),
    (wide "include", .includeScript), (wide "notify", .notify), (wide "return", .returnScript), (wide "global", .global),
    (wide "require", .require)]

def listContainsNoCase (values : List WString) (candidate : WString) : Bool :=
  values.any fun value => WString.equalsNoCase value candidate

/-- `setflag`, `addflag` and `removeflag`. -/
def executeFlagCommand (p : Progress) (change : FlagChange) (arguments : List SieveArgument) : Progress :=
  match commandArguments env p arguments with
  | none => p
  | some set =>
    match set.stringLists with
    | [] => p
    | list :: _ =>
      let given := SieveParser.splitFlagList list
      let p := { p with flagsTouched := true }
      match change with
      | .set => { p with flags := given }
      | .add =>
        let addTo := fun (flags : List WString) flag => if listContainsNoCase flags flag then flags else flags ++ [flag]
        { p with flags := given.foldl addTo p.flags }
      | .remove => { p with flags := p.flags.filter fun flag => !listContainsNoCase given flag }

/-- At most one vacation response is decided. -/
def executeVacation (p : Progress) (arguments : List SieveArgument) : Progress :=
  if p.vacationDecided then p
  else
    let p := { p with vacationDecided := true }
    match commandArguments env p arguments with
    | none => p
    | some set =>
      match set.stringLists with
      | (_ :: _) :: _ =>
        match env.decideVacation set with
        | none => p
        | some decision => { p with vacation := some decision }
      | _ => p

/-- The edit an `addheader` asks for. -/
def addedHeader (set : SieveArgumentSet) : Option SieveHeaderEdit :=
  match set.stringLists with
  | [[fieldName], [value]] => some { isAdd := true, name := fieldName, value := value, addLast := set.lastGiven }
  | _ => none

/-- The edit a `deleteheader` asks for. -/
def deletedHeader (set : SieveArgumentSet) : Option SieveHeaderEdit :=
  match set.stringLists with
  | [fieldName] :: patterns =>
    let edit : SieveHeaderEdit :=
      { isAdd := false, name := fieldName, indexGiven := set.indexGiven, index := set.indexValue,
        indexFromEnd := set.lastGiven && set.indexGiven }
    match patterns with
    | [] => some edit
    | list :: _ =>
      some { edit with
        patternsGiven := true, patterns := list,
        matchType := if set.matchTypeGiven then set.matchType else wide "is",
        caseSensitive := set.comparatorGiven && set.comparator == wide "i;octet" }
  | _ => none

/-- The notification a `notify` asks for: the `mailto` method only, and none for
    a message that is itself auto-submitted. -/
def notifyDecision (p : Progress) (arguments : List SieveArgument) : Option SieveNotifyDecision :=
  match env.getHeaderValues (wide "Auto-Submitted") with
  | first :: _ => if WString.equalsNoCase first (wide "no") then decide p arguments else none
  | [] => decide p arguments
where
  decide (p : Progress) (arguments : List SieveArgument) : Option SieveNotifyDecision :=
    match commandArguments env p arguments with
    | none => none
    | some set =>
      match onlyString set with
      | none => none
      | some method =>
        if !WString.equalsNoCase (method.take 7) (wide "mailto:") then none
        else
          let originalSubject := (env.getHeaderValues (wide "Subject")).headD []
          let target := method.drop 7
          some {
            recipient := match cut 63 target with
              | none => target
              | some (address, _) => address
            sender := if set.fromGiven then set.fromAddress else []
            importance := if set.importanceGiven then set.importance else 2
            originalFrom := (env.getHeaderValues (wide "From")).headD []
            originalSubject := originalSubject
            subject := if set.notifyMessageGiven && set.notifyMessage ≠ [] then set.notifyMessage
              else wide "New message: " ++ originalSubject
            loopCount := match env.getHeaderValues (wide "X-hMailServer-LoopCount") with
              | [] => 0
              | count :: _ => WString.ttoi 32 count }

/-- Changes the scope of the running script. -/
def modifyScope (p : Progress) (f : VariableScope → VariableScope) : Progress :=
  match p.scopes with
  | [] => p
  | scope :: outer => { p with scopes := f scope :: outer }

/-- The modifiers of `set`, in their order of precedence. -/
def modifyValue (tags : List WString) (value : WString) : WString :=
  let value :=
    if wide "lower" ∈ tags then WString.makeLower env.loc value
    else if wide "upper" ∈ tags then WString.makeUpper env.loc value
    else value
  let value :=
    match value with
    | [] => []
    | c :: rest =>
      if wide "lowerfirst" ∈ tags then env.loc.toLower c :: rest
      else if wide "upperfirst" ∈ tags then env.loc.toUpper c :: rest
      else c :: rest
  let value :=
    if wide "quotewildcard" ∈ tags then value.flatMap fun c => if c = 42 ∨ c = 63 ∨ c = 92 then [92, c] else [c]
    else value
  if wide "length" ∈ tags then SieveParser.decimal value.length else value

/-- The value is expanded whether or not variables are enabled. -/
def executeSetCommand (p : Progress) (arguments : List SieveArgument) : Progress :=
  match SieveParser.splitArguments env.loc arguments {} with
  | .error _ => p
  | .ok set =>
    match set.stringLists with
    | [[name], [text]] =>
      let name := WString.makeLower env.loc name
      let value := modifyValue env set.tags (expandString env p text)
      match p.scopes with
      | [] => p
      | scope :: _ =>
        if name ∈ scope.globalNames then
          { p with globalVariables := fun n => if n = name then some value else p.globalVariables n }
        else modifyScope p fun scope =>
          { scope with privateVariables := fun n => if n = name then some value else scope.privateVariables n }
    | _ => p

def executeGlobal (p : Progress) (arguments : List SieveArgument) : Progress :=
  match SieveParser.splitArguments env.loc arguments {} with
  | .error _ => p
  | .ok set =>
    match set.stringLists with
    | [names] =>
      let lowerNames := names.map (WString.makeLower env.loc)
      modifyScope p fun scope => { scope with globalNames := lowerNames.foldl (fun known name => known.insert name) scope.globalNames }
    | _ => p

def executeRequire (p : Progress) (arguments : List SieveArgument) : Progress :=
  let named := arguments.any fun
    | .stringList strings _ => strings.any fun extension => WString.equalsNoCase extension (wide "variables")
    | _ => false
  if named then { p with variablesEnabled := true } else p

/-- `:flags` on a keep or fileinto. -/
def pinFlags (p : Progress) (set : SieveArgumentSet) : Progress :=
  if set.flagsGiven then { p with pinnedFlags := set.flags, pinnedFlagsGiven := true } else p

/-- `ExecuteCommand_` but for `include`: what it changes, and the action on the
    message it executes. -/
def executeVerb (p : Progress) (arguments : List SieveArgument) : SieveVerb → Progress × Option SieveAction
  | .keep =>
    match commandArguments env p arguments with
    | none => (p, none)
    | some set => (pinFlags p set, some .keep)
  | .fileinto =>
    match commandArguments env p arguments with
    | none => (p, none)
    | some set => (pinFlags p set, some (.fileinto (firstString set)))
  | .discard => (p, some .discard)
  | .redirect =>
    match commandArguments env p arguments with
    | none => (p, none)
    | some set => (p, some (.redirect (firstString set) set.copy))
  | .stop => ({ p with stopped := true }, none)
  | .flag change => (executeFlagCommand env p change arguments, none)
  | .vacation => (executeVacation env p arguments, none)
  | .addheader =>
    match (commandArguments env p arguments).bind addedHeader with
    | none => (p, none)
    | some edit =>
      ({ p with headerEdits := p.headerEdits ++ [edit] }, some (.noted (wide "addheader:" ++ edit.name)))
  | .deleteheader =>
    match (commandArguments env p arguments).bind deletedHeader with
    | none => (p, none)
    | some edit =>
      ({ p with headerEdits := p.headerEdits ++ [edit] }, some (.noted (wide "deleteheader:" ++ edit.name)))
  | .set => (executeSetCommand env p arguments, none)
  | .reject =>
    match (commandArguments env p arguments).bind onlyString with
    | none => (p, none)
    | some reason => (p, some (.reject reason))
  | .notify =>
    match notifyDecision env p arguments with
    | none => (p, none)
    | some decision =>
      ({ p with notifications := p.notifications ++ [decision] }, some (.noted (wide "notify:" ++ decision.recipient)))
  | .returnScript =>
    -- at the top level it behaves like stop
    (if 0 < p.includeDepth then { p with returned := true } else { p with stopped := true }, none)
  | .global => (executeGlobal env p arguments, none)
  | .require => (executeRequire p arguments, none)
  | .includeScript => (p, none)

/-- The verb of a command; any other name does nothing. -/
def verbOf (c : SieveCommand) : Option SieveVerb := verbs.lookup (WString.makeLower env.loc c.name)

def executeCommand (p : Progress) (c : SieveCommand) : Progress × Option SieveAction :=
  match verbOf env c with
  | none => (p, none)
  | some verb => executeVerb env p c.arguments verb

/-! ## Scripts -/

structure EvaluatorState where
  progress : Progress := {}
  outcome : Outcome := {}
  -- what the script executed, for the statements about it; the code keeps the tokens only
  executed : List SieveAction := []

def EvaluatorState.act (s : EvaluatorState) (change : Progress × Option SieveAction) : EvaluatorState :=
  match change with
  | (p, none) => { s with progress := p }
  | (p, some action) =>
    { progress := p, outcome := s.outcome.perform action, executed := s.executed ++ [action] }

/-- The script an `include` is to run, with the key of the `:once` ledger where
    it is given. -/
def includedScript (p : Progress) (arguments : List SieveArgument) : Option (List SieveCommand × Option WString) :=
  match SieveParser.splitArguments env.loc arguments {} with
  | .error _ => none
  | .ok set =>
    match onlyString set with
    | none => none
    | some scriptName =>
      let isGlobal : Bool := wide "global" ∈ set.tags
      let once : Bool := wide "once" ∈ set.tags
      if 3 ≤ p.includeDepth then none
      else
        let onceKey := (if isGlobal then wide "g:" else wide "p:") ++ scriptName
        if once && p.includedOnce.contains onceKey then none
        else
          let scriptText := env.includeFetch scriptName isGlobal
          if scriptText = [] then none
          else match env.parse scriptText with
            | none => none
            | some commands => some (commands, if once then some onceKey else none)

/-- What an included script starts with. -/
def enterInclude (p : Progress) (onceKey : Option WString) : Progress :=
  { p with
    includedOnce := match onceKey with
      | none => p.includedOnce
      | some key => p.includedOnce.insert key
    scopes := {} :: p.scopes
    includeDepth := p.includeDepth + 1 }

/-- The way out of an included script: `parentVariablesEnabled` is restored, and
    a `return` goes no further. -/
def leaveInclude (parentVariablesEnabled : Bool) (p : Progress) : Progress :=
  { p with
    variablesEnabled := parentVariablesEnabled
    includeDepth := p.includeDepth - 1
    scopes := p.scopes.tail
    returned := false }

/-- `include`, the execution of the included commands being given. -/
def executeInclude (runScript : List SieveCommand → EvaluatorState → EvaluatorState) (s : EvaluatorState)
    (c : SieveCommand) : EvaluatorState :=
  match includedScript env s.progress c.arguments with
  | none => s
  | some (commands, onceKey) =>
    let inner := runScript commands { s with progress := enterInclude s.progress onceKey }
    { inner with progress := leaveInclude s.progress.variablesEnabled inner.progress }

def isIf (c : SieveCommand) : Bool := WString.equalsNoCase c.name (wide "if")
def isElsif (c : SieveCommand) : Bool := WString.equalsNoCase c.name (wide "elsif")
def isElse (c : SieveCommand) : Bool := WString.equalsNoCase c.name (wide "else")

/-- `ExecuteCommands_`. The pending chain is the `elsif` and `else` that follow an
    `if`, with whether a branch was taken. -/
def executeCommands (runScript : List SieveCommand → EvaluatorState → EvaluatorState) :
    Option Bool → List SieveCommand → EvaluatorState → EvaluatorState
  | _, [], s => s
  | chain, .mk name arguments test block :: rest, s =>
    let c := SieveCommand.mk name arguments test block
    let condition := evaluateCondition env test s.progress
    if chain.isSome && (isElsif c || isElse c) then
      if chain = some true ∨ s.progress.stopped then executeCommands runScript chain rest s
      else if isElsif c then
        if condition.1 then
          executeCommands runScript (some true) rest
            (executeCommands runScript none block { s with progress := condition.2 })
        else executeCommands runScript (some false) rest { s with progress := condition.2 }
      else executeCommands runScript (some true) rest (executeCommands runScript none block s)
    else if s.progress.stopped || s.progress.returned then s
    else if isIf c then
      if condition.1 then
        executeCommands runScript (some true) rest
          (executeCommands runScript none block { s with progress := condition.2 })
      else executeCommands runScript (some false) rest { s with progress := condition.2 }
    else if verbOf env c = some .includeScript then
      executeCommands runScript none rest (executeInclude env runScript s c)
    else executeCommands runScript none rest (s.act (executeCommand env s.progress c))

/-- Scripts nested up to `left` includes further. -/
def runScript : Nat → List SieveCommand → EvaluatorState → EvaluatorState
  | 0, commands, s => executeCommands env (fun _ s => s) none commands s
  | left + 1, commands, s => executeCommands env (runScript left) none commands s

structure SieveResult where
  keepLocal : Bool
  fileInto : WString
  flagsGiven : Bool
  flags : List WString
  redirects : List WString
  headerEdits : List SieveHeaderEdit
  notifications : List SieveNotifyDecision
  vacation : Option SieveVacationDecision
  rejectGiven : Bool
  rejectReason : WString
  deriving DecidableEq

/-- The implicit keep. -/
def Outcome.close (o : Outcome) : Outcome :=
  if o.localDecided then o else { o with actions := o.actions ++ [wide "keep"], keepLocal := true }

def finish (p : Progress) (o : Outcome) : SieveResult where
  keepLocal := (Outcome.close o).keepLocal
  fileInto := o.fileInto
  flagsGiven := p.pinnedFlagsGiven || p.flagsTouched
  flags := if p.pinnedFlagsGiven then p.pinnedFlags else if p.flagsTouched then p.flags else []
  redirects := o.redirects
  headerEdits := p.headerEdits
  notifications := p.notifications
  vacation := p.vacation
  rejectGiven := o.rejectGiven
  rejectReason := o.rejectReason

/-- The summary line. -/
def summary (o : Outcome) (result : SieveResult) : WString :=
  [59].intercalate (Outcome.close o).actions ++
    (if result.flagsGiven then wide ";flags:" ++ [32].intercalate result.flags else []) ++
    (if result.vacation.isSome then wide ";vacation" else [])

/-- The depth of includes is bounded at three. -/
def run (commands : List SieveCommand) : EvaluatorState := runScript env 3 commands {}

def evaluate (commands : List SieveCommand) : WString × SieveResult :=
  let s := run env commands
  let result := finish s.progress s.outcome
  (summary s.outcome result, result)

end SieveEvaluator
end HMailServer
