import HMailServer.Sieve.Delivery

/- The actions of a script and the result it ends with. What a script executes
   does not depend on what becomes of the message, so taking rejects out of it
   leaves the other actions as they were. -/
namespace HMailServer

open SieveAction Outcome

namespace SieveEvaluator

/-! ## Reading no other script -/

section

variable (env : SieveEnvironment) (parse' : WString → Option (List SieveCommand))

theorem expandString_parse (p : Progress) (s : WString) :
    expandString { env with parse := parse' } p s = expandString env p s := by
  fun_induction expandString env p s with
  | case1 => simp [expandString]
  | case2 rest h ih => rw [expandString]; split <;> simp_all
  | case3 rest name after h hname ih =>
    rw [expandString]
    split
    · simp_all
    · rename_i h'
      rw [h] at h'
      cases h'
      rw [if_pos hname, ih]
      rfl
  | case4 rest name after h hname ih => 
    rw [expandString]
    split
    · simp_all
    · rename_i h'
      rw [h] at h'
      cases h'
      rw [if_neg hname, ih]
  | case5 c rest h ih => 
    rw [expandString.eq_3 _ _ _ _ h, ih]

theorem expandArgumentSet_parse (p : Progress) (set : SieveArgumentSet) :
    expandArgumentSet { env with parse := parse' } p set = expandArgumentSet env p set := by
  have h : expandString { env with parse := parse' } p = expandString env p := funext (expandString_parse env parse' p)
  unfold expandArgumentSet
  rw [h]

theorem commandArguments_parse (p : Progress) (arguments : List SieveArgument) :
    commandArguments { env with parse := parse' } p arguments = commandArguments env p arguments := by
  unfold commandArguments
  simp only [expandArgumentSet_parse]

theorem executeVerb_parse (p : Progress) (arguments : List SieveArgument) (verb : SieveVerb) :
    executeVerb { env with parse := parse' } p arguments verb = executeVerb env p arguments verb := by
  cases verb with
  | stop => rfl
  | discard => rfl
  | returnScript => rfl
  | includeScript => rfl
  | global => rfl
  | require => rfl
  | _ =>
    simp only [executeVerb, executeFlagCommand, executeVacation, executeSetCommand, notifyDecision,
      notifyDecision.decide, commandArguments_parse, expandString_parse, modifyValue]


mutual

theorem evaluateTest_parse : ∀ (test : SieveTest) (p : Progress),
    evaluateTest { env with parse := parse' } test p = evaluateTest env test p
  | .mk name arguments tests, p => by
    unfold evaluateTest
    rw [evaluateAll_parse tests p, evaluateAny_parse tests p]
    cases tests with
    | nil => rfl
    | cons test tests => 
      simp only [evaluateTest_parse test p]
      rfl

theorem evaluateAll_parse : ∀ (tests : List SieveTest) (p : Progress),
    evaluateAll { env with parse := parse' } tests p = evaluateAll env tests p
  | [], p => by rw [evaluateAll, evaluateAll]
  | test :: tests, p => by
    rw [evaluateAll, evaluateAll, evaluateTest_parse test p, evaluateAll_parse tests]

theorem evaluateAny_parse : ∀ (tests : List SieveTest) (p : Progress),
    evaluateAny { env with parse := parse' } tests p = evaluateAny env tests p
  | [], p => by rw [evaluateAny, evaluateAny]
  | test :: tests, p => by
    rw [evaluateAny, evaluateAny, evaluateTest_parse test p, evaluateAny_parse tests]

end

theorem evaluateCondition_parse (test : Option SieveTest) (p : Progress) :
    evaluateCondition { env with parse := parse' } test p = evaluateCondition env test p := by
  cases test with
  | none => rfl
  | some test => exact evaluateTest_parse env parse' test p

theorem executeCommand_parse (p : Progress) (c : SieveCommand) :
    executeCommand { env with parse := parse' } p c = executeCommand env p c := by
  have hverb : verbOf { env with parse := parse' } c = verbOf env c := rfl
  unfold executeCommand
  rw [hverb]
  split
  · rfl
  · exact executeVerb_parse env parse' p c.arguments _

end

/-! ## The outcome follows the actions -/

/-- The outcome is that of the executed actions. -/
def Faithful (s : EvaluatorState) : Prop := s.outcome = ofActions s.executed

variable {env : SieveEnvironment} {callScript : List SieveCommand → EvaluatorState → EvaluatorState}

theorem act_faithful {s : EvaluatorState} (h : Faithful s) (change : Progress × Option SieveAction) :
    Faithful (s.act change) := by
  obtain ⟨p, _ | action⟩ := change
  · exact h
  · show s.outcome.perform action = ofActions (s.executed ++ [action])
    rw [ofActions_concat, h]

theorem executeInclude_faithful (h : ∀ commands s, Faithful s → Faithful (callScript commands s)) {s : EvaluatorState}
    (hs : Faithful s) (c : SieveCommand) : Faithful (executeInclude env callScript s c) := by
  unfold executeInclude
  split
  · exact hs
  · exact h _ { s with progress := _ } hs

theorem executeCommands_faithful (h : ∀ commands s, Faithful s → Faithful (callScript commands s))
    (chain : Option Bool) (commands : List SieveCommand) (s : EvaluatorState) :
    Faithful s → Faithful (executeCommands env callScript chain commands s) :=
  executeCommands_rule (fun s t => Faithful s → Faithful t) (fun _ hs => hs) (fun h h' hs => h' (h hs))
    (fun _ _ hs => hs) (fun _ _ hs => act_faithful hs _) (fun c _ hs => executeInclude_faithful h hs c)
    chain commands s

theorem runScript_faithful (left : Nat) (commands : List SieveCommand) (s : EvaluatorState) (hs : Faithful s) :
    Faithful (runScript env left commands s) := by
  induction left generalizing commands s with
  | zero => exact executeCommands_faithful (fun _ _ hs => hs) none commands s hs
  | succ left ih => exact executeCommands_faithful ih none commands s hs

theorem run_faithful (env : SieveEnvironment) (commands : List SieveCommand) : Faithful (run env commands) :=
  runScript_faithful 3 commands {} rfl

/-! ## Scripts without some of their rejects -/

/-- No `elsif` or `else` comes next. -/
def Unchained (commands : List SieveCommand) : Prop :=
  ∀ c ∈ commands.head?, isElsif c = false ∧ isElse c = false

/-- The second script is the first without some of its rejects. A reject is not
    part of a chain, and the parser lets no branch follow it. -/
inductive Without (env : SieveEnvironment) : List SieveCommand → List SieveCommand → Prop
  | nil : Without env [] []
  | drop {c : SieveCommand} {rest rest' : List SieveCommand} (hreject : verbOf env c = some .reject)
      (hif : isIf c = false) (hchain : Unchained (c :: rest)) (hnext : Unchained rest)
      (h : Without env rest rest') : Without env (c :: rest) rest'
  | cons {block block' rest rest' : List SieveCommand} (name : WString) (arguments : List SieveArgument)
      (test : Option SieveTest) (hblock : Without env block block') (h : Without env rest rest') :
      Without env (.mk name arguments test block :: rest) (.mk name arguments test block' :: rest')

/-- Nothing but executed rejects tells the two states apart. -/
structure Alike (s t : EvaluatorState) : Prop where
  progress : s.progress = t.progress
  executed : withoutRejects s.executed = withoutRejects t.executed

theorem Alike.act {s t : EvaluatorState} (h : Alike s t) (change : Progress × Option SieveAction) :
    Alike (s.act change) (t.act change) := by
  obtain ⟨p, _ | action⟩ := change
  · exact ⟨rfl, h.executed⟩
  · refine ⟨rfl, ?_⟩
    show withoutRejects (s.executed ++ [action]) = withoutRejects (t.executed ++ [action])
    rw [withoutRejects_concat, withoutRejects_concat, h.executed]

/-- A reject changes nothing that a script can read. -/
theorem act_reject {s : EvaluatorState} {c : SieveCommand} (h : verbOf env c = some .reject) :
    Alike (s.act (executeCommand env s.progress c)) s := by
  unfold executeCommand
  rw [h]
  dsimp only [executeVerb]
  split
  · exact ⟨rfl, rfl⟩
  · refine ⟨rfl, ?_⟩
    show withoutRejects (s.executed ++ [_]) = _
    rw [withoutRejects_concat]
    rfl

theorem executeCommands_unchained {commands : List SieveCommand} (h : Unchained commands) (chain : Option Bool)
    (s : EvaluatorState) :
    executeCommands env callScript chain commands s = executeCommands env callScript none commands s := by
  cases commands with
  | nil => rw [executeCommands, executeCommands]
  | cons c rest =>
    obtain ⟨name, arguments, test, block⟩ := c
    obtain ⟨helsif, helse⟩ := h _ rfl
    rw [executeCommands, if_neg (by simp [helsif, helse])]
    conv_rhs => rw [executeCommands, if_neg (by simp)]

/-- Outside a chain nothing is executed after a `stop` or a `return`. -/
theorem executeCommands_ended (commands : List SieveCommand) {s : EvaluatorState}
    (h : (s.progress.stopped || s.progress.returned) = true) : executeCommands env callScript none commands s = s := by
  cases commands with
  | nil => rw [executeCommands]
  | cons c rest =>
    obtain ⟨name, arguments, test, block⟩ := c
    rw [executeCommands, if_neg (by simp), if_pos h]

/-- A reject passed over. -/
theorem executeCommands_reject {c : SieveCommand} {rest : List SieveCommand} (hreject : verbOf env c = some .reject)
    (hif : isIf c = false) (hchain : Unchained (c :: rest)) (hnext : Unchained rest) (chain : Option Bool)
    (s : EvaluatorState) :
    ∃ t, Alike t s ∧ executeCommands env callScript chain (c :: rest) s = executeCommands env callScript chain rest t := by
  rw [executeCommands_unchained hchain]
  cases hended : s.progress.stopped || s.progress.returned with
  | true =>
    refine ⟨s, ⟨rfl, rfl⟩, ?_⟩
    rw [executeCommands_unchained hnext, executeCommands_ended _ hended, executeCommands_ended _ hended]
  | false =>
    refine ⟨s.act (executeCommand env s.progress c), act_reject hreject, ?_⟩
    obtain ⟨name, arguments, test, block⟩ := c
    rw [executeCommands_unchained hnext, executeCommands, if_neg (by simp), if_neg (by simp [hended]),
      if_neg (by simp [hif]), if_neg (by rw [hreject]; simp)]

section

variable {parse' : WString → Option (List SieveCommand)}
  {callScript' : List SieveCommand → EvaluatorState → EvaluatorState}

/-- The two ways of running included scripts take scripts apart by rejects to
    states apart by rejects. -/
def CallsAlike (env : SieveEnvironment) (callScript callScript' : List SieveCommand → EvaluatorState → EvaluatorState) :
    Prop :=
  ∀ commands commands' s s', Without env commands commands' → Alike s s' →
    Alike (callScript commands s) (callScript' commands' s')

theorem includedScript_without (hparse : ∀ text, Option.Rel (Without env) (env.parse text) (parse' text)) (p : Progress)
    (arguments : List SieveArgument) :
    Option.Rel (fun found found' => Without env found.1 found'.1 ∧ found.2 = found'.2)
      (includedScript env p arguments) (includedScript { env with parse := parse' } p arguments) := by
  unfold includedScript
  dsimp only
  split
  · exact .none
  rename_i set hset
  split
  · exact .none
  rename_i scriptName hname
  split
  · exact .none
  generalize (if decide (wide "global" ∈ set.tags) = true then wide "g:" else wide "p:") ++ scriptName = onceKey
  split
  · exact .none
  split
  · exact .none
  have h := hparse (env.includeFetch scriptName (decide (wide "global" ∈ set.tags)))
  generalize env.parse _ = found at h ⊢
  generalize parse' _ = found' at h ⊢
  cases h with
  | none => exact .none
  | some h => exact .some ⟨h, rfl⟩

theorem executeInclude_without (hparse : ∀ text, Option.Rel (Without env) (env.parse text) (parse' text))
    (hcall : CallsAlike env callScript callScript') {s s' : EvaluatorState} (hs : Alike s s') (c c' : SieveCommand)
    (hc : c.arguments = c'.arguments) :
    Alike (executeInclude env callScript s c) (executeInclude { env with parse := parse' } callScript' s' c') := by
  have h := includedScript_without hparse s.progress c.arguments
  unfold executeInclude
  rw [← hc, ← hs.progress]
  generalize includedScript env s.progress c.arguments = found at h ⊢
  generalize includedScript { env with parse := parse' } s.progress c.arguments = found' at h ⊢
  cases h with
  | none => exact hs
  | @some found found' h =>
    obtain ⟨commands, onceKey⟩ := found
    obtain ⟨commands', onceKey'⟩ := found'
    obtain ⟨hcommands, rfl⟩ := h
    have hinner := hcall commands commands' { s with progress := enterInclude s.progress onceKey }
      { s' with progress := enterInclude s.progress onceKey } hcommands ⟨rfl, hs.executed⟩
    exact ⟨congrArg (leaveInclude s.progress.variablesEnabled) hinner.progress, hinner.executed⟩

theorem executeCommands_without (hparse : ∀ text, Option.Rel (Without env) (env.parse text) (parse' text))
    (hcall : CallsAlike env callScript callScript') {commands commands' : List SieveCommand}
    (h : Without env commands commands') (chain : Option Bool) {s s' : EvaluatorState} (hs : Alike s s') :
    Alike (executeCommands env callScript chain commands s)
      (executeCommands { env with parse := parse' } callScript' chain commands' s') := by
  induction h generalizing chain s s' with
  | nil =>
    rw [executeCommands, executeCommands]
    exact hs
  | drop hreject hif hchain hnext _ ih =>
    obtain ⟨t, ht, hrun⟩ := @executeCommands_reject env callScript _ _ hreject hif hchain hnext chain s
    rw [hrun]
    exact ih chain ⟨ht.progress.trans hs.progress, ht.executed.trans hs.executed⟩
  | @cons block block' rest rest' name arguments test _ _ ihblock ih =>
    have hcondition : Alike { s with progress := (evaluateCondition env test s.progress).2 }
        { s' with progress := (evaluateCondition env test s.progress).2 } := ⟨rfl, hs.executed⟩
    have hcommand : executeCommand env s.progress (.mk name arguments test block') =
        executeCommand env s.progress (.mk name arguments test block) := rfl
    rw [executeCommands, executeCommands, ← hs.progress, evaluateCondition_parse env parse',
      executeCommand_parse env parse', hcommand]
    -- both commands have one name, so that they take the same way
    change Alike _ (if (chain.isSome && (isElsif (.mk name arguments test block) ||
      isElse (.mk name arguments test block))) = true then
        if chain = some true ∨ s.progress.stopped = true then _
        else if isElsif (.mk name arguments test block) = true then _ else _
      else if (s.progress.stopped || s.progress.returned) = true then _
      else if isIf (.mk name arguments test block) = true then _
      else if verbOf env (.mk name arguments test block) = some .includeScript then _ else _)
    split
    · split
      · exact ih chain hs
      split
      · split
        · exact ih _ (ihblock none hcondition)
        · exact ih _ hcondition
      · exact ih _ (ihblock none hs)
    split
    · exact hs
    split
    · split
      · exact ih _ (ihblock none hcondition)
      · exact ih _ hcondition
    split
    · exact ih _ (executeInclude_without hparse hcall hs _ _ rfl)
    · exact ih _ (hs.act _)

theorem runScript_without (hparse : ∀ text, Option.Rel (Without env) (env.parse text) (parse' text)) (left : Nat) :
    CallsAlike env (runScript env left) (runScript { env with parse := parse' } left) := by
  induction left with
  | zero =>
    intro commands commands' s s' h hs
    exact executeCommands_without hparse (fun _ _ _ _ _ hs => hs) h none hs
  | succ left ih =>
    intro commands commands' s s' h hs
    exact executeCommands_without hparse ih h none hs

end

/-- What becomes of the message is what the executed actions ask for, exactly in
    the orders of actions given: a local copy is kept where it was asked for, a
    reject that stands is not combined with a delivery, and a cancelled reject
    leaves the result of the script without it. -/
theorem combined_actions (env : SieveEnvironment) (commands : List SieveCommand) :
    let T := (run env commands).executed
    let result := (evaluate env commands).2
    ((result.keepLocal = true ↔
        T.any keeps = true ∨ (.discard ∉ T ∧ T.any redirectsAway = false ∧ result.rejectGiven = false)) ↔
      Undiscarded T ∧ (T.any keeps = true ∨ .discard ∈ T ∨ T.any redirectsAway = true ∨ ¬RejectedThenCopied T)) ∧
    ((¬(result.rejectGiven = true ∧ (result.keepLocal = true ∨ result.redirects ≠ []))) ↔ ¬CopiedThenRejected T) ∧
    ∀ parse' commands', (∀ text, Option.Rel (Without env) (env.parse text) (parse' text)) →
      Without env commands commands' →
      let T' := (run { env with parse := parse' } commands').executed
      withoutRejects T = withoutRejects T' ∧
      (T.any rejects = true → result.rejectGiven = false →
        ((evaluate { env with parse := parse' } commands').2 = result ↔ T'.any decides = true ∧ ¬RejectStands T')) := by
  intro T result
  have houtcome : (run env commands).outcome = ofActions T := run_faithful env commands
  have hresult : result = finish (run env commands).progress (ofActions T) := by
    show finish _ (run env commands).outcome = _
    rw [houtcome]
  rw [hresult]
  refine ⟨close_keepLocal_asked T, reject_alone T, ?_⟩
  intro parse' commands' hparse hwithout T'
  obtain ⟨hprogress, hsame⟩ := runScript_without hparse 3 commands commands' {} {} hwithout ⟨rfl, rfl⟩
  refine ⟨hsame, ?_⟩
  intro hrejects hcancelled
  have houtcome' : (run { env with parse := parse' } commands').outcome = ofActions T' := run_faithful _ commands'
  have hresult' : (evaluate { env with parse := parse' } commands').2 = finish (run env commands).progress (ofActions T') := by
    show finish (run { env with parse := parse' } commands').progress (run { env with parse := parse' } commands').outcome = _
    rw [houtcome', show (run env commands).progress = _ from hprogress]
    rfl
  rw [hresult']
  exact finish_without_reject _ hsame hrejects hcancelled

/-- A command that neither branches, includes nor ends the script. -/
def IsPlain (env : SieveEnvironment) (c : SieveCommand) : Prop :=
  isIf c = false ∧ verbOf env c ≠ some .includeScript ∧ verbOf env c ≠ some .stop ∧ verbOf env c ≠ some .returnScript

instance (env : SieveEnvironment) (c : SieveCommand) : Decidable (IsPlain env c) :=
  inferInstanceAs (Decidable (_ ∧ _ ∧ _ ∧ _))

theorem executeCommand_ended {c : SieveCommand} (hc : IsPlain env c) {p : Progress}
    (hp : (p.stopped || p.returned) = false) :
    ((executeCommand env p c).1.stopped || (executeCommand env p c).1.returned) = false := by
  unfold executeCommand
  split
  · exact hp
  · rename_i verb hverb
    have hquiet : Quiet p (executeVerb env p c.arguments verb).1 := by
      apply executeVerb_quiet
      · rintro rfl
        exact hc.2.2.1 hverb
      · rintro rfl
        exact hc.2.2.2 hverb
    rw [hquiet.stopped, hquiet.returned, hp]

/-- Plain commands are executed one after the other. -/
theorem executeCommands_plain {commands : List SieveCommand} (h : ∀ c ∈ commands, IsPlain env c) {s : EvaluatorState}
    (hs : (s.progress.stopped || s.progress.returned) = false) :
    executeCommands env callScript none commands s =
      commands.foldl (fun s c => s.act (executeCommand env s.progress c)) s := by
  induction commands generalizing s with
  | nil => rw [executeCommands, List.foldl_nil]
  | cons c rest ih =>
    have hc := h c (List.mem_cons_self ..)
    have hnext := executeCommand_ended hc hs
    rw [← act_progress s] at hnext
    obtain ⟨name, arguments, test, block⟩ := c
    rw [executeCommands, if_neg (by simp), if_neg (by simp [hs]), if_neg (by simp [hc.1]), if_neg hc.2.1,
      List.foldl_cons]
    exact ih (fun c hc => h c (List.mem_cons_of_mem _ hc)) hnext

theorem run_plain {commands : List SieveCommand} (h : ∀ c ∈ commands, IsPlain env c) :
    run env commands = commands.foldl (fun s c => s.act (executeCommand env s.progress c)) {} :=
  executeCommands_plain h rfl

/-- No script to include, and no test on the message holds. -/
def plainEnvironment : SieveEnvironment where
  loc := classicLocale
  getHeaderValues _ := []
  includeFetch _ _ := []
  parse _ := none
  messageTest _ _ _ := (false, none)
  decideVacation _ := none

def keepCommand : SieveCommand := .mk (wide "keep") [] none []

def discardCommand : SieveCommand := .mk (wide "discard") [] none []

def rejectCommand : SieveCommand := .mk (wide "reject") [.stringList [wide "no"] 1] none []

def copyCommand : SieveCommand := .mk (wide "redirect") [.tag (wide "copy") 1, .stringList [wide "b@c"] 1] none []

theorem combined_actions_reject_keep :
    (evaluate plainEnvironment [keepCommand]).2 = (evaluate plainEnvironment [rejectCommand, keepCommand]).2 := by
  have hwithout : Without plainEnvironment [rejectCommand, keepCommand] [keepCommand] := by
    refine .drop (by decide +kernel) (by decide +kernel) ?_ ?_ (.cons _ _ _ .nil .nil)
    · intro c hc
      cases hc
      decide +kernel
    · intro c hc
      cases hc
      decide +kernel
  obtain ⟨_, hsame⟩ := (combined_actions plainEnvironment [rejectCommand, keepCommand]).2.2 (fun _ => none) [keepCommand]
    (fun _ => .none) hwithout
  have hscript : (run plainEnvironment [rejectCommand, keepCommand]).executed = [.reject (wide "no"), .keep] ∧
      (evaluate plainEnvironment [rejectCommand, keepCommand]).2.rejectGiven = false := by
    rw [evaluate, run_plain (by decide +kernel)]
    decide +kernel
  have hrest : (run plainEnvironment [keepCommand]).executed = [.keep] := by
    rw [run_plain (by decide +kernel)]
    decide +kernel
  refine (hsame (by rw [hscript.1]; rfl) hscript.2).2 ?_
  show (run plainEnvironment [keepCommand]).executed.any decides = true ∧
    ¬RejectStands (run plainEnvironment [keepCommand]).executed
  rw [hrest]
  refine ⟨rfl, ?_⟩
  rw [← ofActions_rejectGiven]
  decide

/-- A discard undoes a keep; a reject stands after a redirect with `:copy`; and a
    redirect with `:copy` after a reject leaves no local copy, where without the
    reject there is one. -/
theorem combined_actions_lose_mail :
    (run plainEnvironment [keepCommand, discardCommand]).executed.any keeps = true ∧
    (evaluate plainEnvironment [keepCommand, discardCommand]).2.keepLocal = false ∧
    (evaluate plainEnvironment [copyCommand, rejectCommand]).2.rejectGiven = true ∧
    (evaluate plainEnvironment [copyCommand, rejectCommand]).2.redirects ≠ [] ∧
    (evaluate plainEnvironment [rejectCommand, copyCommand]).2.rejectGiven = false ∧
    (evaluate plainEnvironment [rejectCommand, copyCommand]).2 ≠ (evaluate plainEnvironment [copyCommand]).2 := by
  simp only [evaluate]
  rw [run_plain (by decide +kernel : ∀ c ∈ [keepCommand, discardCommand], IsPlain plainEnvironment c),
    run_plain (by decide +kernel : ∀ c ∈ [copyCommand, rejectCommand], IsPlain plainEnvironment c),
    run_plain (by decide +kernel : ∀ c ∈ [rejectCommand, copyCommand], IsPlain plainEnvironment c),
    run_plain (by decide +kernel : ∀ c ∈ [copyCommand], IsPlain plainEnvironment c)]
  decide +kernel

end SieveEvaluator
end HMailServer
