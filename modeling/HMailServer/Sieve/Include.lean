import HMailServer.Sieve.Evaluator

/- Included scripts are isolated. Whatever a script executes, it changes only its
   own scope and the shared namespace; an `include` gives the including script
   its variables back. The nesting bound makes the evaluation end. -/
namespace HMailServer.SieveEvaluator

/-- The outer scripts' scopes and the include depth are untouched. -/
structure Frame (p p' : Progress) : Prop where
  depth : p'.includeDepth = p.includeDepth
  outer : p'.scopes.tail = p.scopes.tail
  scopes : p'.scopes.length = p.scopes.length

theorem Frame.refl (p : Progress) : Frame p p := ⟨rfl, rfl, rfl⟩

theorem Frame.trans {p q r : Progress} (h : Frame p q) (h' : Frame q r) : Frame p r :=
  ⟨h'.depth.trans h.depth, h'.outer.trans h.outer, h'.scopes.trans h.scopes⟩

/-- Nor is the flow of control. -/
structure Quiet (p p' : Progress) : Prop extends Frame p p' where
  stopped : p'.stopped = p.stopped
  returned : p'.returned = p.returned

theorem Quiet.refl (p : Progress) : Quiet p p := ⟨.refl p, rfl, rfl⟩

theorem Quiet.trans {p q r : Progress} (h : Quiet p q) (h' : Quiet q r) : Quiet p r :=
  ⟨h.toFrame.trans h'.toFrame, h'.stopped.trans h.stopped, h'.returned.trans h.returned⟩

section

variable {env : SieveEnvironment}

/-! ## Tests and commands -/

theorem runMessageTest_quiet (p : Progress) (name : WString) (arguments : List SieveArgument) :
    Quiet p (runMessageTest env p name arguments).2 := by
  unfold runMessageTest
  split
  · exact .refl p
  rename_i scope outer hscopes
  split
  · exact .refl p
  · exact ⟨⟨rfl, by rw [hscopes]; rfl, by rw [hscopes]; rfl⟩, rfl, rfl⟩

mutual

theorem evaluateTest_quiet : ∀ (test : SieveTest) (p : Progress), Quiet p (evaluateTest env test p).2
  | .mk name arguments tests, p => by
    unfold evaluateTest
    dsimp only
    split
    · exact .refl p
    split
    · exact .refl p
    split
    · cases tests with
      | nil => exact .refl p
      | cons test tests => exact evaluateTest_quiet test p
    split
    · exact evaluateAll_quiet tests p
    split
    · exact evaluateAny_quiet tests p
    · exact runMessageTest_quiet p _ arguments

theorem evaluateAll_quiet : ∀ (tests : List SieveTest) (p : Progress), Quiet p (evaluateAll env tests p).2
  | [], p => .refl p
  | test :: tests, p => by
    unfold evaluateAll
    split
    · exact (evaluateTest_quiet test p).trans (evaluateAll_quiet tests _)
    · exact evaluateTest_quiet test p

theorem evaluateAny_quiet : ∀ (tests : List SieveTest) (p : Progress), Quiet p (evaluateAny env tests p).2
  | [], p => .refl p
  | test :: tests, p => by
    unfold evaluateAny
    split
    · exact evaluateTest_quiet test p
    · exact (evaluateTest_quiet test p).trans (evaluateAny_quiet tests _)

end

theorem evaluateCondition_quiet (test : Option SieveTest) (p : Progress) :
    Quiet p (evaluateCondition env test p).2 := by
  cases test with
  | none => exact .refl p
  | some test => exact evaluateTest_quiet test p

theorem modifyScope_quiet (p : Progress) (f : VariableScope → VariableScope) : Quiet p (modifyScope p f) := by
  unfold modifyScope
  split
  · exact .refl p
  · rename_i scope outer hscopes
    exact ⟨⟨rfl, by rw [hscopes]; rfl, by rw [hscopes]; rfl⟩, rfl, rfl⟩

theorem executeSetCommand_quiet (p : Progress) (arguments : List SieveArgument) :
    Quiet p (executeSetCommand env p arguments) := by
  unfold executeSetCommand
  split
  · exact .refl p
  split
  · dsimp only
    split
    · exact .refl p
    split
    · exact ⟨⟨rfl, rfl, rfl⟩, rfl, rfl⟩
    · exact modifyScope_quiet p _
  · exact .refl p

theorem executeFlagCommand_quiet (p : Progress) (change : FlagChange) (arguments : List SieveArgument) :
    Quiet p (executeFlagCommand env p change arguments) := by
  unfold executeFlagCommand
  split
  · exact .refl p
  split
  · exact .refl p
  · cases change <;> exact ⟨⟨rfl, rfl, rfl⟩, rfl, rfl⟩

theorem executeVacation_quiet (p : Progress) (arguments : List SieveArgument) :
    Quiet p (executeVacation env p arguments) := by
  unfold executeVacation
  split
  · exact .refl p
  dsimp only
  split
  · exact ⟨⟨rfl, rfl, rfl⟩, rfl, rfl⟩
  split
  · split
    · exact ⟨⟨rfl, rfl, rfl⟩, rfl, rfl⟩
    · exact ⟨⟨rfl, rfl, rfl⟩, rfl, rfl⟩
  · exact ⟨⟨rfl, rfl, rfl⟩, rfl, rfl⟩

theorem executeGlobal_quiet (p : Progress) (arguments : List SieveArgument) :
    Quiet p (executeGlobal env p arguments) := by
  unfold executeGlobal
  split
  · exact .refl p
  split
  · exact modifyScope_quiet p _
  · exact .refl p

theorem executeRequire_quiet (p : Progress) (arguments : List SieveArgument) :
    Quiet p (executeRequire p arguments) := by
  unfold executeRequire
  dsimp only
  split
  · exact ⟨⟨rfl, rfl, rfl⟩, rfl, rfl⟩
  · exact .refl p

theorem pinFlags_quiet (p : Progress) (set : SieveArgumentSet) : Quiet p (pinFlags p set) := by
  unfold pinFlags
  split <;> exact ⟨⟨rfl, rfl, rfl⟩, rfl, rfl⟩

/-- Only `stop` and `return` change the flow of control. -/
theorem executeVerb_quiet (p : Progress) (arguments : List SieveArgument) {verb : SieveVerb} (hstop : verb ≠ .stop)
    (hreturn : verb ≠ .returnScript) : Quiet p (executeVerb env p arguments verb).1 := by
  unfold executeVerb
  cases verb with
  | keep =>
    dsimp only
    split
    · exact .refl p
    · exact pinFlags_quiet p _
  | fileinto =>
    dsimp only
    split
    · exact .refl p
    · exact pinFlags_quiet p _
  | discard => exact .refl p
  | redirect => dsimp only; split <;> exact .refl p
  | stop => exact absurd rfl hstop
  | flag change => exact executeFlagCommand_quiet p change arguments
  | vacation => exact executeVacation_quiet p arguments
  | addheader => dsimp only; split <;> exact ⟨⟨rfl, rfl, rfl⟩, rfl, rfl⟩
  | deleteheader => dsimp only; split <;> exact ⟨⟨rfl, rfl, rfl⟩, rfl, rfl⟩
  | set => exact executeSetCommand_quiet p arguments
  | reject => dsimp only; split <;> exact .refl p
  | includeScript => exact .refl p
  | notify => dsimp only; split <;> exact ⟨⟨rfl, rfl, rfl⟩, rfl, rfl⟩
  | returnScript => exact absurd rfl hreturn
  | global => exact executeGlobal_quiet p arguments
  | require => exact executeRequire_quiet p arguments

theorem executeVerb_frame (p : Progress) (arguments : List SieveArgument) (verb : SieveVerb) :
    Frame p (executeVerb env p arguments verb).1 := by
  by_cases hstop : verb = .stop
  · rw [hstop]
    exact ⟨rfl, rfl, rfl⟩
  by_cases hreturn : verb = .returnScript
  · rw [hreturn, executeVerb]
    dsimp only
    split <;> exact ⟨rfl, rfl, rfl⟩
  exact (executeVerb_quiet p arguments hstop hreturn).toFrame

theorem executeCommand_frame (p : Progress) (c : SieveCommand) : Frame p (executeCommand env p c).1 := by
  unfold executeCommand
  split
  · exact .refl p
  · exact executeVerb_frame p c.arguments _

/-- Inside an included script only a `stop` stops. -/
theorem executeCommand_stopped {p : Progress} (hdepth : 0 < p.includeDepth) (c : SieveCommand) :
    (executeCommand env p c).1.stopped = (p.stopped || decide (verbOf env c = some .stop)) := by
  unfold executeCommand
  split
  · rename_i hverb
    simp [hverb]
  rename_i verb hverb
  by_cases hstop : verb = .stop
  · simp [hverb, hstop, executeVerb]
  by_cases hreturn : verb = .returnScript
  · simp [hverb, hreturn, executeVerb, hdepth]
  rw [(executeVerb_quiet p c.arguments hstop hreturn).stopped, hverb]
  simp [hstop]

end

theorem act_progress (s : EvaluatorState) (change : Progress × Option SieveAction) :
    (s.act change).progress = change.1 := by
  obtain ⟨p, _ | action⟩ := change <;> rfl

/-! ## Scripts -/

section

variable {env : SieveEnvironment} {callScript : List SieveCommand → EvaluatorState → EvaluatorState}

/-- What the execution of included commands keeps. -/
def KeepsFrame (callScript : List SieveCommand → EvaluatorState → EvaluatorState) : Prop :=
  ∀ commands s, Frame s.progress (callScript commands s).progress

/-- An `include` gives back every scope, the include depth and whether variables
    are enabled. -/
theorem executeInclude_restores (h : KeepsFrame callScript) (s : EvaluatorState) (c : SieveCommand) :
    (executeInclude env callScript s c).progress.scopes = s.progress.scopes ∧
    (executeInclude env callScript s c).progress.includeDepth = s.progress.includeDepth ∧
    (executeInclude env callScript s c).progress.variablesEnabled = s.progress.variablesEnabled := by
  unfold executeInclude
  split
  · exact ⟨rfl, rfl, rfl⟩
  rename_i commands onceKey hscript
  have hframe := h commands { s with progress := enterInclude s.progress onceKey }
  refine ⟨?_, ?_, rfl⟩
  · exact hframe.outer
  · change (callScript commands _).progress.includeDepth - 1 = _
    rw [hframe.depth]
    exact Nat.add_sub_cancel _ _

theorem executeInclude_frame (h : KeepsFrame callScript) (s : EvaluatorState) (c : SieveCommand) :
    Frame s.progress (executeInclude env callScript s c).progress := by
  obtain ⟨hscopes, hdepth, _⟩ := @executeInclude_restores env callScript h s c
  exact ⟨hdepth, by rw [hscopes], by rw [hscopes]⟩

/-- The rule for a list of commands: a relation between states that tests,
    commands and includes keep is kept by all of them together. -/
theorem executeCommands_rule (R : EvaluatorState → EvaluatorState → Prop) (hrefl : ∀ s, R s s)
    (htrans : ∀ {s t u}, R s t → R t u → R s u)
    (htest : ∀ test s, R s { s with progress := (evaluateCondition env test s.progress).2 })
    (hcommand : ∀ c s, R s (s.act (executeCommand env s.progress c)))
    (hinclude : ∀ c s, R s (executeInclude env callScript s c)) (chain : Option Bool) (commands : List SieveCommand)
    (s : EvaluatorState) : R s (executeCommands env callScript chain commands s) := by
  fun_induction executeCommands env callScript chain commands s with
  | case1 => exact hrefl _
  | case2 _ _ _ _ _ _ _ _ _ _ ih => exact ih
  | case3 _ _ _ test _ _ s _ _ _ _ _ _ hblock _ hrest => exact htrans (htest test s) (htrans hblock hrest)
  | case4 _ _ _ test _ _ s _ _ _ _ _ _ hrest => exact htrans (htest test s) hrest
  | case5 _ _ _ _ _ _ _ _ _ _ _ hblock hrest => exact htrans hblock hrest
  | case6 => exact hrefl _
  | case7 _ _ _ test _ _ s _ _ _ _ _ _ hblock _ hrest => exact htrans (htest test s) (htrans hblock hrest)
  | case8 _ _ _ test _ _ s _ _ _ _ _ _ hrest => exact htrans (htest test s) hrest
  | case9 _ _ _ _ _ _ s c _ _ _ _ hrest => exact htrans (hinclude c s) hrest
  | case10 _ _ _ _ _ _ s c _ _ _ _ hrest => exact htrans (hcommand c s) hrest

theorem executeCommands_frame (h : KeepsFrame callScript) (chain : Option Bool) (commands : List SieveCommand)
    (s : EvaluatorState) : Frame s.progress (executeCommands env callScript chain commands s).progress := by
  refine executeCommands_rule (fun s t => Frame s.progress t.progress) (fun s => .refl _) Frame.trans
    (fun test s => (evaluateCondition_quiet test s.progress).toFrame) (fun c s => ?_) (fun c s => executeInclude_frame h s c)
    chain commands s
  rw [act_progress]
  exact executeCommand_frame s.progress c

theorem runScript_frame (left : Nat) : KeepsFrame (runScript env left) := by
  induction left with
  | zero => exact fun commands s => executeCommands_frame (fun _ s => .refl _) none commands s
  | succ left ih => exact fun commands s => executeCommands_frame ih none commands s

/-! ## The bound on nesting -/

theorem includedScript_depth {p : Progress} {arguments : List SieveArgument} {found : List SieveCommand × Option WString}
    (h : includedScript env p arguments = some found) : p.includeDepth < 3 := by
  unfold includedScript at h
  split at h
  · cases h
  split at h
  · cases h
  dsimp only at h
  split at h
  · cases h
  · omega

theorem executeInclude_congr {callScript' : List SieveCommand → EvaluatorState → EvaluatorState} {depth : Nat}
    (hagree : depth < 3 → ∀ commands s, s.progress.includeDepth = depth + 1 →
      callScript commands s = callScript' commands s)
    {s : EvaluatorState} {c : SieveCommand} (hs : s.progress.includeDepth = depth) :
    executeInclude env callScript s c = executeInclude env callScript' s c := by
  unfold executeInclude
  split
  · rfl
  · rename_i commands onceKey hscript
    have hlt := includedScript_depth hscript
    rw [hagree (hs ▸ hlt) commands _ (congrArg (· + 1) hs)]

/-- Two ways of running included scripts that agree one level further down run
    the same commands alike; at the third level nothing is included. -/
theorem executeCommands_congr {callScript' : List SieveCommand → EvaluatorState → EvaluatorState} {depth : Nat}
    (hframe : KeepsFrame callScript)
    (hagree : depth < 3 → ∀ commands s, s.progress.includeDepth = depth + 1 →
      callScript commands s = callScript' commands s)
    (chain : Option Bool) (commands : List SieveCommand) (s : EvaluatorState)
    (hs : s.progress.includeDepth = depth) :
    executeCommands env callScript chain commands s = executeCommands env callScript' chain commands s := by
  have hblock := fun (block : List SieveCommand) s => (@executeCommands_frame env callScript hframe none block s).depth
  have hcondition : ∀ test {s : EvaluatorState}, s.progress.includeDepth = depth →
      (evaluateCondition env test s.progress).2.includeDepth = depth :=
    fun test s hs => (evaluateCondition_quiet test s.progress).depth.trans hs
  fun_induction executeCommands env callScript chain commands s with
  | case1 => rw [executeCommands]
  | case2 chain _ _ _ _ _ s c hchain hskip ih =>
    conv_rhs => rw [executeCommands]
    rw [if_pos hchain, if_pos hskip]
    exact ih hs
  | case3 chain _ _ test block _ s c _ hchain hskip helsif hcond ihblock _ ih =>
    have htest := hcondition test hs
    conv_rhs => rw [executeCommands]
    rw [if_pos hchain, if_neg hskip, if_pos helsif, if_pos hcond, ← ihblock htest]
    exact ih ((hblock _ _).trans htest)
  | case4 chain _ _ test _ _ s c _ hchain hskip helsif hcond ih =>
    conv_rhs => rw [executeCommands]
    rw [if_pos hchain, if_neg hskip, if_pos helsif, if_neg hcond]
    exact ih (hcondition test hs)
  | case5 chain _ _ _ _ _ s c hchain hskip helsif ihblock ih =>
    conv_rhs => rw [executeCommands]
    rw [if_pos hchain, if_neg hskip, if_neg helsif, ← ihblock hs]
    exact ih ((hblock _ _).trans hs)
  | case6 chain _ _ _ _ _ s c hchain hended =>
    rw [executeCommands, if_neg hchain, if_pos hended]
  | case7 chain _ _ test block _ s c _ hchain hended hif hcond ihblock _ ih =>
    have htest := hcondition test hs
    conv_rhs => rw [executeCommands]
    rw [if_neg hchain, if_neg hended, if_pos hif, if_pos hcond, ← ihblock htest]
    exact ih ((hblock _ _).trans htest)
  | case8 chain _ _ test _ _ s c _ hchain hended hif hcond ih =>
    conv_rhs => rw [executeCommands]
    rw [if_neg hchain, if_neg hended, if_pos hif, if_neg hcond]
    exact ih (hcondition test hs)
  | case9 chain _ _ _ _ _ s c hchain hended hif hinclude ih =>
    conv_rhs => rw [executeCommands]
    rw [if_neg hchain, if_neg hended, if_neg hif, if_pos hinclude, ← executeInclude_congr hagree hs]
    exact ih ((executeInclude_restores hframe s c).2.1.trans hs)
  | case10 chain _ _ _ _ _ s c hchain hended hif hinclude ih =>
    conv_rhs => rw [executeCommands]
    rw [if_neg hchain, if_neg hended, if_neg hif, if_neg hinclude]
    apply ih
    rw [act_progress, (executeCommand_frame s.progress c).depth, hs]

/-- The nesting bound is never passed: from depth zero any number of levels from
    three on gives the same run. -/
theorem runScript_enough (env : SieveEnvironment) (left left' : Nat) (commands : List SieveCommand) (s : EvaluatorState)
    (h : 3 ≤ s.progress.includeDepth + left) (h' : 3 ≤ s.progress.includeDepth + left') :
    runScript env left commands s = runScript env left' commands s := by
  induction left generalizing left' commands s with
  | zero =>
    have hdepth : ¬s.progress.includeDepth < 3 := by omega
    cases left' with
    | zero => rfl
    | succ left' => exact executeCommands_congr (fun _ s => .refl _) (fun hlt => absurd hlt hdepth) none commands s rfl
  | succ left ih =>
    cases left' with
    | zero =>
      have hdepth : ¬s.progress.includeDepth < 3 := by omega
      exact executeCommands_congr (runScript_frame left) (fun hlt => absurd hlt hdepth) none commands s rfl
    | succ left' =>
      refine executeCommands_congr (runScript_frame left) (fun _ commands s' hs' => ?_) none commands s rfl
      exact ih left' commands s' (by omega) (by omega)

/-- After a `stop` nothing more is executed. -/
theorem executeCommands_stopped (chain : Option Bool) (commands : List SieveCommand) (s : EvaluatorState)
    (h : s.progress.stopped = true) : executeCommands env callScript chain commands s = s := by
  induction commands generalizing chain with
  | nil => rw [executeCommands]
  | cons c rest ih =>
    obtain ⟨name, arguments, test, block⟩ := c
    rw [executeCommands]
    split
    · rw [if_pos (.inr h)]
      exact ih chain
    · rw [if_pos (by simp [h])]

end

/-- Includes are isolated, and the evaluation ends: it never needs more than
    three levels and comes back to the first; an include gives the including
    script its scope back and goes on after it, unless a `stop` was executed,
    after which nothing is. -/
theorem include_isolated (env : SieveEnvironment) :
    (∀ commands levels, 3 ≤ levels → runScript env levels commands {} = run env commands) ∧
    (∀ commands, (run env commands).progress.includeDepth = 0) ∧
    (∀ levels (s : EvaluatorState) c, s.progress.returned = false →
      (executeInclude env (runScript env levels) s c).progress.scopes = s.progress.scopes ∧
      (executeInclude env (runScript env levels) s c).progress.variablesEnabled = s.progress.variablesEnabled ∧
      (executeInclude env (runScript env levels) s c).progress.includeDepth = s.progress.includeDepth ∧
      (executeInclude env (runScript env levels) s c).progress.returned = false ∧
      ∀ commands onceKey, includedScript env s.progress c.arguments = some (commands, onceKey) →
        (executeInclude env (runScript env levels) s c).progress.stopped =
          (runScript env levels commands { s with progress := enterInclude s.progress onceKey }).progress.stopped) ∧
    (∀ (p : Progress) c, 0 < p.includeDepth →
      (executeCommand env p c).1.stopped = (p.stopped || decide (verbOf env c = some .stop))) ∧
    (∀ levels chain commands (s : EvaluatorState), s.progress.stopped = true →
      executeCommands env (runScript env levels) chain commands s = s) := by
  refine ⟨?_, ?_, ?_, ?_, ?_⟩
  · intro commands levels hlevels
    exact runScript_enough env levels 3 commands {} (by simpa using hlevels) (by decide)
  · intro commands
    exact (runScript_frame 3 commands {}).depth
  · intro levels s c hreturned
    obtain ⟨hscopes, hdepth, henabled⟩ := @executeInclude_restores env _ (runScript_frame levels) s c
    refine ⟨hscopes, henabled, hdepth, ?_, ?_⟩
    · unfold executeInclude
      split
      · exact hreturned
      · rfl
    · intro commands onceKey hscript
      unfold executeInclude
      rw [hscript]
      rfl
  · intro p c hdepth
    exact executeCommand_stopped hdepth c
  · intro levels chain commands s hstopped
    exact executeCommands_stopped chain commands s hstopped

/-- The script `a` includes itself. -/
def selfIncluding : SieveEnvironment where
  loc := classicLocale
  getHeaderValues _ := []
  includeFetch _ _ := wide "include \"a\";"
  parse _ := some [.mk (wide "include") [.stringList [wide "a"] 1] none []]
  messageTest _ _ _ := (false, none)
  decideVacation _ := none

theorem include_isolated_self :
    (run selfIncluding [.mk (wide "include") [.stringList [wide "a"] 1] none []]).progress.includeDepth = 0 ∧
    (executeInclude selfIncluding (runScript selfIncluding 3) {} (.mk (wide "include") [.stringList [wide "a"] 1] none
      [])).progress.returned = false :=
  ⟨(include_isolated selfIncluding).2.1 _, ((include_isolated selfIncluding).2.2.1 3 {} _ rfl).2.2.2.1⟩

end HMailServer.SieveEvaluator
