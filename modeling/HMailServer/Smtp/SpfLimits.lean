import HMailServer.Smtp.SpfEvaluator
import HMailServer.Lib.StateRun

/- What a check may spend. A term pays ahead for the queries it goes on to make, so the
   queries of a whole check are bounded by the terms it counted, whatever the resolver
   answers; and a check that has passed a limit comes to a permanent error. -/
namespace HMailServer
open StateRun

namespace SPFMacroExpander
open SPFSyntax

/-! ## Expansion -/

section
variable {σ : Type} {P : ∀ {α : Type}, StateM σ α → Prop} (hP : Closed P) {value : UInt8 → StateM σ AnsiString}
  (hvalue : ∀ letter, P (value letter))
include hP hvalue

theorem expandMacro_closed (mac : Macro) : P (expandMacro value mac) := by
  cases mac with
  | literal character => exact hP.pure' _
  | expansion letter digits reverse delimiters => exact hP.bind' (hvalue _) fun _ => hP.pure' _

theorem expandFrom_closed (macros : MacroSet) (skip : ℕ) (result text : AnsiString) :
    P (expandFrom value macros skip result text) := by
  induction text generalizing skip result with
  | nil => cases skip <;> exact hP.pure' _
  | cons c text ih =>
    cases skip with
    | succ skip => exact ih skip result
    | zero =>
      unfold expandFrom
      split
      · exact ih _ _
      · split
        · exact hP.pure' _
        · exact hP.bind' (expandMacro_closed hP hvalue _) fun _ => ih _ _

theorem expandDomainSpec_closed (domainSpec : AnsiString) : P (expandDomainSpec value domainSpec) := by
  unfold expandDomainSpec
  split
  · exact hP.pure' _
  · exact hP.bind' (expandFrom_closed hP hvalue _ _ _ _) fun _ => hP.pure' _

theorem expandExplanation_closed (text : AnsiString) : P (expandExplanation value text) := by
  unfold expandExplanation
  split
  · exact hP.pure' _
  · exact expandFrom_closed hP hvalue _ _ _ _

end
end SPFMacroExpander

namespace SPFEvaluator
open SPFSyntax

variable {e : SPFEvaluator}

theorem resolveTargetName_closed {P : ∀ {α : Type}, SPFCheck α → Prop} (hP : Closed P) {domain : AnsiString}
    (hvalue : ∀ letter, P (e.macroValue domain letter)) (domainSpec : Option AnsiString) :
    P (e.resolveTargetName domainSpec domain) := by
  refine hP.bind' ?_ fun _ => hP.pure' _
  cases domainSpec with
  | none => exact hP.pure' _
  | some domainSpec => exact SPFMacroExpander.expandDomainSpec_closed hP hvalue domainSpec

theorem explanationFor_closed {P : ∀ {α : Type}, SPFCheck α → Prop} (hP : Closed P) (hquery : ∀ q, P (e.query q))
    {domain : AnsiString} (hvalue : ∀ letter, P (e.macroValue domain letter)) (record : SPFRecord) :
    P (e.explanationFor record domain) := by
  unfold explanationFor
  split
  · exact hP.pure' _
  · refine hP.bind' (SPFMacroExpander.expandDomainSpec_closed hP hvalue _) fun target => ?_
    split
    · exact hP.pure' _
    · refine hP.bind' (hquery _) fun answer => ?_
      split
      · exact hP.bind' (SPFMacroExpander.expandExplanation_closed hP hvalue _) fun _ => hP.pure' _
      · exact hP.pure' _

theorem explained_closed {P : ∀ {α : Type}, SPFCheck α → Prop} (hP : Closed P) (hquery : ∀ q, P (e.query q))
    {domain : AnsiString} (hvalue : ∀ letter, P (e.macroValue domain letter)) (record : SPFRecord) (wanted : Bool)
    (result : SPFResult) : P (e.explained record domain wanted result) := by
  unfold explained
  split
  · exact hP.bind' (explanationFor_closed hP hquery hvalue record) fun _ => hP.pure' _
  · exact hP.pure' _

/-! ## What leaves the counters alone -/

/-- A property of the pieces that query without counting a term, closed under sequencing. -/
structure Quiet (e : SPFEvaluator) (P : ∀ {α : Type}, SPFCheck α → Prop) : Prop extends Closed P where
  get' : P get
  query : ∀ q, P (e.query q)
  names : ∀ names, P (modify fun s => { s with validatedNames := some names })
  fails : ∀ result, result ≠ .none → P (fail result)

namespace Quiet
variable {P : ∀ {α : Type}, SPFCheck α → Prop} (h : Quiet e P)
include h

theorem lookupAddresses (host : AnsiString) : P (e.lookupAddresses host) := by
  unfold SPFEvaluator.lookupAddresses
  split
  · exact h.query _
  · exact h.query _

theorem findValidatedNames (names : List AnsiString) : P (e.findValidatedNames names) := by
  induction names with
  | nil => exact h.pure' _
  | cons name names ih => exact h.bind' (h.lookupAddresses name) fun _ => h.bind' ih fun _ => h.pure' _

theorem getValidatedNames : P e.getValidatedNames := by
  refine h.bind' h.get' fun s => ?_
  split
  · exact h.pure' _
  · refine h.bind' (h.query _) fun answer => h.bind' (h.findValidatedNames _) fun names => ?_
    exact h.bind' (h.names names) fun _ => h.pure' _

theorem macroValue (domain : AnsiString) (letter : UInt8) : P (e.macroValue domain letter) := by
  unfold SPFEvaluator.macroValue
  split
  · exact h.bind' h.getValidatedNames fun _ => h.pure' _
  · exact h.pure' _

theorem resolveTargetName (domainSpec : Option AnsiString) (domain : AnsiString) :
    P (e.resolveTargetName domainSpec domain) :=
  resolveTargetName_closed h.toClosed (h.macroValue domain) domainSpec

theorem matchHosts (prefixLength : ℕ) (hostNames : List AnsiString) : P (e.matchHosts prefixLength hostNames) := by
  induction hostNames with
  | nil => exact h.pure' _
  | cons hostName hostNames ih =>
    refine h.bind' (h.lookupAddresses hostName) fun answer => ?_
    split
    · exact h.fails _ nofun
    · split
      · exact h.pure' _
      · exact ih

theorem matchQuerying (mechanism : SPFMechanism) (targetName : AnsiString) :
    P (e.matchQuerying mechanism targetName) := by
  unfold SPFEvaluator.matchQuerying
  split
  · refine h.bind' (h.lookupAddresses targetName) fun answer => ?_
    split
    · exact h.fails _ nofun
    · exact h.pure' _
  · refine h.bind' (h.query _) fun answer => ?_
    split
    · exact h.fails _ nofun
    · split
      · exact h.fails _ nofun
      · exact h.matchHosts _ _
  · exact h.bind' h.getValidatedNames fun _ => h.pure' _
  · refine h.bind' (h.query _) fun answer => ?_
    split
    · exact h.fails _ nofun
    · exact h.pure' _
  · exact h.pure' _

theorem locate (domain : AnsiString) : P (e.locate domain) := by
  unfold SPFEvaluator.locate
  split
  · exact h.pure' _
  · exact h.bind' (h.query _) fun _ => h.pure' _

theorem explanationFor (record : SPFRecord) (domain : AnsiString) : P (e.explanationFor record domain) :=
  explanationFor_closed h.toClosed h.query (h.macroValue domain) record

theorem explained (record : SPFRecord) (domain : AnsiString) (wanted : Bool) (result : SPFResult) :
    P (e.explained record domain wanted result) :=
  explained_closed h.toClosed h.query (h.macroValue domain) record wanted result

end Quiet

/-- The two counters of section 4.6.4. -/
def counters (s : SPFState) : ℕ × ℕ := (s.terms, s.voidTerms)

theorem quiet_counters : Quiet e (fun {α : Type} (x : SPFCheck α) => Keeps counters x) where
  toClosed := Keeps.closed counters
  get' := Keeps.get'
  query := fun _ _ => rfl
  names := fun _ => Keeps.modify' fun _ => rfl
  fails := fun _ _ _ => rfl

/-- The kept error is one. -/
def ErrorKept (s : SPFState) : Prop := s.errorResult ≠ .none

theorem quiet_errorKept : Quiet e (fun {α : Type} (x : SPFCheck α) => Maintains ErrorKept x) where
  toClosed := Maintains.closed ErrorKept
  get' := fun _ hs => hs
  query := fun _ _ hs => hs
  names := fun _ _ hs => hs
  fails := fun _ hne _ _ => hne

/-! ## What a term pays for -/

/-- What is charged for the pieces of a check. A counted term pays its price ahead, and the
    price covers what the term can go on to do. -/
structure Tariff where
  price : ℤ
  locating : ℤ
  asking : ℤ
  charging : ℤ
  explaining : ℤ
  explaining_nonneg : 0 ≤ explaining
  price_nonneg : 0 ≤ price
  first_nonneg : 0 ≤ locating + charging
  domain_le : locating + charging + explaining ≤ price
  term_le : asking + charging ≤ price

/-- The pieces of a check raise a potential by no more than the tariff says. -/
structure Pays (e : SPFEvaluator) (φ : SPFState → ℤ) (T : Tariff) : Prop where
  resolve : ∀ domainSpec domain, Rises φ (e.resolveTargetName domainSpec domain) fun _ => 0
  fails : ∀ result, Rises φ (fail result) fun _ => 0
  count : Rises φ countTerm fun counted => if counted then -T.price else 0
  locate : ∀ domain, Rises φ (e.locate domain) fun _ => T.locating
  ask : ∀ mechanism targetName, Rises φ (e.matchQuerying mechanism targetName) fun _ => T.asking
  charge : ∀ before, Rises φ (countVoidTerm before) fun _ => T.charging
  explain : ∀ record domain, Rises φ (e.explanationFor record domain) fun _ => T.explaining

namespace Pays
variable {φ : SPFState → ℤ} {T : Tariff} (h : Pays e φ T)
include h

theorem matchInclude {recur : AnsiString → SPFCheck SPFResult} {n : ℤ} (hrecur : ∀ name, Rises φ (recur name) fun _ => n)
    (targetName : AnsiString) : Rises φ (matchInclude recur targetName) fun _ => n := by
  refine Rises.bind' (hrecur targetName) fun result => ?_
  have hzero : ∀ a : Match, (0 : ℤ) ≤ n - n := fun _ => (sub_self n).ge
  cases result with
  | pass => exact Rises.pure' _ (hzero .yes)
  | fail => exact Rises.pure' _ (hzero .no)
  | softFail => exact Rises.pure' _ (hzero .no)
  | neutral => exact Rises.pure' _ (hzero .no)
  | tempError => exact (h.fails _).mono hzero
  | none => exact (h.fails _).mono hzero
  | permError => exact (h.fails _).mono hzero

theorem evaluateTerm {recur : AnsiString → SPFCheck SPFResult}
    (hrecur : ∀ name, Rises φ (recur name) fun _ => T.locating + T.charging) (mechanism : SPFMechanism)
    (targetName : AnsiString) : Rises φ (e.evaluateTerm recur mechanism targetName) fun _ => T.price := by
  have hdomain := T.domain_le
  have hexplaining := T.explaining_nonneg
  have hterm := T.term_le
  refine Rises.ite' (fun _ => ?_) fun _ => ?_
  · exact (h.matchInclude hrecur targetName).mono fun _ => by linarith
  · refine Rises.bind' Rises.get' fun s => Rises.bind' (h.ask mechanism targetName) fun outcome => ?_
    refine Rises.bind' (h.charge _) fun _ => Rises.pure' _ ?_
    linarith

theorem evaluateMechanism {recur : AnsiString → SPFCheck SPFResult}
    (hrecur : ∀ name, Rises φ (recur name) fun _ => T.locating + T.charging) (mechanism : SPFMechanism)
    (domain : AnsiString) : Rises φ (e.evaluateMechanism recur mechanism domain) fun _ => 0 := by
  have hquery : Rises φ (e.evaluateQueryTerm recur mechanism domain) fun _ => 0 := by
    refine Rises.bind' (h.resolve _ _) fun target => ?_
    cases target with
    | syntaxError => exact (h.fails _).mono fun _ => by simp
    | unusable => exact Rises.pure' _ (by simp)
    | resolved targetName =>
      refine Rises.bind' h.count fun counted => ?_
      cases counted with
      | false => exact (h.fails _).mono fun _ => by simp
      | true => exact (h.evaluateTerm hrecur mechanism targetName).mono fun _ => by simp
  have hliteral : Rises φ (e.matchAddressLiteral mechanism) fun _ => 0 := by
    unfold matchAddressLiteral
    split
    · exact h.fails _
    · exact Rises.pure' _ le_rfl
  unfold SPFEvaluator.evaluateMechanism
  split
  · exact Rises.pure' _ le_rfl
  · exact hliteral
  · exact hliteral
  · exact hquery

/-- The charge for an explanation, where one is wanted. -/
def explanation (T : Tariff) (wanted : Bool) : ℤ := if wanted then T.explaining else 0

omit h in
theorem explanation_nonneg (wanted : Bool) : 0 ≤ explanation T wanted := by
  unfold explanation
  split
  · exact T.explaining_nonneg
  · exact le_rfl

omit h in
theorem explanation_le (wanted : Bool) : T.locating + T.charging + explanation T wanted ≤ T.price := by
  have hdomain := T.domain_le
  have hexplaining := T.explaining_nonneg
  unfold explanation
  split <;> linarith

theorem evaluateMechanisms {recur : AnsiString → SPFCheck SPFResult}
    (hrecur : ∀ name, Rises φ (recur name) fun _ => T.locating + T.charging) (record : SPFRecord)
    (domain : AnsiString) (wanted : Bool) (mechanisms : List SPFMechanism) :
    Rises φ (e.evaluateMechanisms recur record domain wanted mechanisms) fun _ => explanation T wanted := by
  have hnonneg := explanation_nonneg (T := T) wanted
  induction mechanisms with
  | nil => exact Rises.pure' _ hnonneg
  | cons mechanism mechanisms ih =>
    refine Rises.bind' (h.evaluateMechanism hrecur mechanism domain) fun outcome => Rises.bind' Rises.get' fun s => ?_
    refine Rises.ite' (fun _ => Rises.pure' _ (by simpa using hnonneg)) fun _ => ?_
    cases outcome with
    | error => exact Rises.pure' _ (by simpa using hnonneg)
    | no => exact ih.mono fun _ => by simp
    | yes =>
      have hexplained : Rises φ (e.explained record domain wanted (resultOf mechanism.qualifier)) fun _ =>
          explanation T wanted := by
        refine Rises.ite' (fun hwanted => ?_) fun _ => Rises.pure' _ hnonneg
        refine Rises.bind' (h.explain record domain) fun _ => Rises.pure' _ ?_
        rw [explanation, if_pos hwanted.2, sub_self]
      refine Rises.bind' hexplained fun _ => Rises.pure' _ ?_
      simp

theorem evaluateRedirect {recur : AnsiString → SPFCheck (SPFResult × AnsiString)}
    (hrecur : ∀ name, Rises φ (recur name) fun _ => T.price) (record : SPFRecord) (domain : AnsiString) :
    Rises φ (e.evaluateRedirect recur record domain) fun _ => 0 := by
  have hprice := T.price_nonneg
  unfold SPFEvaluator.evaluateRedirect
  split
  · exact Rises.pure' _ le_rfl
  · refine Rises.bind' (h.resolve _ _) fun target => ?_
    cases target with
    | syntaxError => exact Rises.pure' _ (by simp)
    | unusable => exact Rises.pure' _ (by simp)
    | resolved targetName =>
      refine Rises.bind' h.count fun counted => ?_
      cases counted with
      | false => exact Rises.pure' _ (by simp)
      | true =>
        refine Rises.bind' (hrecur targetName) fun verdict => Rises.pure' _ ?_
        simp

/-- A check of a domain raises the potential by its first lookup and its explanation: every
    other query is one a counted term has paid for. -/
theorem checkDomain (left : ℕ) (domain : AnsiString) (wanted : Bool) :
    Rises φ (e.checkDomain left domain wanted) fun _ => T.locating + T.charging + explanation T wanted := by
  have hfirst := T.first_nonneg
  induction left generalizing domain wanted with
  | zero =>
    have hnonneg := explanation_nonneg (T := T) wanted
    exact Rises.pure' _ (by linarith)
  | succ left ih =>
    have hnonneg := explanation_nonneg (T := T) wanted
    have hrest : 0 ≤ T.locating + T.charging + explanation T wanted - 0 - T.locating - T.charging := by linarith
    refine Rises.bind' Rises.get' fun s => Rises.bind' (h.locate domain) fun located => ?_
    refine Rises.bind' (h.charge _) fun _ => ?_
    cases located with
    | noRecord => exact Rises.pure' _ hrest
    | temporaryError => exact Rises.pure' _ hrest
    | ambiguous => exact Rises.pure' _ hrest
    | syntaxError => exact Rises.pure' _ hrest
    | found record =>
      have hinclude : ∀ name, Rises φ (Prod.fst <$> e.checkDomain left name false) fun _ => T.locating + T.charging := by
        intro name
        exact Rises.map' ((ih name false).mono fun _ => by simp [explanation])
      have hredirect : ∀ name, Rises φ (e.checkDomain left name wanted) fun _ => T.price := by
        intro name
        exact (ih name wanted).mono fun _ => explanation_le wanted
      refine Rises.bind' Rises.get' fun s => Rises.ite' (fun _ => Rises.pure' _ (by linarith)) fun _ => ?_
      refine Rises.bind' (h.evaluateMechanisms hinclude record domain wanted record.mechanisms) fun verdict => ?_
      cases verdict with
      | some verdict => exact Rises.pure' _ (by linarith)
      | none => exact (h.evaluateRedirect hredirect record domain).mono fun _ => by linarith

end Pays

/-! ## The queries -/

/-- The queries that no counted term has paid for; those for the validated names are made
    once. -/
def cost (s : SPFState) : ℤ :=
  s.queries.length - 11 * min s.terms maximumTerms - if s.validatedNames.isSome then 11 else 0

/-- The same without the names. -/
def asked (s : SPFState) : ℤ := s.queries.length - 11 * min s.terms maximumTerms

theorem query_asked (q : SPFQuery) : Rises asked (e.query q) fun _ => 1 := by
  intro s
  show ((s.queries.length + 1 : ℕ) : ℤ) - 11 * min s.terms maximumTerms ≤ asked s + 1
  unfold asked
  push_cast
  linarith

theorem query_cost (q : SPFQuery) : Rises cost (e.query q) fun _ => 1 := by
  intro s
  have hasked := query_asked (e := e) q s
  show asked ((e.query q).run s).2 - (if s.validatedNames.isSome then 11 else 0) ≤ cost s + 1
  have hcost : cost s = asked s - if s.validatedNames.isSome then 11 else 0 := rfl
  linarith

theorem lookupAddresses_asked (host : AnsiString) : Rises asked (e.lookupAddresses host) fun _ => 1 := by
  unfold lookupAddresses
  split
  · exact query_asked _
  · exact query_asked _

theorem lookupAddresses_cost (host : AnsiString) : Rises cost (e.lookupAddresses host) fun _ => 1 := by
  unfold lookupAddresses
  split
  · exact query_cost _
  · exact query_cost _

theorem findValidatedNames_asked (names : List AnsiString) :
    Rises asked (e.findValidatedNames names) fun _ => names.length := by
  induction names with
  | nil => exact Rises.pure' _ le_rfl
  | cons name names ih =>
    refine Rises.bind' (lookupAddresses_asked name) fun answer => ?_
    refine Rises.bind' ih fun validated => Rises.pure' _ ?_
    rw [List.length_cons]
    push_cast
    linarith

/-- The names are looked up once. -/
theorem getValidatedNames_known (e : SPFEvaluator) {s : SPFState} {names : List AnsiString}
    (h : s.validatedNames = some names) : e.getValidatedNames.run s = (names, s) := by
  simp [getValidatedNames, h]
  rfl

theorem getValidatedNames_unknown (e : SPFEvaluator) {s : SPFState} (h : s.validatedNames = none) :
    e.getValidatedNames.run s = ((do
      let answer ← e.query (.ptr e.client.getReverseName)
      let names ← e.findValidatedNames ((answer.getD []).take maximumPtrNames)
      modify fun s => { s with validatedNames := some names }
      return names : SPFCheck (List AnsiString)).run s) := by
  simp [getValidatedNames, h]

/-- That is ten queries behind the first at most. -/
theorem getValidatedNames_cost : Rises cost e.getValidatedNames fun _ => 0 := by
  intro s
  cases hknown : s.validatedNames with
  | some names =>
    have hrun : (e.getValidatedNames.run s).2 = s := by
      rw [e.getValidatedNames_known hknown]
    rw [hrun]
    exact (add_zero _).ge
  | none =>
    have hlookups : Rises asked (do
        let answer ← e.query (.ptr e.client.getReverseName)
        e.findValidatedNames ((answer.getD []).take maximumPtrNames)) fun _ => 11 := by
      refine Rises.bind' (query_asked _) fun answer => (findValidatedNames_asked _).mono fun _ => ?_
      have hlength : ((answer.getD []).take maximumPtrNames).length ≤ 10 := List.length_take_le _ _
      have hcast : ((((answer.getD []).take maximumPtrNames).length : ℕ) : ℤ) ≤ 10 := by exact_mod_cast hlength
      linarith
    have hbound := hlookups s
    have hrun : cost (e.getValidatedNames.run s).2 = asked ((do
        let answer ← e.query (.ptr e.client.getReverseName)
        e.findValidatedNames ((answer.getD []).take maximumPtrNames) : SPFCheck (List AnsiString)).run s).2 - 11 := by
      rw [e.getValidatedNames_unknown hknown]
      rfl
    have hcost : cost s = asked s - if s.validatedNames.isSome then 11 else 0 := rfl
    rw [hknown] at hcost
    rw [hrun, hcost]
    simp only [Option.isSome_none, Bool.false_eq_true, if_false]
    linarith

theorem fail_cost (result : SPFResult) : Rises cost (fail result) fun _ => 0 := by
  intro s
  exact (add_zero _).ge

theorem macroValue_cost (domain : AnsiString) (letter : UInt8) :
    Rises cost (e.macroValue domain letter) fun _ => 0 := by
  unfold macroValue
  split
  · exact Rises.bind' getValidatedNames_cost fun _ => Rises.pure' _ (by simp)
  · exact Rises.pure' _ le_rfl

theorem matchHosts_cost (prefixLength : ℕ) (hostNames : List AnsiString) :
    Rises cost (e.matchHosts prefixLength hostNames) fun _ => hostNames.length := by
  induction hostNames with
  | nil => exact Rises.pure' _ le_rfl
  | cons hostName hostNames ih =>
    have hlength : ((hostName :: hostNames).length : ℤ) - 1 = hostNames.length := by
      rw [List.length_cons]
      push_cast
      ring
    have hnonneg : (0 : ℤ) ≤ ((hostName :: hostNames).length : ℤ) - 1 := by
      rw [hlength]
      exact Int.natCast_nonneg _
    refine Rises.bind' (lookupAddresses_cost hostName) fun answer => ?_
    split
    · exact (fail_cost _).mono fun _ => hnonneg
    · split
      · exact Rises.pure' _ hnonneg
      · exact ih.mono fun _ => hlength.ge

theorem matchQuerying_cost (mechanism : SPFMechanism) (targetName : AnsiString) :
    Rises cost (e.matchQuerying mechanism targetName) fun _ => 11 := by
  unfold matchQuerying
  split
  · refine Rises.bind' (lookupAddresses_cost targetName) fun answer => ?_
    split
    · exact (fail_cost _).mono fun _ => by norm_num
    · exact Rises.pure' _ (by norm_num)
  · refine Rises.bind' (query_cost _) fun answer => ?_
    split
    · exact (fail_cost _).mono fun _ => by norm_num
    · split
      · exact (fail_cost _).mono fun _ => by norm_num
      · rename_i hostNames hfew
        refine (matchHosts_cost _ hostNames).mono fun _ => ?_
        have hcast : ((hostNames.length : ℕ) : ℤ) ≤ (maximumMxNames : ℕ) := by exact_mod_cast not_lt.1 hfew
        have hten : ((maximumMxNames : ℕ) : ℤ) = 10 := rfl
        linarith
  · exact Rises.bind' getValidatedNames_cost fun _ => Rises.pure' _ (by norm_num)
  · refine Rises.bind' (query_cost _) fun answer => ?_
    split
    · exact (fail_cost _).mono fun _ => by norm_num
    · exact Rises.pure' _ (by norm_num)
  · exact Rises.pure' _ (by norm_num)

theorem explanationFor_cost (record : SPFRecord) (domain : AnsiString) :
    Rises cost (e.explanationFor record domain) fun _ => 1 := by
  have hclosed := Rises.closed cost
  have hvalue := macroValue_cost (e := e) domain
  unfold explanationFor
  split
  · exact Rises.pure' _ (by norm_num)
  · refine Rises.bind' (SPFMacroExpander.expandDomainSpec_closed hclosed hvalue _) fun target => ?_
    split
    · exact Rises.pure' _ (by norm_num)
    · refine Rises.bind' (query_cost _) fun answer => ?_
      split
      · refine Rises.bind' (SPFMacroExpander.expandExplanation_closed hclosed hvalue _) fun _ => ?_
        exact Rises.pure' _ (by norm_num)
      · exact Rises.pure' _ (by norm_num)

theorem pays_cost : Pays e cost ⟨11, 1, 11, 0, 1, by norm_num, by norm_num, by norm_num, by norm_num, by norm_num⟩ where
  resolve := fun domainSpec domain => resolveTargetName_closed (Rises.closed cost) (macroValue_cost domain) domainSpec
  fails := fail_cost
  count := by
    intro s
    show cost { s with terms := s.terms + 1 } ≤ cost s + if decide (s.terms + 1 ≤ maximumTerms) then -11 else 0
    by_cases hcounted : s.terms + 1 ≤ maximumTerms
    · have hbefore : min s.terms maximumTerms = s.terms := min_eq_left (by omega)
      have hafter : min (s.terms + 1) maximumTerms = s.terms + 1 := min_eq_left hcounted
      simp only [cost, hcounted, decide_true, if_true]
      push_cast
      omega
    · simp only [cost, hcounted, decide_false, Bool.false_eq_true, if_false]
      push_cast
      omega
  locate := by
    intro domain
    unfold locate
    split
    · exact Rises.pure' _ (by norm_num)
    · exact Rises.bind' (query_cost _) fun _ => Rises.pure' _ (by norm_num)
  ask := matchQuerying_cost
  charge := by
    intro before
    refine Rises.modify' fun s => ?_
    split
    · exact (add_zero _).ge
    · exact (add_zero _).ge
  explain := explanationFor_cost

/-! ## The void terms -/

theorem pays_counters (ψ : ℕ × ℕ → ℤ) (T : Tariff) (hasking : 0 ≤ T.asking) (hlocating : 0 ≤ T.locating)
    (hcount : Rises (fun s => ψ (counters s)) countTerm fun counted => if counted then -T.price else 0)
    (hcharge : ∀ before, Rises (fun s => ψ (counters s)) (countVoidTerm before) fun _ => T.charging) :
    Pays e (fun s => ψ (counters s)) T where
  resolve := fun domainSpec domain => Rises.of_keeps ((quiet_counters (e := e)).resolveTargetName domainSpec domain)
  fails := fun result => Rises.of_keeps (g := counters) fun _ => rfl
  count := hcount
  locate := fun domain => (Rises.of_keeps ((quiet_counters (e := e)).locate domain)).mono fun _ => hlocating
  ask := fun mechanism targetName => (Rises.of_keeps ((quiet_counters (e := e)).matchQuerying mechanism targetName)).mono fun _ => hasking
  charge := hcharge
  explain := fun record domain =>
    (Rises.of_keeps ((quiet_counters (e := e)).explanationFor record domain)).mono fun _ => T.explaining_nonneg

/-- A counted term is charged one void at most. -/
theorem pays_voids : Pays e (fun s => (counters s).2 - (counters s).1)
    ⟨1, 0, 0, 1, 0, by norm_num, by norm_num, by norm_num, by norm_num, by norm_num⟩ := by
  refine pays_counters (fun c => c.2 - c.1) _ le_rfl le_rfl ?_ fun before => Rises.modify' fun s => ?_
  · intro s
    show (s.voidTerms : ℤ) - (s.terms + 1 : ℕ) ≤
      s.voidTerms - s.terms + if decide (s.terms + 1 ≤ maximumTerms) then -1 else 0
    push_cast
    split <;> linarith
  · split
    · show ((s.voidTerms + 1 : ℕ) : ℤ) - s.terms ≤ s.voidTerms - s.terms + 1
      push_cast
      linarith
    · show (s.voidTerms : ℤ) - s.terms ≤ s.voidTerms - s.terms + 1
      linarith

/-- The terms are never counted back. -/
theorem pays_terms : Pays e (fun s => -((counters s).1 : ℤ))
    ⟨1, 0, 0, 0, 0, by norm_num, by norm_num, by norm_num, by norm_num, by norm_num⟩ := by
  refine pays_counters (fun c => -(c.1 : ℤ)) _ le_rfl le_rfl ?_ fun before => Rises.modify' fun s => ?_
  · intro s
    show -((s.terms + 1 : ℕ) : ℤ) ≤ -(s.terms : ℤ) + if decide (s.terms + 1 ≤ maximumTerms) then -1 else 0
    push_cast
    split <;> linarith
  · split
    · exact (add_zero _).ge
    · exact (add_zero _).ge

/-! ## Past a limit -/

/-- Neither limit of section 4.6.4 is passed. -/
structure Within (e : SPFEvaluator) (s : SPFState) : Prop where
  terms : s.terms ≤ maximumTerms
  voids : e.hasTooManyVoidTerms s = false

/-- What holds of every state of a check. -/
structure Sound (e : SPFEvaluator) (s : SPFState) : Prop where
  terms : s.terms ≤ maximumTerms + 1
  voids : 0 < e.voidTermLimit → s.voidTerms ≤ e.voidTermLimit + 1
  error : ErrorKept s

theorem Within.congr {s t : SPFState} (h : Within e s) (hsame : counters t = counters s) : Within e t := by
  obtain ⟨hterms, hvoids⟩ := Prod.mk.inj hsame
  refine ⟨hterms ▸ h.terms, ?_⟩
  rw [← h.voids, hasTooManyVoidTerms, hasTooManyVoidTerms, hvoids]

theorem Sound.congr {s t : SPFState} (h : Sound e s) (hsame : counters t = counters s) (herror : ErrorKept t) :
    Sound e t := by
  obtain ⟨hterms, hvoids⟩ := Prod.mk.inj hsame
  exact ⟨hterms ▸ h.terms, hvoids ▸ h.voids, herror⟩

/-- What a piece that counts nothing leaves behind. -/
theorem Sound.quiet {α : Type} {x : SPFCheck α} {s : SPFState} (h : Sound e s)
    (hkeeps : Keeps counters x) (herror : Maintains ErrorKept x) :
    Post x s fun _ t => Sound e t ∧ counters t = counters s :=
  ⟨h.congr (hkeeps s) (herror s h.error), hkeeps s⟩

theorem not_tooMany {s : SPFState} (h : e.hasTooManyVoidTerms s = false) (hlimit : 0 < e.voidTermLimit) :
    (s.voidTerms : ℤ) ≤ e.voidTermLimit := by
  rw [hasTooManyVoidTerms, decide_eq_false_iff_not] at h
  exact not_lt.1 fun hpast => h ⟨hlimit, hpast⟩

theorem countVoidTerm_post {s : SPFState} (hsound : Sound e s) (hwithin : Within e s) (before : ℕ) :
    Post (countVoidTerm before) s fun _ t => Sound e t ∧ t.terms = s.terms ∧ t.voidTerms ≤ s.voidTerms + 1 := by
  show Sound e (if before < s.voidLookups then { s with voidTerms := s.voidTerms + 1 } else s) ∧
    (if before < s.voidLookups then { s with voidTerms := s.voidTerms + 1 } else s).terms = s.terms ∧
    (if before < s.voidLookups then { s with voidTerms := s.voidTerms + 1 } else s).voidTerms ≤ s.voidTerms + 1
  split
  · refine ⟨⟨hsound.terms, fun hlimit => ?_, hsound.error⟩, rfl, le_rfl⟩
    have hbefore := not_tooMany hwithin.voids hlimit
    show ((s.voidTerms + 1 : ℕ) : ℤ) ≤ e.voidTermLimit + 1
    push_cast
    linarith
  · exact ⟨hsound, rfl, Nat.le_succ _⟩

/-- What a check of another domain comes to. -/
def Recurs (e : SPFEvaluator) (recur : AnsiString → SPFCheck SPFResult) : Prop :=
  ∀ name s, Sound e s → Within e s → Post (recur name) s fun result t =>
    Sound e t ∧ (¬Within e t → result = .permError ∨ result = .none)

/-- What a directive comes to: past a limit there is nothing left but the permanent error. -/
def Judged (e : SPFEvaluator) (outcome : Match) (t : SPFState) : Prop :=
  Sound e t ∧ (¬Within e t → e.hasTooManyVoidTerms t = true ∨ outcome = .error ∧ t.errorResult = .permError)

theorem judged_within {t : SPFState} {outcome : Match} (hsound : Sound e t) (hwithin : Within e t) :
    Judged e outcome t := ⟨hsound, fun hnot => absurd hwithin hnot⟩

theorem fail_judged {t : SPFState} {result : SPFResult} (hsound : Sound e t) (hne : result ≠ .none)
    (hpast : ¬Within e t → result = .permError) : Post (fail result) t (Judged e) := by
  refine ⟨hsound.congr rfl hne, fun hnot => .inr ⟨rfl, hpast fun hwithin => hnot (hwithin.congr rfl)⟩⟩

theorem matchInclude_judged {recur : AnsiString → SPFCheck SPFResult} (hrecur : Recurs e recur) {s : SPFState}
    (hsound : Sound e s) (hwithin : Within e s) (targetName : AnsiString) :
    Post (matchInclude recur targetName) s (Judged e) := by
  refine Post.bind' (hrecur targetName s hsound hwithin) fun result t hpost => ?_
  obtain ⟨hsound', hpast⟩ := hpost
  have hdecided : result ≠ .permError → result ≠ .none → Within e t := by
    intro hperm hnone
    by_contra hnot
    exact (hpast hnot).elim hperm hnone
  cases result with
  | pass => exact judged_within hsound' (hdecided nofun nofun)
  | fail => exact judged_within hsound' (hdecided nofun nofun)
  | softFail => exact judged_within hsound' (hdecided nofun nofun)
  | neutral => exact judged_within hsound' (hdecided nofun nofun)
  | tempError => exact fail_judged hsound' nofun fun hnot => absurd (hdecided nofun nofun) hnot
  | none => exact fail_judged hsound' nofun fun _ => rfl
  | permError => exact fail_judged hsound' nofun fun _ => rfl

theorem evaluateTerm_judged {recur : AnsiString → SPFCheck SPFResult} (hrecur : Recurs e recur) {s : SPFState}
    (hsound : Sound e s) (hwithin : Within e s) (mechanism : SPFMechanism) (targetName : AnsiString) :
    Post (e.evaluateTerm recur mechanism targetName) s (Judged e) := by
  unfold evaluateTerm
  split
  · exact matchInclude_judged hrecur hsound hwithin targetName
  · have hquiet := hsound.quiet ((quiet_counters (e := e)).matchQuerying mechanism targetName)
      ((quiet_errorKept (e := e)).matchQuerying mechanism targetName)
    refine Post.get_bind (Post.bind' hquiet fun outcome t hpost => ?_)
    refine Post.bind' (countVoidTerm_post hpost.1 (hwithin.congr hpost.2) _) fun _ t' hpost' => ?_
    refine ⟨hpost'.1, fun hnot => .inl ?_⟩
    by_contra hvoids
    refine hnot ⟨?_, Bool.eq_false_iff.2 hvoids⟩
    show t'.terms ≤ maximumTerms
    rw [hpost'.2.1]
    exact (hwithin.congr hpost.2).terms

theorem countTerm_post {s : SPFState} (hsound : Sound e s) (hwithin : Within e s) :
    Post countTerm s fun counted t => Sound e t ∧ t.terms = s.terms + 1 ∧ (counted = true → Within e t) := by
  refine ⟨⟨Nat.succ_le_succ hwithin.terms, hsound.voids, hsound.error⟩, rfl, fun hcounted => ?_⟩
  exact ⟨of_decide_eq_true hcounted, hwithin.voids⟩

theorem evaluateMechanism_judged {recur : AnsiString → SPFCheck SPFResult} (hrecur : Recurs e recur) {s : SPFState}
    (hsound : Sound e s) (hwithin : Within e s) (mechanism : SPFMechanism) (domain : AnsiString) :
    Post (e.evaluateMechanism recur mechanism domain) s (Judged e) := by
  have hliteral : Post (e.matchAddressLiteral mechanism) s (Judged e) := by
    unfold matchAddressLiteral
    split
    · exact fail_judged hsound nofun fun hnot => absurd hwithin hnot
    · exact judged_within hsound hwithin
  have hquery : Post (e.evaluateQueryTerm recur mechanism domain) s (Judged e) := by
    have hquiet := hsound.quiet ((quiet_counters (e := e)).resolveTargetName mechanism.domainSpec domain)
      ((quiet_errorKept (e := e)).resolveTargetName mechanism.domainSpec domain)
    refine Post.bind' hquiet fun target t hpost => ?_
    have hwithin' := hwithin.congr hpost.2
    cases target with
    | syntaxError => exact fail_judged hpost.1 nofun fun _ => rfl
    | unusable => exact judged_within hpost.1 hwithin'
    | resolved targetName =>
      refine Post.bind' (countTerm_post hpost.1 hwithin') fun counted t' hcount => ?_
      cases counted with
      | false => exact fail_judged hcount.1 nofun fun _ => rfl
      | true => exact evaluateTerm_judged hrecur hcount.1 (hcount.2.2 rfl) mechanism targetName
  unfold evaluateMechanism
  split
  · exact judged_within hsound hwithin
  · exact hliteral
  · exact hliteral
  · exact hquery

/-- What a check of a domain comes to, but for a domain without a record. -/
def Concluded (e : SPFEvaluator) (result : SPFResult) (t : SPFState) : Prop :=
  Sound e t ∧ result ≠ .none ∧ (¬Within e t → result = .permError)

theorem evaluateMechanisms_concluded {recur : AnsiString → SPFCheck SPFResult} (hrecur : Recurs e recur) {s : SPFState}
    (hsound : Sound e s) (hwithin : Within e s) (record : SPFRecord) (domain : AnsiString) (wanted : Bool)
    (mechanisms : List SPFMechanism) :
    Post (e.evaluateMechanisms recur record domain wanted mechanisms) s fun verdict t =>
      match verdict with
      | none => Sound e t ∧ Within e t
      | some verdict => Concluded e verdict.1 t := by
  induction mechanisms generalizing s with
  | nil => exact ⟨hsound, hwithin⟩
  | cons mechanism mechanisms ih =>
    refine Post.bind' (evaluateMechanism_judged hrecur hsound hwithin mechanism domain) fun outcome t hjudged => ?_
    refine Post.get_bind ?_
    by_cases htoo : e.hasTooManyVoidTerms t = true
    · rw [if_pos htoo]
      exact ⟨hjudged.1, nofun, fun _ => rfl⟩
    · rw [if_neg htoo]
      have hpast : ¬Within e t → outcome = .error ∧ t.errorResult = .permError := fun hnot =>
        (hjudged.2 hnot).resolve_left htoo
      cases outcome with
      | error => exact ⟨hjudged.1, hjudged.1.error, fun hnot => (hpast hnot).2⟩
      | no => exact ih hjudged.1 (by_contra fun hnot => nomatch (hpast hnot).1)
      | yes =>
        have hwithin' : Within e t := by_contra fun hnot => nomatch (hpast hnot).1
        have hquiet := hjudged.1.quiet ((quiet_counters (e := e)).explained record domain wanted (resultOf mechanism.qualifier))
          ((quiet_errorKept (e := e)).explained record domain wanted (resultOf mechanism.qualifier))
        have hresult : ((e.explained record domain wanted (resultOf mechanism.qualifier)).run t).1.1 =
            resultOf mechanism.qualifier := by
          unfold explained
          split <;> rfl
        refine ⟨hquiet.1, ?_, fun hnot => absurd (hwithin'.congr hquiet.2) hnot⟩
        show ((e.explained record domain wanted (resultOf mechanism.qualifier)).run t).1.1 ≠ .none
        rw [hresult]
        cases mechanism.qualifier <;> exact nofun

theorem evaluateRedirect_concluded {recur : AnsiString → SPFCheck (SPFResult × AnsiString)}
    (hrecur : Recurs e fun name => Prod.fst <$> recur name) {s : SPFState} (hsound : Sound e s) (hwithin : Within e s)
    (record : SPFRecord) (domain : AnsiString) :
    Post (e.evaluateRedirect recur record domain) s fun verdict t => Concluded e verdict.1 t := by
  unfold evaluateRedirect
  split
  · exact ⟨hsound, nofun, fun hnot => absurd hwithin hnot⟩
  · rename_i domainSpec _
    have hquiet := hsound.quiet ((quiet_counters (e := e)).resolveTargetName (some domainSpec) domain)
      ((quiet_errorKept (e := e)).resolveTargetName (some domainSpec) domain)
    refine Post.bind' hquiet fun target t hpost => ?_
    cases target with
    | syntaxError => exact ⟨hpost.1, nofun, fun _ => rfl⟩
    | unusable => exact ⟨hpost.1, nofun, fun _ => rfl⟩
    | resolved targetName =>
      refine Post.bind' (countTerm_post hpost.1 (hwithin.congr hpost.2)) fun counted t' hcount => ?_
      cases counted with
      | false => exact ⟨hcount.1, nofun, fun _ => rfl⟩
      | true =>
        have hother := hrecur targetName t' hcount.1 (hcount.2.2 rfl)
        show Concluded e (if ((recur targetName).run t').1.1 = .none then (SPFResult.permError, [])
          else ((recur targetName).run t').1).1 ((recur targetName).run t').2
        split
        · exact ⟨hother.1, nofun, fun _ => rfl⟩
        · rename_i hne
          exact ⟨hother.1, hne, fun hnot => (hother.2 hnot).resolve_right hne⟩

theorem evaluateRecord_concluded {recur : AnsiString → Bool → SPFCheck (SPFResult × AnsiString)}
    (hrecur : ∀ wanted, Recurs e fun name => Prod.fst <$> recur name wanted) {s : SPFState} (hsound : Sound e s)
    (hterms : s.terms ≤ maximumTerms) (record : SPFRecord) (domain : AnsiString) (wanted : Bool) :
    Post (e.evaluateRecord recur record domain wanted) s fun verdict t => Concluded e verdict.1 t := by
  refine Post.get_bind ?_
  by_cases htoo : e.hasTooManyVoidTerms s = true
  · rw [if_pos htoo]
    exact ⟨hsound, nofun, fun _ => rfl⟩
  · rw [if_neg htoo]
    have hwithin : Within e s := ⟨hterms, Bool.eq_false_iff.2 htoo⟩
    refine Post.bind' (evaluateMechanisms_concluded (hrecur false) hsound hwithin record domain wanted
      record.mechanisms) fun verdict t hpost => ?_
    cases verdict with
    | some verdict => exact hpost
    | none => exact evaluateRedirect_concluded (hrecur wanted) hpost.1 hpost.2 record domain

/-- A lookup that could not be answered is no void one. -/
theorem locate_temporaryError (domain : AnsiString) (s : SPFState) :
    Post (e.locate domain) s fun located t => located = .temporaryError → t.voidLookups = s.voidLookups := by
  unfold locate
  split
  · exact nofun
  · show readRecords (e.lookup s.queries (.txt domain)) = .temporaryError →
      (if e.lookup s.queries (.txt domain) = some [] then s.voidLookups + 1 else s.voidLookups) = s.voidLookups
    intro htemporary
    cases hanswer : e.lookup s.queries (.txt domain) with
    | none => rw [if_neg nofun]
    | some textRecords =>
      rw [hanswer, readRecords] at htemporary
      split at htemporary
      · cases htemporary
      · split at htemporary <;> cases htemporary
      · cases htemporary

/-- A domain without a record is the one that may leave a limit passed with another result:
    its lookup was the void that passed it. -/
theorem checkDomain_concluded (left : ℕ) (domain : AnsiString) (wanted : Bool) {s : SPFState} (hsound : Sound e s)
    (hwithin : Within e s) : Post (e.checkDomain left domain wanted) s fun verdict t => Sound e t ∧
      (¬Within e t → verdict.1 = .permError ∨
        verdict.1 = .none ∧ t.terms = s.terms ∧ t.voidTerms ≤ s.voidTerms + 1) := by
  induction left generalizing domain wanted s with
  | zero => exact ⟨hsound, fun _ => .inl rfl⟩
  | succ left ih =>
    have hrecurs : ∀ wanted, Recurs e fun name => Prod.fst <$> e.checkDomain left name wanted := by
      intro wanted name s hsound hwithin
      obtain ⟨hsound', hpast⟩ := ih name wanted hsound hwithin
      exact ⟨hsound', fun hnot => (hpast hnot).imp id And.left⟩
    refine Post.get_bind ?_
    have hquiet := hsound.quiet ((quiet_counters (e := e)).locate domain) ((quiet_errorKept (e := e)).locate domain)
    have htemporary := locate_temporaryError (e := e) domain s
    refine Post.bind' (P := fun located t => (Sound e t ∧ counters t = counters s) ∧
      (located = Located.temporaryError → t.voidLookups = s.voidLookups)) ⟨hquiet, htemporary⟩ fun located t hpost => ?_
    have hbefore := hwithin.congr hpost.1.2
    have hcharged := countVoidTerm_post hpost.1.1 hbefore s.voidLookups
    refine Post.bind' (P := fun _ t' => (Sound e t' ∧ t'.terms = t.terms ∧ t'.voidTerms ≤ t.voidTerms + 1) ∧
      (located = Located.temporaryError → t' = t)) ⟨hcharged, fun hlocated => ?_⟩ fun _ t' hcount => ?_
    · show (if s.voidLookups < t.voidLookups then { t with voidTerms := t.voidTerms + 1 } else t) = t
      rw [hpost.2 hlocated, if_neg (lt_irrefl _)]
    obtain ⟨hsameTerms, hsameVoids⟩ := Prod.mk.inj hpost.1.2
    have hterms : t'.terms = s.terms := hcount.1.2.1.trans hsameTerms
    have hvoids : t'.voidTerms ≤ s.voidTerms + 1 := hsameVoids ▸ hcount.1.2.2
    cases located with
    | noRecord => exact ⟨hcount.1.1, fun _ => .inr ⟨rfl, hterms, hvoids⟩⟩
    | temporaryError => exact ⟨hcount.1.1, fun hnot => absurd (hcount.2 rfl ▸ hbefore) hnot⟩
    | ambiguous => exact ⟨hcount.1.1, fun _ => .inl rfl⟩
    | syntaxError => exact ⟨hcount.1.1, fun _ => .inl rfl⟩
    | found record =>
      have hconcluded := evaluateRecord_concluded hrecurs hcount.1.1 (hterms ▸ hwithin.terms) record domain wanted
      exact ⟨hconcluded.1, fun hnot => .inl (hconcluded.2.2 hnot)⟩

/-! ## The depth guard -/

/-- Two checks of other domains that agree on every state behind a term counted after `n`. -/
def Agree (n : ℕ) {α : Type} (x y : AnsiString → SPFCheck α) : Prop :=
  ∀ name s, n < s.terms → s.terms ≤ maximumTerms → (x name).run s = (y name).run s

theorem evaluateTerm_agree {n : ℕ} {x y : AnsiString → SPFCheck SPFResult} (hagree : Agree n x y)
    (mechanism : SPFMechanism) (targetName : AnsiString) {s : SPFState} (hs : n < s.terms)
    (hterms : s.terms ≤ maximumTerms) :
    (e.evaluateTerm x mechanism targetName).run s = (e.evaluateTerm y mechanism targetName).run s := by
  unfold evaluateTerm
  split
  · exact run_bind_left (hagree targetName s hs hterms)
  · rfl

theorem resolveTargetName_terms (domainSpec : Option AnsiString) (domain : AnsiString) (s : SPFState) :
    Post (e.resolveTargetName domainSpec domain) s fun _ t => t.terms = s.terms :=
  congrArg Prod.fst ((quiet_counters (e := e)).resolveTargetName domainSpec domain s)

theorem evaluateMechanism_agree {n : ℕ} {x y : AnsiString → SPFCheck SPFResult} (hagree : Agree n x y)
    (mechanism : SPFMechanism) (domain : AnsiString) {s : SPFState} (hs : n ≤ s.terms) :
    (e.evaluateMechanism x mechanism domain).run s = (e.evaluateMechanism y mechanism domain).run s := by
  have hquery : (e.evaluateQueryTerm x mechanism domain).run s = (e.evaluateQueryTerm y mechanism domain).run s := by
    refine Post.bind_congr (resolveTargetName_terms mechanism.domainSpec domain s) fun target t ht => ?_
    cases target with
    | syntaxError => rfl
    | unusable => rfl
    | resolved targetName =>
      refine Post.bind_congr (P := fun counted t' => t'.terms = t.terms + 1 ∧ (counted = true → t'.terms ≤ maximumTerms))
        ⟨rfl, fun hcounted => of_decide_eq_true hcounted⟩ fun counted t' hcount => ?_
      cases counted with
      | false => rfl
      | true => exact evaluateTerm_agree hagree mechanism targetName (by omega) (hcount.2 rfl)
  unfold evaluateMechanism
  split
  · rfl
  · rfl
  · rfl
  · exact hquery

/-- The terms are never counted back. -/
def Forward {α : Type} (x : AnsiString → SPFCheck α) : Prop :=
  ∀ name, Rises (fun s => -((counters s).1 : ℤ)) (x name) fun _ => 0

theorem Forward.le {α : Type} {x : AnsiString → SPFCheck α} (h : Forward x) (name : AnsiString) (s : SPFState) :
    s.terms ≤ ((x name).run s).2.terms := by
  have hrise : -(((x name).run s).2.terms : ℤ) ≤ -(s.terms : ℤ) + 0 := h name s
  omega

theorem checkDomain_forward (left : ℕ) (wanted : Bool) : Forward fun name => e.checkDomain left name wanted :=
  fun name => (pays_terms.checkDomain left name wanted).mono fun _ => by simp [Pays.explanation]

theorem evaluateMechanism_forward {recur : AnsiString → SPFCheck SPFResult} (hrecur : Forward recur)
    (mechanism : SPFMechanism) : Forward (e.evaluateMechanism recur mechanism) :=
  fun domain => pays_terms.evaluateMechanism (fun name => (hrecur name).mono fun _ => by simp) mechanism domain

theorem evaluateMechanisms_forward {recur : AnsiString → SPFCheck SPFResult} (hrecur : Forward recur)
    (record : SPFRecord) (wanted : Bool) (mechanisms : List SPFMechanism) :
    Forward fun domain => e.evaluateMechanisms recur record domain wanted mechanisms := fun domain =>
  (pays_terms.evaluateMechanisms (fun name => (hrecur name).mono fun _ => by simp) record domain wanted mechanisms).mono
    fun _ => by simp [Pays.explanation]

theorem evaluateRedirect_forward {recur : AnsiString → SPFCheck (SPFResult × AnsiString)} (hrecur : Forward recur)
    (record : SPFRecord) : Forward (e.evaluateRedirect recur record) :=
  fun domain => pays_terms.evaluateRedirect (fun name => (hrecur name).mono fun _ => by simp) record domain

theorem evaluateMechanisms_agree {n : ℕ} {x y : AnsiString → SPFCheck SPFResult} (hagree : Agree n x y)
    (hx : Forward x) (record : SPFRecord) (domain : AnsiString) (wanted : Bool) (mechanisms : List SPFMechanism)
    {s : SPFState} (hs : n ≤ s.terms) :
    (e.evaluateMechanisms x record domain wanted mechanisms).run s =
      (e.evaluateMechanisms y record domain wanted mechanisms).run s := by
  induction mechanisms generalizing s with
  | nil => rfl
  | cons mechanism mechanisms ih =>
    refine (run_bind_left (evaluateMechanism_agree hagree mechanism domain hs)).trans ?_
    have hforward : n ≤ ((e.evaluateMechanism y mechanism domain).run s).2.terms := by
      rw [← evaluateMechanism_agree hagree mechanism domain hs]
      exact hs.trans ((evaluateMechanism_forward hx mechanism).le domain s)
    refine Post.bind_congr (P := fun _ t => n ≤ t.terms) hforward fun outcome t ht => ?_
    refine Post.bind_congr (P := fun _ t' => n ≤ t'.terms) ht fun s' t' ht' => ?_
    split
    · rfl
    · cases outcome with
      | error => rfl
      | no => exact ih ht'
      | yes => rfl

theorem evaluateRecord_agree {n : ℕ} {x y : AnsiString → Bool → SPFCheck (SPFResult × AnsiString)}
    (hagree : ∀ wanted, Agree n (x · wanted) (y · wanted)) (hx : ∀ wanted, Forward (x · wanted)) (record : SPFRecord)
    (domain : AnsiString) (wanted : Bool) {s : SPFState} (hs : n ≤ s.terms) :
    (e.evaluateRecord x record domain wanted).run s = (e.evaluateRecord y record domain wanted).run s := by
  have hagree' : Agree n (fun name => Prod.fst <$> x name false) fun name => Prod.fst <$> y name false := by
    intro name s hs hterms
    exact congrArg (fun r : (SPFResult × AnsiString) × SPFState => (r.1.1, r.2)) (hagree false name s hs hterms)
  have hforward : Forward fun name => Prod.fst <$> x name false := hx false
  refine Post.bind_congr (P := fun _ t => n ≤ t.terms) hs fun s' t ht => ?_
  split
  · rfl
  · have hsame := evaluateMechanisms_agree (e := e) hagree' hforward record domain wanted record.mechanisms ht
    refine (run_bind_left hsame).trans ?_
    have hkept : n ≤ ((e.evaluateMechanisms (fun name => Prod.fst <$> y name false) record domain wanted
        record.mechanisms).run t).2.terms := by
      rw [← hsame]
      exact ht.trans ((evaluateMechanisms_forward hforward record wanted record.mechanisms).le domain t)
    refine Post.bind_congr (P := fun _ t' => n ≤ t'.terms) hkept fun verdict t' ht' => ?_
    cases verdict with
    | some verdict => rfl
    | none =>
      show (e.evaluateRedirect (x · wanted) record domain).run t' = (e.evaluateRedirect (y · wanted) record domain).run t'
      unfold evaluateRedirect
      cases record.redirectDomainSpec with
      | none => rfl
      | some domainSpec =>
        refine Post.bind_congr (resolveTargetName_terms (some domainSpec) domain t') fun target t₁ ht₁ => ?_
        cases target with
        | syntaxError => rfl
        | unusable => rfl
        | resolved targetName =>
          refine Post.bind_congr (P := fun counted t₂ => t₂.terms = t₁.terms + 1 ∧
            (counted = true → t₂.terms ≤ maximumTerms)) ⟨rfl, fun hcounted => of_decide_eq_true hcounted⟩
            fun counted t₂ hcount => ?_
          cases counted with
          | false => rfl
          | true => exact run_bind_left (hagree wanted targetName t₂ (by omega) (hcount.2 rfl))

/-- The guard on the depth is never what ends a check: every level costs a term. -/
theorem checkDomain_depth {left left' : ℕ} (domain : AnsiString) (wanted : Bool) {s : SPFState}
    (hterms : s.terms ≤ maximumTerms) (hleft : maximumTerms < s.terms + left) (hleft' : maximumTerms < s.terms + left') :
    (e.checkDomain left domain wanted).run s = (e.checkDomain left' domain wanted).run s := by
  induction left generalizing left' domain wanted s with
  | zero => omega
  | succ left ih =>
    cases left' with
    | zero => omega
    | succ left' =>
      have hagree : ∀ wanted, Agree s.terms (e.checkDomain left · wanted) (e.checkDomain left' · wanted) := by
        intro wanted name s' hs' hterms'
        exact ih name wanted hterms' (by omega) (by omega)
      refine Post.bind_congr (P := fun _ t => t = s) rfl fun s' t ht => ?_
      subst ht
      have hlocate : Post (e.locate domain) t fun _ t' => t'.terms = t.terms :=
        congrArg Prod.fst ((quiet_counters (e := e)).locate domain t)
      refine Post.bind_congr hlocate fun located t' ht' => ?_
      have hcharge : Post (countVoidTerm s'.voidLookups) t' fun _ t'' => t''.terms = t'.terms := by
        show (if s'.voidLookups < t'.voidLookups then { t' with voidTerms := t'.voidTerms + 1 } else t').terms = t'.terms
        split <;> rfl
      refine Post.bind_congr hcharge fun _ t'' ht'' => ?_
      cases located with
      | noRecord => rfl
      | temporaryError => rfl
      | ambiguous => rfl
      | syntaxError => rfl
      | found record =>
        exact evaluateRecord_agree hagree (checkDomain_forward left) record domain wanted (by omega)

/-! ## A whole check -/

theorem check_concluded (e : SPFEvaluator) (domain : AnsiString) :
    Sound e (e.check domain).2 ∧ (¬Within e (e.check domain).2 → (e.check domain).1.1 = .permError) := by
  have hsound : Sound e {} := ⟨Nat.zero_le _, fun hlimit => by show (0 : ℤ) ≤ e.voidTermLimit + 1; omega, nofun⟩
  have hwithin : Within e {} := ⟨Nat.zero_le _, decide_eq_false fun htoo => absurd htoo.2 (not_lt.2 htoo.1.le)⟩
  obtain ⟨hend, hpast⟩ := checkDomain_concluded (maximumDepth + 1) domain true hsound hwithin
  refine ⟨hend, fun hnot => (hpast hnot).resolve_right fun hvoid => hnot ?_⟩
  -- One void alone passes no limit.
  have hterms : (e.check domain).2.terms = 0 := hvoid.2.1
  have hvoids : (e.check domain).2.voidTerms ≤ 0 + 1 := hvoid.2.2
  refine ⟨hterms.trans_le (Nat.zero_le _), decide_eq_false fun htoo => ?_⟩
  have hlimit := htoo.1
  have htoo' := htoo.2
  omega

/-- A check makes 123 queries at most, whatever the resolver answers: the first lookup, ten
    terms of eleven queries, the eleven for the validated names and the explanation's. Each
    void it is charged is the first lookup's or a counted term's, and the depth guard has
    no part in any of it. -/
theorem check_spends (e : SPFEvaluator) (domain : AnsiString) :
    (e.check domain).2.queries.length ≤ 123 ∧ (e.check domain).2.terms ≤ maximumTerms + 1 ∧
      (e.check domain).2.voidTerms ≤ (e.check domain).2.terms + 1 ∧
      ∀ left, maximumTerms < left → (e.checkDomain left domain true).run {} = e.check domain := by
  have hcost : cost (e.check domain).2 ≤ cost {} + (1 + 0 + 1) :=
    pays_cost.checkDomain (maximumDepth + 1) domain true {}
  have hvoids : ((e.check domain).2.voidTerms : ℤ) - (e.check domain).2.terms ≤ 0 - 0 + (0 + 1 + 0) :=
    pays_voids.checkDomain (maximumDepth + 1) domain true {}
  have hterms := (check_concluded e domain).1.terms
  refine ⟨?_, hterms, by omega, fun left hleft => ?_⟩
  · have hstart : cost {} = 0 := rfl
    have hcapped : min (e.check domain).2.terms maximumTerms ≤ 10 := min_le_right _ _
    have hnames : (if (e.check domain).2.validatedNames.isSome then (11 : ℤ) else 0) ≤ 11 := by split <;> norm_num
    unfold cost at hcost hstart
    omega
  · exact checkDomain_depth domain true (Nat.zero_le _) (by show maximumTerms < 0 + left; omega) (by decide)

/-- Past a limit there is nothing left but the permanent error, and no check goes more than
    one past. -/
theorem check_past_limits (e : SPFEvaluator) (domain : AnsiString) :
    (0 < e.voidTermLimit → ((e.check domain).2.voidTerms : ℤ) ≤ e.voidTermLimit + 1) ∧
      (¬Within e (e.check domain).2 → (e.check domain).1.1 = .permError) := by
  exact ⟨(check_concluded e domain).1.voids, (check_concluded e domain).2⟩

end SPFEvaluator
end HMailServer
