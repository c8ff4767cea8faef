import HMailServer.Smtp.SpfLimits
import HMailServer.Lib.Delegation

/- What a check means (RFC 7208 section 4): over a fixed zone every domain has a policy of
   clauses, read without a counter, a cache or a depth, and a check that stays within its
   limits comes to the verdict of that policy. -/
namespace HMailServer
open StateRun Delegation

/-- What the names of the world answer. -/
abbrev SPFZone := SPFQuery → Option (List AnsiString)

namespace SPFEvaluator
open SPFSyntax SPFMechanism

variable (e : SPFEvaluator) (zone : SPFZone)

/-! ## The policy of a domain -/

/-- The query for the addresses of the client's family. -/
def addressQuery (host : AnsiString) : SPFQuery := if e.client.family = .ip6 then .aaaa host else .a host

/-- The first ten names of the client's reverse mapping that resolve back to it. -/
def namesIn : List AnsiString :=
  (((zone (.ptr e.client.getReverseName)).getD []).take maximumPtrNames).filter fun name =>
    (zone (e.addressQuery name)).any (·.any e.isClient)

def letterIn (domain : AnsiString) (letter : UInt8) : Id AnsiString :=
  if letter = 112 then preferredName (e.namesIn zone) domain else e.expander.getMacroValue domain letter

def targetIn (domainSpec : Option AnsiString) (domain : AnsiString) : TargetName :=
  readTarget (domainSpec.elim (some domain) (SPFMacroExpander.expandDomainSpec (m := Id) (e.letterIn zone domain)))

/-- Whether one of the hosts has an address that matches, or the error met first. -/
def hostsIn (prefixLength : ℕ) : List AnsiString → Except SPFResult Bool
  | [] => .ok false
  | hostName :: hostNames =>
    match zone (e.addressQuery hostName) with
    | none => .error .tempError
    | some addresses =>
      if e.matchesAnyAddress addresses prefixLength then .ok true else hostsIn prefixLength hostNames

def addressesIn (mechanism : SPFMechanism) (targetName : AnsiString) : Except SPFResult Bool :=
  match zone (e.addressQuery targetName) with
  | none => .error .tempError
  | some addresses => .ok (e.matchesAnyAddress addresses (e.prefixLengthFor mechanism))

def exchangersIn (mechanism : SPFMechanism) (targetName : AnsiString) : Except SPFResult Bool :=
  match zone (.mx targetName) with
  | none => .error .tempError
  | some hostNames =>
    if maximumMxNames < hostNames.length then .error .permError
    else e.hostsIn zone (e.prefixLengthFor mechanism) hostNames

def existsIn (targetName : AnsiString) : Except SPFResult Bool :=
  match zone (.a targetName) with
  | none => .error .tempError
  | some addresses => .ok (!addresses.isEmpty)

/-- Whether a mechanism that queries matches. -/
def matchIn (mechanism : SPFMechanism) (targetName : AnsiString) : Except SPFResult Bool :=
  match mechanism.type with
  | .A => e.addressesIn zone mechanism targetName
  | .MX => e.exchangersIn zone mechanism targetName
  | .PTR => .ok ((e.namesIn zone).any (isAtOrBelow · targetName))
  | .Exists => existsIn zone targetName
  | _ => .ok false

/-- Whether an address literal matches. -/
def literalMatch (mechanism : SPFMechanism) : Except SPFResult Bool :=
  match SPFAddress.tryParse mechanism.address with
  | none => .error .permError
  | some network => .ok (e.client.matchesPrefix network (literalPrefixLength mechanism))

/-- What a match comes to under a qualifier. -/
def outcomeOf (qualifier : Qualifier) : Except SPFResult Bool → Outcome SPFResult
  | .error result => .verdict result
  | .ok true => .verdict (resultOf qualifier)
  | .ok false => .next

/-- The table of section 5.2. -/
def included : SPFResult → Except SPFResult Bool
  | .pass => .ok true
  | .fail | .softFail | .neutral => .ok false
  | .tempError => .error .tempError
  | .none | .permError => .error .permError

/-- The clause of a mechanism that queries. -/
def queryClauseIn (domain : AnsiString) (mechanism : SPFMechanism) : Clause AnsiString SPFResult :=
  match e.targetIn zone mechanism.domainSpec domain with
  | .syntaxError => .here (.verdict .permError)
  | .unusable => .here .next
  | .resolved targetName =>
    if mechanism.type = .Include then .ask targetName fun result => outcomeOf mechanism.qualifier (included result)
    else .here (outcomeOf mechanism.qualifier (e.matchIn zone mechanism targetName))

def clauseIn (domain : AnsiString) (mechanism : SPFMechanism) : Clause AnsiString SPFResult :=
  match mechanism.type with
  | .All => .here (.verdict (resultOf mechanism.qualifier))
  | .IP4 | .IP6 => .here (outcomeOf mechanism.qualifier (e.literalMatch mechanism))
  | _ => e.queryClauseIn zone domain mechanism

/-- A redirect to a domain without a record is a mistake of the record. -/
def redirected (result : SPFResult) : SPFResult := if result = .none then .permError else result

def fallbackIn (domain : AnsiString) (record : SPFRecord) : Fallback AnsiString SPFResult :=
  match record.redirectDomainSpec with
  | none => .verdict .neutral
  | some domainSpec =>
    match e.targetIn zone (some domainSpec) domain with
    | .resolved targetName => .delegate targetName redirected
    | .unusable | .syntaxError => .verdict .permError

/-- What a domain publishes. -/
def recordIn (domain : AnsiString) : Located :=
  if !isValidDomainName domain then .noRecord else readRecords (zone (.txt domain))

def policyIn (domain : AnsiString) : Policy AnsiString SPFResult :=
  match recordIn zone domain with
  | .noRecord => ⟨[], .verdict .none⟩
  | .temporaryError => ⟨[], .verdict .tempError⟩
  | .ambiguous | .syntaxError => ⟨[], .verdict .permError⟩
  | .found record => ⟨record.mechanisms.map (e.clauseIn zone domain), e.fallbackIn zone domain record⟩

end SPFEvaluator

/-! ## Expansion without lookups -/

namespace SPFMacroExpander
open SPFSyntax

section
variable {σ : Type} {I : σ → Prop} {value : UInt8 → StateM σ AnsiString} {v : UInt8 → Id AnsiString}
  (hvalue : ∀ letter, Answers I (value letter) (v letter))
include hvalue

theorem expandMacro_answers (mac : Macro) : Answers I (expandMacro value mac) (expandMacro (m := Id) v mac) := by
  cases mac with
  | literal character => exact Answers.pure' _
  | expansion letter digits reverse delimiters => exact Answers.bind' (hvalue _) (Answers.pure' _)

theorem expandFrom_answers (macros : MacroSet) (skip : ℕ) (result text : AnsiString) :
    Answers I (expandFrom value macros skip result text) (expandFrom (m := Id) v macros skip result text) := by
  induction text generalizing skip result with
  | nil => cases skip <;> exact Answers.pure' _
  | cons c text ih =>
    cases skip with
    | succ skip => exact ih skip result
    | zero =>
      unfold expandFrom
      split
      · exact ih _ _
      · split
        · exact Answers.pure' _
        · exact Answers.bind' (expandMacro_answers hvalue _) (ih _ _)

theorem expandDomainSpec_answers (domainSpec : AnsiString) :
    Answers I (expandDomainSpec value domainSpec) (expandDomainSpec (m := Id) v domainSpec) := by
  unfold expandDomainSpec
  split
  · exact Answers.pure' _
  · exact Answers.bind' (expandFrom_answers hvalue _ _ _ _) (Answers.pure' _)

end
end SPFMacroExpander

namespace SPFEvaluator
open SPFSyntax SPFMechanism

variable {e : SPFEvaluator} {zone : SPFZone}

/-! ## The lookups of a fixed zone -/

/-- The resolver answers from the zone. -/
def Static (e : SPFEvaluator) (zone : SPFZone) : Prop := ∀ asked q, e.lookup asked q = zone q

/-- The names kept, where there are any, are those of the zone. -/
def Coherent (e : SPFEvaluator) (zone : SPFZone) (s : SPFState) : Prop :=
  ∀ names, s.validatedNames = some names → names = e.namesIn zone

section Lookups
variable (hstatic : Static e zone)
include hstatic

theorem query_answers (q : SPFQuery) : Answers (Coherent e zone) (e.query q) (zone q) :=
  fun s hs => ⟨hstatic s.queries q, hs⟩

theorem lookupAddresses_answers (host : AnsiString) :
    Answers (Coherent e zone) (e.lookupAddresses host) (zone (e.addressQuery host)) := by
  unfold lookupAddresses addressQuery
  split
  · exact query_answers hstatic _
  · exact query_answers hstatic _

theorem findValidatedNames_answers (names : List AnsiString) :
    Answers (Coherent e zone) (e.findValidatedNames names)
      (names.filter fun name => (zone (e.addressQuery name)).any (·.any e.isClient)) := by
  induction names with
  | nil => exact Answers.pure' _
  | cons name names ih =>
    rw [List.filter_cons]
    refine Answers.bind' (lookupAddresses_answers hstatic name) (Answers.bind' ih ?_)
    exact Answers.pure' _

theorem getValidatedNames_answers : Answers (Coherent e zone) e.getValidatedNames (e.namesIn zone) := by
  intro s hs
  cases hknown : s.validatedNames with
  | some names =>
    rw [e.getValidatedNames_known hknown]
    exact ⟨hs names hknown, hs⟩
  | none =>
    rw [e.getValidatedNames_unknown hknown]
    have hlookups : Answers (Coherent e zone) (do
        let answer ← e.query (.ptr e.client.getReverseName)
        e.findValidatedNames ((answer.getD []).take maximumPtrNames)) (e.namesIn zone) :=
      Answers.bind' (query_answers hstatic _) (findValidatedNames_answers hstatic _)
    have hnames := (hlookups s hs).1
    refine ⟨hnames, fun names hsome => ?_⟩
    rw [← Option.some.inj hsome]
    exact hnames

theorem macroValue_answers (domain : AnsiString) (letter : UInt8) :
    Answers (Coherent e zone) (e.macroValue domain letter) (e.letterIn zone domain letter) := by
  unfold macroValue letterIn
  split
  · exact Answers.bind' (getValidatedNames_answers hstatic) (Answers.pure' _)
  · exact Answers.pure' _

theorem resolveTargetName_answers (domainSpec : Option AnsiString) (domain : AnsiString) :
    Answers (Coherent e zone) (e.resolveTargetName domainSpec domain) (e.targetIn zone domainSpec domain) := by
  have hvalue := macroValue_answers hstatic domain
  cases domainSpec with
  | none => exact Answers.bind' (Answers.pure' _) (Answers.pure' _)
  | some domainSpec =>
    exact Answers.bind' (SPFMacroExpander.expandDomainSpec_answers hvalue domainSpec) (Answers.pure' _)

theorem locate_answers (domain : AnsiString) : Answers (Coherent e zone) (e.locate domain) (recordIn zone domain) := by
  unfold locate recordIn
  split
  · exact Answers.pure' _
  · exact Answers.bind' (query_answers hstatic _) (Answers.pure' _)

/-! ## A mechanism -/

/-- What an outcome says, with the error the state keeps. -/
def reading (outcome : Match) (s : SPFState) : Except SPFResult Bool :=
  match outcome with
  | .yes => .ok true
  | .no => .ok false
  | .error => .error s.errorResult

omit hstatic in
theorem matched_yields (b : Bool) : Yields (Coherent e zone) reading (pure (matched b)) (.ok b) := by
  intro s hs
  cases b <;> exact ⟨rfl, hs⟩

omit hstatic in
theorem fail_yields (result : SPFResult) : Yields (Coherent e zone) reading (fail result) (.error result) :=
  fun _ hs => ⟨rfl, hs⟩

theorem matchHosts_yields (prefixLength : ℕ) (hostNames : List AnsiString) :
    Yields (Coherent e zone) reading (e.matchHosts prefixLength hostNames) (e.hostsIn zone prefixLength hostNames) := by
  induction hostNames with
  | nil => exact matched_yields false
  | cons hostName hostNames ih =>
    unfold matchHosts hostsIn
    refine Answers.yields_bind (lookupAddresses_answers hstatic hostName) ?_
    cases zone (e.addressQuery hostName) with
    | none => exact fail_yields _
    | some addresses =>
      dsimp only
      split
      · exact matched_yields true
      · exact ih

theorem matchA_yields (mechanism : SPFMechanism) (targetName : AnsiString) :
    Yields (Coherent e zone) reading (e.matchA mechanism targetName) (e.addressesIn zone mechanism targetName) := by
  unfold matchA addressesIn
  refine Answers.yields_bind (lookupAddresses_answers hstatic targetName) ?_
  cases zone (e.addressQuery targetName) with
  | none => exact fail_yields _
  | some addresses => exact matched_yields _

theorem matchMX_yields (mechanism : SPFMechanism) (targetName : AnsiString) :
    Yields (Coherent e zone) reading (e.matchMX mechanism targetName) (e.exchangersIn zone mechanism targetName) := by
  unfold matchMX exchangersIn
  refine Answers.yields_bind (query_answers hstatic _) ?_
  cases zone (.mx targetName) with
  | none => exact fail_yields _
  | some hostNames =>
    dsimp only
    split
    · exact fail_yields _
    · exact matchHosts_yields hstatic _ _

theorem matchExists_yields (targetName : AnsiString) :
    Yields (Coherent e zone) reading (e.matchExists targetName) (existsIn zone targetName) := by
  unfold matchExists existsIn
  refine Answers.yields_bind (query_answers hstatic _) ?_
  cases zone (.a targetName) with
  | none => exact fail_yields _
  | some addresses => exact matched_yields _

theorem matchQuerying_yields (mechanism : SPFMechanism) (targetName : AnsiString) :
    Yields (Coherent e zone) reading (e.matchQuerying mechanism targetName) (e.matchIn zone mechanism targetName) := by
  unfold matchQuerying matchIn
  cases mechanism.type with
  | A => exact matchA_yields hstatic mechanism targetName
  | MX => exact matchMX_yields hstatic mechanism targetName
  | PTR => exact Answers.yields_bind (getValidatedNames_answers hstatic) (matched_yields _)
  | Exists => exact matchExists_yields hstatic targetName
  | All => exact matched_yields false
  | Include => exact matched_yields false
  | IP4 => exact matched_yields false
  | IP6 => exact matched_yields false

end Lookups

/-- What a check of another domain comes to, from a state behind a term counted after `n`. -/
def RecursIn (e : SPFEvaluator) (zone : SPFZone) (n : ℕ) (recur : AnsiString → SPFCheck SPFResult) : Prop :=
  ∀ name s, n < s.terms → Coherent e zone s → Post (recur name) s fun result t =>
    Coherent e zone t ∧ (Within e t → Decides (e.policyIn zone) (e.policyIn zone name) result)

/-- What a directive comes to, where no limit is passed. -/
def ComesIn (e : SPFEvaluator) (zone : SPFZone) (qualifier : Qualifier) (clause : Clause AnsiString SPFResult)
    (outcome : Match) (t : SPFState) : Prop :=
  Coherent e zone t ∧ (Within e t → clause.Comes (e.policyIn zone) (outcomeOf qualifier (reading outcome t)))

theorem comesIn_of_yields {x : SPFCheck Match} {b : Except SPFResult Bool} {s : SPFState} (hs : Coherent e zone s)
    (hx : Yields (Coherent e zone) reading x b) (qualifier : Qualifier) :
    Post x s (ComesIn e zone qualifier (.here (outcomeOf qualifier b))) := by
  obtain ⟨hread, hkept⟩ := hx s hs
  refine ⟨hkept, fun _ => ?_⟩
  rw [hread]
  exact .here

theorem matchInclude_comesIn {n : ℕ} {recur : AnsiString → SPFCheck SPFResult} (hrecur : RecursIn e zone n recur)
    {s : SPFState} (hs : Coherent e zone s) (hterms : n < s.terms) (qualifier : Qualifier) (targetName : AnsiString) :
    Post (matchInclude recur targetName) s
      (ComesIn e zone qualifier (.ask targetName fun result => outcomeOf qualifier (included result))) := by
  refine Post.bind' (hrecur targetName s hterms hs) fun result t hpost => ?_
  have hcomes : Within e t → (Clause.ask targetName fun result => outcomeOf qualifier (included result)).Comes
      (e.policyIn zone) (outcomeOf qualifier (included result)) := fun hwithin => .ask (hpost.2 hwithin)
  have hfail : ∀ error, Within e { t with errorResult := error } → Within e t := fun _ hwithin => hwithin.congr rfl
  cases result with
  | pass => exact ⟨hpost.1, hcomes⟩
  | fail => exact ⟨hpost.1, hcomes⟩
  | softFail => exact ⟨hpost.1, hcomes⟩
  | neutral => exact ⟨hpost.1, hcomes⟩
  | tempError => exact ⟨hpost.1, fun hwithin => hcomes (hfail _ hwithin)⟩
  | none => exact ⟨hpost.1, fun hwithin => hcomes (hfail _ hwithin)⟩
  | permError => exact ⟨hpost.1, fun hwithin => hcomes (hfail _ hwithin)⟩

theorem evaluateTerm_comesIn (hstatic : Static e zone) {n : ℕ} {recur : AnsiString → SPFCheck SPFResult}
    (hrecur : RecursIn e zone n recur) {s : SPFState} (hs : Coherent e zone s) (hterms : n < s.terms)
    (mechanism : SPFMechanism) (targetName : AnsiString) :
    Post (e.evaluateTerm recur mechanism targetName) s (ComesIn e zone mechanism.qualifier
      (if mechanism.type = .Include then
        .ask targetName fun result => outcomeOf mechanism.qualifier (included result)
      else .here (outcomeOf mechanism.qualifier (e.matchIn zone mechanism targetName)))) := by
  unfold evaluateTerm
  split
  · exact matchInclude_comesIn hrecur hs hterms mechanism.qualifier targetName
  · have hmatch := comesIn_of_yields hs (matchQuerying_yields hstatic mechanism targetName) mechanism.qualifier
    refine Post.get_bind (Post.bind' hmatch fun outcome t' hcomes => ?_)
    show ComesIn e zone _ _ outcome
      (if s.voidLookups < t'.voidLookups then { t' with voidTerms := t'.voidTerms + 1 } else t')
    split
    · refine ⟨hcomes.1, fun hwithin => hcomes.2 ⟨hwithin.terms, ?_⟩⟩
      have hvoids := hwithin.voids
      rw [hasTooManyVoidTerms, decide_eq_false_iff_not] at hvoids ⊢
      intro htoo
      refine hvoids ⟨htoo.1, ?_⟩
      show e.voidTermLimit < ((t'.voidTerms + 1 : ℕ) : ℤ)
      have hpast := htoo.2
      push_cast
      linarith
    · exact hcomes

theorem evaluateQueryTerm_comesIn (hstatic : Static e zone) {n : ℕ} {recur : AnsiString → SPFCheck SPFResult}
    (hrecur : RecursIn e zone n recur) {s : SPFState} (hs : Coherent e zone s) (hterms : n ≤ s.terms)
    (mechanism : SPFMechanism) (domain : AnsiString) :
    Post (e.evaluateQueryTerm recur mechanism domain) s
      (ComesIn e zone mechanism.qualifier (e.queryClauseIn zone domain mechanism)) := by
  have hresolve := resolveTargetName_answers hstatic mechanism.domainSpec domain s hs
  have hsame := resolveTargetName_terms (e := e) mechanism.domainSpec domain s
  refine Post.bind' (P := fun target t => (target = e.targetIn zone mechanism.domainSpec domain ∧ Coherent e zone t) ∧
    t.terms = s.terms) ⟨hresolve, hsame⟩ fun target t hpost => ?_
  obtain ⟨⟨rfl, hs'⟩, hterms'⟩ := hpost
  unfold queryClauseIn
  cases e.targetIn zone mechanism.domainSpec domain with
  | syntaxError => exact comesIn_of_yields hs' (fail_yields _) _
  | unusable => exact comesIn_of_yields hs' (matched_yields false) _
  | resolved targetName =>
    refine Post.bind' (P := fun counted t' => Coherent e zone t' ∧ t'.terms = t.terms + 1 ∧
      (counted = false → ¬t'.terms ≤ maximumTerms)) ⟨hs', rfl, of_decide_eq_false⟩ fun counted t' hcount => ?_
    cases counted with
    | false => exact ⟨hcount.1, fun hwithin => absurd hwithin.terms (hcount.2.2 rfl)⟩
    | true => exact evaluateTerm_comesIn hstatic hrecur hcount.1 (by omega) mechanism targetName

theorem evaluateMechanism_comesIn (hstatic : Static e zone) {n : ℕ} {recur : AnsiString → SPFCheck SPFResult}
    (hrecur : RecursIn e zone n recur) {s : SPFState} (hs : Coherent e zone s) (hterms : n ≤ s.terms)
    (mechanism : SPFMechanism) (domain : AnsiString) :
    Post (e.evaluateMechanism recur mechanism domain) s
      (ComesIn e zone mechanism.qualifier (e.clauseIn zone domain mechanism)) := by
  have hquery := evaluateQueryTerm_comesIn hstatic hrecur hs hterms mechanism domain
  have hliteral : Post (e.matchAddressLiteral mechanism) s
      (ComesIn e zone mechanism.qualifier (.here (outcomeOf mechanism.qualifier (e.literalMatch mechanism)))) := by
    refine comesIn_of_yields hs ?_ _
    unfold matchAddressLiteral literalMatch
    cases SPFAddress.tryParse mechanism.address with
    | none => exact fail_yields _
    | some network => exact matched_yields _
  cases htype : mechanism.type <;> simp only [evaluateMechanism, clauseIn, htype]
  case All => exact comesIn_of_yields hs (matched_yields true) mechanism.qualifier
  case IP4 => exact hliteral
  case IP6 => exact hliteral
  all_goals exact hquery

/-! ## A record -/

theorem explained_coherent (hstatic : Static e zone) (record : SPFRecord) (domain : AnsiString) (wanted : Bool)
    (result : SPFResult) : Maintains (Coherent e zone) (e.explained record domain wanted result) :=
  explained_closed (Maintains.closed (Coherent e zone)) (fun q s hs => (query_answers hstatic q s hs).2)
    (fun letter s hs => (macroValue_answers hstatic domain letter s hs).2) record wanted result

theorem explained_result (record : SPFRecord) (domain : AnsiString) (wanted : Bool) (result : SPFResult)
    (s : SPFState) : ((e.explained record domain wanted result).run s).1.1 = result := by
  unfold explained
  split <;> rfl

/-- What the loop over the clauses has settled for any fallback behind them; where none
    decided, the last of them left no void limit passed. -/
def Settles (e : SPFEvaluator) (zone : SPFZone) (clauses : List (Clause AnsiString SPFResult))
    (verdict : Option (SPFResult × AnsiString)) (t : SPFState) : Prop :=
  match verdict with
  | some verdict => Within e t → ∀ fallback, Decides (e.policyIn zone) ⟨clauses, fallback⟩ verdict.1
  | none => t.terms ≤ maximumTerms → ∀ fallback result, Decides (e.policyIn zone) ⟨[], fallback⟩ result →
    Decides (e.policyIn zone) ⟨clauses, fallback⟩ result

theorem evaluateMechanisms_settles (hstatic : Static e zone) {n : ℕ} {recur : AnsiString → SPFCheck SPFResult}
    (hrecur : RecursIn e zone n recur) (hforward : Forward recur) (record : SPFRecord) (domain : AnsiString)
    (wanted : Bool) (mechanisms : List SPFMechanism) {s : SPFState} (hs : Coherent e zone s) (hterms : n ≤ s.terms) :
    Post (e.evaluateMechanisms recur record domain wanted mechanisms) s fun verdict t =>
      Coherent e zone t ∧ Settles e zone (mechanisms.map (e.clauseIn zone domain)) verdict t := by
  induction mechanisms generalizing s with
  | nil => exact ⟨hs, fun _ _ _ hrest => hrest⟩
  | cons mechanism mechanisms ih =>
    have hcomes := evaluateMechanism_comesIn hstatic hrecur hs hterms mechanism domain
    have hlater := hterms.trans ((evaluateMechanism_forward (e := e) hforward mechanism).le domain s)
    refine Post.bind' (P := fun outcome t => ComesIn e zone mechanism.qualifier (e.clauseIn zone domain mechanism)
      outcome t ∧ n ≤ t.terms) ⟨hcomes, hlater⟩ fun outcome t hpost => ?_
    refine Post.get_bind ?_
    obtain ⟨⟨hs', hclause⟩, hn⟩ := hpost
    by_cases htoo : e.hasTooManyVoidTerms t = true
    · rw [if_pos htoo]
      refine ⟨hs', fun hwithin => ?_⟩
      have hvoids := hwithin.voids
      exact absurd (htoo.symm.trans hvoids) nofun
    · rw [if_neg htoo]
      cases outcome with
      | error => exact ⟨hs', fun hwithin fallback => Decides.of_verdict (hclause hwithin) rfl⟩
      | no =>
        have hrest := ih hs' hn
        have hforward' := (evaluateMechanisms_forward (e := e) hforward record wanted mechanisms).le domain t
        refine ⟨hrest.1, ?_⟩
        -- The void limit is checked behind every directive, and the terms only grow.
        have hbefore : ((e.evaluateMechanisms recur record domain wanted mechanisms).run t).2.terms ≤ maximumTerms →
            (e.clauseIn zone domain mechanism).Comes (e.policyIn zone) (outcomeOf mechanism.qualifier (.ok false)) :=
          fun hle => hclause ⟨hforward'.trans hle, Bool.eq_false_iff.2 htoo⟩
        have hskip := hrest.2
        show Settles e zone (e.clauseIn zone domain mechanism :: mechanisms.map (e.clauseIn zone domain))
          ((e.evaluateMechanisms recur record domain wanted mechanisms).run t).1
          ((e.evaluateMechanisms recur record domain wanted mechanisms).run t).2
        unfold Settles at hskip ⊢
        split at hskip
        · exact fun hwithin fallback => Decides.of_next (hbefore hwithin.terms) rfl (hskip hwithin fallback)
        · exact fun hle fallback result hresult =>
            Decides.of_next (hbefore hle) rfl (hskip hle fallback result hresult)
      | yes =>
        have hkeeps := quiet_counters.explained (e := e) record domain wanted (resultOf mechanism.qualifier) t
        refine ⟨explained_coherent hstatic record domain wanted _ t hs', fun hwithin fallback => ?_⟩
        refine Decides.of_verdict (hclause (hwithin.congr hkeeps.symm)) ?_
        show Outcome.verdict (resultOf mechanism.qualifier) =
          .verdict ((e.explained record domain wanted (resultOf mechanism.qualifier)).run t).1.1
        rw [explained_result]

theorem evaluateRedirect_decides (hstatic : Static e zone) {n : ℕ}
    {recur : AnsiString → SPFCheck (SPFResult × AnsiString)} (hrecur : RecursIn e zone n fun name => Prod.fst <$> recur name)
    (record : SPFRecord) (domain : AnsiString) {s : SPFState} (hs : Coherent e zone s) (hterms : n ≤ s.terms) :
    Post (e.evaluateRedirect recur record domain) s fun verdict t => Coherent e zone t ∧
      (Within e t → Decides (e.policyIn zone) ⟨[], e.fallbackIn zone domain record⟩ verdict.1) := by
  unfold evaluateRedirect fallbackIn
  cases record.redirectDomainSpec with
  | none => exact ⟨hs, fun _ => .fallback⟩
  | some domainSpec =>
    have hresolve := resolveTargetName_answers hstatic (some domainSpec) domain s hs
    have hsame := resolveTargetName_terms (e := e) (some domainSpec) domain s
    refine Post.bind' (P := fun target t => (target = e.targetIn zone (some domainSpec) domain ∧ Coherent e zone t) ∧
      t.terms = s.terms) ⟨hresolve, hsame⟩ fun target t hpost => ?_
    obtain ⟨⟨rfl, hs'⟩, hterms'⟩ := hpost
    dsimp only
    cases e.targetIn zone (some domainSpec) domain with
    | syntaxError => exact ⟨hs', fun _ => .fallback⟩
    | unusable => exact ⟨hs', fun _ => .fallback⟩
    | resolved targetName =>
      refine Post.bind' (P := fun counted t' => Coherent e zone t' ∧ t'.terms = t.terms + 1 ∧
        (counted = false → ¬t'.terms ≤ maximumTerms)) ⟨hs', rfl, of_decide_eq_false⟩ fun counted t' hcount => ?_
      cases counted with
      | false => exact ⟨hcount.1, fun hwithin => absurd hwithin.terms (hcount.2.2 rfl)⟩
      | true =>
        have hother := hrecur targetName t' (by omega) hcount.1
        refine ⟨hother.1, fun hwithin => ?_⟩
        have hredirected : (if ((recur targetName).run t').1.1 = .none then (SPFResult.permError, [])
            else ((recur targetName).run t').1).1 = redirected ((recur targetName).run t').1.1 := by
          unfold redirected
          split <;> rfl
        show Decides _ _ (if ((recur targetName).run t').1.1 = .none then (SPFResult.permError, [])
          else ((recur targetName).run t').1).1
        rw [hredirected]
        exact .delegated (hother.2 hwithin)

theorem evaluateRecord_decides (hstatic : Static e zone) {n : ℕ}
    {recur : AnsiString → Bool → SPFCheck (SPFResult × AnsiString)}
    (hrecur : ∀ wanted, RecursIn e zone n fun name => Prod.fst <$> recur name wanted)
    (hforward : ∀ wanted, Forward fun name => recur name wanted) (record : SPFRecord) (domain : AnsiString) (wanted : Bool)
    {s : SPFState} (hs : Coherent e zone s) (hterms : n ≤ s.terms) :
    Post (e.evaluateRecord recur record domain wanted) s fun verdict t => Coherent e zone t ∧ (Within e t →
      Decides (e.policyIn zone) ⟨record.mechanisms.map (e.clauseIn zone domain), e.fallbackIn zone domain record⟩
        verdict.1) := by
  refine Post.get_bind ?_
  by_cases htoo : e.hasTooManyVoidTerms s = true
  · rw [if_pos htoo]
    refine ⟨hs, fun hwithin => ?_⟩
    have hvoids := hwithin.voids
    exact absurd (htoo.symm.trans hvoids) nofun
  · rw [if_neg htoo]
    have hincluded : Forward fun name => Prod.fst <$> recur name false := hforward false
    have hclauses := evaluateMechanisms_settles hstatic (hrecur false) hincluded record domain wanted record.mechanisms hs
      hterms
    have hlater := hterms.trans ((evaluateMechanisms_forward (e := e) hincluded record wanted record.mechanisms).le domain s)
    refine Post.bind' (P := fun verdict t => (Coherent e zone t ∧
      Settles e zone (record.mechanisms.map (e.clauseIn zone domain)) verdict t) ∧ n ≤ t.terms) ⟨hclauses, hlater⟩
      fun verdict t hpost => ?_
    obtain ⟨⟨hs', hsettles⟩, hn⟩ := hpost
    cases verdict with
    | some verdict => exact ⟨hs', fun hwithin => hsettles hwithin _⟩
    | none =>
      have hredirect := evaluateRedirect_decides hstatic (hrecur wanted) record domain hs' hn
      have hlast := (evaluateRedirect_forward (e := e) (hforward wanted) record).le domain t
      exact ⟨hredirect.1, fun hwithin => hsettles (hlast.trans hwithin.terms) _ _ (hredirect.2 hwithin)⟩

/-- A check that stays within its limits comes to the verdict of the domain's policy. -/
theorem checkDomain_decides (hstatic : Static e zone) (left : ℕ) (domain : AnsiString) (wanted : Bool) {s : SPFState}
    (hs : Coherent e zone s) (hleft : maximumTerms < s.terms + left) :
    Post (e.checkDomain left domain wanted) s fun verdict t =>
      Coherent e zone t ∧ (Within e t → Decides (e.policyIn zone) (e.policyIn zone domain) verdict.1) := by
  induction left generalizing domain wanted s with
  | zero => exact ⟨hs, fun hwithin => absurd hwithin.terms (by show ¬s.terms ≤ maximumTerms; omega)⟩
  | succ left ih =>
    have hrecurs : ∀ wanted, RecursIn e zone s.terms fun name => Prod.fst <$> e.checkDomain left name wanted :=
      fun wanted name s' hlater hs' => ih name wanted hs' (by omega)
    refine Post.get_bind ?_
    have hlocate := locate_answers hstatic domain s hs
    have hterms : Post (e.locate domain) s fun _ t => t.terms = s.terms :=
      congrArg Prod.fst ((quiet_counters (e := e)).locate domain s)
    refine Post.bind' (P := fun located t => (located = recordIn zone domain ∧ Coherent e zone t) ∧ t.terms = s.terms)
      ⟨hlocate, hterms⟩ fun located t hpost => ?_
    obtain ⟨⟨rfl, hs'⟩, hterms'⟩ := hpost
    have hcharge : Post (countVoidTerm s.voidLookups) t fun _ t' => Coherent e zone t' ∧ t'.terms = t.terms := by
      show Coherent e zone (if s.voidLookups < t.voidLookups then { t with voidTerms := t.voidTerms + 1 } else t) ∧
        (if s.voidLookups < t.voidLookups then { t with voidTerms := t.voidTerms + 1 } else t).terms = t.terms
      split
      · exact ⟨hs', rfl⟩
      · exact ⟨hs', rfl⟩
    refine Post.bind' hcharge fun _ t' ht' => ?_
    unfold policyIn
    cases recordIn zone domain with
    | noRecord => exact ⟨ht'.1, fun _ => .fallback⟩
    | temporaryError => exact ⟨ht'.1, fun _ => .fallback⟩
    | ambiguous => exact ⟨ht'.1, fun _ => .fallback⟩
    | syntaxError => exact ⟨ht'.1, fun _ => .fallback⟩
    | found record =>
      exact evaluateRecord_decides hstatic hrecurs (checkDomain_forward left) record domain wanted ht'.1 (by omega)

/-- Over a fixed zone a check either stays within its limits and comes to exactly the
    verdict of the domain's policy, or passes one and comes to a permanent error. -/
theorem check_decides (hstatic : Static e zone) (domain : AnsiString) :
    (Within e (e.check domain).2 ∧
        ∀ result, Decides (e.policyIn zone) (e.policyIn zone domain) result ↔ (e.check domain).1.1 = result) ∨
      (¬Within e (e.check domain).2 ∧ (e.check domain).1.1 = .permError) := by
  by_cases hwithin : Within e (e.check domain).2
  · left
    have hdecides := (checkDomain_decides hstatic (maximumDepth + 1) domain true (s := {}) nofun
      (by decide)).2 hwithin
    refine ⟨hwithin, fun result => ⟨fun hresult => hdecides.unique hresult, fun hresult => ?_⟩⟩
    rw [← hresult]
    exact hdecides
  · exact .inr ⟨hwithin, (check_past_limits e domain).2 hwithin⟩

/-- Two domains, the first of which includes the second. -/
def twoDomains : SPFZone := fun q =>
  if q = .txt (ansi "a.test") then some [ansi "v=spf1 include:b.test -all"]
  else if q = .txt (ansi "b.test") then some [ansi "v=spf1 ip4:192.0.2.0/24 -all"]
  else some []

/-- A check of a client of the second domain. -/
def twoDomainsCheck : SPFEvaluator where
  lookup := fun _ q => twoDomains q
  expander := SPFMacroExpander.create (SPFAddress.ofIP4 ![192, 0, 2, 7]) (ansi "x@a.test") (ansi "mail.a.test")

theorem check_decides_include : (twoDomainsCheck.check (ansi "a.test")).1.1 = .pass ∧
    ((Within twoDomainsCheck (twoDomainsCheck.check (ansi "a.test")).2 ∧
        ∀ result, Decides (twoDomainsCheck.policyIn twoDomains) (twoDomainsCheck.policyIn twoDomains (ansi "a.test")) result ↔
          (twoDomainsCheck.check (ansi "a.test")).1.1 = result) ∨
      (¬Within twoDomainsCheck (twoDomainsCheck.check (ansi "a.test")).2 ∧
        (twoDomainsCheck.check (ansi "a.test")).1.1 = .permError)) :=
  ⟨by decide +kernel, check_decides (fun _ _ => rfl) (ansi "a.test")⟩

end SPFEvaluator
end HMailServer
