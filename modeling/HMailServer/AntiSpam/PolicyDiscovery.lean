import HMailServer.AntiSpam.DmarcTreeWalk

/- Policy discovery in `DMARC::Verify` (`Common/AntiSpam/DMARC/DMARC.cpp`),
   beside the rule the tree walk reads records by. `RetrievePolicy_` takes the
   first version record of an answer, the walk takes none of two; so the two
   agree where no name that is looked up publishes a second one. -/
namespace HMailServer
namespace Dmarc
open DmarcTreeWalk

/-- `RetrievePolicy_`: the first version record at `_dmarc.` the domain; the
    outer `none` is a DNS error. -/
def retrievePolicy (env : DmarcEnvironment) (domain : WString) : Option (Option WString) :=
  (env.getTXTRecords (wide "_dmarc." ++ domain)).map fun txtRecords =>
    (txtRecords.map (WString.trim env.loc)).find? fun trimmed => startsWith trimmed (wide "v=DMARC1")

/-- What the walk reads at the same name. -/
def acceptedRecord (env : DmarcEnvironment) (domain : WString) : Option (Option WString) :=
  (env.getTXTRecords (wide "_dmarc." ++ domain)).map (selectSingleRecord env.loc)

/-- How discovery ends: `Verify` returns, or goes on to apply a record. -/
inductive Discovery where
  | permError
  | tempError
  | noPolicy
  | applies (policyDomain policyRecord : WString) (isSubdomainPolicy : Bool)
  deriving DecidableEq

/-- The part of `Verify` up to the tags of the record, over a lookup; also the
    cache of the walk afterwards. -/
def discoverPolicy (env : DmarcEnvironment) (retrieve : WString → Option (Option WString)) (cache : Cache) (now : Nat)
    (fromHeaderDomain : WString) : Cache × Discovery :=
  if fromHeaderDomain = [] then (cache, .permError)
  else
    let fromDomain := WString.makeLower env.loc fromHeaderDomain
    match retrieve fromDomain with
    | none => (cache, .tempError)
    | some (some policyRecord) => (cache, .applies fromDomain policyRecord false)
    | some none =>
      let (cache, organizationalDomain) := getOrganizationalDomain env cache now fromDomain
      if organizationalDomain = fromDomain then (cache, .noPolicy)
      else match retrieve organizationalDomain with
        | none => (cache, .tempError)
        | some none => (cache, .noPolicy)
        | some (some policyRecord) => (cache, .applies organizationalDomain policyRecord true)

/-- Discovery as `Verify` does it, and as it is by the rule of the walk. -/
def verifyDiscovery (env : DmarcEnvironment) := discoverPolicy env (retrievePolicy env)
def walkRuleDiscovery (env : DmarcEnvironment) := discoverPolicy env (acceptedRecord env)

/-- The version records that the answer for the domain has. -/
def versionRecords (env : DmarcEnvironment) (domain : WString) : List WString :=
  (((env.getTXTRecords (wide "_dmarc." ++ domain)).getD []).map (WString.trim env.loc)).filter fun record =>
    startsWith record (wide "v=DMARC1")

/-- No name that discovery looks at has two version records: not the From
    domain, and, if that has none, not its organizational domain. -/
def NoSecondRecord (env : DmarcEnvironment) (cache : Cache) (now : Nat) (fromHeaderDomain : WString) : Prop :=
  fromHeaderDomain ≠ [] →
    let fromDomain := WString.makeLower env.loc fromHeaderDomain
    let organizationalDomain := (getOrganizationalDomain env cache now fromDomain).2
    (versionRecords env fromDomain).length ≤ 1 ∧
      (env.getTXTRecords (wide "_dmarc." ++ fromDomain) ≠ none → versionRecords env fromDomain = [] →
        organizationalDomain ≠ fromDomain → (versionRecords env organizationalDomain).length ≤ 1)

variable {env : DmarcEnvironment}

/-- The two lookups in terms of the version records. -/
theorem retrievePolicy_eq (domain : WString) : retrievePolicy env domain =
    (env.getTXTRecords (wide "_dmarc." ++ domain)).map fun _ => (versionRecords env domain).head? := by
  unfold retrievePolicy versionRecords
  cases env.getTXTRecords (wide "_dmarc." ++ domain) with
  | none => rfl
  | some txtRecords => simp [List.head?_filter]

theorem acceptedRecord_eq (domain : WString) : acceptedRecord env domain =
    (env.getTXTRecords (wide "_dmarc." ++ domain)).map fun _ =>
      if (versionRecords env domain).length ≤ 1 then (versionRecords env domain).head? else none := by
  unfold acceptedRecord versionRecords selectSingleRecord
  cases env.getTXTRecords (wide "_dmarc." ++ domain) with
  | none => rfl
  | some txtRecords =>
    simp only [Option.map_some, Option.getD_some]
    generalize (txtRecords.map (WString.trim env.loc)).filter _ = records
    rcases records with _ | ⟨r, _ | ⟨s, rest⟩⟩ <;> simp

/-- At one name the two agree where there is at most one version record. -/
theorem retrievePolicy_eq_acceptedRecord_iff (domain : WString) :
    retrievePolicy env domain = acceptedRecord env domain ↔ (versionRecords env domain).length ≤ 1 := by
  rw [retrievePolicy_eq, acceptedRecord_eq]
  cases h : env.getTXTRecords (wide "_dmarc." ++ domain) with
  | none => simp [versionRecords, h]
  | some txtRecords =>
    generalize versionRecords env domain = records
    rcases records with _ | ⟨r, _ | ⟨s, rest⟩⟩ <;> simp

theorem versionRecords_of_none {domain : WString} (h : env.getTXTRecords (wide "_dmarc." ++ domain) = none) :
    versionRecords env domain = [] := by
  rw [versionRecords, h]
  rfl

/-- The lookup at the organizational domain. -/
def fallBack (env : DmarcEnvironment) (retrieve : WString → Option (Option WString)) (cache : Cache) (now : Nat)
    (fromDomain : WString) : Cache × Discovery :=
  let org := getOrganizationalDomain env cache now fromDomain
  if org.2 = fromDomain then (org.1, .noPolicy)
  else match retrieve org.2 with
    | none => (org.1, .tempError)
    | some none => (org.1, .noPolicy)
    | some (some policyRecord) => (org.1, .applies org.2 policyRecord true)

theorem discoverPolicy_eq (retrieve : WString → Option (Option WString)) (cache : Cache) (now : Nat)
    {fromHeaderDomain : WString} (hne : fromHeaderDomain ≠ []) :
    discoverPolicy env retrieve cache now fromHeaderDomain =
      match retrieve (WString.makeLower env.loc fromHeaderDomain) with
      | none => (cache, .tempError)
      | some (some policyRecord) => (cache, .applies (WString.makeLower env.loc fromHeaderDomain) policyRecord false)
      | some none => fallBack env retrieve cache now (WString.makeLower env.loc fromHeaderDomain) := by
  rw [discoverPolicy, if_neg hne]
  rfl

theorem fallBack_ne_applies (retrieve : WString → Option (Option WString)) (cache cache' : Cache) (now : Nat)
    (fromDomain name record : WString) :
    fallBack env retrieve cache now fromDomain ≠ (cache', .applies name record false) := by
  intro h
  have hout := congrArg Prod.snd h
  unfold fallBack at hout
  dsimp only at hout
  split at hout
  · cases hout
  · split at hout <;> cases hout

/-- Behind the organizational domain the two agree where it is the From domain
    itself, or has at most one version record. -/
theorem fallBack_eq_iff (cache : Cache) (now : Nat) (fromDomain : WString) :
    fallBack env (retrievePolicy env) cache now fromDomain = fallBack env (acceptedRecord env) cache now fromDomain ↔
      ((getOrganizationalDomain env cache now fromDomain).2 ≠ fromDomain →
        (versionRecords env (getOrganizationalDomain env cache now fromDomain).2).length ≤ 1) := by
  unfold fallBack
  dsimp only
  generalize getOrganizationalDomain env cache now fromDomain = org
  by_cases hsame : org.2 = fromDomain
  · simp [hsame]
  rw [if_neg hsame, if_neg hsame, ← retrievePolicy_eq_acceptedRecord_iff]
  constructor
  · intro h _
    revert h
    rcases retrievePolicy env org.2 with _ | _ | r <;> rcases acceptedRecord env org.2 with _ | _ | s <;> simp
  · intro h
    rw [h hsame]

/-- `Verify` discovers what the rule of the walk does exactly if no second
    record is published at a name it looks at. -/
theorem verify_discovers_by_walk_rule_iff (cache : Cache) (now : Nat) (fromHeaderDomain : WString) :
    verifyDiscovery env cache now fromHeaderDomain = walkRuleDiscovery env cache now fromHeaderDomain ↔
      NoSecondRecord env cache now fromHeaderDomain := by
  unfold verifyDiscovery walkRuleDiscovery NoSecondRecord
  by_cases hne : fromHeaderDomain = []
  · simp [hne, discoverPolicy]
  rw [discoverPolicy_eq _ _ _ hne, discoverPolicy_eq _ _ _ hne]
  dsimp only
  generalize WString.makeLower env.loc fromHeaderDomain = fromDomain
  rw [retrievePolicy_eq, acceptedRecord_eq]
  cases htxt : env.getTXTRecords (wide "_dmarc." ++ fromDomain) with
  | none => simp [versionRecords_of_none htxt]
  | some txtRecords =>
    cases hrecords : versionRecords env fromDomain with
    | nil => simpa [hne] using fallBack_eq_iff cache now fromDomain
    | cons r rest =>
      cases rest with
      | nil => simp
      | cons s rest =>
        -- Two records: `Verify` applies the first, the walk goes on.
        have hdiff := @fallBack_ne_applies env (acceptedRecord env) cache cache now fromDomain fromDomain r
        simpa [hne] using hdiff.symm

/-- `v=DMARC1; p=reject` and then `v=DMARC1; p=none` at one name. -/
def weakenedEnvironment (records : List WString) : DmarcEnvironment where
  loc := classicLocale
  getTXTRecords name := some (if name = wide "_dmarc.bank.example" then records else [])
  treeWalkEnabled := true
  publicSuffixLabelCount _ := 1

theorem second_record_is_applied :
    (verifyDiscovery (weakenedEnvironment [wide "v=DMARC1; p=none", wide "v=DMARC1; p=reject"]) [] 0
      (wide "bank.example")).2 = .applies (wide "bank.example") (wide "v=DMARC1; p=none") false ∧
    (walkRuleDiscovery (weakenedEnvironment [wide "v=DMARC1; p=none", wide "v=DMARC1; p=reject"]) [] 0
      (wide "bank.example")).2 = .noPolicy := by
  decide +kernel

end Dmarc
end HMailServer
