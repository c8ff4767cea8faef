import HMailServer.Smtp.RecipientParser

/- What both walks of `RecipientParser` do with one address, said once: the
   address leads on to another one, is unknown, is delivered to, or is a list.
   `checkLoop_succ` and `create_succ` show that each walk follows it, so the
   directory is a graph that the two walk to the same depth. -/
namespace HMailServer.RecipientParser
open StringParser

inductive Outcome where
  /-- An alias, a signed bounce address or a catch-all address. -/
  | forward (address : WString)
  | unknown
  /-- A mailbox, a route or another server; only a mailbox can be full. -/
  | deliver (recipient : MessageRecipient) (mailboxFull : Bool)
  | list (address : WString) (l : DistributionList)

variable (d : Directory)

/-- An address that is no account, alias or list of a local domain. -/
def outside (domain : Option Domain) (address : WString) : Outcome :=
  let catchAll : Outcome :=
    match domain with
    | some dom => if dom.postmaster ≠ [] then .forward dom.postmaster else .unknown
    | none => .deliver ⟨address, [], 0, false, false, 0⟩ false
  match d.route (extractDomain address) with
  | some route =>
    if route.toAllAddresses || route.hasAddress address then
      .deliver ⟨address, [], 0, route.treatRecipientAsLocalDomain, false, 0⟩ false
    else if domain.all fun dom => dom.postmaster = [] then .unknown
    else catchAll
  | none => catchAll

/-- An address of an active local domain. -/
def inside (dom : Domain) (primary address : WString) : Outcome :=
  match d.account primary with
  | some acc => if acc.active then .deliver ⟨primary, [], acc.id, true, false, 0⟩ (isMailboxFull d acc) else .unknown
  | none =>
    match d.aliasOf primary with
    | some al => if al.isActive then .forward al.value else .unknown
    | none =>
      match d.list primary with
      | some l => if l.active then .list primary l else .unknown
      | none => outside d (some dom) address

def classify (address : WString) : Outcome :=
  let withoutPlus := d.applyAliasesOnAddress address
  let domain := d.domain (extractDomain withoutPlus)
  let active := domain.any fun dom => dom.isActive
  if active && d.srsEnabled && SRS.isSRS0 withoutPlus then
    ((SRS.reverse d.signing d.now withoutPlus d.srsSecret).map .forward).getD .unknown
  else if active && d.batvEnabled && BATV.isPrvs withoutPlus then
    ((BATV.verify d.signing d.now withoutPlus d.batvSecret).map .forward).getD .unknown
  else match domain with
    | none => outside d none address
    | some dom => if dom.isActive then inside d dom (extractAccountAddress withoutPlus domain) address else .unknown

/-- The call `UserCanSendToList_` makes for a member. -/
def checkMember (authed : Bool) (left : Nat) (sender m : WString) (st : CheckState) :
    DeliveryPossibility × CheckState :=
  let a := checkLoop d authed left (d.applyAliasesOnAddress sender) m false false st
  (a.possibility, a.toCheckState)

/-- What a level of the check makes of an outcome. -/
def checkOutcome (authed : Bool) (left : Nat) (sender : WString) (quota : Bool) (st : CheckState) (msg : String)
    (treatLocal : Bool) : Outcome → Answer
  | .forward a => checkLoop d authed left sender a quota treatLocal st
  | .unknown => st.unknown msg treatLocal
  | .deliver _ full =>
    if quota && full then { st with errMsg := wide "Mailbox is full." }.answer .mailboxFull treatLocal
    else st.answer .possible treatLocal
  | .list address l => checkList d (checkMember d authed left sender) authed sender address l treatLocal st

/-- What a level of the expansion makes of an outcome. -/
def createOutcome (moderated : Finset WString) (original : WString) (left : Nat) (e : Expansion) : Outcome → Expansion
  | .forward a => createMessageRecipientList_ d moderated original left a e
  | .unknown => e
  | .deliver r _ => e.deliver d { r with originalAddress := original }
  | .list address l =>
    if d.lower address ∈ moderated then createModerated (createMessageRecipientList_ d moderated original left) l e
    else
      createMembers (createMessageRecipientList_ d moderated original left) l.members
        { e with expanded := e.expanded ++ [l] }

variable {d}

theorem checkRoutes_eq (authed : Bool) (left : Nat) (sender : WString) (quota : Bool) (st : CheckState) (first : Bool)
    (domain : Option Domain) (address : WString) (treatLocal : Bool) :
    ∃ msg treat, checkRoutes d first domain address treatLocal st
      (fun a => checkLoop d authed left sender a quota treatLocal st) =
      checkOutcome d authed left sender quota st msg treat (outside d domain address) := by
  have hcatch : ∃ msg treat, checkCatchAll domain treatLocal st
      (fun a => checkLoop d authed left sender a quota treatLocal st) =
      checkOutcome d authed left sender quota st msg treat
        (match domain with
          | some dom => if dom.postmaster ≠ [] then Outcome.forward dom.postmaster else .unknown
          | none => .deliver ⟨address, [], 0, false, false, 0⟩ false) := by
    refine ⟨unknownUser, treatLocal, ?_⟩
    cases domain with
    | none => simp [checkCatchAll, checkOutcome]
    | some dom =>
      simp only [checkCatchAll]
      split <;> rfl
  unfold checkRoutes outside
  cases d.route (extractDomain address) with
  | none => exact hcatch
  | some route =>
    dsimp only
    split
    · exact ⟨"", _, by simp [checkOutcome]; rfl⟩
    · split
      · exact ⟨_, _, rfl⟩
      · exact hcatch

/-- Each level of the check follows the address's outcome. -/
theorem checkLoop_succ (authed : Bool) (left : Nat) (sender address : WString) (quota treatLocal : Bool)
    (st : CheckState) :
    ∃ msg treat, checkLoop d authed (left + 1) sender address quota treatLocal st =
      checkOutcome d authed left sender quota st msg treat (classify d address) := by
  rw [checkLoop, classify]
  dsimp only
  split
  · cases SRS.reverse d.signing d.now (d.applyAliasesOnAddress address) d.srsSecret with
    | none => exact ⟨_, _, rfl⟩
    | some original => exact ⟨"", _, rfl⟩
  · split
    · cases BATV.verify d.signing d.now (d.applyAliasesOnAddress address) d.batvSecret with
      | none => exact ⟨_, _, rfl⟩
      | some original => exact ⟨"", _, rfl⟩
    · cases d.domain (extractDomain (d.applyAliasesOnAddress address)) with
      | none => exact checkRoutes_eq ..
      | some dom =>
        dsimp only
        cases dom.isActive with
        | false => exact ⟨_, _, rfl⟩
        | true =>
          rw [if_neg (by simp), if_pos rfl, inside]
          cases d.account (extractAccountAddress (d.applyAliasesOnAddress address) (some dom)) with
          | some acc =>
            dsimp only
            cases acc.active with
            | false => exact ⟨_, _, rfl⟩
            | true => exact ⟨"", _, rfl⟩
          | none =>
            dsimp only
            cases d.aliasOf (extractAccountAddress (d.applyAliasesOnAddress address) (some dom)) with
            | some al =>
              dsimp only
              cases al.isActive with
              | false => exact ⟨_, _, rfl⟩
              | true => exact ⟨"", _, rfl⟩
            | none =>
              dsimp only
              cases d.list (extractAccountAddress (d.applyAliasesOnAddress address) (some dom)) with
              | none => exact checkRoutes_eq ..
              | some l =>
                dsimp only
                cases l.active with
                | false => exact ⟨_, _, rfl⟩
                | true => exact ⟨"", _, rfl⟩

theorem createRoutes_eq (moderated : Finset WString) (original : WString) (left : Nat) (e : Expansion)
    (domain : Option Domain) (address : WString) :
    createRoutes d domain address original (createMessageRecipientList_ d moderated original left) e =
      createOutcome d moderated original left e (outside d domain address) := by
  have hcatch : createCatchAll d domain address original (createMessageRecipientList_ d moderated original left) e =
      createOutcome d moderated original left e
        (match domain with
          | some dom => if dom.postmaster ≠ [] then Outcome.forward dom.postmaster else .unknown
          | none => .deliver ⟨address, [], 0, false, false, 0⟩ false) := by
    cases domain with
    | none => rfl
    | some dom =>
      simp only [createCatchAll]
      split <;> rfl
  unfold createRoutes outside
  cases d.route (extractDomain address) with
  | none => exact hcatch
  | some route =>
    dsimp only
    split
    · rfl
    · split
      · rfl
      · exact hcatch

/-- Each level of the expansion follows the address's outcome. -/
theorem create_succ (moderated : Finset WString) (original : WString) (left : Nat) (address : WString) (e : Expansion) :
    createMessageRecipientList_ d moderated original (left + 1) address e =
      createOutcome d moderated original left e (classify d address) := by
  rw [createMessageRecipientList_, classify]
  dsimp only
  split
  · cases SRS.reverse d.signing d.now (d.applyAliasesOnAddress address) d.srsSecret <;> rfl
  · split
    · cases BATV.verify d.signing d.now (d.applyAliasesOnAddress address) d.batvSecret <;> rfl
    · cases d.domain (extractDomain (d.applyAliasesOnAddress address)) with
      | none => exact createRoutes_eq ..
      | some dom =>
        dsimp only
        cases dom.isActive with
        | false => rfl
        | true =>
          rw [if_neg (by simp), if_pos rfl, inside]
          cases d.account (extractAccountAddress (d.applyAliasesOnAddress address) (some dom)) with
          | some acc =>
            dsimp only
            cases acc.active <;> rfl
          | none =>
            dsimp only
            cases d.aliasOf (extractAccountAddress (d.applyAliasesOnAddress address) (some dom)) with
            | some al =>
              dsimp only
              cases al.isActive <;> rfl
            | none =>
              dsimp only
              cases d.list (extractAccountAddress (d.applyAliasesOnAddress address) (some dom)) with
              | none => exact createRoutes_eq ..
              | some l =>
                dsimp only
                cases l.active <;> rfl

end HMailServer.RecipientParser
