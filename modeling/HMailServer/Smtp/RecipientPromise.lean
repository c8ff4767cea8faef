import HMailServer.Smtp.RecipientResolution

/- What RCPT TO promises against what the message gets. A check answers for an
   address by walking the graph of forwards and list members, and leaves marks
   on the lists that go to their moderator; the expansion walks the same graph
   by these marks. `Keeps` and `Correct` say that the marks of one check are
   right wherever the expansion looks, whatever marks were there before. -/
namespace HMailServer.RecipientParser
open StringParser

variable (d : Directory)

/-! ## The graph -/

/-- What the address comes to when the forwards are followed; `none` beyond the
    levels. -/
def resolve : Nat → WString → Option Outcome
  | 0, _ => none
  | left + 1, a =>
    match classify d a with
    | .forward b => resolve left b
    | o => some o

def ResolvesToList (a : WString) : Prop := ∃ p l, resolve d 25 a = some (.list p l)

/-- The steps an expansion can take from an address. -/
inductive Leads : WString → WString → Prop where
  | forward {a b : WString} : classify d a = .forward b → Leads a b
  | member {a p m : WString} {l : DistributionList} : classify d a = .list p l → m ∈ l.members → Leads a m
  | moderator {a p : WString} {l : DistributionList} :
    classify d a = .list p l → l.moderatorAddress ≠ [] → Leads a l.moderatorAddress

/-- Each step uses up a level. -/
def Walk : Nat × WString → Nat × WString → Prop :=
  Relation.ReflTransGen fun x y => x.1 = y.1 + 1 ∧ Leads d x.2 y.2

/-- An address the expansion of `a` delivers to. -/
def Target (left : Nat) (a t : WString) : Prop :=
  ∃ m b r full, Walk d (left, a) (m + 1, b) ∧ classify d b = .deliver r full ∧ r.address = t

section Verdict

variable (authed : Bool) (sender : WString)

/-- The answer `DP_PermissionDenied`: a list without a moderator whose modes
    refuse the sender, or one of whose members is denied. -/
def denied : Nat → WString → Bool
  | 0, _ => false
  | left + 1, a =>
    match classify d a with
    | .forward b => denied left b
    | .list _ l =>
      l.moderatorAddress = [] && ((modeRefusal d authed sender l).isSome || l.members.any (denied left))
    | _ => false

/-- `UserCanSendToList_` refuses, with `left` levels for the members. -/
def barred (left : Nat) (l : DistributionList) : Bool :=
  (modeRefusal d authed sender l).isSome || l.members.any (denied d authed sender left)

/-- The list's modes, or a list nested in it at whatever depth, keep the sender
    out, and a moderator decides. -/
def Moderated (l : DistributionList) : Prop :=
  l.moderatorAddress ≠ [] ∧ ∃ left, barred d authed sender left l = true

/-- The check of `a` comes to the list `l`, with `m` levels for its members. -/
inductive Met : Nat → WString → Nat → DistributionList → Prop where
  | here {n : Nat} {a p : WString} {l : DistributionList} : classify d a = .list p l → Met (n + 1) a n l
  | forward {n m : Nat} {a b : WString} {l : DistributionList} :
    classify d a = .forward b → Met n b m l → Met (n + 1) a m l
  | member {n m : Nat} {a p x : WString} {l l' : DistributionList} : classify d a = .list p l →
    modeRefusal d authed sender l = none → x ∈ l.members → Met n x m l' → Met (n + 1) a m l'

/-- The depth limit hides nothing: a moderated list is met nowhere so deep that
    what keeps the sender out is no longer seen. -/
def LimitHidesNothing (n : Nat) (a : WString) : Prop :=
  ∀ m l, Met d authed sender n a m l → Moderated d authed sender l → barred d authed sender m l = true

/-- Every list behind a moderator's address admits the sender. -/
def ModeratorsAdmit (n : Nat) (a : WString) : Prop :=
  ∀ m l, Met d authed sender n a m l → Moderated d authed sender l → ∀ k b p l',
    Walk d (m, l.moderatorAddress) (k + 1, b) → classify d b = .list p l' → modeRefusal d authed sender l' = none

end Verdict

variable {d}

theorem Walk.head {n m : Nat} {a b c : WString} (h : Leads d a b) (hw : Walk d (n, b) (m, c)) :
    Walk d (n + 1, a) (m, c) :=
  Relation.ReflTransGen.head ⟨rfl, h⟩ hw

theorem Walk.cases {n m : Nat} {a c : WString} (hw : Walk d (n, a) (m, c)) :
    (m = n ∧ c = a) ∨ ∃ k b, n = k + 1 ∧ Leads d a b ∧ Walk d (k, b) (m, c) := by
  rcases hw.cases_head with hsame | ⟨⟨k, b⟩, ⟨hk, hlead⟩, hrest⟩
  · cases hsame
    exact Or.inl ⟨rfl, rfl⟩
  · exact Or.inr ⟨k, b, hk, hlead, hrest⟩

theorem leads_forward {a b c : WString} (hc : classify d a = .forward b) (h : Leads d a c) : c = b := by
  cases h with
  | forward h => rw [hc] at h; cases h; rfl
  | member h _ => rw [hc] at h; cases h
  | moderator h _ => rw [hc] at h; cases h

theorem leads_deliver {a c : WString} {r : MessageRecipient} {full : Bool} (hc : classify d a = .deliver r full) :
    ¬Leads d a c := by
  intro h
  cases h with
  | forward h => rw [hc] at h; cases h
  | member h _ => rw [hc] at h; cases h
  | moderator h _ => rw [hc] at h; cases h

theorem leads_list {a p c : WString} {l : DistributionList} (hc : classify d a = .list p l) (h : Leads d a c) :
    c ∈ l.members ∨ c = l.moderatorAddress := by
  cases h with
  | forward h => rw [hc] at h; cases h
  | member h hm => rw [hc] at h; cases h; exact Or.inl hm
  | moderator h _ => rw [hc] at h; cases h; exact Or.inr rfl

/-- An address that is delivered to is its own only target. -/
theorem walk_deliver {n m : Nat} {a c : WString} {r : MessageRecipient} {full : Bool}
    (hc : classify d a = .deliver r full) (hw : Walk d (n, a) (m, c)) : c = a := by
  rcases hw.cases with ⟨_, hsame⟩ | ⟨k, b, _, hlead, _⟩
  · exact hsame
  · exact absurd hlead (leads_deliver hc)

theorem Target.head {n : Nat} {a b t : WString} (h : Leads d a b) (ht : Target d n b t) : Target d (n + 1) a t := by
  obtain ⟨m, c, r, full, hw, hc, hr⟩ := ht
  exact ⟨m, c, r, full, hw.head h, hc, hr⟩

theorem target_here {n : Nat} {a : WString} {r : MessageRecipient} {full : Bool}
    (h : classify d a = .deliver r full) : Target d (n + 1) a r.address :=
  ⟨n, a, r, full, Relation.ReflTransGen.refl, h, rfl⟩

theorem outside_ne_list (domain : Option Domain) (a p : WString) (l : DistributionList) :
    outside d domain a ≠ .list p l := by
  unfold outside
  cases d.route (extractDomain a) with
  | none => cases domain <;> dsimp only <;> (try split) <;> simp
  | some route => cases domain <;> dsimp only <;> repeat' (first | split | simp)

theorem list_of_classify {a p : WString} {l : DistributionList} (h : classify d a = .list p l) : d.list p = some l := by
  rw [classify] at h
  split at h
  · cases hr : SRS.reverse d.signing d.now (d.applyAliasesOnAddress a) d.srsSecret <;> simp [hr] at h
  · split at h
    · cases hr : BATV.verify d.signing d.now (d.applyAliasesOnAddress a) d.batvSecret <;> simp [hr] at h
    · split at h
      · exact absurd h (outside_ne_list _ _ _ _)
      · split at h
        · unfold inside at h
          split at h
          · split at h <;> cases h
          · split at h
            · split at h <;> cases h
            · split at h
              · rename_i hl
                split at h
                · cases h
                  exact hl
                · cases h
              · exact absurd h (outside_ne_list _ _ _ _)
        · cases h

/-! ## The sender -/

/-- No domain is named like a domain alias, so the aliases lead to no further
    ones. -/
theorem applyAliases_idem (s : WString) :
    d.applyAliasesOnAddress (d.applyAliasesOnAddress s) = d.applyAliasesOnAddress s := by
  cases hf : d.domainAliases.find? fun al => WString.equalsNoCase al.aliasName (extractDomain s) with
  | none =>
    have h : d.applyAliasesOnAddress s = s := by simp only [Directory.applyAliasesOnAddress, hf]
    rw [h, h]
  | some al =>
    cases hdom : d.domainByID al.domainID with
    | none =>
      have h : d.applyAliasesOnAddress s = s := by simp only [Directory.applyAliasesOnAddress, hf, hdom]
      rw [h, h]
    | some dom =>
      have h : d.applyAliasesOnAddress s = extractAddress s ++ 64 :: dom.name := by
        simp only [Directory.applyAliasesOnAddress, hf, hdom]
      obtain ⟨hat, hother⟩ := d.domain_not_alias _ _ hdom
      have hextract : extractDomain (extractAddress s ++ 64 :: dom.name) = dom.name := by
        rw [extractDomain, Cut.cutLast_append hat]
        rfl
      have hnone : d.domainAliases.find? (fun al => WString.equalsNoCase al.aliasName dom.name) = none := by
        rw [List.find?_eq_none]
        intro al hal
        rw [hother al hal]
        simp
      rw [h, Directory.applyAliasesOnAddress, hextract, hnone]

section Check

variable {authed : Bool} {sender : WString}

theorem denied_list {n : Nat} {a p : WString} {l : DistributionList} (hc : classify d a = .list p l) :
    denied d authed sender (n + 1) a = (l.moderatorAddress = [] && barred d authed sender n l) := by
  rw [denied, hc]
  rfl

theorem checkLoop_zero (sender a : WString) (quota treatLocal : Bool) (st : CheckState) :
    (checkLoop d authed 0 sender a quota treatLocal st).possibility = .recipientUnknown ∧
      (checkLoop d authed 0 sender a quota treatLocal st).moderated = st.moderated :=
  ⟨rfl, rfl⟩

theorem checkMembers_denied {check : WString → CheckState → DeliveryPossibility × CheckState} {verdict : WString → Bool}
    {ms : List WString} (h : ∀ m ∈ ms, ∀ st, (check m st).1 = .permissionDenied ↔ verdict m = true) (st : CheckState) :
    (checkMembers check ms st).1 = .permissionDenied ↔ ms.any verdict = true := by
  induction ms generalizing st with
  | nil => simp [checkMembers]
  | cons m ms ih =>
    have hm := h m (List.mem_cons_self ..) st
    have hms := ih (fun x hx => h x (List.mem_cons_of_mem _ hx)) (check m st).2
    rw [checkMembers, List.any_cons, Bool.or_eq_true]
    by_cases hd : (check m st).1 = .permissionDenied
    · simp [hd, hm.1 hd]
    · rw [if_neg hd, hms]
      simp [mt hm.2 hd]

theorem userCanSendToList_denied {n : Nat} {l : DistributionList}
    (h : ∀ m ∈ l.members, ∀ st, (checkMember d authed n sender m st).1 = .permissionDenied ↔
      denied d authed sender n m = true) (st : CheckState) :
    (userCanSendToList d (checkMember d authed n sender) authed sender l st).1 = .permissionDenied ↔
      barred d authed sender n l = true := by
  rw [userCanSendToList, barred]
  cases modeRefusal d authed sender l with
  | some msg => simp
  | none =>
    simp only [Option.isSome_none, Bool.false_or]
    exact checkMembers_denied h st

/-- The check answers `DP_PermissionDenied` exactly where the graph says so. -/
theorem check_denied (hs : d.applyAliasesOnAddress sender = sender) (n : Nat) (a : WString) (quota treatLocal : Bool)
    (st : CheckState) :
    (checkLoop d authed n sender a quota treatLocal st).possibility = .permissionDenied ↔
      denied d authed sender n a = true := by
  induction n generalizing a quota treatLocal st with
  | zero => simp [(checkLoop_zero sender a quota treatLocal st).1, denied]
  | succ n ih =>
    obtain ⟨msg, treat, he⟩ := checkLoop_succ authed n sender a quota treatLocal st
    rw [he]
    cases hc : classify d a with
    | forward b =>
      rw [denied, hc]
      exact ih b quota treat st
    | unknown =>
      rw [denied, hc]
      simp [checkOutcome, CheckState.unknown, CheckState.answer]
    | deliver r full =>
      rw [denied, hc, checkOutcome]
      split <;> simp [CheckState.answer]
    | list p l =>
      have hmembers : ∀ m ∈ l.members, ∀ st, (checkMember d authed n sender m st).1 = .permissionDenied ↔
          denied d authed sender n m = true := by
        intro m _ st
        rw [checkMember, hs]
        exact ih m false false st
      have hl := userCanSendToList_denied hmembers st
      rw [denied_list hc, checkOutcome, checkList]
      by_cases hb : barred d authed sender n l = true
      · rw [if_pos (hl.2 hb), hb]
        by_cases hmod : l.moderatorAddress = []
        · simp [hmod, CheckState.answer]
        · simp [hmod, CheckState.answer]
      · rw [if_neg (mt hl.1 hb)]
        simp [hb, CheckState.answer]

theorem list_denied (hs : d.applyAliasesOnAddress sender = sender) (n : Nat) (l : DistributionList) (st : CheckState) :
    (userCanSendToList d (checkMember d authed n sender) authed sender l st).1 = .permissionDenied ↔
      barred d authed sender n l = true := by
  apply userCanSendToList_denied
  intro m _ st
  rw [checkMember, hs]
  exact check_denied hs n m false false st

/-! ## The marks -/

variable (d authed sender) in
/-- Going from the marks `M` to the marks `M'` took no right mark away and made
    no wrong one. -/
def Keeps (M M' : Finset WString) : Prop :=
  ∀ p l, d.list p = some l → (Moderated d authed sender l → d.lower p ∈ M → d.lower p ∈ M') ∧
    (¬Moderated d authed sender l → d.lower p ∈ M' → d.lower p ∈ M)

variable (d authed sender) in
/-- The marks are right for each list that the expansion of `a` comes to by
    forwards and members, and the lists it opens there admit the sender. -/
def Correct (M : Finset WString) : Nat → WString → Prop
  | 0, _ => True
  | left + 1, a =>
    match classify d a with
    | .forward b => Correct M left b
    | .list p l =>
      (d.lower p ∈ M ↔ Moderated d authed sender l) ∧
        (¬Moderated d authed sender l → modeRefusal d authed sender l = none ∧ ∀ m ∈ l.members, Correct M left m)
    | _ => True

theorem Keeps.refl (M : Finset WString) : Keeps d authed sender M M := fun _ _ _ => ⟨fun _ h => h, fun _ h => h⟩

theorem Keeps.trans {M M' M'' : Finset WString} (h : Keeps d authed sender M M') (h' : Keeps d authed sender M' M'') :
    Keeps d authed sender M M'' := by
  intro p l hl
  exact ⟨fun hmod hp => (h' p l hl).1 hmod ((h p l hl).1 hmod hp),
    fun hmod hp => (h p l hl).2 hmod ((h' p l hl).2 hmod hp)⟩

theorem keeps_insert {M : Finset WString} {p : WString} {l : DistributionList} (hl : d.list p = some l)
    (hmod : Moderated d authed sender l) : Keeps d authed sender M (insert (d.lower p) M) := by
  intro p' l' hl'
  refine ⟨fun _ hp => Finset.mem_insert_of_mem hp, fun hnot hp => ?_⟩
  rcases Finset.mem_insert.1 hp with heq | hp
  · -- the same list under another spelling of its name
    have hsame := d.list_noCase p' p heq
    rw [hl', hl, Option.some.injEq] at hsame
    exact absurd (hsame ▸ hmod) hnot
  · exact hp

theorem keeps_erase {M : Finset WString} {p : WString} {l : DistributionList} (hl : d.list p = some l)
    (hmod : ¬Moderated d authed sender l) : Keeps d authed sender M (M.erase (d.lower p)) := by
  intro p' l' hl'
  refine ⟨fun hyes hp => Finset.mem_erase.2 ⟨fun heq => ?_, hp⟩, fun _ hp => Finset.mem_of_mem_erase hp⟩
  have hsame := d.list_noCase p' p heq
  rw [hl', hl, Option.some.injEq] at hsame
  exact hmod (hsame ▸ hyes)

theorem Correct.keeps {M M' : Finset WString} (h : Keeps d authed sender M M') {n : Nat} {a : WString}
    (hc : Correct d authed sender M n a) : Correct d authed sender M' n a := by
  induction n generalizing a with
  | zero => trivial
  | succ n ih =>
    rw [Correct] at hc ⊢
    cases hcl : classify d a with
    | forward b =>
      simp only [hcl] at hc ⊢
      exact ih hc
    | unknown => trivial
    | deliver r full => trivial
    | list p l =>
      simp only [hcl] at hc ⊢
      have hk := h p l (list_of_classify hcl)
      refine ⟨⟨fun hp => ?_, fun hmod => hk.1 hmod (hc.1.2 hmod)⟩, fun hnot => ⟨(hc.2 hnot).1, ?_⟩⟩
      · by_contra hnot
        exact hnot (hc.1.1 (hk.2 hnot hp))
      · intro m hm
        exact ih ((hc.2 hnot).2 m hm)

theorem LimitHidesNothing.forward {n : Nat} {a b : WString} (h : LimitHidesNothing d authed sender (n + 1) a)
    (hc : classify d a = .forward b) : LimitHidesNothing d authed sender n b :=
  fun m l hm => h m l (.forward hc hm)

theorem LimitHidesNothing.member {n : Nat} {a p x : WString} {l : DistributionList}
    (h : LimitHidesNothing d authed sender (n + 1) a) (hc : classify d a = .list p l)
    (hmode : modeRefusal d authed sender l = none) (hx : x ∈ l.members) : LimitHidesNothing d authed sender n x :=
  fun m l' hm => h m l' (.member hc hmode hx hm)

/-- The members are checked one after the other: no check spoils the marks of
    the ones before it. -/
theorem checkMembers_marks {check : WString → CheckState → DeliveryPossibility × CheckState} {n : Nat}
    {ms : List WString} (h : ∀ m ∈ ms, ∀ st, Keeps d authed sender st.moderated (check m st).2.moderated ∧
      ((check m st).1 ≠ .permissionDenied → Correct d authed sender (check m st).2.moderated n m)) (st : CheckState) :
    Keeps d authed sender st.moderated (checkMembers check ms st).2.moderated ∧
      ((checkMembers check ms st).1 ≠ .permissionDenied →
        ∀ m ∈ ms, Correct d authed sender (checkMembers check ms st).2.moderated n m) := by
  induction ms generalizing st with
  | nil => exact ⟨Keeps.refl _, by simp⟩
  | cons m ms ih =>
    obtain ⟨hkeeps, hcorrect⟩ := h m (List.mem_cons_self ..) st
    obtain ⟨hkeeps', hcorrect'⟩ := ih (fun x hx => h x (List.mem_cons_of_mem _ hx)) (check m st).2
    rw [checkMembers]
    by_cases hd : (check m st).1 = .permissionDenied
    · rw [if_pos hd]
      exact ⟨hkeeps, fun hne => absurd rfl hne⟩
    · rw [if_neg hd]
      refine ⟨hkeeps.trans hkeeps', fun hne x hx => ?_⟩
      rcases List.mem_cons.1 hx with rfl | hx
      · exact (hcorrect hd).keeps hkeeps'
      · exact hcorrect' hne x hx

theorem userCanSendToList_marks {n : Nat} {l : DistributionList}
    (h : modeRefusal d authed sender l = none → ∀ m ∈ l.members, ∀ st,
      Keeps d authed sender st.moderated (checkMember d authed n sender m st).2.moderated ∧
        ((checkMember d authed n sender m st).1 ≠ .permissionDenied →
          Correct d authed sender (checkMember d authed n sender m st).2.moderated n m)) (st : CheckState) :
    Keeps d authed sender st.moderated
        (userCanSendToList d (checkMember d authed n sender) authed sender l st).2.moderated ∧
      ((userCanSendToList d (checkMember d authed n sender) authed sender l st).1 ≠ .permissionDenied →
        ∀ m ∈ l.members, Correct d authed sender
          (userCanSendToList d (checkMember d authed n sender) authed sender l st).2.moderated n m) := by
  rw [userCanSendToList]
  cases hmode : modeRefusal d authed sender l with
  | some msg => exact ⟨Keeps.refl _, fun hne => absurd rfl hne⟩
  | none => exact checkMembers_marks (h hmode) st

/-- What one check does to the marks: it spoils none, and unless it denies,
    they are right for the address. -/
theorem check_marks (hs : d.applyAliasesOnAddress sender = sender) {n : Nat} {a : WString}
    (hlimit : LimitHidesNothing d authed sender n a) (quota treatLocal : Bool) (st : CheckState) :
    Keeps d authed sender st.moderated (checkLoop d authed n sender a quota treatLocal st).moderated ∧
      ((checkLoop d authed n sender a quota treatLocal st).possibility ≠ .permissionDenied →
        Correct d authed sender (checkLoop d authed n sender a quota treatLocal st).moderated n a) := by
  induction n generalizing a quota treatLocal st with
  | zero => exact ⟨Keeps.refl _, fun _ => trivial⟩
  | succ n ih =>
    obtain ⟨msg, treat, he⟩ := checkLoop_succ authed n sender a quota treatLocal st
    rw [he, Correct]
    cases hc : classify d a with
    | forward b => exact ih (hlimit.forward hc) quota treat st
    | unknown => exact ⟨Keeps.refl _, fun _ => trivial⟩
    | deliver r full =>
      refine ⟨?_, fun _ => trivial⟩
      rw [checkOutcome]
      split <;> exact Keeps.refl _
    | list p l =>
      have hl := list_of_classify hc
      have hverdict : (userCanSendToList d (checkMember d authed n sender) authed sender l st).1 = .permissionDenied ↔
          barred d authed sender n l = true := list_denied hs n l st
      have hmembers : modeRefusal d authed sender l = none → ∀ m ∈ l.members, ∀ st,
          Keeps d authed sender st.moderated (checkMember d authed n sender m st).2.moderated ∧
            ((checkMember d authed n sender m st).1 ≠ .permissionDenied →
              Correct d authed sender (checkMember d authed n sender m st).2.moderated n m) := by
        intro hmode m hm st
        rw [checkMember, hs]
        exact ih (hlimit.member hc hmode hm) false false st
      obtain ⟨hkeeps, hcorrect⟩ := userCanSendToList_marks hmembers st
      rw [checkOutcome, checkList]
      by_cases hb : barred d authed sender n l = true
      · rw [if_pos (hverdict.2 hb)]
        by_cases hmod : l.moderatorAddress = []
        · rw [if_pos hmod]
          exact ⟨hkeeps, fun hne => absurd rfl hne⟩
        · rw [if_neg hmod]
          have hmoderated : Moderated d authed sender l := ⟨hmod, n, hb⟩
          refine ⟨hkeeps.trans (keeps_insert hl hmoderated), fun _ => ⟨⟨fun _ => hmoderated, fun _ => ?_⟩, ?_⟩⟩
          · exact Finset.mem_insert_self _ _
          · exact fun hnot => absurd hmoderated hnot
      · rw [if_neg (mt hverdict.1 hb)]
        have hnot : ¬Moderated d authed sender l := fun hmoderated => hb (hlimit n l (.here hc) hmoderated)
        have herase : Keeps d authed sender
            (userCanSendToList d (checkMember d authed n sender) authed sender l st).2.moderated _ := keeps_erase hl hnot
        refine ⟨hkeeps.trans herase, fun _ => ⟨⟨fun hp => ?_, fun hmoderated => absurd hmoderated hnot⟩, fun _ => ⟨?_, ?_⟩⟩⟩
        · exact absurd hp (Finset.notMem_erase _ _)
        · cases hmode : modeRefusal d authed sender l with
          | none => rfl
          | some msg => simp [barred, hmode] at hb
        · intro m hm
          exact (hcorrect (mt hverdict.1 hb) m hm).keeps herase

end Check

/-! ## The expansion -/

/-- A step of the expansion keeps the recipients that are there. -/
theorem mem_addRecipient (rs : List MessageRecipient) (r : MessageRecipient) (hr : d.lower r.address ≠ []) :
    ∃ r' ∈ addRecipient d rs r, d.lower r'.address = d.lower r.address := by
  rw [addRecipient, if_neg hr]
  split
  · rename_i hany
    obtain ⟨other, hmem, heq⟩ := List.any_eq_true.1 hany
    exact ⟨other, hmem, of_decide_eq_true heq⟩
  · exact ⟨r, by simp, rfl⟩

/-- The addresses a list of recipients holds, letter case aside. -/
def addresses (d : Directory) (rs : List MessageRecipient) : List WString := rs.map fun r => d.lower r.address

theorem addresses_markForwards (first : Nat) (rs : List MessageRecipient) :
    addresses d (markForwards first rs) = addresses d rs := by
  have hsame : ((fun r : MessageRecipient => d.lower r.address) ∘
      fun r : MessageRecipient => { r with isModerationForward := true }) = fun r => d.lower r.address := rfl
  rw [addresses, markForwards, List.map_append, List.map_map, hsame, ← List.map_append, List.take_append_drop]
  rfl

variable (d) in
/-- Every address once, and none of them empty. -/
structure WellFormed (rs : List MessageRecipient) : Prop where
  nodup : (addresses d rs).Nodup
  nonempty : [] ∉ addresses d rs

variable (d) in
/-- What the addresses do along an expansion: they stay, and stay well formed. -/
structure Grows (e e' : Expansion) : Prop where
  sub : addresses d e.recipients ⊆ addresses d e'.recipients
  wellFormed : WellFormed d e.recipients → WellFormed d e'.recipients

theorem Grows.refl (e : Expansion) : Grows d e e := ⟨List.Subset.refl _, fun h => h⟩

theorem Grows.trans {e e' e'' : Expansion} (h : Grows d e e') (h' : Grows d e' e'') : Grows d e e'' :=
  ⟨List.Subset.trans h.sub h'.sub, fun hw => h'.wellFormed (h.wellFormed hw)⟩

theorem Grows.of_addresses {e e' : Expansion} (h : addresses d e'.recipients = addresses d e.recipients) :
    Grows d e e' := by
  refine ⟨by rw [h]; exact List.Subset.refl _, fun hw => ⟨?_, ?_⟩⟩
  · rw [h]
    exact hw.nodup
  · rw [h]
    exact hw.nonempty

theorem grows_deliver (e : Expansion) (r : MessageRecipient) : Grows d e (e.deliver d r) := by
  rw [Expansion.deliver]
  by_cases hempty : d.lower r.address = []
  · apply Grows.of_addresses
    rw [addRecipient, if_pos hempty]
  · by_cases hany : (e.recipients.any fun other => d.lower other.address = d.lower r.address) = true
    · apply Grows.of_addresses
      rw [addRecipient, if_neg hempty, if_pos hany]
    · have heq : addresses d (addRecipient d e.recipients r) = addresses d e.recipients ++ [d.lower r.address] := by
        rw [addRecipient, if_neg hempty, if_neg hany, addresses, List.map_append]
        rfl
      have hnew : d.lower r.address ∉ addresses d e.recipients := by
        intro hmem
        obtain ⟨other, hother, hsame⟩ := List.mem_map.1 hmem
        exact hany (List.any_eq_true.2 ⟨other, hother, decide_eq_true hsame⟩)
      refine ⟨?_, fun hw => ⟨?_, ?_⟩⟩
      · dsimp only
        rw [heq]
        exact List.subset_append_left _ _
      · dsimp only
        rw [heq]
        exact List.nodup_append'.2 ⟨hw.nodup, List.nodup_singleton _, by simpa using hnew⟩
      · dsimp only
        rw [heq, List.mem_append, List.mem_singleton, not_or]
        exact ⟨hw.nonempty, fun h => hempty h.symm⟩

theorem grows_members {create : WString → Expansion → Expansion} {ms : List WString}
    (h : ∀ m ∈ ms, ∀ e, Grows d e (create m e)) (e : Expansion) : Grows d e (createMembers create ms e) := by
  induction ms generalizing e with
  | nil => exact Grows.refl e
  | cons m ms ih =>
    rw [createMembers]
    exact (h m (List.mem_cons_self ..) e).trans (ih (fun x hx => h x (List.mem_cons_of_mem _ hx)) _)

/-- What comes of a marked list: nothing, or the moderator's recipients. -/
theorem createModerated_cases (create : WString → Expansion → Expansion) (l : DistributionList) (e : Expansion) :
    (∃ reported, createModerated create l e = { e with reported }) ∨
    (l.moderatorAddress ≠ [] ∧ ∃ f, f = create l.moderatorAddress { e with recipientOK := false } ∧
      (createModerated create l e).expanded = f.expanded ∧
      ((f.recipientOK = false ∧ (createModerated create l e).recipients = f.recipients ∧
          (createModerated create l e).recipientOK = e.recipientOK) ∨
        (f.recipientOK = true ∧ (createModerated create l e).recipientOK = true ∧
          (createModerated create l e).recipients = markForwards e.recipients.length f.recipients))) := by
  unfold createModerated
  by_cases hempty : l.moderatorAddress = []
  · exact Or.inl ⟨_, if_pos hempty⟩
  · rw [if_neg hempty]
    by_cases hself : WString.equalsNoCase l.moderatorAddress l.address = true
    · exact Or.inl ⟨_, if_pos hself⟩
    · rw [if_neg hself]
      refine Or.inr ⟨hempty, _, rfl, ?_⟩
      dsimp only
      cases hok : (create l.moderatorAddress { e with recipientOK := false }).recipientOK with
      | false => exact ⟨rfl, Or.inl ⟨rfl, rfl, rfl⟩⟩
      | true => exact ⟨rfl, Or.inr ⟨rfl, rfl, rfl⟩⟩

theorem grows_moderated {create : WString → Expansion → Expansion} {l : DistributionList}
    (h : ∀ e, Grows d e (create l.moderatorAddress e)) (e : Expansion) : Grows d e (createModerated create l e) := by
  rcases createModerated_cases create l e with ⟨reported, he⟩ | ⟨_, f, hf, _, hcases⟩
  · rw [he]
    exact Grows.of_addresses rfl
  · have hgrows : Grows d e f := by
      have hsame : Grows d e { e with recipientOK := false } := Grows.of_addresses rfl
      have hcreate := h { e with recipientOK := false }
      rw [← hf] at hcreate
      exact hsame.trans hcreate
    refine hgrows.trans (Grows.of_addresses ?_)
    rcases hcases with ⟨_, hr, _⟩ | ⟨_, _, hr⟩
    · rw [hr]
    · rw [hr, addresses_markForwards]

theorem create_grows (M : Finset WString) (original : WString) (n : Nat) (a : WString) (e : Expansion) :
    Grows d e (createMessageRecipientList_ d M original n a e) := by
  induction n generalizing a e with
  | zero => exact Grows.refl e
  | succ n ih =>
    rw [create_succ]
    cases classify d a with
    | forward b => exact ih b e
    | unknown => exact Grows.refl e
    | deliver r full => exact grows_deliver e _
    | list p l =>
      rw [createOutcome]
      split
      · exact grows_moderated (fun e => ih _ e) e
      · have hsame : Grows d e { e with expanded := e.expanded ++ [l] } := Grows.of_addresses rfl
        exact hsame.trans (grows_members (fun m _ e => ih m e) _)

/-! ### Who is there when `recipientOK` is set -/

/-- The expansion of `m` sets `recipientOK` only where an address of `T` is
    there afterwards. -/
def Backed (d : Directory) (create : WString → Expansion → Expansion) (T : WString → Prop) (m : WString) : Prop :=
  ∀ e, (create m e).recipientOK = true →
    e.recipientOK = true ∨ ∃ t, T t ∧ d.lower t ∈ addresses d (create m e).recipients

theorem backed_members {create : WString → Expansion → Expansion} {T : WString → Prop} {ms : List WString}
    (hgrows : ∀ m e, Grows d e (create m e)) (h : ∀ m ∈ ms, Backed d create T m) (e : Expansion)
    (hok : (createMembers create ms e).recipientOK = true) :
    e.recipientOK = true ∨ ∃ t, T t ∧ d.lower t ∈ addresses d (createMembers create ms e).recipients := by
  induction ms generalizing e with
  | nil => exact Or.inl hok
  | cons m ms ih =>
    rw [createMembers] at hok ⊢
    rcases ih (fun x hx => h x (List.mem_cons_of_mem _ hx)) _ hok with hok' | hthere
    · rcases h m (List.mem_cons_self ..) e hok' with hok'' | ⟨t, ht, hmem⟩
      · exact Or.inl hok''
      · exact Or.inr ⟨t, ht, (grows_members (fun x _ e => hgrows x e) _).sub hmem⟩
    · exact Or.inr hthere

theorem backed_moderated {create : WString → Expansion → Expansion} {T : WString → Prop} {l : DistributionList}
    (h : l.moderatorAddress ≠ [] → Backed d create T l.moderatorAddress) (e : Expansion)
    (hok : (createModerated create l e).recipientOK = true) :
    e.recipientOK = true ∨ ∃ t, T t ∧ d.lower t ∈ addresses d (createModerated create l e).recipients := by
  rcases createModerated_cases create l e with ⟨reported, he⟩ | ⟨hmod, f, hf, _, ⟨_, _, hsame⟩ | ⟨hfok, _, hr⟩⟩
  · rw [he] at hok
    exact Or.inl hok
  · rw [hsame] at hok
    exact Or.inl hok
  · rw [hf] at hfok
    rcases h hmod _ hfok with hfalse | ⟨t, ht, hmem⟩
    · exact absurd hfalse (by simp)
    · refine Or.inr ⟨t, ht, ?_⟩
      rw [hr, addresses_markForwards, hf]
      exact hmem

theorem create_backed {M : Finset WString} {original : WString} {n : Nat} {a : WString}
    (hne : ∀ t, Target d n a t → d.lower t ≠ []) :
    Backed d (createMessageRecipientList_ d M original n) (Target d n a) a := by
  induction n generalizing a with
  | zero => exact fun e hok => Or.inl hok
  | succ n ih =>
    -- one step from `a`, whatever it is, hands on what holds behind it
    have hstep : ∀ b, Leads d a b → Backed d (createMessageRecipientList_ d M original n) (Target d (n + 1) a) b := by
      intro b hlead e hok
      rcases ih (fun t ht => hne t (ht.head hlead)) e hok with hok' | ⟨t, ht, hmem⟩
      · exact Or.inl hok'
      · exact Or.inr ⟨t, ht.head hlead, hmem⟩
    intro e hok
    rw [create_succ] at hok ⊢
    cases hc : classify d a with
    | forward b =>
      rw [hc] at hok
      exact hstep b (.forward hc) e hok
    | unknown =>
      rw [hc] at hok
      exact Or.inl hok
    | deliver r full =>
      obtain ⟨r', hmem, heq⟩ := mem_addRecipient e.recipients { r with originalAddress := original }
        (hne r.address (target_here hc))
      exact Or.inr ⟨r.address, target_here hc, List.mem_map.2 ⟨r', hmem, heq⟩⟩
    | list p l =>
      rw [hc, createOutcome] at hok
      rw [createOutcome]
      split at hok
      · rename_i hmarked
        rw [if_pos hmarked]
        exact backed_moderated (fun hmod => hstep _ (.moderator hc hmod)) e hok
      · rename_i hmarked
        rw [if_neg hmarked]
        exact backed_members (fun m e => create_grows M original n m e) (fun m hm => hstep m (.member hc hm)) _ hok

/-! ### Which lists are opened -/

/-- Every list the expansion of `m` opens satisfies `P`. -/
def Opens (create : WString → Expansion → Expansion) (P : DistributionList → Prop) (m : WString) : Prop :=
  ∀ e, ∀ l ∈ (create m e).expanded, l ∈ e.expanded ∨ P l

theorem opens_members {create : WString → Expansion → Expansion} {P : DistributionList → Prop} {ms : List WString}
    (h : ∀ m ∈ ms, Opens create P m) (e : Expansion) :
    ∀ l ∈ (createMembers create ms e).expanded, l ∈ e.expanded ∨ P l := by
  induction ms generalizing e with
  | nil => exact fun l hl => Or.inl hl
  | cons m ms ih =>
    intro l hl
    rw [createMembers] at hl
    rcases ih (fun x hx => h x (List.mem_cons_of_mem _ hx)) _ l hl with hl' | hP
    · exact h m (List.mem_cons_self ..) e l hl'
    · exact Or.inr hP

theorem opens_moderated {create : WString → Expansion → Expansion} {P : DistributionList → Prop} {l : DistributionList}
    (h : l.moderatorAddress ≠ [] → Opens create P l.moderatorAddress) (e : Expansion) :
    ∀ l' ∈ (createModerated create l e).expanded, l' ∈ e.expanded ∨ P l' := by
  intro l' hl'
  rcases createModerated_cases create l e with ⟨reported, he⟩ | ⟨hmod, f, hf, hexp, _⟩
  · rw [he] at hl'
    exact Or.inl hl'
  · rw [hexp, hf] at hl'
    exact h hmod { e with recipientOK := false } l' hl'

/-- Whatever the marks, only lists that the walk comes to are opened. -/
theorem create_opens {M : Finset WString} {original : WString} {n : Nat} {a : WString} {P : DistributionList → Prop}
    (h : ∀ k b p l, Walk d (n, a) (k + 1, b) → classify d b = .list p l → P l) :
    Opens (createMessageRecipientList_ d M original n) P a := by
  induction n generalizing a with
  | zero => exact fun e l hl => Or.inl hl
  | succ n ih =>
    have hstep : ∀ b, Leads d a b → Opens (createMessageRecipientList_ d M original n) P b :=
      fun b hlead => ih fun k c p l hw hc => h k c p l (hw.head hlead) hc
    intro e l' hl'
    rw [create_succ] at hl'
    cases hc : classify d a with
    | forward b =>
      rw [hc] at hl'
      exact hstep b (.forward hc) e l' hl'
    | unknown =>
      rw [hc] at hl'
      exact Or.inl hl'
    | deliver r full =>
      rw [hc] at hl'
      exact Or.inl hl'
    | list p l =>
      rw [hc, createOutcome] at hl'
      split at hl'
      · exact opens_moderated (fun hmod => hstep _ (.moderator hc hmod)) e l' hl'
      · rcases opens_members (fun m hm => hstep m (.member hc hm)) _ l' hl' with hmem | hP
        · rcases List.mem_append.1 hmem with hmem | hmem
          · exact Or.inl hmem
          · rw [List.mem_singleton] at hmem
            exact Or.inr (hmem ▸ h n a p l Relation.ReflTransGen.refl hc)
        · exact Or.inr hP

theorem ModeratorsAdmit.forward {authed : Bool} {sender : WString} {n : Nat} {a b : WString}
    (h : ModeratorsAdmit d authed sender (n + 1) a) (hc : classify d a = .forward b) :
    ModeratorsAdmit d authed sender n b :=
  fun m l hm => h m l (.forward hc hm)

theorem ModeratorsAdmit.member {authed : Bool} {sender : WString} {n : Nat} {a p x : WString} {l : DistributionList}
    (h : ModeratorsAdmit d authed sender (n + 1) a) (hc : classify d a = .list p l)
    (hmode : modeRefusal d authed sender l = none) (hx : x ∈ l.members) : ModeratorsAdmit d authed sender n x :=
  fun m l' hm => h m l' (.member hc hmode hx hm)

/-- With the right marks, only lists whose modes admit the sender are opened. -/
theorem create_admits {authed : Bool} {sender : WString} {M : Finset WString} {original : WString} {n : Nat}
    {a : WString} (hcorrect : Correct d authed sender M n a) (hmods : ModeratorsAdmit d authed sender n a) :
    Opens (createMessageRecipientList_ d M original n) (fun l => modeRefusal d authed sender l = none) a := by
  induction n generalizing a with
  | zero => exact fun e l hl => Or.inl hl
  | succ n ih =>
    intro e l' hl'
    rw [create_succ] at hl'
    rw [Correct] at hcorrect
    cases hc : classify d a with
    | forward b =>
      rw [hc] at hl'
      simp only [hc] at hcorrect
      exact ih hcorrect (hmods.forward hc) e l' hl'
    | unknown =>
      rw [hc] at hl'
      exact Or.inl hl'
    | deliver r full =>
      rw [hc] at hl'
      exact Or.inl hl'
    | list p l =>
      simp only [hc] at hcorrect
      rw [hc, createOutcome] at hl'
      split at hl'
      · rename_i hmarked
        apply opens_moderated (fun _ => ?_) e l' hl'
        exact create_opens fun k b q m hw hb => hmods n l (.here hc) (hcorrect.1.1 hmarked) k b q m hw hb
      · rename_i hmarked
        obtain ⟨hmode, hmembers⟩ := hcorrect.2 (mt hcorrect.1.2 hmarked)
        rcases opens_members (fun m hm => ih (hmembers m hm) (hmods.member hc hmode hm)) _ l' hl' with hmem | hP
        · rcases List.mem_append.1 hmem with hmem | hmem
          · exact Or.inl hmem
          · rw [List.mem_singleton] at hmem
            exact Or.inr (hmem ▸ hmode)
        · exact Or.inr hP

/-! ### Addresses that are no list -/

/-- `DP_RecipientUnknown` is answered only where the expansion does nothing. -/
theorem create_of_unknown {authed : Bool} {sender : WString} {n : Nat} {a : WString} {quota treatLocal : Bool}
    {st : CheckState} (h : (checkLoop d authed n sender a quota treatLocal st).possibility = .recipientUnknown)
    (M : Finset WString) (original : WString) (e : Expansion) :
    createMessageRecipientList_ d M original n a e = e := by
  induction n generalizing a treatLocal with
  | zero => rfl
  | succ n ih =>
    obtain ⟨msg, treat, he⟩ := checkLoop_succ authed n sender a quota treatLocal st
    rw [he] at h
    rw [create_succ]
    cases hc : classify d a with
    | forward b =>
      rw [hc] at h
      exact ih h
    | unknown => rfl
    | deliver r full =>
      rw [hc, checkOutcome] at h
      split at h <;> cases h
    | list p l =>
      rw [hc, checkOutcome, checkList] at h
      dsimp only at h
      split at h
      · split at h <;> cases h
      · cases h

theorem create_of_resolve {n : Nat} {a : WString} {r : MessageRecipient} {full : Bool}
    (h : resolve d n a = some (.deliver r full)) (M : Finset WString) (original : WString) (e : Expansion) :
    createMessageRecipientList_ d M original n a e = e.deliver d { r with originalAddress := original } ∧
      Target d n a r.address ∧ ∀ t, Target d n a t → t = r.address := by
  induction n generalizing a with
  | zero => cases h
  | succ n ih =>
    rw [create_succ]
    rw [resolve] at h
    cases hc : classify d a with
    | forward b =>
      simp only [hc] at h
      obtain ⟨heq, htarget, huniq⟩ := ih h
      refine ⟨heq, htarget.head (.forward hc), ?_⟩
      rintro t ⟨m, c, r', full', hw, hdeliver, rfl⟩
      rcases hw.cases with ⟨_, hsame⟩ | ⟨k, x, hk, hlead, hrest⟩
      · rw [hsame, hc] at hdeliver
        cases hdeliver
      · cases Nat.succ.inj hk
        rw [leads_forward hc hlead] at hrest
        exact huniq _ ⟨m, c, r', full', hrest, hdeliver, rfl⟩
    | unknown => simp [hc] at h
    | list p l => simp [hc] at h
    | deliver r' full' =>
      simp only [hc, Option.some.injEq, Outcome.deliver.injEq] at h
      obtain ⟨rfl, rfl⟩ := h
      refine ⟨rfl, target_here hc, ?_⟩
      rintro t ⟨m, c, r'', full'', hw, hdeliver, rfl⟩
      rw [walk_deliver hc hw, hc] at hdeliver
      cases hdeliver
      rfl

theorem check_of_resolve {authed : Bool} {sender : WString} {n : Nat} {a : WString} (quota treatLocal : Bool)
    (st : CheckState) (hlist : ∀ p l, resolve d n a ≠ some (.list p l)) :
    (∃ r full, resolve d n a = some (.deliver r full)) ∨
      (checkLoop d authed n sender a quota treatLocal st).possibility = .recipientUnknown := by
  induction n generalizing a treatLocal with
  | zero => exact Or.inr rfl
  | succ n ih =>
    obtain ⟨msg, treat, he⟩ := checkLoop_succ authed n sender a quota treatLocal st
    rw [he]
    rw [resolve] at hlist ⊢
    cases hc : classify d a with
    | forward b =>
      simp only [hc] at hlist ⊢
      exact ih treat hlist
    | unknown => exact Or.inr rfl
    | deliver r full => exact Or.inl ⟨r, full, rfl⟩
    | list p l => simp [hc] at hlist

/-! ## RCPT TO -/

/-- A RCPT TO on a session; `admitted` says whether the relay rules and the
    spam checks between the two calls let it through. -/
structure Request where
  authed : Bool
  sender : WString
  address : WString
  admitted : Bool

inductive Command where
  | mailFrom
  | rcpt (req : Request)

/-- The parser's marks and the recipients of the current message. -/
structure Session where
  moderated : Finset WString
  recipients : List MessageRecipient

variable (d) in
def answer (s : Session) (req : Request) : Answer :=
  checkDeliveryPossibility d req.authed req.sender req.address s.moderated

variable (d) in
def expansion (s : Session) (req : Request) : Expansion :=
  createMessageRecipientList d (answer d s req).moderated req.address s.recipients

variable (d) in
def Session.step (s : Session) : Command → Session
  | .mailFrom => { s with recipients := [] }
  | .rcpt req =>
    { moderated := (answer d s req).moderated
      recipients :=
        if (answer d s req).possibility = .possible ∧ req.admitted then (expansion d s req).recipients
        else s.recipients }

variable (d) in
/-- A session from the marks of earlier ones on. -/
def run (moderated : Finset WString) (history : List Command) : Session :=
  history.foldl (Session.step d) ⟨moderated, []⟩

variable (d) in
/-- What RCPT TO promises about one address. -/
structure PromiseKept (s : Session) (req : Request) : Prop where
  unknown : (answer d s req).possibility = .recipientUnknown → (expansion d s req).recipients = s.recipients
  possible : (answer d s req).possibility = .possible → ¬ResolvesToList d req.address →
    (expansion d s req).recipientOK = true ∧
      ∃ t, Target d 25 req.address t ∧ d.lower t ∈ addresses d (expansion d s req).recipients
  accepted : (expansion d s req).recipientOK = true →
    ∃ t, Target d 25 req.address t ∧ d.lower t ∈ addresses d (expansion d s req).recipients
  lists : (answer d s req).possibility = .possible → ∀ l ∈ (expansion d s req).expanded,
    modeRefusal d req.authed (d.applyAliasesOnAddress req.sender) l = none
  distinct : (addresses d (expansion d s req).recipients).Nodup

variable (d) in
/-- When the code keeps it for every address: nothing leads to an empty
    address, the depth limit hides no refusal from a moderated list, and the
    lists behind a moderator's address admit the sender. -/
structure Harmless (req : Request) : Prop where
  nonempty : ∀ t, Target d 25 req.address t → d.lower t ≠ []
  limit : LimitHidesNothing d req.authed (d.applyAliasesOnAddress req.sender) 25 req.address
  moderators : ModeratorsAdmit d req.authed (d.applyAliasesOnAddress req.sender) 25 req.address

theorem expansion_grows (s : Session) (req : Request) (hw : WellFormed d s.recipients) :
    WellFormed d (expansion d s req).recipients :=
  (create_grows _ _ 25 req.address ⟨s.recipients, false, [], []⟩).wellFormed hw

theorem step_wellFormed (s : Session) (c : Command) (hw : WellFormed d s.recipients) :
    WellFormed d (s.step d c).recipients := by
  cases c with
  | mailFrom => exact ⟨List.nodup_nil, List.not_mem_nil⟩
  | rcpt req =>
    rw [Session.step]
    dsimp only
    split
    · exact expansion_grows s req hw
    · exact hw

theorem run_wellFormed (moderated : Finset WString) (history : List Command) :
    WellFormed d (run d moderated history).recipients := by
  have hfold : ∀ s : Session, WellFormed d s.recipients → WellFormed d (history.foldl (Session.step d) s).recipients := by
    induction history with
    | nil => exact fun s hw => hw
    | cons c history ih => exact fun s hw => ih _ (step_wellFormed s c hw)
  exact hfold _ ⟨List.nodup_nil, List.not_mem_nil⟩

theorem promise_unknown (s : Session) (req : Request) (h : (answer d s req).possibility = .recipientUnknown) :
    (expansion d s req).recipients = s.recipients := by
  rw [expansion, createMessageRecipientList, create_of_unknown h]

/-- The lists part, from the marks of the check itself. -/
theorem promise_lists {s : Session} {req : Request} (h : Harmless d req)
    (hpossible : (answer d s req).possibility = .possible) : ∀ l ∈ (expansion d s req).expanded,
    modeRefusal d req.authed (d.applyAliasesOnAddress req.sender) l = none := by
  intro l hl
  obtain ⟨_, hcorrect⟩ := check_marks (applyAliases_idem req.sender) h.limit true false ⟨[], s.moderated⟩
  have hdenied : (answer d s req).possibility ≠ .permissionDenied := by
    rw [hpossible]
    decide
  rcases create_admits (hcorrect hdenied) h.moderators ⟨s.recipients, false, [], []⟩ l hl with hmem | hmode
  · exact absurd hmem List.not_mem_nil
  · exact hmode

theorem promise_harmless {s : Session} {req : Request} (hw : WellFormed d s.recipients) (h : Harmless d req) :
    PromiseKept d s req := by
  have haccepted : (expansion d s req).recipientOK = true →
      ∃ t, Target d 25 req.address t ∧ d.lower t ∈ addresses d (expansion d s req).recipients := by
    intro hok
    rcases create_backed h.nonempty _ hok with hfalse | hthere
    · cases hfalse
    · exact hthere
  refine ⟨promise_unknown s req, fun hpossible hlist => ?_, haccepted, promise_lists h,
    (expansion_grows s req hw).nodup⟩
  have hok : (expansion d s req).recipientOK = true := by
    rcases check_of_resolve true false ⟨[], s.moderated⟩ (fun p l hr => hlist ⟨p, l, hr⟩) with ⟨r, full, hr⟩ | hunknown
    · rw [expansion, createMessageRecipientList, (create_of_resolve hr _ _ _).1]
      rfl
    · rw [answer, checkDeliveryPossibility, hunknown] at hpossible
      cases hpossible
  exact ⟨hok, haccepted hok⟩

/-- Without a list in the way, the empty address is all that can go wrong. -/
theorem promise_iff_nonempty {s : Session} {req : Request} (hw : WellFormed d s.recipients)
    (hlist : ¬ResolvesToList d req.address) :
    PromiseKept d s req ↔ ∀ r full, resolve d 25 req.address = some (.deliver r full) → d.lower r.address ≠ [] := by
  constructor
  · intro hkept r full hr hempty
    obtain ⟨heq, _, huniq⟩ := create_of_resolve hr (answer d s req).moderated req.address ⟨s.recipients, false, [], []⟩
    have hok : (expansion d s req).recipientOK = true := by
      rw [expansion, createMessageRecipientList, heq]
      rfl
    obtain ⟨t, ht, hmem⟩ := hkept.accepted hok
    rw [huniq t ht, hempty] at hmem
    exact (expansion_grows s req hw).nonempty hmem
  · intro hne
    rcases check_of_resolve true false ⟨[], s.moderated⟩ (fun p l hr => hlist ⟨p, l, hr⟩) with ⟨r, full, hr⟩ | hunknown
    · obtain ⟨heq, htarget, huniq⟩ :=
        create_of_resolve hr (answer d s req).moderated req.address ⟨s.recipients, false, [], []⟩
      have hexp : expansion d s req = Expansion.deliver d ⟨s.recipients, false, [], []⟩
          { r with originalAddress := req.address } := heq
      obtain ⟨r', hmem, hsame⟩ := mem_addRecipient s.recipients { r with originalAddress := req.address } (hne r full hr)
      have hthere : ∃ t, Target d 25 req.address t ∧ d.lower t ∈ addresses d (expansion d s req).recipients := by
        refine ⟨r.address, htarget, ?_⟩
        rw [hexp]
        exact List.mem_map.2 ⟨r', hmem, hsame⟩
      refine ⟨promise_unknown s req, fun _ _ => ⟨by rw [hexp]; rfl, hthere⟩, fun _ => hthere, ?_,
        (expansion_grows s req hw).nodup⟩
      intro _ l hl
      rw [hexp] at hl
      exact absurd hl List.not_mem_nil
    · have hexp : expansion d s req = ⟨s.recipients, false, [], []⟩ := create_of_unknown hunknown _ _ _
      refine ⟨promise_unknown s req, fun hpossible => ?_, fun hok => ?_, ?_, (expansion_grows s req hw).nodup⟩
      · rw [answer, checkDeliveryPossibility, hunknown] at hpossible
        cases hpossible
      · rw [hexp] at hok
        cases hok
      · intro _ l hl
        rw [hexp] at hl
        exact absurd hl List.not_mem_nil

/-- One domain `d` with the given aliases and lists; everything else is on
    other servers. -/
def oneDomain (aliases : List (WString × WString)) (lists : List DistributionList) : Directory where
  signing := ⟨classicLocale, id, fun _ _ => []⟩
  now := 0
  srsEnabled := false
  srsSecret := []
  batvEnabled := false
  batvSecret := []
  rejectFullMailboxAtRcpt := true
  domainAliases := []
  domainByID _ := none
  domain name := if WString.equalsNoCase name (wide "d") then some ⟨wide "d", true, [], false, []⟩ else none
  account _ := none
  aliasOf a := (aliases.lookup a).map fun value => ⟨true, value⟩
  list a := lists.find? fun l => WString.makeLower classicLocale l.address = WString.makeLower classicLocale a
  route _ := none
  domain_not_alias := by simp
  list_noCase a b h := by
    dsimp only at h ⊢
    rw [h]

def ownersList (address moderator : String) (members : List String) : DistributionList :=
  ⟨wide address, true, false, .lmAnnouncement, wide "owner@d", 0, wide moderator, members.map wide⟩

def publicList (address moderator : String) (members : List String) : DistributionList :=
  ⟨wide address, true, false, .lmPublic, [], 0, wide moderator, members.map wide⟩

def strangerTo (address : String) : Request := ⟨false, wide "stranger@x", wide address, true⟩

end HMailServer.RecipientParser
