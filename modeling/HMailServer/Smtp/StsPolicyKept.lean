import HMailServer.Smtp.TlsPolicy

/- A fetched MTA-STS policy against failed lookups. A call that missed the
   cache writes whatever its lookup gave, without looking again, so a policy
   stored meanwhile can be overwritten by a negative entry. The policy is kept
   through every interleaving in which no such write and no erasure falls in
   its period. -/
namespace HMailServer.TlsPolicy

variable {env : Environment} {s s' : State} {a : Step} {r : Option Returned}

/-! ## What a step can do -/

/-- The policy a call falls back on while it revalidates. -/
def Phase.snapshot : Phase → Option CachedStsPolicy
  | .revalidating cached => some cached
  | .refetching cached _ => some cached
  | _ => none

/-- The transitions of `act`, with their guards. -/
inductive Acts (env : Environment) (s : State) : Step → State → Option Returned → Prop where
  | idle (a : Step) : Acts env s a s none
  | begin {thread domain} (elapsed : Nat) (hfree : s.calls thread = none) :
      Acts env s (.begin thread domain elapsed)
        ({ s with clock := s.clock + elapsed }.setCall thread
          (some { key := WString.makeLower env.loc domain, now := s.clock + elapsed, since := s.steps, phase := .began }))
        none
  | miss {thread call} (hcall : s.calls thread = some call) (hphase : call.phase = .began)
      (hnone : s.cache call.key = none) :
      Acts env s (.read thread) (s.goOn thread call .looking).1 none
  | expire {thread call cached} (hcall : s.calls thread = some call) (hphase : call.phase = .began)
      (hcached : s.cache call.key = some cached) (hexpired : cached.expiresAt ≤ call.now) :
      Acts env s (.read thread) ((s.setEntry call.key none).goOn thread call .looking).1 none
  | hit {thread call cached} (hcall : s.calls thread = some call) (hphase : call.phase = .began)
      (hcached : s.cache call.key = some cached) :
      Acts env s (.read thread) (s.finish thread call cached).1 (s.finish thread call cached).2
  | due {thread call cached} (hcall : s.calls thread = some call) (hphase : call.phase = .began)
      (hcached : s.cache call.key = some cached) :
      Acts env s (.read thread)
        ((s.setEntry call.key (some { cached with revalidateAt := call.now + revalidateIntervalSeconds })).goOn thread call
          (.revalidating cached)).1 none
  | fallBack {a thread call cached} (hcall : s.calls thread = some call) (hphase : call.phase.snapshot = some cached) :
      Acts env s a (s.finish thread call cached).1 (s.finish thread call cached).2
  | changed {thread call cached currentId answer} (hcall : s.calls thread = some call)
      (hphase : call.phase = .revalidating cached) :
      Acts env s (.dns thread answer) (s.goOn thread call (.refetching cached currentId)).1 none
  | found {thread call policyId answer} (hcall : s.calls thread = some call) (hphase : call.phase = .looking) :
      Acts env s (.dns thread answer) (s.goOn thread call (.fetching policyId)).1 none
  | fail {a thread call seconds} (hcall : s.calls thread = some call)
      (hphase : call.phase = .looking ∨ ∃ policyId, call.phase = .fetching policyId) :
      Acts env s a (s.goOn thread call (.storing (negativeEntry call seconds))).1 none
  | fetch {thread call id answer policy maxAge} (hcall : s.calls thread = some call)
      (hphase : (∃ cached, call.phase = .refetching cached id) ∨ call.phase = .fetching id)
      (hfetch : fetchStsPolicy env answer = some (policy, maxAge)) :
      Acts env s (.https thread answer)
        (s.goOn thread call (.storing (fetchedEntry s call id policy maxAge))).1 none
  | store {thread call entry} (hcall : s.calls thread = some call) (hphase : call.phase = .storing entry) :
      Acts env s (.store thread) ((s.setEntry call.key (some entry)).finish thread call entry).1
        ((s.setEntry call.key (some entry)).finish thread call entry).2

theorem acts_readCache {thread : Nat} {call : Call} (hcall : s.calls thread = some call) (hphase : call.phase = .began) :
    Acts env s (.read thread) (readCache s thread call).1 (readCache s thread call).2 := by
  unfold readCache
  split
  · rename_i hnone
    exact .miss hcall hphase hnone
  · rename_i cached hcached
    split
    · rename_i hexpired
      exact .expire hcall hphase hcached hexpired
    · split
      · exact .hit hcall hphase hcached
      · exact .due hcall hphase hcached

theorem acts_dnsAnswered {thread : Nat} {call : Call} (hcall : s.calls thread = some call)
    (answer : Option (List WString)) :
    Acts env s (.dns thread answer) (dnsAnswered env s thread call answer).1 (dnsAnswered env s thread call answer).2 := by
  unfold dnsAnswered
  split
  · rename_i cached hphase
    have hsnapshot : call.phase.snapshot = some cached := by rw [hphase]; rfl
    split
    · exact .fallBack hcall hsnapshot
    · split
      · exact .fallBack hcall hsnapshot
      · exact .changed hcall hphase
  · rename_i hphase
    split
    · exact .fail hcall (.inl hphase)
    · exact .found hcall hphase
  · exact .idle _

theorem acts_httpsAnswered {thread : Nat} {call : Call} (hcall : s.calls thread = some call)
    (answer : Option AnsiString) :
    Acts env s (.https thread answer) (httpsAnswered env s thread call answer).1
      (httpsAnswered env s thread call answer).2 := by
  unfold httpsAnswered
  split
  · rename_i cached currentId hphase
    split
    · exact .fallBack hcall (by rw [hphase]; rfl)
    · rename_i policy maxAge hfetch
      exact .fetch hcall (.inl ⟨cached, hphase⟩) hfetch
  · rename_i policyId hphase
    split
    · exact .fail hcall (.inr ⟨policyId, hphase⟩)
    · rename_i policy maxAge hfetch
      exact .fetch hcall (.inr hphase) hfetch
  · exact .idle _

theorem acts (env : Environment) (s : State) (a : Step) : Acts env s a (act env s a).1 (act env s a).2 := by
  cases a with
  | begin thread domain elapsed =>
    cases hcall : s.calls thread with
    | some call => simpa only [act, hcall] using Acts.idle _
    | none => simpa only [act, hcall] using Acts.begin elapsed hcall
  | read thread =>
    cases hcall : s.calls thread with
    | none => simpa only [act, hcall] using Acts.idle _
    | some call =>
      simp only [act, hcall]
      split
      · rename_i hphase
        exact acts_readCache hcall hphase
      · exact .idle _
  | dns thread answer =>
    cases hcall : s.calls thread with
    | none => simpa only [act, hcall] using Acts.idle _
    | some call => simpa only [act, hcall] using acts_dnsAnswered hcall answer
  | https thread answer =>
    cases hcall : s.calls thread with
    | none => simpa only [act, hcall] using Acts.idle _
    | some call => simpa only [act, hcall] using acts_httpsAnswered hcall answer
  | store thread =>
    cases hcall : s.calls thread with
    | none => simpa only [act, hcall] using Acts.idle _
    | some call =>
      simp only [act, hcall]
      split
      · rename_i entry hphase
        exact .store hcall hphase
      · exact .idle _

@[simp] theorem goOn_cache (s : State) (thread : Nat) (call : Call) (phase : Phase) :
    (s.goOn thread call phase).1.cache = s.cache := rfl

@[simp] theorem finish_cache (s : State) (thread : Nat) (call : Call) (entry : CachedStsPolicy) :
    (s.finish thread call entry).1.cache = s.cache := rfl

theorem setEntry_cache (s : State) (key k : WString) (entry : Option CachedStsPolicy) :
    (s.setEntry key entry).cache k = if k = key then entry else s.cache k := rfl

/-- The calls after a call went on: that call in its new phase, and the others. -/
theorem goOn_calls {thread t : Nat} {call c : Call} {phase : Phase}
    (h : (s.goOn thread call phase).1.calls t = some c) :
    (t = thread ∧ c = { call with phase }) ∨ s.calls t = some c := by
  simp only [State.goOn, State.setCall] at h
  split at h
  · rename_i ht
    exact .inl ⟨ht, (Option.some.inj h).symm⟩
  · exact .inr h

theorem finish_calls {thread t : Nat} {call c : Call} {entry : CachedStsPolicy}
    (h : (s.finish thread call entry).1.calls t = some c) : s.calls t = some c := by
  simp only [State.finish, State.setCall] at h
  split at h
  · cases h
  · exact h

/-! ## Where a policy came from -/

/-- Step `k` of the run fetched this policy. -/
def FetchedAt (env : Environment) (steps : List Step) (k : Nat) (policy : StsPolicy) : Prop :=
  ∃ thread answer maxAge, steps[k]? = some (.https thread answer) ∧ fetchStsPolicy env answer = some (policy, maxAge)

theorem getElem?_append_of_eq {steps : List Step} {k : Nat} {a : Step} (h : steps[k]? = some a) (more : List Step) :
    (steps ++ more)[k]? = some a := by
  rw [List.getElem?_append_left (List.getElem?_eq_some_iff.1 h).1, h]

theorem FetchedAt.append {steps : List Step} {k : Nat} {policy : StsPolicy} (h : FetchedAt env steps k policy)
    (more : List Step) : FetchedAt env (steps ++ more) k policy := by
  obtain ⟨thread, answer, maxAge, hstep, hfetch⟩ := h
  exact ⟨thread, answer, maxAge, getElem?_append_of_eq hstep more, hfetch⟩

/-- A stamp is the step that fetched the policy. -/
def Traced (env : Environment) (steps : List Step) (policy : StsPolicy) (fetched : Option Nat) : Prop :=
  ∀ k, fetched = some k → FetchedAt env steps k policy

theorem Traced.append {steps : List Step} {policy : StsPolicy} {fetched : Option Nat}
    (h : Traced env steps policy fetched) (more : List Step) : Traced env (steps ++ more) policy fetched :=
  fun k hk => (h k hk).append more

/-- The entry a call holds: its snapshot, or what it is about to store. -/
def Phase.carries : Phase → Option CachedStsPolicy
  | .storing entry => some entry
  | phase => phase.snapshot

/-- What a call is about to store came from a body it fetched, and lives for
    the age that body gave. -/
def StoresFetched (env : Environment) (steps : List Step) (thread : Nat) (call : Call) (entry : CachedStsPolicy)
    (k : Nat) : Prop :=
  ∃ answer maxAge, steps[k]? = some (.https thread answer) ∧
    fetchStsPolicy env answer = some (entry.policy, maxAge) ∧ entry.expiresAt = call.now + maxAge

/-- The stamps of a call are right. -/
structure CallStamped (env : Environment) (steps : List Step) (thread : Nat) (call : Call) : Prop where
  since : call.since < steps.length
  carried : ∀ entry, call.phase.carries = some entry → Traced env steps entry.policy entry.fetched
  storing : ∀ entry k, call.phase = .storing entry → entry.fetched = some k →
    StoresFetched env steps thread call entry k

theorem CallStamped.append {steps : List Step} {thread : Nat} {call : Call} (h : CallStamped env steps thread call)
    (more : List Step) : CallStamped env (steps ++ more) thread call where
  since := by
    rw [List.length_append]
    exact Nat.lt_add_right _ h.since
  carried := fun entry hentry => (h.carried entry hentry).append more
  storing := fun entry k hphase hk => by
    obtain ⟨answer, maxAge, hstep, hfetch⟩ := h.storing entry k hphase hk
    exact ⟨answer, maxAge, getElem?_append_of_eq hstep more, hfetch⟩

/-- Every stamp in the state is right. -/
structure Stamped (env : Environment) (steps : List Step) (s : State) : Prop where
  cache : ∀ key entry, s.cache key = some entry → Traced env steps entry.policy entry.fetched
  calls : ∀ t call, s.calls t = some call → CallStamped env steps t call

namespace Stamped

variable {steps : List Step} {thread : Nat} {call : Call}

theorem append (h : Stamped env steps s) (more : List Step) : Stamped env (steps ++ more) s where
  cache := fun key entry hentry => (h.cache key entry hentry).append more
  calls := fun t call hcall => (h.calls t call hcall).append more

theorem goOn (h : Stamped env steps s) {phase : Phase} (hcall : CallStamped env steps thread { call with phase }) :
    Stamped env steps (s.goOn thread call phase).1 where
  cache := h.cache
  calls := by
    intro t c hc
    obtain ⟨rfl, rfl⟩ | hold := goOn_calls hc
    · exact hcall
    · exact h.calls t c hold

theorem finish (h : Stamped env steps s) (entry : CachedStsPolicy) :
    Stamped env steps (s.finish thread call entry).1 where
  cache := h.cache
  calls := fun t c hc => h.calls t c (finish_calls hc)

theorem setEntry (h : Stamped env steps s) (key : WString) {new : Option CachedStsPolicy}
    (hnew : ∀ entry, new = some entry → Traced env steps entry.policy entry.fetched) :
    Stamped env steps (s.setEntry key new) where
  cache := by
    intro k entry hentry
    rw [setEntry_cache] at hentry
    split at hentry
    · exact hnew entry hentry
    · exact h.cache k entry hentry
  calls := h.calls

end Stamped

/-- A call that holds no entry is stamped by the step it began at alone. -/
theorem CallStamped.of_carries_none {steps : List Step} {thread : Nat} {call : Call} (hsince : call.since < steps.length)
    (hnone : call.phase.carries = none) : CallStamped env steps thread call where
  since := hsince
  carried := fun entry hentry => by
    rw [hnone] at hentry
    cases hentry
  storing := fun entry k hphase _ => by
    rw [hphase] at hnone
    cases hnone

/-- A call that goes on with a snapshot. -/
theorem CallStamped.of_snapshot {steps : List Step} {thread : Nat} {call : Call} {cached : CachedStsPolicy}
    (hsince : call.since < steps.length) (hsnapshot : call.phase.snapshot = some cached)
    (hcached : Traced env steps cached.policy cached.fetched) : CallStamped env steps thread call where
  since := hsince
  carried := fun entry hentry => by
    cases hphase : call.phase <;> simp_all [Phase.carries, Phase.snapshot]
  storing := fun entry k hphase _ => by
    rw [hphase] at hsnapshot
    cases hsnapshot

theorem Phase.carries_of_snapshot {phase : Phase} {cached : CachedStsPolicy} (h : phase.snapshot = some cached) :
    phase.carries = some cached := by
  cases phase <;> simp_all [carries, snapshot]

theorem stamped_act {steps : List Step} (h : Stamped env steps s) (hcount : s.steps = steps.length)
    (hacts : Acts env s a s' r) :
    Stamped env (steps ++ [a]) s' ∧ ∀ x ∈ r, Traced env (steps ++ [a]) x.policy x.fetched := by
  have h' := h.append [a]
  cases hacts with
  | idle => exact ⟨h', by simp⟩
  | begin elapsed hfree =>
    rename_i thread domain
    refine ⟨⟨h'.cache, ?_⟩, by simp⟩
    intro t c hc
    simp only [State.setCall] at hc
    split at hc
    · rw [← Option.some.inj hc]
      exact .of_carries_none (by simp [hcount]) rfl
    · exact h'.calls t c hc
  | miss hcall hphase hnone =>
    exact ⟨h'.goOn (.of_carries_none (h'.calls _ _ hcall).since rfl), by simp⟩
  | expire hcall hphase hcached hexpired =>
    refine ⟨(h'.setEntry _ (by simp)).goOn (.of_carries_none (h'.calls _ _ hcall).since rfl), by simp⟩
  | hit hcall hphase hcached =>
    refine ⟨h'.finish _, ?_⟩
    simpa [State.finish] using h'.cache _ _ hcached
  | due hcall hphase hcached =>
    have htraced := h'.cache _ _ hcached
    refine ⟨(h'.setEntry _ ?_).goOn (.of_snapshot (h'.calls _ _ hcall).since rfl htraced), by simp⟩
    intro entry hentry
    rw [← Option.some.inj hentry]
    exact htraced
  | fallBack hcall hphase =>
    refine ⟨h'.finish _, ?_⟩
    simpa [State.finish] using (h'.calls _ _ hcall).carried _ (Phase.carries_of_snapshot hphase)
  | changed hcall hphase =>
    have hcalled := h'.calls _ _ hcall
    have htraced := hcalled.carried _ (by rw [hphase]; rfl)
    exact ⟨h'.goOn (.of_snapshot hcalled.since rfl htraced), by simp⟩
  | found hcall hphase =>
    exact ⟨h'.goOn (.of_carries_none (h'.calls _ _ hcall).since rfl), by simp⟩
  | fail hcall hphase =>
    refine ⟨h'.goOn ⟨(h'.calls _ _ hcall).since, ?_, ?_⟩, by simp⟩
    · intro entry hentry k hk
      rw [← Option.some.inj hentry] at hk
      cases hk
    · intro entry k hentry hk
      rw [← Phase.storing.inj hentry] at hk
      cases hk
  | fetch hcall hphase hfetch =>
    rename_i thread call id answer policy maxAge
    -- the stamp is the number of this step
    have hlast : (steps ++ [Step.https thread answer])[s.steps]? = some (Step.https thread answer) := by
      rw [hcount, List.getElem?_append_right (Nat.le_refl _), Nat.sub_self]
      rfl
    refine ⟨h'.goOn ⟨(h'.calls _ _ hcall).since, ?_, ?_⟩, by simp⟩
    · intro entry hentry k hk
      rw [← Option.some.inj hentry] at hk ⊢
      rw [← Option.some.inj hk]
      exact ⟨thread, answer, maxAge, hlast, hfetch⟩
    · intro entry k hentry hk
      rw [← Phase.storing.inj hentry] at hk ⊢
      rw [← Option.some.inj hk]
      exact ⟨answer, maxAge, hlast, hfetch, rfl⟩
  | store hcall hphase =>
    have htraced := (h'.calls _ _ hcall).carried _ (by rw [hphase]; rfl)
    refine ⟨(h'.setEntry _ ?_).finish _, ?_⟩
    · intro entry hentry
      rw [← Option.some.inj hentry]
      exact htraced
    · simpa [State.finish] using htraced

theorem stamped_step {steps : List Step} (h : Stamped env steps s) (hcount : s.steps = steps.length) (a : Step) :
    Stamped env (steps ++ [a]) (step env s a).1 ∧ (step env s a).1.steps = (steps ++ [a]).length ∧
      ∀ x ∈ (step env s a).2, Traced env (steps ++ [a]) x.policy x.fetched := by
  obtain ⟨hstamped, htraced⟩ := stamped_act h hcount (acts env s a)
  refine ⟨⟨hstamped.cache, hstamped.calls⟩, ?_, htraced⟩
  simp [step, hcount]

/-- Along a run every stamp names the step that fetched the policy. -/
theorem stamped_run (more : List Step) : ∀ {steps : List Step} {s : State}, Stamped env steps s → s.steps = steps.length →
    Stamped env (steps ++ more) (run env s more).1 ∧ (run env s more).1.steps = (steps ++ more).length ∧
      ∀ x ∈ (run env s more).2, Traced env (steps ++ more) x.policy x.fetched := by
  induction more with
  | nil =>
    intro steps s h hcount
    simpa [run] using ⟨h, hcount⟩
  | cons a more ih =>
    intro steps s h hcount
    obtain ⟨hstep, hnext, hreturned⟩ := stamped_step h hcount a
    obtain ⟨hrun, hlast, hlater⟩ := ih hstep hnext
    rw [List.append_assoc, List.singleton_append] at hrun hlast hlater
    refine ⟨hrun, hlast, ?_⟩
    intro x hx
    simp only [run, List.mem_append, Option.mem_toList] at hx
    obtain hx | hx := hx
    · have happend := (hreturned x hx).append more
      rwa [List.append_assoc, List.singleton_append] at happend
    · exact hlater x hx

theorem stamped_init : Stamped env [] {} := ⟨by simp, by simp⟩

/-! ## The condition -/

/-- A call of this key may still look for an entry that lives until `expires`:
    the clock has not reached it, or a call that read the clock earlier has not
    read the cache yet. -/
def Awaited (s : State) (key : WString) (expires : Nat) : Prop :=
  s.clock < expires ∨
    ∃ t call, s.calls t = some call ∧ call.phase = .began ∧ call.key = key ∧ call.now < expires

/-- The step does not touch a policy fetched at step `k` that lives until
    `expires`: while the policy is awaited, no read finds the entry of the key
    expired, and nothing is stored under the key but a policy fetched later. -/
def Keeps (key : WString) (expires k : Nat) (s : State) : Step → Prop
  | .read thread => ∀ call cached, s.calls thread = some call → call.phase = .began → call.key = key →
      s.cache key = some cached → cached.expiresAt ≤ call.now → ¬ Awaited s key expires
  | .store thread => ∀ call entry, s.calls thread = some call → call.phase = .storing entry → call.key = key →
      Awaited s key expires → ∃ later, k < later ∧ entry.fetched = some later
  | _ => True

/-- Every step of a run keeps the policy, in the state it meets. -/
def KeepsAlong (env : Environment) (key : WString) (expires k : Nat) : State → List Step → Prop
  | _, [] => True
  | s, a :: rest => Keeps key expires k s a ∧ KeepsAlong env key expires k (step env s a).1 rest

/-- Only a call that has not read the cache keeps a passed policy awaited. -/
theorem awaited_of_act {key : WString} {expires : Nat} (hacts : Acts env s a s' r) (h : Awaited s' key expires) :
    Awaited s key expires := by
  -- A call that goes on is no longer at its beginning.
  have hgoOn : ∀ {u : State} {thread call phase}, Awaited (u.goOn thread call phase).1 key expires → phase ≠ .began →
      u.calls = s.calls → u.clock = s.clock → Awaited s key expires := by
    intro u thread call phase hawaited hphase hcalls hclock
    obtain hbefore | ⟨t, c, hc, hbegan, hkey, hnow⟩ := hawaited
    · exact .inl (hclock ▸ hbefore)
    · obtain ⟨_, rfl⟩ | hold := goOn_calls hc
      · exact absurd hbegan hphase
      · exact .inr ⟨t, c, hcalls ▸ hold, hbegan, hkey, hnow⟩
  have hfinish : ∀ {u : State} {thread call entry}, Awaited (u.finish thread call entry).1 key expires →
      u.calls = s.calls → u.clock = s.clock → Awaited s key expires := by
    intro u thread call entry hawaited hcalls hclock
    obtain hbefore | ⟨t, c, hc, hbegan⟩ := hawaited
    · exact .inl (hclock ▸ hbefore)
    · exact .inr ⟨t, c, hcalls ▸ finish_calls hc, hbegan⟩
  cases hacts with
  | idle => exact h
  | begin elapsed hfree =>
    obtain hbefore | ⟨t, c, hc, hbegan, hkey, hnow⟩ := h
    · exact .inl (Nat.lt_of_le_of_lt (Nat.le_add_right _ elapsed) hbefore)
    · simp only [State.setCall] at hc
      split at hc
      · rw [← Option.some.inj hc] at hnow
        exact .inl (Nat.lt_of_le_of_lt (Nat.le_add_right _ elapsed) hnow)
      · exact .inr ⟨t, c, hc, hbegan, hkey, hnow⟩
  | miss | expire | due | changed | found | fail | fetch => exact hgoOn h (by simp) rfl rfl
  | hit | fallBack | store => exact hfinish h rfl rfl

/-! ## The invariant -/

section Kept

variable (key : WString) (expires k first : Nat) (policy : StsPolicy)

/-- The policy itself, or one fetched later. -/
def Good (p : StsPolicy) (fetched : Option Nat) : Prop :=
  (fetched = some k ∧ p = policy) ∨ ∃ later, k < later ∧ fetched = some later

/-- A call that began in the period has not missed the policy. -/
def GoodPhase : Phase → Prop
  | .began => True
  | .looking => False
  | .fetching _ => False
  | .revalidating cached => Good k policy cached.policy cached.fetched
  | .refetching cached _ => Good k policy cached.policy cached.fetched
  | .storing entry => Good k policy entry.policy entry.fetched

/-- The call is for the key, began after the store and read the clock in the
    period. -/
def Covered (call : Call) : Prop := call.key = key ∧ first ≤ call.since ∧ call.now < expires

structure Kept (s : State) : Prop where
  newer : k < s.steps
  held : Awaited s key expires → ∃ entry, s.cache key = some entry ∧ Good k policy entry.policy entry.fetched
  calls : ∀ t call, s.calls t = some call → Covered key expires first call → GoodPhase k policy call.phase

variable {key expires k first policy} {thread : Nat} {call : Call}

/-- The calls part of the invariant after a call went on. -/
theorem good_goOn (h : ∀ t c, s.calls t = some c → Covered key expires first c → GoodPhase k policy c.phase)
    {phase : Phase} (hphase : Covered key expires first call → GoodPhase k policy phase) :
    ∀ t c, (s.goOn thread call phase).1.calls t = some c → Covered key expires first c → GoodPhase k policy c.phase := by
  intro t c hc hcovered
  obtain ⟨_, rfl⟩ | hold := goOn_calls hc
  · exact hphase hcovered
  · exact h t c hold hcovered

theorem good_snapshot {phase : Phase} {cached : CachedStsPolicy} (hgood : GoodPhase k policy phase)
    (h : phase.snapshot = some cached) : Good k policy cached.policy cached.fetched := by
  cases phase <;> simp_all [Phase.snapshot, GoodPhase]

/-- A call in the period that has not read the cache finds the policy there. -/
theorem Kept.finds (h : Kept key expires k first policy s) (hcall : s.calls thread = some call)
    (hphase : call.phase = .began) (hcovered : Covered key expires first call) :
    ∃ entry, s.cache call.key = some entry ∧ Good k policy entry.policy entry.fetched := by
  rw [hcovered.1]
  exact h.held (.inr ⟨thread, call, hcall, hphase, hcovered.1, hcovered.2.2⟩)

/-- What a step keeps of the cache and the calls, and what it returns. -/
theorem kept_act (h : Kept key expires k first policy s) (hkeeps : Keeps key expires k s a) (hacts : Acts env s a s' r) :
    (Awaited s' key expires → ∃ entry, s'.cache key = some entry ∧ Good k policy entry.policy entry.fetched) ∧
    (∀ t c, s'.calls t = some c → Covered key expires first c → GoodPhase k policy c.phase) ∧
    ∀ x ∈ r, x.key = key → first ≤ x.since → x.now < expires → Good k policy x.policy x.fetched := by
  have hback := fun hawaited : Awaited s' key expires => awaited_of_act hacts hawaited
  cases hacts with
  | idle => exact ⟨h.held, h.calls, by simp⟩
  | begin elapsed hfree =>
    refine ⟨fun hawaited => h.held (hback hawaited), ?_, by simp⟩
    intro t c hc hcovered
    simp only [State.setCall] at hc
    split at hc
    · rw [← Option.some.inj hc]
      trivial
    · exact h.calls t c hc hcovered
  | miss hcall hphase hnone =>
    refine ⟨fun hawaited => h.held (hback hawaited), good_goOn h.calls ?_, by simp⟩
    intro hcovered
    obtain ⟨entry, hentry, _⟩ := h.finds hcall hphase hcovered
    rw [hnone] at hentry
    cases hentry
  | expire hcall hphase hcached hexpired =>
    rename_i thread call cached
    by_cases hkey : call.key = key
    · -- the entry of the key is erased only when nobody awaits it
      have hpassed := hkeeps call cached hcall hphase hkey (hkey ▸ hcached) hexpired
      refine ⟨fun hawaited => absurd (hback hawaited) hpassed, good_goOn h.calls ?_, by simp⟩
      intro hcovered
      exact absurd (.inr ⟨thread, call, hcall, hphase, hkey, hcovered.2.2⟩) hpassed
    · refine ⟨?_, good_goOn h.calls fun hcovered => absurd hcovered.1 hkey, by simp⟩
      intro hawaited
      rw [goOn_cache, setEntry_cache, if_neg (Ne.symm hkey)]
      exact h.held (hback hawaited)
  | hit hcall hphase hcached =>
    refine ⟨fun hawaited => h.held (hback hawaited), fun t c hc => h.calls t c (finish_calls hc), ?_⟩
    intro x hx hkey hsince hnow
    rw [← Option.some.inj (Option.mem_def.1 hx)] at hkey hsince hnow ⊢
    obtain ⟨entry, hentry, hgood⟩ := h.finds hcall hphase ⟨hkey, hsince, hnow⟩
    rw [hcached] at hentry
    cases hentry
    exact hgood
  | due hcall hphase hcached =>
    rename_i thread call cached
    refine ⟨?_, good_goOn h.calls ?_, by simp⟩
    · intro hawaited
      obtain ⟨entry, hentry, hgood⟩ := h.held (hback hawaited)
      rw [goOn_cache, setEntry_cache]
      split
      · rename_i hkey
        rw [hkey, hcached] at hentry
        cases hentry
        exact ⟨_, rfl, hgood⟩
      · exact ⟨entry, hentry, hgood⟩
    · intro hcovered
      obtain ⟨entry, hentry, hgood⟩ := h.finds hcall hphase hcovered
      rw [hcached] at hentry
      cases hentry
      exact hgood
  | fallBack hcall hphase =>
    refine ⟨fun hawaited => h.held (hback hawaited), fun t c hc => h.calls t c (finish_calls hc), ?_⟩
    intro x hx hkey hsince hnow
    rw [← Option.some.inj (Option.mem_def.1 hx)] at hkey hsince hnow ⊢
    exact good_snapshot (h.calls _ _ hcall ⟨hkey, hsince, hnow⟩) hphase
  | changed hcall hphase =>
    refine ⟨fun hawaited => h.held (hback hawaited), good_goOn h.calls ?_, by simp⟩
    intro hcovered
    exact good_snapshot (h.calls _ _ hcall hcovered) (by rw [hphase]; rfl)
  | found hcall hphase =>
    refine ⟨fun hawaited => h.held (hback hawaited), good_goOn h.calls ?_, by simp⟩
    intro hcovered
    have hgood := h.calls _ _ hcall hcovered
    rw [hphase] at hgood
    exact hgood
  | fail hcall hphase =>
    -- a call in the period never came to look
    refine ⟨fun hawaited => h.held (hback hawaited), good_goOn h.calls ?_, by simp⟩
    intro hcovered
    have hgood := h.calls _ _ hcall hcovered
    obtain hphase | ⟨policyId, hphase⟩ := hphase <;>
    · rw [hphase] at hgood
      exact hgood.elim
  | fetch hcall hphase hfetch =>
    refine ⟨fun hawaited => h.held (hback hawaited), good_goOn h.calls ?_, by simp⟩
    intro _
    exact .inr ⟨s.steps, h.newer, rfl⟩
  | store hcall hphase =>
    rename_i thread call entry
    have hcalls : ∀ t c, ((s.setEntry call.key (some entry)).finish thread call entry).1.calls t = some c →
        s.calls t = some c := by
      intro t c hc
      have hold := finish_calls hc
      exact hold
    refine ⟨?_, fun t c hc => h.calls t c (hcalls t c hc), ?_⟩
    · intro hawaited
      rw [finish_cache, setEntry_cache]
      split
      · rename_i hkey
        exact ⟨entry, rfl, .inr (hkeeps call entry hcall hphase hkey.symm (hback hawaited))⟩
      · exact h.held (hback hawaited)
    · intro x hx hkey hsince hnow
      rw [← Option.some.inj (Option.mem_def.1 hx)] at hkey hsince hnow ⊢
      have hgood := h.calls _ _ hcall ⟨hkey, hsince, hnow⟩
      rw [hphase] at hgood
      exact hgood

theorem kept_step (h : Kept key expires k first policy s) (hkeeps : Keeps key expires k s a) :
    Kept key expires k first policy (step env s a).1 ∧
      ∀ x ∈ (step env s a).2, x.key = key → first ≤ x.since → x.now < expires → Good k policy x.policy x.fetched := by
  obtain ⟨hheld, hcalls, hreturned⟩ := kept_act h hkeeps (acts env s a)
  exact ⟨⟨Nat.lt_succ_of_lt h.newer, hheld, hcalls⟩, hreturned⟩

theorem kept_run (steps : List Step) : ∀ {s : State}, Kept key expires k first policy s →
    KeepsAlong env key expires k s steps →
    ∀ x ∈ (run env s steps).2, x.key = key → first ≤ x.since → x.now < expires → Good k policy x.policy x.fetched := by
  induction steps with
  | nil =>
    intro s _ _ x hx
    cases hx
  | cons a steps ih =>
    intro s h hkeeps x hx
    obtain ⟨hnext, hreturned⟩ := kept_step h hkeeps.1
    simp only [run, List.mem_append, Option.mem_toList] at hx
    obtain hx | hx := hx
    · exact hreturned x hx
    · exact ih hnext hkeeps.2 x hx

end Kept

/-! ## The store and every call after it -/

theorem run_append (steps more : List Step) : ∀ s : State,
    (run env s (steps ++ more)).1 = (run env (run env s steps).1 more).1 := by
  induction steps with
  | nil =>
    intro s
    rfl
  | cons a steps ih =>
    intro s
    exact ih _

/-- The policy is kept at the moment it is stored: no call has begun since. -/
theorem kept_store {before : List Step} {thread k : Nat} {call : Call} {entry : CachedStsPolicy}
    (hstamped : Stamped env before s) (hcount : s.steps = before.length)
    (hcall : s.calls thread = some call) (hphase : call.phase = .storing entry) (hfetched : entry.fetched = some k) :
    Kept call.key entry.expiresAt k (before.length + 1) entry.policy (step env s (.store thread)).1 := by
  obtain ⟨hnext, hsteps, _⟩ := stamped_step hstamped hcount (.store thread)
  obtain ⟨_, _, hk, _⟩ := (hstamped.calls _ _ hcall).storing entry k hphase hfetched
  have hk := (List.getElem?_eq_some_iff.1 hk).1
  refine ⟨?_, ?_, ?_⟩
  · rw [hsteps, List.length_append]
    omega
  · intro _
    refine ⟨entry, ?_, .inl ⟨hfetched, rfl⟩⟩
    simp only [step, act, hcall, hphase, finish_cache, setEntry_cache, if_true]
  · intro t c hc hcovered
    have hsince := (hnext.calls t c hc).since
    have hlate := hcovered.2.1
    rw [List.length_append, List.length_singleton] at hsince
    omega

/-- Every call for the domain that starts after the store and in the period of
    the stored policy returns that policy, or one fetched later. -/
def ReturnsPolicy (env : Environment) (before : List Step) (thread : Nat) (after : List Step) (call : Call)
    (entry : CachedStsPolicy) (k : Nat) : Prop :=
  ∀ x ∈ (run env (run env {} (before ++ [.store thread])).1 after).2,
    x.key = call.key → before.length < x.since → x.now < entry.expiresAt →
      x.policy = entry.policy ∨ ∃ later, k < later ∧ FetchedAt env (before ++ .store thread :: after) later x.policy

/-- After any run, let a call store a policy that it fetched. The policy came
    from a body of that call and lives for the age the body gave from the
    call's reading of the clock. In every continuation whose steps keep it, the
    calls that start in its period return it or a later one. -/
theorem sts_policy_kept (env : Environment) (before after : List Step) (thread : Nat) (call : Call)
    (entry : CachedStsPolicy) (k : Nat) (hcall : (run env {} before).1.calls thread = some call)
    (hphase : call.phase = .storing entry) (hfetched : entry.fetched = some k)
    (hkeeps : KeepsAlong env call.key entry.expiresAt k (run env {} (before ++ [.store thread])).1 after) :
    StoresFetched env before thread call entry k ∧ ReturnsPolicy env before thread after call entry k := by
  have hinit : Stamped env [] {} := stamped_init
  obtain ⟨hstamped, hcount, _⟩ := stamped_run before hinit rfl
  rw [List.nil_append] at hstamped hcount
  have hstore : (run env {} (before ++ [.store thread])).1 = (step env (run env {} before).1 (.store thread)).1 :=
    run_append before [.store thread] {}
  refine ⟨(hstamped.calls _ _ hcall).storing entry k hphase hfetched, ?_⟩
  intro x hx hkey hsince hnow
  have hkept := kept_store hstamped hcount hcall hphase hfetched
  rw [← hstore] at hkept
  obtain ⟨_, hpolicy⟩ | ⟨later, hlater, hstamp⟩ := kept_run after hkept hkeeps x hx hkey hsince hnow
  · exact .inl hpolicy
  · -- the stamp of what was returned names its fetch
    obtain ⟨hnext, hsteps, _⟩ := stamped_step hstamped hcount (.store thread)
    rw [← hstore] at hnext hsteps
    obtain ⟨_, _, htraced⟩ := stamped_run after hnext hsteps
    have hfetch := htraced x hx later hstamp
    rw [List.append_assoc, List.singleton_append] at hfetch
    exact .inr ⟨later, hlater, hfetch⟩

/-- An environment for ASCII text. -/
def asciiEnvironment : Environment where
  loc := classicLocale
  narrow := List.map UInt8.ofNat
  widen := List.map UInt8.toNat
  atoi value := min (AnsiString.digitsValue value) (2 ^ 31 - 1)

def enforceBody : AnsiString := ansi "version: STSv1\nmode: enforce\nmx: mx.example.com\nmax_age: 86400\n"

/-- Two threads find the cache empty; the second fetches an enforce policy. -/
def missedTwice : List Step :=
  [.begin 1 (wide "example.com") 1000, .begin 2 (wide "example.com") 0, .read 1, .read 2,
    .dns 2 (some [wide "v=STSv1; id=1"]), .https 2 (some enforceBody)]

def enforceEntry : CachedStsPolicy where
  policy := { mode := .enforce, mxPatterns := [wide "mx.example.com"] }
  id := ansi "1"
  expiresAt := 87400
  revalidateAt := 4600
  fetched := some 5

def storingCall : Call where
  key := wide "example.com"
  now := 1000
  since := 1
  phase := .storing enforceEntry

/-- The first thread fetches the policy too, and a third call finds that one. -/
def fetchedAgain : List Step :=
  [.dns 1 (some [wide "v=STSv1; id=1"]), .https 1 (some enforceBody), .store 1, .begin 3 (wide "example.com") 10, .read 3]

theorem sts_policy_kept_fetched_again :
    StoresFetched asciiEnvironment missedTwice 2 storingCall enforceEntry 5 ∧
      ReturnsPolicy asciiEnvironment missedTwice 2 fetchedAgain storingCall enforceEntry 5 := by
  refine sts_policy_kept asciiEnvironment missedTwice fetchedAgain 2 storingCall enforceEntry 5 (by decide +kernel) rfl rfl ?_
  refine ⟨trivial, trivial, ?_, trivial, ?_, trivial⟩
  · intro call entry hcall hphase _ _
    have hcalled : (run asciiEnvironment {} (missedTwice ++ .store 2 :: fetchedAgain.take 2)).1.calls 1 =
        some { storingCall with since := 0, phase := .storing { enforceEntry with fetched := some 8 } } := by decide +kernel
    rw [← Option.some.inj (hcalled.symm.trans hcall)] at hphase
    rw [← Phase.storing.inj hphase]
    exact ⟨8, by decide, rfl⟩
  · intro call cached hcall _ _ hcached hexpired
    have hcalled : (run asciiEnvironment {} (missedTwice ++ .store 2 :: fetchedAgain.take 4)).1.calls 3 =
        some { key := wide "example.com", now := 1010, since := 10, phase := .began } := by decide +kernel
    have hheld : (run asciiEnvironment {} (missedTwice ++ .store 2 :: fetchedAgain.take 4)).1.cache (wide "example.com") =
        some { enforceEntry with fetched := some 8 } := by decide +kernel
    rw [← Option.some.inj (hcalled.symm.trans hcall), ← Option.some.inj (hheld.symm.trans hcached)] at hexpired
    exact absurd hexpired (by decide)

/-- The first thread's lookup fails after the policy was stored; its negative
    entry replaces the policy, and a third call returns no policy. -/
def lookupFails : List Step :=
  [.dns 1 none, .store 1, .begin 3 (wide "example.com") 10, .read 3]

theorem sts_policy_lost :
    (run asciiEnvironment {} missedTwice).1.calls 2 = some storingCall ∧ storingCall.phase = .storing enforceEntry ∧
      enforceEntry.fetched = some 5 ∧ enforceEntry.policy.mode = .enforce ∧
      ¬ ReturnsPolicy asciiEnvironment missedTwice 2 lookupFails storingCall enforceEntry 5 := by
  refine ⟨by decide +kernel, rfl, rfl, rfl, ?_⟩
  intro h
  have hlast := h { key := wide "example.com", now := 1010, since := 9, policy := {}, fetched := none } (by decide +kernel)
    rfl (by decide) (by decide)
  obtain hsame | ⟨later, hlater, thread, answer, maxAge, hstep, _⟩ := hlast
  · cases hsame
  · -- nothing is fetched in the rest of the run
    have hbound := (List.getElem?_eq_some_iff.1 hstep).1
    simp only [missedTwice, lookupFails, List.length_append, List.length_cons, List.length_nil] at hbound
    interval_cases later <;> cases hstep

end HMailServer.TlsPolicy
