import HMailServer.Util.AccountLockout

/- When a name is locked. What the table holds of a name, in a list of failures and
   a time, is what the sliding window of `SlidingLock` still holds of the failures
   since the name's last success, as long as the table takes new names. -/
namespace HMailServer.AccountLockout
open SlidingLock

/-- The failures of the names in question since their last success, newest first. -/
def failuresSince (same : WString → Bool) : List Call → List Nat
  | [] => []
  | .recordFailureAt username now :: older =>
    if same username then now :: failuresSince same older else failuresSince same older
  | .recordSuccess username :: older => if same username then [] else failuresSince same older
  | .isLockedOutAt _ _ :: older => failuresSince same older

/-- The calls bring a clock that never goes back. -/
def Ordered (calls : List Call) : Prop := (calls.filterMap Call.now).Pairwise (· ≤ ·)

instance (calls : List Call) : Decidable (Ordered calls) := inferInstanceAs (Decidable (List.Pairwise _ _))

/-- The table takes a new name at every call. -/
def BelowCap (naming : Naming) (rule : Rule) (calls : List Call) : Prop :=
  ∀ earlier, earlier <+: calls → size (run naming rule earlier).entries < kMaxEntries

/-! ## One entry -/

/-- An entry holds what the window holds of the failures. -/
structure Tracks (r : Rule) (failures : List Nat) (now : Nat) (entry : Entry) : Prop where
  sorted : failures.Pairwise (· ≥ ·)
  past : ∀ g ∈ failures, g ≤ now
  held : ∃ t ≤ now, entry.failures = (pending r failures t).reverse
  ended : entry.lockedUntil = 0 → ∀ l ∈ locks r failures, l + r.duration ≤ now
  locked : entry.lockedUntil ≠ 0 → entry.failures = [] ∧
    ∃ f ∈ locks r failures, f ≤ now ∧ entry.lockedUntil = f + r.duration ∧ ∀ l ∈ locks r failures, l ≤ f

variable {r : Rule} {failures : List Nat} {now t : Nat} {entry : Entry}

theorem Tracks.empty (now : Nat) : Tracks r [] now {} where
  sorted := List.Pairwise.nil
  past _ hg := absurd hg List.not_mem_nil
  held := ⟨now, Nat.le_refl now, rfl⟩
  ended _ _ hl := absurd hl List.not_mem_nil
  locked h := absurd rfl h

theorem Tracks.later (h : Tracks r failures now entry) (hnow : now ≤ t) : Tracks r failures t entry where
  sorted := h.sorted
  past g hg := Nat.le_trans (h.past g hg) hnow
  held := h.held.imp fun _ hp => ⟨Nat.le_trans hp.1 hnow, hp.2⟩
  ended hz l hl := Nat.le_trans (h.ended hz l hl) hnow
  locked hz := by
    obtain ⟨hnil, f, hf, hpast, heq, hlast⟩ := h.locked hz
    exact ⟨hnil, f, hf, Nat.le_trans hpast hnow, heq, hlast⟩

/-- Pruning moves the window on, and ends a lock that has expired. -/
theorem prune_spec (h : Tracks r failures now entry) (hnow : now ≤ t) :
    prune entry t r.window =
      ⟨(pending r failures t).reverse, if entry.lockedUntil ≤ t then 0 else entry.lockedUntil⟩ := by
  obtain ⟨p, hp, hheld⟩ := h.held
  have hdated : (entry.failures.map fun failure => min failure t) = entry.failures := by
    rw [List.map_congr_left (g := id), List.map_id]
    intro g hg
    rw [hheld, List.mem_reverse] at hg
    have := h.past g (List.mem_of_mem_filter hg)
    exact Nat.min_eq_left (by omega)
  have hlive := dropWhile_pending (r := r) h.sorted (Nat.le_trans hp hnow)
  rw [← hheld] at hlive
  rw [prune, hdated, hlive]
  by_cases hlocked : entry.lockedUntil = 0
  · rw [hlocked, if_neg (by omega), if_pos (Nat.zero_le t)]
  · by_cases hexpired : entry.lockedUntil ≤ t
    · -- nothing was counted during the lock
      rw [if_pos ⟨Nat.pos_of_ne_zero hlocked, hexpired⟩, if_pos hexpired, ← hlive, (h.locked hlocked).1]
      rfl
    · rw [if_neg (by omega), if_neg hexpired]

/-- Outside a lock a failure counts. -/
theorem Tracks.counts (h : Tracks r failures now entry) (hnow : now ≤ t) (hopen : entry.lockedUntil ≤ t) :
    counts r (locks r failures) t = true := by
  rw [counts_iff]
  intro l hl
  by_cases hzero : entry.lockedUntil = 0
  · exact Nat.le_trans (h.ended hzero l hl) hnow
  · obtain ⟨_, f, _, _, heq, hlast⟩ := h.locked hzero
    have := hlast l hl
    omega

/-- During a lock it does not. -/
theorem Tracks.not_counts (h : Tracks r failures now entry) (hlocked : t < entry.lockedUntil) :
    SlidingLock.counts r (locks r failures) t = false := by
  obtain ⟨_, f, hf, _, heq, _⟩ := h.locked (by omega)
  rw [← Bool.not_eq_true, counts_iff]
  intro hall
  have := hall f hf
  omega

/-- What the settings have to be for the rule to be kept. -/
structure Sound (r : Rule) : Prop where
  threshold_pos : 0 < r.threshold
  threshold_le : r.threshold ≤ kMaxFailuresPerName
  window_pos : 0 < r.window
  duration_pos : 0 < r.duration

/-- A failure. -/
theorem tracks_recordFailure (hr : Sound r) (h : Tracks r failures now entry) (hnow : now ≤ t) :
    Tracks r (t :: failures) t (recordFailure entry t r.threshold r.window r.duration) := by
  have hpast : ∀ g ∈ failures, g ≤ t := fun g hg => Nat.le_trans (h.past g hg) hnow
  have hsorted : (t :: failures).Pairwise (· ≥ ·) := List.pairwise_cons.2 ⟨hpast, h.sorted⟩
  have hpast' : ∀ g ∈ t :: failures, g ≤ t := List.forall_mem_cons.2 ⟨Nat.le_refl t, hpast⟩
  rw [recordFailure, prune_spec h hnow]
  dsimp only
  by_cases hlocked : t < entry.lockedUntil
  · -- refused without being counted
    have hcounts := h.not_counts hlocked
    have hlocks : locks r (t :: failures) = locks r failures := by
      rw [locks, hcounts, if_neg (by simp)]
    have hpending : pending r (t :: failures) t = pending r failures t := by
      rw [pending_unlocked hlocks, hcounts]
      rfl
    rw [if_neg (Nat.not_le.2 hlocked), if_pos hlocked]
    obtain ⟨hnil, f, hf, hfnow, heq, hlast⟩ := h.locked (by omega)
    obtain ⟨p, hp, hheld⟩ := h.held
    have hempty : pending r failures t = [] := by
      rw [hnil, eq_comm, List.reverse_eq_nil_iff] at hheld
      have hsub := pending_sublist (r := r) failures (Nat.le_trans hp hnow)
      rwa [hheld, List.sublist_nil] at hsub
    refine ⟨hsorted, hpast', ⟨t, Nat.le_refl t, by rw [hpending]⟩, fun hzero => ?_, fun _ => ?_⟩
    · exact absurd hzero (by show entry.lockedUntil ≠ 0; omega)
    · rw [hlocks, hempty]
      exact ⟨rfl, f, hf, by omega, heq, hlast⟩
  · have hopen : entry.lockedUntil ≤ t := Nat.le_of_not_lt hlocked
    have hcounts := h.counts hnow hopen
    have hcount := pending_cons_of_counts hcounts hr.window_pos
    have hfew := length_pending_lt hr.threshold_pos hr.window_pos hr.duration_pos h.sorted hpast
    have hmax := hr.threshold_le
    have hlength : ((pending r failures t).reverse ++ [t]).length = (pending r failures t).length + 1 := by simp
    rw [if_pos hopen, if_neg (Nat.not_lt_zero t), hlength, Nat.sub_eq_zero_of_le (by omega), List.drop_zero, hlength]
    by_cases hfull : (pending r failures t).length + 1 = r.threshold
    · -- the threshold-th failure locks, and the window starts again
      have hlocks : locks r (t :: failures) = t :: locks r failures := by
        rw [locks, if_pos ⟨hcounts, hcount.trans hfull⟩]
      rw [if_pos (by omega)]
      refine ⟨hsorted, hpast', ⟨t, Nat.le_refl t, ?_⟩, fun hzero => ?_, fun _ => ?_⟩
      · rw [pending_locked hpast hr.duration_pos hlocks]
        rfl
      · have := hr.duration_pos
        exact absurd hzero (by show t + r.duration ≠ 0; omega)
      · rw [hlocks]
        refine ⟨rfl, t, List.mem_cons_self, Nat.le_refl t, rfl, fun l hl => ?_⟩
        obtain rfl | hl := List.mem_cons.1 hl
        · exact Nat.le_refl l
        · exact hpast l (mem_of_mem_locks hl)
    · have hlocks : locks r (t :: failures) = locks r failures := by
        rw [locks, if_neg fun hboth => hfull (hcount.symm.trans hboth.2)]
      have hwindow := hr.window_pos
      have hpending : pending r (t :: failures) t = t :: pending r failures t := by
        rw [pending_unlocked hlocks, hcounts, if_pos (by simpa using hwindow)]
      rw [if_neg (by omega)]
      refine ⟨hsorted, hpast', ⟨t, Nat.le_refl t, ?_⟩, fun _ => ?_, fun hne => absurd rfl hne⟩
      · rw [hpending, List.reverse_cons]
      · rw [hlocks]
        exact counts_iff.1 hcounts

/-- What a query reads off the entry. -/
theorem lt_lockedUntil_iff (h : Tracks r failures now entry) (hnow : now ≤ t) :
    t < entry.lockedUntil ↔ Locked r failures t := by
  constructor
  · intro hlocked
    obtain ⟨_, f, hf, hfnow, heq, _⟩ := h.locked (by omega)
    exact ⟨f, hf, by omega, by omega⟩
  · intro hlocked
    obtain ⟨f, hf, hft, hduring⟩ := hlocked
    by_cases hzero : entry.lockedUntil = 0
    · have := h.ended hzero f hf
      omega
    · obtain ⟨_, g, _, _, heq, hlast⟩ := h.locked hzero
      have := hlast f hf
      omega

/-- A clock that does not go back leaves the lock its length. -/
theorem min_lockedUntil (h : Tracks r failures now entry) (hnow : now ≤ t) :
    min entry.lockedUntil (t + r.duration) = entry.lockedUntil := by
  by_cases hzero : entry.lockedUntil = 0
  · omega
  · obtain ⟨_, f, _, hfnow, heq, _⟩ := h.locked hzero
    omega

/-! ## The table -/

section Table

variable (naming : Naming) (s : State) (key username : WString)

/-- The entry of a name; a name without one has an empty one. -/
def entryOf (s : State) (key : WString) : Entry := (s.entries.lookup key).getD {}

variable {naming s key username}

theorem entryOf_insert (entry : Entry) (last : Nat) (reported : Bool) :
    entryOf { entries := s.entries.insert key entry, lastSweepTime := last, tableFullReported := reported } key = entry := by
  rw [entryOf, AList.lookup_insert]
  rfl

theorem entryOf_insert_ne {other : WString} (hne : key ≠ other) (entry : Entry) (last : Nat) (reported : Bool) :
    entryOf { entries := s.entries.insert other entry, lastSweepTime := last, tableFullReported := reported } key =
      entryOf s key := by
  rw [entryOf, AList.lookup_insert_ne hne]
  rfl

theorem entryOf_recordFailureAt (hkey : naming.normalizeKey username = key) (hne : key ≠ [])
    (hthreshold : 0 < r.threshold) (hcap : size s.entries < kMaxEntries) (now : Nat) :
    entryOf (recordFailureAt naming s username now r.threshold r.window r.duration) key =
      recordFailure (entryOf s key) now r.threshold r.window r.duration := by
  rw [recordFailureAt, hkey, if_neg (by simp [hne]; omega)]
  cases hlookup : s.entries.lookup key with
  | some entry =>
    dsimp only
    rw [entryOf_insert, entryOf, hlookup]
    rfl
  | none =>
    have hsweep : ¬(kMaxEntries ≤ size s.entries ∧
        (now < s.lastSweepTime ∨ kMinSweepIntervalSeconds ≤ now - s.lastSweepTime)) := by omega
    dsimp only
    rw [if_neg hsweep, if_neg (Nat.not_le.2 hcap), entryOf_insert, entryOf, hlookup]
    rfl

theorem entryOf_recordSuccess (hkey : naming.normalizeKey username = key) (hne : key ≠ []) :
    entryOf (recordSuccess naming s username) key = {} := by
  rw [recordSuccess, hkey, if_neg (by simpa using hne), entryOf, AList.lookup_erase]
  rfl

theorem isLockedOutAt_spec (hkey : naming.normalizeKey username = key) (hne : key ≠ []) (hnow : now ≤ t)
    (h : Tracks r failures now (entryOf s key)) :
    (isLockedOutAt naming s username t r.duration).1 = decide (t < (entryOf s key).lockedUntil) ∧
      entryOf (isLockedOutAt naming s username t r.duration).2 key = entryOf s key := by
  have hmin := min_lockedUntil h hnow
  rw [isLockedOutAt, hkey, if_neg (by simpa using hne)]
  unfold entryOf at hmin ⊢
  cases hlookup : s.entries.lookup key with
  | none => exact ⟨rfl, by rw [hlookup]⟩
  | some entry =>
    rw [hlookup, Option.getD_some] at hmin
    dsimp only
    rw [hmin, AList.lookup_insert]
    exact ⟨rfl, rfl⟩

/-- A call for another name leaves the entry alone. -/
theorem entryOf_step_other {call : Call} (hne : naming.normalizeKey call.username ≠ key)
    (hcap : size s.entries < kMaxEntries) : entryOf (step naming r s call) key = entryOf s key := by
  cases call with
  | recordFailureAt username now =>
    show entryOf (recordFailureAt naming s username now r.threshold r.window r.duration) key = _
    rw [recordFailureAt]
    split
    · rfl
    split
    · exact entryOf_insert_ne (Ne.symm hne) _ _ _
    · have hsweep : ¬(kMaxEntries ≤ size s.entries ∧
          (now < s.lastSweepTime ∨ kMinSweepIntervalSeconds ≤ now - s.lastSweepTime)) := by omega
      rw [if_neg hsweep, if_neg (Nat.not_le.2 hcap)]
      exact entryOf_insert_ne (Ne.symm hne) _ _ _
  | recordSuccess username =>
    show entryOf (recordSuccess naming s username) key = _
    rw [recordSuccess]
    split
    · rfl
    · exact congrArg (fun entry : Option Entry => entry.getD {}) (AList.lookup_erase_ne (Ne.symm hne))
  | isLockedOutAt username now =>
    show entryOf (isLockedOutAt naming s username now r.duration).2 key = _
    rw [isLockedOutAt]
    split
    · rfl
    split
    · rfl
    · exact entryOf_insert_ne (Ne.symm hne) _ _ _

end Table

/-! ## Runs -/

section Runs

variable {naming : Naming} {key : WString}

theorem run_snoc (naming : Naming) (r : Rule) (calls : List Call) (call : Call) :
    run naming r (calls ++ [call]) = step naming r (run naming r calls) call := by
  rw [run, List.foldl_append]
  rfl

theorem failuresSince_other {same : WString → Bool} {call : Call} (h : same call.username = false) (older : List Call) :
    failuresSince same (call :: older) = failuresSince same older := by
  cases call with
  | recordFailureAt username now => exact if_neg (Bool.eq_false_iff.1 h)
  | recordSuccess username => exact if_neg (Bool.eq_false_iff.1 h)
  | isLockedOutAt username now => rfl

/-- The names that are one name to the table. -/
def sameKey (naming : Naming) (key username : WString) : Bool := naming.normalizeKey username = key

/-- After every run the entry of a name tracks the failures since its last success. -/
theorem run_tracks (hr : Sound r) (hne : key ≠ []) (calls : List Call) (hclock : Ordered calls)
    (hcap : BelowCap naming r calls) {t : Nat} (ht : ∀ now ∈ calls.filterMap Call.now, now ≤ t) :
    Tracks r (failuresSince (sameKey naming key) calls.reverse) t (entryOf (run naming r calls) key) := by
  induction calls using List.reverseRecOn generalizing t with
  | nil => exact Tracks.empty t
  | append_singleton calls call ih =>
    have hbelow : size (run naming r calls).entries < kMaxEntries := hcap calls ⟨[call], rfl⟩
    have hcap' : BelowCap naming r calls := fun earlier h => hcap earlier (h.trans ⟨[call], rfl⟩)
    rw [Ordered, List.filterMap_append, List.pairwise_append] at hclock
    rw [List.filterMap_append, List.forall_mem_append] at ht
    have hlast := ih hclock.1 hcap' ht.1
    rw [run_snoc, List.reverse_append, List.reverse_singleton, List.singleton_append]
    by_cases hkey : naming.normalizeKey call.username = key
    · cases call with
      | recordFailureAt username now =>
        change naming.normalizeKey username = key at hkey
        have hsince : failuresSince (sameKey naming key) (.recordFailureAt username now :: calls.reverse) =
            now :: failuresSince (sameKey naming key) calls.reverse := if_pos (decide_eq_true hkey)
        have hnow : now ≤ t := ht.2 now (by simp [Call.now])
        have hpast : ∀ n ∈ calls.filterMap Call.now, n ≤ now := fun n hn => hclock.2.2 n hn now (by simp [Call.now])
        have hstep := entryOf_recordFailureAt hkey hne hr.threshold_pos hbelow now
        show Tracks r _ t (entryOf (recordFailureAt ..) key)
        rw [hsince, hstep]
        exact (tracks_recordFailure hr (ih hclock.1 hcap' hpast) (Nat.le_refl now)).later hnow
      | recordSuccess username =>
        change naming.normalizeKey username = key at hkey
        have hsince : failuresSince (sameKey naming key) (.recordSuccess username :: calls.reverse) = [] :=
          if_pos (decide_eq_true hkey)
        show Tracks r _ t (entryOf (recordSuccess ..) key)
        rw [hsince, entryOf_recordSuccess hkey hne]
        exact Tracks.empty t
      | isLockedOutAt username now =>
        change naming.normalizeKey username = key at hkey
        have hnow : now ≤ t := ht.2 now (by simp [Call.now])
        have hpast : ∀ n ∈ calls.filterMap Call.now, n ≤ now := fun n hn => hclock.2.2 n hn now (by simp [Call.now])
        show Tracks r _ t (entryOf (isLockedOutAt naming _ username now r.duration).2 key)
        rw [(isLockedOutAt_spec hkey hne (Nat.le_refl now) (ih hclock.1 hcap' hpast)).2]
        exact hlast
    · rw [failuresSince_other (decide_eq_false hkey), entryOf_step_other hkey hbelow]
      exact hlast

/-- A name keeps too few failures for a threshold above the cap on them. -/
theorem recordFailure_lockedUntil (hmax : kMaxFailuresPerName < r.threshold) (h : entry.lockedUntil = 0) :
    (recordFailure entry t r.threshold r.window r.duration).lockedUntil = 0 := by
  have hpruned : (prune entry t r.window).lockedUntil = 0 := by
    rw [prune]
    split
    · rfl
    · exact h
  rw [recordFailure, hpruned, if_neg (Nat.not_lt_zero t)]
  dsimp only
  rw [if_neg (by rw [List.length_drop]; omega)]

theorem run_lockedUntil (hmax : kMaxFailuresPerName < r.threshold) (hne : key ≠ []) (calls : List Call)
    (hcap : BelowCap naming r calls) : (entryOf (run naming r calls) key).lockedUntil = 0 := by
  induction calls using List.reverseRecOn with
  | nil => rfl
  | append_singleton calls call ih =>
    have hbelow : size (run naming r calls).entries < kMaxEntries := hcap calls ⟨[call], rfl⟩
    have hlast := ih fun earlier h => hcap earlier (h.trans ⟨[call], rfl⟩)
    rw [run_snoc]
    by_cases hkey : naming.normalizeKey call.username = key
    · cases call with
      | recordFailureAt username now =>
        change naming.normalizeKey username = key at hkey
        show (entryOf (recordFailureAt ..) key).lockedUntil = 0
        rw [entryOf_recordFailureAt hkey hne (by omega) hbelow]
        exact recordFailure_lockedUntil hmax hlast
      | recordSuccess username =>
        change naming.normalizeKey username = key at hkey
        show (entryOf (recordSuccess ..) key).lockedUntil = 0
        rw [entryOf_recordSuccess hkey hne]
      | isLockedOutAt username now =>
        change naming.normalizeKey username = key at hkey
        show (entryOf (isLockedOutAt naming _ username now r.duration).2 key).lockedUntil = 0
        rw [isLockedOutAt, hkey, if_neg (by simpa using hne)]
        rw [entryOf] at hlast
        cases hlookup : (run naming r calls).entries.lookup key with
        | none =>
          rw [entryOf, hlookup]
          rfl
        | some entry =>
          rw [hlookup, Option.getD_some] at hlast
          dsimp only
          rw [entryOf_insert, hlast, Nat.zero_min]
    · rw [entryOf_step_other hkey hbelow]
      exact hlast

theorem failuresSince_filter (same : WString → Bool) (calls : List Call) :
    failuresSince same (calls.filter fun call => same call.username) = failuresSince same calls := by
  induction calls with
  | nil => rfl
  | cons call calls ih =>
    rw [List.filter_cons]
    split
    · cases call with
      | recordFailureAt username now => rw [failuresSince, failuresSince, ih]
      | recordSuccess username => rw [failuresSince, failuresSince, ih]
      | isLockedOutAt username now => rw [failuresSince, failuresSince, ih]
    · rename_i hsame
      rw [ih, failuresSince_other (Bool.eq_false_iff.2 hsame)]

end Runs

/-- Whether a name is locked is the sliding-window rule, applied to the failures
    of the names with its canonical form since their last success; what was done with
    any other name does not matter. -/
theorem lockout_rule (naming : Naming) (r : Rule) (hr : Sound r) (calls : List Call) (username : WString) (t : Nat)
    (hname : naming.normalizeKey username ≠ []) (hclock : Ordered (calls ++ [.isLockedOutAt username t]))
    (hcap : BelowCap naming r calls) :
    ((isLockedOutAt naming (run naming r calls) username t r.duration).1 = true ↔
      Locked r (failuresSince (sameKey naming (naming.normalizeKey username)) calls.reverse) t) ∧
    ∀ others, Ordered (others ++ [.isLockedOutAt username t]) → BelowCap naming r others →
      others.filter (fun call => sameKey naming (naming.normalizeKey username) call.username) =
        calls.filter (fun call => sameKey naming (naming.normalizeKey username) call.username) →
      (isLockedOutAt naming (run naming r others) username t r.duration).1 =
        (isLockedOutAt naming (run naming r calls) username t r.duration).1 := by
  have hrule : ∀ calls, Ordered (calls ++ [.isLockedOutAt username t]) → BelowCap naming r calls →
      ((isLockedOutAt naming (run naming r calls) username t r.duration).1 = true ↔
        Locked r (failuresSince (sameKey naming (naming.normalizeKey username)) calls.reverse) t) := by
    intro calls hclock hcap
    rw [Ordered, List.filterMap_append, List.pairwise_append] at hclock
    have hpast : ∀ now ∈ calls.filterMap Call.now, now ≤ t := fun now hnow => hclock.2.2 now hnow t (by simp [Call.now])
    have htracks := run_tracks hr hname calls hclock.1 hcap hpast
    rw [(isLockedOutAt_spec rfl hname (Nat.le_refl t) htracks).1, decide_eq_true_eq]
    exact lt_lockedUntil_iff htracks (Nat.le_refl t)
  refine ⟨hrule calls hclock hcap, fun others hclock' hcap' hsame => ?_⟩
  have hsince : failuresSince (sameKey naming (naming.normalizeKey username)) others.reverse =
      failuresSince (sameKey naming (naming.normalizeKey username)) calls.reverse := by
    rw [← failuresSince_filter _ others.reverse, ← failuresSince_filter _ calls.reverse, List.filter_reverse,
      List.filter_reverse, hsame]
  rw [Bool.eq_iff_iff, hrule others hclock' hcap', hrule calls hclock hcap, hsince]

/-- Above the cap on stored failures nobody is ever locked. -/
theorem never_locked (naming : Naming) (r : Rule) (hmax : kMaxFailuresPerName < r.threshold) (calls : List Call)
    (hcap : BelowCap naming r calls) (username : WString) (t : Nat) :
    (isLockedOutAt naming (run naming r calls) username t r.duration).1 = false := by
  rw [isLockedOutAt]
  split
  · rfl
  · rename_i hne
    have hzero := run_lockedUntil hmax (by simpa using hne) calls hcap
    rw [entryOf] at hzero
    split
    · rfl
    · rename_i entry hlookup
      rw [hlookup, Option.getD_some] at hzero
      rw [hzero]
      show decide (t < min 0 (t + r.duration)) = false
      rw [Nat.zero_min]
      exact decide_eq_false (Nat.not_lt_zero t)

/-- No aliases and no default domain. -/
def plainNaming : Naming := ⟨classicLocale, [], fun _ => none, []⟩

/-- Two failures within ten minutes lock for a quarter of an hour. -/
def twoStrikes : Rule := ⟨2, 600, 900⟩

def guesses : List Call := [.recordFailureAt (wide "a@b") 100, .recordFailureAt (wide "c@d") 110, .recordFailureAt (wide "A@b") 120]

theorem lockout_rule_twoStrikes :
    (isLockedOutAt plainNaming (run plainNaming twoStrikes guesses) (wide "a@b") 1019 900).1 = true := by
  refine (lockout_rule plainNaming twoStrikes ⟨by decide, by decide, by decide, by decide⟩ guesses (wide "a@b") 1019
    (by decide) (by decide) ?_).1.2 ?_
  · intro earlier h
    rw [← List.mem_inits] at h
    revert earlier
    decide
  · exact ⟨120, by decide, by decide, by decide⟩

/-- Another spelling of a name is locked with it, though nobody failed under it; and
    the empty name never is. -/
theorem locked_under_another_spelling :
    (isLockedOutAt plainNaming (run plainNaming ⟨1, 600, 900⟩ [.recordFailureAt (wide "victim") 100]) (wide "VICTIM") 100 900).1 = true ∧
    ¬Locked ⟨1, 600, 900⟩ (failuresSince (fun username => username = wide "VICTIM") [.recordFailureAt (wide "victim") 100]) 100 ∧
    (isLockedOutAt plainNaming (run plainNaming ⟨1, 600, 900⟩ [.recordFailureAt [] 100]) [] 100 900).1 = false ∧
    Locked ⟨1, 600, 900⟩ (failuresSince (fun username => username = []) [.recordFailureAt [] 100]) 100 := by
  refine ⟨by decide, fun h => ?_, by decide, 100, by decide, by decide, by decide⟩
  obtain ⟨f, hf, _⟩ := h
  exact absurd hf List.not_mem_nil

end HMailServer.AccountLockout
