import HMailServer.Util.RateLimiter

/- What the sending quota holds an account to. A bucket is stamped with the start
   of its slot and expires by that stamp, so a message leaves the count up to one
   slot before a period has passed since it was sent. -/
namespace HMailServer.RateLimiter

/-! ## The table -/

namespace AccountTable

theorem lookup_setEntry (key other : WString) (buckets : UsageBuckets) (entries : List (WString × UsageBuckets)) :
    (setEntry key buckets entries).lookup other = if other = key then some buckets else entries.lookup other := by
  induction entries with
  | nil =>
    unfold setEntry
    rw [List.lookup_cons]
    by_cases h : other = key
    · rw [if_pos h, beq_iff_eq.2 h]
    · rw [if_neg h, beq_false_of_ne h]
  | cons entry rest ih =>
    unfold setEntry
    split
    · rename_i hkey
      rw [List.lookup_cons, List.lookup_cons, hkey]
      by_cases h : other = entry.1
      · rw [if_pos h, beq_iff_eq.2 h]
      · rw [if_neg h, beq_false_of_ne h]
    · rename_i hkey
      rw [List.lookup_cons, List.lookup_cons, ih]
      by_cases h : other = entry.1
      · have hne : other ≠ key := fun hother => hkey (hother.symm.trans h)
        simp only [beq_iff_eq.2 h, if_neg hne]
      · rw [beq_false_of_ne h]

theorem lookup_liveEntries (key : WString) (now : Nat) {entries : List (WString × UsageBuckets)}
    (h : (entries.map Prod.fst).Nodup) :
    ((liveEntries entries now).lookup key).getD [] =
      pruneUsage ((entries.lookup key).getD []) now (kMaxPeriodHours.toNat * 3600) := by
  induction entries with
  | nil => rfl
  | cons entry rest ih =>
    rw [List.map_cons, List.nodup_cons] at h
    have hrest := ih h.2
    unfold liveEntries at hrest ⊢
    rw [List.map_cons, List.filter_cons, List.lookup_cons]
    by_cases hkey : key = entry.1
    · -- an emptied account leaves the table, and no other entry has its name
      subst hkey
      have hnone : rest.lookup entry.1 = none := by
        rw [List.lookup_eq_none_iff]
        intro other hother
        rw [bne_iff_ne]
        exact fun heq => h.1 (List.mem_map.2 ⟨other, hother, heq.symm⟩)
      rw [hnone] at hrest
      rw [beq_self_eq_true]
      dsimp only
      split
      · rw [List.lookup_cons, beq_self_eq_true]
        rfl
      · rename_i hempty
        rw [hrest]
        have hnil : pruneUsage entry.2 now (kMaxPeriodHours.toNat * 3600) = [] := by simpa using hempty
        rw [Option.getD_some, hnil]
        rfl
    · have hbeq : (key == entry.1) = false := beq_false_of_ne hkey
      rw [hbeq]
      dsimp only
      split
      · rw [List.lookup_cons, hbeq]
        exact hrest
      · exact hrest

end AccountTable

variable (s : State) (key other : WString)

theorem usage_set (table : AccountTable) (buckets : UsageBuckets) (dirty : Bool) (last : Nat) (reported : Bool) :
    (⟨table.set key buckets, dirty, last, reported⟩ : State).usage other =
      if other = key then buckets else (table.find other).getD [] := by
  unfold State.usage AccountTable.find AccountTable.set
  rw [AccountTable.lookup_setEntry]
  split <;> rfl

theorem usage_saveUsage (force : Bool) (interval now : Nat) :
    (saveUsage s force interval now).usage key = s.usage key ∨
      (saveUsage s force interval now).usage key = pruneUsage (s.usage key) now (kMaxPeriodHours.toNat * 3600) := by
  unfold saveUsage
  split
  · exact .inl rfl
  dsimp only
  split
  · exact .inl rfl
  · exact .inr (AccountTable.lookup_liveEntries key now s.accountUsage.nodup)

/-! ## The period and its slots -/

section Slots

variable (limits : AccountSendingLimits)

theorem periodSeconds_eq : getPeriodSeconds limits = kBucketsPerPeriod * getBucketSeconds (getPeriodSeconds limits) := by
  unfold getBucketSeconds getPeriodSeconds kMinBucketSeconds kBucketsPerPeriod kMinPeriodHours kMaxPeriodHours
  omega

theorem bucketSeconds_pos : 0 < getBucketSeconds (getPeriodSeconds limits) := by
  unfold getBucketSeconds kMinBucketSeconds
  omega

theorem periodSeconds_le : getPeriodSeconds limits ≤ kMaxPeriodHours.toNat * 3600 := by
  unfold getPeriodSeconds kMinPeriodHours kMaxPeriodHours
  omega

theorem slot_le (periodSeconds now : Nat) : slot periodSeconds now ≤ now := Nat.div_mul_le_self _ _

end Slots

/-! ## Weights -/

/-- What the dated amounts `q` picks add up to. -/
def weigh (q : Nat → Bool) (dated : List (Nat × Nat)) : Nat := (dated.map fun e => if q e.1 then e.2 else 0).sum

theorem weigh_append (q : Nat → Bool) (l r : List (Nat × Nat)) : weigh q (l ++ r) = weigh q l + weigh q r := by
  simp [weigh]

theorem weigh_cons (q : Nat → Bool) (e : Nat × Nat) (l : List (Nat × Nat)) :
    weigh q (e :: l) = (if q e.1 then e.2 else 0) + weigh q l := by
  simp [weigh]

theorem weigh_mono {q q' : Nat → Bool} {l : List (Nat × Nat)} (h : ∀ e ∈ l, q e.1 = true → q' e.1 = true) :
    weigh q l ≤ weigh q' l := by
  apply List.sum_le_sum
  intro e he
  by_cases hq : q e.1 = true
  · simp [hq, h e he hq]
  · simp [hq]

theorem weigh_eq_zero {q : Nat → Bool} {l : List (Nat × Nat)} (h : ∀ e ∈ l, q e.1 = false) : weigh q l = 0 := by
  unfold weigh
  rw [List.sum_eq_zero_iff]
  intro n hn
  obtain ⟨e, he, rfl⟩ := List.mem_map.1 hn
  rw [h e he]
  rfl

/-- The buckets' counts, each dated with the bucket's stamp. -/
def stamped (c : Counter) (buckets : UsageBuckets) : List (Nat × Nat) := buckets.map fun b => (b.start, b.count c)

theorem weigh_stamped_le (q : Nat → Bool) (c : Counter) (buckets : UsageBuckets) :
    weigh q (stamped c buckets) ≤ total buckets c := by
  unfold weigh stamped total
  rw [List.map_map]
  apply List.sum_le_sum
  intro b _
  dsimp only [Function.comp_apply]
  split
  · exact le_rfl
  · exact Nat.zero_le _

/-! ## What the buckets of an account cover -/

/-- The buckets `own`, the newest of the account, hold what was counted: whatever
    stamp is not yet a period old at `now`, they hold at least the amounts whose
    slots begin there or later. -/
structure Covers (limits : AccountSendingLimits) (c : Counter) (events : List (Nat × Nat)) (now : Nat)
    (own : UsageBuckets) : Prop where
  ascending : own.Pairwise fun a b => a.start < b.start
  aligned : ∀ b ∈ own.tail, getBucketSeconds (getPeriodSeconds limits) ∣ b.start
  past : ∀ b ∈ own, b.start ≤ now
  few : own.length ≤ kMaxBucketsPerAccount
  covered : ∀ x, now < x + getPeriodSeconds limits →
    weigh (fun t => x ≤ slot (getPeriodSeconds limits) t) events ≤ weigh (fun t => x ≤ t) (stamped c own)

namespace Covers

variable {limits : AccountSendingLimits} {c : Counter} {events : List (Nat × Nat)} {now : Nat} {own : UsageBuckets}

theorem nil : Covers limits c [] now [] where
  ascending := List.Pairwise.nil
  aligned := by simp
  past := by simp
  few := Nat.zero_le _
  covered := fun _ _ => le_rfl

theorem later (h : Covers limits c events now own) {now' : Nat} (hnow : now ≤ now') : Covers limits c events now' own where
  ascending := h.ascending
  aligned := h.aligned
  past := fun b hb => (h.past b hb).trans hnow
  few := h.few
  covered := fun x hx => h.covered x (by omega)

/-- Buckets that are a period old may go. -/
theorem forget {gone kept : UsageBuckets} (h : Covers limits c events now (gone ++ kept))
    (hgone : ∀ b ∈ gone, b.start + getPeriodSeconds limits ≤ now) : Covers limits c events now kept where
  ascending := (List.pairwise_append.1 h.ascending).2.1
  aligned := by
    intro b hb
    apply h.aligned b
    cases gone with
    | nil => exact hb
    | cons a gone => exact List.mem_append_right gone (List.mem_of_mem_tail hb)
  past := fun b hb => h.past b (List.mem_append_right gone hb)
  few := by
    have hfew := h.few
    rw [List.length_append] at hfew
    omega
  covered := by
    intro x hx
    refine (h.covered x hx).trans ?_
    have hzero : weigh (fun t => decide (x ≤ t)) (stamped c gone) = 0 := by
      apply weigh_eq_zero
      intro e he
      obtain ⟨b, hb, rfl⟩ := List.mem_map.1 he
      have hold := hgone b hb
      rw [decide_eq_false_iff_not]
      omega
    unfold stamped at hzero ⊢
    rw [List.map_append, weigh_append, hzero, Nat.zero_add]

end Covers

theorem drop_excess {α : Type} {l r : List α} {n : Nat} (h : r.length ≤ n) :
    (l ++ r).drop ((l ++ r).length - n) = l.drop ((l ++ r).length - n) ++ r := by
  have hle : (l ++ r).length - n ≤ l.length := by
    rw [List.length_append]
    omega
  exact List.drop_append_of_le_length hle

/-- Pruning takes no bucket that is not a period old, except from the older ones. -/
theorem covers_pruneUsage {limits : AccountSendingLimits} {c : Counter} {events : List (Nat × Nat)} {now now' q : Nat}
    {older own : UsageBuckets} (h : Covers limits c events now own) (hnow : now ≤ now') (hq : getPeriodSeconds limits ≤ q) :
    ∃ older' own', pruneUsage (older ++ own) now' q = older' ++ own' ∧ Covers limits c events now' own' := by
  have hown : own.map (fun b => { b with start := min b.start now' }) = own := by
    conv_rhs => rw [← List.map_id own]
    apply List.map_congr_left
    intro b hb
    have hpast := h.past b hb
    rw [Nat.min_eq_left (by omega)]
    rfl
  unfold pruneUsage
  dsimp only
  rw [List.map_append, hown, List.dropWhile_append]
  split
  · -- the older buckets are gone, and then those of `own` that are old enough
    refine ⟨[], own.dropWhile fun b => b.start + q ≤ now', ?_, ?_⟩
    · have hlength : (own.dropWhile fun b => decide (b.start + q ≤ now')).length ≤ kMaxBucketsPerAccount :=
        (List.dropWhile_sublist _).length_le.trans h.few
      rw [Nat.sub_eq_zero_of_le hlength, List.drop_zero, List.nil_append]
    · refine @Covers.forget _ _ _ _ (own.takeWhile fun b => b.start + q ≤ now') _ ?_ ?_
      · rw [List.takeWhile_append_dropWhile]
        exact h.later hnow
      · intro b hb
        have hold := List.mem_takeWhile_imp hb
        rw [decide_eq_true_eq] at hold
        omega
  · exact ⟨_, own, drop_excess h.few, h.later hnow⟩

theorem pruneUsage_past (buckets : UsageBuckets) (now q : Nat) : ∀ b ∈ pruneUsage buckets now q, b.start ≤ now := by
  intro b hb
  obtain ⟨a, _, rfl⟩ := List.mem_map.1 ((List.dropWhile_sublist _).subset (List.mem_of_mem_drop hb))
  exact Nat.min_le_right _ _

theorem length_pruneUsage (buckets : UsageBuckets) (now q : Nat) :
    (pruneUsage buckets now q).length ≤ kMaxBucketsPerAccount := by
  unfold pruneUsage
  dsimp only
  rw [List.length_drop]
  omega

/-- Strictly ascending multiples lie at least as far apart as there are steps between
    them. -/
theorem ascending_span {d : Nat} {l : List UsageBucket} {a z : UsageBucket} (hl : (a :: (l ++ [z])).Pairwise fun x y => x.start < y.start)
    (hdvd : ∀ b ∈ l ++ [z], d ∣ b.start) : a.start + l.length * d < z.start := by
  induction l generalizing a with
  | nil =>
    have hlt := (List.pairwise_cons.1 hl).1 z (by simp)
    simpa using hlt
  | cons b l ih =>
    obtain ⟨hfirst, htail⟩ := List.pairwise_cons.1 hl
    have hspan := ih htail fun e he => hdvd e (List.mem_cons_of_mem b he)
    have hlt := hfirst b (by simp)
    obtain ⟨i, hi⟩ := hdvd b (by simp)
    obtain ⟨j, hj⟩ := hdvd z (by simp)
    -- `b` and `z` are multiples more than `l.length` steps apart
    rw [hi, hj] at hspan
    have hij : i + l.length < j := by
      by_contra hle
      have hmul : d * j ≤ d * (i + l.length) := Nat.mul_le_mul_left d (by omega)
      rw [Nat.mul_add, Nat.mul_comm d l.length] at hmul
      omega
    have hmul : d * (i + l.length + 1) ≤ d * j := Nat.mul_le_mul_left d hij
    rw [List.length_cons, Nat.succ_mul, hj]
    rw [hi] at hlt
    rw [Nat.mul_add, Nat.mul_add, Nat.mul_one, Nat.mul_comm d l.length] at hmul
    omega

/-- A full deque's oldest bucket is a period old. -/
theorem oldest_old {limits : AccountSendingLimits} {c : Counter} {events : List (Nat × Nat)} {now : Nat} {oldest : UsageBucket}
    {rest : UsageBuckets} (h : Covers limits c events now (oldest :: rest))
    (hfull : kMaxBucketsPerAccount ≤ (oldest :: rest).length) : oldest.start + getPeriodSeconds limits ≤ now := by
  obtain ⟨l, z, rfl⟩ : ∃ l z, rest = l ++ [z] := by
    refine ⟨rest.dropLast, rest.getLast ?_, (List.dropLast_append_getLast _).symm⟩
    rintro rfl
    simp [kMaxBucketsPerAccount] at hfull
  have hspan := ascending_span h.ascending h.aligned
  have hpast := h.past z (by simp)
  have hlength : kBucketsPerPeriod ≤ l.length := by
    simp only [List.length_cons, List.length_append, List.length_nil, kMaxBucketsPerAccount] at hfull
    unfold kBucketsPerPeriod
    omega
  have hperiod := periodSeconds_eq limits
  have hmul := Nat.mul_le_mul_right (getBucketSeconds (getPeriodSeconds limits)) hlength
  omega

section Record

variable {limits : AccountSendingLimits} {c : Counter} {events : List (Nat × Nat)} {now n : Nat} {own : UsageBuckets}

theorem weigh_snoc (q : Nat → Bool) (e : Nat × Nat) (l : List (Nat × Nat)) :
    weigh q (l ++ [e]) = weigh q l + if q e.1 then e.2 else 0 := by
  rw [weigh_append, weigh_cons]
  rfl

/-- An amount counted in the newest of `own`. -/
theorem Covers.add {l : UsageBuckets} {newest newest' : UsageBucket} (h : Covers limits c events now (l ++ [newest]))
    (hslot : slot (getPeriodSeconds limits) now ≤ newest.start) (hstart : newest'.start = newest.start)
    (hcount : newest.count c + n ≤ newest'.count c) : Covers limits c (events ++ [(now, n)]) now (l ++ [newest']) where
  ascending := by
    obtain ⟨hl, _, hlast⟩ := List.pairwise_append.1 h.ascending
    refine List.pairwise_append.2 ⟨hl, List.pairwise_singleton _ _, fun a ha b hb => ?_⟩
    rw [List.mem_singleton] at hb
    rw [hb, hstart]
    exact hlast a ha newest (by simp)
  aligned := by
    intro b hb
    cases l with
    | nil => cases hb
    | cons a l =>
      obtain hb | hb := List.mem_append.1 hb
      · exact h.aligned b (List.mem_append_left _ hb)
      · rw [List.mem_singleton.1 hb, hstart]
        exact h.aligned newest (List.mem_append_right l (by simp))
  past := by
    intro b hb
    obtain hb | hb := List.mem_append.1 hb
    · exact h.past b (List.mem_append_left _ hb)
    · rw [List.mem_singleton.1 hb, hstart]
      exact h.past newest (by simp)
  few := by simpa using h.few
  covered := by
    intro x hx
    have hcovered := h.covered x hx
    unfold stamped at hcovered ⊢
    rw [List.map_append, List.map_singleton, weigh_snoc] at hcovered ⊢
    rw [weigh_snoc, hstart]
    by_cases hnow : x ≤ slot (getPeriodSeconds limits) now
    · have hnewest : x ≤ newest.start := hnow.trans hslot
      simp only [hnow, hnewest, decide_true, if_true] at hcovered ⊢
      omega
    · simp only [hnow, decide_false, Bool.false_eq_true, if_false, Nat.add_zero]
      refine hcovered.trans (Nat.add_le_add_left ?_ _)
      split <;> omega

/-- An amount counted in a bucket of its own. -/
theorem Covers.push {fresh : UsageBucket} (h : Covers limits c events now own) (hfew : own.length < kMaxBucketsPerAccount)
    (hnewest : ∀ b ∈ own, b.start < fresh.start) (hstart : fresh.start = slot (getPeriodSeconds limits) now)
    (hcount : n ≤ fresh.count c) : Covers limits c (events ++ [(now, n)]) now (own ++ [fresh]) where
  ascending := by
    refine List.pairwise_append.2 ⟨h.ascending, List.pairwise_singleton _ _, fun a ha b hb => ?_⟩
    rw [List.mem_singleton.1 hb]
    exact hnewest a ha
  aligned := by
    intro b hb
    cases own with
    | nil => cases hb
    | cons a own =>
      obtain hb | hb := List.mem_append.1 hb
      · exact h.aligned b hb
      · rw [List.mem_singleton.1 hb, hstart]
        exact Nat.dvd_mul_left _ _
  past := by
    intro b hb
    obtain hb | hb := List.mem_append.1 hb
    · exact h.past b hb
    · rw [List.mem_singleton.1 hb, hstart]
      exact slot_le _ _
  few := by
    rw [List.length_append]
    exact hfew
  covered := by
    intro x hx
    have hcovered := h.covered x hx
    unfold stamped at hcovered ⊢
    rw [List.map_append, List.map_singleton, weigh_snoc, weigh_snoc, hstart]
    dsimp only
    split
    · exact Nat.add_le_add hcovered hcount
    · exact hcovered

/-- An older bucket may be taken for one of `own` where there are none yet. -/
theorem Covers.adopt (h : Covers limits c events now []) {b : UsageBucket} (hb : b.start ≤ now) :
    Covers limits c events now [b] where
  ascending := List.pairwise_singleton _ _
  aligned := by simp
  past := by simpa using hb
  few := by simp [kMaxBucketsPerAccount]
  covered := fun x hx => (h.covered x hx).trans (Nat.zero_le _)

theorem add_le_saturatingAdd {current addition : Nat} (h : addition = 0 ∨ current + addition ≤ intMax) :
    current + addition ≤ saturatingAdd current addition := by
  unfold saturatingAdd
  split <;> omega

theorem count_le_total {buckets : UsageBuckets} {b : UsageBucket} (hb : b ∈ buckets) (c : Counter) :
    b.count c ≤ total buckets c :=
  List.single_le_sum (fun _ _ => Nat.zero_le _) _ (List.mem_map.2 ⟨b, hb, rfl⟩)

/-- Counting an amount that the `int` has room for keeps the cover. -/
theorem covers_recordUsage {older : UsageBuckets} (h : Covers limits c events now own)
    (hpast : ∀ b ∈ older ++ own, b.start ≤ now) (hlength : (older ++ own).length ≤ kMaxBucketsPerAccount)
    (addition : Counter → Nat) (hroom : addition c = 0 ∨ total (older ++ own) c + addition c ≤ intMax) :
    ∃ older' own', recordUsage (older ++ own) addition now (getPeriodSeconds limits) = older' ++ own' ∧
      Covers limits c (events ++ [(now, addition c)]) now own' := by
  have hfresh : addition c ≤ (addTo addition { start := slot (getPeriodSeconds limits) now }).count c := by
    have hroom' : addition c = 0 ∨ 0 + addition c ≤ intMax := by omega
    simpa [addTo] using add_le_saturatingAdd hroom'
  have hadd : ∀ b ∈ older ++ own, b.count c + addition c ≤ (addTo addition b).count c := by
    intro b hb
    have hle := count_le_total hb c
    exact add_le_saturatingAdd (by omega)
  unfold recordUsage
  rcases List.eq_nil_or_concat' own with rfl | ⟨l, newest, rfl⟩
  · rw [List.append_nil] at hpast hadd ⊢
    rcases List.eq_nil_or_concat' older with rfl | ⟨l, newest, rfl⟩
    · exact ⟨[], _, rfl, h.push (by decide) (by simp) rfl hfresh⟩
    · rw [List.getLast?_concat]
      dsimp only
      split
      · rename_i hslot
        have hadopted := h.adopt (hpast newest (by simp))
        refine ⟨l, [addTo addition newest], by rw [List.dropLast_concat], ?_⟩
        exact Covers.add (l := []) hadopted hslot rfl (hadd newest (by simp))
      · exact ⟨_, [_], rfl, h.push (by decide) (by simp) rfl hfresh⟩
  · rw [← List.append_assoc, List.getLast?_concat]
    dsimp only
    split
    · rename_i hslot
      refine ⟨older, l ++ [addTo addition newest], by rw [List.dropLast_concat, List.append_assoc], ?_⟩
      exact h.add hslot rfl (hadd newest (by simp))
    · rename_i hslot
      have hnewest : ∀ b ∈ l ++ [newest], b.start < slot (getPeriodSeconds limits) now := by
        intro b hb
        obtain hb | hb := List.mem_append.1 hb
        · have hlt := (List.pairwise_append.1 h.ascending).2.2 b hb newest (by simp)
          omega
        · rw [List.mem_singleton.1 hb]
          omega
      rw [List.append_assoc]
      split
      · rename_i hfull
        cases older with
        | nil =>
          -- the oldest bucket of a full deque is one of `own`, and a period old
          obtain ⟨oldest, rest, hown⟩ : ∃ oldest rest, l ++ [newest] = oldest :: rest := by
            cases l with
            | nil => exact ⟨_, _, rfl⟩
            | cons a l => exact ⟨_, _, rfl⟩
          rw [List.nil_append] at hfull hlength ⊢
          rw [hown] at h hfull hlength hnewest ⊢
          have hkept := @Covers.forget _ _ _ _ [oldest] rest h (by simpa using oldest_old h hfull)
          refine ⟨[], rest ++ [_], rfl, hkept.push ?_ (fun b hb => hnewest b (List.mem_cons_of_mem _ hb)) rfl hfresh⟩
          rw [List.length_cons] at hlength
          omega
        | cons a older =>
          refine ⟨older, (l ++ [newest]) ++ [_], by simp, h.push ?_ hnewest rfl hfresh⟩
          rw [List.cons_append, List.length_cons, List.length_append] at hlength
          omega
      · rename_i hfull
        refine ⟨older, (l ++ [newest]) ++ [_], by simp, h.push ?_ hnewest rfl hfresh⟩
        rw [List.length_append] at hfull
        omega

end Record

/-! ## One step -/

namespace Step

/-- The account a call is for. -/
def account (loc : Locale) : Step → Option WString
  | tryConsumeAccountMessage accountAddress _ _ => some (normalizeAccountKey loc accountAddress)
  | tryConsumeAccountRecipients accountAddress _ _ _ => some (normalizeAccountKey loc accountAddress)
  | saveUsage _ _ _ => none
  | saveFailed _ => none

/-- The ceilings a call is made under. -/
def limits : Step → Option AccountSendingLimits
  | tryConsumeAccountMessage _ limits _ => some limits
  | tryConsumeAccountRecipients _ limits _ _ => some limits
  | saveUsage _ _ _ => none
  | saveFailed _ => none

/-- How many messages, or recipients, a call asks for. -/
def amount (c : Counter) : Step → Nat
  | tryConsumeAccountMessage _ _ _ => match c with
    | .messages => 1
    | .recipients => 0
  | tryConsumeAccountRecipients _ _ recipientCount _ => match c with
    | .messages => 0
    | .recipients => recipientCount.toNat
  | saveUsage _ _ _ => 0
  | saveFailed _ => 0

end Step

/-- The counts the limiter holds an account to at a time. -/
def countAt (s : State) (key : WString) (limits : AccountSendingLimits) (now : Nat) (c : Counter) : Nat :=
  sumUsage (pruneUsage (s.usage key) now (getPeriodSeconds limits)) c

section OneStep

variable {loc : Locale} {s : State} {key : WString} {limits : AccountSendingLimits} {c : Counter}

theorem checkAndConsume_eq {addition : Counter → Nat} {now : Nat} (hcap : s.accountUsage.size < kMaxAccountEntries) :
    checkAndConsume s key addition limits now = checkAndConsumeEntry s key addition limits now := by
  unfold checkAndConsume
  split
  · rfl
  · have hfull : ¬kMaxAccountEntries ≤ s.accountUsage.size := by omega
    simp only [hfull, if_false]

/-- A call under a ceiling that asks for something is charged to its account. -/
theorem charge_eq {call : Step} (hkey : key ≠ []) (haccount : call.account loc = some key)
    (hlimits : call.limits = some limits) (henabled : limits.isEnabled = true) :
    (∃ addition : Counter → Nat, (∀ c, addition c = call.amount c) ∧
        step loc s call = (some (checkAndConsume s key addition limits call.now).1,
          (checkAndConsume s key addition limits call.now).2)) ∨
      (step loc s call = (some .quotaAllowed, s) ∧ ∀ c, call.amount c = 0) := by
  cases call with
  | saveUsage force interval now => cases haccount
  | saveFailed now => cases haccount
  | tryConsumeAccountMessage accountAddress limits' now =>
    cases haccount
    cases hlimits
    left
    refine ⟨fun | .messages => 1 | .recipients => 0, fun c => by cases c <;> rfl, ?_⟩
    simp only [step, Step.charge, henabled, Bool.true_eq_false, hkey, or_self, if_false]
    rfl
  | tryConsumeAccountRecipients accountAddress limits' recipientCount now =>
    cases haccount
    cases hlimits
    by_cases hcount : recipientCount ≤ 0
    · right
      refine ⟨?_, fun c => ?_⟩
      · simp only [step, Step.charge, hcount, true_or, or_true, if_true]
      · cases c
        · rfl
        · exact Int.toNat_of_nonpos hcount
    · left
      refine ⟨fun | .messages => 0 | .recipients => recipientCount.toNat, fun c => by cases c <;> rfl, ?_⟩
      simp only [step, Step.charge, henabled, Bool.true_eq_false, hkey, hcount, or_self, if_false]
      rfl

theorem isEnabled_of_pos (h : 0 < limits.max c) : limits.isEnabled = true := by
  unfold AccountSendingLimits.isEnabled
  cases c <;> simp [h]

/-- Where a ceiling is not exceeded there is room for the addition, if there is one. -/
theorem room_of_not_exceeds {buckets : UsageBuckets} {addition : Counter → Nat}
    (h : exceeds limits buckets addition c = false) (hpos : 0 < limits.max c) (hsome : addition c ≠ 0) :
    (total buckets c + addition c : Int) ≤ limits.max c := by
  unfold exceeds sumUsage at h
  rw [decide_eq_false_iff_not, not_and, not_lt] at h
  have hsum := h hpos
  have hmax := limits.max_le c
  unfold intMax at hsum hmax
  omega

/-- What a call does to the buckets of its account. -/
theorem usage_checkAndConsumeEntry (addition : Counter → Nat) (now : Nat) :
    ((checkAndConsumeEntry s key addition limits now).1 ≠ .quotaAllowed ∧
        (checkAndConsumeEntry s key addition limits now).2.usage key =
          pruneUsage (s.usage key) now (getPeriodSeconds limits)) ∨
      ((checkAndConsumeEntry s key addition limits now).1 = .quotaAllowed ∧
        (∀ c, exceeds limits (pruneUsage (s.usage key) now (getPeriodSeconds limits)) addition c = false) ∧
        (checkAndConsumeEntry s key addition limits now).2.usage key =
          recordUsage (pruneUsage (s.usage key) now (getPeriodSeconds limits)) addition now (getPeriodSeconds limits)) := by
  unfold checkAndConsumeEntry
  dsimp only
  split
  · left
    refine ⟨by simp, ?_⟩
    rw [usage_set, if_pos rfl]
  split
  · left
    refine ⟨by simp, ?_⟩
    rw [usage_set, if_pos rfl]
  · rename_i hmessages hrecipients
    right
    refine ⟨rfl, fun c => ?_, ?_⟩
    · cases c
      · exact Bool.eq_false_iff.2 hmessages
      · exact Bool.eq_false_iff.2 hrecipients
    · rw [usage_set, if_pos rfl]

/-- The buckets of other accounts are only pruned of what is older than any period. -/
theorem usage_of_other {call : Step} (hcap : s.accountUsage.size < kMaxAccountEntries) (hother : call.account loc ≠ some key) :
    (step loc s call).2.usage key = s.usage key ∨
      (step loc s call).2.usage key = pruneUsage (s.usage key) call.now (kMaxPeriodHours.toNat * 3600) := by
  have hconsume : ∀ (other : WString) (addition : Counter → Nat) (limits : AccountSendingLimits) (now : Nat), other ≠ key →
      (checkAndConsume s other addition limits now).2.usage key = s.usage key := by
    intro other addition limits now hne
    rw [checkAndConsume_eq hcap]
    unfold checkAndConsumeEntry
    dsimp only
    split
    · rw [usage_set, if_neg hne.symm]
      rfl
    split
    · rw [usage_set, if_neg hne.symm]
      rfl
    · rw [usage_set, if_neg hne.symm]
      rfl
  cases call with
  | saveUsage force interval now => exact usage_saveUsage s key force interval now
  | saveFailed now => exact .inl rfl
  | tryConsumeAccountMessage accountAddress limits' now =>
    left
    have hne : normalizeAccountKey loc accountAddress ≠ key := fun h => hother (congrArg some h)
    unfold step
    dsimp only [Step.charge]
    split
    · rfl
    · rename_i charge hcharge
      split at hcharge
      · cases hcharge
      · cases hcharge
        exact hconsume _ _ _ _ hne
  | tryConsumeAccountRecipients accountAddress limits' recipientCount now =>
    left
    have hne : normalizeAccountKey loc accountAddress ≠ key := fun h => hother (congrArg some h)
    unfold step
    dsimp only [Step.charge]
    split
    · rfl
    · rename_i charge hcharge
      split at hcharge
      · cases hcharge
      · cases hcharge
        exact hconsume _ _ _ _ hne

end OneStep

/-! ## Runs -/

/-- The calls of an account that a run answered with an allowance, each with its
    time and the amount it asked for. -/
def allowed (loc : Locale) (key : WString) (c : Counter) (calls : List Step) (answers : List (Option AccountQuotaResult)) :
    List (Nat × Nat) :=
  (calls.zip answers).filterMap fun answered =>
    if answered.1.account loc = some key ∧ answered.2 = some .quotaAllowed then
      some (answered.1.now, answered.1.amount c) else none

/-- What dated amounts add up to in the period that begins at a time. -/
def within (periodSeconds first : Nat) (events : List (Nat × Nat)) : Nat :=
  weigh (fun t => first ≤ t ∧ t < first + periodSeconds) events

/-- A call less than a period after an earlier one, but a period or more after the
    start of the slot the earlier one fell in: the earlier one has left the count. -/
def Forgotten (periodSeconds earlier now : Nat) : Prop :=
  slot periodSeconds earlier + periodSeconds ≤ now ∧ now < earlier + periodSeconds

instance (periodSeconds earlier now : Nat) : Decidable (Forgotten periodSeconds earlier now) :=
  inferInstanceAs (Decidable (_ ∧ _))

section Runs

variable {loc : Locale} {key : WString} {limits : AccountSendingLimits} {c : Counter}

theorem Covers.skip {events : List (Nat × Nat)} {now t : Nat} {own : UsageBuckets} (h : Covers limits c events now own) :
    Covers limits c (events ++ [(t, 0)]) now own where
  ascending := h.ascending
  aligned := h.aligned
  past := h.past
  few := h.few
  covered := by
    intro x hx
    rw [weigh_snoc, ite_self]
    exact h.covered x hx

/-- What a ceiling's check at a time has seen of the amounts that are less than a
    period old. -/
theorem within_le_total {events : List (Nat × Nat)} {now : Nat} {older own : UsageBuckets}
    (h : Covers limits c events now own) (hgap : ∀ e ∈ events, ¬Forgotten (getPeriodSeconds limits) e.1 now) (first : Nat)
    (hfirst : now < first + getPeriodSeconds limits) :
    within (getPeriodSeconds limits) first events ≤ total (older ++ own) c := by
  have hcovered := h.covered (now + 1 - getPeriodSeconds limits) (by omega)
  have hstamps := weigh_stamped_le (fun t => now + 1 - getPeriodSeconds limits ≤ t) c own
  have htotal : total own c ≤ total (older ++ own) c := by
    unfold total
    rw [List.map_append, List.sum_append]
    exact Nat.le_add_left _ _
  have hmono : within (getPeriodSeconds limits) first events ≤
      weigh (fun t => now + 1 - getPeriodSeconds limits ≤ slot (getPeriodSeconds limits) t) events := by
    apply weigh_mono
    intro e he hwithin
    have hkept := hgap e he
    unfold Forgotten at hkept
    rw [decide_eq_true_eq] at hwithin ⊢
    omega
  omega

/-- One call of the account: the cover is kept, and what it is allowed fits in every
    period. -/
theorem account_step {s : State} {call : Step} {events : List (Nat × Nat)} {now : Nat} {older own : UsageBuckets}
    (hkey : key ≠ []) (hpos : 0 < limits.max c) (hcap : s.accountUsage.size < kMaxAccountEntries)
    (haccount : call.account loc = some key) (hlimits : call.limits = some limits) (hnow : now ≤ call.now)
    (husage : s.usage key = older ++ own) (hcovers : Covers limits c events now own)
    (hgap : ∀ e ∈ events, ¬Forgotten (getPeriodSeconds limits) e.1 call.now)
    (hwithin : ∀ first, (within (getPeriodSeconds limits) first events : Int) ≤ limits.max c) :
    ∃ older' own', (step loc s call).2.usage key = older' ++ own' ∧
      Covers limits c (events ++ allowed loc key c [call] [(step loc s call).1]) call.now own' ∧
      ∀ first, (within (getPeriodSeconds limits) first (events ++ allowed loc key c [call] [(step loc s call).1]) : Int) ≤
        limits.max c := by
  obtain ⟨addition, hamount, hstep⟩ | ⟨hstep, hzero⟩ := charge_eq (s := s) hkey haccount hlimits (isEnabled_of_pos hpos)
  · rw [checkAndConsume_eq hcap] at hstep
    obtain ⟨older', own', hpruned, hcovers'⟩ := @covers_pruneUsage _ _ _ _ _ _ older _ hcovers hnow le_rfl
    obtain ⟨hrefused, husage'⟩ | ⟨hallowed, hfits, husage'⟩ :=
      @usage_checkAndConsumeEntry s key limits addition call.now
    · -- refused: nothing is added to the events, and old buckets have gone
      have hnone : allowed loc key c [call] [(step loc s call).1] = [] := by
        simp [allowed, hstep, hrefused]
      rw [hnone, List.append_nil]
      rw [husage, hpruned] at husage'
      exact ⟨older', own', by rw [hstep]; exact husage', hcovers', hwithin⟩
    · have hone : allowed loc key c [call] [(step loc s call).1] = [(call.now, addition c)] := by
        simp [allowed, hstep, hallowed, haccount, hamount c]
      rw [hone]
      rw [husage, hpruned] at husage' hfits
      have hpast := pruneUsage_past (older ++ own) call.now (getPeriodSeconds limits)
      have hlength := length_pruneUsage (older ++ own) call.now (getPeriodSeconds limits)
      rw [hpruned] at hpast hlength
      have hroom : addition c = 0 ∨ (total (older' ++ own') c + addition c : Int) ≤ limits.max c := by
        by_cases hsome : addition c = 0
        · exact .inl hsome
        · exact .inr (room_of_not_exceeds (hfits c) hpos hsome)
      have hint : addition c = 0 ∨ total (older' ++ own') c + addition c ≤ intMax := by
        have hmax := limits.max_le c
        omega
      obtain ⟨older'', own'', hrecorded, hcovers''⟩ := covers_recordUsage hcovers' hpast hlength addition hint
      refine ⟨older'', own'', by rw [hstep]; exact husage'.trans hrecorded, hcovers'', fun first => ?_⟩
      have hbefore := hwithin first
      unfold within at hbefore ⊢
      rw [weigh_snoc]
      split
      · rename_i hin
        rw [decide_eq_true_eq] at hin
        have hseen := @within_le_total _ _ _ _ older' _ hcovers' hgap first (by omega)
        unfold within at hseen
        omega
      · exact hbefore
  · have hone : allowed loc key c [call] [(step loc s call).1] = [(call.now, 0)] := by
      simp [allowed, hstep, haccount, hzero c]
    rw [hone]
    refine ⟨older, own, by rw [hstep]; exact husage, (hcovers.later hnow).skip, fun first => ?_⟩
    unfold within
    rw [weigh_snoc, ite_self]
    exact hwithin first

/-- A step that is not a call of the account. -/
theorem other_step {s : State} {call : Step} {events : List (Nat × Nat)} {now : Nat} {older own : UsageBuckets}
    (hcap : s.accountUsage.size < kMaxAccountEntries) (hother : call.account loc ≠ some key) (hnow : now ≤ call.now)
    (husage : s.usage key = older ++ own) (hcovers : Covers limits c events now own) :
    ∃ older' own', (step loc s call).2.usage key = older' ++ own' ∧
      Covers limits c (events ++ allowed loc key c [call] [(step loc s call).1]) call.now own' := by
  have hnone : allowed loc key c [call] [(step loc s call).1] = [] := by
    simp [allowed, hother]
  rw [hnone, List.append_nil]
  obtain hsame | hpruned := usage_of_other hcap hother
  · exact ⟨older, own, hsame.trans husage, hcovers.later hnow⟩
  · rw [husage] at hpruned
    obtain ⟨older', own', hlive, hcovers'⟩ := @covers_pruneUsage _ _ _ _ _ _ older _ hcovers hnow (periodSeconds_le limits)
    exact ⟨older', own', hpruned.trans hlive, hcovers'⟩

theorem allowed_cons (call : Step) (calls : List Step) (s : State) :
    allowed loc key c (call :: calls) (run loc s (call :: calls)).1 =
      allowed loc key c [call] [(step loc s call).1] ++
        allowed loc key c calls (run loc (step loc s call).2 calls).1 := by
  have hrun : (run loc s (call :: calls)).1 = (step loc s call).1 :: (run loc (step loc s call).2 calls).1 := rfl
  unfold allowed
  rw [hrun, List.zip_cons_cons, List.zip_cons_cons, List.zip_nil_left, ← List.filterMap_append, List.singleton_append]

/-- Nothing is allowed in a run that does not fit in every period. -/
theorem run_within (hkey : key ≠ []) (hpos : 0 < limits.max c) (calls : List Step) :
    ∀ (s : State) (events : List (Nat × Nat)) (now : Nat) (older own : UsageBuckets),
      s.usage key = older ++ own → Covers limits c events now own →
      (∀ call ∈ calls, now ≤ call.now) → calls.Pairwise (fun a b => a.now ≤ b.now) →
      (∀ call ∈ calls, call.account loc = some key → call.limits = some limits) →
      (∀ state ∈ states loc s calls, state.accountUsage.size < kMaxAccountEntries) →
      calls.Pairwise (fun a b => a.account loc = some key → b.account loc = some key →
        ¬Forgotten (getPeriodSeconds limits) a.now b.now) →
      (∀ e ∈ events, ∀ call ∈ calls, call.account loc = some key → ¬Forgotten (getPeriodSeconds limits) e.1 call.now) →
      (∀ first, (within (getPeriodSeconds limits) first events : Int) ≤ limits.max c) →
      ∀ first, (within (getPeriodSeconds limits) first (events ++ allowed loc key c calls (run loc s calls).1) : Int) ≤
        limits.max c := by
  induction calls with
  | nil =>
    intro s events now older own _ _ _ _ _ _ _ _ hwithin first
    simpa [allowed] using hwithin first
  | cons call calls ih =>
    intro s events now older own husage hcovers hnow hclock hlimits hcap hgap hpast hwithin
    rw [List.forall_mem_cons] at hnow hlimits
    have hcap' : s.accountUsage.size < kMaxAccountEntries := hcap s (by simp [states])
    obtain ⟨hlater, hclock⟩ := List.pairwise_cons.1 hclock
    obtain ⟨hgaps, hgap⟩ := List.pairwise_cons.1 hgap
    rw [allowed_cons, ← List.append_assoc]
    have hstep : ∃ older' own', (step loc s call).2.usage key = older' ++ own' ∧
        Covers limits c (events ++ allowed loc key c [call] [(step loc s call).1]) call.now own' ∧
        ∀ first, (within (getPeriodSeconds limits) first (events ++ allowed loc key c [call] [(step loc s call).1]) : Int) ≤
          limits.max c := by
      by_cases haccount : call.account loc = some key
      · exact account_step hkey hpos hcap' haccount (hlimits.1 haccount) hnow.1 husage hcovers
          (fun e he => hpast e he call List.mem_cons_self haccount) hwithin
      · obtain ⟨older', own', husage', hcovers'⟩ := other_step hcap' haccount hnow.1 husage hcovers
        have hnone : allowed loc key c [call] [(step loc s call).1] = [] := by
          simp [allowed, haccount]
        refine ⟨older', own', husage', hcovers', ?_⟩
        rw [hnone, List.append_nil]
        exact hwithin
    obtain ⟨older', own', husage', hcovers', hwithin'⟩ := hstep
    apply ih (step loc s call).2 _ call.now older' own' husage' hcovers' hlater hclock hlimits.2
      (fun state hstate => hcap state (List.mem_cons_of_mem _ hstate)) hgap _ hwithin'
    -- the call itself is one of the earlier ones from here on
    intro e he later hlater' haccount'
    obtain he | he := List.mem_append.1 he
    · exact hpast e he later (List.mem_cons_of_mem _ hlater') haccount'
    · unfold allowed at he
      simp only [List.zip_cons_cons, List.zip_nil_left, List.filterMap_cons, List.filterMap_nil] at he
      split at he
      · cases he
      · rename_i event hevent
        split at hevent
        · rename_i hown
          rw [Option.some.injEq] at hevent
          rw [List.mem_singleton.1 he, ← hevent]
          exact hgaps later hlater' hown.1 haccount'
        · cases hevent

/-- A call that is refused leaves the account the counts it was refused for. -/
theorem usage_of_refused {s : State} {call : Step} {answer : AccountQuotaResult} (hkey : key ≠ [])
    (hcap : s.accountUsage.size < kMaxAccountEntries) (haccount : call.account loc = some key)
    (hlimits : call.limits = some limits) (hanswer : (step loc s call).1 = some answer) (hrefused : answer ≠ .quotaAllowed) :
    (step loc s call).2.usage key = pruneUsage (s.usage key) call.now (getPeriodSeconds limits) := by
  have henabled : limits.isEnabled = true := by
    by_contra hdisabled
    rw [Bool.not_eq_true] at hdisabled
    cases call with
    | saveUsage force interval now => cases haccount
    | saveFailed now => cases haccount
    | tryConsumeAccountMessage accountAddress limits' now =>
      cases hlimits
      simp only [step, Step.charge, hdisabled, true_or, if_true, Option.some.injEq] at hanswer
      exact hrefused hanswer.symm
    | tryConsumeAccountRecipients accountAddress limits' recipientCount now =>
      cases hlimits
      simp only [step, Step.charge, hdisabled, true_or, if_true, Option.some.injEq] at hanswer
      exact hrefused hanswer.symm
  obtain ⟨addition, _, hstep⟩ | ⟨hstep, _⟩ := charge_eq (s := s) hkey haccount hlimits henabled
  · rw [checkAndConsume_eq hcap] at hstep
    rw [hstep] at hanswer ⊢
    obtain ⟨_, husage⟩ | ⟨hallowed, _⟩ :=
      @usage_checkAndConsumeEntry s key limits addition call.now
    · exact husage
    · rw [hallowed, Option.some.injEq] at hanswer
      exact absurd hanswer.symm hrefused
  · rw [hstep, Option.some.injEq] at hanswer
    exact absurd hanswer.symm hrefused

end Runs

/-- Over every run in which no call comes after the slot of an earlier one has
    expired but before that call is a period old, an account is allowed no more than
    its ceiling in any period, and a refused call leaves its counts as they were. -/
theorem sending_quota (loc : Locale) (s : State) (calls : List Step) (key : WString) (limits : AccountSendingLimits)
    (hkey : key ≠ []) (hclock : calls.Pairwise fun a b => a.now ≤ b.now)
    (hlimits : ∀ call ∈ calls, call.account loc = some key → call.limits = some limits)
    (hcap : ∀ state ∈ states loc s calls, state.accountUsage.size < kMaxAccountEntries)
    (hgap : calls.Pairwise fun a b => a.account loc = some key → b.account loc = some key →
      ¬Forgotten (getPeriodSeconds limits) a.now b.now) :
    (∀ c, 0 < limits.max c → ∀ first,
      (within (getPeriodSeconds limits) first (allowed loc key c calls (run loc s calls).1) : Int) ≤ limits.max c) ∧
    ∀ state ∈ states loc s calls, ∀ call answer, call.account loc = some key → call.limits = some limits →
      (step loc state call).1 = some answer → answer ≠ .quotaAllowed → ∀ c,
        sumUsage ((step loc state call).2.usage key) c = countAt state key limits call.now c := by
  constructor
  · intro c hpos first
    have hwithin := run_within hkey hpos calls s [] 0 (s.usage key) [] (List.append_nil _).symm Covers.nil
      (fun _ _ => Nat.zero_le _) hclock hlimits hcap hgap (by simp) (by intro first; simp [within, weigh]; omega) first
    rwa [List.nil_append] at hwithin
  · intro state hstate call answer haccount hlimits' hanswer hrefused c
    rw [usage_of_refused hkey (hcap state hstate) haccount hlimits' hanswer hrefused]
    rfl

/-- One message an hour. -/
def oneAnHour : AccountSendingLimits where
  max
    | .messages => 1
    | .recipients => 0
  periodHours := 1
  max_le := by
    intro c
    cases c <;> decide

def messageAt (now : Nat) : Step := .tryConsumeAccountMessage (wide "a@b") oneAnHour now

theorem sending_quota_hourly :
    (within 3600 0 (allowed classicLocale (wide "a@b") .messages [messageAt 0, messageAt 3600, messageAt 3650]
      (run classicLocale {} [messageAt 0, messageAt 3600, messageAt 3650]).1) : Int) ≤ 1 :=
  (sending_quota classicLocale {} [messageAt 0, messageAt 3600, messageAt 3650] (wide "a@b") oneAnHour (by decide)
    (by decide) (by simp [messageAt, Step.limits]) (by decide) (by decide)).1 .messages (by decide) 0

/-- Two messages within the hour: the first, sent 149 seconds into its slot, is
    forgotten when the slot is an hour old. -/
theorem sending_quota_exceeded :
    [messageAt 149, messageAt 3600].Pairwise (fun a b => a.now ≤ b.now) ∧
    (∀ call ∈ [messageAt 149, messageAt 3600], call.limits = some oneAnHour) ∧
    (∀ state ∈ states classicLocale {} [messageAt 149, messageAt 3600], state.accountUsage.size < kMaxAccountEntries) ∧
    0 < oneAnHour.max .messages ∧
    ¬(within (getPeriodSeconds oneAnHour) 149 (allowed classicLocale (wide "a@b") .messages
      [messageAt 149, messageAt 3600] (run classicLocale {} [messageAt 149, messageAt 3600]).1) : Int) ≤
        oneAnHour.max .messages := by
  refine ⟨by decide, by simp [messageAt, Step.limits], by decide, by decide, by decide⟩

end HMailServer.RateLimiter
