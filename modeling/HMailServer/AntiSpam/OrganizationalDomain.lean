import HMailServer.AntiSpam.DmarcTreeWalk

/- Organizational domains do not cross a declared public suffix. A walk that
   starts below a name with `psd=y` either stops in the subtree of the label
   below that name, or stops at the name; either way the selected domain lies in
   that subtree. -/
namespace HMailServer
namespace DmarcTreeWalk

/-! ## Dotted names -/

/-- The name with these labels. -/
def dotted (labels : List WString) : WString := [46].intercalate labels

/-- No label is empty or has a dot. -/
def Labels (labels : List WString) : Prop := ∀ l ∈ labels, l ≠ [] ∧ 46 ∉ l

instance (labels : List WString) : Decidable (Labels labels) := inferInstanceAs (Decidable (∀ l ∈ labels, _))

theorem Labels.of_suffix {ls ms : List WString} (h : Labels ms) (hs : ls <:+ ms) : Labels ls :=
  fun l hl => h l (hs.subset hl)

theorem dotted_cons (l : WString) (ls : List WString) : dotted (l :: ls) = l ++ ls.flatMap fun m => 46 :: m := by
  induction ls generalizing l with
  | nil => simp [dotted]
  | cons m ls ih =>
    have hne : m :: ls ≠ [] := List.cons_ne_nil _ _
    have hrest := ih m
    rw [dotted] at hrest ⊢
    rw [List.intercalate_cons_of_ne_nil hne, hrest]
    simp

theorem foldl_join (ls : List WString) : ∀ t : WString, t ≠ [] →
    ls.foldl (fun target label => (if target = [] then target else target ++ [46]) ++ label) t =
      t ++ ls.flatMap fun m => 46 :: m := by
  induction ls with
  | nil => simp
  | cons l ls ih =>
    intro t ht
    rw [List.foldl_cons, if_neg ht, ih _ (by simp)]
    simp

/-- The loops of the source drop the empty labels in front. -/
theorem joinLabels_eq (ls : List WString) : joinLabels ls = dotted (ls.dropWhile fun l => l = []) := by
  induction ls with
  | nil => rfl
  | cons l ls ih =>
    by_cases hl : l = []
    · have hskip : joinLabels (l :: ls) = joinLabels ls := by
        rw [joinLabels, List.foldl_cons, hl]
        rfl
      rw [hskip, ih, List.dropWhile_cons_of_pos (by simpa using hl)]
    · rw [List.dropWhile_cons_of_neg (by simpa using hl), dotted_cons, joinLabels, List.foldl_cons, if_pos rfl,
        List.nil_append, foldl_join _ _ hl]

theorem joinLabels_of_labels {ls : List WString} (h : Labels ls) : joinLabels ls = dotted ls := by
  rw [joinLabels_eq]
  cases ls with
  | nil => rfl
  | cons l ls =>
    have hl := (h l List.mem_cons_self).1
    rw [List.dropWhile_cons_of_neg (by simpa using hl)]

theorem splitString_dotted {ls : List WString} (h : Labels ls) : WString.splitString (dotted ls) 46 = ls := by
  by_cases hne : ls = []
  · rw [hne]
    rfl
  · have hsplit : (dotted ls).splitOn 46 = ls := List.splitOn_intercalate 46 (fun l hl => (h l hl).2) hne
    have hlast : ls.getLast? ≠ some [] := by
      intro hl
      exact (h _ (List.mem_of_getLast? hl)).1 rfl
    rw [WString.splitString, hsplit, if_neg hlast]

theorem dotted_inj {ls ms : List WString} (hl : Labels ls) (hm : Labels ms) (h : dotted ls = dotted ms) : ls = ms := by
  rw [← splitString_dotted hl, h, splitString_dotted hm]

/-! ## Every answer is a suffix -/

/-- The labels of `s` are the last labels of `t`. -/
def LabelSuffix (s t : WString) : Prop := ∃ ls, ls <:+ WString.splitString t 46 ∧ s = dotted ls

theorem labelSuffix_joinLabels (t : WString) (i : Nat) : LabelSuffix (joinLabels ((WString.splitString t 46).drop i)) t :=
  ⟨_, (List.dropWhile_suffix _).trans (List.drop_suffix _ _), joinLabels_eq _⟩

theorem normalize_last (loc : Locale) (domain : WString) : (normalize loc domain).getLast? ≠ some 46 := by
  intro h
  have hne : normalize loc domain ≠ [] := by
    intro hnil
    rw [hnil] at h
    cases h
  have hlast := List.rdropWhile_last_not (· == 46) (WString.makeLower loc domain) hne
  rw [List.getLast?_eq_some_getLast hne, Option.some_inj] at h
  exact hlast (beq_iff_eq.2 h)

theorem dotted_splitString {s : WString} (h : s.getLast? ≠ some 46) : dotted (WString.splitString s 46) = s := by
  have hall : dotted (s.splitOn 46) = s := List.intercalate_splitOn 46
  rw [WString.splitString]
  split
  · rename_i hlast
    -- An empty last piece is an empty name or a dot at the end.
    have hparts := List.dropLast_append_getLast? [] hlast
    cases hinit : (s.splitOn 46).dropLast with
    | nil =>
      rw [hinit] at hparts
      rw [← hparts] at hall
      rw [← hall]
      rfl
    | cons l ms =>
      rw [hinit] at hparts
      rw [← hparts, List.cons_append, dotted_cons, List.flatMap_append] at hall
      rw [← hall] at h
      simp at h
  · exact hall

theorem labelSuffix_self (loc : Locale) (domain : WString) :
    LabelSuffix (normalize loc domain) (normalize loc domain) :=
  ⟨_, List.suffix_refl _, (dotted_splitString (normalize_last loc domain)).symm⟩

theorem mem_targets {lowerDomain t : WString} (h : t ∈ targets lowerDomain) :
    t = lowerDomain ∨ ∃ i, t = joinLabels ((WString.splitString lowerDomain 46).drop i) := by
  rw [targets] at h
  obtain h | h := List.mem_cons.1 h
  · exact .inl h
  · obtain ⟨i, _, rfl⟩ := List.mem_map.1 h
    exact .inr ⟨i, rfl⟩

theorem recordAt_domain (loc : Locale) (target record : WString) : (recordAt loc target record).domain = target := by
  unfold recordAt
  split <;> rfl

theorem walkTargets_domain (env : DmarcEnvironment) (ts : List WString) :
    ∀ r ∈ (walkTargets env ts).1, r.domain ∈ ts := by
  induction ts with
  | nil => intro r hr; cases hr
  | cons t ts ih =>
    intro r hr
    unfold walkTargets at hr
    split at hr
    · cases hr
    split at hr
    · exact List.mem_cons_of_mem _ (ih r hr)
    dsimp only at hr
    split at hr
    · rw [List.mem_singleton.1 hr, recordAt_domain]
      exact List.mem_cons_self
    · obtain hr | hr := List.mem_cons.1 hr
      · rw [hr, recordAt_domain]
        exact List.mem_cons_self
      · exact List.mem_cons_of_mem _ (ih r hr)

theorem fewestLabels_mem (first : WString) (records : List DmarcTreeWalkRecord) :
    fewestLabels first records = first ∨ ∃ r ∈ records, fewestLabels first records = r.domain := by
  induction records generalizing first with
  | nil => exact .inl rfl
  | cons r records ih =>
    have hstep : fewestLabels first (r :: records) = fewestLabels (if (WString.splitString r.domain 46).length <
        (WString.splitString first 46).length then r.domain else first) records := rfl
    rw [hstep]
    obtain heq | ⟨r', hr', heq⟩ := ih (if (WString.splitString r.domain 46).length <
        (WString.splitString first 46).length then r.domain else first)
    · rw [heq]
      split
      · exact .inr ⟨r, List.mem_cons_self, rfl⟩
      · exact .inl rfl
    · exact .inr ⟨r', List.mem_cons_of_mem _ hr', heq⟩

/-- The three rules: the selected domain is a record's, or one label below a
    `psd=y` record, or the start. -/
theorem select_cases (loc : Locale) (start : WString) (records : List DmarcTreeWalkRecord) :
    (∃ r ∈ records, selectOrganizationalDomain loc start records = r.domain) ∨
    (∃ r ∈ records, belowSuffix (normalize loc start) r = some (selectOrganizationalDomain loc start records)) ∨
    selectOrganizationalDomain loc start records = normalize loc start := by
  unfold selectOrganizationalDomain
  dsimp only
  cases hno : records.find? DmarcTreeWalkRecord.psdNo with
  | some r => exact .inl ⟨r, List.mem_of_find?_eq_some hno, rfl⟩
  | none =>
    dsimp only
    cases hbelow : records.findSome? (belowSuffix (normalize loc start)) with
    | some d =>
      obtain ⟨r, hr, heq⟩ := List.exists_of_findSome?_eq_some hbelow
      exact .inr (.inl ⟨r, hr, heq⟩)
    | none =>
      cases records with
      | nil => exact .inr (.inr rfl)
      | cons first rest =>
        obtain heq | ⟨r, hr, heq⟩ := fewestLabels_mem first.domain (first :: rest)
        · exact .inl ⟨first, List.mem_cons_self, heq⟩
        · exact .inl ⟨r, hr, heq⟩

theorem belowSuffix_eq {lowerStart d : WString} {r : DmarcTreeWalkRecord} (h : belowSuffix lowerStart r = some d) :
    (WString.splitString r.domain 46).length < (WString.splitString lowerStart 46).length ∧
    d = joinLabels ((WString.splitString lowerStart 46).drop
      ((WString.splitString lowerStart 46).length - ((WString.splitString r.domain 46).length + 1))) := by
  unfold belowSuffix at h
  split at h
  · cases h
  dsimp only at h
  split at h
  · cases h
  · rename_i hlen
    cases h
    exact ⟨by omega, rfl⟩

/-- For every domain, the organizational domain is made of its last labels. -/
theorem select_labelSuffix (env : DmarcEnvironment) (domain : WString) :
    LabelSuffix (selectOrganizationalDomain env.loc domain (walk env domain).1) (normalize env.loc domain) := by
  have hrecords : ∀ r ∈ (walk env domain).1, LabelSuffix r.domain (normalize env.loc domain) := by
    intro r hr
    unfold walk at hr
    dsimp only at hr
    split at hr
    · cases hr
    split at hr
    · cases hr
    obtain heq | ⟨i, heq⟩ := mem_targets (walkTargets_domain env _ r hr)
    · rw [heq]
      exact labelSuffix_self env.loc domain
    · rw [heq]
      exact labelSuffix_joinLabels _ i
  obtain ⟨r, hr, heq⟩ | ⟨r, hr, heq⟩ | heq := select_cases env.loc domain (walk env domain).1
  · rw [heq]
    exact hrecords r hr
  · rw [(belowSuffix_eq heq).2]
    exact labelSuffix_joinLabels _ _
  · rw [heq]
    exact labelSuffix_self env.loc domain

/-! ## Below a public suffix -/

/-- The name publishes one record of this version, and it says `psd=y`. -/
def DeclaresSuffix (env : DmarcEnvironment) (name : WString) : Prop :=
  ∃ txtRecords record, env.getTXTRecords (wide "_dmarc." ++ name) = some txtRecords ∧
    selectSingleRecord env.loc txtRecords = some record ∧ getTag env.loc record (wide "psd") = some (wide "y")

/-- A walk through `sub` to a public suffix: it stops before it, or all records
    before it are without a psd answer. -/
theorem walkTargets_suffix {env : DmarcEnvironment} (hdns : ∀ name, env.getTXTRecords name ≠ none) {p : WString}
    (hp : DeclaresSuffix env p) (rest sub : List WString) :
    (walkTargets env (sub ++ p :: rest)).2 = false ∧
    ((∀ r ∈ (walkTargets env (sub ++ p :: rest)).1, r.domain ∈ sub) ∨
      ∃ before record, (walkTargets env (sub ++ p :: rest)).1 = before ++ [⟨p, record, true, false⟩] ∧
        ∀ r ∈ before, r.psdYes = false ∧ r.psdNo = false) := by
  induction sub with
  | nil =>
    obtain ⟨txtRecords, record, htxt, hselect, htag⟩ := hp
    have hfound : recordAt env.loc p record = ⟨p, record, true, false⟩ := by
      rw [recordAt, htag]
      rfl
    have hstop : walkTargets env (p :: rest) = ([⟨p, record, true, false⟩], false) := by
      rw [walkTargets, htxt]
      dsimp only
      rw [hselect]
      dsimp only
      rw [hfound]
      rfl
    rw [List.nil_append, hstop]
    exact ⟨rfl, .inr ⟨[], record, rfl, fun r hr => absurd hr List.not_mem_nil⟩⟩
  | cons t sub ih =>
    obtain ⟨herror, hwalk⟩ := ih
    rw [List.cons_append, walkTargets]
    cases htxt : env.getTXTRecords (wide "_dmarc." ++ t) with
    | none => exact absurd htxt (hdns _)
    | some txtRecords =>
      dsimp only
      cases hselect : selectSingleRecord env.loc txtRecords with
      | none =>
        refine ⟨herror, ?_⟩
        obtain hsub | hreach := hwalk
        · exact .inl fun r hr => List.mem_cons_of_mem _ (hsub r hr)
        · exact .inr hreach
      | some record =>
        dsimp only
        split
        · refine ⟨rfl, .inl fun r hr => ?_⟩
          rw [List.mem_singleton.1 hr, recordAt_domain]
          exact List.mem_cons_self
        · rename_i hpsd
          refine ⟨herror, ?_⟩
          obtain hsub | ⟨before, record', heq, hbefore⟩ := hwalk
          · refine .inl fun r hr => ?_
            obtain hr | hr := List.mem_cons.1 hr
            · rw [hr, recordAt_domain]
              exact List.mem_cons_self
            · exact List.mem_cons_of_mem _ (hsub r hr)
          · refine .inr ⟨recordAt env.loc t record :: before, record', by rw [heq]; rfl, fun r hr => ?_⟩
            obtain hr | hr := List.mem_cons.1 hr
            · rw [hr]
              simpa using hpsd
            · exact hbefore r hr

section BelowSuffix

variable {xs ps : List WString} {a : WString}

/-- The name is `a` below the suffix, or below that. -/
def Under (a : WString) (ps : List WString) (name : WString) : Prop := ∃ ys, Labels ys ∧ name = dotted (ys ++ a :: ps)

/-- The names the walk asks about before the suffix all lie in the subtree. -/
theorem targets_split (hl : Labels (xs ++ a :: ps)) (hne : ps ≠ []) (hsix : ps.length ≤ 6) :
    ∃ sub rest, targets (dotted (xs ++ a :: ps)) = sub ++ dotted ps :: rest ∧
      ∀ t ∈ sub, ∃ ys, ys <:+ xs ∧ t = dotted (ys ++ a :: ps) := by
  have hpos : 0 < ps.length := List.length_pos_of_ne_nil hne
  have hlen : (xs ++ a :: ps).length = xs.length + (ps.length + 1) := by simp
  have hdrop : (xs ++ a :: ps).drop (xs.length + 1) = ps := by
    rw [← List.drop_drop (i := 1) (j := xs.length), List.drop_left]
    rfl
  -- Where the walk goes on after the first name: never above the label below the suffix.
  obtain ⟨start, hstart, hle⟩ : ∃ start, (if 8 ≤ (xs ++ a :: ps).length then (xs ++ a :: ps).length - maxLabelsWalked
      else 1) = start ∧ start ≤ xs.length + 1 := by
    refine ⟨_, rfl, ?_⟩
    rw [hlen, maxLabelsWalked]
    split <;> omega
  have hrange : List.range' start ((xs ++ a :: ps).length - start) =
      List.range' start (xs.length + 1 - start) ++ (xs.length + 1) :: List.range' (xs.length + 2) (ps.length - 1) := by
    have hcount : (xs ++ a :: ps).length - start = (xs.length + 1 - start) + (1 + (ps.length - 1)) := by omega
    rw [hcount, ← List.range'_append, Nat.add_comm 1, List.range'_succ]
    have hmid : start + 1 * (xs.length + 1 - start) = xs.length + 1 := by omega
    rw [hmid]
  refine ⟨dotted (xs ++ a :: ps) :: (List.range' start (xs.length + 1 - start)).map
      fun i => joinLabels ((xs ++ a :: ps).drop i),
    (List.range' (xs.length + 2) (ps.length - 1)).map fun i => joinLabels ((xs ++ a :: ps).drop i), ?_, ?_⟩
  · rw [targets, splitString_dotted hl, hstart, hrange, List.map_append, List.map_cons, hdrop, joinLabels_of_labels (hl.of_suffix ⟨xs ++ [a], by simp⟩)]
    rfl
  · intro t ht
    obtain ht | ht := List.mem_cons.1 ht
    · exact ⟨xs, List.suffix_refl _, ht⟩
    · obtain ⟨i, hi, rfl⟩ := List.mem_map.1 ht
      have hi := List.mem_range'_1.1 hi
      refine ⟨xs.drop i, List.drop_suffix _ _, ?_⟩
      rw [joinLabels_of_labels (hl.of_suffix (List.drop_suffix _ _)), List.drop_append_of_le_length (by omega)]

/-- Records of the subtree only: each rule stays in it. -/
theorem select_under {loc : Locale} {start : WString} (hl : Labels (xs ++ a :: ps))
    (hstart : normalize loc start = dotted (xs ++ a :: ps)) {records : List DmarcTreeWalkRecord}
    (h : ∀ r ∈ records, ∃ ys, ys <:+ xs ∧ r.domain = dotted (ys ++ a :: ps)) :
    Under a ps (selectOrganizationalDomain loc start records) := by
  have hxs : Labels xs := fun l hl' => hl l (List.mem_append_left _ hl')
  obtain ⟨r, hr, heq⟩ | ⟨r, hr, heq⟩ | heq := select_cases loc start records
  · obtain ⟨ys, hys, hdomain⟩ := h r hr
    exact ⟨ys, hxs.of_suffix hys, heq.trans hdomain⟩
  · obtain ⟨ys, hys, hdomain⟩ := h r hr
    have hsub : ys ++ a :: ps <:+ xs ++ a :: ps := by
      obtain ⟨front, rfl⟩ := hys
      exact ⟨front, by simp⟩
    obtain ⟨hlt, hd⟩ := belowSuffix_eq heq
    rw [hstart, splitString_dotted hl, hdomain, splitString_dotted (hl.of_suffix hsub)] at hlt hd
    simp only [List.length_append, List.length_cons] at hlt hd
    refine ⟨xs.drop (xs.length - (ys.length + 1)), hxs.of_suffix (List.drop_suffix _ _), ?_⟩
    have hindex : xs.length + (ps.length + 1) - (ys.length + (ps.length + 1) + 1) = xs.length - (ys.length + 1) := by
      omega
    rw [hd, hindex, joinLabels_of_labels (hl.of_suffix (List.drop_suffix _ _)),
      List.drop_append_of_le_length (by omega)]
  · exact ⟨xs, hxs, heq.trans hstart⟩

/-- The suffix was reached: one label below it. -/
theorem select_reached {loc : Locale} {start : WString} (hl : Labels (xs ++ a :: ps))
    (hstart : normalize loc start = dotted (xs ++ a :: ps)) {before : List DmarcTreeWalkRecord} {record : WString}
    (h : ∀ r ∈ before, r.psdYes = false ∧ r.psdNo = false) :
    selectOrganizationalDomain loc start (before ++ [⟨dotted ps, record, true, false⟩]) = dotted (a :: ps) := by
  have hps : Labels ps := hl.of_suffix ⟨xs ++ [a], by simp⟩
  have hne : dotted ps ≠ dotted (xs ++ a :: ps) := by
    intro heq
    have hlen := congrArg List.length (dotted_inj hps hl heq)
    simp only [List.length_append, List.length_cons] at hlen
    omega
  have hno : (before ++ [(⟨dotted ps, record, true, false⟩ : DmarcTreeWalkRecord)]).find? DmarcTreeWalkRecord.psdNo = none := by
    rw [List.find?_eq_none]
    intro r hr
    obtain hr | hr := List.mem_append.1 hr
    · simp [(h r hr).2]
    · rw [List.mem_singleton.1 hr]
      exact Bool.false_ne_true
  have hbefore : before.findSome? (belowSuffix (dotted (xs ++ a :: ps))) = none := by
    rw [List.findSome?_eq_none_iff]
    intro r hr
    rw [belowSuffix, (h r hr).1]
    rfl
  have hlast : belowSuffix (dotted (xs ++ a :: ps)) ⟨dotted ps, record, true, false⟩ = some (dotted (a :: ps)) := by
    have hdrop : (xs ++ a :: ps).drop ((xs ++ a :: ps).length - (ps.length + 1)) = a :: ps := by
      have hindex : (xs ++ a :: ps).length - (ps.length + 1) = xs.length := by simp
      rw [hindex, List.drop_left]
    unfold belowSuffix
    rw [splitString_dotted hl, splitString_dotted hps, if_neg (by simpa using hne)]
    dsimp only
    rw [if_neg (by simp; omega), hdrop, joinLabels_of_labels (hl.of_suffix ⟨xs, rfl⟩)]
  unfold selectOrganizationalDomain
  dsimp only
  rw [hno, hstart, List.findSome?_append, hbefore, Option.none_or, List.findSome?_cons, hlast]

end BelowSuffix

/-- The walk from a name below a public suffix completes, and what it selects
    lies below the same label. -/
theorem walk_under {env : DmarcEnvironment} (hdns : ∀ name, env.getTXTRecords name ≠ none) {xs ps : List WString}
    {a start : WString} (hl : Labels (xs ++ a :: ps)) (hne : ps ≠ []) (hsix : ps.length ≤ 6)
    (hsuffix : DeclaresSuffix env (dotted ps)) (hstart : normalize env.loc start = dotted (xs ++ a :: ps)) :
    Under a ps (selectOrganizationalDomain env.loc start (walk env start).1) := by
  obtain ⟨sub, rest, htargets, hsub⟩ := targets_split hl hne hsix
  have hlabels : WString.splitString (dotted (xs ++ a :: ps)) 46 ≠ [] := by
    rw [splitString_dotted hl]
    simp
  have hnil : dotted (xs ++ a :: ps) ≠ [] := by
    intro h
    rw [h] at hlabels
    exact hlabels rfl
  have hwalk : walk env start = walkTargets env (sub ++ dotted ps :: rest) := by
    unfold walk
    rw [hstart]
    dsimp only
    rw [if_neg hnil, if_neg hlabels, htargets]
  obtain ⟨_, hstopped | ⟨before, record, heq, hbefore⟩⟩ := walkTargets_suffix hdns hsuffix rest sub
  · rw [hwalk]
    exact select_under hl hstart fun r hr => hsub _ (hstopped r hr)
  · rw [hwalk, heq, select_reached hl hstart hbefore]
    exact ⟨[], fun l hl' => absurd hl' List.not_mem_nil, rfl⟩

/-! ## Through the cache -/

section Cached

variable {env : DmarcEnvironment}

theorem walkTargets_complete (hdns : ∀ name, env.getTXTRecords name ≠ none) (ts : List WString) :
    (walkTargets env ts).2 = false := by
  induction ts with
  | nil => rfl
  | cons t ts ih =>
    rw [walkTargets]
    cases htxt : env.getTXTRecords (wide "_dmarc." ++ t) with
    | none => exact absurd htxt (hdns _)
    | some txtRecords =>
      dsimp only
      split
      · exact ih
      · split
        · rfl
        · exact ih

theorem walk_complete (hdns : ∀ name, env.getTXTRecords name ≠ none) (domain : WString) :
    (walk env domain).2 = false := by
  unfold walk
  dsimp only
  split
  · rfl
  split
  · rfl
  · exact walkTargets_complete hdns _

/-- The answer without a cache. -/
def walked (env : DmarcEnvironment) (lowerDomain : WString) : WString :=
  selectOrganizationalDomain env.loc lowerDomain (walk env lowerDomain).1

/-- Every remembered answer is the walk's. -/
def CacheSound (env : DmarcEnvironment) (cache : Cache) : Prop :=
  ∀ entry ∈ cache, entry.2.organizationalDomain = walked env entry.1

theorem CacheSound.filter {cache : Cache} (h : CacheSound env cache) (p : WString × CacheEntry → Bool) :
    CacheSound env (cache.filter p) :=
  fun entry hentry => h entry (List.mem_of_mem_filter hentry)

theorem storeAnswer_sound {cache : Cache} (h : CacheSound env cache) (now : Nat) (lowerDomain : WString) :
    CacheSound env (storeAnswer cache now lowerDomain (walked env lowerDomain)) := by
  intro entry hentry
  obtain rfl | hentry := List.mem_cons.1 hentry
  · rfl
  · have hentry := List.mem_of_mem_filter hentry
    split at hentry
    · cases hentry
    · exact h entry hentry

theorem walkAndStore_spec (hdns : ∀ name, env.getTXTRecords name ≠ none) {cache : Cache} (h : CacheSound env cache)
    (now : Nat) (lowerDomain : WString) :
    CacheSound env (walkAndStore env cache now lowerDomain).1 ∧
      (walkAndStore env cache now lowerDomain).2 = (walked env lowerDomain, false) := by
  unfold walkAndStore
  dsimp only
  rw [walk_complete hdns]
  exact ⟨storeAnswer_sound h now lowerDomain, rfl⟩

/-- A lookup keeps the cache sound and answers as the walk would. -/
theorem getOrganizationalDomain_spec (hdns : ∀ name, env.getTXTRecords name ≠ none) {cache : Cache}
    (h : CacheSound env cache) (now : Nat) (domain : WString) :
    CacheSound env (getOrganizationalDomain env cache now domain).1 ∧
      (getOrganizationalDomain env cache now domain).2 = (walked env (normalize env.loc domain), false) := by
  unfold getOrganizationalDomain
  dsimp only
  split
  · rename_i hnil
    refine ⟨h, ?_⟩
    rw [hnil]
    rfl
  cases hcached : cache.lookup (normalize env.loc domain) with
  | none => exact walkAndStore_spec hdns h now _
  | some cached =>
    dsimp only
    split
    · obtain ⟨l₁, l₂, hcache, _⟩ := List.lookup_eq_some_iff.1 hcached
      have hentry := h (normalize env.loc domain, cached) (by rw [hcache]; simp)
      exact ⟨h, by rw [← hentry]⟩
    · exact walkAndStore_spec hdns (h.filter _) now _

/-- The cache after earlier lookups, each at its time. -/
def lookups (env : DmarcEnvironment) : Cache → List (Nat × WString) → Cache
  | cache, [] => cache
  | cache, (now, domain) :: rest => lookups env (getOrganizationalDomain env cache now domain).1 rest

theorem lookups_sound (hdns : ∀ name, env.getTXTRecords name ≠ none) (earlier : List (Nat × WString)) {cache : Cache}
    (h : CacheSound env cache) : CacheSound env (lookups env cache earlier) := by
  induction earlier generalizing cache with
  | nil => exact h
  | cons lookup rest ih => exact ih (getOrganizationalDomain_spec hdns h lookup.1 lookup.2).1

end Cached

theorem normalize_normalize {loc : Locale} (hloc : ∀ c, loc.toLower (loc.toLower c) = loc.toLower c) (s : WString) :
    normalize loc (normalize loc s) = normalize loc s := by
  have hchars : ∀ c ∈ normalize loc s, loc.toLower c = c ∧ c ≠ 0 := by
    intro c hc
    have hlow : c ∈ WString.cstr (s.map loc.toLower) := (List.rdropWhile_prefix _ _).subset hc
    have hne := List.mem_takeWhile_imp hlow
    obtain ⟨d, _, rfl⟩ := List.mem_map.1 ((List.takeWhile_prefix _).subset hlow)
    exact ⟨hloc d, by simpa using hne⟩
  have hmap : (normalize loc s).map loc.toLower = normalize loc s := by
    conv_rhs => rw [← List.map_id (normalize loc s)]
    exact List.map_congr_left fun c hc => (hchars c hc).1
  have hlower : WString.makeLower loc (normalize loc s) = normalize loc s := by
    rw [WString.makeLower, hmap, WString.cstr, List.takeWhile_eq_self_iff]
    intro c hc
    simpa using (hchars c hc).2
  rw [normalize, hlower]
  exact List.rdropWhile_idempotent _ _

end DmarcTreeWalk
/-! ## Alignment -/

namespace Dmarc
open DmarcTreeWalk

variable {env : DmarcEnvironment} {cache : Cache} {xs ps : List WString} {a domain : WString}

/-- Two labels at least: the lookup goes to the walk. -/
theorem getOrganizationalDomain_spec (henabled : env.treeWalkEnabled = true)
    (hdns : ∀ name, env.getTXTRecords name ≠ none) (hcache : CacheSound env cache) (hl : Labels (xs ++ a :: ps))
    (hne : ps ≠ []) (hname : normalize env.loc domain = dotted (xs ++ a :: ps)) (now : Nat) :
    CacheSound env (getOrganizationalDomain env cache now domain).1 ∧
      (getOrganizationalDomain env cache now domain).2 =
        walked env (normalize env.loc (normalize env.loc domain)) := by
  have hpos : 0 < ps.length := List.length_pos_of_ne_nil hne
  have hlen : ¬(WString.splitString (normalize env.loc domain) 46).length ≤ 1 := by
    rw [hname, splitString_dotted hl]
    simp only [List.length_append, List.length_cons]
    omega
  obtain ⟨hsound, hanswer⟩ := DmarcTreeWalk.getOrganizationalDomain_spec hdns hcache now (normalize env.loc domain)
  unfold getOrganizationalDomain
  dsimp only
  rw [if_neg hlen, henabled, if_pos rfl]
  cases hres : DmarcTreeWalk.getOrganizationalDomain env cache now (normalize env.loc domain) with
  | mk cache' answer =>
    rw [hres] at hsound hanswer
    obtain ⟨answer, error⟩ := answer
    obtain ⟨hwalked, herror⟩ := Prod.mk.inj hanswer
    rw [herror, ← hwalked]
    exact ⟨hsound, rfl⟩

theorem under_ne {a b name : WString} (ha : Labels (a :: ps)) (hb : Labels (b :: ps)) (hab : a ≠ b)
    (hname : Under a ps name) : ¬Under b ps name := by
  rintro ⟨zs, hzs, heq⟩
  obtain ⟨ys, hys, rfl⟩ := hname
  have hlabels : ∀ {x : WString} {us : List WString}, Labels us → Labels (x :: ps) → Labels (us ++ x :: ps) := by
    intro x us hus hx l hl
    obtain hl | hl := List.mem_append.1 hl
    · exact hus l hl
    · exact hx l hl
  have hsame := dotted_inj (hlabels hys ha) (hlabels hzs hb) heq
  have hlen : (a :: ps).length = (b :: ps).length := by simp
  obtain ⟨_, hcons⟩ := List.append_inj' hsame hlen
  exact hab (List.cons.inj hcons).1

/-- Organizational domains never cross a declared public suffix, whatever was
    looked up before, and are always last labels of the domain. -/
theorem organizational_domains_apart (hloc : ∀ c, env.loc.toLower (env.loc.toLower c) = env.loc.toLower c)
    (henabled : env.treeWalkEnabled = true) (hdns : ∀ name, env.getTXTRecords name ≠ none) (hne : ps ≠ [])
    (hsix : ps.length ≤ 6) (hsuffix : DeclaresSuffix env (dotted ps)) (earlier : List (Nat × WString))
    {ys : List WString} {b domain' : WString} (hab : a ≠ b) (hl : Labels (xs ++ a :: ps))
    (hl' : Labels (ys ++ b :: ps)) (hname : normalize env.loc domain = dotted (xs ++ a :: ps))
    (hname' : normalize env.loc domain' = dotted (ys ++ b :: ps)) :
    (∀ now, Under a ps (DmarcTreeWalk.getOrganizationalDomain env (lookups env [] earlier) now domain).2.1) ∧
    (∀ now, Under b ps (DmarcTreeWalk.getOrganizationalDomain env (lookups env [] earlier) now domain').2.1) ∧
    (∀ now now', (domainsAligned env (lookups env [] earlier) now now' domain domain' .relaxed).2 = false) ∧
    ∀ name, LabelSuffix (selectOrganizationalDomain env.loc name (walk env name).1) (normalize env.loc name) := by
  have hcache : CacheSound env (lookups env [] earlier) :=
    lookups_sound hdns earlier fun entry hentry => absurd hentry List.not_mem_nil
  -- What the walk answers for a normalized name of either subtree.
  have hunder : ∀ {zs : List WString} {c d : WString}, Labels (zs ++ c :: ps) →
      normalize env.loc d = dotted (zs ++ c :: ps) → Under c ps (walked env (normalize env.loc d)) := by
    intro zs c d hzs hd
    exact walk_under hdns hzs hne hsix hsuffix ((normalize_normalize hloc d).trans hd)
  refine ⟨fun now => ?_, fun now => ?_, fun now now' => ?_, select_labelSuffix env⟩
  · rw [(DmarcTreeWalk.getOrganizationalDomain_spec hdns hcache now domain).2]
    exact hunder hl hname
  · rw [(DmarcTreeWalk.getOrganizationalDomain_spec hdns hcache now domain').2]
    exact hunder hl' hname'
  · unfold domainsAligned
    split
    · rfl
    dsimp only
    have hnorm := (normalize_normalize hloc domain).trans hname
    have hnorm' := (normalize_normalize hloc domain').trans hname'
    obtain ⟨hcache', hfirst⟩ := getOrganizationalDomain_spec henabled hdns hcache hl hne hnorm now
    obtain ⟨_, hsecond⟩ := getOrganizationalDomain_spec henabled hdns hcache' hl' hne hnorm' now'
    rw [hfirst, hsecond, normalize_normalize hloc, normalize_normalize hloc, normalize_normalize hloc,
      normalize_normalize hloc, beq_eq_false_iff_ne]
    intro heq
    have hfirstUnder := hunder hl hname
    rw [heq] at hfirstUnder
    exact under_ne (hl.of_suffix ⟨xs, rfl⟩) (hl'.of_suffix ⟨ys, rfl⟩) hab hfirstUnder (hunder hl' hname')

/-- The name `uk` declares itself a public suffix, and nothing else is
    published. -/
def sampleEnvironment : DmarcEnvironment where
  loc := classicLocale
  getTXTRecords name := some (if name = wide "_dmarc.uk" then [wide "v=DMARC1; psd=y"] else [])
  treeWalkEnabled := true
  publicSuffixLabelCount _ := 1

theorem organizational_domains_apart_uk :
    (domainsAligned sampleEnvironment [] 0 0 (wide "X.a.uk") (wide "b.uk.") .relaxed).2 = false := by
  have hlower : ∀ c, classicLocale.toLower (classicLocale.toLower c) = classicLocale.toLower c := by
    have key : ∀ c : Nat, (if 65 ≤ (if 65 ≤ c ∧ c ≤ 90 then c + 32 else c) ∧
        (if 65 ≤ c ∧ c ≤ 90 then c + 32 else c) ≤ 90 then (if 65 ≤ c ∧ c ≤ 90 then c + 32 else c) + 32
        else (if 65 ≤ c ∧ c ≤ 90 then c + 32 else c)) = (if 65 ≤ c ∧ c ≤ 90 then c + 32 else c) := by
      intro c
      by_cases hc : 65 ≤ c ∧ c ≤ 90
      · rw [if_pos hc, if_neg (by omega)]
      · rw [if_neg hc, if_neg hc]
    exact key
  exact (@organizational_domains_apart sampleEnvironment [wide "x"] [wide "uk"] (wide "a") (wide "X.a.uk") hlower rfl
    (fun _ => nofun) (by decide) (by decide) ⟨_, _, rfl, rfl, rfl⟩ [] [] (wide "b") (wide "b.uk.") (by decide)
    (by decide) (by decide) rfl rfl).2.2.1 0 0

end Dmarc
end HMailServer
