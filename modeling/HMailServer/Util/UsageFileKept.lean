import HMailServer.Util.UsageFile
import HMailServer.Util.SendingQuota

/- What of the sending quota survives a restart. The lines of an account are read
   back with the totals it had, whatever the buckets' order; the file as a whole is
   read only if the last account written leaves it below the size limit. -/
namespace HMailServer.RateLimiter
open WString

/-- White space below 128 is what it is in every locale. -/
def PlainSpaces (loc : Locale) : Prop := ∀ c < 128, loc.isSpace c = classicLocale.isSpace c

/-- An account as the limiter keeps it. -/
structure KeptAccount (loc : Locale) (account : WString × UsageBuckets) : Prop where
  key_ne : account.1 ≠ []
  normal : normalizeAccountKey loc account.1 = account.1
  plain : corrupts account.1 = false
  few : account.2.length ≤ kMaxBucketsPerAccount
  bounded : ∀ bucket ∈ account.2, 0 < bucket.start ∧ bucket.start < 2 ^ 63 ∧ ∀ c, bucket.count c ≤ intMax

/-! ## The totals of merged buckets -/

section Totals

variable {now : Nat} {c : Counter}

theorem total_cons (bucket : UsageBucket) (buckets : UsageBuckets) :
    total (bucket :: buckets) c = bucket.count c + total buckets c := by
  simp [total]

theorem sumUsage_mergeInto (bucket existing : UsageBucket) (rest : UsageBuckets) :
    sumUsage (mergeInto bucket existing :: rest) c = min (sumUsage (existing :: rest) c + bucket.count c) intMax := by
  have hcount : (mergeInto bucket existing).count c = saturatingAdd (existing.count c) (bucket.count c) := rfl
  rw [sumUsage, sumUsage, total_cons, total_cons, hcount, saturatingAdd]
  split <;> omega

theorem sumUsage_mergeEqual {bucket : UsageBucket} {buckets merged : UsageBuckets} (h : mergeEqual bucket buckets = some merged) :
    sumUsage merged c = min (sumUsage buckets c + bucket.count c) intMax := by
  induction buckets generalizing merged with
  | nil => cases h
  | cons existing rest ih =>
    unfold mergeEqual at h
    split at h
    · rw [← Option.some.inj h]
      exact sumUsage_mergeInto bucket existing rest
    · obtain ⟨tail, htail, rfl⟩ := Option.map_eq_some_iff.1 h
      have hrest := ih htail
      rw [sumUsage, sumUsage] at hrest ⊢
      rw [total_cons, total_cons]
      omega

theorem length_mergeEqual {bucket : UsageBucket} {buckets merged : UsageBuckets} (h : mergeEqual bucket buckets = some merged) :
    merged.length = buckets.length := by
  induction buckets generalizing merged with
  | nil => cases h
  | cons existing rest ih =>
    unfold mergeEqual at h
    split at h
    · rw [← Option.some.inj h, List.length_cons, List.length_cons]
    · obtain ⟨tail, htail, rfl⟩ := Option.map_eq_some_iff.1 h
      rw [List.length_cons, List.length_cons, ih htail]

theorem live_mergeEqual {bucket : UsageBucket} {buckets merged : UsageBuckets} (h : mergeEqual bucket buckets = some merged)
    (hlive : ∀ b ∈ buckets, isLive now b = true) : ∀ b ∈ merged, isLive now b = true := by
  induction buckets generalizing merged with
  | nil => cases h
  | cons existing rest ih =>
    obtain ⟨hfirst, hrest⟩ := List.forall_mem_cons.1 hlive
    unfold mergeEqual at h
    split at h
    · rw [← Option.some.inj h]
      exact List.forall_mem_cons.2 ⟨hfirst, hrest⟩
    · obtain ⟨tail, htail, rfl⟩ := Option.map_eq_some_iff.1 h
      exact List.forall_mem_cons.2 ⟨hfirst, ih htail hrest⟩

/-- The three ways a bucket is loaded. -/
theorem loadBucket_cases (buckets : UsageBuckets) (bucket : UsageBucket) (hfew : buckets.length < kMaxBucketsPerAccount) :
    loadBucket buckets bucket = buckets ++ [bucket] ∨ mergeEqual bucket buckets = some (loadBucket buckets bucket) ∨
      ∃ oldest rest, buckets = oldest :: rest ∧ loadBucket buckets bucket = mergeInto bucket oldest :: rest := by
  cases buckets with
  | nil => exact .inl rfl
  | cons oldest rest =>
    rw [loadBucket]
    split
    · cases hmerge : mergeEqual bucket (oldest :: rest) with
      | none => exact .inr (.inr ⟨oldest, rest, rfl, rfl⟩)
      | some merged => exact .inr (.inl rfl)
    · rw [if_neg (by omega)]
      exact .inl rfl

theorem sumUsage_loadBucket (buckets : UsageBuckets) (bucket : UsageBucket) (hfew : buckets.length < kMaxBucketsPerAccount) :
    sumUsage (loadBucket buckets bucket) c = min (sumUsage buckets c + bucket.count c) intMax := by
  obtain happend | hmerge | ⟨oldest, rest, rfl, hfold⟩ := loadBucket_cases buckets bucket hfew
  · rw [happend]
    simp only [sumUsage, total, List.map_append, List.sum_append, List.map_cons, List.map_nil, List.sum_cons, List.sum_nil]
    omega
  · exact sumUsage_mergeEqual hmerge
  · rw [hfold]
    exact sumUsage_mergeInto bucket oldest rest

theorem length_loadBucket (buckets : UsageBuckets) (bucket : UsageBucket) (hfew : buckets.length < kMaxBucketsPerAccount) :
    (loadBucket buckets bucket).length ≤ buckets.length + 1 := by
  obtain happend | hmerge | ⟨oldest, rest, rfl, hfold⟩ := loadBucket_cases buckets bucket hfew
  · rw [happend, List.length_append, List.length_singleton]
  · rw [length_mergeEqual hmerge]
    exact Nat.le_succ _
  · rw [hfold, List.length_cons, List.length_cons]
    exact Nat.le_succ _

theorem live_loadBucket {buckets : UsageBuckets} {bucket : UsageBucket} (hfew : buckets.length < kMaxBucketsPerAccount)
    (hlive : ∀ b ∈ buckets, isLive now b = true) (hbucket : isLive now bucket = true) :
    ∀ b ∈ loadBucket buckets bucket, isLive now b = true := by
  obtain happend | hmerge | ⟨oldest, rest, rfl, hfold⟩ := loadBucket_cases buckets bucket hfew
  · rw [happend]
    exact List.forall_mem_append.2 ⟨hlive, fun b hb => by rw [List.mem_singleton.1 hb]; exact hbucket⟩
  · exact live_mergeEqual hmerge hlive
  · obtain ⟨hfirst, hrest⟩ := List.forall_mem_cons.1 hlive
    rw [hfold]
    exact List.forall_mem_cons.2 ⟨hfirst, hrest⟩

/-- Loading the buckets of one account. -/
theorem foldl_loadBucket (loaded : UsageBuckets) :
    ∀ buckets : UsageBuckets, buckets.length + loaded.length ≤ kMaxBucketsPerAccount →
      (∀ b ∈ buckets, isLive now b = true) → (∀ b ∈ loaded, isLive now b = true) →
      sumUsage (loaded.foldl loadBucket buckets) c = min (sumUsage buckets c + total loaded c) intMax ∧
        ∀ b ∈ loaded.foldl loadBucket buckets, isLive now b = true := by
  induction loaded with
  | nil =>
    intro buckets _ hlive _
    refine ⟨?_, hlive⟩
    show sumUsage buckets c = min (sumUsage buckets c + 0) intMax
    rw [sumUsage]
    omega
  | cons bucket loaded ih =>
    intro buckets hfew hlive hloaded
    obtain ⟨hbucket, hloaded⟩ := List.forall_mem_cons.1 hloaded
    rw [List.length_cons] at hfew
    have hroom : buckets.length < kMaxBucketsPerAccount := by omega
    have hlength := length_loadBucket buckets bucket hroom
    obtain ⟨hsum, hall⟩ := ih (loadBucket buckets bucket) (by omega) (live_loadBucket hroom hlive hbucket) hloaded
    refine ⟨?_, hall⟩
    rw [List.foldl_cons, hsum, sumUsage_loadBucket buckets bucket hroom, total_cons]
    omega

end Totals

/-! ## One line -/

section Lines

variable {loc : Locale} {account : WString × UsageBuckets}

theorem cstr_cstr (s : WString) : cstr (cstr s) = cstr s := List.takeWhile_idem

/-- A normalised name has no NUL and no white space at its ends. -/
theorem KeptAccount.trimmed (h : KeptAccount loc account) : cstr account.1 = account.1 ∧ trim loc account.1 = account.1 := by
  have hnormal := h.normal
  unfold normalizeAccountKey makeLower at hnormal
  refine ⟨by rw [← hnormal, cstr_cstr], ?_⟩
  have hlength : account.1.length ≤ (trim loc account.1).length := by
    conv_lhs => rw [← hnormal]
    calc (cstr ((trim loc account.1).map loc.toLower)).length
        ≤ ((trim loc account.1).map loc.toLower).length := (List.takeWhile_sublist _).length_le
      _ = (trim loc account.1).length := List.length_map _
  have hsub : (trim loc account.1).Sublist account.1 :=
    (List.rdropWhile_prefix _ _).sublist.trans (List.dropWhile_sublist _)
  exact hsub.eq_of_length_le hlength

theorem trim_eq_self {s : WString} (hne : s ≠ []) (hhead : loc.isSpace (s.head hne) = false)
    (hlast : loc.isSpace (s.getLast hne) = false) : trim loc s = s := by
  have hdrop : s.dropWhile loc.isSpace = s := by
    cases s with
    | nil => rfl
    | cons c s => exact List.dropWhile_cons_of_neg (by rw [Bool.not_eq_true]; exact hhead)
  rw [trim, hdrop, List.rdropWhile_eq_self_iff]
  intro _
  rw [Bool.not_eq_true]
  exact hlast

/-- The ends of a trimmed text. -/
theorem ends_of_trim {s : WString} (hne : s ≠ []) (h : trim loc s = s) :
    loc.isSpace (s.head hne) = false ∧ loc.isSpace (s.getLast hne) = false := by
  have hdrop : s.dropWhile loc.isSpace = s := by
    have hlong : s.length ≤ (s.dropWhile loc.isSpace).length := by
      conv_lhs => rw [← h]
      exact (List.rdropWhile_prefix _ _).length_le
    exact (List.dropWhile_sublist _).eq_of_length_le hlong
  rw [trim, hdrop] at h
  refine ⟨?_, ?_⟩
  · have hfirst : s.dropWhile loc.isSpace ≠ [] := by rwa [hdrop]
    have hnot := List.head_dropWhile_not loc.isSpace hfirst
    simpa only [hdrop] using hnot
  · have hlast := List.rdropWhile_eq_self_iff.1 h hne
    rwa [Bool.not_eq_true] at hlast

theorem trim_return (hspaces : PlainSpaces loc) {s : WString} (hne : s ≠ []) (hhead : loc.isSpace (s.head hne) = false)
    (hlast : loc.isSpace (s.getLast hne) = false) : trim loc (s ++ [13]) = s := by
  have hreturn : loc.isSpace 13 = true := hspaces 13 (by decide)
  obtain ⟨c, rest, rfl⟩ := List.exists_cons_of_ne_nil hne
  have hdrop : (c :: rest ++ [13]).dropWhile loc.isSpace = c :: rest ++ [13] :=
    List.dropWhile_cons_of_neg (by rw [Bool.not_eq_true]; exact hhead)
  rw [trim, hdrop, List.rdropWhile_concat_pos _ _ _ hreturn, List.rdropWhile_eq_self_iff]
  intro _
  rw [Bool.not_eq_true]
  exact hlast

theorem digit_not_space (hspaces : PlainSpaces loc) {n c : Nat} (h : c ∈ decimal n) : loc.isSpace c = false := by
  have hc := digit_of_mem_decimal h
  have hclassic : ∀ d : Nat, 48 ≤ d ∧ d ≤ 57 → (d : Nat) < 128 ∧ classicLocale.isSpace d = false := by
    intro d hd
    refine ⟨by omega, ?_⟩
    have hsmall : ∀ e : Nat, e < 10 → classicLocale.isSpace (48 + e) = false := by decide
    have hvalue := hsmall (d - 48) (by omega)
    rwa [Nat.add_sub_cancel' hd.1] at hvalue
  rw [hspaces c (hclassic c hc).1]
  exact (hclassic c hc).2

theorem fields_plain (h : KeptAccount loc account) (bucket : UsageBucket) :
    (∀ field ∈ bucketFields account.1 bucket, 9 ∉ field ∧ 10 ∉ field) ∧ bucketFields account.1 bucket ≠ [] := by
  have hdigits : ∀ n, 9 ∉ decimal n ∧ 10 ∉ decimal n := by
    intro n
    constructor
    · intro hc
      exact absurd (digit_of_mem_decimal hc).1 (by decide)
    · intro hc
      exact absurd (digit_of_mem_decimal hc).1 (by decide)
  have hkey : 9 ∉ account.1 ∧ 10 ∉ account.1 := by
    have hplain := h.plain
    rw [corrupts, decide_eq_false_iff_not, not_or, not_or] at hplain
    exact ⟨hplain.1, hplain.2.2⟩
  refine ⟨?_, List.cons_ne_nil _ _⟩
  rw [bucketFields, h.trimmed.1]
  intro field hfield
  simp only [List.mem_cons, List.not_mem_nil, or_false] at hfield
  rcases hfield with rfl | rfl | rfl | rfl
  · exact hkey
  · exact hdigits _
  · exact hdigits _
  · exact hdigits _

/-- The text of a line, without its line end, splits into its fields. -/
theorem splitOn_fields (h : KeptAccount loc account) (bucket : UsageBucket) :
    ([9].intercalate (bucketFields account.1 bucket)).splitOn 9 = bucketFields account.1 bucket :=
  List.splitOn_intercalate 9 (fun field hfield => ((fields_plain h bucket).1 field hfield).1) (fields_plain h bucket).2

theorem bucketLine_eq (key : WString) (bucket : UsageBucket) :
    [9].intercalate (bucketFields key bucket) = cstr key ++ (9 :: decimal bucket.start ++ 9 :: decimal (bucket.count .messages) ++
      9 :: decimal (bucket.count .recipients)) := by
  simp [bucketFields, List.intercalate]

/-- The loader strips the carriage return of a line and nothing else. -/
theorem trim_bucketLine (hspaces : PlainSpaces loc) (h : KeptAccount loc account) (bucket : UsageBucket) :
    trim loc (bucketLine account.1 bucket) = [9].intercalate (bucketFields account.1 bucket) := by
  have hends := ends_of_trim h.key_ne h.trimmed.2
  have hrecipients := decimal_ne_nil (bucket.count .recipients)
  have hne : [9].intercalate (bucketFields account.1 bucket) ≠ [] := by
    rw [bucketLine_eq]
    simp
  have hhead : ([9].intercalate (bucketFields account.1 bucket)).head hne = account.1.head h.key_ne := by
    have heq := bucketLine_eq account.1 bucket
    rw [h.trimmed.1] at heq
    simp only [heq, List.head_append_of_ne_nil h.key_ne]
  have hlast : ([9].intercalate (bucketFields account.1 bucket)).getLast hne =
      (decimal (bucket.count .recipients)).getLast hrecipients := by
    have heq := bucketLine_eq account.1 bucket
    simp only [heq]
    rw [List.getLast_append_of_ne_nil _ (by simp), List.getLast_append_of_ne_nil _ (by simp), List.getLast_cons hrecipients]
  rw [bucketLine]
  apply trim_return hspaces hne
  · rw [hhead]
    exact hends.1
  · rw [hlast]
    exact digit_not_space hspaces (List.getLast_mem hrecipients)

/-- A start in the future is pulled down to now. -/
def dated (now : Nat) (bucket : UsageBucket) : UsageBucket := { bucket with start := min bucket.start now }

/-- A line is read back as its bucket. -/
theorem parseLine_bucketLine (h : KeptAccount loc account) {now : Nat} {bucket : UsageBucket}
    (hmem : bucket ∈ account.2) (hlive : isLive now bucket = true) :
    parseLine loc now ([9].intercalate (bucketFields account.1 bucket)) = some (account.1, dated now bucket) := by
  obtain ⟨hpos, hstart, hcounts⟩ := h.bounded bucket hmem
  have hsplit : splitString ([9].intercalate (bucketFields account.1 bucket)) 9 = bucketFields account.1 bucket := by
    rw [splitString, splitOn_fields h, if_neg]
    intro hlast
    exact decimal_ne_nil _ (Option.some.inj hlast)
  have hcount : ∀ c, ttoi 32 (decimal (bucket.count c)) = bucket.count c := fun c =>
    ttoi_decimal_of_lt (by have := hcounts c; unfold intMax at this; omega)
  have hkey : (normalizeAccountKey loc (cstr account.1)).isEmpty = false := by
    rw [h.trimmed.1, h.normal]
    simpa using h.key_ne
  have hdated : isLive now (dated now bucket) = true := by
    rw [isLive, decide_eq_true_eq] at hlive ⊢
    have hperiod : 0 < maxPeriodSeconds := by decide
    show now < min bucket.start now + maxPeriodSeconds
    omega
  rw [parseLine, hsplit, bucketFields]
  dsimp only
  rw [hkey, hcount, hcount, ttoi_decimal_of_lt hstart, if_neg (by simp; omega), Int.toNat_natCast, h.trimmed.1, h.normal]
  have hcounts' : countsOf ((bucket.count .messages : Nat) : Int).toNat ((bucket.count .recipients : Nat) : Int).toNat =
      bucket.count := by
    funext c
    cases c with
    | messages => exact Int.toNat_natCast _
    | recipients => exact Int.toNat_natCast _
  rw [hcounts']
  exact if_pos hdated

end Lines

/-! ## The table after a load -/

section Load

variable {loc : Locale} {now : Nat}

theorem find_set (table : AccountTable) (key other : WString) (buckets : UsageBuckets) :
    (table.set key buckets).find other = if other = key then some buckets else table.find other :=
  AccountTable.lookup_setEntry key other buckets table.entries

theorem size_set (table : AccountTable) (key : WString) (buckets : UsageBuckets) :
    (table.set key buckets).size = table.size + if (table.find key).isSome then 0 else 1 := by
  have hentries : ∀ entries : List (WString × UsageBuckets), (AccountTable.setEntry key buckets entries).length =
      entries.length + if (entries.lookup key).isSome then 0 else 1 := by
    intro entries
    induction entries with
    | nil => rfl
    | cons entry rest ih =>
      rw [AccountTable.setEntry, List.lookup_cons]
      by_cases hkey : key = entry.1
      · rw [if_pos hkey, beq_iff_eq.2 hkey]
        rfl
      · rw [if_neg hkey, beq_false_of_ne hkey, List.length_cons, List.length_cons, ih]
        split <;> omega
  exact hentries table.entries

/-- The lines of one account, as the loader has stripped them. -/
def strippedLines (now : Nat) (account : WString × UsageBuckets) : List WString :=
  (writtenBuckets now account.2).map fun bucket => [9].intercalate (bucketFields account.1 bucket)

/-- What they are loaded as. -/
def loadedBuckets (now : Nat) (account : WString × UsageBuckets) : UsageBuckets :=
  (writtenBuckets now account.2).map (dated now)

theorem mem_writtenBuckets {buckets : UsageBuckets} {bucket : UsageBucket} (h : bucket ∈ writtenBuckets now buckets) :
    bucket ∈ buckets ∧ isLive now bucket = true := by
  obtain ⟨hmem, hwritten⟩ := List.mem_filter.1 h
  rw [Bool.and_eq_true] at hwritten
  exact ⟨hmem, hwritten.2⟩

/-- Buckets of one account, loaded one after another. -/
theorem foldl_loadLine {account : WString × UsageBuckets} (h : KeptAccount loc account) (buckets : UsageBuckets) :
    ∀ table : AccountTable, (∀ b ∈ buckets, b ∈ account.2 ∧ isLive now b = true) →
      (table.size < kMaxAccountEntries ∨ (table.find account.1).isSome = true) →
      let loaded := (buckets.map fun bucket => [9].intercalate (bucketFields account.1 bucket)).foldl (loadLine loc now) table
      ((loaded.find account.1).getD [] = (buckets.map (dated now)).foldl loadBucket ((table.find account.1).getD [])) ∧
        (∀ other, other ≠ account.1 → loaded.find other = table.find other) ∧
        loaded.size ≤ table.size + if (table.find account.1).isSome then 0 else 1 := by
  induction buckets with
  | nil =>
    intro table _ _
    exact ⟨rfl, fun _ _ => rfl, Nat.le_add_right _ _⟩
  | cons bucket buckets ih =>
    intro table hbuckets hroom
    obtain ⟨⟨hmem, hlive⟩, hbuckets⟩ := List.forall_mem_cons.1 hbuckets
    have hstep : loadLine loc now table ([9].intercalate (bucketFields account.1 bucket)) =
        table.set account.1 (loadBucket ((table.find account.1).getD []) (dated now bucket)) := by
      rw [loadLine, parseLine_bucketLine h hmem hlive]
      apply if_neg
      intro hfull
      obtain hroom | hroom := hroom
      · omega
      · rw [hfull.2] at hroom
        cases hroom
    have hfind := find_set table account.1 account.1 (loadBucket ((table.find account.1).getD []) (dated now bucket))
    rw [if_pos rfl] at hfind
    obtain ⟨hown, hothers, hsize⟩ := ih (table.set account.1 (loadBucket ((table.find account.1).getD []) (dated now bucket)))
      hbuckets (.inr (by rw [hfind]; rfl))
    rw [hfind] at hown hsize
    dsimp only
    rw [List.map_cons, List.map_cons, List.foldl_cons, List.foldl_cons, hstep]
    refine ⟨hown, fun other hother => ?_, ?_⟩
    · rw [hothers other hother, find_set, if_neg hother]
    · have hset := size_set table account.1 (loadBucket ((table.find account.1).getD []) (dated now bucket))
      simp only [Option.isSome_some, if_true] at hsize
      omega

/-- The accounts of a file, loaded one after another. -/
theorem foldl_accounts (accounts : List (WString × UsageBuckets)) :
    ∀ table : AccountTable, (∀ account ∈ accounts, KeptAccount loc account) → (accounts.map Prod.fst).Nodup →
      (∀ account ∈ accounts, table.find account.1 = none) → table.size + accounts.length ≤ kMaxAccountEntries →
      let loaded := (accounts.flatMap (strippedLines now)).foldl (loadLine loc now) table
      (∀ account ∈ accounts, (loaded.find account.1).getD [] = (loadedBuckets now account).foldl loadBucket []) ∧
        ∀ key, key ∉ accounts.map Prod.fst → loaded.find key = table.find key := by
  induction accounts with
  | nil =>
    intro table _ _ _ _
    exact ⟨fun account h => absurd h List.not_mem_nil, fun _ _ => rfl⟩
  | cons account accounts ih =>
    intro table hkept hnodup hnew hsize
    obtain ⟨hfirst, hkept⟩ := List.forall_mem_cons.1 hkept
    obtain ⟨hnone, hnew⟩ := List.forall_mem_cons.1 hnew
    rw [List.map_cons, List.nodup_cons] at hnodup
    rw [List.length_cons] at hsize
    obtain ⟨hown, hothers, hgrown⟩ := @foldl_loadLine loc now account hfirst (writtenBuckets now account.2) table
      (fun b hb => mem_writtenBuckets hb) (.inl (by omega))
    rw [hnone] at hown hgrown
    dsimp only
    rw [List.flatMap_cons, List.foldl_append]
    have hne : ∀ other ∈ accounts, other.1 ≠ account.1 := fun other hother heq =>
      hnodup.1 (heq ▸ List.mem_map_of_mem hother)
    obtain ⟨hrest, hfinal⟩ := ih ((strippedLines now account).foldl (loadLine loc now) table) hkept hnodup.2
      (fun other hother => (hothers other.1 (hne other hother)).trans (hnew other hother))
      (by
        have hle : ((strippedLines now account).foldl (loadLine loc now) table).size ≤ table.size + 1 := hgrown
        omega)
    refine ⟨List.forall_mem_cons.2 ⟨?_, hrest⟩, fun key hkey => ?_⟩
    · rw [hfinal account.1 hnodup.1]
      exact hown
    · rw [List.map_cons, List.mem_cons, not_or] at hkey
      rw [hfinal key hkey.2]
      exact hothers key hkey.1

/-- What is dropped from the file counts nothing. -/
theorem total_writtenBuckets (buckets : UsageBuckets) (c : Counter) :
    total ((writtenBuckets now buckets).map (dated now)) c = total (buckets.filter (isLive now)) c := by
  induction buckets with
  | nil => rfl
  | cons bucket buckets ih =>
    unfold writtenBuckets at ih ⊢
    rw [List.filter_cons, List.filter_cons]
    by_cases hlive : isLive now bucket = true
    · rw [hlive, Bool.and_true, if_pos rfl, total_cons]
      split
      · rw [List.map_cons, total_cons, ih]
        rfl
      · rename_i hzero
        rw [Bool.or_eq_true, decide_eq_true_eq, decide_eq_true_eq, not_or] at hzero
        have hcount : bucket.count c = 0 := by
          cases c with
          | messages => omega
          | recipients => omega
        rw [ih, hcount, Nat.zero_add]
    · rw [if_neg hlive, if_neg (by rw [Bool.and_eq_true]; exact fun h => hlive h.2)]
      exact ih

/-- A loaded account has the totals it had. -/
theorem sumUsage_loaded {account : WString × UsageBuckets} (h : KeptAccount loc account) (c : Counter) :
    sumUsage (((loadedBuckets now account).foldl loadBucket []).filter (isLive now)) c =
      sumUsage (account.2.filter (isLive now)) c := by
  have hfew : (loadedBuckets now account).length ≤ kMaxBucketsPerAccount := by
    rw [loadedBuckets, List.length_map]
    exact (List.length_filter_le _ _).trans h.few
  have hlive : ∀ b ∈ loadedBuckets now account, isLive now b = true := by
    intro b hb
    obtain ⟨bucket, hbucket, rfl⟩ := List.mem_map.1 hb
    have hbucket := (mem_writtenBuckets hbucket).2
    rw [isLive, decide_eq_true_eq] at hbucket ⊢
    have hperiod : 0 < maxPeriodSeconds := by decide
    show now < min bucket.start now + maxPeriodSeconds
    omega
  obtain ⟨hsum, hall⟩ := @foldl_loadBucket now c (loadedBuckets now account) [] (by rw [List.length_nil]; omega)
    (fun b hb => absurd hb List.not_mem_nil) hlive
  rw [List.filter_eq_self.2 hall, hsum, loadedBuckets, total_writtenBuckets]
  show min (min (total [] c) intMax + _) intMax = min _ intMax
  have hnil : total [] c = 0 := rfl
  omega

end Load

/-! ## The text -/

section Text

variable {loc : Locale} {now : Nat}

/-- The accounts that are written: those before which the text is below the cap. -/
def reached (now : Nat) : Nat → List (WString × UsageBuckets) → List (WString × UsageBuckets)
  | _, [] => []
  | used, account :: rest =>
    if kMaxStateFileChars ≤ used then [] else account :: reached now (used + (accountText now account).length) rest

def textsLength (now : Nat) (accounts : List (WString × UsageBuckets)) : Nat := (accounts.flatMap (accountText now)).length

theorem serializeAccounts_eq {entries : List (WString × UsageBuckets)} (h : ∀ account ∈ entries, corrupts account.1 = false) :
    ∀ result, (serializeAccounts now result entries).1 = result ++ (reached now result.length entries).flatMap (accountText now) ∧
      ((serializeAccounts now result entries).2 = false → reached now result.length entries = entries) := by
  induction entries with
  | nil => exact fun result => ⟨(List.append_nil result).symm, fun _ => rfl⟩
  | cons account entries ih =>
    intro result
    obtain ⟨hplain, h⟩ := List.forall_mem_cons.1 h
    rw [serializeAccounts, reached]
    split
    · exact ⟨(List.append_nil result).symm, fun hfull => by cases hfull⟩
    · rw [hplain, if_neg Bool.false_ne_true]
      obtain ⟨htext, hall⟩ := ih h (result ++ accountText now account)
      rw [List.length_append] at htext hall
      refine ⟨?_, fun hdone => ?_⟩
      · rw [htext, List.flatMap_cons, List.append_assoc]
      · rw [hall hdone]

theorem reached_begins (used : Nat) (entries : List (WString × UsageBuckets)) : reached now used entries <+: entries := by
  induction entries generalizing used with
  | nil => exact List.prefix_rfl
  | cons account entries ih =>
    rw [reached]
    split
    · exact List.nil_prefix
    · exact (List.prefix_cons_inj account).2 (ih _)

/-- An account before which there is room is reached. -/
theorem reached_of_room (before : List (WString × UsageBuckets)) (account : WString × UsageBuckets)
    (after : List (WString × UsageBuckets)) :
    ∀ used, used + textsLength now before < kMaxStateFileChars →
      before ++ [account] <+: reached now used (before ++ account :: after) := by
  induction before with
  | nil =>
    intro used hroom
    have hzero : textsLength now [] = 0 := rfl
    rw [List.nil_append, List.nil_append, reached, if_neg (by omega)]
    exact (List.prefix_cons_inj account).2 List.nil_prefix
  | cons first before ih =>
    intro used hroom
    rw [textsLength, List.flatMap_cons, List.length_append] at hroom
    rw [List.cons_append, List.cons_append, reached, if_neg (by omega)]
    exact (List.prefix_cons_inj first).2 (ih _ (by rw [textsLength]; omega))

/-- Before a reached account there was room. -/
theorem room_of_reached (before : List (WString × UsageBuckets)) (account : WString × UsageBuckets) :
    ∀ used entries, before ++ [account] <+: reached now used entries → used + textsLength now before < kMaxStateFileChars := by
  induction before with
  | nil =>
    intro used entries h
    have hzero : textsLength now [] = 0 := rfl
    cases entries with
    | nil => exact absurd h.length_le (by simp [reached])
    | cons first entries =>
      rw [reached] at h
      split at h
      · exact absurd h.length_le (by simp)
      · omega
  | cons first before ih =>
    intro used entries h
    cases entries with
    | nil => exact absurd h.length_le (by simp [reached])
    | cons other entries =>
      rw [reached] at h
      split at h
      · exact absurd h.length_le (by simp)
      · rw [List.cons_append, List.cons_prefix_cons] at h
        obtain ⟨rfl, h⟩ := h
        have hroom := ih _ entries h
        rw [textsLength, List.flatMap_cons, List.length_append]
        rw [textsLength] at hroom
        omega

/-- The lines of a text, the loader's `"\n"` taken away. -/
theorem splitString_lines {lines : List WString} (h : ∀ line ∈ lines, 10 ∉ line) :
    splitString (lines.flatMap (· ++ [10])) 10 = lines := by
  have hsplit : (lines.flatMap (· ++ [10])).splitOn 10 = lines ++ [[]] := by
    induction lines with
    | nil => rfl
    | cons line lines ih =>
      obtain ⟨hline, h⟩ := List.forall_mem_cons.1 h
      rw [List.flatMap_cons, List.append_assoc, List.singleton_append, List.splitOn_append_cons_self_of_not_mem hline, ih h]
      rfl
  rw [splitString, hsplit, if_pos List.getLast?_concat, List.dropLast_concat]

/-- The lines of a file, the version first. -/
def fileLines (now : Nat) (accounts : List (WString × UsageBuckets)) : List WString :=
  (kStateFileVersion ++ [13]) :: accounts.flatMap fun account => (writtenBuckets now account.2).map (bucketLine account.1)

theorem text_eq_lines (accounts : List (WString × UsageBuckets)) :
    versionText ++ accounts.flatMap (accountText now) = (fileLines now accounts).flatMap (· ++ [10]) := by
  rw [fileLines, List.flatMap_cons, List.flatMap_assoc]
  have hversion : versionText = kStateFileVersion ++ [13] ++ [10] := by simp [versionText]
  rw [hversion]
  congr 2
  funext account
  rw [accountText, List.flatMap_map]

theorem lines_plain {accounts : List (WString × UsageBuckets)} (h : ∀ account ∈ accounts, KeptAccount loc account) :
    ∀ line ∈ fileLines now accounts, 10 ∉ line := by
  intro line hline
  obtain rfl | hline := List.mem_cons.1 hline
  · decide
  · obtain ⟨account, haccount, hline⟩ := List.mem_flatMap.1 hline
    obtain ⟨bucket, _, rfl⟩ := List.mem_map.1 hline
    have hfields := (fields_plain (h account haccount) bucket).1
    have hkey := (hfields _ (by simp [bucketFields] : cstr account.1 ∈ bucketFields account.1 bucket)).2
    have hstart := (hfields _ (by simp [bucketFields] : decimal bucket.start ∈ bucketFields account.1 bucket)).2
    have hmessages := (hfields _ (by simp [bucketFields] : decimal (bucket.count .messages) ∈ bucketFields account.1 bucket)).2
    have hrecipients := (hfields _ (by simp [bucketFields] : decimal (bucket.count .recipients) ∈ bucketFields account.1 bucket)).2
    rw [bucketLine, bucketLine_eq]
    simp [hkey, hstart, hmessages, hrecipients]

end Text

/-! ## A restart -/

/-- The lines of an account are among those of a text. -/
def Written (now : Nat) (text : WString) (account : WString × UsageBuckets) : Prop :=
  ∀ bucket ∈ writtenBuckets now account.2, bucketLine account.1 bucket ∈ splitString text 10

/-- What a restart is to leave of the counters. -/
structure Survives (loc : Locale) (table : AccountTable) (now : Nat) : Prop where
  readable : fileSize (serializeUsage table now).1 ≤ kMaxStateFileBytes
  restored : ∀ account ∈ table.entries, Written now (serializeUsage table now).1 account → ∀ c,
    sumUsage ((((loadUsageFile loc (some (serializeUsage table now).1) now).find account.1).getD []).filter (isLive now)) c =
      sumUsage (account.2.filter (isLive now)) c
  complete : (serializeUsage table now).2 = false → ∀ account ∈ table.entries, Written now (serializeUsage table now).1 account

/-- Every account before which the text is below the cap in characters leaves it
    within the limit in bytes. -/
def Fits (table : AccountTable) (now : Nat) : Prop :=
  ∀ before account after, table.entries = before ++ account :: after →
    versionText.length + textsLength now before < kMaxStateFileChars →
    fileSize (versionText ++ (before ++ [account]).flatMap (accountText now)) ≤ kMaxStateFileBytes

section Restart

variable {loc : Locale} {table : AccountTable} {now : Nat}

theorem serializeUsage_eq (hkept : ∀ account ∈ table.entries, KeptAccount loc account) :
    (serializeUsage table now).1 =
        versionText ++ (reached now versionText.length table.entries).flatMap (accountText now) ∧
      ((serializeUsage table now).2 = false → reached now versionText.length table.entries = table.entries) :=
  serializeAccounts_eq (fun account h => (hkept account h).plain) versionText

theorem kept_reached (hkept : ∀ account ∈ table.entries, KeptAccount loc account) :
    ∀ account ∈ reached now versionText.length table.entries, KeptAccount loc account :=
  fun account h => hkept account ((reached_begins _ _).subset h)

theorem splitString_serializeUsage (hkept : ∀ account ∈ table.entries, KeptAccount loc account) :
    splitString (serializeUsage table now).1 10 = fileLines now (reached now versionText.length table.entries) := by
  rw [(serializeUsage_eq hkept).1, text_eq_lines]
  exact splitString_lines (lines_plain (kept_reached hkept))

/-- A written account with something to write was reached. -/
theorem reached_of_written (hkept : ∀ account ∈ table.entries, KeptAccount loc account)
    {account : WString × UsageBuckets} (hmem : account ∈ table.entries) (h : Written now (serializeUsage table now).1 account) :
    account ∈ reached now versionText.length table.entries ∨ writtenBuckets now account.2 = [] := by
  cases hbuckets : writtenBuckets now account.2 with
  | nil => exact .inr rfl
  | cons bucket buckets =>
    left
    have hline := h bucket (by rw [hbuckets]; exact List.mem_cons_self)
    rw [splitString_serializeUsage hkept] at hline
    obtain hversion | hline := List.mem_cons.1 hline
    · -- the version has no tab
      have htab : 9 ∈ bucketLine account.1 bucket := by
        rw [bucketLine, bucketLine_eq]
        simp
      rw [hversion] at htab
      exact absurd htab (by decide)
    · obtain ⟨other, hother, hline⟩ := List.mem_flatMap.1 hline
      obtain ⟨bucket', hbucket', hline⟩ := List.mem_map.1 hline
      have hfields := List.append_cancel_right hline
      have hsplit := congrArg (List.splitOn 9) hfields
      rw [splitOn_fields (kept_reached hkept other hother), splitOn_fields (hkept account hmem)] at hsplit
      have hkey : other.1 = account.1 := by
        have hhead := (List.cons.inj hsplit).1
        rwa [(kept_reached hkept other hother).trimmed.1, (hkept account hmem).trimmed.1] at hhead
      have hsame := List.inj_on_of_nodup_map table.nodup ((reached_begins _ _).subset hother) hmem hkey
      exact hsame ▸ hother

/-- What the loader makes of a file that it reads. -/
theorem loadUsageFile_serializeUsage (hspaces : PlainSpaces loc) (hkept : ∀ account ∈ table.entries, KeptAccount loc account)
    (hreadable : fileSize (serializeUsage table now).1 ≤ kMaxStateFileBytes) :
    loadUsageFile loc (some (serializeUsage table now).1) now =
      ((reached now versionText.length table.entries).flatMap (strippedLines now)).foldl (loadLine loc now) {} := by
  have hversion : trim loc (kStateFileVersion ++ [13]) = kStateFileVersion := by
    refine trim_return hspaces (by decide) ?_ ?_
    · exact (hspaces 104 (by decide)).trans (by decide)
    · exact (hspaces 49 (by decide)).trans (by decide)
  have hlines : ((fileLines now (reached now versionText.length table.entries)).map (trim loc)).filter (· ≠ []) =
      kStateFileVersion :: (reached now versionText.length table.entries).flatMap (strippedLines now) := by
    have htrimmed : (fileLines now (reached now versionText.length table.entries)).map (trim loc) =
        kStateFileVersion :: (reached now versionText.length table.entries).flatMap (strippedLines now) := by
      rw [fileLines, List.map_cons, hversion, List.map_flatMap]
      congr 1
      apply List.flatMap_congr
      intro account haccount
      rw [List.map_map, strippedLines]
      apply List.map_congr_left
      intro bucket _
      exact trim_bucketLine hspaces (kept_reached hkept account haccount) bucket
    rw [htrimmed, List.filter_eq_self]
    intro line hline
    rw [decide_eq_true_eq]
    obtain rfl | hline := List.mem_cons.1 hline
    · decide
    · obtain ⟨account, _, hline⟩ := List.mem_flatMap.1 hline
      obtain ⟨bucket, _, rfl⟩ := List.mem_map.1 hline
      rw [bucketLine_eq]
      simp
  rw [loadUsageFile, if_neg (Nat.not_lt.2 hreadable), loadUsageText, splitString_serializeUsage hkept, hlines]
  exact if_pos (beq_self_eq_true _)

theorem fileSize_mono {s t : WString} (h : s <+: t) : fileSize s ≤ fileSize t := by
  obtain ⟨rest, rfl⟩ := h
  have hencode : Utf16.encode (s ++ rest) = Utf16.encode s ++ Utf16.encode rest := List.flatMap_append
  rw [fileSize, fileSize, hencode, List.length_append]
  omega

/-- The file is small enough to be read exactly if the account that passed the cap
    leaves it so. -/
theorem readable_iff (hkept : ∀ account ∈ table.entries, KeptAccount loc account) :
    fileSize (serializeUsage table now).1 ≤ kMaxStateFileBytes ↔ Fits table now := by
  rw [(serializeUsage_eq hkept).1]
  constructor
  · intro hreadable before account after hentries hroom
    refine Nat.le_trans (fileSize_mono ?_) hreadable
    have hprefix := reached_of_room before account after versionText.length hroom
    rw [← hentries] at hprefix
    obtain ⟨rest, hrest⟩ := hprefix
    have hflat : (before ++ [account] ++ rest).flatMap (accountText now) =
        (before ++ [account]).flatMap (accountText now) ++ rest.flatMap (accountText now) := List.flatMap_append
    rw [← hrest, hflat, ← List.append_assoc]
    exact List.prefix_append _ _
  · intro hfits
    obtain hnil | ⟨before, account, hlast⟩ := List.eq_nil_or_concat (reached now versionText.length table.entries)
    · rw [hnil]
      show fileSize (versionText ++ []) ≤ kMaxStateFileBytes
      decide
    · rw [List.concat_eq_append] at hlast
      obtain ⟨after, hafter⟩ := @reached_begins now versionText.length table.entries
      rw [hlast, List.append_assoc] at hafter
      rw [hlast]
      exact hfits before account after hafter.symm (room_of_reached before account _ table.entries (by rw [hlast]))

/-- The counters survive a restart exactly if no account carries the file past its
    limit. -/
theorem usage_survives_iff (loc : Locale) (hspaces : PlainSpaces loc) (table : AccountTable) (now : Nat)
    (hkept : ∀ account ∈ table.entries, KeptAccount loc account) (hsize : table.size ≤ kMaxAccountEntries) :
    Survives loc table now ↔ Fits table now := by
  refine ⟨fun h => (readable_iff hkept).1 h.readable, fun hfits => ?_⟩
  have hreadable := (readable_iff hkept).2 hfits
  refine ⟨hreadable, fun account hmem hwritten c => ?_, fun hdone account hmem bucket hbucket => ?_⟩
  · have hbegins := @reached_begins now versionText.length table.entries
    obtain ⟨hloaded, hothers⟩ := @foldl_accounts loc now (reached now versionText.length table.entries) {}
      (kept_reached hkept) (table.nodup.sublist (hbegins.sublist.map _)) (fun _ _ => rfl)
      (Nat.le_trans (Nat.le_of_eq (Nat.zero_add _)) (Nat.le_trans hbegins.length_le hsize))
    rw [loadUsageFile_serializeUsage hspaces hkept hreadable]
    by_cases hreached : account ∈ reached now versionText.length table.entries
    · rw [hloaded account hreached]
      exact sumUsage_loaded (hkept account hmem) c
    · have hnone := (reached_of_written hkept hmem hwritten).resolve_left hreached
      have htotal := @total_writtenBuckets now account.2 c
      rw [hnone] at htotal
      have habsent : account.1 ∉ (reached now versionText.length table.entries).map Prod.fst := by
        intro hkey
        obtain ⟨other, hother, hsame⟩ := List.mem_map.1 hkey
        have heq := List.inj_on_of_nodup_map table.nodup (hbegins.subset hother) hmem hsame
        exact hreached (heq ▸ hother)
      rw [hothers account.1 habsent, sumUsage, sumUsage, ← htotal]
      rfl
  · rw [splitString_serializeUsage hkept, (serializeUsage_eq hkept).2 hdone]
    exact List.mem_cons_of_mem _ (List.mem_flatMap.2 ⟨account, hmem, List.mem_map_of_mem hbucket⟩)

end Restart

theorem classicLocale_plainSpaces : PlainSpaces classicLocale := fun _ _ => rfl

/-- An hour with one message to two recipients. -/
def oneSender : AccountTable := ⟨[(wide "a@b.c", [⟨1800000000, countsOf 1 2⟩])], by decide⟩

theorem usage_survives_oneSender : Survives classicLocale oneSender 1800000300 := by
  refine (usage_survives_iff classicLocale classicLocale_plainSpaces oneSender 1800000300 ?_ (by decide)).2 ?_
  · intro account h
    obtain rfl := List.mem_singleton.1 h
    refine ⟨by decide, by decide, by decide, by decide, fun bucket hbucket => ?_⟩
    obtain rfl := List.mem_singleton.1 hbucket
    refine ⟨by decide, by decide, fun c => ?_⟩
    cases c with
    | messages => decide
    | recipients => decide
  · intro before account after h _
    obtain ⟨rfl, h⟩ | ⟨rest, _, hrest⟩ := List.cons_eq_append_iff.1 h
    · obtain rfl := (List.cons.inj h).1
      decide +kernel
    · exact absurd hrest (by simp)

section Busy

/-- The `i`-th of many accounts with long names. -/
def busyName (i : Nat) : WString := List.replicate i 97 ++ List.replicate (240 - i) 98 ++ wide "@example.com"

def busyBuckets : UsageBuckets := (List.range 40).map fun k => ⟨1800000000 + 3600 * k, countsOf 1 1⟩

theorem busyName_plain (i : Nat) :
    ∀ c ∈ busyName i, classicLocale.isSpace c = false ∧ classicLower c = c ∧ c ≠ 0 ∧ ¬(c = 9 ∨ c = 13 ∨ c = 10) := by
  intro c hc
  rw [busyName, List.mem_append, List.mem_append] at hc
  obtain (hc | hc) | hc := hc
  · obtain rfl := List.eq_of_mem_replicate hc
    decide
  · obtain rfl := List.eq_of_mem_replicate hc
    decide
  · revert c
    decide

theorem length_busyName {i : Nat} (hi : i ≤ 240) : (busyName i).length = 252 := by
  rw [busyName, List.length_append, List.length_append, List.length_replicate, List.length_replicate]
  have hdomain : (wide "@example.com").length = 12 := by decide
  omega

theorem busyName_injective {i j : Nat} (h : busyName i = busyName j) : i = j := by
  have hcount : ∀ i, (busyName i).count 97 = i + 1 := by
    intro i
    rw [busyName, List.count_append, List.count_append, List.count_replicate_self, List.count_replicate]
    have hdomain : (wide "@example.com").count 97 = 1 := by decide
    simp [hdomain]
  have hsame := congrArg (List.count 97) h
  rw [hcount, hcount] at hsame
  omega

def manySenders : AccountTable where
  entries := (List.range 195).map fun i => (busyName i, busyBuckets)
  nodup := by
    rw [List.map_map]
    exact List.nodup_range.map_on fun i _ j _ h => busyName_injective h

theorem normalizeAccountKey_plain {key : WString} (h : ∀ c ∈ key, classicLocale.isSpace c = false ∧ classicLower c = c ∧ c ≠ 0) :
    normalizeAccountKey classicLocale key = key := by
  have htrim : trim classicLocale key = key := by
    cases key with
    | nil => rfl
    | cons c key =>
      exact trim_eq_self (List.cons_ne_nil _ _) (h _ (List.head_mem _)).1 (h _ (List.getLast_mem _)).1
  have hlower : key.map classicLocale.toLower = key := by
    conv_rhs => rw [← List.map_id key]
    exact List.map_congr_left fun c hc => (h c hc).2.1
  rw [normalizeAccountKey, htrim, makeLower, hlower]
  exact List.takeWhile_eq_self_iff.2 fun c hc => by simpa using (h c hc).2.2

theorem kept_busy {i : Nat} (hi : i ≤ 240) : KeptAccount classicLocale (busyName i, busyBuckets) where
  key_ne h := by
    have hlength := length_busyName hi
    have hnil : busyName i = [] := h
    rw [hnil] at hlength
    cases hlength
  normal := normalizeAccountKey_plain fun c hc => ⟨(busyName_plain i c hc).1, (busyName_plain i c hc).2.1, (busyName_plain i c hc).2.2.1⟩
  plain := by
    rw [corrupts, decide_eq_false_iff_not]
    rintro (h | h | h)
    · exact (busyName_plain i 9 h).2.2.2 (.inl rfl)
    · exact (busyName_plain i 13 h).2.2.2 (.inr (.inl rfl))
    · exact (busyName_plain i 10 h).2.2.2 (.inr (.inr rfl))
  few := by
    show busyBuckets.length ≤ kMaxBucketsPerAccount
    decide
  bounded bucket h := by
    obtain ⟨k, hk, rfl⟩ := List.mem_map.1 h
    rw [List.mem_range] at hk
    refine ⟨by show 0 < 1800000000 + 3600 * k; omega, by show 1800000000 + 3600 * k < 2 ^ 63; omega, fun c => ?_⟩
    cases c with
    | messages => show (1 : Nat) ≤ intMax; decide
    | recipients => show (1 : Nat) ≤ intMax; decide

/-- A time at which every bucket is in force. -/
def busyNow : Nat := 1800144000

theorem length_busyText {i : Nat} (hi : i ≤ 240) : (accountText busyNow (busyName i, busyBuckets)).length = 10760 := by
  have hall : writtenBuckets busyNow busyBuckets = busyBuckets := by
    apply List.filter_eq_self.2
    intro bucket h
    obtain ⟨k, _, rfl⟩ := List.mem_map.1 h
    have hlive : isLive busyNow ⟨1800000000 + 3600 * k, countsOf 1 1⟩ = true := by
      rw [isLive, decide_eq_true_eq]
      show 1800144000 < 1800000000 + 3600 * k + 604800
      omega
    rw [hlive]
    rfl
  have hstart : ∀ k < 40, (decimal (1800000000 + 3600 * k)).length = 10 := by decide
  have hone : (decimal 1).length = 1 := by decide
  have hline : ∀ bucket ∈ busyBuckets, (bucketLine (busyName i) bucket ++ [10]).length = 269 := by
    intro bucket h
    obtain ⟨k, hk, rfl⟩ := List.mem_map.1 h
    have hdigits := hstart k (List.mem_range.1 hk)
    have hname := length_busyName hi
    have hcstr := (kept_busy hi).trimmed.1
    rw [bucketLine, bucketLine_eq, hcstr]
    simp only [List.length_append, List.length_cons, List.length_nil, countsOf, hdigits, hone, hname]
  rw [accountText, hall, List.length_flatMap, List.map_congr_left hline, List.map_const', List.sum_replicate]
  decide

/-- A busy server: the account before which the text is still below the cap carries
    the file past the limit, and the next start discards all counters. -/
theorem busy_file_discarded :
    (∀ account ∈ manySenders.entries, KeptAccount classicLocale account) ∧ manySenders.size ≤ kMaxAccountEntries ∧
      ¬Survives classicLocale manySenders busyNow ∧
      (loadUsageFile classicLocale (some (serializeUsage manySenders busyNow).1) busyNow).entries = [] := by
  have hkept : ∀ account ∈ manySenders.entries, KeptAccount classicLocale account := by
    intro account h
    obtain ⟨i, hi, rfl⟩ := List.mem_map.1 h
    rw [List.mem_range] at hi
    exact kept_busy (by omega)
  have htexts : ∀ n ≤ 195, textsLength busyNow ((List.range n).map fun i => (busyName i, busyBuckets)) = n * 10760 := by
    intro n hn
    have hconst : ∀ i ∈ List.range n, (accountText busyNow (busyName i, busyBuckets)).length = 10760 := by
      intro i hi
      rw [List.mem_range] at hi
      exact length_busyText (by omega)
    rw [textsLength, List.flatMap_map, List.length_flatMap, List.map_congr_left hconst, List.map_const', List.sum_replicate,
      List.length_range, smul_eq_mul]
  have hbig : ¬fileSize (serializeUsage manySenders busyNow).1 ≤ kMaxStateFileBytes := by
    intro hreadable
    have hversion : versionText.length = 28 := by decide
    have hentries : manySenders.entries =
        ((List.range 194).map fun i => (busyName i, busyBuckets)) ++ (busyName 194, busyBuckets) :: [] := by
      have hrange : manySenders.entries = (List.range (194 + 1)).map fun i => (busyName i, busyBuckets) := rfl
      rw [hrange, List.range_succ, List.map_append]
      rfl
    have hsize := (readable_iff hkept).1 hreadable _ _ _ hentries
      (by rw [hversion, htexts 194 (by decide), kMaxStateFileChars, kMaxStateFileBytes]; omega)
    have hall := htexts (194 + 1) (Nat.le_refl _)
    rw [List.range_succ, List.map_append, List.map_singleton, textsLength] at hall
    generalize (((List.range 194).map fun i => (busyName i, busyBuckets)) ++
      [(busyName 194, busyBuckets)]).flatMap (accountText busyNow) = texts at hsize hall
    have hlong := Utf16.length_le_encode (versionText ++ texts)
    rw [List.length_append] at hlong
    rw [fileSize] at hsize
    have hmax : kMaxStateFileBytes = 4194304 := by decide
    omega
  refine ⟨hkept, ?_, fun h => hbig h.readable, ?_⟩
  · rw [AccountTable.size, show manySenders.entries = (List.range 195).map (fun i => (busyName i, busyBuckets)) from rfl,
      List.length_map, List.length_range]
    decide
  · rw [loadUsageFile, if_pos (Nat.not_le.1 hbig)]

end Busy

end HMailServer.RateLimiter
