import HMailServer.Lib.Separated
import HMailServer.Sieve.DuplicateTracker
import HMailServer.Sieve.VacationRateLimit

/- The duplicate test discards no first copy. Whatever reads and writes fail, a
   store holds the beginning of what was written, and every record that is read
   from it is one that an earlier call wrote; where none fails, a record is found
   until its window has passed. -/
namespace HMailServer.DuplicateTracker
open Cut VacationTracker

/-! ## Reading a store, or the beginning of one -/

theorem splitOn_storeContent {rs : List Record} (h : ∀ r ∈ rs, r.Valid) :
    (storeContent rs).splitOn 10 = (storeHeaderLine ++ [13]) :: (rs.map (fun r => recordText r ++ [13]) ++ [[]]) := by
  have hno : (10 : UInt8) ∉ storeHeaderLine ++ [13] := by decide
  have hcontent : storeContent rs = storeHeaderLine ++ [13] ++ 10 :: rs.flatMap recordLine := by
    simp [storeContent]
  rw [hcontent, List.splitOn_append_cons_self_of_not_mem hno, splitOn_records h]

theorem storeContent_cons (rs : List Record) : ∃ rest, storeContent rs = 35 :: rest :=
  ⟨(storeHeaderLine ++ [13, 10] ++ rs.flatMap recordLine).tail, rfl⟩

/-- A record that is read comes from a line of its own. -/
theorem loadLines_mem {now : Nat} {lines : List AnsiString} {records : List Record} {prunedAny : Bool} {n : Nat}
    (h : loadLines now n lines = some (records, prunedAny)) :
    ∀ r ∈ records, now < r.expires ∧ ∃ line ∈ lines, ∃ expiryText, line.head? ≠ some 35 ∧
      cut 32 line = some (expiryText, r.key) ∧ isWellFormedKey r.key = true ∧ r.expires = atoi64 expiryText := by
  induction lines generalizing records prunedAny n with
  | nil =>
    cases h
    simp
  | cons line rest ih =>
    have hrest : ∀ {records : List Record} {prunedAny : Bool} {n : Nat}, loadLines now n rest = some (records, prunedAny) →
        ∀ r ∈ records, now < r.expires ∧ ∃ l ∈ line :: rest, ∃ expiryText, l.head? ≠ some 35 ∧
          cut 32 l = some (expiryText, r.key) ∧ isWellFormedKey r.key = true ∧ r.expires = atoi64 expiryText := by
      intro records prunedAny n h r hr
      obtain ⟨hlive, l, hl, hread⟩ := ih h r hr
      exact ⟨hlive, l, List.mem_cons_of_mem _ hl, hread⟩
    rw [loadLines] at h
    split at h
    · exact hrest h
    rename_i hline
    split at h
    · cases h
    split at h
    · cases h
    rename_i expiryText key hcut
    split at h
    · cases h
    split at h
    · cases h
    rename_i hformed
    split at h
    · cases h
    rename_i records' prunedAny' hload
    split at h
    · cases h
      exact hrest hload
    · -- the line of a record in force
      rename_i hlive
      cases h
      intro r hr
      obtain rfl | hr := List.mem_cons.1 hr
      · rw [not_or] at hline
        simp only [Bool.or_eq_true, Bool.not_eq_true', not_or, Bool.not_eq_false] at hformed
        exact ⟨not_le.1 hlive, line, List.mem_cons_self, expiryText, hline.2, hcut, hformed.2, rfl⟩
      · exact hrest hload r hr

/-- A line that is the beginning of a record line, and has a whole key, has the
    record. -/
theorem record_of_prefix {r : Record} (hr : r.Valid) {line expiryText key : AnsiString}
    (hline : line <+: recordText r ++ [13]) (hcut : cut 32 line = some (expiryText, key))
    (hkey : isWellFormedKey key = true) : (⟨atoi64 expiryText, key⟩ : Record) = r := by
  obtain ⟨rfl, hspace⟩ := eq_of_cut hcut
  obtain ⟨rest, hrest⟩ := hline
  have hsplit : expiryText ++ 32 :: (key ++ rest) = AnsiString.formatNat r.expires ++ 32 :: (r.key ++ [13]) := by
    simpa [recordText] using hrest
  have hno : (32 : UInt8) ∉ AnsiString.formatNat r.expires := by
    intro hc
    exact absurd (isDigit_bounds (AnsiString.formatNat_isDigit _ _ hc)).1 (by decide)
  have hcuts := congrArg (cut 32) hsplit
  rw [cut_append hspace, cut_append hno] at hcuts
  obtain ⟨hexpiry, hkeys⟩ := Prod.mk.inj (Option.some.inj hcuts)
  have hlength : key.length = r.key.length := by
    rw [hr.key_chars.1]
    simp only [isWellFormedKey, Bool.and_eq_true, beq_iff_eq] at hkey
    exact hkey.1
  obtain ⟨hsame, _⟩ := List.append_inj hkeys hlength
  rw [hexpiry, hr.expiry.2, hsame]

/-- What is read from the beginning of a store are records of the store in
    force. -/
theorem loadContent_prefix {now : Nat} {rs records : List Record} {prunedAny : Bool} {content : AnsiString}
    (h : ∀ r ∈ rs, r.Valid) (hcontent : content <+: storeContent rs)
    (hload : loadContent now content = some (records, prunedAny)) : ∀ r ∈ records, r ∈ rs ∧ now < r.expires := by
  intro r hr
  rw [loadContent] at hload
  split at hload
  · cases hload
  split at hload
  · cases hload
  · cases hload
  rename_i header lines hsplit
  split at hload
  · cases hload
  obtain ⟨hlive, line, hline, expiryText, hhead, hcut, hkey, hexpires⟩ := loadLines_mem hload r hr
  refine ⟨?_, hlive⟩
  have htrimmed : line ∈ (content.splitOn 10).map fun line => line.rdropWhile (· == 13) := by
    rw [splitLines] at hsplit
    split at hsplit
    · rw [Option.some.inj hsplit]
      exact List.mem_cons_of_mem _ hline
    · cases hsplit
  obtain ⟨piece, hpiece, rfl⟩ := List.mem_map.1 htrimmed
  obtain ⟨q, hq, hprefix⟩ := Separated.prefix_of_mem_splitOn hcontent hpiece
  have hbegins : piece.rdropWhile (· == 13) <+: q := (List.rdropWhile_prefix _ _).trans hprefix
  have hne : piece.rdropWhile (· == 13) ≠ [] := by
    intro hnil
    rw [hnil] at hcut
    cases hcut
  rw [splitOn_storeContent h, List.mem_cons, List.mem_append, List.mem_singleton, List.mem_map] at hq
  rcases hq with rfl | ⟨r', hr', rfl⟩ | rfl
  · -- the beginning of the header line is a comment
    obtain ⟨rest, hrest⟩ := hbegins
    have hfirst : (piece.rdropWhile (· == 13)).head? = some 35 := by
      have hsame := @List.head?_append_of_ne_nil _ _ rest hne
      rw [← hsame, hrest]
      rfl
    exact absurd hfirst hhead
  · have hsame := record_of_prefix (h r' hr') hbegins hcut hkey
    rw [← hexpires] at hsame
    rw [show r = r' from hsame]
    exact hr'
  · exact absurd (List.prefix_nil.1 hbegins) hne

/-- A store that was completely written reads back. -/
theorem loadLines_records (now : Nat) {rs : List Record} (h : ∀ r ∈ rs, r.Valid) :
    ∀ n, n + rs.length ≤ maxLiveRecords →
      loadLines now n (rs.map recordText ++ [[]]) = some (live now rs, rs.any fun r => r.expires ≤ now) := by
  induction rs with
  | nil => intro n _; rfl
  | cons r rs ih =>
    intro n hn
    have hr := h r List.mem_cons_self
    rw [List.length_cons] at hn
    have hrest := ih (fun r hr => h r (List.mem_cons_of_mem _ hr)) (n + 1) (by omega)
    have hhead := recordText_head r
    rw [List.map_cons, List.cons_append, loadLines, if_neg (by simp [hhead]), if_neg (by omega), cut_recordText]
    dsimp only
    rw [if_neg (AnsiString.formatNat_ne_nil _), hr.expiry.1, hr.key_wellFormed, hrest, hr.expiry.2]
    by_cases hexp : r.expires ≤ now
    · simp [live, hexp]
    · simp [live, hexp, not_le.1 hexp]

theorem loadContent_storeContent (now : Nat) {rs : List Record} (h : ∀ r ∈ rs, r.Valid)
    (hlen : rs.length ≤ maxLiveRecords) :
    loadContent now (storeContent rs) = some (live now rs, rs.any fun r => r.expires ≤ now) := by
  have hhead : ∀ c ∈ storeHeaderLine, c ≠ 13 := List.all_iff_forall_prop.1 (by decide)
  have hmap : (rs.map fun r => recordText r ++ [13]).map (fun line => line.rdropWhile (· == 13)) =
      rs.map recordText := by
    rw [List.map_map]
    apply List.map_congr_left
    intro r hr
    exact rdropWhile_cr fun c hc => ((h r hr).text_chars c hc).2
  have hsplit : splitLines (storeContent rs) (maxLiveRecords + 2) =
      some (storeHeaderLine :: (rs.map recordText ++ [[]])) := by
    rw [splitLines, splitOn_storeContent h, List.map_cons, List.map_append, hmap, rdropWhile_cr hhead]
    rw [if_pos (by simp; omega)]
    rfl
  obtain ⟨rest, hrest⟩ := storeContent_cons rs
  have hne : storeContent rs ≠ [] := by
    rw [hrest]
    exact List.cons_ne_nil _ _
  rw [loadContent, if_neg hne, hsplit]
  dsimp only
  rw [if_neg (by simp)]
  exact loadLines_records now h 0 (by omega)

theorem length_storeContent {rs : List Record} (h : ∀ r ∈ rs, r.Valid) (hlen : rs.length ≤ maxLiveRecords) :
    (storeContent rs).length ≤ maxStoreBytes := by
  have hlines : ∀ rs : List Record, (∀ r ∈ rs, r.Valid) → (rs.flatMap recordLine).length ≤ 86 * rs.length := by
    intro rs h
    induction rs with
    | nil => exact Nat.le_refl 0
    | cons r rs ih =>
      have hr := length_recordLine (h r List.mem_cons_self)
      have hrest := ih fun r hr => h r (List.mem_cons_of_mem _ hr)
      rw [List.flatMap_cons, List.length_append, List.length_cons]
      omega
  have hrecords := hlines rs h
  have hheader : (storeHeaderLine ++ [13, 10]).length = 50 := by decide
  rw [storeContent, List.length_append, hheader]
  simp only [maxStoreBytes, maxLiveRecords] at *
  omega

/-! ## The file of a store -/

/-- The store is missing, or it is the beginning of one whose records are all
    of this kind. -/
def Kept (P : Record → Prop) (disk : Disk) (path : WString) : Prop :=
  ∀ content, disk path = some content → ∃ rs, (∀ r ∈ rs, r.Valid ∧ P r) ∧ content <+: storeContent rs

theorem Kept.mono {P Q : Record → Prop} {disk : Disk} {path : WString} (h : Kept P disk path) (hPQ : ∀ r, P r → Q r) :
    Kept Q disk path := by
  intro content hcontent
  obtain ⟨rs, hrs, hprefix⟩ := h content hcontent
  exact ⟨rs, fun r hr => ⟨(hrs r hr).1, hPQ r (hrs r hr).2⟩, hprefix⟩

theorem Kept.of_eq {P : Record → Prop} {disk disk' : Disk} {path : WString} (h : Kept P disk path)
    (heq : disk' path = disk path) : Kept P disk' path := by
  intro content hcontent
  exact h content (heq ▸ hcontent)

/-- What `Load_` answers, whatever fails, are records of the store in force. -/
theorem load_kept {env : DuplicateEnvironment} {P : Record → Prop} {io : FileOutcomes} {disk : Disk} {path : WString}
    {now : Nat} {records : List Record} {prunedAny : Bool} (h : Kept P disk path)
    (hload : load env io disk path now = some (records, prunedAny)) :
    ∀ r ∈ records, r.Valid ∧ P r ∧ now < r.expires := by
  rw [load] at hload
  split at hload
  · cases hload
    simp
  split at hload
  · cases hload
  split at hload
  · cases hload
  rename_i content hread
  cases hdisk : disk path with
  | none =>
    rw [readCompleteTextFile, hdisk] at hread
    cases hread
    cases hload
  | some bytes =>
    obtain ⟨rs, hrs, hprefix⟩ := h bytes hdisk
    have hsame : content = [] ∨ content = bytes := by
      rw [readCompleteTextFile, hdisk] at hread
      dsimp only at hread
      split at hread
      · exact .inl (Option.some.inj hread).symm
      split at hread
      · cases hread
      -- the store begins with its header, not with a byte order mark
      obtain ⟨first, hfirst⟩ := storeContent_cons rs
      have hmark : ∀ c more, c ≠ 35 → ¬ (c :: more).isPrefixOf bytes = true := by
        intro c more hc hmark
        have hbegin := (List.isPrefixOf_iff_prefix.1 hmark).trans hprefix
        rw [hfirst, List.cons_prefix_cons] at hbegin
        exact hc hbegin.1
      rw [if_neg (hmark _ _ (by decide)), if_neg (hmark _ _ (by decide))] at hread
      exact .inr (Option.some.inj hread).symm
    obtain rfl | rfl := hsame
    · cases hload
    · intro r hr
      obtain ⟨hmem, hlive⟩ := loadContent_prefix (fun r hr => (hrs r hr).1) hprefix hload r hr
      exact ⟨(hrs r hmem).1, (hrs r hmem).2, hlive⟩

/-- A file that was opened gets the beginning of what is written to it, even if
    all of it seems to have been taken. -/
theorem writeToFile_spec (io : FileOutcomes) (disk : Disk) (path : WString) (content : AnsiString) :
    (∀ p, p ≠ path → (writeToFile io disk path content).1 p = disk p) ∧
    ((writeToFile io disk path content).2 = true →
      ∃ begun, begun <+: content ∧ (io.closeStops = none → begun = content) ∧
        (writeToFile io disk path content).1 = setFile disk path (some begun)) := by
  unfold writeToFile
  split
  · exact ⟨fun p _ => rfl, nofun⟩
  · cases io.writeStops with
    | some count => exact ⟨fun p hp => setFile_other hp, nofun⟩
    | none =>
      cases io.closeStops with
      | some count => exact ⟨fun p hp => setFile_other hp, fun _ => ⟨_, List.take_prefix _ _, nofun, rfl⟩⟩
      | none => exact ⟨fun p hp => setFile_other hp, fun _ => ⟨_, List.prefix_rfl, fun _ => rfl, rfl⟩⟩

/-- `Save_` replaces the store as a whole, or by the beginning of what it writes
    where closing the temporary file loses the rest, or leaves it alone. No file
    but the store and the temporary one changes. -/
theorem save_spec (io : FileOutcomes) (disk : Disk) (path : WString) (records : List Record) :
    (∀ p, p ≠ path → p ≠ temporaryPath path → (save io disk path records).1 p = disk p) ∧
    ((save io disk path records).2 = .saved ∧ records.length ≤ maxLiveRecords ∧
        (∃ begun, begun <+: storeContent records ∧ (io.closeStops = none → begun = storeContent records) ∧
          (save io disk path records).1 path = some begun) ∨
      (save io disk path records).2 ≠ .saved ∧ (save io disk path records).1 path = disk path) := by
  have hne := temporaryPath_ne path
  obtain ⟨hframe, htaken⟩ := writeToFile_spec io disk (temporaryPath path) (storeContent records)
  unfold save
  split
  · exact ⟨fun p _ _ => rfl, .inr ⟨nofun, rfl⟩⟩
  rename_i hlen
  split
  · exact ⟨fun p _ _ => rfl, .inr ⟨nofun, rfl⟩⟩
  cases hwrite : writeToFile io disk (temporaryPath path) (storeContent records) with
  | mk written ok =>
    rw [hwrite] at hframe htaken
    cases ok with
    | false =>
      refine ⟨fun p _ hp => ?_, .inr ⟨nofun, ?_⟩⟩
      · exact (deleteFile_other hp).trans (hframe p hp)
      · exact (deleteFile_other hne).trans (hframe path hne)
    | true =>
      obtain ⟨begun, hprefix, hwhole, rfl⟩ := htaken rfl
      dsimp only
      split
      · exact ⟨fun p _ hp => hframe p hp, .inr ⟨nofun, hframe path hne⟩⟩
      by_cases hmove : io.moveFails = true
      · simp only [move, hmove, if_true]
        refine ⟨fun p _ hp => ?_, .inr ⟨nofun, ?_⟩⟩
        · exact (deleteFile_other hp).trans (setFile_other hp)
        · exact (deleteFile_other hne).trans (setFile_other hne)
      · simp only [move, hmove, Bool.false_eq_true, if_false]
        refine ⟨fun p hp htmp => ?_, .inl ⟨trivial, by omega, begun, hprefix, hwhole, ?_⟩⟩
        · rw [setFile_other htmp, setFile_other hp, setFile_other htmp]
        · rw [setFile_other hne, setFile_same, setFile_same]

/-- Where nothing fails, a store of the allowed size is written. -/
theorem save_saved (disk : Disk) (path : WString) {records : List Record} (h : records.length ≤ maxLiveRecords) :
    (save {} disk path records).2 = .saved := by
  rw [save, if_neg (by omega)]
  rfl

/-! ## One call -/

variable {env : DuplicateEnvironment} {disk : Disk} {c : Call}

def Call.path (env : DuplicateEnvironment) (c : Call) : WString := env.getDuplicateStorePath c.accountAddress

def Call.key (env : DuplicateEnvironment) (c : Call) : AnsiString := keyFor env c.identifier c.handle

/-- The record of a call. -/
def Call.record (env : DuplicateEnvironment) (c : Call) : Record := ⟨c.now + c.window, c.key env⟩

theorem Call.window_bounds (c : Call) : 1 ≤ c.window ∧ c.window ≤ maxWindowSeconds := by
  unfold Call.window maxWindowSeconds
  split
  · omega
  · split <;> omega

theorem Call.record_valid (c : Call) : (c.record env).Valid where
  expires_lt := by
    have hnow := c.now_lt
    have hwindow := c.window_bounds
    change c.now + c.window < 2 ^ 63
    omega
  key_wellFormed := by
    show isWellFormedKey (env.hexDigest _) = true
    rw [env.hexDigest_eq]
    exact env.sha256_wellFormed _

theorem mem_refresh {key : AnsiString} {expires : Nat} {r : Record} {rs : List Record}
    (h : r ∈ refresh key expires rs) : r ∈ rs ∨ r = ⟨expires, key⟩ := by
  induction rs with
  | nil => exact .inl h
  | cons x rs ih =>
    rw [refresh] at h
    split at h
    · rename_i hkey
      rcases List.mem_cons.1 h with rfl | h
      · exact .inr (by rw [← hkey])
      · exact .inl (List.mem_cons_of_mem _ h)
    · rcases List.mem_cons.1 h with rfl | h
      · exact .inl List.mem_cons_self
      · exact (ih h).imp_left (List.mem_cons_of_mem _)

/-- What is written of a call's records. -/
theorem saved_spec (io : FileOutcomes) (answer : Bool) {P : Record → Prop} {path : WString} {records : List Record}
    {mine : Bool} {own : Record} (h : Kept P disk path)
    (hrecords : ∀ r ∈ records, r.Valid ∧ (P r ∨ mine = true ∧ r = own)) :
    (∀ p, p ≠ path → p ≠ temporaryPath path → (saved io disk path records answer mine).disk p = disk p) ∧
    (∀ a, (saved io disk path records answer mine).answer = some a → a = answer) ∧
    Kept (fun r => P r ∨ (saved io disk path records answer mine).recorded = true ∧ r = own)
      (saved io disk path records answer mine).disk path := by
  obtain ⟨hframe, hsaved⟩ := save_spec io disk path records
  unfold saved
  cases hsave : save io disk path records with
  | mk disk' result =>
    rw [hsave] at hframe hsaved
    obtain ⟨rfl, _, begun, hprefix, _, hcontent⟩ | ⟨hnot, hsame⟩ := hsaved
    · refine ⟨hframe, fun a ha => (Option.some.inj ha).symm, ?_⟩
      intro content hread
      rw [← Option.some.inj (hcontent.symm.trans hread)]
      exact ⟨records, hrecords, hprefix⟩
    · have hkept : Kept P disk' path := h.of_eq hsame
      cases result with
      | saved => exact absurd rfl hnot
      | failed => exact ⟨hframe, fun a ha => (Option.some.inj ha).symm, hkept.mono fun r hr => .inl hr⟩
      | stopped => exact ⟨hframe, nofun, hkept.mono fun r hr => .inl hr⟩

/-- One call: it answers yes only for a record in force of its key, and every
    record it leaves was there or is its own. -/
theorem checkAndRecord_spec {P : Record → Prop} (h : Kept P disk (c.path env)) :
    (∀ p, p ≠ c.path env → p ≠ temporaryPath (c.path env) → (checkAndRecord env disk c).disk p = disk p) ∧
    ((checkAndRecord env disk c).answer = some true → ∃ r, P r ∧ r.key = c.key env ∧ c.now < r.expires) ∧
    Kept (fun r => P r ∨ (checkAndRecord env disk c).recorded = true ∧ r = c.record env)
      (checkAndRecord env disk c).disk (c.path env) := by
  rw [checkAndRecord]
  split
  · exact ⟨fun p _ _ => rfl, nofun, h.mono fun r hr => .inl hr⟩
  dsimp only
  split
  · exact ⟨fun p _ _ => rfl, nofun, h.mono fun r hr => .inl hr⟩
  rename_i records prunedAny hload
  have hread := @load_kept env P c.io disk (c.path env) c.now records prunedAny h hload
  have hold : ∀ mine : Bool, ∀ r ∈ records, r.Valid ∧ (P r ∨ mine = true ∧ r = c.record env) :=
    fun _ r hr => ⟨(hread r hr).1, .inl (hread r hr).2.1⟩
  split
  · -- the key has a record in force
    rename_i hseen
    obtain ⟨r, hr, hkey⟩ := List.any_eq_true.1 hseen
    have hproof : ∃ r, P r ∧ r.key = c.key env ∧ c.now < r.expires :=
      ⟨r, (hread r hr).2.1, beq_iff_eq.1 hkey, (hread r hr).2.2⟩
    split
    · have hrefreshed : ∀ r ∈ refresh (c.key env) (c.now + c.window) records,
          r.Valid ∧ (P r ∨ true = true ∧ r = c.record env) := by
        intro r hr
        obtain hr | rfl := mem_refresh hr
        · exact hold true r hr
        · exact ⟨c.record_valid, .inr ⟨rfl, rfl⟩⟩
      obtain ⟨hframe, _, hkept⟩ := saved_spec c.io true h hrefreshed
      exact ⟨hframe, fun _ => hproof, hkept⟩
    · split
      · obtain ⟨hframe, _, hkept⟩ := saved_spec c.io true h (hold false)
        exact ⟨hframe, fun _ => hproof, hkept⟩
      · exact ⟨fun p _ _ => rfl, fun _ => hproof, h.mono fun r hr => .inl hr⟩
  · split
    · split
      · obtain ⟨hframe, hanswer, hkept⟩ := saved_spec c.io false h (hold false)
        exact ⟨hframe, fun hyes => absurd (hanswer _ hyes) (by decide), hkept⟩
      · exact ⟨fun p _ _ => rfl, nofun, h.mono fun r hr => .inl hr⟩
    · have hadded : ∀ r ∈ records ++ [c.record env], r.Valid ∧ (P r ∨ true = true ∧ r = c.record env) := by
        intro r hr
        obtain hr | hr := List.mem_append.1 hr
        · exact hold true r hr
        · rw [List.mem_singleton.1 hr]
          exact ⟨c.record_valid, .inr ⟨rfl, rfl⟩⟩
      obtain ⟨hframe, hanswer, hkept⟩ := saved_spec c.io false h hadded
      exact ⟨hframe, fun hyes => absurd (hanswer _ hyes) (by decide), hkept⟩

/-! ## Runs -/

theorem run_append (env : DuplicateEnvironment) (disk : Disk) (pre post : List Call) :
    run env disk (pre ++ post) = run env (run env disk pre) post := by
  induction pre generalizing disk with
  | nil => rfl
  | cons c pre ih => exact ih _

/-- The same account, identifier and handle. -/
def Call.SameMessage (c c' : Call) : Prop :=
  c'.accountAddress = c.accountAddress ∧ c'.identifier = c.identifier ∧ c'.handle = c.handle

theorem Call.SameMessage.path_key {c' : Call} (h : c.SameMessage c') : c'.path env = c.path env ∧ c'.key env = c.key env := by
  obtain ⟨haccount, hidentifier, hhandle⟩ := h
  refine ⟨?_, ?_⟩
  · rw [Call.path, Call.path, haccount]
  · rw [Call.key, Call.key, keyFor, keyFor, hidentifier, hhandle]

/-- The record is that of a call of the run, which wrote it. -/
def Origin (env : DuplicateEnvironment) (disk : Disk) (calls : List Call) (path : WString) (r : Record) : Prop :=
  ∃ pre c post, calls = pre ++ c :: post ∧ c.path env = path ∧
    (checkAndRecord env (run env disk pre) c).recorded = true ∧ r = c.record env

theorem Origin.append {calls : List Call} {path : WString} {r : Record} (h : Origin env disk calls path r)
    (more : List Call) : Origin env disk (calls ++ more) path r := by
  obtain ⟨pre, c, post, rfl, hwrote⟩ := h
  exact ⟨pre, c, post ++ more, by simp, hwrote⟩

/-- No store path is the temporary path of a store: the names end differently. -/
theorem storePath_ne_temporaryPath (env : DuplicateEnvironment) (account : WString) (path : WString) :
    env.getDuplicateStorePath account ≠ temporaryPath path := by
  intro h
  have hlast := congrArg List.getLast? h
  have htmp : (temporaryPath path).getLast? = some 112 := by
    rw [temporaryPath, List.getLast?_append]
    rfl
  have hname : (env.getDuplicateStorePath account).getLast? = some 110 := by
    rw [DuplicateEnvironment.getDuplicateStorePath, combine, List.getLast?_append]
    rfl
  rw [htmp, hname] at hlast
  cases hlast

/-- What the stores hold after a run was written by its calls. -/
theorem run_kept (hempty : ∀ account, disk (env.getDuplicateStorePath account) = none) (calls : List Call) :
    ∀ account, Kept (Origin env disk calls (env.getDuplicateStorePath account)) (run env disk calls)
      (env.getDuplicateStorePath account) := by
  induction calls using List.reverseRecOn with
  | nil =>
    intro account content hcontent
    rw [run, hempty] at hcontent
    cases hcontent
  | append_singleton calls c ih =>
    intro account
    rw [run_append]
    show Kept _ (checkAndRecord env (run env disk calls) c).disk _
    obtain ⟨hframe, _, hkept⟩ := checkAndRecord_spec (c := c) (ih c.accountAddress)
    by_cases hpath : env.getDuplicateStorePath account = c.path env
    · rw [hpath]
      refine hkept.mono fun r hr => ?_
      obtain hold | ⟨hrecorded, hown⟩ := hr
      · exact hold.append [c]
      · exact ⟨calls, c, [], rfl, rfl, hrecorded, hown⟩
    · -- another account's store, which this call leaves alone
      exact ((ih account).mono fun r hr => hr.append [c]).of_eq
        (hframe _ hpath (storePath_ne_temporaryPath env account _))

/-- A yes follows a call of the same message, which wrote its record with a
    window that has not passed. -/
def NoFirstCopyIsDuplicate (env : DuplicateEnvironment) (disk : Disk) (calls : List Call) : Prop :=
  ∀ pre c post, calls = pre ++ c :: post → (checkAndRecord env (run env disk pre) c).answer = some true →
    ∃ before c' between, pre = before ++ c' :: between ∧ c.SameMessage c' ∧
      (checkAndRecord env (run env disk before) c').recorded = true ∧ c.now < c'.now + c'.window

/-- The store of the call's account has no room for another record. -/
def Full (env : DuplicateEnvironment) (disk : Disk) (c : Call) : Prop :=
  ∃ records prunedAny, load env c.io disk (c.path env) c.now = some (records, prunedAny) ∧ maxLiveRecords ≤ records.length

/-- A call is answered yes within the window of the latest call of the same
    message that was new or refreshed. -/
def EveryCopyIsDuplicate (env : DuplicateEnvironment) (disk : Disk) (calls : List Call) : Prop :=
  ∀ pre c mid c' post, calls = pre ++ c :: (mid ++ c' :: post) → c.identifier ≠ [] → c.SameMessage c' →
    ((checkAndRecord env (run env disk pre) c).answer = some false ∨ c.refreshOnSeen = true) →
    (∀ m ∈ mid, c.SameMessage m → m.refreshOnSeen = false) → c'.now < c.now + c.window →
    (checkAndRecord env (run env disk (pre ++ c :: mid)) c').answer = some true

/-- No two texts of the calls have the same digest. -/
def NoCollision (env : DuplicateEnvironment) (calls : List Call) : Prop :=
  ∀ c ∈ calls, ∀ c' ∈ calls, env.sha256 (keyText env c.identifier c.handle) = env.sha256 (keyText env c'.identifier c'.handle) →
    keyText env c.identifier c.handle = keyText env c'.identifier c'.handle

/-- Different accounts have different stores. -/
def OwnStores (env : DuplicateEnvironment) (calls : List Call) : Prop :=
  ∀ c ∈ calls, ∀ c' ∈ calls, c.path env = c'.path env → c.accountAddress = c'.accountAddress

/-- The identifier and the handle can be told from the text of the key, among
    the calls for one account. -/
def KeysToldApart (env : DuplicateEnvironment) (calls : List Call) : Prop :=
  ∀ c ∈ calls, ∀ c' ∈ calls, c.accountAddress = c'.accountAddress →
    keyText env c.identifier c.handle = keyText env c'.identifier c'.handle →
    c.identifier = c'.identifier ∧ c.handle = c'.handle

/-- Handles of one line are told apart, if the conversion does not lose text. -/
theorem keysToldApart_of_oneLine {calls : List Call} (hlines : ∀ c ∈ calls, 10 ∉ c.handle)
    (htext : ∀ c ∈ calls, ∀ c' ∈ calls, keyText env c.identifier c.handle = keyText env c'.identifier c'.handle →
      c.identifier ++ 10 :: c.handle = c'.identifier ++ 10 :: c'.handle) : KeysToldApart env calls := by
  intro c hc c' hc' _ hkeys
  exact append_cons_inj_last (hlines c hc) (hlines c' hc') (htext c hc c' hc' hkeys)

theorem sameMessage_of_key {calls : List Call} (hsha : NoCollision env calls) (hstores : OwnStores env calls)
    (hkeys : KeysToldApart env calls) {c' : Call} (hc : c ∈ calls) (hc' : c' ∈ calls) (hpath : c'.path env = c.path env)
    (hkey : c'.key env = c.key env) : c.SameMessage c' := by
  have haccount := hstores c' hc' c hc hpath
  have hdigest : env.sha256 (keyText env c'.identifier c'.handle) = env.sha256 (keyText env c.identifier c.handle) := by
    calc env.sha256 (keyText env c'.identifier c'.handle) = c'.key env := (env.hexDigest_eq _).symm
      _ = c.key env := hkey
      _ = env.sha256 (keyText env c.identifier c.handle) := env.hexDigest_eq _
  exact ⟨haccount, hkeys c' hc' c hc haccount (hsha c' hc' c hc hdigest)⟩

theorem noFirstCopyIsDuplicate (hempty : ∀ account, disk (env.getDuplicateStorePath account) = none) {calls : List Call}
    (hsha : NoCollision env calls) (hstores : OwnStores env calls) (hkeys : KeysToldApart env calls) :
    NoFirstCopyIsDuplicate env disk calls := by
  rintro pre c post rfl hyes
  obtain ⟨_, hproof, _⟩ := checkAndRecord_spec (c := c) (run_kept hempty pre c.accountAddress)
  obtain ⟨r, ⟨before, c', between, rfl, hpath, hrecorded, rfl⟩, hkey, hlive⟩ := hproof hyes
  exact ⟨before, c', between, rfl, sameMessage_of_key hsha hstores hkeys (by simp) (by simp) hpath hkey, hrecorded, hlive⟩

/-! ## Runs in which nothing fails -/

/-- The store at `path` holds these records; a missing store holds none. -/
inductive Holds (disk : Disk) (path : WString) : List Record → Prop
  | missing (h : disk path = none) : Holds disk path []
  | written {rs : List Record} (h : disk path = some (storeContent rs)) (hvalid : ∀ r ∈ rs, r.Valid)
      (hlen : rs.length ≤ maxLiveRecords) : Holds disk path rs

theorem Holds.valid {path : WString} {rs : List Record} (h : Holds disk path rs) :
    (∀ r ∈ rs, r.Valid) ∧ rs.length ≤ maxLiveRecords := by
  cases h with
  | missing h => exact ⟨fun r hr => absurd hr List.not_mem_nil, Nat.zero_le _⟩
  | written h hvalid hlen => exact ⟨hvalid, hlen⟩

theorem Holds.of_eq {disk' : Disk} {path : WString} {rs : List Record} (h : Holds disk path rs)
    (heq : disk' path = disk path) : Holds disk' path rs := by
  cases h with
  | missing h => exact .missing (heq.trans h)
  | written h hvalid hlen => exact .written (heq.trans h) hvalid hlen

/-- `Load_` answers the records in force. -/
theorem load_holds {path : WString} {now : Nat} {rs : List Record} (h : Holds disk path rs) :
    load env {} disk path now = some (live now rs, rs.any fun r => r.expires ≤ now) := by
  cases h with
  | missing h =>
    rw [load, fileExists, h]
    rfl
  | written h hvalid hlen =>
    obtain ⟨rest, hrest⟩ := storeContent_cons rs
    have hread : readCompleteTextFile env.toVacationEnvironment {} disk path = some (storeContent rs) := by
      rw [readCompleteTextFile, h, hrest]
      simp [List.isPrefixOf]
    have hsize := length_storeContent hvalid hlen
    rw [load, fileExists, h, fileSize, h, hread]
    simp only [Option.isSome_some, Bool.not_false, Bool.and_self, Bool.not_true, Bool.false_eq_true, if_false,
      Option.getD_some]
    rw [if_neg (by omega)]
    exact loadContent_storeContent now hvalid hlen

theorem saved_holds (disk : Disk) (path : WString) (answer mine : Bool) {records : List Record} (hvalid : ∀ r ∈ records, r.Valid)
    (hlen : records.length ≤ maxLiveRecords) :
    (saved {} disk path records answer mine).answer = some answer ∧
      Holds (saved {} disk path records answer mine).disk path records := by
  obtain ⟨_, ⟨hsaved, _, begun, _, hwhole, hcontent⟩ | ⟨hnot, _⟩⟩ := save_spec {} disk path records
  · unfold saved
    cases hsave : save {} disk path records with
    | mk disk' result =>
      rw [hsave] at hsaved hcontent
      cases hsaved
      rw [hwhole rfl] at hcontent
      exact ⟨rfl, .written hcontent hvalid hlen⟩
  · exact absurd (save_saved disk path hlen) hnot

theorem length_refresh (key : AnsiString) (expires : Nat) (rs : List Record) : (refresh key expires rs).length = rs.length := by
  induction rs with
  | nil => rfl
  | cons x rs ih =>
    rw [refresh]
    split
    · rfl
    · rw [List.length_cons, List.length_cons, ih]

theorem refreshed_mem {key : AnsiString} (expires : Nat) {rs : List Record} (h : ∃ r ∈ rs, r.key = key) :
    ⟨expires, key⟩ ∈ refresh key expires rs := by
  induction rs with
  | nil =>
    obtain ⟨r, hr, _⟩ := h
    cases hr
  | cons x rs ih =>
    rw [refresh]
    split
    · rename_i hkey
      rw [← hkey]
      exact List.mem_cons_self
    · rename_i hkey
      obtain ⟨r, hr, hrkey⟩ := h
      rcases List.mem_cons.1 hr with rfl | hr
      · exact absurd hrkey hkey
      · exact List.mem_cons_of_mem _ (ih ⟨r, hr, hrkey⟩)

/-- The records of other keys stay. -/
theorem mem_refresh_other {key : AnsiString} (expires : Nat) {rs : List Record} {r : Record} (hr : r ∈ rs)
    (hkey : r.key ≠ key) : r ∈ refresh key expires rs := by
  induction rs with
  | nil => cases hr
  | cons x rs ih =>
    rw [refresh]
    split
    · rename_i hx
      rcases List.mem_cons.1 hr with rfl | hr
      · exact absurd hx hkey
      · exact List.mem_cons_of_mem _ hr
    · rcases List.mem_cons.1 hr with rfl | hr
      · exact List.mem_cons_self
      · exact List.mem_cons_of_mem _ (ih hr)

/-- A call in which nothing fails. -/
theorem checkAndRecord_holds {rs : List Record} (hio : c.io = {}) (hidentifier : c.identifier ≠ [])
    (h : Holds disk (c.path env) rs) :
    ((∃ r ∈ live c.now rs, r.key = c.key env) ∧ (checkAndRecord env disk c).answer = some true ∧
        (c.refreshOnSeen = true ∧
            Holds (checkAndRecord env disk c).disk (c.path env) (refresh (c.key env) (c.now + c.window) (live c.now rs)) ∨
          c.refreshOnSeen = false ∧
            ∃ rs', Holds (checkAndRecord env disk c).disk (c.path env) rs' ∧ live c.now rs ⊆ rs')) ∨
      (∀ r ∈ live c.now rs, r.key ≠ c.key env) ∧ (checkAndRecord env disk c).answer = some false ∧
        ∃ rs', Holds (checkAndRecord env disk c).disk (c.path env) rs' ∧ live c.now rs ⊆ rs' ∧
          ((live c.now rs).length < maxLiveRecords → c.record env ∈ rs') := by
  have hvalid : ∀ r ∈ live c.now rs, r.Valid := fun r hr => h.valid.1 r ((live_sublist _ _).subset hr)
  have hlen : (live c.now rs).length ≤ maxLiveRecords := (live_sublist c.now rs).length_le.trans h.valid.2
  have hload : load env c.io disk (env.getDuplicateStorePath c.accountAddress) c.now =
      some (live c.now rs, rs.any fun r => r.expires ≤ c.now) := by
    rw [hio]
    exact load_holds h
  rw [checkAndRecord, if_neg hidentifier]
  dsimp only
  rw [hload]
  dsimp only
  rw [hio]
  by_cases hseen : ∃ r ∈ live c.now rs, r.key = c.key env
  · have hany : ((live c.now rs).any fun r => r.key == keyFor env c.identifier c.handle) = true := by
      obtain ⟨r, hr, hkey⟩ := hseen
      exact List.any_eq_true.2 ⟨r, hr, beq_iff_eq.2 hkey⟩
    rw [if_pos hany]
    refine .inl ⟨hseen, ?_⟩
    cases hrefresh : c.refreshOnSeen with
    | true =>
      have hwritten : ∀ r ∈ refresh (c.key env) (c.now + c.window) (live c.now rs), r.Valid := by
        intro r hr
        obtain hr | rfl := mem_refresh hr
        · exact hvalid r hr
        · exact c.record_valid
      obtain ⟨hanswer, hholds⟩ := saved_holds disk (c.path env) true true hwritten
        (by rw [length_refresh]; exact hlen)
      exact ⟨hanswer, .inl ⟨rfl, hholds⟩⟩
    | false =>
      simp only [Bool.false_eq_true, if_false]
      split
      · obtain ⟨hanswer, hholds⟩ := saved_holds disk (c.path env) true false hvalid hlen
        exact ⟨hanswer, .inr ⟨trivial, _, hholds, List.Subset.refl _⟩⟩
      · exact ⟨rfl, .inr ⟨trivial, rs, h, (live_sublist _ _).subset⟩⟩
  · have hany : ¬ ((live c.now rs).any fun r => r.key == keyFor env c.identifier c.handle) = true := by
      intro hany
      obtain ⟨r, hr, hkey⟩ := List.any_eq_true.1 hany
      exact hseen ⟨r, hr, beq_iff_eq.1 hkey⟩
    rw [if_neg hany]
    refine .inr ⟨fun r hr hkey => hseen ⟨r, hr, hkey⟩, ?_⟩
    split
    · rename_i hfull
      split
      · obtain ⟨hanswer, hholds⟩ := saved_holds disk (c.path env) false false hvalid hlen
        exact ⟨hanswer, _, hholds, List.Subset.refl _, fun hroom => absurd hfull (by omega)⟩
      · exact ⟨rfl, rs, h, (live_sublist _ _).subset, fun hroom => absurd hfull (by omega)⟩
    · rename_i hroom
      have hwritten : ∀ r ∈ live c.now rs ++ [c.record env], r.Valid := by
        intro r hr
        obtain hr | hr := List.mem_append.1 hr
        · exact hvalid r hr
        · rw [List.mem_singleton.1 hr]
          exact c.record_valid
      obtain ⟨hanswer, hholds⟩ := saved_holds disk (c.path env) false true hwritten
        (by rw [List.length_append, List.length_singleton]; omega)
      exact ⟨hanswer, _, hholds, List.subset_append_left _ _, fun _ => List.mem_append_right _ List.mem_cons_self⟩

/-- Every account has a store that was completely written, or none. -/
def StoresHold (env : DuplicateEnvironment) (disk : Disk) : Prop :=
  ∀ account, ∃ rs, Holds disk (env.getDuplicateStorePath account) rs

/-- The key has a record at `path` up to the deadline. -/
def Seen (disk : Disk) (path : WString) (key : AnsiString) (deadline : Nat) : Prop :=
  ∃ rs, Holds disk path rs ∧ ∃ r ∈ rs, r.key = key ∧ deadline ≤ r.expires

/-- A call leaves every other store alone. -/
theorem checkAndRecord_frame (h : StoresHold env disk) {account : WString}
    (hpath : env.getDuplicateStorePath account ≠ c.path env) :
    (checkAndRecord env disk c).disk (env.getDuplicateStorePath account) = disk (env.getDuplicateStorePath account) := by
  have hkept : Kept (fun _ => True) disk (c.path env) := by
    obtain ⟨rs, hrs⟩ := h c.accountAddress
    intro content hcontent
    cases hrs with
    | missing hnone => exact absurd (hnone.symm.trans hcontent) nofun
    | written hsome hvalid hlen =>
      rw [show content = storeContent rs from Option.some.inj (hcontent.symm.trans hsome)]
      exact ⟨rs, fun r hr => ⟨hvalid r hr, trivial⟩, List.prefix_rfl⟩
  exact (checkAndRecord_spec hkept).1 _ hpath (storePath_ne_temporaryPath env account _)

theorem step_storesHold (h : StoresHold env disk) (hio : c.io = {}) : StoresHold env (checkAndRecord env disk c).disk := by
  intro account
  by_cases hpath : env.getDuplicateStorePath account = c.path env
  · obtain ⟨rs, hrs⟩ := h c.accountAddress
    rw [hpath]
    by_cases hidentifier : c.identifier = []
    · rw [checkAndRecord, if_pos hidentifier]
      exact ⟨rs, hrs⟩
    · obtain ⟨_, _, ⟨_, hstore⟩ | ⟨_, rs', hstore, _⟩⟩ | ⟨_, _, rs', hstore, _⟩ := checkAndRecord_holds hio hidentifier hrs
      · exact ⟨_, hstore⟩
      · exact ⟨rs', hstore⟩
      · exact ⟨rs', hstore⟩
  · obtain ⟨rs, hrs⟩ := h account
    exact ⟨rs, hrs.of_eq (checkAndRecord_frame h hpath)⟩

/-- A call before the deadline keeps the record, unless it refreshes the key. -/
theorem step_seen (h : StoresHold env disk) (hio : c.io = {}) {account : WString} {key : AnsiString} {deadline : Nat}
    (hnow : c.now < deadline)
    (hkeeps : env.getDuplicateStorePath account = c.path env → c.key env = key → c.refreshOnSeen = false)
    (hseen : Seen disk (env.getDuplicateStorePath account) key deadline) :
    Seen (checkAndRecord env disk c).disk (env.getDuplicateStorePath account) key deadline := by
  obtain ⟨rs, hrs, r, hr, hkey, hexpires⟩ := hseen
  by_cases hpath : env.getDuplicateStorePath account = c.path env
  · have hlive : r ∈ live c.now rs := mem_live hr (lt_of_lt_of_le hnow hexpires)
    rw [hpath] at hrs ⊢
    by_cases hidentifier : c.identifier = []
    · rw [checkAndRecord, if_pos hidentifier]
      exact ⟨rs, hrs, r, hr, hkey, hexpires⟩
    · obtain ⟨_, _, ⟨hrefresh, hstore⟩ | ⟨_, rs', hstore, hsub⟩⟩ | ⟨_, _, rs', hstore, hsub, _⟩ :=
        checkAndRecord_holds hio hidentifier hrs
      · have hother : r.key ≠ c.key env := by
          intro hsame
          rw [hkeeps hpath (hsame.symm.trans hkey)] at hrefresh
          cases hrefresh
        exact ⟨_, hstore, r, mem_refresh_other _ hlive hother, hkey, hexpires⟩
      · exact ⟨rs', hstore, r, hsub hlive, hkey, hexpires⟩
      · exact ⟨rs', hstore, r, hsub hlive, hkey, hexpires⟩
  · exact ⟨rs, hrs.of_eq (checkAndRecord_frame h hpath), r, hr, hkey, hexpires⟩

/-- A call that is new and has room, or that refreshes, leaves its record. -/
theorem seen_after (h : StoresHold env disk) (hio : c.io = {}) (hidentifier : c.identifier ≠ []) (hroom : ¬ Full env disk c)
    (hwrites : (checkAndRecord env disk c).answer = some false ∨ c.refreshOnSeen = true) :
    Seen (checkAndRecord env disk c).disk (c.path env) (c.key env) (c.now + c.window) := by
  obtain ⟨rs, hrs⟩ := h c.accountAddress
  have hroom : (live c.now rs).length < maxLiveRecords := by
    by_contra hfull
    exact hroom ⟨_, _, by rw [hio]; exact load_holds hrs, by omega⟩
  obtain ⟨hfound, hyes, ⟨_, hstore⟩ | ⟨hkeeps, _⟩⟩ | ⟨_, _, rs', hstore, _, hadded⟩ := checkAndRecord_holds hio hidentifier hrs
  · exact ⟨_, hstore, c.record env, refreshed_mem _ hfound, rfl, Nat.le_refl _⟩
  · obtain hno | hrefresh := hwrites
    · rw [hyes] at hno
      cases hno
    · rw [hkeeps] at hrefresh
      cases hrefresh
  · exact ⟨rs', hstore, c.record env, hadded hroom, rfl, Nat.le_refl _⟩

theorem seen_answers (hio : c.io = {}) (hidentifier : c.identifier ≠ []) {deadline : Nat} (hnow : c.now < deadline)
    (hseen : Seen disk (c.path env) (c.key env) deadline) : (checkAndRecord env disk c).answer = some true := by
  obtain ⟨rs, hrs, r, hr, hkey, hexpires⟩ := hseen
  obtain ⟨_, hyes, _⟩ | ⟨hnew, _⟩ := checkAndRecord_holds hio hidentifier hrs
  · exact hyes
  · exact absurd hkey (hnew r (mem_live hr (lt_of_lt_of_le hnow hexpires)))

theorem run_storesHold {calls : List Call} (h : StoresHold env disk) (hio : ∀ c ∈ calls, c.io = {}) :
    StoresHold env (run env disk calls) := by
  induction calls generalizing disk with
  | nil => exact h
  | cons c calls ih =>
    exact ih (step_storesHold h (hio c List.mem_cons_self)) fun c hc => hio c (List.mem_cons_of_mem _ hc)

theorem run_seen {calls : List Call} (h : StoresHold env disk) (hio : ∀ c ∈ calls, c.io = {}) {account : WString}
    {key : AnsiString} {deadline : Nat} (hnow : ∀ c ∈ calls, c.now < deadline)
    (hkeeps : ∀ c ∈ calls, env.getDuplicateStorePath account = c.path env → c.key env = key → c.refreshOnSeen = false)
    (hseen : Seen disk (env.getDuplicateStorePath account) key deadline) :
    Seen (run env disk calls) (env.getDuplicateStorePath account) key deadline := by
  induction calls generalizing disk with
  | nil => exact hseen
  | cons c calls ih =>
    have hc := hio c List.mem_cons_self
    exact ih (step_storesHold h hc) (fun c hc => hio c (List.mem_cons_of_mem _ hc))
      (fun c hc => hnow c (List.mem_cons_of_mem _ hc)) (fun c hc => hkeeps c (List.mem_cons_of_mem _ hc))
      (step_seen h hc (hnow c List.mem_cons_self) (hkeeps c List.mem_cons_self) hseen)

theorem everyCopyIsDuplicate (hempty : ∀ account, disk (env.getDuplicateStorePath account) = none) {calls : List Call}
    (hclock : calls.Pairwise fun c c' => c.now ≤ c'.now) (hsha : NoCollision env calls) (hstores : OwnStores env calls)
    (hkeys : KeysToldApart env calls) (hio : ∀ c ∈ calls, c.io = {})
    (hroom : ∀ pre c post, calls = pre ++ c :: post → ¬ Full env (run env disk pre) c) :
    EveryCopyIsDuplicate env disk calls := by
  rintro pre c mid c' post rfl hidentifier hsame hwrites hbetween hnow
  have hstart : StoresHold env disk := fun account => ⟨[], .missing (hempty account)⟩
  have hpre : StoresHold env (run env disk pre) := run_storesHold hstart fun m hm => hio m (by simp [hm])
  have hc : c.io = {} := hio c (by simp)
  have hafter := step_storesHold hpre hc
  -- the calls in between are before the end of the window too
  have hearlier : ∀ m ∈ mid, m.now < c.now + c.window := by
    intro m hm
    have hle : m.now ≤ c'.now := by
      have hpair := (List.pairwise_append.1 hclock).2.1
      have hpair := (List.pairwise_append.1 (List.pairwise_cons.1 hpair).2).2.2
      exact hpair m hm c' List.mem_cons_self
    omega
  have hkeeps : ∀ m ∈ mid, env.getDuplicateStorePath c.accountAddress = m.path env → m.key env = c.key env →
      m.refreshOnSeen = false := by
    intro m hm hpath hkey
    exact hbetween m hm (sameMessage_of_key hsha hstores hkeys (by simp) (by simp [hm]) hpath.symm hkey)
  have hseen := run_seen hafter (fun m hm => hio m (by simp [hm])) hearlier hkeeps
    (seen_after hpre hc hidentifier (hroom pre c _ rfl) hwrites)
  obtain ⟨hpath, hkey⟩ := @Call.SameMessage.path_key env c c' hsame
  rw [run_append]
  refine seen_answers (hio c' (by simp)) (by rw [hsame.2.1]; exact hidentifier) hnow ?_
  rw [hpath, hkey]
  exact hseen

/-- In every run of calls whose keys can be told apart, a yes stands for a
    message that was seen before, whatever fails; and every message that was
    seen is answered yes, if nothing fails and no store is full. -/
theorem duplicates_were_seen (hempty : ∀ account, disk (env.getDuplicateStorePath account) = none) (calls : List Call)
    (hclock : calls.Pairwise fun c c' => c.now ≤ c'.now) (hsha : NoCollision env calls) (hstores : OwnStores env calls)
    (hkeys : KeysToldApart env calls) :
    NoFirstCopyIsDuplicate env disk calls ∧
      ((∀ c ∈ calls, c.io = {}) → (∀ pre c post, calls = pre ++ c :: post → ¬ Full env (run env disk pre) c) →
        EveryCopyIsDuplicate env disk calls) :=
  ⟨noFirstCopyIsDuplicate hempty hsha hstores hkeys,
    fun hio hroom => everyCopyIsDuplicate hempty hclock hsha hstores hkeys hio hroom⟩

/-- A server whose digest is the one of the three lines `uid:a`, `b` and `c`. -/
def sampleEnvironment : DuplicateEnvironment where
  loc := classicLocale
  pathSeparator := 47
  getAccountDirectory account := wide "Data/Sieve/" ++ account
  hexDigest _ := ansi "ea4d1e4db0af2ba3ec9896217d6c3c370fbc6037d317d72586699edfbdb0aaa2"
  utf8Text s := s
  utf16Text s := s
  toMultiByte := List.map UInt8.ofNat
  sha256 _ := ansi "ea4d1e4db0af2ba3ec9896217d6c3c370fbc6037d317d72586699edfbdb0aaa2"
  sha256_wellFormed _ := by decide
  hexDigest_eq _ := rfl

/-- A week's window in the account `u@x`. -/
def sampleCall (identifier handle : WString) (now : Nat) (io : FileOutcomes) (h : now + maxWindowSeconds < 2 ^ 63) : Call :=
  ⟨wide "u@x", identifier, handle, 604800, false, now, io, h⟩

/-- The first write is lost when the process stops, the second one stays, and the
    third call is a duplicate. -/
theorem duplicates_were_seen_crash :
    NoFirstCopyIsDuplicate sampleEnvironment (fun _ => none)
      [sampleCall (wide "uid:a\nb") (wide "c") 100 { processStops := true } (by decide),
        sampleCall (wide "uid:a\nb") (wide "c") 200 {} (by decide),
        sampleCall (wide "uid:a\nb") (wide "c") 300 { openTemporaryFails := true } (by decide)] := by
  refine (duplicates_were_seen (fun _ => rfl) _ (by decide) ?_ ?_ ?_).1
  · intro c hc c' hc' _
    simp only [List.mem_cons, List.not_mem_nil, or_false] at hc hc'
    obtain rfl | rfl | rfl := hc <;> obtain rfl | rfl | rfl := hc' <;> rfl
  · intro c hc c' hc' _
    simp only [List.mem_cons, List.not_mem_nil, or_false] at hc hc'
    obtain rfl | rfl | rfl := hc <;> obtain rfl | rfl | rfl := hc' <;> rfl
  · intro c hc c' hc' _ _
    simp only [List.mem_cons, List.not_mem_nil, or_false] at hc hc'
    obtain rfl | rfl | rfl := hc <;> obtain rfl | rfl | rfl := hc' <;> exact ⟨rfl, rfl⟩

/-- An identifier of two lines with the handle `c` has the key of its first line
    with a handle of two lines: the first copy of the second message is a
    duplicate. -/
def twoLines : List Call :=
  [sampleCall (wide "uid:a\nb") (wide "c") 100 {} (by decide), sampleCall (wide "uid:a") (wide "b\nc") 200 {} (by decide)]

theorem first_copy_is_duplicate :
    (∀ account, (fun _ => none : Disk) (sampleEnvironment.getDuplicateStorePath account) = none) ∧
      (twoLines.Pairwise fun c c' => c.now ≤ c'.now) ∧ NoCollision sampleEnvironment twoLines ∧
      OwnStores sampleEnvironment twoLines ∧ ¬ NoFirstCopyIsDuplicate sampleEnvironment (fun _ => none) twoLines := by
  refine ⟨fun _ => rfl, by decide, ?_, ?_, ?_⟩
  · intro c hc c' hc' _
    simp only [twoLines, List.mem_cons, List.not_mem_nil, or_false] at hc hc'
    obtain rfl | rfl := hc <;> obtain rfl | rfl := hc' <;> decide
  · intro c hc c' hc' _
    simp only [twoLines, List.mem_cons, List.not_mem_nil, or_false] at hc hc'
    obtain rfl | rfl := hc <;> obtain rfl | rfl := hc' <;> rfl
  · intro h
    obtain ⟨before, c', between, hpre, hsame, _⟩ := h [twoLines[0]] twoLines[1] [] rfl (by decide +kernel)
    have hmem : c' ∈ [twoLines[0]] := by
      rw [hpre]
      simp
    rw [List.mem_singleton.1 hmem] at hsame
    exact absurd hsame.2.1 (by decide)

end HMailServer.DuplicateTracker
