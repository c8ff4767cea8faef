import HMailServer.Sieve.VacationTracker
import HMailServer.Lib.Byte

/- Vacation replies are rate-limited. A store that was completely written reads
   back as its records; every call leaves such a store or none; and a record
   stays in it until its window has passed. -/
namespace HMailServer.VacationTracker
open Cut

/-! ## A written store reads back -/

/-- What the code writes: a 64-bit time and a digest. -/
structure Record.Valid (r : Record) : Prop where
  expires_lt : r.expires < 2 ^ 63
  key_wellFormed : isWellFormedKey r.key = true

theorem Record.Valid.key_chars {r : Record} (h : r.Valid) :
    r.key.length = 64 ∧ ∀ c ∈ r.key, (48 ≤ c ∧ c ≤ 57) ∨ (97 ≤ c ∧ c ≤ 102) := by
  have hkey := h.key_wellFormed
  simp only [isWellFormedKey, Bool.and_eq_true, beq_iff_eq, List.all_eq_true, Bool.or_eq_true,
    decide_eq_true_eq] at hkey
  exact hkey

/-- A record line without its line end. -/
def recordText (r : Record) : AnsiString := AnsiString.formatNat r.expires ++ 32 :: r.key

theorem isDigit_bounds {c : UInt8} (h : AnsiString.isDigit c = true) : 48 ≤ c ∧ c ≤ 57 := by
  simpa [AnsiString.isDigit] using h

theorem Record.Valid.text_chars {r : Record} (h : r.Valid) : ∀ c ∈ recordText r, c ≠ 10 ∧ c ≠ 13 := by
  have key : ∀ c : UInt8, 48 ≤ c ∨ c = 32 → c ≠ 10 ∧ c ≠ 13 := Byte.forall_of_lt (by decide +kernel)
  intro c hc
  apply key
  rw [recordText, List.mem_append, List.mem_cons] at hc
  obtain hc | hc | hc := hc
  · exact .inl (isDigit_bounds (AnsiString.formatNat_isDigit _ c hc)).1
  · exact .inr hc
  · left
    obtain hd | hx := h.key_chars.2 c hc
    · exact hd.1
    · have hle : (48 : UInt8) ≤ 97 := by decide
      exact UInt8.le_trans hle hx.1

theorem cut_recordText (r : Record) : cut 32 (recordText r) = some (AnsiString.formatNat r.expires, r.key) := by
  apply cut_append
  intro hc
  have hd := isDigit_bounds (AnsiString.formatNat_isDigit _ _ hc)
  exact absurd hd.1 (by decide)

theorem recordText_head (r : Record) : recordText r ≠ [] ∧ (recordText r).head? ≠ some 35 := by
  cases h : AnsiString.formatNat r.expires with
  | nil => exact absurd h (AnsiString.formatNat_ne_nil _)
  | cons c s =>
    have hd := isDigit_bounds (AnsiString.formatNat_isDigit r.expires c (by rw [h]; exact List.mem_cons_self))
    rw [recordText, h]
    refine ⟨List.cons_ne_nil _ _, fun hc => ?_⟩
    have hc : c = 35 := by simpa using hc
    rw [hc] at hd
    exact absurd hd.1 (by decide)

theorem Record.Valid.expiry {r : Record} (h : r.Valid) :
    isAsciiInt64 (AnsiString.formatNat r.expires) = true ∧ atoi64 (AnsiString.formatNat r.expires) = r.expires := by
  have hlt := h.expires_lt
  have hlen : (AnsiString.formatNat r.expires).length ≤ 19 :=
    AnsiString.length_formatNat_le (by decide) (lt_trans hlt (by decide))
  refine ⟨?_, ?_⟩
  · simp only [isAsciiInt64, Bool.and_eq_true, decide_eq_true_eq, List.all_eq_true]
    exact ⟨⟨AnsiString.formatNat_ne_nil _, hlen⟩, AnsiString.formatNat_isDigit _⟩
  · rw [atoi64, AnsiString.digitsValue_formatNat]
    omega

theorem rdropWhile_cr {s : AnsiString} (h : ∀ c ∈ s, c ≠ 13) : (s ++ [13]).rdropWhile (· == 13) = s := by
  rw [List.rdropWhile_concat_pos _ _ _ (by decide), List.rdropWhile_eq_self_iff]
  intro hs
  simpa using h _ (List.getLast_mem hs)

/-- The lines of the records, each with its carriage return, and the empty line
    behind the last. -/
theorem splitOn_records {rs : List Record} (h : ∀ r ∈ rs, r.Valid) :
    (rs.flatMap recordLine).splitOn 10 = rs.map (fun r => recordText r ++ [13]) ++ [[]] := by
  induction rs with
  | nil => rfl
  | cons r rs ih =>
    have hr := h r List.mem_cons_self
    have hno : (10 : UInt8) ∉ recordText r ++ [13] := by
      rw [List.mem_append, not_or]
      exact ⟨fun hc => (hr.text_chars 10 hc).1 rfl, by decide⟩
    have hline : recordLine r ++ rs.flatMap recordLine = recordText r ++ [13] ++ 10 :: rs.flatMap recordLine := by
      simp [recordLine, recordText]
    rw [List.flatMap_cons, hline, List.splitOn_append_cons_self_of_not_mem hno, ih fun r hr => h r (List.mem_cons_of_mem _ hr)]
    rfl

/-- The records that have not expired. -/
def live (now : Nat) (rs : List Record) : List Record := rs.filter fun r => now < r.expires

theorem loadLines_records (now : Nat) {rs : List Record} (h : ∀ r ∈ rs, r.Valid) :
    ∀ n, n + rs.length ≤ maxLiveRecords →
      loadLines now n (rs.map recordText ++ [[]]) = some (live now rs, rs.any fun r => r.expires ≤ now) := by
  induction rs with
  | nil => intro n _; rfl
  | cons r rs ih =>
    intro n hn
    have hr := h r List.mem_cons_self
    rw [List.length_cons] at hn
    have hrest := ih (fun r hr => h r (List.mem_cons_of_mem _ hr)) (n + 1) (by omega)
    have hhead := recordText_head r
    rw [List.map_cons, List.cons_append, loadLines, if_neg (by simp [hhead]), if_neg (by omega), cut_recordText]
    dsimp only
    rw [if_neg (AnsiString.formatNat_ne_nil _), hr.expiry.1, hr.key_wellFormed, hrest, hr.expiry.2]
    by_cases hexp : r.expires ≤ now
    · simp [live, hexp]
    · simp [live, hexp, not_le.1 hexp]

theorem loadContent_storeContent (now : Nat) {rs : List Record} (h : ∀ r ∈ rs, r.Valid)
    (hlen : rs.length ≤ maxLiveRecords) :
    loadContent now (storeContent rs) = some (live now rs, rs.any fun r => r.expires ≤ now) := by
  have hhead : ∀ c ∈ storeHeaderLine, c ≠ 10 ∧ c ≠ 13 := List.all_iff_forall_prop.1 (by decide)
  have hno : (10 : UInt8) ∉ storeHeaderLine ++ [13] := by
    rw [List.mem_append, not_or]
    exact ⟨fun hc => (hhead 10 hc).1 rfl, by decide⟩
  have hcontent : storeContent rs = storeHeaderLine ++ [13] ++ 10 :: rs.flatMap recordLine := by
    simp [storeContent]
  have hmap : (rs.map fun r => recordText r ++ [13]).map (fun line => line.rdropWhile (· == 13)) =
      rs.map recordText := by
    rw [List.map_map]
    apply List.map_congr_left
    intro r hr
    exact rdropWhile_cr fun c hc => ((h r hr).text_chars c hc).2
  have hsplit : splitLines (storeContent rs) (maxLiveRecords + 2) =
      some (storeHeaderLine :: (rs.map recordText ++ [[]])) := by
    rw [splitLines, hcontent, List.splitOn_append_cons_self_of_not_mem hno, splitOn_records h, List.map_cons, List.map_append, hmap,
      rdropWhile_cr fun c hc => (hhead c hc).2]
    rw [if_pos (by simp; omega)]
    rfl
  have hne : storeContent rs ≠ [] := by
    rw [hcontent]
    simp
  rw [loadContent, if_neg hne, hsplit]
  dsimp only
  rw [if_neg (by simp)]
  exact loadLines_records now h 0 (by omega)

theorem length_recordLine {r : Record} (h : r.Valid) : (recordLine r).length ≤ 86 := by
  have hlen : (AnsiString.formatNat r.expires).length ≤ 19 :=
    AnsiString.length_formatNat_le (by decide) (lt_trans h.expires_lt (by decide))
  simp only [recordLine, List.length_append, List.length_cons, List.length_nil, h.key_chars.1]
  omega

theorem length_storeContent {rs : List Record} (h : ∀ r ∈ rs, r.Valid) (hlen : rs.length ≤ maxLiveRecords) :
    (storeContent rs).length ≤ maxStoreBytes := by
  have hlines : ∀ rs : List Record, (∀ r ∈ rs, r.Valid) → (rs.flatMap recordLine).length ≤ 86 * rs.length := by
    intro rs h
    induction rs with
    | nil => exact Nat.le_refl 0
    | cons r rs ih =>
      have hr := length_recordLine (h r List.mem_cons_self)
      have hrest := ih fun r hr => h r (List.mem_cons_of_mem _ hr)
      rw [List.flatMap_cons, List.length_append, List.length_cons]
      omega
  have hrecords := hlines rs h
  have hheader : (storeHeaderLine ++ [13, 10]).length = 58 := by decide
  rw [storeContent, List.length_append, hheader]
  simp only [maxStoreBytes, maxLiveRecords] at *
  omega

/-! ## What one call does -/

/-- The store at `path` holds these records; a missing store holds none. -/
inductive Holds (disk : Disk) (path : WString) : List Record → Prop
  | missing (h : disk path = none) : Holds disk path []
  | written {rs : List Record} (h : disk path = some (storeContent rs)) (hvalid : ∀ r ∈ rs, r.Valid)
      (hlen : rs.length ≤ maxLiveRecords) : Holds disk path rs

theorem Holds.valid {disk : Disk} {path : WString} {rs : List Record} (h : Holds disk path rs) :
    (∀ r ∈ rs, r.Valid) ∧ rs.length ≤ maxLiveRecords := by
  cases h with
  | missing h => exact ⟨fun r hr => absurd hr List.not_mem_nil, Nat.zero_le _⟩
  | written h hvalid hlen => exact ⟨hvalid, hlen⟩

theorem Holds.of_eq {disk disk' : Disk} {path : WString} {rs : List Record} (h : Holds disk path rs)
    (heq : disk' path = disk path) : Holds disk' path rs := by
  cases h with
  | missing h => exact .missing (heq.trans h)
  | written h hvalid hlen => exact .written (heq.trans h) hvalid hlen

theorem live_sublist (now : Nat) (rs : List Record) : (live now rs).Sublist rs := List.filter_sublist

theorem storeContent_cons (rs : List Record) : ∃ rest, storeContent rs = 35 :: rest :=
  ⟨(storeHeaderLine ++ [13, 10] ++ rs.flatMap recordLine).tail, rfl⟩

theorem readCompleteTextFile_written (env : VacationEnvironment) {io : FileOutcomes} {disk : Disk} {path : WString}
    {rs : List Record} (h : disk path = some (storeContent rs)) :
    readCompleteTextFile env io disk path = none ∨ readCompleteTextFile env io disk path = some [] ∨
      readCompleteTextFile env io disk path = some (storeContent rs) := by
  obtain ⟨rest, hrest⟩ := storeContent_cons rs
  unfold readCompleteTextFile
  rw [h]
  dsimp only
  split
  · exact .inr (.inl rfl)
  split
  · exact .inl rfl
  · right; right
    rw [hrest]
    simp [List.isPrefixOf]

/-- `Load_` answers the records in force, or refuses. -/
theorem load_spec (env : VacationEnvironment) {io : FileOutcomes} {disk : Disk} {path : WString} {now : Nat}
    {rs records : List Record} {prunedAny : Bool} (h : Holds disk path rs)
    (hseen : io.existsFails = true → disk path = none) (hload : load env io disk path now = some (records, prunedAny)) :
    records = live now rs := by
  cases h with
  | missing h =>
    rw [load, fileExists, h] at hload
    cases hload
    rfl
  | written h hvalid hlen =>
    have hexists : fileExists io disk path = true := by
      rw [fileExists, h]
      cases he : io.existsFails with
      | false => rfl
      | true =>
        rw [hseen he] at h
        cases h
    rw [load, hexists] at hload
    simp only [Bool.not_true, Bool.false_eq_true, if_false] at hload
    split at hload
    · cases hload
    obtain hread | hread | hread := @readCompleteTextFile_written env io disk path rs h
    · rw [hread] at hload
      cases hload
    · rw [hread] at hload
      cases hload
    · rw [hread] at hload
      dsimp only at hload
      rw [loadContent_storeContent now hvalid hlen] at hload
      cases hload
      rfl

@[simp] theorem setFile_same (disk : Disk) (path : WString) (content : Option AnsiString) :
    setFile disk path content path = content := if_pos rfl

theorem setFile_other {disk : Disk} {path p : WString} {content : Option AnsiString} (h : p ≠ path) :
    setFile disk path content p = disk p := if_neg h

theorem deleteFile_other {io : FileOutcomes} {disk : Disk} {path p : WString} (h : p ≠ path) :
    deleteFile io disk path p = disk p := by
  unfold deleteFile
  split
  · rfl
  · exact setFile_other h

theorem temporaryPath_ne (path : WString) : path ≠ temporaryPath path := by
  intro h
  have hlen := congrArg List.length h
  rw [temporaryPath, List.length_append] at hlen
  have htmp : (wide ".tmp").length = 4 := by decide
  omega

/-- `Save_`, where closing the temporary file loses nothing: the store is
    replaced as a whole or left alone, and no file but it and the temporary one
    changes. -/
theorem save_spec {io : FileOutcomes} {disk : Disk} {path : WString} {records : List Record}
    (hkept : io.closeStops = none) :
    (∀ p, p ≠ path → p ≠ temporaryPath path → (save io disk path records).1 p = disk p) ∧
    ((save io disk path records).2 = .saved ∧ records.length ≤ maxLiveRecords ∧
        (save io disk path records).1 path = some (storeContent records) ∨
      (save io disk path records).2 ≠ .saved ∧ (save io disk path records).1 path = disk path) := by
  have hne := temporaryPath_ne path
  unfold save writeToFile move
  rw [hkept]
  split
  · exact ⟨fun p _ _ => rfl, .inr ⟨nofun, rfl⟩⟩
  rename_i hlen
  split
  · exact ⟨fun p _ _ => rfl, .inr ⟨nofun, rfl⟩⟩
  -- Which of the file operations fails first.
  by_cases hopen : io.openTemporaryFails = true
  · simp only [hopen, if_true]
    exact ⟨fun p _ hp => deleteFile_other hp, .inr ⟨nofun, deleteFile_other hne⟩⟩
  simp only [hopen, Bool.false_eq_true, if_false]
  cases hstops : io.writeStops with
  | some count =>
    refine ⟨fun p _ hp => ?_, .inr ⟨nofun, ?_⟩⟩
    · exact (deleteFile_other hp).trans (setFile_other hp)
    · exact (deleteFile_other hne).trans (setFile_other hne)
  | none =>
    dsimp only
    split
    · exact ⟨fun p _ hp => setFile_other hp, .inr ⟨nofun, setFile_other hne⟩⟩
    by_cases hmove : io.moveFails = true
    · simp only [hmove, if_true]
      refine ⟨fun p _ hp => ?_, .inr ⟨nofun, ?_⟩⟩
      · exact (deleteFile_other hp).trans (setFile_other hp)
      · exact (deleteFile_other hne).trans (setFile_other hne)
    · simp only [hmove, Bool.false_eq_true, if_false]
      refine ⟨fun p hp htmp => ?_, .inl ⟨by trivial, by omega, ?_⟩⟩
      · rw [setFile_other htmp, setFile_other hp, setFile_other htmp]
      · rw [setFile_other hne, setFile_same, setFile_same]

theorem writeBack_spec {io : FileOutcomes} {disk : Disk} {path : WString} {rs records : List Record}
    {prunedAny : Bool} (hkept : io.closeStops = none) (h : Holds disk path rs) (hvalid : ∀ r ∈ records, r.Valid) :
    (∀ p, p ≠ path → p ≠ temporaryPath path → (writeBack io disk path records prunedAny).1 p = disk p) ∧
    (writeBack io disk path records prunedAny).2 ≠ some true ∧
    (Holds (writeBack io disk path records prunedAny).1 path rs ∨
      Holds (writeBack io disk path records prunedAny).1 path records) := by
  unfold writeBack
  split
  · obtain ⟨hframe, hsaved⟩ := @save_spec io disk path records hkept
    have hstore : Holds (save io disk path records).1 path rs ∨ Holds (save io disk path records).1 path records := by
      obtain ⟨_, hlen, hcontent⟩ | ⟨_, hsame⟩ := hsaved
      · exact .inr (.written hcontent hvalid hlen)
      · exact .inl (h.of_eq hsame)
    cases hres : save io disk path records with
    | mk disk' result =>
      rw [hres] at hframe hstore
      cases result with
      | saved => exact ⟨hframe, nofun, hstore⟩
      | failed => exact ⟨hframe, nofun, hstore⟩
      | stopped => exact ⟨hframe, nofun, hstore⟩
  · exact ⟨fun p _ _ => rfl, nofun, .inl h⟩

theorem recordResponse_spec {io : FileOutcomes} {disk : Disk} {path : WString} {rs records : List Record}
    (hkept : io.closeStops = none) (h : Holds disk path rs) (hvalid : ∀ r ∈ records, r.Valid) :
    (∀ p, p ≠ path → p ≠ temporaryPath path → (recordResponse io disk path records).1 p = disk p) ∧
    ((recordResponse io disk path records).2 ≠ some true ∧ Holds (recordResponse io disk path records).1 path rs ∨
      (recordResponse io disk path records).2 = some true ∧
        Holds (recordResponse io disk path records).1 path records) := by
  obtain ⟨hframe, hsaved⟩ := @save_spec io disk path records hkept
  unfold recordResponse
  cases hres : save io disk path records with
  | mk disk' result =>
    rw [hres] at hframe hsaved
    obtain ⟨rfl, hlen, hcontent⟩ | ⟨hnot, hsame⟩ := hsaved
    · exact ⟨hframe, .inr ⟨rfl, .written hcontent hvalid hlen⟩⟩
    · cases result with
      | saved => exact absurd rfl hnot
      | failed => exact ⟨hframe, .inl ⟨nofun, h.of_eq hsame⟩⟩
      | stopped => exact ⟨hframe, .inl ⟨nofun, h.of_eq hsame⟩⟩

variable {env : VacationEnvironment} {disk : Disk} {c : Claim}

def Claim.path (env : VacationEnvironment) (c : Claim) : WString := env.getVacationStorePath c.accountAddress

def Claim.key (env : VacationEnvironment) (c : Claim) : AnsiString := keyFor env c.sender c.handle

/-- The record a granted call leaves. -/
def Claim.record (env : VacationEnvironment) (c : Claim) : Record := ⟨c.now + c.window, c.key env⟩

/-- The digest is sixty-four lower-case hexadecimal digits. -/
def DigestWellFormed (env : VacationEnvironment) : Prop := ∀ text, isWellFormedKey (env.hexDigest text) = true

/-- The two failures that the code cannot tell from success do not happen: the
    test for a store that is there does not fail, and closing the temporary file
    flushes all of it. -/
structure SoundStep (env : VacationEnvironment) (disk : Disk) (c : Claim) : Prop where
  seen : c.io.existsFails = true → disk (c.path env) = none
  kept : c.io.closeStops = none

theorem Claim.window_le (c : Claim) : c.window ≤ maxWindowSeconds := by
  unfold Claim.window
  split <;> omega

theorem Claim.record_valid (hdigest : DigestWellFormed env) (c : Claim) : (c.record env).Valid where
  expires_lt := by
    have hnow := c.now_lt
    have hwindow := c.window_le
    change c.now + c.window < 2 ^ 63
    omega
  key_wellFormed := hdigest _

/-- One call: it answers yes only for a key that is not in force, and then
    records it behind those that are; else the store keeps its records, or those
    in force. -/
theorem claimResponse_spec (hdigest : DigestWellFormed env) {rs : List Record} (hpos : 0 < c.intervalSeconds)
    (h : Holds disk (c.path env) rs) (hsound : SoundStep env disk c) :
    (∀ p, p ≠ c.path env → p ≠ temporaryPath (c.path env) → (claimResponse env disk c).1 p = disk p) ∧
    ((claimResponse env disk c).2 ≠ some true ∧
        (Holds (claimResponse env disk c).1 (c.path env) rs ∨
          Holds (claimResponse env disk c).1 (c.path env) (live c.now rs)) ∨
      (claimResponse env disk c).2 = some true ∧ (∀ r ∈ live c.now rs, r.key ≠ c.key env) ∧
        Holds (claimResponse env disk c).1 (c.path env) (live c.now rs ++ [c.record env])) := by
  have hlive : ∀ r ∈ live c.now rs, r.Valid := fun r hr => h.valid.1 r ((live_sublist _ _).subset hr)
  unfold claimResponse
  rw [if_neg (by omega)]
  dsimp only
  change (∀ p, p ≠ c.path env → p ≠ temporaryPath (c.path env) → _) ∧ _
  split
  · exact ⟨fun p _ _ => rfl, .inl ⟨nofun, .inl h⟩⟩
  rename_i records prunedAny hload
  have hrecords := load_spec env h hsound.seen hload
  subst hrecords
  split
  · obtain ⟨hframe, hanswer, hstore⟩ := @writeBack_spec c.io disk _ rs _ prunedAny hsound.kept h hlive
    exact ⟨hframe, .inl ⟨hanswer, hstore⟩⟩
  rename_i hnew
  split
  · obtain ⟨hframe, hanswer, hstore⟩ := @writeBack_spec c.io disk _ rs _ prunedAny hsound.kept h hlive
    exact ⟨hframe, .inl ⟨hanswer, hstore⟩⟩
  have hnot : ∀ r ∈ live c.now rs, r.key ≠ c.key env := by
    intro r hr heq
    exact hnew (List.any_eq_true.2 ⟨r, hr, beq_iff_eq.2 heq⟩)
  have hvalid : ∀ r ∈ live c.now rs ++ [c.record env], r.Valid := by
    intro r hr
    obtain hr | hr := List.mem_append.1 hr
    · exact hlive r hr
    · rw [List.mem_singleton.1 hr]
      exact c.record_valid hdigest
  obtain ⟨hframe, hstore⟩ := @recordResponse_spec c.io disk (c.path env) rs _ hsound.kept h hvalid
  obtain ⟨hanswer, hstore⟩ | ⟨hanswer, hstore⟩ := hstore
  · exact ⟨hframe, .inl ⟨hanswer, .inl hstore⟩⟩
  · exact ⟨hframe, .inr ⟨hanswer, hnot, hstore⟩⟩

/-! ## Runs -/

/-- Every call of the run meets the condition in the state it finds. -/
def SoundRun (env : VacationEnvironment) : Disk → List Claim → Prop
  | _, [] => True
  | disk, c :: calls => SoundStep env disk c ∧ SoundRun env (claimResponse env disk c).1 calls

/-- Every account has a store that can be read, or none. -/
def StoresHold (env : VacationEnvironment) (disk : Disk) : Prop :=
  ∀ account, ∃ rs, Holds disk (env.getVacationStorePath account) rs

/-- The store at `path` suppresses the key until the deadline. -/
def Suppressed (disk : Disk) (path : WString) (key : AnsiString) (deadline : Nat) : Prop :=
  ∃ rs, Holds disk path rs ∧ ∃ r ∈ rs, r.key = key ∧ deadline ≤ r.expires

/-- No store path is the temporary path of a store: the names end differently. -/
theorem storePath_ne_temporaryPath (env : VacationEnvironment) (account : WString) (path : WString) :
    env.getVacationStorePath account ≠ temporaryPath path := by
  intro h
  have hlast := congrArg List.getLast? h
  have htmp : (temporaryPath path).getLast? = some 112 := by
    rw [temporaryPath, List.getLast?_append]
    rfl
  have hname : (env.getVacationStorePath account).getLast? = some 115 := by
    rw [VacationEnvironment.getVacationStorePath, combine, List.getLast?_append]
    rfl
  rw [htmp, hname] at hlast
  cases hlast

theorem step_storesHold (hdigest : DigestWellFormed env) (hpos : 0 < c.intervalSeconds) (h : StoresHold env disk)
    (hsound : SoundStep env disk c) : StoresHold env (claimResponse env disk c).1 := by
  intro account
  obtain ⟨rs, hrs⟩ := h c.accountAddress
  obtain ⟨hframe, hstep⟩ := claimResponse_spec hdigest hpos hrs hsound
  by_cases hpath : env.getVacationStorePath account = c.path env
  · rw [hpath]
    obtain ⟨_, hstore | hstore⟩ | ⟨_, _, hstore⟩ := hstep
    · exact ⟨_, hstore⟩
    · exact ⟨_, hstore⟩
    · exact ⟨_, hstore⟩
  · obtain ⟨rs', hrs'⟩ := h account
    exact ⟨rs', hrs'.of_eq (hframe _ hpath (storePath_ne_temporaryPath env account _))⟩

theorem mem_live {now : Nat} {rs : List Record} {r : Record} (hr : r ∈ rs) (h : now < r.expires) : r ∈ live now rs :=
  List.mem_filter.2 ⟨hr, by simpa using h⟩

/-- A call made before the end of a window, of whatever sender, keeps it. -/
theorem step_suppressed (hdigest : DigestWellFormed env) (hpos : 0 < c.intervalSeconds) (h : StoresHold env disk)
    (hsound : SoundStep env disk c) {account : WString} {key : AnsiString} {deadline : Nat} (hnow : c.now < deadline)
    (hkey : Suppressed disk (env.getVacationStorePath account) key deadline) :
    Suppressed (claimResponse env disk c).1 (env.getVacationStorePath account) key deadline := by
  obtain ⟨rs, hrs, r, hr, hrkey, hexp⟩ := hkey
  by_cases hpath : env.getVacationStorePath account = c.path env
  · rw [hpath] at hrs ⊢
    have hr' : r ∈ live c.now rs := mem_live hr (lt_of_lt_of_le hnow hexp)
    obtain ⟨_, hstep⟩ := claimResponse_spec hdigest hpos hrs hsound
    obtain ⟨_, hstore | hstore⟩ | ⟨_, _, hstore⟩ := hstep
    · exact ⟨_, hstore, r, hr, hrkey, hexp⟩
    · exact ⟨_, hstore, r, hr', hrkey, hexp⟩
    · exact ⟨_, hstore, r, List.mem_append_left _ hr', hrkey, hexp⟩
  · obtain ⟨rs', hrs'⟩ := h c.accountAddress
    obtain ⟨hframe, _⟩ := claimResponse_spec hdigest hpos hrs' hsound
    exact ⟨rs, hrs.of_eq (hframe _ hpath (storePath_ne_temporaryPath env account _)), r, hr, hrkey, hexp⟩

theorem run_storesHold (hdigest : DigestWellFormed env) {calls : List Claim} (hpos : ∀ c ∈ calls, 0 < c.intervalSeconds)
    (h : StoresHold env disk) (hsound : SoundRun env disk calls) : StoresHold env (run env disk calls) := by
  induction calls generalizing disk with
  | nil => exact h
  | cons c calls ih =>
    exact ih (fun c hc => hpos c (List.mem_cons_of_mem _ hc))
      (step_storesHold hdigest (hpos c List.mem_cons_self) h hsound.1) hsound.2

theorem run_suppressed (hdigest : DigestWellFormed env) {calls : List Claim} (hpos : ∀ c ∈ calls, 0 < c.intervalSeconds)
    (h : StoresHold env disk) (hsound : SoundRun env disk calls) {account : WString} {key : AnsiString} {deadline : Nat}
    (hnow : ∀ c ∈ calls, c.now < deadline) (hkey : Suppressed disk (env.getVacationStorePath account) key deadline) :
    Suppressed (run env disk calls) (env.getVacationStorePath account) key deadline := by
  induction calls generalizing disk with
  | nil => exact hkey
  | cons c calls ih =>
    have hc := hpos c List.mem_cons_self
    exact ih (fun c hc => hpos c (List.mem_cons_of_mem _ hc)) (step_storesHold hdigest hc h hsound.1) hsound.2
      (fun c hc => hnow c (List.mem_cons_of_mem _ hc))
      (step_suppressed hdigest hc h hsound.1 (hnow c List.mem_cons_self) hkey)

theorem granted_suppresses (hdigest : DigestWellFormed env) (hpos : 0 < c.intervalSeconds) (h : StoresHold env disk)
    (hsound : SoundStep env disk c) (hyes : (claimResponse env disk c).2 = some true) :
    Suppressed (claimResponse env disk c).1 (c.path env) (c.key env) (c.now + c.window) := by
  obtain ⟨rs, hrs⟩ := h c.accountAddress
  obtain ⟨_, ⟨hno, _⟩ | ⟨_, _, hstore⟩⟩ := claimResponse_spec hdigest hpos hrs hsound
  · exact absurd hyes hno
  · exact ⟨_, hstore, c.record env, List.mem_append_right _ List.mem_cons_self, rfl, Nat.le_refl _⟩

theorem suppressed_refuses (hdigest : DigestWellFormed env) (hpos : 0 < c.intervalSeconds)
    (hsound : SoundStep env disk c) {deadline : Nat} (hnow : c.now < deadline)
    (hkey : Suppressed disk (c.path env) (c.key env) deadline) : (claimResponse env disk c).2 ≠ some true := by
  obtain ⟨rs, hrs, r, hr, hrkey, hexp⟩ := hkey
  obtain ⟨_, ⟨hno, _⟩ | ⟨_, hnew, _⟩⟩ := claimResponse_spec hdigest hpos hrs hsound
  · exact hno
  · exact absurd hrkey (hnew r (mem_live hr (lt_of_lt_of_le hnow hexp)))

theorem run_append (env : VacationEnvironment) (disk : Disk) (pre post : List Claim) :
    run env disk (pre ++ post) = run env (run env disk pre) post := by
  induction pre generalizing disk with
  | nil => rfl
  | cons c pre ih => exact ih _

theorem soundRun_append {pre post : List Claim} (h : SoundRun env disk (pre ++ post)) :
    SoundRun env disk pre ∧ SoundRun env (run env disk pre) post := by
  induction pre generalizing disk with
  | nil => exact ⟨trivial, h⟩
  | cons c pre ih =>
    obtain ⟨hpre, hpost⟩ := ih h.2
    exact ⟨⟨h.1, hpre⟩, hpost⟩

/-- The same account, sender up to letter case, and handle. -/
def Claim.SameResponse (env : VacationEnvironment) (c c' : Claim) : Prop :=
  c'.accountAddress = c.accountAddress ∧ WString.makeLower env.loc c'.sender = WString.makeLower env.loc c.sender ∧
    c'.handle = c.handle

theorem Claim.SameResponse.path_key {c' : Claim} (h : c.SameResponse env c') :
    c'.path env = c.path env ∧ c'.key env = c.key env := by
  obtain ⟨haccount, hsender, hhandle⟩ := h
  refine ⟨?_, ?_⟩
  · rw [Claim.path, Claim.path, haccount]
  · rw [Claim.key, Claim.key, keyFor, keyFor, hsender, hhandle]

/-- A second yes for the same response comes after the window. -/
def RateLimited (env : VacationEnvironment) (disk : Disk) (calls : List Claim) : Prop :=
  ∀ pre c mid c' post, calls = pre ++ c :: (mid ++ c' :: post) → c.SameResponse env c' →
    (claimResponse env (run env disk pre) c).2 = some true →
    (claimResponse env (run env disk (pre ++ c :: mid)) c').2 = some true →
    (c.now : Int) + min c.intervalSeconds maxWindowSeconds ≤ c'.now

/-- Where no call to the file system fails, `Load_` accepts the store of every
    account at any time, with at most the allowed number of records. -/
def StoresReadable (env : VacationEnvironment) (disk : Disk) : Prop :=
  ∀ account, disk (env.getVacationStorePath account) = none ∨
    ∀ now, ∃ records prunedAny,
      load env {} disk (env.getVacationStorePath account) now = some (records, prunedAny) ∧
        records.length ≤ maxLiveRecords

theorem StoresHold.readable (h : StoresHold env disk) : StoresReadable env disk := by
  intro account
  obtain ⟨rs, hrs⟩ := h account
  cases hrs with
  | missing h => exact .inl h
  | written h hvalid hlen =>
    refine .inr fun now => ⟨live now rs, rs.any fun r => r.expires ≤ now, ?_, (live_sublist now rs).length_le.trans hlen⟩
    obtain ⟨rest, hrest⟩ := storeContent_cons rs
    have hread : readCompleteTextFile env {} disk (env.getVacationStorePath account) = some (storeContent rs) := by
      rw [readCompleteTextFile, h, hrest]
      simp [List.isPrefixOf]
    have hsize := length_storeContent hvalid hlen
    rw [load, fileExists, h, fileSize, h, hread]
    simp only [Option.isSome_some, Bool.not_false, Bool.and_self, Bool.not_true, Bool.false_eq_true, if_false,
      Option.getD_some]
    rw [if_neg (by omega)]
    exact loadContent_storeContent now hvalid hlen

theorem window_eq (hpos : 0 < c.intervalSeconds) : (c.window : Int) = min c.intervalSeconds maxWindowSeconds := by
  unfold Claim.window
  split <;> omega

/-- In every run whose calls meet the condition the replies are rate-limited, and
    in every state reached the stores can be read. -/
theorem replies_rate_limited (hdigest : DigestWellFormed env) (hempty : ∀ account,
    disk (env.getVacationStorePath account) = none) (calls : List Claim) (hpos : ∀ c ∈ calls, 0 < c.intervalSeconds)
    (hclock : calls.Pairwise fun c c' => c.now ≤ c'.now) (hsound : SoundRun env disk calls) :
    RateLimited env disk calls ∧ ∀ pre post, calls = pre ++ post → StoresReadable env (run env disk pre) := by
  have hstart : StoresHold env disk := fun account => ⟨[], .missing (hempty account)⟩
  have hreached : ∀ pre post, calls = pre ++ post → StoresHold env (run env disk pre) := by
    rintro pre post rfl
    exact run_storesHold hdigest (fun c hc => hpos c (List.mem_append_left _ hc)) hstart (soundRun_append hsound).1
  refine ⟨?_, fun pre post h => (hreached pre post h).readable⟩
  rintro pre c mid c' post rfl hsame hyes hyes'
  obtain ⟨_, hstep, hrest⟩ := soundRun_append hsound
  obtain ⟨hmid, hstep', _⟩ := soundRun_append hrest
  have hc : 0 < c.intervalSeconds := hpos c (by simp)
  have hc' : 0 < c'.intervalSeconds := hpos c' (by simp)
  have hpre := hreached pre _ rfl
  have hafter := step_storesHold hdigest hc hpre hstep
  rw [← window_eq hc]
  by_contra hlate
  have hlate : c'.now < c.now + c.window := by omega
  -- Every call in between is before the end of the window too.
  have hbetween : ∀ m ∈ mid, m.now < c.now + c.window := by
    intro m hm
    have hle : m.now ≤ c'.now := by
      have hpair := (List.pairwise_append.1 hclock).2.1
      have hpair := (List.pairwise_append.1 (List.pairwise_cons.1 hpair).2).2.2
      exact hpair m hm c' List.mem_cons_self
    omega
  have hkept := run_suppressed hdigest (fun m hm => hpos m (by simp [hm])) hafter hmid hbetween
    (granted_suppresses hdigest hc hpre hstep hyes)
  rw [run_append] at hyes'
  obtain ⟨hpath, hkey⟩ := hsame.path_key
  change Suppressed _ (c.path env) _ _ at hkept
  rw [← hpath, ← hkey] at hkept
  exact suppressed_refuses hdigest hc' hstep' hlate hkept hyes'

/-- A server whose digest is the one of the sender `a` and the handle `h`. -/
def sampleEnvironment : VacationEnvironment where
  loc := classicLocale
  pathSeparator := 47
  getAccountDirectory account := wide "Data/Sieve/" ++ account
  hexDigest _ := ansi "adf91237e9adbbedd2e828fb463a19033862a715d8dc17022cad0b180a0eefbb"
  utf8Text s := s
  utf16Text s := s

/-- The sender `a` writes at the time `now`; the window is a week. -/
def sampleClaim (now : Nat) (io : FileOutcomes) (h : now + maxWindowSeconds < 2 ^ 63) : Claim :=
  ⟨wide "u@x", wide "a", wide "h", 604800, now, io, h⟩

theorem sampleEnvironment_digest : DigestWellFormed sampleEnvironment := by
  intro text
  have hkey : isWellFormedKey (sampleEnvironment.hexDigest []) = true := by decide
  exact hkey

theorem replies_rate_limited_crash :
    RateLimited sampleEnvironment (fun _ => none)
      [sampleClaim 100 { processStops := true } (by decide), sampleClaim 200 {} (by decide),
        sampleClaim 300 { moveFails := true } (by decide)] := by
  refine (replies_rate_limited sampleEnvironment_digest (fun _ => rfl) _ ?_ ?_ ?_).1
  · decide
  · decide
  · exact ⟨⟨nofun, rfl⟩, ⟨nofun, rfl⟩, ⟨nofun, rfl⟩, trivial⟩

/-- A failing test for the store reads as no store, and the sender is answered
    twice within two minutes; a temporary file that is not flushed replaces the
    store by an empty one. -/
theorem unseen_failures_break_the_limit :
    ¬ RateLimited sampleEnvironment (fun _ => none)
      [sampleClaim 100 {} (by decide), sampleClaim 200 { existsFails := true } (by decide)] ∧
    ¬ StoresReadable sampleEnvironment
      (run sampleEnvironment (fun _ => none) [sampleClaim 100 { closeStops := some 0 } (by decide)]) := by
  constructor
  · intro h
    have hlate := h [] _ [] _ [] rfl ⟨rfl, rfl, rfl⟩ (by decide +kernel) (by decide +kernel)
    exact absurd hlate (by decide)
  · intro h
    obtain hnone | hread := h (wide "u@x")
    · have hsome : run sampleEnvironment (fun _ => none) [sampleClaim 100 { closeStops := some 0 } (by decide)]
          (sampleEnvironment.getVacationStorePath (wide "u@x")) = some [] := by decide +kernel
      rw [hsome] at hnone
      cases hnone
    · obtain ⟨records, prunedAny, hload, _⟩ := hread 100
      have hrefused : load sampleEnvironment {} (run sampleEnvironment (fun _ => none)
          [sampleClaim 100 { closeStops := some 0 } (by decide)])
          (sampleEnvironment.getVacationStorePath (wide "u@x")) 100 = none := by decide +kernel
      rw [hrefused] at hload
      cases hload

end HMailServer.VacationTracker
