import HMailServer.Imap.Store

/- A STORE that is refused: when it leaves the message and its row alone. -/
namespace HMailServer.IMAPStore

open WString

/-! ## What the edits change -/

theorem getLsbD_setFlag_of_ge (flags : BitVec 16) (flag : SystemFlag) (set : Bool) {i : Nat} (h : 5 ≤ i) :
    (setFlag flags flag set).getLsbD i = flags.getLsbD i := by
  have hne : flag.position ≠ i := by
    cases flag <;> simp [SystemFlag.position] <;> omega
  rw [getLsbD_setFlag, if_neg hne]

/-- The five flags and the bits above them. -/
theorem flags_ext {a b : BitVec 16} (h : ∀ flag, getFlag a flag = getFlag b flag)
    (hhigh : ∀ i, 5 ≤ i → a.getLsbD i = b.getLsbD i) : a = b := by
  apply BitVec.eq_of_getLsbD_eq
  intro i _
  by_cases hi : 5 ≤ i
  · exact hhigh i hi
  · obtain ⟨flag, hflag⟩ : ∃ flag : SystemFlag, flag.position = i := by
      have hcases : i = 0 ∨ i = 1 ∨ i = 2 ∨ i = 3 ∨ i = 4 := by omega
      rcases hcases with h | h | h | h | h
      · exact ⟨.seen, h.symm⟩
      · exact ⟨.deleted, h.symm⟩
      · exact ⟨.flagged, h.symm⟩
      · exact ⟨.answered, h.symm⟩
      · exact ⟨.draft, h.symm⟩
    rw [← hflag, ← getFlag_eq, ← getFlag_eq, h flag]

variable {lists : SystemFlag → Bool} {flags : BitVec 16}

/-- One edit of the loop. -/
theorem getFlag_edit (listed set : Bool) (flag other : SystemFlag) :
    getFlag (if listed then setFlag flags flag set else flags) other =
      if flag = other ∧ listed = true then set else getFlag flags other := by
  cases listed with
  | true => simp [getFlag_setFlag]
  | false => simp

theorem getLsbD_edit (listed set : Bool) (flag : SystemFlag) {i : Nat} (h : 5 ≤ i) :
    (if listed then setFlag flags flag set else flags).getLsbD i = flags.getLsbD i := by
  cases listed with
  | true => exact getLsbD_setFlag_of_ge flags flag set h
  | false => rfl

theorem getFlag_editFlags (set : Bool) (flag : SystemFlag) :
    getFlag (editFlags lists set flags) flag = if lists flag then set else getFlag flags flag := by
  simp only [editFlags, editOrder, List.foldl_cons, List.foldl_nil, getFlag_edit]
  cases flag <;> simp

theorem getFlag_replaceFlags (flag : SystemFlag) : getFlag (replaceFlags lists flags) flag = lists flag := by
  cases flag <;> simp [replaceFlags, editOrder, getFlag_setFlag]

theorem getLsbD_editFlags (set : Bool) {i : Nat} (h : 5 ≤ i) :
    (editFlags lists set flags).getLsbD i = flags.getLsbD i := by
  simp only [editFlags, editOrder, List.foldl_cons, List.foldl_nil, getLsbD_edit _ _ _ h]

theorem getLsbD_replaceFlags {i : Nat} (h : 5 ≤ i) : (replaceFlags lists flags).getLsbD i = flags.getLsbD i := by
  simp [replaceFlags, editOrder, getLsbD_setFlag_of_ge _ _ _ h]

theorem editFlags_eq_iff (set : Bool) :
    editFlags lists set flags = flags ↔ ∀ flag, lists flag = true → getFlag flags flag = set := by
  constructor
  · intro h flag hlists
    have hget : getFlag (editFlags lists set flags) flag = set := by
      rw [getFlag_editFlags, if_pos hlists]
    rwa [h] at hget
  · intro h
    apply flags_ext
    · intro flag
      rw [getFlag_editFlags]
      split
      · rename_i hlists
        exact (h flag hlists).symm
      · rfl
    · exact fun i hi => getLsbD_editFlags set hi

theorem replaceFlags_eq_iff : replaceFlags lists flags = flags ↔ ∀ flag, getFlag flags flag = lists flag := by
  constructor
  · intro h flag
    have hget : getFlag (replaceFlags lists flags) flag = lists flag := getFlag_replaceFlags flag
    rwa [h] at hget
  · intro h
    apply flags_ext
    · intro flag
      rw [getFlag_replaceFlags, h flag]
    · exact fun i hi => getLsbD_replaceFlags hi

/-- A keyword that the message does not have. -/
def missing (keywords : Keywords) (keyword : WString) : Bool := decide (keyword ≠ []) && !hasKeyword keywords keyword

theorem addKeyword_of_not_missing {keywords : Keywords} {keyword : WString} (h : missing keywords keyword = false) :
    addKeyword keywords keyword = (true, keywords) := by
  rw [addKeyword, if_pos]
  rw [missing, Bool.and_eq_false_iff, decide_eq_false_iff_not, not_not, Bool.not_eq_false'] at h
  exact h

theorem addKeyword_of_missing {keywords : Keywords} {keyword : WString} (h : missing keywords keyword = true) :
    addKeyword keywords keyword =
      if hfits : (put keywords.text keyword).length ≤ keywordsMaximumLength then (true, ⟨put keywords.text keyword, hfits⟩)
      else (false, keywords) := by
  rw [addKeyword, if_neg]
  rw [missing, Bool.and_eq_true, decide_eq_true_eq, Bool.not_eq_true'] at h
  rw [h.2]
  exact fun hor => hor.elim h.1 Bool.false_ne_true

theorem length_le_addKeywords (keywords : Keywords) (given : List WString) :
    keywords.text.length ≤ (addKeywords keywords given).2.text.length := by
  have hone : ∀ (keywords : Keywords) (keyword : WString),
      keywords.text.length ≤ (addKeyword keywords keyword).2.text.length := by
    intro keywords keyword
    cases hmissing : missing keywords keyword with
    | false => rw [addKeyword_of_not_missing hmissing]
    | true =>
      rw [addKeyword_of_missing hmissing]
      split
      · exact length_le_foldl_put keywords.text [keyword]
      · exact Nat.le_refl _
  induction given generalizing keywords with
  | nil => exact Nat.le_refl _
  | cons keyword rest ih =>
    rw [addKeywords]
    split
    · exact Nat.le_trans (hone keywords keyword) (ih _)
    · exact hone keywords keyword

/-- Adding stops at once, or takes the first keyword that is missing. -/
theorem addKeywords_find (keywords : Keywords) (given : List WString) :
    match given.find? (missing keywords) with
    | none => addKeywords keywords given = (true, keywords)
    | some keyword =>
      if keywordsMaximumLength < (put keywords.text keyword).length then addKeywords keywords given = (false, keywords)
      else (addKeywords keywords given).2.text ≠ keywords.text := by
  induction given with
  | nil => rfl
  | cons keyword rest ih =>
    rw [List.find?_cons, addKeywords]
    cases hmissing : missing keywords keyword with
    | false =>
      rw [addKeyword_of_not_missing hmissing, if_pos rfl]
      exact ih
    | true =>
      dsimp only
      have hne : keyword ≠ [] := by
        rw [missing, Bool.and_eq_true, decide_eq_true_eq] at hmissing
        exact hmissing.1
      rw [addKeyword_of_missing hmissing]
      by_cases hfits : (put keywords.text keyword).length ≤ keywordsMaximumLength
      · rw [if_neg (Nat.not_lt_of_le hfits), dif_pos hfits, if_pos rfl]
        intro hsame
        have hgrown := length_le_addKeywords ⟨put keywords.text keyword, hfits⟩ rest
        have hput := length_put keywords.text keyword
        have hpos := List.length_pos_iff.2 hne
        rw [hsame] at hgrown
        have hle : (put keywords.text keyword).length ≤ keywords.text.length := hgrown
        omega
      · rw [if_pos (Nat.lt_of_not_le hfits), dif_neg hfits, if_neg Bool.false_ne_true]

/-! ## The refusal -/

/-- The keywords of a STORE that no check refuses and no modifier skips. -/
def accepted (loc : Locale) (connection : Connection) (store : Store) (m : Message) (command : WString) :
    Option (List WString) :=
  let store := if store.modifierParsed then store else parseModifier loc store command
  if connection.currentFolderReadOnly = true ∨ (store.hasUnchangedSince = true ∧ store.unchangedSince < m.modSeq) then none
  else match keywordsGiven loc command with
    | .error _ => none
    | .ok keywords =>
      if checkPermissions connection (listsFlag loc command) keywords = none then some keywords else none

/-- No mod-sequence is drawn, or the one that the message has. -/
def SameModSeq (env : Environment) (m : Message) : Prop :=
  env.messageFound = true → 0 < env.nextModSeq → env.nextModSeq = m.modSeq

/-- The message already is as the edits want it, as far as they come. -/
def AsAsked (loc : Locale) (env : Environment) (connection : Connection) (m : Message) (command : WString)
    (keywords : List WString) : Prop :=
  let lists := listsFlag loc command
  if (findNoCase loc command (wide "-FLAGS")).isSome then
    (∀ flag, lists flag = true → getFlag m.flags flag = false) ∧
      (keywords.foldl removeKeyword m.keywords).text = m.keywords.text ∧ SameModSeq env m
  else if (findNoCase loc command (wide "+FLAGS")).isSome then
    (∀ flag, lists flag = true → getFlag m.flags flag = true) ∧
      match keywords.find? (missing m.keywords) with
      | none => SameModSeq env m
      | some keyword => keywordsMaximumLength < (put m.keywords.text keyword).length
  else if (findNoCase loc command (wide "FLAGS")).isSome then
    (∀ flag, getFlag m.flags flag = lists flag) ∧
      (connection.checkPermission .writeOthers = true → (setKeywordList keywords).text = m.keywords.text) ∧
      SameModSeq env m
  else SameModSeq env m

/-- The live message is as it was and as the row holds it. -/
def Unchanged (m : Message) (answer : Answer) : Prop := answer.message.row = m.row ∧ answer.row = answer.message.row

theorem row_eq_iff (m m' : Message) :
    m'.row = m.row ↔ m'.flags = m.flags ∧ m'.keywords.text = m.keywords.text ∧ m'.modSeq = m.modSeq := by
  rw [Message.row, Message.row, Row.mk.injEq]

theorem modSeq_edit (loc : Locale) (connection : Connection) (command : WString) (keywords : List WString) (m : Message) :
    (edit loc connection command keywords m).2.modSeq = m.modSeq := by
  unfold edit
  dsimp only
  split
  · rfl
  · split
    · rfl
    · split
      · rfl
      · rfl

/-- The message after the edits and a mod-sequence that may have been drawn. -/
theorem asAsked_iff (loc : Locale) (env : Environment) (connection : Connection) (m : Message) (command : WString)
    (keywords : List WString) : AsAsked loc env connection m command keywords ↔
      (edit loc connection command keywords m).2.row = m.row ∧
        ((edit loc connection command keywords m).1 = true → SameModSeq env m) := by
  have hmodSeq := modSeq_edit loc connection command keywords m
  rw [row_eq_iff, hmodSeq]
  unfold AsAsked edit
  dsimp only
  split
  · rw [editFlags_eq_iff]
    simp only [true_imp_iff, and_true, and_assoc]
  · split
    · rw [editFlags_eq_iff]
      have hfind := addKeywords_find m.keywords keywords
      cases hcase : keywords.find? (missing m.keywords) with
      | none =>
        rw [hcase] at hfind
        rw [hfind]
        simp only [true_imp_iff, and_true]
      | some keyword =>
        rw [hcase] at hfind
        dsimp only at hfind ⊢
        split at hfind
        · rename_i hlong
          rw [hfind]
          simp [hlong]
        · rename_i hlong
          exact ⟨fun hasked => absurd hasked.2 hlong, fun hedited => absurd hedited.1.2.1 hfind⟩
    · split
      · rw [replaceFlags_eq_iff]
        cases connection.checkPermission .writeOthers with
        | true => simp [and_assoc]
        | false => simp
      · simp

theorem unchanged_self (m : Message) (result : IMAPResult) (store : Store) (sent : List Untagged) :
    Unchanged m ⟨result, m, m.row, store, sent⟩ := ⟨rfl, rfl⟩

/-- A refusal behind the checks leaves the message as the edits and `SaveFlags`
    have made it. -/
theorem unchanged_apply_iff (loc : Locale) (env : Environment) (connection : Connection) (store : Store)
    (messageIndex : Nat) (m : Message) (command : WString) (keywords : List WString)
    (h : (apply loc env connection store messageIndex m m.row command keywords).result ≠ .ok) :
    Unchanged m (apply loc env connection store messageIndex m m.row command keywords) ↔
      AsAsked loc env connection m command keywords := by
  rw [asAsked_iff]
  have hmodSeq := modSeq_edit loc connection command keywords m
  unfold apply at h ⊢
  dsimp only at h ⊢
  cases hfits : (edit loc connection command keywords m).1 with
  | false =>
    rw [if_pos rfl]
    constructor
    · exact fun hunchanged => ⟨hunchanged.1, fun hfits => nomatch hfits⟩
    · exact fun hasked => ⟨hasked.1, hasked.1.symm⟩
  | true =>
    rw [hfits, if_neg (by decide)] at h
    rw [if_neg (by decide)]
    generalize hedited : (edit loc connection command keywords m).2 = edited at h hmodSeq ⊢
    unfold updateMessageFlags at h ⊢
    by_cases hfound : env.messageFound = true
    · rw [if_pos hfound] at h ⊢
      have hsame : SameModSeq env m ↔ (0 < env.nextModSeq → env.nextModSeq = m.modSeq) := by
        simp [SameModSeq, hfound]
      have hrow : (if 0 < env.nextModSeq then { edited with modSeq := env.nextModSeq } else edited).row = m.row ↔
          edited.row = m.row ∧ SameModSeq env m := by
        rw [hsame, row_eq_iff, row_eq_iff, hmodSeq]
        split
        · rename_i hdrawn
          simp only [hdrawn, true_imp_iff, and_true]
          tauto
        · rename_i hdrawn
          simp only [hdrawn, false_imp_iff, and_true, hmodSeq]
      unfold saveFlags at h ⊢
      dsimp only at h ⊢
      cases hexecute : env.execute with
      | done =>
        rw [hexecute] at h
        dsimp only at h
        rw [if_neg (by decide)] at h
        split at h
        · exact absurd rfl h
        · exact absurd rfl h
      | failed =>
        dsimp only
        rw [if_pos rfl]
        constructor
        · exact fun hunchanged => (hrow.1 hunchanged.1).imp_right fun hsame _ => hsame
        · intro hasked
          have hboth := hrow.2 ⟨hasked.1, hasked.2 rfl⟩
          exact ⟨hboth, hboth.symm⟩
      | failedAfterUpdate =>
        dsimp only
        rw [if_pos rfl]
        constructor
        · exact fun hunchanged => (hrow.1 hunchanged.1).imp_right fun hsame _ => hsame
        · exact fun hasked => ⟨hrow.2 ⟨hasked.1, hasked.2 rfl⟩, rfl⟩
    · rw [if_neg hfound] at h ⊢
      rw [if_pos rfl]
      have hsame : SameModSeq env m := fun hfound' => absurd hfound' hfound
      constructor
      · exact fun hunchanged => ⟨hunchanged.1, fun _ => hsame⟩
      · exact fun hasked => ⟨hasked.1, hasked.1.symm⟩

/-- A refused STORE leaves the message as it was and as its row holds it exactly
    if it is refused by a check, or the edits change nothing and no new
    mod-sequence is drawn. -/
theorem refused_store_changes_nothing_iff (loc : Locale) (env : Environment) (connection : Connection) (store : Store)
    (messageIndex : Nat) (m : Message) (command : WString)
    (h : (doAction loc env connection store messageIndex m m.row command).result ≠ .ok) :
    Unchanged m (doAction loc env connection store messageIndex m m.row command) ↔
      ∀ keywords, accepted loc connection store m command = some keywords →
        AsAsked loc env connection m command keywords := by
  unfold doAction accepted at *
  dsimp only at *
  by_cases hreadOnly : connection.currentFolderReadOnly = true
  · rw [if_pos hreadOnly, if_pos (.inl hreadOnly)]
    exact iff_of_true ⟨rfl, rfl⟩ fun _ h => nomatch h
  · rw [if_neg hreadOnly] at h ⊢
    generalize (if store.modifierParsed = true then store else parseModifier loc store command) = parsed at h ⊢
    by_cases hskips : parsed.hasUnchangedSince = true ∧ parsed.unchangedSince < m.modSeq
    · rw [if_pos hskips] at h
      exact absurd rfl h
    · rw [if_neg hskips] at h ⊢
      rw [if_neg (not_or.2 ⟨hreadOnly, hskips⟩)]
      cases hkeywords : keywordsGiven loc command with
      | error text => exact iff_of_true ⟨rfl, rfl⟩ fun _ h => nomatch h
      | ok keywords =>
        rw [hkeywords] at h
        dsimp only at h ⊢
        cases hpermissions : checkPermissions connection (listsFlag loc command) keywords with
        | some text =>
          rw [if_neg (by simp)]
          exact iff_of_true ⟨rfl, rfl⟩ fun _ h => nomatch h
        | none =>
          rw [hpermissions] at h
          dsimp only at h ⊢
          rw [if_pos rfl, unchanged_apply_iff loc env connection parsed messageIndex m command keywords h]
          constructor
          · intro hasked given hgiven
            rwa [← Option.some.inj hgiven]
          · exact fun hasked => hasked keywords rfl

theorem refused_store_changes_nothing_readOnly :
    Unchanged {} (doAction classicLocale {} { currentFolderReadOnly := true } {} 1 {} (Message.row {}) (wide " FLAGS ()")) := by
  refine (refused_store_changes_nothing_iff classicLocale {} { currentFolderReadOnly := true } {} 1 {} (wide " FLAGS ()")
    (by decide +kernel)).2 fun keywords h => ?_
  rw [accepted, if_pos (.inl rfl)] at h
  cases h

/-- The database fails, and all sessions see the message as deleted. -/
theorem failed_store_marks_deleted :
    ¬∀ (loc : Locale) (env : Environment) (connection : Connection) (store : Store) (messageIndex : Nat) (m : Message)
      (command : WString), (doAction loc env connection store messageIndex m m.row command).result ≠ .ok →
      Unchanged m (doAction loc env connection store messageIndex m m.row command) := by
  intro h
  have hunchanged := h classicLocale { nextModSeq := 8, execute := .failed } {} {} 1 { uid := 4, modSeq := 7 }
    (wide " +FLAGS (\\Deleted)") (by decide +kernel)
  exact absurd hunchanged.1 (by decide +kernel)

end HMailServer.IMAPStore
