import HMailServer.Imap.StoreReading

/- STORE does what is written, as long as no keyword is read as something else. -/
namespace HMailServer.IMAPStore

open WString

/-! ## The flag list -/

namespace StoreArgument

variable (a : StoreArgument) {loc : Locale}

theorem joined_char : ∀ c ∈ a.joined, c = 32 ∨ (32 < c ∧ c < 127 ∧ c ≠ 40 ∧ c ≠ 41) := by
  intro c hc
  have hgen : ∀ pieces : List WString, c ∈ [32].intercalate pieces → c = 32 ∨ ∃ piece ∈ pieces, c ∈ piece := by
    intro pieces h
    cases pieces with
    | nil => cases h
    | cons piece rest =>
      rw [Separated.intercalate_cons, List.mem_append, List.mem_flatMap] at h
      rcases h with h | ⟨other, hother, h⟩
      · exact .inr ⟨piece, List.mem_cons_self, h⟩
      · rcases List.mem_cons.1 h with h | h
        · exact .inl h
        · exact .inr ⟨other, List.mem_cons_of_mem _ hother, h⟩
  rcases hgen _ hc with h | ⟨piece, hpiece, h⟩
  · exact .inl h
  · obtain ⟨f, -, rfl⟩ := List.mem_map.1 hpiece
    exact .inr (f.char.2 c h)

/-- A list of flags begins and ends with a flag. -/
theorem joined_ends (hne : a.flags ≠ []) :
    (∃ c s, a.joined = c :: s ∧ 32 < c ∧ c < 127 ∧ c ≠ 40) ∧ ∃ s c, a.joined = s ++ [c] ∧ 32 < c ∧ c < 127 := by
  have hgen : ∀ flags : List Flag, flags ≠ [] →
      (∃ c s, [32].intercalate (flags.map Flag.text) = c :: s ∧ 32 < c ∧ c < 127 ∧ c ≠ 40) ∧
        ∃ s c, [32].intercalate (flags.map Flag.text) = s ++ [c] ∧ 32 < c ∧ c < 127 := by
    intro flags hne
    induction flags with
    | nil => exact absurd rfl hne
    | cons f rest ih =>
      obtain ⟨hnil, hchar⟩ := f.char
      obtain ⟨c, s, hcs⟩ := List.exists_cons_of_ne_nil hnil
      have hc := hchar c (by rw [hcs]; exact List.mem_cons_self)
      refine ⟨?_, ?_⟩
      · refine ⟨c, s ++ (rest.map Flag.text).flatMap (32 :: ·), ?_, hc.1, hc.2.1, hc.2.2.1⟩
        rw [List.map_cons, Separated.intercalate_cons, hcs, List.cons_append]
      · cases rest with
        | nil =>
          obtain ⟨t, d, htd⟩ := List.eq_nil_or_concat' f.text |>.resolve_left hnil
          have hd := hchar d (by rw [htd]; exact List.mem_append_right _ (List.mem_singleton_self _))
          refine ⟨t, d, ?_, hd.1, hd.2.1⟩
          rw [List.map_cons, List.map_nil, List.intercalate_singleton, htd]
        | cons g rest =>
          obtain ⟨-, t, d, htd, hd⟩ := ih (List.cons_ne_nil _ _)
          refine ⟨f.text ++ [32] ++ t, d, ?_, hd⟩
          rw [List.map_cons, List.map_cons, List.intercalate_cons_cons, ← List.map_cons, htd, List.append_assoc _ t]
  exact hgen a.flags hne

/-- Nothing is trimmed of a text that begins and ends with other characters. -/
theorem trim_eq {s t : WString} {c d : WChar} (hs : s = c :: t) (hc : loc.isSpace c = false) {u : WString}
    (hu : s = u ++ [d]) (hd : loc.isSpace d = false) : trim loc s = s := by
  rw [trim]
  have hdrop : s.dropWhile loc.isSpace = s := by
    rw [hs, List.dropWhile_cons_of_neg (by rw [hc]; exact Bool.false_ne_true)]
  rw [hdrop, hu, List.rdropWhile_concat_neg _ _ _ (by rw [hd]; exact Bool.false_ne_true)]

theorem listText_ends (hloc : Classic loc) : (∃ c s, a.listText = c :: s ∧ loc.isSpace c = false) ∧
    ∃ s c, a.listText = s ++ [c] ∧ loc.isSpace c = false := by
  unfold listText
  split
  · exact ⟨⟨40, a.joined ++ [41], rfl, hloc.not_space (by decide) (by decide)⟩, 40 :: a.joined, 41, rfl,
      hloc.not_space (by decide) (by decide)⟩
  · rename_i hparentheses
    obtain ⟨⟨c, s, hcs, hc⟩, t, d, htd, hd⟩ := a.joined_ends (a.bare (Bool.eq_false_iff.2 hparentheses))
    exact ⟨⟨c, s, hcs, hloc.not_space hc.1 hc.2.1⟩, t, d, htd, hloc.not_space hd.1 hd.2⟩

theorem flagList_eq (hloc : Classic loc) : flagList loc a.command a.front.length = a.listText := by
  have hword : a.word.length = 5 := by
    rw [← List.length_map classicLower, a.spells]
    decide
  have hdrop : a.command.drop (a.front.length + 5) = silentText a.silent ++ 32 :: a.listText := by
    rw [← List.drop_drop, command, List.drop_left, ← hword, List.drop_left]
  have hplain : Plain (silentText a.silent ++ 32 :: a.listText) :=
    Plain.append a.plain_silentText (Plain.cons (by decide) a.plain_listText)
  have hlower : (wide ".SILENT").map classicLower = 46 :: wide "silent" := by decide
  have htrim : trim loc (32 :: a.listText) = a.listText := by
    obtain ⟨⟨c, s, hcs, hc⟩, t, d, htd, hd⟩ := a.listText_ends hloc
    rw [trim, List.dropWhile_cons_of_pos hloc.blank]
    exact trim_eq hcs hc htd hd
  unfold flagList
  dsimp only
  rw [hdrop, findNoCase_eq hloc.case hplain (by decide), hlower]
  cases hsilent : a.silent with
  | none =>
    rw [if_neg, silentText, List.nil_append, htrim]
    intro hzero
    obtain ⟨-, hat, -⟩ := Occurrence.find_eq_some_iff.1 hzero
    obtain ⟨tail, htail⟩ := hat
    rw [List.drop_zero, silentText, List.nil_append, List.map_cons] at htail
    exact absurd (List.cons.inj htail).1 (by decide)
  | some text =>
    have htext : (silentText (some text)).map classicLower = 46 :: wide "silent" := text.2
    have hlength : (silentText (some text)).length = 7 := by
      rw [← List.length_map classicLower, htext]
      decide
    rw [if_pos, ← hlength, List.drop_left, htrim]
    rw [List.map_append, htext]
    have hfound (p : WChar) (ps rest : WString) : Occurrence.find (p :: ps) ((p :: ps) ++ rest) = some 0 := by
      rw [← List.nil_append (p :: ps ++ rest), find_append_self List.not_mem_nil]
      rfl
    exact hfound _ _ _

theorem trim_flag (hloc : Classic loc) (f : Flag) : trim loc f.text = f.text := by
  obtain ⟨hne, hchar⟩ := f.char
  obtain ⟨c, s, hcs⟩ := List.exists_cons_of_ne_nil hne
  obtain ⟨t, d, htd⟩ := List.eq_nil_or_concat' f.text |>.resolve_left hne
  have hc := hchar c (by rw [hcs]; exact List.mem_cons_self)
  have hd := hchar d (by rw [htd]; exact List.mem_append_right _ (List.mem_singleton_self _))
  exact trim_eq hcs (hloc.not_space hc.1 hc.2.1) htd (hloc.not_space hd.1 hd.2.1)

theorem readAtoms_flags (hloc : Classic loc) (flags : List Flag) :
    readAtoms loc (flags.map Flag.text) = .ok (flags.filterMap Flag.keyword?) := by
  induction flags with
  | nil => rfl
  | cons f rest ih =>
    have hne := f.char.1
    rw [List.map_cons, readAtoms, trim_flag hloc f, ih]
    cases f with
    | system flag text spells =>
      have hhead : text.head? = some 92 := by
        have hname : text.map classicLower = flag.name := spells
        cases text with
        | nil => exact absurd rfl hne
        | cons c s =>
          have hfirst : flag.name.head? = some 92 := by cases flag <;> decide
          rw [← hname] at hfirst
          have hnat : ∀ n : Nat, (if 65 ≤ n ∧ n ≤ 90 then n + 32 else n) = 92 → n = 92 := by
            intro n hn
            split at hn <;> omega
          rw [List.head?_cons, hnat c (Option.some.inj hfirst)]
      exact if_pos (.inr hhead)
    | keyword text valid other =>
      have hneither : ¬((Flag.keyword text valid other).text = [] ∨ (Flag.keyword text valid other).text.head? = some 92) :=
        fun h => h.elim hne other
      have hvalid : ¬isValidFlagName (Flag.keyword text valid other).text = false := fun h => by
        have hvalid : isValidFlagName (Flag.keyword text valid other).text = true := valid
        rw [hvalid] at h
        cases h
      rw [if_neg hneither, if_neg hvalid]
      rfl

theorem splitString_joined : splitString a.joined 32 = a.flags.map Flag.text := by
  have hpiece : ∀ piece ∈ a.flags.map Flag.text, piece ≠ [] ∧ 32 ∉ piece := by
    intro piece hpiece
    obtain ⟨f, -, rfl⟩ := List.mem_map.1 hpiece
    exact ⟨f.char.1, fun h => absurd (f.char.2 32 h).1 (by decide)⟩
  unfold splitString joined
  by_cases hnil : a.flags.map Flag.text = []
  · rw [hnil]
    rfl
  · have hsplit := List.splitOn_intercalate 32 (fun piece h => (hpiece piece h).2) hnil
    dsimp only
    rw [hsplit]
    rw [if_neg]
    intro hlast
    exact (hpiece [] (List.mem_of_getLast? hlast)).1 rfl

/-- The keywords that are read are the ones that are written. -/
theorem keywordsGiven_eq (hloc : Classic loc) : keywordsGiven loc a.command = .ok a.keywords := by
  have hnotOpen : 40 ∉ a.joined := fun h => (a.joined_char 40 h).elim (by decide) fun h => h.2.2.1 rfl
  have hnotClose : 41 ∉ a.joined := fun h => (a.joined_char 41 h).elim (by decide) fun h => h.2.2.2 rfl
  have hatoms : readAtoms loc (splitString a.joined 32) = .ok a.keywords := by
    rw [splitString_joined, readAtoms_flags hloc]
    rfl
  rw [keywordsGiven, a.find_flags hloc.case]
  dsimp only
  rw [a.flagList_eq hloc, readFlagList]
  cases hparentheses : a.parentheses with
  | true =>
    have hlist : a.listText = 40 :: (a.joined ++ [41]) := by rw [listText, hparentheses]; rfl
    have hmid : mid (40 :: (a.joined ++ [41])) 1 ((40 :: (a.joined ++ [41])).length - 2) = a.joined := by
      have hlength : (40 :: (a.joined ++ [41])).length - 2 = a.joined.length := by simp
      rw [hlength, mid]
      exact List.take_left
    have hlast : (40 :: (a.joined ++ [41])).getLast? = some 41 := by
      rw [← List.cons_append, List.getLast?_append]
      rfl
    rw [hlist, if_neg fun h => h.2 hlast]
    dsimp only
    rw [List.head?_cons, if_pos rfl, hmid, if_neg (not_or.2 ⟨hnotOpen, hnotClose⟩), hatoms]
  | false =>
    have hlist : a.listText = a.joined := by rw [listText, hparentheses]; rfl
    obtain ⟨⟨c, s, hcs, -, -, hc⟩, -⟩ := a.joined_ends (a.bare hparentheses)
    have hhead : a.joined.head? ≠ some 40 := by
      rw [hcs, List.head?_cons]
      exact fun h => hc (Option.some.inj h)
    rw [hlist, if_neg fun h => hhead h.1]
    dsimp only
    rw [if_neg hhead, if_neg (not_or.2 ⟨hnotOpen, hnotClose⟩), hatoms]

end StoreArgument

/-! ## What it asks for -/

theorem hasKeyword_foldl_removeKeyword (message : Keywords) (removed : List WString) (keyword : WString) :
    hasKeyword (removed.foldl removeKeyword message) keyword = true ↔
      hasKeyword message keyword = true ∧ ∀ other ∈ removed, foldCase other ≠ foldCase keyword := by
  induction removed generalizing message with
  | nil => simp
  | cons first rest ih =>
    rw [List.foldl_cons, ih, hasKeyword_removeKeyword, List.forall_mem_cons, and_assoc]

theorem hasKeyword_addKeywords {message : Keywords} {added : List WString} (hbare : ∀ keyword ∈ added, Bare keyword)
    (h : (addKeywords message added).1 = true) (keyword : WString) :
    hasKeyword (addKeywords message added).2 keyword = true ↔
      hasKeyword message keyword = true ∨ ∃ other ∈ added, foldCase other = foldCase keyword := by
  induction added generalizing message with
  | nil => simp [addKeywords]
  | cons first rest ih =>
    rw [addKeywords] at h ⊢
    by_cases hfirst : (addKeyword message first).1 = true
    · rw [if_pos hfirst] at h ⊢
      have hadd : addKeyword message first = (true, (addKeyword message first).2) := Prod.ext hfirst rfl
      have hone := hasKeyword_addKeyword (hbare first List.mem_cons_self) hadd keyword
      rw [ih (fun k hk => hbare k (List.mem_cons_of_mem _ hk)) h, hone]
      simp [or_assoc]
    · rw [if_neg hfirst] at h
      cases h

namespace StoreArgument

variable (a : StoreArgument) {loc : Locale} {m : Message}

/-- The keyword is listed, in some letter case. -/
def ListsKeyword (keyword : WString) : Prop := ∃ other ∈ a.keywords, foldCase other = foldCase keyword

/-- The flag as RFC 3501 leaves it. -/
def wantedFlag (flag : SystemFlag) (old : Bool) : Bool :=
  match a.operation with
  | .replace => a.lists flag
  | .add => old || a.lists flag
  | .remove => old && !a.lists flag

/-- The keywords as RFC 3501 leaves them. -/
def WantsKeyword (m : Message) (keyword : WString) : Prop :=
  match a.operation with
  | .replace => a.ListsKeyword keyword
  | .add => hasKeyword m.keywords keyword = true ∨ a.ListsKeyword keyword
  | .remove => hasKeyword m.keywords keyword = true ∧ ¬a.ListsKeyword keyword

/-- The modifier is written and the message has changed since. -/
def Skips (m : Message) : Prop := ∃ modifier ∈ a.modifier, (digitsValue modifier.digits : Int) < m.modSeq

def Untagged.isFlags : Untagged → Bool
  | .flags .. => true
  | .modSeq .. => false

/-- The flags and keywords are as written, and the response is silent if that
    is written. -/
structure Done (m : Message) (answer : Answer) : Prop where
  flags : ∀ flag, getFlag answer.message.flags flag = a.wantedFlag flag (getFlag m.flags flag)
  keywords : ∀ keyword, hasKeyword answer.message.keywords keyword = true ↔ a.WantsKeyword m keyword
  silent : (answer.sent.any Untagged.isFlags = true) ↔ a.silent = none

/-- `DoAction` has skipped the message. -/
def Skipped (store : Store) (answer : Answer) : Prop := answer.store.modified ≠ store.modified

/-- STORE does what is written. -/
def AsWritten (m : Message) (store : Store) (answer : Answer) : Prop :=
  (Skipped store answer ↔ a.Skips m) ∧ (¬Skipped store answer → a.Done m answer)

/-! ## When it is understood -/

/-- A keyword is not read as a modifier that skips the message. -/
def ModifierRead (loc : Locale) (m : Message) : Prop :=
  a.modifier.isSome = true ∨ ¬a.NamesToken (wide "unchangedsince") ∨
    m.modSeq ≤ (parseModifier loc {} a.command).unchangedSince

/-- A keyword is not read as another operation, or what that leaves is the same;
    the keywords of a list that replaces all fit. -/
def OperationRead (m : Message) : Prop :=
  match a.operation with
  | .remove => True
  | .add => ¬a.NamesToken (wide "-flags")
  | .replace => ¬a.NamesToken (wide "-flags") ∧
      if a.NamesToken (wide "+flags") then
        (∀ flag, getFlag m.flags flag = true → a.lists flag = true) ∧
          ∀ keyword, hasKeyword m.keywords keyword = true → a.ListsKeyword keyword
      else (joinDistinct a.keywords).length ≤ keywordsMaximumLength

/-- A keyword is not read as FLAGS.SILENT. -/
def SilenceRead : Prop := a.silent.isSome = true ∨ ¬a.NamesToken (wide "flags.silent")

def Understood (loc : Locale) (m : Message) : Prop :=
  a.ModifierRead loc m ∧ (a.Skips m ∨ (a.OperationRead m ∧ a.SilenceRead))

theorem bare_keywords : ∀ keyword ∈ a.keywords, Bare keyword := by
  intro keyword h
  obtain ⟨f, -, hsome⟩ := List.mem_filterMap.1 h
  cases f with
  | system flag text spells => cases hsome
  | keyword text valid other =>
    obtain rfl := Option.some.inj hsome
    obtain ⟨hne, hchar⟩ := keyword_char valid other
    exact ⟨hne, fun hblank => absurd (hchar 32 hblank).1 (by decide)⟩

/-- A keyword with a token in it is listed. -/
theorem listsKeyword_of_names {lower : WString} (h : a.NamesToken lower) : ∃ keyword, a.ListsKeyword keyword := by
  obtain ⟨keyword, hmem, -⟩ := h
  exact ⟨keyword, keyword, hmem, rfl⟩

/-- The edits leave what is written exactly if the operation is understood. -/
theorem edit_iff (hloc : loc.AsciiCase) (connection : Connection) (hrights : connection.checkPermission .writeOthers = true)
    (hedit : (edit loc connection a.command a.keywords m).1 = true) :
    ((∀ flag, getFlag (edit loc connection a.command a.keywords m).2.flags flag = a.wantedFlag flag (getFlag m.flags flag)) ∧
      ∀ keyword, hasKeyword (edit loc connection a.command a.keywords m).2.keywords keyword = true ↔ a.WantsKeyword m keyword) ↔
      a.OperationRead m := by
  have hflags : (findNoCase loc a.command (wide "FLAGS")).isSome = true := by
    rw [a.find_flags hloc]
    rfl
  unfold edit at hedit ⊢
  dsimp only at hedit ⊢
  rw [a.listsFlag_eq hloc] at hedit ⊢
  simp only [a.finds_minus hloc, a.finds_plus hloc] at hedit ⊢
  rw [if_pos hflags] at hedit ⊢
  by_cases hremoves : a.operation = .remove ∨ a.NamesToken (wide "-flags")
  · rw [if_pos hremoves]
    dsimp only
    by_cases hremove : a.operation = .remove
    · refine iff_of_true ⟨fun flag => ?_, fun keyword => ?_⟩ ?_
      · rw [getFlag_editFlags, wantedFlag, hremove]
        cases a.lists flag <;> simp
      · rw [hasKeyword_foldl_removeKeyword, WantsKeyword, hremove]
        simp [ListsKeyword]
      · rw [OperationRead, hremove]
        trivial
    · -- the keyword that is misread is removed and not kept
      have hnames := hremoves.resolve_left hremove
      obtain ⟨keyword, hlisted⟩ := a.listsKeyword_of_names hnames
      refine iff_of_false (fun h => ?_) fun h => ?_
      · have hwants : a.WantsKeyword m keyword := by
          rw [WantsKeyword]
          cases hoperation : a.operation with
          | replace => exact hlisted
          | add => exact .inr hlisted
          | remove => exact absurd hoperation hremove
        obtain ⟨other, hother, hsame⟩ := hlisted
        have hkept := (h.2 keyword).2 hwants
        rw [hasKeyword_foldl_removeKeyword] at hkept
        exact hkept.2 other hother hsame
      · rw [OperationRead] at h
        cases hoperation : a.operation with
        | replace =>
          rw [hoperation] at h
          exact h.1 hnames
        | add =>
          rw [hoperation] at h
          exact h hnames
        | remove => exact hremove hoperation
  · rw [if_neg hremoves] at hedit ⊢
    obtain ⟨hremove, hminus⟩ := not_or.1 hremoves
    by_cases hadds : a.operation = .add ∨ a.NamesToken (wide "+flags")
    · rw [if_pos hadds] at hedit ⊢
      dsimp only at hedit ⊢
      have hkeywords := hasKeyword_addKeywords a.bare_keywords hedit
      cases hoperation : a.operation with
      | remove => exact absurd hoperation hremove
      | add =>
        refine iff_of_true ⟨fun flag => ?_, fun keyword => ?_⟩ ?_
        · rw [getFlag_editFlags, wantedFlag, hoperation]
          cases a.lists flag <;> simp
        · rw [hkeywords, WantsKeyword, hoperation]
          rfl
        · rw [OperationRead, hoperation]
          exact hminus
      | replace =>
        have hplus : a.NamesToken (wide "+flags") := hadds.resolve_left (by rw [hoperation]; decide)
        rw [OperationRead, hoperation]
        dsimp only
        rw [if_pos hplus]
        constructor
        · rintro ⟨hallFlags, hallKeywords⟩
          refine ⟨hminus, fun flag hset => ?_, fun keyword hhas => ?_⟩
          · have hflag := hallFlags flag
            rw [getFlag_editFlags, wantedFlag, hoperation, hset] at hflag
            simpa using hflag.symm
          · have hkeyword := (hallKeywords keyword).1 ((hkeywords keyword).2 (.inl hhas))
            rwa [WantsKeyword, hoperation] at hkeyword
        · rintro ⟨-, hheldFlags, hheldKeywords⟩
          refine ⟨fun flag => ?_, fun keyword => ?_⟩
          · rw [getFlag_editFlags, wantedFlag, hoperation]
            have hheld := hheldFlags flag
            cases hlists : a.lists flag with
            | true => rfl
            | false =>
              rw [hlists] at hheld
              simpa using hheld
          · rw [hkeywords, WantsKeyword, hoperation]
            exact ⟨fun h => h.elim (hheldKeywords keyword) id, .inr⟩
    · rw [if_neg hadds] at hedit ⊢
      obtain ⟨hadd, hplus⟩ := not_or.1 hadds
      have hoperation : a.operation = .replace := by
        cases hoperation : a.operation with
        | replace => rfl
        | add => exact absurd hoperation hadd
        | remove => exact absurd hoperation hremove
      dsimp only
      rw [if_pos hrights, OperationRead, hoperation]
      dsimp only
      rw [if_neg hplus]
      have hallFlags : ∀ flag, getFlag (replaceFlags a.lists m.flags) flag = a.wantedFlag flag (getFlag m.flags flag) := by
        intro flag
        rw [getFlag_replaceFlags, wantedFlag, hoperation]
      constructor
      · rintro ⟨-, hallKeywords⟩
        refine ⟨hminus, Nat.le_of_not_lt fun hlong => ?_⟩
        obtain ⟨keyword, hmem, hlost⟩ := setKeywordList_loses a.bare_keywords hlong
        have hwants : a.WantsKeyword m keyword := by
          rw [WantsKeyword, hoperation]
          exact ⟨keyword, hmem, rfl⟩
        rw [(hallKeywords keyword).2 hwants] at hlost
        cases hlost
      · rintro ⟨-, hfits⟩
        refine ⟨hallFlags, fun keyword => ?_⟩
        rw [hasKeyword_setKeywordList a.bare_keywords hfits, WantsKeyword, hoperation]
        rfl

/-! ## The action -/

/-- What an accepted STORE leaves and sends. -/
theorem apply_ok (env : Environment) (connection : Connection) (store : Store) (messageIndex : Nat) (row : Row)
    (command : WString) (keywords : List WString)
    (h : (apply loc env connection store messageIndex m row command keywords).result = .ok) :
    (edit loc connection command keywords m).1 = true ∧
      (apply loc env connection store messageIndex m row command keywords).message.flags =
        (edit loc connection command keywords m).2.flags ∧
      (apply loc env connection store messageIndex m row command keywords).message.keywords =
        (edit loc connection command keywords m).2.keywords ∧
      ((apply loc env connection store messageIndex m row command keywords).sent.any Untagged.isFlags = true ↔
        ¬(findNoCase loc command (wide "FLAGS.SILENT")).isSome = true) ∧
      (apply loc env connection store messageIndex m row command keywords).store = store := by
  have hsaved : ∀ (m : Message) (row : Row), (updateMessageFlags env m row).2.1.flags = m.flags ∧
      (updateMessageFlags env m row).2.1.keywords = m.keywords := by
    intro m row
    unfold updateMessageFlags saveFlags
    dsimp only
    split
    · by_cases hdrawn : 0 < env.nextModSeq
      · simp only [if_pos hdrawn]
        cases env.execute <;> exact ⟨rfl, rfl⟩
      · simp only [if_neg hdrawn]
        cases env.execute <;> exact ⟨rfl, rfl⟩
    · exact ⟨rfl, rfl⟩
  unfold apply at h ⊢
  dsimp only at h ⊢
  by_cases hedit : (edit loc connection command keywords m).1 = false
  · rw [if_pos hedit] at h
    cases h
  · rw [if_neg hedit] at h ⊢
    by_cases hsave : (updateMessageFlags env (edit loc connection command keywords m).2 row).1 = false
    · rw [if_pos hsave] at h
      cases h
    · rw [if_neg hsave] at h ⊢
      obtain ⟨hflags, hkeywords⟩ := hsaved (edit loc connection command keywords m).2 row
      refine ⟨by simpa using hedit, ?_⟩
      by_cases hsilent : (findNoCase loc command (wide "FLAGS.SILENT")).isSome = true
      · rw [if_pos hsilent]
        refine ⟨hflags, hkeywords, iff_of_false ?_ fun h => h hsilent, rfl⟩
        dsimp only
        split <;> simp [Untagged.isFlags]
      · rw [if_neg hsilent]
        exact ⟨hflags, hkeywords, iff_of_true rfl hsilent, rfl⟩

/-- The object of a STORE command, at its first message or a later one. -/
def StoreFor (loc : Locale) (command : WString) (store : Store) : Prop :=
  ∃ isUID modified, store = { isUID := isUID, modified := modified } ∨
    store = parseModifier loc { isUID := isUID, modified := modified } command

/-- `ParseModifier_` reads the same into every object. -/
theorem parseModifier_fields (loc : Locale) (store : Store) (command : WString) :
    (parseModifier loc store command).modified = store.modified ∧
    (parseModifier loc store command).modifierParsed = true ∧
    (store.hasUnchangedSince = false → store.unchangedSince = 0 →
      (parseModifier loc store command).hasUnchangedSince = (parseModifier loc {} command).hasUnchangedSince ∧
      (parseModifier loc store command).unchangedSince = (parseModifier loc {} command).unchangedSince) := by
  unfold parseModifier
  split
  · exact ⟨rfl, rfl, fun hhas hvalue => ⟨hhas, hvalue⟩⟩
  · exact ⟨rfl, rfl, fun _ _ => ⟨rfl, rfl⟩⟩

/-- The object after `DoAction` has read the modifier. -/
theorem storeFor_parsed {store : Store} {command : WString} (h : StoreFor loc command store) :
    let parsed := if store.modifierParsed then store else parseModifier loc store command
    parsed.modified = store.modified ∧
      parsed.hasUnchangedSince = (parseModifier loc {} command).hasUnchangedSince ∧
      parsed.unchangedSince = (parseModifier loc {} command).unchangedSince := by
  obtain ⟨isUID, modified, rfl | rfl⟩ := h
  · obtain ⟨hmodified, -, hsame⟩ := parseModifier_fields loc { isUID := isUID, modified := modified } command
    exact ⟨hmodified, hsame rfl rfl⟩
  · obtain ⟨-, hparsed, hsame⟩ := parseModifier_fields loc { isUID := isUID, modified := modified } command
    dsimp only
    rw [if_pos hparsed]
    exact ⟨rfl, hsame rfl rfl⟩

/-- What `DoAction` takes for a message that has changed. -/
def ReadAsChanged (loc : Locale) (m : Message) : Prop :=
  (parseModifier loc {} a.command).hasUnchangedSince = true ∧ (parseModifier loc {} a.command).unchangedSince < m.modSeq

theorem readAsChanged_iff (hloc : Classic loc) (hrange : m.modSeq < 2 ^ 63) :
    (a.ReadAsChanged loc m ↔ a.Skips m) ↔ a.ModifierRead loc m := by
  unfold ReadAsChanged Skips ModifierRead
  cases hmodifier : a.modifier with
  | some modifier =>
    rw [a.parseModifier_some hloc {} hmodifier]
    refine iff_of_true ?_ (.inl rfl)
    have hvalue : value modifier < m.modSeq ↔ (digitsValue modifier.digits : Int) < m.modSeq := by
      unfold value
      omega
    simp [hvalue]
  | none =>
    by_cases hnames : a.NamesToken (wide "unchangedsince")
    · have hhas : (parseModifier loc {} a.command).hasUnchangedSince = true := by
        have hfinds := (a.finds_unchangedSince hloc.case).2 (.inr hnames)
        obtain ⟨pos, hpos⟩ := Option.isSome_iff_exists.1 hfinds
        rw [parseModifier, hpos]
      simp [hhas, hnames]
    · rw [a.parseModifier_none hloc.case {} hmodifier hnames]
      simp [hnames]

/-- With all rights an accepted STORE does what is written exactly if no keyword
    is read as a modifier, an operation or FLAGS.SILENT and no keyword of a list
    that replaces is cut off. -/
theorem store_as_written_iff (hloc : Classic loc) (a : StoreArgument) (m : Message) (hrange : m.modSeq < 2 ^ 63)
    (env : Environment) (connection : Connection) (hrights : ∀ permission, connection.checkPermission permission = true)
    (store : Store) (hstore : StoreFor loc a.command store) (messageIndex : Nat) (row : Row)
    (hok : (doAction loc env connection store messageIndex m row a.command).result = .ok) :
    a.AsWritten m store (doAction loc env connection store messageIndex m row a.command) ↔ a.Understood loc m := by
  obtain ⟨hmodified, hhas, hsince⟩ := storeFor_parsed hstore
  have hchanged := a.readAsChanged_iff hloc hrange
  unfold doAction at hok ⊢
  dsimp only at hok ⊢ hmodified hhas hsince
  generalize (if store.modifierParsed = true then store else parseModifier loc store a.command) = parsed
    at hok hmodified hhas hsince ⊢
  by_cases hreadOnly : connection.currentFolderReadOnly = true
  · rw [if_pos hreadOnly] at hok
    cases hok
  · have hread : (parsed.hasUnchangedSince = true ∧ parsed.unchangedSince < m.modSeq) ↔ a.ReadAsChanged loc m := by
      rw [hhas, hsince, ReadAsChanged]
    rw [if_neg hreadOnly] at hok ⊢
    unfold AsWritten Understood
    by_cases hskips : a.ReadAsChanged loc m
    · rw [if_pos (hread.2 hskips)]
      have hskipped : Skipped store ⟨.ok, m, row, { parsed with modified := parsed.modified ++
          [if parsed.isUID = true then m.uid else messageIndex] }, []⟩ := by
        rw [Skipped, ← hmodified]
        simp
      rw [← hchanged, iff_true_left hskipped, iff_true_left hskips]
      constructor
      · rintro ⟨hskip, -⟩
        exact ⟨hskip, .inl hskip⟩
      · rintro ⟨hskip, -⟩
        exact ⟨hskip, fun hnot => absurd hskipped hnot⟩
    · rw [if_neg fun h => hskips (hread.1 h)] at hok ⊢
      have hpermissions : checkPermissions connection (listsFlag loc a.command) a.keywords = none := by
        simp [checkPermissions, hrights]
      rw [a.keywordsGiven_eq hloc] at hok ⊢
      dsimp only at hok ⊢
      rw [hpermissions] at hok ⊢
      dsimp only at hok ⊢
      obtain ⟨hedit, hflags, hkeywords, hsent, hafter⟩ := apply_ok env connection parsed messageIndex row a.command a.keywords hok
      generalize apply loc env connection parsed messageIndex m row a.command a.keywords = answer
        at hok hflags hkeywords hsent hafter ⊢
      have hnotSkipped : ¬Skipped store answer := by
        rw [Skipped, hafter, hmodified, not_not]
      rw [← hchanged, iff_false_left hnotSkipped, iff_false_left hskips]
      have hdone : a.Done m answer ↔ a.OperationRead m ∧ a.SilenceRead := by
        have hsilence : (answer.sent.any Untagged.isFlags = true ↔ a.silent = none) ↔ a.SilenceRead := by
          rw [hsent, a.finds_silent hloc.case, SilenceRead]
          cases a.silent <;> simp
        rw [← a.edit_iff hloc.case connection (hrights _) hedit, ← hsilence, ← hflags, ← hkeywords]
        exact ⟨fun h => ⟨⟨h.flags, h.keywords⟩, h.silent⟩, fun h => ⟨h.1.1, h.1.2, h.2⟩⟩
      rw [← hdone]
      constructor
      · exact fun h => ⟨h.1, .inr (h.2 hnotSkipped)⟩
      · exact fun h => ⟨h.1, fun _ => h.2.resolve_left h.1⟩

theorem classic_classicLocale : Classic classicLocale := ⟨fun _ _ => ⟨rfl, rfl⟩, fun _ _ => rfl⟩

/-- `+FLAGS (\Seen)`. -/
def addSeen : StoreArgument :=
  ⟨none, .add, wide "FLAGS", by unfold Spells; decide, none,
    [.system .seen (wide "\\Seen") (by unfold Spells; decide)], true, fun h => nomatch h⟩

theorem store_as_written_addSeen : addSeen.AsWritten {} {} (doAction classicLocale {} {} {} 1 {} (Message.row {}) addSeen.command) := by
  have hnone : ∀ lower, ¬addSeen.NamesToken lower := fun lower h => by
    obtain ⟨keyword, hmem, -⟩ := h
    exact absurd hmem (List.not_mem_nil)
  refine (store_as_written_iff classic_classicLocale addSeen {} (by decide) {} {} (fun _ => rfl) {}
    ⟨false, [], .inl rfl⟩ 1 (Message.row {}) (by decide +kernel)).2 ?_
  exact ⟨.inr (.inl (hnone _)), .inr ⟨hnone _, .inr (hnone _)⟩⟩

/-- `+FLAGS (\Seen x-flags)`. -/
def addSeenAndKeyword : StoreArgument :=
  ⟨none, .add, wide "FLAGS", by unfold Spells; decide, none,
    [.system .seen (wide "\\Seen") (by unfold Spells; decide),
      .keyword (wide "x-flags") (by decide) (by decide)], true, fun h => nomatch h⟩

/-- A keyword with -FLAGS in it makes the STORE remove what it was to add. -/
theorem keyword_turns_add_into_remove :
    ¬∀ (a : StoreArgument) (m : Message), (doAction classicLocale {} {} {} 1 m m.row a.command).result = .ok →
      a.AsWritten m {} (doAction classicLocale {} {} {} 1 m m.row a.command) := by
  intro h
  have hwritten := h addSeenAndKeyword {} (by decide +kernel)
  have hnotSkipped : ¬Skipped {} (doAction classicLocale {} {} {} 1 {} (Message.row {}) addSeenAndKeyword.command) := by
    unfold Skipped
    decide +kernel
  have hseen := (hwritten.2 hnotSkipped).flags .seen
  exact absurd hseen (by decide +kernel)

end StoreArgument

end HMailServer.IMAPStore
