import HMailServer.Persistence.MessageIndex

/- The index never excludes a match. A needle lies inside one token of every
   content that contains the search text, and inside one stored window of that
   token; so a message whose rows were saved for that content is a candidate
   for every needle, in whatever order the filter is asked. -/
namespace HMailServer
namespace PersistentMessageIndex

/-- What every needle is: ASCII letters and digits, of a length the windows
    were made for. -/
structure Needle (w : WString) : Prop where
  alnum : ∀ c ∈ w, isAsciiAlnum c = true
  long : indexTimeMinTokenLength ≤ w.length
  short : w.length ≤ maxQueryNeedleLength

/-- Some stored term contains the needle. -/
def Stored (terms : Finset WString) (w : WString) : Prop := ∃ t ∈ terms, w <:+: t

theorem Stored.mono {a b : Finset WString} {w : WString} (h : Stored a w) (hab : a ⊆ b) : Stored b w := by
  obtain ⟨t, ht, hw⟩ := h
  exact ⟨t, hab ht, hw⟩

theorem Needle.ne_nil {w : WString} (h : Needle w) : w ≠ [] := by
  intro hnil
  have := h.long
  rw [hnil] at this
  exact absurd this (by decide)

theorem isAsciiAlnum_not_surrogate {c : WChar} (h : isAsciiAlnum c = true) :
    isHighSurrogate c = false ∧ isLowSurrogate c = false := by
  have key : ∀ n : Nat, (48 ≤ n ∧ n ≤ 57 ∨ 97 ≤ n ∧ n ≤ 122) ∨ 65 ≤ n ∧ n ≤ 90 →
      ¬ (0xD800 ≤ n ∧ n ≤ 0xDBFF) ∧ ¬ (0xDC00 ≤ n ∧ n ≤ 0xDFFF) := by
    intro n hn
    omega
  simp only [isAsciiAlnum, Bool.or_eq_true, Bool.and_eq_true, decide_eq_true_eq] at h
  have hc := key c h
  simpa only [isHighSurrogate, isLowSurrogate, ← Bool.not_eq_true, Bool.and_eq_true, decide_eq_true_eq] using hc

/-! ## Windows -/

section windows

variable {token w : WString} {i : Nat}

/-- The needle stands at position `i` of the token. -/
structure At (token w : WString) (i : Nat) : Prop where
  bound : i + w.length ≤ token.length
  piece : (token.drop i).take w.length = w

theorem At.getD_mem (h : At token w i) {j : Nat} (hi : i ≤ j) (hj : j < i + w.length) : token.getD j 0 ∈ w := by
  have hlt : j < token.length := lt_of_lt_of_le hj h.bound
  have hget : w[j - i]? = token[j]? := by
    conv_lhs => rw [← h.piece]
    rw [List.getElem?_take_of_lt (by omega), List.getElem?_drop, Nat.add_sub_cancel' hi]
  rw [List.getD_eq_getElem?_getD, ← hget, List.getElem?_eq_getElem (by omega)]
  exact List.getElem_mem _

/-- A window that covers the needle before its edges are trimmed covers it
    afterwards: what is trimmed is half of a surrogate pair. -/
theorem windowBounds_covers (h : At token w i) (hw : Needle w) {windowStart : Nat} (hs : windowStart ≤ i)
    (he : i + w.length ≤ windowStart + maxTermLength) :
    (windowBounds token windowStart).1 ≤ i ∧ i + w.length ≤ (windowBounds token windowStart).2 := by
  have hpos : 0 < w.length := List.length_pos_iff.2 hw.ne_nil
  have hbound := h.bound
  have hstart : (if 0 < windowStart && isLowSurrogate (token.getD windowStart 0) then windowStart + 1
      else windowStart) ≤ i := by
    split
    · rename_i hlow
      rw [Bool.and_eq_true] at hlow
      rcases Nat.lt_or_ge windowStart i with hlt | hge
      · exact hlt
      · -- The needle starts at the edge, and its first character is no surrogate.
        have hmem : token.getD windowStart 0 ∈ w := h.getD_mem hge (by omega)
        rw [(isAsciiAlnum_not_surrogate (hw.alnum _ hmem)).2] at hlow
        exact absurd hlow.2 (by decide)
    · exact hs
  refine ⟨hstart, ?_⟩
  simp only [windowBounds]
  generalize (if (decide (0 < windowStart) && isLowSurrogate (token.getD windowStart 0)) = true
    then windowStart + 1 else windowStart) = start at hstart ⊢
  split
  · rename_i hhigh
    simp only [Bool.and_eq_true, decide_eq_true_eq] at hhigh
    by_contra hlt
    have hmem : token.getD (min (windowStart + maxTermLength) token.length - 1) 0 ∈ w :=
      h.getD_mem (by omega) (by omega)
    rw [(isAsciiAlnum_not_surrogate (hw.alnum _ hmem)).1] at hhigh
    exact absurd hhigh.2 (by decide)
  · omega

theorem subset_insertWindow (terms : Finset WString) (windowStart : Nat) :
    terms ⊆ insertWindow token windowStart terms := by
  unfold insertWindow
  dsimp only
  split
  · exact Finset.subset_insert _ _
  · exact Finset.Subset.refl _

theorem insertWindow_stored (h : At token w i) (hw : Needle w) {windowStart : Nat} (hs : windowStart ≤ i)
    (he : i + w.length ≤ windowStart + maxTermLength) (terms : Finset WString) :
    Stored (insertWindow token windowStart terms) w := by
  obtain ⟨hb, hc⟩ := windowBounds_covers h hw hs he
  have hlong : 3 ≤ w.length := hw.long
  have hguard : ((windowBounds token windowStart).1 < (windowBounds token windowStart).2 &&
      indexTimeMinTokenLength ≤ (windowBounds token windowStart).2 - (windowBounds token windowStart).1) = true := by
    have hmin : indexTimeMinTokenLength = 3 := rfl
    rw [Bool.and_eq_true]
    refine ⟨decide_eq_true ?_, decide_eq_true ?_⟩ <;> omega
  unfold insertWindow
  dsimp only
  rw [if_pos hguard]
  refine ⟨_, Finset.mem_insert_self _ _, ?_⟩
  rw [← h.piece]
  apply MaximalRuns.infix_drop_take hb
  omega

theorem subset_insertWindows (cap n windowStart : Nat) (terms : Finset WString) :
    terms ⊆ insertWindows cap token n windowStart terms := by
  induction n generalizing windowStart terms with
  | zero => exact Finset.Subset.refl _
  | succ n ih =>
    have hone : terms ⊆ insertWindow token windowStart terms := subset_insertWindow terms windowStart
    rw [insertWindows]
    split_ifs
    · exact hone
    · exact hone
    · exact hone.trans (ih _ _)

/-- The windows of a token that did not overflow store every needle in it. The
    window that starts last at or before the needle covers it, as a needle is
    shorter than what two windows share. -/
theorem insertWindows_stored (h : At token w i) (hw : Needle w) (cap n windowStart : Nat) (terms : Finset WString)
    (hn : token.length ≤ windowStart + n) (hs : windowStart ≤ i)
    (hcap : (insertWindows cap token n windowStart terms).card ≤ cap) :
    Stored (insertWindows cap token n windowStart terms) w := by
  have hshort : w.length ≤ 16 := hw.short
  have hlong : 3 ≤ w.length := hw.long
  have hbound := h.bound
  have hmax : maxTermLength = 64 := rfl
  have hstep : chunkStep = 40 := rfl
  induction n generalizing windowStart terms with
  | zero => omega
  | succ n ih =>
    rw [insertWindows] at hcap ⊢
    by_cases hlast : token.length ≤ windowStart + maxTermLength
    · rw [if_pos hlast]
      exact insertWindow_stored h hw hs (by omega) terms
    · rw [if_neg hlast] at hcap ⊢
      split_ifs at hcap ⊢ with hfull
      · omega
      · by_cases hhere : i < windowStart + chunkStep
        · have hstored := insertWindow_stored h hw hs (by omega) terms
          exact hstored.mono (subset_insertWindows _ _ _ _)
        · exact ih _ _ (by omega) (by omega) hcap

end windows

/-! ## Tokens and needles -/

theorem indexToken_spec {cap : Nat} {terms terms' : Finset WString} {token : WString}
    (h : indexToken cap terms token = some terms') :
    terms ⊆ terms' ∧ ∀ w, Needle w → w <:+: token → Stored terms' w := by
  unfold indexToken at h
  split at h
  · rename_i hshort
    cases h
    refine ⟨Finset.Subset.refl _, fun w hw hin => ?_⟩
    have hlen := hin.length_le
    have hlong := hw.long
    omega
  · by_cases hlen : token.length ≤ maxTermLength
    · simp only [if_pos hlen] at h
      obtain ⟨_, hterms⟩ := Option.ite_none_left_eq_some.1 h
      obtain rfl := Option.some.inj hterms
      exact ⟨Finset.subset_insert _ _, fun w _ hin => ⟨token, Finset.mem_insert_self _ _, hin⟩⟩
    · simp only [if_neg hlen] at h
      obtain ⟨hcap, hterms⟩ := Option.ite_none_left_eq_some.1 h
      obtain rfl := Option.some.inj hterms
      refine ⟨subset_insertWindows _ _ _ _, fun w hw hin => ?_⟩
      obtain ⟨i, hb, hp⟩ := MaximalRuns.exists_position hin
      exact insertWindows_stored ⟨hb, hp⟩ hw cap _ 0 terms (by omega) (Nat.zero_le i) (Nat.le_of_not_lt hcap)

theorem foldlM_indexToken {cap : Nat} {tokens : List WString} {terms terms' : Finset WString}
    (h : tokens.foldlM (indexToken cap) terms = some terms') :
    terms ⊆ terms' ∧ ∀ token ∈ tokens, ∀ w, Needle w → w <:+: token → Stored terms' w := by
  induction tokens generalizing terms with
  | nil =>
    cases h
    exact ⟨Finset.Subset.refl _, by simp⟩
  | cons token tokens ih =>
    rw [List.foldlM_cons, Option.bind_eq_bind, Option.bind_eq_some_iff] at h
    obtain ⟨mid, hmid, hrest⟩ := h
    obtain ⟨hsub, hhead⟩ := indexToken_spec hmid
    obtain ⟨hsub', htail⟩ := ih hrest
    refine ⟨hsub.trans hsub', fun t ht w hw hin => ?_⟩
    rcases List.mem_cons.1 ht with rfl | ht
    · exact (hhead w hw hin).mono hsub'
    · exact htail t ht w hw hin

theorem isTokenChar_of_isAsciiAlnum {c : WChar} (h : isAsciiAlnum c = true) : isTokenChar c = true := by
  rw [isTokenChar, h, Bool.true_or]

/-- Every needle in the lowered content is in a stored term. -/
theorem tokenizeForIndex_stored {loc : Locale} {content w : WString} {cap : Nat} {terms : Finset WString}
    (h : tokenizeForIndex loc content cap = some terms) (hw : Needle w)
    (hin : w <:+: WString.makeLower loc content) : Stored terms w := by
  obtain ⟨token, htoken, hwt⟩ := MaximalRuns.infix_maximalRuns hw.ne_nil
    (fun c hc => isTokenChar_of_isAsciiAlnum (hw.alnum c hc)) hin
  exact (foldlM_indexToken h).2 token htoken w hw hwt

theorem createQueryNeedles_spec {loc : Locale} {searchText w : WString} {minRunLength : Int}
    (h : w ∈ createQueryNeedles loc searchText minRunLength) :
    Needle w ∧ w <:+: WString.makeLower loc searchText := by
  unfold createQueryNeedles at h
  dsimp only at h
  have hsorted := List.mem_of_mem_take h
  rw [List.mem_insertionSort, List.mem_dedup, List.mem_map] at hsorted
  obtain ⟨run, hrun, rfl⟩ := hsorted
  obtain ⟨hmem, hmin⟩ := List.mem_filter.1 hrun
  obtain ⟨hin, _, hclass⟩ := MaximalRuns.maximalRuns_spec hmem
  have hlen : 3 ≤ run.length := by
    have hmin := of_decide_eq_true hmin
    split at hmin
    · exact hmin
    · rename_i hge
      simp only [indexTimeMinTokenLength] at hge
      omega
  have hpre : run.take maxQueryNeedleLength <+: run := List.take_prefix _ _
  refine ⟨⟨fun c hc => hclass c (hpre.subset hc), ?_, ?_⟩, hpre.isInfix.trans hin⟩
  · rw [List.length_take]
    simp only [indexTimeMinTokenLength, maxQueryNeedleLength]
    omega
  · rw [List.length_take]
    omega

theorem contains_iff {s sub : WString} : WString.contains s sub = true ↔ sub <:+: s := by
  rw [WString.contains, List.any_eq_true]
  constructor
  · intro h
    obtain ⟨t, ht, hp⟩ := h
    exact (List.isPrefixOf_iff_prefix.1 hp).isInfix.trans ((List.mem_tails t s).1 ht).isInfix
  · intro h
    obtain ⟨t, hp, hs⟩ := List.infix_iff_prefix_suffix.1 h
    exact ⟨t, (List.mem_tails t s).2 hs, List.isPrefixOf_iff_prefix.2 hp⟩

/-- In a content that contains the search text, every needle of the text is in
    a stored term. -/
theorem needle_stored {loc : Locale} {content searchText w : WString} {cap : Nat} {minRunLength : Int}
    {terms : Finset WString} (h : tokenizeForIndex loc content cap = some terms)
    (hc : WString.contains (WString.makeLower loc content) (WString.makeLower loc searchText) = true)
    (hw : w ∈ createQueryNeedles loc searchText minRunLength) : Stored terms w := by
  obtain ⟨hneedle, hin⟩ := createQueryNeedles_spec hw
  exact tokenizeForIndex_stored h hneedle (hin.trans (contains_iff.1 hc))

/-- The rows of message `id` are `terms`, under the account column `account`. -/
def RowsOf (id account : Int) (terms : Finset WString) (db : IndexDatabase) : Prop :=
  ∀ acc term, ⟨id, acc, term⟩ ∈ db.rows ↔ acc = account ∧ term ∈ terms

section rows

variable {id account accountID : Int} {terms : Finset WString} {db : IndexDatabase} {found : Finset Int}

theorem RowsOf.mem_withTerm (hdb : RowsOf id account terms db) {term : WString}
    (h : getMessagesWithTerm db accountID term = some found) :
    id ∈ found ↔ account = toInt accountID ∧ term ∈ terms := by
  obtain ⟨_, hfound⟩ := Option.ite_none_left_eq_some.1 h
  obtain rfl := Option.some.inj hfound
  simp only [Finset.mem_image, Finset.mem_filter]
  constructor
  · intro hex
    obtain ⟨row, ⟨hrow, hacc, hterm⟩, hid⟩ := hex
    obtain ⟨i, a, t⟩ := row
    dsimp only at hacc hterm hid
    subst hid hterm
    obtain ⟨ha, ht⟩ := (hdb a t).1 hrow
    exact ⟨ha ▸ hacc, ht⟩
  · intro hsaved
    exact ⟨⟨id, account, term⟩, ⟨(hdb account term).2 ⟨rfl, hsaved.2⟩, hsaved.1, rfl⟩, rfl⟩

theorem RowsOf.mem_withTermContaining (hdb : RowsOf id account terms db) {needle : WString}
    (h : getMessagesWithTermContaining db accountID needle = some found) :
    id ∈ found ↔ account = toInt accountID ∧ ∃ t ∈ terms, WString.contains t needle = true := by
  obtain ⟨_, hfound⟩ := Option.ite_none_left_eq_some.1 h
  obtain rfl := Option.some.inj hfound
  simp only [Finset.mem_image, Finset.mem_filter]
  constructor
  · intro hex
    obtain ⟨row, ⟨hrow, hacc, hin⟩, hid⟩ := hex
    obtain ⟨i, a, t⟩ := row
    dsimp only at hacc hin hid
    subst hid
    obtain ⟨ha, ht⟩ := (hdb a t).1 hrow
    exact ⟨ha ▸ hacc, t, ht, hin⟩
  · intro hsaved
    obtain ⟨hacc, t, ht, hin⟩ := hsaved
    exact ⟨⟨id, account, t⟩, ⟨(hdb account t).2 ⟨rfl, ht⟩, hacc, hin⟩, rfl⟩

end rows

end PersistentMessageIndex

open PersistentMessageIndex

namespace SearchIndexFilter

section filter

variable (loc : Locale) (ini : IndexSettings) (id account : Int) (content : WString) (cap : Nat)

/-- The rows of message `id` are the ones `SaveTermsForMessage` left for the
    terms of `content`, under the account column `account`. -/
def IndexedAs (db : IndexDatabase) : Prop :=
  ∀ acc term, ⟨id, acc, term⟩ ∈ db.rows ↔ acc = account ∧ term ∈ savedTerms (tokenizeForIndex loc content cap)

/-- An entry of the filter does not exclude the message from a text that its
    content contains. -/
def EntryKeeps (f : SearchIndexFilter) (searchText : WString) (entry : CandidateEntry) : Prop :=
  entry.usable = true → account = toInt f.accountID → tokenizeForIndex loc content cap ≠ none →
    WString.contains (WString.makeLower loc content) (WString.makeLower loc searchText) = true → id ∈ entry.candidates

/-- What holds of the filter between any two questions. -/
structure Keeps (f : SearchIndexFilter) : Prop where
  sameAccount : f.usable = true → id ∈ f.completeSet → account = toInt f.accountID
  overflows : f.usable = true → id ∈ f.completeSet → tokenizeForIndex loc content cap = none → id ∈ f.overflowSet
  entries : ∀ e ∈ f.candidatesByText, EntryKeeps loc id account content cap f e.1 e.2
  fresh : f.initialized = false → f.usable = false ∧ f.candidatesByText = []

variable {loc ini id account content cap}

theorem keeps_initial : Keeps loc id account content cap {} where
  sameAccount h := by cases h
  overflows h := by cases h
  entries e he := by cases he
  fresh _ := ⟨rfl, rfl⟩

theorem mem_getMessagesWithTerm {db : IndexDatabase} {accountID : Int} {term : WString} {found : Finset Int}
    (hdb : IndexedAs loc id account content cap db) (h : getMessagesWithTerm db accountID term = some found) :
    id ∈ found ↔ account = toInt accountID ∧ term ∈ savedTerms (tokenizeForIndex loc content cap) :=
  RowsOf.mem_withTerm hdb h

theorem mem_getMessagesWithTermContaining {db : IndexDatabase} {accountID : Int} {needle : WString}
    {found : Finset Int} {terms : Finset WString} (hdb : IndexedAs loc id account content cap db)
    (hacc : account = toInt accountID) (ht : tokenizeForIndex loc content cap = some terms)
    (hn : Stored terms needle) (h : getMessagesWithTermContaining db accountID needle = some found) : id ∈ found := by
  have hsaved : terms ⊆ savedTerms (tokenizeForIndex loc content cap) := by
    rw [ht]
    exact Finset.subset_insert _ _
  obtain ⟨t, hmem, hin⟩ := hn.mono hsaved
  exact (RowsOf.mem_withTermContaining hdb h).2 ⟨hacc, t, hmem, contains_iff.2 hin⟩

theorem ensureInitialized_keeps {db : IndexDatabase} {f : SearchIndexFilter} (hf : Keeps loc id account content cap f)
    (hdb : IndexedAs loc id account content cap db) (message : IndexedMessage) :
    Keeps loc id account content cap (ensureInitialized ini db f message) := by
  unfold ensureInitialized
  split
  · exact hf
  rename_i hinit
  obtain ⟨hunusable, hnone⟩ := hf.fresh (by simpa using hinit)
  -- Every branch but the last leaves the filter unusable and without entries.
  have hidle : ∀ g : SearchIndexFilter, g.usable = false → g.candidatesByText = [] →
      Keeps loc id account content cap g := by
    intro g hu hc
    refine ⟨fun h => ?_, fun h => ?_, fun e he => ?_, fun _ => ⟨hu, hc⟩⟩
    · rw [hu] at h
      cases h
    · rw [hu] at h
      cases h
    · rw [hc] at he
      cases he
  dsimp only
  split
  · exact hidle _ hunusable hnone
  split
  · exact hidle _ hunusable hnone
  rename_i complete hcomplete
  split
  · exact hidle _ hunusable hnone
  rename_i overflow hoverflow
  refine ⟨fun _ h => ?_, fun _ h hover => ?_, fun e he => ?_, fun h => by cases h⟩
  · exact ((mem_getMessagesWithTerm hdb hcomplete).1 h).1
  · have hacc := ((mem_getMessagesWithTerm hdb hcomplete).1 h).1
    refine (mem_getMessagesWithTerm hdb hoverflow).2 ⟨hacc, ?_⟩
    rw [hover]
    exact Finset.mem_insert_self _ _
  · dsimp only at he
    rw [hnone] at he
    cases he

theorem mem_intersectNeedles {db : IndexDatabase} {accountID : Int} (needles : List WString)
    (intersection : Option (Finset Int)) {r : Finset Int}
    (hn : ∀ needle ∈ needles, ∀ found, getMessagesWithTermContaining db accountID needle = some found → id ∈ found)
    (hi : ∀ s, intersection = some s → id ∈ s) (hne : needles ≠ [] ∨ intersection ≠ none)
    (h : intersectNeedles db accountID intersection needles = some r) : id ∈ r := by
  induction needles generalizing intersection with
  | nil =>
    obtain ⟨s, hs⟩ := Option.ne_none_iff_exists'.1 (hne.resolve_left (by simp))
    subst hs
    cases h
    exact hi s rfl
  | cons needle needles ih =>
    rw [intersectNeedles] at h
    split at h
    · cases h
    rename_i found hfound
    have hmem : id ∈ found := hn needle (by simp) found hfound
    have hmerged : id ∈ mergeMatches intersection found := by
      cases intersection with
      | none => exact hmem
      | some s => exact Finset.mem_inter.2 ⟨hi s rfl, hmem⟩
    dsimp only at h
    split at h
    · rename_i hempty
      rw [hempty] at hmerged
      exact absurd hmerged (Finset.notMem_empty id)
    · refine ih _ (fun n hm => hn n (by simp [hm])) ?_ (.inr (by simp)) h
      intro s hs
      cases hs
      exact hmerged

theorem newEntry_keeps {db : IndexDatabase} (f : SearchIndexFilter)
    (hdb : IndexedAs loc id account content cap db) (searchText : WString) :
    EntryKeeps loc id account content cap f searchText (newEntry loc db f searchText) := by
  intro husable hacc hterms hcontains
  obtain ⟨terms, hterms⟩ := Option.ne_none_iff_exists'.1 hterms
  unfold newEntry at husable ⊢
  dsimp only at husable ⊢
  split at husable
  · cases husable
  rename_i hne
  rw [if_neg hne]
  split at husable
  · cases husable
  rename_i candidates hfound
  refine mem_intersectNeedles _ none (fun needle hneedle found hq => ?_) (fun s hs => by cases hs) (.inl hne) hfound
  exact mem_getMessagesWithTermContaining hdb hacc hterms (needle_stored hterms hcontains hneedle) hq

theorem mem_of_lookup {entries : List (WString × CandidateEntry)} {t : WString} {e : CandidateEntry}
    (h : entries.lookup t = some e) : (t, e) ∈ entries := by
  obtain ⟨l₁, l₂, hl, _⟩ := List.lookup_eq_some_iff.1 h
  rw [hl]
  simp

theorem candidatesFor_keeps {db : IndexDatabase} {f : SearchIndexFilter} (hf : Keeps loc id account content cap f)
    (hu : f.usable = true) (hdb : IndexedAs loc id account content cap db) (searchText : WString) :
    EntryKeeps loc id account content cap f searchText (candidatesFor loc db f searchText).1 ∧
      Keeps loc id account content cap (candidatesFor loc db f searchText).2 := by
  unfold candidatesFor
  split
  · rename_i entry hlookup
    exact ⟨hf.entries _ (mem_of_lookup hlookup), hf⟩
  · have hnew := newEntry_keeps f hdb searchText
    refine ⟨hnew, hf.sameAccount, hf.overflows, fun e he => ?_, fun h => ?_⟩
    · rcases List.mem_cons.1 he with rfl | he
      · exact hnew
      · exact hf.entries e he
    · rw [(hf.fresh h).1] at hu
      cases hu

/-- One question: the filter keeps its invariant, and does not exclude the
    message from a text its content contains. -/
theorem cannotContain_keeps {db : IndexDatabase} {f : SearchIndexFilter} (hf : Keeps loc id account content cap f)
    (hdb : IndexedAs loc id account content cap db) (message : IndexedMessage) (searchText : WString) :
    Keeps loc id account content cap (cannotContain loc ini db f message searchText).2 ∧
      (message.id = id →
        WString.contains (WString.makeLower loc content) (WString.makeLower loc searchText) = true →
        (cannotContain loc ini db f message searchText).1 = false) := by
  have hg := @ensureInitialized_keeps loc ini id account content cap db f hf hdb message
  unfold cannotContain
  dsimp only
  generalize ensureInitialized ini db f message = g at hg ⊢
  split
  · exact ⟨hg, fun _ _ => rfl⟩
  rename_i hu
  have hu : g.usable = true := by simpa using hu
  split
  · exact ⟨hg, fun _ _ => rfl⟩
  split
  · exact ⟨hg, fun _ _ => rfl⟩
  rename_i hcomplete
  split
  · exact ⟨hg, fun _ _ => rfl⟩
  rename_i hoverflow
  obtain ⟨hentry, hkeeps⟩ := candidatesFor_keeps hg hu hdb searchText
  split
  · exact ⟨hkeeps, fun _ _ => rfl⟩
  rename_i husable
  refine ⟨hkeeps, fun hid hcontains => ?_⟩
  subst hid
  have hmem := not_not.1 hcomplete
  have hterms : tokenizeForIndex loc content cap ≠ none := fun h => hoverflow (hg.overflows hu hmem h)
  have := hentry (by simpa using husable) (hg.sameAccount hu hmem) hterms hcontains
  simpa using this

/-- The filter after the questions of a search so far. Each is asked of the
    index as it is at that moment. -/
def afterCalls (loc : Locale) (ini : IndexSettings) (calls : List (IndexDatabase × IndexedMessage × WString)) :
    SearchIndexFilter :=
  calls.foldl (fun f call => (cannotContain loc ini call.1 f call.2.1 call.2.2).2) {}

theorem afterCalls_keeps {calls : List (IndexDatabase × IndexedMessage × WString)}
    (h : ∀ call ∈ calls, IndexedAs loc id account content cap call.1) :
    Keeps loc id account content cap (afterCalls loc ini calls) := by
  have run : ∀ (calls : List (IndexDatabase × IndexedMessage × WString)) (f : SearchIndexFilter),
      Keeps loc id account content cap f → (∀ call ∈ calls, IndexedAs loc id account content cap call.1) →
      Keeps loc id account content cap
        (calls.foldl (fun f call => (cannotContain loc ini call.1 f call.2.1 call.2.2).2) f) := by
    intro calls
    induction calls with
    | nil => exact fun f hf _ => hf
    | cons call calls ih =>
      intro f hf hcalls
      apply ih
      · exact (cannotContain_keeps hf (hcalls call (by simp)) call.2.1 call.2.2).1
      · exact fun c hc => hcalls c (by simp [hc])
  exact run calls {} keeps_initial h

end filter

end SearchIndexFilter

/-- The index never excludes a match. Every needle of a text that the content
    contains is in a stored term, and no filter, whatever it was asked before,
    rules out a message indexed for that content. -/
theorem index_never_excludes_a_match (loc : Locale) (content searchText : WString) (cap : Nat)
    (hcontains : WString.contains (WString.makeLower loc content) (WString.makeLower loc searchText) = true) :
    (∀ (minRunLength : Int) (terms : Finset WString), tokenizeForIndex loc content cap = some terms →
      ∀ needle ∈ createQueryNeedles loc searchText minRunLength, ∃ term ∈ terms, WString.contains term needle = true) ∧
    (∀ (ini : IndexSettings) (message : IndexedMessage) (account : Int)
      (calls : List (IndexDatabase × IndexedMessage × WString)) (db : IndexDatabase),
      (∀ call ∈ calls, SearchIndexFilter.IndexedAs loc message.id account content cap call.1) →
      SearchIndexFilter.IndexedAs loc message.id account content cap db →
      (SearchIndexFilter.cannotContain loc ini db (SearchIndexFilter.afterCalls loc ini calls) message searchText).1 =
        false) := by
  refine ⟨fun minRunLength terms hterms needle hneedle => ?_, fun ini message account calls db hcalls hdb => ?_⟩
  · obtain ⟨t, ht, hin⟩ := needle_stored hterms hcontains hneedle
    exact ⟨t, ht, contains_iff.2 hin⟩
  · exact (SearchIndexFilter.cannotContain_keeps (SearchIndexFilter.afterCalls_keeps hcalls) hdb message searchText).2
      rfl hcontains

/-- The index of one message with the content `Hello World2026`. -/
def helloIndex : IndexDatabase where
  rows := (savedTerms (tokenizeForIndex classicLocale (wide "Hello World2026") 100)).image fun t => ⟨7, 1, t⟩
  failsTerm _ := false
  failsContaining _ := false

theorem helloIndex_indexedAs :
    SearchIndexFilter.IndexedAs classicLocale 7 1 (wide "Hello World2026") 100 helloIndex := by
  intro acc term
  simp only [helloIndex, Finset.mem_image, IndexRow.mk.injEq, true_and]
  constructor
  · intro h
    obtain ⟨t, ht, hacc, hterm⟩ := h
    subst hacc hterm
    exact ⟨rfl, ht⟩
  · intro h
    exact ⟨term, h.2, h.1.symm, rfl⟩

theorem index_never_excludes_a_match_hello :
    createQueryNeedles classicLocale (wide "O WORLD2") 2 = [wide "world2"] ∧
    (∃ term ∈ ({wide "hello", wide "world2026"} : Finset WString), WString.contains term (wide "world2") = true) ∧
    (SearchIndexFilter.cannotContain classicLocale ⟨true, 2⟩ helloIndex
      (SearchIndexFilter.afterCalls classicLocale ⟨true, 2⟩ [(helloIndex, ⟨7, 1⟩, wide "nothing")]) ⟨7, 1⟩
      (wide "O WORLD2")).1 = false := by
  have hneedles : createQueryNeedles classicLocale (wide "O WORLD2") 2 = [wide "world2"] := by decide +kernel
  have hterms : tokenizeForIndex classicLocale (wide "Hello World2026") 100 =
      some {wide "hello", wide "world2026"} := by decide +kernel
  have h := index_never_excludes_a_match classicLocale (wide "Hello World2026") (wide "O WORLD2") 100
    (by decide +kernel)
  refine ⟨hneedles, h.1 2 _ hterms _ (by rw [hneedles]; exact List.mem_singleton_self _), ?_⟩
  refine h.2 ⟨true, 2⟩ ⟨7, 1⟩ 1 _ helloIndex (fun call hcall => ?_) helloIndex_indexedAs
  obtain rfl := List.mem_singleton.1 hcall
  exact helloIndex_indexedAs

end HMailServer
