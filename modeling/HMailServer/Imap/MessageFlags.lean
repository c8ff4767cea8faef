import HMailServer.Util.WideString

/- The flags and keywords of a message, `Common/BO/Message.cpp`. -/
namespace HMailServer.IMAPStore

open WString

/-! ## Flags -/

/-- The system flags that a client may store. -/
inductive SystemFlag where
  | seen
  | deleted
  | draft
  | answered
  | flagged
  deriving DecidableEq, Repr

/-- The value in `Message::Flags`. -/
def SystemFlag.bit : SystemFlag → BitVec 16
  | .seen => 1
  | .deleted => 2
  | .flagged => 4
  | .answered => 8
  | .draft => 16

/-- `SetFlag_`. -/
def setFlag (flags : BitVec 16) (flag : SystemFlag) (set : Bool) : BitVec 16 :=
  if set then flags ||| flag.bit else flags &&& ~~~flag.bit

/-- `GetFlag_`. -/
def getFlag (flags : BitVec 16) (flag : SystemFlag) : Bool := flags &&& flag.bit != 0

/-- Which bit of the sixteen it is. -/
def SystemFlag.position : SystemFlag → Nat
  | .seen => 0
  | .deleted => 1
  | .flagged => 2
  | .answered => 3
  | .draft => 4

theorem SystemFlag.bit_eq (flag : SystemFlag) : flag.bit = BitVec.twoPow 16 flag.position := by
  cases flag <;> rfl

theorem SystemFlag.position_lt (flag : SystemFlag) : flag.position < 16 := by
  cases flag <;> decide

theorem SystemFlag.position_inj {f g : SystemFlag} : f.position = g.position ↔ f = g := by
  cases f <;> cases g <;> decide

theorem getLsbD_bit (flag : SystemFlag) (i : Nat) : flag.bit.getLsbD i = decide (flag.position = i) := by
  rw [flag.bit_eq, BitVec.getLsbD_twoPow, decide_eq_true flag.position_lt, Bool.true_and]

theorem getFlag_eq (flags : BitVec 16) (flag : SystemFlag) : getFlag flags flag = flags.getLsbD flag.position := by
  rw [getFlag]
  cases hbit : flags.getLsbD flag.position with
  | true =>
    rw [bne_iff_ne]
    intro hzero
    have hlsb := congrArg (fun v : BitVec 16 => v.getLsbD flag.position) hzero
    simp [hbit, getLsbD_bit] at hlsb
  | false =>
    rw [bne_eq_false_iff_eq]
    apply BitVec.eq_of_getLsbD_eq
    intro i _
    rw [BitVec.getLsbD_and, getLsbD_bit]
    by_cases hi : flag.position = i
    · rw [← hi, hbit]
      simp
    · simp [hi]

theorem getLsbD_setFlag (flags : BitVec 16) (flag : SystemFlag) (set : Bool) (i : Nat) :
    (setFlag flags flag set).getLsbD i = if flag.position = i then set else flags.getLsbD i := by
  have hlt := flag.position_lt
  unfold setFlag
  by_cases hi : flag.position = i
  · subst hi
    cases set <;> simp [getLsbD_bit]
  · cases set with
    | true => simp [getLsbD_bit, hi]
    | false =>
      rw [if_neg hi, if_neg Bool.false_ne_true, BitVec.getLsbD_and, BitVec.getLsbD_not, getLsbD_bit, decide_eq_false hi,
        Bool.not_false, Bool.and_true]
      by_cases hbound : i < 16
      · rw [decide_eq_true hbound, Bool.and_true]
      · rw [BitVec.getLsbD_of_ge flags i (by omega), Bool.false_and]

/-- Setting one flag leaves the others. -/
theorem getFlag_setFlag (flags : BitVec 16) (flag other : SystemFlag) (set : Bool) :
    getFlag (setFlag flags flag set) other = if flag = other then set else getFlag flags other := by
  rw [getFlag_eq, getFlag_eq, getLsbD_setFlag]
  simp only [SystemFlag.position_inj]

/-- A flag set as it is changes nothing. -/
theorem setFlag_eq_iff (flags : BitVec 16) (flag : SystemFlag) (set : Bool) :
    setFlag flags flag set = flags ↔ getFlag flags flag = set := by
  constructor
  · intro h
    have hget := getFlag_setFlag flags flag flag set
    rwa [h, if_pos rfl] at hget
  · intro h
    apply BitVec.eq_of_getLsbD_eq
    intro i _
    rw [getLsbD_setFlag]
    split
    · rename_i hi
      rw [← hi, ← getFlag_eq, h]
    · rfl

/-! ## Keywords -/

def keywordsMaximumLength : Nat := 500

/-- The keywords as the message keeps them, in one text. -/
structure Keywords where
  text : WString := []
  fits : text.length ≤ keywordsMaximumLength := by decide

/-- `GetKeywordList` from the middle of a keyword. -/
def keywordListFrom (current : WString) : WString → List WString
  | [] => if current = [] then [] else [current]
  | c :: s =>
    if c = 32 then
      if current = [] then keywordListFrom [] s else current :: keywordListFrom [] s
    else keywordListFrom (current ++ [c]) s

def getKeywordList (keywords : WString) : List WString := keywordListFrom [] keywords

/-- A keyword put behind a text. -/
def put (text keyword : WString) : WString := if text = [] then keyword else text ++ [32] ++ keyword

/-- The loop of `SetKeywordList`; `before` are the keywords behind it. -/
def joinKeywords (before : List WString) (joined : Keywords) : List WString → Keywords
  | [] => joined
  | keyword :: rest =>
    if keyword = [] then joinKeywords (before ++ [keyword]) joined rest
    else if before.any fun other => equalsNoCase other keyword then joinKeywords (before ++ [keyword]) joined rest
    else if h : (put joined.text keyword).length ≤ keywordsMaximumLength then
      joinKeywords (before ++ [keyword]) ⟨put joined.text keyword, h⟩ rest
    else joined

def setKeywordList (keywords : List WString) : Keywords := joinKeywords [] {} keywords

def hasKeyword (keywords : Keywords) (keyword : WString) : Bool :=
  (getKeywordList keywords.text).any fun other => equalsNoCase other keyword

/-- With whether the keyword fits. -/
def addKeyword (keywords : Keywords) (keyword : WString) : Bool × Keywords :=
  if keyword = [] ∨ hasKeyword keywords keyword = true then (true, keywords)
  else if h : (put keywords.text keyword).length ≤ keywordsMaximumLength then (true, ⟨put keywords.text keyword, h⟩)
  else (false, keywords)

def removeKeyword (keywords : Keywords) (keyword : WString) : Keywords :=
  setKeywordList ((getKeywordList keywords.text).filter fun other => !equalsNoCase other keyword)

/-! ## The list of keywords -/

/-- A keyword of a list: it is not empty and has no blank. -/
def Bare (keyword : WString) : Prop := keyword ≠ [] ∧ 32 ∉ keyword

theorem keywordListFrom_append_blank (current s t : WString) :
    keywordListFrom current (s ++ 32 :: t) = keywordListFrom current s ++ keywordListFrom [] t := by
  induction s generalizing current with
  | nil =>
    rw [List.nil_append, keywordListFrom, keywordListFrom, if_pos rfl]
    split
    · rfl
    · rfl
  | cons c s ih =>
    rw [List.cons_append, keywordListFrom, keywordListFrom]
    split
    · split
      · exact ih []
      · rw [ih [], List.cons_append]
    · exact ih _

theorem keywordListFrom_of_notMem {current s : WString} (h : 32 ∉ s) :
    keywordListFrom current s = if current ++ s = [] then [] else [current ++ s] := by
  induction s generalizing current with
  | nil => rw [keywordListFrom, List.append_nil]
  | cons c s ih =>
    rw [List.mem_cons, not_or] at h
    rw [keywordListFrom, if_neg (Ne.symm h.1), ih h.2, List.append_assoc, List.singleton_append]

theorem bare_of_mem_keywordListFrom {current s keyword : WString} (hcurrent : 32 ∉ current)
    (h : keyword ∈ keywordListFrom current s) : Bare keyword := by
  induction s generalizing current with
  | nil =>
    rw [keywordListFrom] at h
    split at h
    · cases h
    · rename_i hne
      rw [List.mem_singleton] at h
      rw [h]
      exact ⟨hne, hcurrent⟩
  | cons c s ih =>
    rw [keywordListFrom] at h
    split at h
    · split at h
      · exact ih List.not_mem_nil h
      · rename_i hne
        rcases List.mem_cons.1 h with h | h
        · rw [h]
          exact ⟨hne, hcurrent⟩
        · exact ih List.not_mem_nil h
    · rename_i hc
      apply ih _ h
      rw [List.mem_append, List.mem_singleton, not_or]
      exact ⟨hcurrent, Ne.symm hc⟩

theorem bare_of_mem_list {keywords keyword : WString} (h : keyword ∈ getKeywordList keywords) : Bare keyword :=
  bare_of_mem_keywordListFrom List.not_mem_nil h

theorem getKeywordList_single {keyword : WString} (h : Bare keyword) : getKeywordList keyword = [keyword] := by
  rw [getKeywordList, keywordListFrom_of_notMem h.2, List.nil_append, if_neg h.1]

/-- A keyword put behind a text is the last of its list. -/
theorem getKeywordList_put (keywords : WString) {keyword : WString} (h : Bare keyword) :
    getKeywordList (put keywords keyword) = getKeywordList keywords ++ [keyword] := by
  unfold put
  split
  · rename_i hnil
    rw [hnil, getKeywordList_single h]
    rfl
  · rw [List.append_assoc, List.singleton_append, getKeywordList, keywordListFrom_append_blank]
    exact congrArg _ (getKeywordList_single h)

/-! ## The set of keywords -/

/-- What `CompareNoCase` compares. -/
def foldCase (keyword : WString) : WString := (cstr keyword).map classicLower

theorem equalsNoCase_iff (a b : WString) : equalsNoCase a b = true ↔ foldCase a = foldCase b := beq_iff_eq

theorem hasKeyword_iff {keywords : Keywords} {keyword : WString} :
    hasKeyword keywords keyword = true ↔ ∃ other ∈ getKeywordList keywords.text, foldCase other = foldCase keyword := by
  rw [hasKeyword, List.any_eq_true]
  simp only [equalsNoCase_iff]

/-- The keywords that `SetKeywordList` takes when all fit. -/
def distinctFrom (before : List WString) : List WString → List WString
  | [] => []
  | keyword :: rest =>
    if keyword = [] then distinctFrom (before ++ [keyword]) rest
    else if before.any fun other => equalsNoCase other keyword then distinctFrom (before ++ [keyword]) rest
    else keyword :: distinctFrom (before ++ [keyword]) rest

theorem length_put (text keyword : WString) :
    (put text keyword).length = text.length + keyword.length + if text = [] then 0 else 1 := by
  unfold put
  split
  · rename_i hnil
    simp [hnil]
  · simp
    omega

theorem put_ne_nil (text : WString) {keyword : WString} (h : keyword ≠ []) : put text keyword ≠ [] := by
  unfold put
  split
  · exact h
  · exact List.append_ne_nil_of_right_ne_nil _ h

theorem length_le_foldl_put (text : WString) (keywords : List WString) :
    text.length ≤ (keywords.foldl put text).length := by
  induction keywords generalizing text with
  | nil => exact Nat.le_refl _
  | cons keyword rest ih =>
    apply Nat.le_trans _ (ih (put text keyword))
    unfold put
    split
    · rename_i hnil
      simp [hnil]
    · simp

theorem getKeywordList_foldl_put (text : WString) {keywords : List WString} (h : ∀ keyword ∈ keywords, Bare keyword) :
    getKeywordList (keywords.foldl put text) = getKeywordList text ++ keywords := by
  induction keywords generalizing text with
  | nil => rw [List.foldl_nil, List.append_nil]
  | cons keyword rest ih =>
    have hput := getKeywordList_put text (h keyword List.mem_cons_self)
    rw [List.foldl_cons, ih (put text keyword) fun k hk => h k (List.mem_cons_of_mem _ hk), hput, List.append_assoc,
      List.singleton_append]

theorem mem_of_mem_distinctFrom {before keywords : List WString} {keyword : WString}
    (h : keyword ∈ distinctFrom before keywords) : keyword ∈ keywords ∧ keyword ≠ [] ∧
      ∀ other ∈ before, foldCase other ≠ foldCase keyword := by
  induction keywords generalizing before with
  | nil => cases h
  | cons first rest ih =>
    have hlater : keyword ∈ distinctFrom (before ++ [first]) rest → keyword ∈ first :: rest ∧ keyword ≠ [] ∧
        ∀ other ∈ before, foldCase other ≠ foldCase keyword := by
      intro h
      obtain ⟨hmem, hne, hother⟩ := ih h
      exact ⟨List.mem_cons_of_mem _ hmem, hne, fun other hbefore => hother other (List.mem_append_left _ hbefore)⟩
    rw [distinctFrom] at h
    split at h
    · exact hlater h
    · rename_i hne
      split at h
      · exact hlater h
      · rename_i hnew
        rcases List.mem_cons.1 h with h | h
        · rw [h]
          refine ⟨List.mem_cons_self, hne, fun other hbefore hsame => hnew ?_⟩
          exact List.any_eq_true.2 ⟨other, hbefore, (equalsNoCase_iff _ _).2 hsame⟩
        · exact hlater h

/-- Every keyword has one of its kind among the distinct ones or before. -/
theorem exists_of_mem {before keywords : List WString} (hne : ∀ keyword ∈ keywords, keyword ≠ []) {keyword : WString}
    (h : keyword ∈ keywords) : (∃ other ∈ before, foldCase other = foldCase keyword) ∨
      ∃ other ∈ distinctFrom before keywords, foldCase other = foldCase keyword := by
  induction keywords generalizing before with
  | nil => cases h
  | cons first rest ih =>
    have hfirst : (∃ other ∈ before, foldCase other = foldCase first) ∨ first ∈ distinctFrom before (first :: rest) := by
      rw [distinctFrom, if_neg (hne first List.mem_cons_self)]
      split
      · rename_i hseen
        obtain ⟨other, hother, hsame⟩ := List.any_eq_true.1 hseen
        exact .inl ⟨other, hother, (equalsNoCase_iff _ _).1 hsame⟩
      · exact .inr List.mem_cons_self
    have hrest : ∀ other ∈ distinctFrom (before ++ [first]) rest, other ∈ distinctFrom before (first :: rest) := by
      intro other hother
      rw [distinctFrom, if_neg (hne first List.mem_cons_self)]
      split
      · exact hother
      · exact List.mem_cons_of_mem _ hother
    have hlike : foldCase first = foldCase keyword → (∃ other ∈ before, foldCase other = foldCase keyword) ∨
        ∃ other ∈ distinctFrom before (first :: rest), foldCase other = foldCase keyword := by
      intro hsame
      rcases hfirst with ⟨other, hother, hfold⟩ | hmem
      · exact .inl ⟨other, hother, hfold.trans hsame⟩
      · exact .inr ⟨first, hmem, hsame⟩
    rcases List.mem_cons.1 h with h | h
    · exact hlike (by rw [h])
    · rcases ih (fun k hk => hne k (List.mem_cons_of_mem _ hk)) h with ⟨other, hother, hsame⟩ | ⟨other, hother, hsame⟩
      · rcases List.mem_append.1 hother with hother | hother
        · exact .inl ⟨other, hother, hsame⟩
        · rw [List.mem_singleton.1 hother] at hsame
          exact hlike hsame
      · exact .inr ⟨other, hrest other hother, hsame⟩

/-- No two of the distinct keywords are of one kind. -/
theorem pairwise_distinctFrom (before keywords : List WString) :
    (distinctFrom before keywords).Pairwise fun a b => foldCase a ≠ foldCase b := by
  induction keywords generalizing before with
  | nil => exact List.Pairwise.nil
  | cons first rest ih =>
    rw [distinctFrom]
    split
    · exact ih _
    · split
      · exact ih _
      · refine List.pairwise_cons.2 ⟨fun other hother => ?_, ih _⟩
        exact (mem_of_mem_distinctFrom hother).2.2 first (List.mem_append_right _ (List.mem_singleton_self _))

/-- `SetKeywordList` takes the distinct keywords up to the first that does not
    fit. -/
theorem joinKeywords_eq (before : List WString) (joined : Keywords) (keywords : List WString) :
    ∃ front back, distinctFrom before keywords = front ++ back ∧
      (joinKeywords before joined keywords).text = front.foldl put joined.text ∧
      ((∀ keyword, back.head? = some keyword → keywordsMaximumLength < (put (front.foldl put joined.text) keyword).length)) := by
  induction keywords generalizing before joined with
  | nil => exact ⟨[], [], rfl, rfl, fun _ h => nomatch h⟩
  | cons keyword rest ih =>
    rw [distinctFrom, joinKeywords]
    split
    · exact ih _ _
    · split
      · exact ih _ _
      · split
        · rename_i hfits
          obtain ⟨front, back, hdistinct, htext, hnext⟩ := ih (before ++ [keyword]) ⟨_, hfits⟩
          exact ⟨keyword :: front, back, by rw [hdistinct, List.cons_append], htext, hnext⟩
        · rename_i hlong
          refine ⟨[], _, rfl, rfl, fun k hk => ?_⟩
          obtain rfl := Option.some.inj hk
          exact Nat.lt_of_not_le hlong

/-- The keywords as one text, each kind once. -/
def joinDistinct (keywords : List WString) : WString := (distinctFrom [] keywords).foldl put []

variable {keywords : List WString}

theorem bare_distinctFrom {before : List WString} (h : ∀ keyword ∈ keywords, Bare keyword) :
    ∀ keyword ∈ distinctFrom before keywords, Bare keyword :=
  fun _ hmem => h _ (mem_of_mem_distinctFrom hmem).1

/-- Where all fit, the message has the keywords of the list. -/
theorem hasKeyword_setKeywordList (h : ∀ keyword ∈ keywords, Bare keyword)
    (hfits : (joinDistinct keywords).length ≤ keywordsMaximumLength) (keyword : WString) :
    hasKeyword (setKeywordList keywords) keyword = true ↔ ∃ other ∈ keywords, foldCase other = foldCase keyword := by
  obtain ⟨front, back, hdistinct, htext, hnext⟩ := joinKeywords_eq [] {} keywords
  have hall : back = [] := by
    cases back with
    | nil => rfl
    | cons k back =>
      have hlong := hnext k rfl
      have hmore := length_le_foldl_put (put (front.foldl put []) k) back
      rw [joinDistinct, hdistinct, List.foldl_append, List.foldl_cons] at hfits
      exact absurd (Nat.le_trans hmore hfits) (Nat.not_le_of_lt hlong)
  rw [hall, List.append_nil] at hdistinct
  rw [hasKeyword_iff, setKeywordList, htext, ← hdistinct, getKeywordList_foldl_put _ (bare_distinctFrom h)]
  constructor
  · rintro ⟨other, hother, hsame⟩
    exact ⟨other, (mem_of_mem_distinctFrom hother).1, hsame⟩
  · rintro ⟨other, hother, hsame⟩
    have hkinds : (∃ kind ∈ ([] : List WString), foldCase kind = foldCase other) ∨
        ∃ kind ∈ distinctFrom [] keywords, foldCase kind = foldCase other :=
      exists_of_mem (fun k hk => (h k hk).1) hother
    rcases hkinds with ⟨_, hnone, _⟩ | ⟨kind, hkind, hfold⟩
    · cases hnone
    · exact ⟨kind, hkind, hfold.trans hsame⟩

/-- Where one does not fit, it is missing. -/
theorem setKeywordList_loses (h : ∀ keyword ∈ keywords, Bare keyword)
    (hlong : keywordsMaximumLength < (joinDistinct keywords).length) :
    ∃ keyword ∈ keywords, hasKeyword (setKeywordList keywords) keyword = false := by
  obtain ⟨front, back, hdistinct, htext, hnext⟩ := joinKeywords_eq [] {} keywords
  cases back with
  | nil =>
    have hfits := (setKeywordList keywords).fits
    rw [List.append_nil] at hdistinct
    rw [setKeywordList, htext, ← hdistinct] at hfits
    exact absurd hfits (Nat.not_le_of_lt hlong)
  | cons keyword back =>
    have hmem : keyword ∈ distinctFrom [] keywords := by
      rw [hdistinct]
      exact List.mem_append_right _ List.mem_cons_self
    have hbare : ∀ keyword ∈ distinctFrom [] keywords, Bare keyword := bare_distinctFrom h
    have hfront : ∀ k ∈ front, Bare k := fun k hk => hbare k (by rw [hdistinct]; exact List.mem_append_left _ hk)
    refine ⟨keyword, (mem_of_mem_distinctFrom hmem).1, ?_⟩
    rw [← Bool.not_eq_true, hasKeyword_iff, setKeywordList, htext, getKeywordList_foldl_put _ hfront]
    rintro ⟨other, hother, hsame⟩
    have hpairs := pairwise_distinctFrom [] keywords
    rw [hdistinct] at hpairs
    exact (List.pairwise_append.1 hpairs).2.2 other hother keyword List.mem_cons_self hsame

/-- The length of keywords joined, with a blank behind each. -/
def size (keywords : List WString) : Nat := (keywords.map fun keyword => keyword.length + 1).sum

theorem length_foldl_put (text : WString) (h : ∀ keyword ∈ keywords, Bare keyword) :
    (keywords.foldl put text).length + (if text = [] ∧ keywords ≠ [] then 1 else 0) = text.length + size keywords := by
  induction keywords generalizing text with
  | nil => simp [size]
  | cons keyword rest ih =>
    have hne := (h keyword List.mem_cons_self).1
    have hrest := ih (put text keyword) fun k hk => h k (List.mem_cons_of_mem _ hk)
    rw [if_neg (fun hnil => put_ne_nil text hne hnil.1), length_put] at hrest
    have hsize : size (keyword :: rest) = keyword.length + 1 + size rest := rfl
    rw [List.foldl_cons, hsize]
    by_cases hnil : text = []
    · simp [hnil] at hrest ⊢
      omega
    · simp [hnil] at hrest ⊢
      omega

theorem size_keywordListFrom (current s : WString) :
    size (keywordListFrom current s) ≤ current.length + s.length + 1 := by
  induction s generalizing current with
  | nil =>
    rw [keywordListFrom]
    split
    · simp [size]
    · simp [size]
  | cons c s ih =>
    rw [keywordListFrom, List.length_cons]
    split
    · have hrest := ih []
      rw [List.length_nil] at hrest
      split
      · omega
      · have hsize : size (current :: keywordListFrom [] s) = current.length + 1 + size (keywordListFrom [] s) := rfl
        omega
    · have hrest := ih (current ++ [c])
      rw [List.length_append, List.length_singleton] at hrest
      omega

/-- Some keywords of a message fit in its text. -/
theorem fits_of_sublist (message : Keywords) (h : keywords.Sublist (getKeywordList message.text)) :
    (joinDistinct keywords).length ≤ keywordsMaximumLength := by
  have hbare : ∀ keyword ∈ keywords, Bare keyword := fun k hk => bare_of_mem_list (h.subset hk)
  have hdistinct : (distinctFrom [] keywords).Sublist keywords := by
    generalize ([] : List WString) = before
    clear h hbare
    induction keywords generalizing before with
    | nil => exact List.Sublist.slnil
    | cons keyword rest ih =>
      rw [distinctFrom]
      split
      · exact (ih _).cons _
      · split
        · exact (ih _).cons _
        · exact (ih _).cons_cons _
  have hsize : size (distinctFrom [] keywords) ≤ message.text.length + 1 := by
    have hle : size (distinctFrom [] keywords) ≤ size (getKeywordList message.text) :=
      ((hdistinct.trans h).map _).sum_le_sum fun _ _ => Nat.zero_le _
    have hlist := size_keywordListFrom [] message.text
    rw [List.length_nil, Nat.zero_add] at hlist
    exact Nat.le_trans hle hlist
  have hdistinctBare : ∀ keyword ∈ distinctFrom [] keywords, Bare keyword := bare_distinctFrom hbare
  have hlength := length_foldl_put [] hdistinctBare
  have hfits := message.fits
  unfold joinDistinct
  by_cases hnil : distinctFrom [] keywords = []
  · rw [hnil]
    exact Nat.zero_le _
  · rw [if_pos ⟨rfl, hnil⟩, List.length_nil, Nat.zero_add] at hlength
    omega

theorem hasKeyword_removeKeyword (message : Keywords) (removed keyword : WString) :
    hasKeyword (removeKeyword message removed) keyword = true ↔
      hasKeyword message keyword = true ∧ foldCase removed ≠ foldCase keyword := by
  have hsub : ((getKeywordList message.text).filter fun other => !equalsNoCase other removed).Sublist
      (getKeywordList message.text) := List.filter_sublist
  rw [removeKeyword, hasKeyword_setKeywordList (fun k hk => bare_of_mem_list (hsub.subset hk)) (fits_of_sublist message hsub),
    hasKeyword_iff]
  constructor
  · rintro ⟨other, hother, hsame⟩
    obtain ⟨hmem, hkept⟩ := List.mem_filter.1 hother
    refine ⟨⟨other, hmem, hsame⟩, fun hremoved => ?_⟩
    rw [Bool.not_eq_true', ← Bool.not_eq_true, equalsNoCase_iff] at hkept
    exact hkept (hsame.trans hremoved.symm)
  · rintro ⟨⟨other, hmem, hsame⟩, hne⟩
    refine ⟨other, List.mem_filter.2 ⟨hmem, ?_⟩, hsame⟩
    rw [Bool.not_eq_true', ← Bool.not_eq_true, equalsNoCase_iff]
    exact fun hremoved => hne (hremoved.symm.trans hsame)

theorem hasKeyword_addKeyword {message message' : Keywords} {added : WString} (hbare : Bare added)
    (h : addKeyword message added = (true, message')) (keyword : WString) :
    hasKeyword message' keyword = true ↔ hasKeyword message keyword = true ∨ foldCase added = foldCase keyword := by
  unfold addKeyword at h
  split at h
  · rename_i hhas
    have hhas := hhas.resolve_left hbare.1
    obtain rfl : message = message' := congrArg Prod.snd h
    refine ⟨.inl, fun h => h.elim id fun hsame => ?_⟩
    rw [hasKeyword_iff] at hhas ⊢
    obtain ⟨other, hother, hfold⟩ := hhas
    exact ⟨other, hother, hfold.trans hsame⟩
  · split at h
    · obtain rfl : (_ : Keywords) = message' := congrArg Prod.snd h
      rw [hasKeyword_iff, hasKeyword_iff, getKeywordList_put _ hbare]
      constructor
      · rintro ⟨other, hother, hsame⟩
        rcases List.mem_append.1 hother with hother | hother
        · exact .inl ⟨other, hother, hsame⟩
        · rw [List.mem_singleton.1 hother] at hsame
          exact .inr hsame
      · rintro (⟨other, hother, hsame⟩ | hsame)
        · exact ⟨other, List.mem_append_left _ hother, hsame⟩
        · exact ⟨added, List.mem_append_right _ (List.mem_singleton_self _), hsame⟩
    · cases congrArg Prod.fst h

end HMailServer.IMAPStore
