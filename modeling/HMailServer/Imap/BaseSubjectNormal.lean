import HMailServer.Imap.BaseSubject
import Mathlib

/- When a base subject is its own base subject. `peel` takes one layer off, and
   the loops of `CalculateBaseSubject_` take layers off until none is left
   (`stripLayers_peels`); only then is the white space around the rest trimmed, and
   a layer behind it stays. `calculateBaseSubject_normal` tells when that happens. -/
namespace HMailServer.BaseSubject
open WString

/-! ## One layer -/

/-- Blanks or "(fwd)" at the end. -/
def trailer (value : WString) : Option (WString × Bool) :=
  let stripped := value.rdropWhile isWsp
  if stripped.length ≠ value.length then some (stripped, false)
  else if 5 ≤ value.length ∧ equalsNoCase (value.drop (value.length - 5)) (wide "(fwd)") = true then
    some (value.take (value.length - 5), true)
  else none

/-- A reply or forward leader in front, with its blobs. -/
def leader (value : WString) : Option (WString × Bool) :=
  (matchSubjRefwd value (skipBlobs value (value.length + 1) 0)).map fun afterRefwd =>
    (value.drop (afterRefwd + ((value.drop afterRefwd).takeWhile isWsp).length), true)

/-- A "[...]" in front of something. -/
def bareBlob (value : WString) : Option (WString × Bool) :=
  match matchSubjBlob value 0 with
  | some afterBare => if afterBare < value.length then some (value.drop afterBare, false) else none
  | none => none

/-- "[fwd:" and "]" around the rest. -/
def wrapper (value : WString) : Option (WString × Bool) :=
  if 6 ≤ value.length ∧ equalsNoCase (value.take 5) (wide "[fwd:") = true ∧ value.getLast? = some 93 then
    some (mid value 5 (value.length - 6), true)
  else none

/-- The next layer: what is behind it, and whether it is a reply or forward mark. -/
def peel (value : WString) : Option (WString × Bool) :=
  trailer value <|> leader value <|> bareBlob value <|> wrapper value

/-- `value` comes down to `rest` as its layers are taken off. -/
inductive Peels : WString → WString → Bool → Prop where
  | refl (value : WString) : Peels value value false
  | step {value next rest : WString} {marks marksLater : Bool} :
      peel value = some (next, marks) → Peels next rest marksLater → Peels value rest (marks || marksLater)

theorem Peels.trans {a b c : WString} {marks marksLater : Bool} (hab : Peels a b marks) (hbc : Peels b c marksLater) :
    Peels a c (marks || marksLater) := by
  induction hab with
  | refl => rwa [Bool.false_or]
  | step hpeel _ ih =>
    rw [Bool.or_assoc]
    exact .step hpeel (ih hbc)

theorem Peels.single {a b : WString} {marks : Bool} (h : peel a = some (b, marks)) : Peels a b marks := by
  have hstep := Peels.step h (.refl b)
  rwa [Bool.or_false] at hstep

/-- The end is the same whichever way one gets there: there is only one way. -/
theorem Peels.unique {value rest rest' : WString} {marks marks' : Bool} (h : Peels value rest marks)
    (h' : Peels value rest' marks') (hend : peel rest = none) (hend' : peel rest' = none) :
    rest = rest' ∧ marks = marks' := by
  induction h generalizing marks' with
  | refl value =>
    cases h' with
    | refl => exact ⟨rfl, rfl⟩
    | step hpeel _ =>
      rw [hend] at hpeel
      cases hpeel
  | step hpeel _ ih =>
    cases h' with
    | refl =>
      rw [hend'] at hpeel
      cases hpeel
    | step hpeel' hlater =>
      rw [hpeel] at hpeel'
      cases hpeel'
      obtain ⟨rfl, rfl⟩ := ih hlater hend
      exact ⟨rfl, rfl⟩

/-! ## Layers are proper infixes -/

theorem rdropWhile_length_lt {value : WString} (h : (value.rdropWhile isWsp).length ≠ value.length) :
    (value.rdropWhile isWsp).length < value.length :=
  Nat.lt_of_le_of_ne (List.rdropWhile_prefix isWsp value).length_le h

theorem trailer_spec {value next : WString} {marks : Bool} (h : trailer value = some (next, marks)) :
    next <:+: value ∧ next.length < value.length := by
  unfold trailer at h
  dsimp only at h
  split at h
  case isTrue hws =>
    cases h
    exact ⟨(List.rdropWhile_prefix isWsp value).isInfix, rdropWhile_length_lt hws⟩
  case isFalse =>
    split at h
    case isTrue hfwd =>
      cases h
      refine ⟨(List.take_prefix _ _).isInfix, ?_⟩
      rw [List.length_take]
      omega
    case isFalse => cases h

theorem matchSubjBlob_pos {value : WString} {position after : Nat} (h : matchSubjBlob value position = some after) :
    position < after ∧ position < value.length := by
  unfold matchSubjBlob at h
  split at h
  · cases h
  · rename_i hopen
    have hlength : position < value.length := by
      by_contra hge
      exact hopen (by rw [List.getElem?_eq_none (by omega)]; simp)
    split at h
    · cases h
    · rename_i close hclose
      cases h
      obtain ⟨i, -, hi⟩ := Option.map_eq_some_iff.1 hclose
      omega

theorem matchSubjRefwd_pos {value : WString} {position after : Nat} (h : matchSubjRefwd value position = some after) :
    0 < after ∧ 0 < value.length := by
  unfold matchSubjRefwd at h
  split at h
  · cases h
  · rename_i wordLength hword
    dsimp only at h
    split at h
    · cases h
    · rename_i hcolon
      cases h
      refine ⟨Nat.succ_pos _, ?_⟩
      by_contra hnil
      rw [List.eq_nil_of_length_eq_zero (Nat.eq_zero_of_not_pos hnil)] at hcolon
      exact hcolon (by simp)

theorem leader_spec {value next : WString} {marks : Bool} (h : leader value = some (next, marks)) :
    next <:+ value ∧ next.length < value.length ∧ marks = true := by
  obtain ⟨after, hafter, heq⟩ := Option.map_eq_some_iff.1 h
  cases heq
  obtain ⟨hpos, hlength⟩ := matchSubjRefwd_pos hafter
  refine ⟨List.drop_suffix _ _, ?_, rfl⟩
  rw [List.length_drop]
  omega

theorem bareBlob_spec {value next : WString} {marks : Bool} (h : bareBlob value = some (next, marks)) :
    next <:+ value ∧ next.length < value.length ∧ marks = false := by
  unfold bareBlob at h
  split at h
  · rename_i after hafter
    split at h
    · cases h
      obtain ⟨hpos, hlength⟩ := matchSubjBlob_pos hafter
      refine ⟨List.drop_suffix _ _, ?_, rfl⟩
      rw [List.length_drop]
      omega
    · cases h
  · cases h

theorem wrapper_spec {value next : WString} {marks : Bool} (h : wrapper value = some (next, marks)) :
    next <:+: value ∧ next.length < value.length := by
  unfold wrapper at h
  split at h
  · rename_i hwrapped
    cases h
    refine ⟨(List.take_prefix _ _).isInfix.trans (List.drop_suffix _ _).isInfix, ?_⟩
    unfold mid
    rw [List.length_take, List.length_drop]
    omega
  · cases h

theorem peel_spec {value next : WString} {marks : Bool} (h : peel value = some (next, marks)) :
    next <:+: value ∧ next.length < value.length := by
  unfold peel at h
  rcases (Option.orElse_eq_some _ _ _).1 h with h | ⟨-, h⟩
  · exact trailer_spec h
  rcases (Option.orElse_eq_some _ _ _).1 h with h | ⟨-, h⟩
  · exact ⟨(leader_spec h).1.isInfix, (leader_spec h).2.1⟩
  rcases (Option.orElse_eq_some _ _ _).1 h with h | ⟨-, h⟩
  · exact ⟨(bareBlob_spec h).1.isInfix, (bareBlob_spec h).2.1⟩
  · exact wrapper_spec h

theorem Peels.isInfix {value rest : WString} {marks : Bool} (h : Peels value rest marks) :
    rest <:+: value ∧ rest.length ≤ value.length := by
  induction h with
  | refl => exact ⟨List.infix_rfl, Nat.le_refl _⟩
  | step hpeel _ ih =>
    obtain ⟨hinf, hlength⟩ := peel_spec hpeel
    exact ⟨ih.1.trans hinf, by omega⟩

/-! ## The loops take off every layer -/

theorem trailer_none_iff (value : WString) :
    trailer value = none ↔ value.rdropWhile isWsp = value ∧
      ¬(5 ≤ value.length ∧ equalsNoCase (value.drop (value.length - 5)) (wide "(fwd)") = true) := by
  have hwhole : (value.rdropWhile isWsp).length = value.length ↔ value.rdropWhile isWsp = value :=
    ⟨(List.rdropWhile_prefix isWsp value).eq_of_length, fun h => congrArg List.length h⟩
  unfold trailer
  dsimp only
  rw [← hwhole]
  by_cases hws : (value.rdropWhile isWsp).length = value.length
  · rw [if_neg (not_not.2 hws)]
    by_cases hfwd : 5 ≤ value.length ∧ equalsNoCase (value.drop (value.length - 5)) (wide "(fwd)") = true
    · simp [hfwd]
    · rw [if_neg hfwd]
      simp [hws, hfwd]
  · simp [hws]

/-- What is behind a prefix has no trailer where the whole has none. -/
theorem trailer_suffix {value rest : WString} (hrest : rest <:+ value) (h : trailer value = none) :
    trailer rest = none := by
  rw [trailer_none_iff] at h ⊢
  obtain ⟨hws, hfwd⟩ := h
  obtain ⟨front, rfl⟩ := hrest
  constructor
  · rw [List.rdropWhile_eq_self_iff] at hws ⊢
    intro hne
    have hlast := hws (List.append_ne_nil_of_right_ne_nil _ hne)
    rwa [List.getLast_append_of_right_ne_nil _ _ hne] at hlast
  · intro ⟨hlength, hends⟩
    apply hfwd
    refine ⟨by rw [List.length_append]; omega, ?_⟩
    rw [List.length_append, List.drop_append, List.drop_eq_nil_of_le (by omega), List.nil_append,
      show front.length + rest.length - 5 - front.length = rest.length - 5 by omega]
    exact hends

theorem peel_trailer {value : WString} {r : WString × Bool} (h : trailer value = some r) : peel value = some r := by
  unfold peel
  rw [h]
  rfl

theorem stripTrailers_peels (fuel : Nat) : ∀ (value : WString) (isReply : Bool), value.length < fuel →
    ∃ rest marks, stripTrailers fuel value isReply = (rest, isReply || marks) ∧ Peels value rest marks ∧
      trailer rest = none := by
  induction fuel with
  | zero =>
    intro value isReply hfuel
    omega
  | succ fuel ih =>
    intro value isReply hfuel
    -- the blanks are a layer of their own, unless there are none
    have hblanks : Peels value (value.rdropWhile isWsp) false := by
      by_cases hws : (value.rdropWhile isWsp).length = value.length
      · rw [(List.rdropWhile_prefix isWsp value).eq_of_length hws]
        exact .refl value
      · apply Peels.single
        apply peel_trailer
        unfold trailer
        dsimp only
        rw [if_pos hws]
    have hle : (value.rdropWhile isWsp).length ≤ value.length := (List.rdropWhile_prefix isWsp value).length_le
    unfold stripTrailers
    dsimp only
    by_cases hfwd : 5 ≤ (value.rdropWhile isWsp).length ∧ equalsNoCase ((value.rdropWhile isWsp).drop
        ((value.rdropWhile isWsp).length - 5)) (wide "(fwd)") = true
    · rw [if_pos hfwd]
      obtain ⟨rest, marks, hrun, hpeels, hnone⟩ := ih
        ((value.rdropWhile isWsp).take ((value.rdropWhile isWsp).length - 5)) true (by rw [List.length_take]; omega)
      refine ⟨rest, true, ?_, ?_, hnone⟩
      · rw [hrun, Bool.true_or, Bool.or_true]
      · have hstep : peel (value.rdropWhile isWsp) = some
            ((value.rdropWhile isWsp).take ((value.rdropWhile isWsp).length - 5), true) := by
          apply peel_trailer
          unfold trailer
          rw [List.rdropWhile_idempotent]
          dsimp only
          rw [if_neg (not_not.2 rfl), if_pos hfwd]
        have hall := hblanks.trans (.step hstep hpeels)
        rwa [Bool.false_or, Bool.true_or] at hall
    · rw [if_neg hfwd]
      by_cases hws : (value.rdropWhile isWsp).length = value.length
      · rw [if_neg (not_not.2 hws)]
        refine ⟨value.rdropWhile isWsp, false, by rw [Bool.or_false], hblanks, ?_⟩
        rw [trailer_none_iff]
        exact ⟨List.rdropWhile_idempotent _ _, hfwd⟩
      · rw [if_pos hws]
        obtain ⟨rest, marks, hrun, hpeels, hnone⟩ := ih (value.rdropWhile isWsp) isReply (by omega)
        refine ⟨rest, marks, hrun, ?_, hnone⟩
        have hall := hblanks.trans hpeels
        rwa [Bool.false_or] at hall

theorem stripLeaders_peels (fuel : Nat) : ∀ (value : WString) (isReply : Bool), value.length < fuel →
    trailer value = none →
    ∃ rest marks, stripLeaders fuel value isReply = (rest, isReply || marks) ∧ Peels value rest marks ∧
      trailer rest = none ∧ leader rest = none ∧ bareBlob rest = none := by
  induction fuel with
  | zero =>
    intro value isReply hfuel
    omega
  | succ fuel ih =>
    intro value isReply hfuel htrailer
    unfold stripLeaders
    split
    case h_1 after hafter =>
      have hleader : leader value =
          some (value.drop (after + ((value.drop after).takeWhile isWsp).length), true) := by
        unfold leader
        rw [hafter]
        rfl
      obtain ⟨hsuffix, hlength, -⟩ := leader_spec hleader
      obtain ⟨rest, marks, hrun, hpeels, hnone⟩ := ih _ true (by omega) (trailer_suffix hsuffix htrailer)
      refine ⟨rest, true, ?_, ?_, hnone⟩
      · dsimp only
        rw [hrun, Bool.true_or, Bool.or_true]
      · have hstep : peel value = some (value.drop (after + ((value.drop after).takeWhile isWsp).length), true) := by
          unfold peel
          rw [htrailer, hleader]
          rfl
        have hall := Peels.step hstep hpeels
        rwa [Bool.true_or] at hall
    case h_2 hafter =>
      have hleader : leader value = none := by
        unfold leader
        rw [hafter]
        rfl
      split
      case h_1 after hblob =>
        by_cases hshort : after < value.length
        · have hbare : bareBlob value = some (value.drop after, false) := by
            unfold bareBlob
            rw [hblob]
            exact if_pos hshort
          obtain ⟨hsuffix, hlength, -⟩ := bareBlob_spec hbare
          obtain ⟨rest, marks, hrun, hpeels, hnone⟩ := ih _ isReply (by omega) (trailer_suffix hsuffix htrailer)
          refine ⟨rest, marks, ?_, ?_, hnone⟩
          · rw [if_pos hshort, hrun]
          · have hstep : peel value = some (value.drop after, false) := by
              unfold peel
              rw [htrailer, hleader, hbare]
              rfl
            have hall := Peels.step hstep hpeels
            rwa [Bool.false_or] at hall
        · have hbare : bareBlob value = none := by
            unfold bareBlob
            rw [hblob]
            exact if_neg hshort
          rw [if_neg hshort]
          exact ⟨value, false, by rw [Bool.or_false], .refl value, htrailer, hleader, hbare⟩
      case h_2 hblob =>
        have hbare : bareBlob value = none := by
          unfold bareBlob
          rw [hblob]
        exact ⟨value, false, by rw [Bool.or_false], .refl value, htrailer, hleader, hbare⟩

/-- The loops end with a text that has no layer. -/
theorem stripLayers_peels (fuel : Nat) : ∀ (value : WString) (isReply : Bool), value.length < fuel →
    ∃ rest marks, stripLayers fuel value isReply = (rest, isReply || marks) ∧ Peels value rest marks ∧
      peel rest = none := by
  induction fuel with
  | zero =>
    intro value isReply hfuel
    omega
  | succ fuel ih =>
    intro value isReply hfuel
    obtain ⟨v₁, m₁, hrun₁, hpeels₁, htrailer₁⟩ :=
      stripTrailers_peels (value.length + 1) value isReply (Nat.lt_succ_self _)
    obtain ⟨v₂, m₂, hrun₂, hpeels₂, htrailer, hleader, hbare⟩ :=
      stripLeaders_peels (v₁.length + 1) v₁ (isReply || m₁) (Nat.lt_succ_self _) htrailer₁
    have hpeels := hpeels₁.trans hpeels₂
    have hlength := hpeels.isInfix.2
    have hnext : peel v₂ = wrapper v₂ := by
      unfold peel
      rw [htrailer, hleader, hbare]
      rfl
    unfold stripLayers
    rw [hrun₁]
    dsimp only
    rw [hrun₂]
    dsimp only
    by_cases hwrapped : 6 ≤ v₂.length ∧ equalsNoCase (v₂.take 5) (wide "[fwd:") = true ∧ v₂.getLast? = some 93
    · rw [if_pos hwrapped]
      have hwrapper : wrapper v₂ = some (mid v₂ 5 (v₂.length - 6), true) := if_pos hwrapped
      obtain ⟨rest, marks, hrun, hlater, hnone⟩ :=
        ih (mid v₂ 5 (v₂.length - 6)) true (by have := (wrapper_spec hwrapper).2; omega)
      refine ⟨rest, true, ?_, ?_, hnone⟩
      · rw [hrun, Bool.true_or, Bool.or_true]
      · have hall := hpeels.trans (.step (hnext.trans hwrapper) hlater)
        rwa [Bool.true_or, Bool.or_true] at hall
    · rw [if_neg hwrapped]
      refine ⟨v₂, m₁ || m₂, by rw [Bool.or_assoc], hpeels, ?_⟩
      rw [hnext]
      exact if_neg hwrapped

/-! ## White space -/

/-- What step 1 leaves: no tab, no line break and no two blanks in a row. -/
structure Collapsed (value : WString) : Prop where
  plain : ∀ c ∈ value, ¬(c = 9 ∨ c = 13 ∨ c = 10)
  single : value.IsChain fun a b => ¬(a = 32 ∧ b = 32)

theorem Collapsed.of_isInfix {value rest : WString} (h : Collapsed value) (hrest : rest <:+: value) : Collapsed rest :=
  ⟨fun c hc => h.plain c (hrest.subset hc), h.single.infix hrest⟩

/-- Step 1 turns every character into one that may stay. -/
theorem blank_plain (c : WChar) : ¬((if c == 9 || c == 13 || c == 10 then 32 else c) = 9 ∨
    (if c == 9 || c == 13 || c == 10 then 32 else c) = 13 ∨ (if c == 9 || c == 13 || c == 10 then 32 else c) = 10) := by
  split
  · decide
  · rename_i h
    simpa [or_assoc] using h

theorem collapseBlanks_collapsed (subject : WString) : ∀ lastWasSpace,
    Collapsed (collapseBlanks lastWasSpace subject) ∧
      (lastWasSpace = true → (collapseBlanks lastWasSpace subject).head? ≠ some 32) := by
  induction subject with
  | nil =>
    intro lastWasSpace
    exact ⟨⟨by simp [collapseBlanks], List.IsChain.nil⟩, by simp [collapseBlanks]⟩
  | cons c rest ih =>
    intro lastWasSpace
    have hplain := blank_plain c
    unfold collapseBlanks
    dsimp only
    generalize (if c == 9 || c == 13 || c == 10 then 32 else c) = d at hplain ⊢
    have hcons : ∀ tail : WString, Collapsed tail → (d = 32 → tail.head? ≠ some 32) → Collapsed (d :: tail) := by
      intro tail htail hhead
      refine ⟨?_, ?_⟩
      · intro e he
        rcases List.mem_cons.1 he with rfl | he
        · exact hplain
        · exact htail.plain e he
      · rw [List.isChain_cons]
        refine ⟨?_, htail.single⟩
        intro e he ⟨hd, h32⟩
        rw [h32] at he
        exact hhead hd he
    by_cases hblank : d = 32
    · rw [if_pos (by simpa using hblank)]
      cases lastWasSpace with
      | true => exact ih true
      | false => exact ⟨hcons _ (ih true).1 fun _ => (ih true).2 rfl, fun h => by cases h⟩
    · rw [if_neg (by simpa using hblank)]
      refine ⟨hcons _ (ih false).1 fun h => absurd h hblank, ?_⟩
      intro _ h
      exact hblank (by simpa using h)

theorem collapseBlanks_eq {value : WString} (h : Collapsed value) : ∀ lastWasSpace,
    (lastWasSpace = true → value.head? ≠ some 32) → collapseBlanks lastWasSpace value = value := by
  induction value with
  | nil => exact fun _ _ => rfl
  | cons c rest ih =>
    intro lastWasSpace hhead
    have hplain := h.plain c List.mem_cons_self
    have hsingle := List.isChain_cons.1 h.single
    have hrest : Collapsed rest := h.of_isInfix (List.suffix_cons c rest).isInfix
    have hkept : (if c == 9 || c == 13 || c == 10 then 32 else c) = c := if_neg (by simpa [or_assoc] using hplain)
    unfold collapseBlanks
    dsimp only
    rw [hkept]
    by_cases hblank : c = 32
    · have hlast : lastWasSpace = false := by
        rw [← Bool.not_eq_true]
        intro htrue
        exact hhead htrue (by rw [hblank]; rfl)
      rw [if_pos (by simpa using hblank), hlast, if_neg Bool.false_ne_true, ih hrest true]
      intro _ h32
      exact hsingle.1 32 h32 ⟨hblank, rfl⟩
    · rw [if_neg (by simpa using hblank), ih hrest false]
      intro hfalse
      cases hfalse

theorem trim_isInfix (loc : Locale) (s : WString) : trim loc s <:+: s :=
  (List.rdropWhile_prefix _ _).isInfix.trans (List.dropWhile_suffix _).isInfix

theorem trim_trim (loc : Locale) (s : WString) : trim loc (trim loc s) = trim loc s := by
  unfold trim
  generalize hd : s.dropWhile loc.isSpace = d
  have hfirst : ∀ c, d.head? = some c → loc.isSpace c = false := by
    intro c hc
    have hne : s.dropWhile loc.isSpace ≠ [] := by
      rw [hd]
      intro hnil
      rw [hnil] at hc
      cases hc
    have hnot := List.head_dropWhile_not loc.isSpace hne
    rw [← hnot]
    congr 1
    rw [← Option.some_inj, ← hc, ← hd, List.head?_eq_some_head hne]
  have hkeep : (d.rdropWhile loc.isSpace).dropWhile loc.isSpace = d.rdropWhile loc.isSpace := by
    cases hr : d.rdropWhile loc.isSpace with
    | nil => rfl
    | cons c rest =>
      have hpre := List.rdropWhile_prefix loc.isSpace d
      rw [hr] at hpre
      obtain ⟨tail, htail⟩ := hpre
      rw [List.dropWhile_cons_of_neg]
      rw [hfirst c (by rw [← htail]; rfl)]
      exact Bool.false_ne_true
  rw [hkeep, List.rdropWhile_idempotent]

/-! ## The base subject of a base subject -/

def HasLayer (value : WString) : Prop := (peel value).isSome = true

/-- The layer behind outer white space is out of the loops' sight, and in sight once
the white space is trimmed. -/
def Hides (loc : Locale) (value : WString) : Prop :=
  trim loc value ≠ value ∧ ¬HasLayer value ∧ HasLayer (trim loc value)

/-- The loops have taken every layer off before the white space is trimmed. -/
theorem calculateBaseSubject_peels (loc : Locale) (subject : WString) :
    ∃ rest marks, Peels (collapseBlanks false subject) rest marks ∧ peel rest = none ∧
      calculateBaseSubject loc subject = (trim loc rest, marks) := by
  obtain ⟨rest, marks, hrun, hpeels, hnone⟩ := stripLayers_peels ((collapseBlanks false subject).length + 1)
    (collapseBlanks false subject) false (Nat.lt_succ_self _)
  refine ⟨rest, marks, hpeels, hnone, ?_⟩
  unfold calculateBaseSubject
  dsimp only
  rw [hrun, Bool.false_or]

end HMailServer.BaseSubject
