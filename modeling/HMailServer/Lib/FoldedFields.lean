import HMailServer.Lib.Separated

/- Groups of header fields as text: fields folded over lines (RFC 5322, section
   2.2.3), with an empty line between the groups, and how such a text is read back. -/
namespace FoldedFields

abbrev Text := List Nat

/-! ## Reading -/

/-- The lines of a text; a text that ends with a line end has an empty one last. -/
def lines : Text → List Text
  | [] => [[]]
  | 13 :: 10 :: rest => [] :: lines rest
  | c :: rest => (lines rest).modifyHead (c :: ·)

/-- A line end in front of white space is dropped. -/
def unfold : Text → Text
  | [] => []
  | 13 :: 10 :: 32 :: rest => 32 :: unfold rest
  | 13 :: 10 :: 9 :: rest => 9 :: unfold rest
  | c :: rest => c :: unfold rest

/-- The fields of the groups of a text. -/
def readGroups (s : Text) : List (List Text) := (lines (unfold s)).dropLast.splitOn []

/-! ## Writing -/

/-- The pieces of a folded field. -/
abbrev Field := List Text

def folded (f : Field) : Text := [13, 10, 32].intercalate f

def unfolded (f : Field) : Text := [32].intercalate f

def fieldText (f : Field) : Text := folded f ++ [13, 10]

def groupText (g : List Field) : Text := g.flatMap fieldText

def reportText (first : List Field) (rest : List (List Field)) : Text :=
  groupText first ++ rest.flatMap fun g => 13 :: 10 :: groupText g

/-- A field whose pieces hold no carriage return and that begins with no white
    space. -/
structure FieldOk (f : Field) : Prop where
  pieces : ∀ p ∈ f, 13 ∉ p
  head : ∃ c ∈ (f.head?.bind List.head?), c ≠ 32 ∧ c ≠ 9

/-! ## Lines -/

theorem lines_cons {c : Nat} (hc : c ≠ 13) (rest : Text) : lines (c :: rest) = (lines rest).modifyHead (c :: ·) := by
  rw [lines]
  rintro rest' rfl
  exact fun _ => hc rfl

theorem lines_ne_nil (s : Text) : lines s ≠ [] := by
  fun_induction lines s <;> simp_all [List.modifyHead_eq_nil_iff]

theorem lines_append {l : Text} (hl : 13 ∉ l) (rest : Text) : lines (l ++ rest) = (lines rest).modifyHead (l ++ ·) := by
  induction l with
  | nil =>
    rw [List.nil_append]
    cases lines rest <;> rfl
  | cons c l ih =>
    rw [List.mem_cons, not_or] at hl
    rw [List.cons_append, lines_cons (Ne.symm hl.1), ih hl.2, List.modifyHead_modifyHead]
    rfl

theorem lines_line {l : Text} (hl : 13 ∉ l) (rest : Text) : lines (l ++ 13 :: 10 :: rest) = l :: lines rest := by
  rw [lines_append hl, lines, List.modifyHead_cons, List.append_nil]

theorem lines_flatMap {ls : List Text} (hls : ∀ l ∈ ls, 13 ∉ l) (rest : Text) :
    lines (ls.flatMap (· ++ [13, 10]) ++ rest) = ls ++ lines rest := by
  induction ls with
  | nil => rfl
  | cons l ls ih =>
    have hs : (l :: ls).flatMap (· ++ [13, 10]) ++ rest = l ++ 13 :: 10 :: (ls.flatMap (· ++ [13, 10]) ++ rest) := by
      simp
    rw [hs, lines_line (hls l List.mem_cons_self), ih fun m hm => hls m (List.mem_cons_of_mem _ hm)]
    rfl

/-- The lines that a field is written on. -/
def fieldLines : Field → List Text
  | [] => [[]]
  | p :: ps => p :: ps.map (32 :: ·)

theorem fieldText_eq (f : Field) : fieldText f = (fieldLines f).flatMap (· ++ [13, 10]) := by
  cases f with
  | nil => rfl
  | cons p ps =>
    rw [fieldText, folded, fieldLines, List.flatMap_cons]
    induction ps generalizing p with
    | nil => simp
    | cons q qs ih =>
      rw [List.intercalate_cons_of_ne_nil (List.cons_ne_nil _ _), List.append_assoc, ih q]
      simp

theorem mem_fieldLines {f : Field} {c : Nat} (hc : c ≠ 32) (hf : ∀ p ∈ f, c ∉ p) : ∀ l ∈ fieldLines f, c ∉ l := by
  cases f with
  | nil => simp [fieldLines]
  | cons p ps =>
    refine List.forall_mem_cons.2 ⟨hf p List.mem_cons_self, fun l hl => ?_⟩
    obtain ⟨q, hq, rfl⟩ := List.mem_map.1 hl
    rw [List.mem_cons, not_or]
    exact ⟨hc, hf q (List.mem_cons_of_mem _ hq)⟩

/-- The lines of a report. -/
def reportLines (first : List Field) (rest : List (List Field)) : List Text :=
  first.flatMap fieldLines ++ rest.flatMap fun g => [] :: g.flatMap fieldLines

theorem groupText_eq (g : List Field) : groupText g = (g.flatMap fieldLines).flatMap (· ++ [13, 10]) := by
  rw [groupText, List.flatMap_assoc]
  exact List.flatMap_congr fun f _ => fieldText_eq f

theorem lines_reportText {first : List Field} {rest : List (List Field)} (hok : ∀ g ∈ first :: rest, ∀ f ∈ g, FieldOk f) :
    lines (reportText first rest) = reportLines first rest ++ [[]] := by
  have hgroup : ∀ g ∈ first :: rest, ∀ l ∈ g.flatMap fieldLines, 13 ∉ l := by
    intro g hg l hl
    obtain ⟨f, hf, hl⟩ := List.mem_flatMap.1 hl
    exact mem_fieldLines (by decide) (hok g hg f hf).pieces l hl
  have htext : reportText first rest = (reportLines first rest).flatMap (· ++ [13, 10]) ++ [] := by
    rw [reportText, reportLines, List.append_nil, List.flatMap_append, groupText_eq]
    congr 1
    rw [List.flatMap_assoc]
    refine List.flatMap_congr fun g _ => ?_
    rw [groupText_eq]
    rfl
  rw [htext, lines_flatMap]
  · rfl
  · intro l hl
    obtain hl | hl := List.mem_append.1 hl
    · exact hgroup first List.mem_cons_self l hl
    · obtain ⟨g, hg, hl⟩ := List.mem_flatMap.1 hl
      obtain hl | hl := List.mem_cons.1 hl
      · rw [hl]
        exact List.not_mem_nil
      · exact hgroup g (List.mem_cons_of_mem _ hg) l hl

/-! ## Unfolding -/

/-- No white space is next. -/
def NoSpaceNext (t : Text) : Prop := ∀ c ∈ t.head?, c ≠ 32 ∧ c ≠ 9

theorem unfold_cons {c : Nat} (hc : c ≠ 13) (t : Text) : unfold (c :: t) = c :: unfold t := by
  rw [unfold]
  · exact fun _ h _ => hc h
  · exact fun _ h _ => hc h

theorem unfold_append {l : Text} (hl : 13 ∉ l) (t : Text) : unfold (l ++ t) = l ++ unfold t := by
  induction l with
  | nil => rfl
  | cons c l ih =>
    rw [List.mem_cons, not_or] at hl
    rw [List.cons_append, unfold_cons (Ne.symm hl.1), ih hl.2]
    rfl

theorem unfold_lineEnd {t : Text} (ht : NoSpaceNext t) : unfold (13 :: 10 :: t) = 13 :: 10 :: unfold t := by
  rw [unfold]
  · rw [unfold_cons (by decide)]
  · rintro rest _ h
    obtain ⟨_, h⟩ := List.cons_eq_cons.1 h
    exact (ht 32 (by rw [h]; rfl)).1 rfl
  · rintro rest _ h
    obtain ⟨_, h⟩ := List.cons_eq_cons.1 h
    exact (ht 9 (by rw [h]; rfl)).2 rfl

theorem unfold_fieldText {f : Field} (hf : ∀ p ∈ f, 13 ∉ p) {t : Text} (ht : NoSpaceNext t) :
    unfold (fieldText f ++ t) = unfolded f ++ 13 :: 10 :: unfold t := by
  induction f with
  | nil => exact unfold_lineEnd ht
  | cons p ps ih =>
    have hp := hf p List.mem_cons_self
    by_cases hps : ps = []
    · have hs : fieldText [p] ++ t = p ++ 13 :: 10 :: t := by simp [fieldText, folded]
      rw [hps, hs, unfold_append hp, unfold_lineEnd ht]
      simp [unfolded]
    · have hs : fieldText (p :: ps) ++ t = p ++ 13 :: 10 :: 32 :: (fieldText ps ++ t) := by
        rw [fieldText, folded, List.intercalate_cons_of_ne_nil hps]
        simp [fieldText, folded]
      rw [hs, unfold_append hp, unfold, ih fun q hq => hf q (List.mem_cons_of_mem _ hq), unfolded, unfolded,
        List.intercalate_cons_of_ne_nil hps]
      simp

theorem noSpaceNext_fieldText {f : Field} (hf : FieldOk f) (t : Text) : NoSpaceNext (fieldText f ++ t) := by
  obtain ⟨c, hc, hne⟩ := hf.head
  cases f with
  | nil => cases hc
  | cons p ps =>
    cases p with
    | nil => cases hc
    | cons d p =>
      cases hc
      intro e he
      have hhead : (fieldText ((c :: p) :: ps) ++ t).head? = some c := by
        rw [fieldText, folded]
        cases ps with
        | nil => rfl
        | cons q qs =>
          rw [List.intercalate_cons_of_ne_nil (List.cons_ne_nil _ _)]
          rfl
      rw [hhead] at he
      cases he
      exact hne

theorem unfold_groupText {g : List Field} (hg : ∀ f ∈ g, FieldOk f) {t : Text} (ht : NoSpaceNext t) :
    unfold (groupText g ++ t) = (g.map unfolded).flatMap (· ++ [13, 10]) ++ unfold t := by
  induction g with
  | nil => rfl
  | cons f g ih =>
    have hrest := fun f' hf' => hg f' (List.mem_cons_of_mem _ hf')
    have hnext : NoSpaceNext (groupText g ++ t) := by
      cases g with
      | nil => exact ht
      | cons f' g =>
        rw [groupText, List.flatMap_cons, List.append_assoc]
        exact noSpaceNext_fieldText (hrest f' List.mem_cons_self) _
    rw [groupText, List.flatMap_cons, List.append_assoc, ← groupText,
      unfold_fieldText (hg f List.mem_cons_self).pieces hnext, ih hrest]
    simp

theorem unfold_reportText {first : List Field} {rest : List (List Field)} (hok : ∀ g ∈ first :: rest, ∀ f ∈ g, FieldOk f)
    (hne : ∀ g ∈ rest, g ≠ []) :
    unfold (reportText first rest) =
      ([[]].intercalate ((first :: rest).map (List.map unfolded))).flatMap (· ++ [13, 10]) := by
  have hrest : unfold (rest.flatMap fun g => 13 :: 10 :: groupText g) =
      (rest.flatMap fun g => [] :: g.map unfolded).flatMap (· ++ [13, 10]) := by
    induction rest with
    | nil => rfl
    | cons g rest ih =>
      have hnext : NoSpaceNext (rest.flatMap fun g => 13 :: 10 :: groupText g) := by
        cases rest with
        | nil => exact fun c hc => (by cases hc)
        | cons g' rest =>
          intro c hc
          cases hc
          decide
      have hg := hok g (by simp)
      have hbegin : NoSpaceNext (groupText g ++ rest.flatMap fun g => 13 :: 10 :: groupText g) := by
        obtain ⟨f, fs, rfl⟩ := List.exists_cons_of_ne_nil (hne g List.mem_cons_self)
        rw [groupText, List.flatMap_cons, List.append_assoc]
        exact noSpaceNext_fieldText (hg f List.mem_cons_self) _
      rw [List.flatMap_cons, List.cons_append, List.cons_append, unfold_lineEnd hbegin, unfold_groupText hg hnext, ih]
      · simp
      · intro g' hg' f hf
        refine hok g' ?_ f hf
        obtain rfl | hg' := List.mem_cons.1 hg'
        · exact List.mem_cons_self
        · exact List.mem_cons_of_mem _ (List.mem_cons_of_mem _ hg')
      · exact fun g' hg' => hne g' (List.mem_cons_of_mem _ hg')
  have hnext : NoSpaceNext (rest.flatMap fun g => 13 :: 10 :: groupText g) := by
    cases rest with
    | nil => exact fun c hc => (by cases hc)
    | cons g' rest =>
      intro c hc
      cases hc
      decide
  rw [reportText, unfold_groupText (hok first List.mem_cons_self) hnext, hrest, List.map_cons, Separated.intercalate_cons,
    List.flatMap_append, List.flatMap_map (List.map unfolded)]

/-- A report is read back as its groups of fields. -/
theorem readGroups_reportText {first : List Field} {rest : List (List Field)} (hok : ∀ g ∈ first :: rest, ∀ f ∈ g, FieldOk f)
    (hne : ∀ g ∈ rest, g ≠ []) :
    readGroups (reportText first rest) = (first :: rest).map (List.map unfolded) := by
  have hfield : ∀ g ∈ first :: rest, ∀ f ∈ g, 13 ∉ unfolded f ∧ unfolded f ≠ [] := by
    intro g hg f hf
    have hfok := hok g hg f hf
    constructor
    · intro hmem
      cases f with
      | nil => cases hmem
      | cons p ps =>
        rw [unfolded, Separated.intercalate_cons, List.mem_append, List.mem_flatMap] at hmem
        obtain hmem | ⟨q, hq, hmem⟩ := hmem
        · exact hfok.pieces p List.mem_cons_self hmem
        · obtain h | hmem := List.mem_cons.1 hmem
          · exact absurd h (by decide)
          · exact hfok.pieces q (List.mem_cons_of_mem _ hq) hmem
    · obtain ⟨c, hc, _⟩ := hfok.head
      cases f with
      | nil => cases hc
      | cons p ps =>
        cases p with
        | nil => cases hc
        | cons d p =>
          rw [unfolded, Separated.intercalate_cons]
          exact List.cons_ne_nil _ _
  have hlines : lines (unfold (reportText first rest)) = [[]].intercalate ((first :: rest).map (List.map unfolded)) ++ [[]] := by
    rw [unfold_reportText hok hne, ← List.append_nil (List.flatMap _ _), lines_flatMap]
    · rfl
    · intro l hl
      rw [List.map_cons, Separated.intercalate_cons, List.mem_append, List.mem_flatMap] at hl
      have hgroup : ∀ g ∈ first :: rest, ∀ l ∈ g.map unfolded, 13 ∉ l := by
        intro g hg l hl
        obtain ⟨f, hf, rfl⟩ := List.mem_map.1 hl
        exact (hfield g hg f hf).1
      obtain hl | ⟨us, hus, hl⟩ := hl
      · exact hgroup first List.mem_cons_self l hl
      · obtain ⟨g, hg, rfl⟩ := List.mem_map.1 hus
        obtain rfl | hl := List.mem_cons.1 hl
        · exact List.not_mem_nil
        · exact hgroup g (List.mem_cons_of_mem _ hg) l hl
  rw [readGroups, hlines, List.dropLast_concat]
  refine List.splitOn_intercalate [] ?_ (by simp)
  intro us hus hmem
  obtain ⟨g, hg, rfl⟩ := List.mem_map.1 hus
  obtain ⟨f, hf, heq⟩ := List.mem_map.1 hmem
  exact (hfield g hg f hf).2 heq

end FoldedFields
