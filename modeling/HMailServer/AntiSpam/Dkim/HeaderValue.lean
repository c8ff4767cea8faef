import HMailServer.AntiSpam.Dkim.HeaderAgreement

/- The value of a relaxed field goes through two unfoldings, that of the MIME
   parser and that of `CanonicalizeHeaderValue`. It is the reduced value of the
   RFC exactly if it is plain. -/
namespace HMailServer.Dkim
open AnsiString MimeHeader

/-! ## What collapses alike -/

/-- Whether the text ends in white space, if the one in front of it does. -/
def endsBlank : Bool → AnsiString → Bool
  | p, [] => p
  | _, c :: s => endsBlank (isWsp c) s

theorem collapseFrom_append (p : Bool) (a s : AnsiString) :
    collapseFrom p (a ++ s) = collapseFrom p a ++ collapseFrom (endsBlank p a) s := by
  induction a generalizing p with
  | nil => rfl
  | cons c a ih =>
    rw [List.cons_append, collapseFrom, collapseFrom, endsBlank]
    by_cases h : c = 32 ∨ c = 9
    · rw [if_pos h, if_pos h, ih, (isWsp_iff c).2 h, List.append_assoc]
    · have hw : isWsp c = false := by
        rw [Bool.eq_false_iff]
        exact fun hw => h ((isWsp_iff c).1 hw)
      rw [if_neg h, if_neg h, ih, hw, List.cons_append]

theorem endsBlank_append (p : Bool) (a s : AnsiString) : endsBlank p (a ++ s) = endsBlank (endsBlank p a) s := by
  induction a generalizing p with
  | nil => rfl
  | cons c a ih => exact ih _

/-- Both texts collapse to the same, whatever stands around them. -/
def Alike (a s : AnsiString) : Prop := ∀ p, collapseFrom p a = collapseFrom p s ∧ endsBlank p a = endsBlank p s

theorem alike_refl (a : AnsiString) : Alike a a := fun _ => ⟨rfl, rfl⟩

theorem Alike.symm {a s : AnsiString} (h : Alike a s) : Alike s a := fun p => ⟨(h p).1.symm, (h p).2.symm⟩

theorem Alike.trans {a s t : AnsiString} (h : Alike a s) (h' : Alike s t) : Alike a t :=
  fun p => ⟨(h p).1.trans (h' p).1, (h p).2.trans (h' p).2⟩

theorem Alike.append {a s a' s' : AnsiString} (h : Alike a s) (h' : Alike a' s') : Alike (a ++ a') (s ++ s') := by
  intro p
  rw [collapseFrom_append, collapseFrom_append, endsBlank_append, endsBlank_append, (h p).1, (h p).2, (h' _).1, (h' _).2]
  exact ⟨rfl, rfl⟩

theorem alike_blank {w : AnsiString} (h : ∀ c ∈ w, isWsp c = true) (hne : w ≠ []) : Alike w [32] := by
  induction w with
  | nil => exact absurd rfl hne
  | cons c w ih =>
    have hc : c = 32 ∨ c = 9 := (isWsp_iff c).1 (h c List.mem_cons_self)
    have hcons : Alike [c] [32] := by
      intro p
      rw [collapseFrom, if_pos hc, endsBlank, h c List.mem_cons_self]
      exact ⟨rfl, rfl⟩
    cases w with
    | nil => exact hcons
    | cons d w =>
      have hrest := ih (fun e he => h e (List.mem_cons_of_mem _ he)) (List.cons_ne_nil _ _)
      have htwo : Alike [32, 32] [32] := fun p => by cases p <;> exact ⟨rfl, rfl⟩
      exact (hcons.append hrest).trans htwo

theorem Alike.reduceLine {a s : AnsiString} (h : Alike a s) : reduceLine a = reduceLine s := by
  rw [← collapse_rdropWhile, ← collapse_rdropWhile, collapseWhitespaceRuns, collapseWhitespaceRuns, (h false).1]

/-! ## Unfolding -/

/-- A line without line ends. -/
def Plain (l : AnsiString) : Prop := ∀ c ∈ l, c ≠ 13 ∧ c ≠ 10

theorem unfoldFrom_line {l : AnsiString} (h : Plain l) (s : AnsiString) :
    unfoldFrom false (l ++ s) = l ++ unfoldFrom false s := by
  induction l with
  | nil => rfl
  | cons c l ih =>
    obtain ⟨h13, h10⟩ := h c List.mem_cons_self
    have hrest := ih fun d hd => h d (List.mem_cons_of_mem _ hd)
    rw [List.cons_append, unfoldFrom, if_neg (by simp [h13, h10]), Bool.and_false, if_neg Bool.false_ne_true, hrest,
      List.cons_append]

/-- Behind a line end the white space is passed. -/
theorem unfoldFrom_folded {l : AnsiString} (h : Plain l) (s : AnsiString) :
    unfoldFrom true (l ++ s) = l.dropWhile isSpace ++ unfoldFrom (l.dropWhile isSpace == []) s := by
  induction l with
  | nil => rfl
  | cons c l ih =>
    obtain ⟨h13, h10⟩ := h c List.mem_cons_self
    have hplain : Plain l := fun d hd => h d (List.mem_cons_of_mem _ hd)
    rw [List.cons_append, unfoldFrom, if_neg (by simp [h13, h10]), Bool.and_true, List.dropWhile_cons]
    cases hc : isSpace c with
    | true =>
      rw [if_pos rfl, if_pos rfl]
      exact ih hplain
    | false =>
      rw [if_neg Bool.false_ne_true, if_neg Bool.false_ne_true, unfoldFrom_line hplain]
      rfl

theorem unfoldFrom_crlf (p : Bool) (s : AnsiString) :
    unfoldFrom p (crlf ++ s) = (if p then [] else [32]) ++ unfoldFrom true s := by
  cases p <;> simp [crlf, unfoldFrom]

/-- Continuation lines, each with a space for its line end and white space. -/
def unfoldedLines (conts : List AnsiString) : AnsiString := conts.flatMap fun c => 32 :: c.dropWhile isSpace

theorem alike_unfold {conts : List AnsiString} (h : ∀ l ∈ conts, Plain l) :
    Alike (unfoldFrom false (conts.flatMap (crlf ++ ·))) (unfoldedLines conts) ∧
    Alike (32 :: unfoldFrom true (conts.flatMap (crlf ++ ·))) (32 :: unfoldedLines conts) := by
  induction conts with
  | nil => exact ⟨alike_refl _, alike_refl _⟩
  | cons l conts ih =>
    obtain ⟨ihFalse, ihTrue⟩ := ih fun m hm => h m (List.mem_cons_of_mem _ hm)
    have hl := unfoldFrom_folded (h l List.mem_cons_self) (conts.flatMap (crlf ++ ·))
    have hfolded : Alike (32 :: unfoldFrom true (l ++ conts.flatMap (crlf ++ ·))) (unfoldedLines (l :: conts)) := by
      rw [hl, unfoldedLines, List.flatMap_cons, ← unfoldedLines]
      cases hd : l.dropWhile isSpace with
      | nil => exact ihTrue
      | cons d more => exact (alike_refl (32 :: d :: more)).append ihFalse
    have htwo : Alike [32] [32, 32] := fun p => by cases p <;> exact ⟨rfl, rfl⟩
    rw [List.flatMap_cons, List.append_assoc, unfoldFrom_crlf, unfoldFrom_crlf]
    refine ⟨hfolded, hfolded.trans ?_⟩
    rw [unfoldedLines, List.flatMap_cons]
    exact htwo.append (alike_refl _)

theorem unfoldFrom_chars (p : Bool) (s : AnsiString) : ∀ c ∈ unfoldFrom p s, c ≠ 13 ∧ c ≠ 10 := by
  induction s generalizing p with
  | nil => exact fun c hc => absurd hc List.not_mem_nil
  | cons d s ih =>
    intro c hc
    rw [unfoldFrom] at hc
    split at hc
    · rcases List.mem_append.1 hc with hc | hc
      · cases p with
        | true => cases hc
        | false =>
          rw [List.mem_singleton.1 hc]
          decide
      · exact ih true c hc
    · rename_i hd
      split at hc
      · exact ih p c hc
      · rcases List.mem_cons.1 hc with rfl | hc
        · exact not_or.1 hd
        · exact ih false c hc

/-! ## The value -/

theorem unfoldFrom_subset (p : Bool) (s : AnsiString) : ∀ c ∈ unfoldFrom p s, c = 32 ∨ c ∈ s := by
  induction s generalizing p with
  | nil => exact fun c hc => absurd hc List.not_mem_nil
  | cons d s ih =>
    have hrest : ∀ p, ∀ c ∈ unfoldFrom p s, c = 32 ∨ c ∈ d :: s := fun p c hc =>
      (ih p c hc).imp_right (List.mem_cons_of_mem _)
    intro c hc
    rw [unfoldFrom] at hc
    split at hc
    · rcases List.mem_append.1 hc with hc | hc
      · cases p with
        | true => cases hc
        | false => exact .inl (List.mem_singleton.1 hc)
      · exact hrest true c hc
    · split at hc
      · exact hrest p c hc
      · rcases List.mem_cons.1 hc with rfl | hc
        · exact .inr List.mem_cons_self
        · exact hrest false c hc

theorem canonicalizeHeaderValue_of_notMem {s : AnsiString} (h : (13 : UInt8) ∉ s) :
    canonicalizeHeaderValue s = trim (reduceLine s) := by
  rw [canonicalizeHeaderValue, ← collapse_rdropWhile]
  have hspace : replaceFrom (ansi "\r\n ") (ansi " ") 0 s = s := replaceFrom_of_notMem h
  have htab : replaceFrom (ansi "\r\n\t") (ansi " ") 0 s = s := replaceFrom_of_notMem h
  rw [hspace, htab]
  rfl

/-- The value that the relaxed canonicalization writes. -/
def HeaderField.codeValue (f : HeaderField) : AnsiString :=
  cstr (canonicalizeHeaderValue (if cstr f.loaded.value = [] then crlf else cstr f.loaded.value))

theorem cstr_subset (s : AnsiString) : cstr s ⊆ s := (List.takeWhile_prefix _).subset

theorem cstr_ne_zero {s : AnsiString} : ∀ c ∈ cstr s, c ≠ 0 := by
  intro c hc
  have hne : (c != 0) = true := List.mem_takeWhile_imp (p := fun c : UInt8 => c != 0) hc
  exact bne_iff_ne.1 hne

theorem reduceLine_ne_zero {s : AnsiString} (h : ∀ c ∈ s, c ≠ 0) : ∀ c ∈ reduceLine s, c ≠ 0 := by
  rintro c hc rfl
  exact h 0 ((mem_reduceLine (by rfl) s).1 hc) rfl

theorem codeValue_eq (f : HeaderField) : f.codeValue = trim (reduceLine (cstr f.loaded.value)) := by
  have hcr : (13 : UInt8) ∉ cstr f.loaded.value := fun hc => (unfoldFrom_chars _ _ 13 (cstr_subset _ hc)).1 rfl
  have htrim : ∀ c ∈ trim (reduceLine (cstr f.loaded.value)), c ≠ 0 := fun c hc =>
    reduceLine_ne_zero cstr_ne_zero c (trim_subset _ hc)
  rw [HeaderField.codeValue]
  split
  · rename_i hnil
    rw [hnil]
    decide
  · rw [canonicalizeHeaderValue_of_notMem hcr, cstr_eq htrim]

theorem dropWhile_reduceLine (s : AnsiString) : (reduceLine s).dropWhile isWsp = reduceLine (s.dropWhile isWsp) := by
  cases s with
  | nil => rfl
  | cons c s =>
    cases hc : isWsp c with
    | false =>
      rw [reduceLine_char hc, List.dropWhile_cons_of_neg (by simp [hc]), List.dropWhile_cons_of_neg (by simp [hc]),
        reduceLine_char hc]
    | true =>
      rw [List.dropWhile_cons_of_pos hc]
      cases hd : s.dropWhile isWsp with
      | nil =>
        rw [reduceLine_blank hc hd]
        rfl
      | cons d more =>
        have hdw : isWsp d = false := by
          have hnot := List.head?_dropWhile_not isWsp s
          rw [hd] at hnot
          exact hnot
        rw [reduceLine_gap hc hd, reduceLine_char hdw, List.dropWhile_cons_of_pos (by rfl),
          List.dropWhile_cons_of_neg (by simp [hdw])]

/-- The first line without the white space in front of it. -/
theorem relaxedValue_eq (f : HeaderField) :
    f.relaxedValue = (reduceLine (f.first.dropWhile isWsp ++ f.continuation.flatten)).dropWhile isWsp := by
  have hwsp : ∀ c ∈ f.first.takeWhile isWsp, isWsp c = true := fun c hc => List.mem_takeWhile_imp hc
  have hsplit : f.unfolded = f.first.takeWhile isWsp ++ (f.first.dropWhile isWsp ++ f.continuation.flatten) := by
    rw [← List.append_assoc, List.takeWhile_append_dropWhile]
    rfl
  rw [HeaderField.relaxedValue, dropWhile_reduceLine, dropWhile_reduceLine, hsplit, List.dropWhile_append_of_pos hwsp]

theorem trim_dropWhile (s : AnsiString) : trim (s.dropWhile isWsp) = trim s := by
  have hpad := trim_pad (l := s.takeWhile isWsp) (r := []) (s.dropWhile isWsp)
    (fun c hc => isSpace_of_isWsp (List.mem_takeWhile_imp hc)) (fun c hc => absurd hc List.not_mem_nil)
  rw [List.append_nil, List.takeWhile_append_dropWhile] at hpad
  exact hpad.symm

namespace HeaderField
variable {f : HeaderField}

/-- Without bare line ends the parser's value collapses like the first line and
    the continuation lines, each with one space for its white space. -/
theorem alike_loaded (h : ∀ c ∈ f.unfolded, c ≠ 13 ∧ c ≠ 10) :
    Alike f.loaded.value (f.first.dropWhile isWsp ++ unfoldedLines f.continuation) := by
  have hfirst : Plain (f.first.dropWhile isWsp) := fun c hc =>
    h c (List.mem_append_left _ ((List.dropWhile_suffix _).subset hc))
  have hconts : ∀ l ∈ f.continuation, Plain l := fun l hl c hc =>
    h c (List.mem_append_right _ (List.mem_flatten_of_mem hl hc))
  have hvalue : f.loaded.value =
      f.first.dropWhile isWsp ++ unfoldFrom false (f.continuation.flatMap (crlf ++ ·)) := unfoldFrom_line hfirst _
  rw [hvalue]
  exact (alike_refl _).append (alike_unfold hconts).1

theorem loaded_ne_zero (h : ∀ c ∈ f.unfolded, c ≠ 0) : ∀ c ∈ f.loaded.value, c ≠ 0 := by
  rintro c hc rfl
  rcases unfoldFrom_subset _ _ 0 hc with hc | hc
  · cases hc
  · rcases List.mem_append.1 hc with hc | hc
    · exact h 0 (List.mem_append_left _ ((List.dropWhile_suffix _).subset hc)) rfl
    · obtain ⟨l, hl, hcl⟩ := List.mem_flatMap.1 hc
      rcases List.mem_append.1 hcl with hcl | hcl
      · exact absurd hcl (by decide)
      · exact h 0 (List.mem_append_right _ (List.mem_flatten_of_mem hl hcl)) rfl

theorem codeValue_of_chars (h : ∀ c ∈ f.unfolded, c ≠ 0 ∧ c ≠ 13 ∧ c ≠ 10) :
    f.codeValue = trim (reduceLine (f.first.dropWhile isWsp ++ unfoldedLines f.continuation)) := by
  rw [codeValue_eq, cstr_eq (loaded_ne_zero fun c hc => (h c hc).1), (alike_loaded fun c hc => (h c hc).2).reduceLine]

end HeaderField

/-- A continuation line whose white space is SP and HTAB only. -/
theorem alike_continuation {l : AnsiString} (hwsp : ∃ c, l.head? = some c ∧ isWsp c = true)
    (h : ∀ c, (l.dropWhile isWsp).head? = some c → isSpace c = false) : Alike (32 :: l.dropWhile isSpace) l := by
  obtain ⟨c, hhead, hc⟩ := hwsp
  obtain ⟨rest, rfl⟩ := List.head?_eq_some_iff.1 hhead
  have hrun : ∀ d ∈ (c :: rest).takeWhile isWsp, isWsp d = true := fun d hd => List.mem_takeWhile_imp hd
  have hne : (c :: rest).takeWhile isWsp ≠ [] := by
    rw [List.takeWhile_cons_of_pos hc]
    exact List.cons_ne_nil _ _
  have hstop : ((c :: rest).dropWhile isWsp).dropWhile isSpace = (c :: rest).dropWhile isWsp := by
    cases hd : (c :: rest).dropWhile isWsp with
    | nil => rfl
    | cons d more => rw [List.dropWhile_cons_of_neg (by simp [h d (by rw [hd]; rfl)])]
  have hdrop : (c :: rest).dropWhile isSpace = (c :: rest).dropWhile isWsp := by
    have hsplit : c :: rest = (c :: rest).takeWhile isWsp ++ (c :: rest).dropWhile isWsp :=
      List.takeWhile_append_dropWhile.symm
    rw [hsplit, List.dropWhile_append_of_pos fun d hd => isSpace_of_isWsp (hrun d hd), ← hsplit, hstop]
  have halike := (alike_blank hrun hne).symm.append (alike_refl ((c :: rest).dropWhile isWsp))
  rw [List.takeWhile_append_dropWhile] at halike
  rw [hdrop]
  exact halike

theorem alike_continuations {conts : List AnsiString} (h : ∀ l ∈ conts, Alike (32 :: l.dropWhile isSpace) l) :
    Alike (unfoldedLines conts) conts.flatten := by
  induction conts with
  | nil => exact alike_refl _
  | cons l conts ih =>
    obtain ⟨hl, hrest⟩ := List.forall_mem_cons.1 h
    rw [unfoldedLines, List.flatMap_cons, List.flatten_cons]
    exact hl.append (ih hrest)

theorem codeValue_of_plain {f : HeaderField} (hf : f.WellFormed) (h : f.PlainValue) : f.codeValue = f.relaxedValue := by
  have hlines : Alike (unfoldedLines f.continuation) f.continuation.flatten :=
    alike_continuations fun l hl => alike_continuation (hf.continuation l hl).2 (h.continuation l hl)
  have htrim : trim f.relaxedValue = f.relaxedValue := trim_eq_self.2 ⟨h.first, h.last⟩
  rw [HeaderField.codeValue_of_chars h.chars, ((alike_refl _).append hlines).reduceLine, ← trim_dropWhile,
    ← relaxedValue_eq, htrim]

/-! ## What the code loses of a value -/

theorem countP_dropWhile {p : UInt8 → Bool} (hp : ∀ c, isWsp c = true → p c = false) (s : AnsiString) :
    (s.dropWhile isWsp).countP p = s.countP p := by
  have hzero : (s.takeWhile isWsp).countP p = 0 := by
    rw [List.countP_eq_zero]
    intro c hc
    simp [hp c (List.mem_takeWhile_imp hc)]
  have hsplit := congrArg (List.countP p) (List.takeWhile_append_dropWhile (p := isWsp) (l := s))
  rw [List.countP_append, hzero, Nat.zero_add] at hsplit
  exact hsplit

theorem countP_reduceLine {p : UInt8 → Bool} (hp : ∀ c, isWsp c = true → p c = false) (s : AnsiString) :
    (reduceLine s).countP p = s.countP p := by
  induction s using wsp_induction with
  | nil => rfl
  | char c rest hc ih => rw [reduceLine_char hc, List.countP_cons, List.countP_cons, ih]
  | blank c rest hc hd =>
    have hzero : (c :: rest).countP p = 0 := by
      rw [List.countP_eq_zero]
      intro d hd'
      have hdw : isWsp d = true := by
        rcases List.mem_cons.1 hd' with rfl | hd'
        · exact hc
        · exact List.dropWhile_eq_nil_iff.1 hd d hd'
      simp [hp d hdw]
    rw [reduceLine_blank hc hd, hzero]
    rfl
  | gap c rest d more hc hd hdw ih =>
    have hrest : rest.countP p = (d :: more).countP p := by
      rw [← hd]
      exact (countP_dropWhile hp rest).symm
    rw [reduceLine_gap hc hd, List.countP_cons_of_neg (by simp [hp 32 rfl]), ih, ← hrest]
    exact (List.countP_cons_of_neg (by simp [hp c hc])).symm

/-- Vertical tabs and form feeds, which only the code takes for white space. -/
def isOtherSpace (c : UInt8) : Bool := isSpace c && !isWsp c

theorem isOtherSpace_of_isWsp (c : UInt8) (h : isWsp c = true) : isOtherSpace c = false := by
  rw [isOtherSpace, h, Bool.not_true, Bool.and_false]

theorem countP_dropWhile_isSpace (s : AnsiString) : (s.dropWhile isSpace).countP isOtherSpace ≤ s.countP isOtherSpace :=
  (List.dropWhile_sublist _).countP_le

/-- Nothing is lost at the start of a continuation line exactly if its white
    space is SP and HTAB only. -/
theorem continuation_of_countP {l : AnsiString} (h : (l.dropWhile isSpace).countP isOtherSpace = l.countP isOtherSpace) :
    ∀ c, (l.dropWhile isWsp).head? = some c → isSpace c = false := by
  intro c hhead
  obtain ⟨rest, hrest⟩ := List.head?_eq_some_iff.1 hhead
  rw [Bool.eq_false_iff]
  intro hspace
  have hc : isWsp c = false := by
    have hnot := List.head?_dropWhile_not isWsp l
    rw [hhead] at hnot
    exact hnot
  have hother : isOtherSpace c = true := by rw [isOtherSpace, hspace, hc]; rfl
  have hsplit : l = l.takeWhile isWsp ++ c :: rest := by rw [← hrest, List.takeWhile_append_dropWhile]
  have hdrop : l.dropWhile isSpace = rest.dropWhile isSpace := by
    rw [hsplit, List.dropWhile_append_of_pos fun d hd => isSpace_of_isWsp (List.mem_takeWhile_imp hd),
      List.dropWhile_cons_of_pos hspace]
  have hcount : l.countP isOtherSpace = rest.countP isOtherSpace + 1 := by
    rw [← countP_dropWhile isOtherSpace_of_isWsp l, hrest, List.countP_cons_of_pos hother]
  have hle := countP_dropWhile_isSpace rest
  rw [hdrop] at h
  omega

theorem countP_unfoldedLines (conts : List AnsiString) :
    (unfoldedLines conts).countP isOtherSpace ≤ conts.flatten.countP isOtherSpace ∧
    ((unfoldedLines conts).countP isOtherSpace = conts.flatten.countP isOtherSpace →
      ∀ l ∈ conts, (l.dropWhile isSpace).countP isOtherSpace = l.countP isOtherSpace) := by
  induction conts with
  | nil => exact ⟨Nat.le_refl _, fun _ l hl => absurd hl List.not_mem_nil⟩
  | cons l conts ih =>
    obtain ⟨hle, heq⟩ := ih
    have hcons : (unfoldedLines (l :: conts)).countP isOtherSpace =
        (l.dropWhile isSpace).countP isOtherSpace + (unfoldedLines conts).countP isOtherSpace := by
      rw [unfoldedLines, List.flatMap_cons, List.countP_append, List.countP_cons_of_neg (by decide)]
      rfl
    have hl := countP_dropWhile_isSpace l
    rw [hcons, List.flatten_cons, List.countP_append]
    refine ⟨by omega, fun h => List.forall_mem_cons.2 ⟨by omega, heq (by omega)⟩⟩

theorem codeValue_chars (f : HeaderField) : ∀ c ∈ f.codeValue, c ≠ 0 ∧ c ≠ 13 ∧ c ≠ 10 := by
  intro c hc
  rw [codeValue_eq] at hc
  have hreduced := trim_subset _ hc
  have hvalue : isWsp c = false → c ∈ cstr f.loaded.value := fun hw => (mem_reduceLine hw _).1 hreduced
  refine ⟨?_, ?_, ?_⟩
  · exact reduceLine_ne_zero cstr_ne_zero c hreduced
  · rintro rfl
    exact (unfoldFrom_chars _ _ 13 (cstr_subset _ (hvalue rfl))).1 rfl
  · rintro rfl
    exact (unfoldFrom_chars _ _ 10 (cstr_subset _ (hvalue rfl))).2 rfl

theorem mem_relaxedValue {f : HeaderField} {c : UInt8} (hc : isWsp c = false) (h : c ∈ f.unfolded) : c ∈ f.relaxedValue := by
  have hreduced := (mem_reduceLine hc f.unfolded).2 h
  rw [← List.takeWhile_append_dropWhile (p := isWsp) (l := reduceLine f.unfolded), List.mem_append] at hreduced
  rcases hreduced with hrun | hrest
  · rw [List.mem_takeWhile_imp hrun] at hc
    cases hc
  · exact hrest

/-- The code writes the value of the RFC exactly if the value is plain. -/
theorem codeValue_eq_iff {f : HeaderField} (hf : f.WellFormed) : f.codeValue = f.relaxedValue ↔ f.PlainValue := by
  refine ⟨fun h => ?_, codeValue_of_plain hf⟩
  have hchars : ∀ c ∈ f.unfolded, c ≠ 0 ∧ c ≠ 13 ∧ c ≠ 10 := by
    have hmem : ∀ c, isWsp c = false → c ∈ f.unfolded → c ∈ f.codeValue := fun c hw hc => by
      rw [h]
      exact mem_relaxedValue hw hc
    intro c hc
    refine ⟨?_, ?_, ?_⟩
    · rintro rfl
      exact (codeValue_chars f 0 (hmem 0 rfl hc)).1 rfl
    · rintro rfl
      exact (codeValue_chars f 13 (hmem 13 rfl hc)).2.1 rfl
    · rintro rfl
      exact (codeValue_chars f 10 (hmem 10 rfl hc)).2.2 rfl
  have hvalue := HeaderField.codeValue_of_chars hchars
  have htrimmed : f.relaxedValue = trim (reduceLine (f.first.dropWhile isWsp ++ unfoldedLines f.continuation)) :=
    h.symm.trans hvalue
  have hlost : (trim (reduceLine (f.first.dropWhile isWsp ++ unfoldedLines f.continuation))).countP isOtherSpace ≤
      (f.first.dropWhile isWsp ++ unfoldedLines f.continuation).countP isOtherSpace := by
    rw [← countP_reduceLine isOtherSpace_of_isWsp (f.first.dropWhile isWsp ++ unfoldedLines f.continuation)]
    exact ((List.rdropWhile_prefix _ _).sublist.trans (List.dropWhile_sublist _)).countP_le
  have hkept : f.relaxedValue.countP isOtherSpace =
      (f.first.dropWhile isWsp ++ f.continuation.flatten).countP isOtherSpace := by
    rw [relaxedValue_eq, countP_dropWhile isOtherSpace_of_isWsp, countP_reduceLine isOtherSpace_of_isWsp]
  obtain ⟨hle, heq⟩ := countP_unfoldedLines f.continuation
  rw [← htrimmed, hkept, List.countP_append, List.countP_append] at hlost
  constructor
  · exact hchars
  · exact fun l hl => continuation_of_countP (heq (by omega) l hl)
  · rw [htrimmed]
    exact trim_head
  · rw [htrimmed]
    exact trim_last

/-! ## The line -/

theorem canonicalizeHeaderName_of_isNamed {f : HeaderField} (hf : f.WellFormed) {n : AnsiString} (h : isNamed n f = true) :
    cstr (canonicalizeHeaderName (trim n)) = lower f.name := by
  have hname : lower (trim n) = lower f.name := by simpa [isNamed] using h
  have hchar : ∀ c ∈ lower f.name, isSpace c = false ∧ c ≠ 0 := by
    intro c hc
    obtain ⟨d, hd, rfl⟩ := List.mem_map.1 hc
    obtain ⟨hspace, h0, _⟩ := hf.nameChar d hd
    constructor
    · rw [Bool.eq_false_iff]
      intro hlower
      have hlt : (toLower d).toNat < 65 := by
        rw [isSpace, Bool.or_eq_true, beq_iff_eq, Bool.and_eq_true, decide_eq_true_eq, decide_eq_true_eq,
          UInt8.le_iff_toNat_le, UInt8.le_iff_toNat_le] at hlower
        rcases hlower with hlower | ⟨_, hlower⟩
        · rw [hlower]
          decide
        · have h13 : (13 : UInt8).toNat = 13 := rfl
          omega
      rw [← toLower_eq hlt rfl, hspace] at hlower
      cases hlower
    · exact fun hzero => h0 (toLower_eq (by decide) hzero)
  have hcstr : cstr (lower f.name) = lower f.name := cstr_eq fun c hc => (hchar c hc).2
  have htrim : trim (lower f.name) = lower f.name := by
    rw [trim_eq_self]
    exact ⟨fun c hc => (hchar c (List.mem_of_mem_head? hc)).1, fun c hc => (hchar c (List.mem_of_mem_getLast? hc)).1⟩
  rw [canonicalizeHeaderName, makeLower, hname, hcstr, htrim, hcstr]

theorem relaxedFieldLine_eq_iff {f : HeaderField} (hf : f.WellFormed) {n : AnsiString} (h : isNamed n f = true) :
    relaxedFieldLine n f.loaded = f.relaxedLine ↔ f.PlainValue := by
  have hname := canonicalizeHeaderName_of_isNamed hf h
  rw [relaxedFieldLine, HeaderField.relaxedLine, hname, ← HeaderField.codeValue, List.append_cancel_left_eq,
    List.cons.injEq, ← codeValue_eq_iff hf]
  exact and_iff_right rfl

theorem noLineEnd_relaxedFieldLine {f : HeaderField} (hf : f.WellFormed) {n : AnsiString} (h : isNamed n f = true) :
    NoLineEnd (relaxedFieldLine n f.loaded) := by
  rw [relaxedFieldLine, canonicalizeHeaderName_of_isNamed hf h, ← HeaderField.codeValue]
  apply noLineEnd_of_notMem
  rw [List.mem_append, List.mem_cons]
  rintro (hc | hc | hc)
  · obtain ⟨c, hc, hlower⟩ := List.mem_map.1 hc
    exact (hf.writtenChar c (List.mem_append_left _ hc)).2.2.1 (toLower_eq (by decide) hlower)
  · cases hc
  · exact (codeValue_chars f 13 hc).2.1 rfl

theorem noLineEnd_flatten {conts : List AnsiString}
    (h : ∀ l ∈ conts, NoLineEnd l ∧ ∃ c, l.head? = some c ∧ isWsp c = true) :
    NoLineEnd conts.flatten ∧ conts.flatten.head? ≠ some 10 := by
  induction conts with
  | nil => exact ⟨trivial, fun h => by cases h⟩
  | cons l conts ih =>
    obtain ⟨⟨hl, c, hhead, hc⟩, hrest⟩ := List.forall_mem_cons.1 h
    obtain ⟨hflat, hflathead⟩ := ih hrest
    rw [List.flatten_cons]
    refine ⟨hl.append hflat hflathead, ?_⟩
    rw [List.head?_append, hhead, Option.some_or]
    intro h
    rw [Option.some.inj h] at hc
    cases hc

theorem noLineEnd_unfolded {f : HeaderField} (hf : f.WellFormed) : NoLineEnd f.unfolded := by
  obtain ⟨hflat, hhead⟩ := noLineEnd_flatten hf.continuation
  exact hf.first.append hflat hhead

theorem noLineEnd_relaxedLine {f : HeaderField} (hf : f.WellFormed) : NoLineEnd f.relaxedLine := by
  have hvalue : NoLineEnd f.relaxedValue := by
    rw [HeaderField.relaxedValue, dropWhile_reduceLine]
    apply noLineEnd_reduceLine
    apply NoLineEnd.suffix (a := f.unfolded.takeWhile isWsp)
    rw [List.takeWhile_append_dropWhile]
    exact noLineEnd_unfolded hf
  have hname : NoLineEnd (lower f.name) := by
    apply noLineEnd_of_notMem
    intro hc
    obtain ⟨c, hc, hlower⟩ := List.mem_map.1 hc
    exact (hf.writtenChar c (List.mem_append_left _ hc)).2.2.1 (toLower_eq (by decide) hlower)
  apply hname.append
  · rw [noLineEnd_cons fun h => absurd h (by decide)]
    exact hvalue
  · exact fun h => absurd (Option.some.inj h) (by decide)

theorem linesText_inj {xs ys : List AnsiString} (hx : ∀ l ∈ xs, NoLineEnd l) (hy : ∀ l ∈ ys, NoLineEnd l) :
    linesText xs = linesText ys ↔ xs = ys := by
  refine ⟨fun h => ?_, fun h => by rw [h]⟩
  have hlines := congrArg bodyLines h
  rw [bodyLines_linesText hx, bodyLines_linesText hy] at hlines
  exact List.append_cancel_right hlines

/-! ## The header -/

/-- A name as it is written that ends in white space. -/
def endsInBlank (written : AnsiString) : Bool := written.getLast?.any isWsp

theorem endsInBlank_written {f : HeaderField} (hf : f.WellFormed) :
    endsInBlank (f.name ++ f.beforeColon) = (f.beforeColon != []) := by
  cases hb : f.beforeColon with
  | nil =>
    have hlast : isWsp (f.name.getLast hf.name_ne_nil) = false := by
      obtain ⟨hspace, _⟩ := hf.nameChar _ (List.getLast_mem hf.name_ne_nil)
      rw [Bool.eq_false_iff]
      intro hw
      rw [isSpace_of_isWsp hw] at hspace
      cases hspace
    rw [List.append_nil, endsInBlank, List.getLast?_eq_some_getLast hf.name_ne_nil, Option.any_some, hlast]
    rfl
  | cons c rest =>
    have hne : f.beforeColon ≠ [] := by rw [hb]; exact List.cons_ne_nil _ _
    have hlast := hf.beforeColon _ (List.getLast_mem hne)
    rw [← hb, endsInBlank, List.getLast?_append_of_ne_nil _ hne, List.getLast?_eq_some_getLast hne, Option.any_some, hlast, hb]
    rfl

/-- A field is found under its name if there is no white space in front of its
    colon. -/
def isFound (listed : AnsiString) (f : HeaderField) : Bool := isNamed listed f && !(f.beforeColon != [])

theorem simpleText_written {f : HeaderField} (hf : f.WellFormed) :
    f.simpleText.takeWhile (· != 58) = f.name ++ f.beforeColon := by
  have hno : ∀ c ∈ f.name ++ f.beforeColon, (c != 58) = true := fun c hc => bne_iff_ne.2 (hf.writtenChar c hc).2.1
  have htext : ∃ rest, f.simpleText = f.name ++ f.beforeColon ++ 58 :: rest := by
    rw [HeaderField.simpleText, HeaderField.lines, List.map_cons, cstr_written hf, linesText_cons, List.append_assoc,
      List.cons_append]
    exact ⟨_, rfl⟩
  obtain ⟨rest, hrest⟩ := htext
  rw [hrest]
  exact Scan.takeWhile_append hno (Scan.stops_cons (by decide))

theorem simpleText_noNul (f : HeaderField) : 0 ∉ f.simpleText := by
  rw [HeaderField.simpleText, mem_linesText (by decide) (by decide)]
  rintro ⟨l, hl, hc⟩
  obtain ⟨m, _, rfl⟩ := List.mem_map.1 hl
  exact cstr_ne_zero 0 hc rfl

theorem simpleText_of_noNul {f : HeaderField} (h : 0 ∉ f.text) : f.simpleText = f.text := by
  have hlines : f.lines.map cstr = f.lines := by
    have hid : f.lines.map cstr = f.lines.map id := by
      rw [List.map_inj_left]
      intro l hl
      apply cstr_eq
      rintro c hc rfl
      exact h ((mem_linesText (by decide) (by decide)).2 ⟨l, hl, hc⟩)
    rw [hid, List.map_id]
  rw [HeaderField.simpleText, hlines]
  rfl

section
variable {names : List AnsiString} {fields : List HeaderField}

theorem isFound_select_iff (h : ∀ f ∈ fields, f.WellFormed) :
    (Selection.select isFound names fields.reverse).2.map (fun f => f.name ++ f.beforeColon) =
        (rfcSelect names fields).2.map (fun f => f.name ++ f.beforeColon) ↔
      ∀ s ∈ (rfcSelect names fields).1, s.2.beforeColon = [] := by
  have hiff := Selection.select_rest_iff (p := isFound) (q := isNamed) (w := fun f => f.beforeColon != [])
    (fun _ _ => rfl) names fun f hf => endsInBlank_written (h f (List.mem_reverse.1 hf))
  rw [rfcSelect, hiff]
  simp

/-- If no selected field has white space in front of its colon, the fields found
    are those selected. -/
theorem isFound_select_eq (h : ∀ s ∈ (rfcSelect names fields).1, s.2.beforeColon = []) :
    Selection.select isFound names fields.reverse = rfcSelect names fields := by
  apply Selection.select_narrow
  · intro n f hfound
    rw [isFound, Bool.and_eq_true] at hfound
    exact hfound.1
  · intro s hs
    rw [isFound, (Selection.fits_of_mem_select hs).2.2, h s hs]
    rfl

theorem mem_rfcSelect (h : ∀ f ∈ fields, f.WellFormed) {s : AnsiString × HeaderField} (hs : s ∈ (rfcSelect names fields).1) :
    s.2.WellFormed ∧ isNamed s.1 s.2 = true := by
  obtain ⟨_, hmem, hnamed⟩ := Selection.fits_of_mem_select hs
  exact ⟨h s.2 (List.mem_reverse.1 hmem), hnamed⟩

variable (h : ∀ f ∈ fields, f.WellFormed) (hn : ∀ n ∈ names, 0 ∉ n)
include h hn

/-- What the relaxed loop answers for a header. -/
theorem relaxedLoop_headerText (fieldList : AnsiString) :
    (relaxedLoop names ⟨[], fieldList, load (headerText fields) true⟩).result =
      linesText ((Selection.select isFound names fields.reverse).1.map fun s => relaxedFieldLine s.1 s.2.loaded) ∧
    (relaxedLoop names ⟨[], fieldList, load (headerText fields) true⟩).fields.reverse =
      (Selection.select isFound names fields.reverse).2.map HeaderField.loaded := by
  obtain ⟨hresult, hrest⟩ := relaxedLoop_eq names ⟨[], fieldList, load (headerText fields) true⟩
  have hselect : Selection.select (fun n f => equalsNoCase (trim n) (cstr (HeaderField.loaded f).name)) names fields.reverse =
      Selection.select isFound names fields.reverse := by
    apply Selection.select_congr
    intro n hmem f hf
    have hwf := h f (List.mem_reverse.1 hf)
    have hcstr : cstr f.loaded.name = f.name ++ f.beforeColon := cstr_eq fun c hc => (hwf.writtenChar c hc).1
    rw [hcstr, equalsNoCase_comm, equalsNoCase_written hwf (hn n hmem), isFound]
  rw [hresult, hrest, load_headerText h, ← List.map_reverse, Selection.select_map, hselect, List.nil_append, List.map_map]
  exact ⟨rfl, rfl⟩

/-- What the simple loop answers for a header. -/
theorem simpleLoop_headerText (fieldList : AnsiString) :
    (simpleLoop names ⟨[], fieldList, formatHeaderLines (StringParser.splitString (headerText fields) crlf).reverse []⟩).result =
      (Selection.select isFound names fields.reverse).1.flatMap (fun s => s.2.simpleText) ∧
    (simpleLoop names ⟨[], fieldList, formatHeaderLines (StringParser.splitString (headerText fields) crlf).reverse []⟩).fields =
      (Selection.select isFound names fields.reverse).2.map HeaderField.simpleText := by
  have hlines : formatHeaderLines (StringParser.splitString (headerText fields) crlf).reverse [] =
      fields.reverse.map HeaderField.simpleText := by
    rw [headerText_eq, splitString_linesText (headerLines_noLineEnd h), formatHeaderLines_eq h]
  obtain ⟨hresult, hrest⟩ := simpleLoop_eq names ⟨[], fieldList, fields.reverse.map HeaderField.simpleText⟩
  have hselect : Selection.select
      (fun n f => equalsNoCase (List.takeWhile (· != 58) (HeaderField.simpleText f)) (trim n)) names fields.reverse =
      Selection.select isFound names fields.reverse := by
    apply Selection.select_congr
    intro n hmem f hf
    have hwf := h f (List.mem_reverse.1 hf)
    rw [simpleText_written hwf, equalsNoCase_written hwf (hn n hmem), isFound]
  rw [hlines, hresult, hrest, Selection.select_map, hselect, List.nil_append, List.flatMap_map]
  exact ⟨rfl, rfl⟩

theorem relaxedHeader_iff : RelaxedHeaderCanonicalized names fields ↔
    ∀ s ∈ (rfcSelect names fields).1, s.2.beforeColon = [] ∧ s.2.PlainValue := by
  have hselects : (relaxedLoop names ⟨[], [], load (headerText fields) true⟩).fields.reverse.map LoadedField.name =
      (rfcSelect names fields).2.map (fun f => f.name ++ f.beforeColon) ↔
      ∀ s ∈ (rfcSelect names fields).1, s.2.beforeColon = [] := by
    rw [(relaxedLoop_headerText h hn []).2, List.map_map]
    exact isFound_select_iff h
  have hlines : linesText ((rfcSelect names fields).1.map fun s => relaxedFieldLine s.1 s.2.loaded) =
      rfcRelaxedHeader names fields ↔ ∀ s ∈ (rfcSelect names fields).1, s.2.PlainValue := by
    rw [rfcRelaxedHeader, linesText_inj, List.map_inj_left]
    · apply forall₂_congr
      intro s hs
      obtain ⟨hwf, hnamed⟩ := mem_rfcSelect h hs
      exact relaxedFieldLine_eq_iff hwf hnamed
    · intro l hl
      obtain ⟨s, hs, rfl⟩ := List.mem_map.1 hl
      obtain ⟨hwf, hnamed⟩ := mem_rfcSelect h hs
      exact noLineEnd_relaxedFieldLine hwf hnamed
    · intro l hl
      obtain ⟨s, hs, rfl⟩ := List.mem_map.1 hl
      exact noLineEnd_relaxedLine (mem_rfcSelect h hs).1
  constructor
  · rintro ⟨hrest, hbytes⟩
    have hcolon := hselects.1 hrest
    have htext := hbytes ([], []) []
    rw [relaxedCanonicalizeHeader, (relaxedLoop_headerText h hn []).1, isFound_select_eq hcolon] at htext
    have hplain := hlines.1 (List.append_cancel_right htext)
    exact fun s hs => ⟨hcolon s hs, hplain s hs⟩
  · intro hall
    have hcolon := fun s hs => (hall s hs).1
    refine ⟨hselects.2 hcolon, fun signatureField fieldList => ?_⟩
    rw [relaxedCanonicalizeHeader, (relaxedLoop_headerText h hn fieldList).1, isFound_select_eq hcolon,
      hlines.2 fun s hs => (hall s hs).2]

theorem simpleHeader_iff : SimpleHeaderCanonicalized names fields ↔
    ∀ s ∈ (rfcSelect names fields).1, s.2.beforeColon = [] ∧ 0 ∉ s.2.text := by
  have hselects : (simpleLoop names ⟨[], [], formatHeaderLines
        (StringParser.splitString (headerText fields) crlf).reverse []⟩).fields.map (List.takeWhile (· != 58)) =
      (rfcSelect names fields).2.map (fun f => f.name ++ f.beforeColon) ↔
      ∀ s ∈ (rfcSelect names fields).1, s.2.beforeColon = [] := by
    have hwritten : (Selection.select isFound names fields.reverse).2.map (fun f => f.simpleText.takeWhile (· != 58)) =
        (Selection.select isFound names fields.reverse).2.map fun f => f.name ++ f.beforeColon := by
      rw [List.map_inj_left]
      intro f hf
      exact simpleText_written (h f (List.mem_reverse.1 (Selection.select_rest_subset _ _ _ hf)))
    rw [(simpleLoop_headerText h hn []).2, List.map_map, ← isFound_select_iff h, ← hwritten]
    rfl
  constructor
  · rintro ⟨hrest, hbytes⟩
    have hcolon := hselects.1 hrest
    have htext := hbytes ([], []) []
    rw [simpleCanonicalizeHeader, (simpleLoop_headerText h hn []).1, isFound_select_eq hcolon] at htext
    -- What the code writes has no NUL.
    have hbytes := List.append_cancel_right htext
    refine fun s hs => ⟨hcolon s hs, fun hnul => ?_⟩
    have hmem : 0 ∈ rfcSimpleHeader names fields := List.mem_flatMap.2 ⟨s, hs, hnul⟩
    rw [← hbytes] at hmem
    obtain ⟨t, _, ht⟩ := List.mem_flatMap.1 hmem
    exact simpleText_noNul t.2 ht
  · intro hall
    have hcolon := fun s hs => (hall s hs).1
    refine ⟨hselects.2 hcolon, fun signatureField fieldList => ?_⟩
    have hplain : (rfcSelect names fields).1.flatMap (fun s => s.2.simpleText) = rfcSimpleHeader names fields := by
      apply List.flatMap_congr
      exact fun s hs => simpleText_of_noNul (hall s hs).2
    rw [simpleCanonicalizeHeader, (simpleLoop_headerText h hn fieldList).1, isFound_select_eq hcolon, hplain]

/-- The canonicalizations select and write as the RFC says exactly if no selected
    field has white space in front of its colon and, for the relaxed one, its
    value is plain, for the simple one, it has no NUL. -/
theorem header_canonicalized_iff :
    (RelaxedHeaderCanonicalized names fields ↔
      ∀ s ∈ (rfcSelect names fields).1, s.2.beforeColon = [] ∧ s.2.PlainValue) ∧
    (SimpleHeaderCanonicalized names fields ↔
      ∀ s ∈ (rfcSelect names fields).1, s.2.beforeColon = [] ∧ 0 ∉ s.2.text) :=
  ⟨relaxedHeader_iff h hn, simpleHeader_iff h hn⟩

end

/-- A folded field, listed in capitals. -/
def foldedSubject : HeaderField := ⟨ansi "Subject", [], ansi "  a ", [ansi "\tb  c"]⟩

theorem foldedSubject_canonicalized :
    RelaxedHeaderCanonicalized [ansi "SUBJECT", ansi "To"] [foldedSubject] ∧
    SimpleHeaderCanonicalized [ansi "SUBJECT", ansi "To"] [foldedSubject] ∧
    rfcRelaxedHeader [ansi "SUBJECT", ansi "To"] [foldedSubject] = ansi "subject:a b c\r\n" := by
  have hwf : ∀ f ∈ [foldedSubject], f.WellFormed := by
    intro f hf
    rw [List.mem_singleton.1 hf]
    constructor
    · decide
    · decide +kernel
    · decide +kernel
    · exact noLineEnd_of_notMem (by decide)
    · intro l hl
      rw [List.mem_singleton.1 hl]
      exact ⟨noLineEnd_of_notMem (by decide), 9, rfl, rfl⟩
  have hnames : ∀ n ∈ [ansi "SUBJECT", ansi "To"], 0 ∉ n := by decide
  have hselected : (rfcSelect [ansi "SUBJECT", ansi "To"] [foldedSubject]).1 = [(ansi "SUBJECT", foldedSubject)] := by
    decide
  obtain ⟨hrelaxed, hsimple⟩ := header_canonicalized_iff hwf hnames
  rw [hselected] at hrelaxed hsimple
  refine ⟨hrelaxed.2 ?_, hsimple.2 ?_, by decide⟩
  · intro s hs
    rw [List.mem_singleton.1 hs]
    refine ⟨rfl, by decide +kernel, ?_, ?_, ?_⟩
    · intro l hl c hc
      rw [List.mem_singleton.1 hl] at hc
      rw [← Option.some.inj hc]
      rfl
    · intro c hc
      rw [← Option.some.inj hc]
      rfl
    · intro c hc
      rw [← Option.some.inj hc]
      rfl
  · intro s hs
    rw [List.mem_singleton.1 hs]
    exact ⟨rfl, by decide⟩

/-- White space in front of the colon hides a field from both; the relaxed one
    also takes a bare LF for a line end. -/
theorem spaced_subject_not_selected :
    (relaxedCanonicalizeHeader (ansi "Subject : x\r\n") ([], []) [ansi "Subject"] []).1 = [] ∧
    (simpleCanonicalizeHeader (ansi "Subject : x\r\n") ([], []) [ansi "Subject"] []).1 = [] ∧
    rfcRelaxedHeader [ansi "Subject"] [⟨ansi "Subject", [32], ansi " x", []⟩] = ansi "subject:x\r\n" ∧
    (relaxedCanonicalizeHeader (ansi "Subject: x\ny\r\n") ([], []) [ansi "Subject"] []).1 = ansi "subject:x y\r\n" ∧
    rfcRelaxedHeader [ansi "Subject"] [⟨ansi "Subject", [], ansi " x\ny", []⟩] = ansi "subject:x\ny\r\n" ∧
    ¬ RelaxedHeaderCanonicalized [ansi "Subject"] [⟨ansi "Subject", [32], ansi " x", []⟩] ∧
    ¬ SimpleHeaderCanonicalized [ansi "Subject"] [⟨ansi "Subject", [32], ansi " x", []⟩] := by
  refine ⟨by decide, by decide, by decide, by decide, by decide, ?_, ?_⟩
  · exact fun h => absurd (h.bytes ([], []) []) (by decide)
  · exact fun h => absurd (h.bytes ([], []) []) (by decide)

end HMailServer.Dkim
