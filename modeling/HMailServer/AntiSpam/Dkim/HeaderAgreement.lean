import HMailServer.AntiSpam.Dkim.HeaderCanonicalization
import HMailServer.Lib.Scan

/- Both header canonicalizations against the RFC. They select as it says unless
   there is white space in front of the colon of a selected field, which both
   take for a part of its name. The simple one loses what stands behind a NUL in
   a line, the relaxed one also bare line ends, and vertical tabs and form feeds
   where it trims or unfolds. -/
namespace HMailServer.Dkim
open AnsiString MimeHeader

/-! ## Fields -/

namespace HeaderField
variable {f : HeaderField}

theorem WellFormed.nameChar (h : f.WellFormed) : ∀ c ∈ f.name, isSpace c = false ∧ c ≠ 0 ∧ c ≠ 58 := by
  intro c hc
  obtain ⟨h32, h127, h58⟩ := h.name c hc
  have hgt : 32 < c.toNat := h32
  refine ⟨?_, ?_, h58⟩
  · rw [isSpace, Bool.or_eq_false_iff, beq_eq_false_iff_ne, Bool.and_eq_false_iff]
    refine ⟨?_, .inr ?_⟩
    · rintro rfl
      exact absurd hgt (by decide)
    · rw [decide_eq_false_iff_not, UInt8.le_iff_toNat_le]
      change ¬ c.toNat ≤ 13
      omega
  · rintro rfl
    exact absurd hgt (by decide)

/-- The name with what stands between it and the colon. -/
theorem WellFormed.writtenChar (h : f.WellFormed) : ∀ c ∈ f.name ++ f.beforeColon, c ≠ 0 ∧ c ≠ 58 ∧ c ≠ 13 ∧ c ≠ 10 := by
  intro c hc
  rcases List.mem_append.1 hc with hc | hc
  · obtain ⟨hspace, h0, h58⟩ := h.nameChar c hc
    refine ⟨h0, h58, ?_, ?_⟩
    · rintro rfl
      cases hspace
    · rintro rfl
      cases hspace
  · rcases (isWsp_iff c).1 (h.beforeColon c hc) with rfl | rfl <;> decide

theorem WellFormed.head (h : f.WellFormed) : ∃ c rest, f.name = c :: rest ∧ isSpace c = false ∧ c ≠ 0 ∧ c ≠ 58 := by
  obtain ⟨c, rest, hname⟩ := List.exists_cons_of_ne_nil h.name_ne_nil
  obtain ⟨hspace, h0, h58⟩ := h.nameChar c (by simp [hname])
  exact ⟨c, rest, hname, hspace, h0, h58⟩

end HeaderField

theorem noLineEnd_of_notMem {s : AnsiString} (h : (13 : UInt8) ∉ s) : NoLineEnd s := by
  induction s with
  | nil => trivial
  | cons c s ih =>
    rw [List.mem_cons, not_or] at h
    rw [noLineEnd_cons fun hc => absurd hc.symm h.1]
    exact ih h.2

/-- Two texts make no line end together unless the second begins with LF. -/
theorem NoLineEnd.append {a s : AnsiString} (ha : NoLineEnd a) (hs : NoLineEnd s) (hhead : s.head? ≠ some 10) :
    NoLineEnd (a ++ s) := by
  induction a with
  | nil => exact hs
  | cons c a ih =>
    rw [List.cons_append, noLineEnd_cons]
    · exact ih ha.tail
    · rintro rfl
      cases a with
      | nil => exact hhead
      | cons d a => exact ha.head

namespace HeaderField
variable {f : HeaderField}

theorem WellFormed.lines (h : f.WellFormed) : ∀ l ∈ f.lines, NoLineEnd l := by
  intro l hl
  rcases List.mem_cons.1 hl with rfl | hl
  · have hname : (13 : UInt8) ∉ f.name ++ f.beforeColon := fun hm => (h.writtenChar 13 hm).2.2.1 rfl
    apply (noLineEnd_of_notMem hname).append
    · rw [noLineEnd_cons fun hc => absurd hc (by decide)]
      exact h.first
    · exact fun hc => absurd (Option.some.inj hc) (by decide)
  · exact (h.continuation l hl).1

end HeaderField

theorem headerText_eq (fields : List HeaderField) : headerText fields = linesText (fields.flatMap HeaderField.lines) := by
  rw [headerText, linesText, List.flatMap_assoc]
  rfl

theorem headerLines_noLineEnd {fields : List HeaderField} (h : ∀ f ∈ fields, f.WellFormed) :
    ∀ l ∈ fields.flatMap HeaderField.lines, NoLineEnd l := by
  intro l hl
  obtain ⟨f, hf, hlf⟩ := List.mem_flatMap.1 hl
  exact (h f hf).lines l hlf

/-! ## The simple canonicalization reads the lines -/

/-- The lines of a header, each up to its first NUL. -/
theorem splitString_linesText {ls : List AnsiString} (h : ∀ l ∈ ls, NoLineEnd l) :
    StringParser.splitString (linesText ls) crlf = ls.map cstr := by
  rw [StringParser.splitString, splitPieces_crlf, bodyLines_linesText h]
  cases ls with
  | nil => rfl
  | cons l ls =>
    obtain ⟨m, ms, hms⟩ := List.exists_cons_of_ne_nil (show ls ++ [[]] ≠ [] by simp)
    have hmap : (l :: m :: ms).map cstr = (l :: ls).map cstr ++ [[]] := by
      rw [← hms]
      simp [cstr]
    rw [List.cons_append, hms]
    dsimp only
    rw [hmap, List.getLast?_concat, if_pos rfl, List.dropLast_concat]

/-- What is left of a field when its lines end at their first NUL. -/
def HeaderField.simpleText (f : HeaderField) : AnsiString := linesText (f.lines.map cstr)

theorem cstr_head {l : AnsiString} {c : UInt8} (h : l.head? = some c) (hc : c ≠ 0) : (cstr l).head? = some c := by
  cases l with
  | nil => cases h
  | cons d l =>
    rw [Option.some.inj h, cstr, List.takeWhile_cons_of_pos (by simp [hc])]
    rfl

/-- Folded lines are gathered in front of those behind them. -/
theorem formatHeaderLines_folded {conts : List AnsiString} (h : ∀ l ∈ conts, ∃ c, l.head? = some c ∧ isWsp c = true)
    (more : List AnsiString) (folded : AnsiString) :
    formatHeaderLines ((conts.map cstr).reverse ++ more) folded =
      formatHeaderLines more (linesText (conts.map cstr) ++ folded) := by
  induction conts using List.reverseRecOn generalizing folded with
  | nil => rfl
  | append_singleton init l ih =>
    obtain ⟨c, hhead, hc⟩ := h l (by simp)
    have hwsp : (cstr l).head? = some 32 ∨ (cstr l).head? = some 9 := by
      rcases (isWsp_iff c).1 hc with rfl | rfl
      · exact .inl (cstr_head hhead (by decide))
      · exact .inr (cstr_head hhead (by decide))
    have hrest := ih (fun m hm => h m (List.mem_append_left _ hm)) (cstr l ++ crlf ++ folded)
    have hreverse : ((init ++ [l]).map cstr).reverse ++ more = cstr l :: ((init.map cstr).reverse ++ more) := by simp
    rw [hreverse, formatHeaderLines, if_pos hwsp, hrest]
    simp [linesText]

theorem cstr_written {f : HeaderField} (h : f.WellFormed) (s : AnsiString) :
    cstr (f.name ++ f.beforeColon ++ 58 :: s) = f.name ++ f.beforeColon ++ 58 :: cstr s := by
  have hno : ∀ c ∈ f.name ++ f.beforeColon, (c != 0) = true := fun c hc => bne_iff_ne.2 (h.writtenChar c hc).1
  rw [cstr, List.takeWhile_append_of_pos hno, List.takeWhile_cons_of_pos (by decide)]
  rfl

theorem formatHeaderLines_field {f : HeaderField} (h : f.WellFormed) (more : List AnsiString) :
    formatHeaderLines ((f.lines.map cstr).reverse ++ more) [] = f.simpleText :: formatHeaderLines more [] := by
  obtain ⟨c, rest, hname, hspace, h0, h58⟩ := h.head
  have hconts : ∀ l ∈ f.continuation, ∃ c, l.head? = some c ∧ isWsp c = true := fun l hl => (h.continuation l hl).2
  have hreverse : (f.lines.map cstr).reverse ++ more =
      (f.continuation.map cstr).reverse ++ cstr (f.name ++ f.beforeColon ++ 58 :: f.first) :: more := by
    simp [HeaderField.lines]
  have hhead : ¬ ((cstr (f.name ++ f.beforeColon ++ 58 :: f.first)).head? = some 32 ∨
      (cstr (f.name ++ f.beforeColon ++ 58 :: f.first)).head? = some 9) := by
    rw [cstr_written h, hname]
    rintro (hc | hc)
    · rw [Option.some.inj hc] at hspace
      cases hspace
    · rw [Option.some.inj hc] at hspace
      cases hspace
  have hcolon : ¬ 58 ∉ cstr (f.name ++ f.beforeColon ++ 58 :: f.first) := by
    rw [cstr_written h]
    simp
  rw [hreverse, formatHeaderLines_folded hconts, formatHeaderLines, if_neg hhead, if_neg hcolon]
  simp [HeaderField.simpleText, HeaderField.lines, linesText]

/-- The formatted lines are the fields from the last one on. -/
theorem formatHeaderLines_eq {fields : List HeaderField} (h : ∀ f ∈ fields, f.WellFormed) :
    formatHeaderLines ((fields.flatMap HeaderField.lines).map cstr).reverse [] =
      fields.reverse.map HeaderField.simpleText := by
  induction fields using List.reverseRecOn with
  | nil => rfl
  | append_singleton init f ih =>
    have hrest := ih fun g hg => h g (List.mem_append_left _ hg)
    have hfield := formatHeaderLines_field (h f (by simp)) ((init.flatMap HeaderField.lines).map cstr).reverse
    have hreverse : (((init ++ [f]).flatMap HeaderField.lines).map cstr).reverse =
        (f.lines.map cstr).reverse ++ ((init.flatMap HeaderField.lines).map cstr).reverse := by
      simp
    rw [hreverse, hfield, hrest]
    simp

/-! ## The relaxed canonicalization reads the parser's fields -/

/-- The field as the MIME parser reads it. -/
def HeaderField.loaded (f : HeaderField) : LoadedField where
  name := f.name ++ f.beforeColon
  value := unfoldField (f.first.dropWhile isWsp ++ f.continuation.flatMap (crlf ++ ·))

theorem fieldText_line {l : AnsiString} (h : NoLineEnd l) (rest : AnsiString) :
    fieldText (l ++ 13 :: 10 :: rest) = (fieldText (13 :: 10 :: rest)).map fun t => (l ++ t.1, t.2) := by
  induction l with
  | nil => simp
  | cons c l ih =>
    have hnot : ∀ t, c = 13 → l ++ 13 :: 10 :: rest = 10 :: t → False := by
      intro t hc ht
      subst hc
      cases l with
      | nil => cases ht
      | cons d l => exact h.head (congrArg some (List.cons.inj ht).1)
    rw [List.cons_append, fieldText.eq_3 _ _ hnot, ih h.tail, Option.map_map]
    rfl

/-- A field ends at the first line that is not folded. -/
theorem fieldText_lines {l : AnsiString} (hl : NoLineEnd l) {conts : List AnsiString}
    (h : ∀ l ∈ conts, NoLineEnd l ∧ ∃ c, l.head? = some c ∧ isWsp c = true) {rest : AnsiString}
    (hrest : Scan.Stops isWsp rest) : fieldText (linesText (l :: conts) ++ rest) = some (linesText (l :: conts), rest) := by
  induction conts generalizing l with
  | nil =>
    have hlast : fieldText (13 :: 10 :: rest) = some ([13, 10], rest) := by
      cases rest with
      | nil => rfl
      | cons c more =>
        have hc : ¬ (c = 9 ∨ c = 32) := by
          rintro (rfl | rfl)
          · exact absurd (hrest 9 rfl) (by decide)
          · exact absurd (hrest 32 rfl) (by decide)
        rw [fieldText, if_neg hc]
    have hsplit : linesText [l] ++ rest = l ++ 13 :: 10 :: rest := by simp [linesText, crlf]
    rw [hsplit, fieldText_line hl, hlast]
    simp [linesText, crlf]
  | cons m conts ih =>
    obtain ⟨hm, c, hhead, hc⟩ := h m List.mem_cons_self
    obtain ⟨m', rfl⟩ := List.head?_eq_some_iff.1 hhead
    have hnext := ih hm fun k hk => h k (List.mem_cons_of_mem _ hk)
    have hfolded : fieldText (13 :: 10 :: (linesText ((c :: m') :: conts) ++ rest)) =
        some (13 :: 10 :: linesText ((c :: m') :: conts), rest) := by
      have hwsp : c = 9 ∨ c = 32 := ((isWsp_iff c).1 hc).symm
      rw [linesText_cons] at hnext ⊢
      rw [List.cons_append, List.cons_append, fieldText, if_pos hwsp]
      rw [List.cons_append, List.cons_append] at hnext
      rw [hnext]
      rfl
    rw [linesText_cons, List.append_assoc, List.cons_append, List.cons_append, fieldText_line hl, hfolded]
    rfl

theorem linesText_flatMap (l : AnsiString) (conts : List AnsiString) :
    linesText (l :: conts) = l ++ conts.flatMap (crlf ++ ·) ++ crlf := by
  induction conts generalizing l with
  | nil => simp [linesText]
  | cons m conts ih =>
    rw [linesText_cons, ih]
    simp [crlf]

/-- The MIME parser loads a field and goes on behind it. -/
theorem loadField_text {f : HeaderField} (h : f.WellFormed) {rest : AnsiString} (hrest : Scan.Stops isWsp rest) :
    loadField (f.text ++ rest) true = some (f.loaded, rest) := by
  obtain ⟨c, name, hname, hspace, _⟩ := h.head
  have htext : f.text ++ rest = f.name ++ f.beforeColon ++ 58 :: (linesText (f.first :: f.continuation) ++ rest) := by
    simp [HeaderField.text, HeaderField.lines, linesText]
  have hstart : ∀ n, fieldStart (n + 1) (f.text ++ rest) = some (f.text ++ rest) := by
    intro n
    rw [htext, hname, List.cons_append, List.cons_append, fieldStart, hspace, if_neg Bool.false_ne_true]
  have hfieldName : fieldName (f.text ++ rest) =
      (f.name ++ f.beforeColon, linesText (f.first :: f.continuation) ++ rest) := by
    have htake : (f.text ++ rest).takeWhile (fun c => c != 0 && c != 58 && c != 13 && c != 10) = f.name ++ f.beforeColon := by
      rw [htext]
      apply Scan.takeWhile_append
      · intro d hd
        obtain ⟨h0, h58, h13, h10⟩ := h.writtenChar d hd
        simp [h0, h58, h13, h10]
      · exact Scan.stops_cons (by decide)
    rw [fieldName, htake, htext, List.drop_left]
    rfl
  have hdrop : (linesText (f.first :: f.continuation) ++ rest).dropWhile (fun c => c == 32 || c == 9) =
      linesText (f.first.dropWhile isWsp :: f.continuation) ++ rest := by
    have hwsp : (fun c : UInt8 => c == 32 || c == 9) = isWsp := rfl
    rw [hwsp, linesText_cons, linesText_cons, List.append_assoc, List.append_assoc, List.dropWhile_append]
    split
    · rename_i hnil
      rw [List.isEmpty_iff.1 hnil]
      rfl
    · rfl
  have hfirst : NoLineEnd (f.first.dropWhile isWsp) := by
    apply NoLineEnd.suffix (a := f.first.takeWhile isWsp)
    rw [List.takeWhile_append_dropWhile]
    exact h.first
  rw [loadField, hstart]
  dsimp only
  rw [hfieldName]
  dsimp only
  rw [hdrop, fieldText_lines hfirst h.continuation hrest]
  dsimp only
  have hvalue := linesText_flatMap (f.first.dropWhile isWsp) f.continuation
  have hlen : (linesText (f.first.dropWhile isWsp :: f.continuation)).length - 2 =
      (f.first.dropWhile isWsp ++ f.continuation.flatMap (crlf ++ ·)).length := by
    rw [hvalue, List.length_append]
    exact Nat.add_sub_cancel _ 2
  rw [hlen, hvalue, List.take_left]
  rfl

/-- The MIME parser loads the fields of a header. -/
theorem load_headerText {fields : List HeaderField} (h : ∀ f ∈ fields, f.WellFormed) :
    load (headerText fields) true = fields.map HeaderField.loaded := by
  have hlen : fields.length ≤ (headerText fields).length := by
    clear h
    induction fields with
    | nil => exact Nat.le_refl 0
    | cons f fields ih =>
      have hpos : 1 ≤ f.text.length := by
        rw [HeaderField.text, HeaderField.lines, linesText_cons, List.length_append, List.length_append, List.length_cons]
        omega
      rw [headerText, List.flatMap_cons, ← headerText, List.length_append, List.length_cons]
      omega
  have run : ∀ n, fields.length < n → loadFields true n (headerText fields) = fields.map HeaderField.loaded := by
    clear hlen
    induction fields with
    | nil =>
      intro n hn
      obtain ⟨m, rfl⟩ := Nat.exists_eq_add_of_lt hn
      rfl
    | cons f fields ih =>
      intro n hn
      obtain ⟨m, rfl⟩ := Nat.exists_eq_add_of_lt hn
      have hf := h f List.mem_cons_self
      have hfields := fun g hg => h g (List.mem_cons_of_mem _ hg)
      obtain ⟨c, name, hname, hspace, h0, _⟩ := hf.head
      have hstops : Scan.Stops isWsp (headerText fields) := by
        cases fields with
        | nil => exact Scan.stops_nil
        | cons g fields =>
          obtain ⟨d, name, hname, hspace, _⟩ := (hfields g List.mem_cons_self).head
          rw [headerText, List.flatMap_cons, HeaderField.text, HeaderField.lines, linesText_cons, hname]
          apply Scan.stops_cons
          rw [Bool.eq_false_iff]
          intro hw
          rw [isSpace_of_isWsp hw] at hspace
          cases hspace
      have htext : headerText (f :: fields) = f.text ++ headerText fields := rfl
      have hcons : ∃ rest, f.text ++ headerText fields = c :: rest := by
        rw [HeaderField.text, HeaderField.lines, linesText_cons, hname]
        exact ⟨_, rfl⟩
      have hload := loadField_text hf hstops
      have hnext := ih hfields ((f :: fields).length + m) (by simp; omega)
      obtain ⟨rest, hrest⟩ := hcons
      have hstop : ¬ (c = 0 ∨ c = 13) := by
        rintro (rfl | rfl)
        · exact h0 rfl
        · cases hspace
      rw [htext]
      rw [hrest] at hload ⊢
      rw [loadFields]
      simp only [if_neg hstop, hload, hnext]
      rfl
  exact run _ (Nat.lt_succ_of_le hlen)

/-! ## Selection -/

theorem simpleLoop_eq (names : List AnsiString) (s : Listed AnsiString) :
    (simpleLoop names s).result = s.result ++ (Selection.select
        (fun n l => equalsNoCase (List.takeWhile (· != 58) l) (trim n)) names s.fields).1.flatMap Prod.snd ∧
    (simpleLoop names s).fields = (Selection.select
        (fun n l => equalsNoCase (List.takeWhile (· != 58) l) (trim n)) names s.fields).2 := by
  induction names generalizing s with
  | nil => exact ⟨(List.append_nil _).symm, rfl⟩
  | cons n names ih =>
    rw [simpleLoop]
    cases h : s.fields.find? fun l => equalsNoCase (List.takeWhile (· != 58) l) (trim n) with
    | none =>
      rw [Selection.select_none h]
      exact ih s
    | some line =>
      rw [Selection.select_some h]
      obtain ⟨hresult, hfields⟩ := ih
        { result := s.result ++ line
          fieldList := addToFieldList s.fieldList (line.takeWhile (· != 58))
          fields := s.fields.eraseP fun l => equalsNoCase (List.takeWhile (· != 58) l) (trim n) }
      exact ⟨by rw [hresult]; simp, hfields⟩

/-- The line that a field adds for the name it is listed under. -/
def relaxedFieldLine (n : AnsiString) (field : LoadedField) : AnsiString :=
  cstr (canonicalizeHeaderName (trim n)) ++ 58 ::
    cstr (canonicalizeHeaderValue (if cstr field.value = [] then crlf else cstr field.value))

theorem relaxedLoop_eq (names : List AnsiString) (s : Listed LoadedField) :
    (relaxedLoop names s).result = s.result ++ linesText ((Selection.select
        (fun n field => equalsNoCase (trim n) (cstr field.name)) names s.fields.reverse).1.map
          fun t => relaxedFieldLine t.1 t.2) ∧
    (relaxedLoop names s).fields.reverse = (Selection.select
        (fun n field => equalsNoCase (trim n) (cstr field.name)) names s.fields.reverse).2 := by
  induction names generalizing s with
  | nil => exact ⟨(List.append_nil _).symm, rfl⟩
  | cons n names ih =>
    cases h : s.fields.reverse.find? fun field => equalsNoCase (trim n) (cstr field.name) with
    | none =>
      have hstep : relaxedLoop (n :: names) s = relaxedLoop names s := by
        rw [relaxedLoop]
        simp only [h]
      rw [Selection.select_none h, hstep]
      exact ih s
    | some field =>
      let s' : Listed LoadedField :=
        { result := s.result ++ (relaxedFieldLine n field ++ crlf)
          fieldList := addToFieldList s.fieldList (trim n)
          fields := (s.fields.reverse.eraseP fun field => equalsNoCase (trim n) (cstr field.name)).reverse }
      have hstep : relaxedLoop (n :: names) s = relaxedLoop names s' := by
        rw [relaxedLoop]
        simp only [h, s', relaxedFieldLine, List.append_assoc, List.cons_append]
      have hfields' : s'.fields.reverse =
          s.fields.reverse.eraseP fun field => equalsNoCase (trim n) (cstr field.name) := List.reverse_reverse _
      obtain ⟨hresult, hfields⟩ := ih s'
      rw [hfields'] at hresult hfields
      rw [Selection.select_some h, hstep]
      refine ⟨?_, hfields⟩
      rw [hresult]
      simp [s', linesText]

theorem isWsp_of_toLower {c : UInt8} (h : isWsp (toLower c) = true) : isWsp c = true := by
  rcases (isWsp_iff _).1 h with h | h
  · rw [toLower_eq (by decide) h]
    rfl
  · rw [toLower_eq (by decide) h]
    rfl

/-- White space in front of the colon keeps a field from being found. -/
theorem equalsNoCase_written {f : HeaderField} (h : f.WellFormed) {n : AnsiString} (hn : 0 ∉ n) :
    equalsNoCase (f.name ++ f.beforeColon) (trim n) = (isNamed n f && !(f.beforeColon != [])) := by
  have hwritten : cstr (f.name ++ f.beforeColon) = f.name ++ f.beforeColon := cstr_eq fun c hc => (h.writtenChar c hc).1
  have hlisted : cstr (trim n) = trim n := cstr_eq fun c hc => by
    rintro rfl
    exact hn (trim_subset n hc)
  rw [equalsNoCase, hwritten, hlisted, isNamed]
  cases hb : f.beforeColon != [] with
  | false =>
    have hnil : f.beforeColon = [] := by simpa using hb
    rw [hnil, List.append_nil, Bool.not_false, Bool.and_true]
    exact Bool.beq_comm
  | true =>
    have hne : f.beforeColon ≠ [] := by simpa using hb
    rw [Bool.not_true, Bool.and_false, beq_eq_false_iff_ne]
    intro heq
    have hlast := congrArg List.getLast? heq
    rw [lower_append, List.getLast?_append_of_ne_nil _ (by simpa [lower] using hne), lower, lower, List.getLast?_map,
      List.getLast?_map, List.getLast?_eq_some_getLast hne, Option.map_some, eq_comm, Option.map_eq_some_iff] at hlast
    obtain ⟨c, hc, hlower⟩ := hlast
    have hwsp := h.beforeColon _ (List.getLast_mem hne)
    have hcw : isWsp c = true := by
      apply isWsp_of_toLower
      rw [hlower]
      rcases (isWsp_iff _).1 hwsp with hw | hw <;> rw [hw] <;> rfl
    have hnot := trim_last c hc
    rw [isSpace_of_isWsp hcw] at hnot
    cases hnot

end HMailServer.Dkim
