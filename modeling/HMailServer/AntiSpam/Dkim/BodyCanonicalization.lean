import HMailServer.Util.StringParser

/- Canonicalization of a message body (`Canonicalization.cpp`) against RFC 6376,
   sections 3.4.3 and 3.4.4. The relaxed one splits the body with
   `SplitString`, which cuts every line at its first NUL, and trims all white
   space from the ends of lines where the RFC knows only SP and HTAB. -/
namespace HMailServer.Dkim
open AnsiString

def crlf : AnsiString := [13, 10]

/-! ## The code -/

/-- `CollapseWhitespaceRuns_`. -/
def collapseFrom : Bool → AnsiString → AnsiString
  | _, [] => []
  | previousWasWhitespace, c :: s =>
    if c = 32 ∨ c = 9 then (if previousWasWhitespace then [] else [32]) ++ collapseFrom true s
    else c :: collapseFrom false s

def collapseWhitespaceRuns (input : AnsiString) : AnsiString := collapseFrom false input

/-- The loop over the lines: empty ones are held back until one that is not
    empty comes. -/
def canonicalizeLines : List AnsiString → List AnsiString → List AnsiString → List AnsiString
  | output, _, [] => output
  | output, pendingEmptyLines, line :: lines =>
    let line := trimRight (collapseWhitespaceRuns line)
    let pendingEmptyLines := pendingEmptyLines ++ [line]
    if line = [] then canonicalizeLines output pendingEmptyLines lines
    else canonicalizeLines (output ++ pendingEmptyLines) [] lines

def linesText (lines : List AnsiString) : AnsiString := lines.flatMap (· ++ crlf)

def relaxedCanonicalizeBody (value : AnsiString) : AnsiString :=
  linesText (canonicalizeLines [] [] (StringParser.splitString value crlf))

/-- The loop that counts the line ends at the end, over the reversed text. -/
def dropLineEnds : AnsiString → AnsiString
  | 10 :: 13 :: s => dropLineEnds s
  | s => s

def simpleCanonicalizeBody (value : AnsiString) : AnsiString := (dropLineEnds value.reverse).reverse ++ crlf

/-! ## The RFC -/

def isWsp (c : UInt8) : Bool := c == 32 || c == 9

/-- The lines of a body, which end at CRLF only. -/
def bodyLines : AnsiString → List AnsiString
  | 13 :: 10 :: rest => [] :: bodyLines rest
  | c :: rest => (bodyLines rest).modifyHead (c :: ·)
  | [] => [[]]

/-- White space at the end of the line goes, any other run of it becomes one
    SP. -/
def reduceLine : AnsiString → AnsiString
  | [] => []
  | c :: rest =>
    if isWsp c then
      match rest with
      | [] => []
      | d :: _ => if isWsp d then reduceLine rest else 32 :: reduceLine rest
    else c :: reduceLine rest

/-- Lines without the empty ones at the end. -/
def keepLines (lines : List AnsiString) : List AnsiString := lines.rdropWhile (· == [])

/-- Section 3.4.4. -/
def rfcRelaxedBody (body : AnsiString) : AnsiString := linesText (keepLines ((bodyLines body).map reduceLine))

/-- Section 3.4.3. -/
def rfcSimpleBody (body : AnsiString) : AnsiString := crlf.intercalate (keepLines (bodyLines body)) ++ crlf

/-- What is promised of one body. -/
structure BodyCanonicalized (b : AnsiString) : Prop where
  relaxed : relaxedCanonicalizeBody b = rfcRelaxedBody b
  simple : simpleCanonicalizeBody b = rfcSimpleBody b
  relaxed_twice : relaxedCanonicalizeBody (relaxedCanonicalizeBody b) = relaxedCanonicalizeBody b
  simple_twice : simpleCanonicalizeBody (simpleCanonicalizeBody b) = simpleCanonicalizeBody b
  relaxed_simple : relaxedCanonicalizeBody (simpleCanonicalizeBody b) = relaxedCanonicalizeBody b

/-- There is no NUL, and in front of the SP and HTAB at the end of a line
    stands no other white space: no bare CR or LF, vertical tab or form feed. -/
structure PlainBody (b : AnsiString) : Prop where
  noNul : 0 ∉ b
  lines : ∀ line ∈ bodyLines b, ∀ c, (line.rdropWhile isWsp).getLast? = some c → isSpace c = false

/-! ## One line -/

theorem rdropWhile_append_of_last {p : UInt8 → Bool} {a : AnsiString} {c : UInt8} (hc : p c = false) (s : AnsiString) :
    (a ++ [c] ++ s).rdropWhile p = a ++ [c] ++ s.rdropWhile p := by
  induction s using List.reverseRecOn with
  | nil => rw [List.append_nil, List.rdropWhile_nil, List.append_nil, List.rdropWhile_concat_neg _ _ _ (by simp [hc])]
  | append_singleton s d ih =>
    rw [← List.append_assoc, List.rdropWhile_concat, List.rdropWhile_concat]
    split
    · exact ih
    · rw [List.append_assoc]

theorem rdropWhile_cons_of_not {p : UInt8 → Bool} {c : UInt8} (hc : p c = false) (s : AnsiString) :
    (c :: s).rdropWhile p = c :: s.rdropWhile p := rdropWhile_append_of_last (a := []) hc s

theorem isWsp_iff (c : UInt8) : isWsp c = true ↔ c = 32 ∨ c = 9 := by simp [isWsp]

theorem isSpace_of_isWsp {c : UInt8} (h : isWsp c = true) : isSpace c = true := by
  rcases (isWsp_iff c).1 h with rfl | rfl <;> rfl

theorem reduceLine_wsp {c : UInt8} (hc : isWsp c = true) (rest : AnsiString) :
    reduceLine (c :: rest) = if rest.dropWhile isWsp = [] then [] else 32 :: reduceLine (rest.dropWhile isWsp) := by
  induction rest generalizing c with
  | nil => simp [reduceLine, hc]
  | cons d rest ih =>
    rw [reduceLine, if_pos hc]
    cases hd : isWsp d with
    | true => simpa [List.dropWhile_cons, hd] using ih hd
    | false => simp [hd]

theorem collapseFrom_true (s : AnsiString) : collapseFrom true s = collapseFrom false (s.dropWhile isWsp) := by
  induction s with
  | nil => rfl
  | cons c s ih =>
    rw [collapseFrom, List.dropWhile_cons]
    by_cases h : c = 32 ∨ c = 9
    · rw [if_pos h, if_pos ((isWsp_iff c).2 h), if_pos rfl, List.nil_append, ih]
    · rw [if_neg h, if_neg fun hw => h ((isWsp_iff c).1 hw), collapseFrom, if_neg h]

/-- Over a line, run of white space by run of white space. -/
@[elab_as_elim]
theorem wsp_induction {motive : AnsiString → Prop} (nil : motive [])
    (char : ∀ c rest, isWsp c = false → motive rest → motive (c :: rest))
    (blank : ∀ c rest, isWsp c = true → rest.dropWhile isWsp = [] → motive (c :: rest))
    (gap : ∀ c rest d more, isWsp c = true → rest.dropWhile isWsp = d :: more → isWsp d = false →
      motive (d :: more) → motive (c :: rest)) (s : AnsiString) : motive s := by
  induction hn : s.length using Nat.strong_induction_on generalizing s with
  | _ n ih =>
    cases s with
    | nil => exact nil
    | cons c rest =>
      cases hc : isWsp c with
      | false => exact char c rest hc (ih rest.length (by simp [← hn]) rest rfl)
      | true =>
        have hnot := List.head?_dropWhile_not isWsp rest
        have hlen := List.length_dropWhile_le isWsp rest
        cases hd : rest.dropWhile isWsp with
        | nil => exact blank c rest hc hd
        | cons d more =>
          rw [hd] at hnot hlen
          refine gap c rest d more hc hd hnot (ih (d :: more).length ?_ (d :: more) rfl)
          rw [← hn, List.length_cons]
          exact Nat.lt_succ_of_le hlen

theorem reduceLine_char {c : UInt8} (hc : isWsp c = false) (rest : AnsiString) :
    reduceLine (c :: rest) = c :: reduceLine rest := by
  cases rest <;> simp [reduceLine, hc]

theorem reduceLine_blank {c : UInt8} {rest : AnsiString} (hc : isWsp c = true) (hd : rest.dropWhile isWsp = []) :
    reduceLine (c :: rest) = [] := by
  rw [reduceLine_wsp hc, if_pos hd]

theorem reduceLine_gap {c d : UInt8} {rest more : AnsiString} (hc : isWsp c = true)
    (hd : rest.dropWhile isWsp = d :: more) : reduceLine (c :: rest) = 32 :: reduceLine (d :: more) := by
  rw [reduceLine_wsp hc, hd, if_neg (List.cons_ne_nil _ _)]

/-- Collapsing and trimming is reducing. -/
theorem collapse_rdropWhile (s : AnsiString) : (collapseWhitespaceRuns s).rdropWhile isWsp = reduceLine s := by
  induction s using wsp_induction with
  | nil => rfl
  | char c rest hc ih =>
    have hcollapse : collapseFrom false (c :: rest) = c :: collapseFrom false rest := by
      rw [collapseFrom, if_neg fun h => by rw [← isWsp_iff, hc] at h; cases h]
    rw [collapseWhitespaceRuns, hcollapse, reduceLine_char hc, ← ih]
    exact rdropWhile_cons_of_not hc _
  | blank c rest hc hd =>
    have hcollapse : collapseFrom false (c :: rest) = [32] := by
      rw [collapseFrom, if_pos ((isWsp_iff c).1 hc), collapseFrom_true, hd]
      rfl
    rw [collapseWhitespaceRuns, hcollapse, reduceLine_blank hc hd]
    rfl
  | gap c rest d more hc hd hdw ih =>
    have hcollapse : collapseFrom false (c :: rest) = 32 :: collapseFrom false (d :: more) := by
      rw [collapseFrom, if_pos ((isWsp_iff c).1 hc), collapseFrom_true, hd]
      rfl
    have hnext : collapseFrom false (d :: more) = d :: collapseFrom false more := by
      rw [collapseFrom, if_neg fun h => by rw [← isWsp_iff, hdw] at h; cases h]
    have hkeep := rdropWhile_append_of_last (a := [32]) hdw (collapseFrom false more)
    rw [collapseWhitespaceRuns, hnext, rdropWhile_cons_of_not hdw] at ih
    rw [collapseWhitespaceRuns, hcollapse, hnext, reduceLine_gap hc hd, ← ih]
    exact hkeep

theorem trimRight_rdropWhile (s : AnsiString) : trimRight (s.rdropWhile isWsp) = trimRight s := by
  induction s using List.reverseRecOn with
  | nil => rfl
  | append_singleton s c ih =>
    rw [List.rdropWhile_concat]
    split
    · rename_i h
      rw [ih, trimRight, trimRight, List.rdropWhile_concat_pos _ _ _ (isSpace_of_isWsp h)]
    · rfl

theorem trimRight_collapse (s : AnsiString) : trimRight (collapseWhitespaceRuns s) = trimRight (reduceLine s) := by
  rw [← collapse_rdropWhile, trimRight_rdropWhile]

theorem reduceLine_reduceLine (s : AnsiString) : reduceLine (reduceLine s) = reduceLine s := by
  induction s using wsp_induction with
  | nil => rfl
  | char c rest hc ih => rw [reduceLine_char hc, reduceLine_char hc, ih]
  | blank c rest hc hd => rw [reduceLine_blank hc hd, reduceLine]
  | gap c rest d more hc hd hdw ih =>
    have hdrop : (reduceLine (d :: more)).dropWhile isWsp = d :: reduceLine more := by
      rw [reduceLine_char hdw, List.dropWhile_cons, hdw, if_neg Bool.false_ne_true]
    rw [reduceLine_gap hc hd, reduceLine_gap (by rfl) hdrop, ← reduceLine_char hdw, ih]

/-- The last character of a reduced line is the last one in front of its
    white space. -/
theorem reduceLine_getLast? (s : AnsiString) : (reduceLine s).getLast? = (s.rdropWhile isWsp).getLast? := by
  induction s using wsp_induction with
  | nil => rfl
  | char c rest hc ih =>
    rw [reduceLine_char hc, rdropWhile_cons_of_not hc, List.getLast?_cons, List.getLast?_cons, ih]
  | blank c rest hc hd =>
    have hall : (c :: rest).rdropWhile isWsp = [] := by
      rw [List.rdropWhile_eq_nil_iff]
      intro x hx
      rcases List.mem_cons.1 hx with rfl | hx
      · exact hc
      · exact List.dropWhile_eq_nil_iff.1 hd x hx
    rw [reduceLine_blank hc hd, hall]
  | gap c rest d more hc hd hdw ih =>
    have hsplit : c :: rest = (c :: rest.takeWhile isWsp) ++ [d] ++ more := by
      rw [List.append_assoc, List.singleton_append, List.cons_append, ← hd, List.takeWhile_append_dropWhile]
    have hkeep := rdropWhile_append_of_last (a := c :: rest.takeWhile isWsp) hdw more
    rw [reduceLine_gap hc hd, hsplit, hkeep, List.getLast?_cons, ih, rdropWhile_cons_of_not hdw, List.append_assoc,
      List.singleton_append, List.getLast?_append, List.getLast?_cons]
    rfl

/-! ## Lines -/

/-- There is no CRLF in the text. -/
def NoLineEnd : AnsiString → Prop
  | 13 :: 10 :: _ => False
  | _ :: rest => NoLineEnd rest
  | [] => True

theorem bodyLines_ne_nil (s : AnsiString) : bodyLines s ≠ [] := by
  fun_induction bodyLines s with
  | case1 => exact List.cons_ne_nil _ _
  | case2 c rest _ ih =>
    obtain ⟨l, ls, hls⟩ := List.exists_cons_of_ne_nil ih
    rw [hls]
    exact List.cons_ne_nil _ _
  | case3 => exact List.cons_ne_nil _ _

theorem splitPieces_crlf (s : AnsiString) : StringParser.splitPieces crlf 0 s = bodyLines s := by
  fun_induction bodyLines s with
  | case1 rest ih => simpa [StringParser.splitPieces, crlf] using ih
  | case2 c rest h ih =>
    have hno : crlf.isPrefixOf (c :: rest) = false := by
      rw [Bool.eq_false_iff]
      intro hprefix
      obtain ⟨t, ht⟩ := List.isPrefixOf_iff_prefix.1 hprefix
      rw [crlf, List.cons_append, List.cons_append, List.nil_append, List.cons.injEq] at ht
      exact h t ht.1.symm ht.2.symm
    rw [StringParser.splitPieces, hno, if_neg Bool.false_ne_true, ih]
  | case3 => rfl

theorem noLineEnd_cons {c : UInt8} {s : AnsiString} (h : c = 13 → s.head? ≠ some 10) : NoLineEnd (c :: s) ↔ NoLineEnd s := by
  cases s with
  | nil => simp [NoLineEnd]
  | cons d s =>
    by_cases hc : c = 13
    · have hd : d ≠ 10 := fun hd => h hc (by rw [hd]; rfl)
      simp [NoLineEnd, hd]
    · simp [NoLineEnd, hc]

theorem NoLineEnd.tail {c : UInt8} {s : AnsiString} (h : NoLineEnd (c :: s)) : NoLineEnd s := by
  cases s with
  | nil => trivial
  | cons d s =>
    rw [NoLineEnd.eq_def] at h
    split at h
    · cases h
    · rename_i heq
      rw [(List.cons.inj heq).2]
      exact h
    · trivial

theorem NoLineEnd.head {s : AnsiString} (h : NoLineEnd (13 :: s)) : s.head? ≠ some 10 := by
  intro hs
  cases s with
  | nil => cases hs
  | cons d s =>
    rw [Option.some.inj hs] at h
    exact h

/-- A line and what is behind it. -/
theorem bodyLines_line {l : AnsiString} (h : NoLineEnd l) (rest : AnsiString) :
    bodyLines (l ++ 13 :: 10 :: rest) = l :: bodyLines rest := by
  induction l with
  | nil => rfl
  | cons c l ih =>
    have hnot : ∀ t, c = 13 → l ++ 13 :: 10 :: rest = 10 :: t → False := by
      intro t hc ht
      subst hc
      cases l with
      | nil => cases ht
      | cons d l => exact h.head (congrArg some (List.cons.inj ht).1)
    rw [List.cons_append, bodyLines.eq_2 _ _ hnot, ih h.tail]
    rfl

theorem bodyLines_last {l : AnsiString} (h : NoLineEnd l) : bodyLines l = [l] := by
  induction l with
  | nil => rfl
  | cons c l ih =>
    have hnot : ∀ t, c = 13 → l = 10 :: t → False := by
      intro t hc ht
      subst hc ht
      exact h
    rw [bodyLines.eq_2 _ _ hnot, ih h.tail]
    rfl

theorem bodyLines_prefix {s m : AnsiString} {ms : List AnsiString} (h : bodyLines s = m :: ms) : m <+: s := by
  fun_induction bodyLines s generalizing m ms with
  | case1 rest _ =>
    rw [← (List.cons.inj h).1]
    exact List.nil_prefix
  | case2 c rest _ ih =>
    obtain ⟨l, ls, hls⟩ := List.exists_cons_of_ne_nil (bodyLines_ne_nil rest)
    rw [hls] at h
    rw [← (List.cons.inj h).1, List.cons_prefix_cons]
    exact ⟨rfl, ih hls⟩
  | case3 =>
    rw [← (List.cons.inj h).1]

theorem noLineEnd_of_mem_bodyLines {s l : AnsiString} (hl : l ∈ bodyLines s) : NoLineEnd l := by
  fun_induction bodyLines s generalizing l with
  | case1 rest ih =>
    rcases List.mem_cons.1 hl with rfl | hl
    · trivial
    · exact ih hl
  | case2 c rest h ih =>
    obtain ⟨m, ms, hms⟩ := List.exists_cons_of_ne_nil (bodyLines_ne_nil rest)
    rw [hms] at hl ih
    rcases List.mem_cons.1 hl with rfl | hl
    · rw [noLineEnd_cons]
      · exact ih List.mem_cons_self
      · intro hc hhead
        obtain ⟨t, ht⟩ := bodyLines_prefix hms
        obtain ⟨more, hmore⟩ := List.head?_eq_some_iff.1 hhead
        rw [hmore] at ht
        exact h (more ++ t) hc ht.symm
    · exact ih (List.mem_cons_of_mem _ hl)
  | case3 =>
    rw [List.mem_singleton.1 hl]
    trivial

theorem bodyLines_linesText {ls : List AnsiString} (h : ∀ l ∈ ls, NoLineEnd l) : bodyLines (linesText ls) = ls ++ [[]] := by
  induction ls with
  | nil => rfl
  | cons l ls ih =>
    have hl := bodyLines_line (h l List.mem_cons_self) (linesText ls)
    rw [ih fun m hm => h m (List.mem_cons_of_mem _ hm)] at hl
    simpa [linesText, crlf] using hl

theorem mem_of_mem_bodyLines {s l : AnsiString} (hl : l ∈ bodyLines s) {c : UInt8} (hc : c ∈ l) : c ∈ s := by
  fun_induction bodyLines s generalizing l with
  | case1 rest ih =>
    rcases List.mem_cons.1 hl with rfl | hl
    · cases hc
    · simp [ih hl hc]
  | case2 d rest h ih =>
    obtain ⟨m, ms, hms⟩ := List.exists_cons_of_ne_nil (bodyLines_ne_nil rest)
    rw [hms] at hl ih
    rcases List.mem_cons.1 hl with rfl | hl
    · rcases List.mem_cons.1 hc with rfl | hc
      · simp
      · simp [ih List.mem_cons_self hc]
    · simp [ih (List.mem_cons_of_mem _ hl) hc]
  | case3 =>
    rw [List.mem_singleton.1 hl] at hc
    cases hc

theorem exists_bodyLines_of_mem {s : AnsiString} {c : UInt8} (hc : c ∈ s) (hcr : c ≠ 13) (hlf : c ≠ 10) :
    ∃ l ∈ bodyLines s, c ∈ l := by
  fun_induction bodyLines s with
  | case1 rest ih =>
    simp only [List.mem_cons, hcr, hlf, false_or] at hc
    obtain ⟨l, hl, hcl⟩ := ih hc
    exact ⟨l, List.mem_cons_of_mem _ hl, hcl⟩
  | case2 d rest h ih =>
    obtain ⟨m, ms, hms⟩ := List.exists_cons_of_ne_nil (bodyLines_ne_nil rest)
    rw [hms] at ih ⊢
    rcases List.mem_cons.1 hc with rfl | hc
    · exact ⟨_, List.mem_cons_self, List.mem_cons_self⟩
    · obtain ⟨l, hl, hcl⟩ := ih hc
      rcases List.mem_cons.1 hl with rfl | hl
      · exact ⟨_, List.mem_cons_self, List.mem_cons_of_mem _ hcl⟩
      · exact ⟨l, List.mem_cons_of_mem _ hl, hcl⟩
  | case3 => cases hc

theorem intercalate_bodyLines (s : AnsiString) : crlf.intercalate (bodyLines s) = s := by
  fun_induction bodyLines s with
  | case1 rest ih =>
    rw [List.intercalate_cons_of_ne_nil (bodyLines_ne_nil rest), ih]
    rfl
  | case2 c rest _ ih =>
    obtain ⟨m, ms, hms⟩ := List.exists_cons_of_ne_nil (bodyLines_ne_nil rest)
    rw [hms] at ih ⊢
    rw [← ih, List.modifyHead_cons]
    cases ms with
    | nil => simp
    | cons m' ms => simp
  | case3 => rfl

/-! ## Empty lines at the end -/

theorem keepLines_cons (x : AnsiString) (xs : List AnsiString) :
    keepLines (x :: xs) = if keepLines xs = [] ∧ x = [] then [] else x :: keepLines xs := by
  rw [keepLines, keepLines, List.rdropWhile, List.rdropWhile, List.reverse_cons, List.dropWhile_append]
  cases hd : xs.reverse.dropWhile (· == []) with
  | nil => by_cases hx : x = [] <;> simp [hx]
  | cons y ys => simp

theorem keepLines_eq_nil_iff (xs : List AnsiString) : keepLines xs = [] ↔ ∀ x ∈ xs, x = [] := by
  rw [keepLines, List.rdropWhile_eq_nil_iff]
  simp

theorem keepLines_append_empty (xs : List AnsiString) : keepLines (xs ++ [[]]) = keepLines xs := by
  rw [keepLines, List.rdropWhile_concat_pos _ _ _ (by rfl), keepLines]

theorem keepLines_keepLines (xs : List AnsiString) : keepLines (keepLines xs) = keepLines xs := List.rdropWhile_idempotent _ _

theorem keepLines_subset (xs : List AnsiString) : keepLines xs ⊆ xs := (List.rdropWhile_prefix _ _).subset

/-- Only the empty lines at the end depend on what is kept. -/
theorem keepLines_map {f : AnsiString → AnsiString} (hf : f [] = []) (xs : List AnsiString) :
    keepLines ((keepLines xs).map f) = keepLines (xs.map f) := by
  induction xs with
  | nil => rfl
  | cons x xs ih =>
    rw [keepLines_cons, List.map_cons, keepLines_cons (f x)]
    split
    · rename_i h
      have hnil : keepLines (xs.map f) = [] := by rw [← ih, h.1]; rfl
      rw [h.2, hf, if_pos ⟨hnil, rfl⟩]
      rfl
    · rw [List.map_cons, keepLines_cons, ih]

theorem linesText_cons (x : AnsiString) (xs : List AnsiString) : linesText (x :: xs) = x ++ 13 :: 10 :: linesText xs := by
  simp [linesText, crlf]

theorem linesText_eq_nil_iff (xs : List AnsiString) : linesText xs = [] ↔ xs = [] := by
  cases xs with
  | nil => simp [linesText]
  | cons x xs => simp [linesText_cons]

/-- The loop drops the empty lines at the end. -/
theorem canonicalizeLines_eq (lines : List AnsiString) (output : List AnsiString) {pending : List AnsiString}
    (hpending : ∀ l ∈ pending, l = []) : canonicalizeLines output pending lines =
      output ++ keepLines (pending ++ lines.map fun l => trimRight (collapseWhitespaceRuns l)) := by
  induction lines generalizing output pending with
  | nil =>
    have hnil : keepLines pending = [] := (keepLines_eq_nil_iff _).2 hpending
    rw [canonicalizeLines, List.map_nil, List.append_nil, hnil, List.append_nil]
  | cons l lines ih =>
    rw [canonicalizeLines]
    split
    · rename_i hl
      have hmore : ∀ m ∈ pending ++ [trimRight (collapseWhitespaceRuns l)], m = [] := by
        intro m hm
        rcases List.mem_append.1 hm with hm | hm
        · exact hpending m hm
        · rw [List.mem_singleton.1 hm, hl]
      rw [ih output hmore, List.append_assoc]
      rfl
    · rename_i hl
      have hkeep : ∀ pending : List AnsiString, keepLines (pending ++ trimRight (collapseWhitespaceRuns l) ::
          lines.map fun l => trimRight (collapseWhitespaceRuns l)) = pending ++ trimRight (collapseWhitespaceRuns l) ::
            keepLines (lines.map fun l => trimRight (collapseWhitespaceRuns l)) := by
        intro pending
        induction pending with
        | nil => rw [List.nil_append, keepLines_cons, if_neg fun h => hl h.2, List.nil_append]
        | cons m pending ih =>
          rw [List.cons_append, keepLines_cons, ih, if_neg fun h => by simp at h, List.cons_append]
      rw [ih _ (by simp), List.map_cons, hkeep]
      simp

/-- The lines the code sees. -/
def copiedLines (value : AnsiString) : List AnsiString :=
  match bodyLines value with
  | [_] => [value]
  | lines => lines.map cstr

def trimmedLine (line : AnsiString) : AnsiString := trimRight (reduceLine line)

theorem trimmedLine_nil : trimmedLine [] = [] := rfl

theorem relaxedCanonicalizeBody_eq (value : AnsiString) :
    relaxedCanonicalizeBody value = linesText (keepLines ((copiedLines value).map trimmedLine)) := by
  have hline : (fun l => trimRight (collapseWhitespaceRuns l)) = trimmedLine := by
    funext l
    exact trimRight_collapse l
  have hloop := canonicalizeLines_eq (StringParser.splitString value crlf) [] (List.forall_mem_nil fun l => l = [])
  rw [List.nil_append, List.nil_append, hline] at hloop
  obtain ⟨l, ls, hls⟩ := List.exists_cons_of_ne_nil (bodyLines_ne_nil value)
  rw [relaxedCanonicalizeBody, hloop, StringParser.splitString, splitPieces_crlf, copiedLines, hls]
  cases ls with
  | nil =>
    dsimp only
    split
    · rename_i hnil
      rw [hnil]
      rfl
    · rfl
  | cons m ls =>
    dsimp only
    split
    · rename_i hlast
      obtain ⟨init, hinit⟩ := List.getLast?_eq_some_iff.1 hlast
      rw [hinit, List.dropLast_concat, List.map_append, List.map_singleton, trimmedLine_nil, keepLines_append_empty]
    · rfl

theorem copiedLines_of_noNul {value : AnsiString} (h : 0 ∉ value) : copiedLines value = bodyLines value := by
  have hcstr : ∀ l ∈ bodyLines value, cstr l = l := by
    intro l hl
    rw [cstr, List.takeWhile_eq_self_iff]
    intro c hc
    rw [bne_iff_ne]
    rintro rfl
    exact h (mem_of_mem_bodyLines hl hc)
  have hvalue := intercalate_bodyLines value
  obtain ⟨l, ls, hls⟩ := List.exists_cons_of_ne_nil (bodyLines_ne_nil value)
  rw [hls] at hcstr hvalue
  rw [copiedLines, hls]
  cases ls with
  | nil =>
    dsimp only
    rw [← hvalue, List.intercalate_singleton]
  | cons m ls =>
    conv_rhs => rw [← List.map_id (l :: m :: ls)]
    exact List.map_congr_left hcstr

/-! ## The simple canonicalization -/

/-- The text less its line ends at the end. -/
def stripLineEnds (value : AnsiString) : AnsiString := (dropLineEnds value.reverse).reverse

theorem stripLineEnds_crlf (value : AnsiString) : stripLineEnds (value ++ crlf) = stripLineEnds value := by
  simp [stripLineEnds, crlf, dropLineEnds]

theorem stripLineEnds_of_not {value : AnsiString} (h : ∀ s, value ≠ s ++ crlf) : stripLineEnds value = value := by
  have hdrop : dropLineEnds value.reverse = value.reverse := by
    rw [dropLineEnds.eq_def]
    split
    · rename_i s hs
      have hvalue := congrArg List.reverse hs
      rw [List.reverse_reverse] at hvalue
      exact absurd (hvalue.trans (by simp [crlf])) (h s.reverse)
    · rfl
  rw [stripLineEnds, hdrop, List.reverse_reverse]

theorem stripLineEnds_stripLineEnds (value : AnsiString) : stripLineEnds (stripLineEnds value) = stripLineEnds value := by
  have hdrop : ∀ s, dropLineEnds (dropLineEnds s) = dropLineEnds s := by
    intro s
    fun_induction dropLineEnds s with
    | case1 s ih => exact ih
    | case2 s h => exact dropLineEnds.eq_2 s h
  rw [stripLineEnds, stripLineEnds, List.reverse_reverse, hdrop]

theorem not_noLineEnd (l : AnsiString) : ¬ NoLineEnd (l ++ crlf) := by
  induction l with
  | nil => exact fun h => h
  | cons c l ih => exact fun h => ih h.tail

theorem not_crlf_of_noLineEnd {l : AnsiString} (h : NoLineEnd l) (hne : l ≠ []) (s t : AnsiString) :
    s ++ crlf ++ l ≠ t ++ crlf := by
  intro heq
  have hcrlf : crlf = [13] ++ [10] := rfl
  rcases List.eq_nil_or_concat l with rfl | ⟨l, c, rfl⟩
  · exact hne rfl
  · have hlast : s ++ crlf ++ l ++ [c] = t ++ [13] ++ [10] := by simpa [hcrlf] using heq
    obtain ⟨hinit, hc⟩ := List.append_inj' hlast rfl
    rcases List.eq_nil_or_concat l with rfl | ⟨l, d, rfl⟩
    · have hten : s ++ [13] ++ [10] = t ++ [13] := by simpa [hcrlf] using hinit
      exact absurd (List.append_inj' hten rfl).2 (by decide)
    · have hthirteen : s ++ crlf ++ l ++ [d] = t ++ [13] := by simpa using hinit
      have hd := (List.append_inj' hthirteen rfl).2
      rw [List.concat_eq_append, List.concat_eq_append, hc, hd, List.append_assoc, ← hcrlf] at h
      exact not_noLineEnd l h

theorem intercalate_concat {init : List AnsiString} (hne : init ≠ []) (l : AnsiString) :
    crlf.intercalate (init ++ [l]) = crlf.intercalate init ++ crlf ++ l := by
  induction init with
  | nil => exact absurd rfl hne
  | cons m init ih =>
    cases init with
    | nil => simp
    | cons m' init =>
      rw [List.cons_append, List.intercalate_cons_of_ne_nil (by simp), ih (List.cons_ne_nil _ _),
        List.intercalate_cons_of_ne_nil (List.cons_ne_nil _ _)]
      simp

/-- Without the line ends at the end the lines are the ones that are kept. -/
theorem stripLineEnds_intercalate {lines : List AnsiString} (h : ∀ l ∈ lines, NoLineEnd l) :
    stripLineEnds (crlf.intercalate lines) = crlf.intercalate (keepLines lines) := by
  induction lines using List.reverseRecOn with
  | nil => rfl
  | append_singleton init l ih =>
    have hrest := ih fun m hm => h m (List.mem_append_left _ hm)
    by_cases hl : l = []
    · rw [hl, keepLines_append_empty, ← hrest]
      by_cases hinit : init = []
      · rw [hinit]
        rfl
      · rw [intercalate_concat hinit, List.append_nil, stripLineEnds_crlf]
    · have hkeep : keepLines (init ++ [l]) = init ++ [l] := List.rdropWhile_concat_neg _ _ _ (by simpa using hl)
      have hnl := h l (by simp)
      rw [hkeep]
      apply stripLineEnds_of_not
      intro t
      by_cases hinit : init = []
      · rw [hinit, List.nil_append, List.intercalate_singleton]
        rintro rfl
        exact not_noLineEnd t hnl
      · rw [intercalate_concat hinit]
        exact not_crlf_of_noLineEnd hnl hl _ _

theorem simpleCanonicalizeBody_eq (b : AnsiString) : simpleCanonicalizeBody b = rfcSimpleBody b := by
  have hstrip := stripLineEnds_intercalate fun l hl => noLineEnd_of_mem_bodyLines (s := b) hl
  rw [intercalate_bodyLines] at hstrip
  rw [rfcSimpleBody, ← hstrip]
  rfl

theorem simpleCanonicalizeBody_twice (b : AnsiString) :
    simpleCanonicalizeBody (simpleCanonicalizeBody b) = simpleCanonicalizeBody b := by
  have htwice : stripLineEnds (stripLineEnds b ++ crlf) = stripLineEnds b := by
    rw [stripLineEnds_crlf, stripLineEnds_stripLineEnds]
  exact congrArg (· ++ crlf) htwice

/-! ## The relaxed canonicalization -/

theorem mem_reduceLine {x : UInt8} (hx : isWsp x = false) (l : AnsiString) : x ∈ reduceLine l ↔ x ∈ l := by
  have hne : ∀ {c : UInt8}, isWsp c = true → x ≠ c := by
    rintro c hc rfl
    rw [hx] at hc
    cases hc
  induction l using wsp_induction with
  | nil => rfl
  | char c rest hc ih =>
    rw [reduceLine_char hc, List.mem_cons, List.mem_cons]
    exact or_congr_right ih
  | blank c rest hc hd =>
    have hall := List.dropWhile_eq_nil_iff.1 hd
    rw [reduceLine_blank hc hd, List.mem_cons, or_iff_right (hne hc)]
    exact ⟨fun h => absurd h List.not_mem_nil, fun h => absurd rfl (hne (hall x h))⟩
  | gap c rest d more hc hd hdw ih =>
    have hrest : x ∈ rest ↔ x ∈ d :: more := by
      rw [← List.takeWhile_append_dropWhile (p := isWsp) (l := rest), hd, List.mem_append]
      exact or_iff_right fun h => absurd rfl (hne (List.mem_takeWhile_imp h))
    rw [reduceLine_gap hc hd, List.mem_cons, or_iff_right (hne (by rfl)), List.mem_cons (b := c), or_iff_right (hne hc),
      hrest]
    exact ih

theorem NoLineEnd.suffix {a s : AnsiString} (h : NoLineEnd (a ++ s)) : NoLineEnd s := by
  induction a with
  | nil => exact h
  | cons c a ih => exact ih h.tail

theorem noLineEnd_reduceLine {l : AnsiString} (h : NoLineEnd l) : NoLineEnd (reduceLine l) := by
  induction l using wsp_induction with
  | nil => trivial
  | char c rest hc ih =>
    rw [reduceLine_char hc, noLineEnd_cons]
    · exact ih h.tail
    · rintro rfl hhead
      cases rest with
      | nil => cases hhead
      | cons d more =>
        cases hd : isWsp d with
        | true =>
          rw [reduceLine_wsp hd] at hhead
          split at hhead
          · cases hhead
          · exact absurd (Option.some.inj hhead) (by decide)
        | false =>
          rw [reduceLine_char hd] at hhead
          exact h.head hhead
  | blank c rest hc hd =>
    rw [reduceLine_blank hc hd]
    trivial
  | gap c rest d more hc hd hdw ih =>
    rw [reduceLine_gap hc hd, noLineEnd_cons fun h => absurd h (by decide)]
    apply ih
    rw [← hd]
    apply NoLineEnd.suffix (a := rest.takeWhile isWsp)
    rw [List.takeWhile_append_dropWhile]
    exact h.tail

theorem trimmedLine_eq_iff (l : AnsiString) :
    trimmedLine l = reduceLine l ↔ ∀ c, (l.rdropWhile isWsp).getLast? = some c → isSpace c = false := by
  rw [trimmedLine, trimRight, List.rdropWhile_eq_self_iff, ← reduceLine_getLast?]
  constructor
  · intro h c hc
    obtain ⟨hne, rfl⟩ := List.mem_getLast?_eq_getLast hc
    simpa using h hne
  · intro h hne
    simpa using h _ (List.getLast?_eq_some_getLast hne)

variable {b : AnsiString}

theorem PlainBody.relaxed (h : PlainBody b) : relaxedCanonicalizeBody b = rfcRelaxedBody b := by
  have hlines : (bodyLines b).map trimmedLine = (bodyLines b).map reduceLine :=
    List.map_congr_left fun l hl => (trimmedLine_eq_iff l).2 (h.lines l hl)
  rw [relaxedCanonicalizeBody_eq, copiedLines_of_noNul h.noNul, hlines, rfcRelaxedBody]

/-- The lines of the relaxed body. -/
theorem bodyLines_rfcRelaxedBody (b : AnsiString) :
    bodyLines (rfcRelaxedBody b) = keepLines ((bodyLines b).map reduceLine) ++ [[]] := by
  apply bodyLines_linesText
  intro l hl
  obtain ⟨m, hm, rfl⟩ := List.mem_map.1 (keepLines_subset _ hl)
  exact noLineEnd_reduceLine (noLineEnd_of_mem_bodyLines hm)

theorem mem_linesText {ls : List AnsiString} {c : UInt8} (hcr : c ≠ 13) (hlf : c ≠ 10) :
    c ∈ linesText ls ↔ ∃ l ∈ ls, c ∈ l := by
  simp [linesText, crlf, hcr, hlf]

theorem PlainBody.rfcRelaxedBody (h : PlainBody b) : PlainBody (rfcRelaxedBody b) where
  noNul := by
    rw [Dkim.rfcRelaxedBody, mem_linesText (by decide) (by decide)]
    rintro ⟨l, hl, hnul⟩
    obtain ⟨m, hm, rfl⟩ := List.mem_map.1 (keepLines_subset _ hl)
    exact h.noNul (mem_of_mem_bodyLines hm ((mem_reduceLine (by rfl) m).1 hnul))
  lines := by
    rw [bodyLines_rfcRelaxedBody]
    intro l hl c hc
    rcases List.mem_append.1 hl with hl | hl
    · obtain ⟨m, hm, rfl⟩ := List.mem_map.1 (keepLines_subset _ hl)
      rw [← reduceLine_getLast?, reduceLine_reduceLine, reduceLine_getLast?] at hc
      exact h.lines m hm c hc
    · rw [List.mem_singleton.1 hl] at hc
      cases hc

theorem rfcRelaxedBody_twice (b : AnsiString) : rfcRelaxedBody (rfcRelaxedBody b) = rfcRelaxedBody b := by
  have hreduced : ((bodyLines b).map reduceLine).map reduceLine = (bodyLines b).map reduceLine := by
    rw [List.map_map]
    exact List.map_congr_left fun l _ => reduceLine_reduceLine l
  have hnil : reduceLine [] = [] := rfl
  rw [rfcRelaxedBody, bodyLines_rfcRelaxedBody, List.map_append, List.map_singleton, hnil, keepLines_append_empty,
    keepLines_map hnil, hreduced, rfcRelaxedBody]

theorem intercalate_crlf (l : AnsiString) (ls : List AnsiString) :
    crlf.intercalate (l :: ls) ++ crlf = linesText (l :: ls) := by
  induction ls generalizing l with
  | nil => simp [linesText]
  | cons l' ls ih =>
    rw [List.intercalate_cons_cons, List.append_assoc, List.append_assoc, ih l']
    simp [linesText]

/-- The lines of the simple body: those that are kept, or an empty one. -/
theorem bodyLines_rfcSimpleBody (b : AnsiString) :
    ∃ ls, bodyLines (rfcSimpleBody b) = ls ++ [[]] ∧ keepLines ls = keepLines (bodyLines b) ∧
      ∀ l ∈ ls, l ∈ bodyLines b ∨ l = [] := by
  have hsubset := keepLines_subset (bodyLines b)
  have hkeep := keepLines_keepLines (bodyLines b)
  rw [rfcSimpleBody]
  cases hk : keepLines (bodyLines b) with
  | nil => exact ⟨[[]], rfl, rfl, fun l hl => .inr (List.mem_singleton.1 hl)⟩
  | cons k ks =>
    rw [hk] at hsubset hkeep
    rw [intercalate_crlf, bodyLines_linesText fun l hl => noLineEnd_of_mem_bodyLines (hsubset hl)]
    exact ⟨k :: ks, rfl, hkeep, fun l hl => .inl (hsubset hl)⟩

theorem PlainBody.rfcSimpleBody (h : PlainBody b) : PlainBody (rfcSimpleBody b) := by
  obtain ⟨ls, hls, _, hmem⟩ := bodyLines_rfcSimpleBody b
  have hlines : ∀ l ∈ bodyLines (Dkim.rfcSimpleBody b), l ∈ bodyLines b ∨ l = [] := by
    rw [hls]
    intro l hl
    rcases List.mem_append.1 hl with hl | hl
    · exact hmem l hl
    · exact .inr (List.mem_singleton.1 hl)
  constructor
  · intro hnul
    obtain ⟨l, hl, hc⟩ := exists_bodyLines_of_mem hnul (by decide) (by decide)
    rcases hlines l hl with hl | rfl
    · exact h.noNul (mem_of_mem_bodyLines hl hc)
    · cases hc
  · intro l hl c hc
    rcases hlines l hl with hl | rfl
    · exact h.lines l hl c hc
    · cases hc

theorem rfcRelaxedBody_rfcSimpleBody (b : AnsiString) : rfcRelaxedBody (rfcSimpleBody b) = rfcRelaxedBody b := by
  obtain ⟨ls, hls, hkeep, _⟩ := bodyLines_rfcSimpleBody b
  have hnil : reduceLine [] = [] := rfl
  rw [rfcRelaxedBody, hls, List.map_append, List.map_singleton, hnil, keepLines_append_empty, ← keepLines_map hnil, hkeep,
    keepLines_map hnil, rfcRelaxedBody]

/-! ## Where they agree -/

theorem mem_keepLines {x : AnsiString} {xs : List AnsiString} (h : x ∈ xs) (hne : x ≠ []) : x ∈ keepLines xs := by
  induction xs with
  | nil => cases h
  | cons y xs ih =>
    rw [keepLines_cons]
    rcases List.mem_cons.1 h with rfl | h
    · rw [if_neg fun hy => hne hy.2]
      exact List.mem_cons_self
    · have hmem := ih h
      rw [if_neg fun hy => by rw [hy.1] at hmem; cases hmem]
      exact List.mem_cons_of_mem _ hmem

/-- Of more than one line nothing behind a NUL is left. -/
theorem noNul_relaxedCanonicalizeBody {value : AnsiString} (h : ∀ l, bodyLines value ≠ [l]) :
    0 ∉ relaxedCanonicalizeBody value := by
  have hcopied : copiedLines value = (bodyLines value).map cstr := by
    rw [copiedLines]
    split
    · rename_i l hl
      exact absurd hl (h l)
    · rfl
  rw [relaxedCanonicalizeBody_eq, mem_linesText (by decide) (by decide), hcopied]
  rintro ⟨l, hl, hnul⟩
  obtain ⟨m, hm, rfl⟩ := List.mem_map.1 (keepLines_subset _ hl)
  obtain ⟨k, hk, rfl⟩ := List.mem_map.1 hm
  have hreduced := (List.rdropWhile_prefix _ _).subset hnul
  rw [mem_reduceLine (by rfl)] at hreduced
  exact absurd (List.mem_takeWhile_imp hreduced) (by decide)

theorem linesText_length_zero {xs : List AnsiString} (h : (linesText xs).length = 0) : xs = [] :=
  (linesText_eq_nil_iff xs).1 (List.length_eq_zero_iff.1 h)

/-- Trimming makes the text shorter, unless it changes no line. -/
theorem linesText_trimRight (lines : List AnsiString) :
    (linesText (keepLines (lines.map trimRight))).length ≤ (linesText (keepLines lines)).length ∧
    ((linesText (keepLines (lines.map trimRight))).length = (linesText (keepLines lines)).length →
      ∀ l ∈ lines, trimRight l = l) := by
  induction lines with
  | nil => exact ⟨Nat.le_refl _, fun _ l hl => absurd hl List.not_mem_nil⟩
  | cons x lines ih =>
    obtain ⟨hle, heq⟩ := ih
    have hpre : trimRight x <+: x := List.rdropWhile_prefix _ _
    have hlen := hpre.length_le
    rw [List.map_cons, keepLines_cons, keepLines_cons x]
    by_cases hx : keepLines lines = [] ∧ x = []
    · have hnil : keepLines (lines.map trimRight) = [] := by
        rw [hx.1] at hle
        exact linesText_length_zero (Nat.le_zero.1 hle)
      have htrim : trimRight x = [] := by rw [hx.2]; rfl
      rw [if_pos hx, if_pos ⟨hnil, htrim⟩]
      refine ⟨Nat.le_refl _, fun _ => List.forall_mem_cons.2 ⟨?_, heq ?_⟩⟩
      · rw [htrim, hx.2]
      · rw [hnil, hx.1]
    · have htext : ∀ (y : AnsiString) (ys : List AnsiString),
          (linesText (y :: ys)).length = y.length + 2 + (linesText ys).length := by
        intro y ys
        rw [linesText_cons, List.length_append, List.length_cons, List.length_cons]
        omega
      rw [if_neg hx]
      split
      · rename_i hy
        have hpos := htext x (keepLines lines)
        refine ⟨Nat.zero_le _, fun h => ?_⟩
        have hzero : (linesText ([] : List AnsiString)).length = 0 := rfl
        omega
      · have hleft := htext (trimRight x) (keepLines (lines.map trimRight))
        have hright := htext x (keepLines lines)
        refine ⟨by omega, fun h => List.forall_mem_cons.2 ⟨hpre.eq_of_length (by omega), heq (by omega)⟩⟩

/-- Both canonicalizations are those of the RFC, and agree with each other and
    themselves, exactly if the body is plain. -/
theorem body_canonicalized_iff (b : AnsiString) : BodyCanonicalized b ↔ PlainBody b := by
  constructor
  · intro h
    have hnoNul : 0 ∉ b := by
      intro hnul
      obtain ⟨l, hl, hnul⟩ := exists_bodyLines_of_mem hnul (by decide) (by decide)
      have hreduced := (mem_reduceLine (by rfl) l).2 hnul
      have hkept := mem_keepLines (List.mem_map_of_mem hl) (List.ne_nil_of_mem hreduced)
      have hrelaxed : 0 ∈ relaxedCanonicalizeBody b := by
        rw [h.relaxed, rfcRelaxedBody, mem_linesText (by decide) (by decide)]
        exact ⟨_, hkept, hreduced⟩
      -- The second time there is more than one line, and the NUL is cut off.
      have htwice := h.relaxed_twice
      rw [h.relaxed] at htwice hrelaxed
      have hno : 0 ∉ relaxedCanonicalizeBody (rfcRelaxedBody b) := by
        apply noNul_relaxedCanonicalizeBody
        intro m hm
        have hlen := congrArg List.length hm
        have hpos := List.length_pos_of_mem hkept
        rw [bodyLines_rfcRelaxedBody, List.length_append, List.length_singleton, List.length_singleton] at hlen
        omega
      rw [htwice] at hno
      exact hno hrelaxed
    refine ⟨hnoNul, fun l hl => (trimmedLine_eq_iff l).1 ?_⟩
    have hrelaxed := h.relaxed
    have htrimmed : (bodyLines b).map trimmedLine = ((bodyLines b).map reduceLine).map trimRight := by
      rw [List.map_map]
      rfl
    rw [relaxedCanonicalizeBody_eq, copiedLines_of_noNul hnoNul, htrimmed, rfcRelaxedBody] at hrelaxed
    exact (linesText_trimRight _).2 (congrArg List.length hrelaxed) _ (List.mem_map_of_mem hl)
  · intro h
    constructor
    · exact h.relaxed
    · exact simpleCanonicalizeBody_eq b
    · rw [h.relaxed, h.rfcRelaxedBody.relaxed, rfcRelaxedBody_twice]
    · exact simpleCanonicalizeBody_twice b
    · rw [simpleCanonicalizeBody_eq, h.rfcSimpleBody.relaxed, h.relaxed, rfcRelaxedBody_rfcSimpleBody]

/-- A vertical tab at the end of a line, and what stands behind a NUL, are not
    hashed. -/
theorem relaxed_body_differs :
    relaxedCanonicalizeBody [97, 11, 13, 10] = [97, 13, 10] ∧ rfcRelaxedBody [97, 11, 13, 10] = [97, 11, 13, 10] ∧
    relaxedCanonicalizeBody [97, 0, 98, 13, 10] = [97, 13, 10] ∧
    rfcRelaxedBody [97, 0, 98, 13, 10] = [97, 0, 98, 13, 10] ∧
    ¬ BodyCanonicalized [97, 11, 13, 10] ∧ ¬ BodyCanonicalized [97, 0, 98, 13, 10] := by
  refine ⟨by decide, by decide, by decide, by decide, ?_, ?_⟩
  · exact fun h => absurd h.relaxed (by decide)
  · exact fun h => absurd h.relaxed (by decide)

end HMailServer.Dkim
