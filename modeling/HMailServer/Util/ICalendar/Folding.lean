import HMailServer.Util.ICalendar.Text

/- Folding and unfolding. A folded line comes back whole, no physical line of it
   is too long, and a fold stands in front of a continuation byte only where
   there are so many of them in a row that a line is full of them. -/
namespace HMailServer.ICalendar

/-! ## The pieces of a line -/

theorem backOff_le (rest : AnsiString) (take : Nat) : backOff rest take ≤ take := by
  fun_induction backOff rest take with
  | case1 => exact Nat.le_refl _
  | case2 => exact Nat.le_refl _
  | case3 take c hc hcont ih => omega
  | case4 => exact Nat.le_refl _
  | case5 => exact Nat.le_refl _

/-- It backs off over continuation bytes, and to one in the end only where there
    is nothing else. -/
theorem backOff_spec (rest : AnsiString) (take : Nat) :
    (∀ j, backOff rest take < j → j ≤ take → ∃ c, rest[j]? = some c ∧ isContinuation c = true) ∧
      (backOff rest take ≤ 1 ∨ ∀ c, rest[backOff rest take]? = some c → isContinuation c = false) := by
  fun_induction backOff rest take with
  | case1 => exact ⟨fun j h h' => by omega, .inl (Nat.zero_le _)⟩
  | case2 => exact ⟨fun j h h' => by omega, .inl (Nat.le_refl _)⟩
  | case3 take c hc hcont ih =>
    refine ⟨fun j h h' => ?_, ih.2⟩
    by_cases hj : j ≤ take + 1
    · exact ih.1 j h hj
    · obtain rfl : j = take + 2 := by omega
      exact ⟨c, hc, hcont⟩
  | case4 take c hc hcont =>
    refine ⟨fun j h h' => by omega, .inr fun d hd => ?_⟩
    rw [hc] at hd
    rw [← Option.some.inj hd]
    simpa using hcont
  | case5 take hc =>
    refine ⟨fun j h h' => by omega, .inr fun d hd => ?_⟩
    rw [hc] at hd
    cases hd

/-- What the first line takes of a text that is not empty. -/
theorem foldPieces_cons {width : Nat} (hwidth : 0 < width) {rest : AnsiString} (h : rest ≠ []) :
    ∃ n, 0 < n ∧ n ≤ width ∧ n = backOff rest (min width rest.length) ∧
      foldPieces width hwidth rest = rest.take n :: foldPieces (foldWidth - 1) (by decide) (rest.drop n) := by
  have hlength : 0 < rest.length := List.length_pos_iff.2 h
  refine ⟨backOff rest (min width rest.length), backOff_pos rest (by omega), ?_, rfl, ?_⟩
  · exact (backOff_le rest _).trans (Nat.min_le_left _ _)
  · rw [foldPieces, dif_neg h]

theorem foldPieces_nil {width : Nat} (hwidth : 0 < width) : foldPieces width hwidth [] = [] := by
  rw [foldPieces, dif_pos rfl]

theorem flatten_foldPieces {width : Nat} (hwidth : 0 < width) (rest : AnsiString) :
    (foldPieces width hwidth rest).flatten = rest := by
  induction hn : rest.length using Nat.strong_induction_on generalizing width rest with
  | _ n ih =>
    by_cases h : rest = []
    · rw [h, foldPieces_nil]
      rfl
    · obtain ⟨k, hk, _, _, hpieces⟩ := foldPieces_cons hwidth h
      have hlength : 0 < rest.length := List.length_pos_iff.2 h
      rw [hpieces, List.flatten_cons, ih (rest.drop k).length (by rw [List.length_drop]; omega) (by decide) _ rfl,
        List.take_append_drop]

theorem length_foldPieces {width : Nat} (hwidth : 0 < width) (hle : foldWidth - 1 ≤ width) (rest : AnsiString) :
    ∀ piece ∈ foldPieces width hwidth rest, piece.length ≤ width := by
  induction hn : rest.length using Nat.strong_induction_on generalizing width rest with
  | _ n ih =>
    by_cases h : rest = []
    · rw [h, foldPieces_nil]
      simp
    · obtain ⟨k, hk, hkw, _, hpieces⟩ := foldPieces_cons hwidth h
      have hlength : 0 < rest.length := List.length_pos_iff.2 h
      rw [hpieces]
      intro piece hpiece
      obtain rfl | hpiece := List.mem_cons.1 hpiece
      · exact (List.length_take_le _ _).trans hkw
      · exact (ih (rest.drop k).length (by rw [List.length_drop]; omega) (by decide) (Nat.le_refl _) _ rfl piece
          hpiece).trans hle

/-! ## Continuation bytes -/

/-- A piece that begins with a continuation byte. -/
def Torn (piece : AnsiString) : Prop := ∃ c ∈ piece.head?, isContinuation c = true

/-- So many continuation bytes in a row that they fill a line. -/
def Flooded (line : AnsiString) : Prop :=
  ∃ pre run post, line = pre ++ run ++ post ∧ run.length = foldWidth - 1 ∧ ∀ c ∈ run, isContinuation c = true

/-- A piece is torn off only where the text is flooded. -/
theorem flooded_of_torn {width : Nat} (hwidth : 0 < width) (hle : foldWidth - 1 ≤ width) {rest piece : AnsiString}
    (hpiece : piece ∈ (foldPieces width hwidth rest).tail) (htorn : Torn piece) : Flooded rest := by
  induction hn : rest.length using Nat.strong_induction_on generalizing width rest with
  | _ n ih =>
    by_cases h : rest = []
    · rw [h, foldPieces_nil] at hpiece
      cases hpiece
    obtain ⟨k, hk, hkw, hkoff, hpieces⟩ := foldPieces_cons hwidth h
    have hlength : 0 < rest.length := List.length_pos_iff.2 h
    rw [hpieces, List.tail_cons] at hpiece
    by_cases hdrop : rest.drop k = []
    · rw [hdrop, foldPieces_nil] at hpiece
      cases hpiece
    obtain ⟨k', hk', _, _, hpieces'⟩ := @foldPieces_cons (foldWidth - 1) (by decide) _ hdrop
    rw [hpieces'] at hpiece
    obtain rfl | hpiece := List.mem_cons.1 hpiece
    · -- the fold itself stands in front of a continuation byte
      obtain ⟨c, hc, hcont⟩ := htorn
      have hkth : rest[k]? = some c := by
        rw [List.head?_take, if_neg (by omega), List.head?_drop] at hc
        exact hc
      have hkl : k < rest.length := by
        by_contra hge
        rw [List.getElem?_eq_none (by omega)] at hkth
        cases hkth
      obtain ⟨hpassed, hlast⟩ := backOff_spec rest (min width rest.length)
      rw [← hkoff] at hpassed hlast
      have hone : k = 1 := by
        obtain hone | hlast := hlast
        · omega
        · rw [hlast c hkth] at hcont
          cases hcont
      subst hone
      have hcontinued : ∀ j, 1 ≤ j → j ≤ min width rest.length → ∃ d, rest[j]? = some d ∧ isContinuation d = true := by
        intro j hj hjle
        obtain rfl | hlt := Nat.eq_or_lt_of_le hj
        · exact ⟨c, hkth, hcont⟩
        · exact hpassed j hlt hjle
      have hlong : width < rest.length := by
        by_contra hge
        obtain ⟨d, hd, _⟩ := hcontinued rest.length (by omega) (by omega)
        rw [List.getElem?_eq_none (Nat.le_refl _)] at hd
        cases hd
      refine ⟨rest.take 1, (rest.drop 1).take (foldWidth - 1), (rest.drop 1).drop (foldWidth - 1), ?_, ?_, ?_⟩
      · rw [List.append_assoc, List.take_append_drop, List.take_append_drop]
      · rw [List.length_take, List.length_drop]
        omega
      · intro d hd
        obtain ⟨i, hi, rfl⟩ := List.mem_iff_getElem.1 hd
        rw [List.length_take, List.length_drop] at hi
        obtain ⟨e, he, hecont⟩ := hcontinued (1 + i) (by omega) (by omega)
        rw [List.getElem_take, List.getElem_drop]
        rw [List.getElem?_eq_getElem (by omega)] at he
        rw [Option.some.inj he]
        exact hecont
    · have hflood : Flooded (rest.drop k) := by
        refine ih (rest.drop k).length (by rw [List.length_drop]; omega) (by decide) (Nat.le_refl _) ?_ rfl
        rw [hpieces']
        exact hpiece
      obtain ⟨pre, run, post, heq, hrun⟩ := hflood
      refine ⟨rest.take k ++ pre, run, post, ?_, hrun⟩
      rw [List.append_assoc, List.append_assoc, ← List.append_assoc pre, ← heq, List.take_append_drop]

theorem torn_foldPieces {width : Nat} (hwidth : 0 < width) {rest : AnsiString} (h : Torn rest) :
    ∃ piece ∈ foldPieces width hwidth rest, Torn piece := by
  obtain ⟨c, hc, hcont⟩ := h
  have hne : rest ≠ [] := by
    rintro rfl
    cases hc
  obtain ⟨k, hk, _, _, hpieces⟩ := foldPieces_cons hwidth hne
  refine ⟨rest.take k, by rw [hpieces]; exact List.mem_cons_self, c, ?_, hcont⟩
  rw [List.head?_take, if_neg (by omega)]
  exact hc

/-- A flooded text is torn, unless the flood fits on the first line. -/
theorem torn_of_flooded {width : Nat} (hwidth : 0 < width) (hle : width ≤ foldWidth) {rest : AnsiString}
    (hhead : ¬Torn rest) (hsecond : width = foldWidth → ¬Torn rest.tail) (hflood : Flooded rest) :
    ∃ piece ∈ (foldPieces width hwidth rest).tail, Torn piece := by
  induction hn : rest.length using Nat.strong_induction_on generalizing width rest with
  | _ n ih =>
    obtain ⟨pre, run, post, rfl, hrun, hcont⟩ := hflood
    have hfold : foldWidth = 75 := rfl
    have hpre : pre ≠ [] := by
      rintro rfl
      cases run with
      | nil => cases hrun
      | cons c run => exact hhead ⟨c, rfl, hcont c List.mem_cons_self⟩
    have hprelen : 0 < pre.length := List.length_pos_iff.2 hpre
    have hne : pre ++ run ++ post ≠ [] := by simp [hpre]
    obtain ⟨k, hk, hkw, _, hpieces⟩ := foldPieces_cons hwidth hne
    rw [hpieces, List.tail_cons]
    -- a flood that fits on the line begins with its second byte
    have hreach : k < pre.length + run.length := by
      by_contra hge
      have hwide : width = foldWidth := by omega
      refine hsecond hwide ?_
      have hone : pre.length = 1 := by omega
      obtain ⟨d, rfl⟩ := List.length_eq_one_iff.1 hone
      cases run with
      | nil => cases hrun
      | cons c run => exact ⟨c, rfl, hcont c List.mem_cons_self⟩
    by_cases htorn : Torn ((pre ++ run ++ post).drop k)
    · exact torn_foldPieces (by decide) htorn
    by_cases hbefore : k < pre.length
    · have hdrop : (pre ++ run ++ post).drop k = pre.drop k ++ run ++ post := by
        rw [List.append_assoc, List.drop_append_of_le_length (by omega), List.append_assoc]
      have hshorter : ((pre ++ run ++ post).drop k).length < n := by
        rw [← hn, List.length_drop, List.length_append, List.length_append]
        omega
      have hnext : ∃ piece ∈ (foldPieces (foldWidth - 1) (by decide) ((pre ++ run ++ post).drop k)).tail, Torn piece :=
        ih _ hshorter (by decide) (by decide) htorn (fun h => absurd h (by decide))
          ⟨pre.drop k, run, post, hdrop, hrun, hcont⟩ rfl
      obtain ⟨piece, hpiece, htorn⟩ := hnext
      exact ⟨piece, List.mem_of_mem_tail hpiece, htorn⟩
    · -- the line ends inside the flood
      refine absurd ?_ htorn
      have hin : k - pre.length < run.length := by omega
      refine ⟨run[k - pre.length], ?_, hcont _ (List.getElem_mem hin)⟩
      rw [List.head?_drop, List.append_assoc, List.getElem?_append_right (by omega), List.getElem?_append_left hin]
      exact List.getElem?_eq_getElem hin

/-! ## Physical lines -/

theorem foldWidth_pos : 0 < foldWidth := by decide

/-- The physical lines of a folded line. -/
def foldedLines (line : AnsiString) : List AnsiString :=
  if line.length ≤ foldWidth then [line]
  else match foldPieces foldWidth foldWidth_pos line with
    | [] => []
    | first :: rest => first :: rest.map (32 :: ·)

theorem fold_eq (line : AnsiString) : fold line ++ crlf = (foldedLines line).flatMap (· ++ crlf) := by
  have hjoin : ∀ (first : AnsiString) (rest : List AnsiString),
      (crlf ++ [32]).intercalate (first :: rest) ++ crlf = (first :: rest.map (32 :: ·)).flatMap (· ++ crlf) := by
    intro first rest
    induction rest generalizing first with
    | nil => simp [List.intercalate]
    | cons next rest ih =>
      have hnext := ih next
      rw [List.flatMap_cons] at hnext
      rw [List.intercalate_cons_cons, List.append_assoc, List.append_assoc, hnext]
      simp
  unfold fold foldedLines
  split
  · simp
  · split
    · rename_i hlong _ hpieces
      have hflat := flatten_foldPieces (show 0 < foldWidth by decide) line
      rw [hpieces] at hflat
      rw [← hflat] at hlong
      exact absurd (Nat.zero_le _) hlong
    · rename_i first rest hpieces
      rw [hpieces]
      exact hjoin first rest

/-- Lines with their line breaks are those physical lines. -/
theorem physicalLines_flatMap {lines : List AnsiString} (h : ∀ line ∈ lines, 10 ∉ line) :
    physicalLines (lines.flatMap (· ++ crlf)) = lines := by
  have hsplit : (lines.flatMap (· ++ crlf)).splitOn 10 = lines.map (· ++ [13]) ++ [[]] := by
    induction lines with
    | nil => rfl
    | cons line lines ih =>
      have hline : (10 : UInt8) ∉ line ++ [13] := by
        have := h line List.mem_cons_self
        simp [this]
      rw [List.flatMap_cons, show line ++ crlf ++ lines.flatMap (· ++ crlf) =
        (line ++ [13]) ++ 10 :: lines.flatMap (· ++ crlf) by simp [crlf]]
      rw [List.splitOn_append_cons_self_of_not_mem hline, ih fun l hl => h l (List.mem_cons_of_mem _ hl)]
      rfl
  unfold physicalLines
  dsimp only
  rw [hsplit, if_pos (by simp), List.dropLast_concat, List.map_map]
  have hstrip : ((fun line : AnsiString => if line.getLast? = some 13 then line.dropLast else line) ∘ (· ++ [13])) = id := by
    funext line
    simp
  rw [hstrip, List.map_id]

/-- The physical lines that one logical line is written as. -/
def Written (line : AnsiString) (lines : List AnsiString) : Prop :=
  ∃ (c : UInt8) (first : AnsiString) (rest : List AnsiString), isSpaceOrTab c = false ∧
    lines = (c :: first) :: rest.map (32 :: ·) ∧ line = (c :: first) ++ rest.flatten

theorem joinLines_folded (current : AnsiString) (pieces lines : List AnsiString) :
    joinLines (some current) (pieces.map (32 :: ·) ++ lines) = joinLines (some (current ++ pieces.flatten)) lines := by
  induction pieces generalizing current with
  | nil => simp
  | cons piece pieces ih =>
    rw [List.map_cons, List.cons_append, joinLines, if_pos (by decide), ih, List.flatten_cons, List.append_assoc]

/-- Written lines are joined to the lines they were. -/
theorem joinLines_written {lines : List AnsiString} {physical : List (List AnsiString)}
    (h : List.Forall₂ Written lines physical) (current : Option AnsiString) :
    joinLines current physical.flatten = current.toList ++ lines := by
  induction h generalizing current with
  | nil => simp [joinLines]
  | @cons line written lines physical hline _ ih =>
    obtain ⟨c, first, rest, hc, rfl, rfl⟩ := hline
    have hrest := ih (some ((c :: first) ++ rest.flatten))
    cases current with
    | none =>
      rw [List.flatten_cons, List.cons_append, joinLines, joinLines_folded, hrest]
      rfl
    | some current =>
      rw [List.flatten_cons, List.cons_append, joinLines, if_neg (by simp [hc]), joinLines_folded, hrest]
      rfl

theorem written_whole {c : UInt8} (hc : isSpaceOrTab c = false) (line : AnsiString) :
    Written (c :: line) [c :: line] :=
  ⟨c, line, [], hc, rfl, (List.append_nil _).symm⟩

/-- What a line that is too long is folded to. -/
theorem foldedLines_long {c : UInt8} {line : AnsiString} (hlong : ¬(c :: line).length ≤ foldWidth) :
    ∃ first rest, foldPieces foldWidth (by decide) (c :: line) = (c :: first) :: rest ∧
      foldedLines (c :: line) = (c :: first) :: rest.map (32 :: ·) := by
  obtain ⟨k, hk, _, _, hpieces⟩ := @foldPieces_cons foldWidth (by decide) (c :: line) (List.cons_ne_nil _ _)
  obtain ⟨k, rfl⟩ := Nat.exists_eq_succ_of_ne_zero (Nat.pos_iff_ne_zero.1 hk)
  refine ⟨line.take k, _, hpieces, ?_⟩
  rw [foldedLines, if_neg hlong, hpieces]
  rfl

theorem written_foldedLines {c : UInt8} (hc : isSpaceOrTab c = false) (line : AnsiString) :
    Written (c :: line) (foldedLines (c :: line)) := by
  by_cases hlong : (c :: line).length ≤ foldWidth
  · rw [foldedLines, if_pos hlong]
    exact written_whole hc line
  · obtain ⟨first, rest, hpieces, hfolded⟩ := foldedLines_long hlong
    have hflat := flatten_foldPieces (show 0 < foldWidth by decide) (c :: line)
    rw [hpieces, List.flatten_cons] at hflat
    exact ⟨c, first, rest, hc, hfolded, hflat.symm⟩

theorem length_foldedLines (line : AnsiString) : ∀ physical ∈ foldedLines line, physical.length ≤ foldWidth := by
  cases line with
  | nil =>
    intro physical hphysical
    rw [List.mem_singleton.1 hphysical]
    exact Nat.zero_le _
  | cons c line =>
    by_cases hlong : (c :: line).length ≤ foldWidth
    · rw [foldedLines, if_pos hlong]
      intro physical hphysical
      rw [List.mem_singleton.1 hphysical]
      exact hlong
    · obtain ⟨first, rest, hpieces, hfolded⟩ := foldedLines_long hlong
      obtain ⟨k, _, _, _, hcons⟩ := @foldPieces_cons foldWidth (by decide) (c :: line) (List.cons_ne_nil _ _)
      have hfirst := length_foldPieces (show 0 < foldWidth by decide) (by decide) (c :: line)
      have hrest := length_foldPieces (show 0 < foldWidth - 1 by decide) (by decide) ((c :: line).drop k)
      rw [hpieces] at hfirst hcons
      rw [← (List.cons_eq_cons.1 hcons).2] at hrest
      rw [hfolded]
      intro physical hphysical
      obtain rfl | hphysical := List.mem_cons.1 hphysical
      · exact hfirst _ List.mem_cons_self
      · -- the space that begins the line counts
        obtain ⟨piece, hpiece, rfl⟩ := List.mem_map.1 hphysical
        have hlength := hrest piece hpiece
        rw [List.length_cons]
        exact Nat.succ_le_succ hlength

/-- A fold stands in front of a continuation byte exactly where the line is
    flooded. -/
theorem torn_foldedLines {c d : UInt8} {line : AnsiString} (hspace : c ≠ 32) (hc : isContinuation c = false)
    (hd : isContinuation d = false) :
    (∃ piece, 32 :: piece ∈ foldedLines (c :: d :: line) ∧ Torn piece) ↔ Flooded (c :: d :: line) := by
  have hhead : ¬Torn (c :: d :: line) := by
    rintro ⟨e, he, hcont⟩
    cases he
    rw [hc] at hcont
    cases hcont
  have hsecond : ¬Torn (d :: line) := by
    rintro ⟨e, he, hcont⟩
    cases he
    rw [hd] at hcont
    cases hcont
  constructor
  · rintro ⟨piece, hpiece, htorn⟩
    by_cases hlong : (c :: d :: line).length ≤ foldWidth
    · rw [foldedLines, if_pos hlong, List.mem_singleton] at hpiece
      exact absurd (List.cons_eq_cons.1 hpiece).1.symm hspace
    · obtain ⟨first, rest, hpieces, hfolded⟩ := foldedLines_long hlong
      refine flooded_of_torn (show 0 < foldWidth by decide) (by decide) ?_ htorn
      rw [hpieces, List.tail_cons]
      rw [hfolded, List.mem_cons] at hpiece
      obtain hpiece | hpiece := hpiece
      · exact absurd (List.cons_eq_cons.1 hpiece).1.symm hspace
      · obtain ⟨p, hp, heq⟩ := List.mem_map.1 hpiece
        rwa [← (List.cons_eq_cons.1 heq).2]
  · intro hflood
    obtain ⟨piece, hpiece, htorn⟩ := torn_of_flooded (show 0 < foldWidth by decide) (Nat.le_refl _) hhead
      (fun _ => hsecond) hflood
    have hlong : ¬(c :: d :: line).length ≤ foldWidth := by
      obtain ⟨pre, run, post, hline, hrun, hcont⟩ := hflood
      have hfold : foldWidth = 75 := rfl
      match pre, hline with
      | [], hline =>
        cases run with
        | nil => cases hrun
        | cons e run =>
          obtain ⟨rfl, _⟩ := List.cons_eq_cons.1 hline
          rw [hcont _ List.mem_cons_self] at hc
          cases hc
      | [_], hline =>
        cases run with
        | nil => cases hrun
        | cons e run =>
          obtain ⟨rfl, _⟩ := List.cons_eq_cons.1 (List.cons_eq_cons.1 hline).2
          rw [hcont _ List.mem_cons_self] at hd
          cases hd
      | _ :: _ :: pre, hline =>
        rw [hline]
        simp only [List.length_append, List.length_cons]
        omega
    obtain ⟨first, rest, hpieces, hfolded⟩ := foldedLines_long hlong
    rw [hpieces, List.tail_cons] at hpiece
    exact ⟨piece, by rw [hfolded]; simp [hpiece], htorn⟩

end HMailServer.ICalendar
