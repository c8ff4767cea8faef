import HMailServer.Util.AnsiString
import HMailServer.Lib.QuotedSplit
import HMailServer.Lib.Byte

/- The parameters of a content line, which the calendar and the contact card
   readers share: written one after the other, a value quoted where it holds a
   character that would end it, and read back piece by piece. -/
namespace HMailServer.LineParameters
open QuotedSplit AnsiString

/-- What holds of a parameter that was read. -/
structure ParameterOk (parameter : AnsiString × AnsiString) : Prop where
  name_upper : makeUpper parameter.1 = parameter.1
  name_trim : trim parameter.1 = parameter.1
  name_equals : 61 ∉ parameter.1
  name_semicolon : Enclosed 34 59 false parameter.1
  name_colon : Enclosed 34 58 false parameter.1
  name_break : 10 ∉ parameter.1
  value_quote : 34 ∉ parameter.2
  value_break : 10 ∉ parameter.2

theorem mem_makeUpper {c : UInt8} (hc : ∀ x, toUpper x = c ↔ x = c) {s : AnsiString} : c ∈ makeUpper s ↔ c ∈ s := by
  simp [makeUpper, hc]

theorem toUpper_quote : ∀ x, toUpper x = 34 ↔ x = 34 := Byte.forall_of_lt (by decide +kernel)
theorem toUpper_semicolon : ∀ x, toUpper x = 59 ↔ x = 59 := Byte.forall_of_lt (by decide +kernel)
theorem toUpper_colon : ∀ x, toUpper x = 58 ↔ x = 58 := Byte.forall_of_lt (by decide +kernel)
theorem toUpper_equals : ∀ x, toUpper x = 61 ↔ x = 61 := Byte.forall_of_lt (by decide +kernel)
theorem toUpper_break : ∀ x, toUpper x = 10 ↔ x = 10 := Byte.forall_of_lt (by decide +kernel)

/-- A trimmed text is enclosed as the text is. -/
theorem enclosed_trim {sep : UInt8} {s : AnsiString} (h : Enclosed 34 sep false s) : Enclosed 34 sep false (trim s) := by
  obtain ⟨l, r, hs, hl, _⟩ := exists_trim s
  have hquote : (34 : UInt8) ∉ l := fun hmem => absurd (hl _ hmem) (by decide)
  rw [hs, List.append_assoc, enclosed_append, quotedAfter_of_notMem false hquote, enclosed_append] at h
  exact h.2.1

theorem remove_of_notMem {c : UInt8} {s : AnsiString} (h : c ∉ s) : remove c s = s := by
  unfold remove
  rw [List.filter_eq_self]
  intro d hd
  have hne : d ≠ c := by
    rintro rfl
    exact h hd
  simpa using hne

/-- A name and a value cut out of a line make such a parameter. -/
theorem parameterOk_of_pieces {whole name value : AnsiString} (hname : name <+: whole) (hequals : 61 ∉ name)
    (hvalue : value ⊆ whole) (hsemicolon : Enclosed 34 59 false whole) (hcolon : Enclosed 34 58 false whole)
    (hbreak : 10 ∉ whole) : ParameterOk (makeUpper (trim name), remove 34 (trim value)) := by
  obtain ⟨rest, hrest⟩ := hname
  rw [← hrest, enclosed_append] at hsemicolon hcolon
  have hname_break : 10 ∉ name := fun hmem => hbreak (hrest ▸ List.mem_append_left rest hmem)
  exact {
    name_upper := makeUpper_makeUpper _
    name_trim := trim_makeUpper (trim_trim name)
    name_equals := fun hmem => hequals (trim_subset name ((mem_makeUpper toUpper_equals).1 hmem))
    name_semicolon := (enclosed_map toUpper_quote toUpper_semicolon _ _).2 (enclosed_trim hsemicolon.1)
    name_colon := (enclosed_map toUpper_quote toUpper_colon _ _).2 (enclosed_trim hcolon.1)
    name_break := fun hmem => hname_break (trim_subset name ((mem_makeUpper toUpper_break).1 hmem))
    value_quote := by simp [remove]
    value_break := fun hmem => hbreak (hvalue (trim_subset value (List.mem_of_mem_filter hmem))) }

/-! ## Parameters as they are written -/

section

variable (ends : UInt8 → Bool)

/-- A value, quoted where it holds a character that would end it. -/
def valueText (value : AnsiString) : AnsiString := if value.any ends then 34 :: value ++ [34] else value

def part (parameter : AnsiString × AnsiString) : AnsiString := parameter.1 ++ 61 :: valueText ends parameter.2

/-- The parameters of a line. -/
def parts (parameters : List (AnsiString × AnsiString)) : AnsiString :=
  parameters.flatMap fun parameter => 59 :: part ends parameter

/-- No quotation stays open in the name, and a value with white space around it
    holds a character that has it quoted. -/
def Survives (parameter : AnsiString × AnsiString) : Prop :=
  quotedAfter 34 false parameter.1 = false ∧ (parameter.2.any ends = true ∨ trim parameter.2 = parameter.2)

end

variable {ends : UInt8 → Bool}

theorem parts_cons (parameter : AnsiString × AnsiString) (rest : List (AnsiString × AnsiString)) :
    parts ends (parameter :: rest) = 59 :: (part ends parameter ++ parts ends rest) := by
  unfold parts
  rw [List.flatMap_cons]
  rfl

/-- Whatever follows a part in a line begins with a semicolon. -/
theorem parts_head {parameters : List (AnsiString × AnsiString)} {c : UInt8} {s t : AnsiString}
    (h : c :: s ++ t = parts ends parameters) : c = 59 := by
  cases parameters with
  | nil => cases h
  | cons parameter rest =>
    rw [parts_cons] at h
    exact (List.cons_eq_cons.1 h).1

/-- A line of such parameters is one physical line. -/
theorem parts_break {parameters : List (AnsiString × AnsiString)} (hok : ∀ p ∈ parameters, ParameterOk p) :
    10 ∉ parts ends parameters := by
  intro hmem
  obtain ⟨parameter, hparameter, hmem⟩ := List.mem_flatMap.1 hmem
  have hname := (hok parameter hparameter).name_break
  have hvalue := (hok parameter hparameter).value_break
  unfold part valueText at hmem
  cases hends : parameter.2.any ends <;> simp [hends, hname, hvalue] at hmem

/-! ## Quotations that close -/

section

variable (hsemicolon : ends 59 = true) (hcolon : ends 58 = true)
include hsemicolon hcolon

/-- A part whose name closes its quotations is one piece of the line. -/
theorem part_closed {parameter : AnsiString × AnsiString} (hok : ParameterOk parameter)
    (hname : quotedAfter 34 false parameter.1 = false) :
    Enclosed 34 59 false (part ends parameter) ∧ Enclosed 34 58 false (part ends parameter) ∧
      quotedAfter 34 false (part ends parameter) = false := by
  obtain ⟨name, value⟩ := parameter
  have hquote : (34 : UInt8) ∉ value := hok.value_quote
  unfold part valueText
  dsimp only at hname ⊢
  cases hends : value.any ends with
  | true =>
    have hclosed : quotedAfter 34 false (name ++ 61 :: (34 :: value ++ [34])) = false := by
      rw [quotedAfter_append, hname]
      show quotedAfter 34 true (value ++ [34]) = false
      rw [quotedAfter_append, quotedAfter_of_notMem true hquote]
      rfl
    have hencl : ∀ sep : UInt8, sep ≠ 61 → sep ≠ 34 → Enclosed 34 sep false name →
        Enclosed 34 sep false (name ++ 61 :: (34 :: value ++ [34])) := by
      intro sep h61 h34 hsep
      rw [enclosed_append, hname]
      refine ⟨hsep, fun h => absurd h.symm h61, fun h => absurd h.symm h34, ?_⟩
      show Enclosed 34 sep true (value ++ [34])
      rw [enclosed_append]
      exact ⟨enclosed_quoted hquote, fun h => absurd h.symm h34, trivial⟩
    exact ⟨hencl 59 (by decide) (by decide) hok.name_semicolon, hencl 58 (by decide) (by decide) hok.name_colon, hclosed⟩
  | false =>
    have hnone : ∀ sep : UInt8, ends sep = true → sep ∉ value := by
      intro sep hsep hmem
      exact absurd (List.any_eq_false.1 hends sep hmem) (by simp [hsep])
    have hclosed : quotedAfter 34 false (name ++ 61 :: value) = false := by
      rw [quotedAfter_append, hname]
      exact @quotedAfter_of_notMem _ _ 34 false (61 :: value) (by simp [hquote])
    have hencl : ∀ sep : UInt8, sep ≠ 61 → ends sep = true → Enclosed 34 sep false name →
        Enclosed 34 sep false (name ++ 61 :: value) := by
      intro sep h61 hsep hname'
      rw [enclosed_append, hname]
      exact ⟨hname', fun h => absurd h.symm h61, enclosed_of_notMem _ (hnone sep hsep)⟩
    exact ⟨hencl 59 (by decide) hsemicolon hok.name_semicolon, hencl 58 (by decide) hcolon hok.name_colon, hclosed⟩

theorem parts_closed {parameters : List (AnsiString × AnsiString)} (hok : ∀ p ∈ parameters, ParameterOk p)
    (hnames : ∀ p ∈ parameters, quotedAfter 34 false p.1 = false) :
    Enclosed 34 58 false (parts ends parameters) ∧ quotedAfter 34 false (parts ends parameters) = false := by
  induction parameters with
  | nil => exact ⟨trivial, rfl⟩
  | cons parameter rest ih =>
    obtain ⟨_, hpart, hclosed⟩ := part_closed hsemicolon hcolon (hok _ List.mem_cons_self) (hnames _ List.mem_cons_self)
    obtain ⟨hrest, hafter⟩ := ih (fun p hp => hok p (List.mem_cons_of_mem _ hp)) fun p hp => hnames p (List.mem_cons_of_mem _ hp)
    rw [parts_cons]
    refine ⟨⟨fun h => absurd h (by decide), ?_⟩, ?_⟩
    · show Enclosed 34 58 false (part ends parameter ++ parts ends rest)
      rw [enclosed_append, hclosed]
      exact ⟨hpart, hrest⟩
    · show quotedAfter 34 false (part ends parameter ++ parts ends rest) = false
      rw [quotedAfter_append, hclosed, hafter]

/-- The parts are the pieces of the line. -/
theorem splitUnquoted_parts {parameter : AnsiString × AnsiString} {rest : List (AnsiString × AnsiString)}
    (hok : ∀ p ∈ parameter :: rest, ParameterOk p) (hnames : ∀ p ∈ parameter :: rest, quotedAfter 34 false p.1 = false) :
    splitUnquoted 34 59 false (part ends parameter ++ parts ends rest) = (parameter :: rest).map (part ends) := by
  induction rest generalizing parameter with
  | nil =>
    obtain ⟨hpart, _⟩ := part_closed hsemicolon hcolon (hok _ List.mem_cons_self) (hnames _ List.mem_cons_self)
    rw [parts, List.flatMap_nil, List.append_nil]
    exact splitUnquoted_enclosed hpart
  | cons next rest ih =>
    obtain ⟨hpart, _, hclosed⟩ := part_closed hsemicolon hcolon (hok _ List.mem_cons_self) (hnames _ List.mem_cons_self)
    rw [parts_cons, splitUnquoted_append (by decide) _ hpart hclosed,
      ih (fun p hp => hok p (List.mem_cons_of_mem _ hp)) fun p hp => hnames p (List.mem_cons_of_mem _ hp)]
    rfl

end

/-! ## Quotations that stay open -/

/-- A value that is not quoted does not come out of a piece with an odd number of
    quotation marks: the piece reaches into the next parameter. -/
theorem bare_value_lost (hsemicolon : ends 59 = true) {value : AnsiString} (hends : value.any ends = false) (hquote : 34 ∉ value)
    {rest : List (AnsiString × AnsiString)} {w after : AnsiString} (hw : w ++ after = value ++ parts ends rest)
    (hodd : quotedAfter 34 true w = false) : remove 34 (trim w) ≠ value := by
  intro hvalue
  obtain ⟨t, hvt, _⟩ | ⟨t, rfl, ht⟩ := List.append_eq_append_iff.1 hw
  · have hnone : (34 : UInt8) ∉ w := fun hmem => hquote (by rw [hvt]; simp [hmem])
    rw [quotedAfter_of_notMem true hnone] at hodd
    cases hodd
  · cases t with
    | nil =>
      rw [List.append_nil, quotedAfter_of_notMem true hquote] at hodd
      cases hodd
    | cons c t =>
      obtain rfl := parts_head ht.symm
      have hmem : (59 : UInt8) ∈ remove 34 (trim (value ++ 59 :: t)) :=
        List.mem_filter.2 ⟨mem_trim (by simp) (by decide), by decide⟩
      rw [hvalue] at hmem
      exact List.any_eq_false.1 hends 59 hmem hsemicolon

/-- Nor does a quoted one: the piece ends inside the value or reaches into the
    next parameter. -/
theorem quoted_value_lost {value : AnsiString} (hquote : 34 ∉ value) {rest : List (AnsiString × AnsiString)}
    {w after : AnsiString} (hw : w ++ after = (34 :: value ++ [34]) ++ parts ends rest)
    (hafter : after = [] ∨ ∃ b, after = 59 :: b) (hodd : quotedAfter 34 true w = false) :
    remove 34 (trim w) ≠ value := by
  intro hvalue
  have hw' : w ++ after = (34 :: value) ++ 34 :: parts ends rest := by simpa using hw
  obtain ⟨t, hvt, ht⟩ | ⟨t, rfl, ht⟩ := List.append_eq_append_iff.1 hw'
  · -- the piece ends before the closing mark
    cases w with
    | nil => cases hodd
    | cons c w =>
      rw [List.cons_append] at hvt
      obtain ⟨rfl, hrest⟩ := List.cons_eq_cons.1 hvt
      obtain rfl | ⟨b, rfl⟩ := hafter
      · simp at ht
      cases t with
      | nil => cases ht
      | cons d t =>
        have htrim : trim (34 :: w) = 34 :: w.rdropWhile isSpace := @trim_append_cons [] w 34 (by decide) (by simp)
        have hlength : (remove 34 (trim (34 :: w))).length ≤ w.length := by
          rw [htrim, remove, List.filter_cons_of_neg (by simp)]
          exact (List.length_filter_le _ _).trans (List.rdropWhile_prefix _ _).length_le
        rw [hvalue, hrest, List.length_append, List.length_cons] at hlength
        omega
  · cases t with
    | nil =>
      obtain rfl | ⟨b, rfl⟩ := hafter <;> cases ht
    | cons c t =>
      rw [List.cons_append] at ht
      obtain ⟨rfl, hrest⟩ := List.cons_eq_cons.1 ht
      cases t with
      | nil =>
        rw [List.cons_append] at hodd
        change quotedAfter 34 false (value ++ [34]) = false at hodd
        rw [quotedAfter_append, quotedAfter_of_notMem false hquote] at hodd
        cases hodd
      | cons d t =>
        obtain rfl := parts_head hrest.symm
        have htrim : trim (34 :: value ++ 34 :: 59 :: t) = (34 :: value ++ [34]) ++ 59 :: t.rdropWhile isSpace := by
          have h := @trim_append_cons (34 :: value ++ [34]) t 59 (by decide) (by rintro d ⟨⟩; decide)
          simpa using h
        have hread : remove 34 (trim (34 :: value ++ 34 :: 59 :: t)) = value ++ remove 34 (59 :: t.rdropWhile isSpace) := by
          rw [htrim]
          simp only [remove, List.cons_append, List.append_assoc, List.nil_append]
          rw [List.filter_cons_of_neg (by simp), List.filter_append, List.filter_cons_of_neg (by simp)]
          rw [← remove, remove_of_notMem hquote]
        rw [hread] at hvalue
        have hnil := List.append_right_eq_self.1 hvalue
        rw [remove, List.filter_cons_of_pos (by decide)] at hnil
        cases hnil

/-- A name that leaves a quotation open is not read with its value again. -/
theorem open_name_lost (hsemicolon : ends 59 = true) {parameter : AnsiString × AnsiString}
    (hok : ParameterOk parameter) {rest : List (AnsiString × AnsiString)} {w after : AnsiString}
    (hw : w ++ after = valueText ends parameter.2 ++ parts ends rest)
    (hafter : after = [] ∨ ∃ b, after = 59 :: b) (hodd : quotedAfter 34 true w = false) :
    remove 34 (trim w) ≠ parameter.2 := by
  unfold valueText at hw
  cases hends : parameter.2.any ends with
  | true =>
    rw [hends] at hw
    exact quoted_value_lost hok.value_quote hw hafter hodd
  | false =>
    rw [hends] at hw
    exact bare_value_lost hsemicolon hends hok.value_quote hw hodd

/-- The first piece of a line goes beyond a name without semicolons outside
    quotations. -/
theorem first_piece {name w s p after : AnsiString} (hname : Enclosed 34 59 false name) (hs : s = name ++ 61 :: w)
    (hp : s = p ++ after) (hafter : after = [] ∨ ∃ b, after = 59 :: b ∧ quotedAfter 34 false p = false) :
    ∃ v, p = name ++ 61 :: v ∧ v ++ after = w := by
  obtain rfl | ⟨b, rfl, hclosed⟩ := hafter
  · exact ⟨w, by rw [← hs, hp, List.append_nil], List.append_nil w⟩
  · have hsplit : p ++ 59 :: b = (name ++ [61]) ++ w := by rw [← hp, hs, List.append_assoc]; rfl
    obtain ⟨t, ht, hb⟩ | ⟨v, rfl, hv⟩ := List.append_eq_append_iff.1 hsplit
    · -- the semicolon would be in the name
      have hencl : Enclosed 34 59 false (name ++ [61]) := by
        rw [enclosed_append]
        exact ⟨hname, fun h => absurd h (by decide), trivial⟩
      cases t with
      | nil => exact ⟨[], by rw [← List.append_nil p, ← ht], hb⟩
      | cons c t =>
        obtain ⟨rfl, _⟩ := List.cons_eq_cons.1 hb
        rw [ht, enclosed_append, hclosed] at hencl
        cases hencl.2.1 rfl
    · exact ⟨v, by simp, hv.symm⟩

/-! ## Parameters read again -/

/-- What a reader of one parameter makes of a name, an equals sign and anything. -/
def Reads (read : AnsiString → Option (AnsiString × AnsiString)) : Prop :=
  ∀ name w : AnsiString, makeUpper name = name → trim name = name → 61 ∉ name →
    read (name ++ 61 :: w) = some (name, remove 34 (trim w))

section

variable {read : AnsiString → Option (AnsiString × AnsiString)} (hreads : Reads read)
include hreads

theorem read_part {parameter : AnsiString × AnsiString} (hok : ParameterOk parameter) :
    read (part ends parameter) = some parameter ↔ parameter.2.any ends = true ∨ trim parameter.2 = parameter.2 := by
  obtain ⟨name, value⟩ := parameter
  rw [part, hreads _ _ hok.name_upper hok.name_trim hok.name_equals]
  have hquote : (34 : UInt8) ∉ value := hok.value_quote
  unfold valueText
  dsimp only
  split
  · rename_i hends
    have htrim : trim (34 :: value ++ [34]) = 34 :: value ++ [34] :=
      @trim_append_cons (34 :: value) [] 34 (by decide) (by rintro d ⟨⟩; decide)
    rw [htrim]
    refine iff_of_true ?_ (.inl hends)
    rw [List.cons_append, remove, List.filter_cons_of_neg (by simp), List.filter_append, ← remove, ← remove,
      remove_of_notMem hquote, show remove 34 [34] = [] by decide, List.append_nil]
  · rename_i hends
    rw [remove_of_notMem fun hmem => hquote (trim_subset value hmem)]
    simp [hends]

variable (hsemicolon : ends 59 = true)
include hsemicolon

/-- A parameter that is read as the first of its line closes its quotations. -/
theorem name_closed_of_parts {parameter : AnsiString × AnsiString} {rest : List (AnsiString × AnsiString)}
    (hok : ParameterOk parameter)
    (hclosed : quotedAfter 34 false (part ends parameter ++ parts ends rest) = false) {count : Nat}
    (hread : ((splitUnquoted 34 59 false (part ends parameter ++ parts ends rest)).take count).filterMap read =
      parameter :: rest) : quotedAfter 34 false parameter.1 = false := by
  by_contra hname
  rw [Bool.not_eq_false] at hname
  have hs : part ends parameter ++ parts ends rest =
      parameter.1 ++ 61 :: (valueText ends parameter.2 ++ parts ends rest) := by
    rw [part, List.append_assoc]
    rfl
  -- the first piece, and what comes after it
  obtain ⟨p, after, pieces, hp, hafter, hpclosed, hsplit⟩ : ∃ p after pieces,
      part ends parameter ++ parts ends rest = p ++ after ∧
      (after = [] ∨ ∃ b, after = 59 :: b ∧ quotedAfter 34 false p = false) ∧ quotedAfter 34 false p = false ∧
      splitUnquoted 34 59 false (part ends parameter ++ parts ends rest) = p :: pieces := by
    obtain ⟨p, _, ⟨hp, hsplit⟩ | ⟨b, hp, hpclosed, hsplit⟩⟩ :=
      @splitUnquoted_spec UInt8 _ 34 59 (by decide) false (part ends parameter ++ parts ends rest)
    · exact ⟨p, [], [], by rw [List.append_nil, hp], .inl rfl, hp ▸ hclosed, hsplit⟩
    · exact ⟨p, 59 :: b, _, hp, .inr ⟨b, rfl, hpclosed⟩, hpclosed, hsplit⟩
  obtain ⟨w, rfl, hw⟩ := first_piece hok.name_semicolon hs hp hafter
  cases count with
  | zero => cases hread
  | succ count =>
    rw [hsplit, List.take_succ_cons, List.filterMap_cons,
      hreads _ _ hok.name_upper hok.name_trim hok.name_equals] at hread
    have hvalue : remove 34 (trim w) = parameter.2 := congrArg Prod.snd (List.cons_eq_cons.1 hread).1
    refine open_name_lost hsemicolon hok hw (hafter.imp_right fun ⟨b, hb, _⟩ => ⟨b, hb⟩) ?_ hvalue
    rw [quotedAfter_append, hname] at hpclosed
    exact hpclosed

omit hsemicolon in
theorem read_head {parameter : AnsiString × AnsiString} {rest : List (AnsiString × AnsiString)}
    (hok : ParameterOk parameter) {pieces : List AnsiString} {count : Nat}
    (hread : ((part ends parameter :: pieces).take (count + 1)).filterMap read = parameter :: rest) :
    read (part ends parameter) = some parameter ∧ (pieces.take count).filterMap read = rest := by
  obtain ⟨v, hv⟩ : ∃ v, read (part ends parameter) = some v :=
    ⟨_, hreads _ _ hok.name_upper hok.name_trim hok.name_equals⟩
  rw [List.take_succ_cons, List.filterMap_cons, hv] at hread
  obtain ⟨rfl, hrest⟩ := List.cons_eq_cons.1 hread
  exact ⟨hv, hrest⟩

variable (hcolon : ends 58 = true)
include hcolon

/-- Where the parameters of a line are read as they were, each survives. -/
theorem survives_of_parts {parameter : AnsiString × AnsiString} {rest : List (AnsiString × AnsiString)}
    (hok : ∀ p ∈ parameter :: rest, ParameterOk p)
    (hclosed : quotedAfter 34 false (part ends parameter ++ parts ends rest) = false) {count : Nat}
    (hread : ((splitUnquoted 34 59 false (part ends parameter ++ parts ends rest)).take count).filterMap read =
      parameter :: rest) : ∀ p ∈ parameter :: rest, Survives ends p := by
  induction rest generalizing parameter count with
  | nil =>
    have hokp := hok _ List.mem_cons_self
    have hname := name_closed_of_parts hreads hsemicolon hokp hclosed hread
    obtain ⟨hpart, _⟩ := part_closed hsemicolon hcolon hokp hname
    rw [parts, List.flatMap_nil, List.append_nil, splitUnquoted_enclosed hpart] at hread
    cases count with
    | zero => cases hread
    | succ count =>
      have hsome := read_head hreads hokp hread
      intro p hp
      rw [List.mem_singleton.1 hp]
      exact ⟨hname, (read_part hreads hokp).1 hsome.1⟩
  | cons next rest ih =>
    have hokp := hok _ List.mem_cons_self
    have hname := name_closed_of_parts hreads hsemicolon hokp hclosed hread
    obtain ⟨hpart, _, hafter⟩ := part_closed hsemicolon hcolon hokp hname
    rw [parts_cons, splitUnquoted_append (by decide) _ hpart hafter] at hread
    rw [parts_cons, quotedAfter_append, hafter] at hclosed
    cases count with
    | zero => cases hread
    | succ count =>
      obtain ⟨hsome, hrest⟩ := read_head hreads hokp hread
      have hnext := ih (fun p hp => hok p (List.mem_cons_of_mem _ hp)) hclosed hrest
      intro p hp
      obtain rfl | hp := List.mem_cons.1 hp
      · exact ⟨hname, (read_part hreads hokp).1 hsome⟩
      · exact hnext p hp

/-! ## Whole lines -/

section

variable {name : AnsiString} (hname : Enclosed 34 59 false name) (hopen : quotedAfter 34 false name = false)
include hname hopen

omit hreads hsemicolon hcolon in
/-- The name of a line is its first piece, whatever its parameters are. -/
theorem splitUnquoted_name (parameters : List (AnsiString × AnsiString)) :
    ∃ pieces, splitUnquoted 34 59 false (name ++ parts ends parameters) = name :: pieces ∧
      (parameters = [] → pieces = []) ∧
      ∀ parameter rest, parameters = parameter :: rest →
        pieces = splitUnquoted 34 59 false (part ends parameter ++ parts ends rest) := by
  cases parameters with
  | nil =>
    refine ⟨[], ?_, fun _ => rfl, by simp⟩
    rw [parts, List.flatMap_nil, List.append_nil]
    exact splitUnquoted_enclosed hname
  | cons parameter rest =>
    refine ⟨splitUnquoted 34 59 false (part ends parameter ++ parts ends rest), ?_, by simp, ?_⟩
    · rw [parts_cons]
      exact splitUnquoted_append (by decide) _ hname hopen
    · rintro _ _ ⟨⟩
      rfl

/-- A line is cut at its colon and its parameters are read as they were exactly
    where they survive. -/
theorem line_survives (hcolons : Enclosed 34 58 false name) (value : AnsiString)
    {parameters : List (AnsiString × AnsiString)} (hok : ∀ p ∈ parameters, ParameterOk p) {count : Nat}
    (hcount : parameters.length ≤ count) :
    (cutUnquoted 34 58 false (name ++ parts ends parameters ++ 58 :: value) =
        some (name ++ parts ends parameters, value) ∧
      ∃ pieces, splitUnquoted 34 59 false (name ++ parts ends parameters) = name :: pieces ∧
        (pieces.take count).filterMap read = parameters) ↔
      ∀ p ∈ parameters, Survives ends p := by
  obtain ⟨pieces, hsplit, hnone, hpieces⟩ := @splitUnquoted_name ends name hname hopen parameters
  constructor
  · rintro ⟨hcut, pieces', hsplit', hread⟩
    obtain rfl : pieces = pieces' := by
      rw [hsplit] at hsplit'
      exact (List.cons_eq_cons.1 hsplit').2
    obtain ⟨_, _, hclosed⟩ := eq_of_cutUnquoted (by decide) hcut
    cases parameters with
    | nil => simp
    | cons parameter rest =>
      rw [quotedAfter_append, hopen, parts_cons] at hclosed
      rw [hpieces parameter rest rfl] at hread
      exact survives_of_parts hreads hsemicolon hcolon hok hclosed hread
  · intro h
    have hnames : ∀ p ∈ parameters, quotedAfter 34 false p.1 = false := fun p hp => (h p hp).1
    obtain ⟨hparts, hclosed⟩ := parts_closed hsemicolon hcolon hok hnames
    refine ⟨cutUnquoted_append (by decide) value ?_ ?_, pieces, hsplit, ?_⟩
    · rw [enclosed_append, hopen]
      exact ⟨hcolons, hparts⟩
    · rw [quotedAfter_append, hopen, hclosed]
    · cases parameters with
      | nil => rw [hnone rfl, List.take_nil, List.filterMap_nil]
      | cons parameter rest =>
        have hlength : ((parameter :: rest).map (part ends)).length ≤ count := by
          rw [List.length_map]
          exact hcount
        rw [hpieces parameter rest rfl, splitUnquoted_parts hsemicolon hcolon hok hnames, List.take_of_length_le hlength,
          List.filterMap_map]
        refine (List.filterMap_congr fun p hp => ?_).trans List.filterMap_some
        exact (read_part hreads (hok p hp)).2 (h p hp).2

end

end

end HMailServer.LineParameters
