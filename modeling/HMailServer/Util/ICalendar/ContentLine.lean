import HMailServer.Util.ICalendar.Text
import HMailServer.Util.LineParameters

/- A content line written and read back. What the reader makes of a line keeps
   the invariants below; written again, it is read as it was exactly where no
   parameter loses its quotation. -/
namespace HMailServer.ICalendar
open Cut QuotedSplit AnsiString LineParameters

/-! ## What the reader makes of a line -/

/-- What holds of a property that was read. -/
structure PropertyOk (property : ICalProperty) : Prop where
  name_ne : property.name ≠ []
  name_characters : ∀ c ∈ property.name, isNameCharacter c = true
  value_break : 10 ∉ property.value
  parameters_length : property.parameters.length ≤ maxParametersPerProperty
  parameters : ∀ parameter ∈ property.parameters, ParameterOk parameter

theorem parseParameter_ok {part : AnsiString} {parameter : AnsiString × AnsiString}
    (h : parseParameter part = some parameter) (hsemicolon : Enclosed 34 59 false part)
    (hcolon : Enclosed 34 58 false part) (hbreak : 10 ∉ part) : ParameterOk parameter := by
  unfold parseParameter at h
  dsimp only at h
  split at h
  · cases h
  rw [Option.some.injEq] at h
  subst h
  have hsemicolon := enclosed_trim hsemicolon
  have hcolon := enclosed_trim hcolon
  have hbreak : 10 ∉ trim part := fun hmem => hbreak (trim_subset part hmem)
  obtain ⟨name, value, hpieces, hname, hequals, hvalue⟩ : ∃ name value,
      parameterPieces (trim part) = (name, value) ∧
      name <+: trim part ∧ (61 : UInt8) ∉ name ∧ value ⊆ trim part := by
    unfold parameterPieces
    cases hcut : cut 61 (trim part) with
    | none =>
      exact ⟨trim part, [], rfl, List.prefix_rfl, notMem_of_cut hcut, List.nil_subset _⟩
    | some pieces =>
      obtain ⟨name, value⟩ := pieces
      obtain ⟨hs, hname⟩ := eq_of_cut hcut
      exact ⟨name, value, rfl, ⟨61 :: value, hs.symm⟩, hname, fun c hc => by rw [hs]; simp [hc]⟩
  rw [hpieces]
  exact parameterOk_of_pieces hname hequals hvalue hsemicolon hcolon hbreak

theorem parseContentLine_ok {line : AnsiString} {property : ICalProperty} (h : parseContentLine line = some property)
    (hbreak : 10 ∉ line) : PropertyOk property := by
  unfold parseContentLine at h
  split at h
  · cases h
  rename_i head value hcut
  obtain ⟨hline, hcolon, hclosed⟩ := eq_of_cutUnquoted (by decide) hcut
  split at h
  · cases h
  split at h
  · cases h
  rename_i first parts hsplit
  dsimp only at h
  split at h
  · cases h
  rename_i hname
  rw [not_or, Bool.not_eq_false, List.all_eq_true] at hname
  rw [Option.some.injEq] at h
  subst h
  have hmem : ∀ {c : UInt8}, c ∈ head ∨ c ∈ value → c ∈ line := by
    rintro c (hc | hc) <;> simp [hline, hc]
  refine ⟨hname.1, hname.2, fun hc => hbreak (hmem (.inr hc)), ?_, ?_⟩
  · exact (List.length_filterMap_le _ _).trans (List.length_take_le _ _)
  · intro parameter hparameter
    obtain ⟨part, hpart, hread⟩ := List.mem_filterMap.1 hparameter
    have hparts : part ∈ splitUnquoted 34 59 false head := by
      rw [hsplit]
      exact List.mem_cons_of_mem _ (List.mem_of_mem_take hpart)
    obtain ⟨hsemicolon, _, hcolon, hsubset⟩ := mem_splitUnquoted (by decide) hclosed hcolon hparts
    exact parseParameter_ok hread hsemicolon hcolon fun hc => hbreak (hmem (.inl (hsubset hc)))

/-! ## What a parameter loses -/

/-- A parameter as it is written. -/
def parameterPart (parameter : AnsiString × AnsiString) : AnsiString :=
  makeUpper parameter.1 ++ 61 :: parameterText parameter.2

/-- No quotation stays open in the name, and a value with white space around it
    holds a character that has it quoted. -/
def Survives (parameter : AnsiString × AnsiString) : Prop :=
  quotedAfter 34 false parameter.1 = false ∧ (parameter.2.any endsValue = true ∨ trim parameter.2 = parameter.2)

/-- A name, an equals sign and anything are read as that name. -/
theorem reads_parseParameter : Reads parseParameter := by
  intro name w hupper htrim hequals
  have hwhole : trim (name ++ 61 :: w) = name ++ 61 :: w.rdropWhile isSpace :=
    trim_append_cons (by decide) (trim_eq_self.1 htrim).1
  have hvalue : trim w = trim (w.rdropWhile isSpace) := by
    have hpad := @trim_pad [] (w.rtakeWhile isSpace) (w.rdropWhile isSpace) (by simp)
      (fun c hc => List.mem_rtakeWhile_imp hc)
    rwa [List.nil_append, List.rdropWhile_append_rtakeWhile] at hpad
  unfold parseParameter
  dsimp only
  rw [hwhole, if_neg (by simp), parameterPieces, cut_append hequals, hvalue]
  dsimp only
  rw [htrim, hupper]

/-- The parameters of a line as they are written. -/
def partsText (parameters : List (AnsiString × AnsiString)) : AnsiString :=
  parameters.flatMap fun parameter => 59 :: parameterPart parameter

/-- Parameters that were read are written as they are. -/
theorem partsText_eq {parameters : List (AnsiString × AnsiString)} (hok : ∀ p ∈ parameters, ParameterOk p) :
    partsText parameters = parts endsValue parameters := by
  refine List.flatMap_congr fun parameter hparameter => ?_
  have hp := hok parameter hparameter
  unfold parameterPart parameterText part valueText
  dsimp only
  rw [hp.name_upper, remove_of_notMem hp.value_quote]

/-! ## Lines written and read back -/

theorem propertyLine_eq (property : ICalProperty) :
    propertyLine property = (makeUpper property.name ++ partsText property.parameters) ++ 58 :: property.value := by
  unfold propertyLine partsText parameterPart
  rfl

theorem isNameCharacter_facts : ∀ c, isNameCharacter c = true →
    toUpper c = c ∧ isSpace c = false ∧ c ≠ 34 ∧ c ≠ 58 ∧ c ≠ 59 ∧ c ≠ 10 ∧ isContinuation c = false := by
  decide +kernel

section

variable {name : AnsiString} (hname : ∀ c ∈ name, isNameCharacter c = true)
include hname

theorem makeUpper_name : makeUpper name = name := by
  unfold makeUpper
  rw [List.map_congr_left fun c hc => (isNameCharacter_facts c (hname c hc)).1, List.map_id']

theorem trim_name : trim name = name :=
  trim_eq_self.2 ⟨fun c hc => (isNameCharacter_facts c (hname c (List.mem_of_mem_head? hc))).2.1,
    fun c hc => (isNameCharacter_facts c (hname c (List.mem_of_mem_getLast? hc))).2.1⟩

theorem notMem_name : 34 ∉ name ∧ 58 ∉ name ∧ 59 ∉ name ∧ 10 ∉ name :=
  ⟨fun h => absurd (hname _ h) (by decide), fun h => absurd (hname _ h) (by decide),
    fun h => absurd (hname _ h) (by decide), fun h => absurd (hname _ h) (by decide)⟩

theorem enclosed_name : Enclosed 34 59 false name ∧ quotedAfter 34 false name = false := by
  obtain ⟨hquote, _, hsemicolon, _⟩ := notMem_name hname
  exact ⟨enclosed_of_notMem false hsemicolon, quotedAfter_of_notMem false hquote⟩

/-- A line cut at its colon is read with its name. -/
theorem parseContentLine_cut (hne : name ≠ []) {line value tail : AnsiString} {pieces : List AnsiString}
    (hcut : cutUnquoted 34 58 false line = some (name ++ tail, value))
    (hsplit : splitUnquoted 34 59 false (name ++ tail) = name :: pieces) :
    parseContentLine line =
      some ⟨name, value, (pieces.take maxParametersPerProperty).filterMap parseParameter⟩ := by
  unfold parseContentLine
  rw [hcut]
  dsimp only
  rw [if_neg (by simp [hne]), hsplit]
  dsimp only
  rw [trim_name hname, makeUpper_name hname, if_neg]
  rw [not_or, Bool.not_eq_false, List.all_eq_true]
  exact ⟨hne, hname⟩

end

/-- Whatever becomes of the parameters, the name is read again. -/
theorem parseContentLine_name {property property' : ICalProperty} (hok : PropertyOk property)
    (h : parseContentLine (propertyLine property) = some property') : property'.name = property.name := by
  have hname := hok.name_characters
  obtain ⟨hquote, hcolon, _, _⟩ := notMem_name hname
  obtain ⟨hencl, hclosed⟩ := enclosed_name hname
  rw [propertyLine_eq, makeUpper_name hname, partsText_eq hok.parameters, List.append_assoc] at h
  -- the head begins with the name, and a semicolon or nothing comes next
  obtain ⟨head, value, hcut, hhead⟩ : ∃ head value,
      cutUnquoted 34 58 false (property.name ++ (parts endsValue property.parameters ++ 58 :: property.value)) =
        some (head, value) ∧ (head = property.name ∨ ∃ t, head = property.name ++ 59 :: t) := by
    cases hcut : cutUnquoted 34 58 false (property.name ++ (parts endsValue property.parameters ++ 58 :: property.value)) with
    | none =>
      rw [parseContentLine, hcut] at h
      cases h
    | some cutting =>
      obtain ⟨head, value⟩ := cutting
      refine ⟨head, value, rfl, ?_⟩
      rw [cutUnquoted_pass hcolon hquote] at hcut
      obtain ⟨⟨u, v⟩, hu, huv⟩ := Option.map_eq_some_iff.1 hcut
      obtain ⟨rfl, rfl⟩ := Prod.mk.inj huv
      cases hparameters : property.parameters with
      | nil =>
        rw [hparameters] at hu
        cases hu
        exact .inl (List.append_nil _)
      | cons parameter rest =>
        rw [hparameters, parts_cons, List.cons_append, cutUnquoted, if_neg (by decide), if_neg (by simp)] at hu
        obtain ⟨⟨u', v'⟩, _, hu'⟩ := Option.map_eq_some_iff.1 hu
        obtain ⟨rfl, rfl⟩ := Prod.mk.inj hu'
        exact .inr ⟨u', rfl⟩
  obtain ⟨pieces, hsplit⟩ : ∃ pieces, splitUnquoted 34 59 false head = property.name :: pieces := by
    obtain rfl | ⟨t, rfl⟩ := hhead
    · exact ⟨[], splitUnquoted_enclosed hencl⟩
    · exact ⟨_, splitUnquoted_append (by decide) t hencl hclosed⟩
  unfold parseContentLine at h
  rw [hcut] at h
  dsimp only at h
  split at h
  · cases h
  rw [hsplit] at h
  dsimp only at h
  rw [trim_name hname, makeUpper_name hname] at h
  split at h
  · cases h
  · rw [← Option.some.inj h]

/-- A property that was read is read again as it was exactly where its parameters
    survive. -/
theorem parseContentLine_propertyLine {property : ICalProperty} (hok : PropertyOk property) :
    parseContentLine (propertyLine property) = some property ↔ ∀ parameter ∈ property.parameters, Survives parameter := by
  obtain ⟨name, value, parameters⟩ := property
  have hname : ∀ c ∈ name, isNameCharacter c = true := hok.name_characters
  have hne : name ≠ [] := hok.name_ne
  have hparameters : ∀ p ∈ parameters, ParameterOk p := hok.parameters
  obtain ⟨hencl, hclosed⟩ := enclosed_name hname
  obtain ⟨pieces, hsplit, _⟩ := @LineParameters.splitUnquoted_name endsValue name hencl hclosed parameters
  have hsurvives := @line_survives endsValue _ reads_parseParameter rfl rfl _ hencl hclosed
    (enclosed_of_notMem false (notMem_name hname).2.1) value _ hparameters _ hok.parameters_length
  rw [propertyLine_eq]
  dsimp only
  rw [makeUpper_name hname, partsText_eq hparameters]
  refine Iff.trans ?_ hsurvives
  constructor
  · intro h
    -- the value is the same, so that the line was cut where it was joined
    have hcut : cutUnquoted 34 58 false (name ++ parts endsValue parameters ++ 58 :: value) =
        some (name ++ parts endsValue parameters, value) := by
      cases hcut : cutUnquoted 34 58 false (name ++ parts endsValue parameters ++ 58 :: value) with
      | none =>
        rw [parseContentLine, hcut] at h
        cases h
      | some cutting =>
        obtain ⟨head, value'⟩ := cutting
        have hvalue : value' = value := by
          unfold parseContentLine at h
          rw [hcut] at h
          dsimp only at h
          split at h
          · cases h
          split at h
          · cases h
          split at h
          · cases h
          · exact congrArg ICalProperty.value (Option.some.inj h)
        obtain ⟨hjoin, _⟩ := eq_of_cutUnquoted (by decide) hcut
        rw [hvalue] at hjoin ⊢
        rw [List.append_cancel_right hjoin]
    rw [parseContentLine_cut hname hne hcut hsplit] at h
    exact ⟨hcut, pieces, hsplit, congrArg ICalProperty.parameters (Option.some.inj h)⟩
  · rintro ⟨hcut, pieces', hsplit', hread⟩
    rw [parseContentLine_cut hname hne hcut hsplit', hread]

end HMailServer.ICalendar
