import HMailServer.Mime.FieldParameters

/- The scan of `FindParameter` over the text of a field value, and what
   `SetParameter` and `RemoveParameter` make of the text: they work on the first
   parameter, or on all parameters, whose names begin with the attribute. -/
namespace HMailServer.MimeField
open AnsiString

/-! ## Names and attributes -/

/-- The comparison of `FindParameter` sees only the name. -/
theorem compare_name {p : Parameter} {attr : AnsiString} (ha : IsAttribute attr) (rest : AnsiString) :
    (lower ((p.name ++ (blanks p.before ++ 61 :: rest)).take attr.length) == lower attr) = p.begins attr := by
  have hprefix : (lower ((p.name ++ (blanks p.before ++ 61 :: rest)).take attr.length) = lower attr) ↔
      lower attr <+: lower p.name ++ lower (blanks p.before ++ 61 :: rest) := by
    rw [← lower_append, lower_take, List.prefix_iff_eq_take, length_lower]
    exact eq_comm
  have hname : lower attr <+: lower p.name ++ lower (blanks p.before ++ 61 :: rest) ↔ lower attr <+: lower p.name := by
    refine ⟨fun h => Scan.prefix_of_append h fun x hx hmem => ?_, fun h => h.trans (List.prefix_append _ _)⟩
    -- The attribute would go on with a blank or an equal sign.
    have hsign : x = 32 ∨ x = 61 := by
      unfold blanks at hx
      cases hb : p.before with
      | zero =>
        rw [hb] at hx
        exact .inr (Option.some.inj hx).symm
      | succ n =>
        rw [hb] at hx
        exact .inl (Option.some.inj hx).symm
    obtain ⟨c, hc, hcx⟩ := List.mem_map.1 hmem
    obtain ⟨⟨h61, _, _, _, hspace⟩, _⟩ := ha.chars c hc
    rcases hsign with rfl | rfl
    · rw [toLower_eq (by decide) hcx] at hspace
      exact absurd hspace (by decide)
    · exact absurd (toLower_eq (by decide) hcx) h61
  rw [Bool.eq_iff_iff, beq_iff_eq, hprefix, hname, Parameter.begins, List.isPrefixOf_iff_prefix]

/-! ## The scan -/

theorem valueSize_text {v : ParameterValue} (h : v.WellFormed) {rest : AnsiString}
    (hrest : Scan.Stops (· != 59) rest) : valueSize (v.text ++ rest) = v.text.length := by
  cases v with
  | token s =>
    obtain ⟨hne, hchars, _⟩ := h
    have htake : (s ++ rest).takeWhile (· != 59) = s :=
      Scan.takeWhile_append (fun c hc => by simpa using (hchars c hc).1) hrest
    cases hs : s with
    | nil => exact absurd hs hne
    | cons c t =>
      have h34 : c ≠ 34 := (hchars c (by simp [hs])).2.1
      rw [hs] at htake
      unfold valueSize
      simp only [ParameterValue.text, List.cons_append] at htake ⊢
      split
      · rename_i heq
        exact absurd (List.cons.inj heq).1 h34
      · rw [htake]
  | quoted s =>
    have hclose : (s ++ 34 :: rest).findIdx? (· == 34) = some s.length :=
      Scan.findIdx?_append (fun c hc => by simpa using (h c hc).1) (by decide)
    simp [valueSize, ParameterValue.text, hclose]

theorem text_stops {v : ParameterValue} (h : v.WellFormed) (rest : AnsiString) :
    v.text ≠ [] ∧ Scan.Stops (fun c => c == 32 || c == 9) (v.text ++ rest) := by
  cases v with
  | token s =>
    obtain ⟨hne, _, hhead⟩ := h
    refine ⟨hne, Scan.Stops.append (fun c hc => ?_) hne⟩
    have hspace := hhead c hc
    rw [Bool.or_eq_false_iff, beq_eq_false_iff_ne, beq_eq_false_iff_ne]
    refine ⟨?_, ?_⟩
    · rintro rfl
      exact absurd hspace (by decide)
    · rintro rfl
      exact absurd hspace (by decide)
  | quoted s => exact ⟨List.cons_ne_nil _ _, Scan.stops_cons (by decide)⟩

/-- One turn of the scan, at a parameter. -/
theorem findParameterFrom_text {p : Parameter} (hp : p.WellFormed) {attr : AnsiString} (ha : IsAttribute attr)
    (n pos : Nat) {rest : AnsiString} (hrest : Scan.Stops (· != 59) rest) :
    ∃ e, findParameterFrom attr (n + 1) pos (p.text ++ rest) =
      if p.begins attr then some ⟨pos + 1 + p.head.length, p.value.text.length, e⟩
      else findParameterFrom attr n (pos + p.text.length) rest := by
  obtain ⟨hvalueNe, hvalueStops⟩ := text_stops hp.value rest
  have htext : p.text ++ rest = (59 :: blanks p.lead) ++
      (p.name ++ (blanks p.before ++ 61 :: (blanks p.after ++ (p.value.text ++ rest)))) := by
    simp [Parameter.text, Parameter.piece, Parameter.head]
  have hskip : ∀ c ∈ (59 :: blanks p.lead : AnsiString), (isSpace c || c == 59) = true := by
    intro c hc
    rcases List.mem_cons.1 hc with rfl | hc
    · decide
    · rw [eq_of_mem_blanks hc]
      decide
  have hname : Scan.Stops (fun c => isSpace c || c == 59)
      (p.name ++ (blanks p.before ++ 61 :: (blanks p.after ++ (p.value.text ++ rest)))) := by
    apply Scan.Stops.append _ hp.name.ne_nil
    intro c hc
    obtain ⟨_, h59, _, _, hspace⟩ := hp.name.chars c (List.mem_of_mem_head? hc)
    change (isSpace c || c == 59) = false
    rw [hspace, beq_eq_false_iff_ne.2 h59]
    rfl
  have hequals : (p.name ++ (blanks p.before ++ 61 :: (blanks p.after ++ (p.value.text ++ rest)))).findIdx? (· == 61) =
      some (p.name.length + p.before) := by
    rw [← List.append_assoc, Scan.findIdx?_append _ (by decide)]
    · simp [blanks]
    · intro c hc
      rcases List.mem_append.1 hc with hc | hc
      · simpa using (hp.name.chars c hc).1
      · rw [eq_of_mem_blanks hc]
        decide
  have hdrop : (p.name ++ (blanks p.before ++ 61 :: (blanks p.after ++ (p.value.text ++ rest)))).drop
      (p.name.length + p.before + 1) = blanks p.after ++ (p.value.text ++ rest) := by
    rw [← List.append_assoc, List.drop_append]
    simp [blanks]
  have hblank : ∀ c ∈ blanks p.after, (c == 32 || c == 9) = true := by
    intro c hc
    rw [eq_of_mem_blanks hc]
    decide
  -- The character in front of the value is a blank or the equal sign.
  have hsign : (p.name ++ (blanks p.before ++ 61 :: (blanks p.after ++ (p.value.text ++ rest)))).getD
      (p.name.length + p.before + 1 + (blanks p.after).length - 1) 0 = if p.after = 0 then 61 else 32 := by
    have hsplit : p.name ++ (blanks p.before ++ 61 :: (blanks p.after ++ (p.value.text ++ rest))) =
        (p.name ++ blanks p.before) ++ ((61 :: blanks p.after) ++ (p.value.text ++ rest)) := by
      simp
    have hindex : p.name.length + p.before + 1 + (blanks p.after).length - 1 =
        (p.name ++ blanks p.before).length + p.after := by
      simp [blanks]
    rw [hsplit, hindex, List.getD_append_right _ _ _ _ (by omega), Nat.add_sub_cancel_left,
      List.getD_append _ _ _ _ (by simp [blanks])]
    cases p.after with
    | zero => rfl
    | succ k => simp [blanks]
  have hvalueSign : (isSpace (if p.after = 0 then 61 else 32) || (if p.after = 0 then (61 : UInt8) else 32) == 61) = true := by
    split <;> decide
  rw [findParameterFrom, htext, Scan.takeWhile_append hskip hname, Scan.dropWhile_append hskip hname]
  simp only [hequals, hdrop, Scan.takeWhile_append hblank hvalueStops, Scan.dropWhile_append hblank hvalueStops,
    valueSize_text hp.value hrest, compare_name ha, hsign, hvalueSign, Bool.and_true]
  rw [if_neg (by simp [hvalueNe])]
  have hstart : pos + (59 :: blanks p.lead).length + (p.name.length + p.before + 1 + (blanks p.after).length) =
      pos + 1 + p.head.length := by
    simp [Parameter.head, blanks]
    omega
  have hnext : pos + 1 + p.head.length + p.value.text.length = pos + p.text.length := by
    simp [Parameter.text, Parameter.piece]
    omega
  rw [hstart, hnext, List.drop_left]
  exact ⟨_, rfl⟩

theorem paramsText_stops (params : List Parameter) : Scan.Stops (· != 59) (paramsText params) := by
  cases params with
  | nil => exact Scan.stops_nil
  | cons p params => exact Scan.stops_cons (by decide)

/-- A scan over parameters none of which begins with the attribute finds
    nothing. -/
theorem findParameterFrom_none {attr : AnsiString} (ha : IsAttribute attr) {params : List Parameter}
    (h : ∀ p ∈ params, p.WellFormed) (hnone : ∀ p ∈ params, p.begins attr = false) (n pos : Nat) :
    findParameterFrom attr n pos (paramsText params) = none := by
  induction params generalizing n pos with
  | nil => cases n <;> rfl
  | cons p params ih =>
    cases n with
    | zero => rfl
    | succ n =>
      obtain ⟨e, he⟩ := findParameterFrom_text (h p (by simp)) ha n pos (paramsText_stops params)
      rw [paramsText, List.flatMap_cons, ← paramsText, he, hnone p (by simp)]
      exact ih (fun q hq => h q (by simp [hq])) (fun q hq => hnone q (by simp [hq])) n _

/-- It stops at the first parameter that begins with the attribute. -/
theorem findParameterFrom_first {attr : AnsiString} (ha : IsAttribute attr) {pre post : List Parameter} {p : Parameter}
    (h : ∀ q ∈ pre ++ p :: post, q.WellFormed) (hpre : ∀ q ∈ pre, q.begins attr = false) (hp : p.begins attr = true)
    {n : Nat} (hn : pre.length < n) (pos : Nat) :
    ∃ e, findParameterFrom attr n pos (paramsText (pre ++ p :: post)) =
      some ⟨pos + (paramsText pre).length + 1 + p.head.length, p.value.text.length, e⟩ := by
  induction pre generalizing n pos with
  | nil =>
    obtain ⟨k, rfl⟩ := Nat.exists_eq_add_of_lt hn
    obtain ⟨e, he⟩ := findParameterFrom_text (h p (by simp)) ha (0 + k) pos (paramsText_stops post)
    refine ⟨e, ?_⟩
    rw [List.nil_append, paramsText, List.flatMap_cons, ← paramsText, List.length_nil, he, hp]
    rfl
  | cons q pre ih =>
    cases n with
    | zero => cases hn
    | succ n =>
      obtain ⟨e, he⟩ := findParameterFrom_text (h q (by simp)) ha n pos (paramsText_stops (pre ++ p :: post))
      obtain ⟨e', he'⟩ := ih (fun r hr => h r (by simp_all)) (fun r hr => hpre r (by simp [hr]))
        (Nat.lt_of_succ_lt_succ hn) (pos + q.text.length)
      refine ⟨e', ?_⟩
      rw [List.cons_append, paramsText, List.flatMap_cons, ← paramsText, he, hpre q (by simp)]
      rw [if_neg Bool.false_ne_true, he']
      simp [paramsText, Nat.add_assoc]


/-! ## The field value -/

theorem text_chars {v : ParameterValue} (h : v.WellFormed) : ∀ c ∈ v.text, c ≠ 0 := by
  cases v with
  | token s => exact fun c hc => (h.2.1 c hc).2.2
  | quoted s =>
    intro c hc
    simp only [ParameterValue.text, List.cons_append, List.mem_cons, List.mem_append, List.not_mem_nil, or_false] at hc
    rcases hc with rfl | hc | rfl
    · decide
    · exact (h c hc).2
    · decide

theorem paramsText_chars {params : List Parameter} (h : ∀ p ∈ params, p.WellFormed) : ∀ c ∈ paramsText params, c ≠ 0 := by
  intro c hc
  obtain ⟨p, hp, hcp⟩ := List.mem_flatMap.1 hc
  simp only [Parameter.text, Parameter.piece, List.mem_cons, List.mem_append] at hcp
  rcases hcp with rfl | hcp | hcp
  · decide
  · exact ((h p hp).head_chars c hcp).2.2
  · exact text_chars (h p hp).value c hcp

variable {f : FieldValue} {attr : AnsiString}

/-- The scan starts at the first parameter. -/
theorem findParameter_text (hf : f.WellFormed) (attr : AnsiString) : findParameter f.text attr =
    if f.params = [] then none
    else findParameterFrom attr (f.text.length + 1) f.type.length (paramsText f.params) := by
  have hcstr : cstr f.text = f.text := by
    rw [cstr, List.takeWhile_eq_self_iff]
    intro c hc
    rw [bne_iff_ne]
    rcases List.mem_append.1 hc with hc | hc
    · exact (hf.type_chars c hc).2.2
    · exact paramsText_chars hf.params c hc
  have htype : ∀ c ∈ f.type, (c == 59) = false := fun c hc => by simpa using (hf.type_chars c hc).1
  unfold findParameter
  rw [hcstr]
  cases hparams : f.params with
  | nil =>
    have hnone : f.text.findIdx? (· == 59) = none := by
      rw [FieldValue.text, hparams]
      exact Scan.findIdx?_none fun c hc => htype c (by simpa [paramsText] using hc)
    simp only [hnone]
    rfl
  | cons p params =>
    have hsome : f.text.findIdx? (· == 59) = some f.type.length := by
      rw [FieldValue.text, hparams]
      exact Scan.findIdx?_append htype (by decide)
    have hdrop : f.text.drop f.type.length = paramsText (p :: params) := by
      rw [FieldValue.text, hparams, List.drop_left]
    simp only [hsome, hdrop]
    rw [if_neg (List.cons_ne_nil _ _)]

theorem length_le_paramsText (params : List Parameter) : params.length ≤ (paramsText params).length := by
  induction params with
  | nil => exact Nat.le_refl 0
  | cons p params ih =>
    rw [paramsText, List.flatMap_cons, ← paramsText, List.length_append, List.length_cons]
    have : 1 ≤ p.text.length := Nat.succ_le_succ (Nat.zero_le _)
    omega

theorem findParameter_none (hf : f.WellFormed) (ha : IsAttribute attr)
    (hnone : ∀ p ∈ f.params, p.begins attr = false) : findParameter f.text attr = none := by
  rw [findParameter_text hf]
  split
  · rfl
  · exact findParameterFrom_none ha hf.params hnone _ _

theorem findParameter_first (hf : f.WellFormed) (ha : IsAttribute attr) {pre post : List Parameter} {p : Parameter}
    (hparams : f.params = pre ++ p :: post) (hpre : ∀ q ∈ pre, q.begins attr = false) (hp : p.begins attr = true) :
    ∃ e, findParameter f.text attr =
      some ⟨f.type.length + (paramsText pre).length + 1 + p.head.length, p.value.text.length, e⟩ := by
  have hwf := hf.params
  have hlen := length_le_paramsText f.params
  rw [findParameter_text hf, if_neg (by simp [hparams])]
  rw [hparams] at hwf hlen ⊢
  apply findParameterFrom_first ha hwf hpre hp
  simp only [FieldValue.text, hparams, List.length_append, List.length_cons] at hlen ⊢
  omega

/-- The text around the value of a parameter. -/
theorem text_around {pre post : List Parameter} {p : Parameter} (hparams : f.params = pre ++ p :: post) :
    f.text = (f.type ++ paramsText pre ++ 59 :: p.head) ++ (p.value.text ++ paramsText post) := by
  rw [FieldValue.text, hparams]
  simp [paramsText, Parameter.text, Parameter.piece]

/-- A value that can be set: without quotation marks, and without white space
    at its ends. -/
structure Settable (v : AnsiString) : Prop where
  chars : ∀ c ∈ v, c ≠ 34 ∧ c ≠ 0
  first : ∀ c, v.head? = some c → isSpace c = false
  last : ∀ c, v.getLast? = some c → isSpace c = false

theorem quoteValue_eq {v : AnsiString} (hv : Settable v) : quoteValue v = (ParameterValue.quoted v).text := by
  have hfirst : v.head? ≠ some 34 := fun h => (hv.chars 34 (List.mem_of_mem_head? h)).1 rfl
  have hlast : v.getLast? ≠ some 34 := fun h => (hv.chars 34 (List.mem_of_getLast? h)).1 rfl
  rw [quoteValue, if_neg hfirst, if_pos (.inr hlast)]
  rfl

/-- The parameter that `SetParameter` adds. -/
def added (attr v : AnsiString) : Parameter := ⟨1, attr, 0, 0, .quoted v⟩

theorem setParameter_none (hf : f.WellFormed) (ha : IsAttribute attr)
    (hnone : ∀ p ∈ f.params, p.begins attr = false) {v : AnsiString} (hv : Settable v) :
    setParameter f.text attr v = FieldValue.text ⟨f.type, f.params ++ [added attr v]⟩ := by
  rw [setParameter, findParameter_none hf ha hnone]
  dsimp only
  rw [quoteValue_eq hv]
  simp [FieldValue.text, paramsText, Parameter.text, Parameter.piece, Parameter.head, added, blanks, ansi]

theorem setParameter_first (hf : f.WellFormed) (ha : IsAttribute attr) {pre post : List Parameter} {p : Parameter}
    (hparams : f.params = pre ++ p :: post) (hpre : ∀ q ∈ pre, q.begins attr = false) (hp : p.begins attr = true)
    {v : AnsiString} (hv : Settable v) : setParameter f.text attr v =
      FieldValue.text ⟨f.type, pre ++ { p with value := .quoted v } :: post⟩ := by
  obtain ⟨e, he⟩ := findParameter_first hf ha hparams hpre hp
  have hlen : (f.type ++ paramsText pre ++ 59 :: p.head).length =
      f.type.length + (paramsText pre).length + 1 + p.head.length := by
    simp [Nat.add_assoc, Nat.add_comm 1]
  rw [setParameter, he]
  dsimp only
  rw [quoteValue_eq hv, text_around hparams, ← hlen, List.take_left, ← List.drop_drop, List.drop_left, List.drop_left]
  simp [FieldValue.text, paramsText, Parameter.text, Parameter.piece, Parameter.head]

/-- The semicolon in front of a parameter. -/
theorem rfindSemicolon_text (hf : f.WellFormed) {pre post : List Parameter} {p : Parameter}
    (hparams : f.params = pre ++ p :: post) :
    rfindSemicolon f.text (f.type.length + (paramsText pre).length + 1 + p.head.length) =
      some (f.type ++ paramsText pre).length := by
  have hp : p.WellFormed := hf.params p (by simp [hparams])
  obtain ⟨c, t, hvalue⟩ := List.exists_cons_of_ne_nil (text_stops hp.value []).1
  have h59 : c ≠ 59 := by
    intro h
    subst h
    have hwf := hp.value
    cases hv : p.value with
    | token s =>
      rw [hv] at hvalue hwf
      exact (hwf.2.1 59 (by rw [show s = 59 :: t from hvalue]; simp)).1 rfl
    | quoted s =>
      rw [hv] at hvalue
      exact absurd (List.cons.inj hvalue).1 (by decide)
  have htake : f.text.take (f.type.length + (paramsText pre).length + 1 + p.head.length + 1) =
      (f.type ++ paramsText pre) ++ 59 :: (p.head ++ [c]) := by
    rw [text_around hparams, hvalue]
    have hlen : f.type.length + (paramsText pre).length + 1 + p.head.length + 1 =
        ((f.type ++ paramsText pre ++ 59 :: p.head) ++ [c]).length := by
      simp [Nat.add_assoc, Nat.add_comm 1]
    rw [hlen, show (f.type ++ paramsText pre ++ 59 :: p.head) ++ (c :: t ++ paramsText post) =
      ((f.type ++ paramsText pre ++ 59 :: p.head) ++ [c]) ++ (t ++ paramsText post) by simp, List.take_left]
    simp
  have hfind : ((f.type ++ paramsText pre) ++ 59 :: (p.head ++ [c])).reverse.findIdx? (· == 59) =
      some (p.head ++ [c]).length := by
    rw [List.reverse_append, List.reverse_cons, List.append_assoc, List.singleton_append, Scan.findIdx?_append _ (by decide)]
    · simp
    · intro d hd
      rw [List.mem_reverse, List.mem_append, List.mem_singleton] at hd
      rcases hd with hd | rfl
      · simpa using (hp.head_chars d hd).1
      · simpa using h59
  unfold rfindSemicolon
  rw [htake]
  simp only [hfind, Option.map_some, Option.some.injEq]
  simp
  omega

theorem FieldValue.WellFormed.of_params (hf : f.WellFormed) {params : List Parameter}
    (h : ∀ p ∈ params, p.WellFormed) : FieldValue.WellFormed ⟨f.type, params⟩ :=
  ⟨hf.type_chars, hf.type_last, h⟩

/-- The first parameter that begins with the attribute, if there is one. -/
theorem first_begins (attr : AnsiString) (params : List Parameter) :
    (∀ p ∈ params, p.begins attr = false) ∨ ∃ pre p post, params = pre ++ p :: post ∧
      (∀ q ∈ pre, q.begins attr = false) ∧ p.begins attr = true := by
  cases h : params.find? (Parameter.begins attr) with
  | none => exact .inl fun p hp => by simpa using List.find?_eq_none.1 h p hp
  | some p =>
    obtain ⟨hp, pre, post, hsplit, hpre⟩ := List.find?_eq_some_iff_append.1 h
    exact .inr ⟨pre, p, post, hsplit, fun q hq => by simpa using hpre q hq, hp⟩

/-- `RemoveParameter` removes every parameter whose name begins with the
    attribute. -/
theorem removeParameter_text (hf : f.WellFormed) (ha : IsAttribute attr) : removeParameter f.text attr =
    FieldValue.text ⟨f.type, f.params.filter fun p => !p.begins attr⟩ := by
  have loop : ∀ (n : Nat) (params : List Parameter), params.length < n → (∀ p ∈ params, p.WellFormed) →
      removeParameterLoop attr n (FieldValue.text ⟨f.type, params⟩) =
        FieldValue.text ⟨f.type, params.filter fun p => !p.begins attr⟩ := by
    intro n
    induction n with
    | zero => exact fun params hn => absurd hn (Nat.not_lt_zero _)
    | succ n ih =>
      intro params hn hparams
      have hwf := hf.of_params hparams
      rw [removeParameterLoop]
      rcases first_begins attr params with hnone | ⟨pre, p, post, hsplit, hpre, hp⟩
      · rw [findParameter_none hwf ha hnone]
        dsimp only
        rw [List.filter_eq_self.2 fun p hp => by simp [hnone p hp]]
      · -- The first parameter that begins with the attribute goes.
        obtain ⟨e, he⟩ := findParameter_first hwf ha hsplit hpre hp
        have hend : f.type.length + (paramsText pre).length + 1 + p.head.length + p.value.text.length =
            (f.type ++ paramsText pre ++ p.text).length := by
          simp [Parameter.text, Parameter.piece]
          omega
        have hrest : FieldValue.text ⟨f.type, params⟩ = (f.type ++ paramsText pre ++ p.text) ++ paramsText post := by
          rw [FieldValue.text, hsplit]
          simp [paramsText]
        have herase : (FieldValue.text ⟨f.type, params⟩).take (f.type ++ paramsText pre).length ++
            (FieldValue.text ⟨f.type, params⟩).drop
              (f.type.length + (paramsText pre).length + 1 + p.head.length + p.value.text.length) =
            FieldValue.text ⟨f.type, pre ++ post⟩ := by
          rw [hend, hrest, List.drop_left, List.append_assoc (f.type ++ paramsText pre), List.take_left]
          simp [FieldValue.text, paramsText]
        rw [he]
        dsimp only
        rw [rfindSemicolon_text hwf hsplit]
        dsimp only
        rw [herase, ih (pre ++ post) _ (fun q hq => hparams q (by simp_all; tauto))]
        · simp [hsplit, hp]
        · rw [hsplit] at hn
          simp at hn ⊢
          omega
  have hlen := length_le_paramsText f.params
  apply loop _ _ _ hf.params
  simp only [FieldValue.text, List.length_append]
  omega

theorem getValue_text (hf : f.WellFormed) : getValue f.text = f.type := by
  have htype : ∀ c ∈ f.type, (c == 59) = false := fun c hc => by simpa using (hf.type_chars c hc).1
  have htrim : trimRight f.type = f.type := by
    rw [trimRight, List.rdropWhile_eq_self_iff]
    intro hne
    simpa using hf.type_last _ (List.getLast?_eq_some_getLast hne)
  unfold getValue
  cases hparams : f.params with
  | nil =>
    have htext : f.text = f.type := by
      rw [FieldValue.text, hparams]
      simp [paramsText]
    rw [htext, Scan.findIdx?_none htype]
  | cons p params =>
    have hsome : f.text.findIdx? (· == 59) = some f.type.length := by
      rw [FieldValue.text, hparams]
      exact Scan.findIdx?_append htype (by decide)
    rw [hsome]
    dsimp only
    rw [FieldValue.text, List.take_left, htrim]

end HMailServer.MimeField
