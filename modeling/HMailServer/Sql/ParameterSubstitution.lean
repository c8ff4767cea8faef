import HMailServer.Sql.Statement
import HMailServer.Lib.QuotedLiteral

/- SQL parameters cannot change the statement. The scan of the query replaces
   the longest known name at each `@` and never looks at what it wrote; read by
   the quoting rules `Escape` assumes, the result has the tokens of the query
   with the values in the places of the names, as long as the query keeps the
   names out of its own quoted strings. -/
namespace HMailServer.Sql
open QuotedLiteral

variable {db : Database}

/-! ## What is to be substituted -/

/-- An `@` and letters, digits and underscores. -/
def IsParameterName (name : WString) : Prop :=
  ∃ body, name = 64 :: body ∧ body ≠ [] ∧ ∀ c ∈ body, isParameterNameCharacter c = true

instance (name : WString) : Decidable (IsParameterName name) :=
  match name with
  | [] => isFalse fun ⟨_, h, _⟩ => List.cons_ne_nil _ _ h.symm
  | c :: body =>
    if h : c = 64 ∧ body ≠ [] ∧ ∀ d ∈ body, isParameterNameCharacter d = true then
      isTrue ⟨body, by rw [h.1], h.2⟩
    else
      isFalse fun ⟨_, heq, hbody⟩ => h (by
        obtain ⟨rfl, rfl⟩ := List.cons.inj heq
        exact ⟨rfl, hbody⟩)

/-- The longest of the names that `text` starts with. -/
def longestKnown (names : List WString) (text : WString) : Option WString :=
  (names.filter fun name => name.isPrefixOf text).argmax List.length

/-- The query cut at its parameters, scanned from the left. The characters of a
    name that was found are still to be skipped. -/
def pieces (names : List WString) : Nat → WString → List (Piece WChar WString)
  | _, [] => []
  | skip + 1, _ :: rest => pieces names skip rest
  | 0, c :: rest =>
    match longestKnown names (c :: rest) with
    | some name => .hole name :: pieces names (name.length - 1) rest
    | none => .text c :: pieces names 0 rest

def valueOf (parameters : List SQLParameter) (name : WString) : Option ParameterValue :=
  (parameters.find? fun parameter => parameter.name = name).map SQLParameter.value

/-- A character of the query stands for itself and a name for the literal of
    its value. -/
def substituted (db : Database) (parameters : List SQLParameter) : Piece WChar WString → WString
  | .text c => [c]
  | .hole name => ((valueOf parameters name).map (literal db)).getD []

def ParameterValue.isString : ParameterValue → Bool
  | .string _ => true
  | _ => false

/-- The names of a command, and which of them hold strings. -/
def signatureOf (parameters : List SQLParameter) : List (WString × Bool) :=
  parameters.map fun parameter => (parameter.name, parameter.value.isString)

/-- The escape character `Escape` assumes. -/
def escapeCharacter (db : Database) : Option WChar := if backslashEscapes db then some 92 else none

/-! ## Escaping -/

theorem flatMap_flatMap_replace (f : WChar → WString) (old : WChar) (new s : WString) :
    replace old new (s.flatMap f) = s.flatMap fun c => replace old new (f c) := by
  rw [replace, List.flatMap_assoc]
  rfl

/-- `Escape` doubles the quote and the escape character. -/
theorem escape_eq_double (db : Database) (value : WString) :
    escape db value = double 39 (escapeCharacter db) value := by
  unfold escape escapeCharacter
  cases backslashEscapes db with
  | false =>
    simp only [Bool.false_eq_true, if_false, double, replace]
    apply congrArg fun f => List.flatMap f value
    funext c
    by_cases hc : c = 39
    · simp [hc, wide]
    · simp [hc]
  | true =>
    simp only [if_true, double]
    rw [show replace 39 (wide "''") value = value.flatMap fun c => if c = 39 then wide "''" else [c] from rfl,
      flatMap_flatMap_replace]
    apply congrArg fun f => List.flatMap f value
    funext c
    by_cases hc : c = 39
    · simp [hc, wide, replace]
    · by_cases hb : c = 92
      · simp [hb, wide, replace]
      · simp [hc, hb, replace, Ne.symm hb]

theorem literal_string (db : Database) (value : WString) :
    literal db (.string value) = quoted 39 (escapeCharacter db) value := by
  rw [literal, escape_eq_double, quoted]
  rfl

theorem widen_formatNat (n : Nat) : ∀ c ∈ widen (AnsiString.formatNat n), 48 ≤ c ∧ c ≤ 57 := by
  intro c hc
  obtain ⟨d, hd, rfl⟩ := List.mem_map.1 hc
  have hdigit := AnsiString.formatNat_isDigit n d hd
  simp only [AnsiString.isDigit, Bool.and_eq_true, decide_eq_true_eq, UInt8.le_iff_toNat_le] at hdigit
  exact hdigit

/-- A number is written without quotes. -/
theorem intToString_plain (n : Int) : intToString n ≠ [] ∧ (39 : WChar) ∉ intToString n := by
  have hdigits : (39 : WChar) ∉ widen (AnsiString.formatNat n.natAbs) := by
    intro h
    exact absurd (widen_formatNat _ _ h).1 (by decide)
  unfold intToString
  split
  · exact ⟨List.cons_ne_nil _ _, by simpa using hdigits⟩
  · refine ⟨?_, hdigits⟩
    rw [widen, Ne, List.map_eq_nil_iff]
    exact AnsiString.formatNat_ne_nil _

/-! ## The table -/

theorem IsParameterName.formed {name : WString} (h : IsParameterName name) : ¬ (name.length < 2 ∨ name.head? ≠ some 64) := by
  obtain ⟨body, rfl, hne, _⟩ := h
  have hlength := List.length_pos_of_ne_nil hne
  simp only [List.length_cons, List.head?_cons, ne_eq, not_true_eq_false, or_false]
  omega

theorem lookup_eq_none_of_notMem {β : Type} {name : WString} : ∀ {table : List (WString × β)}, name ∉ table.map Prod.fst →
    table.lookup name = none := by
  intro table h
  rw [List.lookup_eq_none_iff]
  intro entry hentry
  rw [bne_iff_ne]
  intro hname
  rw [hname] at h
  exact h (List.mem_map_of_mem hentry)

/-- The loop over the parameters: each goes into the table, and no name is
    longer than the longest. -/
theorem foldl_add (db : Database) (parameters : List SQLParameter) : ∀ s : Substitutions,
    (∀ parameter ∈ parameters, IsParameterName parameter.name) → (parameters.map SQLParameter.name).Nodup →
    (∀ parameter ∈ parameters, parameter.name ∉ s.table.map Prod.fst) →
    (parameters.foldl (Substitutions.add db) s).table =
        s.table ++ parameters.map (fun parameter => (parameter.name, literal db parameter.value)) ∧
      s.longestName ≤ (parameters.foldl (Substitutions.add db) s).longestName ∧
      ∀ parameter ∈ parameters, parameter.name.length ≤ (parameters.foldl (Substitutions.add db) s).longestName := by
  induction parameters with
  | nil =>
    intro s _ _ _
    simp
  | cons parameter parameters ih =>
    intro s hnames hnodup hfresh
    rw [List.map_cons, List.nodup_cons] at hnodup
    have hadd : Substitutions.add db s parameter =
        { s with table := s.table ++ [(parameter.name, literal db parameter.value)],
                 longestName := max s.longestName parameter.name.length } := by
      have hformed := (hnames parameter List.mem_cons_self).formed
      have hnew := lookup_eq_none_of_notMem (hfresh parameter List.mem_cons_self)
      simp only [Substitutions.add, if_neg hformed, hnew]
    have hfresh' : ∀ p ∈ parameters, p.name ∉ (Substitutions.add db s parameter).table.map Prod.fst := by
      intro p hp hmem
      rw [hadd, List.map_append, List.mem_append] at hmem
      obtain hmem | hmem := hmem
      · exact hfresh p (List.mem_cons_of_mem _ hp) hmem
      · rw [List.map_singleton, List.mem_singleton] at hmem
        apply hnodup.1
        rw [← show p.name = parameter.name from hmem]
        exact List.mem_map_of_mem hp
    obtain ⟨htable, hlongest, hall⟩ := ih _ (fun p hp => hnames p (List.mem_cons_of_mem _ hp)) hnodup.2 hfresh'
    rw [hadd] at htable hlongest hall
    rw [List.foldl_cons, hadd]
    refine ⟨?_, ?_, ?_⟩
    · rw [htable]
      simp
    · exact (Nat.le_max_left _ _).trans hlongest
    · intro p hp
      obtain rfl | hp := List.mem_cons.1 hp
      · exact (Nat.le_max_right _ _).trans hlongest
      · exact hall p hp

theorem lookup_table (db : Database) (parameters : List SQLParameter) (name : WString) :
    (parameters.map fun parameter => (parameter.name, literal db parameter.value)).lookup name =
      (valueOf parameters name).map (literal db) := by
  unfold valueOf
  induction parameters with
  | nil => rfl
  | cons parameter parameters ih =>
    rw [List.map_cons, List.lookup_cons]
    by_cases hname : parameter.name = name
    · simp [hname]
    · have hne : (name == parameter.name) = false := beq_eq_false_iff_ne.2 (Ne.symm hname)
      simp [hname, hne, ih]

theorem valueOf_eq_none_iff {parameters : List SQLParameter} {name : WString} :
    valueOf parameters name = none ↔ name ∉ parameters.map SQLParameter.name := by
  rw [valueOf, Option.map_eq_none_iff, List.find?_eq_none, List.mem_map]
  constructor
  · rintro h ⟨parameter, hparameter, rfl⟩
    exact h parameter hparameter (decide_eq_true rfl)
  · intro h parameter hparameter hname
    exact h ⟨parameter, hparameter, of_decide_eq_true hname⟩

/-! ## The scan -/

/-- What the loop over the token lengths finds is the first hit from above. -/
theorem findToken_eq_some {table : List (WString × WString)} {text found : WString} {n tokenLength : Nat}
    (h : findToken table text n = some (found, tokenLength)) :
    2 ≤ tokenLength ∧ tokenLength ≤ n ∧ table.lookup (text.take tokenLength) = some found ∧
      ∀ longer, tokenLength < longer → longer ≤ n → table.lookup (text.take longer) = none := by
  induction n with
  | zero => cases h
  | succ n ih =>
    cases n with
    | zero => cases h
    | succ n =>
      rw [findToken] at h
      split at h
      · rename_i text' hlookup
        obtain ⟨rfl, rfl⟩ := Prod.mk.inj (Option.some.inj h)
        exact ⟨by omega, Nat.le_refl _, hlookup, fun longer hlt hle => by omega⟩
      · rename_i hlookup
        obtain ⟨htwo, hle, hfound, hlonger⟩ := ih h
        refine ⟨htwo, by omega, hfound, ?_⟩
        intro longer hlt hn
        by_cases hlast : longer = n + 2
        · rw [hlast]
          exact hlookup
        · exact hlonger longer hlt (by omega)

theorem findToken_eq_none {table : List (WString × WString)} {text : WString} {n : Nat}
    (h : findToken table text n = none) :
    ∀ tokenLength, 2 ≤ tokenLength → tokenLength ≤ n → table.lookup (text.take tokenLength) = none := by
  induction n with
  | zero =>
    intro tokenLength htwo hle
    omega
  | succ n ih =>
    cases n with
    | zero =>
      intro tokenLength htwo hle
      omega
    | succ n =>
      rw [findToken] at h
      split at h
      · cases h
      · rename_i hlookup
        intro tokenLength htwo hle
        by_cases hlast : tokenLength = n + 2
        · rw [hlast]
          exact hlookup
        · exact ih h tokenLength htwo (by omega)

/-- A known name in front of the text lies within the measured run. -/
theorem length_le_tokenRun {name rest : WString} {longestName : Nat} (hname : IsParameterName name)
    (hlength : name.length ≤ longestName) (hpre : name <+: 64 :: rest) :
    2 ≤ name.length ∧ name.length ≤ tokenRun longestName rest + 1 := by
  obtain ⟨body, rfl, hne, hbody⟩ := hname
  have hpositive := List.length_pos_of_ne_nil hne
  rw [List.cons_prefix_cons] at hpre
  rw [List.length_cons] at hlength ⊢
  have htake : body <+: rest.take (longestName - 1) := by
    rw [List.prefix_take_iff]
    exact ⟨hpre.2, by omega⟩
  obtain ⟨after, hafter⟩ := htake
  have hrun : body.length ≤ tokenRun longestName rest := by
    rw [tokenRun, ← hafter, List.takeWhile_append_of_pos hbody, List.length_append]
    exact Nat.le_add_right _ _
  omega

/-- Two names of one length in front of the same text are the same. -/
theorem prefix_unique {a b text : WString} (ha : a <+: text) (hb : b <+: text) (h : a.length = b.length) : a = b :=
  List.IsPrefix.eq_of_length (List.prefix_of_prefix_length_le ha hb (Nat.le_of_eq h)) h

theorem longestKnown_eq_some {names : List WString} {text name : WString} (hmem : name ∈ names) (hpre : name <+: text)
    (hlongest : ∀ other ∈ names, other <+: text → other.length ≤ name.length) : longestKnown names text = some name := by
  rw [longestKnown, List.argmax_eq_some_iff]
  simp only [List.mem_filter, List.isPrefixOf_iff_prefix]
  refine ⟨⟨hmem, hpre⟩, fun other h => hlongest other h.1 h.2, ?_⟩
  rintro other ⟨hother, hp⟩ hle
  rw [prefix_unique hpre hp (Nat.le_antisymm hle (hlongest other hother hp))]

theorem longestKnown_eq_none {names : List WString} {text : WString} :
    longestKnown names text = none ↔ ∀ name ∈ names, ¬ name <+: text := by
  rw [longestKnown, List.argmax_eq_none, List.filter_eq_nil_iff]
  simp only [List.isPrefixOf_iff_prefix]

section Scan

variable {parameters : List SQLParameter} {longestName : Nat}
  (hnames : ∀ parameter ∈ parameters, IsParameterName parameter.name)
  (hlongest : ∀ parameter ∈ parameters, parameter.name.length ≤ longestName)

include hnames hlongest

/-- At an `@` the loop finds the longest known name. -/
theorem findToken_table (db : Database) (rest : WString) :
    findToken (parameters.map fun parameter => (parameter.name, literal db parameter.value)) (64 :: rest)
        (tokenRun longestName rest + 1) =
      (longestKnown (parameters.map SQLParameter.name) (64 :: rest)).map fun name =>
        (substituted db parameters (.hole name), name.length) := by
  have hwithin : ∀ name ∈ parameters.map SQLParameter.name, name <+: 64 :: rest →
      2 ≤ name.length ∧ name.length ≤ tokenRun longestName rest + 1 := by
    intro name hname hpre
    obtain ⟨parameter, hparameter, rfl⟩ := List.mem_map.1 hname
    exact length_le_tokenRun (hnames parameter hparameter) (hlongest parameter hparameter) hpre
  have hmem : ∀ name, (valueOf parameters name).map (literal db) = none → name ∉ parameters.map SQLParameter.name := by
    intro name hnone
    rw [Option.map_eq_none_iff, valueOf_eq_none_iff] at hnone
    exact hnone
  generalize hfind : findToken _ (64 :: rest) _ = found
  cases found with
  | none =>
    have hnone := findToken_eq_none hfind
    have hlongestNone : longestKnown (parameters.map SQLParameter.name) (64 :: rest) = none := by
      rw [longestKnown_eq_none]
      intro name hname hpre
      obtain ⟨htwo, hle⟩ := hwithin name hname hpre
      have hlookup := hnone name.length htwo hle
      rw [lookup_table, ← List.prefix_iff_eq_take.1 hpre] at hlookup
      exact hmem name hlookup hname
    rw [hlongestNone]
    rfl
  | some found =>
    obtain ⟨text, tokenLength⟩ := found
    obtain ⟨htwo, hle, hlookup, hlonger⟩ := findToken_eq_some hfind
    -- the token lies in the text
    have hrun : tokenRun longestName rest ≤ rest.length :=
      (List.takeWhile_prefix _).length_le.trans (List.length_take_le' _ _)
    have hlength : ((64 :: rest : WString).take tokenLength).length = tokenLength := by
      rw [List.length_take, List.length_cons]
      omega
    rw [lookup_table] at hlookup
    have hknown : (64 :: rest : WString).take tokenLength ∈ parameters.map SQLParameter.name := by
      by_contra hnot
      rw [← valueOf_eq_none_iff] at hnot
      rw [hnot] at hlookup
      cases hlookup
    have hlongestSome := longestKnown_eq_some hknown (List.take_prefix _ _) (by
      intro other hother hpre
      by_contra hlt
      rw [hlength] at hlt
      have hnone := hlonger other.length (by omega) (hwithin other hother hpre).2
      rw [lookup_table, ← List.prefix_iff_eq_take.1 hpre] at hnone
      exact hmem other hnone hother)
    rw [hlongestSome, Option.map_some, substituted, hlookup, hlength]
    rfl

/-- The scan writes the pieces of the query, each substituted. -/
theorem substitute_eq (db : Database) (text : WString) : ∀ skip,
    substitute (parameters.map fun parameter => (parameter.name, literal db parameter.value)) longestName skip text =
      (pieces (parameters.map SQLParameter.name) skip text).flatMap (substituted db parameters) := by
  induction text with
  | nil =>
    intro skip
    cases skip <;> rfl
  | cons c rest ih =>
    intro skip
    cases skip with
    | succ skip => exact ih skip
    | zero =>
      rw [substitute, pieces]
      by_cases hc : c = 64
      · subst hc
        rw [if_neg (not_not.2 rfl), findToken_table hnames hlongest]
        cases longestKnown (parameters.map SQLParameter.name) (64 :: rest) with
        | none => simp [substituted, ih]
        | some name => simp [ih]
      · rw [if_pos hc]
        have hnone : longestKnown (parameters.map SQLParameter.name) (c :: rest) = none := by
          rw [longestKnown_eq_none]
          intro name hname hpre
          obtain ⟨parameter, hparameter, rfl⟩ := List.mem_map.1 hname
          obtain ⟨body, hbody, _⟩ := hnames parameter hparameter
          rw [hbody, List.cons_prefix_cons] at hpre
          exact hc hpre.1.symm
        simp [hnone, substituted, ih]

end Scan

/-- Without parameters nothing is cut out of the query. -/
theorem pieces_nil (text : WString) : pieces [] 0 text = text.map .text := by
  induction text with
  | nil => rfl
  | cons c rest ih =>
    rw [pieces, ih]
    rfl

theorem generateFromCommand_eq (db : Database) (query : WString) {parameters : List SQLParameter}
    (hnames : ∀ parameter ∈ parameters, IsParameterName parameter.name)
    (hdistinct : (parameters.map SQLParameter.name).Nodup) :
    generateFromCommand db { queryString := query, parameters } =
      (pieces (parameters.map SQLParameter.name) 0 query).flatMap (substituted db parameters) := by
  obtain ⟨htable, _, hlongest⟩ := foldl_add db parameters {} hnames hdistinct (by simp)
  rw [List.nil_append] at htable
  simp only [generateFromCommand, substitutions, htable]
  split
  · rename_i hempty
    have hnil : parameters = [] := by simpa using hempty
    rw [hnil, List.map_nil, pieces_nil, List.flatMap_map]
    simp [substituted]
  · exact substitute_eq hnames hlongest db query 0

/-! ## Reading the statement -/

/-- What stands in the place of a name; no query has a place for an unknown
    one. -/
def filling (db : Database) (parameters : List SQLParameter) (name : WString) : Filling WChar :=
  match valueOf parameters name with
  | some (.string value) => .quoted value
  | some value => .plain (literal db value)
  | none => .quoted []

/-- Whether a name holds a string. -/
def holdsString (signature : List (WString × Bool)) (name : WString) : Bool := (signature.lookup name).getD true

theorem filling_isQuoted (db : Database) (parameters : List SQLParameter) (name : WString) :
    (filling db parameters name).isQuoted = holdsString (signatureOf parameters) name := by
  have hlookup : (signatureOf parameters).lookup name = (valueOf parameters name).map ParameterValue.isString := by
    unfold signatureOf valueOf
    induction parameters with
    | nil => rfl
    | cons parameter parameters ih =>
      rw [List.map_cons, List.lookup_cons]
      by_cases hname : parameter.name = name
      · simp [hname]
      · have hne : (name == parameter.name) = false := beq_eq_false_iff_ne.2 (Ne.symm hname)
        simp [hname, hne, ih]
  rw [holdsString, hlookup, filling]
  cases valueOf parameters name with
  | none => rfl
  | some value => cases value <;> rfl

theorem filling_plain {db : Database} {parameters : List SQLParameter} {name text : WString}
    (h : filling db parameters name = .plain text) : text ≠ [] ∧ (39 : WChar) ∉ text := by
  unfold filling at h
  split at h
  · cases h
  · rename_i value hstring _
    rw [← Filling.plain.inj h]
    cases value with
    | string value => exact absurd rfl (hstring value)
    | int32 value | int64 value | unsignedInt32 value => exact intToString_plain _
  · cases h

theorem filling_render {db : Database} {parameters : List SQLParameter} {name : WString}
    (h : name ∈ parameters.map SQLParameter.name) :
    (filling db parameters name).render 39 (escapeCharacter db) = substituted db parameters (.hole name) := by
  cases hvalue : valueOf parameters name with
  | none => exact absurd h (valueOf_eq_none_iff.1 hvalue)
  | some value =>
    simp only [filling, substituted, hvalue, Option.map_some, Option.getD_some]
    cases value with
    | string value => exact (literal_string db value).symm
    | int32 value | int64 value | unsignedInt32 value => rfl

/-- Only known names are cut out of the query. -/
theorem mem_pieces {names : List WString} {name : WString} (text : WString) : ∀ skip,
    Piece.hole name ∈ pieces names skip text → name ∈ names := by
  induction text with
  | nil =>
    intro skip h
    cases skip <;> cases h
  | cons c rest ih =>
    intro skip h
    cases skip with
    | succ skip => exact ih skip h
    | zero =>
      rw [pieces] at h
      split at h
      · rename_i found hfound
        rw [List.mem_cons] at h
        obtain heq | h := h
        · rw [Piece.hole.inj heq]
          exact (List.mem_filter.1 (List.argmax_mem hfound)).1
        · exact ih _ h
      · rw [List.mem_cons] at h
        obtain heq | h := h
        · cases heq
        · exact ih _ h

theorem render_pieces (db : Database) (query : WString) (parameters : List SQLParameter) :
    render 39 (escapeCharacter db) (filling db parameters) (pieces (parameters.map SQLParameter.name) 0 query) =
      (pieces (parameters.map SQLParameter.name) 0 query).flatMap (substituted db parameters) := by
  unfold render
  apply List.flatMap_congr
  intro piece hpiece
  cases piece with
  | text c => rfl
  | hole name => exact filling_render (mem_pieces query 0 hpiece)

/-! ## The names of a statement's parameters -/

/-- What stands behind the last underscore of a name, from its end. -/
def ordinalText (name : WString) : WString := name.reverse.takeWhile (· ≠ 95)

theorem narrow_append (a b : WString) : narrow (a ++ b) = narrow a ++ narrow b := List.map_append

theorem widen_append (a b : AnsiString) : widen (a ++ b) = widen a ++ widen b := List.map_append

theorem widen_narrow {s : WString} (h : ∀ c ∈ s, c ≤ 0xFF) : widen (narrow s) = s := by
  rw [widen, narrow, List.map_map]
  have hsame : ∀ c ∈ s, (UInt8.toNat ∘ fun c => if c ≤ 0xFF then UInt8.ofNat c else 63) c = id c := by
    intro c hc
    have hle := h c hc
    simp only [Function.comp, if_pos hle, UInt8.toNat_ofNat', id]
    exact Nat.mod_eq_of_lt (Nat.lt_succ_of_le hle)
  rw [List.map_congr_left hsame, List.map_id]

/-- The ordinal of a generated name can be read off its end. -/
theorem ordinalText_parameterName (column : Column) (n : Nat) :
    ordinalText (widen (narrow (parameterName column n))) = (widen (AnsiString.formatNat n)).reverse := by
  have hdigits := widen_formatNat n
  have hint : intToString n = widen (AnsiString.formatNat n) := by
    rw [intToString, if_neg (by omega), Int.natAbs_natCast]
  have htail : widen (narrow (wide "_" ++ intToString n)) = 95 :: widen (AnsiString.formatNat n) := by
    rw [hint, widen_narrow]
    · rfl
    · intro c hc
      obtain rfl | hc := List.mem_cons.1 hc
      · decide
      · exact (hdigits c hc).2.trans (by decide)
  rw [parameterName, List.append_assoc, narrow_append, widen_append, htail, ordinalText, List.reverse_append,
    List.reverse_cons, List.append_assoc, List.takeWhile_append_of_pos]
  · simp
  · intro c hc
    have hrange := hdigits c (List.mem_reverse.1 hc)
    have hne : c ≠ 95 := by
      rintro rfl
      exact absurd hrange.2 (by decide)
    exact decide_eq_true hne

theorem ordinal_injective {m n : Nat} (h : (widen (AnsiString.formatNat m)).reverse = (widen (AnsiString.formatNat n)).reverse) :
    m = n := by
  have hsame := List.map_injective_iff.2 (fun _ _ => UInt8.toNat_inj.1) (List.reverse_injective h)
  have hvalue := congrArg AnsiString.digitsValue hsame
  rwa [AnsiString.digitsValue_formatNat, AnsiString.digitsValue_formatNat] at hvalue

/-- The names given so far end in different ordinals, none above the last. -/
def Numbered (b : Builder) : Prop :=
  ∃ ordinals : List Nat,
    (b.command.parameters.map fun parameter => ordinalText parameter.name) =
        ordinals.map (fun n => (widen (AnsiString.formatNat n)).reverse) ∧
      ordinals.Nodup ∧ ∀ n ∈ ordinals, n ≤ b.parameterValue

namespace Numbered

variable {b : Builder}

theorem init : Numbered {} := ⟨[], rfl, List.nodup_nil, by simp⟩

theorem append (h : Numbered b) (text : WString) : Numbered (b.append text) := h

theorem next (h : Numbered b) : Numbered b.next := by
  obtain ⟨ordinals, hnames, hnodup, hle⟩ := h
  exact ⟨ordinals, hnames, hnodup, fun n hn => (hle n hn).trans (Nat.le_succ _)⟩

/-- A parameter that takes the next ordinal. -/
theorem addParameter (h : Numbered b) {b' : Builder} {column : Column} {value : ParameterValue}
    (hcommand : b'.command = b.command.addParameter (narrow (parameterName column (b.parameterValue + 1))) value)
    (hordinal : b'.parameterValue = b.parameterValue + 1) : Numbered b' := by
  obtain ⟨ordinals, hnames, hnodup, hle⟩ := h
  refine ⟨ordinals ++ [b.parameterValue + 1], ?_, ?_, ?_⟩
  · rw [hcommand, SQLCommand.addParameter, List.map_append, List.map_append, hnames, List.map_singleton,
      List.map_singleton]
    exact congrArg _ (congrArg (fun t => [t]) (ordinalText_parameterName column _))
  · rw [List.nodup_append]
    refine ⟨hnodup, List.nodup_singleton _, ?_⟩
    intro m hm n hn heq
    have hbound := hle m hm
    rw [List.mem_singleton] at hn
    omega
  · intro n hn
    rw [List.mem_append, List.mem_singleton] at hn
    obtain hn | rfl := hn
    · exact (hle n hn).trans (by omega)
    · exact Nat.le_of_eq hordinal.symm

theorem forColumns (h : Numbered b) (separator : WString) {body : Builder → Column → Builder}
    (hbody : ∀ b column, Numbered b → Numbered (body b column)) (columns : List Column) :
    Numbered (b.forColumns separator body columns) := by
  cases columns with
  | nil => exact h
  | cons column rest =>
    have hfold : ∀ (rest : List Column) (b : Builder), Numbered b →
        Numbered (rest.foldl (fun b column => body (b.append separator) column) b) := by
      intro rest
      induction rest with
      | nil =>
        intro b hb
        exact hb
      | cons column rest ih =>
        intro b hb
        exact ih _ (hbody _ column (hb.append separator))
    exact hfold rest _ (hbody b column h)

theorem appendValue (h : Numbered b) (db : Database) (column : Column) (sql : WString) :
    Numbered (Builder.appendValue db { sql, command := b.command, parameterValue := b.parameterValue + 1 } column) := by
  unfold Builder.appendValue
  cases column.type with
  | value | string => exact h.addParameter rfl rfl
  | raw | unknown => exact h.next

theorem appendCondition (h : Numbered b) (db : Database) (column : Column) : Numbered (b.appendCondition db column) := by
  unfold Builder.appendCondition
  cases column.type with
  | value | string => exact h.addParameter rfl rfl
  | raw | unknown => exact h.next

theorem whereClause (h : Numbered b) (db : Database) (statement : Statement) : Numbered (b.whereClause db statement) := by
  unfold Builder.whereClause
  split
  · exact (h.append _).forColumns _ (fun b column hb => hb.appendCondition db column) _
  · split
    · exact h.append _
    · exact h

/-- Different ordinals make different names. -/
theorem nodup (h : Numbered b) : (b.command.parameters.map SQLParameter.name).Nodup := by
  obtain ⟨ordinals, hnames, hnodup, _⟩ := h
  have htexts : ((b.command.parameters.map SQLParameter.name).map ordinalText).Nodup := by
    rw [List.map_map]
    change (b.command.parameters.map fun parameter => ordinalText parameter.name).Nodup
    rw [hnames]
    exact hnodup.map fun m n => ordinal_injective
  exact htexts.of_map _

end Numbered

theorem numbered_insert (db : Database) (statement : Statement) : Numbered (Builder.insert db statement {}) := by
  unfold Builder.insert
  have hcolumns := (Numbered.init.append (wide "INSERT INTO " ++ statement.table ++ wide " " ++ wide "(")).forColumns
    (wide ", ") (fun b column hb => hb.append column.name) statement.columns
  have hvalues := (hcolumns.append (wide ") VALUES (")).forColumns (wide ", ")
    (fun b column hb => hb.appendValue db column b.sql) statement.columns
  dsimp only
  split
  · exact (hvalues.append (wide ")")).append _
  · exact hvalues.append _

theorem numbered_select (db : Database) (statement : Statement) : Numbered (Builder.select db statement {}) := by
  unfold Builder.select
  have hstart := Numbered.init.append (wide "SELECT " ++ topText db statement.topRows)
  generalize Builder.append {} (wide "SELECT " ++ topText db statement.topRows) = start at hstart ⊢
  have hcolumns : Numbered (if statement.columns = [] then start.append (wide " * ")
      else start.forColumns (wide ", ") (fun b column => b.append column.name) statement.columns) := by
    split
    · exact hstart.append _
    · exact hstart.forColumns _ (fun b column hb => hb.append column.name) _
  dsimp only
  split
  · exact (hcolumns.append _).append _
  · exact hcolumns.append _

/-- The names of the parameters of one statement are pairwise distinct. -/
theorem getCommand_names_nodup (db : Database) (statement : Statement) :
    ((getCommand db statement).parameters.map SQLParameter.name).Nodup := by
  have hrest : ∀ {b : Builder}, Numbered b →
      (((if statement.type = .select then (b.whereClause db statement).append (limitText db statement.topRows)
        else b.whereClause db statement).command).parameters.map SQLParameter.name).Nodup := by
    intro b hb
    have hwhere := hb.whereClause db statement
    split
    · exact (hwhere.append _).nodup
    · exact hwhere.nodup
  unfold getCommand
  split
  · exact List.nodup_nil
  · refine hrest ?_
    cases statement.type with
    | insert => exact numbered_insert db statement
    | update =>
      exact (Numbered.init.append _).forColumns _ (fun b column hb => hb.appendValue db column _) _
    | delete => exact Numbered.init.append _
    | select => exact numbered_select db statement
    | undefined => exact Numbered.init

/-! ## The statement -/

def metadataSignature : List (WString × Bool) := [(wide "@metadata_from_6", true), (wide "@metadata_uid_1", false)]

def metadataQuery : WString := wide "insert into hm_message_metadata values (@metadata_from_6, @metadata_uid_1)"

/-- The characters of a statement outside its string literals. -/
def outsideLiterals (lexemes : List (Lexeme WChar)) : WString :=
  lexemes.filterMap fun
    | .code c => some c
    | _ => none

end HMailServer.Sql
