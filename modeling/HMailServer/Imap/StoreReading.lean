import HMailServer.Imap.StoreArgument
import HMailServer.Lib.Separated

/- How `IMAPStore` reads a well-formed argument. -/
namespace HMailServer.IMAPStore

open WString

namespace StoreArgument

variable (a : StoreArgument) {loc : Locale}

/-! ## The words -/

/-- A keyword of the list has the text in it, in some letter case. -/
def NamesToken (lower : WString) : Prop := ∃ keyword ∈ a.keywords, lower <:+: keyword.map classicLower

instance (lower : WString) : Decidable (a.NamesToken lower) := inferInstanceAs (Decidable (∃ _ ∈ _, _))

theorem plain_digits (m : Modifier) : Plain m.digits := by
  intro c hc
  have hdigit := m.digit c hc
  exact ⟨Nat.lt_of_lt_of_le (by decide) hdigit.1, Nat.lt_of_le_of_lt hdigit.2 (by decide)⟩

theorem plain_flag (f : Flag) : Plain f.text := by
  intro c hc
  obtain ⟨hlow, hhigh, _⟩ := f.char.2 c hc
  exact ⟨Nat.lt_trans (by decide) hlow, Nat.lt_trans hhigh (by decide)⟩

theorem plain_joined : Plain a.joined := by
  have hgen : ∀ pieces : List WString, (∀ piece ∈ pieces, Plain piece) → Plain ([32].intercalate pieces) := by
    intro pieces h
    cases pieces with
    | nil => exact plain_nil
    | cons piece rest =>
      rw [Separated.intercalate_cons]
      apply Plain.append (h piece List.mem_cons_self)
      intro c hc
      obtain ⟨other, hother, hc⟩ := List.mem_flatMap.1 hc
      exact Plain.cons (by decide) (h other (List.mem_cons_of_mem _ hother)) c hc
  apply hgen
  intro piece hpiece
  obtain ⟨f, -, rfl⟩ := List.mem_map.1 hpiece
  exact plain_flag f

theorem plain_modifierText : Plain (modifierText a.modifier) := by
  cases a.modifier with
  | none => exact plain_nil
  | some m =>
    apply Plain.cons (by decide)
    apply Plain.append (Spells.plain m.spells (by decide))
    exact Plain.cons (by decide) (Plain.append (plain_digits m) (by decide))

theorem plain_silentText : Plain (silentText a.silent) := by
  cases a.silent with
  | none => exact plain_nil
  | some text => exact Spells.plain text.2 (by decide)

theorem plain_listText : Plain a.listText := by
  unfold listText
  split
  · exact Plain.cons (by decide) (Plain.append a.plain_joined (by decide))
  · exact a.plain_joined

theorem plain_command : Plain a.command := by
  have hsign : Plain a.operation.sign := by
    cases a.operation <;> decide
  apply Plain.append
  · exact Plain.cons (by decide) (Plain.append a.plain_modifierText hsign)
  · apply Plain.append (Spells.plain a.spells (by decide))
    exact Plain.append a.plain_silentText (Plain.cons (by decide) a.plain_listText)

/-! ## The searches -/

/-- A text that no part of the syntax but the operation has. -/
structure Token (token lower : WString) : Prop where
  plain : ∀ c ∈ token, 0 < c ∧ c < 128
  spells : token.map classicLower = lower
  ne_nil : lower ≠ []
  blank : 32 ∉ lower
  open_paren : 40 ∉ lower
  close_paren : 41 ∉ lower
  digit : ∃ c ∈ lower, ¬(48 ≤ c ∧ c ≤ 57)

theorem Token.not_digits {token lower : WString} (h : Token token lower) (m : Modifier) : ¬lower <:+: m.digits := by
  intro hin
  obtain ⟨c, hc, hdigit⟩ := h.digit
  exact hdigit (m.digit c (hin.subset hc))

/-- Where a search finds the token. -/
theorem finds_iff (hloc : loc.AsciiCase) {token lower : WString} (h : Token token lower) :
    (findNoCase loc a.command token).isSome = true ↔
      (a.modifier.isSome = true ∧ lower <:+: wide "unchangedsince") ∨ lower <:+: a.operationLower ∨
        ∃ f ∈ a.flags, lower <:+: f.text.map classicLower := by
  rw [findNoCase_eq hloc a.plain_command h.plain, h.spells, isSome_find h.ne_nil,
    a.infix_command_iff h.ne_nil h.blank h.open_paren h.close_paren]
  apply or_congr_left
  constructor
  · rintro ⟨m, hm, hin | hin⟩
    · exact ⟨Option.isSome_iff_exists.2 ⟨m, hm⟩, hin⟩
    · exact absurd hin (h.not_digits m)
  · rintro ⟨hsome, hin⟩
    obtain ⟨m, hm⟩ := Option.isSome_iff_exists.1 hsome
    exact ⟨m, hm, .inl hin⟩

/-- Only keywords have a token that is in no name of a system flag. -/
theorem exists_flag_iff {lower : WString} (h : ∀ flag : SystemFlag, ¬lower <:+: flag.name) :
    (∃ f ∈ a.flags, lower <:+: f.text.map classicLower) ↔ a.NamesToken lower := by
  constructor
  · rintro ⟨f, hf, hin⟩
    cases f with
    | system flag text spells =>
      have hname : text.map classicLower = flag.name := spells
      exact absurd (hname ▸ hin) (h flag)
    | keyword text valid other => exact ⟨text, List.mem_filterMap.2 ⟨_, hf, rfl⟩, hin⟩
  · rintro ⟨keyword, hkeyword, hin⟩
    obtain ⟨f, hf, hsome⟩ := List.mem_filterMap.1 hkeyword
    refine ⟨f, hf, ?_⟩
    cases f with
    | system flag text spells => cases hsome
    | keyword text valid other =>
      obtain rfl := Option.some.inj hsome
      exact hin

theorem not_infix_name {lower : WString} (h : ∀ flag ∈ editOrder, ¬lower <:+: flag.name) (flag : SystemFlag) :
    ¬lower <:+: flag.name := by
  apply h
  cases flag <;> simp [editOrder]

theorem eq_of_infix_names {flag other : SystemFlag} (h : flag.name <:+: other.name) : flag = other := by
  have hall : ∀ flag ∈ editOrder, ∀ other ∈ editOrder, flag.name <:+: other.name → flag = other := by decide
  apply hall flag _ other _ h
  · cases flag <;> simp [editOrder]
  · cases other <;> simp [editOrder]

theorem finds_minus (hloc : loc.AsciiCase) : (findNoCase loc a.command (wide "-FLAGS")).isSome = true ↔
    a.operation = .remove ∨ a.NamesToken (wide "-flags") := by
  have htoken : Token (wide "-FLAGS") (wide "-flags") := by
    constructor <;> decide
  have hoperation : wide "-flags" <:+: a.operationLower ↔ a.operation = .remove := by
    unfold operationLower silentLower
    cases a.operation <;> cases a.silent.isSome <;> decide
  rw [a.finds_iff hloc htoken, hoperation, a.exists_flag_iff (not_infix_name (by decide))]
  have hmodifier : ¬wide "-flags" <:+: wide "unchangedsince" := by decide
  simp [hmodifier]

theorem finds_plus (hloc : loc.AsciiCase) : (findNoCase loc a.command (wide "+FLAGS")).isSome = true ↔
    a.operation = .add ∨ a.NamesToken (wide "+flags") := by
  have htoken : Token (wide "+FLAGS") (wide "+flags") := by
    constructor <;> decide
  have hoperation : wide "+flags" <:+: a.operationLower ↔ a.operation = .add := by
    unfold operationLower silentLower
    cases a.operation <;> cases a.silent.isSome <;> decide
  rw [a.finds_iff hloc htoken, hoperation, a.exists_flag_iff (not_infix_name (by decide))]
  have hmodifier : ¬wide "+flags" <:+: wide "unchangedsince" := by decide
  simp [hmodifier]

theorem finds_silent (hloc : loc.AsciiCase) : (findNoCase loc a.command (wide "FLAGS.SILENT")).isSome = true ↔
    a.silent.isSome = true ∨ a.NamesToken (wide "flags.silent") := by
  have htoken : Token (wide "FLAGS.SILENT") (wide "flags.silent") := by
    constructor <;> decide
  have hoperation : wide "flags.silent" <:+: a.operationLower ↔ a.silent.isSome = true := by
    unfold operationLower silentLower
    cases a.operation <;> cases a.silent.isSome <;> decide
  rw [a.finds_iff hloc htoken, hoperation, a.exists_flag_iff (not_infix_name (by decide))]
  have hmodifier : ¬wide "flags.silent" <:+: wide "unchangedsince" := by decide
  simp [hmodifier]

theorem finds_unchangedSince (hloc : loc.AsciiCase) : (findNoCase loc a.command (wide "UNCHANGEDSINCE")).isSome = true ↔
    a.modifier.isSome = true ∨ a.NamesToken (wide "unchangedsince") := by
  have htoken : Token (wide "UNCHANGEDSINCE") (wide "unchangedsince") := by
    constructor <;> decide
  have hoperation : ¬wide "unchangedsince" <:+: a.operationLower := by
    unfold operationLower silentLower
    cases a.operation <;> cases a.silent.isSome <;> decide
  rw [a.finds_iff hloc htoken, a.exists_flag_iff (not_infix_name (by decide))]
  simp [hoperation]

/-- A system flag is found exactly if it is listed. -/
theorem finds_system (hloc : loc.AsciiCase) (flag : SystemFlag) {token : WString} (htoken : Token token flag.name) :
    (findNoCase loc a.command token).isSome = true ↔ a.lists flag = true := by
  have hslash : 92 ∈ flag.name := by
    cases flag <;> decide
  have hoperation : ¬flag.name <:+: a.operationLower := by
    intro hin
    have hmem := hin.subset hslash
    revert hmem
    unfold operationLower silentLower
    cases a.operation <;> cases a.silent.isSome <;> decide
  have hmodifier : ¬flag.name <:+: wide "unchangedsince" := by
    intro hin
    exact absurd (hin.subset hslash) (by decide)
  rw [a.finds_iff hloc htoken]
  simp only [hmodifier, hoperation, and_false, false_or]
  rw [lists, List.any_eq_true]
  constructor
  · rintro ⟨f, hf, hin⟩
    refine ⟨f, hf, ?_⟩
    cases f with
    | system other text spells =>
      have hname : text.map classicLower = other.name := spells
      have hin : flag.name <:+: other.name := hname ▸ hin
      exact beq_iff_eq.2 (eq_of_infix_names hin).symm
    | keyword text valid other =>
      obtain ⟨c, hc, hlow⟩ := List.mem_map.1 (hin.subset hslash)
      have hnat : ∀ n : Nat, (if 65 ≤ n ∧ n ≤ 90 then n + 32 else n) = 92 → n = 92 := by
        intro n hn
        split at hn <;> omega
      have hspecial := ((keyword_char valid other).2 c hc).2.2
      rw [hnat c hlow] at hspecial
      exact absurd (by decide) hspecial
  · rintro ⟨f, hf, his⟩
    refine ⟨f, hf, ?_⟩
    cases f with
    | system other text spells =>
      have hother : other = flag := eq_of_beq his
      have hname : text.map classicLower = other.name := spells
      have heq : (Flag.system other text spells).text.map classicLower = flag.name := by
        rw [← hother]
        exact hname
      rw [heq]
    | keyword text valid other => cases his

theorem listsFlag_eq (hloc : loc.AsciiCase) : listsFlag loc a.command = a.lists := by
  funext flag
  rw [Bool.eq_iff_iff]
  cases flag with
  | seen => exact a.finds_system hloc .seen (by constructor <;> decide)
  | deleted => exact a.finds_system hloc .deleted (by constructor <;> decide)
  | draft => exact a.finds_system hloc .draft (by constructor <;> decide)
  | answered => exact a.finds_system hloc .answered (by constructor <;> decide)
  | flagged => exact a.finds_system hloc .flagged (by constructor <;> decide)

/-! ## The places -/

/-- A text is first found where its first character first stands. -/
theorem find_append_self {p : WChar} {ps before rest : WString} (h : p ∉ before) :
    Occurrence.find (p :: ps) (before ++ (p :: ps ++ rest)) = some before.length := by
  rw [Occurrence.find_eq_some_iff]
  refine ⟨by rw [List.length_append]; omega, ?_, fun j hj hother => h ?_⟩
  · rw [List.drop_left]
    exact List.prefix_append _ _
  · obtain ⟨tail, htail⟩ := hother
    rw [List.drop_append_of_le_length (Nat.le_of_lt hj), List.drop_eq_getElem_cons hj] at htail
    rw [(List.cons.inj htail).1]
    exact List.getElem_mem hj

theorem notMem_front_lower : 102 ∉ a.front.map classicLower := by
  have hsign : 102 ∉ a.operation.sign := by
    cases a.operation <;> decide
  have hmodifier : 102 ∉ (modifierText a.modifier).map classicLower := by
    cases a.modifier with
    | none => exact List.not_mem_nil
    | some m =>
      have hdigits : 102 ∉ m.digits := fun h => absurd (m.digit 102 h) (by decide)
      have hname : 102 ∉ wide "unchangedsince" := by decide
      rw [modifierText, List.map_cons, List.map_append, m.spells, List.map_cons, List.map_append, digits_lower]
      simp [hdigits, hname, classicLower]
  unfold front
  rw [List.map_cons, List.map_append, sign_lower]
  simp [hsign, hmodifier, classicLower]

theorem find_flags (hloc : loc.AsciiCase) : findNoCase loc a.command (wide "FLAGS") = some a.front.length := by
  have hplain : Plain (wide "FLAGS") := by decide
  have hlower : (wide "FLAGS").map classicLower = 102 :: wide "lags" := by decide
  have hword : a.word.map classicLower = 102 :: wide "lags" := a.spells
  rw [findNoCase_eq hloc a.plain_command hplain, hlower, command, List.map_append, List.map_append, hword,
    find_append_self a.notMem_front_lower, List.length_map]

/-- The locale's characters below 128 are those of the classic one. -/
structure Classic (loc : Locale) : Prop where
  case : loc.AsciiCase
  space : ∀ c < 128, loc.isSpace c = classicLocale.isSpace c

/-- No blank: neither white space nor beyond ASCII. -/
theorem Classic.not_space {c : WChar} (hloc : Classic loc) (hlow : 32 < c) (hhigh : c < 127) : loc.isSpace c = false := by
  rw [hloc.space c (Nat.lt_trans hhigh (by decide))]
  have hnat : ∀ n : Nat, 32 < n → (n == 32 || (decide (9 ≤ n) && decide (n ≤ 13))) = false := by
    intro n hn
    simp
    omega
  exact hnat c hlow

theorem Classic.blank (hloc : Classic loc) : loc.isSpace 32 = true := by
  rw [hloc.space 32 (by decide)]
  rfl

/-- The mod-sequence of the modifier, held in 64 bits. -/
def value (m : Modifier) : Int := min (digitsValue m.digits) ((2 : Int) ^ 63 - 1)

theorem ttoi_digits (m : Modifier) (rest : WString) : ttoi 64 (m.digits ++ 41 :: rest) = value m := by
  obtain ⟨d, ds, hds⟩ := List.exists_cons_of_ne_nil m.ne_nil
  have hd := m.digit d (by rw [hds]; exact List.mem_cons_self)
  have htake : (m.digits ++ 41 :: rest).takeWhile (fun c => decide (48 ≤ c ∧ c ≤ 57)) = m.digits := by
    rw [List.takeWhile_append_of_pos fun c hc => decide_eq_true (m.digit c hc), List.takeWhile_cons_of_neg (by decide),
      List.append_nil]
  have hdrop : (m.digits ++ 41 :: rest).dropWhile (fun c => decide (c = 32 ∨ 9 ≤ c ∧ c ≤ 13)) = m.digits ++ 41 :: rest := by
    rw [hds, List.cons_append, List.dropWhile_cons_of_neg]
    have hnat : ∀ n : Nat, 48 ≤ n → ¬(decide (n = 32 ∨ 9 ≤ n ∧ n ≤ 13) = true) := by
      intro n hn
      simp
      omega
    exact hnat d hd.1
  have hvalue : digitsValue (m.digits ++ 41 :: rest) = digitsValue m.digits := by
    unfold digitsValue
    rw [htake]
    congr 1
    exact (List.takeWhile_eq_self_iff.2 fun c hc => decide_eq_true (m.digit c hc)).symm
  have hpos : (-(2 : Int) ^ (64 - 1)) ≤ min (digitsValue m.digits : Int) ((2 : Int) ^ (64 - 1) - 1) := by
    have hnonneg : (0 : Int) ≤ digitsValue m.digits := Int.natCast_nonneg _
    omega
  unfold ttoi
  dsimp only
  rw [hdrop]
  split
  · rename_i t ht
    rw [hds] at ht
    obtain ⟨rfl, -⟩ := List.cons.inj ht
    exact absurd hd.1 (by decide)
  · rename_i t ht
    rw [hds] at ht
    obtain ⟨rfl, -⟩ := List.cons.inj ht
    exact absurd hd.1 (by decide)
  · rw [hvalue, max_eq_right hpos]
    rfl

/-- The modifier that is written is the one that is read. -/
theorem parseModifier_some (hloc : Classic loc) (store : Store) {m : Modifier} (hm : a.modifier = some m) :
    parseModifier loc store a.command =
      { store with modifierParsed := true, unchangedSince := value m, hasUnchangedSince := true } := by
  have hplain : Plain (wide "UNCHANGEDSINCE") := by decide
  have hlower : (wide "UNCHANGEDSINCE").map classicLower = 117 :: wide "nchangedsince" := by decide
  have hname : m.name.map classicLower = 117 :: wide "nchangedsince" := m.spells
  have hlength : m.name.length = 14 := by
    rw [← List.length_map classicLower, hname]
    decide
  obtain ⟨rest, hcommand⟩ : ∃ rest, a.command = [32, 40] ++ (m.name ++ 32 :: (m.digits ++ 41 :: rest)) := by
    refine ⟨32 :: (a.operation.sign ++ (a.word ++ (silentText a.silent ++ 32 :: a.listText))), ?_⟩
    rw [command, front, hm, modifierText]
    simp
  have hfind : findNoCase loc a.command (wide "UNCHANGEDSINCE") = some 2 := by
    rw [findNoCase_eq hloc.case a.plain_command hplain, hlower, hcommand, List.map_append, List.map_append, hname,
      find_append_self (by decide)]
    rfl
  have hdrop : a.command.drop (2 + 14) = 32 :: (m.digits ++ 41 :: rest) := by
    have htwo : a.command.drop 2 = m.name ++ 32 :: (m.digits ++ 41 :: rest) := by
      rw [hcommand]
      rfl
    rw [← List.drop_drop, htwo, ← hlength, List.drop_left]
  have hblanks : (32 :: (m.digits ++ 41 :: rest)).dropWhile loc.isSpace = m.digits ++ 41 :: rest := by
    obtain ⟨d, ds, hds⟩ := List.exists_cons_of_ne_nil m.ne_nil
    have hd := m.digit d (by rw [hds]; exact List.mem_cons_self)
    rw [List.dropWhile_cons_of_pos hloc.blank, hds, List.cons_append, List.dropWhile_cons_of_neg]
    rw [hloc.not_space (Nat.lt_of_lt_of_le (by decide) hd.1) (Nat.lt_of_le_of_lt hd.2 (by decide))]
    exact Bool.false_ne_true
  rw [parseModifier, hfind]
  dsimp only
  rw [hdrop, hblanks, ttoi_digits]

theorem parseModifier_none (hloc : loc.AsciiCase) (store : Store) (hm : a.modifier = none)
    (hnames : ¬a.NamesToken (wide "unchangedsince")) :
    parseModifier loc store a.command = { store with modifierParsed := true } := by
  have hfind := a.finds_unchangedSince hloc
  rw [hm] at hfind
  have hnone : findNoCase loc a.command (wide "UNCHANGEDSINCE") = none := by
    rw [← Option.not_isSome_iff_eq_none, hfind]
    exact fun h => h.elim (fun h => nomatch h) hnames
  rw [parseModifier, hnone]

end StoreArgument

end HMailServer.IMAPStore
