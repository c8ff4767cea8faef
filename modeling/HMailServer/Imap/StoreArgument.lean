import HMailServer.Imap.StoreRefused
import HMailServer.Imap.SearchText
import HMailServer.Lib.MaximalRuns

/- A STORE argument as RFC 3501 and RFC 7162 write it, and what `IMAPStore` finds
   in its text. -/
namespace HMailServer.IMAPStore

open WString

/-! ## The argument -/

/-- The name of a system flag in lower case. -/
def SystemFlag.name : SystemFlag → WString
  | .seen => wide "\\seen"
  | .deleted => wide "\\deleted"
  | .draft => wide "\\draft"
  | .answered => wide "\\answered"
  | .flagged => wide "\\flagged"

/-- A flag of the list, in any letter case. -/
inductive Flag where
  | system (flag : SystemFlag) (text : WString) (spells : Spells text flag.name)
  | keyword (text : WString) (valid : isValidFlagName text = true) (other : text.head? ≠ some 92)

def Flag.text : Flag → WString
  | .system _ text _ => text
  | .keyword text _ _ => text

/-- The keyword that it is. -/
def Flag.keyword? : Flag → Option WString
  | .system .. => none
  | .keyword text _ _ => some text

def Flag.isSystem (flag : SystemFlag) : Flag → Bool
  | .system other _ _ => other == flag
  | .keyword .. => false

/-- `UNCHANGEDSINCE` with its mod-sequence. -/
structure Modifier where
  name : WString
  digits : WString
  spells : Spells name (wide "unchangedsince")
  ne_nil : digits ≠ []
  digit : ∀ c ∈ digits, 48 ≤ c ∧ c ≤ 57

inductive Operation where
  | replace
  | add
  | remove
  deriving DecidableEq

def Operation.sign : Operation → WString
  | .replace => []
  | .add => [43]
  | .remove => [45]

/-- The argument behind the message set. A list without parentheses is not
    empty. -/
structure StoreArgument where
  modifier : Option Modifier
  operation : Operation
  word : WString
  spells : Spells word (wide "flags")
  silent : Option { text : WString // Spells text (wide ".silent") }
  flags : List Flag
  parentheses : Bool
  bare : parentheses = false → flags ≠ []

namespace StoreArgument

def modifierText : Option Modifier → WString
  | none => []
  | some m => 40 :: (m.name ++ 32 :: (m.digits ++ [41, 32]))

def silentText : Option { text : WString // Spells text (wide ".silent") } → WString
  | none => []
  | some text => text

/-- The flags with a blank between them. -/
def joined (a : StoreArgument) : WString := [32].intercalate (a.flags.map Flag.text)

def listText (a : StoreArgument) : WString := if a.parentheses then 40 :: (a.joined ++ [41]) else a.joined

/-- What stands in front of FLAGS. -/
def front (a : StoreArgument) : WString := 32 :: (modifierText a.modifier ++ a.operation.sign)

/-- The text that `DoAction` reads. -/
def command (a : StoreArgument) : WString := a.front ++ (a.word ++ (silentText a.silent ++ 32 :: a.listText))

def keywords (a : StoreArgument) : List WString := a.flags.filterMap Flag.keyword?

/-- Whether the argument lists the system flag. -/
def lists (a : StoreArgument) (flag : SystemFlag) : Bool := a.flags.any (Flag.isSystem flag)

end StoreArgument

/-! ## Lower case -/

/-- A text of ASCII characters other than NUL. -/
def Plain (s : WString) : Prop := ∀ c ∈ s, 0 < c ∧ c < 128

instance (s : WString) : Decidable (Plain s) := inferInstanceAs (Decidable (∀ _ ∈ s, _))

theorem Plain.append {s t : WString} (hs : Plain s) (ht : Plain t) : Plain (s ++ t) := by
  intro c hc
  rcases List.mem_append.1 hc with hc | hc
  · exact hs c hc
  · exact ht c hc

theorem Plain.cons {c : WChar} {s : WString} (hc : 0 < c ∧ c < 128) (hs : Plain s) : Plain (c :: s) :=
  List.forall_mem_cons.2 ⟨hc, hs⟩

theorem plain_nil : Plain [] := fun _ h => nomatch h

theorem classicLower_pos {c : WChar} (h : 0 < c) : 0 < classicLower c := by
  have hnat : ∀ n : Nat, 0 < n → 0 < if 65 ≤ n ∧ n ≤ 90 then n + 32 else n := by
    intro n hn
    split <;> omega
  exact hnat c h

variable {loc : Locale} {s t : WString}

/-- What `FindNoCase` makes of a plain text. -/
theorem makeLower_of_plain (hloc : loc.AsciiCase) (h : Plain s) : makeLower loc (cstr s) = s.map classicLower := by
  have hmap : s.map loc.toLower = s.map classicLower := List.map_congr_left fun c hc => (hloc c (h c hc).2).2
  rw [cstr_of_ne_zero fun c hc => (h c hc).1.ne', makeLower, hmap]
  apply cstr_of_ne_zero
  intro c hc
  obtain ⟨d, hd, rfl⟩ := List.mem_map.1 hc
  exact (classicLower_pos (h d hd).1).ne'

theorem findNoCase_eq (hloc : loc.AsciiCase) (hs : Plain s) (ht : Plain t) :
    findNoCase loc s t = Occurrence.find (t.map classicLower) (s.map classicLower) := by
  rw [findNoCase, makeLower_of_plain hloc hs, makeLower_of_plain hloc ht]

/-- A text occurs exactly if there is a first place. -/
theorem isSome_find {sub s : WString} (hsub : sub ≠ []) : (Occurrence.find sub s).isSome = true ↔ sub <:+: s := by
  constructor
  · intro h
    obtain ⟨i, hi⟩ := Option.isSome_iff_exists.1 h
    obtain ⟨-, hat, -⟩ := Occurrence.find_eq_some_iff.1 hi
    exact hat.isInfix.trans (List.drop_suffix _ _).isInfix
  · rintro ⟨front, back, hs⟩
    rw [Option.isSome_iff_ne_none]
    intro hnone
    apply (Occurrence.find_eq_none_iff hsub).1 hnone front.length
    rw [← hs, List.append_assoc, List.drop_left]
    exact List.prefix_append _ _

/-- A piece without the separator lies in one of two texts around it. -/
theorem infix_append_cons_iff {w a b : WString} {c : WChar} (hc : c ∉ w) : w <:+: a ++ c :: b ↔ w <:+: a ∨ w <:+: b := by
  constructor
  · exact fun h => MaximalRuns.infix_of_infix_append_cons h hc
  · rintro (h | h)
    · exact h.trans (List.prefix_append _ _).isInfix
    · exact h.trans ((List.suffix_cons _ _).trans (List.suffix_append _ _)).isInfix

theorem infix_intercalate_iff {w : WString} (hne : w ≠ []) (hw : 32 ∉ w) (pieces : List WString) :
    w <:+: [32].intercalate pieces ↔ ∃ piece ∈ pieces, w <:+: piece := by
  induction pieces with
  | nil => simp [hne]
  | cons piece rest ih =>
    cases rest with
    | nil => simp
    | cons next rest =>
      rw [List.intercalate_cons_cons, List.append_assoc, List.singleton_append, infix_append_cons_iff hw, ih]
      simp

theorem infix_cons_iff {w b : WString} {c : WChar} (hne : w ≠ []) (hc : c ∉ w) : w <:+: c :: b ↔ w <:+: b := by
  have h := infix_append_cons_iff (a := []) (b := b) hc
  rw [List.nil_append, List.infix_nil, or_iff_right hne] at h
  exact h

/-! ## The text -/

theorem Spells.plain {name lower : WString} (h : Spells name lower) (hlower : ∀ c ∈ lower, 0 < c ∧ c < 128) : Plain name := by
  intro c hc
  have hlow := hlower (classicLower c) (by rw [← h]; exact List.mem_map_of_mem hc)
  have hnat : ∀ n : Nat, (0 < (if 65 ≤ n ∧ n ≤ 90 then n + 32 else n) ∧ (if 65 ≤ n ∧ n ≤ 90 then n + 32 else n) < 128) →
      0 < n ∧ n < 128 := by
    intro n hn
    split at hn <;> omega
  exact hnat c hlow

/-- The characters of a keyword. -/
theorem keyword_char {text : WString} (hvalid : isValidFlagName text = true) (hother : text.head? ≠ some 92) :
    text ≠ [] ∧ ∀ c ∈ text, 32 < c ∧ c < 127 ∧ c ∉ [40, 41, 123, 125, 91, 93, 37, 42, 34, 92] := by
  match text, hvalid, hother with
  | c :: s, hvalid, hother =>
    have hc : c ≠ 92 := fun h => hother (by rw [h]; rfl)
    have hall : (c :: s).all (fun ch => 32 < ch && ch < 127 && decide (ch ∉ [40, 41, 123, 125, 91, 93, 37, 42, 34, 92])) = true := by
      rw [isValidFlagName] at hvalid
      · exact hvalid
      · exact fun h => nomatch h
      · intro t ht
        exact hc (List.cons.inj ht).1
    refine ⟨List.cons_ne_nil _ _, fun d hd => ?_⟩
    have hd := List.all_eq_true.1 hall d hd
    simp only [Bool.and_eq_true, decide_eq_true_eq] at hd
    exact ⟨hd.1.1, hd.1.2, hd.2⟩

theorem SystemFlag.name_char (flag : SystemFlag) : ∀ c ∈ flag.name, 32 < c ∧ c < 127 ∧ c ≠ 40 ∧ c ≠ 41 := by
  cases flag <;> decide

/-- A flag is an atom. -/
theorem Flag.char (f : Flag) : f.text ≠ [] ∧ ∀ c ∈ f.text, 32 < c ∧ c < 127 ∧ c ≠ 40 ∧ c ≠ 41 := by
  cases f with
  | system flag text spells =>
    constructor
    · intro hnil
      have hempty : flag.name = [] := by
        rw [← spells]
        show text.map classicLower = []
        rw [show text = [] from hnil]
        rfl
      cases flag <;> exact absurd hempty (by decide)
    · intro c hc
      have hlow := flag.name_char (classicLower c) (by rw [← spells]; exact List.mem_map_of_mem hc)
      have hnat : ∀ n : Nat, (32 < (if 65 ≤ n ∧ n ≤ 90 then n + 32 else n) ∧ (if 65 ≤ n ∧ n ≤ 90 then n + 32 else n) < 127 ∧
          (if 65 ≤ n ∧ n ≤ 90 then n + 32 else n) ≠ 40 ∧ (if 65 ≤ n ∧ n ≤ 90 then n + 32 else n) ≠ 41) →
          32 < n ∧ n < 127 ∧ n ≠ 40 ∧ n ≠ 41 := by
        intro n hn
        split at hn <;> omega
      exact hnat c hlow
  | keyword text valid other =>
    obtain ⟨hne, hchar⟩ := keyword_char valid other
    refine ⟨hne, fun c hc => ?_⟩
    obtain ⟨hlow, hhigh, hspecial⟩ := hchar c hc
    simp only [List.mem_cons, not_or] at hspecial
    exact ⟨hlow, hhigh, hspecial.1, hspecial.2.1⟩

/-- A character as `FindNoCase` sees it is a blank or parenthesis only if it is
    one. -/
theorem notMem_map_lower {s : WString} {c : WChar} (hc : c < 65) (h : c ∉ s) : c ∉ s.map classicLower := by
  intro hmem
  obtain ⟨d, hd, hlow⟩ := List.mem_map.1 hmem
  have hnat : ∀ n c : Nat, c < 65 → (if 65 ≤ n ∧ n ≤ 90 then n + 32 else n) = c → n = c := by
    intro n c hc hn
    split at hn <;> omega
  have hsame : d = c := hnat d c hc hlow
  rw [hsame] at hd
  exact h hd

namespace StoreArgument

variable (a : StoreArgument)

def silentLower : WString := if a.silent.isSome then wide ".silent" else []

theorem silentText_lower : (silentText a.silent).map classicLower = a.silentLower := by
  unfold silentLower
  cases a.silent with
  | none => rfl
  | some text => exact text.2

theorem digits_lower (m : Modifier) : m.digits.map classicLower = m.digits := by
  conv_rhs => rw [← List.map_id m.digits]
  refine List.map_congr_left fun c hc => ?_
  have hnat : ∀ n : Nat, 48 ≤ n ∧ n ≤ 57 → (if 65 ≤ n ∧ n ≤ 90 then n + 32 else n) = n := by
    intro n hn
    split <;> omega
  exact hnat c (m.digit c hc)

theorem sign_lower (operation : Operation) : operation.sign.map classicLower = operation.sign := by
  cases operation <;> rfl

/-- The operation with its FLAGS and SILENT, in lower case. -/
def operationLower : WString := a.operation.sign ++ (wide "flags" ++ a.silentLower)

theorem joined_lower : a.joined.map classicLower = [32].intercalate (a.flags.map fun f => f.text.map classicLower) := by
  have hgen : ∀ pieces : List WString, ([32].intercalate pieces).map classicLower =
      [32].intercalate (pieces.map (List.map classicLower)) := by
    intro pieces
    induction pieces with
    | nil => rfl
    | cons piece rest ih =>
      cases rest with
      | nil => simp
      | cons next rest =>
        rw [List.map_cons, List.map_cons, List.intercalate_cons_cons, List.intercalate_cons_cons, List.map_append,
          List.map_append, ih, List.map_cons]
        rfl
  rw [joined, hgen, List.map_map]
  rfl

/-- What occurs in the argument occurs in one of its words. -/
theorem infix_command_iff {w : WString} (hne : w ≠ []) (hblank : 32 ∉ w) (hopen : 40 ∉ w) (hclose : 41 ∉ w) :
    w <:+: a.command.map classicLower ↔
      (∃ m ∈ a.modifier, w <:+: wide "unchangedsince" ∨ w <:+: m.digits) ∨ w <:+: a.operationLower ∨
        ∃ f ∈ a.flags, w <:+: f.text.map classicLower := by
  have hlist : w <:+: a.listText.map classicLower ↔ ∃ f ∈ a.flags, w <:+: f.text.map classicLower := by
    have hjoined : w <:+: a.joined.map classicLower ↔ ∃ f ∈ a.flags, w <:+: f.text.map classicLower := by
      rw [joined_lower, infix_intercalate_iff hne hblank]
      simp
    unfold listText
    split
    · have hlower : (40 :: (a.joined ++ [41])).map classicLower = 40 :: (a.joined.map classicLower ++ 41 :: []) := by
        rw [List.map_cons, List.map_append]
        rfl
      rw [hlower, infix_cons_iff hne hopen, infix_append_cons_iff hclose, List.infix_nil, or_iff_left hne, hjoined]
    · exact hjoined
  have hrest : w <:+: (a.operation.sign ++ (a.word ++ (silentText a.silent ++ 32 :: a.listText))).map classicLower ↔
      w <:+: a.operationLower ∨ ∃ f ∈ a.flags, w <:+: f.text.map classicLower := by
    have hlower : (a.operation.sign ++ (a.word ++ (silentText a.silent ++ 32 :: a.listText))).map classicLower =
        a.operationLower ++ 32 :: a.listText.map classicLower := by
      rw [List.map_append, List.map_append, List.map_append, sign_lower, a.spells, silentText_lower, operationLower,
        List.append_assoc, List.append_assoc]
      rfl
    rw [hlower, infix_append_cons_iff hblank, hlist]
  have hcommand : a.command = 32 :: (modifierText a.modifier ++
      (a.operation.sign ++ (a.word ++ (silentText a.silent ++ 32 :: a.listText)))) := by
    rw [command, front, List.cons_append, List.append_assoc]
  have hblank32 : classicLower 32 = 32 := rfl
  rw [hcommand, List.map_cons, hblank32, infix_cons_iff hne hblank, List.map_append]
  cases hmodifier : a.modifier with
  | none =>
    rw [← hrest]
    simp [modifierText]
  | some m =>
    have hlower : (modifierText (some m)).map classicLower =
        40 :: (wide "unchangedsince" ++ 32 :: (m.digits ++ 41 :: [32])) := by
      rw [modifierText, List.map_cons, List.map_append, m.spells, List.map_cons, List.map_append, digits_lower]
      rfl
    rw [hlower, List.cons_append, infix_cons_iff hne hopen, List.append_assoc, List.cons_append,
      infix_append_cons_iff hblank, List.append_assoc, List.cons_append, infix_append_cons_iff hclose, List.singleton_append,
      infix_cons_iff hne hblank, hrest]
    simp [or_assoc]

end StoreArgument

end HMailServer.IMAPStore
