import HMailServer.Sieve.Lexer

/- The numbers of a Sieve script: what the lexer makes of digits and a quantifier,
   and what `size` and `:index` make of that number. -/
namespace HMailServer

/-! ## The code -/

/-- `SieveEvaluator::EvaluateSize_`. -/
def SieveEvaluator.evaluateSize (loc : Locale) (arguments : List SieveArgument) (messageSize : Int) : Bool :=
  match SieveParser.splitArguments loc arguments {} with
  | .error _ => false
  | .ok set =>
    if set.hasNumber = false then false
    else if set.sizeOver then decide (messageSize > set.number)
    else decide (messageSize < set.number)

/-- `SieveParser::NeedExtension_`; `granted` are the extensions of the `require`
    commands and of the enclosing `ihave` tests. -/
def SieveParser.needExtension (granted : WString → Bool) (extension feature : String) (line : Nat) : Except WString Unit :=
  if granted (wide extension) then .ok ()
  else .error (SieveLexer.lineError line feature ++ wide (" requires require \"" ++ extension ++ "\"."))

/-- `SieveParser::ValidateIndexArguments_`. -/
def SieveParser.validateIndexArguments (granted : WString → Bool) (set : SieveArgumentSet) (line : Nat) : Except WString Unit := do
  if set.indexGiven then
    SieveParser.needExtension granted "index" "':index'" line
    if set.indexValue < 1 then
      throw (SieveLexer.lineError line "':index' counts from 1.")
  if set.lastGiven ∧ set.indexGiven = false then
    throw (SieveLexer.lineError line "':last' is only meaningful together with ':index'.")

namespace SieveNumber
open SieveLexer

/-! ## What is written -/

/-- RFC 5228, section 2.4.1: K, M and G in either case. -/
def rfcFactor (q : WChar) : Option Nat :=
  if q ∈ wide "Kk" then some (2 ^ 10)
  else if q ∈ wide "Mm" then some (2 ^ 20)
  else if q ∈ wide "Gg" then some (2 ^ 30)
  else none

/-- A number as it is written. -/
structure Literal where
  digits : WString
  suffix : Option WChar
  digits_ne : digits ≠ []
  digits_digit : ∀ c ∈ digits, isDigit c = true
  suffix_factor : ∀ q ∈ suffix, (rfcFactor q).isSome = true

namespace Literal

def text (lit : Literal) : WString := lit.digits ++ lit.suffix.toList

/-- The number that is written. -/
def value (lit : Literal) : Nat := WString.digitsValue lit.digits * (lit.suffix.bind rfcFactor).getD 1

/-- The number ends in front of that text. -/
def EndsBefore (lit : Literal) (rest : WString) : Prop :=
  lit.suffix = none → ∀ c ∈ rest.head?, isDigit c = false ∧ rfcFactor c = none

/-- The number that the lexer makes of it. -/
def number (lit : Literal) : Int := (readNumber 1 lit.text).1.number

end Literal

/-- What is promised of a number. -/
structure Kept (loc : Locale) (lit : Literal) : Prop where
  exact : ∀ line rest, lit.EndsBefore rest → readNumber line (lit.text ++ rest) =
    ({ type := .number, value := lit.digits, number := lit.value, line := line }, rest)
  sizeOver : ∀ tag, WString.makeLower loc tag = wide "over" → ∀ tagLine line messageSize,
    SieveEvaluator.evaluateSize loc [.tag tag tagLine, .number lit.number line] messageSize =
      decide (messageSize > (lit.value : Int))
  sizeUnder : ∀ tag, WString.makeLower loc tag = wide "under" → ∀ tagLine line messageSize,
    SieveEvaluator.evaluateSize loc [.tag tag tagLine, .number lit.number line] messageSize =
      decide (messageSize < (lit.value : Int))
  index : ∀ tag, WString.makeLower loc tag = wide "index" → ∀ tagLine line granted set,
    SieveParser.splitArguments loc [.tag tag tagLine, .number lit.number line] {} = .ok set →
      SieveParser.validateIndexArguments granted set tagLine = .ok () → set.indexValue = lit.value

/-- The tags of the source are in lower case, which the locale leaves alone. -/
def KeepsLowerCase (loc : Locale) : Prop := ∀ c ∈ wide "abcdefghijklmnopqrstuvwxyz", loc.toLower c = c

/-! ## What the lexer reads -/

/-- The number that is read for digits of that value and a factor. -/
def readValue (n factor : Nat) : Int :=
  if factor = 1 then min n (2 ^ 63 - 1) else (min (n : Int) (2 ^ 63 - 1) * factor).bmod (2 ^ 64)

/-- Where it does not fit in 64 bits the number is held or wraps. -/
theorem readValue_eq_iff (n : Nat) {factor : Nat} (hfactor : 1 ≤ factor) :
    readValue n factor = (n * factor : Nat) ↔ n * factor < 2 ^ 63 := by
  rw [readValue]
  split
  · rename_i hone
    rw [hone, Nat.mul_one]
    omega
  · have hpos : (0 : Nat) < 2 ^ 64 := by decide
    have hlt := Int.bmod_lt (x := min (n : Int) (2 ^ 63 - 1) * factor) hpos
    constructor
    · intro heq
      rw [heq] at hlt
      omega
    · intro hfits
      have hn : n ≤ n * factor := Nat.le_mul_of_pos_right n hfactor
      have hmin : min (n : Int) (2 ^ 63 - 1) = n := by omega
      rw [hmin, ← Int.natCast_mul]
      exact Int.bmod_eq_of_le (by omega) (by omega)

theorem quantifier_eq (q : WChar) : quantifier q = ((rfcFactor q).getD 1 : Nat) := by
  have hmem : ∀ a b : WChar, q ∈ [a, b] ↔ q = a ∨ q = b := fun a b => by rw [List.mem_cons, List.mem_singleton]
  have hK : q ∈ wide "Kk" ↔ q = 75 ∨ q = 107 := hmem 75 107
  have hM : q ∈ wide "Mm" ↔ q = 77 ∨ q = 109 := hmem 77 109
  have hG : q ∈ wide "Gg" ↔ q = 71 ∨ q = 103 := hmem 71 103
  rw [quantifier, rfcFactor]
  simp only [hK, hM, hG]
  split
  · rfl
  · split
    · rfl
    · split <;> rfl

theorem rfcFactor_spec {q : WChar} {factor : Nat} (h : rfcFactor q = some factor) : 1 < factor ∧ isDigit q = false := by
  have hK : ∀ d ∈ wide "Kk", isDigit d = false := by decide
  have hM : ∀ d ∈ wide "Mm", isDigit d = false := by decide
  have hG : ∀ d ∈ wide "Gg", isDigit d = false := by decide
  rw [rfcFactor] at h
  split at h
  · rename_i hq
    cases h
    exact ⟨by decide, hK q hq⟩
  · split at h
    · rename_i hq
      cases h
      exact ⟨by decide, hM q hq⟩
    · split at h
      · rename_i hq
        cases h
        exact ⟨by decide, hG q hq⟩
      · exact absurd h (by simp)

theorem isDigit_bounds {c : Nat} (hc : isDigit c = true) : 48 ≤ c ∧ c ≤ 57 := by
  rw [isDigit, Bool.and_eq_true, decide_eq_true_eq, decide_eq_true_eq] at hc
  exact hc

theorem ttoi_digits {digits : List Nat} (hall : ∀ c ∈ digits, isDigit c = true) :
    WString.ttoi 64 digits = min (WString.digitsValue digits : Int) (2 ^ 63 - 1) := by
  have hdrop : (digits.dropWhile fun c => c = 32 ∨ (9 ≤ c ∧ c ≤ 13)) = digits := by
    cases digits with
    | nil => rfl
    | cons c s =>
      have hbounds := isDigit_bounds (hall c List.mem_cons_self)
      exact List.dropWhile_cons_of_neg (by simp; omega)
  have hheld : ∀ n : Nat, max (-(2 : Int) ^ (64 - 1)) (min n ((2 : Int) ^ (64 - 1) - 1)) = min (n : Int) (2 ^ 63 - 1) := by
    intro n
    omega
  rw [WString.ttoi]
  dsimp only
  rw [hdrop]
  split
  · exact absurd (isDigit_bounds (hall 45 List.mem_cons_self)).1 (by decide)
  · exact absurd (isDigit_bounds (hall 43 List.mem_cons_self)).1 (by decide)
  · exact hheld _

namespace Literal

theorem text_split (lit : Literal) {rest : WString} (h : lit.EndsBefore rest) :
    (lit.text ++ rest).takeWhile isDigit = lit.digits ∧ (lit.text ++ rest).dropWhile isDigit = lit.suffix.toList ++ rest := by
  have hhead : ∀ c ∈ (lit.suffix.toList ++ rest).head?, isDigit c = false := by
    cases hsuffix : lit.suffix with
    | none => exact fun c hc => (h hsuffix c hc).1
    | some q =>
      intro c hc
      obtain rfl := Option.some.inj hc
      obtain ⟨factor, hfactor⟩ := Option.isSome_iff_exists.1 (lit.suffix_factor q hsuffix)
      exact (rfcFactor_spec hfactor).2
  have hempty : (lit.suffix.toList ++ rest).takeWhile isDigit = [] ∧
      (lit.suffix.toList ++ rest).dropWhile isDigit = lit.suffix.toList ++ rest := by
    cases hbehind : lit.suffix.toList ++ rest with
    | nil => exact ⟨rfl, rfl⟩
    | cons c s =>
      have hc := hhead c (by rw [hbehind]; rfl)
      exact ⟨List.takeWhile_cons_of_neg (by rw [hc]; exact Bool.false_ne_true),
        List.dropWhile_cons_of_neg (by rw [hc]; exact Bool.false_ne_true)⟩
  rw [text, List.append_assoc, List.takeWhile_append_of_pos lit.digits_digit, List.dropWhile_append_of_pos lit.digits_digit,
    hempty.1, hempty.2, List.append_nil]
  exact ⟨rfl, rfl⟩

theorem readNumber_text (lit : Literal) (line : Nat) {rest : WString} (h : lit.EndsBefore rest) :
    readNumber line (lit.text ++ rest) =
      ({ type := .number, value := lit.digits, line := line
         number := readValue (WString.digitsValue lit.digits) ((lit.suffix.bind rfcFactor).getD 1) }, rest) := by
  obtain ⟨htake, hdrop⟩ := lit.text_split h
  rw [readNumber, htake, hdrop, ttoi_digits lit.digits_digit, readValue]
  cases hsuffix : lit.suffix with
  | none =>
    have hone : quantifier ((([] : WString) ++ rest).headD 0) = 1 := by
      cases rest with
      | nil => rfl
      | cons c s =>
        have hc := (h hsuffix c rfl).2
        show quantifier c = 1
        rw [quantifier_eq, hc]
        rfl
    have hfactor : ((none : Option WChar).bind rfcFactor).getD 1 = 1 := rfl
    rw [Option.toList_none, hfactor, if_pos hone, if_pos rfl, List.nil_append]
  | some q =>
    obtain ⟨factor, hfactor⟩ := Option.isSome_iff_exists.1 (lit.suffix_factor q hsuffix)
    have hlt := (rfcFactor_spec hfactor).1
    have hquantifier : quantifier (((some q).toList ++ rest).headD 0) = factor := by
      show quantifier q = factor
      rw [quantifier_eq, hfactor]
      rfl
    have hgetD : ((some q).bind rfcFactor).getD 1 = factor := by
      rw [Option.bind_some, hfactor]
      rfl
    have hne : (factor : Int) ≠ 1 := by omega
    have hne' : factor ≠ 1 := by omega
    rw [hquantifier, hgetD, if_neg hne, if_neg hne']
    rfl

theorem number_eq (lit : Literal) :
    lit.number = readValue (WString.digitsValue lit.digits) ((lit.suffix.bind rfcFactor).getD 1) := by
  have h := @readNumber_text lit 1 [] fun _ c hc => absurd hc (by simp)
  rw [List.append_nil] at h
  rw [number, h]

/-- A number is read exactly if it fits in a signed 64-bit integer. -/
theorem number_eq_value_iff (lit : Literal) : lit.number = lit.value ↔ lit.value < 2 ^ 63 := by
  have hfactor : 1 ≤ (lit.suffix.bind rfcFactor).getD 1 := by
    cases hsuffix : lit.suffix with
    | none => exact Nat.le_refl 1
    | some q =>
      obtain ⟨factor, hq⟩ := Option.isSome_iff_exists.1 (lit.suffix_factor q hsuffix)
      rw [Option.bind_some, hq]
      exact Nat.le_of_lt (rfcFactor_spec hq).1
  rw [number_eq]
  exact readValue_eq_iff _ hfactor

end Literal

/-! ## What the tests make of it -/

theorem splitArguments_plainTag (loc : Locale) {name tag : WString} (hname : WString.makeLower loc name = tag)
    (hvalue : SieveParser.tagTakesValue tag = false) (tagLine line : Nat) (n : Int) :
    SieveParser.splitArguments loc [.tag name tagLine, .number n line] {} =
      .ok { SieveParser.plainTag { tags := [tag] } tag with number := n, hasNumber := true } := by
  rw [SieveParser.splitArguments.eq_def]
  dsimp only
  rw [hname, hvalue]
  rfl

theorem splitArguments_index (loc : Locale) {name : WString} (hname : WString.makeLower loc name = wide "index")
    (tagLine line : Nat) (n : Int) :
    SieveParser.splitArguments loc [.tag name tagLine, .number n line] {} =
      .ok { tags := [wide "index"], indexValue := n.bmod (2 ^ 32), indexGiven := true } := by
  rw [SieveParser.splitArguments.eq_def]
  dsimp only
  rw [hname]
  rfl

theorem evaluateSize_over (loc : Locale) {tag : WString} (htag : WString.makeLower loc tag = wide "over") (tagLine line : Nat)
    (n messageSize : Int) :
    SieveEvaluator.evaluateSize loc [.tag tag tagLine, .number n line] messageSize = decide (messageSize > n) := by
  rw [SieveEvaluator.evaluateSize, splitArguments_plainTag loc htag (by decide)]
  rfl

theorem evaluateSize_under (loc : Locale) {tag : WString} (htag : WString.makeLower loc tag = wide "under") (tagLine line : Nat)
    (n messageSize : Int) :
    SieveEvaluator.evaluateSize loc [.tag tag tagLine, .number n line] messageSize = decide (messageSize < n) := by
  rw [SieveEvaluator.evaluateSize, splitArguments_plainTag loc htag (by decide)]
  rfl

/-- `:index` is taken or refused by the low 32 bits of the number. -/
theorem validateIndexArguments_iff (granted : WString → Bool) (n : Int) (line : Nat) :
    SieveParser.validateIndexArguments granted { tags := [wide "index"], indexValue := n, indexGiven := true } line = .ok () ↔
      granted (wide "index") = true ∧ 1 ≤ n := by
  rw [SieveParser.validateIndexArguments, SieveParser.needExtension]
  cases hgranted : granted (wide "index") with
  | false => simp [bind, Except.bind]
  | true =>
    by_cases hn : n < 1
    · simp [bind, Except.bind, hn]
    · simp [bind, Except.bind, hn, pure, Except.pure]
      omega

theorem makeLower_eq_self {loc : Locale} (hloc : KeepsLowerCase loc) {tag : WString}
    (htag : ∀ c ∈ tag, c ∈ wide "abcdefghijklmnopqrstuvwxyz") : WString.makeLower loc tag = tag := by
  have hmap : tag.map loc.toLower = tag := by
    rw [List.map_congr_left fun c hc => hloc c (htag c hc), List.map_id']
  have hnul : ∀ c ∈ wide "abcdefghijklmnopqrstuvwxyz", (c != 0) = true := by decide
  rw [WString.makeLower, hmap, WString.cstr]
  exact List.takeWhile_eq_self_iff.2 fun c hc => hnul c (htag c hc)

/-- The number that the lexer reads where digits stand. -/
theorem exists_literal {ch : WChar} (hdigit : isDigit ch = true) (line : Nat) (s : WString) :
    ∃ (lit : Literal) (rest : WString), ch :: s = lit.text ++ rest ∧ lit.EndsBefore rest ∧
      (readNumber line (ch :: s)).1.value = lit.digits ∧ (readNumber line (ch :: s)).1.number = lit.number := by
  have hsplit := List.takeWhile_append_dropWhile (p := isDigit) (l := ch :: s)
  have hne : (ch :: s).takeWhile isDigit ≠ [] := by
    rw [List.takeWhile_cons_of_pos hdigit]
    exact List.cons_ne_nil _ _
  have hall : ∀ c ∈ (ch :: s).takeWhile isDigit, isDigit c = true := fun c hc => List.mem_takeWhile_imp hc
  have hhead := List.head?_dropWhile_not isDigit (ch :: s)
  have hfound : ∃ (lit : Literal) (rest : WString), ch :: s = lit.text ++ rest ∧ lit.EndsBefore rest := by
    cases hbehind : (ch :: s).dropWhile isDigit with
    | nil =>
      refine ⟨⟨_, none, hne, hall, fun q hq => absurd hq (by simp)⟩, [], ?_, fun _ c hc => absurd hc (by simp)⟩
      rw [hbehind] at hsplit
      rw [List.append_nil, Literal.text, Option.toList_none]
      exact hsplit.symm
    | cons q rest =>
      rw [hbehind] at hsplit hhead
      cases hq : rfcFactor q with
      | none =>
        refine ⟨⟨_, none, hne, hall, fun q hq => absurd hq (by simp)⟩, q :: rest, ?_, fun _ c hc => ?_⟩
        · rw [Literal.text, Option.toList_none, List.append_nil]
          exact hsplit.symm
        · obtain rfl := Option.some.inj hc
          exact ⟨hhead, hq⟩
      | some factor =>
        refine ⟨⟨_, some q, hne, hall, fun c hc => ?_⟩, rest, ?_, fun h => ?_⟩
        · obtain rfl := Option.some.inj hc
          rw [hq]
          rfl
        · rw [Literal.text, Option.toList_some, List.append_assoc, List.singleton_append]
          exact hsplit.symm
        · cases h
  obtain ⟨lit, rest, heq, hends⟩ := hfound
  refine ⟨lit, rest, heq, hends, ?_, ?_⟩
  · rw [heq, lit.readNumber_text line hends]
  · rw [heq, lit.readNumber_text line hends, lit.number_eq]

/-- A number is kept exactly if it fits in a signed 64-bit integer and, as an index,
    in a signed 32-bit one, or is refused there. In a script each number is one that
    stands in it, and exact if it fits. -/
theorem kept_iff {loc : Locale} (hloc : KeepsLowerCase loc) (lit : Literal) :
    (Kept loc lit ↔ lit.value < 2 ^ 63 ∧ (lit.value < 2 ^ 31 ∨ (lit.value : Int).bmod (2 ^ 32) < 1)) ∧
    ∀ script tokens, tokenize script = .ok tokens → ∀ token ∈ tokens, token.type = .number →
      ∃ (lit : Literal) (rest : WString), lit.text ++ rest <:+ script ∧ lit.EndsBefore rest ∧ token.value = lit.digits ∧
        (token.number = lit.value ↔ lit.value < 2 ^ 63) := by
  have hindex : WString.makeLower loc (wide "index") = wide "index" := makeLower_eq_self hloc (by decide)
  have hpos : (0 : Nat) < 2 ^ 32 := by decide
  have hlt := Int.bmod_lt (x := lit.value) hpos
  refine ⟨⟨fun h => ?_, fun ⟨hfits, hsmall⟩ => ?_⟩, fun script tokens htokens token hmem hnumber => ?_⟩
  · have hnumber : lit.number = lit.value := by
      have hexact := h.exact 1 [] fun _ c hc => absurd hc (by simp)
      rw [List.append_nil] at hexact
      rw [Literal.number, hexact]
    refine ⟨lit.number_eq_value_iff.1 hnumber, ?_⟩
    by_contra hboth
    rw [not_or] at hboth
    have haccepted := (validateIndexArguments_iff (fun _ => true) ((lit.value : Int).bmod (2 ^ 32)) 1).2 ⟨rfl, by omega⟩
    have hkept := h.index (wide "index") hindex 1 1 (fun _ => true) _ (splitArguments_index loc hindex 1 1 _)
      (by rw [hnumber]; exact haccepted)
    rw [hnumber] at hkept
    dsimp only at hkept
    omega
  · have hnumber := lit.number_eq_value_iff.2 hfits
    refine ⟨fun line rest hends => ?_, fun tag htag tagLine line messageSize => ?_, fun tag htag tagLine line messageSize => ?_,
      fun tag htag tagLine line granted set hset haccepted => ?_⟩
    · rw [lit.readNumber_text line hends, ← lit.number_eq, hnumber]
    · rw [evaluateSize_over loc htag, hnumber]
    · rw [evaluateSize_under loc htag, hnumber]
    · rw [splitArguments_index loc htag, hnumber] at hset
      obtain rfl := Except.ok.inj hset
      have hpositive := ((validateIndexArguments_iff granted _ tagLine).1 haccepted).2
      dsimp only
      rcases hsmall with hsmall | hrefused
      · exact Int.bmod_eq_of_le (by omega) (by omega)
      · omega
  · obtain ⟨line, ch, s, hsuffix, hdigit, rfl⟩ := number_of_tokenize htokens token hmem hnumber
    obtain ⟨lit', rest, heq, hends, hvalue, hread⟩ := exists_literal hdigit line s
    refine ⟨lit', rest, heq ▸ hsuffix, hends, hvalue, ?_⟩
    rw [hread]
    exact lit'.number_eq_value_iff

theorem classicLocale_keepsLowerCase : KeepsLowerCase classicLocale := by
  show ∀ c ∈ wide "abcdefghijklmnopqrstuvwxyz", classicLocale.toLower c = c
  decide

/-- Ten megabytes. -/
def tenMegabytes : Literal := ⟨wide "10", some 77, by decide, by decide, by decide⟩

theorem tenMegabytes_kept : Kept classicLocale tenMegabytes :=
  (kept_iff classicLocale_keepsLowerCase tenMegabytes).1.2 (by decide +kernel)

/-- The first number of gigabytes that does not fit, and an index behind the first
    that wraps to a small one. -/
def wrappedGigabytes : Literal := ⟨wide "8589934592", some 71, by decide, by decide, by decide⟩
def wrappedIndex : Literal := ⟨wide "4294967297", none, by decide, by decide, by decide⟩

theorem wrapped_not_kept : ¬ Kept classicLocale wrappedGigabytes ∧ ¬ Kept classicLocale wrappedIndex ∧
    SieveEvaluator.evaluateSize classicLocale [.tag (wide "over") 1, .number wrappedGigabytes.number 1] 0 = true := by
  refine ⟨fun h => ?_, fun h => ?_, by decide +kernel⟩
  · exact absurd ((kept_iff classicLocale_keepsLowerCase _).1.1 h) (by decide +kernel)
  · exact absurd ((kept_iff classicLocale_keepsLowerCase _).1.1 h) (by decide +kernel)

end SieveNumber
end HMailServer
