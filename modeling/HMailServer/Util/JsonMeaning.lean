import HMailServer.Util.JsonDocument
import HMailServer.Lib.Separated

/- What the JSON reader accepts, against the grammar: it reads every text of JSON as
   the value that the text denotes, and accepts besides them only texts with a number
   that begins with a superfluous zero. -/
namespace HMailServer.JsonDocument
open Json

/-! ## Escapes -/

theorem hexDigits_succ {n code : Nat} {s : Text} {r : Nat × Text} :
    hexDigits (n + 1) code s = .ok r ↔
      ∃ c digit rest, s = c :: rest ∧ hexDigit c = some digit ∧ hexDigits n (code * 16 + digit) rest = .ok r := by
  cases s with
  | nil =>
    refine ⟨fun h => (by cases h), fun h => ?_⟩
    obtain ⟨_, _, _, h, _⟩ := h
    cases h
  | cons c s =>
    rw [hexDigits]
    cases hdigit : hexDigit c with
    | none =>
      refine ⟨fun h => (by cases h), fun h => ?_⟩
      obtain ⟨c', digit, rest, hs, hc, _⟩ := h
      obtain ⟨rfl, rfl⟩ := List.cons_eq_cons.1 hs
      rw [hdigit] at hc
      cases hc
    | some digit =>
      refine ⟨fun h => ⟨c, digit, s, rfl, hdigit, h⟩, fun h => ?_⟩
      obtain ⟨c', digit', rest, hs, hc, h⟩ := h
      obtain ⟨rfl, rfl⟩ := List.cons_eq_cons.1 hs
      rw [hdigit] at hc
      cases hc
      exact h

theorem parseHex4_iff {s rest : Text} {code : Nat} :
    parseHex4 s = .ok (code, rest) ↔ ∃ hex, Hex4 hex code ∧ s = hex ++ rest := by
  constructor
  · intro h
    unfold parseHex4 at h
    split at h
    · cases h
    obtain ⟨a, p, s, rfl, ha, h⟩ := hexDigits_succ.1 h
    obtain ⟨b, q, s, rfl, hb, h⟩ := hexDigits_succ.1 h
    obtain ⟨c, r, s, rfl, hc, h⟩ := hexDigits_succ.1 h
    obtain ⟨d, t, s, rfl, hd, h⟩ := hexDigits_succ.1 h
    cases h
    refine ⟨[a, b, c, d], ?_, rfl⟩
    have hex := Hex4.mk ha hb hc hd
    rwa [← Nat.zero_add p, ← Nat.zero_mul 16] at hex
  · rintro ⟨hex, ⟨ha, hb, hc, hd⟩, rfl⟩
    rw [parseHex4, if_neg (by simp)]
    refine hexDigits_succ.2 ⟨_, _, _, rfl, ha, ?_⟩
    refine hexDigits_succ.2 ⟨_, _, _, rfl, hb, ?_⟩
    refine hexDigits_succ.2 ⟨_, _, _, rfl, hc, ?_⟩
    refine hexDigits_succ.2 ⟨_, _, _, rfl, hd, ?_⟩
    rw [Nat.zero_mul, Nat.zero_add]
    rfl

/-- The scalar value of `\u` escapes and what they are written as behind the `u`. -/
inductive Unicode : Text → Nat → Prop
  | scalar {hex : Text} {code : Nat} (hhex : Hex4 hex code) (hhigh : ¬IsHigh code) (hlow : ¬IsLow code) : Unicode hex code
  | pair {hex hex' : Text} {high low : Nat} (hhex : Hex4 hex high) (hhex' : Hex4 hex' low) (hhigh : IsHigh high)
      (hlow : IsLow low) : Unicode (hex ++ 92 :: 117 :: hex') (0x10000 + (high - 0xD800) * 0x400 + (low - 0xDC00))

theorem parseLow_iff {s rest : Text} {high code : Nat} :
    parseLow high s = .ok (code, rest) ↔
      ∃ hex low, Hex4 hex low ∧ IsLow low ∧ s = 92 :: 117 :: hex ++ rest ∧
        code = 0x10000 + (high - 0xD800) * 0x400 + (low - 0xDC00) := by
  unfold parseLow
  constructor
  · intro h
    split at h
    · rename_i hu
      obtain ⟨tail, rfl⟩ := List.isPrefixOf_iff_prefix.1 hu
      obtain ⟨⟨low, rest'⟩, hhex, h⟩ := bind_ok.1 h
      obtain ⟨hex, hex4, htail⟩ := parseHex4_iff.1 hhex
      dsimp only at h
      split at h
      · cases h
      · rename_i hrange
        obtain ⟨hcode, rfl⟩ := Prod.mk.inj (Except.ok.inj h)
        refine ⟨hex, low, hex4, by unfold IsLow; omega, ?_, ?_⟩
        · have htail : tail = hex ++ rest' := htail
          rw [htail]
          rfl
        · rw [← hcode, Nat.shiftLeft_eq]
    · cases h
  · rintro ⟨hex, low, hex4, hlow, rfl, hcode⟩
    have hu : [92, 117].isPrefixOf (92 :: 117 :: hex ++ rest) = true := List.isPrefixOf_iff_prefix.2 ⟨hex ++ rest, rfl⟩
    rw [if_pos hu]
    refine bind_ok.2 ⟨(low, rest), parseHex4_iff.2 ⟨hex, hex4, rfl⟩, ?_⟩
    unfold IsLow at hlow
    dsimp only
    rw [if_neg (by omega), hcode, Nat.shiftLeft_eq]

theorem parseUnicode_iff {s rest : Text} {code : Nat} :
    parseUnicode s = .ok (code, rest) ↔ ∃ u, Unicode u code ∧ s = u ++ rest := by
  constructor
  · intro h
    obtain ⟨⟨first, rest'⟩, hhex, hcode⟩ := bind_ok.1 h
    obtain ⟨hex, hex4, hs⟩ := parseHex4_iff.1 hhex
    clear h
    subst hs
    dsimp only at hcode
    split at hcode
    · rename_i hhigh
      obtain ⟨hex', low, hex4', hlow, rfl, hvalue⟩ := parseLow_iff.1 hcode
      rw [hvalue]
      exact ⟨_, .pair hex4 hex4' hhigh hlow, by simp⟩
    · rename_i hhigh
      split at hcode
      · cases hcode
      · rename_i hlow
        cases hcode
        exact ⟨hex, .scalar hex4 hhigh hlow, rfl⟩
  · rintro ⟨u, ⟨hex4, hhigh, hlow⟩ | @⟨hex, hex', high, low, hex4, hex4', hhigh, hlow⟩, rfl⟩
    · refine bind_ok.2 ⟨_, parseHex4_iff.2 ⟨_, hex4, rfl⟩, ?_⟩
      unfold IsHigh at hhigh
      unfold IsLow at hlow
      exact (if_neg hhigh).trans (if_neg hlow)
    · refine bind_ok.2 ⟨(high, 92 :: 117 :: hex' ++ rest), parseHex4_iff.2 ⟨hex, hex4, by simp⟩, ?_⟩
      unfold IsHigh at hhigh
      exact (if_pos hhigh).trans (parseLow_iff.2 ⟨hex', low, hex4', hlow, rfl, rfl⟩)

theorem parseEscape_iff {s rest bytes : Text} :
    parseEscape s = .ok (bytes, rest) ↔
      (∃ e c, (e, c) ∈ letterEscapes ∧ s = e :: rest ∧ bytes = [c]) ∨
      ∃ u code, Unicode u code ∧ s = 117 :: u ++ rest ∧ bytes = appendUtf8 code := by
  constructor
  · intro h
    cases s with
    | nil => cases h
    | cons e s =>
      have hletter : ∀ {letter c : UInt8} {other : Except Failure (Text × Text)} {Q : Prop}, (letter, c) ∈ letterEscapes →
          (other = .ok (bytes, rest) →
            (∃ e' c, (e', c) ∈ letterEscapes ∧ e :: s = e' :: rest ∧ bytes = [c]) ∨ Q) →
          (if e = letter then Except.ok ([c], s) else other) = .ok (bytes, rest) →
            (∃ e' c, (e', c) ∈ letterEscapes ∧ e :: s = e' :: rest ∧ bytes = [c]) ∨ Q := by
        intro letter c other Q hc hother h
        by_cases he : e = letter
        · rw [if_pos he] at h
          cases h
          exact .inl ⟨letter, c, hc, by rw [he], rfl⟩
        · rw [if_neg he] at h
          exact hother h
      revert h
      unfold parseEscape
      iterate 8 refine hletter (by decide) ?_
      intro h
      split at h
      · rename_i he
        obtain ⟨⟨code, rest'⟩, hcode, h⟩ := bind_ok.1 h
        cases h
        obtain ⟨u, hu, rfl⟩ := parseUnicode_iff.1 hcode
        exact .inr ⟨u, code, hu, by rw [he]; rfl, rfl⟩
      · cases h
  · rintro (⟨e, c, hec, rfl, rfl⟩ | ⟨u, code, hu, rfl, rfl⟩)
    · have hall : ∀ p ∈ letterEscapes, parseEscape (p.1 :: rest) = .ok ([p.2], rest) := by
        simp only [letterEscapes, List.forall_mem_cons]
        exact ⟨rfl, rfl, rfl, rfl, rfl, rfl, rfl, rfl, fun _ h => absurd h List.not_mem_nil⟩
      exact hall _ hec
    · exact bind_ok.2 ⟨(code, rest), parseUnicode_iff.2 ⟨u, hu, rfl⟩, rfl⟩

/-- `AppendUtf8_` writes the UTF-8 of a character. -/
theorem appendUtf8_eq {code : Nat} (h : Nat.isValidChar code) :
    appendUtf8 code = String.utf8EncodeChar (Char.ofNat code) := by
  have hval : (Char.ofNat code).val.toNat = code := by
    rw [Char.ofNat, dif_pos h]
    exact UInt32.toNat_ofNatLT
  have hlast : ∀ n : Nat, 0x80 ||| n &&& 0x3F = n % 64 + 128 := by
    intro n
    have hall : ∀ m < 64, 0x80 ||| m = m + 128 := by decide
    rw [show (0x3F : Nat) = 2 ^ 6 - 1 from rfl, Nat.and_two_pow_sub_one_eq_mod]
    exact hall _ (Nat.mod_lt n (by decide))
  have hlt : code < 0x110000 := by
    obtain h | h := h <;> omega
  unfold appendUtf8 String.utf8EncodeChar
  dsimp only
  rw [hval, hlast, hlast, hlast]
  split_ifs with h1 h2 h3 h4 h5 h6 h7 h8 <;> try omega
  · rfl
  · have hall : ∀ m < 32, 0xC0 ||| m = m % 32 + 192 := by decide
    rw [Nat.shiftRight_eq_div_pow, hall _ (by omega)]
  · have hall : ∀ m < 16, 0xE0 ||| m = m % 16 + 224 := by decide
    rw [Nat.shiftRight_eq_div_pow, Nat.shiftRight_eq_div_pow, hall _ (by omega)]
  · have hall : ∀ m < 8, 0xF0 ||| m = m % 8 + 240 := by decide
    rw [Nat.shiftRight_eq_div_pow, Nat.shiftRight_eq_div_pow, Nat.shiftRight_eq_div_pow, hall _ (by omega)]

theorem hexDigit_lt {c : UInt8} {n : Nat} (h : hexDigit c = some n) : n < 16 := by
  unfold hexDigit at h
  simp only [UInt8.le_iff_toNat_le] at h
  have h57 : (57 : UInt8).toNat = 57 := rfl
  have h102 : (102 : UInt8).toNat = 102 := rfl
  have h70 : (70 : UInt8).toNat = 70 := rfl
  split_ifs at h <;> cases h <;> omega

theorem Unicode.isValidChar {u : Text} {code : Nat} (h : Unicode u code) : Nat.isValidChar code := by
  obtain ⟨⟨ha, hb, hc, hd⟩, hhigh, hlow⟩ | ⟨_, _, hhigh, hlow⟩ := h
  · have hp := hexDigit_lt ha
    have hq := hexDigit_lt hb
    have hr := hexDigit_lt hc
    have ht := hexDigit_lt hd
    unfold IsHigh at hhigh
    unfold IsLow at hlow
    unfold Nat.isValidChar
    omega
  · unfold IsHigh at hhigh
    unfold IsLow at hlow
    unfold Nat.isValidChar
    omega

/-! ## Strings -/

theorem parseString_sound (s out : Text) {text rest : Text} (h : parseString s out = .ok (text, rest)) :
    ∃ body t, Chars body t ∧ s = body ++ 34 :: rest ∧ text = out ++ t := by
  fun_induction parseString s out with
  | case1 => cases h
  | case2 out s =>
    cases h
    exact ⟨[], [], .nil, rfl, (List.append_nil _).symm⟩
  | case3 => cases h
  | case4 out c s hquote hcontrol hslash ih =>
    obtain ⟨body, t, hchars, rfl, rfl⟩ := ih h
    refine ⟨c :: body, c :: t, .unescaped ⟨?_, hquote, hslash⟩ hchars, rfl, by simp⟩
    exact UInt8.not_lt.1 hcontrol
  | case5 => cases h
  | case6 out c s hquote hcontrol hslash bytes rest' hescape _ ih =>
    obtain ⟨body, t, hchars, rfl, rfl⟩ := ih h
    have hc : c = 92 := not_not.1 hslash
    obtain ⟨e, d, hed, rfl, rfl⟩ | ⟨u, code, hu, rfl, rfl⟩ := parseEscape_iff.1 hescape
    · exact ⟨92 :: e :: body, d :: t, .letter hed hchars, by rw [hc]; rfl, by simp⟩
    · rw [appendUtf8_eq hu.isValidChar, List.append_assoc]
      obtain ⟨hhex, hhigh, hlow⟩ | ⟨hhex, hhex', hhigh, hlow⟩ := hu
      · exact ⟨_, _, .scalar hhex hhigh hlow hchars, by rw [hc]; simp, rfl⟩
      · exact ⟨_, _, .pair hhex hhex' hhigh hlow hchars, by rw [hc]; simp, rfl⟩

theorem parseString_escape {s out bytes rest : Text} (h : parseEscape s = .ok (bytes, rest)) :
    parseString (92 :: s) out = parseString rest (out ++ bytes) := by
  rw [parseString, if_neg (by decide), if_neg (by decide), if_neg (by decide)]
  split
  · rename_i herror
    rw [h] at herror
    cases herror
  · rename_i hok
    rw [h] at hok
    cases hok
    rfl

theorem parseString_complete {body t : Text} (h : Chars body t) (out rest : Text) :
    parseString (body ++ 34 :: rest) out = .ok (out ++ t, rest) := by
  induction h generalizing out with
  | nil =>
    rw [List.nil_append, parseString, if_pos rfl, List.append_nil]
  | @unescaped c s t hc _ ih =>
    rw [List.cons_append, parseString, if_neg hc.2.1, if_neg (UInt8.not_lt.2 hc.1), if_pos hc.2.2, ih]
    simp
  | @letter e c s t he _ ih =>
    have hescape : parseEscape (e :: s ++ 34 :: rest) = .ok ([c], s ++ 34 :: rest) :=
      parseEscape_iff.2 (.inl ⟨e, c, he, rfl, rfl⟩)
    rw [List.cons_append, parseString_escape hescape, ih]
    simp
  | @scalar hex code s t hhex hhigh hlow _ ih =>
    have hu := Unicode.scalar hhex hhigh hlow
    have hescape : parseEscape (117 :: hex ++ (s ++ 34 :: rest)) = .ok (appendUtf8 code, s ++ 34 :: rest) :=
      parseEscape_iff.2 (.inr ⟨hex, code, hu, rfl, rfl⟩)
    have hs : 92 :: 117 :: hex ++ s ++ 34 :: rest = 92 :: (117 :: hex ++ (s ++ 34 :: rest)) := by simp
    rw [hs, parseString_escape hescape, ih, appendUtf8_eq hu.isValidChar, List.append_assoc]
  | @pair hex hex' high low s t hhex hhex' hhigh hlow _ ih =>
    have hu := Unicode.pair hhex hhex' hhigh hlow
    have hescape : parseEscape (117 :: (hex ++ 92 :: 117 :: hex') ++ (s ++ 34 :: rest)) = .ok (_, s ++ 34 :: rest) :=
      parseEscape_iff.2 (.inr ⟨_, _, hu, rfl, rfl⟩)
    have hs : 92 :: 117 :: hex ++ 92 :: 117 :: hex' ++ s ++ 34 :: rest =
        92 :: (117 :: (hex ++ 92 :: 117 :: hex') ++ (s ++ 34 :: rest)) := by simp
    rw [hs, parseString_escape hescape, ih, appendUtf8_eq hu.isValidChar, List.append_assoc]

/-! ## Numbers -/

/-- What follows a value: nothing, white space, a comma or a closing bracket. -/
def Ends (rest : Text) : Prop := ∀ c ∈ rest.head?, isSpace c = true ∨ c = 44 ∨ c = 93 ∨ c = 125

theorem ends_facts {c : UInt8} (h : isSpace c = true ∨ c = 44 ∨ c = 93 ∨ c = 125) :
    isDigit c = false ∧ c ≠ 46 ∧ c ≠ 101 ∧ c ≠ 69 := by
  unfold isSpace at h
  simp only [Bool.or_eq_true, beq_iff_eq] at h
  obtain (((rfl | rfl) | rfl) | rfl) | rfl | rfl | rfl := h <;> decide

theorem takeWhile_digits {digits rest : Text} (h : ∀ c ∈ digits, isDigit c = true) (hrest : ∀ c ∈ rest.head?, isDigit c = false) :
    (digits ++ rest).takeWhile isDigit = digits ∧ (digits ++ rest).dropWhile isDigit = rest := by
  rw [List.takeWhile_append_of_pos h, List.dropWhile_append_of_pos h]
  cases rest with
  | nil => exact ⟨List.append_nil _, rfl⟩
  | cons c rest =>
    rw [List.takeWhile_cons, List.dropWhile_cons, hrest c rfl]
    exact ⟨List.append_nil _, rfl⟩

theorem digits_takeWhile {s : Text} (h : s.takeWhile isDigit ≠ []) : Digits (s.takeWhile isDigit) :=
  ⟨h, fun _ hc => List.mem_takeWhile_imp hc⟩

theorem parseFraction_sound {s rest : Text} (h : parseFraction s = .ok rest) : ∃ frac, Fraction frac ∧ s = frac ++ rest := by
  cases s with
  | nil =>
    cases h
    exact ⟨[], .none, rfl⟩
  | cons c s =>
    rw [parseFraction] at h
    split_ifs at h with hc hdigits
    · cases h
      refine ⟨46 :: s.takeWhile isDigit, .some (digits_takeWhile hdigits), ?_⟩
      rw [hc, List.cons_append, List.takeWhile_append_dropWhile]
    · cases h
      exact ⟨[], .none, rfl⟩

theorem parseFraction_complete {frac : Text} (h : Fraction frac) {rest : Text}
    (hrest : ∀ c ∈ rest.head?, isDigit c = false ∧ c ≠ 46) : parseFraction (frac ++ rest) = .ok rest := by
  cases h with
  | none =>
    cases rest with
    | nil => rfl
    | cons c rest =>
      rw [List.nil_append, parseFraction, if_neg (hrest c rfl).2]
  | @some digits h =>
    obtain ⟨htake, hdrop⟩ := takeWhile_digits h.2 fun c hc => (hrest c hc).1
    rw [List.cons_append, parseFraction, if_pos rfl, htake, hdrop, if_neg h.1]

theorem skipSign_eq (s : Text) : ∃ sign, (sign = [] ∨ sign = [43] ∨ sign = [45]) ∧ s = sign ++ skipSign s := by
  cases s with
  | nil => exact ⟨[], .inl rfl, rfl⟩
  | cons c s =>
    by_cases hc : c = 43 ∨ c = 45
    · rw [skipSign, if_pos hc]
      obtain rfl | rfl := hc
      · exact ⟨[43], .inr (.inl rfl), rfl⟩
      · exact ⟨[45], .inr (.inr rfl), rfl⟩
    · rw [skipSign, if_neg hc]
      exact ⟨[], .inl rfl, rfl⟩

theorem skipSign_digits {sign digits : Text} (hs : sign = [] ∨ sign = [43] ∨ sign = [45]) (h : Digits digits) (rest : Text) :
    skipSign (sign ++ digits ++ rest) = digits ++ rest := by
  obtain rfl | rfl | rfl := hs
  · obtain ⟨c, digits, rfl⟩ := List.exists_cons_of_ne_nil h.1
    have hc := h.2 c List.mem_cons_self
    show skipSign (c :: (digits ++ rest)) = c :: (digits ++ rest)
    rw [skipSign, if_neg]
    rintro (rfl | rfl) <;> exact absurd hc (by decide)
  · rfl
  · rfl

theorem parseExponent_sound {s rest : Text} (h : parseExponent s = .ok rest) : ∃ exp, Exponent exp ∧ s = exp ++ rest := by
  cases s with
  | nil =>
    cases h
    exact ⟨[], .none, rfl⟩
  | cons c s =>
    rw [parseExponent] at h
    split_ifs at h with hc hdigits
    · cases h
      obtain ⟨sign, hsign, hs⟩ := skipSign_eq s
      refine ⟨c :: (sign ++ (skipSign s).takeWhile isDigit), .some hc hsign (digits_takeWhile hdigits), ?_⟩
      rw [List.cons_append, List.append_assoc, List.takeWhile_append_dropWhile, ← hs]
    · cases h
      exact ⟨[], .none, rfl⟩

theorem parseExponent_complete {exp : Text} (h : Exponent exp) {rest : Text} (hrest : Ends rest) :
    parseExponent (exp ++ rest) = .ok rest := by
  cases h with
  | none =>
    cases rest with
    | nil => rfl
    | cons c rest =>
      have hc := ends_facts (hrest c rfl)
      rw [List.nil_append, parseExponent, if_neg]
      rintro (rfl | rfl)
      · exact hc.2.2.1 rfl
      · exact hc.2.2.2 rfl
  | @some e sign digits he hs h =>
    obtain ⟨htake, hdrop⟩ := takeWhile_digits h.2 fun c hc => (ends_facts (hrest c hc)).1
    rw [List.cons_append, parseExponent, if_pos he, skipSign_digits hs h, htake, hdrop, if_neg h.1]

/-- What may follow an integer part is no digit. -/
theorem exponent_head {exp : Text} (h : Exponent exp) {rest : Text} (hrest : Ends rest) :
    ∀ c ∈ (exp ++ rest).head?, isDigit c = false ∧ c ≠ 46 := by
  cases h with
  | none => exact fun c hc => ⟨(ends_facts (hrest c hc)).1, (ends_facts (hrest c hc)).2.1⟩
  | some he hs h =>
    intro c hc
    cases hc
    obtain rfl | rfl := he <;> decide

theorem fraction_head {frac : Text} (h : Fraction frac) {rest : Text}
    (hrest : ∀ c ∈ rest.head?, isDigit c = false ∧ c ≠ 46) : ∀ c ∈ (frac ++ rest).head?, isDigit c = false := by
  cases h with
  | none => exact fun c hc => (hrest c hc).1
  | some h =>
    intro c hc
    cases hc
    rfl

theorem skipMinus_eq (s : Text) : ∃ sign, Sign sign ∧ s = sign ++ skipMinus s := by
  cases s with
  | nil => exact ⟨[], .inl rfl, rfl⟩
  | cons c s =>
    by_cases hc : c = 45
    · rw [skipMinus, if_pos hc, hc]
      exact ⟨[45], .inr rfl, rfl⟩
    · rw [skipMinus, if_neg hc]
      exact ⟨[], .inl rfl, rfl⟩

theorem skipMinus_digits {sign digits : Text} (hs : Sign sign) (h : Digits digits) (rest : Text) :
    skipMinus (sign ++ digits ++ rest) = digits ++ rest := by
  obtain rfl | rfl := hs
  · obtain ⟨c, digits, rfl⟩ := List.exists_cons_of_ne_nil h.1
    have hc := h.2 c List.mem_cons_self
    show skipMinus (c :: (digits ++ rest)) = c :: (digits ++ rest)
    rw [skipMinus, if_neg]
    rintro rfl
    exact absurd hc (by decide)
  · rfl

theorem parseNumber_sound {s rest : Text} {v : JsonValue} (h : parseNumber s = .ok (v, rest)) :
    ∃ raw, Number Digits raw ∧ s = raw ++ rest ∧ v = .number raw := by
  unfold parseNumber at h
  dsimp only at h
  split at h
  · cases h
  · rename_i hdigits
    obtain ⟨s', hfraction, h⟩ := bind_ok.1 h
    obtain ⟨rest', hexponent, h⟩ := bind_ok.1 h
    cases h
    obtain ⟨sign, hsign, hs⟩ := skipMinus_eq s
    obtain ⟨frac, hfrac, hs'⟩ := parseFraction_sound hfraction
    obtain ⟨exp, hexp, rfl⟩ := parseExponent_sound hexponent
    have hwhole : s = (sign ++ (skipMinus s).takeWhile isDigit ++ frac ++ exp) ++ rest := by
      rw [List.append_assoc, List.append_assoc, List.append_assoc, ← hs', List.takeWhile_append_dropWhile, ← hs]
    have hraw : s.take (s.length - rest.length) = sign ++ (skipMinus s).takeWhile isDigit ++ frac ++ exp := by
      conv_lhs => rw [hwhole]
      rw [List.length_append, Nat.add_sub_cancel, List.take_left]
    refine ⟨_, .mk hsign (digits_takeWhile hdigits) hfrac hexp, hwhole, by rw [hraw]⟩

theorem parseNumber_complete {raw : Text} (h : Number Digits raw) {rest : Text} (hrest : Ends rest) :
    parseNumber (raw ++ rest) = .ok (.number raw, rest) := by
  obtain @⟨sign, int, frac, exp, hs, hi, hf, he⟩ := h
  have hexp := exponent_head he hrest
  obtain ⟨htake, hdrop⟩ := takeWhile_digits hi.2 (fraction_head hf hexp)
  have hwhole : sign ++ int ++ frac ++ exp ++ rest = sign ++ int ++ (frac ++ (exp ++ rest)) := by simp
  unfold parseNumber
  dsimp only
  rw [hwhole, skipMinus_digits hs hi, htake, hdrop, if_neg hi.1]
  refine bind_ok.2 ⟨exp ++ rest, parseFraction_complete hf hexp, ?_⟩
  refine bind_ok.2 ⟨rest, parseExponent_complete he hrest, ?_⟩
  rw [← hwhole, List.length_append, Nat.add_sub_cancel, List.take_left]

/-- A number begins with a digit or a minus. -/
theorem number_head {raw : Text} (h : Number Digits raw) : ∃ c s, raw = c :: s ∧ (c = 45 ∨ 48 ≤ c ∧ c ≤ 57) := by
  obtain @⟨sign, int, frac, exp, hs, hi, _, _⟩ := h
  obtain rfl | rfl := hs
  · obtain ⟨c, int, rfl⟩ := List.exists_cons_of_ne_nil hi.1
    have hc := hi.2 c List.mem_cons_self
    simp only [isDigit, Bool.and_eq_true, decide_eq_true_eq] at hc
    exact ⟨c, _, rfl, .inr hc⟩
  · exact ⟨45, _, rfl, .inl rfl⟩

end HMailServer.JsonDocument
