import HMailServer.Util.JsonAcceptance

/- Where the JSON reader accepts JSON and nothing else, and what `AsInt64` makes of
   the numbers of a text. -/
namespace HMailServer.JsonDocument
open Json

/-! ## Numbers with a superfluous zero -/

/-- What follows an integer part does not begin with a digit. -/
theorem notDigit_behind {frac exp : Text} (hf : Fraction frac) (he : Exponent exp) {c : UInt8} {rest : Text}
    (h : frac ++ exp = c :: rest) : isDigit c = false := by
  have hend : Ends [] := fun _ h => (by cases h)
  have hexp := exponent_head he hend
  have hhead := fraction_head hf hexp c
  rw [List.append_nil, h] at hhead
  exact hhead rfl

/-- A number of the laxer grammar is one of JSON exactly where it does not begin
    with a superfluous zero. -/
theorem number_integer_iff {raw : Text} (h : Number Digits raw) : Number Integer raw ↔ ¬LeadingZero raw := by
  constructor
  · rintro @⟨sign, int, frac, exp, hs, hi, hf, he⟩ ⟨sign', c, rest, hs', hc, hraw⟩
    have hint := integer_digits hi
    obtain ⟨d, int, rfl⟩ := List.exists_cons_of_ne_nil hint.1
    have hd := hint.2 d List.mem_cons_self
    have hminus : d ≠ 45 := by
      rintro rfl
      exact absurd hd (by decide)
    -- both read the same sign
    have htail : (d :: int) ++ (frac ++ exp) = 48 :: c :: rest := by
      obtain rfl | rfl := hs <;> obtain rfl | rfl := hs'
      · simpa using hraw
      · simp at hraw
        exact absurd hraw.1 hminus
      · simp at hraw
      · simpa using hraw
    rw [List.cons_append] at htail
    obtain ⟨rfl, hbehind⟩ := List.cons_eq_cons.1 htail
    obtain hzero | ⟨_, hhead⟩ := hi
    · obtain ⟨_, rfl⟩ := List.cons_eq_cons.1 hzero
      rw [notDigit_behind hf he hbehind] at hc
      cases hc
    · exact hhead rfl
  · intro hzero
    obtain @⟨sign, int, frac, exp, hs, hi, hf, he⟩ := h
    refine .mk hs ?_ hf he
    obtain ⟨d, int, rfl⟩ := List.exists_cons_of_ne_nil hi.1
    by_cases hd : d = 48
    · cases int with
      | nil => exact .inl (by rw [hd])
      | cons c int =>
        refine absurd ⟨sign, c, int ++ frac ++ exp, hs, hi.2 c (by simp), ?_⟩ hzero
        rw [hd]
        simp
    · exact .inr ⟨hi, by simpa using hd⟩

/-! ## `AsInt64` -/

theorem digitsValue_map {digits : Text} (h : ∀ c ∈ digits, isDigit c = true) :
    WString.digitsValue (digits.map UInt8.toNat) = digitsNumber digits := by
  have hall : ∀ c ∈ digits.map UInt8.toNat, decide (48 ≤ c ∧ c ≤ 57) = true := by
    intro c hc
    obtain ⟨d, hd, rfl⟩ := List.mem_map.1 hc
    have hdigit := h d hd
    simp only [isDigit, Bool.and_eq_true, decide_eq_true_eq, UInt8.le_iff_toNat_le] at hdigit
    exact decide_eq_true hdigit
  rw [WString.digitsValue, List.takeWhile_eq_self_iff.2 hall, List.foldl_map, digitsNumber]
  congr 1
  funext n c
  rw [Nat.mul_comm]

/-- Digits and a minus are read by `ttoi` as what they mean, within the range. -/
theorem ttoi_means {raw : Text} {n : Int} (h : Means raw n) (hlow : -(2 : Int) ^ 63 ≤ n) (hhigh : n < (2 : Int) ^ 63) :
    WString.ttoi 64 (raw.map UInt8.toNat) = n := by
  have hheld : max (-(2 : Int) ^ (64 - 1)) (min n ((2 : Int) ^ (64 - 1) - 1)) = n := by omega
  obtain @⟨digits, h⟩ | @⟨digits, h⟩ := h
  · obtain ⟨c, rest, rfl⟩ := List.exists_cons_of_ne_nil h.1
    have hc := h.2 c List.mem_cons_self
    simp only [isDigit, Bool.and_eq_true, decide_eq_true_eq, UInt8.le_iff_toNat_le] at hc
    have h48 : (48 : UInt8).toNat = 48 := rfl
    have hvalue := digitsValue_map h.2
    have hdrop : ((c :: rest).map UInt8.toNat).dropWhile (fun c => decide (c = 32 ∨ 9 ≤ c ∧ c ≤ 13)) =
        (c :: rest).map UInt8.toNat := by
      rw [List.map_cons, List.dropWhile_cons_of_neg]
      rw [decide_eq_true_eq]
      omega
    rw [WString.ttoi, hdrop, List.map_cons]
    rw [List.map_cons] at hvalue
    split
    · rename_i t heq
      exact absurd (List.cons_eq_cons.1 heq).1 (by omega)
    · rename_i t heq
      exact absurd (List.cons_eq_cons.1 heq).1 (by omega)
    · rw [hvalue]
      exact hheld
  · have hvalue := digitsValue_map h.2
    show max (-(2 : Int) ^ (64 - 1)) (min (-(WString.digitsValue (digits.map UInt8.toNat) : Int)) ((2 : Int) ^ (64 - 1) - 1)) = _
    rw [hvalue]
    exact hheld

theorem asInt64_means (ofDouble : Text → Int) {raw : Text} {n : Int} (h : Means raw n) (hlow : -(2 : Int) ^ 63 ≤ n)
    (hhigh : n < (2 : Int) ^ 63) : asInt64 ofDouble (.number raw) = n := by
  have hnone : raw.any (fun c => c == 46 || c == 101 || c == 69) = false := by
    have hdigits : ∀ digits : Text, (∀ c ∈ digits, isDigit c = true) →
        digits.any (fun c => c == 46 || c == 101 || c == 69) = false := by
      intro digits hall
      rw [List.any_eq_false]
      intro c hc hmem
      have hdigit := hall c hc
      simp only [Bool.or_eq_true, beq_iff_eq] at hmem
      obtain (rfl | rfl) | rfl := hmem <;> exact absurd hdigit (by decide)
    obtain h | h := h
    · exact hdigits _ h.2
    · rw [List.any_cons, hdigits _ h.2]
      rfl
  rw [asInt64, hnone, if_neg Bool.false_ne_true]
  exact ttoi_means h hlow hhigh

/-! ## Exactness -/

/-- A text that would be JSON but for zeros in front of its numbers. -/
def ZeroPadded (text : Text) : Prop :=
  ∃ v, JsonText Digits maxDepth text v ∧ ¬JsonText Integer maxDepth text v

/-- The reader accepts what JSON is, as what it denotes, and integers come out of it
    exact, where the text is not one with superfluous zeros in front of numbers;
    such a text it accepts, and it is none. -/
theorem parse_is_exact_iff (text : Text) :
    ((∀ v, parse text = .ok v ↔ JsonText Integer maxDepth text v) ∧
      ∀ ofDouble raw n, Means raw n → -(2 : Int) ^ 63 ≤ n → n < (2 : Int) ^ 63 → asInt64 ofDouble (.number raw) = n) ↔
      ¬ZeroPadded text := by
  constructor
  · rintro ⟨hexact, _⟩ ⟨v, hlax, hstrict⟩
    exact hstrict ((hexact v).1 ((parse_iff_lax text v).2 hlax))
  · intro hnone
    refine ⟨fun v => ⟨fun h => ?_, fun h => ?_⟩, fun ofDouble raw n => asInt64_means ofDouble⟩
    · by_contra hstrict
      exact hnone ⟨v, (parse_iff_lax text v).1 h, hstrict⟩
    · exact (parse_iff_lax text v).2 (h.mono fun _ => integer_digits)

/-- `012` is read as a number, and it is no JSON. -/
theorem padded_number_accepted :
    parse [48, 49, 50] = .ok (.number [48, 49, 50]) ∧ ¬∃ v, JsonText Integer maxDepth [48, 49, 50] v := by
  have hparse : parse [48, 49, 50] = .ok (.number [48, 49, 50]) := rfl
  refine ⟨hparse, ?_⟩
  rintro ⟨v, h⟩
  have hv := (parse_iff_lax _ v).2 (h.mono fun _ => integer_digits)
  rw [hparse] at hv
  obtain rfl := Except.ok.inj hv
  obtain ⟨left, t, right, ht, _, _, h⟩ := jsonText_iff.1 h
  cases h with
  | number _ h =>
    exact (number_integer_iff (h.mono fun _ => integer_digits)).1 h ⟨[], 49, [50], .inl rfl, rfl, rfl⟩

end HMailServer.JsonDocument
