import HMailServer.Util.WideString

/- Numbers in decimal (`StringParser::IntToString` of a number that is not negative,
   and the `%d` of a format), and how `_ttoi` reads them back. -/
namespace HMailServer.WString

def decimal (n : Nat) : WString := (Nat.toDigits 10 n).map Char.toNat

theorem digit_of_mem_decimal {n c : Nat} (h : c ∈ decimal n) : 48 ≤ c ∧ c ≤ 57 := by
  obtain ⟨d, hd, rfl⟩ := List.mem_map.1 h
  have hdigit := Nat.isDigit_of_mem_toDigits (by decide) (by decide) hd
  simpa [Char.isDigit, UInt32.le_iff_toNat_le] using hdigit

theorem decimal_ne_nil (n : Nat) : decimal n ≠ [] := by
  simp [decimal, Nat.toDigits_ne_nil]

theorem digitsValue_decimal (n : Nat) : digitsValue (decimal n) = n := by
  rw [digitsValue, List.takeWhile_eq_self_iff.2 fun c hc => by simpa using digit_of_mem_decimal hc, decimal, List.foldl_map]
  exact Nat.ofDigitChars_ten_toDigits

/-- A number is read as itself, held at the end of the range. -/
theorem ttoi_decimal (bits n : Nat) :
    ttoi bits (decimal n) = max (-(2 : Int) ^ (bits - 1)) (min (n : Int) ((2 : Int) ^ (bits - 1) - 1)) := by
  obtain ⟨c, rest, hcons⟩ := List.exists_cons_of_ne_nil (decimal_ne_nil n)
  have hc := @digit_of_mem_decimal n c (by rw [hcons]; exact List.mem_cons_self)
  have hvalue := digitsValue_decimal n
  rw [hcons] at hvalue ⊢
  have hplain : ∀ d : Nat, 48 ≤ d ∧ d ≤ 57 → ¬decide (d = 32 ∨ 9 ≤ d ∧ d ≤ 13) = true := by
    intro d hd
    rw [decide_eq_true_eq]
    omega
  have hdrop : (c :: rest).dropWhile (fun c => decide (c = 32 ∨ 9 ≤ c ∧ c ≤ 13)) = c :: rest :=
    List.dropWhile_cons_of_neg (hplain c hc)
  rw [ttoi, hdrop]
  dsimp only
  split
  · rename_i heq
    cases heq
    omega
  · rename_i heq
    cases heq
    omega
  · rw [hvalue]

theorem ttoi_decimal_of_lt {bits n : Nat} (h : n < 2 ^ (bits - 1)) : ttoi bits (decimal n) = n := by
  have hpow : (n : Int) < (2 : Int) ^ (bits - 1) := by exact_mod_cast h
  rw [ttoi_decimal]
  omega

end HMailServer.WString
