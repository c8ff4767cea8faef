import Mathlib

/- The parts of the narrow `AnsiString` class that the modelled code reads: a
   text is the list of its bytes. -/
namespace HMailServer

abbrev AnsiString := List UInt8

/-- A narrow string literal of the source. -/
def ansi (s : String) : AnsiString := s.toList.map fun c => UInt8.ofNat c.toNat

namespace AnsiString

def isDigit (c : UInt8) : Bool := 48 ≤ c && c ≤ 57

/-- `Format` of a non-negative number in decimal. -/
def formatNat (n : Nat) : AnsiString :=
  if n = 0 then [48] else (Nat.digits 10 n).reverse.map fun d => UInt8.ofNat (48 + d)

/-- The number a run of digits writes. -/
def digitsValue (s : AnsiString) : Nat := s.foldl (fun v c => v * 10 + (c.toNat - 48)) 0

/-- The classic locale's character functions, which the process keeps. -/
def isSpace (c : UInt8) : Bool := c == 32 || (9 ≤ c && c ≤ 13)

def toUpper (c : UInt8) : UInt8 := if 97 ≤ c && c ≤ 122 then c - 32 else c

/-- `TrimLeft` and `TrimRight`. -/
def trim (s : AnsiString) : AnsiString := (s.dropWhile isSpace).rdropWhile isSpace

def makeUpper (s : AnsiString) : AnsiString := s.map toUpper

/-- The classic locale's `tolower`. -/
def toLower (c : UInt8) : UInt8 := if 65 ≤ c && c ≤ 90 then c + 32 else c

def lower (s : AnsiString) : AnsiString := s.map toLower

/-- The characters in front of the first NUL. -/
def cstr (s : AnsiString) : AnsiString := s.takeWhile (· != 0)

/-- `CompareNoCase(..) == 0`. -/
def equalsNoCase (a b : AnsiString) : Bool := lower (cstr a) == lower (cstr b)

def trimLeft (s : AnsiString) : AnsiString := s.dropWhile isSpace
def trimRight (s : AnsiString) : AnsiString := s.rdropWhile isSpace

/-- `Remove(c)`. -/
def remove (c : UInt8) (s : AnsiString) : AnsiString := s.filter (· ≠ c)

/-- `Replace`, leftmost first and never rereading what it wrote, with `skip`
    characters of the old text to pass. -/
def replaceFrom (old new : AnsiString) : Nat → AnsiString → AnsiString
  | _, [] => []
  | skip + 1, _ :: s => replaceFrom old new skip s
  | 0, c :: s =>
    if old.isPrefixOf (c :: s) then new ++ replaceFrom old new (old.length - 1) s
    else c :: replaceFrom old new 0 s

theorem toNat_digit {d : Nat} (h : d < 10) : (UInt8.ofNat (48 + d)).toNat = 48 + d := by
  rw [UInt8.toNat_ofNat']
  omega

theorem isDigit_digit {d : Nat} (h : d < 10) : isDigit (UInt8.ofNat (48 + d)) = true := by
  have hnat := toNat_digit h
  simp only [isDigit, Bool.and_eq_true, decide_eq_true_eq, UInt8.le_iff_toNat_le, hnat]
  exact ⟨Nat.le_add_right 48 d, by change 48 + d ≤ 57; omega⟩

theorem formatNat_isDigit (n : Nat) : ∀ c ∈ formatNat n, isDigit c = true := by
  intro c hc
  unfold formatNat at hc
  split at hc
  · rw [List.mem_singleton] at hc
    rw [hc]
    decide
  · obtain ⟨d, hd, rfl⟩ := List.mem_map.1 hc
    exact isDigit_digit (Nat.digits_lt_base (by decide) (List.mem_reverse.1 hd))

theorem formatNat_ne_nil (n : Nat) : formatNat n ≠ [] := by
  unfold formatNat
  split
  · exact List.cons_ne_nil _ _
  · rename_i hn
    simpa [Nat.digits_ne_nil_iff_ne_zero] using hn

theorem length_formatNat_le {n k : Nat} (hk : 0 < k) (hn : n < 10 ^ k) : (formatNat n).length ≤ k := by
  unfold formatNat
  split
  · exact hk
  · rw [List.length_map, List.length_reverse]
    exact (Nat.digits_length_le_iff (by decide) n).2 hn

theorem digitsValue_formatNat (n : Nat) : digitsValue (formatNat n) = n := by
  -- Read backwards the digits are those of `Nat.ofDigits`.
  have key : ∀ ds : List Nat, (∀ d ∈ ds, d < 10) →
      digitsValue (ds.reverse.map fun d => UInt8.ofNat (48 + d)) = Nat.ofDigits 10 ds := by
    intro ds hds
    induction ds with
    | nil => rfl
    | cons d ds ih =>
      have hd := toNat_digit (hds d List.mem_cons_self)
      have hrest := ih fun e he => hds e (List.mem_cons_of_mem _ he)
      rw [digitsValue] at hrest ⊢
      rw [List.reverse_cons, List.map_append, List.foldl_append, hrest, Nat.ofDigits_cons]
      simp only [List.map_cons, List.map_nil, List.foldl_cons, List.foldl_nil, hd]
      omega
  unfold formatNat
  split
  · rename_i hn
    rw [hn]
    rfl
  · rw [key _ fun d hd => Nat.digits_lt_base (by decide) hd, Nat.ofDigits_digits]

/-! ## Lower case -/

theorem toLower_eq {c d : UInt8} (hd : d.toNat < 65) (h : toLower c = d) : c = d := by
  unfold toLower at h
  split at h
  · rename_i hc
    simp only [Bool.and_eq_true, decide_eq_true_eq, UInt8.le_iff_toNat_le] at hc
    have hnat := congrArg UInt8.toNat h
    rw [UInt8.toNat_add] at hnat
    have h65 : (65 : UInt8).toNat = 65 := rfl
    have h90 : (90 : UInt8).toNat = 90 := rfl
    have h32 : (32 : UInt8).toNat = 32 := rfl
    omega
  · exact h

theorem lower_append (a b : AnsiString) : lower (a ++ b) = lower a ++ lower b := List.map_append

theorem lower_take (n : Nat) (s : AnsiString) : lower (s.take n) = (lower s).take n := List.map_take

theorem length_lower (s : AnsiString) : (lower s).length = s.length := List.length_map _

theorem equalsNoCase_iff (a b : AnsiString) : equalsNoCase a b = true ↔ lower (cstr a) = lower (cstr b) := beq_iff_eq

theorem cstr_eq {s : AnsiString} (h : ∀ c ∈ s, c ≠ 0) : cstr s = s := by
  rw [cstr, List.takeWhile_eq_self_iff]
  exact fun c hc => bne_iff_ne.2 (h c hc)

theorem equalsNoCase_refl (s : AnsiString) : equalsNoCase s s = true := (equalsNoCase_iff s s).2 rfl

theorem equalsNoCase_comm (a b : AnsiString) : equalsNoCase a b = equalsNoCase b a := by
  rw [Bool.eq_iff_iff, equalsNoCase_iff, equalsNoCase_iff]
  exact eq_comm

/-- Names that are the same without case are the same to every third. -/
theorem equalsNoCase_trans {a b c : AnsiString} (h : equalsNoCase a b = true) : equalsNoCase a c = equalsNoCase b c := by
  rw [equalsNoCase_iff] at h
  rw [equalsNoCase, equalsNoCase, h]

theorem replaceFrom_of_notMem {old new : AnsiString} {c : UInt8} {s : AnsiString} (hc : c ∉ s) :
    replaceFrom (c :: old) new 0 s = s := by
  induction s with
  | nil => rfl
  | cons d s ih =>
    rw [List.mem_cons, not_or] at hc
    have hno : (c :: old).isPrefixOf (d :: s) = false := by simp [List.isPrefixOf, hc.1]
    rw [replaceFrom, hno, if_neg Bool.false_ne_true, ih hc.2]

/-! ## Trimming and upper case -/

theorem isSpace_toUpper : ∀ c, isSpace (toUpper c) = isSpace c := by decide +kernel

theorem toUpper_toUpper : ∀ c, toUpper (toUpper c) = toUpper c := by decide +kernel

theorem makeUpper_makeUpper (s : AnsiString) : makeUpper (makeUpper s) = makeUpper s := by
  simp [makeUpper, Function.comp_def, toUpper_toUpper]

/-- White space around what is left. -/
theorem exists_trim (s : AnsiString) :
    ∃ l r, s = l ++ trim s ++ r ∧ (∀ c ∈ l, isSpace c = true) ∧ (∀ c ∈ r, isSpace c = true) := by
  refine ⟨s.takeWhile isSpace, (s.dropWhile isSpace).rtakeWhile isSpace, ?_, ?_, ?_⟩
  · rw [List.append_assoc]
    unfold trim
    rw [List.rdropWhile_append_rtakeWhile, List.takeWhile_append_dropWhile]
  · intro c hc
    exact List.mem_takeWhile_imp hc
  · intro c hc
    exact List.mem_rtakeWhile_imp hc

theorem trim_head {s : AnsiString} : ∀ c ∈ (trim s).head?, isSpace c = false := by
  intro c hc
  obtain ⟨r, hr⟩ : trim s <+: s.dropWhile isSpace := List.rdropWhile_prefix _ _
  have hhead : c ∈ (s.dropWhile isSpace).head? := by
    rw [← hr, List.head?_append, Option.mem_def.1 hc]
    rfl
  have hnot := List.head?_dropWhile_not isSpace s
  rw [Option.mem_def.1 hhead] at hnot
  exact hnot

theorem trim_last {s : AnsiString} : ∀ c ∈ (trim s).getLast?, isSpace c = false := by
  intro c hc
  obtain ⟨hne, rfl⟩ := List.mem_getLast?_eq_getLast hc
  exact Bool.eq_false_iff.2 (List.rdropWhile_last_not isSpace (s.dropWhile isSpace) hne)

theorem trim_eq_self {s : AnsiString} :
    trim s = s ↔ (∀ c ∈ s.head?, isSpace c = false) ∧ (∀ c ∈ s.getLast?, isSpace c = false) := by
  constructor
  · intro h
    rw [← h]
    exact ⟨trim_head, trim_last⟩
  · rintro ⟨hhead, hlast⟩
    have hleft : s.dropWhile isSpace = s := by
      cases s with
      | nil => rfl
      | cons c s => rw [List.dropWhile_cons, hhead c rfl, if_neg Bool.false_ne_true]
    rw [trim, hleft, List.rdropWhile_eq_self_iff]
    intro hne
    simp [hlast _ (List.getLast?_eq_some_getLast hne)]

theorem trim_trim (s : AnsiString) : trim (trim s) = trim s := trim_eq_self.2 ⟨trim_head, trim_last⟩

theorem trim_makeUpper {s : AnsiString} (h : trim s = s) : trim (makeUpper s) = makeUpper s := by
  rw [trim_eq_self] at h ⊢
  unfold makeUpper
  refine ⟨?_, ?_⟩
  · intro c hc
    rw [List.head?_map, Option.mem_map] at hc
    obtain ⟨a, ha, rfl⟩ := hc
    rw [isSpace_toUpper, h.1 a ha]
  · intro c hc
    rw [List.getLast?_map, Option.mem_map] at hc
    obtain ⟨a, ha, rfl⟩ := hc
    rw [isSpace_toUpper, h.2 a ha]

/-- White space around a text is trimmed with it. -/
theorem trim_pad {l r : AnsiString} (m : AnsiString) (hl : ∀ c ∈ l, isSpace c = true) (hr : ∀ c ∈ r, isSpace c = true) :
    trim (l ++ m ++ r) = trim m := by
  have hright : ∀ t : AnsiString, (t ++ r).rdropWhile isSpace = t.rdropWhile isSpace := by
    intro t
    induction r using List.reverseRecOn with
    | nil => rw [List.append_nil]
    | append_singleton r c ih =>
      rw [← List.append_assoc, List.rdropWhile_concat_pos _ _ _ (hr c (by simp)), ih fun d hd => hr d (by simp [hd])]
  unfold trim
  rw [List.append_assoc, List.dropWhile_append_of_pos hl, List.dropWhile_append]
  split
  · rename_i hm
    have hnil : r.dropWhile isSpace = [] := List.dropWhile_eq_nil_iff.2 hr
    rw [hnil, List.isEmpty_iff.1 hm]
  · exact hright _

theorem mem_trim {c : UInt8} {s : AnsiString} (h : c ∈ s) (hc : isSpace c = false) : c ∈ trim s := by
  obtain ⟨l, r, hs, hl, hr⟩ := exists_trim s
  rw [hs] at h
  simp only [List.mem_append] at h
  obtain (h | h) | h := h
  · rw [hl c h] at hc
    cases hc
  · exact h
  · rw [hr c h] at hc
    cases hc

/-- Nothing in front of a character that is no white space is trimmed from the
    right. -/
theorem trim_append_cons {a w : AnsiString} {c : UInt8} (hc : isSpace c = false) (ha : ∀ d ∈ a.head?, isSpace d = false) :
    trim (a ++ c :: w) = a ++ c :: w.rdropWhile isSpace := by
  have hleft : (a ++ c :: w).dropWhile isSpace = a ++ c :: w := by
    cases a with
    | nil => rw [List.nil_append, List.dropWhile_cons, hc, if_neg Bool.false_ne_true]
    | cons d a => rw [List.cons_append, List.dropWhile_cons, ha d rfl, if_neg Bool.false_ne_true]
  rw [trim, hleft]
  clear hleft
  induction w using List.reverseRecOn with
  | nil => rw [List.rdropWhile_nil, List.rdropWhile_concat_neg _ _ _ (by simp [hc])]
  | append_singleton w d ih =>
    have hassoc : a ++ c :: (w ++ [d]) = (a ++ c :: w) ++ [d] := by simp
    rw [hassoc, List.rdropWhile_concat, List.rdropWhile_concat]
    split
    · exact ih
    · simp

theorem trim_subset (s : AnsiString) : trim s ⊆ s := by
  obtain ⟨l, r, hs, _⟩ := exists_trim s
  intro c hc
  rw [hs]
  simp [hc]

end AnsiString
end HMailServer
