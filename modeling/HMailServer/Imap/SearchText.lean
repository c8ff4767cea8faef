import HMailServer.Imap.SearchMeaning

/- The text of a SEARCH program: without the parentheses of its lists it is its
   words, one space apart, and its names may be in any case. -/
namespace HMailServer

open SearchWord (Marked plain text unlisted joinTokens CountedRight MarksParentheses allLiterals)

/-! ## The text of a program -/

namespace SearchWord

theorem unlisted_append (a b : Marked) : unlisted (a ++ b) = unlisted a ++ unlisted b := by
  simp [unlisted, text]

theorem unlisted_plain (s : WString) : unlisted (plain s) = s := by
  have hfilter : (plain s).filter (fun x => !x.2) = plain s := by
    rw [List.filter_eq_self]
    intro x hx
    obtain ⟨c, _, rfl⟩ := List.mem_map.1 hx
    rfl
  rw [unlisted, hfilter]
  simp [text, plain, Function.comp_def]

theorem marksParentheses_plain (s : WString) : MarksParentheses (plain s) := by
  intro x hx hb
  obtain ⟨c, _, rfl⟩ := List.mem_map.1 hx
  exact absurd hb (by simp)

theorem marksParentheses_append {a b : Marked} (ha : MarksParentheses a) (hb : MarksParentheses b) :
    MarksParentheses (a ++ b) := by
  intro x hx
  rcases List.mem_append.1 hx with h | h
  · exact ha x h
  · exact hb x h

end SearchWord

mutual
theorem SearchKey.words_ne_nil : (k : SearchKey) → k.words ≠ []
  | .leaf _ _ | .sequenceSet _ | .not _ _ | .or _ _ _ => by simp [SearchKey.words]
  | .list p => p.words_ne_nil
theorem SearchProgram.words_ne_nil : (p : SearchProgram) → p.words ≠ []
  | .last k => k.words_ne_nil
  | .more k p => by simp [SearchProgram.words, k.words_ne_nil]
end

mutual
theorem SearchKey.unlisted_marked : (k : SearchKey) → unlisted k.marked = joinTokens k.words
  | .leaf _ _ => SearchWord.unlisted_plain _
  | .sequenceSet _ => SearchWord.unlisted_plain _
  | .not name k => by
    rw [SearchKey.marked, SearchKey.words, SearchWord.unlisted_append, SearchWord.unlisted_plain,
      SearchWord.joinTokens_cons _ k.words_ne_nil, k.unlisted_marked]
    simp [SearchWord.token]
  | .or name a b => by
    have hne : a.words ++ b.words ≠ [] := by simp [a.words_ne_nil]
    simp only [SearchKey.marked, SearchKey.words, SearchWord.unlisted_append, SearchWord.unlisted_plain]
    rw [SearchWord.joinTokens_cons _ hne, SearchWord.joinTokens_append a.words_ne_nil b.words_ne_nil,
      a.unlisted_marked, b.unlisted_marked]
    simp [SearchWord.token]
  | .list p => by
    have h := p.unlisted_marked
    rw [SearchKey.words, ← h]
    simp [SearchKey.marked, unlisted, text]
theorem SearchProgram.unlisted_marked : (p : SearchProgram) → unlisted p.marked = joinTokens p.words
  | .last k => k.unlisted_marked
  | .more k p => by
    simp only [SearchProgram.marked, SearchProgram.words, SearchWord.unlisted_append,
      SearchWord.unlisted_plain]
    rw [SearchWord.joinTokens_append k.words_ne_nil p.words_ne_nil, k.unlisted_marked, p.unlisted_marked]
    simp
end

mutual
theorem SearchKey.marksParentheses : (k : SearchKey) → MarksParentheses k.marked
  | .leaf _ _ => SearchWord.marksParentheses_plain _
  | .sequenceSet _ => SearchWord.marksParentheses_plain _
  | .not _ k => SearchWord.marksParentheses_append (SearchWord.marksParentheses_plain _) k.marksParentheses
  | .or _ a b => by
    refine SearchWord.marksParentheses_append (SearchWord.marksParentheses_append ?_ ?_) b.marksParentheses
    · exact SearchWord.marksParentheses_append (SearchWord.marksParentheses_plain _) a.marksParentheses
    · exact SearchWord.marksParentheses_plain _
  | .list p => by
    intro x hx hb
    simp only [SearchKey.marked, List.cons_append, List.mem_cons, List.mem_append, List.not_mem_nil,
      or_false] at hx
    rcases hx with rfl | hx | rfl
    · exact .inl rfl
    · exact p.marksParentheses x hx hb
    · exact .inr rfl
theorem SearchProgram.marksParentheses : (p : SearchProgram) → MarksParentheses p.marked
  | .last k => k.marksParentheses
  | .more k p => by
    refine SearchWord.marksParentheses_append (SearchWord.marksParentheses_append k.marksParentheses ?_)
      p.marksParentheses
    exact SearchWord.marksParentheses_plain _
end

namespace SearchCommand

theorem unlisted_marked (cmd : SearchCommand) : unlisted cmd.marked = joinTokens cmd.words := by
  obtain ⟨charset, p⟩ := cmd
  rcases charset with _ | ⟨name, w⟩
  · exact p.unlisted_marked
  · have hjoin := SearchWord.joinTokens_append (a := [SearchWord.atom name, w]) (by simp) p.words_ne_nil
    simp only [marked, words, charsetWords, SearchWord.unlisted_append, SearchWord.unlisted_plain]
    rw [hjoin, p.unlisted_marked]
    simp [joinTokens, SearchWord.token]

theorem marksParentheses (cmd : SearchCommand) : MarksParentheses cmd.marked := by
  obtain ⟨charset, p⟩ := cmd
  rcases charset with _ | ⟨name, w⟩
  · exact p.marksParentheses
  · exact SearchWord.marksParentheses_append (SearchWord.marksParentheses_plain _) p.marksParentheses

end SearchCommand

/-! ## Names in any case -/

/-- The locale changes the case of ASCII characters as the classic one does. -/
def Locale.AsciiCase (loc : Locale) : Prop :=
  ∀ c < 128, loc.toUpper c = asciiUpper c ∧ loc.toLower c = WString.classicLower c

/-- A word of lower-case letters. -/
def Letters (lower : WString) : Prop := ∀ c ∈ lower, 97 ≤ c ∧ c ≤ 122

instance (lower : WString) : Decidable (Letters lower) := by unfold Letters; infer_instance

theorem classicLower_letter {c : WChar} (h : 97 ≤ WString.classicLower c ∧ WString.classicLower c ≤ 122) :
    0 < c ∧ c < 128 ∧ asciiUpper c = WString.classicLower c - 32 ∧
      WString.classicLower (asciiUpper c) = WString.classicLower c := by
  -- Stated over the numbers themselves, for the arithmetic.
  have key : ∀ n : Nat, 97 ≤ (if 65 ≤ n ∧ n ≤ 90 then n + 32 else n) ∧
      (if 65 ≤ n ∧ n ≤ 90 then n + 32 else n) ≤ 122 →
      0 < n ∧ n < 128 ∧ asciiUpper n = (if 65 ≤ n ∧ n ≤ 90 then n + 32 else n) - 32 ∧
        (if 65 ≤ asciiUpper n ∧ asciiUpper n ≤ 90 then asciiUpper n + 32 else asciiUpper n) =
          (if 65 ≤ n ∧ n ≤ 90 then n + 32 else n) := by
    intro n hn
    unfold asciiUpper
    split_ifs at * <;> omega
  exact key c h

section spelling

variable {loc : Locale} {name lower : WString}

theorem Spells.letter (h : Spells name lower) (hl : Letters lower) :
    ∀ c ∈ name, 97 ≤ WString.classicLower c ∧ WString.classicLower c ≤ 122 := by
  intro c hc
  refine hl _ ?_
  rw [← h]
  exact List.mem_map_of_mem hc

theorem Spells.ne_zero (h : Spells name lower) (hl : Letters lower) : ∀ c ∈ name, c ≠ 0 := by
  intro c hc
  exact (classicLower_letter (h.letter hl c hc)).1.ne'

theorem cstr_of_ne_zero {s : WString} (h : ∀ c ∈ s, c ≠ 0) : WString.cstr s = s := by
  rw [WString.cstr, List.takeWhile_eq_self_iff]
  intro c hc
  simpa using h c hc

theorem Spells.makeUpper (hloc : loc.AsciiCase) (h : Spells name lower) (hl : Letters lower) :
    WString.makeUpper loc name = lower.map (· - 32) := by
  rw [WString.makeUpper, ← h, List.map_map]
  refine List.map_congr_left fun c hc => ?_
  have hc' := classicLower_letter (h.letter hl c hc)
  rw [(hloc c hc'.2.1).1, hc'.2.2.1]
  rfl

theorem Spells.makeLower (hloc : loc.AsciiCase) (h : Spells name lower) (hl : Letters lower) :
    WString.makeLower loc name = lower := by
  have hmap : name.map loc.toLower = lower := by
    rw [← h]
    refine List.map_congr_left fun c hc => ?_
    exact (hloc c (classicLower_letter (h.letter hl c hc)).2.1).2
  rw [WString.makeLower, hmap, cstr_of_ne_zero]
  intro c hc
  exact (lt_of_lt_of_le (by decide) (hl c hc).1).ne'

theorem Spells.upper (hloc : loc.AsciiCase) (h : Spells name lower) (hl : Letters lower) :
    Spells (WString.makeUpper loc name) lower := by
  rw [Spells, WString.makeUpper, List.map_map, ← h]
  refine List.map_congr_left fun c hc => ?_
  have hc' := classicLower_letter (h.letter hl c hc)
  rw [Function.comp_apply, (hloc c hc'.2.1).1, hc'.2.2.2]

theorem Spells.equalsNoCase_not (h : Spells name lower) (hl : Letters lower) :
    WString.equalsNoCase name (wide "NOT") = (lower == wide "not") := by
  rw [WString.equalsNoCase, cstr_of_ne_zero (h.ne_zero hl), h]
  rfl

/-- The characters of a sequence set have no case. -/
theorem sequenceSet_char {c : WChar}
    (h : ((48 ≤ c && c ≤ 57) || c == 58 || c == 44 || c == 42) = true) :
    0 < c ∧ c < 64 ∧ asciiUpper c = c ∧ WString.classicLower c = c := by
  have key : ∀ n : Nat, ((48 ≤ n ∧ n ≤ 57) ∨ n = 58) ∨ n = 44 ∨ n = 42 →
      0 < n ∧ n < 64 ∧ asciiUpper n = n ∧ (if 65 ≤ n ∧ n ≤ 90 then n + 32 else n) = n := by
    intro n hn
    unfold asciiUpper
    split_ifs <;> omega
  simp only [Bool.or_eq_true, Bool.and_eq_true, decide_eq_true_eq, beq_iff_eq, or_assoc] at h
  exact key c (by simpa only [or_assoc] using h)

theorem sequenceSet_case {s : WString} (hloc : loc.AsciiCase) (h : IMAPSearchParser.isSequenceSet s = true) :
    WString.makeUpper loc s = s ∧ WString.makeLower loc s = s ∧ s.map WString.classicLower = s ∧
      WString.cstr s = s := by
  have hchar := fun c hc => sequenceSet_char (List.all_eq_true.1 h c hc)
  have hz : WString.cstr s = s := cstr_of_ne_zero fun c hc => (hchar c hc).1.ne'
  have hlower : s.map loc.toLower = s := by
    conv_rhs => rw [← List.map_id s]
    refine List.map_congr_left fun c hc => ?_
    have := hchar c hc
    rw [(hloc c (this.2.1.trans (by decide))).2, this.2.2.2]
    rfl
  refine ⟨?_, by rw [WString.makeLower, hlower, hz], ?_, hz⟩
  · rw [WString.makeUpper]
    conv_rhs => rw [← List.map_id s]
    refine List.map_congr_left fun c hc => ?_
    have := hchar c hc
    rw [(hloc c (this.2.1.trans (by decide))).1, this.2.2.1]
    rfl
  · conv_rhs => rw [← List.map_id s]
    exact List.map_congr_left fun c hc => (hchar c hc).2.2.2

end spelling

end HMailServer
