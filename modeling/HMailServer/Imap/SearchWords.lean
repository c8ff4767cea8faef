import HMailServer.Imap.SearchMatch

/- The words a client writes in a SEARCH, and that the splitter reads them
   back: atoms, quoted strings and literals, one space apart. -/
namespace HMailServer

inductive SearchWord where
  | atom (s : WString)
  | quoted (s : WString)
  | literal (size data : WString)
  deriving DecidableEq, Repr

namespace SearchWord

/-- The text between the quotation marks of a quoted string. -/
def escape (s : WString) : WString := s.flatMap fun c => if c = 34 ∨ c = 92 then [92, c] else [c]

/-- What stands in the command. The data of a literal travels beside it. -/
def token : SearchWord → WString
  | .atom s => s
  | .quoted s => 34 :: escape s ++ [34]
  | .literal size _ => 123 :: size ++ [125]

/-- The string the client means. -/
def value : SearchWord → WString
  | .atom s => s
  | .quoted s => s
  | .literal _ data => data

def literals : SearchWord → List WString
  | .literal _ data => [data]
  | _ => []

/-- An atom has none of the characters that would end it or make it another
    kind of word; the size of a literal is a number, perhaps with a plus. -/
def WellFormed : SearchWord → Prop
  | .atom s => s ≠ [] ∧ ∀ c ∈ s, c ≠ 32 ∧ c ≠ 34 ∧ c ≠ 40 ∧ c ≠ 41 ∧ c ≠ 123
  | .quoted _ => True
  | .literal size _ => ∀ c ∈ size, (48 ≤ c ∧ c ≤ 57) ∨ c = 43

/-- No word is a literal of length zero. -/
def Filled : SearchWord → Prop
  | .literal _ data => data ≠ []
  | _ => True

def joinTokens : List SearchWord → WString
  | [] => []
  | [w] => w.token
  | w :: v :: ws => w.token ++ 32 :: joinTokens (v :: ws)

def allLiterals (ws : List SearchWord) : List WString := ws.flatMap literals

theorem joinTokens_cons (w : SearchWord) {ws : List SearchWord} (h : ws ≠ []) :
    joinTokens (w :: ws) = w.token ++ 32 :: joinTokens ws := by
  cases ws with
  | nil => exact absurd rfl h
  | cons v ws => rfl

theorem joinTokens_append {a b : List SearchWord} (ha : a ≠ []) (hb : b ≠ []) :
    joinTokens (a ++ b) = joinTokens a ++ 32 :: joinTokens b := by
  induction a with
  | nil => exact absurd rfl ha
  | cons w ws ih =>
    by_cases hw : ws = []
    · subst hw
      rw [List.singleton_append, joinTokens_cons w hb]
      rfl
    · rw [List.cons_append, joinTokens_cons w (by simp [hw]), ih hw, joinTokens_cons w hw]
      simp

/-! ## Quoted strings -/

theorem escape_cons (c : WChar) (s : WString) :
    escape (c :: s) = (if c = 34 ∨ c = 92 then [92, c] else [c]) ++ escape s := rfl

theorem findEndOfQuotedString_escape (s r : WString) :
    IMAPSimpleCommandParser.findEndOfQuotedString (escape s ++ 34 :: r) = (escape s, r) := by
  induction s with
  | nil => simp [escape, IMAPSimpleCommandParser.findEndOfQuotedString]
  | cons c s ih =>
    rw [escape_cons]
    by_cases hc : c = 34 ∨ c = 92
    · rw [if_pos hc]
      simp [IMAPSimpleCommandParser.findEndOfQuotedString, ih]
    · rw [if_neg hc]
      simp only [not_or] at hc
      rw [List.singleton_append, List.cons_append,
        IMAPSimpleCommandParser.findEndOfQuotedString, ih]
      · intro h _
        exact hc.2 h
      · intro c' s' h _
        exact hc.2 h
      · exact hc.1

theorem replacePair_cons_ne {a b r x : WChar} (h : x ≠ a) (s : WString) :
    WString.replacePair a b r (x :: s) = x :: WString.replacePair a b r s := by
  cases s with
  | nil => simp [WString.replacePair]
  | cons y s => simp [WString.replacePair, h]

theorem replacePair_cons_head_ne {a b r x : WChar} {s : WString} (h : s.head? ≠ some b) :
    WString.replacePair a b r (x :: s) = x :: WString.replacePair a b r s := by
  cases s with
  | nil => simp [WString.replacePair]
  | cons y s =>
    have hy : y ≠ b := fun e => h (by simp [e])
    simp [WString.replacePair, hy]

theorem escape_head_ne_quote (s : WString) : (escape s).head? ≠ some 34 := by
  cases s with
  | nil => simp [escape]
  | cons c s =>
    rw [escape_cons]
    by_cases hc : c = 34 ∨ c = 92
    · simp [hc]
    · rw [if_neg hc]
      simp only [not_or] at hc
      simp [hc.1]

/-- The first `Replace` takes the escape off every quotation mark and leaves
    the doubled backslashes. -/
theorem replacePair_quote_escape (s : WString) :
    WString.replacePair 92 34 34 (escape s) = s.flatMap fun c => if c = 92 then [92, 92] else [c] := by
  induction s with
  | nil => rfl
  | cons c s ih =>
    rw [escape_cons, List.flatMap_cons, ← ih]
    by_cases h34 : c = 34
    · subst h34
      simp [WString.replacePair]
    · by_cases h92 : c = 92
      · subst h92
        have h : WString.replacePair 92 34 34 (92 :: escape s) = 92 :: WString.replacePair 92 34 34 (escape s) :=
          replacePair_cons_head_ne (escape_head_ne_quote s)
        simp [WString.replacePair, h]
      · simp [h34, h92, replacePair_cons_ne h92]

theorem unescapeFolderString_escape (s : WString) :
    IMAPSimpleCommandParser.unescapeFolderString (escape s) = s := by
  rw [IMAPSimpleCommandParser.unescapeFolderString, replacePair_quote_escape]
  induction s with
  | nil => rfl
  | cons c s ih =>
    rw [List.flatMap_cons]
    by_cases h92 : c = 92
    · subst h92
      simp only [if_true, List.cons_append, List.nil_append, WString.replacePair, and_self]
      rw [ih]
    · rw [if_neg h92, List.singleton_append, replacePair_cons_ne h92, ih]

/-! ## One word, then all of them -/

/-- The word as the splitter stores it. -/
def simple : SearchWord → IMAPSimpleWord
  | .atom s => { word := s }
  | .quoted s => { word := s, isQuoted := true }
  | .literal size data => { word := size, isClammerized := true, literalData := data }

/-- What may stand behind a word: the end of the command, or a space. -/
def Ended (r : WString) : Prop := r = [] ∨ ∃ t, r = 32 :: t

theorem takeWhile_ended {s r : WString} (hs : ∀ c ∈ s, c ≠ 32) (hr : Ended r) :
    (s ++ r).takeWhile (· ≠ 32) = s ∧ (s ++ r).dropWhile (· ≠ 32) = r := by
  have hp : ∀ c ∈ s, (decide (c ≠ 32)) = true := by simpa using hs
  rw [List.takeWhile_append_of_pos hp, List.dropWhile_append_of_pos hp]
  rcases hr with rfl | ⟨t, rfl⟩ <;> simp

theorem takeWhile_brace {size : WString} (hs : ∀ c ∈ size, (48 ≤ c ∧ c ≤ 57) ∨ c = 43) (r : WString) :
    (size ++ 125 :: r).takeWhile (· ≠ 125) = size ∧ (size ++ 125 :: r).dropWhile (· ≠ 125) = 125 :: r := by
  have hp : ∀ c ∈ size, (decide (c ≠ 125)) = true := by
    intro c hc
    rw [decide_eq_true_eq]
    intro he
    subst he
    exact absurd (hs 125 hc) (by decide)
  rw [List.takeWhile_append_of_pos hp, List.dropWhile_append_of_pos hp]
  simp

theorem parseLoop_word (n : Nat) (w : SearchWord) (hw : w.WellFormed) (r : WString) (hr : Ended r)
    (ls : List WString) :
    IMAPSimpleCommandParser.parseLoop (n + 1) (w.token ++ r) (w.literals ++ ls) =
      w.simple :: IMAPSimpleCommandParser.parseLoop n (r.drop 1) ls := by
  cases w with
  | atom s =>
    obtain ⟨hne, hs⟩ := hw
    obtain ⟨c, t, rfl⟩ := List.exists_cons_of_ne_nil hne
    have hc := hs c (by simp)
    have htw := takeWhile_ended (fun c hc => (hs c hc).1) hr
    simp only [token, literals, List.nil_append, List.cons_append, IMAPSimpleCommandParser.parseLoop,
      if_neg hc.2.1, if_neg hc.2.2.1, if_neg hc.2.2.2.2, simple]
    rw [← List.cons_append, htw.1, htw.2]
  | quoted s =>
    simp [token, literals, IMAPSimpleCommandParser.parseLoop, findEndOfQuotedString_escape,
      unescapeFolderString_escape, simple]
  | literal size data =>
    have htw := takeWhile_brace hw r
    have hmem : 125 ∈ size ++ 125 :: r := by simp
    simp only [token, literals, List.cons_append, List.append_assoc, List.nil_append,
      IMAPSimpleCommandParser.parseLoop]
    rw [if_neg (by decide), if_neg (by decide), if_pos trivial, if_pos hmem, htw.1, htw.2]
    simp [simple]

theorem token_ne_nil {w : SearchWord} (hw : w.WellFormed) : w.token ≠ [] := by
  cases w with
  | atom s => exact hw.1
  | quoted s => simp [token]
  | literal size data => simp [token]

theorem parseLoop_joinTokens (ws : List SearchWord) (hws : ∀ w ∈ ws, w.WellFormed) (n : Nat)
    (hn : (joinTokens ws).length ≤ n) (ls : List WString) :
    IMAPSimpleCommandParser.parseLoop n (joinTokens ws) (allLiterals ws ++ ls) = ws.map simple := by
  induction ws generalizing n with
  | nil => cases n <;> rfl
  | cons w ws ih =>
    have hw := hws w (by simp)
    have htok : 0 < w.token.length := List.length_pos_iff.2 (token_ne_nil hw)
    by_cases hnil : ws = []
    · subst hnil
      obtain ⟨m, rfl⟩ : ∃ m, n = m + 1 := ⟨n - 1, by simp only [joinTokens] at hn; omega⟩
      have h := parseLoop_word m w hw [] (.inl rfl) ls
      rw [List.append_nil] at h
      simp only [joinTokens, allLiterals, List.flatMap_cons, List.flatMap_nil, List.append_nil, h]
      cases m <;> rfl
    · rw [joinTokens_cons w hnil] at hn ⊢
      simp only [List.length_append, List.length_cons] at hn
      obtain ⟨m, rfl⟩ : ∃ m, n = m + 1 := ⟨n - 1, by omega⟩
      have h := parseLoop_word m w hw (32 :: joinTokens ws) (.inr ⟨_, rfl⟩) (allLiterals ws ++ ls)
      simp only [allLiterals, List.flatMap_cons, List.append_assoc] at h ⊢
      rw [h]
      simp only [List.drop_succ_cons, List.drop_zero, List.map_cons]
      rw [← allLiterals, ih (fun v hv => hws v (by simp [hv])) m (by omega)]

/-- After `UnliteralData` a word is what the client means by it. -/
theorem unliteralData_simple {ws : List SearchWord} (h : ∀ w ∈ ws, w.Filled) :
    (IMAPSimpleCommandParser.unliteralData (ws.map simple)).map (·.word) = ws.map value := by
  simp only [IMAPSimpleCommandParser.unliteralData, List.map_map]
  refine List.map_congr_left fun w hw => ?_
  have hf := h w hw
  cases w with
  | atom s => simp [simple, value]
  | quoted s => simp [simple, value]
  | literal size data => simp [simple, value, show data ≠ [] from hf]

/-! ## Parentheses -/

/-- A stripped command is valid whatever it was: what is left stands inside
    quotation marks. -/
theorem openParanthesis_strip (s : WString) (inside : Bool) (n : Int) :
    IMAPSimpleCommandParser.openParanthesis inside n (IMAPSearchParser.stripParentheses inside s) = n := by
  induction s generalizing inside with
  | nil => rfl
  | cons c s ih =>
    by_cases h34 : c = 34
    · simp [IMAPSearchParser.stripParentheses, IMAPSimpleCommandParser.openParanthesis, h34, ih]
    · by_cases hp : c = 40 ∨ c = 41
      · cases inside with
        | false => simp [IMAPSearchParser.stripParentheses, h34, hp, ih]
        | true => rcases hp with rfl | rfl <;>
            simp [IMAPSearchParser.stripParentheses, IMAPSimpleCommandParser.openParanthesis, ih]
      · have h := not_or.1 hp
        simp [IMAPSearchParser.stripParentheses, IMAPSimpleCommandParser.openParanthesis, h34, h.1, h.2, ih]

/-- A command with the parentheses of its lists marked. -/
abbrev Marked := List (WChar × Bool)

def plain (s : WString) : Marked := s.map (·, false)

def text (m : Marked) : WString := m.map (·.1)

/-- The command without the parentheses of its lists. -/
def unlisted (m : Marked) : WString := text (m.filter fun x => !x.2)

/-- Counting quotation marks tells the parentheses of a list, which stand where
    the count is even, from those in a quoted string. -/
def CountedRight : Bool → Marked → Prop
  | _, [] => True
  | inside, (c, b) :: m =>
    (c = 40 ∨ c = 41 → b = !inside) ∧ CountedRight (if c = 34 then !inside else inside) m

instance decidableCountedRight : (inside : Bool) → (m : Marked) → Decidable (CountedRight inside m)
  | _, [] => .isTrue trivial
  | inside, (c, b) :: m =>
    have := decidableCountedRight (if c = 34 then !inside else inside) m
    inferInstanceAs (Decidable ((c = 40 ∨ c = 41 → b = !inside) ∧ _))

/-- Only parentheses are marked. -/
def MarksParentheses (m : Marked) : Prop := ∀ x ∈ m, x.2 = true → x.1 = 40 ∨ x.1 = 41

theorem stripParentheses_text {m : Marked} {inside : Bool} (hm : MarksParentheses m)
    (h : CountedRight inside m) : IMAPSearchParser.stripParentheses inside (text m) = unlisted m := by
  induction m generalizing inside with
  | nil => rfl
  | cons x m ih =>
    obtain ⟨c, b⟩ := x
    obtain ⟨hc, hrest⟩ := h
    have htail : MarksParentheses m := fun x hx => hm x (by simp [hx])
    have hrec := ih htail hrest
    by_cases h34 : c = 34
    · subst h34
      have hb : b = false := by
        cases b with
        | false => rfl
        | true => simpa using hm (34, true) (by simp) rfl
      subst hb
      simpa [text, unlisted, IMAPSearchParser.stripParentheses] using hrec
    · rw [if_neg h34] at hrec
      by_cases hp : c = 40 ∨ c = 41
      · have hb := hc hp
        subst hb
        cases inside <;> simpa [text, unlisted, IMAPSearchParser.stripParentheses, h34, hp] using hrec
      · have hb : b = false := by
          cases b with
          | false => rfl
          | true => exact absurd (hm (c, true) (by simp) rfl) hp
        subst hb
        simpa [text, unlisted, IMAPSearchParser.stripParentheses, h34, hp] using hrec

/-- The splitter on a command whose words stand as the client wrote them. -/
theorem parse_unlisted {m : Marked} {ws : List SearchWord} (hm : MarksParentheses m)
    (hc : CountedRight false m) (hu : unlisted m = joinTokens ws) (hws : ∀ w ∈ ws, w.WellFormed)
    (hf : ∀ w ∈ ws, w.Filled) :
    (IMAPSimpleCommandParser.unliteralData (IMAPSimpleCommandParser.parse
      (IMAPSearchParser.stripParentheses false (text m)) (allLiterals ws))).map (·.word) = ws.map value := by
  have hvalid : IMAPSimpleCommandParser.validate (IMAPSearchParser.stripParentheses false (text m)) = true := by
    rw [IMAPSimpleCommandParser.validate, openParanthesis_strip]
    rfl
  have hloop := parseLoop_joinTokens ws hws (joinTokens ws).length le_rfl []
  rw [List.append_nil] at hloop
  rw [IMAPSimpleCommandParser.parse, if_pos hvalid, stripParentheses_text hm hc, hu, hloop,
    unliteralData_simple hf]

end SearchWord
end HMailServer
