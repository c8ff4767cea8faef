import HMailServer.Imap.SearchWords

/- The arguments a client writes behind the name of a command, and what the
   splitter makes of them (`IMAP/IMAPSimpleCommandParser.cpp`). Two of its scans
   count quotation marks without a look at the backslash in front, and literals
   are dealt out in the order of the words on the top level; the arguments it
   reads as written are those where neither matters. -/
namespace HMailServer
open IMAPSimpleCommandParser

/-- `IMAPFolder::EscapeFolderString`. -/
def IMAPSimpleCommandParser.escapeFolderString : WString → WString
  | [] => []
  | c :: s => if c = 34 ∨ c = 92 then 92 :: c :: escapeFolderString s else c :: escapeFolderString s

theorem escapeFolderString_eq (s : WString) : escapeFolderString s = SearchWord.escape s := by
  induction s with
  | nil => rfl
  | cons c s ih =>
    rw [escapeFolderString, SearchWord.escape_cons, ih]
    split <;> rfl

/-! ## The words -/

/-- No space, quotation mark, parenthesis or brace. -/
structure ArgumentAtom where
  text : WString
  nonempty : text ≠ []
  plain : ∀ c ∈ text, c ∉ ([32, 34, 40, 41, 123, 125] : WString)

/-- The number of octets between the braces of a literal, perhaps with a plus. -/
structure LiteralSize where
  text : WString
  nonempty : text ≠ []
  digits : ∀ c ∈ text, (48 ≤ c ∧ c ≤ 57) ∨ c = 43

inductive ArgumentWord where
  | atom (a : ArgumentAtom)
  | quoted (s : WString)
  | literal (size : LiteralSize) (data : WString)
  | list (items : List ArgumentWord)

namespace ArgumentWord

mutual

/-- What stands in the command. -/
def token : ArgumentWord → WString
  | .atom a => a.text
  | .quoted s => 34 :: SearchWord.escape s ++ [34]
  | .literal size _ => 123 :: size.text ++ [125]
  | .list items => 40 :: tokens items ++ [41]

/-- Words, one space apart. -/
def tokens : List ArgumentWord → WString
  | [] => []
  | [w] => token w
  | w :: v :: ws => token w ++ 32 :: tokens (v :: ws)

end

mutual

/-- The data of the literals, in the order they are sent. -/
def literals : ArgumentWord → List WString
  | .literal _ data => [data]
  | .list items => allLiterals items
  | _ => []

def allLiterals : List ArgumentWord → List WString
  | [] => []
  | w :: ws => literals w ++ allLiterals ws

end

/-- What the client means, and the kind of word it is: quoted, in parentheses or
    a literal. -/
def meaning : ArgumentWord → WString × Bool × Bool × Bool
  | .atom a => (a.text, false, false, false)
  | .quoted s => (s, true, false, false)
  | .literal _ data => (data, false, false, true)
  | .list items => (tokens items, false, true, false)

/-- A word as the handler of a command finds it. -/
def found (w : IMAPSimpleWord) : WString × Bool × Bool × Bool :=
  (w.word, w.isQuoted, w.isParanthezied, w.isClammerized)

/-- The words of the command, read in. -/
def readWords (name : ArgumentAtom) (words : List ArgumentWord) : List IMAPSimpleWord :=
  unliteralData (parse (tokens (.atom name :: words)) (allLiterals (.atom name :: words)))

/-! ## Where the scans agree -/

/-- The text behind an even number of quotation marks; `inside` is that their
    number is odd so far. -/
def outside : Bool → WString → WString
  | _, [] => []
  | inside, c :: s =>
    if c = 34 then outside (!inside) s else if inside then outside inside s else c :: outside inside s

/-- The parentheses that are opened and not closed, those behind an odd number
    of quotation marks left aside. -/
def depth (inside : Bool) (s : WString) : Int := (outside inside s).count 40 - (outside inside s).count 41

/-- A text in parentheses that ends at its own parenthesis. -/
structure ClosedBehind (s : WString) : Prop where
  quotes : s.count 34 % 2 = 0
  opened : ∀ p, p <+: s → 0 ≤ depth false p
  closed : depth false s = 0

/-- The literals on the top level, with the size in front. -/
def topLiterals : List ArgumentWord → List (LiteralSize × WString)
  | [] => []
  | .literal size data :: ws => (size, data) :: topLiterals ws
  | _ :: ws => topLiterals ws

/-- Literal data that stands for its token, unless it is empty. -/
def DealtOut (size : LiteralSize) (data dealt : WString) : Prop :=
  if dealt = [] then size.text = data else dealt = data

/-- Lists that end at their own parenthesis, and literals that are dealt out to
    their own words: the k-th on the top level gets the k-th of `dealt`. -/
structure Found (words : List ArgumentWord) (dealt : List WString) : Prop where
  lists : ∀ items, .list items ∈ words → ClosedBehind (tokens items)
  literals : ∀ (k : Nat) (size : LiteralSize) (data : WString), (topLiterals words)[k]? = some (size, data) →
    DealtOut size data (dealt[k]?.getD [])

/-- The arguments that the splitter reads as they are written. The literals are
    dealt out in the order they were sent, those inside a list included. -/
structure ReadAsWritten (words : List ArgumentWord) : Prop extends Found words (allLiterals words) where
  balanced : depth false (tokens words) = 0

theorem tokens_cons (w : ArgumentWord) {ws : List ArgumentWord} (h : ws ≠ []) :
    tokens (w :: ws) = token w ++ 32 :: tokens ws := by
  cases ws with
  | nil => exact absurd rfl h
  | cons v ws => rw [tokens]

theorem tokens_singleton (w : ArgumentWord) : tokens [w] = token w := by
  rw [tokens]

theorem token_ne_nil (w : ArgumentWord) : token w ≠ [] := by
  cases w with
  | atom a =>
    rw [token]
    exact a.nonempty
  | quoted s => simp [token]
  | literal size data => simp [token]
  | list items => simp [token]

/-! ## The count of the parentheses -/

theorem depth_nil (inside : Bool) : depth inside [] = 0 := rfl

theorem depth_quote (inside : Bool) (s : WString) : depth inside (34 :: s) = depth (!inside) s := rfl

theorem depth_inside {c : WChar} (h : c ≠ 34) (s : WString) : depth true (c :: s) = depth true s := by
  rw [depth, outside, if_neg h, if_pos rfl, depth]

theorem depth_open (s : WString) : depth false (40 :: s) = depth false s + 1 := by
  have houtside : outside false (40 :: s) = 40 :: outside false s := rfl
  rw [depth, houtside, List.count_cons_self, List.count_cons_of_ne (by decide), depth]
  omega

theorem depth_close (s : WString) : depth false (41 :: s) = depth false s - 1 := by
  have houtside : outside false (41 :: s) = 41 :: outside false s := rfl
  rw [depth, houtside, List.count_cons_self, List.count_cons_of_ne (by decide), depth]
  omega

theorem depth_other {c : WChar} (hquote : c ≠ 34) (hopen : c ≠ 40) (hclose : c ≠ 41) (s : WString) :
    depth false (c :: s) = depth false s := by
  have houtside : outside false (c :: s) = c :: outside false s := by
    rw [outside, if_neg hquote, if_neg Bool.false_ne_true]
  rw [depth, houtside, List.count_cons_of_ne hopen, List.count_cons_of_ne hclose, depth]

/-- `Validate_` counts them, too. -/
theorem openParanthesis_eq (inside : Bool) (n : Int) (s : WString) :
    openParanthesis inside n s = n + depth inside s := by
  induction s generalizing inside n with
  | nil => simp [openParanthesis, depth_nil]
  | cons c s ih =>
    rw [openParanthesis]
    by_cases hquote : c = 34
    · rw [if_pos hquote, ih, hquote, depth_quote]
    · rw [if_neg hquote]
      cases inside with
      | true => simp [ih, depth_inside hquote]
      | false =>
        by_cases hopen : c = 40
        · rw [if_pos hopen, ih, hopen, depth_open, if_neg Bool.false_ne_true]
          omega
        · rw [if_neg hopen]
          by_cases hclose : c = 41
          · rw [if_pos hclose, ih, hclose, depth_close, if_neg Bool.false_ne_true]
            omega
          · rw [if_neg hclose, ih, depth_other hquote hopen hclose]

theorem validate_iff (s : WString) : validate s = true ↔ depth false s = 0 := by
  rw [validate, openParanthesis_eq, beq_iff_eq, Int.zero_add]

/-! ## The end of a list -/

/-- The scan for the closing parenthesis, over a text that it is to leave at the
    next parenthesis: `inString` and `nestDeep` are those of the scan. -/
structure LeftOpen (inString : Bool) (nestDeep : Nat) (s : WString) : Prop where
  quotes : (s.count 34 + inString.toNat) % 2 = 0
  opened : ∀ p, p <+: s → 1 ≤ nestDeep + depth inString p
  closed : nestDeep + depth inString s = 1

theorem leftOpen_nil (inString : Bool) (nestDeep : Nat) :
    LeftOpen inString nestDeep [] ↔ inString = false ∧ nestDeep = 1 := by
  constructor
  · intro h
    have hquotes := h.quotes
    have hclosed := h.closed
    rw [depth_nil] at hclosed
    cases inString with
    | false => exact ⟨rfl, by omega⟩
    | true => simp at hquotes
  · intro h
    obtain ⟨hstring, hnest⟩ := h
    subst hstring hnest
    refine ⟨rfl, fun p hp => ?_, rfl⟩
    rw [List.prefix_nil.1 hp, depth_nil]
    rfl

/-- A character that changes the state of the scan and the two counts alike. -/
theorem leftOpen_cons {c : WChar} {inString : Bool} {nestDeep : Nat} {s : WString} (inString' : Bool) (nestDeep' : Nat)
    (hnest : 1 ≤ nestDeep)
    (hquotes : ((c :: s).count 34 + inString.toNat) % 2 = (s.count 34 + inString'.toNat) % 2)
    (hdepth : ∀ p, (nestDeep : Int) + depth inString (c :: p) = nestDeep' + depth inString' p) :
    LeftOpen inString nestDeep (c :: s) ↔ LeftOpen inString' nestDeep' s := by
  constructor
  · intro h
    refine ⟨by rw [← hquotes]; exact h.quotes, fun p hp => ?_, by rw [← hdepth]; exact h.closed⟩
    rw [← hdepth]
    exact h.opened _ (List.cons_prefix_cons.2 ⟨rfl, hp⟩)
  · intro h
    refine ⟨by rw [hquotes]; exact h.quotes, fun p hp => ?_, by rw [hdepth]; exact h.closed⟩
    rcases List.prefix_cons_iff.1 hp with rfl | ⟨q, rfl, hq⟩
    · rw [depth_nil]
      omega
    · rw [hdepth]
      exact h.opened q hq

/-- The scan leaves the text at the parenthesis behind it, or what it has read
    is another text. -/
theorem findEndParenthesis_iff {inString : Bool} {nestDeep : Nat} (hnest : 1 ≤ nestDeep) (s r : WString) :
    (findEndParenthesis inString nestDeep (s ++ 41 :: r)).1 = s ↔ LeftOpen inString nestDeep s := by
  induction s generalizing inString nestDeep with
  | nil =>
    rw [leftOpen_nil, List.nil_append, findEndParenthesis]
    cases inString with
    | true => simp
    | false =>
      by_cases hone : nestDeep = 1
      · simp [hone]
      · simp [hone]
  | cons c s ih =>
    rw [List.cons_append, findEndParenthesis]
    by_cases hquote : c = 34
    · subst hquote
      rw [leftOpen_cons (!inString) nestDeep hnest, ← ih hnest]
      · simp
      · cases inString with
        | false => simp
        | true =>
          simp
          omega
      · intro p
        rw [depth_quote]
    · have hcount : (c :: s).count 34 = s.count 34 := List.count_cons_of_ne hquote
      rw [if_neg hquote]
      cases inString with
      | true =>
        rw [leftOpen_cons true nestDeep hnest, ← ih hnest]
        · simp
        · rw [hcount]
        · intro p
          rw [depth_inside hquote]
      | false =>
        rw [if_neg Bool.false_ne_true]
        by_cases hopen : c = 40
        · subst hopen
          rw [leftOpen_cons false (nestDeep + 1) hnest, ← ih (Nat.le_add_left 1 nestDeep)]
          · simp
          · rw [hcount]
          · intro p
            rw [depth_open]
            omega
        · rw [if_neg hopen]
          by_cases hclose : c = 41
          · subst hclose
            rw [if_pos rfl]
            by_cases hone : nestDeep = 1
            · subst hone
              rw [if_pos rfl]
              refine iff_of_false (by simp) fun h => ?_
              have hfirst := h.opened [41] (List.cons_prefix_cons.2 ⟨rfl, List.nil_prefix⟩)
              rw [depth_close, depth_nil] at hfirst
              omega
            · rw [if_neg hone]
              rw [leftOpen_cons false (nestDeep - 1) hnest, ← ih (by omega)]
              · simp
              · rw [hcount]
              · intro p
                rw [depth_close]
                omega
          · rw [if_neg hclose]
            rw [leftOpen_cons false nestDeep hnest, ← ih hnest]
            · simp
            · rw [hcount]
            · intro p
              rw [depth_other hquote hopen hclose]

theorem findEndParenthesis_split (inString : Bool) (nestDeep : Nat) (t : WString) :
    (findEndParenthesis inString nestDeep t).1 ++ 41 :: (findEndParenthesis inString nestDeep t).2 = t ∨
      findEndParenthesis inString nestDeep t = (t, []) := by
  induction t generalizing inString nestDeep with
  | nil => exact .inr rfl
  | cons c t ih =>
    have hmore (b : Bool) (n : Nat) :
        (c :: (findEndParenthesis b n t).1) ++ 41 :: (findEndParenthesis b n t).2 = c :: t ∨
          (c :: (findEndParenthesis b n t).1, (findEndParenthesis b n t).2) = (c :: t, []) := by
      rcases ih b n with h | h
      · exact .inl (by rw [List.cons_append, h])
      · exact .inr (by rw [h])
    rw [findEndParenthesis]
    dsimp only
    split_ifs with hquote hstring hopen hclose hone
    · exact hmore _ _
    · exact hmore _ _
    · exact hmore _ _
    · exact .inl (by rw [hclose]; rfl)
    · exact hmore _ _
    · exact hmore _ _

/-- A list that is read as it is written, and what the scan leaves behind it. -/
theorem findEndParenthesis_eq {s : WString} (r : WString) (h : ClosedBehind s) :
    findEndParenthesis false 1 (s ++ 41 :: r) = (s, r) := by
  have hopen : LeftOpen false 1 s := by
    refine ⟨by simpa using h.quotes, fun p hp => ?_, by rw [h.closed]; rfl⟩
    have hp := h.opened p hp
    push_cast
    omega
  have hfirst := (findEndParenthesis_iff le_rfl s r).2 hopen
  rcases findEndParenthesis_split false 1 (s ++ 41 :: r) with hsplit | hall
  · rw [hfirst, List.append_cancel_left_eq, List.cons.injEq] at hsplit
    exact Prod.ext hfirst hsplit.2
  · rw [hall] at hfirst
    simp at hfirst

theorem closedBehind_of_findEnd {s r : WString} (h : (findEndParenthesis false 1 (s ++ 41 :: r)).1 = s) :
    ClosedBehind s := by
  have hopen := (findEndParenthesis_iff le_rfl s r).1 h
  refine ⟨by simpa using hopen.quotes, fun p hp => ?_, ?_⟩
  · have hp := hopen.opened p hp
    push_cast at hp
    omega
  · have hclosed := hopen.closed
    push_cast at hclosed
    omega

/-! ## The words, one at a time -/

variable {r : WString} (hr : SearchWord.Ended r) (n : Nat) (dealt : List WString)

include hr in
theorem parseLoop_atom (a : ArgumentAtom) :
    parseLoop (n + 1) (token (.atom a) ++ r) dealt = { word := a.text } :: parseLoop n (r.drop 1) dealt := by
  have hchar (c : WChar) (hc : c ∈ a.text) : c ≠ 32 ∧ c ≠ 34 ∧ c ≠ 40 ∧ c ≠ 123 := by
    have hplain := a.plain c hc
    simp only [List.mem_cons, not_or] at hplain
    exact ⟨hplain.1, hplain.2.1, hplain.2.2.1, hplain.2.2.2.2.1⟩
  obtain ⟨htake, hdrop⟩ := SearchWord.takeWhile_ended (fun c hc => (hchar c hc).1) hr
  obtain ⟨c, s, hs⟩ := List.exists_cons_of_ne_nil a.nonempty
  obtain ⟨-, hquote, hopen, hbrace⟩ := hchar c (by rw [hs]; exact List.mem_cons_self)
  rw [hs, List.cons_append] at htake hdrop
  rw [token, hs, List.cons_append, parseLoop, if_neg hquote, if_neg hopen, if_neg hbrace, htake, hdrop]

theorem parseLoop_quoted (s : WString) :
    parseLoop (n + 1) (token (.quoted s) ++ r) dealt =
      { word := s, isQuoted := true } :: parseLoop n (r.drop 1) dealt := by
  have htoken : token (.quoted s) ++ r = 34 :: (SearchWord.escape s ++ 34 :: r) := by
    simp [token]
  rw [htoken, parseLoop, if_pos rfl, SearchWord.findEndOfQuotedString_escape]
  dsimp only
  rw [SearchWord.unescapeFolderString_escape]

theorem parseLoop_literal (size : LiteralSize) (data : WString) :
    parseLoop (n + 1) (token (.literal size data) ++ r) dealt =
      { word := size.text, isClammerized := true, literalData := dealt.headD [] } ::
        parseLoop n (r.drop 1) dealt.tail := by
  obtain ⟨htake, hdrop⟩ := SearchWord.takeWhile_brace size.digits r
  have htoken : token (.literal size data) ++ r = 123 :: (size.text ++ 125 :: r) := by
    simp [token]
  have hclosed : 125 ∈ size.text ++ 125 :: r := List.mem_append_right _ List.mem_cons_self
  rw [htoken, parseLoop, if_neg (by decide), if_neg (by decide), if_pos rfl, if_pos hclosed, htake, hdrop]
  rfl

theorem parseLoop_list (items : List ArgumentWord) :
    parseLoop (n + 1) (token (.list items) ++ r) dealt =
      { word := (findEndParenthesis false 1 (tokens items ++ 41 :: r)).1, isParanthezied := true } ::
        parseLoop n ((findEndParenthesis false 1 (tokens items ++ 41 :: r)).2.drop 1) dealt := by
  have htoken : token (.list items) ++ r = 40 :: (tokens items ++ 41 :: r) := by
    simp [token]
  rw [htoken, parseLoop, if_neg (by decide), if_pos rfl]

/-- The words the parser has found, as the handlers find them. -/
def foundWords (ws : List IMAPSimpleWord) : List (WString × Bool × Bool × Bool) := (unliteralData ws).map found

theorem foundWords_cons (w : IMAPSimpleWord) (ws : List IMAPSimpleWord) :
    foundWords (w :: ws) =
      found (if w.isClammerized ∧ w.literalData ≠ [] then { w with word := w.literalData } else w) :: foundWords ws := rfl

theorem found_nil (dealt : List WString) : Found [] dealt where
  lists := by simp
  literals := by simp [topLiterals]

theorem found_plain_cons {w : ArgumentWord} {words : List ArgumentWord} (dealt : List WString)
    (hlist : ∀ items, w ≠ .list items) (hliteral : topLiterals (w :: words) = topLiterals words) :
    Found (w :: words) dealt ↔ Found words dealt := by
  constructor
  · intro h
    refine ⟨fun items hitems => h.lists items (List.mem_cons_of_mem _ hitems), ?_⟩
    rw [← hliteral]
    exact h.literals
  · intro h
    refine ⟨fun items hitems => ?_, ?_⟩
    · rcases List.mem_cons.1 hitems with heq | hmem
      · exact absurd heq.symm (hlist items)
      · exact h.lists items hmem
    · rw [hliteral]
      exact h.literals

theorem found_list_cons (items words : List ArgumentWord) (dealt : List WString) :
    Found (.list items :: words) dealt ↔ ClosedBehind (tokens items) ∧ Found words dealt := by
  constructor
  · intro h
    exact ⟨h.lists items List.mem_cons_self, fun other hother => h.lists other (List.mem_cons_of_mem _ hother),
      h.literals⟩
  · intro h
    refine ⟨fun other hother => ?_, h.2.literals⟩
    rcases List.mem_cons.1 hother with heq | hmem
    · cases heq
      exact h.1
    · exact h.2.lists other hmem

theorem found_literal_cons (size : LiteralSize) (data : WString) (words : List ArgumentWord) (dealt : List WString) :
    Found (.literal size data :: words) dealt ↔ DealtOut size data (dealt.headD []) ∧ Found words dealt.tail := by
  have hlater (k : Nat) : dealt.tail[k]? = dealt[k + 1]? := by
    cases dealt <;> rfl
  have hfirst : dealt[0]?.getD [] = dealt.headD [] := by
    cases dealt <;> rfl
  constructor
  · intro h
    refine ⟨?_, fun items hitems => h.lists items (List.mem_cons_of_mem _ hitems), fun k size' data' hk => ?_⟩
    · rw [← hfirst]
      exact h.literals 0 size data rfl
    · rw [hlater]
      exact h.literals (k + 1) size' data' hk
  · intro h
    refine ⟨fun items hitems => ?_, fun k size' data' hk => ?_⟩
    · rcases List.mem_cons.1 hitems with heq | hmem
      · cases heq
      · exact h.2.lists items hmem
    · cases k with
      | zero =>
        cases hk
        rw [hfirst]
        exact h.1
      | succ k =>
        rw [← hlater]
        exact h.2.literals k size' data' hk

/-- The loop behind one word, which ends at the space or at the end. -/
theorem found_word_iff (w : ArgumentWord) (words : List ArgumentWord) {r : WString} (hr : SearchWord.Ended r) (n : Nat)
    (dealt : List WString)
    (hrest : ∀ left, foundWords (parseLoop n (r.drop 1) left) = words.map meaning ↔ Found words left) :
    foundWords (parseLoop (n + 1) (token w ++ r) dealt) = meaning w :: words.map meaning ↔
      Found (w :: words) dealt := by
  cases w with
  | atom a =>
    rw [parseLoop_atom hr, foundWords_cons, found_plain_cons dealt (fun _ => by simp) rfl, ← hrest]
    simp [found, meaning]
  | quoted s =>
    rw [parseLoop_quoted, foundWords_cons, found_plain_cons dealt (fun _ => by simp) rfl, ← hrest]
    simp [found, meaning]
  | literal size data =>
    rw [parseLoop_literal, foundWords_cons, found_literal_cons, ← hrest, List.cons.injEq, DealtOut]
    refine and_congr_left fun _ => ?_
    generalize dealt.headD [] = data'
    by_cases hempty : data' = []
    · simp [hempty, found, meaning]
    · simp [hempty, found, meaning]
  | list items =>
    rw [parseLoop_list, foundWords_cons, found_list_cons]
    have hword (t : WString) : found { word := t, isParanthezied := true } = meaning (.list items) ↔ t = tokens items := by
      simp [found, meaning]
    rw [List.cons.injEq, if_neg (by simp), hword]
    constructor
    · intro h
      -- A list that is cut elsewhere is already another word.
      have hclosed := closedBehind_of_findEnd h.1
      rw [findEndParenthesis_eq r hclosed, hrest] at h
      exact ⟨hclosed, h.2⟩
    · intro h
      rw [findEndParenthesis_eq r h.1, hrest]
      exact ⟨rfl, h.2⟩

theorem foundWords_parseLoop_iff (words : List ArgumentWord) (n : Nat) (hn : (tokens words).length ≤ n)
    (dealt : List WString) :
    foundWords (parseLoop n (tokens words) dealt) = words.map meaning ↔ Found words dealt := by
  induction words generalizing n dealt with
  | nil =>
    have hnone : parseLoop n (tokens []) dealt = [] := by
      rw [tokens]
      cases n <;> rfl
    rw [hnone]
    exact iff_of_true rfl (found_nil dealt)
  | cons w words ih =>
    have htoken : 0 < (token w).length := List.length_pos_iff.2 (token_ne_nil w)
    by_cases hlast : words = []
    · subst hlast
      rw [tokens_singleton] at hn ⊢
      obtain ⟨m, rfl⟩ : ∃ m, n = m + 1 := ⟨n - 1, by omega⟩
      have hrest (left : List WString) : foundWords (parseLoop m (List.drop 1 []) left) = [].map meaning ↔ Found [] left := by
        have hnone : parseLoop m (List.drop 1 []) left = [] := by
          cases m <;> rfl
        rw [hnone]
        exact iff_of_true rfl (found_nil left)
      have hword := found_word_iff w [] (.inl rfl) m dealt hrest
      rwa [List.append_nil] at hword
    · rw [tokens_cons w hlast] at hn ⊢
      rw [List.length_append, List.length_cons] at hn
      obtain ⟨m, rfl⟩ : ∃ m, n = m + 1 := ⟨n - 1, by omega⟩
      exact found_word_iff w words (.inr ⟨_, rfl⟩) m dealt fun left => ih m (by omega) left

/-- The splitter reads arguments as they are written exactly where the
    parentheses close each other behind every even number of quotation marks and
    every literal is dealt out to its own word. -/
theorem arguments_read_back_iff (name : ArgumentAtom) (words : List ArgumentWord) :
    ((readWords name words).map found = (.atom name :: words).map meaning ∧
      ∀ s, unescapeFolderString (escapeFolderString s) = s) ↔ ReadAsWritten (.atom name :: words) := by
  have hescape (s : WString) : unescapeFolderString (escapeFolderString s) = s := by
    rw [escapeFolderString_eq, SearchWord.unescapeFolderString_escape]
  have hloop := foundWords_parseLoop_iff (.atom name :: words) _ le_rfl (allLiterals (.atom name :: words))
  rw [and_iff_left hescape, readWords, parse]
  constructor
  · intro h
    -- A command that is not valid has no words, not even its name.
    by_cases hvalid : validate (tokens (.atom name :: words)) = true
    · rw [if_pos hvalid] at h
      have hfound := hloop.1 h
      exact ⟨hfound, (validate_iff _).1 hvalid⟩
    · rw [if_neg hvalid] at h
      exact absurd h (List.cons_ne_nil _ _).symm
  · intro h
    rw [if_pos ((validate_iff _).2 h.balanced)]
    exact hloop.2 h.toFound

def create : ArgumentAtom where
  text := wide "CREATE"
  nonempty := by decide
  plain := by decide

/-- `CREATE` with a mailbox whose quoted name holds a quotation mark and a
    parenthesis behind it: the command has no words at all. -/
theorem escaped_quote_loses_command :
    (readWords create [.quoted (wide "a\"(b")]).map found ≠ [.atom create, .quoted (wide "a\"(b")].map meaning := by
  decide +kernel

end ArgumentWord
end HMailServer
