import HMailServer.Util.WideString
import HMailServer.Lib.SmtpPath

/- `SMTPConnection::ParseAddressWithExtensions_`, which MAIL and RCPT split their
   argument with, against the grammar of these arguments. -/
namespace HMailServer.SMTPConnection
open SmtpPath

/-- `ReverseFind` of one character. -/
def reverseFind (s : WString) (c : WChar) : Option Nat := (s.reverse.findIdx? (· == c)).map (s.length - 1 - ·)

/-- Where the parameters start: at the first space, or where there are quotation
    marks at the first space behind the last of them. Nothing where there is one
    quotation mark. -/
def parameterStart (mailFrom : WString) : Option (Option Nat) :=
  match WString.findFrom mailFrom 34 0 with
  | some firstQuotePosition =>
    match reverseFind mailFrom 34 with
    | some lastQuotePosition =>
      if firstQuotePosition = lastQuotePosition then none
      else some (WString.findFrom mailFrom 32 lastQuotePosition)
    | none => some none
  | none => some (WString.findFrom mailFrom 32 0)

/-- The address without its angle brackets; nothing where the closing one is
    missing. -/
def addressText (loc : Locale) (address : WString) : Option WString :=
  if address.head? = some 60 then
    if address.getLast? = some 62 then
      some (WString.trim loc ((address.dropWhile (· == 60)).rdropWhile (· == 62)))
    else none
  else some address

def parseAddressWithExtensions (loc : Locale) (mailFrom : WString) : Option (WString × WString) :=
  match parameterStart mailFrom with
  | none => none
  | some parameterStartPosition =>
    let emailAddressEndPosition := parameterStartPosition.getD mailFrom.length
    let parameters := match parameterStartPosition with
      | some position => if 0 < position then mailFrom.drop position else []
      | none => []
    (addressText loc (mailFrom.take emailAddressEndPosition)).map fun address => (address, WString.trim loc parameters)

/-! ## Where the argument is cut -/

theorem findFrom_zero {s a b : WString} {c : WChar} (hs : s = a ++ c :: b) (ha : c ∉ a) :
    WString.findFrom s c 0 = some a.length := by
  have hidx : s.findIdx? (· == c) = some a.length := by
    rw [List.findIdx?_eq_some_iff_getElem]
    refine ⟨by rw [hs]; simp, by simp [hs], fun j hj => ?_⟩
    have hne : a[j] ≠ c := fun h => ha (h ▸ List.getElem_mem hj)
    simpa [hs, List.getElem_append_left hj] using hne
  rw [WString.findFrom, List.drop_zero, hidx]
  rfl

theorem findFrom_none {s : WString} {c : WChar} (h : c ∉ s) (start : Nat) : WString.findFrom s c start = none := by
  have hidx : (s.drop start).findIdx? (· == c) = none := by
    rw [List.findIdx?_eq_none_iff]
    intro d hd
    have hne : d ≠ c := fun heq => h (heq ▸ List.mem_of_mem_drop hd)
    simpa using hne
  rw [WString.findFrom, hidx]
  rfl

/-- A search from the end of `a`. -/
theorem findFrom_append (a b : WString) (c : WChar) :
    WString.findFrom (a ++ b) c a.length = (WString.findFrom b c 0).map (· + a.length) := by
  rw [WString.findFrom, WString.findFrom, List.drop_left, List.drop_zero, Option.map_map]
  rfl

theorem reverseFind_eq {s a b : WString} {c : WChar} (hs : s = a ++ c :: b) (hb : c ∉ b) :
    reverseFind s c = some a.length := by
  have hreverse : s.reverse = b.reverse ++ c :: a.reverse := by simp [hs]
  have hfind := findFrom_zero hreverse (by simpa using hb)
  rw [WString.findFrom, List.drop_zero] at hfind
  obtain ⟨i, hi, hlength⟩ := Option.map_eq_some_iff.1 hfind
  rw [reverseFind, hi, Option.map_some, hs]
  simp only [List.length_append, List.length_cons, List.length_reverse] at hlength ⊢
  congr 1
  omega

/-- A text that holds a character holds a last one. -/
theorem exists_last {s : WString} {c : WChar} (h : c ∈ s) : ∃ a b, s = a ++ c :: b ∧ c ∉ b := by
  obtain ⟨b, a, hs, hb⟩ := List.eq_append_cons_of_mem (List.mem_reverse.2 h)
  refine ⟨a.reverse, b.reverse, ?_, by simpa using hb⟩
  rw [← List.reverse_reverse s, hs]
  simp

theorem parameterStart_noQuote {s : WString} (h : 34 ∉ s) : parameterStart s = some (WString.findFrom s 32 0) := by
  rw [parameterStart, findFrom_none h]

theorem parameterStart_oneQuote {s a b : WString} (hs : s = a ++ 34 :: b) (ha : 34 ∉ a) (hb : 34 ∉ b) :
    parameterStart s = none := by
  rw [parameterStart, findFrom_zero hs ha, reverseFind_eq hs hb]
  exact if_pos rfl

theorem parameterStart_quotes {s a b : WString} (hs : s = a ++ 34 :: b) (ha : 34 ∈ a) (hb : 34 ∉ b) :
    parameterStart s = some ((WString.findFrom b 32 0).map (· + (a.length + 1))) := by
  obtain ⟨a₁, a₂, rfl, ha₁⟩ := List.eq_append_cons_of_mem ha
  have hfirst : s = a₁ ++ 34 :: (a₂ ++ 34 :: b) := by rw [hs, List.append_assoc]; rfl
  rw [parameterStart, findFrom_zero hfirst ha₁, reverseFind_eq hs hb]
  dsimp only
  rw [if_neg (by simp), hs, findFrom_append]
  -- the quotation mark is no space
  have hstep : WString.findFrom (34 :: b) 32 0 = (WString.findFrom b 32 0).map (· + 1) := by
    rw [WString.findFrom, WString.findFrom, List.drop_zero, List.drop_zero, List.findIdx?_cons]
    show (Option.map (· + 1) (b.findIdx? (· == 32))).map (· + 0) = ((b.findIdx? (· == 32)).map (· + 0)).map (· + 1)
    rw [Option.map_map, Option.map_map]
    rfl
  rw [hstep, Option.map_map]
  congr 1
  refine Option.map_congr fun i _ => ?_
  show i + 1 + (a₁ ++ 34 :: a₂).length = i + ((a₁ ++ 34 :: a₂).length + 1)
  omega

/-- The parameters that are read hold no quotation mark. -/
theorem notMem_parameters {loc : Locale} {s address parameters : WString}
    (h : parseAddressWithExtensions loc s = some (address, parameters)) : 34 ∉ parameters := by
  have htrim : ∀ t : WString, 34 ∉ t → 34 ∉ WString.trim loc t := fun t ht hmem =>
    ht (List.dropWhile_sublist _ |>.subset (List.rdropWhile_prefix _ _ |>.sublist.subset hmem))
  unfold parseAddressWithExtensions at h
  split at h
  · cases h
  · rename_i position hposition
    dsimp only at h
    obtain ⟨text, _, hpair⟩ := Option.map_eq_some_iff.1 h
    obtain ⟨_, rfl⟩ := Prod.mk.inj hpair
    refine htrim _ ?_
    cases position with
    | none => simp
    | some position =>
      dsimp only
      split
      · by_cases hquote : (34 : Nat) ∈ s
        · obtain ⟨a, b, hs, hb⟩ := exists_last hquote
          by_cases ha : (34 : Nat) ∈ a
          · rw [parameterStart_quotes hs ha hb] at hposition
            obtain ⟨i, _, hi⟩ := Option.map_eq_some_iff.1 (Option.some.inj hposition)
            intro hmem
            rw [hs, List.drop_append, List.mem_append, List.drop_eq_nil_of_le (by omega)] at hmem
            obtain hmem | hmem := hmem
            · cases hmem
            · obtain ⟨k, hk⟩ : ∃ k, position - a.length = k + 1 := ⟨i, by omega⟩
              rw [hk, List.drop_succ_cons] at hmem
              exact hb (List.mem_of_mem_drop hmem)
          · rw [parameterStart_oneQuote hs ha hb] at hposition
            cases hposition
        · exact fun hmem => hquote (List.mem_of_mem_drop hmem)
      · simp

/-! ## Arguments -/

/-- Printable characters are no white space, and the space is. -/
structure PlainSpaces (loc : Locale) : Prop where
  printable : ∀ c, 33 ≤ c → c ≤ 126 → loc.isSpace c = false
  space : loc.isSpace 32 = true

theorem classicLocale_plainSpaces : PlainSpaces classicLocale where
  printable c h _ := by
    have hlow : (33 : Nat) ≤ c := h
    simp only [classicLocale, Bool.or_eq_false_iff, beq_eq_false_iff_ne, Bool.and_eq_false_iff, decide_eq_false_iff_not]
    refine ⟨?_, .inr fun h13 => absurd (hlow.trans h13) (by decide)⟩
    rintro rfl
    exact absurd hlow (by decide)
  space := rfl

section

variable {loc : Locale} (hloc : PlainSpaces loc)
include hloc

/-- A text between printable characters is trimmed already. -/
theorem trim_printable {s : WString} (hhead : ∀ c ∈ s.head?, 33 ≤ c ∧ c ≤ 126) (hlast : ∀ c ∈ s.getLast?, 33 ≤ c ∧ c ≤ 126) :
    WString.trim loc s = s := by
  have hleft : s.dropWhile loc.isSpace = s := by
    cases s with
    | nil => rfl
    | cons c s =>
      have hc := hhead c rfl
      rw [List.dropWhile_cons, hloc.printable c hc.1 hc.2]
      rfl
  rw [WString.trim, hleft]
  rw [List.rdropWhile_eq_self_iff]
  intro hne
  have hc := hlast _ (List.getLast?_eq_some_getLast hne)
  rw [hloc.printable _ hc.1 hc.2]
  exact Bool.false_ne_true

theorem trim_space (s : WString) : WString.trim loc (32 :: s) = WString.trim loc s := by
  rw [WString.trim, List.dropWhile_cons, hloc.space]
  rfl

theorem addressText_mailbox {mailbox : WString} (hm : PathMailbox mailbox) :
    addressText loc (60 :: (mailbox ++ [62])) = some mailbox := by
  obtain ⟨hhead, hlast⟩ := hm.ends
  have hlast' : (60 :: (mailbox ++ [62])).getLast? = some 62 := by
    rw [← List.cons_append, List.getLast?_append]
    rfl
  have hleft : (60 :: (mailbox ++ [62])).dropWhile (· == 60) = mailbox ++ [62] := by
    rw [List.dropWhile_cons]
    show List.dropWhile (· == 60) (mailbox ++ [62]) = mailbox ++ [62]
    cases mailbox with
    | nil => rfl
    | cons c s =>
      have hc : (c == 60) = false := by simpa using (hhead c rfl).2.2.1
      rw [List.cons_append, List.dropWhile_cons, hc]
      rfl
  have hright : (mailbox ++ [62]).rdropWhile (· == 62) = mailbox := by
    rw [List.rdropWhile_concat_pos _ _ _ rfl, List.rdropWhile_eq_self_iff]
    intro hne
    have hc := (hlast _ (List.getLast?_eq_some_getLast hne)).2.2.2
    simpa using hc
  rw [addressText, List.head?_cons, if_pos rfl, hlast', if_pos rfl, hleft, hright]
  exact congrArg some (trim_printable hloc (fun c hc => ⟨(hhead c hc).1, (hhead c hc).2.1⟩)
    fun c hc => ⟨(hlast c hc).1, (hlast c hc).2.1⟩)

theorem trim_parameterText {parameters : List WString} (hp : ∀ p ∈ parameters, Parameter p) :
    WString.trim loc (parameterText parameters) = parameterText parameters := by
  cases parameters with
  | nil => rfl
  | cons p ps =>
    have hfirst := (hp p List.mem_cons_self).facts
    rw [parameterText, Separated.intercalate_cons]
    refine trim_printable hloc (fun c hc => ?_) fun c hc => ?_
    · obtain ⟨d, p, rfl⟩ := List.exists_cons_of_ne_nil hfirst.1
      cases hc
      exact hfirst.2 c List.mem_cons_self
    · -- the last character is that of the last parameter
      obtain rfl | ⟨init, q, rfl⟩ := List.eq_nil_or_concat ps
      · rw [List.flatMap_nil, List.append_nil] at hc
        exact hfirst.2 c (List.mem_of_mem_getLast? hc)
      · rw [List.concat_eq_append] at hc hp
        have hq := (hp q (by simp)).facts
        rw [List.flatMap_append, List.flatMap_singleton, ← List.append_assoc, List.getLast?_append,
          List.getLast?_cons] at hc
        obtain ⟨l, hl⟩ : ∃ l, q.getLast? = some l := ⟨q.getLast hq.1, List.getLast?_eq_some_getLast hq.1⟩
        rw [hl] at hc
        cases hc
        exact hq.2 l (List.mem_of_getLast? hl)

end

theorem splitString_parameterText {parameters : List WString} (hp : ∀ p ∈ parameters, Parameter p) :
    WString.splitString (parameterText parameters) 32 = parameters := by
  cases hcases : parameters with
  | nil => rfl
  | cons q qs =>
    rw [← hcases]
    have hsplit : (parameterText parameters).splitOn 32 = parameters := by
      refine List.splitOn_intercalate 32 (fun p hmem h32 => ?_) (by simp [hcases])
      exact absurd ((hp p hmem).facts.2 32 h32).1 (by decide)
    have hlast : parameters.getLast? ≠ some [] := fun h => (hp [] (List.mem_of_getLast? h)).facts.1 rfl
    rw [WString.splitString, hsplit, if_neg hlast]

/-- Where the path holds no quotation mark or more than one, and the parameters
    none, the argument is cut between the two. -/
theorem parameterStart_argument {mailbox : WString} (hm : PathMailbox mailbox) {parameters : List WString}
    (hquote : 34 ∉ parameterText parameters) (hcount : mailbox.count 34 ≠ 1) :
    parameterStart (argument mailbox parameters) =
      some (if parameters = [] then none else some (mailbox.length + 2)) := by
  obtain ⟨hnone, hbehind⟩ := hm.noSpace
  have hrest : (34 : Nat) ∉ parameters.flatMap (32 :: ·) := by
    by_cases h : parameters = []
    · simp [h]
    · rw [flatMap_eq_parameterText h, List.mem_cons, not_or]
      exact ⟨by decide, hquote⟩
  -- the first space behind `b` is the one in front of the parameters
  have hspace : ∀ b : WString, 32 ∉ b → WString.findFrom (b ++ 62 :: parameters.flatMap (32 :: ·)) 32 0 =
      if parameters = [] then none else some (b.length + 1) := by
    intro b hb
    split
    · rename_i h
      rw [h]
      exact findFrom_none (by simp [hb]) 0
    · rename_i h
      have hs : b ++ 62 :: parameters.flatMap (32 :: ·) = (b ++ [62]) ++ 32 :: parameterText parameters := by
        rw [flatMap_eq_parameterText h, List.append_assoc]
        rfl
      rw [findFrom_zero hs (by simp [hb]), List.length_append]
      rfl
  by_cases hmem : (34 : Nat) ∈ mailbox
  · obtain ⟨a, b, rfl, hb⟩ := exists_last hmem
    have ha : (34 : Nat) ∈ a := by
      by_contra ha
      rw [List.count_append, List.count_cons_self, List.count_eq_zero.2 ha, List.count_eq_zero.2 hb] at hcount
      exact hcount rfl
    have hs : argument (a ++ 34 :: b) parameters = (60 :: a) ++ 34 :: (b ++ 62 :: parameters.flatMap (32 :: ·)) := by
      simp [argument]
    rw [parameterStart_quotes hs (List.mem_cons_of_mem _ ha), hspace b (hbehind a b rfl hb)]
    · split
      · rfl
      · simp only [Option.map_some, List.length_cons, List.length_append]
        congr 2
        omega
    · rw [List.mem_append, List.mem_cons, not_or, not_or]
      exact ⟨hb, by decide, hrest⟩
  · have hs : argument mailbox parameters = (60 :: mailbox) ++ 62 :: parameters.flatMap (32 :: ·) := rfl
    have hnoquote : (34 : Nat) ∉ argument mailbox parameters := by
      rw [hs, List.mem_append, List.mem_cons, List.mem_cons, not_or, not_or, not_or]
      exact ⟨⟨by decide, hmem⟩, by decide, hrest⟩
    rw [parameterStart_noQuote hnoquote, hs, hspace (60 :: mailbox)]
    · rfl
    · rw [List.mem_cons, not_or]
      exact ⟨by decide, hnone hmem⟩

/-- An argument is split into its mailbox and its parameters exactly where the
    parameters hold no quotation mark and the mailbox does not hold just one. -/
theorem argument_is_split_iff {loc : Locale} (hloc : PlainSpaces loc) {mailbox : WString} (hm : PathMailbox mailbox)
    {parameters : List WString} (hp : ∀ p ∈ parameters, Parameter p) :
    (parseAddressWithExtensions loc (argument mailbox parameters) = some (mailbox, parameterText parameters) ∧
      WString.splitString (parameterText parameters) 32 = parameters) ↔
      34 ∉ parameterText parameters ∧ mailbox.count 34 ≠ 1 := by
  constructor
  · rintro ⟨hparse, _⟩
    have hquote := notMem_parameters hparse
    refine ⟨hquote, fun hcount => ?_⟩
    -- the one quotation mark of the mailbox is the only one
    obtain ⟨a, b, rfl, hb⟩ := exists_last (List.count_pos_iff.1 (by omega : 0 < mailbox.count 34))
    have ha : (34 : Nat) ∉ a := by
      rw [List.count_append, List.count_cons_self] at hcount
      exact List.count_eq_zero.1 (by omega)
    have hs : argument (a ++ 34 :: b) parameters = (60 :: a) ++ 34 :: (b ++ 62 :: parameters.flatMap (32 :: ·)) := by
      simp [argument]
    have hnone : parameterStart (argument (a ++ 34 :: b) parameters) = none := by
      refine parameterStart_oneQuote hs ?_ ?_
      · rw [List.mem_cons, not_or]
        exact ⟨by decide, ha⟩
      · have hrest : (34 : Nat) ∉ parameters.flatMap (32 :: ·) := by
          by_cases h : parameters = []
          · simp [h]
          · rw [flatMap_eq_parameterText h, List.mem_cons, not_or]
            exact ⟨by decide, hquote⟩
        rw [List.mem_append, List.mem_cons, not_or, not_or]
        exact ⟨hb, by decide, hrest⟩
    rw [parseAddressWithExtensions, hnone] at hparse
    cases hparse
  · rintro ⟨hquote, hcount⟩
    refine ⟨?_, splitString_parameterText hp⟩
    rw [parseAddressWithExtensions, parameterStart_argument hm hquote hcount]
    dsimp only
    have haddress := addressText_mailbox hloc hm
    by_cases h : parameters = []
    · have hargument : argument mailbox parameters = 60 :: (mailbox ++ [62]) := by rw [h]; rfl
      rw [if_pos h, Option.getD_none, List.take_length, hargument, haddress, h]
      rfl
    · have hargument : argument mailbox parameters = (60 :: (mailbox ++ [62])) ++ 32 :: parameterText parameters := by
        rw [argument, flatMap_eq_parameterText h]
        simp
      have hlength : (60 :: (mailbox ++ [62])).length = mailbox.length + 2 := by
        rw [List.length_cons, List.length_append]
        rfl
      rw [if_neg h, Option.getD_some]
      dsimp only
      rw [if_pos (Nat.succ_pos _), hargument, List.take_left' hlength, List.drop_left' hlength, haddress, trim_space hloc,
        trim_parameterText hloc hp]
      rfl

theorem plain_mailbox : PathMailbox [97, 64, 98] := by
  have hlocal : LocalPart ([46].intercalate [[97]]) := by
    refine .dotString (List.cons_ne_nil _ _) ?_
    simp [Mailbox.isAtext, Mailbox.specials]
  have hdomain : Domain ([46].intercalate [[98]]) := by
    refine .names (List.cons_ne_nil _ _) ?_
    simp [SubDomain, isAlphanumeric]
  exact .mailbox hlocal hdomain

theorem plain_parameter : Parameter [83] := by
  refine .keyword (List.cons_ne_nil _ _) ?_ ⟨83, rfl, by decide⟩
  simp [isAlphanumeric]

theorem argument_is_split_iff_plain :
    parseAddressWithExtensions classicLocale (argument [97, 64, 98] [[83]]) = some ([97, 64, 98], [83]) := by
  have hparameters : ∀ p ∈ [[83]], Parameter p := by
    intro p hp
    rw [List.mem_singleton.1 hp]
    exact plain_parameter
  exact ((argument_is_split_iff classicLocale_plainSpaces plain_mailbox hparameters).2 (by decide)).1

/-- `<a@b> S="a"` is an argument, and it is refused. -/
theorem quoted_value_refused :
    PathMailbox [97, 64, 98] ∧ Parameter [83, 61, 34, 97, 34] ∧
      parseAddressWithExtensions classicLocale (argument [97, 64, 98] [[83, 61, 34, 97, 34]]) = none := by
  refine ⟨plain_mailbox, ?_, by decide +kernel⟩
  refine .value plain_parameter (by decide) (List.cons_ne_nil 34 [97, 34]) ?_
  simp [isValueCharacter]

end HMailServer.SMTPConnection
