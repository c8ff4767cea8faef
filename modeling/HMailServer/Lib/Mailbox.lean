import HMailServer.Lib.Separated

/- The grammar of one mailbox in a header field (RFC 5322, section 3.4): an
   address, alone or in angle brackets behind a display name, with comments and
   folding white space between the words. A mailbox is given by its derivation;
   `text` is what is written and `bare` what is left of that without the
   comments. -/
namespace Mailbox

abbrev Text := List Nat

def isWs (c : Nat) : Bool := c = 32 ∨ c = 9 ∨ c = 13 ∨ c = 10

/-- `"(),.:;<>@[\]` are the printable characters that are no part of an atom. -/
def specials : Text := [34, 40, 41, 44, 46, 58, 59, 60, 62, 64, 91, 92, 93]

def isAtext (c : Nat) : Bool := 33 ≤ c ∧ c ≤ 126 ∧ c ∉ specials
def isCtext (c : Nat) : Bool := 33 ≤ c ∧ c ≤ 126 ∧ c ≠ 40 ∧ c ≠ 41 ∧ c ≠ 92
def isQtext (c : Nat) : Bool := 33 ≤ c ∧ c ≤ 126 ∧ c ≠ 34 ∧ c ≠ 92
def isDtext (c : Nat) : Bool := 33 ≤ c ∧ c ≤ 126 ∧ c ≠ 91 ∧ c ≠ 92 ∧ c ≠ 93

/-- What a backslash may stand in front of. -/
def isQuotable (c : Nat) : Bool := 33 ≤ c ∧ c ≤ 126 ∨ c = 32 ∨ c = 9

/-- What stands between the parentheses of a comment. -/
inductive CommentText : Text → Prop
  | nil : CommentText []
  | char {c : Nat} {s : Text} (hc : isCtext c = true ∨ isWs c = true) (hs : CommentText s) : CommentText (c :: s)
  | pair {c : Nat} {s : Text} (hc : isQuotable c = true) (hs : CommentText s) : CommentText (92 :: c :: s)
  | nested {inner s : Text} (hinner : CommentText inner) (hs : CommentText s) : CommentText (40 :: (inner ++ 41 :: s))

/-- What stands between the quotes of a quoted string. -/
inductive QuotedText : Text → Prop
  | nil : QuotedText []
  | char {c : Nat} {s : Text} (hc : isQtext c = true ∨ isWs c = true) (hs : QuotedText s) : QuotedText (c :: s)
  | pair {c : Nat} {s : Text} (hc : isQuotable c = true) (hs : QuotedText s) : QuotedText (92 :: c :: s)

theorem CommentText.chars {s : Text} (h : ∀ c ∈ s, isCtext c = true ∨ isWs c = true) : CommentText s := by
  induction s with
  | nil => exact .nil
  | cons c s ih => exact .char (h c List.mem_cons_self) (ih fun d hd => h d (List.mem_cons_of_mem _ hd))

theorem QuotedText.chars {s : Text} (h : ∀ c ∈ s, isQtext c = true ∨ isWs c = true) : QuotedText s := by
  induction s with
  | nil => exact .nil
  | cons c s ih => exact .char (h c List.mem_cons_self) (ih fun d hd => h d (List.mem_cons_of_mem _ hd))

/-- A character of folding white space, or a comment. -/
inductive Blank where
  | space (c : Nat)
  | comment (inner : Text)

def Blank.text : Blank → Text
  | space c => [c]
  | comment inner => 40 :: (inner ++ [41])

def Blank.bare : Blank → Text
  | space c => [c]
  | comment _ => []

def Blank.WellFormed : Blank → Prop
  | space c => isWs c = true
  | comment inner => CommentText inner

def Blank.IsSpace : Blank → Prop
  | space _ => True
  | comment _ => False

def blanks (bs : List Blank) : Text := bs.flatMap Blank.text
def bareBlanks (bs : List Blank) : Text := bs.flatMap Blank.bare

def BlanksWellFormed (bs : List Blank) : Prop := ∀ b ∈ bs, b.WellFormed

/-- A word of a display name. -/
inductive Core where
  | atom (w : Text)
  | quoted (q : Text)

def Core.text : Core → Text
  | atom w => w
  | quoted q => 34 :: (q ++ [34])

def Core.WellFormed : Core → Prop
  | atom w => w ≠ [] ∧ ∀ c ∈ w, isAtext c = true
  | quoted q => QuotedText q

structure Word where
  before : List Blank
  core : Core
  after : List Blank

namespace Word

def text (w : Word) : Text := blanks w.before ++ w.core.text ++ blanks w.after
def bare (w : Word) : Text := bareBlanks w.before ++ w.core.text ++ bareBlanks w.after

structure WellFormed (w : Word) : Prop where
  before : BlanksWellFormed w.before
  core : w.core.WellFormed
  after : BlanksWellFormed w.after

end Word

/-- Atoms with a dot between them. -/
def dotted (parts : List Text) : Text := [46].intercalate parts

def DotAtom (parts : List Text) : Prop := parts ≠ [] ∧ ∀ p ∈ parts, p ≠ [] ∧ ∀ c ∈ p, isAtext c = true

inductive LocalPart where
  | dotAtom (parts : List Text)
  | quoted (q : Text)

def LocalPart.text : LocalPart → Text
  | dotAtom parts => dotted parts
  | quoted q => 34 :: (q ++ [34])

def LocalPart.WellFormed : LocalPart → Prop
  | dotAtom parts => DotAtom parts
  | quoted q => QuotedText q

inductive Domain where
  | dotAtom (parts : List Text)
  | literal (content : Text)

namespace Domain

def text : Domain → Text
  | dotAtom parts => dotted parts
  | literal content => 91 :: (content ++ [93])

/-- The domain that is meant: white space in a literal is none of it. -/
def name (d : Domain) : Text := d.text.filter (!isWs ·)

def WellFormed : Domain → Prop
  | dotAtom parts => DotAtom parts
  | literal content => ∀ c ∈ content, isDtext c = true ∨ isWs c = true

/-- A literal without the characters that delimit something elsewhere. -/
def Plain : Domain → Prop
  | dotAtom _ => True
  | literal content => ∀ c ∈ content, c ∉ [34, 40, 41, 44, 60, 62, 64]

end Domain

structure AddrSpec where
  beforeLocal : List Blank
  localPart : LocalPart
  afterLocal : List Blank
  beforeDomain : List Blank
  domain : Domain
  afterDomain : List Blank

namespace AddrSpec

/-- What is written behind the at sign. -/
def domainText (a : AddrSpec) : Text := blanks a.beforeDomain ++ a.domain.text ++ blanks a.afterDomain
def bareDomain (a : AddrSpec) : Text := bareBlanks a.beforeDomain ++ a.domain.text ++ bareBlanks a.afterDomain

def text (a : AddrSpec) : Text :=
  blanks a.beforeLocal ++ a.localPart.text ++ blanks a.afterLocal ++ 64 :: a.domainText

def bare (a : AddrSpec) : Text :=
  bareBlanks a.beforeLocal ++ a.localPart.text ++ bareBlanks a.afterLocal ++ 64 :: a.bareDomain

structure WellFormed (a : AddrSpec) : Prop where
  beforeLocal : BlanksWellFormed a.beforeLocal
  localPart : a.localPart.WellFormed
  afterLocal : BlanksWellFormed a.afterLocal
  beforeDomain : BlanksWellFormed a.beforeDomain
  domain : a.domain.WellFormed
  afterDomain : BlanksWellFormed a.afterDomain

end AddrSpec
end Mailbox

/-- A mailbox: an address, or a display name (which may be missing) with an
    address in angle brackets. -/
inductive Mailbox where
  | addrSpec (a : Mailbox.AddrSpec)
  | nameAddr (display : List Mailbox.Word) (before : List Mailbox.Blank) (a : Mailbox.AddrSpec) (after : List Mailbox.Blank)

namespace Mailbox

def address : Mailbox → AddrSpec
  | addrSpec a => a
  | nameAddr _ _ a _ => a

def text : Mailbox → Text
  | addrSpec a => a.text
  | nameAddr display before a after => display.flatMap Word.text ++ blanks before ++ 60 :: (a.text ++ 62 :: blanks after)

def bare : Mailbox → Text
  | addrSpec a => a.bare
  | nameAddr display before a after =>
    display.flatMap Word.bare ++ bareBlanks before ++ 60 :: (a.bare ++ 62 :: bareBlanks after)

def WellFormed : Mailbox → Prop
  | addrSpec a => a.WellFormed
  | nameAddr display before a after =>
    (∀ w ∈ display, w.WellFormed) ∧ BlanksWellFormed before ∧ a.WellFormed ∧ BlanksWellFormed after

/-! ## Tokens -/

/-- The characters that mean something to a reader of a list of mailboxes. -/
def delimiters : Text := [34, 40, 41, 44, 60, 62, 64, 92]

/-- Quoted strings, and characters that delimit nothing. -/
inductive Tokens : Text → Prop
  | nil : Tokens []
  | char {c : Nat} {s : Text} (hc : c ∉ [34, 40, 44, 60, 62, 92]) (hs : Tokens s) : Tokens (c :: s)
  | quoted {q s : Text} (hq : QuotedText q) (hs : Tokens s) : Tokens (34 :: (q ++ 34 :: s))

theorem Tokens.append {s t : Text} (hs : Tokens s) (ht : Tokens t) : Tokens (s ++ t) := by
  induction hs with
  | nil => exact ht
  | char hc _ ih => exact .char hc ih
  | quoted hq _ ih =>
    rw [List.cons_append, List.append_assoc, List.cons_append]
    exact .quoted hq ih

theorem Tokens.chars {s : Text} (h : ∀ c ∈ s, c ∉ [34, 40, 44, 60, 62, 92]) : Tokens s := by
  induction s with
  | nil => exact .nil
  | cons c s ih => exact .char (h c List.mem_cons_self) (ih fun d hd => h d (List.mem_cons_of_mem _ hd))

theorem Tokens.tail {c : Nat} {s : Text} (h : Tokens (c :: s)) (hc : c ≠ 34) : Tokens s := by
  cases h with
  | char _ hs => exact hs
  | quoted _ _ => exact absurd rfl hc

theorem Tokens.suffix {l s : Text} (h : Tokens (l ++ s)) (hl : 34 ∉ l) : Tokens s := by
  induction l with
  | nil => exact h
  | cons c l ih =>
    rw [List.mem_cons, not_or] at hl
    exact ih (h.tail (Ne.symm hl.1)) hl.2

/-- A text without delimiters. -/
theorem Tokens.plain {s : Text} (h : ∀ c ∈ s, c ∉ delimiters) : Tokens s :=
  Tokens.chars fun c hc hdelimiter => h c hc (List.Subset.trans (by decide) (List.Subset.refl delimiters) hdelimiter)

theorem isWs_plain {c : Nat} (hc : isWs c = true) : c ∉ delimiters := by
  simp only [isWs, decide_eq_true_eq] at hc
  rcases hc with rfl | rfl | rfl | rfl <;> decide

theorem isAtext_plain {c : Nat} (hc : isAtext c = true) : c ∉ delimiters := by
  simp only [isAtext, decide_eq_true_eq, specials, List.mem_cons, List.not_mem_nil, or_false, not_or] at hc
  simp only [delimiters, List.mem_cons, List.not_mem_nil, or_false, not_or]
  obtain ⟨_, _, h⟩ := hc
  tauto

theorem isAtext_printable {c : Nat} (hc : isAtext c = true) : 33 ≤ c ∧ c ≤ 126 := by
  simp only [isAtext, decide_eq_true_eq] at hc
  exact ⟨hc.1, hc.2.1⟩

theorem isWs_of_isAtext {c : Nat} (hc : isAtext c = true) : isWs c = false := by
  simp only [isAtext, decide_eq_true_eq] at hc
  rw [Bool.eq_false_iff]
  simp only [isWs, ne_eq, decide_eq_true_eq]
  omega

theorem isWs_of_mem_bareBlanks {bs : List Blank} (h : BlanksWellFormed bs) {c : Nat} (hc : c ∈ bareBlanks bs) :
    isWs c = true := by
  obtain ⟨b, hb, hcb⟩ := List.mem_flatMap.1 hc
  cases b with
  | space d =>
    rw [Blank.bare, List.mem_singleton] at hcb
    rw [hcb]
    exact h _ hb
  | comment inner => cases hcb

theorem tokens_bareBlanks {bs : List Blank} (h : BlanksWellFormed bs) : Tokens (bareBlanks bs) :=
  Tokens.plain fun _ hc => isWs_plain (isWs_of_mem_bareBlanks h hc)

theorem mem_dotted {parts : List Text} (h : DotAtom parts) {c : Nat} (hc : c ∈ dotted parts) :
    c = 46 ∨ isAtext c = true := by
  obtain ⟨p, ps, rfl⟩ := List.exists_cons_of_ne_nil h.1
  rw [dotted, Separated.intercalate_cons, List.mem_append, List.mem_flatMap] at hc
  rcases hc with hc | ⟨q, hq, hc⟩
  · exact .inr ((h.2 p List.mem_cons_self).2 c hc)
  · rcases List.mem_cons.1 hc with rfl | hc
    · exact .inl rfl
    · exact .inr ((h.2 q (List.mem_cons_of_mem _ hq)).2 c hc)

/-- A dotted text is made of characters that delimit nothing. -/
theorem dotted_plain {parts : List Text} (h : DotAtom parts) :
    ∀ c ∈ dotted parts, isWs c = false ∧ 33 ≤ c ∧ c ≤ 126 ∧ c ∉ delimiters := by
  intro c hc
  obtain rfl | hatext := mem_dotted h hc
  · decide
  · have hprintable := isAtext_printable hatext
    exact ⟨isWs_of_isAtext hatext, hprintable.1, hprintable.2, isAtext_plain hatext⟩

theorem dotted_ne_nil {parts : List Text} (h : DotAtom parts) : dotted parts ≠ [] := by
  obtain ⟨p, ps, rfl⟩ := List.exists_cons_of_ne_nil h.1
  rw [dotted, Separated.intercalate_cons]
  exact List.append_ne_nil_of_left_ne_nil (h.2 p List.mem_cons_self).1 _

/-- A text that begins and ends with a printable character. -/
structure Bounded (s : Text) : Prop where
  ne_nil : s ≠ []
  head : ∀ c ∈ s.head?, 33 ≤ c ∧ c ≤ 126
  last : ∀ c ∈ s.getLast?, 33 ≤ c ∧ c ≤ 126

theorem Bounded.append {s t : Text} (hs : Bounded s) (ht : Bounded t) (between : Text) : Bounded (s ++ between ++ t) where
  ne_nil := List.append_ne_nil_of_right_ne_nil _ ht.ne_nil
  head := by
    rw [List.append_assoc, List.head?_append_of_ne_nil _ hs.ne_nil]
    exact hs.head
  last := by
    rw [List.getLast?_append_of_ne_nil _ ht.ne_nil]
    exact ht.last

theorem bounded_singleton {c : Nat} (hc : 33 ≤ c ∧ c ≤ 126) : Bounded [c] where
  ne_nil := List.cons_ne_nil _ _
  head := by
    intro d hd
    rw [List.head?_cons, Option.mem_some_iff] at hd
    rw [← hd]
    exact hc
  last := by
    intro d hd
    rw [List.getLast?_singleton, Option.mem_some_iff] at hd
    rw [← hd]
    exact hc

theorem bounded_quoted (q : Text) : Bounded (34 :: (q ++ [34])) :=
  Bounded.append (bounded_singleton (by decide)) (bounded_singleton (by decide)) q

theorem bounded_dotted {parts : List Text} (h : DotAtom parts) : Bounded (dotted parts) where
  ne_nil := dotted_ne_nil h
  head c hc :=
    have hchar := dotted_plain h c (List.mem_of_mem_head? hc)
    ⟨hchar.2.1, hchar.2.2.1⟩
  last c hc :=
    have hchar := dotted_plain h c (List.mem_of_mem_getLast? hc)
    ⟨hchar.2.1, hchar.2.2.1⟩

theorem LocalPart.WellFormed.bounded {l : LocalPart} (h : l.WellFormed) : Bounded l.text := by
  cases l with
  | dotAtom parts => exact bounded_dotted h
  | quoted q => exact bounded_quoted q

theorem LocalPart.WellFormed.tokens {l : LocalPart} (h : l.WellFormed) : Tokens l.text := by
  cases l with
  | dotAtom parts => exact Tokens.plain fun c hc => (dotted_plain h c hc).2.2.2
  | quoted q => exact .quoted h .nil

namespace Domain.WellFormed

variable {d : Domain} (h : d.WellFormed)
include h

theorem bounded : Bounded d.text := by
  cases d with
  | dotAtom parts => exact bounded_dotted h
  | literal content => exact Bounded.append (bounded_singleton (by decide)) (bounded_singleton (by decide)) content

/-- A domain is printable, but for white space in a literal, and has no
    backslash. -/
theorem chars : ∀ c ∈ d.text, (isWs c = true ∨ 33 ≤ c ∧ c ≤ 126) ∧ c ≠ 92 := by
  intro c hc
  cases d with
  | dotAtom parts =>
    obtain ⟨_, hlow, hhigh, hplain⟩ := dotted_plain h c hc
    exact ⟨.inr ⟨hlow, hhigh⟩, fun hc => hplain (by rw [hc]; decide)⟩
  | literal content =>
    rw [text, List.mem_cons, List.mem_append, List.mem_singleton] at hc
    rcases hc with rfl | hc | rfl
    · decide
    · obtain hdtext | hws := h c hc
      · simp only [isDtext, decide_eq_true_eq] at hdtext
        exact ⟨.inr ⟨hdtext.1, hdtext.2.1⟩, hdtext.2.2.2.1⟩
      · exact ⟨.inl hws, fun hc => isWs_plain hws (by rw [hc]; decide)⟩
    · decide

theorem plain (hplain : d.Plain) : ∀ c ∈ d.text, c ∉ delimiters := by
  intro c hc
  cases d with
  | dotAtom parts => exact (dotted_plain h c hc).2.2.2
  | literal content =>
    rw [text, List.mem_cons, List.mem_append, List.mem_singleton] at hc
    rcases hc with rfl | hc | rfl
    · decide
    · have hdelimiter := hplain c hc
      have hbackslash := (h.chars c (by rw [text]; simp [hc])).2
      simp only [delimiters, List.mem_cons, List.not_mem_nil, or_false, not_or] at hdelimiter ⊢
      tauto
    · decide

end Domain.WellFormed

theorem Core.WellFormed.tokens {c : Core} (h : c.WellFormed) : Tokens c.text := by
  cases c with
  | atom w => exact Tokens.plain fun c hc => isAtext_plain (h.2 c hc)
  | quoted q => exact .quoted h .nil

theorem Core.WellFormed.bounded {c : Core} (h : c.WellFormed) : Bounded c.text := by
  cases c with
  | atom w =>
    exact ⟨h.1, fun c hc => isAtext_printable (h.2 c (List.mem_of_mem_head? hc)),
      fun c hc => isAtext_printable (h.2 c (List.mem_of_mem_getLast? hc))⟩
  | quoted q => exact bounded_quoted q

theorem Word.WellFormed.tokens {w : Word} (h : w.WellFormed) : Tokens w.bare :=
  ((tokens_bareBlanks h.before).append h.core.tokens).append (tokens_bareBlanks h.after)

theorem tokens_display {display : List Word} (h : ∀ w ∈ display, w.WellFormed) : Tokens (display.flatMap Word.bare) := by
  induction display with
  | nil => exact .nil
  | cons w display ih =>
    rw [List.flatMap_cons]
    exact (h w List.mem_cons_self).tokens.append (ih fun v hv => h v (List.mem_cons_of_mem _ hv))

theorem AddrSpec.WellFormed.tokens_domain {a : AddrSpec} (h : a.WellFormed) (hplain : a.domain.Plain) :
    Tokens a.bareDomain :=
  ((tokens_bareBlanks h.beforeDomain).append (Tokens.plain (h.domain.plain hplain))).append (tokens_bareBlanks h.afterDomain)

theorem AddrSpec.WellFormed.tokens {a : AddrSpec} (h : a.WellFormed) (hplain : a.domain.Plain) : Tokens a.bare :=
  (((tokens_bareBlanks h.beforeLocal).append h.localPart.tokens).append (tokens_bareBlanks h.afterLocal)).append
    (.char (by decide) (h.tokens_domain hplain))

/-! ## Comments -/

/-- A text and what is left of it without its comments. -/
inductive Uncommented : Text → Text → Prop
  | nil : Uncommented [] []
  | char {c : Nat} {s t : Text} (hc : c ∉ [34, 40, 92]) (hs : Uncommented s t) : Uncommented (c :: s) (c :: t)
  | quoted {q s t : Text} (hq : QuotedText q) (hs : Uncommented s t) :
    Uncommented (34 :: (q ++ 34 :: s)) (34 :: (q ++ 34 :: t))
  | comment {inner s t : Text} (hinner : CommentText inner) (hs : Uncommented s t) :
    Uncommented (40 :: (inner ++ 41 :: s)) t

namespace Uncommented

theorem append {s s' t t' : Text} (hs : Uncommented s s') (ht : Uncommented t t') : Uncommented (s ++ t) (s' ++ t') := by
  induction hs with
  | nil => exact ht
  | char hc _ ih => exact .char hc ih
  | quoted hq _ ih =>
    rw [List.cons_append, List.append_assoc, List.cons_append, List.cons_append, List.append_assoc, List.cons_append]
    exact .quoted hq ih
  | comment hinner _ ih =>
    rw [List.cons_append, List.append_assoc, List.cons_append]
    exact .comment hinner ih

theorem chars {s : Text} (h : ∀ c ∈ s, c ∉ [34, 40, 92]) : Uncommented s s := by
  induction s with
  | nil => exact .nil
  | cons c s ih => exact .char (h c List.mem_cons_self) (ih fun d hd => h d (List.mem_cons_of_mem _ hd))

theorem ofTokens {s : Text} (h : Tokens s) : Uncommented s s := by
  induction h with
  | nil => exact .nil
  | char hc _ ih =>
    refine .char (fun h => hc ?_) ih
    simp only [List.mem_cons, List.not_mem_nil, or_false] at h ⊢
    tauto
  | quoted hq _ ih => exact .quoted hq ih

theorem ofBlanks {bs : List Blank} (h : BlanksWellFormed bs) : Uncommented (blanks bs) (bareBlanks bs) := by
  induction bs with
  | nil => exact .nil
  | cons b bs ih =>
    have hrest := ih fun b hb => h b (List.mem_cons_of_mem _ hb)
    have hb := h b List.mem_cons_self
    cases b with
    | space c => exact .char (fun hc => isWs_plain hb (List.Subset.trans (by decide) (List.Subset.refl delimiters) hc)) hrest
    | comment inner =>
      rw [blanks, List.flatMap_cons, Blank.text, List.cons_append, List.append_assoc]
      exact .comment hb hrest

end Uncommented

/-! ## The ends of a mailbox -/

/-- White space in front, and then nothing or a comment. -/
theorem blanks_front {bs : List Blank} (h : BlanksWellFormed bs) :
    ∃ l bs', blanks bs = l ++ blanks bs' ∧ (∀ c ∈ l, isWs c = true) ∧ BlanksWellFormed bs' ∧
      ∀ c ∈ (blanks bs').head?, c = 40 := by
  induction bs with
  | nil => exact ⟨[], [], rfl, by simp, h, nofun⟩
  | cons b bs ih =>
    cases b with
    | space c =>
      obtain ⟨l, bs', hbs, hl, hbs', hhead⟩ := ih fun b hb => h b (List.mem_cons_of_mem _ hb)
      refine ⟨c :: l, bs', by rw [blanks, List.flatMap_cons, ← blanks, hbs]; rfl, ?_, hbs', hhead⟩
      intro d hd
      rcases List.mem_cons.1 hd with rfl | hd
      · exact h _ List.mem_cons_self
      · exact hl d hd
    | comment inner =>
      refine ⟨[], .comment inner :: bs, rfl, by simp, h, ?_⟩
      intro c hc
      exact (Option.some.inj hc).symm

/-- Nothing or a comment, and then white space. -/
theorem blanks_behind {bs : List Blank} (h : BlanksWellFormed bs) :
    ∃ bs' r, blanks bs = blanks bs' ++ r ∧ (∀ c ∈ r, isWs c = true) ∧ BlanksWellFormed bs' ∧
      (∀ c ∈ (blanks bs').getLast?, c = 41) ∧ ((∀ b ∈ bs, b.IsSpace) ↔ bs' = []) := by
  induction bs using List.reverseRecOn with
  | nil => exact ⟨[], [], rfl, by simp, h, nofun, by simp⟩
  | append_singleton bs b ih =>
    cases b with
    | space c =>
      obtain ⟨bs', r, hbs, hr, hbs', hlast, hspaces⟩ := ih fun b hb => h b (List.mem_append_left _ hb)
      refine ⟨bs', r ++ [c], ?_, ?_, hbs', hlast, ?_⟩
      · rw [blanks, List.flatMap_append, ← blanks, hbs, List.append_assoc]
        rfl
      · intro d hd
        rcases List.mem_append.1 hd with hd | hd
        · exact hr d hd
        · rw [List.mem_singleton.1 hd]
          exact h _ (List.mem_append_right _ List.mem_cons_self)
      · rw [← hspaces]
        refine ⟨fun hall b hb => hall b (List.mem_append_left _ hb), fun hall b hb => ?_⟩
        rcases List.mem_append.1 hb with hb | hb
        · exact hall b hb
        · rw [List.mem_singleton.1 hb]
          trivial
    | comment inner =>
      refine ⟨bs ++ [.comment inner], [], by rw [List.append_nil], by simp, h, ?_, ?_⟩
      · intro c hc
        have htext : blanks (bs ++ [.comment inner]) = blanks bs ++ 40 :: inner ++ [41] := by simp [blanks, Blank.text]
        rw [htext, List.getLast?_concat] at hc
        exact (Option.some.inj hc).symm
      · refine ⟨fun hall => (hall _ (List.mem_append_right _ List.mem_cons_self)).elim, fun hnil => ?_⟩
        exact absurd hnil (by simp)

/-- Between blanks that begin and end with a comment, or are missing, nothing is
    white space at the ends. -/
theorem bounded_blanks {before after : List Blank} {s : Text} (hbefore : ∀ c ∈ (blanks before).head?, c = 40)
    (hs : Bounded s) (hafter : ∀ c ∈ (blanks after).getLast?, c = 41) : Bounded (blanks before ++ s ++ blanks after) where
  ne_nil := List.append_ne_nil_of_left_ne_nil (List.append_ne_nil_of_right_ne_nil _ hs.ne_nil) _
  head := by
    intro c hc
    rw [List.append_assoc] at hc
    cases hb : blanks before with
    | nil =>
      rw [hb, List.nil_append, List.head?_append_of_ne_nil _ hs.ne_nil] at hc
      exact hs.head c hc
    | cons d rest =>
      rw [hb] at hbefore hc
      rw [hbefore c hc]
      decide
  last := by
    intro c hc
    cases ha : (blanks after).getLast? with
    | none =>
      rw [List.getLast?_eq_none_iff.1 ha, List.append_nil, List.getLast?_append_of_ne_nil _ hs.ne_nil] at hc
      exact hs.last c hc
    | some d =>
      have hne : blanks after ≠ [] := by
        intro hnil
        rw [hnil] at ha
        cases ha
      rw [List.getLast?_append_of_ne_nil _ hne] at hc
      rw [hafter c hc]
      decide

end Mailbox
