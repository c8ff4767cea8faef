import HMailServer.Lib.Mailbox

/- The arguments of MAIL and RCPT (RFC 5321, section 4.1.2): a path in angle
   brackets without a source route, and parameters behind it, each with one space
   in front of it. -/
namespace SmtpPath
open Mailbox (Text isAtext)

def isAlphanumeric (c : Nat) : Bool := 48 ≤ c ∧ c ≤ 57 ∨ 65 ≤ c ∧ c ≤ 90 ∨ 97 ≤ c ∧ c ≤ 122

/-- `qtextSMTP` -/
def isQtext (c : Nat) : Bool := 32 ≤ c ∧ c ≤ 126 ∧ c ≠ 34 ∧ c ≠ 92

/-- `dcontent` -/
def isDcontent (c : Nat) : Bool := 33 ≤ c ∧ c ≤ 126 ∧ c ≠ 91 ∧ c ≠ 92 ∧ c ≠ 93

/-- The characters of an `esmtp-value`. -/
def isValueCharacter (c : Nat) : Bool := 33 ≤ c ∧ c ≤ 126 ∧ c ≠ 61

/-- What stands between the quotes of a `Quoted-string`. -/
inductive QuotedContent : Text → Prop
  | nil : QuotedContent []
  | char {c : Nat} {s : Text} (hc : isQtext c = true) (hs : QuotedContent s) : QuotedContent (c :: s)
  | pair {c : Nat} {s : Text} (hc : 32 ≤ c ∧ c ≤ 126) (hs : QuotedContent s) : QuotedContent (92 :: c :: s)

inductive LocalPart : Text → Prop
  | dotString {atoms : List Text} (hne : atoms ≠ []) (h : ∀ atom ∈ atoms, atom ≠ [] ∧ ∀ c ∈ atom, isAtext c = true) :
      LocalPart ([46].intercalate atoms)
  | quotedString {s : Text} (h : QuotedContent s) : LocalPart (34 :: s ++ [34])

/-- A `sub-domain`: letters and digits, and hyphens between them. -/
def SubDomain (s : Text) : Prop :=
  (∀ c ∈ s, isAlphanumeric c = true ∨ c = 45) ∧ (∃ c ∈ s.head?, isAlphanumeric c = true) ∧
    ∃ c ∈ s.getLast?, isAlphanumeric c = true

/-- A domain, or an address literal of any characters that one may hold. -/
inductive Domain : Text → Prop
  | names {labels : List Text} (hne : labels ≠ []) (h : ∀ label ∈ labels, SubDomain label) :
      Domain ([46].intercalate labels)
  | literal {s : Text} (hne : s ≠ []) (h : ∀ c ∈ s, isDcontent c = true) : Domain (91 :: s ++ [93])

/-- What stands in the angle brackets. -/
inductive PathMailbox : Text → Prop
  | empty : PathMailbox []
  | mailbox {localPart domain : Text} (hl : LocalPart localPart) (hd : Domain domain) :
      PathMailbox (localPart ++ 64 :: domain)

/-- An `esmtp-param`: a keyword, alone or with a value. -/
inductive Parameter : Text → Prop
  | keyword {k : Text} (hne : k ≠ []) (h : ∀ c ∈ k, isAlphanumeric c = true ∨ c = 45)
      (hhead : ∃ c ∈ k.head?, isAlphanumeric c = true) : Parameter k
  | value {k v : Text} (hk : Parameter k) (hkeyword : 61 ∉ k) (hne : v ≠ []) (h : ∀ c ∈ v, isValueCharacter c = true) :
      Parameter (k ++ 61 :: v)

/-- Parameters with one space between them. -/
def parameterText (parameters : List Text) : Text := [32].intercalate parameters

/-- The argument of the command. -/
def argument (mailbox : Text) (parameters : List Text) : Text :=
  60 :: (mailbox ++ 62 :: parameters.flatMap (32 :: ·))

/-! ## The characters of a mailbox -/

theorem isAtext_facts {c : Nat} (h : isAtext c = true) : 33 ≤ c ∧ c ≤ 126 ∧ c ≠ 34 ∧ c ≠ 60 ∧ c ≠ 62 := by
  simp only [isAtext, Mailbox.specials, decide_eq_true_eq, List.mem_cons, not_or] at h
  omega

theorem isAlphanumeric_facts {c : Nat} (h : isAlphanumeric c = true) : 48 ≤ c ∧ c ≤ 122 ∧ c ≠ 60 ∧ c ≠ 62 ∧ c ≠ 61 := by
  simp only [isAlphanumeric, decide_eq_true_eq] at h
  omega

/-- A character of joined texts is the separator or is in one of them. -/
theorem mem_intercalate {sep : Nat} {texts : List Text} {c : Nat} (h : c ∈ [sep].intercalate texts) :
    c = sep ∨ ∃ t ∈ texts, c ∈ t := by
  cases texts with
  | nil => cases h
  | cons p ps =>
    rw [Separated.intercalate_cons, List.mem_append, List.mem_flatMap] at h
    obtain h | ⟨q, hq, h⟩ := h
    · exact .inr ⟨p, List.mem_cons_self, h⟩
    · obtain rfl | h := List.mem_cons.1 h
      · exact .inl rfl
      · exact .inr ⟨q, List.mem_cons_of_mem _ hq, h⟩

/-- A domain holds no space and ends with a letter, a digit or a bracket. -/
theorem Domain.facts {s : Text} (h : Domain s) :
    32 ∉ s ∧ ∃ c ∈ s.getLast?, isAlphanumeric c = true ∨ c = 93 := by
  cases h with
  | @names labels hne h =>
    refine ⟨?_, ?_⟩
    · intro hmem
      obtain h32 | ⟨label, hlabel, hmem⟩ := mem_intercalate hmem
      · cases h32
      · obtain hc | hc := (h label hlabel).1 32 hmem
        · cases hc
        · cases hc
    · -- the last label is not empty
      obtain ⟨c, hc, halnum⟩ := (h _ (List.getLast_mem hne)).2.2
      refine ⟨c, ?_, .inl halnum⟩
      have hlast : labels.dropLast ++ [labels.getLast hne] = labels := List.dropLast_append_getLast hne
      rw [← hlast]
      cases hinit : labels.dropLast with
      | nil => simpa using hc
      | cons p ps =>
        rw [List.cons_append, Separated.intercalate_cons, List.flatMap_append, List.flatMap_singleton, ← List.append_assoc,
          List.getLast?_append, List.getLast?_cons, Option.mem_def.1 hc]
        rfl
  | @literal s hne h =>
    refine ⟨?_, 93, ?_, .inr rfl⟩
    rotate_left
    · rw [Option.mem_def, List.getLast?_append]
      rfl
    intro hmem
    simp only [List.cons_append, List.mem_cons, List.mem_append, List.not_mem_nil, or_false] at hmem
    obtain hc | hmem | hc := hmem
    · cases hc
    · have := h 32 hmem
      simp [isDcontent] at this
    · cases hc

/-- A mailbox that is not empty begins and ends with a printable character that is
    no angle bracket. -/
theorem PathMailbox.ends {s : Text} (h : PathMailbox s) :
    (∀ c ∈ s.head?, 33 ≤ c ∧ c ≤ 126 ∧ c ≠ 60 ∧ c ≠ 62) ∧ ∀ c ∈ s.getLast?, 33 ≤ c ∧ c ≤ 126 ∧ c ≠ 60 ∧ c ≠ 62 := by
  cases h with
  | empty => simp
  | @mailbox localPart domain hl hd =>
    refine ⟨?_, ?_⟩
    · obtain ⟨c, hc, hprint⟩ : ∃ c ∈ localPart.head?, 33 ≤ c ∧ c ≤ 126 ∧ c ≠ 60 ∧ c ≠ 62 := by
        cases hl with
        | @dotString atoms hne h =>
          obtain ⟨a, as, rfl⟩ := List.exists_cons_of_ne_nil hne
          obtain ⟨hane, hatom⟩ := h a List.mem_cons_self
          obtain ⟨c, a, rfl⟩ := List.exists_cons_of_ne_nil hane
          have hc := isAtext_facts (hatom c List.mem_cons_self)
          exact ⟨c, by rw [Separated.intercalate_cons]; rfl, hc.1, hc.2.1, hc.2.2.2.1, hc.2.2.2.2⟩
        | quotedString _ => exact ⟨34, rfl, by decide⟩
      intro d hd'
      rw [List.head?_append, Option.mem_def.1 hc] at hd'
      cases hd'
      exact hprint
    · obtain ⟨c, hc, hend⟩ := hd.facts.2
      intro d hd'
      have hd : c = d := by simpa [List.getLast?_append, List.getLast?_cons, Option.mem_def.1 hc] using hd'
      subst hd
      obtain hend | rfl := hend
      · have := isAlphanumeric_facts hend
        omega
      · decide

/-- Behind its last quotation mark a mailbox holds no space, and without one it
    holds none at all. -/
theorem PathMailbox.noSpace {s : Text} (h : PathMailbox s) :
    (34 ∉ s → 32 ∉ s) ∧ ∀ a b, s = a ++ 34 :: b → 34 ∉ b → 32 ∉ b := by
  cases h with
  | empty => exact ⟨fun _ => List.not_mem_nil, fun a b h => by cases a <;> cases h⟩
  | @mailbox localPart domain hl hd =>
    have hdomain : (32 : Nat) ∉ 64 :: domain := by
      rw [List.mem_cons, not_or]
      exact ⟨by decide, hd.facts.1⟩
    cases hl with
    | @dotString atoms hne h =>
      have hnone : (32 : Nat) ∉ [46].intercalate atoms ++ 64 :: domain := by
        rw [List.mem_append, not_or]
        refine ⟨fun hmem => ?_, hdomain⟩
        obtain h32 | ⟨atom, hatom, hmem⟩ := mem_intercalate hmem
        · cases h32
        · exact absurd (isAtext_facts ((h atom hatom).2 32 hmem)).1 (by decide)
      refine ⟨fun _ => hnone, fun a b hs _ => ?_⟩
      rw [hs, List.mem_append, List.mem_cons, not_or, not_or] at hnone
      exact hnone.2.2
    | @quotedString inner _ =>
      refine ⟨fun hnone => absurd (by simp) hnone, fun a b hs hb => ?_⟩
      have hs' : (34 :: inner) ++ 34 :: (64 :: domain) = a ++ 34 :: b := by simpa using hs
      -- the last quotation mark is the closing one, or one of the domain
      obtain ⟨t, ha, ht⟩ | ⟨t, _, ht⟩ := List.append_eq_append_iff.1 hs'
      · cases t with
        | nil =>
          rw [List.nil_append] at ht
          rw [← (List.cons_eq_cons.1 ht).2]
          exact hdomain
        | cons c t =>
          have htail : 64 :: domain = t ++ 34 :: b := (List.cons_eq_cons.1 ht).2
          rw [htail, List.mem_append, List.mem_cons, not_or, not_or] at hdomain
          exact hdomain.2.2
      · cases t with
        | nil =>
          rw [List.nil_append] at ht
          rw [(List.cons_eq_cons.1 ht).2]
          exact hdomain
        | cons c t =>
          have htail : b = t ++ 34 :: 64 :: domain := (List.cons_eq_cons.1 ht).2
          rw [htail] at hb
          simp at hb

/-! ## The characters of parameters -/

theorem Parameter.facts {s : Text} (h : Parameter s) : s ≠ [] ∧ ∀ c ∈ s, 33 ≤ c ∧ c ≤ 126 := by
  induction h with
  | keyword hne h _ =>
    refine ⟨hne, fun c hc => ?_⟩
    obtain hc | rfl := h c hc
    · have := isAlphanumeric_facts hc
      omega
    · decide
  | @value k v _ _ hne h ih =>
    refine ⟨by simp, fun c hc => ?_⟩
    obtain hc | hc := List.mem_append.1 hc
    · exact ih.2 c hc
    · obtain rfl | hc := List.mem_cons.1 hc
      · decide
      · have hvalue := h c hc
        simp only [isValueCharacter, decide_eq_true_eq] at hvalue
        exact ⟨hvalue.1, hvalue.2.1⟩

theorem flatMap_eq_parameterText {parameters : List Text} (h : parameters ≠ []) :
    parameters.flatMap (32 :: ·) = 32 :: parameterText parameters := by
  obtain ⟨p, ps, rfl⟩ := List.exists_cons_of_ne_nil h
  rw [parameterText, Separated.intercalate_cons, List.flatMap_cons]
  rfl

end SmtpPath
