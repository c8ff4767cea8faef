import HMailServer.Smtp.SpfRecord
import HMailServer.Smtp.SpfReadableForm
import HMailServer.Lib.Scan
import HMailServer.Lib.Byte

/- What the parser of SPF records accepts: the records of the grammar of RFC 7208 section 12,
   each of which it reads back from its own text. -/
namespace HMailServer
namespace SPFSyntax

/-! ## Macro-strings -/

/-- The characters of a term: printable, and no space. -/
def isTermChar (c : UInt8) : Bool := 0x21 ≤ c && c ≤ 0x7E

/-- What a macro may hold besides its percent sign and braces. -/
def isMacroBody (macros : MacroSet) (c : UInt8) : Bool :=
  isMacroLetter macros c || AnsiString.isDigit c || toLowerAscii c == 114 || isMacroDelimiter c

theorem isTermChar_toLower : ∀ c, isTermChar (toLowerAscii c) = true → isTermChar c = true :=
  Byte.forall_of_lt (by decide +kernel)

theorem isTermChar_digit : ∀ c, AnsiString.isDigit c = true → isTermChar c = true :=
  Byte.forall_of_lt (by decide +kernel)

theorem isTermChar_literal : ∀ c, isMacroLiteral .recordTerm c = true → isTermChar c = true :=
  Byte.forall_of_lt (by decide +kernel)

theorem isTermChar_macroBody {c : UInt8} (h : isMacroBody .recordTerm c = true) : isTermChar c = true := by
  simp only [isMacroBody, Bool.or_eq_true, beq_iff_eq] at h
  obtain ((h | h) | h) | h := h
  · refine isTermChar_toLower c (List.all_eq_true.1 (by decide : (ansi "slodiphv").all isTermChar = true) _ ?_)
    unfold isMacroLetter at h
    split at h
    · assumption
    · split at h <;> cases h
  · exact isTermChar_digit c h
  · exact isTermChar_toLower c (by rw [h]; decide)
  · exact List.all_eq_true.1 (by decide : (ansi ".-+,/_=").all isTermChar = true) c (of_decide_eq_true h)

theorem readTransformers_spec {letter : UInt8} {text : AnsiString} {position n : ℕ} {mac : Macro}
    (h : readTransformers letter text position = some (mac, n)) :
    ∃ body rest, text = body ++ 125 :: rest ∧ n = position + body.length + 1 ∧
      ∀ c ∈ body, AnsiString.isDigit c = true ∨ toLowerAscii c = 114 ∨ isMacroDelimiter c = true := by
  have hdigits : ∀ c ∈ text.takeWhile AnsiString.isDigit, AnsiString.isDigit c = true :=
    fun c hc => List.mem_takeWhile_imp hc
  have htext := List.takeWhile_append_dropWhile (p := AnsiString.isDigit) (l := text)
  simp only [readTransformers] at h
  generalize text.takeWhile AnsiString.isDigit = digits at h hdigits htext
  generalize text.dropWhile AnsiString.isDigit = rest at h htext
  -- The optional `r` is the head of what follows the digits.
  obtain ⟨mark, tail, hrest, hmark, htail, hlength⟩ : ∃ mark tail : AnsiString, rest = mark ++ tail ∧
      (∀ c ∈ mark, toLowerAscii c = 114) ∧
      (if rest.head?.any (toLowerAscii · == 114) then rest.tail else rest) = tail ∧
      (if rest.head?.any (toLowerAscii · == 114) then 1 else 0) = mark.length := by
    cases rest with
    | nil => exact ⟨[], [], rfl, by simp, rfl, rfl⟩
    | cons c rest =>
      by_cases hc : toLowerAscii c = 114
      · exact ⟨[c], rest, rfl, by simpa using hc, by simp [hc], by simp [hc]⟩
      · exact ⟨[], c :: rest, rfl, by simp, by simp [hc], by simp [hc]⟩
  rw [htail, hlength] at h
  have hdelimiters : ∀ c ∈ tail.takeWhile isMacroDelimiter, isMacroDelimiter c = true :=
    fun c hc => List.mem_takeWhile_imp hc
  have htail' := List.takeWhile_append_dropWhile (p := isMacroDelimiter) (l := tail)
  split at h
  · rename_i hclose
    obtain ⟨rfl, rfl⟩ := Prod.mk.inj (Option.some.inj h)
    obtain ⟨after, hafter⟩ : ∃ after, tail.dropWhile isMacroDelimiter = 125 :: after := by
      cases hdrop : tail.dropWhile isMacroDelimiter with
      | nil =>
        rw [hdrop] at hclose
        cases hclose
      | cons c after =>
        rw [hdrop] at hclose
        obtain rfl := Option.some.inj hclose
        exact ⟨after, rfl⟩
    refine ⟨digits ++ mark ++ tail.takeWhile isMacroDelimiter, after, ?_, ?_, fun c hc => ?_⟩
    · rw [← htext, hrest, List.append_assoc, List.append_assoc, ← hafter, htail']
    · simp only [List.length_append]
      omega
    · rw [List.mem_append, List.mem_append] at hc
      obtain (hc | hc) | hc := hc
      · exact .inl (hdigits c hc)
      · exact .inr (.inl (hmark c hc))
      · exact .inr (.inr (hdelimiters c hc))
  · cases h

/-- A macro is the head of the text it is read from, and ends in a brace or in the
    character of a literal. -/
theorem tryReadMacro_spec {macros : MacroSet} {text : AnsiString} {n : ℕ} {mac : Macro}
    (h : tryReadMacro macros text = some (mac, n)) :
    ∃ body last rest, text = body ++ last :: rest ∧ n = body.length + 1 ∧ 0 < body.length ∧ last ∈ ansi "\x7d%_-" ∧
      ∀ c ∈ body, c = 37 ∨ c = 123 ∨ isMacroBody macros c = true := by
  unfold tryReadMacro at h
  split at h
  · rename_i percent next rest
    split at h
    · cases h
    · rename_i hpercent
      have hpercent := not_not.1 hpercent
      split at h
      · rename_i hliteral
        obtain ⟨rfl, rfl⟩ := Prod.mk.inj (Option.some.inj h)
        refine ⟨[percent], next, rest, rfl, rfl, Nat.one_pos, ?_, by simpa using .inl hpercent⟩
        obtain rfl | rfl | rfl := hliteral <;> decide
      · split at h
        · cases h
        · rename_i hbrace
          split at h
          · cases h
          · rename_i letter rest
            split at h
            · rename_i hletter
              obtain ⟨body, after, hrest, hn, hbody⟩ := readTransformers_spec h
              refine ⟨percent :: next :: letter :: body, 125, after, by rw [hrest]; rfl, ?_, by simp, by decide, ?_⟩
              · rw [hn]
                simp only [List.length_cons]
                omega
              · intro c hc
                simp only [List.mem_cons] at hc
                obtain rfl | rfl | rfl | hc := hc
                · exact .inl hpercent
                · exact .inr (.inl (not_not.1 hbrace))
                · exact .inr (.inr (by simp [isMacroBody, hletter]))
                · refine .inr (.inr ?_)
                  unfold isMacroBody
                  obtain h | h | h := hbody c hc <;> simp [h]
            · cases h
  · cases h

theorem isValidFrom_drop (macros : MacroSet) (skip : ℕ) (text : AnsiString) :
    isValidFrom macros skip text = isValidFrom macros 0 (text.drop skip) := by
  induction text generalizing skip with
  | nil => cases skip <;> rfl
  | cons c text ih =>
    cases skip with
    | zero => rfl
    | succ skip => exact ih skip

/-- The walk over a macro-string, as an induction: a literal or a whole macro at a time. -/
theorem isValidFrom_induction {macros : MacroSet} {Q : AnsiString → Prop} (hnil : Q [])
    (hliteral : ∀ c text, c ≠ 37 → isMacroLiteral macros c = true → isValidFrom macros 0 text = true → Q text → Q (c :: text))
    (hspan : ∀ mac body last text, tryReadMacro macros (body ++ last :: text) = some (mac, body.length + 1) →
      last ∈ ansi "\x7d%_-" → (∀ c ∈ body, c = 37 ∨ c = 123 ∨ isMacroBody macros c = true) →
      isValidFrom macros 0 text = true → Q text → Q (body ++ last :: text))
    (text : AnsiString) (h : isValidFrom macros 0 text = true) : Q text := by
  induction hlength : text.length using Nat.strong_induction_on generalizing text with
  | _ n ih =>
    subst hlength
    cases text with
    | nil => exact hnil
    | cons c text =>
      rw [isValidFrom] at h
      split at h
      · split at h
        · cases h
        · rename_i mac length hread
          obtain ⟨body, last, rest, htext, rfl, hpos, hlast, hbody⟩ := tryReadMacro_spec hread
          have hrest : text.drop (body.length + 1 - 1) = rest := by
            have hdrop : (c :: text).drop (body.length + 1) = rest := by rw [htext, List.drop_append]; simp
            rw [← hdrop, Nat.add_sub_cancel, List.drop_succ_cons]
          rw [isValidFrom_drop, hrest] at h
          rw [htext] at hread ⊢
          refine hspan mac body last rest hread hlast hbody h (ih _ ?_ rest h rfl)
          rw [htext]
          simp only [List.length_append, List.length_cons]
          omega
      · rename_i hc
        split at h
        · cases h
        · rename_i hliteral'
          exact hliteral c text hc (by simpa using hliteral') h (ih _ (Nat.lt_succ_self _) text h rfl)

theorem isTermChar_of_valid {text : AnsiString} (h : isValidMacroString .recordTerm text = true) :
    ∀ c ∈ text, isTermChar c = true := by
  refine isValidFrom_induction (Q := fun text => ∀ c ∈ text, isTermChar c = true) (by simp) ?_ ?_ text h
  · intro c text _ hliteral _ ih d hd
    obtain rfl | hd := List.mem_cons.1 hd
    · exact isTermChar_literal d hliteral
    · exact ih d hd
  · intro mac body last text _ hlast hbody _ ih d hd
    rw [List.mem_append, List.mem_cons] at hd
    obtain hd | rfl | hd := hd
    · obtain rfl | rfl | hd := hbody d hd
      · decide
      · decide
      · exact isTermChar_macroBody hd
    · exact List.all_eq_true.1 (by decide : (ansi "\x7d%_-").all isTermChar = true) d hlast
    · exact ih d hd

/-! ## Domain-specs -/

theorem endsWithMacro_append (atEnd : Bool) (passed text : AnsiString) :
    endsWithMacro passed.length atEnd (passed ++ text) = endsWithMacro 0 atEnd text := by
  induction passed with
  | nil => rfl
  | cons c passed ih => exact ih

theorem endsWithMacro_last {text : AnsiString} (hvalid : isValidMacroString .recordTerm text = true) (atEnd : Bool)
    (h : endsWithMacro 0 atEnd text = true) : text = [] ∨ ∃ last ∈ ansi "\x7d%_-", text.getLast? = some last := by
  refine isValidFrom_induction (Q := fun text => ∀ atEnd, endsWithMacro 0 atEnd text = true →
    text = [] ∨ ∃ last ∈ ansi "\x7d%_-", text.getLast? = some last) (fun _ _ => .inl rfl) ?_ ?_ text hvalid atEnd h
  · intro c text hc _ _ ih atEnd hends
    rw [endsWithMacro, if_neg hc] at hends
    right
    obtain rfl | ⟨last, hlast, htext⟩ := ih false hends
    · cases hends
    · exact ⟨last, hlast, by rw [List.getLast?_cons, htext]; rfl⟩
  · intro mac body last text hread hlast hbody _ ih atEnd hends
    right
    obtain ⟨c, body, rfl⟩ : ∃ c rest, body = c :: rest := by
      cases body with
      | nil =>
        obtain ⟨_, _, _, _, hlength, hpos, _⟩ := tryReadMacro_spec hread
        simp only [List.length_nil] at hlength
        omega
      | cons c body => exact ⟨c, body, rfl⟩
    have hc : c = 37 := by
      by_contra hne
      cases body <;> simp [tryReadMacro, hne] at hread
    have hrest : endsWithMacro 0 true text = true := by
      rw [List.cons_append, endsWithMacro, if_pos hc, ← List.cons_append, hread] at hends
      have happend := endsWithMacro_append true (body ++ [last]) text
      rw [List.length_append, List.length_singleton, List.append_assoc, List.singleton_append] at happend
      rw [← happend]
      simpa using hends
    obtain rfl | ⟨last', hlast', htext⟩ := ih true hrest
    · exact ⟨last, hlast, by rw [List.getLast?_append]; rfl⟩
    · refine ⟨last', hlast', ?_⟩
      rw [List.getLast?_append, List.getLast?_cons, htext]
      rfl

theorem getLast?_afterLast {c : UInt8} {text after : AnsiString} (h : afterLast c text = some after) (hne : after ≠ []) :
    text.getLast? = after.getLast? := by
  unfold afterLast at h
  split at h
  · obtain rfl := Option.some.inj h
    have hsplit := List.rdropWhile_append_rtakeWhile (p := (· != c)) (l := text)
    conv_lhs => rw [← hsplit]
    rw [List.getLast?_append_of_ne_nil _ hne]
  · cases h

/-- No domain-spec ends in a slash, so a length behind it is told from it. -/
theorem last_of_isValidDomainSpec {text : AnsiString} (h : isValidDomainSpec text = true) :
    text.getLast? ≠ some 47 := by
  unfold isValidDomainSpec at h
  split at h
  · cases h
  · rename_i hne
    split at h
    · cases h
    · rename_i hvalid
      split at h
      · rename_i hends
        obtain rfl | ⟨last, hlast, htext⟩ := endsWithMacro_last (by simpa using hvalid) false hends
        · exact nofun
        · rw [htext]
          intro heq
          obtain rfl := Option.some.inj heq
          exact absurd hlast (by decide)
      · split at h
        · cases h
        · rename_i label hlabel
          intro hlast
          have hname : withoutTrailingDot text = text := by
            rw [withoutTrailingDot, hlast, if_neg (by decide)]
          rw [hname] at hlabel
          unfold isTopLabel at h
          split at h
          · cases h
          · rename_i hlabelNe
            split at h
            · cases h
            · rename_i hall
              rw [getLast?_afterLast hlabel (by simpa using hlabelNe)] at hlast
              have hmem := List.mem_of_getLast? hlast
              have hchars : ∀ x ∈ label, isAlpha x = false → ¬x = 45 → AnsiString.isDigit x = true := by simpa using hall
              exact absurd (hchars 47 hmem (by decide) (by decide)) (by decide)

theorem valid_of_isValidDomainSpec {text : AnsiString} (h : isValidDomainSpec text = true) :
    isValidMacroString .recordTerm text = true ∧ text ≠ [] := by
  unfold isValidDomainSpec at h
  split at h
  · cases h
  · rename_i hne
    split at h
    · cases h
    · rename_i hvalid
      exact ⟨by simpa using hvalid, by simpa using hne⟩

end SPFSyntax

/-! ## Records of the grammar -/

namespace SPFMechanism
open SPFSyntax

/-- A directive of the grammar, one constructor for a shape. -/
inductive WellFormed : SPFMechanism → Prop where
  | all (qualifier) : WellFormed { type := .All, qualifier }
  | required {type domainSpec} (qualifier) (htype : type = .Include ∨ type = .Exists)
      (hdomain : isValidDomainSpec domainSpec = true) : WellFormed { type, qualifier, domainSpec := some domainSpec }
  | address {type domainSpec ip4PrefixLength ip6PrefixLength} (qualifier) (htype : type = .A ∨ type = .MX)
      (hdomain : ∀ d ∈ domainSpec, isValidDomainSpec d = true) (hip4 : ip4PrefixLength ≤ 32)
      (hip6 : ip6PrefixLength ≤ 128) :
      WellFormed { type, qualifier, domainSpec, ip4PrefixLength, ip6PrefixLength }
  | ptr {domainSpec} (qualifier) (hdomain : ∀ d ∈ domainSpec, isValidDomainSpec d = true) :
      WellFormed { type := .PTR, qualifier, domainSpec }
  | ip4 {address ip4PrefixLength} (qualifier) (haddress : isValidIP4Network address = true)
      (hip4 : ip4PrefixLength ≤ 32) : WellFormed { type := .IP4, qualifier, address, ip4PrefixLength }
  | ip6 {address ip6PrefixLength} (qualifier) (haddress : isValidIP6Network address = true)
      (hip6 : ip6PrefixLength ≤ 128) : WellFormed { type := .IP6, qualifier, address, ip6PrefixLength }

def qualifierText : Qualifier → AnsiString
  | .pass => ansi "+"
  | .fail => ansi "-"
  | .softFail => ansi "~"
  | .neutral => ansi "?"

def typeText : MechanismType → AnsiString
  | .All => ansi "all"
  | .Include => ansi "include"
  | .A => ansi "a"
  | .MX => ansi "mx"
  | .PTR => ansi "ptr"
  | .IP4 => ansi "ip4"
  | .IP6 => ansi "ip6"
  | .Exists => ansi "exists"

/-- The argument of a directive that may name a domain. -/
def domainText (domainSpec : Option AnsiString) : AnsiString := domainSpec.elim [] (58 :: ·)

def lengthText (length : ℕ) : AnsiString := 47 :: SPFAddress.toDecimal length

/-- What stands behind the name of a directive, with every length written out. -/
def argumentText (m : SPFMechanism) : AnsiString :=
  match m.type with
  | .A | .MX => domainText m.domainSpec ++ lengthText m.ip4PrefixLength ++ 47 :: lengthText m.ip6PrefixLength
  | .IP4 => 58 :: m.address ++ lengthText m.ip4PrefixLength
  | .IP6 => 58 :: m.address ++ lengthText m.ip6PrefixLength
  | _ => domainText m.domainSpec

def text (m : SPFMechanism) : AnsiString := qualifierText m.qualifier ++ typeText m.type ++ m.argumentText

end SPFMechanism

namespace SPFRecord
open SPFSyntax SPFMechanism

structure WellFormed (r : SPFRecord) : Prop where
  mechanisms : ∀ m ∈ r.mechanisms, m.WellFormed
  redirect : ∀ d ∈ r.redirectDomainSpec, isValidDomainSpec d = true
  explanation : ∀ d ∈ r.explanationDomainSpec, isValidDomainSpec d = true

def terms (r : SPFRecord) : List AnsiString :=
  r.mechanisms.map SPFMechanism.text ++ (r.redirectDomainSpec.map (ansi "redirect=" ++ ·)).toList ++
    (r.explanationDomainSpec.map (ansi "exp=" ++ ·)).toList

def text (r : SPFRecord) : AnsiString := [32].intercalate (version :: r.terms)

/-! ## What is accepted is of the grammar -/

theorem wellFormed_push {r : SPFRecord} {m : SPFMechanism} (hr : r.WellFormed) (hm : m.WellFormed) : (r.push m).WellFormed := by
  refine ⟨fun m' hm' => ?_, hr.redirect, hr.explanation⟩
  obtain hm' | hm' := List.mem_append.1 hm'
  · exact hr.mechanisms m' hm'
  · rw [List.mem_singleton.1 hm']
    exact hm

theorem tryParsePrefixLength_le {text : AnsiString} {maximum length : ℕ}
    (h : tryParsePrefixLength text maximum = some length) : length ≤ maximum := by
  unfold tryParsePrefixLength at h
  repeat' split at h
  all_goals try cases h
  rename_i hle
  exact not_lt.1 hle

theorem tryReadSinglePrefixLength_le {term rest : AnsiString} {maximum length n : ℕ} (hlength : length ≤ maximum)
    (h : tryReadSinglePrefixLength term maximum length = some (rest, n)) : n ≤ maximum := by
  unfold tryReadSinglePrefixLength at h
  split at h
  · obtain ⟨_, rfl⟩ := Prod.mk.inj (Option.some.inj h)
    exact hlength
  · split at h
    · cases h
    · obtain ⟨_, hparse, heq⟩ := Option.map_eq_some_iff.1 h
      obtain ⟨_, rfl⟩ := Prod.mk.inj heq
      exact tryParsePrefixLength_le hparse

theorem tryReadDualPrefixLengths_le {term rest : AnsiString} {ip4 ip6 n4 n6 : ℕ} (hip4 : ip4 ≤ 32) (hip6 : ip6 ≤ 128)
    (h : tryReadDualPrefixLengths term ip4 ip6 = some (rest, n4, n6)) : n4 ≤ 32 ∧ n6 ≤ 128 := by
  unfold tryReadDualPrefixLengths at h
  split at h
  · obtain ⟨_, rfl, rfl⟩ := by simpa only [Prod.mk.injEq] using Option.some.inj h
    exact ⟨hip4, hip6⟩
  · split at h
    · obtain ⟨_, hparse, heq⟩ := Option.map_eq_some_iff.1 h
      obtain ⟨_, rfl, rfl⟩ := by simpa only [Prod.mk.injEq] using heq
      exact ⟨tryParsePrefixLength_le hparse, hip6⟩
    · split at h
      · cases h
      · rename_i length hlength
        split at h
        · obtain ⟨_, rfl, rfl⟩ := by simpa only [Prod.mk.injEq] using Option.some.inj h
          exact ⟨hip4, tryParsePrefixLength_le hlength⟩
        · split at h
          · cases h
          · obtain ⟨_, hparse, heq⟩ := Option.map_eq_some_iff.1 h
            obtain ⟨_, rfl, rfl⟩ := by simpa only [Prod.mk.injEq] using heq
            exact ⟨tryParsePrefixLength_le hparse, tryParsePrefixLength_le hlength⟩

variable {qualifier : Qualifier} {type : MechanismType} {remainder : AnsiString} {r r' : SPFRecord}

theorem parseAll_wellFormed (hr : r.WellFormed) (h : parseAll qualifier remainder r = .ok r') : r'.WellFormed := by
  unfold parseAll at h
  split at h
  · cases h
  · cases h
    exact wellFormed_push hr (.all qualifier)

theorem parseWithRequiredDomain_wellFormed (hr : r.WellFormed) (htype : type = .Include ∨ type = .Exists)
    (h : parseWithRequiredDomain type qualifier remainder r = .ok r') : r'.WellFormed := by
  unfold parseWithRequiredDomain at h
  split at h
  · cases h
  · split at h
    · cases h
    · rename_i hdomain
      cases h
      exact wellFormed_push hr (.required qualifier htype (by simpa using hdomain))

theorem parseAddressMechanism_wellFormed (hr : r.WellFormed) (htype : type = .A ∨ type = .MX)
    (h : parseAddressMechanism type qualifier remainder r = .ok r') : r'.WellFormed := by
  unfold parseAddressMechanism at h
  split at h
  · cases h
  · rename_i rest n4 n6 hread
    obtain ⟨hip4, hip6⟩ := tryReadDualPrefixLengths_le (by decide) (by decide) hread
    split at h
    · cases h
      exact wellFormed_push hr (.address qualifier htype nofun hip4 hip6)
    · split at h
      · cases h
      · split at h
        · cases h
        · rename_i hdomain
          cases h
          refine wellFormed_push hr (.address qualifier htype (fun d hd => ?_) hip4 hip6)
          obtain rfl := Option.some.inj hd
          simpa using hdomain

theorem parsePtr_wellFormed (hr : r.WellFormed) (h : parsePtr qualifier remainder r = .ok r') : r'.WellFormed := by
  unfold parsePtr at h
  split at h
  · cases h
    exact wellFormed_push hr (.ptr qualifier nofun)
  · split at h
    · cases h
    · split at h
      · cases h
      · rename_i hdomain
        cases h
        refine wellFormed_push hr (.ptr qualifier fun d hd => ?_)
        obtain rfl := Option.some.inj hd
        simpa using hdomain

theorem parseIP_wellFormed (hr : r.WellFormed) (htype : type = .IP4 ∨ type = .IP6)
    (h : parseIP type qualifier remainder r = .ok r') : r'.WellFormed := by
  unfold parseIP at h
  split at h
  · cases h
  · split at h
    · rename_i hip4
      split at h
      · cases h
      · rename_i hread
        split at h
        · cases h
        · rename_i haddress
          cases h
          subst hip4
          exact wellFormed_push hr (.ip4 qualifier (by simpa using haddress) (tryReadSinglePrefixLength_le le_rfl hread))
    · rename_i hip4
      obtain rfl := htype.resolve_left hip4
      split at h
      · cases h
      · rename_i hread
        split at h
        · cases h
        · rename_i haddress
          cases h
          exact wellFormed_push hr (.ip6 qualifier (by simpa using haddress) (tryReadSinglePrefixLength_le le_rfl hread))

theorem parseDirective_wellFormed {term : AnsiString} (hr : r.WellFormed) (h : parseDirective term r = .ok r') :
    r'.WellFormed := by
  have hcase : ∀ {c : Bool} {x y : Except AnsiString SPFRecord}, (x = .ok r' → r'.WellFormed) →
      (y = .ok r' → r'.WellFormed) → (if c then x else y) = .ok r' → r'.WellFormed := by
    intro c x y hx hy hite
    cases c
    · exact hy hite
    · exact hx hite
  revert h
  refine hcase (parseAll_wellFormed hr) ?_
  refine hcase (parseWithRequiredDomain_wellFormed hr (.inl rfl)) ?_
  refine hcase (parseWithRequiredDomain_wellFormed hr (.inr rfl)) ?_
  refine hcase (parseAddressMechanism_wellFormed hr (.inl rfl)) ?_
  refine hcase (parseAddressMechanism_wellFormed hr (.inr rfl)) ?_
  refine hcase (parsePtr_wellFormed hr) ?_
  refine hcase (parseIP_wellFormed hr (.inl rfl)) ?_
  exact hcase (parseIP_wellFormed hr (.inr rfl)) nofun

theorem parseModifier_wellFormed {name value : AnsiString} (hr : r.WellFormed) (h : parseModifier name value r = .ok r') :
    r'.WellFormed := by
  unfold parseModifier at h
  split at h
  · cases h
  split at h
  · split at h
    · cases h
    split at h
    · cases h
    · rename_i hdomain
      cases h
      refine ⟨hr.mechanisms, fun d hd => ?_, hr.explanation⟩
      obtain rfl := Option.some.inj hd
      simpa using hdomain
  split at h
  · split at h
    · cases h
    split at h
    · cases h
    · rename_i hdomain
      cases h
      refine ⟨hr.mechanisms, hr.redirect, fun d hd => ?_⟩
      obtain rfl := Option.some.inj hd
      simpa using hdomain
  split at h
  · cases h
  · cases h
    exact hr

theorem parseTerms_wellFormed {terms : List AnsiString} (hr : r.WellFormed) (h : parseTerms terms r = .ok r') :
    r'.WellFormed := by
  induction terms generalizing r with
  | nil =>
    cases h
    exact hr
  | cons term terms ih =>
    rw [parseTerms] at h
    split at h
    · cases h
    · rename_i record hterm
      refine ih ?_ h
      unfold parseTerm at hterm
      dsimp only at hterm
      split at hterm
      · exact parseModifier_wellFormed hr hterm
      · exact parseDirective_wellFormed hr hterm

theorem parse_wellFormed {textRecord : AnsiString} (h : parse textRecord = .ok r) : r.WellFormed := by
  unfold parse at h
  split at h
  · cases h
  split at h
  · cases h
  · exact parseTerms_wellFormed ⟨by simp, by simp, by simp⟩ h

/-! ## The pieces are read back -/

theorem afterLast_append {c : UInt8} {front after : AnsiString} (h : c ∉ after) :
    afterLast c (front ++ c :: after) = some after := by
  rw [afterLast, if_pos (by simp), List.rtakeWhile, List.reverse_append, List.reverse_cons, List.append_assoc]
  rw [Scan.takeWhile_append, List.reverse_reverse]
  · intro d hd
    rw [bne_iff_ne]
    rintro rfl
    exact h (List.mem_reverse.1 hd)
  · exact Scan.stops_cons (by simp)

theorem findTrailingLength_append {front digits : AnsiString} (hdigits : digits.all AnsiString.isDigit = true)
    (hne : digits ≠ []) : findTrailingLength (front ++ 47 :: digits) = some (front, digits) := by
  have hslash : 47 ∉ digits := by
    intro hmem
    exact absurd (List.all_eq_true.1 hdigits 47 hmem) (by decide)
  have hempty : digits.isEmpty = false := by simpa using hne
  rw [findTrailingLength, afterLast_append hslash]
  dsimp only
  rw [hempty, hdigits, if_neg Bool.false_ne_true, if_neg (by decide)]
  congr 2
  rw [List.length_append, List.length_cons, List.take_append_of_le_length (by omega), List.take_of_length_le (by omega)]

/-- The decimal digits of a length. -/
theorem toDecimal_digits {n : ℕ} (h : n < 256) : (SPFAddress.toDecimal n).all AnsiString.isDigit = true ∧
    SPFAddress.toDecimal n ≠ [] := by
  have hoctet := (SPFAddress.toDecimal_octet n h).1
  refine ⟨List.all_eq_true.2 (SPFAddress.isDigit_of_isOctet hoctet), ?_⟩
  intro hnil
  rw [hnil] at hoctet
  exact absurd hoctet (by decide)

theorem tryParsePrefixLength_toDecimal {n maximum : ℕ} (h : n ≤ maximum) (hmax : maximum < 256) :
    tryParsePrefixLength (SPFAddress.toDecimal n) maximum = some n := by
  obtain ⟨hoctet, hvalue⟩ := SPFAddress.toDecimal_octet n (by omega)
  obtain ⟨hdigits, hne⟩ := toDecimal_digits (n := n) (by omega)
  unfold isOctet at hoctet
  split at hoctet
  · cases hoctet
  · rename_i hlength
    rw [hdigits] at hoctet
    rw [if_neg (by decide)] at hoctet
    split at hoctet
    · cases hoctet
    · rename_i hzero
      have hempty : (SPFAddress.toDecimal n).isEmpty = false := by simpa using hne
      rw [tryParsePrefixLength, hempty, hdigits, if_neg Bool.false_ne_true, if_neg (by decide), if_neg hzero,
        if_neg (by omega), hvalue, if_neg (by omega)]

theorem tryReadSinglePrefixLength_text {front : AnsiString} {n maximum : ℕ} (length : ℕ)
    (hfront : front.getLast? ≠ some 47) (h : n ≤ maximum) (hmax : maximum < 256) :
    tryReadSinglePrefixLength (front ++ lengthText n) maximum length = some (front, n) := by
  obtain ⟨hdigits, hne⟩ := toDecimal_digits (n := n) (by omega)
  rw [tryReadSinglePrefixLength, lengthText, findTrailingLength_append hdigits hne]
  dsimp only
  rw [if_neg hfront, tryParsePrefixLength_toDecimal h hmax, Option.map_some]

theorem tryReadDualPrefixLengths_text {front : AnsiString} {n4 n6 : ℕ} (ip4 ip6 : ℕ)
    (hfront : front.getLast? ≠ some 47) (hip4 : n4 ≤ 32) (hip6 : n6 ≤ 128) :
    tryReadDualPrefixLengths (front ++ lengthText n4 ++ 47 :: lengthText n6) ip4 ip6 = some (front, n4, n6) := by
  obtain ⟨hdigits4, hne4⟩ := toDecimal_digits (n := n4) (by omega)
  obtain ⟨hdigits6, hne6⟩ := toDecimal_digits (n := n6) (by omega)
  have hsplit : front ++ lengthText n4 ++ 47 :: lengthText n6 =
      (front ++ lengthText n4 ++ [47]) ++ 47 :: SPFAddress.toDecimal n6 := by simp [lengthText]
  rw [tryReadDualPrefixLengths, hsplit, findTrailingLength_append hdigits6 hne6]
  dsimp only
  rw [List.getLast?_append, if_neg (by simp), tryParsePrefixLength_toDecimal hip6 (by decide)]
  dsimp only
  rw [List.dropLast_concat, lengthText, findTrailingLength_append hdigits4 hne4]
  dsimp only
  rw [if_neg hfront, tryParsePrefixLength_toDecimal hip4 (by decide), Option.map_some]

/-! ## The characters of a term -/

/-- The characters of an address. -/
def isAddressChar (c : UInt8) : Bool := isHexDigit c || c == 46 || c == 58

theorem isTermChar_address : ∀ c, isAddressChar c = true → isTermChar c = true ∧ c ≠ 47 :=
  Byte.forall_of_lt (by decide +kernel)

theorem isAddressChar_ip4 {text : AnsiString} (h : isValidIP4Network text = true) : ∀ c ∈ text, isAddressChar c = true := by
  intro c hc
  by_contra hnot
  have hchar : isHexDigit c = false ∧ c ≠ 46 := by
    simp only [isAddressChar, Bool.or_eq_true, beq_iff_eq, not_or] at hnot
    exact ⟨Bool.eq_false_iff.2 hnot.1.1, hnot.1.2⟩
  have hdigit : AnsiString.isDigit c = false := by
    have hhex := hchar.1
    simp only [isHexDigit, Bool.or_eq_false_iff] at hhex
    exact hhex.1.1
  exact SPFAddress.notMem_of_isValidIP4Network h hdigit hchar.2 hc

theorem countGroups_groups {written n : ℕ} {groups : List AnsiString} (h : countGroups written groups = some n) :
    ∀ group ∈ groups, ∀ c ∈ group, isAddressChar c = true := by
  induction groups generalizing written with
  | nil => simp
  | cons group groups ih =>
    rw [countGroups] at h
    intro g hg c hc
    split at h
    · split at h
      · rename_i hquad
        obtain rfl | hg := List.mem_cons.1 hg
        · exact isAddressChar_ip4 hquad c hc
        · exact ih h g hg c hc
      · cases h
    · split at h
      · rename_i hgroup
        obtain rfl | hg := List.mem_cons.1 hg
        · by_contra hnot
          have hhex : isHexDigit c = false := by
            simp only [isAddressChar, Bool.or_eq_true, not_or] at hnot
            exact Bool.eq_false_iff.2 hnot.1.1
          exact SPFAddress.notMem_of_isHexGroup hgroup hhex hc
        · exact ih h g hg c hc
      · cases h

theorem isAddressChar_side {side : AnsiString} (h : ∀ group ∈ writtenGroups side, ∀ c ∈ group, isAddressChar c = true) :
    ∀ c ∈ side, isAddressChar c = true := by
  intro c hc
  have hgroups : writtenGroups side = split side 58 := by
    rw [writtenGroups, if_neg]
    rw [List.isEmpty_iff]
    rintro rfl
    cases hc
  obtain rfl | ⟨group, hgroup, hc⟩ := Separated.mem_or_mem_splitOn 58 hc
  · decide
  · exact h group (hgroups ▸ hgroup) c hc

theorem isAddressChar_ip6 {text : AnsiString} (h : isValidIP6Network text = true) : ∀ c ∈ text, isAddressChar c = true := by
  unfold isValidIP6Network at h
  split at h
  · rename_i doubleColon hfind
    dsimp only at h
    split at h
    · cases h
    · split at h
      · rename_i written hcount
        have hgroups := countGroups_groups hcount
        have htext : text = text.take doubleColon ++ (ansi "::" ++ text.drop (doubleColon + 2)) := by
          obtain ⟨_, ⟨rest, hrest⟩, _⟩ := Occurrence.find_eq_some_iff.1 hfind
          have hdrop : text.drop (doubleColon + 2) = rest := by
            rw [← List.drop_drop, ← hrest]
            rfl
          rw [hdrop, hrest, List.take_append_drop]
        intro c hc
        rw [htext, List.mem_append, List.mem_append] at hc
        obtain hc | hc | hc := hc
        · exact isAddressChar_side (fun group hg => hgroups group (List.mem_append_left _ hg)) c hc
        · exact List.all_eq_true.1 (by decide : (ansi "::").all isAddressChar = true) c hc
        · exact isAddressChar_side (fun group hg => hgroups group (List.mem_append_right _ hg)) c hc
      · cases h
  · split at h
    · rename_i written hcount
      exact isAddressChar_side (countGroups_groups hcount)
    · cases h

theorem isTermChar_length {n : ℕ} (h : n < 256) : ∀ c ∈ lengthText n, isTermChar c = true := by
  intro c hc
  obtain rfl | hc := List.mem_cons.1 hc
  · decide
  · have hdigit := List.all_eq_true.1 (toDecimal_digits h).1 c hc
    exact isTermChar_digit c hdigit

theorem isTermChar_domain {domainSpec : Option AnsiString} (h : ∀ d ∈ domainSpec, isValidDomainSpec d = true) :
    ∀ c ∈ domainText domainSpec, isTermChar c = true := by
  cases domainSpec with
  | none => exact nofun
  | some d =>
    intro c hc
    obtain rfl | hc := List.mem_cons.1 hc
    · decide
    · exact isTermChar_of_valid (valid_of_isValidDomainSpec (h d rfl)).1 c hc

theorem isTermChar_name (m : SPFMechanism) : ∀ c ∈ qualifierText m.qualifier ++ typeText m.type,
    isTermChar c = true ∧ isArgumentStart c = false ∧ c ≠ 61 := by
  intro c hc
  have hall : (qualifierText m.qualifier ++ typeText m.type).all
      (fun c => isTermChar c && !isArgumentStart c && c != 61) = true := by
    cases m.qualifier <;> cases m.type <;> decide
  simpa [and_assoc] using List.all_eq_true.1 hall c hc

/-- What stands behind the name begins with a colon or a slash. -/
theorem argumentText_stops (m : SPFMechanism) : Scan.Stops (!isArgumentStart ·) m.argumentText := by
  have hdomain : ∀ d : Option AnsiString, Scan.Stops (!isArgumentStart ·) (domainText d) := by
    intro d
    cases d with
    | none => exact Scan.stops_nil
    | some d => exact Scan.stops_cons (by decide)
  have haddress : Scan.Stops (!isArgumentStart ·)
      (domainText m.domainSpec ++ lengthText m.ip4PrefixLength ++ 47 :: lengthText m.ip6PrefixLength) := by
    cases m.domainSpec with
    | none => exact Scan.stops_cons (by decide)
    | some d => exact Scan.stops_cons (by decide)
  unfold argumentText
  split
  · exact haddress
  · exact haddress
  · exact Scan.stops_cons (by decide)
  · exact Scan.stops_cons (by decide)
  · exact hdomain _

theorem isTermChar_text {m : SPFMechanism} (h : m.WellFormed) : ∀ c ∈ m.text, isTermChar c = true := by
  intro c hc
  obtain hc | hc := List.mem_append.1 hc
  · exact (isTermChar_name m c hc).1
  cases h with
  | all qualifier => cases hc
  | required qualifier htype hdomain =>
    obtain rfl | rfl := htype
    · exact isTermChar_domain (by simpa using hdomain) c hc
    · exact isTermChar_domain (by simpa using hdomain) c hc
  | @address type domainSpec n4 n6 qualifier htype hdomain hip4 hip6 =>
    have hc' : c ∈ domainText domainSpec ++ lengthText n4 ++ 47 :: lengthText n6 := by
      obtain rfl | rfl := htype <;> exact hc
    rw [List.mem_append, List.mem_append, List.mem_cons] at hc'
    obtain (hc | hc) | rfl | hc := hc'
    · exact isTermChar_domain hdomain c hc
    · exact isTermChar_length (by omega) c hc
    · decide
    · exact isTermChar_length (by omega) c hc
  | ptr qualifier hdomain => exact isTermChar_domain hdomain c hc
  | @ip4 address n qualifier haddress hip4 =>
    have hc' : c ∈ 58 :: address ++ lengthText n := hc
    rw [List.mem_append, List.mem_cons] at hc'
    obtain (rfl | hc) | hc := hc'
    · decide
    · exact (isTermChar_address c (isAddressChar_ip4 haddress c hc)).1
    · exact isTermChar_length (by omega) c hc
  | @ip6 address n qualifier haddress hip6 =>
    have hc' : c ∈ 58 :: address ++ lengthText n := hc
    rw [List.mem_append, List.mem_cons] at hc'
    obtain (rfl | hc) | hc := hc'
    · decide
    · exact (isTermChar_address c (isAddressChar_ip6 haddress c hc)).1
    · exact isTermChar_length (by omega) c hc

/-! ## A term is read back -/

theorem readQualifier_text (qualifier : Qualifier) (rest : AnsiString) :
    readQualifier (qualifierText qualifier ++ rest) = (qualifier, rest) := by
  cases qualifier <;> rfl

theorem parseDirective_name (m : SPFMechanism) (r : SPFRecord) :
    parseDirective m.text r =
      match m.type with
      | .All => parseAll m.qualifier m.argumentText r
      | .Include => parseWithRequiredDomain .Include m.qualifier m.argumentText r
      | .Exists => parseWithRequiredDomain .Exists m.qualifier m.argumentText r
      | .A => parseAddressMechanism .A m.qualifier m.argumentText r
      | .MX => parseAddressMechanism .MX m.qualifier m.argumentText r
      | .PTR => parsePtr m.qualifier m.argumentText r
      | .IP4 => parseIP .IP4 m.qualifier m.argumentText r
      | .IP6 => parseIP .IP6 m.qualifier m.argumentText r := by
  have hname : ∀ c ∈ typeText m.type, (!isArgumentStart c) = true := fun c hc =>
    by simpa using (isTermChar_name m c (List.mem_append_right _ hc)).2.1
  have hstops := argumentText_stops m
  rw [parseDirective, SPFMechanism.text, List.append_assoc, readQualifier_text]
  dsimp only
  rw [Scan.takeWhile_append hname hstops, Scan.dropWhile_append hname hstops]
  generalize m.argumentText = argument
  cases m.type <;> rfl

theorem last_domainText {domainSpec : Option AnsiString} (h : ∀ d ∈ domainSpec, isValidDomainSpec d = true) :
    (domainText domainSpec).getLast? ≠ some 47 := by
  cases domainSpec with
  | none => exact nofun
  | some d =>
    have hlast := last_of_isValidDomainSpec (h d rfl)
    have hne := (valid_of_isValidDomainSpec (h d rfl)).2
    obtain ⟨c, d, rfl⟩ := List.exists_cons_of_ne_nil hne
    show (58 :: c :: d).getLast? ≠ some 47
    rwa [List.getLast?_cons_cons]

theorem last_address {address : AnsiString} (h : ∀ c ∈ address, isAddressChar c = true) : address.getLast? ≠ some 47 := by
  intro hlast
  exact (isTermChar_address 47 (h 47 (List.mem_of_getLast? hlast))).2 rfl

theorem parseDirective_text {m : SPFMechanism} (h : m.WellFormed) (r : SPFRecord) :
    parseDirective m.text r = .ok (r.push m) := by
  rw [parseDirective_name]
  cases h with
  | all qualifier => rfl
  | @required type domainSpec qualifier htype hdomain =>
    have hparse : parseWithRequiredDomain type qualifier (58 :: domainSpec) r =
        .ok (r.push { type, qualifier, domainSpec := some domainSpec }) := by
      rw [parseWithRequiredDomain, if_neg (by simp), List.tail_cons, hdomain, if_neg (by decide)]
    obtain rfl | rfl := htype
    · exact hparse
    · exact hparse
  | @address type domainSpec n4 n6 qualifier htype hdomain hip4 hip6 =>
    have hparse : parseAddressMechanism type qualifier
        (domainText domainSpec ++ lengthText n4 ++ 47 :: lengthText n6) r =
        .ok (r.push { type, qualifier, domainSpec, ip4PrefixLength := n4, ip6PrefixLength := n6 }) := by
      rw [parseAddressMechanism, tryReadDualPrefixLengths_text 32 128 (last_domainText hdomain) hip4 hip6]
      cases domainSpec with
      | none => rfl
      | some d =>
        show (if (domainText (some d)).isEmpty then _ else _) = _
        rw [domainText, Option.elim_some, if_neg (by simp), if_neg (by simp), List.tail_cons, hdomain d rfl,
          if_neg (by decide)]
    obtain rfl | rfl := htype
    · exact hparse
    · exact hparse
  | @ptr domainSpec qualifier hdomain =>
    show parsePtr qualifier (domainText domainSpec) r = _
    cases domainSpec with
    | none => rfl
    | some d =>
      rw [parsePtr, domainText, Option.elim_some, if_neg (by simp), if_neg (by simp), List.tail_cons, hdomain d rfl,
        if_neg (by decide)]
  | @ip4 address n qualifier haddress hip4 =>
    show parseIP .IP4 qualifier (58 :: address ++ lengthText n) r = _
    have hread := tryReadSinglePrefixLength_text 32 (last_address (isAddressChar_ip4 haddress)) hip4 (by decide)
    rw [parseIP, List.cons_append, if_neg (by simp), if_pos rfl, List.tail_cons, hread]
    dsimp only
    rw [haddress, if_neg (by decide)]
  | @ip6 address n qualifier haddress hip6 =>
    show parseIP .IP6 qualifier (58 :: address ++ lengthText n) r = _
    have hread := tryReadSinglePrefixLength_text 128 (last_address (isAddressChar_ip6 haddress)) hip6 (by decide)
    rw [parseIP, List.cons_append, if_neg (by simp), if_neg (by decide), List.tail_cons, hread]
    dsimp only
    rw [haddress, if_neg (by decide)]

theorem parseTerm_directive {m : SPFMechanism} (h : m.WellFormed) (r : SPFRecord) :
    parseTerm m.text r = .ok (r.push m) := by
  rw [← parseDirective_text h r, parseTerm]
  have hname : ∀ c ∈ qualifierText m.qualifier ++ typeText m.type, (!isArgumentStart c && c != 61) = true := by
    intro c hc
    obtain ⟨_, hstart, hne⟩ := isTermChar_name m c hc
    simp [hstart, hne]
  have hstops : Scan.Stops (fun c => !isArgumentStart c && c != 61) m.argumentText := by
    intro c hc
    have hstart := argumentText_stops m c hc
    dsimp only at hstart ⊢
    rw [hstart, Bool.false_and]
  rw [SPFMechanism.text, Scan.dropWhile_append hname hstops, if_neg]
  intro hequals
  exact absurd (argumentText_stops m 61 hequals) (by decide)

theorem parseTerm_redirect {d : AnsiString} (hd : isValidDomainSpec d = true) {r : SPFRecord}
    (hr : r.redirectDomainSpec = none) :
    parseTerm (ansi "redirect=" ++ d) r = .ok { r with redirectDomainSpec := some d } := by
  show parseModifier (ansi "redirect") d r = _
  rw [parseModifier, if_neg (by decide), if_pos (by decide), hr, if_neg (by decide), hd, if_neg (by decide)]

theorem parseTerm_explanation {d : AnsiString} (hd : isValidDomainSpec d = true) {r : SPFRecord}
    (hr : r.explanationDomainSpec = none) :
    parseTerm (ansi "exp=" ++ d) r = .ok { r with explanationDomainSpec := some d } := by
  show parseModifier (ansi "exp") d r = _
  rw [parseModifier, if_neg (by decide), if_neg (by decide), if_pos (by decide), hr, if_neg (by decide), hd,
    if_neg (by decide)]

theorem parseTerms_directives {mechanisms : List SPFMechanism} (h : ∀ m ∈ mechanisms, m.WellFormed)
    (terms : List AnsiString) (r : SPFRecord) :
    parseTerms (mechanisms.map SPFMechanism.text ++ terms) r =
      parseTerms terms { r with mechanisms := r.mechanisms ++ mechanisms } := by
  induction mechanisms generalizing r with
  | nil => rw [List.map_nil, List.nil_append, List.append_nil]
  | cons m mechanisms ih =>
    rw [List.map_cons, List.cons_append, parseTerms, parseTerm_directive (h m List.mem_cons_self)]
    dsimp only
    rw [ih (fun m' hm' => h m' (List.mem_cons_of_mem _ hm')), push]
    dsimp only
    rw [List.append_assoc, List.singleton_append]

theorem parseTerms_text {r : SPFRecord} (h : r.WellFormed) : parseTerms r.terms {} = .ok r := by
  rw [terms, List.append_assoc, parseTerms_directives h.mechanisms]
  obtain ⟨mechanisms, redirect, explanation⟩ := r
  cases redirect with
  | none =>
    cases explanation with
    | none => rfl
    | some d =>
      show parseTerms [ansi "exp=" ++ d] _ = _
      rw [parseTerms, parseTerm_explanation (h.explanation d rfl) rfl]
      rfl
  | some d =>
    cases explanation with
    | none =>
      show parseTerms [ansi "redirect=" ++ d] _ = _
      rw [parseTerms, parseTerm_redirect (h.redirect d rfl) rfl]
      rfl
    | some d' =>
      show parseTerms [ansi "redirect=" ++ d, ansi "exp=" ++ d'] _ = _
      rw [parseTerms, parseTerm_redirect (h.redirect d rfl) rfl]
      dsimp only
      rw [parseTerms, parseTerm_explanation (h.explanation d' rfl) rfl]
      rfl

/-! ## A record is read back -/

theorem isTermChar_terms {r : SPFRecord} (h : r.WellFormed) :
    ∀ term ∈ version :: r.terms, term ≠ [] ∧ ∀ c ∈ term, isTermChar c = true := by
  have hmodifier : ∀ (name : AnsiString) (d : Option AnsiString), name ≠ [] → name.all isTermChar = true →
      (∀ x ∈ d, isValidDomainSpec x = true) →
      ∀ term ∈ (d.map (name ++ ·)).toList, term ≠ [] ∧ ∀ c ∈ term, isTermChar c = true := by
    intro name d hne hname hd term hterm
    rw [Option.mem_toList] at hterm
    obtain ⟨x, hx, rfl⟩ := Option.map_eq_some_iff.1 hterm
    refine ⟨fun hnil => hne (List.append_eq_nil_iff.1 hnil).1, fun c hc => ?_⟩
    obtain hc | hc := List.mem_append.1 hc
    · exact List.all_eq_true.1 hname c hc
    · exact isTermChar_of_valid (valid_of_isValidDomainSpec (hd x hx)).1 c hc
  intro term hterm
  rw [List.mem_cons, terms, List.mem_append, List.mem_append] at hterm
  obtain rfl | (hterm | hterm) | hterm := hterm
  · exact ⟨by decide, List.all_eq_true.1 (by decide)⟩
  · obtain ⟨m, hm, rfl⟩ := List.mem_map.1 hterm
    refine ⟨fun hnil => ?_, isTermChar_text (h.mechanisms m hm)⟩
    have hname := (List.append_eq_nil_iff.1 (List.append_eq_nil_iff.1 hnil).1).1
    revert hname
    cases m.qualifier <;> decide
  · exact hmodifier _ _ (by decide) (by decide) h.redirect term hterm
  · exact hmodifier _ _ (by decide) (by decide) h.explanation term hterm

theorem splitTerms_text {r : SPFRecord} (h : r.WellFormed) : splitTerms r.text = version :: r.terms := by
  have hterms := isTermChar_terms h
  have hsplit : split r.text 32 = version :: r.terms := by
    refine List.splitOn_intercalate 32 (fun term hterm hspace => ?_) (List.cons_ne_nil _ _)
    exact absurd ((hterms term hterm).2 32 hspace) (by decide)
  rw [splitTerms, hsplit, List.filter_eq_self]
  intro term hterm
  simpa using (hterms term hterm).1

theorem isAsciiPrintable_text {r : SPFRecord} (h : r.WellFormed) : isAsciiPrintable r.text = true := by
  rw [isAsciiPrintable, List.all_eq_true]
  intro c hc
  have hprintable : ∀ c, isTermChar c = true → (decide (0x20 ≤ c) && decide (c ≤ 0x7E)) = true :=
    Byte.forall_of_lt (by decide +kernel)
  have hsplit : split r.text 32 = version :: r.terms := by
    refine List.splitOn_intercalate 32 (fun term hterm hspace => ?_) (List.cons_ne_nil _ _)
    exact absurd ((isTermChar_terms h term hterm).2 32 hspace) (by decide)
  obtain rfl | ⟨term, hterm, hc⟩ := Separated.mem_or_mem_splitOn 32 hc
  · decide
  · exact hprintable c ((isTermChar_terms h term (hsplit ▸ hterm)).2 c hc)

theorem hasVersionTag_text (r : SPFRecord) : hasVersionTag r.text = true := by
  cases hterms : r.terms with
  | nil =>
    rw [text, hterms]
    decide
  | cons term terms =>
    have htext : r.text = version ++ 32 :: [32].intercalate (term :: terms) := by
      rw [text, hterms, List.intercalate_cons_cons, List.append_assoc]
      rfl
    rw [htext, hasVersionTag, if_neg (by simp), List.take_left, if_neg (by decide)]
    simp

/-- The parser reads exactly the records of the grammar, each of them from its own text. -/
theorem parse_exactly_grammar (r : SPFRecord) :
    (r.WellFormed ↔ ∃ textRecord, parse textRecord = .ok r) ∧ (r.WellFormed → parse r.text = .ok r) := by
  have hread : r.WellFormed → parse r.text = .ok r := by
    intro h
    rw [parse, hasVersionTag_text, if_neg (by decide), isAsciiPrintable_text h, if_neg (by decide), splitTerms_text h,
      List.tail_cons, parseTerms_text h]
  exact ⟨⟨fun h => ⟨r.text, hread h⟩, fun ⟨_, h⟩ => parse_wellFormed h⟩, hread⟩

end SPFRecord
end HMailServer
