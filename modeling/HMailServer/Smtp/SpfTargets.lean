import HMailServer.Smtp.SpfEvaluator
import HMailServer.Smtp.SpfRecordText
import HMailServer.Lib.StateRun

/- The targets of a check: what a domain-spec expands to, and that those of a parsed record
   always expand. -/
namespace HMailServer
open StateRun

namespace SPFMacroExpander
open SPFSyntax

variable {σ : Type} {value : UInt8 → StateM σ AnsiString}

/-! ## Failing -/

/-- The reader that checked a text reads it again. -/
theorem expandFrom_isSome {macros : MacroSet} {skip : ℕ} {text : AnsiString} (h : isValidFrom macros skip text = true)
    (result : AnsiString) (s : σ) : ((expandFrom value macros skip result text).run s).1.isSome = true := by
  induction text generalizing skip result s with
  | nil => cases skip <;> rfl
  | cons c text ih =>
    cases skip with
    | succ skip => exact ih h result s
    | zero =>
      rw [isValidFrom] at h
      unfold expandFrom
      by_cases hc : c = 37
      · rw [if_pos hc] at h
        rw [if_neg (not_not.2 hc)]
        cases hread : tryReadMacro macros (c :: text) with
        | none =>
          rw [hread] at h
          cases h
        | some read =>
          rw [hread] at h
          exact ih h _ _
      · rw [if_neg hc] at h
        rw [if_pos hc]
        split at h
        · cases h
        · exact ih h _ s

theorem expandDomainSpec_run {domainSpec : AnsiString} (h : isValidMacroString .recordTerm domainSpec = true) (s : σ) :
    (expandDomainSpec value domainSpec).run s =
      (((expandFrom value .recordTerm 0 [] domainSpec).run s).1.map asDomainName,
        ((expandFrom value .recordTerm 0 [] domainSpec).run s).2) := by
  unfold expandDomainSpec
  rw [h, if_neg (by decide)]
  rfl

theorem expandDomainSpec_isSome {domainSpec : AnsiString} (h : isValidMacroString .recordTerm domainSpec = true) (s : σ) :
    ((expandDomainSpec value domainSpec).run s).1.isSome = true := by
  rw [expandDomainSpec_run h, Option.isSome_map]
  exact expandFrom_isSome h [] s

/-! ## Shortening -/

/-- What is left of a name behind whole labels. -/
def Border (name rest : AnsiString) : Prop := ∃ front, name = front ++ rest ∧ (front = [] ∨ front.getLast? = some 46)

theorem Border.refl (name : AnsiString) : Border name name := ⟨[], rfl, .inl rfl⟩

theorem Border.length_le {name rest : AnsiString} (h : Border name rest) : rest.length ≤ name.length := by
  obtain ⟨front, rfl, _⟩ := h
  rw [List.length_append]
  exact Nat.le_add_left _ _

/-- Behind the first label there is no other border. -/
theorem border_label_iff {label name rest : AnsiString} (hlabel : 46 ∉ label) (hne : rest ≠ label ++ 46 :: name) :
    Border (label ++ 46 :: name) rest ↔ Border name rest := by
  constructor
  · rintro ⟨front, hfront, hend⟩
    obtain rfl | hlast := hend
    · exact absurd hfront.symm hne
    · obtain ⟨l, hl⟩ := List.mem_iff_append.1 (List.mem_of_getLast? hlast)
      obtain ⟨r, hfront'⟩ := hl
      -- The dot that ends `front` is the first one or lies behind it.
      have hsplit : label ++ 46 :: name = front ++ rest := hfront
      obtain ⟨front', hfront''⟩ : ∃ front', front = label ++ 46 :: front' := by
        obtain h | h := List.append_eq_append_iff.1 hsplit
        · obtain ⟨middle, hm, hrest⟩ := h
          cases middle with
          | nil =>
            rw [List.append_nil] at hm
            rw [hm] at hlast
            exact absurd (List.mem_of_getLast? hlast) hlabel
          | cons c middle =>
            rw [List.cons_append] at hrest
            obtain ⟨rfl, _⟩ := List.cons_eq_cons.1 hrest
            exact ⟨middle, hm⟩
        · obtain ⟨middle, hm, _⟩ := h
          rw [hm] at hlabel
          exact absurd (List.mem_append_left _ (List.mem_of_getLast? hlast)) hlabel
      rw [hfront'', List.append_assoc, List.cons_append] at hsplit
      refine ⟨front', (List.cons_eq_cons.1 (List.append_cancel_left hsplit)).2, ?_⟩
      rw [hfront'', List.getLast?_append, List.getLast?_cons] at hlast
      cases hfront' : front'.getLast? with
      | none => exact .inl (List.getLast?_eq_none_iff.1 hfront')
      | some c =>
        rw [hfront'] at hlast
        exact .inr hlast
  · rintro ⟨front, rfl, hend⟩
    refine ⟨label ++ 46 :: front, by simp, .inr ?_⟩
    rw [List.getLast?_append, List.getLast?_cons]
    obtain rfl | hlast := hend
    · rfl
    · rw [hlast]
      rfl

theorem shorten_of_le {room : ℕ} {name : AnsiString} (h : name.length ≤ 253) : shorten room name = name := by
  cases room with
  | zero => rfl
  | succ room => rw [shorten, if_pos h]

/-- The longest name behind whole labels that can be asked about, or the last label. -/
theorem shorten_spec {room : ℕ} {name : AnsiString} (hroom : name.length ≤ room) :
    Border name (shorten room name) ∧ ((shorten room name).length ≤ 253 ∨ 46 ∉ shorten room name) ∧
      ∀ rest, Border name rest → rest.length ≤ 253 → rest.length ≤ (shorten room name).length := by
  induction room generalizing name with
  | zero =>
    obtain rfl := List.length_eq_zero_iff.1 (Nat.le_zero.1 hroom)
    exact ⟨.refl [], .inl (Nat.zero_le _), fun rest hrest _ => hrest.length_le⟩
  | succ room ih =>
    rw [shorten]
    split
    · rename_i hle
      exact ⟨.refl name, .inl hle, fun rest hrest _ => hrest.length_le⟩
    · rename_i hlong
      split
      · rename_i hdot
        obtain ⟨label, rest, hlabel, hsplit⟩ : ∃ label rest, 46 ∉ label ∧ name = label ++ 46 :: rest := by
          obtain ⟨label, rest, hname, hnot⟩ := List.eq_append_cons_of_mem hdot
          exact ⟨label, rest, hnot, hname⟩
        have hrest : (name.dropWhile (· != 46)).tail = rest := by
          rw [hsplit, Scan.dropWhile_append (fun c hc => by
            rw [bne_iff_ne]
            rintro rfl
            exact hlabel hc) (Scan.stops_cons (by decide)), List.tail_cons]
        have hlength : name.length = label.length + 1 + rest.length := by
          rw [hsplit, List.length_append, List.length_cons]
          omega
        rw [hrest]
        obtain ⟨hborder, hshort, hmax⟩ := @ih rest (by omega)
        have hbehind : ∀ other, other.length ≤ rest.length → (Border name other ↔ Border rest other) := by
          intro other hother
          rw [hsplit]
          refine border_label_iff hlabel fun heq => ?_
          rw [heq, List.length_append, List.length_cons] at hother
          omega
        refine ⟨(hbehind _ hborder.length_le).2 hborder, hshort, fun other hother hfits => ?_⟩
        have hother' : Border rest other := by
          rw [hsplit] at hother
          refine (border_label_iff hlabel fun heq => ?_).1 hother
          rw [← hsplit] at heq
          rw [heq] at hfits
          exact hlong hfits
        exact hmax other hother' hfits
      · rename_i hdot
        exact ⟨.refl name, .inr hdot, fun rest hrest _ => hrest.length_le⟩

end SPFMacroExpander

namespace SPFEvaluator
open SPFSyntax SPFMechanism

/-! ## Parsed records -/

theorem readTarget_ne_syntaxError {target : Option AnsiString} (h : target.isSome = true) :
    readTarget target ≠ .syntaxError := by
  obtain ⟨name, rfl⟩ := Option.isSome_iff_exists.1 h
  unfold readTarget
  dsimp only
  split <;> exact nofun

theorem resolveTargetName_ne_syntaxError (e : SPFEvaluator) {domainSpec : Option AnsiString}
    (h : ∀ d ∈ domainSpec, isValidDomainSpec d = true) (domain : AnsiString) (s : SPFState) :
    ((e.resolveTargetName domainSpec domain).run s).1 ≠ .syntaxError := by
  have hexpands : ((e.expandTarget domainSpec domain).run s).1.isSome = true → _ := readTarget_ne_syntaxError
  refine hexpands ?_
  cases domainSpec with
  | none => rfl
  | some d => exact SPFMacroExpander.expandDomainSpec_isSome (valid_of_isValidDomainSpec (h d rfl)).1 s

theorem domainSpec_of_wellFormed {m : SPFMechanism} (h : m.WellFormed) : ∀ d ∈ m.domainSpec, isValidDomainSpec d = true := by
  cases h with
  | all qualifier => exact nofun
  | required qualifier htype hdomain => simpa using hdomain
  | address qualifier htype hdomain hip4 hip6 => exact hdomain
  | ptr qualifier hdomain => exact hdomain
  | ip4 qualifier haddress hip4 => exact nofun
  | ip6 qualifier haddress hip6 => exact nofun

/-- Nothing reaches the branches for a target that does not expand: in whatever state a
    check is, the targets of a parsed record do. -/
theorem parsed_targets_expand {textRecord : AnsiString} {record : SPFRecord} (h : SPFRecord.parse textRecord = .ok record)
    (e : SPFEvaluator) (domain : AnsiString) (s : SPFState) :
    (∀ m ∈ record.mechanisms, ((e.resolveTargetName m.domainSpec domain).run s).1 ≠ .syntaxError) ∧
      (∀ d ∈ record.redirectDomainSpec, ((e.resolveTargetName (some d) domain).run s).1 ≠ .syntaxError) ∧
      ∀ d ∈ record.explanationDomainSpec,
        ((SPFMacroExpander.expandDomainSpec (e.macroValue domain) d).run s).1.isSome = true := by
  have hrecord := SPFRecord.parse_wellFormed h
  refine ⟨fun m hm => ?_, fun d hd => ?_, fun d hd => ?_⟩
  · exact resolveTargetName_ne_syntaxError e (domainSpec_of_wellFormed (hrecord.mechanisms m hm)) domain s
  · refine resolveTargetName_ne_syntaxError e (fun d' hd' => ?_) domain s
    obtain rfl := Option.some.inj hd'
    exact hrecord.redirect d hd
  · exact SPFMacroExpander.expandDomainSpec_isSome (valid_of_isValidDomainSpec (hrecord.explanation d hd)).1 s

/-- A check that can look nothing up. -/
def lonely : SPFEvaluator where
  lookup := fun _ _ => none
  expander := SPFMacroExpander.create (SPFAddress.ofIP4 ![192, 0, 2, 7]) [] (ansi "mail.a.test")

theorem parsed_targets_expand_names :
    ((lonely.resolveTargetName (some (ansi "%{p2}.%{d}")) (ansi "a.test")).run {}).1 ≠ .syntaxError := by
  have hparse : SPFRecord.parse (ansi "v=spf1 exists:%{p2}.%{d} -all") =
      .ok { mechanisms := [{ type := .Exists, qualifier := .pass, domainSpec := some (ansi "%{p2}.%{d}") },
        { type := .All, qualifier := .fail }] } := by decide +kernel
  have htargets := (parsed_targets_expand hparse lonely (ansi "a.test") {}).1
    { type := .Exists, qualifier := .pass, domainSpec := some (ansi "%{p2}.%{d}") } List.mem_cons_self
  exact htargets

end SPFEvaluator

/-! ## The reverse name -/

namespace SPFAddress
open SPFSyntax

theorem length_dotted {parts : List AnsiString} {n : ℕ} (h : ∀ part ∈ parts, part.length ≤ n) :
    (parts.flatMap ((46 : UInt8) :: ·)).length ≤ parts.length * (n + 1) := by
  induction parts with
  | nil => exact Nat.zero_le _
  | cons part parts ih =>
    have hpart := h part List.mem_cons_self
    have hrest := ih fun p hp => h p (List.mem_cons_of_mem _ hp)
    rw [List.flatMap_cons, List.length_append, List.length_cons, List.length_cons, Nat.succ_mul]
    omega

theorem length_intercalate_le {parts : List AnsiString} {n : ℕ} (h : ∀ part ∈ parts, part.length ≤ n) :
    ([46].intercalate parts).length ≤ parts.length * (n + 1) := by
  cases parts with
  | nil => exact Nat.zero_le _
  | cons part parts =>
    have hpart := h part List.mem_cons_self
    have hrest := length_dotted fun p hp => h p (List.mem_cons_of_mem _ hp)
    rw [Separated.intercalate_cons, List.length_append, List.length_cons, Nat.succ_mul]
    omega

theorem length_getDottedForm (a : SPFAddress) : a.getDottedForm.length ≤ 64 := by
  unfold getDottedForm
  split
  · refine (length_intercalate_le (n := 3) fun part hpart => ?_).trans (by simp)
    obtain ⟨octet, _, rfl⟩ := List.mem_map.1 hpart
    have hoctet := (toDecimal_octet octet.toNat octet.toNat_lt).1
    unfold isOctet at hoctet
    split at hoctet
    · cases hoctet
    · omega
  · exact Nat.zero_le _
  · refine (length_intercalate_le (n := 3) fun part hpart => ?_).trans (by simp)
    obtain ⟨byte, _, rfl⟩ := List.mem_map.1 hpart
    exact le_rfl

/-- The parts with a dot behind each. -/
theorem dotted_behind {parts : List AnsiString} (h : parts ≠ []) :
    parts.flatMap (· ++ [46]) = [46].intercalate parts ++ [46] := by
  induction parts with
  | nil => exact absurd rfl h
  | cons part parts ih =>
    cases parts with
    | nil => simp
    | cons next parts =>
      rw [List.flatMap_cons, ih (List.cons_ne_nil _ _), List.intercalate_cons_cons]
      simp

theorem length_reversed (text : AnsiString) : ([46].intercalate (split text 46).reverse).length = text.length := by
  have hne : split text 46 ≠ [] := List.splitOn_ne_nil 46 text
  have hjoin : [46].intercalate (split text 46) = text := List.intercalate_splitOn 46
  have hbehind := congrArg List.length (dotted_behind hne)
  have hreversed := congrArg List.length (dotted_behind (List.reverse_eq_nil_iff.not.2 hne))
  rw [List.length_append, List.length_flatMap] at hbehind hreversed
  rw [List.map_reverse, List.sum_reverse] at hreversed
  rw [hjoin] at hbehind
  omega

end SPFAddress

namespace SPFMacroExpander
open SPFSyntax

theorem expandFrom_drop {m : Type → Type} [Monad m] (value : UInt8 → m AnsiString) (macros : MacroSet) (skip : ℕ)
    (result text : AnsiString) :
    expandFrom value macros skip result text = expandFrom value macros 0 result (text.drop skip) := by
  induction text generalizing skip with
  | nil => cases skip <;> rfl
  | cons c text ih =>
    cases skip with
    | zero => rfl
    | succ skip => exact ih skip

/-- A macro at the head of the text, whose value needs no lookup. -/
theorem expandFrom_macro {σ : Type} {value : UInt8 → StateM σ AnsiString} {macros : MacroSet} {text : AnsiString} {mac : Macro}
    {length : ℕ} {v : AnsiString} (hread : tryReadMacro macros (37 :: text) = some (mac, length))
    (hvalue : expandMacro value mac = pure v) (result : AnsiString) :
    expandFrom value macros 0 result (37 :: text) =
      expandFrom value macros 0 (result ++ v) (text.drop (length - 1)) := by
  rw [expandFrom, if_neg (not_not.2 rfl), hread]
  dsimp only
  rw [hvalue, pure_bind, expandFrom_drop]

theorem expandFrom_literals {σ : Type} {value : UInt8 → StateM σ AnsiString} {macros : MacroSet} {text : AnsiString}
    (h : 37 ∉ text) (rest result : AnsiString) :
    expandFrom value macros 0 result (text ++ rest) = expandFrom value macros 0 (result ++ text) rest := by
  induction text generalizing result with
  | nil => rw [List.nil_append, List.append_nil]
  | cons c text ih =>
    rw [List.mem_cons, not_or] at h
    rw [List.cons_append, expandFrom, if_pos (Ne.symm h.1), ih h.2, List.append_assoc, List.singleton_append]

theorem splitAtAny_dot (text : AnsiString) : splitAtAny text (ansi ".") = split text 46 := by
  unfold splitAtAny split
  rw [List.splitOn]
  congr 1
  funext c
  have hdot : ansi "." = [46] := by decide
  rw [Bool.eq_iff_iff, decide_eq_true_iff, beq_iff_eq, hdot, List.mem_singleton]

theorem transform_plain (text : AnsiString) : transform text 0 false [] = text := by
  unfold transform
  dsimp only
  rw [if_pos List.isEmpty_nil, splitAtAny_dot, if_neg Bool.false_ne_true, if_neg (by simp), List.drop_zero]
  exact List.intercalate_splitOn 46

theorem expandMacro_of_pure {σ : Type} {value : UInt8 → StateM σ AnsiString} {letter : UInt8} {v : AnsiString}
    (hlower : toLowerAscii letter = letter) (hvalue : value letter = pure v) (digits : ℕ) (reverse : Bool)
    (delimiters : AnsiString) :
    expandMacro value (.expansion letter digits reverse delimiters) = pure (transform v digits reverse delimiters) := by
  unfold expandMacro
  dsimp only
  rw [hlower, hvalue, pure_bind, if_neg (not_not.2 rfl)]

theorem transform_reverse (text : AnsiString) :
    transform text 0 true [] = [46].intercalate (split text 46).reverse := by
  unfold transform
  dsimp only
  rw [if_pos List.isEmpty_nil, splitAtAny_dot, if_pos rfl, if_neg (by simp), List.drop_zero]

end SPFMacroExpander

namespace SPFEvaluator
open SPFSyntax SPFMechanism

theorem macroValue_plain (e : SPFEvaluator) (domain : AnsiString) {letter : UInt8} (h : letter ≠ 112) :
    e.macroValue domain letter = pure (e.expander.getMacroValue domain letter) := by
  rw [macroValue, if_neg h]

/-- The name the pointer records of a client are asked under is what the domain-spec
    `%{ir}.%{v}.arpa` of section 7.4 expands to, and building it asks for nothing. -/
theorem reverse_name_expands (e : SPFEvaluator) (domain : AnsiString) (s : SPFState) (h : e.client.family ≠ .none) :
    (SPFMacroExpander.expandDomainSpec (e.macroValue domain) (ansi "%{ir}.%{v}.arpa")).run s =
      (some e.client.getReverseName, s) := by
  have hreverse : e.client.getReverseName =
      [46].intercalate (split e.client.getDottedForm 46).reverse ++ [46] ++ e.client.getArpaLabel ++ ansi ".arpa" := by
    rw [SPFAddress.getReverseName, if_neg h, SPFAddress.dotted_behind]
    rw [ne_eq, List.reverse_eq_nil_iff]
    exact List.splitOn_ne_nil 46 _
  have hparts := SPFAddress.length_reversed e.client.getDottedForm
  have hlength : e.client.getReverseName.length ≤ 253 := by
    have hdotted := SPFAddress.length_getDottedForm e.client
    have hlabel : e.client.getArpaLabel.length ≤ 7 := by
      unfold SPFAddress.getArpaLabel
      split <;> decide
    have htail : (ansi ".arpa").length = 5 := by decide
    rw [hreverse]
    simp only [List.length_append, List.length_singleton, htail, hparts]
    omega
  have hlast : e.client.getReverseName.getLast? = some 97 := by
    rw [hreverse, List.getLast?_append]
    rfl
  -- Neither letter is the one that looks names up.
  have hwhole : (SPFMacroExpander.expandFrom (e.macroValue domain) .recordTerm 0 [] (ansi "%{ir}.%{v}.arpa")).run s =
      (some e.client.getReverseName, s) := by
    have hir : SPFMacroExpander.expandMacro (e.macroValue domain) (.expansion 105 0 true []) =
        pure ([46].intercalate (split e.client.getDottedForm 46).reverse) := by
      rw [← SPFMacroExpander.transform_reverse]
      exact SPFMacroExpander.expandMacro_of_pure (by decide) (macroValue_plain e domain (by decide)) 0 true []
    have hv : SPFMacroExpander.expandMacro (e.macroValue domain) (.expansion 118 0 false []) =
        pure e.client.getArpaLabel := by
      rw [← SPFMacroExpander.transform_plain e.client.getArpaLabel]
      exact SPFMacroExpander.expandMacro_of_pure (by decide) (macroValue_plain e domain (by decide)) 0 false []
    have hfirst : ansi "%{ir}.%{v}.arpa" = 37 :: (ansi "{ir}" ++ (ansi "." ++ 37 :: (ansi "{v}" ++ (ansi ".arpa" ++ [])))) := by
      decide
    have hreadIr : tryReadMacro .recordTerm (37 :: (ansi "{ir}" ++ (ansi "." ++ 37 :: (ansi "{v}" ++ (ansi ".arpa" ++ []))))) =
        some (.expansion 105 0 true [], 5) := by decide
    have hreadV : tryReadMacro .recordTerm (37 :: (ansi "{v}" ++ (ansi ".arpa" ++ []))) = some (.expansion 118 0 false [], 4) := by
      decide
    rw [hfirst, SPFMacroExpander.expandFrom_macro hreadIr hir, List.drop_left' (by decide),
      SPFMacroExpander.expandFrom_literals (by decide), SPFMacroExpander.expandFrom_macro hreadV hv,
      List.drop_left' (by decide), SPFMacroExpander.expandFrom_literals (by decide), hreverse, List.nil_append]
    rfl
  have hname : SPFMacroExpander.asDomainName e.client.getReverseName = e.client.getReverseName := by
    rw [SPFMacroExpander.asDomainName, withoutTrailingDot, hlast, if_neg (by decide)]
    exact SPFMacroExpander.shorten_of_le hlength
  rw [SPFMacroExpander.expandDomainSpec_run (by decide), hwhole, Option.map_some, hname]

theorem reverse_name_expands_client :
    (SPFMacroExpander.expandDomainSpec (lonely.macroValue []) (ansi "%{ir}.%{v}.arpa")).run {} =
      (some (ansi "7.2.0.192.in-addr.arpa"), {}) := by
  have hname : lonely.client.getReverseName = ansi "7.2.0.192.in-addr.arpa" := by decide +kernel
  rw [reverse_name_expands lonely [] {} (by decide), hname]

end SPFEvaluator
end HMailServer
