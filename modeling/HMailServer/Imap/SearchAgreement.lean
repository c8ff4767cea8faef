import HMailServer.Imap.SearchText

/- When a SEARCH answers what the client wrote. `ParseSegment_` turns each key
   whose operands are single keys into one criterion that means it, and the
   criteria of a program are matched as their conjunction. -/
namespace HMailServer

/-! ## Where the code and the program part -/

mutual
/-- A key that is one key also when its parentheses are taken away. -/
def SearchKey.Single : SearchKey → Prop
  | .leaf _ _ | .sequenceSet _ => True
  | .not _ k => k.Single
  | .or _ a b => a.Single ∧ b.Single
  | .list p => p.Single
def SearchProgram.Single : SearchProgram → Prop
  | .last k => k.Single
  | .more _ _ => False
end

mutual
/-- No list of two or more keys is an operand of OR or NOT. -/
def SearchKey.OperandsSingle : SearchKey → Prop
  | .leaf _ _ | .sequenceSet _ => True
  | .not _ k => k.Single
  | .or _ a b => a.Single ∧ b.Single
  | .list p => p.OperandsSingle
def SearchProgram.OperandsSingle : SearchProgram → Prop
  | .last k => k.OperandsSingle
  | .more k p => k.OperandsSingle ∧ p.OperandsSingle
end

section texts

variable (env : IMAPSearchParser.SearchParserEnvironment) (charset : WString)

mutual
/-- The string a TEXT key asks for, also in parentheses of its own. -/
def SearchKey.soughtText : SearchKey → List WString
  | .leaf name args =>
    let k := leafCriteria env charset (rfcType name) (args.map SearchWord.value)
    if k.type = .text then [k.text] else []
  | .list p => p.soughtText
  | _ => []
def SearchProgram.soughtText : SearchProgram → List WString
  | .last k => k.soughtText
  | .more _ _ => []
end

mutual
/-- The strings under `NOT TEXT`. -/
def SearchKey.negatedTexts : SearchKey → List WString
  | .leaf _ _ | .sequenceSet _ => []
  | .not _ k => k.soughtText env charset ++ k.negatedTexts
  | .or _ a b => a.negatedTexts ++ b.negatedTexts
  | .list p => p.negatedTexts
def SearchProgram.negatedTexts : SearchProgram → List WString
  | .last k => k.negatedTexts
  | .more k p => k.negatedTexts ++ p.negatedTexts
end

end texts

/-- Only the attachments of the message contain `t`. -/
def attachmentOnly (env : SearchEnvironment) (msg : SearchMessage) (t : WString) : Bool :=
  let found (s : WString) := WString.containsNoCase env.loc s t
  found msg.dataAttachmentText && !found msg.dataHeader && !found msg.dataBody && !found msg.dataHTMLBody

/-- The full-text index excludes no message that contains the string. -/
def IndexSound (env : SearchEnvironment) (msg : SearchMessage) : Prop :=
  ∀ t, msg.cannotContain t = true →
    WString.containsNoCase env.loc msg.dataHeader t = false ∧
    WString.containsNoCase env.loc msg.dataBody t = false ∧
    WString.containsNoCase env.loc msg.dataHTMLBody t = false ∧
    WString.containsNoCase env.loc msg.dataAttachmentText t = false ∧
    WString.containsNoCase env.loc (msg.dataBody ++ msg.dataHTMLBody ++ msg.dataAttachmentText) t = false

/-- The header of the file and the loaded message have the same fields. -/
def HeadersAgree (msg : SearchMessage) : Prop := ∀ field, msg.dataField field = msg.mimeHeaderField field

/-! ## Matching -/

namespace IMAPCommandSEARCH

variable {env : SearchEnvironment} {msg : SearchMessage}

theorem signed_eq (k : SearchKeyCriteria) (b : Bool) : signed k b = (b == k.positive) := by
  cases b <;> cases h : k.positive <;> simp [signed, h]

theorem flag_eq (p b : Bool) : (!(p && !b || !p && b)) = (b == p) := by
  cases p <;> cases b <;> rfl

theorem unflag_eq (p b : Bool) : (!(p && b || !p && !b)) = ((!b) == p) := by
  cases p <;> cases b <;> rfl

theorem getHeaderValue_eq (h : HeadersAgree msg) (loaded : Bool) (field : WString) :
    getHeaderValue msg loaded field = msg.mimeHeaderField field := by
  cases loaded
  · rfl
  · exact h field

theorem getHeaderValue_false (m : SearchMessage) (field : WString) :
    getHeaderValue m false field = m.mimeHeaderField field := rfl

theorem matchesBODYCriteria_eq (hi : IndexSound env msg) (loaded : Bool) (k : SearchKeyCriteria) :
    (matchesBODYCriteria env msg loaded k).1 = (WString.containsNoCase env.loc
      (msg.dataBody ++ msg.dataHTMLBody ++ msg.dataAttachmentText) k.text == k.positive) := by
  unfold matchesBODYCriteria
  split
  · rename_i h
    rw [Bool.and_eq_true] at h
    rw [(hi k.text h.2).2.2.2.2]
    cases k.positive <;> rfl
  · exact signed_eq k _

theorem matchesTEXTCriteria_eq (hi : IndexSound env msg) (loaded : Bool) (k : SearchKeyCriteria)
    (ha : k.positive = false → attachmentOnly env msg k.text = false) :
    (matchesTEXTCriteria env msg loaded k).1 =
      ((WString.containsNoCase env.loc msg.dataHeader k.text || WString.containsNoCase env.loc msg.dataBody k.text ||
        WString.containsNoCase env.loc msg.dataHTMLBody k.text ||
        WString.containsNoCase env.loc msg.dataAttachmentText k.text) == k.positive) := by
  unfold matchesTEXTCriteria
  split
  · rename_i h
    rw [Bool.and_eq_true] at h
    obtain ⟨h1, h2, h3, h4, _⟩ := hi k.text h.2
    rw [h1, h2, h3, h4]
    cases k.positive <;> rfl
  · cases hp : k.positive with
    | true => simp [Bool.or_assoc]
    | false =>
      have ha := ha hp
      simp only [attachmentOnly] at ha
      simp only [Bool.false_eq_true, if_false]
      generalize WString.containsNoCase env.loc msg.dataHeader k.text = a at *
      generalize WString.containsNoCase env.loc msg.dataBody k.text = b at *
      generalize WString.containsNoCase env.loc msg.dataHTMLBody k.text = c at *
      generalize WString.containsNoCase env.loc msg.dataAttachmentText k.text = d at *
      revert ha
      cases a <;> cases b <;> cases c <;> cases d <;> decide

/-- The switch negates a key that has no index or attachment in its way. -/
theorem matchesKey_eq (hi : IndexSound env msg) (hh : HeadersAgree msg) (loaded : Bool)
    {k : SearchKeyCriteria} (hu : k.type ≠ .unknown) (hc : k.type ≠ .charset)
    (ha : k.type = .text → k.positive = false → attachmentOnly env msg k.text = false) :
    (matchesKey env msg loaded k).1 = (keyTruth env msg k == k.positive) := by
  have hbody := matchesBODYCriteria_eq hi loaded k
  have htext := fun h => matchesTEXTCriteria_eq hi loaded k (ha h)
  obtain ⟨t, p, tx, f, s⟩ := k
  cases t <;> try contradiction
  case body => simp_all [keyTruth, matchesKey, matchesBODYCriteria, signed_eq]
  case text => simp_all [keyTruth, matchesKey, matchesTEXTCriteria, Bool.or_assoc]
  all_goals
    simp only [keyTruth, matchesKey, matchesHeaderCriteria, matchesWITHINCriteria, signed_eq, flag_eq,
      unflag_eq, getHeaderValue_eq hh, getHeaderValue_false, beq_true]
    try first
      | rfl
      | cases p <;> simp

/-- `c` answers `b` whether or not the message is loaded. -/
def Means (env : SearchEnvironment) (msg : SearchMessage) (c : IMAPSearchCriteria) (b : Bool) : Prop :=
  ∀ loaded, (matchesCriteria env msg loaded c).1 = b

theorem means_key (hi : IndexSound env msg) (hh : HeadersAgree msg) {k : SearchKeyCriteria}
    (hu : k.type ≠ .unknown) (hc : k.type ≠ .charset)
    (ha : k.type = .text → k.positive = false → attachmentOnly env msg k.text = false) :
    Means env msg (.key k) (keyTruth env msg k == k.positive) := by
  intro loaded
  rw [matchesCriteria]
  exact matchesKey_eq hi hh loaded hu hc ha

theorem means_or {a b : IMAPSearchCriteria} {x y : Bool} (ha : Means env msg a x) (hb : Means env msg b y) :
    Means env msg (.sub true [a, b]) (x || y) := by
  intro loaded
  have h1 := ha false
  have h2 := hb (matchesCriteria env msg false a).2
  simp only [matchesCriteria, matchLoop, if_true]
  rw [h1]
  cases x with
  | true => rfl
  | false =>
    simp only [Bool.false_eq_true, if_false, h2]
    cases y <;> rfl

/-- The criteria are matched as a conjunction that is `b`. -/
def MeansAll (env : SearchEnvironment) (msg : SearchMessage) (cs : List IMAPSearchCriteria) (b : Bool) : Prop :=
  ∀ loaded, (matchLoop env msg false loaded true cs).1 = b

theorem meansAll_singleton {c : IMAPSearchCriteria} {b : Bool} (h : Means env msg c b) : MeansAll env msg [c] b := by
  intro loaded
  have h1 := h loaded
  cases b <;> simp [matchLoop, h1]

theorem meansAll_append {as bs : List IMAPSearchCriteria} {x y : Bool} (ha : MeansAll env msg as x)
    (hb : MeansAll env msg bs y) : MeansAll env msg (as ++ bs) (x && y) := by
  have step : ∀ (as : List IMAPSearchCriteria) (loaded : Bool),
      (matchLoop env msg false loaded true (as ++ bs)).1 =
        ((matchLoop env msg false loaded true as).1 && y) := by
    intro as
    induction as with
    | nil =>
      intro loaded
      rw [List.nil_append, hb loaded, matchLoop, Bool.true_and]
    | cons c as ih =>
      intro loaded
      rw [List.cons_append]
      simp only [matchLoop, Bool.false_eq_true, if_false]
      cases (matchesCriteria env msg loaded c).1 with
      | false => rfl
      | true => exact ih _
  intro loaded
  rw [step, ha loaded]

end IMAPCommandSEARCH

/-! ## One key of the parser -/

/-- How many words the parser reads behind a key of this type, for the types
    that RFC 3501 has. -/
def argCount : CriteriaType → Option Nat
  | .header => some 2
  | .text | .sentOn | .sentBefore | .sentSince | .body | .subject | .to | .from | .cc | .since
  | .before | .larger | .smaller | .on | .keyword | .unkeyword | .uid => some 1
  | .deleted | .undeleted | .seen | .unseen | .recent | .answered | .draft | .flagged | .new | .old
  | .unanswered | .undraft | .unflagged | .all => some 0
  | _ => none

theorem rfcKeys_spec : ∀ e ∈ rfcKeys, Letters e.1 ∧ e.1 ≠ [] ∧ e.1 ≠ wide "not" ∧
    e.1.map (· - 32) ≠ wide "OR" ∧ IMAPSearchParser.criteriaTypeByLowerName e.1 = e.2.2 ∧
    (e.2.2 = .unknown ∨ argCount e.2.2 = some e.2.1) ∧ rfcKeys.lookup e.1 = some e.2 := by
  decide

theorem criteriaNames_letters : ∀ e ∈ IMAPSearchParser.criteriaNames, IMAPSearchParser.isSequenceSet e.1 = false := by
  decide

theorem criteriaTypeByLowerName_sequenceSet {s : WString} (hne : s ≠ [])
    (h : IMAPSearchParser.isSequenceSet s = true) : IMAPSearchParser.criteriaTypeByLowerName s = .sequenceSet := by
  have hlookup : IMAPSearchParser.criteriaNames.lookup s = none := by
    rw [List.lookup_eq_none_iff]
    intro e he
    rw [bne_iff_ne]
    intro heq
    have := criteriaNames_letters e he
    rw [← heq, h] at this
    exact absurd this (by decide)
  rw [IMAPSearchParser.criteriaTypeByLowerName, if_neg hne, hlookup]
  simp [h]

theorem Spells.ne_dollar {name lower : WString} (h : Spells name lower) (hl : Letters lower) : name ≠ wide "$" := by
  intro he
  have := h.letter hl 36 (by rw [he]; decide)
  exact absurd this (by decide)

theorem leafCriteria_type (penv : IMAPSearchParser.SearchParserEnvironment) (charset : WString)
    (t : CriteriaType) (vals : List WString) : (leafCriteria penv charset t vals).type = t := by
  unfold leafCriteria
  split <;> rfl

section parser

variable {penv : IMAPSearchParser.SearchParserEnvironment} {charset : WString}

theorem parseKey_of_type {t : CriteriaType} {c : WString} {vals : List WString} (positive : Bool)
    (ht : IMAPSearchParser.getCriteriaTypeByName penv.loc c = t) (hd : c ≠ wide "$")
    (hargs : argCount t = some vals.length) (rest : List WString) :
    IMAPSearchParser.parseKey penv positive c (vals ++ rest) charset =
      .ok ⟨some { leafCriteria penv charset t vals with positive }, rest, charset⟩ := by
  cases t <;> simp only [argCount, Option.some.injEq, reduceCtorEq] at hargs
  case header =>
    obtain ⟨f, v, rfl⟩ := List.length_eq_two.1 hargs.symm
    simp [IMAPSearchParser.parseKey, ht, hd, leafCriteria]
  all_goals first
    | obtain rfl := List.length_eq_zero_iff.1 hargs.symm
      simp [IMAPSearchParser.parseKey, ht, hd, leafCriteria]
    | obtain ⟨v, rfl⟩ := List.length_eq_one_iff.1 hargs.symm
      simp [IMAPSearchParser.parseKey, ht, hd, leafCriteria, IMAPSearchParser.needsDecoding]

theorem parseKey_unknown {c : WString} (positive : Bool) (hne : c ≠ []) (hd : c ≠ wide "$")
    (ht : IMAPSearchParser.getCriteriaTypeByName penv.loc c = .unknown) (ws : List WString) :
    IMAPSearchParser.parseKey penv positive c ws charset =
      .error (.bad (wide "Unrecognized search key: " ++ c)) := by
  simp [IMAPSearchParser.parseKey, ht, hd, hne]

/-- A leaf of RFC 3501 is refused, or read with its arguments. -/
theorem parseKey_leaf (hloc : penv.loc.AsciiCase) {c lower : WString} {vals : List WString} {t : CriteriaType}
    (hs : Spells c lower) (hmem : (lower, vals.length, t) ∈ rfcKeys) (positive : Bool) (rest : List WString) :
    (∃ e, IMAPSearchParser.parseKey penv positive c (vals ++ rest) charset = .error e) ∨
      t ≠ .unknown ∧ t ≠ .charset ∧
        IMAPSearchParser.parseKey penv positive c (vals ++ rest) charset =
          .ok ⟨some { leafCriteria penv charset t vals with positive }, rest, charset⟩ := by
  obtain ⟨hl, hne, _, _, htype, hcount, _⟩ := rfcKeys_spec _ hmem
  have hd := hs.ne_dollar hl
  have ht : IMAPSearchParser.getCriteriaTypeByName penv.loc c = t := by
    rw [IMAPSearchParser.getCriteriaTypeByName, hs.makeLower hloc hl]
    exact htype
  have hc : c ≠ [] := by
    intro h
    rw [h] at hs
    exact hne hs.symm
  rcases hcount with hu | hcount
  · left
    exact ⟨_, parseKey_unknown positive hc hd (ht.trans hu) _⟩
  · right
    refine ⟨?_, ?_, parseKey_of_type positive ht hd hcount rest⟩ <;> intro h <;> simp [h, argCount] at hcount

theorem parseKey_sequenceSet (hloc : penv.loc.AsciiCase) {s : WString} (hne : s ≠ [])
    (h : IMAPSearchParser.isSequenceSet s = true) (positive : Bool) (rest : List WString) :
    IMAPSearchParser.parseKey penv positive s rest charset =
      .ok ⟨some { sequenceSetCriteria s with positive }, rest, charset⟩ := by
  have hd : s ≠ wide "$" := by
    intro he
    rw [he] at h
    exact absurd h (by decide)
  have ht : IMAPSearchParser.getCriteriaTypeByName penv.loc s = .sequenceSet := by
    rw [IMAPSearchParser.getCriteriaTypeByName, (sequenceSet_case hloc h).2.1,
      criteriaTypeByLowerName_sequenceSet hne h]
  simp [IMAPSearchParser.parseKey, ht, hd, sequenceSetCriteria]

/-- Behind a NOT the words NOT and OR are no keys. -/
theorem parseKey_operator (hloc : penv.loc.AsciiCase) {c lower : WString} (hs : Spells c lower) (hl : Letters lower)
    (hne : lower ≠ []) (ht : IMAPSearchParser.criteriaTypeByLowerName lower = .unknown) (positive : Bool)
    (ws : List WString) : ∃ e, IMAPSearchParser.parseKey penv positive c ws charset = .error e := by
  have hc : c ≠ [] := by
    intro h
    rw [h] at hs
    exact hne hs.symm
  refine ⟨_, parseKey_unknown positive hc (hs.ne_dollar hl) ?_ ws⟩
  rw [IMAPSearchParser.getCriteriaTypeByName, hs.makeLower hloc hl, ht]

theorem rfcType_eq {name lower : WString} {n : Nat} {t : CriteriaType} (hs : Spells name lower)
    (hmem : (lower, n, t) ∈ rfcKeys) : rfcType name = t := by
  rw [rfcType, hs, (rfcKeys_spec _ hmem).2.2.2.2.2.2]
  rfl

end parser

/-! ## The segments of a program -/

section segments

variable {penv : IMAPSearchParser.SearchParserEnvironment} {charset : WString}
  {env : SearchEnvironment} {msg : SearchMessage}

open IMAPCommandSEARCH (Means MeansAll)

/-- The end of a turn of `ParseSegment_`. -/
def nextSegment (penv : IMAPSearchParser.SearchParserEnvironment) (charset : WString) (n d : Nat)
    (subs : List IMAPSearchCriteria) (ws : List WString) : Except IMAPResult IMAPSearchParser.ParsedSegment :=
  if 1 < d ∧ subs.length = 2 then .ok ⟨subs, ws, charset⟩
  else IMAPSearchParser.parseSegmentLoop penv n d subs ws charset

/-- From the words of a key the parser fails, or adds one criterion that
    answers `b` and goes on behind them. -/
def ReadsOne (penv : IMAPSearchParser.SearchParserEnvironment) (charset : WString) (env : SearchEnvironment)
    (msg : SearchMessage) (ws : List WString) (b : Bool) : Prop :=
  ∀ n d subs rest, 0 < d → ws.length + rest.length ≤ n →
    (∃ e, IMAPSearchParser.parseSegmentLoop penv n d subs (ws ++ rest) charset = .error e) ∨
    ∃ c n', rest.length ≤ n' ∧ Means env msg c b ∧
      IMAPSearchParser.parseSegmentLoop penv n d subs (ws ++ rest) charset =
        nextSegment penv charset n' d (subs ++ [c]) rest

/-- The turn of `ParseSegment_` at a word that is not OR. -/
theorem readsOne_of_parseWord {w : WString} {ws : List WString} {b : Bool}
    (hor : WString.makeUpper penv.loc w ≠ wide "OR")
    (h : ∀ rest, (∃ e, IMAPSearchParser.parseWord penv w (ws ++ rest) charset = .error e) ∨
      ∃ k, Means env msg (.key k) b ∧
        IMAPSearchParser.parseWord penv w (ws ++ rest) charset = .ok ⟨some k, rest, charset⟩) :
    ReadsOne penv charset env msg (w :: ws) b := by
  intro n d subs rest hd hn
  obtain ⟨m, rfl⟩ : ∃ m, n = m + 1 := ⟨n - 1, by simp only [List.length_cons] at hn; omega⟩
  rcases h rest with ⟨e, he⟩ | ⟨k, hk, he⟩
  · left
    refine ⟨e, ?_⟩
    rw [List.cons_append, IMAPSearchParser.parseSegmentLoop, if_neg hor, he]
  · right
    refine ⟨.key k, m, by simp only [List.length_cons] at hn; omega, hk, ?_⟩
    rw [List.cons_append, IMAPSearchParser.parseSegmentLoop, if_neg hor, he]
    rfl

/-- OR reads its two operands in a segment of their own. -/
theorem readsOne_or (hloc : penv.loc.AsciiCase) {name : WString} {as bs : List WString} {x y : Bool}
    (hs : Spells name (wide "or")) (ha : ReadsOne penv charset env msg as x)
    (hb : ReadsOne penv charset env msg bs y) :
    ReadsOne penv charset env msg (name :: (as ++ bs)) (x || y) := by
  intro n d subs rest hd hn
  simp only [List.length_cons, List.length_append] at hn
  obtain ⟨m, rfl⟩ : ∃ m, n = m + 1 := ⟨n - 1, by omega⟩
  have hor : WString.makeUpper penv.loc name = wide "OR" := by
    rw [hs.makeUpper hloc (by decide)]
    decide
  rw [List.cons_append, List.append_assoc, IMAPSearchParser.parseSegmentLoop, if_pos hor]
  by_cases hdepth : 50 < d + 1
  · left
    exact ⟨_, if_pos hdepth⟩
  rw [if_neg hdepth]
  -- The first operand is one criterion, so the nested segment goes on.
  rcases ha m (d + 1) [] (bs ++ rest) (by omega) (by simp only [List.length_append]; omega) with ⟨e, he⟩ | ⟨ca, n', hn', hca, he⟩
  · left
    exact ⟨e, by rw [he]⟩
  have hgo : nextSegment penv charset n' (d + 1) ([] ++ [ca]) (bs ++ rest) =
      IMAPSearchParser.parseSegmentLoop penv n' (d + 1) [ca] (bs ++ rest) charset := by
    rw [nextSegment, if_neg (by simp)]
    rfl
  rw [hgo] at he
  -- With the second it has two and returns.
  rcases hb n' (d + 1) [ca] rest (by omega) (by simpa only [List.length_append] using hn') with ⟨e, he'⟩ | ⟨cb, n2, _, hcb, he'⟩
  · left
    exact ⟨e, by rw [he, he']⟩
  right
  refine ⟨.sub true [ca, cb], m, by omega, IMAPCommandSEARCH.means_or hca hcb, ?_⟩
  have hstop : nextSegment penv charset n2 (d + 1) ([ca] ++ [cb]) rest = .ok ⟨[ca, cb], rest, charset⟩ := by
    rw [nextSegment, if_pos ⟨by omega, rfl⟩]
    rfl
  rw [he, he', hstop]
  rfl

/-- What `ParseWord_` reads behind a NOT. -/
def parseNegated (penv : IMAPSearchParser.SearchParserEnvironment) (charset : WString) :
    List WString → Except IMAPResult IMAPSearchParser.ParsedWord
  | [] => .error (.bad (wide "Syntax error. NOT used but no search criteria specified."))
  | v :: rest => IMAPSearchParser.parseKey penv false (WString.makeUpper penv.loc v) rest charset

theorem parseWord_not {name : WString} (hs : Spells name (wide "not")) (ws : List WString) :
    IMAPSearchParser.parseWord penv name ws charset = parseNegated penv charset ws := by
  have hnot : WString.equalsNoCase name (wide "NOT") = true := by
    rw [hs.equalsNoCase_not (by decide)]
    decide
  unfold IMAPSearchParser.parseWord
  rw [if_pos hnot]
  cases ws <;> rfl

theorem parseWord_key {w : WString} (hn : WString.equalsNoCase w (wide "NOT") = false) (ws : List WString) :
    IMAPSearchParser.parseWord penv w ws charset = IMAPSearchParser.parseKey penv true w ws charset := by
  unfold IMAPSearchParser.parseWord
  rw [if_neg (by simp [hn])]

section reads

set_option linter.unusedSectionVars false

variable (hi : IndexSound env msg) (hh : HeadersAgree msg)
include hi hh

/-- The criterion of a leaf means the leaf, or its negation. -/
theorem means_leaf {name lower : WString} {n : Nat} {t : CriteriaType} (hs : Spells name lower)
    (hmem : (lower, n, t) ∈ rfcKeys) (hu : t ≠ .unknown) (hc : t ≠ .charset) (vals : List WString)
    (positive : Bool)
    (ha : positive = false → ∀ x ∈ (if t = .text then [(leafCriteria penv charset t vals).text] else []),
      attachmentOnly env msg x = false) :
    Means env msg (.key { leafCriteria penv charset t vals with positive })
      (keyTruth env msg (leafCriteria penv charset (rfcType name) vals) == positive) := by
  have htype := leafCriteria_type penv charset t vals
  rw [rfcType_eq hs hmem]
  refine IMAPCommandSEARCH.means_key hi hh (by rwa [htype]) (by rwa [htype]) ?_
  intro htext hp
  have ht : t = .text := htype.symm.trans htext
  exact ha hp _ (by simp [ht])

variable (hloc : penv.loc.AsciiCase)
include hloc

mutual
/-- A single key behind NOT is refused, unless it is a leaf. -/
theorem SearchKey.negated : (k : SearchKey) → k.WellFormed → k.Single →
    (∀ t ∈ k.soughtText penv charset, attachmentOnly env msg t = false) → ∀ rest,
    (∃ e, parseNegated penv charset (k.words.map SearchWord.value ++ rest) = .error e) ∨
    ∃ c, Means env msg (.key c) (!k.denote penv charset (keyTruth env msg)) ∧
      parseNegated penv charset (k.words.map SearchWord.value ++ rest) = .ok ⟨some c, rest, charset⟩
  | .leaf name args, hwf, _, ht, rest => by
    obtain ⟨⟨lower, t, hs, hmem⟩, _⟩ := hwf
    have hl := (rfcKeys_spec _ hmem).1
    have hmem' : (lower, (args.map SearchWord.value).length, t) ∈ rfcKeys := by simpa using hmem
    rcases @parseKey_leaf _ charset hloc _ _ _ _ (hs.upper hloc hl) hmem' false rest with h | ⟨hu, hc, he⟩
    · exact .inl h
    · right
      refine ⟨_, ?_, he⟩
      rw [SearchKey.denote, ← beq_false]
      refine means_leaf hi hh hs hmem hu hc _ false fun _ => ?_
      rw [SearchKey.soughtText, rfcType_eq hs hmem] at ht
      simpa only [leafCriteria_type] using ht
  | .sequenceSet s, hwf, _, _, rest => by
    right
    obtain ⟨hne, hset⟩ := hwf
    refine ⟨{ sequenceSetCriteria s with positive := false }, ?_, ?_⟩
    · rw [SearchKey.denote, ← beq_false]
      exact IMAPCommandSEARCH.means_key hi hh (by simp [sequenceSetCriteria]) (by simp [sequenceSetCriteria])
        (by simp [sequenceSetCriteria])
    · simp only [SearchKey.words, List.map_cons, List.map_nil, List.singleton_append, SearchWord.value, parseNegated]
      rw [(sequenceSet_case hloc hset).1]
      exact parseKey_sequenceSet hloc hne hset false rest
  | .not name k, hwf, _, _, rest => by
    left
    exact parseKey_operator hloc (hwf.1.upper hloc (by decide)) (by decide) (by decide) (by decide) false _
  | .or name a b, hwf, _, _, rest => by
    left
    exact parseKey_operator hloc (hwf.1.upper hloc (by decide)) (by decide) (by decide) (by decide) false _
  | .list p, hwf, hs, ht, rest => p.negated hwf hs ht rest
theorem SearchProgram.negated : (p : SearchProgram) → p.WellFormed → p.Single →
    (∀ t ∈ p.soughtText penv charset, attachmentOnly env msg t = false) → ∀ rest,
    (∃ e, parseNegated penv charset (p.words.map SearchWord.value ++ rest) = .error e) ∨
    ∃ c, Means env msg (.key c) (!p.denote penv charset (keyTruth env msg)) ∧
      parseNegated penv charset (p.words.map SearchWord.value ++ rest) = .ok ⟨some c, rest, charset⟩
  | .last k, hwf, hs, ht, rest => k.negated hwf hs ht rest
  | .more _ _, _, hs, _, _ => absurd hs (by simp [SearchProgram.Single])
end

mutual
/-- A single key is read as one criterion that means it. -/
theorem SearchKey.readsOne : (k : SearchKey) → k.WellFormed → k.Single →
    (∀ t ∈ k.negatedTexts penv charset, attachmentOnly env msg t = false) →
    ReadsOne penv charset env msg (k.words.map SearchWord.value) (k.denote penv charset (keyTruth env msg))
  | .leaf name args, hwf, _, _ => by
    obtain ⟨⟨lower, t, hs, hmem⟩, _⟩ := hwf
    obtain ⟨hl, _, hnot, hor, _⟩ := rfcKeys_spec _ hmem
    have hmem' : (lower, (args.map SearchWord.value).length, t) ∈ rfcKeys := by simpa using hmem
    refine readsOne_of_parseWord (by rw [SearchWord.value, hs.makeUpper hloc hl]; exact hor) fun rest => ?_
    have hn : WString.equalsNoCase name (wide "NOT") = false := by
      rw [hs.equalsNoCase_not hl]
      simpa using hnot
    rw [SearchWord.value, parseWord_key hn]
    rcases @parseKey_leaf _ charset hloc _ _ _ _ hs hmem' true rest with h | ⟨hu, hc, he⟩
    · exact .inl h
    · right
      refine ⟨_, ?_, he⟩
      rw [SearchKey.denote, ← beq_true (keyTruth _ _ _)]
      exact means_leaf hi hh hs hmem hu hc _ true (by simp)
  | .sequenceSet s, hwf, _, _ => by
    obtain ⟨hne, hset⟩ := hwf
    have hcase := sequenceSet_case hloc hset
    have hup : WString.makeUpper penv.loc s ≠ wide "OR" := by
      intro h
      rw [hcase.1] at h
      rw [h] at hset
      exact absurd hset (by decide)
    have hn : WString.equalsNoCase s (wide "NOT") = false := by
      rw [WString.equalsNoCase, hcase.2.2.2, hcase.2.2.1, beq_eq_false_iff_ne]
      intro h
      rw [h] at hset
      exact absurd hset (by decide)
    refine readsOne_of_parseWord hup fun rest => .inr ⟨{ sequenceSetCriteria s with positive := true }, ?_, ?_⟩
    · have hm : Means env msg (.key { sequenceSetCriteria s with positive := true }) (_ == true) :=
        IMAPCommandSEARCH.means_key hi hh (by simp [sequenceSetCriteria]) (by simp [sequenceSetCriteria])
          (by simp [sequenceSetCriteria])
      rwa [beq_true] at hm
    · rw [SearchWord.value, parseWord_key hn]
      exact parseKey_sequenceSet hloc hne hset true rest
  | .not name k, hwf, hs, ht => by
    obtain ⟨hname, hwf⟩ := hwf
    have hup : WString.makeUpper penv.loc name ≠ wide "OR" := by
      rw [hname.makeUpper hloc (by decide)]
      decide
    refine readsOne_of_parseWord hup fun rest => ?_
    simp only [SearchWord.value, parseWord_not hname, SearchKey.denote]
    exact k.negated hi hh hloc hwf hs (fun t h => ht t (by simp [SearchKey.negatedTexts, h])) rest
  | .or name a b, hwf, hs, ht => by
    obtain ⟨hname, hwa, hwb⟩ := hwf
    have ha := a.readsOne hwa hs.1 fun t h => ht t (by simp [SearchKey.negatedTexts, h])
    have hb := b.readsOne hwb hs.2 fun t h => ht t (by simp [SearchKey.negatedTexts, h])
    have h := readsOne_or hloc hname ha hb
    rw [← List.map_append] at h
    exact h
  | .list p, hwf, hs, ht => p.readsOne hwf hs ht
theorem SearchProgram.readsOne : (p : SearchProgram) → p.WellFormed → p.Single →
    (∀ t ∈ p.negatedTexts penv charset, attachmentOnly env msg t = false) →
    ReadsOne penv charset env msg (p.words.map SearchWord.value) (p.denote penv charset (keyTruth env msg))
  | .last k, hwf, hs, ht => k.readsOne hwf hs ht
  | .more _ _, _, hs, _ => absurd hs (by simp [SearchProgram.Single])
end

/-- A program at the top level: every key of it adds its criteria to the
    conjunction. -/
def ReadsAll (penv : IMAPSearchParser.SearchParserEnvironment) (charset : WString) (env : SearchEnvironment)
    (msg : SearchMessage) (ws : List WString) (b : Bool) : Prop :=
  ∀ n subs rest, ws.length + rest.length ≤ n →
    (∃ e, IMAPSearchParser.parseSegmentLoop penv n 1 subs (ws ++ rest) charset = .error e) ∨
    ∃ cs n', rest.length ≤ n' ∧ MeansAll env msg cs b ∧
      IMAPSearchParser.parseSegmentLoop penv n 1 subs (ws ++ rest) charset =
        IMAPSearchParser.parseSegmentLoop penv n' 1 (subs ++ cs) rest charset

omit hi hh hloc in
theorem ReadsOne.readsAll {ws : List WString} {b : Bool} (h : ReadsOne penv charset env msg ws b) :
    ReadsAll penv charset env msg ws b := by
  intro n subs rest hn
  rcases h n 1 subs rest (by omega) hn with he | ⟨c, n', hn', hc, he⟩
  · exact .inl he
  · right
    refine ⟨[c], n', hn', IMAPCommandSEARCH.meansAll_singleton hc, ?_⟩
    rw [he, nextSegment, if_neg (by omega)]

omit hi hh hloc in
theorem ReadsAll.append {as bs : List WString} {x y : Bool} (ha : ReadsAll penv charset env msg as x)
    (hb : ReadsAll penv charset env msg bs y) : ReadsAll penv charset env msg (as ++ bs) (x && y) := by
  intro n subs rest hn
  rw [List.length_append] at hn
  rw [List.append_assoc]
  rcases ha n subs (bs ++ rest) (by rw [List.length_append]; omega) with he | ⟨cs, n', hn', hcs, he⟩
  · exact .inl he
  rw [he]
  rcases hb n' (subs ++ cs) rest (by simpa only [List.length_append] using hn') with he' | ⟨ds, n2, hn2, hds, he'⟩
  · exact .inl he'
  right
  refine ⟨cs ++ ds, n2, hn2, IMAPCommandSEARCH.meansAll_append hcs hds, ?_⟩
  rw [he', List.append_assoc]

mutual
theorem SearchKey.readsAll : (k : SearchKey) → k.WellFormed → k.OperandsSingle →
    (∀ t ∈ k.negatedTexts penv charset, attachmentOnly env msg t = false) →
    ReadsAll penv charset env msg (k.words.map SearchWord.value) (k.denote penv charset (keyTruth env msg))
  | .leaf name args, hwf, _, ht => ((SearchKey.leaf name args).readsOne hi hh hloc hwf trivial ht).readsAll
  | .sequenceSet s, hwf, _, ht => ((SearchKey.sequenceSet s).readsOne hi hh hloc hwf trivial ht).readsAll
  | .not name k, hwf, hs, ht => ((SearchKey.not name k).readsOne hi hh hloc hwf hs ht).readsAll
  | .or name a b, hwf, hs, ht => ((SearchKey.or name a b).readsOne hi hh hloc hwf hs ht).readsAll
  | .list p, hwf, hs, ht => p.readsAll hwf hs ht
theorem SearchProgram.readsAll : (p : SearchProgram) → p.WellFormed → p.OperandsSingle →
    (∀ t ∈ p.negatedTexts penv charset, attachmentOnly env msg t = false) →
    ReadsAll penv charset env msg (p.words.map SearchWord.value) (p.denote penv charset (keyTruth env msg))
  | .last k, hwf, hs, ht => k.readsAll hwf hs ht
  | .more k p, hwf, hs, ht => by
    have hk := k.readsAll hwf.1 hs.1 fun t h => ht t (by simp [SearchProgram.negatedTexts, h])
    have hp := p.readsAll hwf.2 hs.2 fun t h => ht t (by simp [SearchProgram.negatedTexts, h])
    have h := hk.append hp
    rw [← List.map_append] at h
    exact h
end

end reads

/-- The words CHARSET and its name only set the charset, or fail. -/
theorem parseSegmentLoop_charset (hloc : penv.loc.AsciiCase) {name : WString} (hs : Spells name (wide "charset"))
    (n : Nat) (v : WString) (ws : List WString) :
    IMAPSearchParser.parseSegmentLoop penv (n + 1) 1 [] (name :: v :: ws) charset =
      if IMAPSearchParser.isValidCharset v then IMAPSearchParser.parseSegmentLoop penv n 1 [] ws v
      else .error IMAPSearchParser.badCharsetResult := by
  have hl : Letters (wide "charset") := by decide
  have hor : WString.makeUpper penv.loc name ≠ wide "OR" := by
    rw [hs.makeUpper hloc hl]
    decide
  have hn : WString.equalsNoCase name (wide "NOT") = false := by
    rw [hs.equalsNoCase_not hl]
    decide
  have ht : IMAPSearchParser.getCriteriaTypeByName penv.loc name = .charset := by
    rw [IMAPSearchParser.getCriteriaTypeByName, hs.makeLower hloc hl]
    decide
  have hkey : IMAPSearchParser.parseKey penv true name (v :: ws) charset =
      if IMAPSearchParser.isValidCharset v then .ok ⟨none, ws, v⟩
      else .error IMAPSearchParser.badCharsetResult := by
    simp only [IMAPSearchParser.parseKey, if_neg (hs.ne_dollar hl), ht]
  rw [IMAPSearchParser.parseSegmentLoop, if_neg hor, parseWord_key hn, hkey]
  by_cases hv : IMAPSearchParser.isValidCharset v = true
  · simp [hv]
  · simp [hv]

end segments

/-! ## Whole commands -/

theorem Spells.wellFormed {name lower : WString} (h : Spells name lower) (hl : Letters lower) (hne : lower ≠ []) :
    (SearchWord.atom name).WellFormed := by
  refine ⟨?_, fun c hc => ?_⟩
  · intro hnil
    rw [hnil] at h
    exact hne h.symm
  · have hletter := h.letter hl c hc
    refine ⟨?_, ?_, ?_, ?_, ?_⟩ <;>
      · intro hc
        subst hc
        exact absurd hletter (by decide)

theorem sequenceSet_wellFormed {s : WString} (hne : s ≠ []) (h : IMAPSearchParser.isSequenceSet s = true) :
    (SearchWord.atom s).WellFormed := by
  refine ⟨hne, fun c hc => ?_⟩
  have hclass := List.all_eq_true.1 h c hc
  refine ⟨?_, ?_, ?_, ?_, ?_⟩ <;>
    · intro hc
      subst hc
      exact absurd hclass (by decide)

mutual
theorem SearchKey.words_wellFormed : (k : SearchKey) → k.WellFormed → ∀ w ∈ k.words, w.WellFormed
  | .leaf name args, hwf, w, hw => by
    obtain ⟨⟨lower, t, hs, hmem⟩, hargs⟩ := hwf
    have hspec := rfcKeys_spec _ hmem
    rcases List.mem_cons.1 hw with rfl | hw
    · exact hs.wellFormed hspec.1 hspec.2.1
    · exact hargs w hw
  | .sequenceSet s, hwf, w, hw => by
    obtain rfl := List.mem_singleton.1 hw
    exact sequenceSet_wellFormed hwf.1 hwf.2
  | .not name k, hwf, w, hw => by
    rcases List.mem_cons.1 hw with rfl | hw
    · exact hwf.1.wellFormed (by decide) (by decide)
    · exact k.words_wellFormed hwf.2 w hw
  | .or name a b, hwf, w, hw => by
    rcases List.mem_cons.1 hw with rfl | hw
    · exact hwf.1.wellFormed (by decide) (by decide)
    · rcases List.mem_append.1 hw with hw | hw
      · exact a.words_wellFormed hwf.2.1 w hw
      · exact b.words_wellFormed hwf.2.2 w hw
  | .list p, hwf, w, hw => p.words_wellFormed hwf w hw
theorem SearchProgram.words_wellFormed : (p : SearchProgram) → p.WellFormed → ∀ w ∈ p.words, w.WellFormed
  | .last k, hwf, w, hw => k.words_wellFormed hwf w hw
  | .more k p, hwf, w, hw => by
    rcases List.mem_append.1 hw with hw | hw
    · exact k.words_wellFormed hwf.1 w hw
    · exact p.words_wellFormed hwf.2 w hw
end

theorem SearchCommand.words_wellFormed {cmd : SearchCommand} (hwf : cmd.WellFormed) :
    ∀ w ∈ cmd.words, w.WellFormed := by
  obtain ⟨charset, p⟩ := cmd
  intro w hw
  rcases List.mem_append.1 hw with hw | hw
  · rcases charset with _ | ⟨name, v⟩
    · exact absurd hw (by simp [SearchCommand.charsetWords])
    · obtain ⟨hname, hv⟩ := hwf.1 name v rfl
      simp only [SearchCommand.charsetWords, List.mem_cons, List.not_mem_nil, or_false] at hw
      rcases hw with rfl | rfl
      · exact hname.wellFormed (by decide) (by decide)
      · exact hv
  · exact p.words_wellFormed hwf.2 w hw

/-- The parser on the words of a command: it fails, or its criteria are matched
    as what the program means. -/
theorem parseSegmentLoop_command {penv : IMAPSearchParser.SearchParserEnvironment} {env : SearchEnvironment}
    {msg : SearchMessage} {cmd : SearchCommand} (hloc : penv.loc.AsciiCase) (hi : IndexSound env msg)
    (hh : HeadersAgree msg) (hwf : cmd.WellFormed) (hops : cmd.program.OperandsSingle)
    (ht : ∀ t ∈ cmd.program.negatedTexts penv cmd.charsetName, attachmentOnly env msg t = false) :
    (∃ e, IMAPSearchParser.parseSegmentLoop penv cmd.words.length 1 [] (cmd.words.map SearchWord.value) [] = .error e) ∨
    ∃ cs, IMAPCommandSEARCH.MeansAll env msg cs (cmd.program.denote penv cmd.charsetName (keyTruth env msg)) ∧
      IMAPSearchParser.parseSegmentLoop penv cmd.words.length 1 [] (cmd.words.map SearchWord.value) [] =
        .ok ⟨cs, [], cmd.charsetName⟩ := by
  have hread := cmd.program.readsAll hi hh hloc hwf.2 hops ht
  have hprogram : ∀ n, cmd.program.words.length ≤ n →
      (∃ e, IMAPSearchParser.parseSegmentLoop penv n 1 [] (cmd.program.words.map SearchWord.value)
        cmd.charsetName = .error e) ∨
      ∃ cs, IMAPCommandSEARCH.MeansAll env msg cs (cmd.program.denote penv cmd.charsetName (keyTruth env msg)) ∧
        IMAPSearchParser.parseSegmentLoop penv n 1 [] (cmd.program.words.map SearchWord.value) cmd.charsetName =
          .ok ⟨cs, [], cmd.charsetName⟩ := by
    intro n hn
    rcases hread n [] [] (by simpa using hn) with ⟨e, he⟩ | ⟨cs, n', _, hcs, he⟩
    · exact .inl ⟨e, by simpa using he⟩
    · right
      refine ⟨cs, hcs, ?_⟩
      rw [List.append_nil] at he
      rw [he]
      cases n' <;> rfl
  obtain ⟨charset, p⟩ := cmd
  rcases charset with _ | ⟨name, w⟩
  · exact hprogram _ le_rfl
  · have hname := (hwf.1 name w rfl).1
    have hwords : (SearchCommand.mk (some (name, w)) p).words.map SearchWord.value =
        name :: w.value :: p.words.map SearchWord.value := rfl
    rw [hwords]
    simp only [SearchCommand.words, SearchCommand.charsetWords, List.length_append, List.length_cons,
      List.length_nil]
    rw [show 0 + 1 + 1 + p.words.length = (p.words.length + 1) + 1 by omega,
      parseSegmentLoop_charset hloc hname]
    by_cases hv : IMAPSearchParser.isValidCharset w.value = true
    · rw [if_pos hv]
      exact hprogram _ (Nat.le_succ _)
    · rw [if_neg hv]
      exact .inl ⟨_, rfl⟩

theorem classicLocale_asciiCase : classicLocale.AsciiCase := fun _ _ => ⟨rfl, rfl⟩

def plainParser : IMAPSearchParser.SearchParserEnvironment where
  loc := classicLocale
  multiByteToWide := some
  savedSearchResult := []

def plainSearch : SearchEnvironment where
  loc := classicLocale
  maxUid := 7
  messageCount := 3
  getDateFromIMAP _ := ⟨0, 0, 0, 0⟩
  getDateFromMimeHeader _ := ⟨0, 0, 0, 0⟩
  getIMAPDateFromMimeHeader := id
  secondsAgo _ := ⟨0, 0, 0, 0⟩

/-- A flagged message with an empty body, the first of its mailbox. -/
def flaggedMessage : SearchMessage where
  flagDeleted := false
  flagSeen := false
  flagAnswered := false
  flagDraft := false
  flagFlagged := true
  isRecent := false
  keywords := []
  modSeq := 1
  size := 40
  uid := 7
  index := 1
  emailId := []
  createTime := ⟨0, 0, 0, 0⟩
  saveDate := ⟨0, 0, 0, 0⟩
  mimeHeaderField _ := []
  dataField _ := []
  dataHeader := []
  dataBody := []
  dataHTMLBody := []
  dataAttachmentText := []
  cannotContain _ := false

/-- `NOT (SEEN) OR SUBJECT "a(b" 1:3 (UNDELETED FLAGGED)` -/
def singleOperands : SearchCommand where
  charset := none
  program := .more (.not (wide "NOT") (.list (.last (.leaf (wide "SEEN") []))))
    (.more (.or (wide "OR") (.leaf (wide "SUBJECT") [.quoted (wide "a(b")]) (.sequenceSet (wide "1:3")))
      (.last (.list (.more (.leaf (wide "UNDELETED") []) (.last (.leaf (wide "FLAGGED") []))))))

theorem singleOperands_wellFormed : singleOperands.WellFormed := by
  refine ⟨(fun _ _ h => nomatch h), ⟨rfl, ⟨_, .seen, rfl, by decide⟩, by simp⟩, ⟨rfl, ?_, ?_⟩, ?_, ?_⟩
  · exact ⟨⟨_, .subject, rfl, by decide⟩, by simp [SearchWord.WellFormed]⟩
  · exact ⟨by decide, by decide⟩
  · exact ⟨⟨_, .undeleted, rfl, by decide⟩, by simp⟩
  · exact ⟨⟨_, .flagged, rfl, by decide⟩, by simp⟩

/-- `OR (SEEN DELETED) FLAGGED` -/
def listOperand : SearchCommand where
  charset := none
  program := .last (.or (wide "OR")
    (.list (.more (.leaf (wide "SEEN") []) (.last (.leaf (wide "DELETED") [])))) (.leaf (wide "FLAGGED") []))

end HMailServer
