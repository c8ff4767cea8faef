import HMailServer.Imap.SearchAgreement

/- NOT and the date keys of SEARCH, one key at a time
   (`IMAPCommandSEARCH::DoesMessageMatch_`, `IMAP/IMAPCommandSearch.cpp`). Each
   key writes its positive and its negative branch out by itself. NOT TEXT
   forgets the attachments that TEXT reads, and SENTBEFORE takes in the day
   that SENTSINCE begins with. -/
namespace HMailServer
namespace IMAPCommandSEARCH

/-- A criterion that `ParseWord_` makes of some words. -/
def BuiltByParser (k : SearchKeyCriteria) : Prop :=
  ∃ penv positive w ws charset rest charset',
    IMAPSearchParser.parseKey penv positive w ws charset = .ok ⟨some k, rest, charset'⟩

/-- The criterion that the same words make behind a NOT, and without it. -/
def negative (k : SearchKeyCriteria) : SearchKeyCriteria := { k with positive := false }
def affirmative (k : SearchKeyCriteria) : SearchKeyCriteria := { k with positive := true }

/-- A search for `k` alone. -/
def searchFor (env : SearchEnvironment) (msg : SearchMessage) (k : SearchKeyCriteria) : Bool :=
  doesMessageMatch env msg [.key k]

/-- The key `t` of the date `d`. -/
def dateKey (t : CriteriaType) (d : WString) : SearchKeyCriteria := { type := t, positive := true, text := d }

/-- NOT `k` matches exactly the messages that `k` does not. -/
def NotComplements (env : SearchEnvironment) (msg : SearchMessage) (k : SearchKeyCriteria) : Prop :=
  searchFor env msg (negative k) = !searchFor env msg (affirmative k)

/-- Of the keys `tBefore` and `tSince` of one date exactly one matches. -/
def Partition (env : SearchEnvironment) (msg : SearchMessage) (tBefore tSince : CriteriaType) (d : WString) : Prop :=
  searchFor env msg (dateKey tBefore d) = !searchFor env msg (dateKey tSince d)

/-! ## What the parser builds -/

variable {penv : IMAPSearchParser.SearchParserEnvironment}

theorem parseKey_positive {w : WString} {ws : List WString} {charset : WString} {positive : Bool} {k : SearchKeyCriteria}
    {rest : List WString} {charset' : WString}
    (h : IMAPSearchParser.parseKey penv positive w ws charset = .ok ⟨some k, rest, charset'⟩) :
    k.type ≠ .unknown ∧ k.type ≠ .charset ∧ ∀ p,
      IMAPSearchParser.parseKey penv p w ws charset = .ok ⟨some { k with positive := p }, rest, charset'⟩ := by
  unfold IMAPSearchParser.parseKey at h ⊢
  by_cases hd : w = wide "$"
  · simp only [hd, if_true, Except.ok.injEq, IMAPSearchParser.ParsedWord.mk.injEq, Option.some.injEq] at h ⊢
    obtain ⟨rfl, rfl, rfl⟩ := h
    simp
  · simp only [hd, if_false] at h ⊢
    generalize IMAPSearchParser.getCriteriaTypeByName penv.loc w = ct at *
    cases ct <;> dsimp only at h ⊢
    case header =>
      rcases ws with _ | ⟨field, _ | ⟨value, ws⟩⟩
      · cases h
      · cases h
      · cases h
        exact ⟨fun h => (by cases h), fun h => (by cases h), fun _ => rfl⟩
    case older | younger =>
      rcases ws with _ | ⟨interval, ws⟩
      · cases h
      · dsimp only at h ⊢
        split at h
        · rename_i hinterval
          cases h
          exact ⟨fun h => (by cases h), fun h => (by cases h), fun _ => if_pos hinterval⟩
        · cases h
    case charset =>
      rcases ws with _ | ⟨name, ws⟩
      · cases h
      · dsimp only at h
        split at h <;> cases h
    case unknown => split at h <;> cases h
    -- a key of its own, or one with an argument
    all_goals first
      | cases h
        exact ⟨fun h => (by cases h), fun h => (by cases h), fun _ => rfl⟩
      | rcases ws with _ | ⟨value, ws⟩
        · cases h
        · cases h
          exact ⟨fun h => (by cases h), fun h => (by cases h), fun _ => rfl⟩

theorem BuiltByParser.type {k : SearchKeyCriteria} (h : BuiltByParser k) : k.type ≠ .unknown ∧ k.type ≠ .charset := by
  obtain ⟨penv, positive, w, ws, charset, rest, charset', h⟩ := h
  exact ⟨(parseKey_positive h).1, (parseKey_positive h).2.1⟩

/-! ## One key -/

variable {env : SearchEnvironment} {msg : SearchMessage}

theorem searchFor_eq (k : SearchKeyCriteria) : searchFor env msg k = (matchesKey env msg false k).1 := by
  have hone (r : Bool × Bool) : (if (!r.1) = true then (false, r.2) else (r.1, r.2)).1 = r.1 := by
    rcases r with ⟨_ | _, loaded⟩ <;> rfl
  unfold searchFor doesMessageMatch
  simp only [matchLoop, matchesCriteria]
  exact hone _

theorem notComplements_iff (k : SearchKeyCriteria) : NotComplements env msg k ↔
    (matchesKey env msg false (negative k)).1 = !(matchesKey env msg false (affirmative k)).1 := by
  rw [NotComplements, searchFor_eq, searchFor_eq]

theorem beq_false_eq (b : Bool) : (b == false) = !(b == true) := by
  cases b <;> rfl

/-- Both branches of BODY scan the same string. -/
theorem body_notComplements (k : SearchKeyCriteria) :
    (matchesBODYCriteria env msg false (negative k)).1 =
      !(matchesBODYCriteria env msg false (affirmative k)).1 := by
  have hsigned (b : Bool) : signed (negative k) b = !signed (affirmative k) b := by
    cases b <;> rfl
  unfold matchesBODYCriteria
  cases hc : msg.cannotContain k.text with
  | true => simp [negative, affirmative, hc]
  | false => 
    simp only [negative, affirmative, hc, Bool.and_false, Bool.false_eq_true, if_false]
    exact hsigned _

/-- TEXT reads four strings, NOT TEXT three of them. -/
theorem text_notComplements (k : SearchKeyCriteria) :
    ((matchesTEXTCriteria env msg false (negative k)).1 =
      !(matchesTEXTCriteria env msg false (affirmative k)).1) ↔
      ¬ (msg.cannotContain k.text = false ∧ attachmentOnly env msg k.text = true) := by
  unfold matchesTEXTCriteria
  cases hc : msg.cannotContain k.text with
  | true => simp [negative, affirmative, hc]
  | false =>
    simp only [negative, affirmative, hc, attachmentOnly, Bool.and_false, Bool.false_eq_true, if_false, if_true]
    generalize WString.containsNoCase env.loc msg.dataHeader k.text = a
    generalize WString.containsNoCase env.loc msg.dataBody k.text = b
    generalize WString.containsNoCase env.loc msg.dataHTMLBody k.text = c
    generalize WString.containsNoCase env.loc msg.dataAttachmentText k.text = d
    cases a <;> cases b <;> cases c <;> cases d <;> decide

theorem other_notComplements {k : SearchKeyCriteria} (hu : k.type ≠ .unknown) (hc : k.type ≠ .charset)
    (ht : k.type ≠ .text) : NotComplements env msg k := by
  rw [notComplements_iff]
  have hbody : (matchesBODYCriteria env msg false (negative k)).1 =
      !(matchesBODYCriteria env msg false (affirmative k)).1 := body_notComplements k
  obtain ⟨t, p, tx, f, s⟩ := k
  cases t <;> try contradiction
  case body => exact hbody
  all_goals
    simp only [negative, affirmative, matchesKey, matchesHeaderCriteria, matchesWITHINCriteria, signed_eq, flag_eq,
      unflag_eq, bne]
    try first
      | exact beq_false_eq _
      | rfl
      | simp

theorem before_eq_not_since (x y : Int) : decide (x < y) = !decide (x ≥ y) := by
  rw [← decide_not, decide_eq_decide]
  omega

theorem upTo_eq_not_since_iff (x y : Int) : (decide (x ≤ y) = !decide (x ≥ y)) ↔ x ≠ y := by
  rw [← decide_not, decide_eq_decide]
  omega

/-! ## The theorem -/

/-- Exactly when NOT is complement, and exactly when the date keys partition. -/
theorem not_complements_and_dates_partition {k : SearchKeyCriteria} (hk : BuiltByParser k) (d : WString) :
    (NotComplements env msg k ↔
      ¬ (k.type = .text ∧ msg.cannotContain k.text = false ∧ attachmentOnly env msg k.text = true)) ∧
    Partition env msg .before .since d ∧ Partition env msg .savedBefore .savedSince d ∧
    (Partition env msg .sentBefore .sentSince d ↔
      (env.getDateFromMimeHeader (msg.mimeHeaderField (wide "Date"))).value ≠ (env.getDateFromIMAP d).value) := by
  refine ⟨?_, ?_, ?_, ?_⟩
  · obtain ⟨hu, hc⟩ := hk.type
    by_cases ht : k.type = .text
    · have htext : ((matchesTEXTCriteria env msg false (negative k)).1 =
          !(matchesTEXTCriteria env msg false (affirmative k)).1) ↔ _ := text_notComplements k
      have hmatch (q : SearchKeyCriteria) (hq : q.type = .text) :
          matchesKey env msg false q = matchesTEXTCriteria env msg false q := by
        simp only [matchesKey, hq]
      rw [notComplements_iff, hmatch (negative k) ht, hmatch (affirmative k) ht, htext]
      simp [ht]
    · simp [other_notComplements hu hc ht, ht]
  all_goals simp only [Partition, searchFor_eq, dateKey, matchesKey, getHeaderValue_false, signed_eq, beq_true]
  · exact before_eq_not_since _ _
  · exact before_eq_not_since _ _
  · exact upTo_eq_not_since_iff _ _

/-! ## Where it fails -/

/-- The dates of 1 January 2024, as text and as a header; every other date is
    the zero date. -/
def newYearSearch : SearchEnvironment where
  loc := classicLocale
  maxUid := 7
  messageCount := 3
  getDateFromIMAP s := if s = wide "1-Jan-2024" then ⟨45292, 2024, 1, 1⟩ else ⟨0, 1899, 12, 30⟩
  getDateFromMimeHeader s :=
    if s = wide "Mon, 1 Jan 2024 10:00:00 +0000" then ⟨45292, 2024, 1, 1⟩ else ⟨0, 1899, 12, 30⟩
  getIMAPDateFromMimeHeader s := if s = wide "Mon, 1 Jan 2024 10:00:00 +0000" then wide "1-Jan-2024" else []
  secondsAgo _ := ⟨45292, 2024, 1, 1⟩

/-- A message of that day with a text file attached. -/
def attachedMessage : SearchMessage :=
  { flaggedMessage with
    mimeHeaderField := fun f => if f = wide "Date" then wide "Mon, 1 Jan 2024 10:00:00 +0000" else []
    dataField := fun f => if f = wide "Date" then wide "Mon, 1 Jan 2024 10:00:00 +0000" else []
    dataAttachmentText := wide "the plan" }

/-- `BODY plan` -/
def bodyPlan : SearchKeyCriteria := { type := .body, positive := true, text := wide "plan" }

theorem bodyPlan_built : BuiltByParser bodyPlan :=
  ⟨plainParser, true, wide "BODY", [wide "plan"], [], [], [], rfl⟩

theorem not_complements_and_dates_partition_bodyPlan :
    NotComplements newYearSearch attachedMessage bodyPlan ∧
      Partition newYearSearch attachedMessage .sentBefore .sentSince (wide "2-Jan-2024") := by
  obtain ⟨h1, _, _, h4⟩ := @not_complements_and_dates_partition newYearSearch attachedMessage _
    bodyPlan_built (wide "2-Jan-2024")
  exact ⟨h1.2 (by decide), h4.2 (by decide)⟩

/-- `TEXT plan` and `NOT TEXT plan` both match it, and so do
    `SENTBEFORE 1-Jan-2024` and `SENTSINCE 1-Jan-2024`. -/
theorem attached_matches_both :
    (∃ k, BuiltByParser k ∧ ¬ NotComplements newYearSearch attachedMessage k) ∧
      ¬ Partition newYearSearch attachedMessage .sentBefore .sentSince (wide "1-Jan-2024") := by
  refine ⟨⟨{ type := .text, positive := true, text := wide "plan" },
    ⟨plainParser, true, wide "TEXT", [wide "plan"], [], [], [], rfl⟩, ?_⟩, ?_⟩
  · unfold NotComplements
    decide
  · unfold Partition
    decide

end IMAPCommandSEARCH
end HMailServer
