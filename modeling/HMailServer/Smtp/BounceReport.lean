import HMailServer.Smtp.DeliveryStatus

/- Which deliveries have a well-formed report (RFC 3464). -/
namespace HMailServer.SMTPDeliverer
open FoldedFields

/-! ## The end of a reply -/

/-- The pieces without the spaces at their end. -/
def trimPieces : List WString → List WString
  | [] => []
  | p :: ps =>
    match trimPieces ps with
    | [] => if (p.rdropWhile fun c => c = 32) = [] then [] else [p.rdropWhile fun c => c = 32]
    | qs => p :: qs

theorem rdropWhile_append (f : WChar → Bool) (a b : WString) :
    (a ++ b).rdropWhile f = if b.rdropWhile f = [] then a.rdropWhile f else a ++ b.rdropWhile f := by
  unfold List.rdropWhile
  rw [List.reverse_append, List.dropWhile_append]
  by_cases h : b.reverse.dropWhile f = []
  · rw [h]
    rfl
  · rw [if_neg (by simpa using h), if_neg (by simpa using h)]
    simp

theorem rdropWhile_congr {f g : WChar → Bool} {s : WString} (h : ∀ c ∈ s, f c = g c) : s.rdropWhile f = s.rdropWhile g := by
  induction s using List.reverseRecOn with
  | nil => rfl
  | append_singleton s c ih =>
    have hc := h c (by simp)
    by_cases hf : f c = true
    · rw [List.rdropWhile_concat_pos _ _ _ hf, List.rdropWhile_concat_pos _ _ _ (hc ▸ hf)]
      exact ih fun d hd => h d (List.mem_append_left _ hd)
    · rw [List.rdropWhile_concat_neg _ _ _ hf, List.rdropWhile_concat_neg _ _ _ (hc ▸ hf)]

theorem trimPieces_ne (ps : List WString) : trimPieces ps ≠ [[]] := by
  cases ps with
  | nil => exact fun h => (by cases h)
  | cons p ps =>
    intro h
    rw [trimPieces] at h
    split at h
    · split at h
      · cases h
      · rename_i hne
        exact hne (List.cons_eq_cons.1 h).1
    · rename_i qs hqs
      exact hqs (List.cons_eq_cons.1 h).2

theorem trimPieces_cons_nil {ps : List WString} (h : trimPieces ps = []) (p : WString) :
    trimPieces (p :: ps) = if (p.rdropWhile fun c => c = 32) = [] then [] else [p.rdropWhile fun c => c = 32] := by
  rw [trimPieces, h]

theorem trimPieces_cons {ps : List WString} (h : trimPieces ps ≠ []) (p : WString) :
    trimPieces (p :: ps) = p :: trimPieces ps := by
  rw [trimPieces]
  split
  · rename_i hnil
    exact absurd hnil h
  · rfl

theorem intercalate_trim {sep : WString} (hsep : sep ≠ []) {ps : List WString} (h : trimPieces ps ≠ []) :
    sep.intercalate (trimPieces ps) ≠ [] := by
  intro hnil
  obtain ⟨q, qs, hcons⟩ := List.exists_cons_of_ne_nil h
  rw [hcons] at hnil
  by_cases hqs : qs = []
  · rw [hqs, List.intercalate_singleton] at hnil
    exact trimPieces_ne ps (by rw [hcons, hqs, hnil])
  · rw [List.intercalate_cons_of_ne_nil hqs] at hnil
    simp [hsep] at hnil

/-- What is dropped at the end of the pieces, however they are joined. -/
theorem rdropWhile_pieces {sep : WString} {f : WChar → Bool} (hsep : ∀ c ∈ sep, f c = true) (hne : sep ≠ [])
    {ps : List WString} (hf : ∀ p ∈ ps, ∀ c ∈ p, f c = decide (c = 32)) :
    (sep.intercalate ps).rdropWhile f = sep.intercalate (trimPieces ps) := by
  have hpiece : ∀ p ∈ ps, p.rdropWhile f = p.rdropWhile fun c => c = 32 := by
    exact fun p hp => rdropWhile_congr (hf p hp)
  induction ps with
  | nil => rfl
  | cons p ps ih =>
    have hp := hpiece p List.mem_cons_self
    have ih := ih (fun q hq => hf q (List.mem_cons_of_mem _ hq)) fun q hq => hpiece q (List.mem_cons_of_mem _ hq)
    have hsepNil : sep.rdropWhile f = [] := List.rdropWhile_eq_nil_iff.2 hsep
    have hlast : List.rdropWhile f p = sep.intercalate
        (if (p.rdropWhile fun c => c = 32) = [] then [] else [p.rdropWhile fun c => c = 32]) := by
      rw [hp]
      split
      · rename_i h
        rw [h]
        rfl
      · rw [List.intercalate_singleton]
    by_cases hps : ps = []
    · rw [hps, List.intercalate_singleton, trimPieces_cons_nil rfl, hlast]
    rw [List.intercalate_cons_of_ne_nil hps, List.append_assoc, rdropWhile_append, rdropWhile_append, ih]
    by_cases htrim : trimPieces ps = []
    · -- nothing is left behind `p`
      rw [trimPieces_cons_nil htrim, htrim, List.intercalate_nil, if_pos rfl, hsepNil, if_pos rfl, hlast]
    · have hnil := intercalate_trim hne htrim
      rw [trimPieces_cons htrim, if_neg hnil, if_neg (by simp [hnil]), List.intercalate_cons_of_ne_nil htrim,
        List.append_assoc]

theorem foldForDsnField_eq (reply : WString) : foldForDsnField reply = folded (trimPieces (pieces 0 reply)) := by
  rw [foldForDsnField, foldLoop_eq, folded]
  refine rdropWhile_pieces (by decide) (by decide) fun p hp c hc => ?_
  obtain ⟨h13, h10⟩ := pieces_noBreak 0 reply p hp
  have hc13 : c ≠ 13 := fun h => h13 (h ▸ hc)
  have hc10 : c ≠ 10 := fun h => h10 (h ▸ hc)
  simp [hc13, hc10]

theorem unfolded_trimPieces (reply : WString) : unfolded (trimPieces (pieces 0 reply)) = foldedText reply := by
  rw [foldedText, ← unfolded_pieces 0, unfolded]
  exact (rdropWhile_pieces (by decide) (by decide) fun _ _ _ _ => rfl).symm

/-! ## Diagnostics -/

/-- A character that is neither white space other than the tab, nor a control
    character. -/
def isVisible (c : WChar) : Bool := c = 9 ∨ 32 < c

theorem filter_readReply (s : WString) : (readReply (· < 32) s).filter (· ≠ 32) = s.filter isVisible := by
  fun_induction readReply (· < 32) s with
  | case1 => rfl
  | case2 rest ih => simpa [isVisible] using ih
  | case3 c rest _ hc ih =>
    obtain rfl | rfl := hc <;> simpa [isVisible] using ih
  | case4 c rest _ hc hcontrol ih =>
    have hhidden : isVisible c = false := by
      simp only [isVisible, decide_eq_false_iff_not, not_or, decide_eq_true_eq] at hcontrol ⊢
      have hlt : (c : Nat) < 32 := hcontrol.1
      exact ⟨hcontrol.2, Nat.not_lt.2 (Nat.le_of_lt hlt)⟩
    rw [ih, List.filter_cons, hhidden]
    rfl
  | case5 c rest _ hc hcontrol ih =>
    simp only [decide_eq_true_eq, not_and, not_not] at hcontrol
    by_cases h32 : c = 32
    · rw [h32]
      simpa [isVisible] using ih
    · have hvisible : isVisible c = true := by
        simp only [isVisible, decide_eq_true_eq]
        by_cases hlt : (c : Nat) < 32
        · exact .inl (hcontrol hlt)
        · refine .inr (Nat.lt_of_le_of_ne (Nat.not_lt.1 hlt) (Ne.symm h32))
      rw [List.filter_cons, List.filter_cons, hvisible, if_pos rfl, if_pos (by simpa using h32), ih]

/-- The last character that is no space. -/
theorem getLast?_rdropWhile (s : WString) : (s.rdropWhile fun c => c = 32).getLast? = (s.filter (· ≠ 32)).getLast? := by
  induction s using List.reverseRecOn with
  | nil => rfl
  | append_singleton s c ih =>
    by_cases hc : c = 32
    · rw [List.rdropWhile_concat_pos _ _ _ (by simpa using hc), ih, List.filter_append, hc]
      simp
    · rw [List.rdropWhile_concat_neg _ _ _ (by simpa using hc), List.filter_append]
      simp [hc]

theorem foldedText_last (reply : WString) : (foldedText reply).getLast? = (reply.filter isVisible).getLast? := by
  rw [foldedText, getLast?_rdropWhile, filter_readReply]

theorem mem_rdropWhile {f : WChar → Bool} {s : WString} {c : WChar} (hc : c ∈ s) (hf : f c = false) : c ∈ s.rdropWhile f := by
  induction s using List.reverseRecOn with
  | nil => cases hc
  | append_singleton s d ih =>
    by_cases hd : f d = true
    · rw [List.rdropWhile_concat_pos _ _ _ hd]
      obtain hc | hc := List.mem_append.1 hc
      · exact ih hc
      · rw [List.mem_singleton.1 hc, hd] at hf
        cases hf
    · rwa [List.rdropWhile_concat_neg _ _ _ hd]

theorem mem_readReply {control : WChar → Bool} {c : WChar} (hbreak : c ≠ 13 ∧ c ≠ 10) (hspace : c ≠ 32) {s : WString} :
    c ∈ readReply control s ↔ c ∈ s ∧ ¬(control c = true ∧ c ≠ 9) := by
  fun_induction readReply control s with
  | case1 => simp
  | case2 rest ih => simp [ih, hbreak, hspace]
  | case3 d rest _ hd ih =>
    have hcd : c ≠ d := by
      rintro rfl
      obtain h | h := hd
      · exact hbreak.1 h
      · exact hbreak.2 h
    simp [ih, hspace, hcd]
  | case4 d rest _ _ hcontrol ih =>
    by_cases hcd : c = d
    · rw [ih, hcd]
      simp [hcontrol]
    · simp [ih, hcd]
  | case5 d rest _ _ hcontrol ih =>
    by_cases hcd : c = d
    · rw [hcd]
      simp [hcontrol]
    · simp [ih, hcd]

theorem readReply_congr {s : WString} (h : 127 ∉ s) : readReply isControl s = readReply (· < 32) s := by
  fun_induction readReply isControl s with
  | case1 => rfl
  | case2 rest ih =>
    rw [readReply, ih fun hmem => h (List.mem_cons_of_mem _ (List.mem_cons_of_mem _ hmem))]
  | case3 d rest hpair hd ih =>
    rw [readReply_cons hpair, if_pos hd, ih fun hmem => h (List.mem_cons_of_mem _ hmem)]
  | case4 d rest hpair hd hcontrol ih =>
    have hne : d ≠ 127 := fun heq => h (heq ▸ List.mem_cons_self)
    simp only [isControl, decide_eq_true_eq, hne, or_false] at hcontrol
    rw [readReply_cons hpair, if_neg hd, if_pos (by simpa using hcontrol),
      ih fun hmem => h (List.mem_cons_of_mem _ hmem)]
  | case5 d rest hpair hd hcontrol ih =>
    have hne : d ≠ 127 := fun heq => h (heq ▸ List.mem_cons_self)
    simp only [isControl, decide_eq_true_eq, hne, or_false] at hcontrol
    rw [readReply_cons hpair, if_neg hd, if_neg (by simpa using hcontrol),
      ih fun hmem => h (List.mem_cons_of_mem _ hmem)]

/-- The code's diagnostic is the reply's exactly where the reply holds no DEL and does
    not end with a tab. -/
theorem foldedText_eq_iff (reply : WString) :
    foldedText reply = diagnosticText reply ↔ 127 ∉ reply ∧ (reply.filter isVisible).getLast? ≠ some 9 := by
  constructor
  · intro h
    have hdel : 127 ∉ reply := by
      intro hmem
      have hfolded : 127 ∈ foldedText reply :=
        mem_rdropWhile ((mem_readReply (by decide) (by decide)).2 ⟨hmem, by decide⟩) (by decide)
      rw [h] at hfolded
      have hplain := (List.rdropWhile_prefix _ _).subset hfolded
      exact ((mem_readReply (by decide) (by decide)).1 hplain).2 (by decide)
    refine ⟨hdel, fun hlast => ?_⟩
    rw [← foldedText_last, h] at hlast
    have hne : diagnosticText reply ≠ [] := by
      intro hnil
      rw [hnil] at hlast
      cases hlast
    have hend : ¬decide ((diagnosticText reply).getLast hne = 32 ∨ (diagnosticText reply).getLast hne = 9) = true :=
      List.rdropWhile_last_not _ _ hne
    rw [List.getLast?_eq_some_getLast hne] at hlast
    rw [Option.some.inj hlast] at hend
    exact hend (by decide)
  · rintro ⟨hdel, hlast⟩
    rw [← foldedText_last] at hlast
    obtain ⟨spaces, hspaces⟩ : ∃ spaces, readReply (· < 32) reply = foldedText reply ++ spaces ∧ ∀ c ∈ spaces, c = 32 := by
      refine ⟨(readReply (· < 32) reply).rtakeWhile fun c => c = 32, ?_, ?_⟩
      · rw [foldedText]
        unfold List.rdropWhile List.rtakeWhile
        rw [← List.reverse_append, List.takeWhile_append_dropWhile, List.reverse_reverse]
      · intro c hc
        simpa using List.mem_rtakeWhile_imp hc
    have hnone : spaces.rdropWhile (fun c => decide (c = 32 ∨ c = 9)) = [] := by
      refine List.rdropWhile_eq_nil_iff.2 fun c hc => ?_
      rw [hspaces.2 c hc]
      rfl
    rw [diagnosticText, readReply_congr hdel, hspaces.1, rdropWhile_append, if_pos hnone]
    symm
    rw [List.rdropWhile_eq_self_iff]
    intro hne hwhite
    have hend := List.rdropWhile_last_not _ _ hne
    simp only [decide_eq_true_eq] at hwhite hend
    obtain hwhite | hwhite := hwhite
    · exact hend hwhite
    · exact hlast (by rw [List.getLast?_eq_some_getLast hne, hwhite])

/-! ## Lines -/

/-- What the line of a piece begins with. -/
def lineStart (index : Nat) : WString := if index = 0 then wide "Diagnostic-Code: smtp; " else [32]

/-- The lines of a diagnostic in these pieces are short. -/
def ShortPieces (ps : List WString) : Prop := ∀ i p, ps[i]? = some p → Short (lineStart i ++ p)

theorem octets_append (s t : WString) : octets (s ++ t) = octets s + octets t := by
  rw [octets, List.map_append, List.sum_append, octets, octets]

theorem octets_le (s : WString) : octets s ≤ 4 * s.length := by
  induction s with
  | nil => exact Nat.zero_le _
  | cons c s ih =>
    have hc : characterOctets c ≤ 4 := by
      unfold characterOctets
      split_ifs <;> decide
    have hcons : octets (c :: s) = characterOctets c + octets s := rfl
    rw [hcons, List.length_cons]
    omega

theorem octets_prefix {s t : WString} (h : s <+: t) : octets s ≤ octets t := by
  obtain ⟨rest, rfl⟩ := h
  rw [octets_append]
  exact Nat.le_add_right _ _

theorem octets_lineStart (i : Nat) : octets (lineStart i) ≤ 23 := by
  unfold lineStart
  split <;> decide

/-- A piece of up to 70 characters is short. -/
theorem short_of_length {i : Nat} {p : WString} (h : p.length ≤ 70) : Short (lineStart i ++ p) := by
  have hstart := octets_lineStart i
  have hp := octets_le p
  rw [Short, octets_append]
  omega

theorem trimPieces_prefix {ps : List WString} {i : Nat} {q : WString} (h : (trimPieces ps)[i]? = some q) :
    ∃ p, ps[i]? = some p ∧ q <+: p := by
  induction ps generalizing i with
  | nil => cases h
  | cons p ps ih =>
    rw [trimPieces] at h
    split at h
    · split at h
      · cases h
      · obtain ⟨rfl, rfl⟩ : i = 0 ∧ (p.rdropWhile fun c => decide (c = 32)) = q := by
          cases i with
          | zero => exact ⟨rfl, Option.some.inj h⟩
          | succ i => cases h
        exact ⟨p, rfl, List.rdropWhile_prefix _ _⟩
    · cases i with
      | zero => exact ⟨p, rfl, (Option.some.inj h) ▸ List.prefix_refl _⟩
      | succ i => exact ih h

/-- A long piece is not trimmed. -/
theorem trimPieces_long {ps : List WString} {i : Nat} {p : WString} (h : ps[i]? = some p) (hlong : 70 < p.length)
    (hspaces : 32 ∉ p.drop 70) : (trimPieces ps)[i]? = some p := by
  induction ps generalizing i with
  | nil => cases h
  | cons q ps ih =>
    rw [trimPieces]
    cases i with
    | zero =>
      obtain rfl := Option.some.inj h
      have hne : q ≠ [] := List.ne_nil_of_length_pos (by omega)
      have hkept : (q.rdropWhile fun c => decide (c = 32)) = q := by
        rw [List.rdropWhile_eq_self_iff]
        intro hl hlast
        refine hspaces ?_
        have hlast : q.getLast hl = 32 := by simpa using hlast
        have hdrop : q.drop 70 ≠ [] := by
          rw [← List.length_pos_iff, List.length_drop]
          omega
        rw [← hlast, ← List.getLast_drop hdrop]
        exact List.getLast_mem hdrop
      split
      · rw [hkept, if_neg hne]
        rfl
      · rfl
    | succ i =>
      have hrest := ih h
      split
      · rename_i hnil
        rw [hnil] at hrest
        cases hrest
      · exact hrest

theorem shortPieces_trim (reply : WString) : ShortPieces (trimPieces (pieces 0 reply)) ↔ ShortPieces (pieces 0 reply) := by
  constructor
  · intro h i p hp
    by_cases hlong : p.length ≤ 70
    · exact short_of_length hlong
    · exact h i p (trimPieces_long hp (Nat.not_le.1 hlong) (pieces_behind reply (List.mem_of_getElem? hp)))
  · intro h i q hq
    obtain ⟨p, hp, hbegin⟩ := trimPieces_prefix hq
    have hshort := h i p hp
    rw [Short, octets_append] at hshort ⊢
    have hle := octets_prefix hbegin
    omega

/-! ## Fields -/

def recipientLine (failure : DeliveryFailure) : WString :=
  (if containsNonAscii failure.recipient then wide "Final-Recipient: utf-8; " else wide "Final-Recipient: rfc822; ") ++
    failure.recipient

def diagnosticFields (reply : WString) : List Field :=
  match trimPieces (pieces 0 reply) with
  | [] => []
  | p :: ps => [(wide "Diagnostic-Code: smtp; " ++ p) :: ps]

/-- The fields of a failure as they are folded. -/
def failureFields (failure : DeliveryFailure) : List Field :=
  [[recipientLine failure], [wide "Action: failed"], [wide "Status: " ++ failure.enhancedStatusCode]] ++
    (if failure.remoteMta ≠ [] then [[wide "Remote-MTA: dns; " ++ failure.remoteMta]] else []) ++
    diagnosticFields failure.remoteSmtpReply ++
    if failure.lastAttemptDate ≠ [] then [[wide "Last-Attempt-Date: " ++ failure.lastAttemptDate]] else []

theorem intercalate_head (sep a p : WString) (ps : List WString) :
    sep.intercalate ((a ++ p) :: ps) = a ++ sep.intercalate (p :: ps) := by
  by_cases hps : ps = []
  · simp [hps]
  · rw [List.intercalate_cons_of_ne_nil hps, List.intercalate_cons_of_ne_nil hps, List.append_assoc, List.append_assoc,
      List.append_assoc]

theorem groupText_single (line : WString) : groupText [[line]] = line ++ wide "\r\n" := by
  simp [groupText, fieldText, folded]
  rfl

theorem groupText_append (g h : List Field) : groupText (g ++ h) = groupText g ++ groupText h := List.flatMap_append

theorem diagnostic_text (reply : WString) :
    (if reply ≠ [] then
      let diagnostic := foldForDsnField reply
      if diagnostic ≠ [] then wide "Diagnostic-Code: smtp; " ++ diagnostic ++ wide "\r\n" else []
    else []) = groupText (diagnosticFields reply) := by
  have hfolded := foldForDsnField_eq reply
  by_cases hreply : reply = []
  · rw [hreply]
    rfl
  rw [if_pos hreply]
  dsimp only
  rw [hfolded]
  cases hcons : trimPieces (pieces 0 reply) with
  | nil =>
    rw [diagnosticFields, hcons]
    rfl
  | cons p ps =>
    have hne : folded (trimPieces (pieces 0 reply)) ≠ [] := intercalate_trim (by decide) (by rw [hcons]; exact List.cons_ne_nil _ _)
    rw [hcons] at hne
    rw [if_pos hne, diagnosticFields, hcons, groupText, List.flatMap_singleton, fieldText, folded, folded, intercalate_head]
    rfl

theorem failureContent_eq (failure : DeliveryFailure) : failureContent failure = groupText (failureFields failure) := by
  have hoptional : ∀ (value : WString) (name : String),
      (if value ≠ [] then wide name ++ value ++ wide "\r\n" else []) =
        groupText (if value ≠ [] then [[wide name ++ value]] else []) := by
    intro value name
    split
    · rw [groupText_single]
    · rfl
  have hfixed : groupText [[recipientLine failure], [wide "Action: failed"],
      [wide "Status: " ++ failure.enhancedStatusCode]] =
      recipientLine failure ++ wide "\r\n" ++ wide "Action: failed\r\n" ++ wide "Status: " ++ failure.enhancedStatusCode ++
        wide "\r\n" := by
    show groupText ([[recipientLine failure]] ++ [[wide "Action: failed"]] ++
      [[wide "Status: " ++ failure.enhancedStatusCode]]) = _
    rw [groupText_append, groupText_append, groupText_single, groupText_single, groupText_single]
    have haction : wide "Action: failed\r\n" = wide "Action: failed" ++ wide "\r\n" := by decide
    rw [haction]
    simp only [List.append_assoc]
  rw [failureFields, groupText_append, groupText_append, groupText_append, hfixed, ← diagnostic_text, ← hoptional,
    ← hoptional]
  rfl

theorem unfolded_failureFields (failure : DeliveryFailure) :
    (failureFields failure).map unfolded = fieldsWith failure (foldedText failure.remoteSmtpReply) := by
  have hsingle : ∀ line : WString, unfolded [line] = line := fun line => List.intercalate_singleton
  have hdiagnostic : (diagnosticFields failure.remoteSmtpReply).map unfolded =
      if foldedText failure.remoteSmtpReply ≠ [] then
        [wide "Diagnostic-Code: smtp; " ++ foldedText failure.remoteSmtpReply]
      else [] := by
    rw [← unfolded_trimPieces, diagnosticFields]
    split
    · rename_i hnil
      rw [hnil]
      rfl
    · rename_i p ps hcons
      have hne : unfolded (trimPieces (pieces 0 failure.remoteSmtpReply)) ≠ [] :=
        intercalate_trim (by decide) (by rw [hcons]; exact List.cons_ne_nil _ _)
      rw [if_pos hne, hcons, List.map_singleton, unfolded, unfolded, intercalate_head]
  have hoptional : ∀ (value : WString) (name : String),
      (if value ≠ [] then [[wide name ++ value]] else []).map unfolded =
        if value ≠ [] then [wide name ++ value] else [] := by
    intro value name
    split
    · rw [List.map_singleton, hsingle]
    · rfl
  rw [failureFields, List.map_append, List.map_append, List.map_append, hdiagnostic, hoptional, hoptional, List.map_cons,
    List.map_cons, List.map_singleton, hsingle, hsingle, hsingle]
  rfl

/-! ## Reports -/

/-- No control characters. -/
def Plain (s : WString) : Prop := ∀ c ∈ s, 32 ≤ c ∧ c ≠ 127

instance (s : WString) : Decidable (Plain s) := inferInstanceAs (Decidable (∀ c ∈ s, 32 ≤ c ∧ c ≠ 127))

/-- The names of a failure, its status and its date hold no control characters. -/
structure PlainNames (failure : DeliveryFailure) : Prop where
  recipient : Plain failure.recipient
  status : Plain failure.enhancedStatusCode
  mta : Plain failure.remoteMta
  date : Plain failure.lastAttemptDate

/-- A reply without DEL that does not end with a tab, and whose lines are short. -/
structure ReplyFits (reply : WString) : Prop where
  noDel : 127 ∉ reply
  noTab : (reply.filter isVisible).getLast? ≠ some 9
  short : ShortPieces (pieces 0 reply)

/-- The lines of a failure that no reply is in. -/
def nameLines (failure : DeliveryFailure) : List WString :=
  [recipientLine failure, wide "Status: " ++ failure.enhancedStatusCode] ++
    (if failure.remoteMta ≠ [] then [wide "Remote-MTA: dns; " ++ failure.remoteMta] else []) ++
    if failure.lastAttemptDate ≠ [] then [wide "Last-Attempt-Date: " ++ failure.lastAttemptDate] else []

/-- The line of the message's own group. -/
def reportingLine (computerName : WString) : WString := wide "Reporting-MTA: dns; " ++ computerName

theorem buildDeliveryStatusContent_eq (computerName : WString) (failures : List DeliveryFailure) :
    buildDeliveryStatusContent computerName failures =
      reportText [[reportingLine computerName]] (failures.map failureFields) := by
  rw [buildDeliveryStatusContent, reportText, groupText_single, List.flatMap_map]
  refine congrArg (_ ++ ·) (List.flatMap_congr fun failure _ => ?_)
  rw [failureContent_eq]
  rfl

/-! ## Fields without line breaks -/

theorem Plain.noBreak {s : WString} (h : Plain s) : 13 ∉ s ∧ 10 ∉ s :=
  ⟨fun hmem => absurd (h 13 hmem).1 (by decide), fun hmem => absurd (h 10 hmem).1 (by decide)⟩

/-- A field that is read back as it was written. -/
structure FieldKept (f : Field) : Prop where
  pieces : ∀ p ∈ f, 13 ∉ p ∧ 10 ∉ p
  head : ∃ c ∈ (f.head?.bind List.head?), c ≠ 32 ∧ c ≠ 9

theorem FieldKept.ok {f : Field} (h : FieldKept f) : FieldOk f := ⟨fun p hp => (h.pieces p hp).1, h.head⟩

theorem fieldKept_named {name value : WString} (hname : name.head?.any fun c => c ≠ 32 ∧ c ≠ 9)
    (hbreak : 13 ∉ name ∧ 10 ∉ name) (hvalue : 13 ∉ value ∧ 10 ∉ value) {ps : List WString}
    (hps : ∀ p ∈ ps, 13 ∉ p ∧ 10 ∉ p) : FieldKept ((name ++ value) :: ps) := by
  constructor
  · refine List.forall_mem_cons.2 ⟨?_, hps⟩
    rw [List.mem_append, List.mem_append, not_or, not_or]
    exact ⟨⟨hbreak.1, hvalue.1⟩, hbreak.2, hvalue.2⟩
  · obtain ⟨c, hhead, hc⟩ := (Option.any_eq_true _ _).1 hname
    refine ⟨c, ?_, by simpa using hc⟩
    rw [List.head?_cons, Option.bind_some, List.head?_append, hhead]
    rfl

theorem trimPieces_noBreak (reply : WString) : ∀ q ∈ trimPieces (pieces 0 reply), 13 ∉ q ∧ 10 ∉ q := by
  intro q hq
  obtain ⟨i, hi⟩ := List.mem_iff_getElem?.1 hq
  obtain ⟨p, hp, hbegin⟩ := trimPieces_prefix hi
  obtain ⟨h13, h10⟩ := pieces_noBreak 0 reply p (List.mem_of_getElem? hp)
  exact ⟨fun h => h13 (hbegin.subset h), fun h => h10 (hbegin.subset h)⟩

theorem reportingLine_kept {computerName : WString} (h : Plain computerName) : FieldKept [reportingLine computerName] :=
  fieldKept_named (by decide) (by decide) h.noBreak (by simp)

theorem failureFields_kept {failure : DeliveryFailure} (h : PlainNames failure) :
    ∀ f ∈ failureFields failure, FieldKept f := by
  have hrecipient : FieldKept [recipientLine failure] := by
    rw [recipientLine]
    split
    · exact fieldKept_named (by decide) (by decide) h.recipient.noBreak (by simp)
    · exact fieldKept_named (by decide) (by decide) h.recipient.noBreak (by simp)
  have haction : FieldKept [wide "Action: failed"] := by
    rw [← List.append_nil (wide "Action: failed")]
    exact fieldKept_named (by decide) (by decide) (by simp) (by simp)
  have hstatus : FieldKept [wide "Status: " ++ failure.enhancedStatusCode] :=
    fieldKept_named (by decide) (by decide) h.status.noBreak (by simp)
  intro f hf
  simp only [failureFields, List.mem_append, List.mem_cons, List.not_mem_nil, or_false] at hf
  obtain (((rfl | rfl | rfl) | hf) | hf) | hf := hf
  · exact hrecipient
  · exact haction
  · exact hstatus
  · split at hf
    · rw [List.mem_singleton.1 hf]
      exact fieldKept_named (by decide) (by decide) h.mta.noBreak (by simp)
    · cases hf
  · rw [diagnosticFields] at hf
    have hpieces := trimPieces_noBreak failure.remoteSmtpReply
    split at hf
    · cases hf
    · rename_i p ps hcons
      rw [hcons] at hpieces
      rw [List.mem_singleton.1 hf]
      exact fieldKept_named (by decide) (by decide) (hpieces p List.mem_cons_self)
        fun q hq => hpieces q (List.mem_cons_of_mem _ hq)
  · split at hf
    · rw [List.mem_singleton.1 hf]
      exact fieldKept_named (by decide) (by decide) h.date.noBreak (by simp)
    · cases hf

/-! ## Short lines -/

theorem shortLines_diagnostic (p : WString) (ps : List WString) :
    (∀ l ∈ fieldLines ((wide "Diagnostic-Code: smtp; " ++ p) :: ps), Short l) ↔ ShortPieces (p :: ps) := by
  rw [fieldLines, List.forall_mem_cons, List.forall_mem_map]
  constructor
  · rintro ⟨hp, hps⟩ i q hq
    cases i with
    | zero =>
      obtain rfl := Option.some.inj hq
      exact hp
    | succ i => exact hps q (List.mem_of_getElem? hq)
  · intro h
    refine ⟨h 0 p rfl, fun q hq => ?_⟩
    obtain ⟨i, hi⟩ := List.mem_iff_getElem?.1 hq
    exact h (i + 1) q hi

theorem shortLines_diagnosticFields (reply : WString) :
    (∀ f ∈ diagnosticFields reply, ∀ l ∈ fieldLines f, Short l) ↔ ShortPieces (pieces 0 reply) := by
  rw [← shortPieces_trim, diagnosticFields]
  split
  · rename_i hnil
    rw [hnil]
    exact ⟨fun _ i p hp => (by cases hp), fun _ f hf => (by cases hf)⟩
  · rename_i p ps hcons
    rw [hcons, ← shortLines_diagnostic, List.forall_mem_singleton]

theorem shortLines_single (line : WString) : (∀ l ∈ fieldLines [line], Short l) ↔ Short line := by
  rw [fieldLines, List.map_nil, List.forall_mem_singleton]

theorem shortLines_failureFields (failure : DeliveryFailure) :
    (∀ f ∈ failureFields failure, ∀ l ∈ fieldLines f, Short l) ↔
      (∀ l ∈ nameLines failure, Short l) ∧ ShortPieces (pieces 0 failure.remoteSmtpReply) := by
  have haction : Short (wide "Action: failed") := by
    rw [Short]
    decide
  have hoptional : ∀ (value name : WString),
      (∀ f ∈ (if value ≠ [] then [[name ++ value]] else []), ∀ l ∈ fieldLines f, Short l) ↔
        ∀ l ∈ (if value ≠ [] then [name ++ value] else []), Short l := by
    intro value name
    split
    · rw [List.forall_mem_singleton, List.forall_mem_singleton, shortLines_single]
    · simp
  simp only [failureFields, nameLines, List.forall_mem_append, List.forall_mem_cons, shortLines_single,
    shortLines_diagnosticFields, hoptional, haction, true_and]
  constructor
  · rintro ⟨⟨⟨⟨hrecipient, hstatus, _⟩, hmta⟩, hreply⟩, hdate⟩
    exact ⟨⟨⟨⟨hrecipient, hstatus, by simp⟩, hmta⟩, hdate⟩, hreply⟩
  · rintro ⟨⟨⟨⟨hrecipient, hstatus, _⟩, hmta⟩, hdate⟩, hreply⟩
    exact ⟨⟨⟨⟨hrecipient, hstatus, by simp⟩, hmta⟩, hreply⟩, hdate⟩

/-! ## Reports read back -/

theorem fieldsWith_inj {failure : DeliveryFailure} {a b : WString} (h : fieldsWith failure a = fieldsWith failure b) :
    a = b := by
  rw [fieldsWith, fieldsWith] at h
  have h := List.append_cancel_left (List.append_cancel_right h)
  split at h
  · split at h
    · exact List.append_cancel_left (List.singleton_inj.1 h)
    · cases h
  · rename_i ha
    split at h
    · cases h
    · rename_i hb
      rw [not_not.1 ha, not_not.1 hb]

theorem failureFields_ne_nil (failure : DeliveryFailure) : failureFields failure ≠ [] := by
  rw [failureFields]
  simp

section
variable {computerName : WString} {failures : List DeliveryFailure}

theorem fields_ok (hcomputer : Plain computerName) (hnames : ∀ failure ∈ failures, PlainNames failure) :
    ∀ g ∈ [[reportingLine computerName]] :: failures.map failureFields, ∀ f ∈ g, FieldKept f := by
  refine List.forall_mem_cons.2 ⟨?_, List.forall_mem_map.2 fun failure hfailure => failureFields_kept (hnames failure hfailure)⟩
  exact List.forall_mem_singleton.2 (reportingLine_kept hcomputer)

theorem groups_iff (hcomputer : Plain computerName) (hnames : ∀ failure ∈ failures, PlainNames failure) :
    readGroups (buildDeliveryStatusContent computerName failures) =
        [reportingLine computerName] ::
          failures.map (fun failure => fieldsWith failure (diagnosticText failure.remoteSmtpReply)) ↔
      ∀ failure ∈ failures, foldedText failure.remoteSmtpReply = diagnosticText failure.remoteSmtpReply := by
  have hsingle : unfolded [reportingLine computerName] = reportingLine computerName := List.intercalate_singleton
  rw [buildDeliveryStatusContent_eq, readGroups_reportText, List.map_cons, List.map_singleton, hsingle, List.cons_inj_right,
    List.map_map, List.map_inj_left]
  · constructor
    · intro h failure hfailure
      have hfields := h failure hfailure
      rw [Function.comp_apply, unfolded_failureFields] at hfields
      exact fieldsWith_inj hfields
    · intro h failure hfailure
      rw [Function.comp_apply, unfolded_failureFields, h failure hfailure]
  · exact fun g hg f hf => (fields_ok hcomputer hnames g hg f hf).ok
  · exact List.forall_mem_map.2 fun failure _ => failureFields_ne_nil failure

theorem lines_iff (hcomputer : Plain computerName) (hnames : ∀ failure ∈ failures, PlainNames failure) :
    (∀ line ∈ lines (buildDeliveryStatusContent computerName failures), Short line ∧ 13 ∉ line ∧ 10 ∉ line) ↔
      Short (reportingLine computerName) ∧
        ∀ failure ∈ failures, (∀ l ∈ nameLines failure, Short l) ∧ ShortPieces (pieces 0 failure.remoteSmtpReply) := by
  have hkept := fields_ok hcomputer hnames
  have hmem : ∀ line, line ∈ lines (buildDeliveryStatusContent computerName failures) ↔
      line = [] ∨ ∃ g ∈ [[reportingLine computerName]] :: failures.map failureFields, ∃ f ∈ g, line ∈ fieldLines f := by
    intro line
    rw [buildDeliveryStatusContent_eq, lines_reportText fun g hg f hf => (hkept g hg f hf).ok, reportLines]
    simp only [List.mem_append, List.mem_flatMap, List.mem_cons, List.not_mem_nil, or_false]
    constructor
    · rintro ((h | ⟨g, hg, rfl | h⟩) | h)
      · exact .inr ⟨_, .inl rfl, by simpa using h⟩
      · exact .inl rfl
      · exact .inr ⟨g, .inr hg, h⟩
      · exact .inl h
    · rintro (h | ⟨g, rfl | hg, h⟩)
      · exact .inr h
      · exact .inl (.inl (by simpa using h))
      · exact .inl (.inr ⟨g, hg, .inr h⟩)
  constructor
  · intro h
    have hshort : ∀ g ∈ [[reportingLine computerName]] :: failures.map failureFields, ∀ f ∈ g, ∀ l ∈ fieldLines f, Short l :=
      fun g hg f hf l hl => (h l ((hmem l).2 (.inr ⟨g, hg, f, hf, hl⟩))).1
    obtain ⟨hfirst, hrest⟩ := List.forall_mem_cons.1 hshort
    refine ⟨(shortLines_single _).1 (hfirst _ (List.mem_singleton_self _)), fun failure hfailure => ?_⟩
    exact (shortLines_failureFields failure).1 (hrest _ (List.mem_map_of_mem hfailure))
  · rintro ⟨hreporting, hfailures⟩ line hline
    obtain rfl | ⟨g, hg, f, hf, hl⟩ := (hmem line).1 hline
    · exact ⟨Nat.zero_le _, List.not_mem_nil, List.not_mem_nil⟩
    have hpieces := (hkept g hg f hf).pieces
    refine ⟨?_, mem_fieldLines (by decide) (fun p hp => (hpieces p hp).1) line hl,
      mem_fieldLines (by decide) (fun p hp => (hpieces p hp).2) line hl⟩
    obtain rfl | hg := List.mem_cons.1 hg
    · rw [List.mem_singleton.1 hf] at hl
      exact (shortLines_single _).2 hreporting line hl
    · obtain ⟨failure, hfailure, rfl⟩ := List.mem_map.1 hg
      exact (shortLines_failureFields failure).2 (hfailures failure hfailure) f hf line hl

/-- A report is well formed exactly where the lines with names are short and the
    replies fit. -/
theorem report_is_well_formed_iff (hcomputer : Plain computerName) (hnames : ∀ failure ∈ failures, PlainNames failure) :
    WellFormed computerName failures (buildDeliveryStatusContent computerName failures) ↔
      Short (reportingLine computerName) ∧
        ∀ failure ∈ failures, (∀ line ∈ nameLines failure, Short line) ∧ ReplyFits failure.remoteSmtpReply := by
  have hgroups := groups_iff hcomputer hnames
  have hlines := lines_iff hcomputer hnames
  constructor
  · rintro ⟨hread, hshort⟩
    obtain ⟨hreporting, hfailures⟩ := hlines.1 hshort
    refine ⟨hreporting, fun failure hfailure => ⟨(hfailures failure hfailure).1, ?_⟩⟩
    obtain ⟨hdel, htab⟩ := (foldedText_eq_iff _).1 (hgroups.1 hread failure hfailure)
    exact ⟨hdel, htab, (hfailures failure hfailure).2⟩
  · rintro ⟨hreporting, hfailures⟩
    constructor
    · refine hgroups.2 fun failure hfailure => (foldedText_eq_iff _).2 ?_
      obtain ⟨hdel, htab, _⟩ := (hfailures failure hfailure).2
      exact ⟨hdel, htab⟩
    · exact hlines.2 ⟨hreporting, fun failure hfailure => ⟨(hfailures failure hfailure).1, (hfailures failure hfailure).2.short⟩⟩

end

/-- A failure with this reply. -/
def refused (reply : WString) : DeliveryFailure where
  recipient := wide "jo@example.org"
  enhancedStatusCode := wide "5.1.1"
  remoteMta := wide "mx.example.org"
  remoteSmtpReply := reply
  lastAttemptDate := []

theorem refused_plain (reply : WString) : PlainNames (refused reply) where
  recipient := (by decide : Plain (wide "jo@example.org"))
  status := (by decide : Plain (wide "5.1.1"))
  mta := (by decide : Plain (wide "mx.example.org"))
  date := (by decide : Plain [])

theorem report_is_well_formed_refused :
    WellFormed (wide "mail") [refused (wide "550 No such user\r\n")]
      (buildDeliveryStatusContent (wide "mail") [refused (wide "550 No such user\r\n")]) := by
  have hplain : Plain (wide "mail") := by decide +kernel
  refine (report_is_well_formed_iff hplain (List.forall_mem_singleton.2 (refused_plain _))).2 ⟨?_, ?_⟩
  · rw [Short]
    decide +kernel
  refine List.forall_mem_singleton.2 ⟨?_, by decide +kernel, by decide +kernel, fun i p hp => ?_⟩
  · exact (by decide +kernel : ∀ line ∈ nameLines (refused (wide "550 No such user\r\n")), octets line ≤ 998)
  · have hlength : ∀ p ∈ pieces 0 (wide "550 No such user\r\n"), p.length ≤ 70 := by decide +kernel
    exact short_of_length (hlength p (List.mem_of_getElem? hp))

/-- A reply with a word of a thousand characters is not folded. -/
theorem long_word_not_folded :
    ∃ computerName failures, failures ≠ [] ∧ Plain computerName ∧ (∀ failure ∈ failures, PlainNames failure) ∧
      ¬WellFormed computerName failures (buildDeliveryStatusContent computerName failures) := by
  refine ⟨wide "mail", [refused (wide "550 " ++ List.replicate 1000 120)], List.cons_ne_nil _ _, ?_, ?_, ?_⟩
  · decide +kernel
  · exact List.forall_mem_singleton.2 (refused_plain _)
  · intro h
    have hlong : ∃ line ∈ lines (buildDeliveryStatusContent (wide "mail") [refused (wide "550 " ++ List.replicate 1000 120)]),
        ¬octets line ≤ 998 := by decide +kernel
    obtain ⟨line, hline, hlong⟩ := hlong
    exact hlong (h.lines line hline).1

end HMailServer.SMTPDeliverer
