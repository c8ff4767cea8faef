import HMailServer.Util.WideString
import HMailServer.Lib.FoldedFields

/- The machine-readable half of a bounce, `SMTPDeliverer.cpp`: what the failures of a
   delivery are written as, and how the text is read back. -/
namespace HMailServer.SMTPDeliverer
open FoldedFields

structure DeliveryFailure where
  recipient : WString
  enhancedStatusCode : WString
  remoteMta : WString
  remoteSmtpReply : WString
  lastAttemptDate : WString

def containsNonAscii (value : WString) : Bool := value.any (127 < ·)

/-- The loop of `FoldForDsnField_`; `maxLineLength` is 70. -/
def foldLoop : Nat → WString → WString
  | _, [] => []
  | _, 13 :: 10 :: rest => 13 :: 10 :: 32 :: foldLoop 1 rest
  | lineLength, c :: rest =>
    if c = 13 ∨ c = 10 then 13 :: 10 :: 32 :: foldLoop 1 rest
    -- other C0 controls have no meaning in a field body
    else if c < 32 ∧ c ≠ 9 then foldLoop lineLength rest
    else if c = 32 ∧ 70 ≤ lineLength then 13 :: 10 :: 32 :: foldLoop 1 rest
    else c :: foldLoop (lineLength + 1) rest

def foldForDsnField (value : WString) : WString :=
  (foldLoop 0 value).rdropWhile fun c => c = 13 ∨ c = 10 ∨ c = 32

/-- The fields of one failure. -/
def failureContent (failure : DeliveryFailure) : WString :=
  (if containsNonAscii failure.recipient then wide "Final-Recipient: utf-8; " else wide "Final-Recipient: rfc822; ") ++
    failure.recipient ++ wide "\r\n" ++ wide "Action: failed\r\n" ++ wide "Status: " ++ failure.enhancedStatusCode ++
    wide "\r\n" ++
    (if failure.remoteMta ≠ [] then wide "Remote-MTA: dns; " ++ failure.remoteMta ++ wide "\r\n" else []) ++
    (if failure.remoteSmtpReply ≠ [] then
      let diagnostic := foldForDsnField failure.remoteSmtpReply
      if diagnostic ≠ [] then wide "Diagnostic-Code: smtp; " ++ diagnostic ++ wide "\r\n" else []
    else []) ++
    if failure.lastAttemptDate ≠ [] then wide "Last-Attempt-Date: " ++ failure.lastAttemptDate ++ wide "\r\n" else []

def buildDeliveryStatusContent (computerName : WString) (failures : List DeliveryFailure) : WString :=
  wide "Reporting-MTA: dns; " ++ computerName ++ wide "\r\n" ++
    failures.flatMap fun failure => wide "\r\n" ++ failureContent failure

/-! ## What a report should say -/

/-- A reply with its line breaks read as spaces, and without these control
    characters, but for the tab. -/
def readReply (isControl : WChar → Bool) : WString → WString
  | [] => []
  | 13 :: 10 :: rest => 32 :: readReply isControl rest
  | c :: rest =>
    if c = 13 ∨ c = 10 then 32 :: readReply isControl rest
    else if isControl c ∧ c ≠ 9 then readReply isControl rest
    else c :: readReply isControl rest

/-- The control characters of ASCII. -/
def isControl (c : WChar) : Bool := c < 32 ∨ c = 127

/-- A reply as a diagnostic: its text without white space at its end. -/
def diagnosticText (reply : WString) : WString := (readReply isControl reply).rdropWhile fun c => c = 32 ∨ c = 9

/-- The fields of a failure with this diagnostic. -/
def fieldsWith (failure : DeliveryFailure) (diagnostic : WString) : List WString :=
  [(if containsNonAscii failure.recipient then wide "Final-Recipient: utf-8; " else wide "Final-Recipient: rfc822; ") ++
      failure.recipient, wide "Action: failed", wide "Status: " ++ failure.enhancedStatusCode] ++
    (if failure.remoteMta ≠ [] then [wide "Remote-MTA: dns; " ++ failure.remoteMta] else []) ++
    (if diagnostic ≠ [] then [wide "Diagnostic-Code: smtp; " ++ diagnostic] else []) ++
    if failure.lastAttemptDate ≠ [] then [wide "Last-Attempt-Date: " ++ failure.lastAttemptDate] else []

/-- The octets of a character in UTF-8; half of a pair of surrogates has two. -/
def characterOctets (c : WChar) : Nat :=
  if c < 0x80 then 1
  else if c < 0x800 then 2
  else if 0xD800 ≤ c ∧ c ≤ 0xDFFF then 2
  else if c < 0x10000 then 3
  else 4

def octets (s : WString) : Nat := (s.map characterOctets).sum

/-- RFC 5322, section 2.1.1. -/
def Short (line : WString) : Prop := octets line ≤ 998

/-- A report of these failures: one group for the message and one for each failure,
    and lines of at most 998 octets. -/
structure WellFormed (computerName : WString) (failures : List DeliveryFailure) (content : WString) : Prop where
  groups : readGroups content =
    [wide "Reporting-MTA: dns; " ++ computerName] ::
      failures.map fun failure => fieldsWith failure (diagnosticText failure.remoteSmtpReply)
  lines : ∀ line ∈ lines content, Short line ∧ 13 ∉ line ∧ 10 ∉ line

/-! ## Pieces of a reply -/

/-- A reply in pieces: they end at its line breaks and at each first space from
    column 70 on, where the column counts the space that a line begins with. -/
def pieces : Nat → WString → List WString
  | _, [] => [[]]
  | _, 13 :: 10 :: rest => [] :: pieces 1 rest
  | column, c :: rest =>
    if c = 13 ∨ c = 10 then [] :: pieces 1 rest
    else if c < 32 ∧ c ≠ 9 then pieces column rest
    else if c = 32 ∧ 70 ≤ column then [] :: pieces 1 rest
    else (pieces (column + 1) rest).modifyHead (c :: ·)

theorem pieces_cons {n : Nat} {c : WChar} {rest : WString} (hpair : ∀ tail, c = 13 → rest = 10 :: tail → False) :
    pieces n (c :: rest) =
      if c = 13 ∨ c = 10 then [] :: pieces 1 rest
      else if c < 32 ∧ c ≠ 9 then pieces n rest
      else if c = 32 ∧ 70 ≤ n then [] :: pieces 1 rest
      else (pieces (n + 1) rest).modifyHead (c :: ·) := by
  rw [pieces]
  exact hpair

theorem readReply_cons {control : WChar → Bool} {c : WChar} {rest : WString}
    (hpair : ∀ tail, c = 13 → rest = 10 :: tail → False) :
    readReply control (c :: rest) =
      if c = 13 ∨ c = 10 then 32 :: readReply control rest
      else if control c ∧ c ≠ 9 then readReply control rest
      else c :: readReply control rest := by
  rw [readReply]
  exact hpair

theorem pieces_ne_nil (n : Nat) (s : WString) : pieces n s ≠ [] := by
  fun_induction pieces n s <;> simp_all [List.modifyHead_eq_nil_iff]

theorem intercalate_modifyHead {sep : WString} {c : WChar} {ps : List WString} (h : ps ≠ []) :
    sep.intercalate (ps.modifyHead (c :: ·)) = c :: sep.intercalate ps := by
  obtain ⟨p, ps, rfl⟩ := List.exists_cons_of_ne_nil h
  rw [List.modifyHead_cons]
  by_cases hps : ps = []
  · simp [hps]
  · rw [List.intercalate_cons_of_ne_nil hps, List.intercalate_cons_of_ne_nil hps]
    rfl

theorem foldLoop_eq (n : Nat) (s : WString) : foldLoop n s = folded (pieces n s) := by
  have hbreak : ∀ s : WString, folded ([] :: pieces 1 s) = 13 :: 10 :: 32 :: folded (pieces 1 s) := by
    intro s
    rw [folded, List.intercalate_cons_of_ne_nil (pieces_ne_nil 1 s)]
    rfl
  fun_induction foldLoop n s with
  | case1 => rfl
  | case2 _ rest ih => rw [ih, pieces, hbreak]
  | case3 n c rest hpair hc ih => rw [ih, pieces_cons hpair, if_pos hc, hbreak]
  | case4 n c rest hpair hc hcontrol ih => rw [ih, pieces_cons hpair, if_neg hc, if_pos hcontrol]
  | case5 n c rest hpair hc hcontrol hspace ih =>
    rw [ih, pieces_cons hpair, if_neg hc, if_neg hcontrol, if_pos hspace, hbreak]
  | case6 n c rest hpair hc hcontrol hspace ih =>
    rw [ih, pieces_cons hpair, if_neg hc, if_neg hcontrol, if_neg hspace, folded, folded,
      intercalate_modifyHead (pieces_ne_nil _ _)]

/-- What the code makes of a reply, unfolded. -/
def foldedText (reply : WString) : WString := (readReply (· < 32) reply).rdropWhile fun c => c = 32

theorem unfolded_pieces (n : Nat) (s : WString) : unfolded (pieces n s) = readReply (· < 32) s := by
  have hbreak : ∀ s : WString, unfolded ([] :: pieces 1 s) = 32 :: unfolded (pieces 1 s) := by
    intro s
    rw [unfolded, List.intercalate_cons_of_ne_nil (pieces_ne_nil 1 s)]
    rfl
  fun_induction pieces n s with
  | case1 => rfl
  | case2 _ rest ih => rw [hbreak, ih, readReply]
  | case3 n c rest hpair hc ih => rw [hbreak, ih, readReply_cons hpair, if_pos hc]
  | case4 n c rest hpair hc hcontrol ih => rw [ih, readReply_cons hpair, if_neg hc, if_pos (by simpa using hcontrol)]
  | case5 n c rest hpair hc hcontrol hspace ih =>
    rw [hbreak, ih, readReply_cons hpair, if_neg hc, if_neg (by simpa using hcontrol), hspace.1]
  | case6 n c rest hpair hc hcontrol hspace ih =>
    rw [unfolded, intercalate_modifyHead (pieces_ne_nil _ _), ← unfolded, ih, readReply_cons hpair, if_neg hc,
      if_neg (by simpa using hcontrol)]

theorem mem_modifyHead {c : WChar} {ps : List WString} {q : WString} (h : q ∈ ps.modifyHead (c :: ·)) :
    q ∈ ps ∨ ∃ p ∈ ps, q = c :: p := by
  cases ps with
  | nil => cases h
  | cons p ps =>
    obtain rfl | h := List.mem_cons.1 h
    · exact .inr ⟨p, List.mem_cons_self, rfl⟩
    · exact .inl (List.mem_cons_of_mem _ h)

theorem pieces_noBreak (n : Nat) (s : WString) : ∀ p ∈ pieces n s, 13 ∉ p ∧ 10 ∉ p := by
  have hempty : ∀ s : WString, (∀ p ∈ pieces 1 s, 13 ∉ p ∧ 10 ∉ p) → ∀ p ∈ [] :: pieces 1 s, 13 ∉ p ∧ 10 ∉ p := by
    intro s ih p hp
    obtain rfl | hp := List.mem_cons.1 hp
    · exact ⟨List.not_mem_nil, List.not_mem_nil⟩
    · exact ih p hp
  fun_induction pieces n s with
  | case1 => simp
  | case2 _ rest ih => exact hempty rest ih
  | case3 n c rest _ _ ih => exact hempty rest ih
  | case4 n c rest _ _ _ ih => exact ih
  | case5 n c rest _ _ _ _ ih => exact hempty rest ih
  | case6 n c rest _ hc _ _ ih =>
    intro p hp
    obtain hp | ⟨q, hq, rfl⟩ := mem_modifyHead hp
    · exact ih p hp
    · rw [not_or] at hc
      rw [List.mem_cons, List.mem_cons, not_or, not_or]
      exact ⟨⟨Ne.symm hc.1, (ih q hq).1⟩, Ne.symm hc.2, (ih q hq).2⟩

/-- From column 70 on a piece holds no space. -/
theorem pieces_spaces (n : Nat) (s : WString) :
    (∀ p ∈ (pieces n s).head?, 32 ∉ p.drop (70 - n)) ∧ ∀ p ∈ (pieces n s).tail, 32 ∉ p.drop 69 := by
  have hempty : ∀ (n : Nat) (s : WString),
      ((∀ p ∈ (pieces 1 s).head?, 32 ∉ p.drop (70 - 1)) ∧ ∀ p ∈ (pieces 1 s).tail, 32 ∉ p.drop 69) →
      (∀ p ∈ ([] :: pieces 1 s).head?, 32 ∉ p.drop (70 - n)) ∧ ∀ p ∈ ([] :: pieces 1 s).tail, 32 ∉ p.drop 69 := by
    intro n s ih
    refine ⟨fun p hp => ?_, fun p hp => ?_⟩
    · cases hp
      simp
    · obtain ⟨q, qs, hqs⟩ := List.exists_cons_of_ne_nil (pieces_ne_nil 1 s)
      rw [List.tail_cons, hqs] at hp
      rw [hqs] at ih
      obtain rfl | hp := List.mem_cons.1 hp
      · exact ih.1 p rfl
      · exact ih.2 p hp
  fun_induction pieces n s with
  | case1 => simp
  | case2 n rest ih => exact hempty n rest ih
  | case3 n c rest _ _ ih => exact hempty n rest ih
  | case4 n c rest _ _ _ ih => exact ih
  | case5 n c rest _ _ _ _ ih => exact hempty n rest ih
  | case6 n c rest _ _ _ hspace ih =>
    obtain ⟨q, qs, hqs⟩ := List.exists_cons_of_ne_nil (pieces_ne_nil (n + 1) rest)
    rw [hqs] at ih ⊢
    refine ⟨fun p hp => ?_, ih.2⟩
    cases hp
    have hq := ih.1 q rfl
    by_cases hn : 70 ≤ n
    · have hc : c ≠ 32 := fun h => hspace ⟨h, hn⟩
      have hzero : 70 - n = 0 := by omega
      have hzero' : 70 - (n + 1) = 0 := by omega
      rw [hzero', List.drop_zero] at hq
      rw [hzero, List.drop_zero, List.mem_cons, not_or]
      exact ⟨Ne.symm hc, hq⟩
    · have hsucc : 70 - n = 70 - (n + 1) + 1 := by omega
      rw [hsucc, List.drop_succ_cons]
      exact hq

theorem pieces_behind (s : WString) {p : WString} (hp : p ∈ pieces 0 s) : 32 ∉ p.drop 70 := by
  obtain ⟨hhead, htail⟩ := pieces_spaces 0 s
  obtain ⟨q, qs, hqs⟩ := List.exists_cons_of_ne_nil (pieces_ne_nil 0 s)
  rw [hqs] at hp hhead htail
  obtain rfl | hp := List.mem_cons.1 hp
  · exact hhead p rfl
  · intro hmem
    refine htail p hp ?_
    have hdrop : p.drop 70 = (p.drop 69).drop 1 := by rw [List.drop_drop]
    rw [hdrop] at hmem
    exact List.mem_of_mem_drop hmem

end HMailServer.SMTPDeliverer
