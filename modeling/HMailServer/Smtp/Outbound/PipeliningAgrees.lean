import HMailServer.Smtp.Outbound.ClientConnection
import Mathlib

/- The pipelined envelope and the envelope of one command at a time give every
   recipient the same result. `outcome` says what the replies mean for the
   recipients; either path is followed reply by reply (`oneAtATime`, `pipelined`)
   and ends with that outcome. -/
namespace HMailServer.Smtp.Outbound

variable (env : Settings) (remote : Sent → Reply)

/-! ## What the replies mean -/

def positive (sent : Sent) : Bool := isPositiveCompletion (remote sent).code

/-- The recipients whose RCPT TO, of the first `k`, was answered with success. -/
def accepted (k : Nat) : Finset Nat := (Finset.range k).filter fun i => positive remote (.rcptTo i)

/-- The recipients once the first `k` RCPT TO have been answered. -/
def tried (k : Nat) (rs : List MessageRecipient) : List MessageRecipient :=
  rs.mapIdx fun i r =>
    if i < k ∧ positive remote (.rcptTo i) = false then
      updateRecipientWithError env (remote (.rcptTo i)) (ClientConnection.rcptTo r.address) true r
    else r

/-- The verdict on the whole transaction. -/
def settle (reply : Reply) (sent : WString) (ok : Finset Nat) (rs : List MessageRecipient) : List MessageRecipient :=
  if isPositiveCompletion reply.code then
    rs.mapIdx fun i r => if i ∈ ok then { r with deliveryResult := .ok } else r
  else rs.map (updateRecipientWithError env reply sent false)

def dataCommand : Sent := if env.chunkingAvailable then .bdat else .data

def dataText : WString :=
  if env.chunkingAvailable then wide "BDAT " ++ wide (toString env.messageSize) ++ wide " LAST" else wide "DATA"

/-- What becomes of the recipients. -/
def outcome (rs : List MessageRecipient) : List MessageRecipient :=
  if positive remote .mailFrom = false then
    rs.map (updateRecipientWithError env (remote .mailFrom) env.mailFrom false)
  else if accepted remote rs.length = ∅ then tried env remote rs.length rs
  else if env.chunkingAvailable = false ∧ positive remote .data = true then
    settle env (remote .content) (wide "\r\n.") (accepted remote rs.length) (tried env remote rs.length rs)
  else
    settle env (remote (dataCommand env)) (dataText env) (accepted remote rs.length) (tried env remote rs.length rs)

/-- Where there is something to send, DATA is answered by 354 or a failure. -/
def DataReply (rs : List MessageRecipient) : Prop :=
  positive remote .mailFrom = true → accepted remote rs.length ≠ ∅ → env.chunkingAvailable = false →
    (remote .data).code = 354 ∨ positive remote .data = false

theorem tried_zero (rs : List MessageRecipient) : tried env remote 0 rs = rs := by
  apply List.ext_getElem?
  intro i
  simp [tried]

theorem length_tried (k : Nat) (rs : List MessageRecipient) : (tried env remote k rs).length = rs.length := by
  simp [tried]

theorem address_tried (k i : Nat) (rs : List MessageRecipient) :
    ((tried env remote k rs)[i]?).map MessageRecipient.address = (rs[i]?).map MessageRecipient.address := by
  unfold tried
  rw [List.getElem?_mapIdx]
  cases rs[i]? with
  | none => rfl
  | some r =>
    simp only [Option.map_some, Option.some.injEq]
    split
    · unfold updateRecipientWithError
      split_ifs <;> rfl
    · rfl

/-- One more RCPT TO is answered. -/
theorem tried_succ (k : Nat) (rs : List MessageRecipient) {r : MessageRecipient} (hr : rs[k]? = some r) :
    tried env remote (k + 1) rs =
      if positive remote (.rcptTo k) = true then tried env remote k rs
      else (tried env remote k rs).modify k
        (updateRecipientWithError env (remote (.rcptTo k)) (ClientConnection.rcptTo r.address) true) := by
  apply List.ext_getElem?
  intro i
  by_cases hp : positive remote (.rcptTo k) = true
  · rw [if_pos hp]
    unfold tried
    rw [List.getElem?_mapIdx, List.getElem?_mapIdx]
    congr 1
    funext r'
    by_cases hi : i = k
    · subst hi
      simp [hp]
    · have : i < k + 1 ↔ i < k := by omega
      simp only [this]
  · rw [if_neg hp, List.getElem?_modify]
    unfold tried
    rw [List.getElem?_mapIdx, List.getElem?_mapIdx]
    by_cases hi : i = k
    · subst hi
      simp [hr, hp]
    · have : i < k + 1 ↔ i < k := by omega
      have hki : ¬k = i := fun h => hi h.symm
      simp only [this, hki, if_false]
      cases rs[i]? <;> rfl

theorem accepted_succ (k : Nat) :
    accepted remote (k + 1) =
      if positive remote (.rcptTo k) = true then insert k (accepted remote k) else accepted remote k := by
  unfold accepted
  rw [Finset.range_add_one, Finset.filter_insert]

namespace ClientConnection

/-! ## One command at a time -/

/-- The connection waits for the reply to RCPT TO number `k`. -/
def awaitRcpt (rs : List MessageRecipient) (k : Nat) (r : MessageRecipient) : ClientConnection where
  state := .rcptToSent
  recipients := tried env remote k rs
  actualRecipients := accepted remote k
  curRecipient := some k
  lastSentData := rcptTo r.address
  unanswered := [.rcptTo k]

/-- Every RCPT TO has been answered. -/
def envelopeSent (rs : List MessageRecipient) : ClientConnection :=
  let c : ClientConnection :=
    { state := .rcptToSent
      recipients := tried env remote rs.length rs
      actualRecipients := accepted remote rs.length
      curRecipient := some rs.length
      lastSentData := ((rs.getLast?).map fun r => rcptTo r.address).getD env.mailFrom }
  if accepted remote rs.length = ∅ then c.sendQUIT else c.sendDataCommand env false

theorem getNextRecipient_eq (c : ClientConnection) (i : Nat) (rs : List MessageRecipient)
    (hcur : c.curRecipient.elim 0 (· + 1) = i)
    (haddress : (c.recipients[i]?).map MessageRecipient.address = (rs[i]?).map MessageRecipient.address) :
    (∃ r r', rs[i]? = some r ∧ r'.address = r.address ∧
        c.getNextRecipient = (some (i, r'), { c with curRecipient := some i })) ∨
      rs[i]? = none ∧ c.getNextRecipient = (none, { c with curRecipient := some i }) := by
  unfold getNextRecipient
  rw [hcur]
  dsimp only
  cases hr : rs[i]? with
  | none =>
    rw [hr] at haddress
    have hnone : c.recipients[i]? = none := by simpa using haddress
    exact .inr ⟨rfl, by rw [hnone]; rfl⟩
  | some r =>
    rw [hr] at haddress
    obtain ⟨r', hr', ha⟩ : ∃ r', c.recipients[i]? = some r' ∧ r'.address = r.address := by simpa using haddress
    exact .inl ⟨r, r', rfl, ha, by rw [hr']; rfl⟩

/-- What follows the answer to a recipient. -/
def nextTurn : Option (Nat × MessageRecipient) × ClientConnection → ClientConnection
  | (some (i, r), c) => { c.enqueueWrite (.rcptTo i) (rcptTo r.address) with state := .rcptToSent }
  | (none, c) => if c.actualRecipients = ∅ then c.sendQUIT else c.sendDataCommand env false

theorem rcpt_turn (rs : List MessageRecipient) (k : Nat) {r : MessageRecipient} (hr : rs[k]? = some r) :
    { awaitRcpt env remote rs k r with unanswered := [] }.internalParseData env (remote (.rcptTo k)) =
      match rs[k + 1]? with
      | some r' => awaitRcpt env remote rs (k + 1) r'
      | none => envelopeSent env remote rs := by
  have hk : k < rs.length := (List.getElem?_eq_some_iff.1 hr).1
  -- the reply is taken down
  have hreply : (if isPositiveCompletion (remote (.rcptTo k)).code then
        { awaitRcpt env remote rs k r with
          unanswered := [], actualRecipients := insert k (accepted remote k) }
      else { awaitRcpt env remote rs k r with unanswered := [] }.refuseRecipient env k (remote (.rcptTo k))) =
      { awaitRcpt env remote rs k r with
        unanswered := []
        recipients := tried env remote (k + 1) rs
        actualRecipients := accepted remote (k + 1) } := by
    rw [tried_succ env remote k rs hr, accepted_succ]
    unfold positive refuseRecipient
    split <;> rfl
  have hlength : k < ({ awaitRcpt env remote rs k r with unanswered := [] } : ClientConnection).recipients.length := by
    simpa [awaitRcpt, length_tried] using hk
  have hstep : { awaitRcpt env remote rs k r with unanswered := [] }.internalParseData env (remote (.rcptTo k)) =
      nextTurn env ({ awaitRcpt env remote rs k r with
        unanswered := []
        recipients := tried env remote (k + 1) rs
        actualRecipients := accepted remote (k + 1) } : ClientConnection).getNextRecipient := by
    rw [← hreply]
    unfold internalParseData
    rw [if_neg (by simp [failsAllRecipients, awaitRcpt])]
    show protocolRcptToSent env _ _ = _
    unfold protocolRcptToSent
    show nextTurn env (if k < ({ awaitRcpt env remote rs k r with unanswered := [] } : ClientConnection).recipients.length
      then _ else _ : ClientConnection).getNextRecipient = _
    rw [if_pos hlength]
    rfl
  rw [hstep]
  rcases getNextRecipient_eq ({ awaitRcpt env remote rs k r with
      unanswered := []
      recipients := tried env remote (k + 1) rs
      actualRecipients := accepted remote (k + 1) } : ClientConnection) (k + 1) rs rfl (address_tried env remote _ _ rs)
    with ⟨r₁, r₂, hr₁, ha, hnext⟩ | ⟨hnone, hnext⟩
  · rw [hnext, hr₁]
    dsimp only [nextTurn]
    rw [ha]
    rfl
  · have hlast : k + 1 = rs.length := by
      have := List.getElem?_eq_none_iff.1 hnone
      omega
    have hgetLast : rs.getLast? = some r := by
      rw [List.getLast?_eq_getElem?, ← hlast]
      exact hr
    rw [hnext, hnone]
    unfold envelopeSent
    rw [hgetLast, ← hlast]
    rfl

theorem oneAtATime_rcpts (rs : List MessageRecipient) (turns d k : Nat) {r : MessageRecipient} (hr : rs[k]? = some r)
    (hd : k + d + 1 = rs.length) :
    converse env remote (d + 1 + turns) (awaitRcpt env remote rs k r) =
      converse env remote turns (envelopeSent env remote rs) := by
  induction d generalizing k r with
  | zero =>
    have hnone : rs[k + 1]? = none := List.getElem?_eq_none_iff.2 (by omega)
    rw [Nat.zero_add, Nat.add_comm]
    show converse env remote turns ({ awaitRcpt env remote rs k r with unanswered := [] }.internalParseData env _) = _
    rw [rcpt_turn env remote rs k hr, hnone]
  | succ d ih =>
    obtain ⟨r', hr'⟩ : ∃ r', rs[k + 1]? = some r' := ⟨_, List.getElem?_eq_getElem (by omega)⟩
    rw [show d + 1 + 1 + turns = (d + 1 + turns) + 1 by omega]
    show converse env remote _ ({ awaitRcpt env remote rs k r with unanswered := [] }.internalParseData env _) = _
    rw [rcpt_turn env remote rs k hr, hr']
    exact ih (k + 1) hr' (by omega)

/-- The conversation is over, with these recipients. -/
def Ends (c : ClientConnection) (rs : List MessageRecipient) : Prop := c.recipients = rs ∧ c.unanswered = []

theorem converse_over (c : ClientConnection) (h : c.unanswered = []) (turns : Nat) : converse env remote turns c = c := by
  cases turns with
  | zero => rfl
  | succ turns =>
    unfold converse
    rw [h]

/-- QUIT is answered, and nothing else happens. -/
theorem converse_quit (c : ClientConnection) (hstate : c.state = .quitSent) (hquit : c.unanswered = [.quit])
    (turns : Nat) : Ends (converse env remote (turns + 1) c) c.recipients := by
  have hturn : { c with unanswered := [] }.internalParseData env (remote .quit) = { c with unanswered := [] } := by
    unfold internalParseData
    simp [hstate, failsAllRecipients]
  have hover : converse env remote (turns + 1) c = { c with unanswered := [] } := by
    rw [converse, hquit]
    dsimp only
    rw [hturn]
    exact converse_over env remote _ rfl turns
  rw [hover]
  exact ⟨rfl, rfl⟩

/-- The reply to the content or to the BDAT chunk settles the transaction. -/
theorem converse_settle (c : ClientConnection) (sent : Sent) (hstate : c.state = .dataSent ∨ c.state = .bdatSent)
    (hsent : c.unanswered = [sent]) (turns : Nat) :
    Ends (converse env remote (turns + 2) c)
      (settle env (remote sent) c.lastSentData c.actualRecipients c.recipients) := by
  have hfails : failsAllRecipients c.state = true := by
    rcases hstate with h | h <;> rw [h] <;> rfl
  rw [converse, hsent]
  dsimp only
  unfold internalParseData settle
  by_cases hp : isPositiveCompletion (remote sent).code = true
  · rw [if_neg (by simp [hp]), if_pos hp]
    have hquit : ({ c with unanswered := [] } : ClientConnection).sendQUIT.updateSuccessfulRecipients.unanswered =
        [.quit] := rfl
    rcases hstate with h | h
    · rw [show ({ c with unanswered := [] } : ClientConnection).state = .dataSent from h]
      exact converse_quit env remote _ rfl hquit turns
    · rw [show ({ c with unanswered := [] } : ClientConnection).state = .bdatSent from h]
      exact converse_quit env remote _ rfl hquit turns
  · rw [if_pos (by simp [hfails, hp]), if_neg hp]
    exact converse_quit env remote _ rfl rfl turns

theorem envelopeSent_ends (rs : List MessageRecipient) (hmail : positive remote .mailFrom = true) :
    Ends (converse env remote 3 (envelopeSent env remote rs)) (outcome env remote rs) := by
  unfold envelopeSent outcome
  rw [if_neg (show ¬positive remote .mailFrom = false by simp [hmail])]
  by_cases hnone : accepted remote rs.length = ∅
  · rw [if_pos hnone, if_pos hnone]
    exact converse_quit env remote _ rfl rfl 2
  · rw [if_neg hnone, if_neg hnone]
    unfold sendDataCommand dataCommand dataText
    cases hchunking : env.chunkingAvailable with
    | true =>
      rw [if_pos rfl, if_neg (by simp), if_pos rfl, if_pos rfl]
      exact converse_settle env remote _ .bdat (.inr rfl) rfl 1
    | false =>
      simp only [Bool.false_eq_true, if_false, true_and]
      rw [converse]
      dsimp only [enqueueWrite, List.nil_append]
      unfold internalParseData
      by_cases hdata : positive remote .data = true
      · have hreply : isPositiveCompletion (remote .data).code = true := hdata
        rw [if_neg (by simp [hreply]), if_pos hdata]
        exact converse_settle env remote _ .content (.inl rfl) rfl 0
      · have hreply : ¬isPositiveCompletion (remote .data).code = true := hdata
        rw [if_pos (by simp [failsAllRecipients, hreply]), if_neg hdata]
        unfold settle
        rw [if_neg hreply]
        exact converse_quit env remote _ rfl rfl 1

/-- The outcome of the envelope that is sent one command at a time. -/
theorem oneAtATime (hpipelining : env.pipeliningAvailable = false) (rs : List MessageRecipient) :
    Ends (deliver env rs remote) (outcome env remote rs) := by
  have hstart : (({ state := .mailFromSent, recipients := rs } : ClientConnection).protocolSendMailFrom env) =
      { state := .mailFromSent, recipients := rs, lastSentData := env.mailFrom, unanswered := [.mailFrom] } := by
    unfold protocolSendMailFrom
    rw [hpipelining]
    rfl
  unfold deliver
  rw [hstart, converse]
  dsimp only
  unfold internalParseData
  by_cases hmail : positive remote .mailFrom = true
  · have hreply : isPositiveCompletion (remote .mailFrom).code = true := hmail
    rw [if_neg (by simp [hreply])]
    cases rs with
    | nil =>
      have hempty : outcome env remote [] = [] := by
        unfold outcome
        simp [hmail, accepted, tried]
      rw [hempty]
      exact converse_quit env remote _ rfl rfl 2
    | cons r rest =>
      have hfirst : ({ state := .mailFromSent, recipients := r :: rest, lastSentData := env.mailFrom } :
          ClientConnection).protocolMailFromSent = awaitRcpt env remote (r :: rest) 0 r := by
        unfold awaitRcpt
        rw [tried_zero]
        rfl
      show Ends (converse env remote _ (protocolMailFromSent _)) _
      rw [hfirst, show (r :: rest).length + 3 = rest.length + 1 + 3 from rfl,
        oneAtATime_rcpts env remote (r :: rest) 3 rest.length 0 rfl (by simp)]
      exact envelopeSent_ends env remote (r :: rest) hmail
  · have hreply : ¬isPositiveCompletion (remote .mailFrom).code = true := hmail
    rw [if_pos (by simp [failsAllRecipients, hreply])]
    unfold outcome
    rw [if_pos (by simpa using hmail)]
    exact converse_quit env remote _ rfl rfl _

/-! ## The pipelined envelope -/

/-- The connection waits for the reply to RCPT TO number `k`, or behind the last
    one for that to the data command. -/
def awaitPipelined (rs : List MessageRecipient) (mailFailed : Bool) (now : List MessageRecipient) (ok : Finset Nat)
    (last : WString) (k : Nat) : ClientConnection where
  state := .envelopePipelined
  recipients := now
  actualRecipients := ok
  lastSentData := last
  usingBdat := env.chunkingAvailable
  pipelineCommands := env.mailFrom :: rs.map (fun r => rcptTo r.address) ++ [dataText env]
  pipelineRepliesExpected := 1 + rs.length + 1
  pipelineRepliesSeen := k + 1
  pipelineMailFailed := mailFailed
  unanswered := (List.range' k (rs.length - k)).map .rcptTo ++ [dataCommand env]

theorem pipelineRecipients_eq (rs : List MessageRecipient) (j : Nat) (c : ClientConnection) :
    ∃ last, pipelineRecipients (rs.zipIdx j) c = { c with
      lastSentData := last
      pipelineCommands := c.pipelineCommands ++ rs.map fun r => rcptTo r.address
      unanswered := c.unanswered ++ (List.range' j rs.length).map .rcptTo } := by
  induction rs generalizing j c with
  | nil => exact ⟨c.lastSentData, by simp [pipelineRecipients]⟩
  | cons r rest ih =>
    obtain ⟨last, h⟩ := ih (j + 1) { (c.enqueueWrite (.rcptTo j) (rcptTo r.address)) with
      pipelineCommands := c.pipelineCommands ++ [rcptTo r.address] }
    refine ⟨last, Eq.trans h ?_⟩
    simp [enqueueWrite, List.range'_succ]

/-- Everything is sent before the first reply. -/
theorem sendPipelinedEnvelope_eq (hpipelining : env.pipeliningAvailable = true) (rs : List MessageRecipient) :
    ({ state := .mailFromSent, recipients := rs } : ClientConnection).protocolSendMailFrom env =
      { awaitPipelined env rs false rs ∅ (dataText env) 0 with
        pipelineRepliesSeen := 0
        unanswered := .mailFrom :: (awaitPipelined env rs false rs ∅ (dataText env) 0).unanswered } := by
  obtain ⟨last, h⟩ := pipelineRecipients_eq rs 0
    { state := .mailFromSent, recipients := rs, lastSentData := env.mailFrom, pipelineCommands := [env.mailFrom]
      unanswered := [.mailFrom] }
  unfold protocolSendMailFrom
  rw [if_pos hpipelining]
  show sendPipelinedEnvelope env _ = _
  unfold sendPipelinedEnvelope
  dsimp only [enqueueWrite, List.nil_append]
  rw [h]
  unfold sendDataCommand awaitPipelined dataText dataCommand
  cases env.chunkingAvailable with
  | true => simp [enqueueWrite]
  | false => simp [enqueueWrite]

theorem mail_turn (rs : List MessageRecipient) (last : WString) :
    ({ awaitPipelined env rs false rs ∅ last 0 with pipelineRepliesSeen := 0 } : ClientConnection).internalParseData env
        (remote .mailFrom) =
      if positive remote .mailFrom = true then awaitPipelined env rs false rs ∅ env.mailFrom 0
      else
        awaitPipelined env rs true (rs.map (updateRecipientWithError env (remote .mailFrom) env.mailFrom false)) ∅
          env.mailFrom 0 := by
  unfold internalParseData
  rw [if_neg (by simp [failsAllRecipients, awaitPipelined])]
  show protocolEnvelopePipelined env _ _ = _
  unfold protocolEnvelopePipelined
  dsimp only
  rw [if_pos rfl]
  unfold positive
  split <;> rfl

/-- The reply to RCPT TO number `k` is taken down, unless MAIL FROM has failed. -/
theorem pipelined_turn (rs : List MessageRecipient) (k : Nat) {r : MessageRecipient} (hr : rs[k]? = some r)
    (last : WString) (waiting : List Sent) :
    { awaitPipelined env rs false (tried env remote k rs) (accepted remote k) last k with
        unanswered := waiting }.internalParseData env (remote (.rcptTo k)) =
      { awaitPipelined env rs false (tried env remote (k + 1) rs) (accepted remote (k + 1)) (rcptTo r.address) (k + 1)
        with unanswered := waiting } := by
  have hk : k < rs.length := (List.getElem?_eq_some_iff.1 hr).1
  have hcommand : (env.mailFrom :: rs.map (fun r => rcptTo r.address) ++ [dataText env])[k + 1]? =
      some (rcptTo r.address) := by
    rw [List.cons_append, List.getElem?_cons_succ, List.getElem?_append_left (by simpa using hk), List.getElem?_map, hr]
    rfl
  unfold internalParseData
  rw [if_neg (by simp [failsAllRecipients, awaitPipelined])]
  show protocolEnvelopePipelined env _ _ = _
  unfold protocolEnvelopePipelined
  dsimp only [awaitPipelined]
  rw [hcommand, if_neg (by omega), if_pos (by omega), if_pos ⟨rfl, by rw [length_tried]; omega⟩,
    tried_succ env remote k rs hr, accepted_succ]
  unfold positive refuseRecipient
  rw [Nat.add_sub_cancel]
  split <;> rfl

theorem ignored_turn (rs now : List MessageRecipient) (k : Nat) {r : MessageRecipient} (hr : rs[k]? = some r)
    (last : WString) (waiting : List Sent) (reply : Reply) :
    { awaitPipelined env rs true now ∅ last k with unanswered := waiting }.internalParseData env reply =
      { awaitPipelined env rs true now ∅ (rcptTo r.address) (k + 1) with unanswered := waiting } := by
  have hk : k < rs.length := (List.getElem?_eq_some_iff.1 hr).1
  have hcommand : (env.mailFrom :: rs.map (fun r => rcptTo r.address) ++ [dataText env])[k + 1]? =
      some (rcptTo r.address) := by
    rw [List.cons_append, List.getElem?_cons_succ, List.getElem?_append_left (by simpa using hk), List.getElem?_map, hr]
    rfl
  unfold internalParseData
  rw [if_neg (by simp [failsAllRecipients, awaitPipelined])]
  show protocolEnvelopePipelined env _ _ = _
  unfold protocolEnvelopePipelined
  dsimp only [awaitPipelined]
  rw [hcommand, if_neg (by omega), if_pos (by omega), if_neg (by simp)]
  rfl

theorem unanswered_succ (n k : Nat) (h : k < n) :
    (List.range' k (n - k)).map Sent.rcptTo ++ [dataCommand env] =
      .rcptTo k :: ((List.range' (k + 1) (n - (k + 1))).map Sent.rcptTo ++ [dataCommand env]) := by
  rw [show n - k = (n - (k + 1)) + 1 by omega, List.range'_succ]
  rfl

theorem pipelined_rcpts (rs : List MessageRecipient) (turns d k : Nat) (hd : k + d = rs.length) (last : WString) :
    ∃ last', converse env remote (d + turns)
        (awaitPipelined env rs false (tried env remote k rs) (accepted remote k) last k) =
      converse env remote turns (awaitPipelined env rs false (tried env remote rs.length rs)
        (accepted remote rs.length) last' rs.length) := by
  induction d generalizing k last with
  | zero =>
    rw [Nat.add_zero] at hd
    exact ⟨last, by rw [Nat.zero_add, hd]⟩
  | succ d ih =>
    obtain ⟨r, hr⟩ : ∃ r, rs[k]? = some r := ⟨_, List.getElem?_eq_getElem (by omega)⟩
    obtain ⟨last', h⟩ := ih (k + 1) (by omega) (rcptTo r.address)
    refine ⟨last', ?_⟩
    rw [← h, show d + 1 + turns = (d + turns) + 1 by omega, converse,
      show (awaitPipelined env rs false (tried env remote k rs) (accepted remote k) last k).unanswered = _ from
        unanswered_succ env rs.length k (by omega)]
    dsimp only
    rw [pipelined_turn env remote rs k hr]
    rfl

theorem ignored_rcpts (rs now : List MessageRecipient) (turns d k : Nat) (hd : k + d = rs.length) (last : WString) :
    ∃ last', converse env remote (d + turns) (awaitPipelined env rs true now ∅ last k) =
      converse env remote turns (awaitPipelined env rs true now ∅ last' rs.length) := by
  induction d generalizing k last with
  | zero =>
    rw [Nat.add_zero] at hd
    exact ⟨last, by rw [Nat.zero_add, hd]⟩
  | succ d ih =>
    obtain ⟨r, hr⟩ : ∃ r, rs[k]? = some r := ⟨_, List.getElem?_eq_getElem (by omega)⟩
    obtain ⟨last', h⟩ := ih (k + 1) (by omega) (rcptTo r.address)
    refine ⟨last', ?_⟩
    rw [← h, show d + 1 + turns = (d + turns) + 1 by omega, converse,
      show (awaitPipelined env rs true now ∅ last k).unanswered = _ from unanswered_succ env rs.length k (by omega)]
    dsimp only
    rw [ignored_turn env rs now k hr]
    rfl

/-- The reply to the data command reaches `pipelinedDataReply`, whatever came before. -/
theorem data_turn (rs now : List MessageRecipient) (mailFailed : Bool) (ok : Finset Nat) (last : WString)
    (turns : Nat) :
    converse env remote (turns + 1) (awaitPipelined env rs mailFailed now ok last rs.length) =
      converse env remote turns (pipelinedDataReply env { awaitPipelined env rs mailFailed now ok (dataText env)
        (rs.length + 1) with unanswered := [] } (remote (dataCommand env))) := by
  have hcommand : (env.mailFrom :: rs.map (fun r => rcptTo r.address) ++ [dataText env])[rs.length + 1]? =
      some (dataText env) := by
    rw [List.getElem?_append_right (by simp)]
    simp
  have hwaiting : (awaitPipelined env rs mailFailed now ok last rs.length).unanswered = [dataCommand env] := by
    simp [awaitPipelined]
  rw [converse, hwaiting]
  dsimp only
  unfold internalParseData
  rw [if_neg (by simp [failsAllRecipients, awaitPipelined])]
  show converse env remote turns (protocolEnvelopePipelined env _ _) = _
  unfold protocolEnvelopePipelined
  dsimp only [awaitPipelined]
  rw [hcommand, if_neg (by omega), if_neg (by omega)]
  congr 2

/-- With nothing to send, an accepted DATA is closed and the session ends. -/
theorem nothing_to_send (c : ClientConnection) (h : c.pipelineMailFailed = true ∨ c.actualRecipients = ∅)
    (hc : c.unanswered = []) (reply : Reply) :
    Ends (converse env remote 2 (pipelinedDataReply env c reply)) c.recipients := by
  have hnothing : (c.pipelineMailFailed || decide (c.actualRecipients = ∅)) = true := by
    rcases h with h | h <;> simp [h]
  unfold pipelinedDataReply
  rw [hnothing]
  have hquit : ∀ d : ClientConnection, d.unanswered = [] → d.sendQUIT.unanswered = [.quit] := by
    intro d hd
    simp [sendQUIT, enqueueWrite, hd]
  dsimp only
  split
  · exact converse_quit env remote _ rfl (hquit c hc) 1
  · rw [if_pos rfl]
    split
    · rw [converse, show ({ c.enqueueWrite .dot (wide ".") with state := .dataAbandoned } :
        ClientConnection).unanswered = [.dot] by simp [enqueueWrite, hc]]
      exact converse_quit env remote _ rfl rfl 0
    · exact converse_quit env remote _ rfl (hquit c hc) 1

/-- With something to send, the reply to BDAT settles the transaction. -/
theorem bdat_reply (c : ClientConnection) (hmail : c.pipelineMailFailed = false) (hsome : c.actualRecipients ≠ ∅)
    (hbdat : c.usingBdat = true) (hc : c.unanswered = []) (reply : Reply) :
    Ends (converse env remote 2 (pipelinedDataReply env c reply))
      (settle env reply c.lastSentData c.actualRecipients c.recipients) := by
  have hnothing : (c.pipelineMailFailed || decide (c.actualRecipients = ∅)) = false := by simp [hmail, hsome]
  unfold pipelinedDataReply settle
  dsimp only
  rw [hnothing, hbdat, if_pos rfl, if_neg Bool.false_ne_true]
  split
  · apply converse_quit env remote _ rfl
    simp [sendQUIT, enqueueWrite, updateSuccessfulRecipients, hc]
  · apply converse_quit env remote _ rfl
    simp [sendQUIT, enqueueWrite, updateAllRecipientsWithError, hc]

/-- With something to send, a DATA that is let through settles with the content, and
    another one at once. -/
theorem data_reply (c : ClientConnection) (hmail : c.pipelineMailFailed = false) (hsome : c.actualRecipients ≠ ∅)
    (hbdat : c.usingBdat = false) (hc : c.unanswered = []) (reply : Reply)
    (hreply : reply.code = 354 ∨ isPositiveCompletion reply.code = false) :
    Ends (converse env remote 2 (pipelinedDataReply env c reply))
      (if isPositiveCompletion reply.code then
        settle env (remote .content) (wide "\r\n.") c.actualRecipients c.recipients
      else settle env reply c.lastSentData c.actualRecipients c.recipients) := by
  have hnothing : (c.pipelineMailFailed || decide (c.actualRecipients = ∅)) = false := by simp [hmail, hsome]
  unfold pipelinedDataReply
  dsimp only
  rw [hnothing, hbdat, if_neg Bool.false_ne_true, if_neg Bool.false_ne_true]
  rcases hreply with h354 | hrefused
  · rw [if_neg (by simp [h354]), if_pos (by rw [h354]; rfl)]
    apply converse_settle env remote _ .content (.inl rfl)
    simp [protocolData, enqueueWrite, hc]
  · have h354 : reply.code ≠ 354 := by
      intro h
      rw [h] at hrefused
      cases hrefused
    rw [if_pos h354, if_neg (by simp [hrefused])]
    unfold settle
    rw [if_neg (by simp [hrefused])]
    apply converse_quit env remote _ rfl
    simp [sendQUIT, enqueueWrite, updateAllRecipientsWithError, hc]

/-- The outcome of the pipelined envelope. -/
theorem pipelined (hpipelining : env.pipeliningAvailable = true) (rs : List MessageRecipient)
    (hdata : DataReply env remote rs) : Ends (deliver env rs remote) (outcome env remote rs) := by
  unfold deliver
  rw [sendPipelinedEnvelope_eq env hpipelining rs, converse]
  show Ends (converse env remote (rs.length + 3) (internalParseData env
    { awaitPipelined env rs false rs ∅ (dataText env) 0 with pipelineRepliesSeen := 0 } _)) _
  rw [mail_turn]
  unfold outcome
  by_cases hmail : positive remote .mailFrom = true
  · rw [if_pos hmail, if_neg (by simp [hmail])]
    have hfirst : awaitPipelined env rs false rs ∅ env.mailFrom 0 =
        awaitPipelined env rs false (tried env remote 0 rs) (accepted remote 0) env.mailFrom 0 := by
      rw [tried_zero]
      rfl
    obtain ⟨last, hrcpts⟩ := pipelined_rcpts env remote rs 3 rs.length 0 (by omega) env.mailFrom
    rw [hfirst, hrcpts, data_turn]
    by_cases hnone : accepted remote rs.length = ∅
    · rw [if_pos hnone]
      exact nothing_to_send env remote _ (.inr hnone) rfl _
    · rw [if_neg hnone]
      cases hchunking : env.chunkingAvailable with
      | true =>
        rw [if_neg (by simp)]
        exact bdat_reply env remote _ rfl hnone hchunking rfl _
      | false =>
        have hcommand : dataCommand env = .data := by
          unfold dataCommand
          rw [hchunking]
          rfl
        rw [hcommand]
        have hends := data_reply env remote (c := { awaitPipelined env rs false (tried env remote rs.length rs)
          (accepted remote rs.length) (dataText env) (rs.length + 1) with unanswered := [] }) rfl hnone hchunking rfl
          (remote .data) (hdata hmail hnone hchunking)
        by_cases hdata : isPositiveCompletion (remote .data).code = true
        · rw [if_pos ⟨rfl, hdata⟩]
          rw [if_pos hdata] at hends
          exact hends
        · rw [if_neg (fun h => hdata h.2)]
          rw [if_neg hdata] at hends
          exact hends
  · rw [if_neg hmail, if_pos (by simpa using hmail)]
    obtain ⟨last, hrcpts⟩ := ignored_rcpts env remote rs
      (rs.map (updateRecipientWithError env (remote .mailFrom) env.mailFrom false)) 3 rs.length 0 (by omega) env.mailFrom
    rw [hrcpts, data_turn]
    exact nothing_to_send env remote _ (.inl rfl) rfl _

end ClientConnection

/-! ## The two paths agree -/

/-- The command whose reply says that the message has been taken. -/
def finalCommand : Sent := if env.chunkingAvailable then .bdat else .content

theorem update_not_ok (reply : Reply) (sent : WString) (isRecipientReply : Bool) (r : MessageRecipient)
    (h : (updateRecipientWithError env reply sent isRecipientReply r).deliveryResult = .ok) :
    r.deliveryResult = .ok := by
  unfold updateRecipientWithError at h
  split_ifs at h <;> exact h

theorem tried_ok (k i : Nat) (rs : List MessageRecipient) {r r' : MessageRecipient} (hr : rs[i]? = some r)
    (hr' : (tried env remote k rs)[i]? = some r') (h : r'.deliveryResult = .ok) : r.deliveryResult = .ok := by
  unfold tried at hr'
  rw [List.getElem?_mapIdx, hr, Option.map_some, Option.some.injEq] at hr'
  subst hr'
  split at h
  · exact update_not_ok env _ _ _ r h
  · exact h

/-- A recipient that the transaction makes OK was accepted, and so was the message. -/
theorem settle_ok (reply : Reply) (sent : WString) (ok : Finset Nat) (i : Nat) (rs : List MessageRecipient)
    {r r' : MessageRecipient} (hr : rs[i]? = some r) (hr' : (settle env reply sent ok rs)[i]? = some r')
    (h : r'.deliveryResult = .ok) :
    r.deliveryResult = .ok ∨ i ∈ ok ∧ isPositiveCompletion reply.code = true := by
  unfold settle at hr'
  split at hr'
  case isTrue hpositive =>
    rw [List.getElem?_mapIdx, hr, Option.map_some, Option.some.injEq] at hr'
    subst hr'
    split at h
    case isTrue hmem => exact .inr ⟨hmem, hpositive⟩
    case isFalse => exact .inl h
  case isFalse =>
    rw [List.getElem?_map, hr, Option.map_some, Option.some.injEq] at hr'
    subst hr'
    exact .inl (update_not_ok env _ _ _ r h)

theorem outcome_ok (rs : List MessageRecipient) (i : Nat) {r r' : MessageRecipient} (hr : rs[i]? = some r)
    (hr' : (outcome env remote rs)[i]? = some r') (h : r'.deliveryResult = .ok) :
    r.deliveryResult = .ok ∨
      positive remote (.rcptTo i) = true ∧ positive remote (finalCommand env) = true := by
  have hmem : ∀ {k}, i ∈ accepted remote k → positive remote (.rcptTo i) = true := fun h => (Finset.mem_filter.1 h).2
  obtain ⟨r₁, hr₁⟩ : ∃ r₁, (tried env remote rs.length rs)[i]? = some r₁ := by
    refine ⟨_, List.getElem?_eq_getElem ?_⟩
    rw [length_tried]
    exact (List.getElem?_eq_some_iff.1 hr).1
  unfold outcome at hr'
  by_cases hmail : positive remote .mailFrom = false
  · rw [if_pos hmail, List.getElem?_map, hr, Option.map_some, Option.some.injEq] at hr'
    subst hr'
    exact .inl (update_not_ok env _ _ _ r h)
  rw [if_neg hmail] at hr'
  by_cases hnone : accepted remote rs.length = ∅
  · rw [if_pos hnone] at hr'
    exact .inl (tried_ok env remote _ i rs hr hr' h)
  rw [if_neg hnone] at hr'
  unfold finalCommand
  by_cases hcontent : env.chunkingAvailable = false ∧ positive remote .data = true
  · rw [if_pos hcontent] at hr'
    rw [hcontent.1, if_neg Bool.false_ne_true]
    rcases settle_ok env _ _ _ i _ hr₁ hr' h with hok | ⟨hin, hfinal⟩
    · exact .inl (tried_ok env remote _ i rs hr hr₁ hok)
    · exact .inr ⟨hmem hin, hfinal⟩
  · rw [if_neg hcontent] at hr'
    rcases settle_ok env _ _ _ i _ hr₁ hr' h with hok | ⟨hin, hfinal⟩
    · exact .inl (tried_ok env remote _ i rs hr hr₁ hok)
    · -- only the reply to BDAT is final: one to DATA is positive in the other case
      cases hchunking : env.chunkingAvailable with
      | true =>
        unfold dataCommand at hfinal
        rw [hchunking, if_pos rfl] at hfinal
        exact .inr ⟨hmem hin, hfinal⟩
      | false =>
        unfold dataCommand at hfinal
        rw [hchunking, if_neg Bool.false_ne_true] at hfinal
        exact absurd ⟨hchunking, hfinal⟩ hcontent

/-- Every recipient ends the same way on either path, and is delivered to only where
    its RCPT TO and the message were accepted. -/
theorem pipelining_agrees (rs : List MessageRecipient) (hdata : DataReply env remote rs) :
    let pipelined := ClientConnection.deliver { env with pipeliningAvailable := true } rs remote
    let single := ClientConnection.deliver { env with pipeliningAvailable := false } rs remote
    pipelined.unanswered = [] ∧ single.unanswered = [] ∧ pipelined.recipients = single.recipients ∧
      ∀ i r r', rs[i]? = some r → pipelined.recipients[i]? = some r' → r'.deliveryResult = .ok →
        r.deliveryResult = .ok ∨
          positive remote (.rcptTo i) = true ∧ positive remote (finalCommand env) = true := by
  intro pipelined single
  have hpipelined := ClientConnection.pipelined { env with pipeliningAvailable := true } remote rfl rs hdata
  have hsingle := ClientConnection.oneAtATime { env with pipeliningAvailable := false } remote rfl rs
  have hsame : outcome { env with pipeliningAvailable := true } remote rs =
      outcome { env with pipeliningAvailable := false } remote rs := rfl
  refine ⟨hpipelined.2, hsingle.2, by rw [hpipelined.1, hsingle.1, hsame], ?_⟩
  intro i r r' hr hr' hok
  rw [hpipelined.1] at hr'
  exact outcome_ok { env with pipeliningAvailable := true } remote rs i hr hr' hok

/-- Two recipients, the first of whom is refused. -/
theorem pipelining_agrees_refused :
    let env : Settings :=
      { ipAddress := wide "192.0.2.1", mailFrom := wide "MAIL FROM:<a@example.com>", messageSize := 42
        pipeliningAvailable := true, chunkingAvailable := false, enhancedStatusFromSmtpReply := fun _ _ _ => [] }
    let remote : Sent → Reply
      | .rcptTo 0 => ⟨550, wide "550 no such user"⟩
      | .data => ⟨354, wide "354 go ahead"⟩
      | _ => ⟨250, wide "250 ok"⟩
    let rs : List MessageRecipient := [{ address := wide "b@example.org" }, { address := wide "c@example.org" }]
    (ClientConnection.deliver { env with pipeliningAvailable := true } rs remote).recipients =
      (ClientConnection.deliver { env with pipeliningAvailable := false } rs remote).recipients := by
  intro env remote rs
  exact (pipelining_agrees env remote rs fun _ _ _ => .inl rfl).2.2.1

end HMailServer.Smtp.Outbound
