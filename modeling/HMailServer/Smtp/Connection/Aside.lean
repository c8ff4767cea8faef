import HMailServer.Smtp.Connection.Commands

/- What the commands that are no part of a mail transaction can do. `Answered`
   is a reply or a script event, which changes nothing else than the counter of
   invalid commands and, through it, whether the connection is open. `Aside` is
   the frame of a whole command: the transaction is left alone and no content is
   read behind it. -/
namespace HMailServer.Smtp
open RecipientParser

variable {W : Type} (srv : Server W)

/-- What a connection keeps for its mail transaction, and what the event at hand
    has put on the message and in the store. -/
structure MailState where
  message : Option Message
  messageSubmission : Bool
  transmissionBuffer : Option TransparentTransmissionBuffer
  rejectedByDelayedGreyListing : Bool
  spamTestResults : List SpamTestResult
  authenticationResults : Option AuthenticationResults
  tx : Transaction
  audit : Audit
  pipelinedInput : List DotStuffing.Byte
  injected : List DotStuffing.Byte
  stored : List StoredMessage
  additions : List Addition

/-- A line is read in this state. -/
def Calm (state : ConnectionState) : Prop := state ≠ .data ∧ state ≠ .bdatData ∧ state ≠ .startTls

namespace Connection

variable {c c' c'' : Connection W}

def mailState (c : Connection W) : MailState :=
  ⟨c.message, c.messageSubmission, c.transmissionBuffer, c.rejectedByDelayedGreyListing, c.spamTestResults,
    c.authenticationResults, c.tx, c.audit, c.pipelinedInput, c.injected, c.stored, c.additions⟩

/-! ## Replies -/

inductive Answered (c : Connection W) : Connection W → Prop where
  | goesOn (w : W) (n : Nat) (replies : List Reply) :
    Answered c { c with world := w, curNoOfInvalidCommands := n, replies }
  | closed (w : W) (n : Nat) (replies : List Reply) :
    Answered c { c with
      world := w, curNoOfInvalidCommands := n, replies, reading := .closed, pendingDisconnect := true }

theorem Answered.refl (c : Connection W) : Answered c c := .goesOn _ _ _

theorem Answered.trans (h : Answered c c') (h' : Answered c' c'') : Answered c c'' := by
  cases h <;> cases h'
  · exact .goesOn _ _ _
  · exact .closed _ _ _
  · exact .closed _ _ _
  · exact .closed _ _ _

theorem answered_sendResponse (c : Connection W) (code : Nat) (enhancedCode : String) (text : WString) :
    Answered c (c.sendResponse code enhancedCode text) := .goesOn _ _ _

theorem answered_enqueueWrite (c : Connection W) (code : Nat) (text : WString) :
    Answered c (c.enqueueWrite code text) := .goesOn _ _ _

theorem answered_notify (c : Connection W) (event : ScriptEvent) (message : Option Message) :
    Answered c (c.notify srv event message) := .goesOn _ _ _

theorem answered_disconnect (c : Connection W) : Answered c c.disconnect := .closed _ _ _

theorem answered_world (c : Connection W) (w : W) : Answered c { c with world := w } := .goesOn _ _ _

theorem answered_sendErrorResponse (c : Connection W) (code : Nat) (text : WString) :
    Answered c (c.sendErrorResponse srv code text) := by
  unfold sendErrorResponse
  split
  · dsimp only
    split
    · exact .closed _ _ _
    · refine Answered.trans ?_ (answered_sendResponse _ _ _ _)
      split
      · exact .goesOn _ _ _
      · exact .goesOn _ _ _
  · exact answered_sendResponse _ _ _ _

theorem answered_refuseWithoutStartTls (c : Connection W) : Answered c (c.refuseWithoutStartTls srv) :=
  answered_sendErrorResponse srv _ _ _

theorem answered_answerScript (c : Connection W) (result : ScriptResult) :
    Answered c (c.answerScript result).2 := by
  cases result with
  | accept => exact .refl c
  | reject => exact answered_sendResponse _ _ _ _
  | rejectWith text => exact answered_sendResponse _ _ _ _
  | deferWith text => exact answered_sendResponse _ _ _ _

theorem answered_runScript (c : Connection W) (event : ScriptEvent) (message : Option Message) :
    Answered c (c.runScript srv event message).2 :=
  (answered_world c _).trans (answered_answerScript _ _)

theorem answered_badSequence (c : Connection W) : Answered c (c.badSequence srv) :=
  answered_sendErrorResponse srv _ _ _

theorem answered_protocolHELP (c : Connection W) : Answered c (c.protocolHELP srv) := by
  unfold protocolHELP
  split
  · exact answered_refuseWithoutStartTls srv c
  · exact answered_sendResponse _ _ _ _

theorem answered_disallowed (c : Connection W) (verb : String) : Answered c (c.disallowed srv verb) := by
  unfold disallowed
  split
  · exact answered_refuseWithoutStartTls srv c
  · exact answered_sendResponse _ _ _ _

theorem answered_protocolETRN (c : Connection W) (request : WString) : Answered c (c.protocolETRN srv request) := by
  unfold protocolETRN
  split
  · exact answered_refuseWithoutStartTls srv c
  · split
    · exact answered_sendErrorResponse srv _ _ _
    · dsimp only
      split
      · exact answered_sendErrorResponse srv _ _ _
      · exact (answered_world c _).trans (answered_sendResponse _ _ _ _)

/-! ## Commands beside a transaction -/

structure Aside (c c' : Connection W) : Prop where
  mail : c'.mailState = c.mailState
  calm : Calm c.state → Calm c'.state
  reading : c'.reading = .closed ∨ c'.reading = c.reading ∧ c'.pendingDisconnect = c.pendingDisconnect

theorem Aside.refl (c : Connection W) : Aside c c := ⟨rfl, id, .inr ⟨rfl, rfl⟩⟩

theorem Answered.aside (h : Answered c c') : Aside c c' := by
  cases h with
  | goesOn w n replies => exact ⟨rfl, id, .inr ⟨rfl, rfl⟩⟩
  | closed w n replies => exact ⟨rfl, id, .inl rfl⟩

theorem Aside.trans (h : Aside c c') (h' : Aside c' c'') : Aside c c'' := by
  refine ⟨h'.mail.trans h.mail, fun hc => h'.calm (h.calm hc), ?_⟩
  rcases h'.reading with hclosed | ⟨hr', hp'⟩
  · exact .inl hclosed
  · rcases h.reading with hclosed | ⟨hr, hp⟩
    · exact .inl (hr'.trans hclosed)
    · exact .inr ⟨hr'.trans hr, hp'.trans hp⟩

/-- Behind changes that leave the transaction, the state and the read alone. -/
theorem Aside.after (h : Aside c' c'') (hmail : c'.mailState = c.mailState) (hstate : c'.state = c.state)
    (hreading : c'.reading = c.reading ∧ c'.pendingDisconnect = c.pendingDisconnect) : Aside c c'' :=
  Aside.trans ⟨hmail, fun hc => hstate ▸ hc, .inr hreading⟩ h

theorem Aside.withState (h : Aside c c') {state : ConnectionState} (hcalm : Calm state) :
    Aside c { c' with state } := ⟨h.mail, fun _ => hcalm, h.reading⟩

theorem calm_header : Calm .header := ⟨nofun, nofun, nofun⟩

theorem calm_initial : Calm .initial := ⟨nofun, nofun, nofun⟩

theorem calm_greeted {state : ConnectionState} (h : Calm state) :
    Calm (if state = .initial then .header else state) := by
  split
  · exact calm_header
  · exact h

theorem aside_greet (c : Connection W) (extended : Bool) (request : WString) :
    Aside c (c.greet srv extended request) := by
  unfold greet
  dsimp only
  split
  · exact (answered_sendErrorResponse srv _ _ _).aside
  · rename_i host _
    split
    · exact Aside.after (answered_sendErrorResponse srv _ _ _).aside rfl rfl ⟨rfl, rfl⟩
    · have hscript : Aside c ({ c with heloHost := host }.runScript srv .onHELO none).2 :=
        Aside.after (answered_runScript srv _ _ _).aside rfl rfl ⟨rfl, rfl⟩
      split
      · exact hscript
      · exact ⟨hscript.mail, fun hc => calm_greeted (hscript.calm hc), hscript.reading⟩

/-! ## AUTH -/

/-- The login fields are no part of the transaction. -/
theorem aside_resetLoginCredentials (c : Connection W) : Aside c c.resetLoginCredentials :=
  ⟨rfl, fun _ => calm_header, .inr ⟨rfl, rfl⟩⟩

theorem aside_restartAuthentication (c : Connection W) : Aside c (c.restartAuthentication srv) :=
  (aside_resetLoginCredentials c).trans (answered_sendErrorResponse srv _ _ _).aside

theorem answered_tooManyLogons (c : Connection W) : Answered c (c.tooManyLogons srv) :=
  (answered_sendErrorResponse srv _ _ _).trans (answered_disconnect _)

theorem aside_logonAccepted (c : Connection W) : Aside c (c.logonAccepted srv) :=
  ((answered_notify srv c .onClientLogon none).trans
    (answered_sendResponse _ 235 "2.7.0" (wide "authenticated."))).aside.withState calm_header

theorem aside_logonRefused (c : Connection W) (register : W → Bool × W) : Aside c (c.logonRefused srv register) := by
  unfold logonRefused
  dsimp only
  split
  · exact Aside.after (answered_tooManyLogons srv _).aside rfl rfl ⟨rfl, rfl⟩
  · exact Aside.after (aside_restartAuthentication srv _) rfl rfl ⟨rfl, rfl⟩

theorem aside_authenticate (c : Connection W) : Aside c (c.authenticate srv) := by
  unfold authenticate
  dsimp only
  split
  · exact Aside.after (answered_tooManyLogons srv _).aside rfl rfl ⟨rfl, rfl⟩
  · split
    · exact Aside.after (aside_logonAccepted srv _) rfl rfl ⟨rfl, rfl⟩
    · exact Aside.after (aside_logonRefused srv _ _) rfl rfl ⟨rfl, rfl⟩

theorem aside_applyOutcome (c : Connection W) (accepted : Bool) (loginName : WString) (register : W → Bool × W) :
    Aside c (c.applyOutcome srv accepted loginName register) := by
  unfold applyOutcome
  dsimp only
  split
  · exact Aside.after (aside_logonAccepted srv _) rfl rfl ⟨rfl, rfl⟩
  · exact Aside.after (aside_logonRefused srv _ _) rfl rfl ⟨rfl, rfl⟩

theorem aside_cancelled (c : Connection W) : Aside c (c.cancelled srv) :=
  (aside_resetLoginCredentials c).trans (answered_sendErrorResponse srv _ _ _).aside

theorem aside_authenticateUsingPLAIN (c : Connection W) (line : WString) :
    Aside c (c.authenticateUsingPLAIN srv line) := by
  unfold authenticateUsingPLAIN
  dsimp only
  split
  · exact aside_restartAuthentication srv c
  · exact Aside.after (aside_authenticate srv _) rfl rfl ⟨rfl, rfl⟩

theorem aside_authenticateUsingBearer (c : Connection W) (line : WString) :
    Aside c (c.authenticateUsingBearer srv line) := by
  unfold authenticateUsingBearer
  split
  · exact aside_cancelled srv c
  · exact (answered_world c _).aside.trans (aside_applyOutcome srv _ _ _ _)

theorem aside_authenticateUsingExternal (c : Connection W) (line : WString) :
    Aside c (c.authenticateUsingExternal srv line) := by
  unfold authenticateUsingExternal
  split
  · exact aside_cancelled srv c
  · exact (answered_world c _).aside.trans (aside_applyOutcome srv _ _ _ _)

theorem aside_protocolGssapiToken (c : Connection W) (line : WString) :
    Aside c (c.protocolGssapiToken srv line) := by
  unfold protocolGssapiToken
  dsimp only
  split
  · exact Aside.after (aside_cancelled srv _) rfl rfl ⟨rfl, rfl⟩
  · split
    · exact (answered_sendErrorResponse srv _ _ _).aside
    · split
      · exact ⟨rfl, fun _ => ⟨nofun, nofun, nofun⟩, .inr ⟨rfl, rfl⟩⟩
      · exact Aside.after (aside_applyOutcome srv _ _ _ _) rfl rfl ⟨rfl, rfl⟩

theorem aside_scramStopped (c : Connection W) (text : String) : Aside c (c.scramStopped srv text) :=
  Aside.after ((answered_sendErrorResponse srv { c with scramSession := none } 501 (wide text)).aside.withState
    calm_header) rfl rfl ⟨rfl, rfl⟩

theorem aside_scramAuthFailed (c : Connection W) : Aside c (c.scramAuthFailed srv) := by
  unfold scramAuthFailed
  dsimp only
  split
  · exact Aside.after (answered_tooManyLogons srv _).aside rfl rfl ⟨rfl, rfl⟩
  · exact Aside.after ((answered_sendErrorResponse srv _ 535 (wide "Authentication failed.")).aside.withState
      calm_header) rfl rfl ⟨rfl, rfl⟩

theorem aside_protocolScramClientFirst (c : Connection W) (request : WString) :
    Aside c (c.protocolScramClientFirst srv request) := by
  unfold protocolScramClientFirst
  dsimp only
  split
  · exact aside_scramStopped srv c _
  · split
    · exact aside_scramStopped srv c _
    · split
      · exact Aside.after (aside_scramStopped srv _ _) rfl rfl ⟨rfl, rfl⟩
      · exact ⟨rfl, fun _ => ⟨nofun, nofun, nofun⟩, .inr ⟨rfl, rfl⟩⟩

theorem aside_protocolScramClientFinal (c : Connection W) (request : WString) :
    Aside c (c.protocolScramClientFinal srv request) := by
  unfold protocolScramClientFinal
  dsimp only
  split
  · exact aside_scramStopped srv c _
  · split
    · exact aside_scramAuthFailed srv c
    · exact ⟨rfl, fun _ => ⟨nofun, nofun, nofun⟩, .inr ⟨rfl, rfl⟩⟩

theorem aside_finishScramAuth (c : Connection W) : Aside c (c.finishScramAuth srv) := by
  unfold finishScramAuth
  dsimp only
  split
  · exact Aside.after (aside_scramAuthFailed srv _) rfl rfl ⟨rfl, rfl⟩
  · exact Aside.after (aside_logonAccepted srv _) rfl rfl ⟨rfl, rfl⟩

theorem aside_protocolUsername (c : Connection W) (request : WString) : Aside c (c.protocolUsername srv request) :=
  ⟨rfl, fun _ => ⟨nofun, nofun, nofun⟩, .inr ⟨rfl, rfl⟩⟩

theorem aside_protocolPassword (c : Connection W) (request : WString) : Aside c (c.protocolPassword srv request) :=
  Aside.after (aside_authenticate srv _) rfl rfl ⟨rfl, rfl⟩

theorem aside_startMechanism (c : Connection W) (type : AuthenticationType) (response : Option WString)
    {waiting : ConnectionState} {go : Connection W → WString → Connection W} (hwaiting : Calm waiting)
    (hgo : ∀ c line, Aside c (go c line)) : Aside c (c.startMechanism type response waiting go) := by
  unfold startMechanism
  cases response with
  | some line => exact Aside.after (hgo _ line) rfl rfl ⟨rfl, rfl⟩
  | none => exact ⟨rfl, fun _ => hwaiting, .inr ⟨rfl, rfl⟩⟩

theorem aside_selectMechanism (c : Connection W) (mechanism : WString) (params : List WString) :
    Aside c (c.selectMechanism srv mechanism params) := by
  have hcalm : ∀ {state : ConnectionState}, awaitsSasl state = true → Calm state := by
    intro state
    cases state <;> simp [awaitsSasl, Calm]
  unfold selectMechanism
  dsimp only
  repeat' with_reducible refine iteInduction (motive := Aside c) (fun _ => ?_) fun _ => ?_
  · exact ⟨rfl, fun _ => hcalm rfl, .inr ⟨rfl, rfl⟩⟩
  · exact ⟨rfl, fun _ => hcalm rfl, .inr ⟨rfl, rfl⟩⟩
  · exact Aside.after (aside_authenticateUsingPLAIN srv _ _) rfl rfl ⟨rfl, rfl⟩
  · exact ⟨rfl, fun _ => hcalm rfl, .inr ⟨rfl, rfl⟩⟩
  · exact (answered_sendErrorResponse srv _ _ _).aside
  · exact (answered_sendErrorResponse srv _ _ _).aside
  · exact aside_startMechanism c _ _ (hcalm rfl) (aside_protocolScramClientFirst srv)
  · exact aside_startMechanism c _ _ (hcalm rfl) (aside_protocolScramClientFirst srv)
  · exact (answered_sendErrorResponse srv _ _ _).aside
  · exact (answered_sendErrorResponse srv _ _ _).aside
  · exact aside_startMechanism c _ _ (hcalm rfl) (aside_authenticateUsingBearer srv)
  · exact (answered_sendErrorResponse srv _ _ _).aside
  · exact aside_startMechanism c _ _ (hcalm rfl) (aside_authenticateUsingExternal srv)
  · exact (answered_sendErrorResponse srv _ _ _).aside
  · exact Aside.after (aside_startMechanism _ _ _ (hcalm rfl) (aside_protocolGssapiToken srv)) rfl rfl ⟨rfl, rfl⟩
  · exact (answered_sendErrorResponse srv _ _ _).aside

theorem aside_protocolAUTH (c : Connection W) (request : WString) : Aside c (c.protocolAUTH srv request) := by
  unfold protocolAUTH
  dsimp only
  split_ifs
  · exact (answered_refuseWithoutStartTls srv c).aside
  · exact (answered_sendErrorResponse srv _ _ _).aside
  · exact (answered_sendErrorResponse srv _ _ _).aside
  · exact (answered_sendErrorResponse srv _ _ _).aside
  · exact Aside.after (answered_sendErrorResponse srv _ _ _).aside rfl rfl ⟨rfl, rfl⟩
  · exact Aside.after (aside_selectMechanism srv _ _ _) rfl rfl ⟨rfl, rfl⟩

theorem aside_saslResponse (c : Connection W) (request : WString) : Aside c (c.saslResponse srv request) := by
  unfold saslResponse
  split
  · split
    · exact aside_protocolUsername srv c request
    · exact aside_authenticateUsingPLAIN srv c request
  · exact aside_protocolPassword srv c request
  · exact aside_protocolScramClientFirst srv c request
  · exact aside_protocolScramClientFinal srv c request
  · exact aside_finishScramAuth srv c
  · exact aside_authenticateUsingBearer srv c request
  · exact aside_authenticateUsingExternal srv c request
  · exact aside_protocolGssapiToken srv c request
  · exact .refl c

end Connection
end HMailServer.Smtp
