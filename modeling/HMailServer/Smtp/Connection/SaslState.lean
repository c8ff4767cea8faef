import HMailServer.Smtp.Connection.Aside

/- What holds while a session waits for a SASL response: it is not authenticated,
   and a password is awaited for LOGIN alone. The commands of a transaction never
   begin to wait for one, so only the states of AUTH need a look inside. -/
namespace HMailServer.Smtp
open RecipientParser DotStuffing

variable {W : Type} (srv : Server W)

namespace Connection

variable {c c' : Connection W}

structure Pending (c : Connection W) : Prop where
  unauthenticated : awaitsSasl c.state = true → c.isAuthenticated = false
  login : c.state = .smtpUpassword → c.requestedAuthenticationType = .login

/-- No SASL response is awaited. -/
def AtRest (c : Connection W) : Prop := awaitsSasl c.state = false

theorem AtRest.pending (h : AtRest c) : Pending c where
  unauthenticated hawaits := absurd hawaits (by rw [h]; decide)
  login hstate := absurd h (by rw [AtRest, hstate]; decide)

theorem Pending.of_fields (h : Pending c) (hstate : c'.state = c.state) (hauth : c'.isAuthenticated = c.isAuthenticated)
    (htype : c'.requestedAuthenticationType = c.requestedAuthenticationType) : Pending c' where
  unauthenticated := by
    rw [hstate, hauth]
    exact h.unauthenticated
  login := by
    rw [hstate, htype]
    exact h.login

theorem AtRest.of_state (h : AtRest c) (hstate : c'.state = c.state) : AtRest c' := by
  rw [AtRest, hstate]
  exact h

theorem atRest_header : AtRest { c with state := .header } := rfl

/-! ## Replies -/

theorem Answered.state (h : Answered c c') : c'.state = c.state := by
  cases h <;> rfl

theorem Answered.pending (h : Answered c c') (hc : Pending c) : Pending c' := by
  cases h with
  | goesOn w n replies => exact ⟨hc.unauthenticated, hc.login⟩
  | closed w n replies => exact ⟨hc.unauthenticated, hc.login⟩

@[simp] theorem state_sendResponse (c : Connection W) (code : Nat) (enhancedCode : String) (text : WString) :
    (c.sendResponse code enhancedCode text).state = c.state := rfl

@[simp] theorem state_enqueueWrite (c : Connection W) (code : Nat) (text : WString) :
    (c.enqueueWrite code text).state = c.state := rfl

@[simp] theorem state_disconnect (c : Connection W) : c.disconnect.state = c.state := rfl

@[simp] theorem state_enqueueRead (c : Connection W) (reading : Reading) : (c.enqueueRead reading).state = c.state := by
  unfold enqueueRead
  split <;> rfl

@[simp] theorem state_sendErrorResponse (c : Connection W) (code : Nat) (text : WString) :
    (c.sendErrorResponse srv code text).state = c.state := (answered_sendErrorResponse srv c code text).state

@[simp] theorem state_refuseWithoutStartTls (c : Connection W) : (c.refuseWithoutStartTls srv).state = c.state :=
  (answered_refuseWithoutStartTls srv c).state

@[simp] theorem state_answerScript (c : Connection W) (result : ScriptResult) :
    (c.answerScript result).2.state = c.state := (answered_answerScript c result).state

@[simp] theorem state_runScript (c : Connection W) (event : ScriptEvent) (message : Option Message) :
    (c.runScript srv event message).2.state = c.state := (answered_runScript srv c event message).state

theorem pending_enqueueRead (h : c.Pending) (reading : Reading) : (c.enqueueRead reading).Pending := by
  unfold enqueueRead
  split_ifs
  · exact h
  · exact h.of_fields rfl rfl rfl

theorem atRest_resetCurrentMessage (c : Connection W) : AtRest c.resetCurrentMessage := by
  unfold resetCurrentMessage AtRest
  dsimp only
  split <;> rfl

theorem atRest_resetLoginCredentials (c : Connection W) : AtRest c.resetLoginCredentials := rfl

/-! ## MAIL FROM and RCPT TO -/

@[simp] theorem state_doSpamProtection (c : Connection W) (type : SpamProtectionType) (fromAddress hostName : WString)
    (address : IPAddress) : (c.doSpamProtection srv type fromAddress hostName address).2.state = c.state := by
  unfold doSpamProtection
  dsimp only
  split_ifs
  · rfl
  · split
    · split_ifs <;> rfl
    · rfl
    · rfl
  · rfl

@[simp] theorem state_refuseForAccountSendingQuota (c : Connection W) (result : RateLimiter.AccountQuotaResult) :
    (c.refuseForAccountSendingQuota result).state = c.state := by
  cases result <;> rfl

@[simp] theorem state_checkAccountSendingQuotaAtMailFrom (c : Connection W) :
    (c.checkAccountSendingQuotaAtMailFrom srv).2.state = c.state := by
  unfold checkAccountSendingQuotaAtMailFrom
  dsimp only
  split_ifs
  · rfl
  · rfl
  · rfl
  · exact state_refuseForAccountSendingQuota _ _

@[simp] theorem state_checkAccountSendingQuotaAtRcptTo (c : Connection W) :
    (c.checkAccountSendingQuotaAtRcptTo srv).2.2.state = c.state := by
  unfold checkAccountSendingQuotaAtRcptTo
  dsimp only
  split_ifs
  · rfl
  · rfl
  · exact state_refuseForAccountSendingQuota _ _

theorem atRest_reAuthenticate (h : AtRest c) : AtRest (c.reAuthenticate srv).2 := by
  unfold reAuthenticate
  split_ifs
  · exact h
  · exact h
  · exact (atRest_resetLoginCredentials c).of_state (state_sendErrorResponse srv _ _ _)

theorem atRest_mailAccept (h : AtRest c) (fromAddress : WString) (size : Nat) :
    AtRest (c.mailAccept srv fromAddress size) := by
  have hvalid : ∀ d : Connection W, AtRest d →
      AtRest (if d.reAuthenticateUser then d.reAuthenticate srv else (true, d)).2 := by
    intro d hd
    split_ifs
    · exact atRest_reAuthenticate srv hd
    · exact hd
  have hquota : ∀ d : Connection W, AtRest d →
      AtRest ({ d with reAuthenticateUser := true }.checkAccountSendingQuotaAtMailFrom srv).2 :=
    fun d hd => hd.of_state (state_checkAccountSendingQuotaAtMailFrom srv _)
  unfold mailAccept
  refine iteInduction (motive := AtRest) (fun _ => h) fun _ => ?_
  refine iteInduction (motive := AtRest) (fun _ => hvalid _ h) fun _ => ?_
  exact iteInduction (motive := AtRest) (fun _ => hquota _ (hvalid _ h)) fun _ => hquota _ (hvalid _ h)

@[simp] theorem state_mailSender (c : Connection W) (fromAddress parameters : WString) :
    (c.mailSender srv fromAddress parameters).2.state = c.state := by
  unfold mailSender
  dsimp only
  split_ifs <;> simp

@[simp] theorem state_mailRate (c : Connection W) : (c.mailRate srv).2.state = c.state := by
  unfold mailRate
  dsimp only
  split_ifs <;> simp

@[simp] theorem state_mailDeclarations (c : Connection W) (fromAddress parameters : WString) :
    (c.mailDeclarations srv fromAddress parameters).2.state = c.state := by
  unfold mailDeclarations
  dsimp only
  split <;> simp

@[simp] theorem state_mailAddress (c : Connection W) (request : WString) :
    (c.mailAddress srv request).2.state = c.state := by
  unfold mailAddress mailSyntaxError
  dsimp only
  split_ifs
  · simp
  · simp
  · simp
  · simp
  · simp
  · split <;> simp

@[simp] theorem state_mailPrepare (c : Connection W) (request : WString) :
    (c.mailPrepare srv request).2.state = c.state := by
  have haddress := state_mailAddress srv c request
  unfold mailPrepare
  split
  · rename_i hr
    rw [hr] at haddress
    exact haddress
  · rename_i hr
    rw [hr] at haddress
    dsimp only
    split_ifs <;> simpa using haddress

theorem atRest_protocolMAIL (h : AtRest c) (request : WString) : AtRest (c.protocolMAIL srv request) := by
  have hprepare := h.of_state (state_mailPrepare srv c request)
  have htests : ∀ (d : Connection W) (fromAddress : WString), AtRest d →
      AtRest (if d.testedAtMail srv then
        d.doSpamProtection srv .preTransmission fromAddress d.heloHost d.remoteAddress else (true, d)).2 := by
    intro d fromAddress hd
    split_ifs
    · exact hd.of_state (state_doSpamProtection srv _ _ _ _ _)
    · exact hd
  unfold protocolMAIL
  split
  · rename_i hr
    rw [hr] at hprepare
    exact hprepare
  · rename_i hr
    rw [hr] at hprepare
    refine iteInduction (motive := AtRest) (fun _ => htests _ _ hprepare) fun _ => ?_
    exact atRest_mailAccept srv (htests _ _ hprepare) _ _

@[simp] theorem state_rcptRelay (c : Connection W) (m : Message) (localDelivery : Bool) :
    (c.rcptRelay srv m localDelivery).2.state = c.state := by
  unfold rcptRelay
  dsimp only
  split_ifs <;> simp

@[simp] theorem state_rcptTests (c : Connection W) (m : Message) (address : WString) :
    (c.rcptTests srv m address).2.state = c.state := by
  simp [rcptTests, apply_ite Prod.snd, apply_ite state]

@[simp] theorem state_rcptRefusal (c : Connection W) (address : WString) (answer : Answer) :
    (c.rcptRefusal srv address answer).2.state = c.state := by
  unfold rcptRefusal
  split_ifs <;> simp

@[simp] theorem state_rcptAccept (c : Connection W) (m : Message) (address : WString) (moderated : Finset WString)
    (notify : Nat) (charged : Option WString) :
    (c.rcptAccept srv m address moderated notify charged).state = c.state := by
  unfold rcptAccept
  dsimp only
  split_ifs <;> simp

@[simp] theorem state_rcptPrepare (c : Connection W) (request : WString) :
    (c.rcptPrepare srv request).2.state = c.state := by
  unfold rcptPrepare
  split
  · simp
  · split
    · simp
    · dsimp only
      split
      · simp
      · split
        · simp
        · split
          · simp
          · split_ifs <;> simp

end Connection

namespace SMTPConnection

variable {s : SMTPConnection W}

theorem atRest_protocolRCPT (h : s.AtRest) (request : WString) : (s.protocolRCPT srv request).AtRest := by
  have hprepare := h.of_state (Connection.state_rcptPrepare srv s.toConnection request)
  unfold protocolRCPT
  split
  · rename_i hr
    rw [hr] at hprepare
    exact hprepare
  · rename_i hr
    rw [hr] at hprepare
    dsimp only
    split_ifs <;> simpa [Connection.AtRest, withConnection] using hprepare

/-! ## DATA and BDAT -/

@[simp] theorem state_appendMessageHeaders (s : SMTPConnection W) : (s.appendMessageHeaders srv).state = s.state := by
  unfold appendMessageHeaders
  split
  · split_ifs <;> rfl
  · rfl

@[simp] theorem state_flush (s : SMTPConnection W) (b : TransparentTransmissionBuffer) (force : Bool) :
    (s.flush srv b force).state = s.state := by
  unfold flush
  split <;> rfl

@[simp] theorem state_enqueueFinalization (c : Connection W) : (c.enqueueFinalization srv).state = c.state := by
  unfold Connection.enqueueFinalization
  split_ifs <;> rfl

@[simp] theorem state_completeBdatMessage (s : SMTPConnection W) : (s.completeBdatMessage srv).state = s.state := by
  unfold completeBdatMessage
  dsimp only
  split
  · simp
  · split_ifs
    · simp
    · exact (state_enqueueFinalization srv _).trans (by simp)

@[simp] theorem state_openBdat (s : SMTPConnection W) : s.openBdat.state = s.state := by
  unfold openBdat
  split_ifs <;> rfl

theorem atRest_dropMessage (c : Connection W) (size : Nat) : (c.dropMessage srv size).AtRest :=
  Connection.atRest_resetCurrentMessage _

theorem atRest_startBdatDiscard {c : Connection W} (h : c.AtRest) (chunkSize : Nat) :
    (c.startBdatDiscard chunkSize).AtRest := by
  unfold Connection.startBdatDiscard Connection.readChunk
  split_ifs
  · exact h
  · simp [Connection.AtRest, Connection.awaitsSasl]

theorem atRest_startBdatChunk (h : s.AtRest) (chunkSize : Nat) (isLast : Bool) :
    (s.startBdatChunk srv chunkSize isLast).AtRest := by
  unfold startBdatChunk Connection.readChunk
  dsimp only
  split_ifs
  · simp [Connection.AtRest, Connection.awaitsSasl]
  · exact h
  · simp [Connection.AtRest, Connection.awaitsSasl, withConnection]

theorem atRest_protocolBDAT (h : s.AtRest) (request : WString) : (s.protocolBDAT srv request).AtRest := by
  unfold protocolBDAT
  split
  · exact h
  · split_ifs
    · exact atRest_startBdatDiscard (h.of_state (Connection.state_refuseWithoutStartTls srv _)) _
    · split
      · exact atRest_startBdatDiscard (c := s.mustHaveRecipient) h _
      · split_ifs
        · exact atRest_startBdatDiscard (c := s.mustHaveRecipient) h _
        · exact atRest_startBdatDiscard (c := Connection.handleUnableToSaveMessageDataFile { s.toConnection with
            transmissionBuffer := some { isSending := false, binaryMode := true } }) h _
        · exact atRest_startBdatChunk srv (h.of_state (state_openBdat s)) _ _

theorem atRest_finishBdatPiece (h : s.AtRest) : (s.finishBdatPiece srv).AtRest := by
  unfold finishBdatPiece Connection.readChunk
  dsimp only
  split_ifs
  · exact h
  · exact h.of_state (Connection.state_enqueueRead _ _)
  · exact h.of_state (state_completeBdatMessage srv s)
  · simp [Connection.AtRest, Connection.awaitsSasl, withConnection]

theorem atRest_discardChunkData {c : Connection W} (h : c.AtRest) (data : List Byte) : (c.discardChunkData data).AtRest := by
  unfold Connection.discardChunkData Connection.readChunk
  dsimp only
  split_ifs
  · exact h.of_state (Connection.state_enqueueRead _ _)
  · simp [Connection.AtRest, Connection.awaitsSasl]

theorem atRest_handleBdatChunkData (h : s.AtRest) (data : List Byte) : (s.handleBdatChunkData srv data).AtRest := by
  unfold handleBdatChunkData
  split_ifs
  · exact atRest_discardChunkData h data
  · split
    · exact h
    · dsimp only
      split_ifs
      · exact atRest_dropMessage srv _ _
      · apply atRest_finishBdatPiece
        refine h.of_state ?_
        simp
      · exact atRest_finishBdatPiece srv h

theorem atRest_protocolDATA (h : s.AtRest) : (s.protocolDATA srv).AtRest := by
  have hstart : ∀ (t : SMTPConnection W) (m : Message), t.AtRest → (t.startData srv m).AtRest := by
    intro t m ht
    unfold startData
    dsimp only
    split_ifs
    · rfl
    · exact ht
  have hscript : ∀ m, (s.runScript srv .onSMTPData m).2.AtRest :=
    fun m => h.of_state (Connection.state_runScript srv _ _ _)
  unfold protocolDATA
  split
  · exact h.of_state (Connection.state_refuseWithoutStartTls srv _)
  · split
    · exact h
    · split
      · exact h
      · dsimp only
        split_ifs
        · exact h
        · exact h
        · exact hscript _
        · exact hstart _ _ (hscript _)

theorem pending_finishDataPiece (h : s.Pending) (size : Nat) : (s.finishDataPiece srv size).Pending := by
  have hqueued : ∀ c : Connection W, c.Pending → (c.enqueueFinalization srv).Pending := by
    intro c hc
    unfold Connection.enqueueFinalization
    split_ifs <;> exact hc.of_fields rfl rfl rfl
  unfold finishDataPiece
  split
  · exact h
  · dsimp only
    split_ifs
    · exact (atRest_dropMessage srv _ _).pending
    · exact Connection.pending_enqueueRead h _
    · exact hqueued _ h
    · exact hqueued _ (h.of_fields rfl rfl rfl)

theorem pending_parseBytes (h : s.Pending) (data : List Byte) : (s.parseBytes srv data).Pending := by
  have hheaders : ∀ t : SMTPConnection W, t.Pending → (t.appendMessageHeaders srv).Pending := by
    intro t ht
    unfold appendMessageHeaders
    split
    · split_ifs
      · exact ht.of_fields rfl rfl rfl
      · exact ht
    · exact ht
  have hflush : ∀ (t : SMTPConnection W) b, t.Pending → (t.flush srv b false).Pending := by
    intro t b ht
    unfold flush
    split <;> exact ht.of_fields rfl rfl rfl
  unfold parseBytes
  split
  · rename_i hstate
    refine (atRest_handleBdatChunkData srv ?_ data).pending
    rw [Connection.AtRest, hstate]
    rfl
  · split
    · exact h
    · rename_i b _
      have happended : { s with transmissionBuffer := some (b.append (srv.transmission s.world) data) }.Pending :=
        h.of_fields rfl rfl rfl
      dsimp only
      split_ifs
      · exact hflush _ _ (hheaders _ happended)
      · exact pending_finishDataPiece srv (hflush _ _ (hheaders _ happended)) _
      · exact hflush _ _ happended
      · exact pending_finishDataPiece srv (hflush _ _ happended) _

end SMTPConnection

namespace Connection

variable {c : Connection W}

/-! ## The accept task -/

theorem atRest_resumeCommandModeAfterData (h : AtRest c) : AtRest c.resumeCommandModeAfterData :=
  h.of_state (state_enqueueRead _ _)

theorem atRest_abandonFinalization (c : Connection W) : AtRest c.abandonFinalization :=
  atRest_resumeCommandModeAfterData (atRest_resetCurrentMessage _)

theorem atRest_acceptMessage (c : Connection W) (m : Message) (b : TransparentTransmissionBuffer) :
    AtRest (c.acceptMessage srv m b) := by
  unfold acceptMessage
  dsimp only
  split
  · exact atRest_abandonFinalization _
  · split
    · exact atRest_resumeCommandModeAfterData (atRest_resetCurrentMessage _)
    · apply atRest_resumeCommandModeAfterData
      unfold saveMessage messageSaved
      dsimp only
      split
      · rfl
      · exact atRest_resetCurrentMessage _

theorem pending_finalize (h : Pending c) : Pending (c.finalize srv) := by
  unfold finalize
  split
  · dsimp only
    split_ifs
    · exact (atRest_abandonFinalization _).pending
    · exact (atRest_resumeCommandModeAfterData (atRest_resetCurrentMessage _)).pending
    · exact (atRest_acceptMessage srv _ _ _).pending
  · exact h

/-! ## Greeting, TLS and XCLIENT -/

theorem pending_greet (h : Pending c) (extended : Bool) (request : WString) : Pending (c.greet srv extended request) := by
  unfold greet
  dsimp only
  split
  · exact (answered_sendErrorResponse srv _ _ _).pending h
  · rename_i host _
    split
    · exact (answered_sendErrorResponse srv { c with heloHost := host } _ _).pending (h.of_fields rfl rfl rfl)
    · have hscript := (answered_runScript srv { c with heloHost := host } .onHELO none).pending (h.of_fields rfl rfl rfl)
      generalize Connection.runScript srv { c with heloHost := host } .onHELO none = r at hscript ⊢
      split
      · exact hscript
      · by_cases hinitial : r.2.state = .initial
        · exact AtRest.pending (by simp [AtRest, awaitsSasl, hinitial])
        · exact hscript.of_fields (by simp [hinitial]) rfl rfl

theorem atRest_protocolSTARTTLS (h : AtRest c) (request : WString) : AtRest (c.protocolSTARTTLS srv request) := by
  have hrefused : ∀ code text, AtRest (c.sendErrorResponse srv code text) :=
    fun code text => h.of_state (state_sendErrorResponse srv c code text)
  unfold protocolSTARTTLS
  split_ifs
  · exact hrefused _ _
  · exact hrefused _ _
  · rfl
  · exact hrefused _ _

theorem pending_onHandshakeCompleted (h : Pending c) : Pending (c.onHandshakeCompleted srv) := by
  unfold onHandshakeCompleted
  split
  · exact h.of_fields rfl rfl rfl
  · exact AtRest.pending rfl
  · exact AtRest.pending rfl
  · exact h

theorem atRest_protocolXCLIENT (h : AtRest c) (request : WString) : AtRest (c.protocolXCLIENT srv request) := by
  unfold protocolXCLIENT
  split
  · exact h
  · split
    · exact h.of_state (state_refuseWithoutStartTls srv c)
    · split
      · exact h
      · dsimp only
        split
        · exact h
        · split
          · exact h
          · split
            · exact h
            · split
              · exact h
              · rfl

/-! ## AUTH -/

theorem atRest_restartAuthentication (c : Connection W) : AtRest (c.restartAuthentication srv) :=
  (atRest_resetLoginCredentials c).of_state (state_sendErrorResponse srv _ _ _)

theorem atRest_cancelled (c : Connection W) : AtRest (c.cancelled srv) :=
  (atRest_resetLoginCredentials c).of_state (state_sendErrorResponse srv _ _ _)

theorem pending_logonRefused (h : Pending c) (register : W → Bool × W) : Pending (c.logonRefused srv register) := by
  unfold logonRefused
  dsimp only
  split
  · exact (answered_tooManyLogons srv _).pending (h.of_fields rfl rfl rfl)
  · exact (atRest_restartAuthentication srv _).pending

theorem pending_authenticate (h : Pending c) : Pending (c.authenticate srv) := by
  unfold authenticate
  dsimp only
  split
  · exact (answered_tooManyLogons srv _).pending (h.of_fields rfl rfl rfl)
  · split
    · exact AtRest.pending rfl
    · rename_i hrefused
      apply pending_logonRefused
      exact ⟨fun _ => Bool.eq_false_iff.2 hrefused, h.login⟩

theorem pending_applyOutcome (h : Pending c) (accepted : Bool) (loginName : WString) (register : W → Bool × W) :
    Pending (c.applyOutcome srv accepted loginName register) := by
  unfold applyOutcome
  dsimp only
  split
  · exact AtRest.pending rfl
  · rename_i hrefused
    apply pending_logonRefused
    exact ⟨fun _ => Bool.eq_false_iff.2 hrefused, h.login⟩

theorem pending_authenticateUsingPLAIN (h : Pending c) (line : WString) : Pending (c.authenticateUsingPLAIN srv line) := by
  unfold authenticateUsingPLAIN
  dsimp only
  split
  · exact (atRest_restartAuthentication srv c).pending
  · exact pending_authenticate srv (h.of_fields rfl rfl rfl)

theorem pending_authenticateUsingBearer (h : Pending c) (line : WString) :
    Pending (c.authenticateUsingBearer srv line) := by
  unfold authenticateUsingBearer
  split
  · exact (atRest_cancelled srv c).pending
  · apply pending_applyOutcome
    exact h.of_fields rfl rfl rfl

theorem pending_authenticateUsingExternal (h : Pending c) (line : WString) :
    Pending (c.authenticateUsingExternal srv line) := by
  unfold authenticateUsingExternal
  split
  · exact (atRest_cancelled srv c).pending
  · apply pending_applyOutcome
    exact h.of_fields rfl rfl rfl

theorem pending_protocolGssapiToken (h : Pending c) (hauth : c.isAuthenticated = false) (line : WString) :
    Pending (c.protocolGssapiToken srv line) := by
  unfold protocolGssapiToken
  dsimp only
  split
  · exact (atRest_cancelled srv _).pending
  · split
    · exact (answered_sendErrorResponse srv _ _ _).pending h
    · split
      · exact ⟨fun _ => hauth, nofun⟩
      · apply pending_applyOutcome
        exact h.of_fields rfl rfl rfl

theorem pending_scramAuthFailed (h : Pending c) : Pending (c.scramAuthFailed srv) := by
  unfold scramAuthFailed
  dsimp only
  split
  · exact (answered_tooManyLogons srv _).pending (h.of_fields rfl rfl rfl)
  · exact AtRest.pending rfl

theorem pending_protocolScramClientFirst (hauth : c.isAuthenticated = false) (request : WString) :
    Pending (c.protocolScramClientFirst srv request) := by
  unfold protocolScramClientFirst
  dsimp only
  split
  · exact AtRest.pending rfl
  · split
    · exact AtRest.pending rfl
    · split
      · exact AtRest.pending rfl
      · exact ⟨fun _ => hauth, nofun⟩

theorem pending_protocolScramClientFinal (h : Pending c) (hauth : c.isAuthenticated = false) (request : WString) :
    Pending (c.protocolScramClientFinal srv request) := by
  unfold protocolScramClientFinal
  dsimp only
  split
  · exact AtRest.pending rfl
  · split
    · exact pending_scramAuthFailed srv h
    · exact ⟨fun _ => hauth, nofun⟩

theorem pending_finishScramAuth (h : Pending c) : Pending (c.finishScramAuth srv) := by
  unfold finishScramAuth
  dsimp only
  split
  · exact pending_scramAuthFailed srv (h.of_fields rfl rfl rfl)
  · exact AtRest.pending rfl

theorem pending_saslResponse (h : Pending c) (request : WString) : Pending (c.saslResponse srv request) := by
  have hauth : ∀ {state : ConnectionState}, c.state = state → awaitsSasl state = true → c.isAuthenticated = false := by
    intro state hstate hawaits
    exact h.unauthenticated (hstate ▸ hawaits)
  unfold saslResponse
  split
  · rename_i hstate
    split
    · rename_i htype
      exact ⟨fun _ => hauth hstate rfl, fun _ => htype⟩
    · exact pending_authenticateUsingPLAIN srv h request
  · exact pending_authenticate srv (h.of_fields rfl rfl rfl)
  · exact pending_protocolScramClientFirst srv (hauth ‹_› rfl) request
  · exact pending_protocolScramClientFinal srv h (hauth ‹_› rfl) request
  · exact pending_finishScramAuth srv h
  · exact pending_authenticateUsingBearer srv h request
  · exact pending_authenticateUsingExternal srv h request
  · exact pending_protocolGssapiToken srv h (hauth ‹_› rfl) request
  · exact h

theorem pending_startMechanism (h : AtRest c) (hauth : c.isAuthenticated = false) (type : AuthenticationType)
    (response : Option WString) {waiting : ConnectionState} {go : Connection W → WString → Connection W}
    (hwaiting : waiting ≠ .smtpUpassword)
    (hgo : ∀ (d : Connection W) (line : WString), AtRest d → d.isAuthenticated = false → Pending (go d line)) :
    Pending (c.startMechanism type response waiting go) := by
  unfold startMechanism
  cases response with
  | some line => exact hgo _ line h hauth
  | none => exact ⟨fun _ => hauth, fun hstate => absurd hstate hwaiting⟩

theorem pending_selectMechanism (h : AtRest c) (hauth : c.isAuthenticated = false) (mechanism : WString)
    (params : List WString) : Pending (c.selectMechanism srv mechanism params) := by
  have hrefused : ∀ code text, Pending (c.sendErrorResponse srv code text) :=
    fun code text => (h.of_state (state_sendErrorResponse srv c code text)).pending
  unfold selectMechanism
  dsimp only
  repeat' with_reducible refine iteInduction (motive := Pending) (fun _ => ?_) fun _ => ?_
  · exact ⟨fun _ => hauth, fun _ => rfl⟩
  · exact ⟨fun _ => hauth, nofun⟩
  · apply pending_authenticateUsingPLAIN
    exact AtRest.pending h
  · exact ⟨fun _ => hauth, nofun⟩
  · exact hrefused _ _
  · exact hrefused _ _
  · exact pending_startMechanism h hauth _ _ nofun fun d line _ hd => pending_protocolScramClientFirst srv hd line
  · exact pending_startMechanism h hauth _ _ nofun fun d line _ hd => pending_protocolScramClientFirst srv hd line
  · exact hrefused _ _
  · exact hrefused _ _
  · exact pending_startMechanism h hauth _ _ nofun fun d line hd _ => pending_authenticateUsingBearer srv hd.pending line
  · exact hrefused _ _
  · exact pending_startMechanism h hauth _ _ nofun fun d line hd _ => pending_authenticateUsingExternal srv hd.pending line
  · exact hrefused _ _
  · exact pending_startMechanism (c := { c with gssapiSession := true }) h hauth _ _ nofun
      fun d line hd hd' => pending_protocolGssapiToken srv hd.pending hd' line
  · exact hrefused _ _

theorem pending_protocolAUTH (h : AtRest c) (request : WString) : Pending (c.protocolAUTH srv request) := by
  have hrefused : ∀ (d : Connection W) code text, AtRest d → Pending (d.sendErrorResponse srv code text) :=
    fun d code text hd => (hd.of_state (state_sendErrorResponse srv d code text)).pending
  unfold protocolAUTH
  dsimp only
  split_ifs
  · exact (h.of_state (state_refuseWithoutStartTls srv c)).pending
  · exact hrefused _ _ _ h
  · exact hrefused _ _ _ h
  · exact hrefused _ _ _ h
  · exact hrefused _ _ _ h
  · rename_i hauth _
    exact pending_selectMechanism srv (c := { c with requestedAuthenticationType := .none }) h
      (Bool.eq_false_iff.2 hauth) _ _

/-! ## The command parser -/

theorem pending_commonCommand (h : Pending c) (command : CommandType) (request : WString) :
    ∀ d ∈ c.commonCommand srv command request, Pending d := by
  intro d hd
  unfold commonCommand at hd
  split at hd
  · cases hd
    exact (answered_protocolHELP srv c).pending h
  · cases hd
    exact pending_greet srv h true request
  · cases hd
    exact pending_greet srv h false request
  · cases hd
    refine AtRest.pending (AtRest.of_state (atRest_resetCurrentMessage c) ?_)
    rfl
  · cases hd
    exact h.of_fields rfl rfl rfl
  · cases hd
    unfold protocolRSET
    split
    · exact (answered_refuseWithoutStartTls srv c).pending h
    · apply AtRest.pending
      exact atRest_resetCurrentMessage c
  · cases hd

theorem pending_headerCommand (h : AtRest c) (command : CommandType) (request : WString) :
    Pending (c.headerCommand srv command request) := by
  unfold headerCommand
  split
  · exact (atRest_protocolSTARTTLS srv h request).pending
  · exact pending_protocolAUTH srv h request
  · exact (atRest_protocolMAIL srv h request).pending
  · exact (answered_disallowed srv c "TURN").pending h.pending
  · exact (answered_protocolETRN srv c request).pending h.pending
  · exact (answered_disallowed srv c "VRFY").pending h.pending
  · exact (atRest_protocolXCLIENT srv h request).pending
  · exact (answered_badSequence srv c).pending h.pending

end Connection

namespace SMTPConnection
open Connection

variable {s : SMTPConnection W}

theorem pending_dispatch (h : s.Pending) (command : CommandType) (request : WString) :
    (s.dispatch srv command request).Pending := by
  unfold dispatch
  split
  · rename_i hcommon
    exact pending_commonCommand srv h command request _ hcommon
  · split
    · rename_i hstate
      have hrest : s.AtRest := by rw [AtRest, hstate]; rfl
      split
      · exact (atRest_protocolXCLIENT srv hrest request).pending
      · exact (answered_badSequence srv _).pending (AtRest.pending hrest)
    · rename_i hstate
      have hrest : s.AtRest := by rw [AtRest, hstate]; rfl
      split
      · exact (atRest_protocolRCPT srv hrest request).pending
      · exact (atRest_protocolDATA srv hrest).pending
      · exact (atRest_protocolBDAT srv hrest request).pending
      · exact pending_headerCommand srv hrest command request
    · exact pending_saslResponse srv h request

theorem pending_internalParseData (h : s.Pending) (line : AnsiString) : (s.internalParseData srv line).Pending := by
  unfold internalParseData
  dsimp only
  split_ifs
  · exact h.of_fields rfl rfl rfl
  · exact h.of_fields rfl rfl rfl
  · exact pending_dispatch srv h _ _

theorem pending_parseLine (h : s.Pending) (line : AnsiString) : (s.parseLine srv line).Pending := by
  have hline := pending_internalParseData srv h line
  unfold parseLine
  dsimp only
  split
  · exact hline
  · split
    · exact pending_enqueueRead hline _
    · exact hline
    · exact hline
    · exact pending_enqueueRead hline _

end SMTPConnection

namespace Session
open Connection

variable {s : Session W}

theorem pending_close (h : s.Pending) : s.close.Pending := h.of_fields rfl rfl rfl

theorem pending_handle (h : s.Pending) (e : Event W) : (s.handle srv e).Pending := by
  cases e with
  | received octets => exact h
  | readCompleted available =>
    show (s.completeRead srv available).Pending
    unfold completeRead
    split
    · split
      · exact SMTPConnection.pending_parseLine srv h _
      · exact h
    · split
      · exact SMTPConnection.pending_parseBytes srv h _
      · exact h
  | handshakeCompleted =>
    unfold handle
    dsimp only
    split
    · exact pending_onHandshakeCompleted srv h
    · exact h
  | finalizationCompleted =>
    unfold handle
    dsimp only
    split
    · exact (pending_finalize srv h).of_fields rfl rfl rfl
    · exact h
  | ptrLookupCompleted host => exact h.of_fields rfl rfl rfl
  | endOfStream =>
    show (s.endOfStream srv).Pending
    unfold endOfStream
    split
    · exact pending_close (SMTPConnection.pending_parseBytes srv h _)
    · split
      · exact h
      · exact pending_close (SMTPConnection.pending_parseBytes srv h _)
    · exact pending_close h
  | closed => exact pending_close h
  | elsewhere world => exact h.of_fields rfl rfl rfl

theorem pending_step (h : s.Pending) (e : Event W) : (s.step srv e).Pending :=
  pending_handle srv (s := { s with replies := [], stored := [], additions := [] }) (h.of_fields rfl rfl rfl) e

/-- Whatever happens, a session that waits for a SASL response is not
    authenticated. -/
theorem pending_run (h : s.Pending) (events : List (Event W)) : (s.run srv events).Pending := by
  induction events generalizing s with
  | nil => exact h
  | cons e events ih => exact ih (pending_step srv h e)

theorem pending_connected (address : IPAddress) (range : SecurityRange) (w : W) :
    (connected srv address range w).Pending := ⟨nofun, nofun⟩

end Session
end HMailServer.Smtp
