import HMailServer.Smtp.Connection.Session

/- MAIL FROM and RCPT TO (`SMTP/SMTPConnection.cpp`), with the sending ceiling
   of an account and the spam protection they run. -/
namespace HMailServer.Smtp
open RecipientParser

variable {W : Type} (srv : Server W)

namespace Connection

/-- The message as it stands in its file. -/
def storedMessage (c : Connection W) (m : Message) : StoredMessage :=
  ⟨m, (c.transmissionBuffer.map TransparentTransmissionBuffer.spool).getD []⟩

/-! ## Spam protection -/

/-- `GetDoSpamProtection_`. -/
def getDoSpamProtection (c : Connection W) : Bool :=
  !c.isAuthenticated && c.securityRange.spamProtection &&
    !(c.message.any fun m => srv.isWhiteListed m.fromAddress c.remoteAddress c.world)

/-- `GetSpamTestResultMessage_`. -/
def getSpamTestResultMessage (results : List SpamTestResult) : WString :=
  ((results.find? SpamTestResult.fail).map SpamTestResult.message).getD []

/-- `CalculateTotalSpamScore`. -/
def calculateTotalSpamScore (results : List SpamTestResult) : Int := (results.map SpamTestResult.score).sum

/-- The tests of one type, on the verdicts recorded so far. -/
def runTests (c : Connection W) (type : SpamProtectionType) (fromAddress hostName : WString) (address : IPAddress) :
    (List SpamTestResult × Option AuthenticationResults) × W :=
  let verdicts :=
    if c.authenticationResults.isNone && srv.authenticationResultsEnabled c.world then some []
    else c.authenticationResults
  match type, c.message with
  | .preTransmission, _ => srv.runPreTransmissionTests fromAddress address c.remoteAddress hostName verdicts c.world
  | .postTransmission, some m =>
    srv.runPostTransmissionTests fromAddress address c.remoteAddress (c.storedMessage m) verdicts c.world
  | _, _ => (([], verdicts), c.world)

/-- `DoSpamProtection_`: whether the delivery goes on. -/
def doSpamProtection (c : Connection W) (type : SpamProtectionType) (fromAddress hostName : WString)
    (address : IPAddress) : Bool × Connection W :=
  if !c.getDoSpamProtection srv then (true, c)
  else
    let r := c.runTests srv type fromAddress hostName address
    let c := { c with
      world := r.2, spamTestResults := c.spamTestResults ++ r.1.1, authenticationResults := r.1.2 }
    let score := calculateTotalSpamScore c.spamTestResults
    if 0 < srv.spamDeleteThreshold c.world ∧ srv.spamDeleteThreshold c.world ≤ score then
      let text := getSpamTestResultMessage c.spamTestResults
      match type, c.message with
      | .postTransmission, some m =>
        let q := srv.quarantine (c.storedMessage m) text score c.world
        let c := { c with world := q.2 }
        if q.1 then (false, c.sendResponse 250 "2.0.0" (wide "Queued for delivery"))
        else (false, c.sendResponse 554 "5.7.1" text)
      | .preTransmission, _ => (false, c.sendResponse 550 "5.7.1" text)
      | _, _ => (false, c.sendResponse 554 "5.7.1" text)
    else (true, c)

/-- `InitializeSpamProtectionType_`. -/
def initializeSpamProtectionType (c : Connection W) (fromAddress : WString) : SpamProtectionType :=
  if !c.securityRange.spamProtection || srv.isWhiteListed fromAddress c.remoteAddress c.world then .none
  else if srv.isIncomingRelay c.remoteAddress c.world then .postTransmission
  else .preTransmission

/-! ## The sending ceiling -/

/-- `RefuseForAccountSendingQuota_`. -/
def refuseForAccountSendingQuota (c : Connection W) (result : RateLimiter.AccountQuotaResult) : Connection W :=
  match result with
  | .quotaAllowed => c
  | .quotaMessageLimitReached =>
    c.sendResponse 452 "4.7.0" (wide "Sending limit for this account has been reached. Please try again later.")
  | .quotaRecipientLimitReached =>
    c.sendResponse 452 "4.5.3"
      (wide "Recipient sending limit for this account has been reached. Please try again later.")

/-- `CheckAccountSendingQuotaAtMailFrom_`. -/
def checkAccountSendingQuotaAtMailFrom (c : Connection W) : Bool × Connection W :=
  let c := { c with
    tx := { c.tx with quotaAccount := [], quotaLimits := ({} : Transaction).quotaLimits }
    audit := { c.audit with messageChargedTo := none } }
  if !c.isAuthenticated || c.username = [] then (true, c)
  else
    let account := srv.applyDefaultDomain c.world c.username
    let limits := srv.getAccountLimits account c.world
    let c := { c with tx := { c.tx with quotaAccount := account, quotaLimits := limits } }
    if !limits.isEnabled then (true, c)
    else
      let r := srv.tryConsumeAccountMessage account limits c.world
      let c := { c with world := r.2 }
      if r.1 = .quotaAllowed then (true, { c with audit := { c.audit with messageChargedTo := some account } })
      else (false, c.refuseForAccountSendingQuota r.1)

/-- `CheckAccountSendingQuotaAtRcptTo_`, with the account it charged. -/
def checkAccountSendingQuotaAtRcptTo (c : Connection W) : Option WString × Bool × Connection W :=
  if c.tx.quotaAccount = [] || !c.tx.quotaLimits.isEnabled then (none, true, c)
  else
    let r := srv.tryConsumeAccountRecipients c.tx.quotaAccount c.tx.quotaLimits 1 c.world
    let c := { c with world := r.2 }
    if r.1 = .quotaAllowed then (some c.tx.quotaAccount, true, c)
    else (none, false, c.refuseForAccountSendingQuota r.1)

/-! ## MAIL FROM -/

/-- `ParseSizeParameter_`. -/
def parseSizeParameter (value : WString) : Option Nat :=
  if value.length = 0 ∨ 19 < value.length then none
  else if value.all fun ch => 48 ≤ ch && ch ≤ 57 then some (WString.digitsValue value)
  else none

def startsWithNoCase (s : WString) (keyword : String) : Bool :=
  WString.equalsNoCase (s.take (wide keyword).length) (wide keyword)

structure MailParameters where
  estimatedMessageSize : Nat := 0
  binarymime : Bool := false

/-- One turn of the parameter loop; the error is a reply. -/
def mailParameter (parameter : WString) (p : MailParameters) : Except (Nat × WString) MailParameters :=
  if startsWithNoCase parameter "SIZE=" then
    match parseSizeParameter (parameter.drop 5) with
    | some size => .ok { p with estimatedMessageSize := size }
    | none => .error (501, wide "Syntax error in SIZE parameter (must be a decimal octet count).")
  else if startsWithNoCase parameter "AUTH=" then .ok p
  else if WString.equalsNoCase parameter (wide "BODY=7BIT") || WString.equalsNoCase parameter (wide "BODY=8BITMIME") then
    .ok p
  else if WString.equalsNoCase parameter (wide "BODY=BINARYMIME") then .ok { p with binarymime := true }
  else if WString.equalsNoCase parameter (wide "SMTPUTF8") then .ok p
  else if startsWithNoCase parameter "RET=" then
    if WString.equalsNoCase (parameter.drop 4) (wide "FULL") || WString.equalsNoCase (parameter.drop 4) (wide "HDRS") then
      .ok p
    else .error (501, wide "Syntax error in RET parameter (must be FULL or HDRS).")
  else if startsWithNoCase parameter "ENVID=" then
    if parameter.drop 6 = [] ∨ 100 < (parameter.drop 6).length ∨ srv.isValidXtext (parameter.drop 6) = false then
      .error (501, wide "Syntax error in ENVID parameter.")
    else .ok p
  else .error (550, wide "Unsupported ESMTP extension: " ++ parameter)

/-- The loop: the declarations in front of a wrong one count. -/
def mailParameters : List WString → MailParameters → MailParameters × Option (Nat × WString)
  | [], p => (p, none)
  | parameter :: rest, p =>
    match mailParameter srv parameter p with
    | .ok p => mailParameters rest p
    | .error e => (p, some e)

/-- `GetMaxMessageSize_`. -/
def getMaxMessageSize (c : Connection W) (domain : Option Domain) : Nat :=
  let server := srv.maxMessageSize c.world
  match domain with
  | none => server
  | some dom =>
    let own := srv.domainMaxMessageSize dom c.world
    if 0 < own ∧ (server = 0 ∨ own < server) then own else server

/-- `ReAuthenticateUser`. -/
def reAuthenticate (c : Connection W) : Bool × Connection W :=
  if !c.isAuthenticated || c.authenticatedByXclient then (true, c)
  else if srv.validatePassword c.username c.password c.world then (true, c)
  else (false, c.resetLoginCredentials.sendErrorResponse srv 550
    (wide "Login credentials no longer valid. Please re-authenticate."))

def mailSyntaxError (c : Connection W) : Connection W :=
  c.sendErrorResponse srv 550 (wide "Invalid syntax. Syntax should be MAIL FROM:<mailbox@domain>[crlf]")

/-- The end of MAIL FROM: the size, the credentials, the ceiling, the message. -/
def mailAccept (c : Connection W) (fromAddress : WString) (size : Nat) : Connection W :=
  let address := (srv.directory c.world).applyAliasesOnAddress fromAddress
  let domain := (srv.directory c.world).domain (StringParser.extractDomain address)
  let c := { c with tx := { c.tx with
    senderDomain := domain
    senderAccount := (srv.directory c.world).account address
    maxMessageSizeKB := c.getMaxMessageSize srv domain } }
  if 0 < c.tx.maxMessageSizeKB ∧ c.tx.maxMessageSizeKB < size / 1024 then
    c.sendResponse 552 "5.3.4" (wide "Message size exceeds fixed maximum message size. Size: " ++
      wide (toString (size / 1024)) ++ wide " KB, Max size: " ++ wide (toString c.tx.maxMessageSizeKB) ++ wide " KB")
  else
    let r := if c.reAuthenticateUser then c.reAuthenticate srv else (true, c)
    if !r.1 then r.2
    else
      let q := { r.2 with reAuthenticateUser := true }.checkAccountSendingQuotaAtMailFrom srv
      if !q.1 then q.2
      else
        { q.2 with message := some ⟨fromAddress, [], q.2.tx.binarymimeRequested, false, false⟩ }.sendResponse 250
          "2.1.0" (wide "OK")

/-- The parameters of MAIL FROM: the declared size, unless one is wrong. -/
def mailDeclarations (c : Connection W) (fromAddress parameters : WString) : Option Nat × Connection W :=
  let p := mailParameters srv (WString.splitString parameters 32) {}
  let c := { c with tx := { c.tx with binarymimeRequested := p.1.binarymime } }
  match p.2 with
  | some (code, text) => (none, c.sendErrorResponse srv code text)
  | none =>
    (some p.1.estimatedMessageSize,
      { c with tx := { c.tx with type := c.initializeSpamProtectionType srv fromAddress } })

/-- The ceiling on an address's submissions. -/
def mailRate (c : Connection W) : Bool × Connection W :=
  if 0 < srv.maxSubmissionsPerIPPerMinute c.world then
    let r := srv.tryConsume c.remoteAddress (srv.maxSubmissionsPerIPPerMinute c.world) c.world
    let c := { c with world := r.2 }
    if r.1 then (true, c)
    else
      (false, c.sendErrorResponse srv 421
        (wide "Too many messages from your IP address. Please slow down and try again later."))
  else (true, c)

/-- Whether this client may name this sender. -/
def mailSender (c : Connection W) (fromAddress parameters : WString) : Bool × Connection W :=
  let utf8 := (WString.splitString parameters 32).any fun p => WString.equalsNoCase p (wide "SMTPUTF8")
  let c := { c with
    tx := { c.tx with smtputf8Requested := utf8, binarymimeRequested := false }
    audit := { c.audit with senderAdmittedFor := none } }
  if fromAddress = [] ∧ srv.allowMailFromNull c.world = false then
    (false, c.sendErrorResponse srv 550 (wide "Sender address must be specified."))
  else if fromAddress ≠ [] ∧ srv.isValidEmailAddress fromAddress utf8 = false then
    (false, c.sendErrorResponse srv 550 (wide "The address is not valid."))
  else if !c.isAuthenticated && !c.tls && !srv.isIncomingRelay c.remoteAddress c.world &&
      srv.requireInboundTls (WString.makeLower srv.loc (StringParser.extractDomain fromAddress)) c.world then
    (false, c.sendResponse 530 "5.7.0"
      (wide "Must issue STARTTLS first. This server requires an encrypted session for mail from this domain."))
  else if c.isAuthenticated && srv.authenticatedSenderCheck c.world &&
      !srv.senderPermittedFor c.username fromAddress c.world then
    (false, c.sendResponse 550 "5.7.1"
      (wide "Sender address rejected: not owned by the authenticated account and not granted to it."))
  else
    (true, { c with audit := { c.audit with senderAdmittedFor :=
      if c.isAuthenticated && srv.authenticatedSenderCheck c.world then some c.username else none } })

/-- MAIL FROM up to its address and parameters. -/
def mailAddress (c : Connection W) (request : WString) : Option (WString × WString) × Connection W :=
  if c.startTlsMissing srv then (none, c.refuseWithoutStartTls srv)
  else if c.message.isSome then (none, c.sendResponse 503 "5.5.1" (wide "Issue a reset if you want to start over"))
  else if !srv.dataDirectoryHasRoomForMail c.world then
    (none, c.sendResponse 452 "4.3.1" (wide "Insufficient system storage. Please try again later."))
  else
    let c := { c with tx := { c.tx with
      bdatActive := false, bdatLast := false, bdatDiscard := false, bdatChunkSize := 0, bdatChunkRemaining := 0 } }
    if request.length < 10 then (none, c.mailSyntaxError srv)
    else if (wide "MAIL FROM:").isPrefixOf request = false then (none, c.mailSyntaxError srv)
    else match srv.parseAddressWithExtensions (WString.trim srv.loc (request.drop 10)) with
      | none => (none, c.mailSyntaxError srv)
      | some (address, parameters) => (some (srv.applyDefaultDomain c.world address, parameters), c)

/-- MAIL FROM in front of its spam tests: the sender and the declared size. -/
def mailPrepare (c : Connection W) (request : WString) : Option (WString × Nat) × Connection W :=
  match c.mailAddress srv request with
  | (none, c) => (none, c)
  | (some (fromAddress, parameters), c) =>
    let r := c.mailSender srv fromAddress parameters
    if !r.1 then (none, r.2)
    else
      let r := r.2.mailRate srv
      if !r.1 then (none, r.2)
      else
        let d := r.2.mailDeclarations srv fromAddress parameters
        (d.1.map fun size => (fromAddress, size), d.2)

/-- The spam tests of MAIL FROM apply. -/
def testedAtMail (c : Connection W) : Bool :=
  c.tx.type = .preTransmission && srv.dnsblChecksAfterMailFrom c.world

/-- `ProtocolMAIL_`. -/
def protocolMAIL (c : Connection W) (request : WString) : Connection W :=
  match c.mailPrepare srv request with
  | (none, c) => c
  | (some (fromAddress, size), c) =>
    let r := if c.testedAtMail srv then
        c.doSpamProtection srv .preTransmission fromAddress c.heloHost c.remoteAddress
      else (true, c)
    if !r.1 then r.2 else r.2.mailAccept srv fromAddress size

/-! ## RCPT TO -/

/-- The parameter loop of RCPT TO: the NOTIFY value, or the reply. -/
def rcptParameters : List WString → Nat → Except (Nat × WString) Nat
  | [], notify => .ok notify
  | parameter :: rest, notify =>
    if startsWithNoCase parameter "NOTIFY=" then
      match srv.parseDsnNotify (parameter.drop 7) with
      | some notify => rcptParameters rest notify
      | none => .error (501, wide "Syntax error in NOTIFY parameter.")
    else if startsWithNoCase parameter "ORCPT=" then
      if srv.isValidOrcpt (parameter.drop 6) then rcptParameters rest notify
      else .error (501, wide "Syntax error in ORCPT parameter.")
    else .error (550, wide "Unsupported ESMTP extension: " ++ parameter)

def maxNumberOfRecipients : Nat := 50000

/-- `GetIsLocalSender_`. -/
def getIsLocalSender (c : Connection W) (fromAddress : WString) : Bool :=
  c.tx.senderDomain.any (fun dom => dom.isActive) || srv.treatSenderAsLocalDomain fromAddress c.world

def binaryRelayText : WString := wide
  "Conversion required but not supported. This server relays a binary message onward only for an authenticated submission, and only to a receiving server that advertises BINARYMIME and CHUNKING; from here it accepts BODY=BINARYMIME for local delivery only. Authenticate, or re-encode the content (for example as base64) and send it without BODY=BINARYMIME."

/-- The decision between the two calls of the recipient parser; `none` is a
    recipient that is acceptable. -/
def rcptRelay (c : Connection W) (m : Message) (localDelivery : Bool) : Bool × Connection W :=
  let localSender := c.getIsLocalSender srv m.fromAddress
  if !c.securityRange.allowOption localSender localDelivery then
    (false, c.sendErrorResponse srv 550 (wide "Delivery is not allowed to this address."))
  else
    let authenticationRequired := c.securityRange.requireSMTPAuth localSender localDelivery
    if authenticationRequired && !c.isAuthenticated then
      (false, c.sendErrorResponse srv 530 (wide "SMTP authentication is required."))
    else
      let c := if c.isAuthenticated || (localSender && !authenticationRequired) then { c with messageSubmission := true }
        else c
      if c.tx.binarymimeRequested && !localDelivery && !(c.isAuthenticated && srv.outboundChunking c.world) then
        (false, c.sendResponse 554 "5.6.3" binaryRelayText)
      else (true, c)

/-- The tests RCPT TO runs: blacklists, greylisting and the recipient callout. -/
def rcptTests (c : Connection W) (m : Message) (address : WString) : Bool × Connection W :=
  let r := if c.tx.type = .preTransmission ∧ srv.dnsblChecksAfterMailFrom c.world = false then
      c.doSpamProtection srv .preTransmission m.fromAddress c.heloHost c.remoteAddress
    else (true, c)
  if !r.1 then r
  else
    let c := r.2
    let g := if c.getDoSpamProtection srv then
        srv.performGreyListing m c.spamTestResults ((srv.directory c.world).applyAliasesOnAddress address)
          c.remoteAddress c.world
      else (true, c.world)
    let c := { c with world := g.2 }
    if !g.1 && m.fromAddress ≠ [] then (false, c.sendErrorResponse srv 451 (wide "Please try again later."))
    else
      let c := if g.1 then c else { c with rejectedByDelayedGreyListing := true }
      if c.isAuthenticated then (true, c)
      else
        let v := srv.calloutRejects address c.world
        let c := { c with world := v.2 }
        if v.1 then
          (false, c.sendResponse 550 "5.1.1"
            (wide "Recipient address rejected: the mail server for this domain does not accept it."))
        else (true, c)

/-- The refusal of `CheckDeliveryPossibility`, if it is one. -/
def rcptRefusal (c : Connection W) (address : WString) (answer : Answer) : Bool × Connection W :=
  if answer.possibility = .possible then (true, c)
  else if srv.databaseUnavailable address c.world then
    (false, c.sendResponse 451 "4.3.2" (wide "Unable to verify the recipient at the moment. Please retry later."))
  else if answer.possibility = .mailboxFull then (false, c.sendResponse 452 "4.2.2" answer.errMsg)
  else (false, c.sendErrorResponse srv 550 answer.errMsg)

/-- `SetDSNNotify` on the recipients that were added. -/
def setNotify (notify first : Nat) (recipients : List MessageRecipient) : List MessageRecipient :=
  if notify = 0 then recipients
  else recipients.take first ++ (recipients.drop first).map fun r => { r with dsnNotify := notify }

/-- The end of RCPT TO: the recipients are put on the message. -/
def rcptAccept (c : Connection W) (m : Message) (address : WString) (moderated : Finset WString) (notify : Nat)
    (charged : Option WString) : Connection W :=
  let e := createMessageRecipientList (srv.directory c.world) moderated address m.recipients
  let c := { c with
    message := some { m with recipients :=
      if e.recipientOK then setNotify notify m.recipients.length e.recipients else e.recipients }
    additions := if e.recipients.length = m.recipients.length then c.additions
      else c.additions ++ [Addition.mk c.isAuthenticated c.username m.fromAddress c.audit charged] }
  if e.recipientOK then c.sendResponse 250 "2.1.5" (wide "OK")
  else if srv.databaseUnavailable address c.world then
    c.sendResponse 451 "4.3.2" (wide "Unable to verify the recipient at the moment. Please retry later.")
  else c.sendErrorResponse srv 550 (wide unknownUser)

/-- RCPT TO in front of the recipient parser: the parsed address with its NOTIFY
    value, and the account the recipient was charged to. -/
def rcptPrepare (c : Connection W) (request : WString) :
    Option (Message × WString × Nat × Option WString) × Connection W :=
  if c.startTlsMissing srv then (none, c.refuseWithoutStartTls srv)
  else match c.message with
    | none => (none, c.sendResponse 503 "5.5.1" (wide "Must have sender first."))
    | some m =>
      let syntaxError :=
        c.sendErrorResponse srv 550 (wide "Invalid syntax. Syntax should be RCPT TO:<mailbox@domain>[crlf]")
      if (wide "RCPT TO:").isPrefixOf request = false then (none, syntaxError)
      else match srv.parseAddressWithExtensions (WString.trim srv.loc (request.drop 8)) with
        | none => (none, syntaxError)
        | some (address, parameters) =>
          match rcptParameters srv (WString.splitString parameters 32) 0 with
          | .error (code, text) => (none, c.sendErrorResponse srv code text)
          | .ok notify =>
            let address := srv.applyDefaultDomain c.world address
            if !srv.isValidEmailAddress address c.tx.smtputf8Requested then
              (none, c.sendErrorResponse srv 550 (wide "A valid address is required."))
            else if maxNumberOfRecipients ≤ m.recipients.length then
              (none, c.sendErrorResponse srv 550 (wide "Too many recipients."))
            else
              let q := c.checkAccountSendingQuotaAtRcptTo srv
              if !q.2.1 then (none, q.2.2) else (some (m, address, notify, q.1), q.2.2)

/-- `ProtocolRSET_`. -/
def protocolRSET (c : Connection W) : Connection W :=
  if c.startTlsMissing srv then c.refuseWithoutStartTls srv
  else c.resetCurrentMessage.sendResponse 250 "2.0.0" (wide "OK")

end Connection

/-- `ProtocolRCPT_`. -/
def SMTPConnection.protocolRCPT (s : SMTPConnection W) (request : WString) : SMTPConnection W :=
  match s.toConnection.rcptPrepare srv request with
  | (none, c) => s.withConnection c
  | (some (m, address, notify, charged), c) =>
    let answer := checkDeliveryPossibility (srv.directory c.world) c.isAuthenticated m.fromAddress address s.moderated
    let s := { s with moderated := answer.moderated }
    let r := c.rcptRefusal srv address answer
    if !r.1 then s.withConnection r.2
    else
      let r := r.2.rcptRelay srv m answer.treatSecurityAsLocal
      if !r.1 then s.withConnection r.2
      else
        let r := r.2.rcptTests srv m address
        if !r.1 then s.withConnection r.2
        else s.withConnection (r.2.rcptAccept srv m address s.moderated notify charged)

end HMailServer.Smtp
