import HMailServer.Smtp.RecipientParser
import HMailServer.Util.RateLimiter
import HMailServer.Util.AnsiString
import HMailServer.Util.TransparentTransmissionBuffer

/- The state of one `SMTPConnection` (`SMTP/SMTPConnection.h`) and what it meets
   outside itself. `Server` holds the settings, the stores and the clock as
   functions of a world that the session's calls and everybody else move along.
   Logging, reply delays, and the fields that are written and never read
   (`dsn_ret_`, `dsn_envid_`, the sender's `AUTH=`) are left out. -/
namespace HMailServer.Smtp
open RecipientParser

abbrev IPAddress := WString

inductive ConnectionSecurity where
  | none | ssl | startTlsOptional | startTlsRequired
  deriving DecidableEq

inductive ConnectionState where
  | initial | smtpUsername | smtpUpassword | header | data | startTls | smtpScramFirst | smtpScramFinal | smtpScramAck
  | smtpBearerResponse | bdatData | smtpExternalResponse | smtpGssapiResponse
  deriving DecidableEq

inductive AuthenticationType where
  | none | plain | login | scramSha256 | bearer | external | gssapi
  deriving DecidableEq

inductive SpamProtectionType where
  | none | preTransmission | postTransmission
  deriving DecidableEq

/-- What the connection waits for. -/
inductive Reading where
  | line
  /-- `EnqueueRead("")` in binary mode: whatever has arrived. -/
  | any
  /-- `EnqueueReadExact`. -/
  | exact (octets : Nat)
  | handshake
  /-- The accept task is queued, and nothing is read. -/
  | finalization
  | nothing
  | closed
  deriving DecidableEq

/-- `GetAllowOption` and `GetRequireSMTPAuth..` take whether the sender and the
    delivery are local. -/
structure SecurityRange where
  allowSMTP : Bool
  spamProtection : Bool
  virusProtection : Bool
  requireTLSForAuth : Bool
  allowOption : Bool → Bool → Bool
  requireSMTPAuth : Bool → Bool → Bool

structure SpamTestResult where
  fail : Bool
  message : WString
  score : Int

/-- The verdicts that a test hands to `AuthenticationResults`. -/
abbrev AuthenticationResults := List WString

structure Message where
  fromAddress : WString
  recipients : List MessageRecipient
  binaryMime : Bool
  flagSpam : Bool := false
  flagVirusScan : Bool := false

structure ScramSession where
  username : WString
  hasAccount : Bool
  exchange : WString

structure Reply where
  code : Nat
  enhancedCode : String
  text : WString
  deriving DecidableEq

/-- A message as `PersistentMessage::SaveObject` gets it, with its file. -/
structure StoredMessage where
  message : Message
  content : List DotStuffing.Byte

/-- What outside calls are told about the session. -/
structure Client where
  username : WString
  remoteAddress : IPAddress
  heloHost : WString
  isAuthenticated : Bool
  tls : Bool

inductive ScriptEvent where
  | onHELO | onClientLogon | onSMTPData | onTooManyInvalidCommands | onRecipientUnknown
  deriving DecidableEq

inductive ScriptResult where
  | accept | reject | rejectWith (message : WString) | deferWith (message : WString)

/-- What comes of a certificate or a GSSAPI exchange. -/
structure LogonOutcome where
  accepted : Bool
  loginName : WString
  disconnect : Bool

inductive GssapiStep where
  | needMore (reply : WString)
  | finished (outcome : LogonOutcome)

structure Server (W : Type) where
  loc : Locale
  toWide : AnsiString → WString
  security : ConnectionSecurity
  directory : W → Directory
  applyDefaultDomain : W → WString → WString
  bannerText : W → WString
  ehloKeywords : Client → W → WString
  /-- What ETRN does for a domain, and its answer. -/
  releaseQueue : WString → W → Reply × W
  authIsEnabled : W → Bool
  disconnectInvalidClients : W → Bool
  maximumIncorrectCommands : W → Nat
  /-- `accept` where no script server is in use. -/
  script : ScriptEvent → Client → Option Message → W → ScriptResult × W
  proxyProtocolEnabled : W → Bool
  -- XCLIENT
  xclientPermitted : W → Bool
  tryParseAddress : WString → Option IPAddress
  matchingRange : IPAddress → W → Option SecurityRange
  -- AUTH
  authAllowPlainText : W → Bool
  base64Decode : WString → WString
  base64Encode : WString → WString
  decodeSaslPlain : WString → Bool × WString × WString
  saslPrep : WString → Option WString
  logon : IPAddress → WString → WString → W → (Bool × Bool) × W
  validatePassword : WString → WString → W → Bool
  oauth2 : W → Bool × Bool
  bearerLogon : IPAddress → WString → W → (Bool × WString) × W
  registerBearerFailure : IPAddress → WString → W → Bool × W
  certificateIdentities : W → Bool
  externalLogon : IPAddress → WString → W → LogonOutcome × W
  gssapiIsEnabled : W → Bool
  gssapiStep : IPAddress → WString → W → GssapiStep × W
  tlsServerEndPoint : W → Bool
  scramUsername : WString → W → Option WString
  scramAccount : WString → W → Bool
  scramClientFirst : WString → W → Option (WString × WString) × W
  scramClientFinal : WString → WString → W → Option WString
  registerScramFailure : IPAddress → WString → Bool → W → Bool × W
  recordSuccess : WString → W → W
  -- MAIL and RCPT
  dataDirectoryHasRoomForMail : W → Bool
  parseAddressWithExtensions : WString → Option (WString × WString)
  isValidEmailAddress : WString → Bool → Bool
  allowMailFromNull : W → Bool
  isIncomingRelay : IPAddress → W → Bool
  requireInboundTls : WString → W → Bool
  authenticatedSenderCheck : W → Bool
  senderPermittedFor : WString → WString → W → Bool
  maxSubmissionsPerIPPerMinute : W → Int
  tryConsume : IPAddress → Int → W → Bool × W
  isValidXtext : WString → Bool
  isWhiteListed : WString → IPAddress → W → Bool
  dnsblChecksAfterMailFrom : W → Bool
  authenticationResultsEnabled : W → Bool
  runPreTransmissionTests : WString → IPAddress → IPAddress → WString → Option AuthenticationResults → W →
    (List SpamTestResult × Option AuthenticationResults) × W
  runPostTransmissionTests : WString → IPAddress → IPAddress → StoredMessage → Option AuthenticationResults → W →
    (List SpamTestResult × Option AuthenticationResults) × W
  spamDeleteThreshold : W → Int
  spamMarkThreshold : W → Int
  quarantine : StoredMessage → WString → Int → W → Bool × W
  maxMessageSize : W → Nat
  domainMaxMessageSize : Domain → W → Nat
  getAccountLimits : WString → W → RateLimiter.AccountSendingLimits
  tryConsumeAccountMessage : WString → RateLimiter.AccountSendingLimits → W → RateLimiter.AccountQuotaResult × W
  tryConsumeAccountRecipients : WString → RateLimiter.AccountSendingLimits → Nat → W →
    RateLimiter.AccountQuotaResult × W
  parseDsnNotify : WString → Option Nat
  isValidOrcpt : WString → Bool
  databaseUnavailable : WString → W → Bool
  treatSenderAsLocalDomain : WString → W → Bool
  outboundChunking : W → Bool
  performGreyListing : Message → List SpamTestResult → WString → IPAddress → W → Bool × W
  calloutRejects : WString → W → Bool × W
  -- the content
  fileOpens : Message → W → Bool
  transmission : W → TransmissionEnvironment
  smtpdMaxSizeDrop : W → Nat
  /-- `SMTPMessageHeaderCreator`, with the header of the message if it is complete. -/
  createHeaders : Client → Bool → WString → Message → Option (List DotStuffing.Byte) → W →
    List DotStuffing.Byte × W
  asyncQueue : W → Bool
  deadlineExceeded : W → Bool
  originatingAddress : StoredMessage → W → WString × IPAddress
  /-- `DoPreAcceptMessageModifications_` on the file: spam headers, signature,
      disclaimer, list headers and authentication results. -/
  modifyMessage : Client → StoredMessage → List SpamTestResult → Option AuthenticationResults → Option Domain →
    Option Account → W → List DotStuffing.Byte × W
  archive : StoredMessage → Bool → W → W
  fileExists : Message → W → Bool
  /-- The event of the script server, which may change the message. -/
  onAcceptMessage : Client → StoredMessage → W → (ScriptResult × StoredMessage) × W
  saveObject : StoredMessage → W → Bool × W
  messageAccepted : StoredMessage → W → W
  queuedText : W → WString

/-- What a transaction keeps beside its message; the start of MAIL FROM and the
    commands of the transaction write these before anything reads them. -/
structure Transaction where
  maxMessageSizeKB : Nat := 0
  senderDomain : Option Domain := none
  senderAccount : Option Account := none
  type : SpamProtectionType := .none
  smtputf8Requested : Bool := false
  binarymimeRequested : Bool := false
  bdatActive : Bool := false
  bdatLast : Bool := false
  bdatDiscard : Bool := false
  bdatChunkSize : Nat := 0
  bdatChunkRemaining : Nat := 0
  quotaAccount : WString := []
  quotaLimits : RateLimiter.AccountSendingLimits := ⟨fun _ => 0, 24, fun _ => Int.natCast_nonneg _⟩

/-- Whom the checks at MAIL FROM admitted and charged; no part of the code. -/
structure Audit where
  senderAdmittedFor : Option WString := none
  messageChargedTo : Option WString := none

/-- A RCPT TO that put somebody on the message; no part of the code. -/
structure Addition where
  isAuthenticated : Bool
  username : WString
  fromAddress : WString
  audit : Audit
  recipientChargedTo : Option WString

structure Connection (W : Type) where
  world : W
  state : ConnectionState := .initial
  reading : Reading := .line
  message : Option Message := none
  messageSubmission : Bool := false
  username : WString := []
  password : WString := []
  requestedAuthenticationType : AuthenticationType := .none
  scramSession : Option ScramSession := none
  gssapiSession : Bool := false
  heloHost : WString := []
  transmissionBuffer : Option TransparentTransmissionBuffer := none
  rejectedByDelayedGreyListing : Bool := false
  curNoOfInvalidCommands : Nat := 0
  spamTestResults : List SpamTestResult := []
  authenticationResults : Option AuthenticationResults := none
  reAuthenticateUser : Bool := false
  pendingDisconnect : Bool := false
  isAuthenticated : Bool := false
  authenticationFailureCount : Nat := 0
  esmtpSession : Bool := false
  authenticatedByXclient : Bool := false
  startTlsUsed : Bool := false
  tls : Bool := false
  remoteAddress : IPAddress
  securityRange : SecurityRange
  /-- The name the reverse lookup found for the client's address, once it has. -/
  ptrName : Option WString := none
  /-- `pipelined_input_after_data_`, and what of it goes back to the receive buffer. -/
  pipelinedInput : List DotStuffing.Byte := []
  injected : List DotStuffing.Byte := []
  tx : Transaction := {}
  audit : Audit := {}
  -- What the event at hand has brought about so far.
  replies : List Reply := []
  stored : List StoredMessage := []
  additions : List Addition := []

/-- The connection with `trace_headers_written_` and the marks of
    `recipientParser_`. -/
structure SMTPConnection (W : Type) extends Connection W where
  traceHeadersWritten : Bool := true
  moderated : Finset WString := ∅

variable {W : Type} (srv : Server W)

def SMTPConnection.withConnection (s : SMTPConnection W) (c : Connection W) : SMTPConnection W :=
  { s with toConnection := c }

namespace Connection

def client (c : Connection W) : Client := ⟨c.username, c.remoteAddress, c.heloHost, c.isAuthenticated, c.tls⟩

/-- `SendResponse_`; a line written without it has no enhanced code. -/
def sendResponse (c : Connection W) (code : Nat) (enhancedCode : String) (text : WString) : Connection W :=
  { c with replies := c.replies ++ [⟨code, if c.esmtpSession then enhancedCode else "", text⟩] }

def enqueueWrite (c : Connection W) (code : Nat) (text : WString) : Connection W :=
  { c with replies := c.replies ++ [⟨code, "", text⟩] }

/-- `EnqueueRead` and `EnqueueReadExact`; nothing is read behind a disconnect. -/
def enqueueRead (c : Connection W) (reading : Reading) : Connection W :=
  if c.pendingDisconnect then c else { c with reading := reading }

/-- `pending_disconnect_ = true; EnqueueDisconnect()`. -/
def disconnect (c : Connection W) : Connection W := { c with pendingDisconnect := true, reading := .closed }

/-- A script event whose result nothing reads. -/
def notify (c : Connection W) (event : ScriptEvent) (message : Option Message) : Connection W :=
  { c with world := (srv.script event c.client message c.world).2 }

/-- `DeriveEnhancedStatusCode_` for the codes below. -/
def deriveEnhancedStatusCode (code : Nat) : String :=
  match code with
  | 421 => "4.3.2" | 450 => "4.2.0" | 451 => "4.3.0" | 452 => "4.3.1" | 500 => "5.5.2" | 501 => "5.5.4"
  | 503 => "5.5.1" | 504 => "5.5.4" | 530 => "5.7.0" | 535 => "5.7.8" | 550 => "5.7.1" | _ => ""

/-- `SendErrorResponse_`. -/
def sendErrorResponse (c : Connection W) (code : Nat) (text : WString) : Connection W :=
  if 500 ≤ code ∧ code ≤ 599 then
    let c := { c with curNoOfInvalidCommands := c.curNoOfInvalidCommands + 1 }
    if srv.disconnectInvalidClients c.world && srv.maximumIncorrectCommands c.world < c.curNoOfInvalidCommands then
      ((c.sendResponse 421 "4.7.0" (wide "Too many invalid commands. Bye!")).disconnect).notify srv
        .onTooManyInvalidCommands c.message
    else
      let c := if text = wide unknownUser then c.notify srv .onRecipientUnknown c.message else c
      c.sendResponse code (deriveEnhancedStatusCode code) text
  else c.sendResponse code (deriveEnhancedStatusCode code) text

/-- The reply to a script's result: whether it refused, and the connection after. -/
def answerScript (c : Connection W) (result : ScriptResult) : Bool × Connection W :=
  match result with
  | .accept => (false, c)
  | .reject => (true, c.sendResponse 554 "5.7.1" (wide "Rejected"))
  | .rejectWith text => (true, c.sendResponse 554 "5.7.1" text)
  | .deferWith text => (true, c.sendResponse 453 "4.7.0" text)

def runScript (c : Connection W) (event : ScriptEvent) (message : Option Message) : Bool × Connection W :=
  let r := srv.script event c.client message c.world
  { c with world := r.2 }.answerScript r.1

/-- `CheckStartTlsRequired_` refuses. -/
def startTlsMissing (c : Connection W) : Bool := srv.security == .startTlsRequired && !c.tls

def refuseWithoutStartTls (c : Connection W) : Connection W :=
  c.sendErrorResponse srv 530 (wide "Must issue STARTTLS first.")

/-- `ResetCurrentMessage_`; the message's file goes with it. -/
def resetCurrentMessage (c : Connection W) : Connection W :=
  { c with
    transmissionBuffer := none
    message := none
    rejectedByDelayedGreyListing := false
    messageSubmission := false
    spamTestResults := []
    authenticationResults := none
    tx := { c.tx with
      senderDomain := none, senderAccount := none, smtputf8Requested := false, binarymimeRequested := false
      bdatActive := false, bdatLast := false, bdatDiscard := false, bdatChunkSize := 0, bdatChunkRemaining := 0 }
    state := if c.state = .initial then .initial else .header }

/-- `ResetLoginCredentials_`. -/
def resetLoginCredentials (c : Connection W) : Connection W :=
  { c with
    requestedAuthenticationType := .none
    isAuthenticated := false
    authenticatedByXclient := false
    scramSession := none
    state := .header
    username := []
    reAuthenticateUser := false }

end Connection

end HMailServer.Smtp
