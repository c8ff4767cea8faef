import HMailServer.Util.WideString

/- `SMTPClientConnection` (`SMTP/SMTPClientConnection.cpp`) from MAIL FROM on: the
   envelope one command at a time or pipelined (RFC 2920), the content by DATA or
   by one BDAT chunk (RFC 3030). The message's file can be read, what is sent
   arrives, and a reply is what `atoi` reads of it and its text. -/
namespace HMailServer.Smtp.Outbound

structure Reply where
  code : Int
  text : WString

inductive DeliveryResult where
  | undefined | ok | nonFatalError | fatalError
  deriving DecidableEq

structure MessageRecipient where
  address : WString
  deliveryResult : DeliveryResult := .undefined
  deliveryError : WString := []
  enhancedStatusCode : WString := []
  remoteSmtpReply : Option WString := none

/-- What goes over the wire and is answered, in the order it is sent. -/
inductive Sent where
  | mailFrom
  | rcptTo (index : Nat)
  | data
  | bdat
  /-- The content of the message with its final dot. -/
  | content
  /-- The dot that closes an unwanted DATA. -/
  | dot
  | quit
  deriving DecidableEq

inductive ConnectionState where
  | mailFromSent | rcptToSent | dataCommandSent | dataSent | bdatSent | envelopePipelined | dataAbandoned | quitSent
  deriving DecidableEq

structure Settings where
  ipAddress : WString
  /-- The MAIL FROM command with its parameters. -/
  mailFrom : WString
  messageSize : Nat
  pipeliningAvailable : Bool
  chunkingAvailable : Bool
  /-- `DeliveryFailure::EnhancedStatusFromSmtpReply`. -/
  enhancedStatusFromSmtpReply : Int → WString → Bool → WString

structure ClientConnection where
  state : ConnectionState
  recipients : List MessageRecipient
  actualRecipients : Finset Nat := ∅
  /-- `cur_recipient_`, which starts at minus one. -/
  curRecipient : Option Nat := none
  lastSentData : WString := []
  usingBdat : Bool := false
  pipelineCommands : List WString := []
  pipelineRepliesExpected : Nat := 0
  pipelineRepliesSeen : Nat := 0
  pipelineMailFailed : Bool := false
  /-- What has been sent and not been answered. -/
  unanswered : List Sent := []

def isPermanentNegative (code : Int) : Bool := 500 ≤ code && code ≤ 599

def isPositiveCompletion (code : Int) : Bool := (200 ≤ code && code ≤ 299) || (300 ≤ code && code ≤ 399)

def trimNewlines (s : WString) : WString :=
  (s.dropWhile fun ch => ch == 13 || ch == 10).rdropWhile fun ch => ch == 13 || ch == 10

variable (env : Settings)

/-- `UpdateRecipientWithError_` on a reply of the remote server. -/
def updateRecipientWithError (reply : Reply) (lastSentData : WString) (isRecipientReply : Bool)
    (r : MessageRecipient) : MessageRecipient :=
  if r.deliveryResult = .fatalError then r
  else if r.deliveryResult = .nonFatalError ∧ isPermanentNegative reply.code = false then r
  else
    { r with
      deliveryResult := if isPermanentNegative reply.code then .fatalError else .nonFatalError
      deliveryError := wide "   Error Type: SMTP\r\n   Remote server (" ++ env.ipAddress ++
        wide ") issued an error.\r\n   hMailServer sent: " ++ trimNewlines lastSentData ++
        wide "\r\n   Remote server replied: " ++ reply.text ++ wide "\r\n"
      enhancedStatusCode := env.enhancedStatusFromSmtpReply reply.code reply.text isRecipientReply
      remoteSmtpReply := some reply.text }

namespace ClientConnection

/-- `EnqueueWrite_`. -/
def enqueueWrite (c : ClientConnection) (sent : Sent) (data : WString) : ClientConnection :=
  { c with lastSentData := data, unanswered := c.unanswered ++ [sent] }

/-- `SendQUIT_`. -/
def sendQUIT (c : ClientConnection) : ClientConnection :=
  { c.enqueueWrite .quit (wide "QUIT") with state := .quitSent }

/-- `UpdateAllRecipientsWithError_`. -/
def updateAllRecipientsWithError (c : ClientConnection) (reply : Reply) : ClientConnection :=
  { c with recipients := c.recipients.map (updateRecipientWithError env reply c.lastSentData false) }

/-- The error of one RCPT TO. -/
def refuseRecipient (c : ClientConnection) (index : Nat) (reply : Reply) : ClientConnection :=
  { c with recipients := c.recipients.modify index (updateRecipientWithError env reply c.lastSentData true) }

/-- `UpdateSuccessfulRecipients_`. -/
def updateSuccessfulRecipients (c : ClientConnection) : ClientConnection :=
  { c with recipients := c.recipients.mapIdx fun i r =>
      if i ∈ c.actualRecipients then { r with deliveryResult := .ok } else r }

def rcptTo (address : WString) : WString := wide "RCPT TO:<" ++ address ++ wide ">"

/-- `SendDataCommand_`; a BDAT chunk goes out behind its command. -/
def sendDataCommand (c : ClientConnection) (pipelined : Bool) : ClientConnection :=
  if env.chunkingAvailable then
    { (if pipelined then c else { c with state := .bdatSent }) with usingBdat := true }.enqueueWrite .bdat
      (wide "BDAT " ++ wide (toString env.messageSize) ++ wide " LAST")
  else
    let c := c.enqueueWrite .data (wide "DATA")
    if pipelined then c else { c with state := .dataCommandSent }

/-- `GetNextRecipient_`. -/
def getNextRecipient (c : ClientConnection) : Option (Nat × MessageRecipient) × ClientConnection :=
  let next := c.curRecipient.elim 0 (· + 1)
  ((c.recipients[next]?).map fun r => (next, r), { c with curRecipient := some next })

/-- `ProtocolMailFromSent_`. -/
def protocolMailFromSent (c : ClientConnection) : ClientConnection :=
  match c.getNextRecipient with
  | (none, c) => c.sendQUIT
  | (some (i, r), c) => { c.enqueueWrite (.rcptTo i) (rcptTo r.address) with state := .rcptToSent }

/-- `ProtocolRcptToSent_`: the reply is taken down, then the next command goes out. -/
def protocolRcptToSent (c : ClientConnection) (reply : Reply) : ClientConnection :=
  let c := match c.curRecipient with
    | none => c
    | some i =>
      if i < c.recipients.length then
        if isPositiveCompletion reply.code then { c with actualRecipients := insert i c.actualRecipients }
        else c.refuseRecipient env i reply
      else c
  match c.getNextRecipient with
  | (some (i, r), c) => { c.enqueueWrite (.rcptTo i) (rcptTo r.address) with state := .rcptToSent }
  | (none, c) => if c.actualRecipients = ∅ then c.sendQUIT else c.sendDataCommand env false

/-- `ProtocolData_`: the content is sent up to its dot. -/
def protocolData (c : ClientConnection) : ClientConnection :=
  { c.enqueueWrite .content (wide "\r\n.") with state := .dataSent }

/-- The data command's reply on the pipelined path. -/
def pipelinedDataReply (c : ClientConnection) (reply : Reply) : ClientConnection :=
  let nothingToSend := c.pipelineMailFailed || decide (c.actualRecipients = ∅)
  if c.usingBdat then
    if nothingToSend then c.sendQUIT
    else if isPositiveCompletion reply.code then c.updateSuccessfulRecipients.sendQUIT
    else (c.updateAllRecipientsWithError env reply).sendQUIT
  else if nothingToSend then
    if reply.code = 354 then { c.enqueueWrite .dot (wide ".") with state := .dataAbandoned } else c.sendQUIT
  else if reply.code ≠ 354 then (c.updateAllRecipientsWithError env reply).sendQUIT
  else { c with state := .dataCommandSent }.protocolData

/-- `ProtocolEnvelopePipelined_`. -/
def protocolEnvelopePipelined (c : ClientConnection) (reply : Reply) : ClientConnection :=
  let index := c.pipelineRepliesSeen
  let c := { c with
    pipelineRepliesSeen := index + 1, lastSentData := c.pipelineCommands[index]?.getD c.lastSentData }
  if index = 0 then
    if isPositiveCompletion reply.code then c
    else { c with pipelineMailFailed := true }.updateAllRecipientsWithError env reply
  else if index + 1 < c.pipelineRepliesExpected then
    if c.pipelineMailFailed = false ∧ index - 1 < c.recipients.length then
      if isPositiveCompletion reply.code then { c with actualRecipients := insert (index - 1) c.actualRecipients }
      else c.refuseRecipient env (index - 1) reply
    else c
  else c.pipelinedDataReply env reply

/-- A failure in this state fails every recipient and ends the session. -/
def failsAllRecipients (state : ConnectionState) : Bool :=
  match state with
  | .mailFromSent | .dataCommandSent | .dataSent | .bdatSent => true
  | _ => false

/-- `InternalParseData`. -/
def internalParseData (c : ClientConnection) (reply : Reply) : ClientConnection :=
  if failsAllRecipients c.state && !isPositiveCompletion reply.code then
    (c.updateAllRecipientsWithError env reply).sendQUIT
  else match c.state with
    | .mailFromSent => c.protocolMailFromSent
    | .dataCommandSent => c.protocolData
    | .dataSent | .bdatSent => c.sendQUIT.updateSuccessfulRecipients
    | .rcptToSent => c.protocolRcptToSent env reply
    | .envelopePipelined => c.protocolEnvelopePipelined env reply
    | .dataAbandoned => c.sendQUIT
    | .quitSent => c

/-- The loop of `SendPipelinedEnvelope_`. -/
def pipelineRecipients : List (MessageRecipient × Nat) → ClientConnection → ClientConnection
  | [], c => c
  | (r, i) :: rest, c =>
    let c := c.enqueueWrite (.rcptTo i) (rcptTo r.address)
    pipelineRecipients rest { c with pipelineCommands := c.pipelineCommands ++ [c.lastSentData] }

/-- `SendPipelinedEnvelope_`. -/
def sendPipelinedEnvelope (c : ClientConnection) : ClientConnection :=
  let c := pipelineRecipients c.recipients.zipIdx { c with pipelineCommands := [c.lastSentData] }
  let c := { c with
    pipelineRepliesExpected := 1 + c.recipients.length + 1, pipelineRepliesSeen := 0, pipelineMailFailed := false
    state := .envelopePipelined }
  let c := c.sendDataCommand env true
  { c with pipelineCommands := c.pipelineCommands ++ [c.lastSentData] }

/-- The end of `ProtocolSendMailFrom_`. -/
def protocolSendMailFrom (c : ClientConnection) : ClientConnection :=
  let c := { c.enqueueWrite .mailFrom env.mailFrom with state := .mailFromSent }
  if env.pipeliningAvailable then c.sendPipelinedEnvelope env else c

/-- The replies come in the order of what was sent; the session is over when
    nothing is unanswered. -/
def converse (remote : Sent → Reply) : Nat → ClientConnection → ClientConnection
  | 0, c => c
  | turns + 1, c =>
    match c.unanswered with
    | [] => c
    | sent :: rest => converse remote turns ({ c with unanswered := rest }.internalParseData env (remote sent))

/-- The delivery of one message: MAIL FROM, the recipients, the data command,
    the content and QUIT are answered in so many turns at most. -/
def deliver (recipients : List MessageRecipient) (remote : Sent → Reply) : ClientConnection :=
  converse env remote (recipients.length + 4)
    (({ state := .mailFromSent, recipients } : ClientConnection).protocolSendMailFrom env)

end ClientConnection
end HMailServer.Smtp.Outbound
