import HMailServer.Smtp.Connection.Authentication
import HMailServer.Smtp.Connection.Content

/- The command parser (`SMTP/SMTPConnection.cpp`) over the reads of its
   connection (`Common/TCPIP/TCPConnection.cpp`), and the runs of a session:
   octets arrive, reads complete, and tasks finish in any order. -/
namespace HMailServer.Smtp
open RecipientParser DotStuffing

variable {W : Type} (srv : Server W)

inductive CommandType where
  | helo | help | quit | ehlo | auth | mail | rcpt | turn | vrfy | data | bdat | rset | noop | etrn | starttls | xclient
  | unknown
  deriving DecidableEq

/-- `GetCommandType_`. -/
def getCommandType (firstWord : WString) : CommandType :=
  if firstWord = wide "HELO" then .helo
  else if firstWord = wide "HELP" then .help
  else if firstWord = wide "QUIT" then .quit
  else if firstWord = wide "EHLO" then .ehlo
  else if firstWord = wide "AUTH" then .auth
  else if firstWord = wide "MAIL" then .mail
  else if firstWord = wide "RCPT" then .rcpt
  else if firstWord = wide "TURN" then .turn
  else if firstWord = wide "VRFY" then .vrfy
  else if firstWord = wide "DATA" then .data
  else if firstWord = wide "BDAT" then .bdat
  else if firstWord = wide "RSET" then .rset
  else if firstWord = wide "NOOP" then .noop
  else if firstWord = wide "ETRN" then .etrn
  else if firstWord = wide "STARTTLS" then .starttls
  else if firstWord = wide "XCLIENT" then .xclient
  else .unknown

namespace Connection

/-! ## The other commands -/

/-- `ProtocolHELP_`. -/
def protocolHELP (c : Connection W) : Connection W :=
  if c.startTlsMissing srv then c.refuseWithoutStartTls srv
  else
    let auth := srv.authIsEnabled c.world && (c.tls || srv.security != .startTlsRequired)
    let startTls := !c.tls && (srv.security == .startTlsOptional || srv.security == .startTlsRequired)
    c.sendResponse 211 "2.0.0" (wide "DATA EHLO HELO HELP MAIL NOOP QUIT RCPT RSET BDAT" ++
      (if auth then wide " AUTH" else []) ++ (if startTls then wide " STARTTLS" else []))

/-- `ProtocolNOOP_`. -/
def protocolNOOP (c : Connection W) : Connection W := c.sendResponse 250 "2.0.0" (wide "OK")

/-- `ProtocolQUIT_`. -/
def protocolQUIT (c : Connection W) : Connection W :=
  (c.resetCurrentMessage.enqueueWrite 221 (wide "goodbye")).disconnect

/-- TURN and VRFY. -/
def disallowed (c : Connection W) (verb : String) : Connection W :=
  if c.startTlsMissing srv then c.refuseWithoutStartTls srv
  else c.sendResponse 502 "5.5.1" (wide (verb ++ " disallowed."))

/-- `RelayToRemotePermittedWithoutAuth_`. -/
def relayToRemotePermittedWithoutAuth (range : SecurityRange) : Bool :=
  (range.allowOption false false && !range.requireSMTPAuth false false) ||
    (range.allowOption true false && !range.requireSMTPAuth true false)

/-- `ProtocolETRN_`. -/
def protocolETRN (c : Connection W) (request : WString) : Connection W :=
  if c.startTlsMissing srv then c.refuseWithoutStartTls srv
  else if !c.isAuthenticated && !relayToRemotePermittedWithoutAuth c.securityRange then
    c.sendErrorResponse srv 530 (wide "SMTP authentication is required.")
  else
    let params := WString.splitString request 32
    if params.length = 1 then c.sendErrorResponse srv 500 (wide "Syntax Error: No domain parameter included")
    else
      let r := srv.releaseQueue (params[1]?.getD []) c.world
      { c with world := r.2 }.sendResponse r.1.code r.1.enhancedCode r.1.text

def badSequence (c : Connection W) : Connection W := c.sendErrorResponse srv 503 (wide "Bad sequence of commands")

/-- A line in a state that waits for a SASL response. -/
def saslResponse (c : Connection W) (request : WString) : Connection W :=
  match c.state with
  | .smtpUsername =>
    if c.requestedAuthenticationType = .login then c.protocolUsername srv request
    else c.authenticateUsingPLAIN srv request
  | .smtpUpassword => c.protocolPassword srv request
  | .smtpScramFirst => c.protocolScramClientFirst srv request
  | .smtpScramFinal => c.protocolScramClientFinal srv request
  | .smtpScramAck => c.finishScramAuth srv
  | .smtpBearerResponse => c.authenticateUsingBearer srv request
  | .smtpExternalResponse => c.authenticateUsingExternal srv request
  | .smtpGssapiResponse => c.protocolGssapiToken srv request
  | _ => c

/-- A state that waits for a SASL response. -/
def awaitsSasl (state : ConnectionState) : Bool :=
  match state with
  | .initial | .header | .data | .startTls | .bdatData => false
  | _ => true

def maxLineLength (state : ConnectionState) (line : AnsiString) : Nat :=
  if awaitsSasl state || AnsiString.makeUpper (line.take 5) == ansi "AUTH " then 12288 else 510

/-- The commands a greeted session takes beside those that open, fill and close
    a transaction. -/
def headerCommand (c : Connection W) (command : CommandType) (request : WString) : Connection W :=
  match command with
  | .starttls => c.protocolSTARTTLS srv request
  | .auth => c.protocolAUTH srv request
  | .mail => c.protocolMAIL srv request
  | .turn => c.disallowed srv "TURN"
  | .etrn => c.protocolETRN srv request
  | .vrfy => c.disallowed srv "VRFY"
  | .xclient => c.protocolXCLIENT srv request
  | _ => c.badSequence srv

/-- The commands that every state takes. -/
def commonCommand (c : Connection W) (command : CommandType) (request : WString) : Option (Connection W) :=
  match command with
  | .help => some (c.protocolHELP srv)
  | .ehlo => some (c.protocolEHLO srv request)
  | .helo => some (c.protocolHELO srv request)
  | .quit => some c.protocolQUIT
  | .noop => some c.protocolNOOP
  | .rset => some (c.protocolRSET srv)
  | _ => none

end Connection

namespace SMTPConnection

/-- The command switches of `InternalParseData`. -/
def dispatch (s : SMTPConnection W) (command : CommandType) (request : WString) : SMTPConnection W :=
  match s.commonCommand srv command request with
  | some c => s.withConnection c
  | none =>
    match s.state with
    | .initial =>
      if command = .xclient then s.withConnection (s.protocolXCLIENT srv request)
      else s.withConnection ({ s.toConnection with requestedAuthenticationType := .none }.badSequence srv)
    | .header =>
      match command with
      | .rcpt => s.protocolRCPT srv request
      | .data => s.protocolDATA srv
      | .bdat => s.protocolBDAT srv request
      | _ => s.withConnection (s.headerCommand srv command request)
    | _ => s.withConnection (s.saslResponse srv request)

/-- `InternalParseData`. -/
def internalParseData (s : SMTPConnection W) (line : AnsiString) : SMTPConnection W :=
  if Connection.maxLineLength s.state line < line.length then
    s.withConnection (s.sendResponse 500 "5.5.2" (wide "Line too long."))
  else
    let firstWord := WString.makeUpper srv.loc (srv.toWide ((Cut.cut 32 line).elim line Prod.fst))
    if firstWord = wide "PROXY" ∧ srv.proxyProtocolEnabled s.world = true then s.withConnection s.disconnect
    else s.dispatch srv (getCommandType firstWord) (srv.toWide line)

/-- `ParseData` of a line: the command, and the read behind it. -/
def parseLine (s : SMTPConnection W) (line : AnsiString) : SMTPConnection W :=
  let s := s.internalParseData srv line
  if s.reading = .closed then s
  else match s.state with
    | .data => s.withConnection (s.enqueueRead .any)
    | .bdatData | .startTls => s
    | _ => s.withConnection (s.enqueueRead .line)

end SMTPConnection

/-! ## Runs -/

/-- A connection with what the client has sent and nobody has read. -/
structure Session (W : Type) extends SMTPConnection W where
  receiveBuffer : List Byte := []

inductive Event (W : Type) where
  | received (octets : List Byte)
  /-- The pending read completes; one that asks for any octets finds so many. -/
  | readCompleted (available : Nat)
  | handshakeCompleted
  | finalizationCompleted
  | ptrLookupCompleted (host : WString)
  /-- The client closes its side. -/
  | endOfStream
  /-- The session is over for another reason: a timeout, a read error. -/
  | closed
  /-- Something else in the server moves. -/
  | elsewhere (world : W)

/-- `getline` up to the first carriage return, and the octet behind it, once a
    CRLF has arrived. -/
def takeLine (buffer : List Byte) : Option (AnsiString × List Byte) :=
  if [CR, LF] <:+: buffer then (Cut.cut CR buffer).map fun p => (p.1, p.2.drop 1) else none

/-- What a pending read hands to the session, and what it leaves. -/
def takeOctets (reading : Reading) (available : Nat) (buffer : List Byte) : Option (List Byte × List Byte) :=
  match reading with
  | .any => if available = 0 ∨ buffer = [] then none else some (buffer.take available, buffer.drop available)
  | .exact octets => if octets ≤ buffer.length then some (buffer.take octets, buffer.drop octets) else none
  | _ => none

namespace Session

def completeRead (s : Session W) (available : Nat) : Session W :=
  if s.reading = .line then
    match takeLine s.receiveBuffer with
    | some (line, rest) => ⟨s.parseLine srv line, rest⟩
    | none => s
  else match takeOctets s.reading available s.receiveBuffer with
    | some (data, rest) => ⟨s.parseBytes srv data, rest⟩
    | none => s

/-- The session closes once the task that has been queued, if any, is over. -/
def close (s : Session W) : Session W :=
  { s with pendingDisconnect := true, reading := if s.reading = .finalization then .finalization else .closed }

/-- The octets that came before the end of the stream still count in a binary
    read that waits for more. -/
def endOfStream (s : Session W) : Session W :=
  match s.reading with
  | .any => close ⟨s.parseBytes srv s.receiveBuffer, []⟩
  | .exact octets => if octets ≤ s.receiveBuffer.length then s else close ⟨s.parseBytes srv s.receiveBuffer, []⟩
  | _ => s.close

/-- The accept task is over; what came behind the marker is read first. -/
def completeFinalization (s : Session W) : Session W :=
  let p := s.withConnection (s.finalize srv)
  ⟨p.withConnection { p.toConnection with injected := [] }, p.injected ++ s.receiveBuffer⟩

def handle (s : Session W) : Event W → Session W
  | .received octets => { s with receiveBuffer := s.receiveBuffer ++ octets }
  | .readCompleted available => s.completeRead srv available
  | .handshakeCompleted =>
    if s.reading = .handshake then ⟨s.withConnection (s.onHandshakeCompleted srv), []⟩ else s
  | .finalizationCompleted => if s.reading = .finalization then s.completeFinalization srv else s
  | .ptrLookupCompleted host => { s with ptrName := some host }
  | .endOfStream => s.endOfStream srv
  | .closed => s.close
  | .elsewhere world => { s with world := world }

/-- One event; what it brings about is in the replies and the stored messages. -/
def step (s : Session W) (e : Event W) : Session W :=
  handle srv { s with replies := [], stored := [], additions := [] } e

def run (s : Session W) (events : List (Event W)) : Session W := events.foldl (step srv) s

/-- A client has connected. -/
def connected (address : IPAddress) (range : SecurityRange) (w : W) : Session W :=
  { world := w, remoteAddress := address, securityRange := range
    reading := if srv.security = .ssl then .handshake else .line
    replies := if srv.security = .ssl then [] else [⟨220, "", srv.bannerText w⟩] }

end Session
end HMailServer.Smtp
