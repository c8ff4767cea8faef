import HMailServer.Smtp.Connection.Session

/- Greeting, TLS and authentication (`SMTP/SMTPConnection.cpp`): the commands
   that change who the client is. -/
namespace HMailServer.Smtp
open RecipientParser

variable {W : Type} (srv : Server W)

namespace Connection

/-! ## Greeting -/

/-- `ReadDomainAddressFromHelo_`; `none` where there is no space. -/
def readDomainAddressFromHelo (request : WString) : Option WString :=
  (Cut.cut 32 request).map fun p => WString.trim srv.loc p.2

/-- `ProtocolEHLO_` and `ProtocolHELO_`. -/
def greet (c : Connection W) (extended : Bool) (request : WString) : Connection W :=
  let verb := if extended then "EHLO" else "HELO"
  match readDomainAddressFromHelo srv request with
  | none => c.sendErrorResponse srv 501 (wide (verb ++ " Invalid domain address."))
  | some host =>
    let c := { c with heloHost := host }
    if host = [] then c.sendErrorResponse srv 501 (wide (verb ++ " Invalid domain address."))
    else
      let r := c.runScript srv .onHELO none
      if r.1 then r.2
      else
        let c := r.2
        let c := c.enqueueWrite 250 (if extended then srv.ehloKeywords c.client c.world else wide "Hello.")
        { c with esmtpSession := extended, state := if c.state = .initial then .header else c.state }

def protocolEHLO (c : Connection W) (request : WString) : Connection W := c.greet srv true request

def protocolHELO (c : Connection W) (request : WString) : Connection W := c.greet srv false request

/-- `ProtocolSTARTTLS_`; the command is eight characters. -/
def protocolSTARTTLS (c : Connection W) (request : WString) : Connection W :=
  if srv.security = .startTlsOptional ∨ srv.security = .startTlsRequired then
    if c.startTlsUsed || c.tls then
      c.sendErrorResponse srv 503 (wide "STARTTLS is not allowed: a TLS session is already active.")
    else if 8 < (WString.trim srv.loc request).length then
      c.sendErrorResponse srv 501 (wide "Syntax error (no parameters allowed)")
    else { (c.enqueueWrite 220 (wide "Ready to start TLS")) with state := .startTls, reading := .handshake }
  else c.sendErrorResponse srv 503 (wide "Bad sequence of commands")

/-- `OnHandshakeCompleted`; the session starts over. -/
def onHandshakeCompleted (c : Connection W) : Connection W :=
  match srv.security with
  | .ssl => { c.enqueueWrite 220 (srv.bannerText c.world) with tls := true, reading := .line }
  | .startTlsOptional | .startTlsRequired =>
    { ({ c with tls := true, heloHost := [], startTlsUsed := true }.resetLoginCredentials).resetCurrentMessage with
      state := .initial, reading := .line }
  | .none => c

/-! ## XCLIENT -/

/-- The attributes of one XCLIENT, `none` where the command does not give them. -/
structure XclientAttributes where
  address : Option IPAddress := none
  name : Option WString := none
  helo : Option WString := none
  esmtp : Option Bool := none
  login : Option WString := none

def unavailable (value : WString) : Bool :=
  WString.equalsNoCase value (wide "[UNAVAILABLE]") || WString.equalsNoCase value (wide "[TEMPUNAVAIL]")

def validPort (value : WString) : Bool :=
  value ≠ [] && value.length ≤ 5 && value.all (fun ch => 48 ≤ ch && ch ≤ 57) && WString.digitsValue value ≤ 65535

/-- One turn of the attribute loop; the error is the text of the 501. -/
def readAttribute (text : WString) (attributes : XclientAttributes) : Except String XclientAttributes :=
  let text := WString.trim srv.loc text
  if text = [] then .ok attributes
  else match Cut.cut 61 text with
    | none => .error "Bad command parameter syntax."
    | some (name, value) =>
      if name = [] ∨ value = [] then .error "Bad command parameter syntax."
      else
        let name := WString.makeUpper srv.loc name
        if name = wide "ADDR" then
          if unavailable value then .ok attributes
          else
            let text := if WString.equalsNoCase (value.take 5) (wide "IPV6:") then value.drop 5 else value
            match srv.tryParseAddress text with
            | none => .error "Bad ADDR syntax."
            | some address => .ok { attributes with address := some address }
        else if name = wide "PORT" then
          if unavailable value || validPort value then .ok attributes else .error "Bad PORT syntax."
        else if name = wide "NAME" then
          .ok { attributes with name := some (if unavailable value then wide "Unknown" else value) }
        else if name = wide "HELO" then .ok { attributes with helo := some (if unavailable value then [] else value) }
        else if name = wide "PROTO" then
          if WString.equalsNoCase value (wide "SMTP") then .ok { attributes with esmtp := some false }
          else if WString.equalsNoCase value (wide "ESMTP") then .ok { attributes with esmtp := some true }
          else .error "Bad PROTO syntax."
        else if name = wide "LOGIN" then .ok { attributes with login := some (if unavailable value then [] else value) }
        else .error "Bad command parameter syntax."

def readAttributes : List WString → XclientAttributes → Except String XclientAttributes
  | [], attributes => .ok attributes
  | a :: rest, attributes =>
    match readAttribute srv a attributes with
    | .error text => .error text
    | .ok attributes => readAttributes rest attributes

/-- What XCLIENT applies once every attribute is valid; the name is that of the
    address it leaves. -/
def applyAttributes (c : Connection W) (attributes : XclientAttributes) (range : SecurityRange) : Connection W :=
  let c := match attributes.address with
    | some address => { c with remoteAddress := address, securityRange := range, ptrName := none }
    | none => c
  let c := { c with
    ptrName := attributes.name.elim c.ptrName some
    heloHost := attributes.helo.getD c.heloHost
    esmtpSession := attributes.esmtp.getD c.esmtpSession }
  let c := match attributes.login with
    | none => c
    | some [] => { c with isAuthenticated := false, authenticatedByXclient := false, username := [] }
    | some login =>
      { c with username := login, password := [], isAuthenticated := true, authenticatedByXclient := true }
  { c.resetCurrentMessage with state := .initial }

/-- `ProtocolXCLIENT_`. -/
def protocolXCLIENT (c : Connection W) (request : WString) : Connection W :=
  if !srv.xclientPermitted c.world then c.sendResponse 550 "5.7.0" (wide "Error: insufficient authorization.")
  else if c.startTlsMissing srv then c.refuseWithoutStartTls srv
  else if c.message.isSome then
    c.sendResponse 503 "5.5.1" (wide "XCLIENT is not permitted inside a mail transaction.")
  else
    let text := WString.trim srv.loc (request.drop 7)
    if text = [] then c.sendResponse 501 "5.5.4" (wide "Bad command parameter syntax.")
    else match readAttributes srv (WString.splitString text 32) {} with
      | .error message => c.sendResponse 501 "5.5.4" (wide message)
      | .ok attributes =>
        match attributes.address.elim (some c.securityRange) (fun a => srv.matchingRange a c.world) with
        | none => (c.sendResponse 550 "5.7.1" (wide "Client host rejected by IP range policy.")).disconnect
        | some range =>
          if attributes.address.isSome && !range.allowSMTP then
            (c.sendResponse 550 "5.7.1" (wide "Client host rejected by IP range policy.")).disconnect
          else
            let c := c.applyAttributes attributes range
            c.enqueueWrite 220 (srv.bannerText c.world)

/-! ## AUTH -/

/-- `RestartAuthentication_`. -/
def restartAuthentication (c : Connection W) : Connection W :=
  c.resetLoginCredentials.sendErrorResponse srv 535
    (wide "Authentication failed. Restarting authentication process.")

def tooManyLogons (c : Connection W) : Connection W :=
  (c.sendErrorResponse srv 535 (wide "Authentication failed. Too many invalid logon attempts.")).disconnect

/-- `FireOnClientLogon_`, then the reply and the end of the exchange. -/
def logonAccepted (c : Connection W) : Connection W :=
  { (c.notify srv .onClientLogon none).sendResponse 235 "2.7.0" (wide "authenticated.") with state := .header }

/-- `FireOnClientLogon_`, then what every mechanism does with a failed logon;
    `register` says whether the address has failed too often. -/
def logonRefused (c : Connection W) (register : W → Bool × W) : Connection W :=
  let c := c.notify srv .onClientLogon none
  let r := register c.world
  let c := { c with world := r.2, authenticationFailureCount := c.authenticationFailureCount + 1 }
  if r.1 || 10 ≤ c.authenticationFailureCount then c.tooManyLogons srv else c.restartAuthentication srv

/-- `Authenticate_`. -/
def authenticate (c : Connection W) : Connection W :=
  let r := srv.logon c.remoteAddress c.username c.password c.world
  let c := { c with world := r.2 }
  if r.1.2 then c.tooManyLogons srv
  else
    let c := { c with isAuthenticated := r.1.1 }
    if r.1.1 then c.logonAccepted srv else c.logonRefused srv fun w => (false, w)

/-- What the mechanisms without a password do with the outcome. -/
def applyOutcome (c : Connection W) (accepted : Bool) (loginName : WString) (register : W → Bool × W) : Connection W :=
  let c := { c with username := loginName, isAuthenticated := accepted }
  if accepted then c.logonAccepted srv else c.logonRefused srv register

def cancelled (c : Connection W) : Connection W :=
  c.resetLoginCredentials.sendErrorResponse srv 501 (wide "Authentication cancelled.")

/-- `AuthenticateUsingPLAIN_`. -/
def authenticateUsingPLAIN (c : Connection W) (line : WString) : Connection W :=
  let r := srv.decodeSaslPlain line
  if !r.1 then c.restartAuthentication srv
  else { c with username := (srv.saslPrep r.2.1).getD r.2.1, password := r.2.2 }.authenticate srv

/-- `AuthenticateUsingBearer_`. -/
def authenticateUsingBearer (c : Connection W) (line : WString) : Connection W :=
  if line = wide "*" then c.cancelled srv
  else
    let r := srv.bearerLogon c.remoteAddress (srv.base64Decode line) c.world
    { c with world := r.2 }.applyOutcome srv r.1.1 r.1.2 (srv.registerBearerFailure c.remoteAddress r.1.2)

/-- `AuthenticateUsingExternal_`. -/
def authenticateUsingExternal (c : Connection W) (line : WString) : Connection W :=
  if line = wide "*" then c.cancelled srv
  else
    let authzid := if line = [] ∨ line = wide "=" then [] else srv.base64Decode line
    let r := srv.externalLogon c.remoteAddress authzid c.world
    { c with world := r.2 }.applyOutcome srv r.1.accepted r.1.loginName fun w => (r.1.disconnect, w)

/-- `ProtocolGssapiToken_`. -/
def protocolGssapiToken (c : Connection W) (line : WString) : Connection W :=
  if line = wide "*" then { c with gssapiSession := false }.cancelled srv
  else if !c.gssapiSession then c.sendErrorResponse srv 503 (wide "No authentication in progress.")
  else
    let r := srv.gssapiStep c.remoteAddress line c.world
    let c := { c with world := r.2 }
    match r.1 with
    | .needMore reply => { c.enqueueWrite 334 reply with state := .smtpGssapiResponse }
    | .finished outcome =>
      { c with gssapiSession := false }.applyOutcome srv outcome.accepted outcome.loginName fun w =>
        (outcome.disconnect, w)

/-- A SCRAM exchange that ends without a logon. -/
def scramStopped (c : Connection W) (text : String) : Connection W :=
  { ({ c with scramSession := none }.sendErrorResponse srv 501 (wide text)) with state := .header }

/-- `ScramAuthFailed_`. -/
def scramAuthFailed (c : Connection W) : Connection W :=
  let username := (c.scramSession.map ScramSession.username).getD c.username
  let verifiable := (c.scramSession.map ScramSession.hasAccount).getD false
  let r := srv.registerScramFailure c.remoteAddress username verifiable c.world
  let c := { c with
    world := r.2, scramSession := none, authenticationFailureCount := c.authenticationFailureCount + 1 }
  if r.1 || 10 ≤ c.authenticationFailureCount then c.tooManyLogons srv
  else { c.sendErrorResponse srv 535 (wide "Authentication failed.") with state := .header }

/-- `ProtocolScramClientFirst_`. -/
def protocolScramClientFirst (c : Connection W) (request : WString) : Connection W :=
  if request = wide "*" then c.scramStopped srv "Authentication cancelled."
  else match srv.scramUsername (srv.base64Decode request) c.world with
    | none => c.scramStopped srv "Invalid SCRAM client-first message."
    | some username =>
      let c := { c with username := username }
      let r := srv.scramClientFirst (srv.base64Decode request) c.world
      let c := { c with world := r.2 }
      match r.1 with
      | none => c.scramStopped srv "Invalid SCRAM client-first message."
      | some (serverFirst, exchange) =>
        { c.enqueueWrite 334 (srv.base64Encode serverFirst) with
          scramSession := some ⟨username, srv.scramAccount username c.world, exchange⟩, state := .smtpScramFinal }

/-- `ProtocolScramClientFinal_`. -/
def protocolScramClientFinal (c : Connection W) (request : WString) : Connection W :=
  if request = wide "*" then c.scramStopped srv "Authentication cancelled."
  else match c.scramSession.bind fun s => srv.scramClientFinal s.exchange (srv.base64Decode request) c.world with
    | none => c.scramAuthFailed srv
    | some serverFinal => { c.enqueueWrite 334 (srv.base64Encode serverFinal) with state := .smtpScramAck }

/-- `FinishScramAuth_`. -/
def finishScramAuth (c : Connection W) : Connection W :=
  let hasAccount := (c.scramSession.map ScramSession.hasAccount).getD false
  let username := (c.scramSession.map ScramSession.username).getD c.username
  let c := { c with scramSession := none }
  if !hasAccount then c.scramAuthFailed srv
  else { c with isAuthenticated := true, world := srv.recordSuccess username c.world }.logonAccepted srv

/-- `ProtocolUsername_`. -/
def protocolUsername (c : Connection W) (request : WString) : Connection W :=
  { c.enqueueWrite 334 (srv.base64Encode (wide "Password:")) with
    username := srv.base64Decode request, state := .smtpUpassword }

/-- `ProtocolPassword_`. -/
def protocolPassword (c : Connection W) (request : WString) : Connection W :=
  let password := match c.requestedAuthenticationType with
    | .login => srv.base64Decode request
    | .plain => request
    | _ => c.password
  { c with password := password }.authenticate srv

/-- A mechanism starts: with its initial response, or with an empty challenge. -/
def startMechanism (c : Connection W) (type : AuthenticationType) (response : Option WString)
    (waiting : ConnectionState) (go : Connection W → WString → Connection W) : Connection W :=
  let c := { c with requestedAuthenticationType := type }
  match response with
  | some line => go c line
  | none => { c.enqueueWrite 334 [] with state := waiting }

/-- The mechanisms of `ProtocolAUTH_`. -/
def selectMechanism (c : Connection W) (mechanism : WString) (params : List WString) : Connection W :=
  let response := params[2]?
  let notEqualsSign := response.filter fun line => line ≠ wide "="
  let unsupported := c.sendErrorResponse srv 504 (wide "Authentication mechanism not supported.")
  if mechanism = wide "LOGIN" then
    let c := { c with requestedAuthenticationType := .login }
    if params.length = 3 then
      { c.enqueueWrite 334 (srv.base64Encode (wide "Password:")) with
        username := srv.base64Decode (response.getD []), state := .smtpUpassword }
    else { c.enqueueWrite 334 (srv.base64Encode (wide "Username:")) with state := .smtpUsername }
  else if mechanism = wide "PLAIN" ∧ srv.authAllowPlainText c.world = true then
    let c := { c with requestedAuthenticationType := .plain }
    if params.length = 3 then c.authenticateUsingPLAIN srv (response.getD [])
    else { c.enqueueWrite 334 (wide "Log on") with state := .smtpUsername }
  else if mechanism = wide "SCRAM-SHA-256-PLUS" then
    if !c.tls then c.sendErrorResponse srv 504 (wide "SCRAM-SHA-256-PLUS requires a TLS connection.")
    else if !srv.tlsServerEndPoint c.world then
      c.sendErrorResponse srv 504 (wide "Channel binding is not available on this connection.")
    else c.startMechanism .scramSha256 notEqualsSign .smtpScramFirst (protocolScramClientFirst srv)
  else if mechanism = wide "SCRAM-SHA-256" then
    c.startMechanism .scramSha256 notEqualsSign .smtpScramFirst (protocolScramClientFirst srv)
  else if mechanism = wide "XOAUTH2" ∨ mechanism = wide "OAUTHBEARER" then
    if !(srv.oauth2 c.world).1 then unsupported
    else if (srv.oauth2 c.world).2 && !c.tls then
      c.sendErrorResponse srv 530 (wide "A SSL/TLS-connection is required for authentication.")
    else c.startMechanism .bearer response .smtpBearerResponse (authenticateUsingBearer srv)
  else if mechanism = wide "EXTERNAL" then
    if !srv.certificateIdentities c.world then unsupported
    else c.startMechanism .external response .smtpExternalResponse (authenticateUsingExternal srv)
  else if mechanism = wide "GSSAPI" then
    if !srv.gssapiIsEnabled c.world then unsupported
    else
      { c with gssapiSession := true }.startMechanism .gssapi notEqualsSign .smtpGssapiResponse (protocolGssapiToken srv)
  else unsupported

/-- `ProtocolAUTH_`. -/
def protocolAUTH (c : Connection W) (request : WString) : Connection W :=
  if c.startTlsMissing srv then c.refuseWithoutStartTls srv
  else if !srv.authIsEnabled c.world then c.sendErrorResponse srv 504 (wide "Authentication not enabled.")
  else if c.securityRange.requireTLSForAuth && !c.tls then
    c.sendErrorResponse srv 530 (wide "A SSL/TLS-connection is required for authentication.")
  else if c.isAuthenticated then c.sendErrorResponse srv 503 (wide "Already authenticated.")
  else
    let c := { c with requestedAuthenticationType := .none }
    let params := WString.splitString request 32
    if params.length = 1 then c.sendErrorResponse srv 504 (wide "Authentication type not specified.")
    else c.selectMechanism srv (WString.makeUpper srv.loc (params[1]?.getD [])) params

end Connection
end HMailServer.Smtp
