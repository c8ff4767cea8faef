import Mathlib
import HMailServer.Lib.LockLedger
import HMailServer.Pop3.Connection

/- The maildrop lock (`POP3/POP3Connection.cpp` and `POP3/POP3Sessions.cpp`):
   any number of sessions in the AUTHORIZATION state, the logins by which they
   take the lock of an account, and the ways by which they let it go. The
   handlers of one connection run in its strand, one at a time; those of
   different connections interleave, and the table of locked accounts has a
   mutex, so that a login may be answered long after it took the lock. What a
   mechanism makes of its messages, and whether the account may log in, come
   from outside. -/
namespace HMailServer.Pop3
open AnsiString LockLedger

/-- The database id of an account. -/
abbrev AccountId := Int

inductive ConnectionState | authorization | transaction | update
  deriving DecidableEq, Repr

inductive ParseResult | normalResponse | startTls | disconnect
  deriving DecidableEq, Repr

/-- The SASL exchanges in which a line is no command. -/
inductive Mechanism | plain | scram | bearer | external | gssapi
  deriving DecidableEq, Repr

inductive Verb
  | noop | help | quit | capa
  | user (name : WString) | pass | auth (mechanism : Option Mechanism) (initialResponse : Bool) | stls | utf8
  | stat | list | retr | top | rset | dele | uidl
  | invalid
  deriving DecidableEq, Repr

/-- The members that have to do with the login. -/
structure LoginSession where
  currentState : ConnectionState := .authorization
  account : Option AccountId := none
  mailboxLocked : Bool := false
  username : WString := []
  exchange : Option Mechanism := none
  authenticationFailureCount : Nat := 0
  /-- The login has the lock, and is not answered yet. -/
  answering : Bool := false
  deriving DecidableEq

/-- What a mechanism makes of a line: the client gives up, the line is no
    message of it, another line is to come, or the exchange is over. -/
inductive Exchanged | cancelled | malformed | challenge | finished
  deriving DecidableEq, Repr

/-- What a logon gives: an account, or a refusal, and whether the address has
    failed too often. -/
inductive Logon
  | accepted (account : AccountId)
  | refused (disconnect : Bool)
  deriving DecidableEq, Repr

/-- What a request meets outside the session. -/
structure Login where
  exchanged : Exchanged := .finished
  logon : Logon := .refused false
  /-- `Pop3LoginDelay::SecondsRemaining`. -/
  delayRemaining : Int := 0
  /-- Whether the mechanism, STLS or the command is to be had on this
      connection. -/
  offered : Bool := true

/-- What a handler leaves: the session and the table, what it writes, and what
    it took or let go. -/
structure Handled where
  session : LoginSession
  locked : Finset AccountId
  text : List AnsiString := []
  result : ParseResult := .normalResponse
  entry : Option (Entry Unit AccountId) := none

/-! ## Logging in -/

/-- `HandleSuccessfulLogin_` up to the lock. -/
def handleSuccessfulLogin (login : Login) (account : AccountId) (s : LoginSession) (locked : Finset AccountId) : Handled :=
  if login.delayRemaining > 0 then
    { session := { s with account := none }, locked
      text := [ansi "-ERR [LOGIN-DELAY] Logging in too frequently. Try again in " ++
        formatNat login.delayRemaining.toNat ++ ansi " seconds."] }
  else if account ∈ locked then
    { session := { s with account := none }, locked
      text := [ansi "-ERR [IN-USE] Your mailbox is already locked"] }
  else
    { session := { s with account := some account, mailboxLocked := true, answering := true }
      locked := insert account locked, entry := some (.acquired () account) }

/-- The rest of it, once the inbox was had or not. -/
def answerLogin (loaded : Bool) (s : LoginSession) (locked : Finset AccountId) : Handled :=
  if loaded then
    { session := { s with answering := false, currentState := .transaction }, locked
      text := [ansi "+OK Mailbox locked and ready"] }
  else
    { session := { s with answering := false }, locked
      text := [ansi "-ERR [SYS/TEMP] Server error: Failed to fetch messages in Inbox."] }

/-- `FinishPasswordLogin_`: the account is assigned before the logon is known to
    have succeeded. -/
def finishPasswordLogin (login : Login) (s : LoginSession) (locked : Finset AccountId) : Handled :=
  match login.logon with
  | .refused true =>
    { session := { s with account := none }, locked, result := .disconnect
      text := [ansi "-ERR [AUTH] Invalid user name or password. Too many invalid logon attempts."] }
  | .refused false =>
    let s := { s with account := none, authenticationFailureCount := s.authenticationFailureCount + 1 }
    if 10 ≤ s.authenticationFailureCount then
      { session := s, locked, result := .disconnect
        text := [ansi "-ERR [AUTH] Invalid user name or password. Too many invalid logon attempts."] }
    else if 64 ∈ s.username then
      { session := s, locked, text := [ansi "-ERR [AUTH] Invalid user name or password."] }
    else
      { session := s, locked
        text := [ansi "-ERR [AUTH] Invalid user name or password. Please use full email address as user name."] }
  | .accepted account => handleSuccessfulLogin login account s locked

def refusal : Mechanism → AnsiString
  | .bearer => ansi "-ERR [AUTH] Invalid authentication token."
  | .external => ansi "-ERR [AUTH] The client certificate does not identify an account."
  | .gssapi => ansi "-ERR [AUTH] Authentication failed."
  | .plain | .scram => ansi "-ERR [AUTH] Invalid user name or password."

/-- The other mechanisms assign the account of a success only
    (`ProcessAuthBearer_`, `ProcessAuthExternal_`, `ContinueGssapi_`,
    `ProcessScramAck_` and `ScramAuthFailed_`). -/
def finishExchange (mechanism : Mechanism) (login : Login) (s : LoginSession) (locked : Finset AccountId) : Handled :=
  match login.logon with
  | .refused disconnect =>
    let s := { s with authenticationFailureCount := s.authenticationFailureCount + 1 }
    if disconnect = true ∨ 10 ≤ s.authenticationFailureCount then
      { session := s, locked, result := .disconnect
        text := [refusal mechanism ++ ansi " Too many invalid logon attempts."] }
    else { session := s, locked, text := [refusal mechanism] }
  | .accepted account => handleSuccessfulLogin login account s locked

/-- A message of an exchange. -/
def handleResponse (mechanism : Mechanism) (login : Login) (s : LoginSession) (locked : Finset AccountId) : Handled :=
  match login.exchanged with
  | .cancelled => { session := { s with exchange := none }, locked, text := [ansi "-ERR Authentication cancelled."] }
  | .malformed =>
    { session := { s with exchange := none }, locked
      text := [if mechanism = .plain then ansi "-ERR Invalid SASL PLAIN response."
        else ansi "-ERR Invalid SCRAM client-first message."] }
  | .challenge => { session := { s with exchange := some mechanism }, locked, text := [ansi "+ "] }
  | .finished =>
    let s := { s with exchange := none }
    if mechanism = .plain then finishPasswordLogin login s locked else finishExchange mechanism login s locked

/-- `ProtocolAUTH_`: the list of the mechanisms is left to the capabilities. -/
def protocolAUTH (mechanism : Option Mechanism) (initialResponse : Bool) (login : Login) (s : LoginSession)
    (locked : Finset AccountId) : Handled :=
  match mechanism with
  | none => { session := s, locked, text := [ansi "+OK List of SASL mechanisms follows"] }
  | some mechanism =>
    if login.offered = false then { session := s, locked, text := [ansi "-ERR Unsupported authentication mechanism."] }
    else if initialResponse then handleResponse mechanism login s locked
    else { session := { s with exchange := some mechanism }, locked, text := [ansi "+ "] }

/-! ## Letting go -/

/-- `UnlockMailbox_`. -/
def unlockMailbox (s : LoginSession) (locked : Finset AccountId) (text : List AnsiString) (result : ParseResult) : Handled :=
  match s.account with
  | none => { session := s, locked, text, result }
  | some account =>
    if s.mailboxLocked then
      { session := { s with account := none, mailboxLocked := false }
        locked := locked.erase account, text, result, entry := some (.released () account) }
    else { session := { s with account := none }, locked, text, result }

/-! ## Requests -/

/-- `GetCommand`: what the state admits of what the line names. -/
def admitted (state : ConnectionState) (verb : Verb) : Verb :=
  match verb with
  | .noop | .help | .quit | .capa => verb
  | .user _ | .pass | .auth _ _ | .stls | .utf8 => if state = .authorization then verb else .invalid
  | .stat | .list | .retr | .top | .rset | .dele | .uidl => if state = .transaction then verb else .invalid
  | .invalid => .invalid

/-- A request that is a command. What the commands of the TRANSACTION state
    answer is in `Connection`; they leave the members above as they are. -/
def handleVerb (login : Login) (s : LoginSession) (locked : Finset AccountId) : Verb → Handled
  | .noop => { session := s, locked, text := [ansi "+OK"] }
  | .help => { session := s, locked, text := [ansi "+OK Normal POP3 commands allowed"] }
  | .capa => { session := s, locked, text := [ansi "+OK CAPA list follows"] }
  | .quit => unlockMailbox s locked [ansi "+OK POP3 server saying goodbye..."] .disconnect
  | .user name =>
    if login.offered = false then
      { session := s, locked, text := [ansi "-ERR A SSL/TLS-connection is required for authentication."] }
    else if name = [] then { session := s, locked, text := [ansi "-ERR Missing user name."] }
    else { session := { s with username := name }, locked, text := [ansi "+OK Send your password"] }
  | .pass =>
    if s.username = [] then { session := s, locked, text := [ansi "-ERR Send USER first."] }
    else finishPasswordLogin login s locked
  | .auth mechanism initialResponse => protocolAUTH mechanism initialResponse login s locked
  | .stls =>
    if login.offered then
      { session := { s with username := [] }, locked, text := [ansi "+OK Begin TLS negotiation"], result := .startTls }
    else { session := s, locked, text := [ansi "-ERR Invalid command in current state."] }
  | .utf8 => { session := s, locked, text := [ansi "+OK UTF8 enabled"] }
  | .stat | .list | .retr | .top | .rset | .dele | .uidl => { session := s, locked }
  | .invalid => { session := s, locked, text := [ansi "-ERR Invalid command in current state."] }

/-- `InternalParseData`: a line of an exchange that waits is no command. -/
def handleRequest (verb : Verb) (login : Login) (s : LoginSession) (locked : Finset AccountId) : Handled :=
  match s.exchange with
  | some mechanism => handleResponse mechanism login s locked
  | none => handleVerb login s locked (admitted s.currentState verb)

/-! ## The server -/

/-- The connected sessions, and `POP3Sessions::locked_accounts_`. -/
structure Maildrops where
  session : Nat → Option LoginSession := fun _ => none
  locked : Finset AccountId := ∅

inductive Event
  | connected
  | request (verb : Verb) (login : Login)
  | answered (loaded : Bool)
  | timeout
  | disconnected

/-- What an event of a session does, when it can occur: only the answer follows
    a login that has taken the lock. -/
def handleEvent (s : LoginSession) (locked : Finset AccountId) : Event → Option Handled
  | .connected => none
  | .request verb login => if s.answering then none else some (handleRequest verb login s locked)
  | .answered loaded => if s.answering then some (answerLogin loaded s locked) else none
  | .timeout =>
    if s.answering then none else some (unlockMailbox s locked [ansi "-ERR Autologout; idle too long"] .normalResponse)
  | .disconnected => if s.answering then none else some (unlockMailbox s locked [] .disconnect)

/-- Whose entry it is. -/
def signed (i : Nat) : Entry Unit AccountId → Entry Nat AccountId
  | .acquired _ account => .acquired i account
  | .released _ account => .released i account

/-- One event of one session: the server after it, and what it took or let go. -/
def maildropStep (w : Maildrops) (i : Nat) (event : Event) : Option (Maildrops × Option (Entry Nat AccountId)) :=
  match w.session i, event with
  | none, .connected => some ({ w with session := Function.update w.session i (some {}) }, none)
  | none, _ => none
  | some s, event =>
    (handleEvent s w.locked event).map fun handled =>
      let left := match event with
        | .disconnected => none
        | _ => some handled.session
      ({ session := Function.update w.session i left, locked := handled.locked }, handled.entry.map (signed i))

/-- A run from the start of the server, with the history of its locks. -/
inductive MaildropRun : List (Nat × Event) → Maildrops → List (Entry Nat AccountId) → Prop
  | start : MaildropRun [] {} []
  | step {steps : List (Nat × Event)} {w w' : Maildrops} {history : List (Entry Nat AccountId)} {i : Nat} {event : Event}
      {entry : Option (Entry Nat AccountId)} (before : MaildropRun steps w history)
      (h : maildropStep w i event = some (w', entry)) :
      MaildropRun (steps ++ [(i, event)]) w' (history ++ entry.toList)

end HMailServer.Pop3
