import HMailServer.Util.AnsiString
import HMailServer.Util.WideString

/- The transaction state of a POP3 session (`POP3/POP3Connection.cpp`), from the
   login on, and the inbox it shares with other sessions
   (`Common/Application/FolderManager.cpp`). The contents of message files and the
   mailbox lock are left out. -/
namespace HMailServer.Pop3
open AnsiString

/-- The `Message` fields the session reads. -/
structure Message where
  uid : Nat
  size : Nat
  flagDeleted : Bool := false
  deriving DecidableEq

/-- What the platform and the configuration bring: how request bytes become wide
    characters, the width of a `long`, and the text of a CAPA listing. -/
structure Platform where
  toWide : AnsiString → WString
  loc : Locale
  longBits : Nat
  capabilities : AnsiString

/-! ## Requests -/

inductive Command
  | noop | help | quit | capa
  | stat | rset
  | list (parameter : WString)
  | uidl (parameter : WString)
  | retr (parameter : WString)
  | dele (parameter : WString)
  | top (parameter : WString)
  | invalid
  | lineTooLong
  deriving DecidableEq

/-- `GetCommand` in the transaction state. -/
def getCommand (loc : Locale) (command parameter : WString) : Command :=
  let command := WString.makeUpper loc command
  if command = wide "NOOP" then .noop
  else if command = wide "HELP" then .help
  else if command = wide "QUIT" then .quit
  else if command = wide "STAT" then .stat
  else if command = wide "LIST" then .list parameter
  else if command = wide "RETR" then .retr parameter
  else if command = wide "TOP" then .top parameter
  else if command = wide "RSET" then .rset
  else if command = wide "DELE" then .dele parameter
  else if command = wide "UIDL" then .uidl parameter
  else if command = wide "CAPA" then .capa
  else .invalid

/-- A request line cut at its first space. -/
def parseRequest (p : Platform) (request : AnsiString) : Command :=
  let maxLength := if 5 ≤ request.length ∧ makeUpper (request.take 5) = ansi "AUTH " then 12288 else 500
  if maxLength < request.length then .lineTooLong
  else
    let command := request.takeWhile (· ≠ 32)
    getCommand p.loc (p.toWide command) (if 32 ∈ request then p.toWide (request.drop (command.length + 1)) else [])

/-! ## The session -/

structure Session where
  /-- `account_`: gone once the session was logged out. -/
  account : Bool := true
  messages : List Message := []

/-- What a request is answered with: the lines written, and the message whose file
    follows them, for TOP with the number of lines of its body. -/
structure Outcome where
  text : List AnsiString := []
  file : Option (Message × Option Int) := none
  deriving DecidableEq

def reply (text : String) : Outcome := { text := [ansi text] }

/-- What the session meets outside itself: whether the inbox can be had, whether a
    message file can be opened, and which messages the database deletes. -/
structure Surroundings where
  inboxFound : Bool := true
  fileOpens : Bool := true
  deletes : Message → Bool := fun _ => true

/-- `GetInboxMessages` followed by `ResetMailbox_`: copies, none of them marked. -/
def loadMailbox (inbox : List Message) : List Message := inbox.map fun message => { message with flagDeleted := false }

/-- `GetMessage_`: the number, as a `long`, taken for an unsigned position. -/
def position (p : Platform) (parameter : WString) : Nat := (WString.ttoi p.longBits parameter % 4294967296).toNat

def getMessage (messages : List Message) (index : Nat) : Option Message :=
  if 1 ≤ index ∧ index ≤ messages.length then messages[index - 1]? else none

/-- `GetMailboxContents_`: how many messages are not marked, and their size. -/
def getMailboxContents (messages : List Message) : Nat × Nat :=
  let unmarked := messages.filter fun message => message.flagDeleted = false
  (unmarked.length, (unmarked.map Message.size).sum)

def space : AnsiString := [32]
def crlf : AnsiString := [13, 10]

def protocolSTAT (s : Session) : Outcome :=
  let contents := getMailboxContents s.messages
  { text := [ansi "+OK " ++ formatNat contents.1 ++ space ++ formatNat contents.2] }

/-- One row for each message that is not marked, with its number. -/
def scanRows (messages : List Message) (value : Message → Nat) : AnsiString :=
  ((messages.zipIdx 1).filter fun row => row.1.flagDeleted = false).flatMap fun row =>
    formatNat row.2 ++ space ++ formatNat (value row.1) ++ crlf

def contentsLine (messages : List Message) : AnsiString :=
  let contents := getMailboxContents messages
  ansi "+OK " ++ formatNat contents.1 ++ ansi " messages (" ++ formatNat contents.2 ++ ansi " octets)"

/-- The answer for one message, as though a marked one were not there. -/
def singleRow (p : Platform) (messages : List Message) (parameter : WString) (value : Message → Nat) : Outcome :=
  match getMessage messages (position p parameter) with
  | some message =>
    if message.flagDeleted then reply "-ERR No such message"
    else { text := [ansi "+OK " ++ formatNat (position p parameter) ++ space ++ formatNat (value message)] }
  | none => reply "-ERR No such message"

def protocolLIST (p : Platform) (s : Session) (parameter : WString) : Outcome :=
  if s.account = false then reply "-ERR Message list not loaded"
  else if parameter = [] then
    { text := [contentsLine s.messages, scanRows s.messages Message.size ++ ansi "."] }
  else singleRow p s.messages parameter Message.size

def protocolUIDL (p : Platform) (s : Session) (parameter : WString) : Outcome :=
  if s.account = false then reply "-ERR Message list not loaded"
  else if parameter = [] then
    { text := [contentsLine s.messages ++ crlf ++ scanRows s.messages Message.uid ++ ansi "."] }
  else singleRow p s.messages parameter Message.uid

/-- The file of a message that is not marked, if it can be opened. -/
def sendFile (p : Platform) (messages : List Message) (parameter : WString) (lines : Option Int) (opens : Bool) : Outcome :=
  match getMessage messages (position p parameter) with
  | some message =>
    if message.flagDeleted then reply "-ERR No such message"
    else if opens = false then reply "-ERR Unable to read the message file"
    else { text := [ansi "+OK " ++ formatNat message.size ++ ansi " octets"], file := some (message, lines) }
  | none => reply "-ERR No such message"

def protocolRETR (p : Platform) (s : Session) (parameter : WString) (opens : Bool) : Outcome :=
  if s.account = false then reply "-ERR Message list not loaded"
  else sendFile p s.messages parameter none opens

def isNumeric (s : WString) : Bool := s.all fun c => 48 ≤ c ∧ c ≤ 57

/-- The number of lines TOP is given after the message number, 0 for none; nothing
    where it is no number. -/
def topLines (p : Platform) (parameter : WString) : Option Int :=
  let message := parameter.takeWhile (· ≠ 32)
  let lines := WString.trim p.loc (parameter.drop (message.length + 1))
  if lines = [] then some 0
  else if isNumeric lines = false then none
  else some (WString.ttoi p.longBits lines)

def protocolTOP (p : Platform) (s : Session) (parameter : WString) (opens : Bool) : Outcome :=
  if s.account = false then reply "-ERR Message list not loaded"
  else match topLines p parameter with
    | none => reply "-ERR Invalid number of lines"
    | some lines => sendFile p s.messages (parameter.takeWhile (· ≠ 32)) (some lines) opens

def protocolDELE (p : Platform) (s : Session) (parameter : WString) : Outcome × Session :=
  let number := position p (WString.trim p.loc parameter)
  if s.account = false then (reply "-ERR No such message (messages not loaded)", s)
  else match getMessage s.messages number with
    | none => (reply "-ERR No such message", s)
    | some message =>
      if message.flagDeleted then (reply "-ERR No such message (already deleted)", s)
      else (reply "+OK msg deleted", { s with messages := s.messages.set (number - 1) { message with flagDeleted := true } })

def protocolRSET (s : Session) (inbox : List Message) (inboxFound : Bool) : Outcome × Session :=
  if s.account = false then (reply "-ERR Message list not loaded", s)
  else if inboxFound then (reply "+OK 0", { s with messages := loadMailbox inbox })
  else (reply "-ERR Unable to access mailbox.", s)

/-- `SaveMailboxChanges_`: the inbox without the messages whose unique ids are
    marked, where the database deletes them. -/
def saveMailboxChanges (s : Session) (inbox : List Message) (around : Surroundings) : List Message :=
  if s.account = false then inbox
  else
    let messagesToDelete := (s.messages.filter Message.flagDeleted).map Message.uid
    if around.inboxFound then
      inbox.filter fun message => message.uid ∉ messagesToDelete ∨ around.deletes message = false
    else inbox

/-- The session and the inbox behind it. -/
structure World where
  session : Session
  inbox : List Message

inductive Step
  | request (line : AnsiString) (around : Surroundings)
  | store (inbox : List Message)
  | connectionTimeout
  | disconnect

def logOut (s : Session) : Session := { s with account := false }

/-- One command carried out. -/
def handleCommand (p : Platform) (w : World) (around : Surroundings) : Command → Outcome × World
  | .noop => (reply "+OK", w)
  | .help => (reply "+OK Normal POP3 commands allowed", w)
  | .capa => ({ text := [p.capabilities] }, w)
  | .invalid => (reply "-ERR Invalid command in current state.", w)
  | .lineTooLong => (reply "-ERR Line too long.", w)
  | .stat => (protocolSTAT w.session, w)
  | .list parameter => (protocolLIST p w.session parameter, w)
  | .uidl parameter => (protocolUIDL p w.session parameter, w)
  | .retr parameter => (protocolRETR p w.session parameter around.fileOpens, w)
  | .top parameter => (protocolTOP p w.session parameter around.fileOpens, w)
  | .dele parameter =>
    let result := protocolDELE p w.session parameter
    (result.1, { w with session := result.2 })
  | .rset =>
    let result := protocolRSET w.session w.inbox around.inboxFound
    (result.1, { w with session := result.2 })
  | .quit =>
    (reply "+OK POP3 server saying goodbye...",
      { session := logOut w.session, inbox := saveMailboxChanges w.session w.inbox around })

def step (p : Platform) (w : World) : Step → Outcome × World
  | .request line around => handleCommand p w around (parseRequest p line)
  | .store inbox => ({}, { w with inbox := inbox })
  | .connectionTimeout => (reply "-ERR Autologout; idle too long", { w with session := logOut w.session })
  | .disconnect => ({}, { w with session := logOut w.session })

/-- The answers of a run, and the world after it. -/
def run (p : Platform) (w : World) : List Step → List Outcome × World
  | [] => ([], w)
  | s :: steps =>
    let first := step p w s
    let rest := run p first.2 steps
    (first.1 :: rest.1, rest.2)

/-- A session that has just logged in. -/
def login (inbox : List Message) : World := { session := { messages := loadMailbox inbox }, inbox := inbox }

end HMailServer.Pop3
