import HMailServer.Util.AnsiString
import HMailServer.Lib.Cut

/- The requests of one HTTP connection, `Common/Util/HttpServer.cpp`: how they are cut
   from the stream of its octets, and which are handed to the handler. Reads and writes
   that fail, the timers and a stopped server are one event, that closes; where the
   stream ends the connection closes as well. -/
namespace HMailServer.HttpConnection
open Cut AnsiString

structure HttpRequest where
  method : AnsiString
  target : AnsiString
  version : AnsiString
  head : AnsiString
  body : AnsiString
  raw : AnsiString
  headers : List (AnsiString × AnsiString)

structure HttpLimits where
  maxRequestBytes : Nat
  maxRequestBytesLarge : Nat
  maxRequestsPerConnection : Nat

structure Server where
  limits : HttpLimits
  largeRequestFilter : AnsiString → AnsiString → Bool
  /-- Whether the response closes the connection; `none` where the handler throws. -/
  handler : HttpRequest → Option Bool

/-! ## Heads -/

def isBlank (c : UInt8) : Bool := c == 32 || c == 9

/-- The `Trim` of the file. -/
def trim (value : AnsiString) : AnsiString := (value.dropWhile isBlank).rdropWhile fun c => isBlank c || c == 13

/-- The lines that a CRLF ends. -/
def lines : AnsiString → List AnsiString
  | [] => []
  | 13 :: 10 :: rest => [] :: lines rest
  | c :: rest => (lines rest).modifyHead (c :: ·)

/-- `HttpRequest::Header`. -/
def header (headers : List (AnsiString × AnsiString)) (lowerCaseName : AnsiString) : AnsiString :=
  ((headers.find? fun h => h.1 == lowerCaseName).map Prod.snd).getD []

/-- The header lines, up to the blank one. -/
def parseFields : List AnsiString → Option (List (AnsiString × AnsiString))
  | [] => some []
  | line :: rest =>
    if line = [] then some []
    else match cut 58 line with
      | none => none
      | some (name, value) => (parseFields rest).map ((lower (trim name), trim value) :: ·)

def parseRequestLine (requestLine : AnsiString) : Option (AnsiString × AnsiString × AnsiString) :=
  match cut 32 requestLine, cutLast 32 requestLine with
  | some (method, _), some (front, version) =>
    if front.length = method.length then none
    else
      let target := front.drop (method.length + 1)
      if method = [] ∨ target = [] ∨ version.length ≠ 8 ∨ version.take 7 ≠ ansi "HTTP/1." then none
      else some (method, target, version)
  | _, _ => none

/-- The declared length: nothing where the field is empty or missing. -/
def parseLength (contentLength : AnsiString) : Option Nat :=
  if contentLength = [] then some 0
  else if 9 < contentLength.length ∨ ¬contentLength.all isDigit then none
  else some (digitsValue contentLength)

/-- `ParseHead_`: the request without its body, and `content_length_`. -/
def parseHead (head : AnsiString) : Option (HttpRequest × Nat) :=
  if 0 ∈ head then none
  else match lines head with
    | [] => none
    | requestLine :: rest =>
      match parseRequestLine requestLine, parseFields rest with
      | some (method, target, version), some headers =>
        (parseLength (header headers (ansi "content-length"))).map fun length =>
          (⟨method, target, version, head, [], [], headers⟩, length)
      | _, _ => none

/-! ## The connection -/

inductive Outcome where
  | handed (request : HttpRequest)
  | refused (status : Nat)
  /-- The stream ended in the body. -/
  | cutShort

structure Connection where
  /-- What is buffered or still to come. -/
  stream : AnsiString
  requests : Nat := 0
  closed : Bool := false
  /-- The heads that were taken from the stream, and what came of each. -/
  log : List (AnsiString × Outcome) := []

inductive Event where
  /-- The reads and the writes of the next request succeed. -/
  | request (running : Bool)
  | close

/-- `async_read_until`: the head ends with the first blank line. -/
def cutHead : AnsiString → Option (AnsiString × AnsiString)
  | [] => none
  | 13 :: 10 :: 13 :: 10 :: rest => some ([13, 10, 13, 10], rest)
  | c :: rest => (cutHead rest).map fun p => (c :: p.1, p.2)

def hasConnectionToken (lowerCaseValue token : AnsiString) : Bool :=
  (lowerCaseValue.splitOn 44).any fun piece => trim piece == token

section
variable (server : Server)

/-- The cap on head and body. -/
def cap (method target head : AnsiString) : Nat :=
  let limits := server.limits
  if head.length ≤ limits.maxRequestBytes ∧ limits.maxRequestBytes < limits.maxRequestBytesLarge ∧
      server.largeRequestFilter method target then limits.maxRequestBytesLarge
  else limits.maxRequestBytes

/-- What is on the wire behind a refused request is not read. -/
def Connection.refuse (c : Connection) (head : AnsiString) (status : Nat) : Connection :=
  { c with closed := true, log := c.log ++ [(head, .refused status)] }

/-- `keep_alive_` before the handler is asked. -/
def keepAlive (request : HttpRequest) (requests : Nat) (running : Bool) : Bool :=
  let connection := lower (header request.headers (ansi "connection"))
  (if request.version = ansi "HTTP/1.1" then !hasConnectionToken connection (ansi "close")
    else hasConnectionToken connection (ansi "keep-alive")) &&
    requests < server.limits.maxRequestsPerConnection && running

/-- `OnBody_`, with the body in the buffer. -/
def Connection.onBody (c : Connection) (request : HttpRequest) (running : Bool) : Connection :=
  let contentType := lower (header request.headers (ansi "content-type"))
  if ¬(ansi "application/octet-stream").isPrefixOf contentType ∧ 0 ∈ request.body then c.refuse request.head 400
  else
    let request := { request with raw := request.head ++ request.body }
    if header request.headers (ansi "transfer-encoding") ≠ [] then c.refuse request.head 411
    else
      let keep := keepAlive server request (c.requests + 1) running && !(server.handler request).getD true
      { c with requests := c.requests + 1, closed := !keep, log := c.log ++ [(request.head, .handed request)] }

/-- `OnHead_`; the rest of the stream is behind the head. -/
def Connection.onHead (c : Connection) (head : AnsiString) (running : Bool) : Connection :=
  match parseHead head with
  | none => c.refuse head 400
  | some (request, length) =>
    if server.limits.maxRequestBytes < head.length ∨ cap server request.method request.target head < head.length + length then
      c.refuse head 413
    else if c.stream.length < length then { c with closed := true, log := c.log ++ [(head, .cutShort)] }
    else { c with stream := c.stream.drop length }.onBody server { request with body := c.stream.take length } running

/-- What the buffer of the connection holds. -/
def maxBuffer : Nat := max server.limits.maxRequestBytes server.limits.maxRequestBytesLarge + 1

def Connection.step (c : Connection) (event : Event) : Connection :=
  match event with
  | .close => { c with closed := true }
  | .request running =>
    if c.closed then c
    else match cutHead c.stream with
      | none => { c with closed := true }
      | some (head, rest) =>
        if maxBuffer server < head.length then { c with closed := true }
        else { c with stream := rest }.onHead server head running

def Connection.run (c : Connection) (events : List Event) : Connection := events.foldl (Connection.step server) c

end

/-- A connection with this stream. -/
def connected (stream : AnsiString) : Connection := { stream := stream }

end HMailServer.HttpConnection
