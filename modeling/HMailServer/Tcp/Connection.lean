import HMailServer.Lib.DotStuffing

/- The receiving side of `TCPIP/TCPConnection.cpp`: the receive buffer, the three
   kinds of reads and what is passed to `ParseData`. The socket is the stream that
   is still to come and, read by read, the number of octets that it delivers; with
   compression the stream is the inflated one, and a read delivers what one raw
   read inflates to. `boost::asio` is as documented: a composed read looks at the
   buffer first, never asks for more than the buffer has room for, and a write to a
   full `streambuf` is dropped by the `std::ostream` in front of it. -/
namespace HMailServer.Tcp
open DotStuffing

/-- `receive_buffer_(250000)`. -/
def receiveBufferMaxSize : Nat := 250000

/-- The most that one read of asio's composed reads asks the socket for. -/
def maxTransferSize : Nat := 65536

def commandSeparator : List Byte := [CR, LF]

/-- What a protocol asks for next: `EnqueueRead()`, `EnqueueReadExact(n)`, or binary
reads up to an end that the protocol finds in what it has got: `endOf` is the number
of octets that belong to the transfer, once they are there. -/
inductive Ask where
  | line
  | exact (numBytes : Nat)
  | transfer (endOf : List Byte → Option Nat)

/-- What the protocol has got: a line without its separator, the octets of an exact
read, the binary reads of a transfer in one; or what was left when the peer closed. -/
inductive Piece where
  | line (text : List Byte)
  | exact (octets : List Byte)
  | transfer (octets : List Byte)
  | cutShort (octets : List Byte)
  deriving DecidableEq, Repr

/-- A protocol decides by what it has got so far. -/
abbrev Protocol := List Piece → Ask

structure Connection where
  receiveBuffer : List Byte := []
  receiveBinary : Bool := false
  exactReadTarget : Nat := 0
  /-- The separator that the pending read waits for. -/
  delimitor : List Byte := commandSeparator
  compressionReadEnabled : Bool
  connected : Bool := true
  /-- The octets that the socket has not delivered yet. -/
  toCome : List Byte
  handed : List Piece := []
  /-- What the binary reads of the transfer in progress have brought. -/
  transferred : List Byte := []

/-! ## Asking -/

/-- `SetReceiveBinary` and the `EnqueueRead` of what the protocol asks for. -/
def enqueueRead (p : Protocol) (c : Connection) : Connection :=
  match p c.handed with
  | .line => { c with receiveBinary := false, delimitor := commandSeparator }
  | .exact numBytes => { c with receiveBinary := true, exactReadTarget := numBytes, delimitor := [] }
  | .transfer _ => { c with receiveBinary := true, delimitor := [] }

/-- `std::ostream::write` into the receive buffer. -/
def write (buffer octets : List Byte) : List Byte := (buffer ++ octets).take receiveBufferMaxSize

/-- `InjectPipelinedBytes`. -/
def injectPipelinedBytes (c : Connection) (octets : List Byte) : Connection :=
  { c with receiveBuffer := write c.receiveBuffer octets }

/-! ## Waiting -/

/-- When asio's composed read of `AsyncRead` is done. -/
def asyncReadSatisfied (c : Connection) : Bool :=
  if c.exactReadTarget > 0 then c.receiveBuffer.length ≥ c.exactReadTarget
  else if c.delimitor.isEmpty then !c.receiveBuffer.isEmpty
  else decide (c.delimitor <:+: c.receiveBuffer)

/-- `CompressedReadSatisfied_`. -/
def compressedReadSatisfied (c : Connection) : Bool :=
  if c.exactReadTarget > 0 then c.receiveBuffer.length ≥ c.exactReadTarget
  else if c.delimitor.length = 0 then c.receiveBuffer.length > 0
  else decide (c.delimitor <:+: c.receiveBuffer)

inductive Completion where
  | success
  | notFound
  deriving DecidableEq, Repr

/-- How the pending read completes with what is in the buffer, if it does. A read
without separator that asio runs ends when the buffer is full. -/
def completion (c : Connection) : Option Completion :=
  let satisfied := if c.compressionReadEnabled then compressedReadSatisfied c else asyncReadSatisfied c
  if satisfied then some .success
  else if c.receiveBuffer.length ≥ receiveBufferMaxSize then
    if !c.compressionReadEnabled && c.delimitor.isEmpty then some .success else some .notFound
  else none

/-- The most that the pending read takes from the socket at once. -/
def readLimit (c : Connection) : Nat :=
  let room := min maxTransferSize (receiveBufferMaxSize - c.receiveBuffer.length)
  if c.exactReadTarget > 0 then min (c.exactReadTarget - c.receiveBuffer.length) room else room

/-! ## Handing over -/

/-- `ParseData` of a line. -/
def parseLine (p : Protocol) (c : Connection) (text : List Byte) : Connection :=
  enqueueRead p { c with handed := c.handed ++ [.line text] }

/-- `ParseData` of a binary read. What lies behind the end of a transfer goes back. -/
def parseBinary (p : Protocol) (c : Connection) (octets : List Byte) : Connection :=
  match p c.handed with
  | .line => c
  | .exact _ => enqueueRead p { c with handed := c.handed ++ [.exact octets] }
  | .transfer endOf =>
    match endOf (c.transferred ++ octets) with
    | none => { c with transferred := c.transferred ++ octets }
    | some ending =>
      let own := ending - c.transferred.length
      let c := { c with
        handed := c.handed ++ [.transfer (c.transferred ++ octets.take own)]
        transferred := [] }
      enqueueRead p (injectPipelinedBytes c (octets.drop own))

/-- The octets of a binary read: the exact count, if it is there, or everything. -/
def bytesToExtract (c : Connection) : Nat :=
  if c.exactReadTarget > 0 then min c.exactReadTarget c.receiveBuffer.length else c.receiveBuffer.length

/-- `AsyncReadCompleted` without an error. The line goes up to the first CR, and one
octet behind it is dropped. -/
def asyncReadCompleted (p : Protocol) (c : Connection) : Connection :=
  if c.receiveBinary then
    let octets := c.receiveBuffer.take (bytesToExtract c)
    parseBinary p { c with receiveBuffer := c.receiveBuffer.drop (bytesToExtract c), exactReadTarget := 0 } octets
  else
    let text := c.receiveBuffer.takeWhile (· != CR)
    parseLine p { c with receiveBuffer := (c.receiveBuffer.drop (text.length + 1)).drop 1 } text

/-- `AsyncReadCompleted` at the end of the stream: a binary read hands over what is
there, and the session is closed. -/
def asyncReadClosed (c : Connection) : Connection :=
  if c.receiveBinary then
    { c with
      handed := c.handed ++ [.cutShort (c.transferred ++ c.receiveBuffer.take (bytesToExtract c))]
      transferred := []
      receiveBuffer := c.receiveBuffer.drop (bytesToExtract c)
      connected := false }
  else { c with connected := false }

/-! ## Runs -/

inductive Event where
  /-- The socket delivers; with compression, a raw read inflates to so many octets. -/
  | arrive (count : Nat)
  /-- The completion of the pending read runs. -/
  | complete
  /-- The peer has closed, and everything is delivered. -/
  | peerClosed
  deriving DecidableEq, Repr

def step (p : Protocol) (c : Connection) : Event → Option Connection
  | .arrive count =>
    if c.connected = false ∨ completion c ≠ none ∨ c.toCome.length < count then none
    else if c.compressionReadEnabled then
      some { c with receiveBuffer := write c.receiveBuffer (c.toCome.take count), toCome := c.toCome.drop count }
    else if count = 0 ∨ readLimit c < count then none
    else some { c with receiveBuffer := c.receiveBuffer ++ c.toCome.take count, toCome := c.toCome.drop count }
  | .complete =>
    if c.connected = false then none
    else
      match completion c with
      | none => none
      | some .success => some (asyncReadCompleted p c)
      | some .notFound => some { c with connected := false }
  | .peerClosed =>
    if c.connected = false ∨ completion c ≠ none ∨ c.toCome ≠ [] then none else some (asyncReadClosed c)

def run (p : Protocol) : Connection → List Event → Option Connection
  | c, [] => some c
  | c, e :: rest => (step p c e).bind fun c => run p c rest

/-- The connection that waits for the first read of the protocol. -/
def start (p : Protocol) (compressionReadEnabled : Bool) (stream : List Byte) : Connection :=
  enqueueRead p { compressionReadEnabled := compressionReadEnabled, toCome := stream }

end HMailServer.Tcp
