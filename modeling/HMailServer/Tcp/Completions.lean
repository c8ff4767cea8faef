import HMailServer.Tcp.OperationQueue

/- The completion handlers of a connection, `TCPIP/TCPConnection.cpp`, over its
   operation queue. What is still to run in the strand is a stack of code; an
   exception unwinds it. The bytes are left out: whether a compressed read has
   what it asked for, a deflater or a handshake's set-up fails, and what the
   protocol's own handlers do, is chosen by the run. -/
namespace HMailServer.Tcp.Completions

open OperationQueue

/-- `IOOperation`; `id` is the object's identity. -/
structure IOOperation where
  id : Nat
  type : OperationType
  enablesCompression : Bool := false
  deriving DecidableEq, Repr

inductive ConnectionState where
  | pendingConnect
  | connected
  | pendingDisconnect
  | disconnected
  deriving DecidableEq, Repr

/-- The exceptions the handlers tell apart. -/
inductive Exception where
  | disconnected
  | other
  deriving DecidableEq, Repr

/-- What an asynchronous call reports. -/
inductive ErrorCode where
  | success
  | eof
  | notFound
  | other
  deriving DecidableEq, Repr

/-- The virtual functions of the deriving class that run in the strand. -/
inductive Handler where
  | onConnected
  | parseData
  | onReadError
  | onExcessiveDataReceived
  | onDataSent
  | onHandshakeCompleted
  | onHandshakeFailed
  | onConnectionTimeout
  deriving DecidableEq, Repr

/-- What the deriving class may call. -/
inductive Api where
  | enqueue (type : OperationType)
  | enqueueDisconnect
  | enableCompression
  | setReceiveBinary (binary : Bool)
  deriving DecidableEq, Repr

/-- A statement that has not run yet. `pop` names the operation it is meant to
    retire; `left` stands where a completion handler returns to the strand. -/
inductive Code where
  | processOperationQueue (level : Nat)
  | pop (operation : IOOperation)
  | enqueueDisconnect
  | call (handler : Handler)
  | endTry (operation : IOOperation)
  | rethrow (exception : Exception)
  | asyncReadCompleted (operation : IOOperation) (error : ErrorCode)
  | asyncCompressedReadCompleted (operation : IOOperation) (error : ErrorCode)
  | asyncWriteCompleted (operation : IOOperation) (error : ErrorCode)
  | asyncHandshakeCompleted (operation : IOOperation) (error : ErrorCode)
  | asyncDelayCompleted (operation : IOOperation)
  | left (operation : IOOperation)
  deriving DecidableEq, Repr

/-- How a compressed read goes on. -/
inductive Inflated where
  | unreadable
  | satisfied
  | full
  | more
  deriving DecidableEq, Repr

/-- What the code outside this file decides at a step. -/
inductive Choice where
  | goes
  | fails
  | inflated (result : Inflated)
  | calls (api : Api)
  | throws (exception : Exception)
  deriving DecidableEq, Repr

structure Connection where
  operationQueue : IOOperationQueue IOOperation := {}
  connectionState : ConnectionState := .pendingConnect
  handshakeInProgress : Bool := false
  receiveBinary : Bool := false
  compressionReadEnabled : Bool := false
  compressionWriteEnabled : Bool := false
  enableWriteCompressionOnCompletion : Bool := false
  /-- The next object's identity. -/
  nextId : Nat := 0
  /-- The operations with an asynchronous call under way. -/
  underWay : List IOOperation := []
  /-- What `Pop` has removed. -/
  popped : List IOOperation := []
  /-- The operations whose completion handler has returned or thrown. -/
  finished : List IOOperation := []
  deriving DecidableEq, Repr

/-! ## The functions of the connection -/

def Connection.push (c : Connection) (type : OperationType) (enables : Bool) : Connection :=
  { c with
    operationQueue := OperationQueue.push c.operationQueue ⟨c.nextId, type, enables⟩
    nextId := c.nextId + 1 }

/-- `operation_queue_.Pop`, with what it removed. -/
def Connection.pop (c : Connection) (type : OperationType) : Connection :=
  { c with
    operationQueue := (OperationQueue.pop IOOperation.type c.operationQueue type).1
    popped := (c.operationQueue.ongoingOperations.find? fun oper => oper.type == type).toList ++ c.popped }

def Connection.starts (c : Connection) (operation : IOOperation) : Connection :=
  { c with underWay := c.underWay ++ [operation] }

/-- How a statement ends: with code to run first, or with an exception. -/
inductive Outcome where
  | runs (code : List Code)
  | raises (exception : Exception)
  deriving DecidableEq, Repr

def asyncHandshake (c : Connection) (operation : IOOperation) (choice : Choice) : Connection × Outcome :=
  if choice = .fails then
    -- HandshakeFailed_ with the operation to retire
    ({ c with handshakeInProgress := false },
      .runs [.call .onHandshakeFailed, .pop operation, .enqueueDisconnect, .left operation])
  else ({ c with handshakeInProgress := true }.starts operation, .runs [])

def asyncWrite (c : Connection) (operation : IOOperation) (choice : Choice) : Connection × Outcome :=
  if c.compressionWriteEnabled = true ∧ choice = .fails then
    (c, .runs [.asyncWriteCompleted operation .other])
  else (c.starts operation, .runs [])

/-- `ProcessOperationQueue_`; its last call to itself is the next statement. -/
def processOperationQueue (c : Connection) (level : Nat) (choice : Choice) : Connection × Outcome :=
  if 10 < level then (c, .raises .other)
  else
    let c' := { c with operationQueue := (front IOOperation.type c.operationQueue).2 }
    match (front IOOperation.type c.operationQueue).1 with
    | none => (c, .runs [])
    | some operation =>
      match operation.type with
      | .handshake => asyncHandshake c' operation choice
      | .write =>
        asyncWrite (if operation.enablesCompression then { c' with enableWriteCompressionOnCompletion := true } else c')
          operation choice
      | .read => (c'.starts operation, .runs [.processOperationQueue (level + 1)])
      | .delay => (c'.starts operation, .runs [])
      | .shutdownSend => (c', .runs [.pop operation, .processOperationQueue (level + 1)])
      | .disconnect =>
        ({ c' with connectionState := .disconnected }, .runs [.pop operation, .processOperationQueue (level + 1)])

def enqueueDisconnect (c : Connection) : Connection × List Code :=
  if c.connectionState ≠ .connected then (c, [])
  else ({ c with connectionState := .pendingDisconnect }.push .disconnect false, [.processOperationQueue 0])

/-- A call of the deriving class; one to queue something throws in a connection
    that is not connected. -/
def callApi (c : Connection) (choice : Choice) : Api → Connection × Outcome
  | .enqueue type =>
    if c.connectionState ≠ .connected then (c, .raises .disconnected)
    else (c.push type false, .runs [.processOperationQueue 0])
  | .enqueueDisconnect => ((enqueueDisconnect c).1, .runs (enqueueDisconnect c).2)
  | .enableCompression =>
    if c.compressionReadEnabled = true ∨ choice = .fails then (c, .runs [])
    else if c.connectionState ≠ .connected then (c, .raises .disconnected)
    else ({ c with compressionReadEnabled := true }.push .write true, .runs [.processOperationQueue 0])
  | .setReceiveBinary binary => ({ c with receiveBinary := binary }, .runs [])

def asyncReadCompleted (c : Connection) (operation : IOOperation) (error : ErrorCode) : List Code :=
  let last := [Code.pop operation] ++ (if error = .eof then [Code.enqueueDisconnect] else []) ++
    [Code.processOperationQueue 0, .left operation]
  if (error ≠ .success ∧ c.receiveBinary = false) ∨ (error ≠ .success ∧ error ≠ .eof ∧ c.receiveBinary = true) then
    if c.connectionState ≠ .connected then [.pop operation, .processOperationQueue 0, .left operation]
    else [Code.call .onReadError] ++ (if error = .notFound then [Code.call .onExcessiveDataReceived] else []) ++
      [Code.enqueueDisconnect] ++ last
  else [Code.call .parseData, .endTry operation] ++ last

/-- The `catch` clauses around `ParseData`. -/
def parseDataThrew (operation : IOOperation) : Exception → List Code
  | .disconnected => [.pop operation, .rethrow .disconnected]
  | .other => [.pop operation, .enqueueDisconnect, .rethrow .other]

def asyncCompressedReadCompleted (c : Connection) (operation : IOOperation) (error : ErrorCode) (choice : Choice) :
    Connection × List Code :=
  if error ≠ .success then (c, [.asyncReadCompleted operation error])
  else match choice with
    | .inflated .satisfied => (c, [.asyncReadCompleted operation .success])
    | .inflated .full => (c, [.asyncReadCompleted operation .notFound])
    -- StartCompressedRead_ again: the read is not complete
    | .inflated .more => (c.starts operation, [])
    | _ => (c, [.pop operation, .enqueueDisconnect, .left operation])

def containsQueuedSendOperation (q : IOOperationQueue IOOperation) : Bool :=
  q.queueOperations.any fun operation => operation.type == .write

def asyncWriteCompleted (c : Connection) (operation : IOOperation) (error : ErrorCode) : Connection × List Code :=
  let last := [Code.pop operation, .processOperationQueue 0, .left operation]
  if error ≠ .success then
    if c.connectionState ≠ .connected then (c, [.left operation])
    else (c, [Code.enqueueDisconnect] ++ last)
  else
    (if c.enableWriteCompressionOnCompletion then
        { c with enableWriteCompressionOnCompletion := false, compressionWriteEnabled := true }
      else c,
      (if containsQueuedSendOperation c.operationQueue then [] else [Code.call .onDataSent]) ++ last)

def asyncHandshakeCompleted (c : Connection) (operation : IOOperation) (error : ErrorCode) : Connection × List Code :=
  ({ c with handshakeInProgress := false },
    (if error = .success then [Code.call .onHandshakeCompleted]
      -- HandshakeFailed_ with nothing to retire
      else [Code.call .onHandshakeFailed, .enqueueDisconnect]) ++
    [Code.pop operation, .processOperationQueue 0, .left operation])

def asyncDelayCompleted (operation : IOOperation) : List Code :=
  [.pop operation, .processOperationQueue 0, .left operation]

/-! ## Running -/

structure Strand where
  connection : Connection := {}
  code : List Code := []
  raised : Option Exception := none
  deriving DecidableEq, Repr

def Strand.idle (s : Strand) : Prop := s.code = [] ∧ s.raised = none

instance (s : Strand) : Decidable s.idle := inferInstanceAs (Decidable (_ ∧ _))

/-- The first statement of the stack. -/
def execute (c : Connection) (choice : Choice) (rest : List Code) : Code → Strand
  | .processOperationQueue level => settle (processOperationQueue c level choice) rest
  | .pop operation => ⟨c.pop operation.type, rest, none⟩
  | .enqueueDisconnect => ⟨(enqueueDisconnect c).1, (enqueueDisconnect c).2 ++ rest, none⟩
  | .call handler =>
    match choice with
    | .calls api => settle (callApi c .goes api) (.call handler :: rest)
    | .throws exception => ⟨c, rest, some exception⟩
    | .fails => settle (callApi c .fails .enableCompression) (.call handler :: rest)
    | _ => ⟨c, rest, none⟩
  | .endTry _ => ⟨c, rest, none⟩
  | .rethrow exception => ⟨c, rest, some exception⟩
  | .asyncReadCompleted operation error => ⟨c, asyncReadCompleted c operation error ++ rest, none⟩
  | .asyncCompressedReadCompleted operation error =>
    ⟨(asyncCompressedReadCompleted c operation error choice).1,
      (asyncCompressedReadCompleted c operation error choice).2 ++ rest, none⟩
  | .asyncWriteCompleted operation error =>
    ⟨(asyncWriteCompleted c operation error).1, (asyncWriteCompleted c operation error).2 ++ rest, none⟩
  | .asyncHandshakeCompleted operation error =>
    ⟨(asyncHandshakeCompleted c operation error).1, (asyncHandshakeCompleted c operation error).2 ++ rest, none⟩
  | .asyncDelayCompleted operation => ⟨c, asyncDelayCompleted operation ++ rest, none⟩
  | .left operation => ⟨{ c with finished := operation :: c.finished }, rest, none⟩
where
  settle (result : Connection × Outcome) (rest : List Code) : Strand :=
    match result.2 with
    | .runs code => ⟨result.1, code ++ rest, none⟩
    | .raises exception => ⟨result.1, rest, some exception⟩

/-- An exception at the first statement of the stack: the `catch` clauses run, a
    handler of the deriving class may catch, and all else is left. -/
def unwind (c : Connection) (exception : Exception) (choice : Choice) : List Code → Strand
  | [] => ⟨c, [], none⟩
  | .endTry operation :: rest => ⟨c, parseDataThrew operation exception ++ rest, none⟩
  | .call handler :: rest =>
    if choice = .goes then ⟨c, .call handler :: rest, none⟩ else ⟨c, rest, some exception⟩
  | .left operation :: rest => ⟨{ c with finished := operation :: c.finished }, rest, some exception⟩
  | _ :: rest => ⟨c, rest, some exception⟩

inductive Act where
  /-- `Start`. -/
  | start
  /-- An asynchronous call completes; `inflates` when it read compressed bytes. -/
  | completes (operation : IOOperation) (error : ErrorCode) (inflates : Bool)
  | timeout
  | sessionCeilingReached
  /-- `DispatchOperationQueue_` of another thread. -/
  | dispatched
  /-- Another thread has queued an operation. -/
  | pushed (type : OperationType) (enables : Bool)
  /-- Another thread's `EnqueueDisconnect` has set the state. -/
  | disconnecting
  | goes (choice : Choice)
  deriving DecidableEq, Repr

/-- The handler that `boost::asio` calls. -/
def completion (operation : IOOperation) (error : ErrorCode) (inflates : Bool) : Option Code :=
  match operation.type with
  | .read =>
    some (if inflates then .asyncCompressedReadCompleted operation error else .asyncReadCompleted operation error)
  | .write => some (.asyncWriteCompleted operation error)
  | .handshake => some (.asyncHandshakeCompleted operation error)
  | .delay => some (.asyncDelayCompleted operation)
  | .shutdownSend | .disconnect => none

/-- One step. The strand takes up something new only when it is idle; the queue
    is open to other threads at any time. -/
def step (s : Strand) : Act → Option Strand
  | .start =>
    if s.idle ∧ s.connection.connectionState = .pendingConnect then
      some ⟨{ s.connection with connectionState := .connected }, [.call .onConnected], none⟩
    else none
  | .completes operation error inflates =>
    if s.idle ∧ operation ∈ s.connection.underWay ∧ (inflates = true → s.connection.compressionReadEnabled = true) then
      (completion operation error inflates).map fun code =>
        ⟨{ s.connection with underWay := s.connection.underWay.erase operation }, [code], none⟩
    else none
  | .timeout =>
    if s.idle then
      some (if s.connection.connectionState ≠ .connected ∨ s.connection.handshakeInProgress = true then
          { s with connection := { s.connection with connectionState := .disconnected } }
        else { s with code := [.call .onConnectionTimeout, .enqueueDisconnect] })
    else none
  | .sessionCeilingReached =>
    if s.idle then some { s with connection := { s.connection with connectionState := .disconnected } } else none
  | .dispatched => if s.idle then some { s with code := [.processOperationQueue 0] } else none
  | .pushed type enables => some { s with connection := s.connection.push type enables }
  | .disconnecting => some { s with connection := { s.connection with connectionState := .pendingDisconnect } }
  | .goes choice =>
    match s.raised, s.code with
    | some exception, code => some (unwind s.connection exception choice code)
    | none, [] => none
    | none, first :: rest => some (execute s.connection choice rest first)

end HMailServer.Tcp.Completions
