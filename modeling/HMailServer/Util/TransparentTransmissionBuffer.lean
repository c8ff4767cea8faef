import HMailServer.Lib.DotStuffing

/- The layer between a protocol session and its socket or spool file
   (`Common/Util/TransparentTransmissionBuffer.cpp`). Bytes are appended as they
   arrive; the end-of-data marker is searched for across segment boundaries;
   `flush` moves whole lines out of the buffer, stuffed towards the socket or
   unstuffed towards the file. Everything the class carries between two calls is
   a field here, and so is what it has produced: the bytes in the spool file and
   the buffers handed to `EnqueueWrite`. -/
namespace HMailServer
open DotStuffing

/-- What the class reads from outside: two settings, the fault injection, and
the outcomes of `fwrite` and of the configured fsync. -/
structure TransmissionEnvironment where
  allowIncorrectLineEndings : Bool
  messageStoreFsync : Bool
  simulateSpoolWriteFailure : Nat
  /-- Bytes `fwrite` stores of the second argument, onto a file holding the first. -/
  fwrite : List Byte → List Byte → Nat
  flushToDisk : Bool

structure TransparentTransmissionBuffer where
  isSending : Bool
  binaryMode : Bool := false
  transmissionEnded : Bool := false
  lastSendEndedWithNewline : Bool := false
  previousChunkEndedWithCarriageReturn : Bool := false
  previousChunkEndedWithNewline : Bool := true
  endedOnNonStandardMarker : Bool := false
  dataSent : Nat := 0
  maxSizeKB : Nat := 0
  cancelTransmission : Bool := false
  cancelMessage : String := ""
  writeFailed : Bool := false
  writesCompleted : Nat := 0
  buffer : List Byte := []
  flushedTail : Byte × Byte := (CR, LF)
  surplusAfterTerminator : Option (List Byte) := none
  fileIsOpen : Bool := false
  /-- Whether `tcp_connection_.lock()` still finds the connection. -/
  connectionAlive : Bool := false
  spool : List Byte := []
  enqueued : List (List Byte) := []

/-- `std::logic_error` of a write to a file that is not open. -/
inductive TransmissionFault where
  | fileNotOpen
  deriving DecidableEq, Repr

namespace TransparentTransmissionBuffer

/-- `Limits::MAX_LINE_LENGTH`. -/
def maxLineLength : Nat := 100000

def resetPerTransferState (b : TransparentTransmissionBuffer) : TransparentTransmissionBuffer :=
  { b with
    dataSent := 0, transmissionEnded := false, endedOnNonStandardMarker := false,
    surplusAfterTerminator := none, previousChunkEndedWithNewline := true,
    previousChunkEndedWithCarriageReturn := false, lastSendEndedWithNewline := false,
    flushedTail := (CR, LF) }

/-- `Initialize(weak_ptr<TCPConnection>)`. -/
def initializeConnection (b : TransparentTransmissionBuffer) : TransparentTransmissionBuffer :=
  resetPerTransferState { b with connectionAlive := true }

/-- `Initialize(const String &)`, when the spool file could be opened. -/
def initializeFile (b : TransparentTransmissionBuffer) : TransparentTransmissionBuffer :=
  resetPerTransferState { b with fileIsOpen := true }

def setMaxSizeKB (b : TransparentTransmissionBuffer) (maxSize : Nat) :
    TransparentTransmissionBuffer := { b with maxSizeKB := maxSize }

/-! ## Append -/

/-- The byte `offset` positions before `index`, reaching into what `flush`
already removed. -/
def byteBefore (buffer : List Byte) (flushedTail : Byte × Byte) (index offset : Nat) : Byte :=
  if offset ≤ index then buffer.getD (index - offset) 0
  else if offset - index = 1 then flushedTail.2 else flushedTail.1

/-- A recognised marker: where its dot is, the length of the dot and its
newline, and whether the spelling is a bare-LF one. -/
structure Marker where
  dotPosition : Nat
  terminatorLength : Nat
  nonStandardMarker : Bool
  deriving DecidableEq, Repr

/-- One turn of the search loop: the marker whose dot is at index `i`, if any. -/
def markerAt (allowBareLineFeed : Bool) (buffer : List Byte) (flushedTail : Byte × Byte)
    (i : Nat) : Option Marker :=
  let iSize := buffer.length
  if buffer.getD i 0 ≠ DOT then none
  else if byteBefore buffer flushedTail i 1 ≠ LF then none
  else
    let leftIsBare := byteBefore buffer flushedTail i 2 != CR
    let rightIsCrlf := decide (i + 2 < iSize) && buffer.getD (i + 1) 0 == CR &&
      buffer.getD (i + 2) 0 == LF
    let rightIsBareLf := !rightIsCrlf && decide (i + 1 < iSize) && buffer.getD (i + 1) 0 == LF
    if !rightIsCrlf && !rightIsBareLf then none
    else
      let isBare := leftIsBare || rightIsBareLf
      if isBare && !allowBareLineFeed then none
      else
        let candidateLength := if rightIsCrlf then 3 else 2
        -- a bare spelling counts only at the very end of what was received
        if isBare && i + candidateLength != iSize then none
        else some ⟨i, candidateLength, isBare⟩

/-- The search over `i = scanFrom, …, iSize - 1`, stopping at the first hit. -/
def findMarker (allowBareLineFeed : Bool) (buffer : List Byte) (flushedTail : Byte × Byte)
    (scanFrom : Nat) : Option Marker :=
  (List.range' scanFrom (buffer.length - scanFrom)).findSome?
    (markerAt allowBareLineFeed buffer flushedTail)

/-- End the transmission on a marker: keep the surplus, trim the buffer to the
message content and take the rest out of the size. -/
def endOnMarker (b : TransparentTransmissionBuffer) (m : Marker) : TransparentTransmissionBuffer :=
  let iSize := b.buffer.length
  let surplusStart := m.dotPosition + m.terminatorLength
  let surplusLength := iSize - surplusStart
  let notMessageContent := m.terminatorLength + surplusLength
  { b with
    surplusAfterTerminator :=
      if surplusLength > 0 then some (b.buffer.drop surplusStart) else b.surplusAfterTerminator
    buffer := b.buffer.take m.dotPosition
    dataSent := if b.dataSent > notMessageContent then b.dataSent - notMessageContent else 0
    transmissionEnded := true
    endedOnNonStandardMarker := m.nonStandardMarker }

def append (env : TransmissionEnvironment) (b : TransparentTransmissionBuffer)
    (data : List Byte) : TransparentTransmissionBuffer :=
  if data.length = 0 then b
  else
    let b := { b with dataSent := b.dataSent + data.length, buffer := b.buffer ++ data }
    if 2 ≤ b.buffer.length ∧ b.isSending = false ∧ b.binaryMode = false then
      let previousSize := b.buffer.length - data.length
      let scanFrom := if previousSize > 4 then previousSize - 4 else 0
      match findMarker env.allowIncorrectLineEndings b.buffer b.flushedTail scanFrom with
      | none => b
      | some m => b.endOnMarker m
    else b

/-! ## Flush -/

def getRequiresFlush (b : TransparentTransmissionBuffer) : Bool :=
  decide (b.buffer.length > 40000) || b.transmissionEnded

/-- `GetSize()`. -/
def getSize (b : TransparentTransmissionBuffer) : Nat := b.dataSent

/-- The loop of `InsertTransmissionPeriod_`; the byte before is `none` at index 0. -/
def insertPeriods (previousChunkEndedWithNewline : Bool) : Option Byte → List Byte → List Byte
  | _, [] => []
  | prev, c :: rest =>
    let atLineStart := match prev with
      | none => previousChunkEndedWithNewline
      | some p => p == LF
    if c == DOT && atLineStart then
      DOT :: c :: insertPeriods previousChunkEndedWithNewline (some c) rest
    else c :: insertPeriods previousChunkEndedWithNewline (some c) rest

def insertTransmissionPeriod (b : TransparentTransmissionBuffer) (out : List Byte) :
    TransparentTransmissionBuffer × List Byte :=
  ({ b with previousChunkEndedWithNewline := out.getLast? == some LF },
    insertPeriods b.previousChunkEndedWithNewline none out)

/-- The loop of `RemoveTransmissionPeriod_`, with the bare-LF repair. -/
def removePeriods (repairBareLineFeeds previousChunkEndedWithNewline
    previousChunkEndedWithCarriageReturn : Bool) : Option Byte → List Byte → List Byte
  | _, [] => []
  | prev, c :: rest =>
    let atLineStart := match prev with
      | none => previousChunkEndedWithNewline
      | some p => p == LF
    let precededByCarriageReturn := match prev with
      | none => previousChunkEndedWithCarriageReturn
      | some p => p == CR
    let tail := removePeriods repairBareLineFeeds previousChunkEndedWithNewline
      previousChunkEndedWithCarriageReturn (some c) rest
    if c == DOT && atLineStart then tail
    else if repairBareLineFeeds && c == LF && !precededByCarriageReturn then CR :: c :: tail
    else c :: tail

def removeTransmissionPeriod (env : TransmissionEnvironment) (b : TransparentTransmissionBuffer)
    (out : List Byte) : TransparentTransmissionBuffer × List Byte :=
  ({ b with
      previousChunkEndedWithCarriageReturn := out.getLast? == some CR
      previousChunkEndedWithNewline := out.getLast? == some LF },
    removePeriods (!b.isSending && env.allowIncorrectLineEndings)
      b.previousChunkEndedWithNewline b.previousChunkEndedWithCarriageReturn none out)

/-- The fault injection of `SaveToFile_`: mode 1 fails every write of received
data, mode 2 every write but the first. -/
def simulateFailure (env : TransmissionEnvironment) (b : TransparentTransmissionBuffer) : Bool :=
  let simulationMode := if b.isSending then 0 else env.simulateSpoolWriteFailure
  simulationMode == 1 || (simulationMode == 2 && decide (b.writesCompleted > 0))

/-- `SaveToFile_`. Its result is read by no caller, so only the state is kept. -/
def saveToFile (env : TransmissionEnvironment) (b : TransparentTransmissionBuffer)
    (data : List Byte) : Except TransmissionFault TransparentTransmissionBuffer :=
  if b.maxSizeKB > 0 ∧ b.dataSent / 1024 > b.maxSizeKB then .ok b
  else if b.cancelTransmission then .ok b
  else
    if b.simulateFailure env then .ok { b with writeFailed := true }
    else if !b.fileIsOpen then .error .fileNotOpen
    else
      let noOfBytesWritten := min (env.fwrite b.spool data) data.length
      let b := { b with spool := b.spool ++ data.take noOfBytesWritten }
      if noOfBytesWritten ≠ data.length then .ok { b with writeFailed := true }
      else .ok { b with writesCompleted := b.writesCompleted + 1 }

/-- Close the spool file at the end of a transmission, after the configured fsync. -/
def closeIfEnded (env : TransmissionEnvironment) (sync : Bool)
    (b : TransparentTransmissionBuffer) : TransparentTransmissionBuffer :=
  let closing := b.transmissionEnded && b.fileIsOpen
  { b with
    writeFailed := b.writeFailed || (closing && sync && env.messageStoreFsync && !env.flushToDisk)
    fileIsOpen := b.fileIsOpen && !closing }

/-- The search of `Flush` for the last newline, from the end of the buffer
down to `searchEndPos`; a forced flush takes the first position it looks at. -/
def findCut (buffer : List Byte) (force : Bool) (searchEndPos : Nat) : Nat → Option Nat
  | 0 => none
  | pos + 1 =>
    if pos + 1 > searchEndPos then
      if buffer.getD pos 0 == LF || force then some (pos + 1)
      else findCut buffer force searchEndPos pos
    else none

/-- What the last two flushed bytes are after `bytesToCopy` more leave. -/
def nextTail (buffer : List Byte) (tail : Byte × Byte) (bytesToCopy : Nat) : Byte × Byte :=
  if 2 ≤ bytesToCopy then (buffer.getD (bytesToCopy - 2) 0, buffer.getD (bytesToCopy - 1) 0)
  else if bytesToCopy = 1 then (tail.2, buffer.getD 0 0)
  else tail

/-- Move the first `bytesToCopy` bytes out of the buffer, to the socket or the file. -/
def flushOut (env : TransmissionEnvironment) (b : TransparentTransmissionBuffer)
    (bytesToCopy : Nat) : Except TransmissionFault TransparentTransmissionBuffer :=
  let out := b.buffer.take bytesToCopy
  let b := { b with
    lastSendEndedWithNewline := b.buffer.getD (bytesToCopy - 1) 0 == LF
    flushedTail := nextTail b.buffer b.flushedTail bytesToCopy
    buffer := b.buffer.drop bytesToCopy }
  if b.isSending then
    let r := b.insertTransmissionPeriod out
    .ok (if r.1.connectionAlive then { r.1 with enqueued := r.1.enqueued ++ [r.2] } else r.1)
  else
    let r := b.removeTransmissionPeriod env out
    r.1.saveToFile env r.2

/-- `Flush` in BDAT's byte-transparent mode. -/
def flushBinary (env : TransmissionEnvironment) (b : TransparentTransmissionBuffer) :
    Except TransmissionFault (Bool × TransparentTransmissionBuffer) := do
  if 0 < b.buffer.length then
    let b ← { b with buffer := [] }.saveToFile env b.buffer
    return (true, b.closeIfEnded env true)
  else return (false, b.closeIfEnded env true)

def tooLongLineMessage : String := "Too long line was received. Transmission aborted."

/-- A buffer over the line limit cancels the transmission. -/
def checkLineLength (b : TransparentTransmissionBuffer) : TransparentTransmissionBuffer :=
  let tooLong := decide (b.buffer.length > maxLineLength)
  { b with
    cancelTransmission := b.cancelTransmission || tooLong
    cancelMessage := if tooLong then tooLongLineMessage else b.cancelMessage }

/-- `Flush(bForce)`: whether data was processed, and the state after. -/
def flush (env : TransmissionEnvironment) (b : TransparentTransmissionBuffer) (force : Bool) :
    Except TransmissionFault (Bool × TransparentTransmissionBuffer) :=
  if !b.getRequiresFlush && !force then .ok (false, b)
  else if b.binaryMode then b.flushBinary env
  else
    let force := force || decide (b.buffer.length > maxLineLength)
    let b := b.checkLineLength
    let bufferSize := b.buffer.length
    let searchEndPos := if bufferSize > maxLineLength then bufferSize - maxLineLength else 0
    match findCut b.buffer force searchEndPos bufferSize with
    | none => .ok (false, b.closeIfEnded env (!b.isSending))
    | some bytesToCopy => do
      let b ← b.flushOut env bytesToCopy
      return (true, b.closeIfEnded env (!b.isSending))

end TransparentTransmissionBuffer
end HMailServer
