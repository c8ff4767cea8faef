import HMailServer.Smtp.Connection.Envelope

/- DATA and BDAT (`SMTP/SMTPConnection.cpp`): how the content of a message gets
   into its file, and the task that accepts the message. -/
namespace HMailServer.Smtp
open RecipientParser DotStuffing

variable {W : Type} (srv : Server W)

/-- The most octets of a chunk that one read asks for. -/
def bdatReadPiece : Nat := 40000

/-- `Utilities::GetMimeHeader`: the header up to the first empty line. -/
def getMimeHeader : List Byte → Option (List Byte)
  | [] => none
  | c :: rest =>
    if [CR, LF, CR, LF].isPrefixOf (c :: rest) then some [CR, LF] else (getMimeHeader rest).map (c :: ·)

/-- The loop of `CheckLineEndings_`, with the octet in front. -/
def checkLineEndings : Byte → List Byte → Bool
  | prev, [] => prev != CR
  | prev, c :: rest =>
    if (prev == CR && c != LF) || (c == LF && prev != CR) then false else checkLineEndings c rest

namespace Connection

/-- `HandleUnableToSaveMessageDataFile_`. -/
def handleUnableToSaveMessageDataFile (c : Connection W) : Connection W :=
  c.sendResponse 451 "4.3.0" (wide "Rejected - No data saved.")

def mustHaveRecipient (c : Connection W) : Connection W :=
  c.sendResponse 503 "5.5.1" (wide "Must have sender and recipient first.")

/-- The message grew to `SMTPDMaxSizeDrop`. -/
def sizeDropped (c : Connection W) (size : Nat) : Bool :=
  decide (0 < srv.smtpdMaxSizeDrop c.world) && decide (srv.smtpdMaxSizeDrop c.world ≤ size / 1024)

def dropMessage (c : Connection W) (size : Nat) : Connection W :=
  ((c.sendResponse 552 "5.3.4" (wide "Message size exceeds the drop maximum message size. Size: " ++
      wide (toString (size / 1024)) ++ wide " KB, Max size: " ++
      wide (toString (srv.smtpdMaxSizeDrop c.world)) ++ wide " KB - DROP!")).resetCurrentMessage).disconnect

/-- An exception that leaves the read handler closes the session. -/
def readFault (c : Connection W) : Connection W := { c with reading := .closed }

/-- The accept task is put on the asynchronous queue. -/
def enqueueFinalization (c : Connection W) : Connection W :=
  if srv.asyncQueue c.world then { c with reading := .finalization }
  else
    { (c.sendResponse 451 "4.3.2"
        (wide "The server is shutting down and cannot accept the message. Please retry later.")) with
      reading := .nothing }

/-! ## BDAT -/

def bdatSize (token : WString) : Except String Nat :=
  if token = [] ∨ 18 < token.length then .error "Syntax error: invalid BDAT chunk-size."
  else if token.all fun ch => 48 ≤ ch && ch ≤ 57 then .ok (WString.digitsValue token)
  else .error "Syntax error: BDAT chunk-size must be a non-negative integer."

/-- The chunk-size and LAST; the error is the text of the 501. -/
def bdatParameters (request : WString) : Except String (Nat × Bool) :=
  let tokens := WString.splitString request 32
  if tokens.length < 2 ∨ 3 < tokens.length then .error "Syntax: BDAT chunk-size [LAST]"
  else match bdatSize (WString.trim srv.loc (tokens[1]?.getD [])) with
    | .error text => .error text
    | .ok size =>
      match tokens[2]? with
      | none => .ok (size, false)
      | some token =>
        if WString.makeUpper srv.loc (WString.trim srv.loc token) = wide "LAST" then .ok (size, true)
        else .error "Syntax: BDAT chunk-size [LAST]"

def readChunk (c : Connection W) : Connection W :=
  c.enqueueRead (.exact (min c.tx.bdatChunkRemaining bdatReadPiece))

/-- `StartBdatDiscard_`. -/
def startBdatDiscard (c : Connection W) (chunkSize : Nat) : Connection W :=
  if chunkSize = 0 then c
  else
    { c with
      tx := { c.tx with bdatDiscard := true, bdatChunkRemaining := chunkSize }
      state := .bdatData }.readChunk

/-- A piece of the chunk of a rejected BDAT. -/
def discardChunkData (c : Connection W) (data : List Byte) : Connection W :=
  let c := { c with tx := { c.tx with bdatChunkRemaining := c.tx.bdatChunkRemaining - data.length } }
  if 0 < c.tx.bdatChunkRemaining then c.readChunk
  else { c with tx := { c.tx with bdatDiscard := false }, state := .header }.enqueueRead .line

end Connection

namespace SMTPConnection

/-- `AppendMessageHeaders_`. -/
def appendMessageHeaders (s : SMTPConnection W) : SMTPConnection W :=
  match s.message, s.transmissionBuffer with
  | some m, some b =>
    if s.traceHeadersWritten then
      let r := srv.createHeaders s.client s.messageSubmission (s.ptrName.getD (wide "Unknown")) m
        (getMimeHeader b.buffer) s.world
      { s with
        world := r.2, transmissionBuffer := some { b with buffer := r.1 ++ b.buffer }, traceHeadersWritten := false }
    else s
  | _, _ => s

/-- `Flush` of the transmission buffer. -/
def flush (s : SMTPConnection W) (b : TransparentTransmissionBuffer) (force : Bool) : SMTPConnection W :=
  match b.flush (srv.transmission s.world) force with
  | .error _ => s.withConnection s.readFault
  | .ok r => { s with transmissionBuffer := some r.2 }

/-- `CompleteBdatMessage_`. -/
def completeBdatMessage (s : SMTPConnection W) : SMTPConnection W :=
  let s := s.appendMessageHeaders srv
  match s.transmissionBuffer with
  | none => s
  | some b =>
    let s := s.flush srv { b with transmissionEnded := true } true
    if s.reading = .closed then s else s.withConnection (s.enqueueFinalization srv)

/-- The first BDAT of a transaction opens the file. -/
def openBdat (s : SMTPConnection W) : SMTPConnection W :=
  if s.tx.bdatActive then s
  else
    { s with
      transmissionBuffer := some
        (({ isSending := false, binaryMode := true } : TransparentTransmissionBuffer).initializeFile.setMaxSizeKB
          s.tx.maxMessageSizeKB)
      tx := { s.tx with bdatActive := true }
      traceHeadersWritten := true }

/-- The chunk of an accepted BDAT is announced. -/
def startBdatChunk (s : SMTPConnection W) (chunkSize : Nat) (isLast : Bool) : SMTPConnection W :=
  let s := { s with tx := { s.tx with
    bdatLast := isLast, bdatChunkSize := chunkSize, bdatChunkRemaining := chunkSize } }
  if chunkSize = 0 then
    if isLast then { s with state := .bdatData }.completeBdatMessage srv
    else s.withConnection (s.sendResponse 250 "2.0.0" (wide "0 octets received"))
  else s.withConnection { s.toConnection with state := .bdatData }.readChunk

/-- `ProtocolBDAT_`. -/
def protocolBDAT (s : SMTPConnection W) (request : WString) : SMTPConnection W :=
  match Connection.bdatParameters srv request with
  | .error text => s.withConnection (s.sendResponse 501 "5.5.4" (wide text)).disconnect
  | .ok (chunkSize, isLast) =>
    if s.startTlsMissing srv then s.withConnection ((s.refuseWithoutStartTls srv).startBdatDiscard chunkSize)
    else match s.message with
      | none => s.withConnection (s.mustHaveRecipient.startBdatDiscard chunkSize)
      | some m =>
        if m.recipients = [] then s.withConnection (s.mustHaveRecipient.startBdatDiscard chunkSize)
        else if !s.tx.bdatActive && !srv.fileOpens m s.world then
          let c := { s.toConnection with transmissionBuffer := some { isSending := false, binaryMode := true } }
          s.withConnection (c.handleUnableToSaveMessageDataFile.startBdatDiscard chunkSize)
        else s.openBdat.startBdatChunk srv chunkSize isLast

/-- The end of `HandleBdatChunkData_`, behind the flush. -/
def finishBdatPiece (s : SMTPConnection W) : SMTPConnection W :=
  if s.reading = .closed then s
  else if 0 < s.tx.bdatChunkRemaining then s.withConnection s.readChunk
  else if s.tx.bdatLast then s.completeBdatMessage srv
  else
    let c := s.sendResponse 250 "2.0.0" (wide (toString s.tx.bdatChunkSize ++ " octets received"))
    s.withConnection ({ c with state := .header }.enqueueRead .line)

/-- `HandleBdatChunkData_`. -/
def handleBdatChunkData (s : SMTPConnection W) (data : List Byte) : SMTPConnection W :=
  if s.tx.bdatDiscard then s.withConnection (s.discardChunkData data)
  else match s.transmissionBuffer with
    | none => s
    | some b =>
      let b := b.append (srv.transmission s.world) data
      let s := { s with
        transmissionBuffer := some b
        tx := { s.tx with bdatChunkRemaining := s.tx.bdatChunkRemaining - data.length } }
      if s.sizeDropped srv b.getSize then s.withConnection (s.dropMessage srv b.getSize)
      else if b.getRequiresFlush then
        let s := s.appendMessageHeaders srv
        (s.flush srv (s.transmissionBuffer.getD b) false).finishBdatPiece srv
      else s.finishBdatPiece srv

/-! ## DATA -/

/-- DATA behind its checks: the file is opened, and the client may go on. -/
def startData (s : SMTPConnection W) (m : Message) : SMTPConnection W :=
  if srv.fileOpens m s.world then
    let b := ({ isSending := false } : TransparentTransmissionBuffer).initializeFile.setMaxSizeKB s.tx.maxMessageSizeKB
    let c := { s.toConnection with transmissionBuffer := some b, state := .data }
    { s.withConnection (c.enqueueWrite 354 (wide "OK, send.")) with traceHeadersWritten := true }
  else
    let c := { s.toConnection with transmissionBuffer := some { isSending := false } }
    s.withConnection c.handleUnableToSaveMessageDataFile

/-- `ProtocolDATA_`. -/
def protocolDATA (s : SMTPConnection W) : SMTPConnection W :=
  if s.startTlsMissing srv then s.withConnection (s.refuseWithoutStartTls srv)
  else if s.tx.bdatActive then
    s.withConnection (s.sendResponse 503 "5.5.1"
      (wide "Bad sequence of commands: BDAT already used in this transaction."))
  else match s.message with
    | none => s.withConnection s.mustHaveRecipient
    | some m =>
      if m.recipients = [] then s.withConnection s.mustHaveRecipient
      else if s.tx.binarymimeRequested then
        s.withConnection (s.sendResponse 503 "5.5.1"
          (wide "Bad sequence of commands: DATA is not permitted with BODY=BINARYMIME; use BDAT (RFC 3030)."))
      else
        let r := s.runScript srv .onSMTPData (some m)
        if r.1 then s.withConnection r.2 else (s.withConnection r.2).startData srv m

/-- The end of a read of DATA: more is read, or the message is complete. -/
def finishDataPiece (s : SMTPConnection W) (size : Nat) : SMTPConnection W :=
  match s.transmissionBuffer with
  | none => s
  | some b =>
    if !b.transmissionEnded then
      if s.sizeDropped srv size then s.withConnection (s.dropMessage srv size)
      else s.withConnection (s.enqueueRead .any)
    else
      let c := if b.endedOnNonStandardMarker then s.toConnection
        else { s.toConnection with pipelinedInput := b.surplusAfterTerminator.getD [] }
      s.withConnection (c.enqueueFinalization srv)

/-- `ParseData` in binary mode. -/
def parseBytes (s : SMTPConnection W) (data : List Byte) : SMTPConnection W :=
  if s.state = .bdatData then s.handleBdatChunkData srv data
  else match s.transmissionBuffer with
    | none => s
    | some b =>
      let b := b.append (srv.transmission s.world) data
      let s := { s with transmissionBuffer := some b }
      let s := if b.getRequiresFlush then s.appendMessageHeaders srv else s
      let s := s.flush srv (s.transmissionBuffer.getD b) false
      if s.reading = .closed then s else s.finishDataPiece srv b.getSize

end SMTPConnection

/-! ## The accept task -/

namespace Connection

/-- `ResumeCommandModeAfterData_`. -/
def resumeCommandModeAfterData (c : Connection W) : Connection W :=
  { c with injected := c.pipelinedInput, pipelinedInput := [] }.enqueueRead .line

/-- `FinalizationDeadlineExceeded_`, once it is. -/
def abandonFinalization (c : Connection W) : Connection W :=
  ((c.sendResponse 451 "4.3.1"
    (wide "Server temporarily overloaded while accepting the message; please retry.")).resetCurrentMessage
    ).resumeCommandModeAfterData

/-- `DoPreAcceptSpamProtection_`. -/
def doPreAcceptSpamProtection (c : Connection W) (m : Message) : Bool × Connection W :=
  if c.rejectedByDelayedGreyListing then (false, c.sendErrorResponse srv 450 (wide "Please try again later."))
  else if c.tx.type = .postTransmission then
    let origin := srv.originatingAddress (c.storedMessage m) c.world
    let r := c.doSpamProtection srv .preTransmission m.fromAddress origin.1 origin.2
    if !r.1 then r else r.2.doSpamProtection srv .postTransmission m.fromAddress origin.1 origin.2
  else c.doSpamProtection srv .postTransmission m.fromAddress c.heloHost c.remoteAddress

/-- `DoPreAcceptMessageModifications_`. -/
def doPreAcceptMessageModifications (c : Connection W) (m : Message) : StoredMessage × Connection W :=
  let score := calculateTotalSpamScore c.spamTestResults
  let classifiedAsSpam := decide (0 < srv.spamMarkThreshold c.world ∧ srv.spamMarkThreshold c.world ≤ score)
  let m := if classifiedAsSpam then { m with flagSpam := true } else m
  let r := srv.modifyMessage c.client (c.storedMessage m) c.spamTestResults c.authenticationResults
    c.tx.senderDomain c.tx.senderAccount c.world
  (⟨m, r.1⟩, { c with world := r.2, message := some m })

/-- `OnPreAcceptTransfer_`: the message as it is to be saved, if it is. -/
def onPreAcceptTransfer (c : Connection W) (b : TransparentTransmissionBuffer) (stored : StoredMessage) :
    Option StoredMessage × Connection W :=
  if b.cancelTransmission then (none, c.sendResponse 554 "5.7.1" (wide b.cancelMessage))
  else if b.writeFailed || !srv.fileExists stored.message c.world then (none, c.handleUnableToSaveMessageDataFile)
  else if 0 < c.tx.maxMessageSizeKB ∧ c.tx.maxMessageSizeKB < b.getSize / 1024 then
    (none, c.sendResponse 552 "5.3.4" (wide "Rejected - Message size exceeds fixed maximum message size. Size: " ++
      wide (toString (b.getSize / 1024)) ++ wide " KB, Max size: " ++ wide (toString c.tx.maxMessageSizeKB) ++
      wide " KB"))
  else if !c.tx.binarymimeRequested && !(srv.transmission c.world).allowIncorrectLineEndings &&
      !checkLineEndings 0 stored.content then
    (none, c.sendResponse 554 "5.6.0" (wide "Rejected - Message containing bare LF's."))
  else
    let e := srv.onAcceptMessage c.client stored c.world
    let r := { c with world := e.2 }.answerScript e.1.1
    if r.1 then (none, r.2)
    else
      (some (if c.securityRange.virusProtection then
          { e.1.2 with message := { e.1.2.message with flagVirusScan := true } } else e.1.2), r.2)

/-- The message is saved: what `SaveObject` succeeding changes. -/
def messageSaved (c : Connection W) (stored : StoredMessage) : Connection W :=
  let w := srv.messageAccepted stored c.world
  { ({ c with
      world := w, transmissionBuffer := none, message := none, spamTestResults := [], authenticationResults := none
      stored := c.stored ++ [stored] }.sendResponse 250 "2.0.0" (srv.queuedText w)) with state := .header }

/-- `SaveObject` and its outcome. -/
def saveMessage (c : Connection W) (stored : StoredMessage) : Connection W :=
  let r := srv.saveObject stored c.world
  if r.1 then { c with world := r.2 }.messageSaved srv stored
  else
    ({ c with world := r.2 }.sendResponse 451 "4.3.0"
      (wide "Your message was received but it could not be saved. Please retry later.")).resetCurrentMessage

/-- The accept task behind the spam protection. -/
def acceptMessage (c : Connection W) (m : Message) (b : TransparentTransmissionBuffer) : Connection W :=
  let e := c.doPreAcceptMessageModifications srv m
  let c := { e.2 with world := srv.archive e.1 (e.2.getIsLocalSender srv m.fromAddress) e.2.world }
  if srv.deadlineExceeded c.world then c.abandonFinalization
  else match c.onPreAcceptTransfer srv b e.1 with
    | (none, c) => c.resetCurrentMessage.resumeCommandModeAfterData
    | (some stored, c) => (c.saveMessage srv stored).resumeCommandModeAfterData

/-- `HandleSMTPFinalizationTaskCompleted_`. -/
def finalize (c : Connection W) : Connection W :=
  match c.message, c.transmissionBuffer with
  | some m, some b =>
    if srv.deadlineExceeded c.world then c.abandonFinalization
    else
      let r := c.doPreAcceptSpamProtection srv m
      if !r.1 then r.2.resetCurrentMessage.resumeCommandModeAfterData else r.2.acceptMessage srv m b
  | _, _ => c

end Connection
end HMailServer.Smtp
