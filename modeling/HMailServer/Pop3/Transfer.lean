import Mathlib
import HMailServer.Lib.Lines
import HMailServer.Persistence.MessageFile
import HMailServer.Pop3.Connection
import HMailServer.Smtp.DotTransparency

/- The bytes of RETR and of TOP (`ReadAndSend_`, `SendFileHeader_` and what
   follows them in `POP3/POP3Connection.cpp`). RETR reads the message file in
   chunks and hands them to a sending transmission buffer; TOP reads it line by
   line with `fgets` and puts in the dots itself. -/
namespace HMailServer.Pop3
open AnsiString DotStuffing TransparentTransmissionBuffer

/-- The lone dot at the end of a response. -/
def lastLine : AnsiString := [DOT, CR, LF]

/-! ## RETR -/

/-- The chunks of `ReadChunk`, each with an attempt to flush, and the last
    flush. -/
def retrCalls (bufferSize : Nat) (status file : AnsiString) : List SendCall :=
  .append (status ++ crlf) ::
    (Persistence.reads bufferSize file).flatMap fun chunk => [.append (chunk.getD []), .flush false]

/-- `StartSendFile_` and `ReadAndSend_`. -/
def retrResponse (env : TransmissionEnvironment) (bufferSize : Nat) (status file : AnsiString) :
    Except TransmissionFault AnsiString := do
  let b ← send env sender (retrCalls bufferSize status file ++ [.flush true])
  return b.enqueued.flatten ++ (if b.lastSendEndedWithNewline then [] else crlf) ++ lastLine

/-! ## TOP -/

/-- `fgets` with room for `room` characters. -/
def fgets : Nat → AnsiString → AnsiString × AnsiString
  | 0, file => ([], file)
  | _, [] => ([], [])
  | room + 1, c :: file => if c = LF then ([c], file) else (c :: (fgets room file).1, (fgets room file).2)

/-- The characters `ReadLine` reads at most: its buffer without the NUL. -/
def lineRoom : Nat := 9999

/-- `File::ReadLine`: the line in front of its first NUL, and the rest of the
    file. -/
def readLine (file : AnsiString) : Option (AnsiString × AnsiString) :=
  if file = [] then none else some (cstr (fgets lineRoom file).1, (fgets lineRoom file).2)

/-- What `SendFileHeader_` carries from line to line. -/
structure SendFileHeader where
  headerSent : Bool := false
  currentBodyLineCount : Nat := 0
  endedWithNewline : Bool := true
  output : AnsiString := []
  deriving DecidableEq

/-- A line put out. -/
def SendFileHeader.put (s : SendFileHeader) (line : AnsiString) : SendFileHeader :=
  { s with output := s.output ++ line, endedWithNewline := line.getLast? = some LF }

/-- The dot of a line that begins with one. -/
def dotted (line : AnsiString) : AnsiString := if line.head? = some DOT then DOT :: line else line

/-- The loop of `SendFileHeader_`. -/
def sendFileHeaderFrom (noOfLines : Int) : Nat → SendFileHeader → AnsiString → SendFileHeader
  | 0, s, _ => s
  | fuel + 1, s, file =>
    match readLine file with
    | none => s
    | some (line, rest) =>
      let line := dotted line
      if s.headerSent then
        if noOfLines ≤ 0 then s
        else
          let s := { s.put line with currentBodyLineCount := s.currentBodyLineCount + 1 }
          if (s.currentBodyLineCount : Int) = noOfLines then s else sendFileHeaderFrom noOfLines fuel s rest
      else sendFileHeaderFrom noOfLines fuel { s.put line with headerSent := line = crlf } rest

def sendFileHeader (noOfLines : Int) (file : AnsiString) : SendFileHeader :=
  sendFileHeaderFrom noOfLines file.length {} file

/-- What `ProtocolTOP_` writes behind the status line. -/
def topLinesSent (noOfLines : Int) (file : AnsiString) : AnsiString :=
  let s := sendFileHeader noOfLines file
  s.output ++ (if s.endedWithNewline then [] else crlf) ++ lastLine

def topResponse (noOfLines : Int) (status file : AnsiString) : AnsiString :=
  status ++ crlf ++ topLinesSent noOfLines file

/-- The bytes behind an answer of the session, for the contents of its file. -/
def responseBytes (env : TransmissionEnvironment) (bufferSize : Nat) (contents : Message → AnsiString) (o : Outcome) :
    Except TransmissionFault AnsiString :=
  match o.text, o.file with
  | [status], some (message, none) => retrResponse env bufferSize status (contents message)
  | [status], some (message, some noOfLines) => .ok (topResponse noOfLines status (contents message))
  | text, _ => .ok (text.flatMap (· ++ crlf))

/-! ## What RETR sends -/

/-- A message whose last line has no end is given one. -/
def closed (file : AnsiString) : AnsiString :=
  if file = [] ∨ file.getLast? = some LF then file else file ++ crlf

theorem appended_retrCalls {bufferSize : Nat} (hsize : 0 < bufferSize) (status file : AnsiString) :
    appended (retrCalls bufferSize status file) = status ++ crlf ++ file := by
  have hchunks : appended ((Persistence.reads bufferSize file).flatMap
      fun chunk => [SendCall.append (chunk.getD []), .flush false]) = file := by
    induction file using Persistence.reads_induction hsize with
    | hnil => rfl
    | hpiece file hne ih =>
      rw [Persistence.reads_of_ne_nil hsize hne, List.flatMap_cons]
      rw [List.cons_append, List.cons_append, List.nil_append, appended, appended, ih]
      exact List.take_append_drop bufferSize file
  rw [retrCalls, appended, hchunks]

/-- The two flags agree once something was sent. -/
def EndRecorded (b : TransparentTransmissionBuffer) : Prop :=
  b.enqueued = [] ∨ b.lastSendEndedWithNewline = b.previousChunkEndedWithNewline

theorem flushOut_endRecorded (env : TransmissionEnvironment) {b b' : TransparentTransmissionBuffer} {k : Nat}
    (hsending : b.isSending = true) (hpos : 0 < k) (hle : k ≤ b.buffer.length) (h : b.flushOut env k = .ok b') :
    EndRecorded b' := by
  have hlast : (b.buffer.take k).getLast? = some (b.buffer.getD (k - 1) 0) := by
    rw [List.getLast?_eq_getElem?, List.length_take_of_le hle, List.getElem?_take_of_lt (by omega), List.getD_eq_getElem?_getD,
      List.getElem?_eq_getElem (by omega)]
    rfl
  simp only [flushOut, hsending, if_true, insertTransmissionPeriod] at h
  have hflag : (b.buffer.getD (k - 1) 0 == LF) = ((b.buffer.take k).getLast? == some LF) := by
    rw [hlast]
    rfl
  cases Except.ok.inj h
  apply Or.inr
  split
  · exact hflag
  · exact hflag

theorem flush_endRecorded (env : TransmissionEnvironment) {b b' : TransparentTransmissionBuffer} {force d : Bool}
    {fed : List Byte} (hb : b.Sending fed) (hrecorded : EndRecorded b) (h : b.flush env force = .ok (d, b')) : EndRecorded b' := by
  rw [flush] at h
  split at h
  · cases h
    exact hrecorded
  · rw [if_neg (by simp [hb.notBinary])] at h
    simp only at h
    split at h
    · cases h
      exact hrecorded
    · rename_i k hcut
      obtain ⟨hpos, hle⟩ := findCut_le hcut
      cases hout : b.checkLineLength.flushOut env k with
      | error e =>
        rw [hout] at h
        exact absurd h nofun
      | ok out =>
        rw [hout] at h
        cases h
        have hflushed : EndRecorded out := flushOut_endRecorded env (b := b.checkLineLength) hb.isSending hpos hle hout
        exact hflushed

theorem send_endRecorded (env : TransmissionEnvironment) (calls : List SendCall) {b b' : TransparentTransmissionBuffer}
    {fed : List Byte} (hb : b.Sending fed) (hrecorded : EndRecorded b) (h : send env b calls = .ok b') : EndRecorded b' := by
  induction calls generalizing b fed with
  | nil =>
    cases h
    exact hrecorded
  | cons call rest ih =>
    cases call with
    | append data =>
      refine ih (append_sending env hb data) ?_ h
      rw [append]
      split
      · exact hrecorded
      · simp only
        rw [if_neg (by simp [hb.isSending])]
        exact hrecorded
    | flush force =>
      obtain ⟨d, next, hflush, hs, -⟩ := flush_sending env hb force
      rw [send, hflush] at h
      exact ih hs (flush_endRecorded env hb hrecorded hflush) h

/-- All of it is sent, stuffed, and the last flag says whether its last line has
    an end. -/
theorem send_all (env : TransmissionEnvironment) (calls : List SendCall) (hne : appended calls ≠ []) :
    ∃ b, send env sender (calls ++ [.flush true]) = .ok b ∧ b.enqueued.flatten = stuff true (appended calls) ∧
      b.lastSendEndedWithNewline = lineStart true (appended calls) := by
  obtain ⟨b, hrun, hs⟩ := send_run env calls sender [] sender_sending
  obtain ⟨d, b', hflush, hs', hempty⟩ := flush_sending env hs true
  have hall : send env sender (calls ++ [.flush true]) = .ok b' := by
    rw [send_append env calls _ hrun, send, hflush]
    rfl
  have hrecorded : EndRecorded b' := send_endRecorded env _ sender_sending (.inl rfl) hall
  obtain ⟨flushed, hfed, hcarry, hout⟩ := hs'.split
  rw [hempty rfl, List.append_nil, List.nil_append] at hfed
  rw [← hfed] at hcarry hout
  refine ⟨b', hall, hout, ?_⟩
  rw [← hcarry]
  apply hrecorded.resolve_left
  intro hnone
  rw [hnone, List.flatten_nil] at hout
  apply hne
  rw [← unstuff_stuff true (appended calls), ← hout]
  rfl

theorem lineStart_true_eq (file : AnsiString) : lineStart true file = decide (file = [] ∨ file.getLast? = some LF) := by
  rcases List.eq_nil_or_concat file with hfile | ⟨front, c, hfile⟩
  · rw [hfile]
    rfl
  · rw [hfile, List.concat_eq_append, lineStart_concat, List.getLast?_concat]
    by_cases hc : c = LF
    · simp [hc]
    · simp [hc]

theorem stuff_closed (file : AnsiString) :
    stuff true (closed file) = stuff true file ++ (if lineStart true file then [] else crlf) := by
  rw [closed, lineStart_true_eq]
  by_cases h : file = [] ∨ file.getLast? = some LF
  · rw [if_pos h, decide_eq_true h, if_pos rfl, List.append_nil]
  · rw [if_neg h, decide_eq_false h, if_neg Bool.false_ne_true, stuff_append]
    apply congrArg
    exact stuff_of_not_mem (by decide) _

/-- RETR sends the status line, the stuffed message and the last line. -/
theorem retrResponse_eq (env : TransmissionEnvironment) {bufferSize : Nat} (hsize : 0 < bufferSize) {status : AnsiString}
    (hstatus : DOT ∉ status) (file : AnsiString) :
    retrResponse env bufferSize status file = .ok (status ++ crlf ++ (stuff true (closed file) ++ lastLine)) := by
  have hfed := appended_retrCalls hsize status file
  have hne : appended (retrCalls bufferSize status file) ≠ [] := by
    rw [hfed, List.append_assoc]
    exact List.append_ne_nil_of_right_ne_nil _ (List.cons_ne_nil _ _)
  obtain ⟨b, hsend, hout, hlast⟩ := send_all env (retrCalls bufferSize status file) hne
  have hstart : lineStart true (status ++ crlf) = true := by
    rw [lineStart_append]
    rfl
  have hline : stuff true (status ++ crlf) = status ++ crlf := by
    apply stuff_of_not_mem
    rw [List.mem_append, not_or]
    exact ⟨hstatus, by decide⟩
  rw [hfed, stuff_append, hline, hstart] at hout
  rw [hfed, lineStart_append, hstart] at hlast
  rw [retrResponse, hsend, stuff_closed]
  change Except.ok _ = _
  rw [hout, hlast, List.append_assoc, List.append_assoc]
  simp only [List.append_assoc]

end HMailServer.Pop3
