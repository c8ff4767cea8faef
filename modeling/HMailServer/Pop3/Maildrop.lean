import HMailServer.Pop3.Connection

/- What a POP3 session is for (RFC 1939): a maildrop that is fixed at the login, and
   the set of the numbers in it that are marked. The session of the server is
   compared with it, command by command. -/
namespace HMailServer.Pop3
open AnsiString

/-- The number a text writes, however large. -/
def writtenNumber (s : WString) : Int :=
  match s.dropWhile fun c => c = 32 ∨ (9 ≤ c ∧ c ≤ 13) with
  | 45 :: t => -(WString.digitsValue t : Int)
  | 43 :: t => WString.digitsValue t
  | t => WString.digitsValue t

/-- The maildrop of one session: the messages as they were at the login, the numbers
    marked since the last reset, and whether the session is still logged in. -/
structure Maildrop where
  drop : List Message
  marked : Finset Nat := ∅
  loggedIn : Bool := true

namespace Maildrop

variable (m : Maildrop)

/-- The messages with their numbers, from 1. -/
def numbered : List (Message × Nat) := m.drop.zipIdx 1

/-- Those that are not marked. -/
def present : List (Message × Nat) := m.numbered.filter fun row => row.2 ∉ m.marked

/-- The message of a number that is present. -/
def letter (n : Int) : Option Message := (m.present.find? fun row => (row.2 : Int) = n).map Prod.fst

/-- The unique ids of the marked messages. -/
def markedUids : List Nat := (m.numbered.filter fun row => row.2 ∈ m.marked).map fun row => row.1.uid

def count : Nat := m.present.length

def octets : Nat := (m.present.map fun row => row.1.size).sum

def contentsLine : AnsiString :=
  ansi "+OK " ++ formatNat m.count ++ ansi " messages (" ++ formatNat m.octets ++ ansi " octets)"

def scanRows (value : Message → Nat) : AnsiString :=
  m.present.flatMap fun row => formatNat row.2 ++ space ++ formatNat (value row.1) ++ crlf

def singleRow (n : Int) (value : Message → Nat) : Outcome :=
  match m.letter n with
  | some message => { text := [ansi "+OK " ++ formatNat n.toNat ++ space ++ formatNat (value message)] }
  | none => reply "-ERR No such message"

def sendFile (n : Int) (lines : Option Int) (opens : Bool) : Outcome :=
  match m.letter n with
  | some message =>
    if opens then { text := [ansi "+OK " ++ formatNat message.size ++ ansi " octets"], file := some (message, lines) }
    else reply "-ERR Unable to read the message file"
  | none => reply "-ERR No such message"

/-- A present number is marked; a number that is marked already, or that no message
    has, is refused. -/
def dele (n : Int) : Outcome × Maildrop :=
  match m.letter n with
  | some _ => (reply "+OK msg deleted", { m with marked := insert n.toNat m.marked })
  | none =>
    if 1 ≤ n ∧ n ≤ m.drop.length then (reply "-ERR No such message (already deleted)", m)
    else (reply "-ERR No such message", m)

/-- What is left of an inbox once the marked messages are deleted. -/
def deleteMarked (inbox : List Message) (around : Surroundings) : List Message :=
  if m.loggedIn ∧ around.inboxFound then
    inbox.filter fun message => message.uid ∉ m.markedUids ∨ around.deletes message = false
  else inbox

def logOut : Maildrop := { m with loggedIn := false }

/-- One command on the maildrop and the inbox. -/
def handleCommand (p : Platform) (m : Maildrop) (inbox : List Message) (around : Surroundings) :
    Command → Outcome × Maildrop × List Message
  | .noop => (reply "+OK", m, inbox)
  | .help => (reply "+OK Normal POP3 commands allowed", m, inbox)
  | .capa => ({ text := [p.capabilities] }, m, inbox)
  | .invalid => (reply "-ERR Invalid command in current state.", m, inbox)
  | .lineTooLong => (reply "-ERR Line too long.", m, inbox)
  | .stat => ({ text := [ansi "+OK " ++ formatNat m.count ++ space ++ formatNat m.octets] }, m, inbox)
  | .list parameter =>
    (if m.loggedIn = false then reply "-ERR Message list not loaded"
      else if parameter = [] then { text := [m.contentsLine, m.scanRows Message.size ++ ansi "."] }
      else m.singleRow (writtenNumber parameter) Message.size, m, inbox)
  | .uidl parameter =>
    (if m.loggedIn = false then reply "-ERR Message list not loaded"
      else if parameter = [] then { text := [m.contentsLine ++ crlf ++ m.scanRows Message.uid ++ ansi "."] }
      else m.singleRow (writtenNumber parameter) Message.uid, m, inbox)
  | .retr parameter =>
    (if m.loggedIn = false then reply "-ERR Message list not loaded"
      else m.sendFile (writtenNumber parameter) none around.fileOpens, m, inbox)
  | .top parameter =>
    (if m.loggedIn = false then reply "-ERR Message list not loaded"
      else match topLines p parameter with
        | none => reply "-ERR Invalid number of lines"
        | some lines => m.sendFile (writtenNumber (parameter.takeWhile (· ≠ 32))) (some lines) around.fileOpens, m, inbox)
  | .dele parameter =>
    if m.loggedIn = false then (reply "-ERR No such message (messages not loaded)", m, inbox)
    else
      let result := m.dele (writtenNumber (WString.trim p.loc parameter))
      (result.1, result.2, inbox)
  | .rset =>
    if m.loggedIn = false then (reply "-ERR Message list not loaded", m, inbox)
    else if around.inboxFound then (reply "+OK 0", { m with marked := ∅ }, inbox)
    else (reply "-ERR Unable to access mailbox.", m, inbox)
  | .quit => (reply "+OK POP3 server saying goodbye...", m.logOut, m.deleteMarked inbox around)

def step (p : Platform) (m : Maildrop) (inbox : List Message) : Step → Outcome × Maildrop × List Message
  | .request line around => m.handleCommand p inbox around (parseRequest p line)
  | .store inbox => ({}, m, inbox)
  | .connectionTimeout => (reply "-ERR Autologout; idle too long", m.logOut, inbox)
  | .disconnect => ({}, m.logOut, inbox)

/-- The answers of a run, and the maildrop and the inbox after it. -/
def run (p : Platform) (m : Maildrop) (inbox : List Message) : List Step → List Outcome × Maildrop × List Message
  | [] => ([], m, inbox)
  | s :: steps =>
    let first := step p m inbox s
    let rest := run p first.2.1 first.2.2 steps
    (first.1 :: rest.1, rest.2)

end Maildrop

/-! ## The session's list as a view of the maildrop -/

/-- The maildrop's messages, marked as it has them. -/
def view (drop : List Message) (marked : Finset Nat) : List Message :=
  (drop.zipIdx 1).map fun row => { row.1 with flagDeleted := decide (row.2 ∈ marked) }

theorem zipIdx_zipIdx {α : Type} (l : List α) (k : Nat) : (l.zipIdx k).zipIdx k = (l.zipIdx k).map fun row => (row, row.2) := by
  induction l generalizing k with
  | nil => rfl
  | cons a l ih => rw [List.zipIdx_cons, List.zipIdx_cons, List.map_cons, ih]

/-- The rows of the view are the maildrop's, with their marks. -/
theorem view_zipIdx (drop : List Message) (marked : Finset Nat) :
    (view drop marked).zipIdx 1 =
      (drop.zipIdx 1).map fun row => ({ row.1 with flagDeleted := decide (row.2 ∈ marked) }, row.2) := by
  unfold view
  rw [List.zipIdx_map, zipIdx_zipIdx, List.map_map]
  rfl

theorem view_empty (drop : List Message) (h : ∀ message ∈ drop, message.flagDeleted = false) : view drop ∅ = drop := by
  have hrow : ∀ row ∈ drop.zipIdx 1, ({ row.1 with flagDeleted := decide (row.2 ∈ (∅ : Finset Nat)) } : Message) = row.1 := by
    intro row hrow
    have hmem : row.1 ∈ (drop.zipIdx 1).map Prod.fst := List.mem_map_of_mem hrow
    rw [List.zipIdx_map_fst] at hmem
    have hflag := h row.1 hmem
    simp [← hflag]
  unfold view
  rw [List.map_congr_left hrow]
  exact List.zipIdx_map_fst 1 drop

theorem view_getElem? (drop : List Message) (marked : Finset Nat) (i : Nat) :
    (view drop marked)[i]? = drop[i]?.map fun message => { message with flagDeleted := decide (i + 1 ∈ marked) } := by
  unfold view
  rw [List.getElem?_map, List.getElem?_zipIdx, Option.map_map, Nat.add_comm i 1]
  rfl

theorem length_view (drop : List Message) (marked : Finset Nat) : (view drop marked).length = drop.length := by
  simp [view]

/-- Marking a number of the view. -/
theorem view_set {drop : List Message} {marked : Finset Nat} {i : Nat} {message : Message} (h : drop[i]? = some message) :
    (view drop marked).set i { message with flagDeleted := true } = view drop (insert (i + 1) marked) := by
  apply List.ext_getElem?
  intro j
  rw [List.getElem?_set, view_getElem?, view_getElem?, length_view]
  by_cases hij : i = j
  · subst hij
    obtain ⟨hlt, _⟩ := List.getElem?_eq_some_iff.1 h
    rw [if_pos rfl, if_pos hlt, h]
    simp
  · have hji : ¬j = i := fun heq => hij heq.symm
    simp [hij, hji]

section View

variable (m : Maildrop)

/-- The unmarked rows of the view are those present in the maildrop. -/
theorem filter_view :
    ((view m.drop m.marked).zipIdx 1).filter (fun row => row.1.flagDeleted = false) =
      m.present.map fun row => ({ row.1 with flagDeleted := false }, row.2) := by
  have hrow : ∀ row ∈ m.present,
      ((({ row.1 with flagDeleted := decide (row.2 ∈ m.marked) } : Message), row.2) : Message × Nat) =
        ({ row.1 with flagDeleted := false }, row.2) := by
    intro row hrow
    have hnot := (List.mem_filter.1 hrow).2
    rw [decide_eq_true_eq] at hnot
    rw [decide_eq_false hnot]
  rw [view_zipIdx, List.filter_map]
  rw [← List.map_congr_left hrow]
  unfold Maildrop.present Maildrop.numbered
  congr 1
  apply List.filter_congr
  intro row _
  simp

theorem getMailboxContents_view : getMailboxContents (view m.drop m.marked) = (m.count, m.octets) := by
  have hrows : (view m.drop m.marked).filter (fun message => message.flagDeleted = false) =
      m.present.map fun row => { row.1 with flagDeleted := false } := by
    conv_lhs => rw [← List.zipIdx_map_fst 1 (view m.drop m.marked)]
    rw [List.filter_map]
    have hfilter := congrArg (List.map Prod.fst) (filter_view m)
    rw [List.map_map] at hfilter
    exact hfilter
  unfold getMailboxContents
  dsimp only
  rw [hrows, List.length_map, List.map_map]
  rfl

theorem contentsLine_view : contentsLine (view m.drop m.marked) = m.contentsLine := by
  unfold contentsLine Maildrop.contentsLine
  rw [getMailboxContents_view]

theorem scanRows_view {value : Message → Nat} (hvalue : ∀ message : Message, value { message with flagDeleted := false } = value message) :
    scanRows (view m.drop m.marked) value = m.scanRows value := by
  unfold scanRows Maildrop.scanRows
  rw [filter_view, List.flatMap_map]
  simp only [hvalue]

theorem find_present (n : Nat) (l : List Message) (k : Nat) :
    (((l.zipIdx k).filter fun row => row.2 ∉ m.marked).find? fun row => (row.2 : Int) = n) =
      if k ≤ n ∧ n ∉ m.marked then l[n - k]?.map fun message => (message, n) else none := by
  induction l generalizing k with
  | nil => simp
  | cons a l ih =>
    rw [List.zipIdx_cons, List.filter_cons]
    by_cases hk : k = n
    · subst hk
      by_cases hmarked : k ∈ m.marked
      · rw [if_neg (by simp [hmarked]), ih]
        simp [hmarked]
      · simp [hmarked]
    · have hskip : ∀ rest : List (Message × Nat), (if k ∉ m.marked then (a, k) :: rest else rest).find?
          (fun row => (row.2 : Int) = n) = rest.find? fun row => (row.2 : Int) = n := by
        intro rest
        split
        · apply List.find?_cons_of_neg
          simpa using hk
        · rfl
      simp only [decide_eq_true_eq]
      rw [hskip, ih]
      by_cases hle : k ≤ n
      · have hlt : k + 1 ≤ n := by omega
        have hindex : n - k = n - (k + 1) + 1 := by omega
        rw [hindex, List.getElem?_cons_succ]
        simp [hle, hlt]
      · have hgt : ¬k + 1 ≤ n := by omega
        simp [hle, hgt]

theorem letter_natCast (n : Nat) :
    m.letter n = if 1 ≤ n ∧ n ∉ m.marked then m.drop[n - 1]? else none := by
  unfold Maildrop.letter Maildrop.present Maildrop.numbered
  rw [find_present]
  split
  · rw [Option.map_map]
    exact Option.map_id'
  · rfl

theorem letter_of_not_number {n : Int} (h : ¬(1 ≤ n ∧ n ≤ m.drop.length)) : m.letter n = none := by
  by_cases hneg : n < 0
  · unfold Maildrop.letter
    rw [Option.map_eq_none_iff, List.find?_eq_none]
    intro row _
    rw [decide_eq_true_eq]
    omega
  · obtain ⟨k, rfl⟩ := Int.eq_ofNat_of_zero_le (by omega : 0 ≤ n)
    rw [letter_natCast]
    split
    · exact List.getElem?_eq_none (by omega)
    · rfl

end View

/-! ## Numbers -/

/-- The position a text is taken for is the number it writes, where either of them is
    the number of a message. -/
def Agrees (p : Platform) (drop : List Message) (text : WString) : Prop :=
  ∀ n : Nat, 1 ≤ n → n ≤ drop.length → (position p text = n ↔ writtenNumber text = n)

section Numbers

variable {p : Platform} {m : Maildrop} {text : WString}

/-- What a number is in the session and in the maildrop: the same message with the
    same mark, or none in either. -/
theorem message_cases (h : Agrees p m.drop text) :
    (∃ i message, position p text = i + 1 ∧ writtenNumber text = (i + 1 : Nat) ∧ m.drop[i]? = some message ∧
        getMessage (view m.drop m.marked) (position p text) =
          some { message with flagDeleted := decide (i + 1 ∈ m.marked) } ∧
        m.letter (writtenNumber text) = if i + 1 ∈ m.marked then none else some message) ∨
      (getMessage (view m.drop m.marked) (position p text) = none ∧ m.letter (writtenNumber text) = none ∧
        ¬(1 ≤ writtenNumber text ∧ writtenNumber text ≤ m.drop.length)) := by
  by_cases hrange : 1 ≤ position p text ∧ position p text ≤ m.drop.length
  · left
    obtain ⟨i, hi⟩ : ∃ i, position p text = i + 1 := ⟨position p text - 1, by omega⟩
    have hlt : i < m.drop.length := by omega
    have hnumber := (h (i + 1) (by omega) (by omega)).1 hi
    refine ⟨i, m.drop[i], hi, hnumber, List.getElem?_eq_getElem hlt, ?_, ?_⟩
    · have hin : 1 ≤ i + 1 ∧ i + 1 ≤ (view m.drop m.marked).length := by
        rw [length_view]
        omega
      unfold getMessage
      rw [hi, if_pos hin, Nat.add_sub_cancel, view_getElem?, List.getElem?_eq_getElem hlt]
      rfl
    · rw [hnumber, letter_natCast, Nat.add_sub_cancel, List.getElem?_eq_getElem hlt]
      by_cases hmarked : i + 1 ∈ m.marked <;> simp [hmarked]
  · right
    have hnot : ¬(1 ≤ writtenNumber text ∧ writtenNumber text ≤ m.drop.length) := by
      rintro ⟨hlow, hhigh⟩
      obtain ⟨n, hn⟩ := Int.eq_ofNat_of_zero_le (by omega : 0 ≤ writtenNumber text)
      have hposition := (h n (by omega) (by omega)).2 hn
      omega
    refine ⟨?_, letter_of_not_number m hnot, hnot⟩
    unfold getMessage
    rw [length_view, if_neg hrange]

theorem singleRow_view (h : Agrees p m.drop text) {value : Message → Nat}
    (hvalue : ∀ (message : Message), value { message with flagDeleted := false } = value message) :
    singleRow p (view m.drop m.marked) text value = m.singleRow (writtenNumber text) value := by
  unfold singleRow Maildrop.singleRow
  obtain ⟨i, message, hi, hnumber, hdrop, hget, hletter⟩ | ⟨hget, hletter, _⟩ := message_cases h
  · rw [hget, hletter, hi, hnumber]
    by_cases hmarked : i + 1 ∈ m.marked
    · simp [hmarked]
    · simp only [hmarked, decide_false, Bool.false_eq_true, if_false, hvalue]
      rfl
  · rw [hget, hletter]

variable (hfresh : ∀ message ∈ m.drop, message.flagDeleted = false)
include hfresh

/-- A message of the maildrop carries no mark of its own. -/
theorem unmark_eq {i : Nat} {message : Message} (h : m.drop[i]? = some message) :
    ({ message with flagDeleted := false } : Message) = message := by
  have hflag := hfresh message (List.mem_of_getElem? h)
  rw [← hflag]

theorem sendFile_view (h : Agrees p m.drop text) (lines : Option Int) (opens : Bool) :
    sendFile p (view m.drop m.marked) text lines opens = m.sendFile (writtenNumber text) lines opens := by
  unfold sendFile Maildrop.sendFile
  obtain ⟨i, message, hi, hnumber, hdrop, hget, hletter⟩ | ⟨hget, hletter, _⟩ := message_cases h
  · rw [hget, hletter]
    by_cases hmarked : i + 1 ∈ m.marked
    · simp [hmarked]
    · simp only [hmarked, decide_false, Bool.false_eq_true, if_false, unmark_eq hfresh hdrop]
      cases opens
      · rfl
      · rfl
  · rw [hget, hletter]

end Numbers

/-! ## Commands and runs -/

/-- The text of the number a command names, if it names one. -/
def Command.number (p : Platform) : Command → Option WString
  | .list parameter => if parameter = [] then none else some parameter
  | .uidl parameter => if parameter = [] then none else some parameter
  | .retr parameter => some parameter
  | .dele parameter => some (WString.trim p.loc parameter)
  | .top parameter => some (parameter.takeWhile (· ≠ 32))
  | _ => none

/-- The condition on a step: a reset finds the inbox as the login found it, and a
    number is taken for itself. -/
def Keeps (p : Platform) (drop : List Message) (w : World) : Step → Prop
  | .request line around =>
    (parseRequest p line = .rset → w.session.account = true → around.inboxFound = true → loadMailbox w.inbox = drop) ∧
      ∀ text, (parseRequest p line).number p = some text → Agrees p drop text
  | _ => True

/-- Every step of a run meets the condition in the world it is taken in. -/
def KeepsAlong (p : Platform) (drop : List Message) : World → List Step → Prop
  | _, [] => True
  | w, s :: steps => Keeps p drop w s ∧ KeepsAlong p drop (step p w s).2 steps

/-- The session is at the maildrop's point. -/
structure Shows (m : Maildrop) (inbox : List Message) (w : World) : Prop where
  fresh : ∀ message ∈ m.drop, message.flagDeleted = false
  account : w.session.account = m.loggedIn
  messages : w.session.messages = view m.drop m.marked
  inbox : w.inbox = inbox

section Runs

variable {p : Platform} {m : Maildrop} {inbox : List Message} {w : World}

theorem Shows.logOut (h : Shows m inbox w) : Shows m.logOut inbox { w with session := Pop3.logOut w.session } where
  fresh := h.fresh
  account := rfl
  messages := h.messages
  inbox := h.inbox

theorem protocolDELE_shows (h : Shows m inbox w) (parameter : WString) (hnumber : Agrees p m.drop (WString.trim p.loc parameter)) :
    (handleCommand p w {} (.dele parameter)).1 = (m.handleCommand p inbox {} (.dele parameter)).1 ∧
      Shows (m.handleCommand p inbox {} (.dele parameter)).2.1 (m.handleCommand p inbox {} (.dele parameter)).2.2
        (handleCommand p w {} (.dele parameter)).2 := by
  unfold handleCommand Maildrop.handleCommand protocolDELE Maildrop.dele
  rw [h.account, h.messages]
  dsimp only
  split
  · exact ⟨rfl, h⟩
  · obtain ⟨i, message, hi, hn, hdrop, hget, hletter⟩ | ⟨hget, hletter, hnot⟩ := message_cases hnumber
    · obtain ⟨hlt, _⟩ := List.getElem?_eq_some_iff.1 hdrop
      rw [hget, hletter]
      by_cases hmarked : i + 1 ∈ m.marked
      · have hin : 1 ≤ writtenNumber (WString.trim p.loc parameter) ∧
            writtenNumber (WString.trim p.loc parameter) ≤ m.drop.length := by omega
        simp only [hmarked, decide_true, if_true, hin, and_self]
        exact ⟨trivial, h⟩
      · simp only [hmarked, decide_false, Bool.false_eq_true, if_false, hi, hn, Nat.add_sub_cancel, Int.toNat_natCast]
        exact ⟨trivial, { fresh := h.fresh, account := rfl, messages := view_set hdrop, inbox := h.inbox }⟩
    · rw [hget, hletter]
      simp only [hnot, if_false]
      exact ⟨trivial, h⟩

/-- The unique ids marked in the session are those of the maildrop. -/
theorem uids_view (m : Maildrop) : ((view m.drop m.marked).filter Message.flagDeleted).map Message.uid = m.markedUids := by
  unfold view Maildrop.markedUids Maildrop.numbered
  rw [List.filter_map, List.map_map]
  rfl

theorem saveMailboxChanges_shows (h : Shows m inbox w) (around : Surroundings) :
    saveMailboxChanges w.session w.inbox around = m.deleteMarked inbox around := by
  unfold saveMailboxChanges Maildrop.deleteMarked
  rw [h.account, h.messages, h.inbox]
  dsimp only
  rw [uids_view]
  cases m.loggedIn <;> cases around.inboxFound <;> simp

/-- One command has the maildrop's answer and leaves the maildrop's state. -/
theorem handleCommand_shows (h : Shows m inbox w) (around : Surroundings) (command : Command)
    (hreset : command = .rset → w.session.account = true → around.inboxFound = true → loadMailbox w.inbox = m.drop)
    (hnumber : ∀ text, command.number p = some text → Agrees p m.drop text) :
    (handleCommand p w around command).1 = (m.handleCommand p inbox around command).1 ∧
      Shows (m.handleCommand p inbox around command).2.1 (m.handleCommand p inbox around command).2.2
        (handleCommand p w around command).2 := by
  cases command with
  | noop => exact ⟨rfl, h⟩
  | help => exact ⟨rfl, h⟩
  | capa => exact ⟨rfl, h⟩
  | invalid => exact ⟨rfl, h⟩
  | lineTooLong => exact ⟨rfl, h⟩
  | stat =>
    refine ⟨?_, h⟩
    unfold handleCommand protocolSTAT
    rw [h.messages, getMailboxContents_view]
    rfl
  | list parameter =>
    refine ⟨?_, h⟩
    unfold handleCommand protocolLIST Maildrop.handleCommand
    rw [h.account, h.messages, contentsLine_view, scanRows_view m fun _ => rfl]
    dsimp only
    split
    · rfl
    split
    · rfl
    · rename_i hne
      exact singleRow_view (hnumber parameter (by simp [Command.number, hne])) fun _ => rfl
  | uidl parameter =>
    refine ⟨?_, h⟩
    unfold handleCommand protocolUIDL Maildrop.handleCommand
    rw [h.account, h.messages, contentsLine_view, scanRows_view m fun _ => rfl]
    dsimp only
    split
    · rfl
    split
    · rfl
    · rename_i hne
      exact singleRow_view (hnumber parameter (by simp [Command.number, hne])) fun _ => rfl
  | retr parameter =>
    refine ⟨?_, h⟩
    unfold handleCommand protocolRETR Maildrop.handleCommand
    dsimp only
    rw [h.account, h.messages, sendFile_view h.fresh (hnumber parameter rfl)]
  | top parameter =>
    refine ⟨?_, h⟩
    unfold handleCommand protocolTOP Maildrop.handleCommand
    rw [h.account, h.messages]
    dsimp only
    split
    · rfl
    · cases topLines p parameter with
      | none => rfl
      | some lines => exact sendFile_view h.fresh (hnumber _ rfl) _ _
  | dele parameter => exact protocolDELE_shows h parameter (hnumber _ rfl)
  | rset =>
    unfold handleCommand protocolRSET Maildrop.handleCommand
    rw [h.account]
    dsimp only
    split
    · exact ⟨rfl, h⟩
    · rename_i hin
      have haccount : w.session.account = true := by simpa [h.account] using hin
      split
      · rename_i hfound
        have hload := hreset rfl haccount hfound
        have hview : loadMailbox w.inbox = view m.drop ∅ := by rw [hload, view_empty m.drop h.fresh]
        exact ⟨rfl, { fresh := h.fresh, account := rfl, messages := hview, inbox := h.inbox }⟩
      · exact ⟨rfl, h⟩
  | quit =>
    refine ⟨rfl, ?_⟩
    unfold handleCommand Maildrop.handleCommand
    rw [saveMailboxChanges_shows h around]
    exact { fresh := h.fresh, account := rfl, messages := h.messages, inbox := rfl }

theorem step_shows (h : Shows m inbox w) {s : Step} (hkeeps : Keeps p m.drop w s) :
    (step p w s).1 = (m.step p inbox s).1 ∧ Shows (m.step p inbox s).2.1 (m.step p inbox s).2.2 (step p w s).2 := by
  cases s with
  | request line around => exact handleCommand_shows h around _ hkeeps.1 hkeeps.2
  | store inbox' => exact ⟨rfl, { fresh := h.fresh, account := h.account, messages := h.messages, inbox := rfl }⟩
  | connectionTimeout => exact ⟨rfl, h.logOut⟩
  | disconnect => exact ⟨rfl, h.logOut⟩

theorem handleCommand_drop (around : Surroundings) (command : Command) :
    (m.handleCommand p inbox around command).2.1.drop = m.drop := by
  cases command with
  | dele parameter =>
    unfold Maildrop.handleCommand Maildrop.dele
    dsimp only
    split
    · rfl
    · cases m.letter (writtenNumber (WString.trim p.loc parameter)) with
      | none =>
        dsimp only
        split <;> rfl
      | some message => rfl
  | rset =>
    unfold Maildrop.handleCommand
    dsimp only
    split
    · rfl
    · split <;> rfl
  | _ => rfl

/-- No step changes the maildrop's messages. -/
theorem step_drop (s : Step) : (m.step p inbox s).2.1.drop = m.drop := by
  cases s with
  | request line around => exact handleCommand_drop around _
  | store inbox' => rfl
  | connectionTimeout => rfl
  | disconnect => rfl

theorem run_shows (steps : List Step) : ∀ {m : Maildrop} {inbox : List Message} {w : World}, Shows m inbox w →
    KeepsAlong p m.drop w steps →
    (run p w steps).1 = (m.run p inbox steps).1 ∧
      Shows (m.run p inbox steps).2.1 (m.run p inbox steps).2.2 (run p w steps).2 := by
  induction steps with
  | nil => exact fun h _ => ⟨rfl, h⟩
  | cons s steps ih =>
    intro m inbox w h hkeeps
    obtain ⟨hanswer, hshows⟩ := step_shows h hkeeps.1
    have hrest := hkeeps.2
    rw [← @step_drop p m inbox s] at hrest
    obtain ⟨hanswers, hlast⟩ := ih hshows hrest
    exact ⟨congrArg₂ List.cons hanswer hanswers, hlast⟩

theorem run_drop (steps : List Step) : ∀ (m : Maildrop) (inbox : List Message), (m.run p inbox steps).2.1.drop = m.drop := by
  induction steps with
  | nil => exact fun _ _ => rfl
  | cons s steps ih =>
    intro m inbox
    exact (ih _ _).trans (step_drop s)

end Runs

/-- A platform with a `long` of 64 bits. -/
def posix : Platform where
  toWide s := s.map UInt8.toNat
  loc := classicLocale
  longBits := 64
  capabilities := ansi "+OK CAPA list follows"

def twoMessages : List Message := [⟨7, 100, false⟩, ⟨9, 200, true⟩]

/-- A session that marks its first message while another session delivers a third. -/
def markedSession : List Step :=
  [.request (ansi "dele 1") {}, .store (twoMessages ++ [⟨12, 50, false⟩]), .request (ansi "UIDL") {}, .request (ansi "QUIT") {}]

end HMailServer.Pop3
