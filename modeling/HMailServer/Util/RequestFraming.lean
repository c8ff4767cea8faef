import HMailServer.Util.HttpServer
import HMailServer.Lib.Byte

/- Which connections hand over only requests that every reader of RFC 9112,
   section 6, frames alike. -/
namespace HMailServer.HttpConnection
open AnsiString Cut

/-! ## Framing -/

/-- The field lines of a head. -/
def fieldLines (head : AnsiString) : List AnsiString := (lines head).tail.takeWhile (· ≠ [])

/-- What is in front of the first colon of a line. -/
def fieldName (line : AnsiString) : AnsiString := line.takeWhile (· ≠ 58)

def fieldValue (line : AnsiString) : AnsiString := (line.dropWhile (· ≠ 58)).drop 1

def Named (name line : AnsiString) : Prop := 58 ∈ line ∧ lower (fieldName line) = name

/-- White space stands in front of the colon, or a bare CR, which may be read as such. -/
def Spaced (line : AnsiString) : Prop := 58 ∈ line ∧ ∃ c ∈ (fieldName line).getLast?, (isBlank c || c == 13) = true

/-- The line continues the one in front of it. -/
def Continued (line : AnsiString) : Prop := ∃ c ∈ line.head?, isBlank c = true

/-- A number in decimal, with white space around it. -/
def Decimal (value : AnsiString) (n : Nat) : Prop :=
  ∃ before digits after, value = before ++ digits ++ after ∧ (∀ c ∈ before ++ after, isBlank c = true) ∧ digits ≠ [] ∧
    (∀ c ∈ digits, isDigit c = true) ∧ digitsValue digits = n

/-- A head behind which every reader finds a body of this length. -/
structure Framed (head : AnsiString) (n : Nat) : Prop where
  encoding : ∀ line ∈ fieldLines head, ¬Named (ansi "transfer-encoding") line
  lengths : ∀ line ∈ fieldLines head, Named (ansi "content-length") line → Decimal (fieldValue line) n
  noLength : (∀ line ∈ fieldLines head, ¬Named (ansi "content-length") line) → n = 0
  spaced : ∀ line ∈ fieldLines head, ¬Spaced line
  continued : ∀ line ∈ fieldLines head, ¬Continued line

def Outcome.IsHanded : Outcome → Prop
  | .handed _ => True
  | _ => False

/-- The requests that were handed over are framed, and one that is not was refused:
    it is the last that was read, and the connection is closed. -/
structure Safe (c : Connection) : Prop where
  framed : ∀ head request, (head, .handed request) ∈ c.log → Framed head request.body.length
  refused : ∀ front head outcome back, c.log = front ++ (head, outcome) :: back → (∀ n, ¬Framed head n) →
    ¬outcome.IsHanded ∧ back = [] ∧ c.closed = true

/-! ## Requests that are taken for others -/

/-- A field as the server reads it. -/
def looseName (line : AnsiString) : AnsiString := lower (trim (fieldName line))

def looseValue (line : AnsiString) : AnsiString := trim (fieldValue line)

/-- The value of the first field of a name, as the server reads it. -/
def firstValue (fields : List AnsiString) (name : AnsiString) : AnsiString :=
  ((fields.find? fun line => looseName line == name).map looseValue).getD []

/-- The server takes a request with this head and this body. -/
structure Passes (server : Server) (head body : AnsiString) : Prop where
  noNul : 0 ∉ head
  requestLine : ∃ method target version, (lines head).head? = some (method ++ 32 :: (target ++ 32 :: version)) ∧
    32 ∉ method ∧ 32 ∉ version ∧ method ≠ [] ∧ target ≠ [] ∧ version.length = 8 ∧ version.take 7 = ansi "HTTP/1." ∧
    head.length + body.length ≤ cap server method target head
  size : head.length ≤ server.limits.maxRequestBytes
  colons : ∀ line ∈ fieldLines head, 58 ∈ line
  length : parseLength (firstValue (fieldLines head) (ansi "content-length")) = some body.length
  encoding : firstValue (fieldLines head) (ansi "transfer-encoding") = []
  text : (ansi "application/octet-stream").isPrefixOf (lower (firstValue (fieldLines head) (ansi "content-type"))) = true ∨
    0 ∉ body

/-- A line that another reader may frame the request by. -/
def Faulty (fields : List AnsiString) (n : Nat) : Prop :=
  ∃ line ∈ fields, Spaced line ∨ Continued line ∨ looseName line = ansi "transfer-encoding" ∨
    looseName line = ansi "content-length" ∧ ¬Decimal (fieldValue line) n

/-- The next request of the stream is taken although it has such a line. -/
def Smuggles (server : Server) (stream : AnsiString) : Prop :=
  ∃ head rest body, cutHead stream = some (head, rest) ∧ body <+: rest ∧ Passes server head body ∧
    Faulty (fieldLines head) body.length

/-- The condition on a step, in the state in front of it. -/
def Meets (server : Server) (c : Connection) : Event → Prop
  | .close => True
  | .request _ => c.closed = false → ¬Smuggles server c.stream

/-! ## Fields -/

theorem trim_fieldName {line : AnsiString} (hcolon : 58 ∈ line) (hspaced : ¬Spaced line) (hcontinued : ¬Continued line) :
    trim (fieldName line) = fieldName line := by
  by_cases hname : fieldName line = []
  · rw [hname]
    rfl
  have hfront : (fieldName line).dropWhile isBlank = fieldName line := by
    rw [List.dropWhile_eq_self_iff]
    intro hl hblank
    refine hcontinued ⟨(fieldName line)[0], ?_, hblank⟩
    have hbegin : fieldName line <+: line := List.takeWhile_prefix _
    have hget := hbegin.getElem (Nat.pos_of_ne_zero fun h => hname (List.length_eq_zero_iff.1 h))
    rw [hget, List.head?_eq_getElem?]
    exact List.getElem?_eq_getElem _
  rw [trim, hfront, List.rdropWhile_eq_self_iff]
  intro hl hlast
  exact hspaced ⟨hcolon, _, List.getLast?_eq_some_getLast hl, hlast⟩

theorem named_iff (name : AnsiString) {line : AnsiString} (hcolon : 58 ∈ line) (hspaced : ¬Spaced line)
    (hcontinued : ¬Continued line) :
    Named name line ↔ looseName line = name := by
  rw [Named, looseName, trim_fieldName hcolon hspaced hcontinued, and_iff_right hcolon]

/-- A request that is taken is framed exactly where it has no faulty line. -/
theorem framed_iff {server : Server} {head body : AnsiString} (h : Passes server head body) :
    Framed head body.length ↔ ¬Faulty (fieldLines head) body.length := by
  constructor
  · rintro hframed ⟨line, hline, hfault⟩
    have hspaced := hframed.spaced line hline
    have hcontinued := hframed.continued line hline
    have hnamed := fun name => named_iff name (h.colons line hline) hspaced hcontinued
    obtain hfault | hfault | hfault | ⟨hname, hvalue⟩ := hfault
    · exact hspaced hfault
    · exact hcontinued hfault
    · exact hframed.encoding line hline ((hnamed _).2 hfault)
    · exact hvalue (hframed.lengths line hline ((hnamed _).2 hname))
  · intro hnone
    have hspaced : ∀ line ∈ fieldLines head, ¬Spaced line := fun line hline hs => hnone ⟨line, hline, .inl hs⟩
    have hcontinued : ∀ line ∈ fieldLines head, ¬Continued line := fun line hline hc => hnone ⟨line, hline, .inr (.inl hc)⟩
    have hnamed : ∀ line ∈ fieldLines head, ∀ name, Named name line ↔ looseName line = name := by
      exact fun line hline name => named_iff name (h.colons line hline) (hspaced line hline) (hcontinued line hline)
    refine ⟨fun line hline hname => ?_, fun line hline hname => ?_, fun hno => ?_, hspaced, hcontinued⟩
    · exact hnone ⟨line, hline, .inr (.inr (.inl ((hnamed line hline _).1 hname)))⟩
    · by_contra hvalue
      exact hnone ⟨line, hline, .inr (.inr (.inr ⟨(hnamed line hline _).1 hname, hvalue⟩))⟩
    · -- no field declares a length
      have hfirst : firstValue (fieldLines head) (ansi "content-length") = [] := by
        rw [firstValue, List.find?_eq_none.2]
        · rfl
        · intro line hline hname
          exact hno line hline ((hnamed line hline _).2 (beq_iff_eq.1 hname))
      have hlength := h.length
      rw [hfirst, parseLength, if_pos rfl] at hlength
      exact (Option.some.inj hlength).symm

/-! ## What is parsed -/

theorem cut_colon (line : AnsiString) : cut 58 line = if 58 ∈ line then some (fieldName line, fieldValue line) else none := by
  split
  · rename_i hmem
    cases hcut : cut 58 line with
    | none => exact absurd hmem (notMem_of_cut hcut)
    | some p =>
      obtain ⟨hline, hno⟩ := eq_of_cut hcut
      have hall : ∀ c ∈ p.1, (decide (c ≠ 58)) = true := fun c hc => decide_eq_true fun h => hno (h ▸ hc)
      have hname : fieldName line = p.1 := by
        rw [fieldName, hline, List.takeWhile_append_of_pos hall]
        simp
      have hvalue : fieldValue line = p.2 := by
        rw [fieldValue, hline, List.dropWhile_append_of_pos hall]
        simp
      rw [hname, hvalue]
  · rename_i hmem
    exact cut_eq_none hmem

theorem parseFields_eq (rest : List AnsiString) :
    parseFields rest =
      if ∀ line ∈ rest.takeWhile (· ≠ []), 58 ∈ line then
        some ((rest.takeWhile (· ≠ [])).map fun line => (looseName line, looseValue line))
      else none := by
  induction rest with
  | nil => rfl
  | cons line rest ih =>
    rw [parseFields]
    by_cases hempty : line = []
    · simp [hempty]
    rw [if_neg hempty, cut_colon, List.takeWhile_cons_of_pos (by simpa using hempty)]
    have hcons : (∀ l ∈ line :: rest.takeWhile (· ≠ []), 58 ∈ l) ↔ 58 ∈ line ∧ ∀ l ∈ rest.takeWhile (· ≠ []), 58 ∈ l :=
      List.forall_mem_cons
    by_cases hcolon : 58 ∈ line
    · rw [if_pos hcolon, ih]
      by_cases hall : ∀ line ∈ rest.takeWhile (· ≠ []), 58 ∈ line
      · rw [if_pos hall, if_pos (hcons.2 ⟨hcolon, hall⟩)]
        rfl
      · rw [if_neg hall, if_neg fun h => hall (hcons.1 h).2]
        rfl
    · rw [if_neg hcolon, if_neg fun h => hcolon (hcons.1 h).1]

theorem header_fields (fields : List AnsiString) (name : AnsiString) :
    header (fields.map fun line => (looseName line, looseValue line)) name = firstValue fields name := by
  rw [header, firstValue, List.find?_map, Option.map_map]
  rfl

theorem parseRequestLine_iff {requestLine method target version : AnsiString} :
    parseRequestLine requestLine = some (method, target, version) ↔
      requestLine = method ++ 32 :: (target ++ 32 :: version) ∧ 32 ∉ method ∧ 32 ∉ version ∧ method ≠ [] ∧ target ≠ [] ∧
        version.length = 8 ∧ version.take 7 = ansi "HTTP/1." := by
  constructor
  · intro h
    unfold parseRequestLine at h
    split at h
    · rename_i m r front v hfirst hlast
      obtain ⟨hline, hm⟩ := eq_of_cut hfirst
      obtain ⟨hline', hv⟩ := eq_of_cutLast hlast
      split at h
      · cases h
      · rename_i hlength
        dsimp only at h
        split at h
        · cases h
        · rename_i hshape
          simp only [not_or, not_not] at hshape
          cases h
          -- the second space is behind the first
          have hsplit : method ++ 32 :: r = front ++ 32 :: version := hline.symm.trans hline'
          have hle : method.length < front.length := by
            by_contra hnot
            have hlt : front.length < method.length := by omega
            have hget := congrArg (·[front.length]?) hsplit
            simp only [List.getElem?_append_left hlt, List.getElem?_append_right (Nat.le_refl front.length), Nat.sub_self,
              List.getElem?_cons_zero] at hget
            exact hm (List.mem_of_getElem? hget)
          have hfront : front = method ++ 32 :: front.drop (method.length + 1) := by
            have htake := congrArg (List.take (method.length + 1)) hsplit
            rw [List.take_append, List.take_append_of_le_length (by omega)] at htake
            have hhead : front.take (method.length + 1) = method ++ [32] := by
              rw [← htake]
              simp
            calc front = front.take (method.length + 1) ++ front.drop (method.length + 1) := (List.take_append_drop _ _).symm
              _ = method ++ 32 :: front.drop (method.length + 1) := by
                rw [hhead]
                simp
          refine ⟨?_, hm, hv, hshape.1, hshape.2.1, hshape.2.2⟩
          rw [hline']
          conv_lhs => rw [hfront]
          simp
    · cases h
  · rintro ⟨rfl, hm, hv, hmethod, htarget, hlength, hversion⟩
    have hlast : cutLast 32 (method ++ 32 :: (target ++ 32 :: version)) = some (method ++ 32 :: target, version) := by
      have hassoc : method ++ 32 :: (target ++ 32 :: version) = (method ++ 32 :: target) ++ 32 :: version := by simp
      rw [hassoc, cutLast_append hv]
    have hdrop : (method ++ 32 :: target).drop (method.length + 1) = target := by
      rw [List.drop_append, List.drop_eq_nil_of_le (by omega)]
      simp
    unfold parseRequestLine
    rw [cut_append hm, hlast]
    dsimp only
    rw [if_neg (by simp), hdrop, if_neg (by simp [hmethod, htarget, hlength, hversion])]

/-- What a head that is parsed is. -/
theorem parseHead_iff {head : AnsiString} {request : HttpRequest} {length : Nat} :
    parseHead head = some (request, length) ↔
      ∃ requestLine method target version, 0 ∉ head ∧ (lines head).head? = some requestLine ∧
        parseRequestLine requestLine = some (method, target, version) ∧ (∀ line ∈ fieldLines head, 58 ∈ line) ∧
        parseLength (firstValue (fieldLines head) (ansi "content-length")) = some length ∧
        request = ⟨method, target, version, head, [], [], (fieldLines head).map fun line => (looseName line, looseValue line)⟩ := by
  unfold parseHead
  by_cases hnul : 0 ∈ head
  · rw [if_pos hnul]
    exact ⟨fun h => (by cases h), fun ⟨_, _, _, _, hno, _⟩ => absurd hnul hno⟩
  rw [if_neg hnul]
  cases hlines : lines head with
  | nil => exact ⟨fun h => (by cases h), fun ⟨_, _, _, _, _, h, _⟩ => (by cases h)⟩
  | cons line rest =>
    have hfields : fieldLines head = rest.takeWhile (· ≠ []) := by rw [fieldLines, hlines, List.tail_cons]
    dsimp only
    rw [parseFields_eq, ← hfields]
    cases hparse : parseRequestLine line with
    | none =>
      refine ⟨fun h => (by cases h), ?_⟩
      rintro ⟨requestLine, _, _, _, _, hhead, hline, _⟩
      rw [← Option.some.inj hhead, hparse] at hline
      cases hline
    | some p =>
      obtain ⟨method, target, version⟩ := p
      by_cases hcolons : ∀ line ∈ fieldLines head, 58 ∈ line
      · rw [if_pos hcolons]
        dsimp only
        rw [header_fields, Option.map_eq_some_iff]
        constructor
        · rintro ⟨n, hn, heq⟩
          cases heq
          exact ⟨line, method, target, version, hnul, rfl, hparse, hcolons, hn, rfl⟩
        · rintro ⟨_, _, _, _, _, hhead, hline, _, hlength, rfl⟩
          rw [← Option.some.inj hhead, hparse] at hline
          cases hline
          exact ⟨length, hlength, rfl⟩
      · rw [if_neg hcolons]
        exact ⟨fun h => (by cases h), fun ⟨_, _, _, _, _, _, _, hall, _⟩ => absurd hall hcolons⟩

/-! ## Steps -/

section
variable {server : Server}

/-- What one request brings about: nothing is read, or the last entry is no request
    that was handed over, or it is one that passes. -/
inductive Result (server : Server) (c : Connection) : Connection → Prop where
  | ended {c' : Connection} (hlog : c'.log = c.log) (hclosed : c'.closed = true) : Result server c c'
  | stopped {c' : Connection} {head : AnsiString} {outcome : Outcome} (hlog : c'.log = c.log ++ [(head, outcome)])
      (hclosed : c'.closed = true) (hnot : ¬outcome.IsHanded) : Result server c c'
  | handed {c' : Connection} {head rest : AnsiString} {request : HttpRequest} (hcut : cutHead c.stream = some (head, rest))
      (hbody : request.body <+: rest) (hpasses : Passes server head request.body)
      (hlog : c'.log = c.log ++ [(head, .handed request)]) : Result server c c'

theorem refuse_result (c : Connection) (stream head : AnsiString) (status : Nat) :
    Result server c ({ c with stream := stream }.refuse head status) := .stopped rfl rfl id

theorem step_result (server : Server) {c : Connection} (hopen : c.closed = false) (running : Bool) :
    Result server c (c.step server (.request running)) := by
  rw [Connection.step, if_neg (by rw [hopen]; exact Bool.false_ne_true)]
  cases hcut : cutHead c.stream with
  | none => exact .ended rfl rfl
  | some p =>
    obtain ⟨head, rest⟩ := p
    dsimp only
    split
    · exact .ended rfl rfl
    rw [Connection.onHead]
    cases hparse : parseHead head with
    | none => exact refuse_result c _ head 400
    | some p =>
      obtain ⟨request, length⟩ := p
      obtain ⟨requestLine, method, target, version, hnul, hhead, hline, hcolons, hlength, rfl⟩ := parseHead_iff.1 hparse
      dsimp only
      split
      · exact refuse_result c _ head 413
      rename_i hsize
      rw [not_or] at hsize
      split
      · exact .stopped rfl rfl id
      rename_i hshort
      have htake : (rest.take length).length = length := by
        rw [List.length_take]
        omega
      rw [Connection.onBody]
      dsimp only
      split
      · exact refuse_result c _ head 400
      rename_i htext
      split
      · exact refuse_result c _ head 411
      rename_i hencoding
      rw [header_fields] at htext hencoding
      obtain ⟨rfl, hm, hv, hshape⟩ := parseRequestLine_iff.1 hline
      refine .handed hcut (List.take_prefix length rest) ?_ rfl
      refine ⟨hnul, ⟨method, target, version, hhead, hm, hv, hshape.1, hshape.2.1, hshape.2.2.1, hshape.2.2.2, ?_⟩, ?_, hcolons,
        ?_, not_not.1 hencoding, ?_⟩
      · rw [htake]
        omega
      · omega
      · rw [htake]
        exact hlength
      · rw [not_and_or, not_not] at htext
        exact htext

/-- A request that passes is handed over. -/
theorem step_passes (server : Server) {c : Connection} (hopen : c.closed = false) {head rest body : AnsiString}
    (hcut : cutHead c.stream = some (head, rest)) (hbody : body <+: rest) (h : Passes server head body) (running : Bool) :
    ∃ request, (c.step server (.request running)).log = c.log ++ [(head, .handed request)] ∧ request.body = body := by
  obtain ⟨method, target, version, hhead, hm, hv, hmethod, htarget, hlength, hversion, hcap⟩ := h.requestLine
  have hline := parseRequestLine_iff.2 ⟨rfl, hm, hv, hmethod, htarget, hlength, hversion⟩
  have hparse := parseHead_iff.2 ⟨_, method, target, version, h.noNul, hhead, hline, h.colons, h.length, rfl⟩
  have htake : rest.take body.length = body := List.prefix_iff_eq_take.1 hbody |>.symm
  have hmax : ¬maxBuffer server < head.length := by
    have hsize := h.size
    rw [maxBuffer]
    omega
  have hsizes : ¬(server.limits.maxRequestBytes < head.length ∨ cap server method target head < head.length + body.length) := by
    have hsize := h.size
    rw [not_or]
    constructor
    · omega
    · omega
  have hle : ¬rest.length < body.length := Nat.not_lt.2 hbody.length_le
  rw [Connection.step, if_neg (by rw [hopen]; exact Bool.false_ne_true), hcut]
  dsimp only
  rw [if_neg hmax, Connection.onHead, hparse]
  dsimp only
  rw [if_neg hsizes, if_neg hle, htake, Connection.onBody]
  dsimp only
  rw [header_fields, header_fields, if_neg, if_neg (not_not.2 h.encoding)]
  · exact ⟨_, rfl, rfl⟩
  · rw [not_and_or, not_not]
    exact h.text

/-! ## Runs -/

/-- What was not handed over ends the connection. -/
def Closing (c : Connection) : Prop :=
  ∀ front head outcome back, c.log = front ++ (head, outcome) :: back → ¬outcome.IsHanded → back = [] ∧ c.closed = true

theorem closing_append {c c' : Connection} (h : Closing c) (hopen : c.closed = false) {head : AnsiString} {outcome : Outcome}
    (hlog : c'.log = c.log ++ [(head, outcome)]) (hlast : ¬outcome.IsHanded → c'.closed = true) : Closing c' := by
  intro front head' outcome' back heq hnot
  rw [hlog] at heq
  obtain rfl | ⟨back, last, rfl⟩ := List.eq_nil_or_concat' back
  · obtain ⟨_, hone⟩ := List.append_inj' heq rfl
    cases hone
    exact ⟨rfl, hlast hnot⟩
  · -- an entry in front of the last
    exfalso
    have hfront : c.log = front ++ (head', outcome') :: back := by
      have hassoc : front ++ (head', outcome') :: (back ++ [last]) = (front ++ (head', outcome') :: back) ++ [last] := by simp
      rw [hassoc] at heq
      exact (List.append_inj' heq rfl).1
    have hclosed := (h front head' outcome' back hfront hnot).2
    rw [hopen] at hclosed
    cases hclosed

theorem closing_closed {c c' : Connection} (h : Closing c) (hlog : c'.log = c.log) (hclosed : c'.closed = true) : Closing c' := by
  intro front head outcome back heq hnot
  rw [hlog] at heq
  exact ⟨(h front head outcome back heq hnot).1, hclosed⟩

theorem step_closed {c : Connection} (hclosed : c.closed = true) (running : Bool) :
    c.step server (.request running) = c := by
  rw [Connection.step, if_pos hclosed]

theorem step_closing {c : Connection} (h : Closing c) (event : Event) : Closing (c.step server event) := by
  cases event with
  | close => exact closing_closed h rfl rfl
  | request running =>
    cases hopen : c.closed with
    | true =>
      rw [step_closed hopen]
      exact h
    | false =>
      cases step_result server hopen running with
      | ended hlog hclosed => exact closing_closed h hlog hclosed
      | stopped hlog hclosed _ => exact closing_append h hopen hlog fun _ => hclosed
      | handed _ _ _ hlog => exact closing_append h hopen hlog fun hnot => absurd trivial hnot

theorem step_log {c : Connection} (event : Event) : c.log <+: (c.step server event).log := by
  cases event with
  | close => exact List.prefix_refl _
  | request running =>
    cases hopen : c.closed with
    | true => rw [step_closed hopen]
    | false =>
      cases step_result server hopen running with
      | ended hlog _ => rw [hlog]
      | stopped hlog _ _ =>
        rw [hlog]
        exact List.prefix_append _ _
      | handed _ _ _ hlog =>
        rw [hlog]
        exact List.prefix_append _ _

/-- All that was handed over is framed. -/
def AllFramed (c : Connection) : Prop := ∀ head request, (head, Outcome.handed request) ∈ c.log → Framed head request.body.length

theorem safe_iff {c : Connection} (h : Closing c) : Safe c ↔ AllFramed c := by
  constructor
  · exact fun hsafe => hsafe.framed
  · intro hall
    refine ⟨hall, fun front head outcome back heq hnone => ?_⟩
    have hnot : ¬outcome.IsHanded := by
      cases outcome with
      | handed request => exact absurd (hall head request (by rw [heq]; simp)) (hnone _)
      | refused => exact id
      | cutShort => exact id
    exact ⟨hnot, h front head outcome back heq hnot⟩

/-- One step keeps what was handed over framed exactly where it meets its condition. -/
theorem step_framed {c : Connection} (event : Event) :
    AllFramed (c.step server event) ↔ AllFramed c ∧ Meets server c event := by
  have hback : AllFramed (c.step server event) → AllFramed c :=
    fun h head request hmem => h head request ((step_log event).subset hmem)
  cases event with
  | close => exact ⟨fun h => ⟨hback h, trivial⟩, fun h => h.1⟩
  | request running =>
    cases hopen : c.closed with
    | true =>
      rw [step_closed hopen]
      exact ⟨fun h => ⟨h, fun hc => absurd (hopen.symm.trans hc) (by decide)⟩, fun h => h.1⟩
    | false =>
      constructor
      · refine fun h => ⟨hback h, fun _ => ?_⟩
        rintro ⟨head, rest, body, hcut, hbody, hpasses, hfaulty⟩
        obtain ⟨request, hlog, rfl⟩ := step_passes server hopen hcut hbody hpasses running
        exact (framed_iff hpasses).1 (h head request (by rw [hlog]; simp)) hfaulty
      · rintro ⟨hall, hmeets⟩ head request hmem
        cases step_result server hopen running with
        | ended hlog _ => exact hall head request (hlog ▸ hmem)
        | stopped hlog _ hnot =>
          rw [hlog] at hmem
          obtain hmem | hmem := List.mem_append.1 hmem
          · exact hall head request hmem
          · cases List.mem_singleton.1 hmem
            exact absurd trivial hnot
        | handed hcut hbody hpasses hlog =>
          rw [hlog] at hmem
          obtain hmem | hmem := List.mem_append.1 hmem
          · exact hall head request hmem
          · cases List.mem_singleton.1 hmem
            exact (framed_iff hpasses).2 fun hfaulty => hmeets hopen ⟨_, _, _, hcut, hbody, hpasses, hfaulty⟩

theorem run_closing (c : Connection) (h : Closing c) (events : List Event) : Closing (c.run server events) := by
  induction events generalizing c with
  | nil => exact h
  | cons event events ih => exact ih _ (step_closing h event)

theorem run_framed (c : Connection) (events : List Event) :
    AllFramed (c.run server events) ↔
      AllFramed c ∧ ∀ front event back, events = front ++ event :: back → Meets server (c.run server front) event := by
  induction events generalizing c with
  | nil =>
    refine ⟨fun h => ⟨h, fun front event back heq => ?_⟩, fun h => h.1⟩
    simp at heq
  | cons event events ih =>
    have hrun : c.run server (event :: events) = (c.step server event).run server events := rfl
    rw [hrun, ih, step_framed, and_assoc]
    refine and_congr_right fun _ => ?_
    constructor
    · rintro ⟨hmeets, hrest⟩ front event' back heq
      cases front with
      | nil =>
        cases heq
        exact hmeets
      | cons first front =>
        rw [List.cons_append, List.cons_eq_cons] at heq
        obtain ⟨rfl, heq⟩ := heq
        exact hrest front event' back heq
    · intro h
      exact ⟨h [] event events rfl, fun front event' back heq => h (event :: front) event' back (by rw [heq]; rfl)⟩

end

/-- A connection is safe in every state of a run exactly where each request of the run
    meets its condition. -/
theorem requests_are_framed_iff (server : Server) (stream : AnsiString) (events : List Event) :
    Safe ((connected stream).run server events) ↔
      ∀ front event back, events = front ++ event :: back → Meets server ((connected stream).run server front) event := by
  have hstart : Closing (connected stream) := by
    intro front head outcome back heq
    simp [connected] at heq
  have hempty : AllFramed (connected stream) := fun head request hmem => absurd hmem List.not_mem_nil
  rw [safe_iff (run_closing _ hstart events), run_framed, and_iff_right hempty]

/-! ## Two lengths -/

theorem Decimal.value {value : AnsiString} {n : Nat} (h : Decimal value n) :
    digitsValue (value.filter fun c => !isBlank c) = n := by
  have hdigit : ∀ c, isDigit c = true → isBlank c = false := Byte.forall_of_lt (by decide +kernel)
  obtain ⟨before, digits, after, rfl, hblank, _, hdigits, hvalue⟩ := h
  have hbefore : before.filter (fun c => !isBlank c) = [] := by
    rw [List.filter_eq_nil_iff]
    exact fun c hc => by simp [hblank c (List.mem_append_left _ hc)]
  have hafter : after.filter (fun c => !isBlank c) = [] := by
    rw [List.filter_eq_nil_iff]
    exact fun c hc => by simp [hblank c (List.mem_append_right _ hc)]
  have hkept : digits.filter (fun c => !isBlank c) = digits := by
    rw [List.filter_eq_self]
    exact fun c hc => by simp [hdigit c (hdigits c hc)]
  rw [List.filter_append, List.filter_append, hbefore, hafter, hkept, List.nil_append, List.append_nil, hvalue]

/-- The limits of the web services, and a handler that answers. -/
def plainServer : Server where
  limits := ⟨65536, 0, 1000⟩
  largeRequestFilter _ _ := false
  handler _ := some false

def twoLengths : AnsiString := ansi "POST / HTTP/1.1\r\nContent-Length: 0\r\nContent-Length: 40\r\n\r\n"

theorem twoLengths_passes : Passes plainServer twoLengths [] where
  noNul := by decide
  requestLine := ⟨ansi "POST", ansi "/", ansi "HTTP/1.1", by decide⟩
  size := by decide
  colons := by decide
  length := by decide
  encoding := by decide
  text := .inr List.not_mem_nil

/-- A request that declares two lengths is handed over. -/
theorem two_lengths_handed : ∃ server stream events, ¬Safe ((connected stream).run server events) := by
  refine ⟨plainServer, twoLengths, [.request true], fun hsafe => ?_⟩
  have hcut : cutHead (connected twoLengths).stream = some (twoLengths, []) := by decide +kernel
  obtain ⟨request, hlog, hbody⟩ := step_passes _ rfl hcut (List.prefix_refl []) twoLengths_passes true
  have hframed := hsafe.framed twoLengths request (by
    show _ ∈ ((connected twoLengths).step plainServer (.request true)).log
    rw [hlog]
    simp)
  have hline : ansi "Content-Length: 40" ∈ fieldLines twoLengths ∧
      lower (fieldName (ansi "Content-Length: 40")) = ansi "content-length" ∧ 58 ∈ ansi "Content-Length: 40" := by
    decide +kernel
  have hvalue := (hframed.lengths _ hline.1 ⟨hline.2.2, hline.2.1⟩).value
  rw [hbody] at hvalue
  exact absurd hvalue (by decide +kernel)

end HMailServer.HttpConnection
