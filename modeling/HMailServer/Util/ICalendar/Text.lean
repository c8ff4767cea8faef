import HMailServer.Util.AnsiString
import HMailServer.Lib.Cut
import HMailServer.Lib.QuotedSplit

/- The text part of the iCalendar reader and writer (`Common/Util/ICalendar.cpp`):
   unfolding, content lines, the component tree, folding and escaping. -/
namespace HMailServer
open Cut QuotedSplit

structure ICalProperty where
  name : AnsiString
  value : AnsiString
  parameters : List (AnsiString × AnsiString) := []
  deriving DecidableEq

inductive ICalComponent where
  | mk (name : AnsiString) (properties : List ICalProperty) (children : List ICalComponent)

namespace ICalComponent

def name : ICalComponent → AnsiString
  | .mk name _ _ => name

def addProperty : ICalComponent → ICalProperty → ICalComponent
  | .mk name properties children, property => .mk name (properties ++ [property]) children

def addChild : ICalComponent → ICalComponent → ICalComponent
  | .mk name properties children, child => .mk name properties (children ++ [child])

end ICalComponent

namespace ICalendar

def foldWidth : Nat := 75
def maxDepth : Nat := 8
def maxComponents : Nat := 2000
def maxProperties : Nat := 50000
def maxParametersPerProperty : Nat := 100

/-! ## Lines -/

def isSpaceOrTab (c : UInt8) : Bool := c == 32 || c == 9

/-- The physical lines, each without its line break, CRLF or bare LF. -/
def physicalLines (text : AnsiString) : List AnsiString :=
  let pieces := text.splitOn 10
  -- the text after the last line break is a line only where there is some
  let lines := if pieces.getLast? = some [] then pieces.dropLast else pieces
  lines.map fun line => if line.getLast? = some 13 then line.dropLast else line

/-- Physical lines joined where one begins with a space or a tab; `current` is
    the logical line so far. -/
def joinLines : Option AnsiString → List AnsiString → List AnsiString
  | current, [] => current.toList
  | none, line :: rest => joinLines (some line) rest
  | some current, line :: rest =>
    match line with
    | [] => current :: joinLines (some []) rest
    | c :: line =>
      if isSpaceOrTab c then joinLines (some (current ++ line)) rest
      else current :: joinLines (some (c :: line)) rest

def unfoldLines (text : AnsiString) : List AnsiString := joinLines none (physicalLines text)

/-! ## Content lines -/

def isNameCharacter (c : UInt8) : Bool := (65 ≤ c && c ≤ 90) || (48 ≤ c && c ≤ 57) || c == 45

/-- What is in front of the first equals sign, and what is after it. -/
def parameterPieces (parameter : AnsiString) : AnsiString × AnsiString :=
  match cut 61 parameter with
  | none => (parameter, [])
  | some pieces => pieces

/-- One parameter; nothing for an empty one. -/
def parseParameter (part : AnsiString) : Option (AnsiString × AnsiString) :=
  let parameter := AnsiString.trim part
  if parameter = [] then none
  else
    let pieces := parameterPieces parameter
    some (AnsiString.makeUpper (AnsiString.trim pieces.1), AnsiString.remove 34 (AnsiString.trim pieces.2))

def parseContentLine (line : AnsiString) : Option ICalProperty :=
  match cutUnquoted 34 58 false line with
  | none => none
  | some (head, value) =>
    if head = [] then none
    else match splitUnquoted 34 59 false head with
      | [] => none
      | first :: parts =>
        let name := AnsiString.makeUpper (AnsiString.trim first)
        if name = [] ∨ name.all isNameCharacter = false then none
        else some { name := name, value := value,
                    parameters := (parts.take maxParametersPerProperty).filterMap parseParameter }

def endsValue (c : UInt8) : Bool := c == 59 || c == 58 || c == 44

/-- Quoted where it holds a character that would end it, without quotation marks
    of its own. -/
def parameterText (value : AnsiString) : AnsiString :=
  let clean := AnsiString.remove 34 value
  if value.any endsValue then 34 :: clean ++ [34] else clean

/-! ## The component tree -/

/-- The reader's state: the open components, innermost first, and the closed
    VCALENDAR. -/
structure Reader where
  stack : List ICalComponent := []
  root : Option ICalComponent := none
  components : Nat := 0
  propertyCount : Nat := 0

def noName : AnsiString := ansi "a content line has no property name before its colon"
def noCalendar : AnsiString := ansi "the object does not begin with BEGIN:VCALENDAR"

def readBegin (r : Reader) (upperValue : AnsiString) : Except AnsiString Reader :=
  if r.root.isSome then .error (ansi "there is content after END:VCALENDAR; a resource holds one calendar object")
  else if upperValue = [] then .error (ansi "a BEGIN without a component name")
  else match r.stack with
    | [] =>
      if upperValue ≠ ansi "VCALENDAR" then .error noCalendar
      else .ok { r with stack := [.mk (ansi "VCALENDAR") [] []] }
    | _ :: _ =>
      if maxDepth ≤ r.stack.length then .error (ansi "components nested too deeply")
      else if maxComponents < r.components + 1 then .error (ansi "too many components")
      else .ok { r with stack := .mk upperValue [] [] :: r.stack, components := r.components + 1 }

def readEnd (r : Reader) (upperValue : AnsiString) : Except AnsiString Reader :=
  match r.stack with
  | [] => .error noCalendar
  | innermost :: outer =>
    if upperValue ≠ innermost.name then
      .error (ansi "END:" ++ upperValue ++ ansi " does not close BEGIN:" ++ innermost.name)
    else match outer with
      | [] => .ok { r with stack := [], root := some innermost }
      | parent :: outer => .ok { r with stack := parent.addChild innermost :: outer }

def readProperty (r : Reader) (property : ICalProperty) : Except AnsiString Reader :=
  match r.stack with
  | [] => .error noCalendar
  | innermost :: outer =>
    if maxProperties < r.propertyCount + 1 then .error (ansi "too many properties")
    else .ok { r with stack := innermost.addProperty property :: outer, propertyCount := r.propertyCount + 1 }

def readLine (r : Reader) (line : AnsiString) : Except AnsiString Reader :=
  if AnsiString.trim line = [] then .ok r
  else match parseContentLine line with
    | none => .error noName
    | some property =>
      let upperValue := AnsiString.makeUpper (AnsiString.trim property.value)
      if property.name = ansi "BEGIN" then readBegin r upperValue
      else if property.name = ansi "END" then readEnd r upperValue
      else readProperty r property

def readLines : Reader → List AnsiString → Except AnsiString Reader
  | r, [] => .ok r
  | r, line :: rest =>
    match readLine r line with
    | .error problem => .error problem
    | .ok r => readLines r rest

/-- What is wrong at the end of the text, or the tree. -/
def finishReading (r : Reader) : Except AnsiString ICalComponent :=
  match r.root, r.stack with
  | some root, _ => .ok root
  | none, [] => .error noCalendar
  | none, innermost :: _ => .error (ansi "BEGIN:" ++ innermost.name ++ ansi " is never closed")

def parse (text : AnsiString) : Except AnsiString ICalComponent :=
  match readLines {} (unfoldLines text) with
  | .error problem => .error problem
  | .ok r => finishReading r

/-! ## Writing -/

def crlf : AnsiString := [13, 10]

def isContinuation (c : UInt8) : Bool := c &&& 0xc0 == 0x80

/-- How much of `rest` goes on the line: at most `take`, and back to before a
    continuation byte. -/
def backOff (rest : AnsiString) : Nat → Nat
  | 0 => 0
  | 1 => 1
  | take + 2 =>
    match rest[take + 2]? with
    | some c => if isContinuation c then backOff rest (take + 1) else take + 2
    | none => take + 2

theorem backOff_pos (rest : AnsiString) {take : Nat} (h : 0 < take) : 0 < backOff rest take := by
  fun_induction backOff rest take with
  | case1 => exact h
  | case2 => exact h
  | case3 take c hc hcont ih => exact ih (Nat.succ_pos _)
  | case4 => exact h
  | case5 => exact h

/-- The pieces of a line, the first of at most `width` octets. -/
def foldPieces (width : Nat) (hwidth : 0 < width) (rest : AnsiString) : List AnsiString :=
  if h : rest = [] then []
  else
    let take := backOff rest (min width rest.length)
    rest.take take :: foldPieces (foldWidth - 1) (by decide) (rest.drop take)
  termination_by rest.length
  decreasing_by
    have hlength : 0 < rest.length := List.length_pos_iff.2 h
    have htake := backOff_pos rest (show 0 < min width rest.length by omega)
    rw [List.length_drop]
    omega

def fold (line : AnsiString) : AnsiString :=
  if line.length ≤ foldWidth then line
  else (crlf ++ [32]).intercalate (foldPieces foldWidth (by decide) line)

def propertyLine (property : ICalProperty) : AnsiString :=
  AnsiString.makeUpper property.name ++
    (property.parameters.flatMap fun parameter =>
      59 :: AnsiString.makeUpper parameter.1 ++ 61 :: parameterText parameter.2) ++
    58 :: property.value

mutual

def serializeInto : ICalComponent → Nat → AnsiString
  | .mk name properties children, depth =>
    if maxDepth < depth then []
    else ansi "BEGIN:" ++ AnsiString.makeUpper name ++ crlf ++
      (properties.flatMap fun property => fold (propertyLine property) ++ crlf) ++
      serializeChildren children (depth + 1) ++ ansi "END:" ++ AnsiString.makeUpper name ++ crlf

def serializeChildren : List ICalComponent → Nat → AnsiString
  | [], _ => []
  | child :: children, depth => serializeInto child depth ++ serializeChildren children depth

end

def serialize (component : ICalComponent) : AnsiString := serializeInto component 0

/-! ## Text values -/

def unescape : AnsiString → AnsiString
  | 92 :: next :: rest =>
    if next = 110 ∨ next = 78 then 10 :: unescape rest
    else if next = 44 ∨ next = 59 ∨ next = 92 then next :: unescape rest
    else 92 :: unescape (next :: rest)
  | c :: rest => c :: unescape rest
  | [] => []

def escapeByte (c : UInt8) : AnsiString :=
  if c = 92 then [92, 92]
  else if c = 10 then [92, 110]
  else if c = 13 then []
  else if c = 44 then [92, 44]
  else if c = 59 then [92, 59]
  else [c]

def escape (value : AnsiString) : AnsiString := value.flatMap escapeByte

end ICalendar
end HMailServer
