import HMailServer.Util.AnsiString

/- Loading a header (`MimeField::Load`, `MimeField::UnfoldField`,
   `MimeHeader::Load`). What is left of the buffer from a pointer on is a
   suffix of it. -/
namespace HMailServer.MimeHeader
open AnsiString

structure LoadedField where
  name : AnsiString
  value : AnsiString
  deriving DecidableEq

/-- What is behind the first CRLF. -/
def afterLineEnd : AnsiString → Option AnsiString
  | 13 :: 10 :: s => some s
  | _ :: s => afterLineEnd s
  | [] => none

/-- Lines that begin with white space are passed, up to the end of the
    header. -/
def fieldStart : Nat → AnsiString → Option AnsiString
  | 0, _ => none
  | _, [] => none
  | n + 1, c :: s =>
    if isSpace c then
      if c = 13 then none
      else match afterLineEnd (c :: s) with
        | none => none
        | some next => fieldStart n next
    else some (c :: s)

/-- `LineFind(.., ':', ..)`: the name, and what is behind the colon. Without a
    colon in the line the name is empty. -/
def fieldName (s : AnsiString) : AnsiString × AnsiString :=
  let name := s.takeWhile fun c => c != 0 && c != 58 && c != 13 && c != 10
  match s.drop name.length with
  | 58 :: rest => (name, rest)
  | _ => ([], s)

/-- A field up to the CRLF that is not followed by white space, and what is
    behind it. -/
def fieldText : AnsiString → Option (AnsiString × AnsiString)
  | 13 :: 10 :: rest =>
    match rest with
    | [] => some ([13, 10], [])
    | c :: more =>
      if c = 9 ∨ c = 32 then (fieldText (c :: more)).map fun t => (13 :: 10 :: t.1, t.2)
      else some ([13, 10], c :: more)
  | c :: rest => (fieldText rest).map fun t => (c :: t.1, t.2)
  | [] => none

/-- The loop of `UnfoldField`: a run of line ends with the white space behind
    it becomes one space. -/
def unfoldFrom : Bool → AnsiString → AnsiString
  | _, [] => []
  | newLinePassed, c :: s =>
    if c = 13 ∨ c = 10 then (if newLinePassed then [] else [32]) ++ unfoldFrom true s
    else if isSpace c && newLinePassed then unfoldFrom newLinePassed s
    else c :: unfoldFrom false s

def unfoldField (s : AnsiString) : AnsiString := unfoldFrom false s

/-- `MimeField::Load`: the field and what is behind it; `none` is the answer
    0. -/
def loadField (data : AnsiString) (unfold : Bool) : Option (LoadedField × AnsiString) :=
  match fieldStart (data.length + 1) data with
  | none => none
  | some start =>
    let (name, behindColon) := fieldName start
    match fieldText (behindColon.dropWhile fun c => c == 32 || c == 9) with
    | none => none
    | some (text, rest) =>
      let value := text.take (text.length - 2)
      some (⟨name, if unfold then unfoldField value else value⟩, rest)

/-- The loop of `MimeHeader::Load`. Every turn takes a field, which bounds the
    turns. -/
def loadFields (unfold : Bool) : Nat → AnsiString → List LoadedField
  | 0, _ => []
  | n + 1, data =>
    match data with
    | [] => []
    | c :: _ =>
      if c = 0 ∨ c = 13 then []
      else match loadField data unfold with
        | none => []
        | some (field, rest) => field :: loadFields unfold n rest

def load (data : AnsiString) (unfold : Bool) : List LoadedField := loadFields unfold (data.length + 1) data

example : load (ansi "Subject: a\r\n b\r\nTo:\r\n") true = [⟨ansi "Subject", ansi "a b"⟩, ⟨ansi "To", []⟩] := by
  decide

end HMailServer.MimeHeader
