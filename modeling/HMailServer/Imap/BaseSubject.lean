import HMailServer.Util.WideString

/- The RFC 5256 base subject (`IMAP/IMAPThread.cpp`, `CalculateBaseSubject_` and
   the matchers it uses). Every loop of the source shortens its string or moves
   its cursor forward, so each is run with the string's length as fuel. -/
namespace HMailServer.BaseSubject
open WString

def isWsp (c : WChar) : Bool := c == 32 || c == 9

/-- `MatchSubjBlob_`: the position after "[...]" and the blanks behind it. -/
def matchSubjBlob (value : WString) (position : Nat) : Option Nat :=
  if value[position]? ≠ some 91 then none
  else
    match findFrom value 93 (position + 1) with
    | none => none
    | some close => some (close + 1 + ((value.drop (close + 1)).takeWhile isWsp).length)

/-- The length of the "fwd", "re" or "fw" a string starts with. -/
def refwdWord (rest : WString) : Option Nat :=
  if equalsNoCase (rest.take 3) (wide "fwd") then some 3
  else if equalsNoCase (rest.take 2) (wide "re") then some 2
  else if equalsNoCase (rest.take 2) (wide "fw") then some 2
  else none

/-- `MatchSubjRefwd_`: the position after the colon of a reply or forward leader. -/
def matchSubjRefwd (value : WString) (position : Nat) : Option Nat :=
  match refwdWord (value.drop position) with
  | none => none
  | some wordLength =>
    let cursor := position + wordLength
    let cursor := cursor + ((value.drop cursor).takeWhile isWsp).length
    let cursor := (matchSubjBlob value cursor).getD cursor
    if value[cursor]? ≠ some 58 then none else some (cursor + 1)

/-- Step 1: tabs and line breaks become blanks, and runs of blanks one blank. -/
def collapseBlanks : Bool → WString → WString
  | _, [] => []
  | lastWasSpace, c :: rest =>
    let c := if c == 9 || c == 13 || c == 10 then 32 else c
    if c == 32 then
      if lastWasSpace then collapseBlanks true rest else c :: collapseBlanks true rest
    else c :: collapseBlanks false rest

/-- Step 2: trailing blanks and "(fwd)", repeatedly. -/
def stripTrailers : Nat → WString → Bool → WString × Bool
  | 0, value, isReply => (value, isReply)
  | fuel + 1, value, isReply =>
    let stripped := value.rdropWhile isWsp
    if 5 ≤ stripped.length ∧
        equalsNoCase (stripped.drop (stripped.length - 5)) (wide "(fwd)") = true then
      stripTrailers fuel (stripped.take (stripped.length - 5)) true
    else if stripped.length ≠ value.length then stripTrailers fuel stripped isReply
    else (stripped, isReply)

/-- The blobs in front of a leader. -/
def skipBlobs (value : WString) : Nat → Nat → Nat
  | 0, cursor => cursor
  | fuel + 1, cursor =>
    match matchSubjBlob value cursor with
    | none => cursor
    | some afterBlob => skipBlobs value fuel afterBlob

/-- Steps 3 and 4: leaders with their blobs, and bare leading blobs. -/
def stripLeaders : Nat → WString → Bool → WString × Bool
  | 0, value, isReply => (value, isReply)
  | fuel + 1, value, isReply =>
    match matchSubjRefwd value (skipBlobs value (value.length + 1) 0) with
    | some afterRefwd =>
      let afterRefwd := afterRefwd + ((value.drop afterRefwd).takeWhile isWsp).length
      stripLeaders fuel (value.drop afterRefwd) true
    | none =>
      match matchSubjBlob value 0 with
      | some afterBare =>
        if afterBare < value.length then stripLeaders fuel (value.drop afterBare) isReply
        else (value, isReply)
      | none => (value, isReply)

/-- Step 5 around steps 2 to 4: the "[fwd: ...]" wrapper, outside-in. -/
def stripLayers : Nat → WString → Bool → WString × Bool
  | 0, value, isReply => (value, isReply)
  | fuel + 1, value, isReply =>
    let (value, isReply) := stripTrailers (value.length + 1) value isReply
    let (value, isReply) := stripLeaders (value.length + 1) value isReply
    if 6 ≤ value.length ∧ equalsNoCase (value.take 5) (wide "[fwd:") = true ∧
        value.getLast? = some 93 then
      stripLayers fuel (mid value 5 (value.length - 6)) true
    else (value, isReply)

/-- `CalculateBaseSubject_`: the base subject, and whether a layer said reply or
forward. -/
def calculateBaseSubject (loc : Locale) (subject : WString) : WString × Bool :=
  let value := collapseBlanks false subject
  let r := stripLayers (value.length + 1) value false
  (trim loc r.1, r.2)

example : calculateBaseSubject ⟨(· == 32), id, id⟩ (wide "Re: [x] Fwd: hello (fwd)") =
    (wide "hello", true) := by decide

end HMailServer.BaseSubject
