import HMailServer.Util.WideString
import HMailServer.Lib.Cut

/- Sieve scripts as the parser hands them over, and the splitting of their
   arguments (`Common/Sieve/SieveParser.h`, `SieveParser::SplitArguments` and
   `SplitFlagList`). -/
namespace HMailServer

inductive SieveArgument where
  | stringList (strings : List WString) (line : Nat)
  | number (number : Int) (line : Nat)
  | tag (tag : WString) (line : Nat)
  deriving DecidableEq

inductive SieveTest where
  | mk (name : WString) (arguments : List SieveArgument) (tests : List SieveTest)

inductive SieveCommand where
  | mk (name : WString) (arguments : List SieveArgument) (test : Option SieveTest) (block : List SieveCommand)

namespace SieveCommand

def name : SieveCommand → WString
  | .mk name _ _ _ => name

def arguments : SieveCommand → List SieveArgument
  | .mk _ arguments _ _ => arguments

end SieveCommand

structure SieveArgumentSet where
  tags : List WString := []
  matchType : WString := wide "is"
  matchTypeGiven : Bool := false
  relation : WString := []
  comparator : WString := wide "i;ascii-casemap"
  comparatorGiven : Bool := false
  addressPart : WString := wide "all"
  addressPartGiven : Bool := false
  sizeOver : Bool := true
  sizeGiven : Bool := false
  hasNumber : Bool := false
  number : Int := 0
  copy : Bool := false
  flagsGiven : Bool := false
  flags : List WString := []
  daysGiven : Bool := false
  days : Int := 0
  secondsGiven : Bool := false
  seconds : Int := 0
  subjectGiven : Bool := false
  subject : WString := []
  handleGiven : Bool := false
  handle : WString := []
  fromGiven : Bool := false
  fromAddress : WString := []
  addressesGiven : Bool := false
  addresses : List WString := []
  mime : Bool := false
  bodyTransform : WString := wide "text"
  bodyTransformGiven : Bool := false
  contentTypes : List WString := []
  mailboxCreate : Bool := false
  zone : WString := []
  zoneGiven : Bool := false
  originalZone : Bool := false
  indexValue : Int := 0
  indexGiven : Bool := false
  lastGiven : Bool := false
  percentGiven : Bool := false
  notifyMessage : WString := []
  notifyMessageGiven : Bool := false
  importance : Int := 2
  importanceGiven : Bool := false
  duplicateHeader : WString := []
  duplicateHeaderGiven : Bool := false
  uniqueId : WString := []
  uniqueIdGiven : Bool := false
  stringLists : List (List WString) := []
  deriving DecidableEq

namespace SieveParser

def tagTakesValue (lowerTag : WString) : Bool :=
  lowerTag ∈ [wide "comparator", wide "value", wide "count", wide "flags", wide "days", wide "seconds",
    wide "subject", wide "handle", wide "from", wide "addresses", wide "content", wide "zone", wide "index",
    wide "header", wide "uniqueid", wide "message", wide "importance"]

/-! ## Flag lists -/

def systemFlags : List WString :=
  [wide "\\Seen", wide "\\Answered", wide "\\Flagged", wide "\\Deleted", wide "\\Draft"]

def canonicalFlag (flag : WString) : WString :=
  (systemFlags.find? fun systemFlag => WString.equalsNoCase flag systemFlag).getD flag

def addFlag (result : List WString) (flag : WString) : List WString :=
  let flag := canonicalFlag flag
  if result.any fun existing => WString.equalsNoCase existing flag then result else result ++ [flag]

/-- The runs between spaces and tabs, canonicalised and each once. -/
def splitFlagList (values : List WString) : List WString :=
  (values.flatMap fun value => (value.splitOnP fun c => c == 32 || c == 9).filter (· ≠ [])).foldl addFlag []

/-! ## Arguments -/

/-- A tag without a value. -/
def plainTag (set : SieveArgumentSet) (tag : WString) : SieveArgumentSet :=
  if tag ∈ [wide "is", wide "contains", wide "matches", wide "regex"] then
    { set with matchType := tag, matchTypeGiven := true }
  else if tag ∈ [wide "all", wide "localpart", wide "domain", wide "user", wide "detail"] then
    { set with addressPart := tag, addressPartGiven := true }
  else if tag = wide "over" then { set with sizeOver := true, sizeGiven := true }
  else if tag = wide "under" then { set with sizeOver := false, sizeGiven := true }
  else if tag = wide "copy" then { set with copy := true }
  else if tag = wide "mime" then { set with mime := true }
  else if tag = wide "raw" ∨ tag = wide "text" then { set with bodyTransform := tag, bodyTransformGiven := true }
  else if tag = wide "create" then { set with mailboxCreate := true }
  else if tag = wide "originalzone" then { set with originalZone := true }
  else if tag = wide "last" then { set with lastGiven := true }
  else if tag = wide "percent" then { set with percentGiven := true }
  else set

/-- The tags whose value is a number; `none` for any other tag. -/
def numberTag (set : SieveArgumentSet) (tag : WString) (value : Int) : Option SieveArgumentSet :=
  if tag = wide "days" then some { set with days := value, daysGiven := true }
  else if tag = wide "seconds" then some { set with seconds := value, secondsGiven := true }
  -- the cast to a 32-bit integer
  else if tag = wide "index" then some { set with indexValue := value.bmod (2 ^ 32), indexGiven := true }
  else none

/-- A tag whose value is the string list `first :: rest`. -/
def stringTag (set : SieveArgumentSet) (tag first : WString) (rest : List WString) : SieveArgumentSet :=
  if tag = wide "comparator" then { set with comparator := first, comparatorGiven := true }
  else if tag = wide "value" ∨ tag = wide "count" then
    { set with matchType := tag, matchTypeGiven := true, relation := first }
  else if tag = wide "flags" then { set with flags := splitFlagList (first :: rest), flagsGiven := true }
  else if tag = wide "subject" then { set with subject := first, subjectGiven := true }
  else if tag = wide "handle" then { set with handle := first, handleGiven := true }
  else if tag = wide "from" then { set with fromAddress := first, fromGiven := true }
  else if tag = wide "addresses" then { set with addresses := first :: rest, addressesGiven := true }
  else if tag = wide "content" then
    { set with bodyTransform := wide "content", bodyTransformGiven := true, contentTypes := first :: rest }
  else if tag = wide "zone" then { set with zone := first, zoneGiven := true }
  else if tag = wide "header" then { set with duplicateHeader := first, duplicateHeaderGiven := true }
  else if tag = wide "uniqueid" then { set with uniqueId := first, uniqueIdGiven := true }
  else if tag = wide "message" then { set with notifyMessage := first, notifyMessageGiven := true }
  else if tag = wide "importance" then { set with importance := WString.ttoi 32 first, importanceGiven := true }
  else set

def decimal (n : Nat) : WString := (Nat.toDigits 10 n).map Char.toNat

def missingValue (line : Nat) (tag what : WString) : WString :=
  wide "Line " ++ decimal line ++ wide ": ':" ++ tag ++ wide "' must be followed by a " ++ what ++ wide "."

/-- The arguments read into `set`, or the error message. -/
def splitArguments (loc : Locale) : List SieveArgument → SieveArgumentSet → Except WString SieveArgumentSet
  | [], set => .ok set
  | .number n _ :: rest, set => splitArguments loc rest { set with number := n, hasNumber := true }
  | .stringList strings _ :: rest, set =>
    splitArguments loc rest { set with stringLists := set.stringLists ++ [strings] }
  | .tag name line :: rest, set =>
    let tag := WString.makeLower loc name
    let set := { set with tags := set.tags ++ [tag] }
    if !tagTakesValue tag then splitArguments loc rest (plainTag set tag)
    else
      match numberTag set tag 0, rest with
      | some _, .number n _ :: rest => splitArguments loc rest ((numberTag set tag n).getD set)
      | some _, _ => .error (missingValue line tag (wide "number"))
      | none, .stringList (first :: more) _ :: rest => splitArguments loc rest (stringTag set tag first more)
      | none, _ => .error (missingValue line tag (wide "string"))

end SieveParser
end HMailServer
