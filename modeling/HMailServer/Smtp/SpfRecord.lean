import HMailServer.Smtp.SpfSyntax

/- An SPF record and its parser (`SMTP/SPF/SPFRecord.cpp`). A record that does not parse
   answers the text of its error. -/
namespace HMailServer

/-- Spelled as the source spells them: two of the names in lower case are keywords. -/
inductive SPFMechanism.MechanismType where
  | All
  | Include
  | A
  | MX
  | PTR
  | IP4
  | IP6
  | Exists
  deriving DecidableEq

inductive SPFMechanism.Qualifier where
  | pass
  | fail
  | softFail
  | neutral
  deriving DecidableEq

/-- One directive; the domain-spec is that of `GetHasDomainSpec`. -/
structure SPFMechanism where
  type : SPFMechanism.MechanismType
  qualifier : SPFMechanism.Qualifier
  domainSpec : Option AnsiString := none
  address : AnsiString := []
  ip4PrefixLength : Nat := 32
  ip6PrefixLength : Nat := 128
  deriving DecidableEq

/-- The directives in their order, and the two modifiers kept aside. -/
structure SPFRecord where
  mechanisms : List SPFMechanism := []
  redirectDomainSpec : Option AnsiString := none
  explanationDomainSpec : Option AnsiString := none
  deriving DecidableEq

namespace SPFRecord
open SPFSyntax SPFMechanism

/-! ## The pieces of a term -/

def version : AnsiString := ansi "v=spf1"

def equalsNoCase (left : AnsiString) (right : String) : Bool := AnsiString.equalsNoCase left (ansi right)

def hasVersionTag (textRecord : AnsiString) : Bool :=
  if textRecord.length < version.length then false
  else if !AnsiString.equalsNoCase (textRecord.take version.length) version then false
  else textRecord.length == version.length || textRecord[version.length]? == some 32

def splitTerms (text : AnsiString) : List AnsiString := (split text 32).filter fun term => !term.isEmpty

/-- The text in front of the slash that introduces a trailing run of digits, and the
    digits. -/
def findTrailingLength (term : AnsiString) : Option (AnsiString × AnsiString) :=
  match afterLast 47 term with
  | none => none
  | some digits =>
    if digits.isEmpty then none
    else if !digits.all AnsiString.isDigit then none
    else some (term.take (term.length - digits.length - 1), digits)

/-- What is left of the term, and the two lengths. -/
def tryReadDualPrefixLengths (term : AnsiString) (ip4Length ip6Length : Nat) : Option (AnsiString × Nat × Nat) :=
  match findTrailingLength term with
  | none => some (term, ip4Length, ip6Length)
  | some (front, digits) =>
    if front.getLast? ≠ some 47 then
      (tryParsePrefixLength digits 32).map fun length => (front, length, ip6Length)
    else
      match tryParsePrefixLength digits 128 with
      | none => none
      | some ip6Length =>
        match findTrailingLength front.dropLast with
        | none => some (front.dropLast, ip4Length, ip6Length)
        | some (previous, moreDigits) =>
          if previous.getLast? = some 47 then none
          else (tryParsePrefixLength moreDigits 32).map fun length => (previous, length, ip6Length)

def tryReadSinglePrefixLength (term : AnsiString) (maximumLength length : Nat) : Option (AnsiString × Nat) :=
  match findTrailingLength term with
  | none => some (term, length)
  | some (front, digits) =>
    if front.getLast? = some 47 then none
    else (tryParsePrefixLength digits maximumLength).map fun length => (front, length)

/-! ## The directives -/

def push (record : SPFRecord) (mechanism : SPFMechanism) : SPFRecord :=
  { record with mechanisms := record.mechanisms ++ [mechanism] }

def parseAll (qualifier : Qualifier) (remainder : AnsiString) (record : SPFRecord) : Except AnsiString SPFRecord :=
  if !remainder.isEmpty then .error (ansi "The all mechanism takes no argument.")
  else .ok (record.push { type := .All, qualifier })

def parseWithRequiredDomain (type : MechanismType) (qualifier : Qualifier) (remainder : AnsiString)
    (record : SPFRecord) : Except AnsiString SPFRecord :=
  if remainder.head? ≠ some 58 then .error (ansi "The mechanism needs a domain.")
  else if !isValidDomainSpec remainder.tail then .error (ansi "Not a valid domain: " ++ remainder.tail)
  else .ok (record.push { type, qualifier, domainSpec := some remainder.tail })

def parseAddressMechanism (type : MechanismType) (qualifier : Qualifier) (remainder : AnsiString)
    (record : SPFRecord) : Except AnsiString SPFRecord :=
  match tryReadDualPrefixLengths remainder 32 128 with
  | none => .error (ansi "Not a valid prefix length: " ++ remainder)
  | some (rest, ip4PrefixLength, ip6PrefixLength) =>
    if rest.isEmpty then .ok (record.push { type, qualifier, ip4PrefixLength, ip6PrefixLength })
    else if rest.head? ≠ some 58 then .error (ansi "Not a valid mechanism argument: " ++ remainder)
    else if !isValidDomainSpec rest.tail then .error (ansi "Not a valid domain: " ++ rest.tail)
    else .ok (record.push { type, qualifier, domainSpec := some rest.tail, ip4PrefixLength, ip6PrefixLength })

def parsePtr (qualifier : Qualifier) (remainder : AnsiString) (record : SPFRecord) : Except AnsiString SPFRecord :=
  if remainder.isEmpty then .ok (record.push { type := .PTR, qualifier })
  else if remainder.head? ≠ some 58 then .error (ansi "Not a valid ptr argument: " ++ remainder)
  else if !isValidDomainSpec remainder.tail then .error (ansi "Not a valid domain: " ++ remainder.tail)
  else .ok (record.push { type := .PTR, qualifier, domainSpec := some remainder.tail })

/-- `ParseIP_`; the mechanism is one of the two for an address. -/
def parseIP (type : MechanismType) (qualifier : Qualifier) (remainder : AnsiString)
    (record : SPFRecord) : Except AnsiString SPFRecord :=
  if remainder.head? ≠ some 58 then .error (ansi "The mechanism needs an address.")
  else if type = .IP4 then
    match tryReadSinglePrefixLength remainder.tail 32 32 with
    | none => .error (ansi "Not a valid IPv4 prefix length: " ++ remainder)
    | some (rest, ip4PrefixLength) =>
      if !isValidIP4Network rest then .error (ansi "Not a valid IPv4 address: " ++ rest)
      else .ok (record.push { type, qualifier, address := rest, ip4PrefixLength })
  else
    match tryReadSinglePrefixLength remainder.tail 128 128 with
    | none => .error (ansi "Not a valid IPv6 prefix length: " ++ remainder)
    | some (rest, ip6PrefixLength) =>
      if !isValidIP6Network rest then .error (ansi "Not a valid IPv6 address: " ++ rest)
      else .ok (record.push { type, qualifier, address := rest, ip6PrefixLength })

/-- The qualifier in front of a directive, and the rest of it. -/
def readQualifier (term : AnsiString) : Qualifier × AnsiString :=
  match term with
  | [] => (.pass, [])
  | c :: rest =>
    if c = 43 then (.pass, rest)
    else if c = 45 then (.fail, rest)
    else if c = 126 then (.softFail, rest)
    else if c = 63 then (.neutral, rest)
    else (.pass, term)

/-- The colon that introduces an argument, or the slash that introduces a length. -/
def isArgumentStart (c : UInt8) : Bool := c == 58 || c == 47

def parseDirective (term : AnsiString) (record : SPFRecord) : Except AnsiString SPFRecord :=
  let (qualifier, rest) := readQualifier term
  let name := rest.takeWhile (!isArgumentStart ·)
  let remainder := rest.dropWhile (!isArgumentStart ·)
  if equalsNoCase name "all" then parseAll qualifier remainder record
  else if equalsNoCase name "include" then parseWithRequiredDomain .Include qualifier remainder record
  else if equalsNoCase name "exists" then parseWithRequiredDomain .Exists qualifier remainder record
  else if equalsNoCase name "a" then parseAddressMechanism .A qualifier remainder record
  else if equalsNoCase name "mx" then parseAddressMechanism .MX qualifier remainder record
  else if equalsNoCase name "ptr" then parsePtr qualifier remainder record
  else if equalsNoCase name "ip4" then parseIP .IP4 qualifier remainder record
  else if equalsNoCase name "ip6" then parseIP .IP6 qualifier remainder record
  else .error (ansi "Unknown term: " ++ term)

/-! ## The modifiers -/

def parseModifier (name value : AnsiString) (record : SPFRecord) : Except AnsiString SPFRecord :=
  if !isValidModifierName name then .error (ansi "Not a valid modifier name: " ++ name)
  else if equalsNoCase name "redirect" then
    if record.redirectDomainSpec.isSome then .error (ansi "The record carries more than one redirect modifier.")
    else if !isValidDomainSpec value then .error (ansi "Not a valid redirect domain: " ++ value)
    else .ok { record with redirectDomainSpec := some value }
  else if equalsNoCase name "exp" then
    if record.explanationDomainSpec.isSome then .error (ansi "The record carries more than one exp modifier.")
    else if !isValidDomainSpec value then .error (ansi "Not a valid exp domain: " ++ value)
    else .ok { record with explanationDomainSpec := some value }
  else if !isValidMacroString .recordTerm value then .error (ansi "Not a valid modifier value: " ++ value)
  else .ok record

/-- A modifier is told from a directive by an equals sign in front of any colon or slash. -/
def parseTerm (term : AnsiString) (record : SPFRecord) : Except AnsiString SPFRecord :=
  let name := term.takeWhile fun c => !isArgumentStart c && c != 61
  let rest := term.dropWhile fun c => !isArgumentStart c && c != 61
  if rest.head? = some 61 then parseModifier name rest.tail record else parseDirective term record

/-- The loop over the terms; a mistake ends it. -/
def parseTerms : List AnsiString → SPFRecord → Except AnsiString SPFRecord
  | [], record => .ok record
  | term :: terms, record =>
    match parseTerm term record with
    | .error error => .error error
    | .ok record => parseTerms terms record

def parse (textRecord : AnsiString) : Except AnsiString SPFRecord :=
  if !hasVersionTag textRecord then .error (ansi "The record does not begin with the SPF version.")
  else if !isAsciiPrintable textRecord then .error (ansi "The record contains a byte which is not printable ASCII.")
  else parseTerms (splitTerms textRecord).tail {}

end SPFRecord
end HMailServer
