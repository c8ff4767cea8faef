import HMailServer.Smtp.SpfRecord
import HMailServer.Smtp.SpfReadableForm

/- Macro expansion (`SMTP/SPF/SPFMacroExpander.cpp`) up to the lookups: the values a macro
   stands for, the transformers, and the walk over a macro-string, which asks for the value
   of a letter in the monad of its caller. -/
namespace HMailServer

namespace SPFAddress
open SPFSyntax

def upperHexDigits : AnsiString := ansi "0123456789ABCDEF"

/-- The two digits of a byte, with a dot between them. -/
def dottedByte (byte : UInt8) : AnsiString :=
  [upperHexDigits.getD (byte.toNat >>> 4) 0, 46, upperHexDigits.getD (byte.toNat &&& 15) 0]

def getDottedForm (a : SPFAddress) : AnsiString :=
  match a.family with
  | .ip4 => toDottedQuad a.bytes
  | .none => []
  | .ip6 => [46].intercalate ((List.ofFn a.bytes).map dottedByte)

def getArpaLabel (a : SPFAddress) : AnsiString :=
  match a.family with
  | .ip4 => ansi "in-addr"
  | .ip6 => ansi "ip6"
  | .none => []

def getReverseName (a : SPFAddress) : AnsiString :=
  if a.family = .none then []
  else (split a.getDottedForm 46).reverse.flatMap (· ++ [46]) ++ a.getArpaLabel ++ ansi ".arpa"

end SPFAddress

/-- What an expansion knows of the check. -/
structure SPFMacroExpander where
  clientAddress : SPFAddress
  sender : AnsiString
  localPart : AnsiString
  senderDomain : AnsiString
  heloHost : AnsiString
  receivingHost : AnsiString := ansi "unknown"
  timestamp : Int := 0

namespace SPFMacroExpander
open SPFSyntax

def postmaster : AnsiString := ansi "postmaster"

/-- The constructor: a sender without a local part gets the postmaster's. -/
def create (clientAddress : SPFAddress) (sender heloHost : AnsiString) : SPFMacroExpander :=
  if sender.isEmpty then
    { clientAddress, heloHost, localPart := postmaster, senderDomain := heloHost,
      sender := postmaster ++ ansi "@" ++ heloHost }
  else
    match afterLast 64 sender with
    | none =>
      { clientAddress, heloHost, localPart := postmaster, senderDomain := sender,
        sender := postmaster ++ ansi "@" ++ sender }
    | some senderDomain =>
      let localPart := sender.take (sender.length - senderDomain.length - 1)
      if localPart.isEmpty then
        { clientAddress, heloHost, localPart := postmaster, senderDomain, sender := postmaster ++ sender }
      else { clientAddress, heloHost, localPart, senderDomain, sender }

/-! ## The transformers -/

/-- Empty parts are kept. -/
def splitAtAny (text delimiters : AnsiString) : List AnsiString := text.splitOnP (· ∈ delimiters)

def transform (value : AnsiString) (digits : Nat) (reverse : Bool) (delimiters : AnsiString) : AnsiString :=
  let parts := splitAtAny value (if delimiters.isEmpty then ansi "." else delimiters)
  let parts := if reverse then parts.reverse else parts
  let first := if 0 < digits ∧ digits < parts.length then parts.length - digits else 0
  [46].intercalate (parts.drop first)

def isUnreserved (c : UInt8) : Bool := isAlphaNumeric c || c ∈ ansi "-._~"

def urlEscape (text : AnsiString) : AnsiString :=
  text.flatMap fun c =>
    if isUnreserved c then [c]
    else [37, SPFAddress.upperHexDigits.getD (c.toNat >>> 4) 0, SPFAddress.upperHexDigits.getD (c.toNat &&& 15) 0]

/-- `ToDecimal`; a time before the epoch is written as its start. -/
def toDecimal (value : Int) : AnsiString := AnsiString.formatNat value.toNat

/-- What a literal macro stands for. -/
def literalText (character : UInt8) : AnsiString :=
  if character = 37 then ansi "%" else if character = 95 then ansi " " else ansi "%20"

/-! ## The walk -/

/-- The values that need no lookup. -/
def getMacroValue (e : SPFMacroExpander) (domain : AnsiString) (letter : UInt8) : AnsiString :=
  if letter = 115 then e.sender
  else if letter = 108 then e.localPart
  else if letter = 111 then e.senderDomain
  else if letter = 100 then domain
  else if letter = 105 then e.clientAddress.getDottedForm
  else if letter = 104 then e.heloHost
  else if letter = 118 then e.clientAddress.getArpaLabel
  else if letter = 99 then e.clientAddress.getReadableForm
  else if letter = 114 then e.receivingHost
  else if letter = 116 then toDecimal e.timestamp
  else []

variable {m : Type → Type} [Monad m]

/-- What a macro expands to, where `value` answers what a letter stands for. -/
def expandMacro (value : UInt8 → m AnsiString) : Macro → m AnsiString
  | .literal character => pure (literalText character)
  | .expansion letter digits reverse delimiters => do
    let text := transform (← value (toLowerAscii letter)) digits reverse delimiters
    return if letter ≠ toLowerAscii letter then urlEscape text else text

/-- The loop of `Expand_`, with the characters of a macro still to pass and the result so
    far. -/
def expandFrom (value : UInt8 → m AnsiString) (macros : MacroSet) :
    Nat → AnsiString → AnsiString → m (Option AnsiString)
  | _, result, [] => pure (some result)
  | skip + 1, result, _ :: text => expandFrom value macros skip result text
  | 0, result, c :: text =>
    if c ≠ 37 then expandFrom value macros 0 (result ++ [c]) text
    else
      match tryReadMacro macros (c :: text) with
      | none => pure none
      | some (mac, length) => do
        let expanded ← expandMacro value mac
        expandFrom value macros (length - 1) (result ++ expanded) text

/-- The loop that drops whole labels from the left; each takes a character at least. -/
def shorten : Nat → AnsiString → AnsiString
  | 0, result => result
  | room + 1, result =>
    if result.length ≤ 253 then result
    else if 46 ∈ result then shorten room (result.dropWhile (· != 46)).tail
    else result

/-- What `Expand_` makes of the result for a domain name. -/
def asDomainName (result : AnsiString) : AnsiString :=
  shorten result.length (withoutTrailingDot result)

/-- `ExpandDomainSpec`. -/
def expandDomainSpec (value : UInt8 → m AnsiString) (domainSpec : AnsiString) : m (Option AnsiString) :=
  if !isValidMacroString .recordTerm domainSpec then pure none
  else do return (← expandFrom value .recordTerm 0 [] domainSpec).map asDomainName

/-- `ExpandExplanation`. -/
def expandExplanation (value : UInt8 → m AnsiString) (text : AnsiString) : m (Option AnsiString) :=
  if !isValidMacroString .explanationText text then pure none else expandFrom value .explanationText 0 [] text

end SPFMacroExpander
end HMailServer
