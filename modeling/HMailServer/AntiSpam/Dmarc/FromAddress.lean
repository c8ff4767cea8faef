import HMailServer.Mime.Base64
import HMailServer.Smtp.RecipientParser

/- The address that DMARC takes from a From field (`AntiSpam/DMARC/DMARC.cpp`),
   with `AddresslistParser` and what the two read of `StringParser` and
   `Charset`. -/
namespace HMailServer

/-- The conversion to a narrow string, as `Base64Encode` makes it. -/
structure AddressEnvironment where
  loc : Locale
  narrow : WString → AnsiString

/-! ## Encoded words -/

namespace Charset

/-- The loop of `IsProperlyEncoded`; the flag is `bInsideEncodedString`. -/
def isProperlyEncoded : Bool → WString → Bool
  | _, [] => true
  | inside, [c] => (if inside then 33 else 32) ≤ c ∧ c ≤ 126
  | inside, c :: d :: s =>
    if inside = true ∧ c = 63 ∧ d = 61 then isProperlyEncoded false s
    else if inside = false ∧ c = 61 ∧ d = 63 then isProperlyEncoded true s
    else decide ((if inside then 33 else 32) ≤ c ∧ c ≤ 126) && isProperlyEncoded inside (d :: s)

/-- `StringParser::Base64Encode`. -/
def base64Encode (env : AddressEnvironment) (input : WString) : WString :=
  if input = [] then [] else (MimeCodeBase64.encode false (env.narrow input)).map UInt8.toNat

def b64Encode (env : AddressEnvironment) (input : WString) : WString :=
  wide "=?iso-8859-1?B?" ++ base64Encode env input ++ wide "?="

def encode (env : AddressEnvironment) (unencoded : WString) : WString :=
  if isProperlyEncoded false unencoded then unencoded else b64Encode env unencoded

end Charset

/-! ## Valid addresses -/

namespace StringParser

def isAlnum (c : WChar) : Bool := (48 ≤ c ∧ c ≤ 57) ∨ (65 ≤ c ∧ c ≤ 90) ∨ (97 ≤ c ∧ c ≤ 122)

def isHexDigit (c : WChar) : Bool := (48 ≤ c ∧ c ≤ 57) ∨ (65 ≤ c ∧ c ≤ 70) ∨ (97 ≤ c ∧ c ≤ 102)

/-- The local part in the pattern of `IsValidEmailAddress`: in quotes, or
    without a dot at its ends or two in a row. -/
def isValidLocalPart (s : WString) : Bool :=
  match s with
  | [] => false
  | 34 :: rest =>
    rest.getLast? = some 34 && !rest.dropLast.isEmpty && rest.dropLast.all fun c => c ∉ wide "<>@\\"
  | c :: rest =>
    c ≠ 46 && (c :: rest).getLast? ≠ some 46 && !WString.contains (c :: rest) (wide "..") &&
      (c :: rest).all fun c => c ∉ wide "<> @\\\""

/-- `\[([0-9]{1,3}\.){3}[0-9]{1,3}\]`, or eight groups of hexadecimal digits
    behind `IPv6:`. -/
def isAddressLiteral (s : WString) : Bool :=
  match s with
  | 91 :: rest =>
    let inner := rest.dropLast
    let octets := inner.splitOn 46
    let groups := (inner.drop 5).splitOn 58
    rest.getLast? = some 93 &&
      (octets.length = 4 && octets.all (fun o => 1 ≤ o.length && o.length ≤ 3 && o.all fun c => 48 ≤ c ∧ c ≤ 57) ||
        inner.take 5 = wide "IPv6:" && groups.length = 8 &&
          groups.all fun g => 1 ≤ g.length && g.length ≤ 4 && g.all isHexDigit)
  | _ => false

def isLabel (s : WString) : Bool :=
  1 ≤ s.length && s.length ≤ 63 && s.head? ≠ some 45 && s.getLast? ≠ some 45 && s.all fun c => isAlnum c || c = 45

/-- The domain in the pattern. -/
def isValidDomain (s : WString) : Bool :=
  isAddressLiteral s || (s.length ≤ 255 && (s.splitOn 46).length ≤ 127 && (s.splitOn 46).all isLabel)

/-- `IsValidEmailAddress`. The domain of the pattern has no at sign, so it is
    what stands behind the last one. -/
def isValidEmailAddress (emailAddress : WString) : Bool :=
  emailAddress.length ≤ 254 &&
    match Cut.cutLast 64 emailAddress with
    | none => false
    | some (localPart, domain) => isValidLocalPart localPart && isValidDomain domain

end StringParser

/-! ## The list of addresses -/

namespace AddresslistParser
open StringParser

structure Address where
  personalName : WString
  mailboxName : WString
  domainName : WString
  deriving DecidableEq, Repr

/-- The loop of `ParseList` that cuts at the commas outside quotes. `word` is
    what it has passed of the current compound. -/
def compounds : Nat → Bool → WString → WString → List WString
  | _, _, word, [] => if word = [] then [] else [word]
  | 0, _, word, s => [word ++ s]
  | maxIterations + 1, insideQuote, word, [c] =>
    if insideQuote = false ∧ c = 44 then word :: compounds maxIterations insideQuote [] []
    else compounds maxIterations insideQuote (word ++ [c]) []
  | maxIterations + 1, insideQuote, word, c :: d :: s =>
    if c = 92 then compounds maxIterations insideQuote (word ++ [c, d]) s
    else if c = 34 then compounds maxIterations (!insideQuote) (word ++ [c]) (d :: s)
    else if insideQuote = false ∧ c = 44 then word :: compounds maxIterations insideQuote [] (d :: s)
    else compounds maxIterations insideQuote (word ++ [c]) (d :: s)

/-- The text up to the closing quote, if there is one. -/
def closeQuote : WString → Option WString
  | [] => none
  | [c] => if c = 34 then some [] else none
  | c :: d :: s =>
    if c = 92 then (closeQuote s).map (c :: d :: ·)
    else if c = 34 then some []
    else (closeQuote (d :: s)).map (c :: ·)

/-- `ExtractQuotedString_`. -/
def extractQuotedString : WString → WString
  | [] => []
  | [_] => []
  | c :: d :: s =>
    if c = 92 then extractQuotedString s
    else if c = 34 then (closeQuote (d :: s)).getD []
    else extractQuotedString (d :: s)

/-- `ExtractWithinGTLT_`: the text between the last `<` in front of the first `>`
    and that one, outside quotes. `opened` is what it has passed since a `<`. -/
def extractWithinGTLT : Bool → Option WString → WString → WString
  | _, _, [] => []
  | insideQuote, opened, [c] => if c = 62 ∧ insideQuote = false then opened.getD [] else []
  | insideQuote, opened, c :: d :: s =>
    if c = 92 then extractWithinGTLT insideQuote (opened.map (· ++ [c, d])) s
    else if c = 34 then extractWithinGTLT (!insideQuote) (opened.map (· ++ [c])) (d :: s)
    else if insideQuote = false ∧ c = 60 then extractWithinGTLT insideQuote (some []) (d :: s)
    else if insideQuote = false ∧ c = 62 then opened.getD []
    else extractWithinGTLT insideQuote (opened.map (· ++ [c])) (d :: s)

/-- A quoted quote, then a quoted backslash. -/
def unescapeString (s : WString) : WString := WString.replacePair 92 92 92 (WString.replacePair 92 34 34 s)

/-- `ExtractParts`: the name, the mailbox and the domain. -/
def extractParts (env : AddressEnvironment) (compound : WString) : WString × WString × WString :=
  let quoted := unescapeString (extractQuotedString compound)
  let within := unescapeString (extractWithinGTLT false none compound)
  let fullName :=
    match quoted, WString.findFrom compound 60 0 with
    | [], some position => if 0 < position then (compound.take position).rdropWhile env.loc.isSpace else []
    | quoted, _ => quoted
  let fullName := if fullName = [] then within else fullName
  let fullName := if fullName = [] ∧ within = [] then compound else fullName
  let emailAddress := if within = [] ∧ isValidEmailAddress fullName then fullName else within
  (fullName, extractAddress emailAddress, extractDomain emailAddress)

def parseList (env : AddressEnvironment) (list : WString) : List Address :=
  (compounds 1000000 false [] list).map fun compound =>
    let (fullName, mailbox, domain) := extractParts env (WString.trim env.loc compound)
    { personalName := Charset.encode env fullName
      mailboxName := Charset.encode env (mailbox.filter (· ≠ 60))
      domainName := Charset.encode env (domain.filter (· ≠ 62)) }

end AddresslistParser

/-! ## The From field -/

namespace DMARC
open AddresslistParser

/-- `StripComments_`. -/
def stripComments (commentDepth : Nat) (insideQuotedString : Bool) : WString → WString
  | [] => []
  | [c] =>
    if c = 92 then if commentDepth = 0 then [c] else []
    else if insideQuotedString then [c]
    else if 0 < commentDepth then []
    else if c = 40 then []
    else [c]
  | c :: d :: s =>
    if c = 92 then
      if commentDepth = 0 then c :: d :: stripComments commentDepth insideQuotedString s
      else stripComments commentDepth insideQuotedString s
    else if insideQuotedString then c :: stripComments commentDepth (c ≠ 34) (d :: s)
    else if 0 < commentDepth then
      if c = 40 then stripComments (commentDepth + 1) insideQuotedString (d :: s)
      else if c = 41 then stripComments (commentDepth - 1) insideQuotedString (d :: s)
      else stripComments commentDepth insideQuotedString (d :: s)
    else if c = 34 then c :: stripComments commentDepth true (d :: s)
    else if c = 40 then stripComments (commentDepth + 1) insideQuotedString (d :: s)
    else c :: stripComments commentDepth insideQuotedString (d :: s)

def extractAddressFromHeaderValue (env : AddressEnvironment) (headerValue : WString) : WString :=
  let value := WString.trim env.loc headerValue
  match parseList env (stripComments 0 false value) with
  | [] => value
  | address :: _ => if address.domainName = [] then value else address.mailboxName ++ wide "@" ++ address.domainName

end DMARC
end HMailServer
