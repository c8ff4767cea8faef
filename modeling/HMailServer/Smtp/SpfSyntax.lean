import HMailServer.Smtp.SpfAddress

/- The grammar of an SPF record (`SMTP/SPF/SPFSyntax.cpp`): macros, domain-specs, prefix
   lengths and names. A position in a text is what is left of the text there. -/
namespace HMailServer
namespace SPFSyntax

/-- Which macros a string may use. -/
inductive MacroSet where
  | recordTerm
  | explanationText
  deriving DecidableEq

def isAlpha (c : UInt8) : Bool := (97 ≤ c && c ≤ 122) || (65 ≤ c && c ≤ 90)

def isAlphaNumeric (c : UInt8) : Bool := isAlpha c || AnsiString.isDigit c

/-- `ToLowerAscii`. -/
def toLowerAscii (c : UInt8) : UInt8 := if 65 ≤ c && c ≤ 90 then c - 65 + 97 else c

/-- macro-literal: a printable character but the percent sign, the space only in the text
    of an explanation. -/
def isMacroLiteral (macros : MacroSet) (c : UInt8) : Bool :=
  if c = 32 then macros = .explanationText else (0x21 ≤ c && c ≤ 0x24) || (0x26 ≤ c && c ≤ 0x7E)

def isMacroDelimiter (c : UInt8) : Bool := c ∈ ansi ".-+,/_="

def isMacroLetter (macros : MacroSet) (c : UInt8) : Bool :=
  if toLowerAscii c ∈ ansi "slodiphv" then true
  else if toLowerAscii c ∈ ansi "crt" then macros = .explanationText
  else false

/-- One macro, taken apart; a literal is the character behind its percent sign. -/
inductive Macro where
  | literal (character : UInt8)
  | expansion (letter : UInt8) (digits : Nat) (reverse : Bool) (delimiters : AnsiString)
  deriving DecidableEq

def maximumDigits : Nat := 256

/-- The loop over the digits of a macro; the count stops growing at its cap. -/
def readDigits (digits : AnsiString) : Nat :=
  digits.foldl (fun count c =>
    let count := if count < maximumDigits then count * 10 + (c.toNat - 48) else count
    if maximumDigits < count then maximumDigits else count) 0

/-- What follows the letter of a macro, with the number of characters read so far. -/
def readTransformers (letter : UInt8) (text : AnsiString) (position : Nat) : Option (Macro × Nat) :=
  let digits := text.takeWhile AnsiString.isDigit
  let text := text.dropWhile AnsiString.isDigit
  let reverse := text.head?.any (toLowerAscii · == 114)
  let text := if reverse then text.tail else text
  let delimiters := text.takeWhile isMacroDelimiter
  let close := (text.dropWhile isMacroDelimiter).head?
  if close = some 125 then
    some (.expansion letter (readDigits digits) reverse delimiters,
      position + digits.length + (if reverse then 1 else 0) + delimiters.length + 1)
  else none

/-- `TryReadMacro` at the head of the text: the macro, and how many characters it takes. -/
def tryReadMacro (macros : MacroSet) (text : AnsiString) : Option (Macro × Nat) :=
  match text with
  | percent :: next :: rest =>
    if percent ≠ 37 then none
    else if next = 37 ∨ next = 95 ∨ next = 45 then some (.literal next, 2)
    else if next ≠ 123 then none
    else match rest with
      | [] => none
      | letter :: rest => if isMacroLetter macros letter then readTransformers letter rest 3 else none
  | _ => none

/-- `IsValidMacroString`, with the characters of a macro still to pass. -/
def isValidFrom (macros : MacroSet) : Nat → AnsiString → Bool
  | _, [] => true
  | skip + 1, _ :: text => isValidFrom macros skip text
  | 0, c :: text =>
    if c = 37 then
      match tryReadMacro macros (c :: text) with
      | none => false
      | some (_, length) => isValidFrom macros (length - 1) text
    else if !isMacroLiteral macros c then false
    else isValidFrom macros 0 text

def isValidMacroString (macros : MacroSet) (text : AnsiString) : Bool := isValidFrom macros 0 text

/-- toplabel: alphanumeric with a letter, or with a hyphen that is neither first nor last. -/
def isTopLabel (label : AnsiString) : Bool :=
  if label.isEmpty then false
  else if !label.all fun c => isAlpha c || c == 45 || AnsiString.isDigit c then false
  else
    let hasAlpha := label.any isAlpha
    let hasHyphen := label.contains 45
    if hasAlpha && !hasHyphen then true
    else hasHyphen && label.head? != some 45 && label.getLast? != some 45

/-- Whether the last macro of a text ends with the text, with the characters still to pass
    and whether the walk has come from a macro. -/
def endsWithMacro : Nat → Bool → AnsiString → Bool
  | _, atEnd, [] => atEnd
  | skip + 1, atEnd, _ :: text => endsWithMacro skip atEnd text
  | 0, _, c :: text =>
    if c = 37 then
      match tryReadMacro .recordTerm (c :: text) with
      -- The text is a macro-string, so every macro of it reads.
      | none => endsWithMacro 0 false text
      | some (_, length) => endsWithMacro (length - 1) true text
    else endsWithMacro 0 false text

/-- The text behind its last dot, where it has one. -/
def afterLast (c : UInt8) (text : AnsiString) : Option AnsiString :=
  if c ∈ text then some (text.rtakeWhile (· != c)) else none

/-- A trailing dot only says that a name is already absolute. -/
def withoutTrailingDot (text : AnsiString) : AnsiString := if text.getLast? = some 46 then text.dropLast else text

def isValidDomainSpec (text : AnsiString) : Bool :=
  if text.isEmpty then false
  else if !isValidMacroString .recordTerm text then false
  else if endsWithMacro 0 false text then true
  else
    match afterLast 46 (withoutTrailingDot text) with
    | none => false
    | some label => isTopLabel label

def isAsciiPrintable (text : AnsiString) : Bool := text.all fun c => 0x20 ≤ c && c ≤ 0x7E

def tryParsePrefixLength (text : AnsiString) (maximumLength : Nat) : Option Nat :=
  if text.isEmpty then none
  else if !text.all AnsiString.isDigit then none
  else if 1 < text.length ∧ text.head? = some 48 then none
  else if 3 < text.length then none
  else if maximumLength < AnsiString.digitsValue text then none
  else some (AnsiString.digitsValue text)

def isValidDomainName (text : AnsiString) : Bool :=
  if text.isEmpty then false
  else if 253 < text.length then false
  else
    let name := withoutTrailingDot text
    if name.isEmpty then false
    else
      let labels := split name 46
      if labels.length < 2 then false else labels.all fun label => !label.isEmpty && label.length ≤ 63

def equalsDnsName (left right : AnsiString) : Bool := left.map toLowerAscii == right.map toLowerAscii

def endsWithDnsName (name ending : AnsiString) : Bool :=
  if name.length < ending.length then false else equalsDnsName (name.drop (name.length - ending.length)) ending

def isValidModifierName (text : AnsiString) : Bool :=
  match text with
  | [] => false
  | c :: rest => isAlpha c && rest.all fun d => isAlphaNumeric d || d == 45 || d == 95 || d == 46

end SPFSyntax
end HMailServer
