import HMailServer.Util.WideString

/- The word splitter that every IMAP command goes through
   (`IMAP/IMAPSimpleCommandParser.cpp`). The position in the command is the
   list of characters that are left, and the literals that are left stand
   beside it. -/
namespace HMailServer

structure IMAPSimpleWord where
  word : WString
  isQuoted : Bool := false
  isParanthezied : Bool := false
  isClammerized : Bool := false
  literalData : WString := []
  deriving DecidableEq, Repr

namespace IMAPSimpleCommandParser

/-- The loop of `Validate_`: parentheses count outside quotes only, and every
    quotation mark turns the state over, escaped or not. -/
def openParanthesis : Bool → Int → WString → Int
  | _, n, [] => n
  | inside, n, c :: s =>
    if c = 34 then openParanthesis (!inside) n s
    else if c = 40 then openParanthesis inside (if inside then n else n + 1) s
    else if c = 41 then openParanthesis inside (if inside then n else n - 1) s
    else openParanthesis inside n s

def validate (command : WString) : Bool := openParanthesis false 0 command == 0

/-- What stands in front of the end `FindEndOfQuotedString_` finds, and what
    stands behind the closing quotation mark. -/
def findEndOfQuotedString : WString → WString × WString
  | [] => ([], [])
  | [92] => ([92], [])
  | 92 :: c :: s => let (w, r) := findEndOfQuotedString s; (92 :: c :: w, r)
  | 34 :: s => ([], s)
  | c :: s => let (w, r) := findEndOfQuotedString s; (c :: w, r)

/-- The scan for the parenthesis that closes a parenthesised word. A word that
    nothing closes runs to the end of the command. -/
def findEndParenthesis : Bool → Nat → WString → WString × WString
  | _, _, [] => ([], [])
  | inString, nestDeep, c :: s =>
    let more (b : Bool) (n : Nat) := ((c :: (findEndParenthesis b n s).1), (findEndParenthesis b n s).2)
    if c = 34 then more (!inString) nestDeep
    else if inString then more inString nestDeep
    else if c = 40 then more inString (nestDeep + 1)
    else if c = 41 then if nestDeep = 1 then ([], s) else more inString (nestDeep - 1)
    else more inString nestDeep

/-- `IMAPFolder::UnescapeFolderString`. -/
def unescapeFolderString (s : WString) : WString :=
  WString.replacePair 92 92 92 (WString.replacePair 92 34 34 s)

/-- The loop of `Parse`. Every turn reads at least one character, so a bound of
    the command's length never ends it. -/
def parseLoop : Nat → WString → List WString → List IMAPSimpleWord
  | 0, _, _ => []
  | _ + 1, [], _ => []
  | n + 1, c :: s, literals =>
    if c = 34 then
      let (w, r) := findEndOfQuotedString s
      { word := unescapeFolderString w, isQuoted := true } :: parseLoop n (r.drop 1) literals
    else if c = 40 then
      let (w, r) := findEndParenthesis false 1 s
      { word := w, isParanthezied := true } :: parseLoop n (r.drop 1) literals
    else if c = 123 then
      -- A brace that is never closed ends the parse with the words so far.
      if 125 ∈ s then
        { word := s.takeWhile (· ≠ 125), isClammerized := true, literalData := literals.headD [] } ::
          parseLoop n ((s.dropWhile (· ≠ 125)).drop 2) literals.tail
      else []
    else
      { word := (c :: s).takeWhile (· ≠ 32) } :: parseLoop n (((c :: s).dropWhile (· ≠ 32)).drop 1) literals

def parse (command : WString) (literals : List WString) : List IMAPSimpleWord :=
  if validate command then parseLoop command.length command literals else []

/-- An empty literal does not replace the text of its token. -/
def unliteralData (ws : List IMAPSimpleWord) : List IMAPSimpleWord :=
  ws.map fun w => if w.isClammerized ∧ w.literalData ≠ [] then { w with word := w.literalData } else w

end IMAPSimpleCommandParser
end HMailServer
