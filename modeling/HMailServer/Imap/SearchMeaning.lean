import HMailServer.Imap.SearchWords

/- What a SEARCH program means, and when `ParseCommand` and
   `DoesMessageMatch_` answer it. A program is the syntax of RFC 3501, section
   6.4.4; its meaning is boolean algebra over the truth of its leaf keys. -/
namespace HMailServer

/-- The keys of RFC 3501 in lower case, with the number of their arguments and
    the criterion each one is. The parser has no criterion for BCC. -/
def rfcKeys : List (WString × Nat × CriteriaType) :=
  [(wide "all", 0, .all), (wide "answered", 0, .answered), (wide "bcc", 1, .unknown),
   (wide "before", 1, .before), (wide "body", 1, .body), (wide "cc", 1, .cc),
   (wide "deleted", 0, .deleted), (wide "draft", 0, .draft), (wide "flagged", 0, .flagged),
   (wide "from", 1, .from), (wide "header", 2, .header), (wide "keyword", 1, .keyword),
   (wide "larger", 1, .larger), (wide "new", 0, .new), (wide "old", 0, .old), (wide "on", 1, .on),
   (wide "recent", 0, .recent), (wide "seen", 0, .seen), (wide "sentbefore", 1, .sentBefore),
   (wide "senton", 1, .sentOn), (wide "sentsince", 1, .sentSince), (wide "since", 1, .since),
   (wide "smaller", 1, .smaller), (wide "subject", 1, .subject), (wide "text", 1, .text),
   (wide "to", 1, .to), (wide "uid", 1, .uid), (wide "unanswered", 0, .unanswered),
   (wide "undeleted", 0, .undeleted), (wide "undraft", 0, .undraft),
   (wide "unflagged", 0, .unflagged), (wide "unkeyword", 1, .unkeyword), (wide "unseen", 0, .unseen)]

/-- `name` is the lower-case word `lower` in some mixture of cases. -/
def Spells (name lower : WString) : Prop := name.map WString.classicLower = lower

mutual
/-- A search key. Every name is kept as the client spelled it. -/
inductive SearchKey where
  | leaf (name : WString) (args : List SearchWord)
  | sequenceSet (s : WString)
  | not (name : WString) (k : SearchKey)
  | or (name : WString) (a b : SearchKey)
  | list (p : SearchProgram)
/-- One key, or one key and more behind it. -/
inductive SearchProgram where
  | last (k : SearchKey)
  | more (k : SearchKey) (p : SearchProgram)
end

/-- The argument of SEARCH: perhaps `CHARSET` and its name, and a program. -/
structure SearchCommand where
  charset : Option (WString × SearchWord)
  program : SearchProgram

open SearchWord (Marked plain text unlisted joinTokens CountedRight MarksParentheses allLiterals)

/-! ## How it is written -/

mutual
def SearchKey.words : SearchKey → List SearchWord
  | .leaf name args => .atom name :: args
  | .sequenceSet s => [.atom s]
  | .not name k => .atom name :: k.words
  | .or name a b => .atom name :: (a.words ++ b.words)
  | .list p => p.words
def SearchProgram.words : SearchProgram → List SearchWord
  | .last k => k.words
  | .more k p => k.words ++ p.words
end

mutual
/-- The text of a key, with the parentheses of its lists marked. -/
def SearchKey.marked : SearchKey → Marked
  | .leaf name args => plain (joinTokens (.atom name :: args))
  | .sequenceSet s => plain s
  | .not name k => plain (name ++ [32]) ++ k.marked
  | .or name a b => plain (name ++ [32]) ++ a.marked ++ plain [32] ++ b.marked
  | .list p => (40, true) :: p.marked ++ [(41, true)]
def SearchProgram.marked : SearchProgram → Marked
  | .last k => k.marked
  | .more k p => k.marked ++ plain [32] ++ p.marked
end

mutual
def SearchKey.WellFormed : SearchKey → Prop
  | .leaf name args => (∃ lower t, Spells name lower ∧ (lower, args.length, t) ∈ rfcKeys) ∧ ∀ w ∈ args, w.WellFormed
  | .sequenceSet s => s ≠ [] ∧ IMAPSearchParser.isSequenceSet s = true
  | .not name k => Spells name (wide "not") ∧ k.WellFormed
  | .or name a b => Spells name (wide "or") ∧ a.WellFormed ∧ b.WellFormed
  | .list p => p.WellFormed
def SearchProgram.WellFormed : SearchProgram → Prop
  | .last k => k.WellFormed
  | .more k p => k.WellFormed ∧ p.WellFormed
end

namespace SearchCommand

def charsetWords (cmd : SearchCommand) : List SearchWord :=
  match cmd.charset with
  | none => []
  | some (name, w) => [.atom name, w]

def words (cmd : SearchCommand) : List SearchWord := cmd.charsetWords ++ cmd.program.words

def marked (cmd : SearchCommand) : Marked :=
  match cmd.charset with
  | none => cmd.program.marked
  | some (name, w) => plain (name ++ 32 :: w.token ++ [32]) ++ cmd.program.marked

/-- The command as the client sends it, less its literals. -/
def command (cmd : SearchCommand) : WString := text cmd.marked

def literals (cmd : SearchCommand) : List WString := allLiterals cmd.words

def WellFormed (cmd : SearchCommand) : Prop :=
  (∀ name w, cmd.charset = some (name, w) → Spells name (wide "charset") ∧ w.WellFormed) ∧
    cmd.program.WellFormed

/-- The charset the strings of the program are in. -/
def charsetName (cmd : SearchCommand) : WString :=
  match cmd.charset with
  | none => []
  | some (_, w) => w.value

end SearchCommand

/-! ## What it means -/

section meaning

variable (env : IMAPSearchParser.SearchParserEnvironment) (charset : WString)

/-- The criterion of a leaf with its arguments, strings decoded. -/
def leafCriteria (t : CriteriaType) (args : List WString) : SearchKeyCriteria :=
  let decode := IMAPSearchParser.decodeWordAccordingToCharset env charset
  match t, args with
  | .header, [field, v] => { type := .header, positive := true, headerField := field, text := decode v }
  | .uid, [v] => { type := .uid, positive := true, sequenceSet := WString.splitString v 44 }
  | t, [v] => { type := t, positive := true, text := if IMAPSearchParser.needsDecoding t then decode v else v }
  | t, _ => { type := t, positive := true }

def sequenceSetCriteria (s : WString) : SearchKeyCriteria :=
  { type := .sequenceSet, positive := true, sequenceSet := WString.splitString s 44 }

def rfcType (name : WString) : CriteriaType :=
  ((rfcKeys.lookup (name.map WString.classicLower)).map Prod.snd).getD .unknown

mutual
/-- The boolean denotation over the truth of the leaf keys. -/
def SearchKey.denote (truth : SearchKeyCriteria → Bool) : SearchKey → Bool
  | .leaf name args => truth (leafCriteria env charset (rfcType name) (args.map SearchWord.value))
  | .sequenceSet s => truth (sequenceSetCriteria s)
  | .not _ k => !k.denote truth
  | .or _ a b => a.denote truth || b.denote truth
  | .list p => p.denote truth
def SearchProgram.denote (truth : SearchKeyCriteria → Bool) : SearchProgram → Bool
  | .last k => k.denote truth
  | .more k p => k.denote truth && p.denote truth
end

end meaning

/-- The truth of a leaf key for a message: what the switch of
    `DoesMessageMatch_` answers for it alone, without NOT, from a scan of the
    message. -/
def keyTruth (env : SearchEnvironment) (msg : SearchMessage) (k : SearchKeyCriteria) : Bool :=
  (IMAPCommandSEARCH.matchesKey env { msg with cannotContain := fun _ => false } false
    { k with positive := true }).1

/-- SEARCH means what the client wrote: an accepted program answers its
    denotation. -/
def SearchMeansWhatItSays (penv : IMAPSearchParser.SearchParserEnvironment) (env : SearchEnvironment)
    (msg : SearchMessage) (cmd : SearchCommand) : Prop :=
  ∀ criterias, IMAPSearchParser.parseCommand penv cmd.command cmd.literals = .ok criterias →
    IMAPCommandSEARCH.doesMessageMatch env msg criterias =
      cmd.program.denote penv cmd.charsetName (keyTruth env msg)

end HMailServer
