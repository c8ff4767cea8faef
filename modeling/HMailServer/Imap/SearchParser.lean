import HMailServer.Imap.SimpleCommandParser

/- The criteria of a SEARCH command and the parser that builds them
   (`IMAP/IMAPSearchParser.cpp`, the SEARCH mode of `ParseCommand`). The word
   cursor that `ParseSegment_` and `ParseWord_` share is the list of words that
   are left. -/
namespace HMailServer

/-- The failing answers of `IMAPResult`. -/
inductive IMAPResult where
  | bad (message : WString)
  | no (message : WString)
  deriving DecidableEq, Repr

/-- `IMAPSearchCriteria::CriteriaType`, less `CTSubCriteria`. -/
inductive CriteriaType where
  | unknown | header | uid | deleted | recent | undeleted | seen | unseen | text | all | body
  | sentOn | sentBefore | sentSince | subject | «from» | to | cc | since | answered | before | draft
  | flagged | larger | new | old | smaller | unanswered | undraft | unflagged | on | sequenceSet
  | modSeq | charset | keyword | unkeyword | older | younger | savedBefore | savedOn | savedSince
  | savedateSupported | emailId | threadId
  deriving DecidableEq, Repr

/-- The fields of an `IMAPSearchCriteria` that is a key. -/
structure SearchKeyCriteria where
  type : CriteriaType
  positive : Bool
  text : WString := []
  headerField : WString := []
  sequenceSet : List WString := []
  deriving DecidableEq, Repr

inductive IMAPSearchCriteria where
  | key (k : SearchKeyCriteria)
  | sub (isOR : Bool) (subCriterias : List IMAPSearchCriteria)

namespace IMAPSearchParser

/-- The names `GetCriteriaTypeByName` compares with, in its order. -/
def criteriaNames : List (WString × CriteriaType) :=
  [(wide "charset", .charset), (wide "on", .on), (wide "header", .header), (wide "text", .text),
   (wide "body", .body), (wide "subject", .subject), (wide "from", .from), (wide "cc", .cc),
   (wide "to", .to), (wide "senton", .sentOn), (wide "sentbefore", .sentBefore),
   (wide "sentsince", .sentSince), (wide "savedbefore", .savedBefore), (wide "savedon", .savedOn),
   (wide "savedsince", .savedSince), (wide "savedatesupported", .savedateSupported),
   (wide "emailid", .emailId), (wide "threadid", .threadId), (wide "since", .since),
   (wide "deleted", .deleted), (wide "recent", .recent), (wide "seen", .seen),
   (wide "unseen", .unseen), (wide "undeleted", .undeleted), (wide "uid", .uid),
   (wide "answered", .answered), (wide "before", .before), (wide "draft", .draft),
   (wide "flagged", .flagged), (wide "larger", .larger), (wide "new", .new), (wide "old", .old),
   (wide "smaller", .smaller), (wide "modseq", .modSeq), (wide "unanswered", .unanswered),
   (wide "undraft", .undraft), (wide "unflagged", .unflagged), (wide "all", .all),
   (wide "keyword", .keyword), (wide "unkeyword", .unkeyword), (wide "older", .older),
   (wide "younger", .younger)]

/-- An exact match of `[0-9:,*]*`. -/
def isSequenceSet (item : WString) : Bool :=
  item.all fun c => (48 ≤ c && c ≤ 57) || c == 58 || c == 44 || c == 42

def criteriaTypeByLowerName (tmp : WString) : CriteriaType :=
  if tmp = [] then .unknown
  else match criteriaNames.lookup tmp with
    | some t => t
    | none => if isSequenceSet tmp then .sequenceSet else .unknown

def getCriteriaTypeByName (loc : Locale) (name : WString) : CriteriaType :=
  criteriaTypeByLowerName (WString.makeLower loc name)

/-- What the parser is given beside the command: the character functions,
    `Unicode::MultiByteToWide`, and the UIDs of the saved result, as text. -/
structure SearchParserEnvironment where
  loc : Locale
  multiByteToWide : WString → Option WString
  savedSearchResult : List WString

variable (env : SearchParserEnvironment)

def isNonZeroNumber (value : WString) : Bool :=
  value ≠ [] && value.all (fun c => 48 ≤ c && c ≤ 57) && WString.ttoi 64 value > 0

def badCharsetResult : IMAPResult :=
  .no (wide "[BADCHARSET (US-ASCII UTF-8 ISO-8859-1)] The specified charset is not supported.")

def isValidCharset (charsetName : WString) : Bool :=
  WString.equalsNoCase charsetName (wide "UTF-8") || WString.equalsNoCase charsetName (wide "US-ASCII") ||
    WString.equalsNoCase charsetName (wide "ISO-8859-1")

def needsDecoding : CriteriaType → Bool
  | .header | .text | .body | .subject | .from | .to | .cc => true
  | _ => false

/-- `charset` is the member `charset_name_`. -/
def decodeWordAccordingToCharset (charset value : WString) : WString :=
  if WString.equalsNoCase charset (wide "UTF-8") then (env.multiByteToWide value).getD value else value

/-- What `ParseWord_` leaves behind: the criterion, unless its type is still
    unknown, the words behind it, and the charset. -/
structure ParsedWord where
  criteria : Option SearchKeyCriteria
  rest : List WString
  charset : WString

/-- The part of `ParseWord_` behind the NOT. -/
def parseKey (positive : Bool) (curCommand : WString) (ws : List WString) (charset : WString) :
    Except IMAPResult ParsedWord :=
  let key (k : SearchKeyCriteria) (rest : List WString) : Except IMAPResult ParsedWord := .ok ⟨some k, rest, charset⟩
  if curCommand = wide "$" then
    key { type := .uid, positive,
          sequenceSet := if env.savedSearchResult = [] then [wide "0"] else env.savedSearchResult } ws
  else
    let ct := getCriteriaTypeByName env.loc curCommand
    match ct with
    | .header =>
      match ws with
      | [] => .error (.bad (wide "Syntax error. No header specified in header-search."))
      | [_] => .error (.bad (wide "Syntax error. No value specified in header-search."))
      | field :: value :: rest =>
        key { type := .header, positive, headerField := field,
              text := decodeWordAccordingToCharset env charset value } rest
    | .text | .sentOn | .sentBefore | .sentSince | .savedBefore | .savedOn | .savedSince | .emailId
    | .threadId | .body | .subject | .to | .from | .cc | .since | .before | .larger | .smaller
    | .modSeq | .on =>
      match ws with
      | [] => .error (.bad (wide "Syntax error. Missing value."))
      | value :: rest =>
        key { type := ct, positive,
              text := if needsDecoding ct then decodeWordAccordingToCharset env charset value else value } rest
    | .older | .younger =>
      match ws with
      | [] => .error (.bad (wide "Syntax error. Missing interval."))
      | interval :: rest =>
        if isNonZeroNumber interval then key { type := ct, positive, text := interval } rest
        else .error (.bad (wide
          "Syntax error. The OLDER and YOUNGER intervals must be a positive number of seconds."))
    | .keyword | .unkeyword =>
      match ws with
      | [] => .error (.bad (wide "Syntax error. Missing keyword name."))
      | name :: rest => key { type := ct, positive, text := name } rest
    | .uid =>
      match ws with
      | [] => .error (.bad (wide "Syntax error. UID parameters missing."))
      | set :: rest => key { type := .uid, positive, sequenceSet := WString.splitString set 44 } rest
    | .deleted | .undeleted | .seen | .unseen | .recent | .answered | .draft | .flagged | .new | .old
    | .unanswered | .undraft | .unflagged | .savedateSupported | .all => key { type := ct, positive } ws
    | .sequenceSet => key { type := .sequenceSet, positive, sequenceSet := WString.splitString curCommand 44 } ws
    | .charset =>
      match ws with
      | [] => .error (.bad (wide "Syntax error. Missing charset name."))
      | name :: rest => if isValidCharset name then .ok ⟨none, rest, name⟩ else .error badCharsetResult
    | .unknown =>
      -- An empty word is white space, not a key.
      if curCommand = [] then .ok ⟨none, ws, charset⟩
      else .error (.bad (wide "Unrecognized search key: " ++ curCommand))

/-- `ParseWord_` at the word `w`, with `ws` behind it. -/
def parseWord (w : WString) (ws : List WString) (charset : WString) : Except IMAPResult ParsedWord :=
  if WString.equalsNoCase w (wide "NOT") then
    match ws with
    | [] => .error (.bad (wide "Syntax error. NOT used but no search criteria specified."))
    | v :: rest => parseKey env false (WString.makeUpper env.loc v) rest charset
  else parseKey env true w ws charset

/-- What `ParseSegment_` leaves behind. -/
structure ParsedSegment where
  subCriterias : List IMAPSearchCriteria
  rest : List WString
  charset : WString

def excessiveRecursion : IMAPResult :=
  .no (wide "Search failed due to excessive search expression recursion.")

/-- The loop of `ParseSegment_` at recursion depth `iRecursion`, on the criteria
    read so far. Every caller passes a fresh `pCriteria`, so the original count
    is zero. The first argument bounds the words that are left: every turn and
    every nested segment has read one. -/
def parseSegmentLoop : Nat → Nat → List IMAPSearchCriteria → List WString → WString →
    Except IMAPResult ParsedSegment
  | _, _, subs, [], charset => .ok ⟨subs, [], charset⟩
  | 0, _, subs, ws, charset => .ok ⟨subs, ws, charset⟩
  | n + 1, iRecursion, subs, w :: ws, charset =>
    -- Inside an OR only two criteria are read.
    let next (subs : List IMAPSearchCriteria) (ws : List WString) (charset : WString) :=
      if 1 < iRecursion ∧ subs.length = 2 then .ok ⟨subs, ws, charset⟩
      else parseSegmentLoop n iRecursion subs ws charset
    if WString.makeUpper env.loc w = wide "OR" then
      if 50 < iRecursion + 1 then .error excessiveRecursion
      else
        match parseSegmentLoop n (iRecursion + 1) [] ws charset with
        | .error e => .error e
        | .ok seg => next (subs ++ [.sub true seg.subCriterias]) seg.rest seg.charset
    else
      match parseWord env w ws charset with
      | .error e => .error e
      | .ok r => next (subs ++ (r.criteria.map .key).toList) r.rest r.charset

/-- The loop of `ParseCommand` that takes the parentheses out. -/
def stripParentheses : Bool → WString → WString
  | _, [] => []
  | insideString, c :: s =>
    if c = 34 then c :: stripParentheses (!insideString) s
    else if (c = 40 ∨ c = 41) ∧ ¬ insideString then stripParentheses insideString s
    else c :: stripParentheses insideString s

/-- `ParseCommand` in the mode of SEARCH; the answer is the sub-criteria of the
    resulting criterion, which is not an OR. -/
def parseCommand (command : WString) (literals : List WString) : Except IMAPResult (List IMAPSearchCriteria) :=
  let words := IMAPSimpleCommandParser.unliteralData
    (IMAPSimpleCommandParser.parse (stripParentheses false command) literals)
  match parseSegmentLoop env words.length 1 [] (words.map (·.word)) [] with
  | .error e => .error e
  | .ok seg => if seg.subCriterias = [] then .error (.bad (wide "No search criteria specified.")) else .ok seg.subCriterias

end IMAPSearchParser
end HMailServer
