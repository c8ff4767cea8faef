import HMailServer.Util.WideString
import HMailServer.Lib.MaximalRuns

/- The full-text term index (`Common/Persistence/PersistentMessageIndex.cpp`)
   and the filter that a SEARCH consults it through (`SearchIndexFilter`,
   `IMAP/IMAPCommandSearch.cpp`). -/
namespace HMailServer
namespace PersistentMessageIndex

def indexTimeMinTokenLength : Nat := 3
def maxTermLength : Nat := 64
def maxQueryNeedleLength : Nat := 16
def chunkStep : Nat := 40

def isHighSurrogate (c : WChar) : Bool := 0xD800 ≤ c && c ≤ 0xDBFF
def isLowSurrogate (c : WChar) : Bool := 0xDC00 ≤ c && c ≤ 0xDFFF

def isAsciiAlnum (c : WChar) : Bool :=
  (48 ≤ c && c ≤ 57) || (97 ≤ c && c ≤ 122) || (65 ≤ c && c ≤ 90)

def isTokenChar (c : WChar) : Bool := isAsciiAlnum c || 127 < c

def overflowMarker : WString := 1 :: wide "fto"
def completeMarker : WString := 1 :: wide "ftc"

/-- The window that starts at `windowStart`, with the surrogate pairs at its
    edges left whole. -/
def windowBounds (token : WString) (windowStart : Nat) : Nat × Nat :=
  let stop := min (windowStart + maxTermLength) token.length
  let start := if 0 < windowStart && isLowSurrogate (token.getD windowStart 0) then windowStart + 1 else windowStart
  let stop := if stop < token.length && start < stop && isHighSurrogate (token.getD (stop - 1) 0) then stop - 1 else stop
  (start, stop)

def insertWindow (token : WString) (windowStart : Nat) (terms : Finset WString) : Finset WString :=
  let (start, stop) := windowBounds token windowStart
  if start < stop && indexTimeMinTokenLength ≤ stop - start then
    insert (WString.mid token start (stop - start)) terms
  else terms

/-- The loop over the windows of a long token, for at most `n` turns. -/
def insertWindows (maxDistinctTerms : Nat) (token : WString) : Nat → Nat → Finset WString → Finset WString
  | 0, _, terms => terms
  | n + 1, windowStart, terms =>
    let terms := insertWindow token windowStart terms
    if token.length ≤ windowStart + maxTermLength then terms
    else if maxDistinctTerms < terms.card then terms
    else insertWindows maxDistinctTerms token n (windowStart + chunkStep) terms

/-- The end of a token in `TokenizeForIndex`; `none` says that the terms
    overflowed. -/
def indexToken (maxDistinctTerms : Nat) (terms : Finset WString) (token : WString) : Option (Finset WString) :=
  if token.length < indexTimeMinTokenLength then some terms
  else
    let terms := if token.length ≤ maxTermLength then insert token terms
      else insertWindows maxDistinctTerms token token.length 0 terms
    if maxDistinctTerms < terms.card then none else some terms

/-- The distinct terms of a content, or `none` when `overflowed` is set. -/
def tokenizeForIndex (loc : Locale) (content : WString) (maxDistinctTerms : Nat) : Option (Finset WString) :=
  (MaximalRuns.maximalRuns isTokenChar (WString.makeLower loc content)).foldlM (indexToken maxDistinctTerms) ∅

/-- The order the needles are sorted in: longest first. -/
def needleBefore (a b : WString) : Prop :=
  if a.length ≠ b.length then b.length < a.length else WString.compare a b ≠ .gt

instance : DecidableRel needleBefore := fun a b => by unfold needleBefore; infer_instance

def createQueryNeedles (loc : Locale) (searchText : WString) (minRunLength : Int) : List WString :=
  let minRunLength := if minRunLength < indexTimeMinTokenLength then indexTimeMinTokenLength else minRunLength.toNat
  let runs := (MaximalRuns.maximalRuns isAsciiAlnum (WString.makeLower loc searchText)).filter
    fun run => minRunLength ≤ run.length
  let distinctNeedles := (runs.map (·.take maxQueryNeedleLength)).dedup
  (distinctNeedles.insertionSort needleBefore).take 4

/-- A row of `hm_messageindexterms`. -/
structure IndexRow where
  messageID : Int
  accountID : Int
  term : WString
  deriving DecidableEq

/-- The rows `SaveTermsForMessage` leaves for a message, less their order. -/
def savedTerms (terms : Option (Finset WString)) : Finset WString :=
  match terms with
  | none => {overflowMarker, completeMarker}
  | some terms => insert completeMarker terms

/-- The index at one moment: its rows, and which queries the database refuses. -/
structure IndexDatabase where
  rows : Finset IndexRow
  failsTerm : WString → Bool
  failsContaining : WString → Bool

/-- The cast of an account id to the parameter of the query. -/
def toInt (n : Int) : Int := Int.bmod n (2 ^ 32)

def getMessagesWithTerm (db : IndexDatabase) (accountID : Int) (term : WString) : Option (Finset Int) :=
  if db.failsTerm term then none
  else some ((db.rows.filter fun r => r.accountID = toInt accountID ∧ r.term = term).image (·.messageID))

/-- `mitterm like '%needle%'`. -/
def getMessagesWithTermContaining (db : IndexDatabase) (accountID : Int) (needle : WString) : Option (Finset Int) :=
  if db.failsContaining needle then none
  else some ((db.rows.filter fun r => r.accountID = toInt accountID ∧ WString.contains r.term needle).image
    (·.messageID))

end PersistentMessageIndex

open PersistentMessageIndex

/-- What `CannotContain` reads of a message. -/
structure IndexedMessage where
  id : Int
  accountID : Int

structure CandidateEntry where
  usable : Bool
  candidates : Finset Int

structure SearchIndexFilter where
  initialized : Bool := false
  usable : Bool := false
  accountID : Int := 0
  minRunLength : Int := 0
  completeSet : Finset Int := ∅
  overflowSet : Finset Int := ∅
  candidatesByText : List (WString × CandidateEntry) := []

/-- The settings the filter reads. -/
structure IndexSettings where
  fullTextEnabled : Bool
  minTokenLength : Int

namespace SearchIndexFilter

def ensureInitialized (ini : IndexSettings) (db : IndexDatabase) (f : SearchIndexFilter) (message : IndexedMessage) :
    SearchIndexFilter :=
  if f.initialized then f
  else
    let f := { f with initialized := true }
    if !ini.fullTextEnabled then f
    else
      let f := { f with minRunLength := ini.minTokenLength, accountID := message.accountID }
      match getMessagesWithTerm db f.accountID completeMarker with
      | none => f
      | some complete =>
        let f := { f with completeSet := complete }
        match getMessagesWithTerm db f.accountID overflowMarker with
        | none => f
        | some overflow => { f with overflowSet := overflow, usable := true }

/-- The first set of matches is taken as it is. -/
def mergeMatches : Option (Finset Int) → Finset Int → Finset Int
  | none, found => found
  | some s, found => s ∩ found

/-- The loop over the needles; `none` says that a query failed. -/
def intersectNeedles (db : IndexDatabase) (accountID : Int) :
    Option (Finset Int) → List WString → Option (Finset Int)
  | intersection, [] => some (intersection.getD ∅)
  | intersection, needle :: needles =>
    match getMessagesWithTermContaining db accountID needle with
    | none => none
    | some found =>
      let merged := mergeMatches intersection found
      if merged = ∅ then some ∅ else intersectNeedles db accountID (some merged) needles

def newEntry (loc : Locale) (db : IndexDatabase) (f : SearchIndexFilter) (searchText : WString) : CandidateEntry :=
  let needles := createQueryNeedles loc searchText f.minRunLength
  if needles = [] then ⟨false, ∅⟩
  else match intersectNeedles db f.accountID none needles with
    | none => ⟨false, ∅⟩
    | some candidates => ⟨true, candidates⟩

def candidatesFor (loc : Locale) (db : IndexDatabase) (f : SearchIndexFilter) (searchText : WString) :
    CandidateEntry × SearchIndexFilter :=
  match f.candidatesByText.lookup searchText with
  | some entry => (entry, f)
  | none =>
    let entry := newEntry loc db f searchText
    (entry, { f with candidatesByText := (searchText, entry) :: f.candidatesByText })

/-- `CannotContain`, and the filter afterwards. -/
def cannotContain (loc : Locale) (ini : IndexSettings) (db : IndexDatabase) (f : SearchIndexFilter)
    (message : IndexedMessage) (searchText : WString) : Bool × SearchIndexFilter :=
  let f := ensureInitialized ini db f message
  if !f.usable then (false, f)
  else if message.accountID ≠ f.accountID then (false, f)
  else if message.id ∉ f.completeSet then (false, f)
  else if message.id ∈ f.overflowSet then (false, f)
  else
    let (entry, f) := candidatesFor loc db f searchText
    if !entry.usable then (false, f) else (message.id ∉ entry.candidates, f)

end SearchIndexFilter
end HMailServer
