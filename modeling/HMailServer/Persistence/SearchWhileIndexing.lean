import HMailServer.Persistence.MessageIndexSound

/- A search that reads the term index while the indexer rewrites it. Every
   statement of `SaveTermsForMessage` and every query of the search filter is
   one atomic step; the queries fall anywhere among the statements. The filter
   takes the CompleteMarker once and asks for the terms later, so a message
   that is indexed again in between is excluded by rows that are gone. -/
namespace HMailServer
namespace PersistentMessageIndex

/-! ## The indexer -/

/-- A statement of `SaveTermsForMessage`. -/
inductive IndexWrite where
  | delete
  | insert (term : WString)
  deriving DecidableEq

/-- What `SaveTermsForMessage` inserts before the CompleteMarker. `terms` is
    its set of terms in the order of the loop. -/
def contentInserts (terms : List WString) (overflowed : Bool) : List WString :=
  if overflowed then [overflowMarker] else terms

/-- The statements of `SaveTermsForMessage`. -/
def saveTermsForMessage (terms : List WString) (overflowed : Bool) : List IndexWrite :=
  .delete :: ((contentInserts terms overflowed).map .insert ++ [.insert completeMarker])

def applyWrite (present : Finset WString) : IndexWrite → Finset WString
  | .delete => ∅
  | .insert term => insert term present

/-- The rows of the message, and what is left of the run that writes them. -/
structure IndexerState where
  present : Finset WString := ∅
  pending : List IndexWrite := []

/-- A run begins, or the next statement of the run is executed. What is left of
    the run before is lost, to a crash or to a statement that failed. -/
inductive IndexerStep where
  | save (terms : List WString) (overflowed : Bool)
  | write

def IndexerState.step (s : IndexerState) : IndexerStep → IndexerState
  | .save terms overflowed => { s with pending := saveTermsForMessage terms overflowed }
  | .write =>
    match s.pending with
    | [] => s
    | w :: ws => ⟨applyWrite s.present w, ws⟩

def runIndexer (steps : List IndexerStep) : IndexerState := steps.foldl IndexerState.step {}

/-- A run that the indexer makes for a message with that content: it gave up on
    the message, or it has the terms of `TokenizeForIndex`. -/
def IndexerStep.Faithful (loc : Locale) (content : WString) : IndexerStep → Prop
  | .save terms overflowed => overflowed = true ∨
      ∃ cap distinct, tokenizeForIndex loc content cap = some distinct ∧ ∀ t, t ∈ terms ↔ t ∈ distinct
  | .write => True

/-! ## The search -/

/-- A query of the filter. -/
inductive IndexQuery where
  | withTerm (term : WString)
  | withTermContaining (needle : WString)
  deriving DecidableEq

def IndexQuery.finds : IndexQuery → WString → Bool
  | .withTerm term, t => t = term
  | .withTermContaining needle, t => WString.contains t needle

/-- The filter, and the queries it has made. -/
structure SearchProgress where
  filter : SearchIndexFilter := {}
  asked : List IndexQuery := []

end PersistentMessageIndex

open PersistentMessageIndex

namespace SearchProgress

/-! `dbs n` is the index at the moment of query `n` of the search. The functions
are those of the filter, with every query at its own moment. -/

variable (loc : Locale) (ini : IndexSettings) (dbs : Nat → IndexDatabase)

def ensureInitialized (p : SearchProgress) (message : IndexedMessage) : SearchProgress :=
  if p.filter.initialized then p
  else
    let f := { p.filter with initialized := true }
    if !ini.fullTextEnabled then { p with filter := f }
    else
      let f := { f with minRunLength := ini.minTokenLength, accountID := message.accountID }
      let asked := p.asked ++ [.withTerm completeMarker]
      match getMessagesWithTerm (dbs p.asked.length) f.accountID completeMarker with
      | none => ⟨f, asked⟩
      | some complete =>
        let f := { f with completeSet := complete }
        match getMessagesWithTerm (dbs asked.length) f.accountID overflowMarker with
        | none => ⟨f, asked ++ [.withTerm overflowMarker]⟩
        | some overflow => ⟨{ f with overflowSet := overflow, usable := true }, asked ++ [.withTerm overflowMarker]⟩

def intersectNeedles (accountID : Int) : Option (Finset Int) → List WString → List IndexQuery →
    Option (Finset Int) × List IndexQuery
  | intersection, [], asked => (some (intersection.getD ∅), asked)
  | intersection, needle :: needles, asked =>
    match getMessagesWithTermContaining (dbs asked.length) accountID needle with
    | none => (none, asked ++ [.withTermContaining needle])
    | some found =>
      let merged := SearchIndexFilter.mergeMatches intersection found
      if merged = ∅ then (some ∅, asked ++ [.withTermContaining needle])
      else intersectNeedles accountID (some merged) needles (asked ++ [.withTermContaining needle])

def newEntry (p : SearchProgress) (searchText : WString) : CandidateEntry × List IndexQuery :=
  let needles := createQueryNeedles loc searchText p.filter.minRunLength
  if needles = [] then (⟨false, ∅⟩, p.asked)
  else match intersectNeedles dbs p.filter.accountID none needles p.asked with
    | (none, asked) => (⟨false, ∅⟩, asked)
    | (some candidates, asked) => (⟨true, candidates⟩, asked)

def candidatesFor (p : SearchProgress) (searchText : WString) : CandidateEntry × SearchProgress :=
  match p.filter.candidatesByText.lookup searchText with
  | some entry => (entry, p)
  | none =>
    let (entry, asked) := newEntry loc dbs p searchText
    (entry, ⟨{ p.filter with candidatesByText := (searchText, entry) :: p.filter.candidatesByText }, asked⟩)

/-- `CannotContain`, and the search afterwards. -/
def cannotContain (p : SearchProgress) (message : IndexedMessage) (searchText : WString) : Bool × SearchProgress :=
  let p := ensureInitialized ini dbs p message
  if !p.filter.usable then (false, p)
  else if message.accountID ≠ p.filter.accountID then (false, p)
  else if message.id ∉ p.filter.completeSet then (false, p)
  else if message.id ∈ p.filter.overflowSet then (false, p)
  else
    let (entry, p) := candidatesFor loc dbs p searchText
    if !entry.usable then (false, p) else (message.id ∉ entry.candidates, p)

/-- The search after the questions that were asked so far. -/
def afterCalls (calls : List (IndexedMessage × WString)) : SearchProgress :=
  calls.foldl (fun p call => (cannotContain loc ini dbs p call.1 call.2).2) {}

/-! ## On an index that does not move -/

variable {loc ini dbs} {db : IndexDatabase}

theorem ensureInitialized_still (p : SearchProgress) (message : IndexedMessage) :
    (ensureInitialized ini (fun _ => db) p message).filter =
      SearchIndexFilter.ensureInitialized ini db p.filter message := by
  unfold ensureInitialized SearchIndexFilter.ensureInitialized
  dsimp only
  split
  · rfl
  split
  · rfl
  cases getMessagesWithTerm db message.accountID completeMarker with
  | none => rfl
  | some complete =>
    dsimp only
    cases getMessagesWithTerm db message.accountID overflowMarker <;> rfl

theorem intersectNeedles_still (accountID : Int) (needles : List WString) (intersection : Option (Finset Int))
    (asked : List IndexQuery) : (intersectNeedles (fun _ => db) accountID intersection needles asked).1 =
      SearchIndexFilter.intersectNeedles db accountID intersection needles := by
  induction needles generalizing intersection asked with
  | nil => rfl
  | cons needle needles ih =>
    rw [intersectNeedles, SearchIndexFilter.intersectNeedles]
    cases getMessagesWithTermContaining db accountID needle with
    | none => rfl
    | some found =>
      dsimp only
      split
      · rfl
      · exact ih _ _

theorem newEntry_still (p : SearchProgress) (searchText : WString) :
    (newEntry loc (fun _ => db) p searchText).1 = SearchIndexFilter.newEntry loc db p.filter searchText := by
  unfold newEntry SearchIndexFilter.newEntry
  dsimp only
  split
  · rfl
  rw [← intersectNeedles_still p.filter.accountID _ none p.asked]
  rcases intersectNeedles (fun _ => db) p.filter.accountID none _ p.asked with ⟨_ | candidates, asked⟩ <;> rfl

/-- With the index at rest the search is the filter. -/
theorem cannotContain_still (p : SearchProgress) (message : IndexedMessage) (searchText : WString) :
    (cannotContain loc ini (fun _ => db) p message searchText).1 =
        (SearchIndexFilter.cannotContain loc ini db p.filter message searchText).1 ∧
      (cannotContain loc ini (fun _ => db) p message searchText).2.filter =
        (SearchIndexFilter.cannotContain loc ini db p.filter message searchText).2 := by
  unfold cannotContain SearchIndexFilter.cannotContain
  dsimp only
  rw [← ensureInitialized_still p message]
  generalize ensureInitialized ini (fun _ => db) p message = q
  have hc : (candidatesFor loc (fun _ => db) q searchText).1 =
        (SearchIndexFilter.candidatesFor loc db q.filter searchText).1 ∧
      (candidatesFor loc (fun _ => db) q searchText).2.filter =
        (SearchIndexFilter.candidatesFor loc db q.filter searchText).2 := by
    unfold candidatesFor SearchIndexFilter.candidatesFor
    cases q.filter.candidatesByText.lookup searchText with
    | some entry => exact ⟨rfl, rfl⟩
    | none =>
      dsimp only
      rw [newEntry_still]
      exact ⟨rfl, rfl⟩
  rw [← hc.1, ← hc.2]
  split_ifs <;> exact ⟨rfl, rfl⟩

end SearchProgress

namespace PersistentMessageIndex

/-! ## What the indexer keeps -/

/-- No marker among them. -/
def TokenTerms (terms : Finset WString) : Prop := ∀ t ∈ terms, ∀ c ∈ t, isTokenChar c = true

theorem insertWindow_tokenTerms {token : WString} (htoken : ∀ c ∈ token, isTokenChar c = true) (windowStart : Nat)
    {terms : Finset WString} (h : TokenTerms terms) : TokenTerms (insertWindow token windowStart terms) := by
  unfold insertWindow
  dsimp only
  split
  · intro t ht c hc
    rcases Finset.mem_insert.1 ht with rfl | ht
    · exact htoken c (List.mem_of_mem_drop (List.mem_of_mem_take hc))
    · exact h t ht c hc
  · exact h

theorem insertWindows_tokenTerms {token : WString} (htoken : ∀ c ∈ token, isTokenChar c = true)
    (cap n windowStart : Nat) {terms : Finset WString} (h : TokenTerms terms) :
    TokenTerms (insertWindows cap token n windowStart terms) := by
  induction n generalizing windowStart terms with
  | zero => exact h
  | succ n ih =>
    have hone := insertWindow_tokenTerms htoken windowStart h
    rw [insertWindows]
    split_ifs
    · exact hone
    · exact hone
    · exact ih _ hone

theorem indexToken_tokenTerms {token : WString} (htoken : ∀ c ∈ token, isTokenChar c = true) {cap : Nat}
    {terms terms' : Finset WString} (h : TokenTerms terms) (hr : indexToken cap terms token = some terms') :
    TokenTerms terms' := by
  unfold indexToken at hr
  split at hr
  · cases hr
    exact h
  · obtain ⟨_, hterms⟩ := Option.ite_none_left_eq_some.1 hr
    obtain rfl := Option.some.inj hterms
    split
    · intro t ht
      rcases Finset.mem_insert.1 ht with rfl | ht
      · exact htoken
      · exact h t ht
    · exact insertWindows_tokenTerms htoken _ _ _ h

theorem completeMarker_notMem {loc : Locale} {content : WString} {cap : Nat} {terms : Finset WString}
    (h : tokenizeForIndex loc content cap = some terms) : completeMarker ∉ terms := by
  have hfold : ∀ (tokens : List WString) (a : Finset WString), (∀ token ∈ tokens, ∀ c ∈ token, isTokenChar c = true) →
      TokenTerms a → tokens.foldlM (indexToken cap) a = some terms → TokenTerms terms := by
    intro tokens
    induction tokens with
    | nil =>
      intro a _ ha hr
      cases hr
      exact ha
    | cons token tokens ih =>
      intro a htokens ha hr
      rw [List.foldlM_cons, Option.bind_eq_bind, Option.bind_eq_some_iff] at hr
      obtain ⟨mid, hmid, hrest⟩ := hr
      exact ih mid (fun t ht => htokens t (by simp [ht]))
        (indexToken_tokenTerms (htokens token (by simp)) ha hmid) hrest
  intro hmem
  have htoken := hfold _ _ (fun token ht => (MaximalRuns.maximalRuns_spec ht).2.2) (fun t ht => by cases ht) h
  exact absurd (htoken _ hmem 1 (by decide)) (by decide)

section indexer

variable {loc : Locale} {content : WString}

/-- The marker rule: behind a CompleteMarker stand all terms of the content, or
    the OverflowMarker. -/
def Whole (loc : Locale) (content : WString) (present : Finset WString) : Prop :=
  completeMarker ∈ present → overflowMarker ∈ present ∨
    ∃ cap distinct, tokenizeForIndex loc content cap = some distinct ∧ distinct ⊆ present

/-- A run in progress: its content inserts up to some point are made, and the
    CompleteMarker is not there yet. -/
structure Writing (loc : Locale) (content : WString) (s : IndexerState) (done todo : List WString) : Prop where
  inserts : ∃ terms overflowed, IndexerStep.Faithful loc content (.save terms overflowed) ∧
    contentInserts terms overflowed = done ++ todo
  pending : s.pending = todo.map .insert ++ [.insert completeMarker]
  made : ∀ t ∈ done, t ∈ s.present
  unmarked : completeMarker ∉ s.present

inductive Phase (loc : Locale) (content : WString) (s : IndexerState) : Prop where
  | idle (h : s.pending = [])
  | begun (terms : List WString) (overflowed : Bool) (h : IndexerStep.Faithful loc content (.save terms overflowed))
      (hp : s.pending = saveTermsForMessage terms overflowed)
  | writing (done todo : List WString) (h : Writing loc content s done todo)

theorem contentInserts_unmarked {terms : List WString} {overflowed : Bool}
    (h : IndexerStep.Faithful loc content (.save terms overflowed)) :
    completeMarker ∉ contentInserts terms overflowed := by
  unfold contentInserts
  split
  · decide
  · rename_i hno
    obtain ⟨cap, distinct, hd, hmem⟩ := h.resolve_left hno
    rw [hmem]
    exact completeMarker_notMem hd

theorem step_keeps {s : IndexerState} (hw : Whole loc content s.present) (hp : Phase loc content s) {e : IndexerStep}
    (he : e.Faithful loc content) : Whole loc content (s.step e).present ∧ Phase loc content (s.step e) := by
  cases e with
  | save terms overflowed => exact ⟨hw, .begun terms overflowed he rfl⟩
  | write =>
    cases hp with
    | idle h =>
      have hstay : s.step .write = s := by simp only [IndexerState.step, h]
      rw [hstay]
      exact ⟨hw, .idle h⟩
    | begun terms overflowed hf h =>
      have hstep : s.step .write =
          ⟨∅, (contentInserts terms overflowed).map .insert ++ [.insert completeMarker]⟩ := by
        simp only [IndexerState.step, h, saveTermsForMessage, applyWrite]
      rw [hstep]
      refine ⟨fun hm => absurd hm (Finset.notMem_empty _), .writing [] _ ⟨⟨terms, overflowed, hf, rfl⟩, rfl, ?_, ?_⟩⟩
      · exact fun t ht => absurd ht List.not_mem_nil
      · exact Finset.notMem_empty _
    | writing done todo h =>
      obtain ⟨⟨terms, overflowed, hf, heq⟩, hpend, hmade, hno⟩ := h
      cases todo with
      | cons t todo =>
        have hstep : s.step .write = ⟨insert t s.present, todo.map .insert ++ [.insert completeMarker]⟩ := by
          simp only [IndexerState.step, hpend, List.map_cons, List.cons_append, applyWrite]
        have hne : completeMarker ≠ t := by
          intro hmark
          apply contentInserts_unmarked hf
          rw [heq, hmark]
          simp
        have hunmarked : completeMarker ∉ insert t s.present := by
          rw [Finset.mem_insert]
          exact fun hor => hor.elim hne hno
        rw [hstep]
        refine ⟨fun hm => absurd hm hunmarked, .writing (done ++ [t]) todo ⟨⟨terms, overflowed, hf, ?_⟩, rfl, ?_, hunmarked⟩⟩
        · rw [heq, List.append_assoc, List.singleton_append]
        · intro u hu
          rcases List.mem_append.1 hu with hu | hu
          · exact Finset.mem_insert_of_mem (hmade u hu)
          · rw [List.mem_singleton.1 hu]
            exact Finset.mem_insert_self _ _
      | nil =>
        have hstep : s.step .write = ⟨insert completeMarker s.present, []⟩ := by
          simp only [IndexerState.step, hpend, List.map_nil, List.nil_append, applyWrite]
        rw [hstep]
        refine ⟨fun _ => ?_, .idle rfl⟩
        rw [List.append_nil] at heq
        unfold contentInserts at heq
        split at heq
        · exact .inl (Finset.mem_insert_of_mem (hmade _ (by rw [← heq]; simp)))
        · rename_i hover
          obtain ⟨cap, distinct, hd, hmem⟩ := hf.resolve_left hover
          refine .inr ⟨cap, distinct, hd, fun t ht => Finset.mem_insert_of_mem (hmade t ?_)⟩
          rw [← heq, hmem]
          exact ht

/-- Whatever runs were made and wherever they were cut off. -/
theorem runIndexer_whole {steps : List IndexerStep} (h : ∀ e ∈ steps, e.Faithful loc content) :
    Whole loc content (runIndexer steps).present := by
  have run : ∀ (steps : List IndexerStep) (s : IndexerState), Whole loc content s.present → Phase loc content s →
      (∀ e ∈ steps, e.Faithful loc content) → Whole loc content (steps.foldl IndexerState.step s).present := by
    intro steps
    induction steps with
    | nil => exact fun s hw _ _ => hw
    | cons e steps ih =>
      intro s hw hp hsteps
      obtain ⟨hw', hp'⟩ := step_keeps hw hp (hsteps e (by simp))
      exact ih _ hw' hp' (fun d hd => hsteps d (by simp [hd]))
  exact run steps {} (fun hm => absurd hm (Finset.notMem_empty _)) (.idle rfl) h

end indexer

end PersistentMessageIndex

namespace SearchProgress

/-! ## What the search keeps -/

section search

variable {loc : Locale} {ini : IndexSettings} {dbs : Nat → IndexDatabase} {id account : Int} {content : WString}
variable {present : Nat → Finset WString}

/-- Every query that would have found a row of the message at the moment of the
    first one, for the CompleteMarker, finds one at its own. -/
def NothingLost (present : Nat → Finset WString) (asked : List IndexQuery) : Prop :=
  ∀ n q, asked[n]? = some q → (∃ t ∈ present 0, q.finds t = true) → ∃ t ∈ present n, q.finds t = true

theorem NothingLost.before {asked asked' : List IndexQuery} (h : NothingLost present asked') (hp : asked <+: asked') :
    NothingLost present asked := by
  intro n q hq
  obtain ⟨more, rfl⟩ := hp
  apply h n q
  rw [List.getElem?_append_left (List.getElem?_eq_some_iff.1 hq).1]
  exact hq

/-- The query that was asked last. -/
theorem NothingLost.last {asked asked' : List IndexQuery} {q : IndexQuery} (h : NothingLost present asked')
    (hp : asked ++ [q] <+: asked') (hq : ∃ t ∈ present 0, q.finds t = true) :
    ∃ t ∈ present asked.length, q.finds t = true :=
  h.before hp asked.length q (by simp) hq

theorem intersectNeedles_asked (accountID : Int) (needles : List WString) (intersection : Option (Finset Int))
    (asked : List IndexQuery) : asked <+: (intersectNeedles dbs accountID intersection needles asked).2 := by
  induction needles generalizing intersection asked with
  | nil => exact List.prefix_refl _
  | cons needle needles ih =>
    rw [intersectNeedles]
    split
    · exact List.prefix_append _ _
    · dsimp only
      split
      · exact List.prefix_append _ _
      · exact (List.prefix_append _ _).trans (ih _ _)

theorem newEntry_asked (p : SearchProgress) (searchText : WString) :
    p.asked <+: (newEntry loc dbs p searchText).2 := by
  unfold newEntry
  dsimp only
  split
  · exact List.prefix_refl _
  · have h : p.asked <+: (intersectNeedles dbs p.filter.accountID none
        (createQueryNeedles loc searchText p.filter.minRunLength) p.asked).2 := intersectNeedles_asked _ _ _ _
    split <;> simp_all

theorem ensureInitialized_asked (p : SearchProgress) (message : IndexedMessage) :
    p.asked <+: (ensureInitialized ini dbs p message).asked := by
  unfold ensureInitialized
  split
  · exact List.prefix_refl _
  dsimp only
  split
  · exact List.prefix_refl _
  split
  · exact List.prefix_append _ _
  split
  · exact (List.prefix_append _ _).trans (List.prefix_append _ _)
  · exact (List.prefix_append _ _).trans (List.prefix_append _ _)

theorem candidatesFor_asked (p : SearchProgress) (searchText : WString) :
    p.asked <+: (candidatesFor loc dbs p searchText).2.asked := by
  unfold candidatesFor
  split
  · exact List.prefix_refl _
  · exact newEntry_asked p searchText

/-- A content that the CompleteMarker stands behind. -/
structure Indexed (loc : Locale) (content : WString) (present : Nat → Finset WString) : Prop where
  marked : completeMarker ∈ present 0
  terms : overflowMarker ∉ present 0 →
    ∃ cap distinct, tokenizeForIndex loc content cap = some distinct ∧ distinct ⊆ present 0

/-- What holds of the search between any two questions, if nothing was lost
    from its queries. -/
structure Keeps (loc : Locale) (id account : Int) (content : WString) (present : Nat → Finset WString)
    (p : SearchProgress) : Prop where
  fresh : p.filter.initialized = false → p.filter.usable = false ∧ p.asked = [] ∧ p.filter.candidatesByText = []
  snapshot : p.filter.usable = true → id ∈ p.filter.completeSet →
    account = toInt p.filter.accountID ∧ Indexed loc content present
  overflows : p.filter.usable = true → id ∈ p.filter.completeSet → NothingLost present p.asked →
    overflowMarker ∈ present 0 → id ∈ p.filter.overflowSet
  entries : p.filter.usable = true → id ∈ p.filter.completeSet → NothingLost present p.asked →
    overflowMarker ∉ present 0 → ∀ e ∈ p.filter.candidatesByText, e.2.usable = true →
    WString.contains (WString.makeLower loc content) (WString.makeLower loc e.1) = true → id ∈ e.2.candidates

theorem keeps_initial : Keeps loc id account content present {} where
  fresh _ := ⟨rfl, rfl, rfl⟩
  snapshot h := by cases h
  overflows h := by cases h
  entries h := by cases h

theorem mem_intersectNeedles (hdbs : ∀ n, RowsOf id account (present n) (dbs n)) {accountID : Int}
    (hacc : account = toInt accountID) (needles : List WString) (intersection : Option (Finset Int))
    (asked : List IndexQuery) {r : Finset Int} {asked' : List IndexQuery}
    (hn : ∀ needle ∈ needles, Stored (present 0) needle) (hi : ∀ s, intersection = some s → id ∈ s)
    (hne : needles ≠ [] ∨ intersection ≠ none)
    (h : intersectNeedles dbs accountID intersection needles asked = (some r, asked'))
    (hlost : NothingLost present asked') : id ∈ r := by
  induction needles generalizing intersection asked with
  | nil =>
    obtain ⟨s, hs⟩ := Option.ne_none_iff_exists'.1 (hne.resolve_left (by simp))
    subst hs
    cases h
    exact hi s rfl
  | cons needle needles ih =>
    have hprefix : asked ++ [.withTermContaining needle] <+: asked' := by
      have hasked := congrArg Prod.snd h
      dsimp only at hasked
      rw [← hasked, intersectNeedles]
      split
      · exact List.prefix_refl _
      · dsimp only
        split
        · exact List.prefix_refl _
        · exact intersectNeedles_asked _ _ _ _
    have hthere : ∃ t ∈ present asked.length, WString.contains t needle = true := by
      obtain ⟨t, ht, hin⟩ := hn needle (by simp)
      exact hlost.last hprefix ⟨t, ht, contains_iff.2 hin⟩
    rw [intersectNeedles] at h
    split at h
    · cases h
    rename_i found hfound
    have hmem : id ∈ found := ((hdbs asked.length).mem_withTermContaining hfound).2 ⟨hacc, hthere⟩
    have hmerged : id ∈ SearchIndexFilter.mergeMatches intersection found := by
      cases intersection with
      | none => exact hmem
      | some s => exact Finset.mem_inter.2 ⟨hi s rfl, hmem⟩
    dsimp only at h
    split at h
    · rename_i hempty
      rw [hempty] at hmerged
      exact absurd hmerged (Finset.notMem_empty id)
    · refine ih _ _ (fun n hm => hn n (by simp [hm])) (fun s hs => ?_) (.inr (by simp)) h
      cases hs
      exact hmerged

theorem newEntry_keeps (hdbs : ∀ n, RowsOf id account (present n) (dbs n)) (p : SearchProgress)
    (hacc : account = toInt p.filter.accountID) (hindexed : Indexed loc content present) (searchText : WString)
    (hlost : NothingLost present (newEntry loc dbs p searchText).2) (hover : overflowMarker ∉ present 0)
    (husable : (newEntry loc dbs p searchText).1.usable = true)
    (hcontains : WString.contains (WString.makeLower loc content) (WString.makeLower loc searchText) = true) :
    id ∈ (newEntry loc dbs p searchText).1.candidates := by
  obtain ⟨cap, distinct, hd, hsub⟩ := hindexed.terms hover
  unfold newEntry at hlost husable ⊢
  dsimp only at hlost husable ⊢
  split at husable
  · cases husable
  rename_i hne
  rw [if_neg hne] at hlost ⊢
  split at husable
  · cases husable
  rename_i candidates asked hfound
  rw [hfound] at hlost
  refine mem_intersectNeedles hdbs hacc _ none _ (fun needle hneedle => ?_) (fun s hs => by cases hs) (.inl hne) hfound
    hlost
  exact (needle_stored hd hcontains hneedle).mono hsub

theorem ensureInitialized_keeps (hdbs : ∀ n, RowsOf id account (present n) (dbs n))
    (hwhole : Whole loc content (present 0)) {p : SearchProgress} (hp : Keeps loc id account content present p)
    (message : IndexedMessage) : Keeps loc id account content present (ensureInitialized ini dbs p message) := by
  unfold ensureInitialized
  split
  · exact hp
  rename_i hinit
  obtain ⟨hunusable, hasked, hnone⟩ := hp.fresh (by simpa using hinit)
  -- Every branch but the last leaves the filter unusable.
  have hidle : ∀ q : SearchProgress, q.filter.usable = false → q.filter.initialized = true →
      Keeps loc id account content present q := by
    intro q hu hq
    constructor <;> intro h <;> simp_all
  dsimp only
  split
  · exact hidle _ hunusable rfl
  split
  · exact hidle _ hunusable rfl
  rename_i complete hcomplete
  split
  · exact hidle _ hunusable rfl
  rename_i overflow hoverflow
  rw [hasked] at hcomplete hoverflow
  have hmarked := fun h => ((hdbs 0).mem_withTerm hcomplete).1 h
  refine ⟨(fun h => by cases h), fun _ h => ?_, fun _ h hlost hover => ?_, fun _ _ _ _ e he => ?_⟩
  · obtain ⟨hacc, hmark⟩ := hmarked h
    exact ⟨hacc, hmark, fun hno => (hwhole hmark).resolve_left hno⟩
  · refine ((hdbs _).mem_withTerm hoverflow).2 ⟨(hmarked h).1, ?_⟩
    obtain ⟨t, ht, hfinds⟩ := @NothingLost.last _ [.withTerm completeMarker] _ (.withTerm overflowMarker) hlost
      (by rw [hasked]; exact List.prefix_refl _) ⟨overflowMarker, hover, by simp [IndexQuery.finds]⟩
    rw [IndexQuery.finds, decide_eq_true_eq] at hfinds
    rw [hfinds] at ht
    exact ht
  · dsimp only at he
    rw [hnone] at he
    cases he

theorem candidatesFor_keeps (hdbs : ∀ n, RowsOf id account (present n) (dbs n)) {p : SearchProgress}
    (hp : Keeps loc id account content present p) (hu : p.filter.usable = true) (searchText : WString) :
    Keeps loc id account content present (candidatesFor loc dbs p searchText).2 ∧
      (id ∈ p.filter.completeSet → NothingLost present (candidatesFor loc dbs p searchText).2.asked →
        overflowMarker ∉ present 0 → (candidatesFor loc dbs p searchText).1.usable = true →
        WString.contains (WString.makeLower loc content) (WString.makeLower loc searchText) = true →
        id ∈ (candidatesFor loc dbs p searchText).1.candidates) := by
  unfold candidatesFor
  split
  · rename_i entry hlookup
    exact ⟨hp, fun hid hlost hover => hp.entries hu hid hlost hover _ (SearchIndexFilter.mem_of_lookup hlookup)⟩
  · have hprefix : p.asked <+: (newEntry loc dbs p searchText).2 := newEntry_asked p searchText
    have hnew : id ∈ p.filter.completeSet → NothingLost present (newEntry loc dbs p searchText).2 →
        overflowMarker ∉ present 0 → (newEntry loc dbs p searchText).1.usable = true →
        WString.contains (WString.makeLower loc content) (WString.makeLower loc searchText) = true →
        id ∈ (newEntry loc dbs p searchText).1.candidates := by
      intro hid hlost hover husable hcontains
      obtain ⟨hacc, hindexed⟩ := hp.snapshot hu hid
      exact newEntry_keeps hdbs p hacc hindexed searchText hlost hover husable hcontains
    refine ⟨⟨fun h => ?_, hp.snapshot, fun hu hid hlost hover => ?_, fun hu hid hlost hover e he => ?_⟩, hnew⟩
    · rw [(hp.fresh h).1] at hu
      cases hu
    · exact hp.overflows hu hid (hlost.before hprefix) hover
    · rcases List.mem_cons.1 he with rfl | he
      · exact hnew hid hlost hover
      · exact hp.entries hu hid (hlost.before hprefix) hover e he

/-- One question: the search keeps its invariant, and does not exclude the
    message if nothing was lost from its queries. -/
theorem cannotContain_keeps (hdbs : ∀ n, RowsOf id account (present n) (dbs n))
    (hwhole : Whole loc content (present 0)) {p : SearchProgress} (hp : Keeps loc id account content present p)
    (message : IndexedMessage) (searchText : WString) :
    Keeps loc id account content present (cannotContain loc ini dbs p message searchText).2 ∧
      (message.id = id → NothingLost present (cannotContain loc ini dbs p message searchText).2.asked →
        WString.contains (WString.makeLower loc content) (WString.makeLower loc searchText) = true →
        (cannotContain loc ini dbs p message searchText).1 = false) := by
  have hq : Keeps loc id account content present (ensureInitialized ini dbs p message) :=
    ensureInitialized_keeps hdbs hwhole hp message
  unfold cannotContain
  dsimp only
  generalize ensureInitialized ini dbs p message = q at hq ⊢
  split
  · exact ⟨hq, fun _ _ _ => rfl⟩
  rename_i hu
  have hu : q.filter.usable = true := by simpa using hu
  split
  · exact ⟨hq, fun _ _ _ => rfl⟩
  split
  · exact ⟨hq, fun _ _ _ => rfl⟩
  rename_i hcomplete
  split
  · exact ⟨hq, fun _ _ _ => rfl⟩
  rename_i hoverflow
  obtain ⟨hkeeps, hentry⟩ := candidatesFor_keeps hdbs hq hu searchText
  have hprefix : q.asked <+: (candidatesFor loc dbs q searchText).2.asked := candidatesFor_asked q searchText
  split
  · exact ⟨hkeeps, fun _ _ _ => rfl⟩
  rename_i husable
  refine ⟨hkeeps, fun hid hlost hcontains => ?_⟩
  subst hid
  have hmem := not_not.1 hcomplete
  have hover : overflowMarker ∉ present 0 := fun h => hoverflow (hq.overflows hu hmem (hlost.before hprefix) h)
  have := hentry hmem hlost hover (by simpa using husable) hcontains
  simpa using this

theorem afterCalls_keeps (hdbs : ∀ n, RowsOf id account (present n) (dbs n)) (hwhole : Whole loc content (present 0))
    (calls : List (IndexedMessage × WString)) :
    Keeps loc id account content present (afterCalls loc ini dbs calls) := by
  have run : ∀ (calls : List (IndexedMessage × WString)) (p : SearchProgress),
      Keeps loc id account content present p → Keeps loc id account content present
        (calls.foldl (fun p call => (cannotContain loc ini dbs p call.1 call.2).2) p) := by
    intro calls
    induction calls with
    | nil => exact fun p hp => hp
    | cons call calls ih => exact fun p hp => ih _ (cannotContain_keeps hdbs hwhole hp call.1 call.2).1
  exact run calls {} keeps_initial

end search

end SearchProgress

/-! ## The theorem -/

/-- The indexer's runs for one message, and the moments of the queries of one
    search among their statements. The rows of other messages, and which
    queries fail, are arbitrary. -/
structure SearchAmidIndexing (loc : Locale) (content : WString) (id account : Int) where
  steps : List IndexerStep
  faithful : ∀ e ∈ steps, e.Faithful loc content
  moment : Nat → Nat
  forward : Monotone moment
  dbs : Nat → IndexDatabase
  rows : ∀ n, RowsOf id account (runIndexer (steps.take (moment n))).present (dbs n)

namespace SearchAmidIndexing

variable {loc : Locale} {content : WString} {id account : Int}

/-- The rows of the message at query `n`. -/
def present (w : SearchAmidIndexing loc content id account) (n : Nat) : Finset WString :=
  (runIndexer (w.steps.take (w.moment n))).present

/-- `CannotContain` for the message behind the questions `calls`. -/
def answer (w : SearchAmidIndexing loc content id account) (ini : IndexSettings)
    (calls : List (IndexedMessage × WString)) (accountID : Int) (searchText : WString) : Bool × SearchProgress :=
  SearchProgress.cannotContain loc ini w.dbs (SearchProgress.afterCalls loc ini w.dbs calls) ⟨id, accountID⟩ searchText

end SearchAmidIndexing

/-- A search that loses no row of a query to the indexer excludes no message
    that contains the text. -/
theorem search_while_indexing_excludes_no_match {loc : Locale} {content : WString} {id account : Int}
    (w : SearchAmidIndexing loc content id account) (ini : IndexSettings) (calls : List (IndexedMessage × WString))
    (accountID : Int) {searchText : WString}
    (hcontains : WString.contains (WString.makeLower loc content) (WString.makeLower loc searchText) = true)
    (hlost : SearchProgress.NothingLost w.present (w.answer ini calls accountID searchText).2.asked) :
    (w.answer ini calls accountID searchText).1 = false := by
  have hwhole : Whole loc content (w.present 0) :=
    runIndexer_whole fun e he => w.faithful e (List.mem_of_mem_take he)
  have hkeeps : SearchProgress.Keeps loc id account content w.present
      (SearchProgress.afterCalls loc ini w.dbs calls) := SearchProgress.afterCalls_keeps w.rows hwhole calls
  exact (SearchProgress.cannotContain_keeps w.rows hwhole hkeeps ⟨id, accountID⟩ searchText).2 rfl hlost hcontains

/-! ## Where it fails -/

theorem helloTerms : tokenizeForIndex classicLocale (wide "Hello World2026") 100 =
    some {wide "hello", wide "world2026"} := by
  decide

/-- The indexer saves the message once, and begins to save it again. -/
def helloSteps : List IndexerStep :=
  [.save [wide "hello", wide "world2026"] false, .write, .write, .write, .write,
    .save [wide "hello", wide "world2026"] false, .write]

theorem helloSteps_faithful : ∀ e ∈ helloSteps, e.Faithful classicLocale (wide "Hello World2026") := by
  have hsave : IndexerStep.Faithful classicLocale (wide "Hello World2026")
      (.save [wide "hello", wide "world2026"] false) := .inr ⟨100, _, helloTerms, fun t => by simp⟩
  intro e he
  simp only [helloSteps, List.mem_cons, List.not_mem_nil, or_false] at he
  rcases he with rfl | rfl | rfl | rfl | rfl | rfl | rfl <;> first | exact hsave | trivial

/-- The index that holds `terms` for message 7. -/
def indexOf (terms : Finset WString) : IndexDatabase where
  rows := terms.image fun t => ⟨7, 1, t⟩
  failsTerm _ := false
  failsContaining _ := false

theorem indexOf_rows (terms : Finset WString) : RowsOf 7 1 terms (indexOf terms) := by
  intro acc term
  simp only [indexOf, Finset.mem_image, IndexRow.mk.injEq, true_and]
  constructor
  · intro h
    obtain ⟨t, ht, hacc, hterm⟩ := h
    subst hacc hterm
    exact ⟨rfl, ht⟩
  · intro h
    exact ⟨term, h.2, h.1.symm, rfl⟩

/-- The queries of a search among these statements, at the moments `moment`. -/
def helloSearch (moment : Nat → Nat) (h : Monotone moment) :
    SearchAmidIndexing classicLocale (wide "Hello World2026") 7 1 where
  steps := helloSteps
  faithful := helloSteps_faithful
  moment := moment
  forward := h
  dbs n := indexOf (runIndexer (helloSteps.take (moment n))).present
  rows n := indexOf_rows _

/-- Every query falls between the two runs. -/
theorem search_while_indexing_excludes_no_match_hello :
    ((helloSearch (fun _ => 5) monotone_const).answer ⟨true, 2⟩ [] 1 (wide "O WORLD2")).1 = false :=
  search_while_indexing_excludes_no_match _ ⟨true, 2⟩ [] 1 (by decide +kernel) fun _ _ _ h => h

/-- The markers are read between the two runs, the terms when the second run
    has deleted them. -/
def markersBeforeTerms (n : Nat) : Nat := if n < 2 then 5 else 7

theorem markersBeforeTerms_forward : Monotone markersBeforeTerms := by
  intro a b hab
  unfold markersBeforeTerms
  split_ifs <;> omega

theorem search_while_indexing_excludes_a_match :
    WString.contains (WString.makeLower classicLocale (wide "Hello World2026"))
        (WString.makeLower classicLocale (wide "O WORLD2")) = true ∧
      ((helloSearch markersBeforeTerms markersBeforeTerms_forward).answer ⟨true, 2⟩ [] 1 (wide "O WORLD2")).1 = true :=
  ⟨by decide +kernel, by decide +kernel⟩

end HMailServer
