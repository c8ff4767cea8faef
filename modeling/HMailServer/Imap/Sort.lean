import HMailServer.Imap.SearchMatch
import HMailServer.Lib.UnstableSort
import HMailServer.Util.AnsiString

/- SORT (`IMAP/IMAPSort.cpp`). `Sort` walks to the last of its criteria and
   sorts by that one alone; what `std::sort` does with ties, and what a reversal
   makes of them, is left to the library. So the order is the one of RFC 5256
   only where the last key settles everything. -/
namespace HMailServer

/-- `IMAPSort::SortField`. -/
inductive SortField where
  | unknown | «from» | subject | cc | to | date | arrival | size
  deriving DecidableEq, Repr

/-- What SORT reads of a message. `unicodeFieldValue` reads the header of its
    file. -/
structure SortMessage where
  id : Int
  accountID : Int
  folderID : Int
  size : Int
  createTime : WString
  unicodeFieldValue : WString → WString

/-- A message with its sequence number. -/
abbrev SortEntry := Int × SortMessage

/-- What SORT reads beside the messages. `mimeTimeStamp` is the time stamp of a
    Date header that is valid; `abortRequested n` is asked before message `n`
    is read. -/
structure SortEnvironment where
  loc : Locale
  messageIndexing : Bool
  getMetaData : Int → Int → WString → Int → Option WString
  mimeTimeStamp : WString → Option WString
  getDateFromSystemDate : WString → DateTime
  toAnsi : WString → AnsiString
  abortRequested : Nat → Bool

namespace IMAPSort

variable (env : SortEnvironment)

def getSortField (headerField : WString) : SortField :=
  let name := AnsiString.makeUpper (env.toAnsi headerField)
  if name = ansi "SUBJECT" then .subject
  else if name = ansi "CC" then .cc
  else if name = ansi "DATE" then .date
  else if name = ansi "FROM" then .from
  else if name = ansi "TO" then .to
  else if name = ansi "ARRIVAL" then .arrival
  else if name = ansi "SIZE" then .size
  else .unknown

def headerName : SortField → WString
  | .from => wide "From"
  | .subject => wide "Subject"
  | .to => wide "To"
  | .cc => wide "CC"
  | .date => wide "Date"
  | _ => []

/-- The value that `CacheHeaderFields_` caches for a message. -/
def cachedValue (databaseMetaData : Int → Option WString) (sortField : SortField) (p : SortMessage) : WString :=
  let fieldValue :=
    match databaseMetaData p.id with
    | some value => value
    | none =>
      let value := p.unicodeFieldValue (headerName sortField)
      if sortField = .date then (env.mimeTimeStamp value).getD p.createTime else value
  let fieldValue := if sortField = .date ∧ fieldValue = [] then p.createTime else fieldValue
  let fieldValue := WString.makeUpper env.loc fieldValue
  if sortField = .from ∨ sortField = .to ∨ sortField = .cc then (fieldValue.dropWhile (· == 34)).dropWhile (· == 60)
  else fieldValue

/-- The loop of `CacheHeaderFields_`; `none` says that it was told to abort. -/
def cacheHeaderFields (databaseMetaData : Int → Option WString) (sortField : SortField) :
    Nat → List SortEntry → (Int → WString) → Option (Int → WString)
  | _, [], headers => some headers
  | n, p :: rest, headers =>
    if env.abortRequested n then none
    else cacheHeaderFields databaseMetaData sortField (n + 1) rest fun id =>
      if id = p.2.id then cachedValue env databaseMetaData sortField p.2 else headers id

/-- `mapDateTimeInfo`. -/
def cacheDates (date : SortMessage → DateTime) (messages : List SortEntry) : Int → DateTime :=
  messages.foldl (fun dates p id => if id = p.2.id then date p.2 else dates id) fun _ => ⟨0, 1899, 12, 30⟩

def sortSize (p1 p2 : SortEntry) : Bool := decide (p1.2.size < p2.2.size)

def sortCachedDateTime (dates : Int → DateTime) (p1 p2 : SortEntry) : Bool :=
  decide ((dates p1.2.id).value < (dates p2.2.id).value)

/-- What the header comparison looks at: the bytes of the narrow string, or the
    characters `wcscasecmp` compares. -/
def headerKey (characterSet header : WString) : List Nat :=
  if WString.equalsNoCase characterSet (wide "US-ASCII") then (env.toAnsi header).map UInt8.toNat
  else (WString.cstr header).map env.loc.toLower

def sortHeaderField (characterSet : WString) (headers : Int → WString) (p1 p2 : SortEntry) : Bool :=
  decide (headerKey env characterSet (headers p1.2.id) < headerKey env characterSet (headers p2.2.id))

def databaseMetaData (messages : List SortEntry) (headerField : WString) : Int → Option WString :=
  match messages with
  | [] => fun _ => none
  | p :: _ =>
    if env.messageIndexing ∧ getSortField env headerField ∈ [SortField.from, .subject, .to, .cc, .date] then
      env.getMetaData p.2.accountID p.2.folderID headerField
    else fun _ => none

/-- The comparator that `Sort` hands to `std::sort` for a criterion: none for an
    unknown field, and `none` around it if the caching was aborted. -/
def comparator (messages : List SortEntry) (characterSet headerField : WString) :
    Option (Option (SortEntry → SortEntry → Bool)) :=
  let sortField := getSortField env headerField
  let headers := cacheHeaderFields env (databaseMetaData env messages headerField) sortField 0 messages fun _ => []
  match sortField with
  | .unknown => some none
  | .arrival => some (some (sortCachedDateTime (cacheDates (fun p => env.getDateFromSystemDate p.createTime) messages)))
  | .size => some (some sortSize)
  | .date => headers.map fun headers =>
      some (sortCachedDateTime (cacheDates (fun p => env.getDateFromSystemDate (headers p.id)) messages))
  | .from | .subject | .cc | .to => headers.map fun headers => some (sortHeaderField env characterSet headers)

/-- `Sort`, on a given `std::sort`. A criterion is its direction, true for
    ascending, and its field. `none` says that the sort was aborted. -/
def sort (stdSort : (SortEntry → SortEntry → Bool) → List SortEntry → List SortEntry) (messages : List SortEntry)
    (characterSet : WString) (sortTypes : List (Bool × WString)) : Option (List SortEntry) :=
  match sortTypes.getLast? with
  | none => some messages
  | some (ascending, headerField) =>
    match comparator env messages characterSet headerField with
    | none => none
    | some none => some messages
    | some (some lt) =>
      let sorted := stdSort lt messages
      some (if !ascending then sorted.reverse else sorted)

/-! ## What SORT is for -/

/-- `a` goes before `b` by one criterion, in the values the code caches. -/
def keyLess (messages : List SortEntry) (characterSet : WString) (c : Bool × WString) (a b : SortEntry) : Bool :=
  match comparator env messages characterSet c.2 with
  | some (some lt) => if c.1 then lt a b else lt b a
  | _ => false

/-- `a` goes before `b` by the first criterion that tells them apart, and by
    sequence number if none does. -/
def precedes (messages : List SortEntry) (characterSet : WString) : List (Bool × WString) → SortEntry → SortEntry → Bool
  | [], a, b => decide (a.1 < b.1)
  | c :: cs, a, b =>
    keyLess env messages characterSet c a b ||
      (!keyLess env messages characterSet c b a && precedes messages characterSet cs a b)

/-- `sorted` is `messages` in the order of all criteria. -/
structure SortedByKeys (messages : List SortEntry) (characterSet : WString) (sortTypes : List (Bool × WString))
    (sorted : List SortEntry) : Prop where
  perm : sorted.Perm messages
  ordered : sorted.Pairwise fun a b => precedes env messages characterSet sortTypes a b = true

/-- The last criterion orders any two messages as all of them together do. -/
def LastKeyDecides (messages : List SortEntry) (characterSet : WString) (sortTypes : List (Bool × WString)) : Prop :=
  ∀ c, sortTypes.getLast? = some c → ∀ a ∈ messages, ∀ b ∈ messages, a ≠ b →
    keyLess env messages characterSet c a b = precedes env messages characterSet sortTypes a b

/-! ## The comparators -/

variable {env} {messages : List SortEntry} {characterSet : WString}

open UnstableSort

theorem cacheHeaderFields_done (habort : ∀ n, env.abortRequested n = false) (metaData : Int → Option WString)
    (sortField : SortField) (n : Nat) (rest : List SortEntry) (headers : Int → WString) :
    ∃ r, cacheHeaderFields env metaData sortField n rest headers = some r := by
  induction rest generalizing n headers with
  | nil => exact ⟨headers, rfl⟩
  | cons p rest ih =>
    rw [cacheHeaderFields, habort n]
    exact ih _ _

/-- A supported field is compared by a strict weak order. -/
theorem comparator_strictWeak (habort : ∀ n, env.abortRequested n = false) {headerField : WString}
    (hs : getSortField env headerField ≠ .unknown) :
    ∃ lt, comparator env messages characterSet headerField = some (some lt) ∧ StrictWeak lt := by
  obtain ⟨headers, hheaders⟩ := cacheHeaderFields_done habort (databaseMetaData env messages headerField)
    (getSortField env headerField) 0 messages fun _ => []
  have hdates (dates : Int → DateTime) : StrictWeak (sortCachedDateTime dates) :=
    .ofKey (fun p => (dates p.2.id).value) fun _ _ => decide_eq_true_iff
  have hfields : StrictWeak (sortHeaderField env characterSet headers) :=
    .ofKey (fun p => headerKey env characterSet (headers p.2.id)) fun _ _ => decide_eq_true_iff
  have hsize : StrictWeak sortSize := .ofKey (fun p => p.2.size) fun _ _ => decide_eq_true_iff
  unfold comparator
  dsimp only
  rw [hheaders]
  cases hfield : getSortField env headerField with
  | unknown => exact absurd hfield hs
  | arrival => exact ⟨_, rfl, hdates _⟩
  | size => exact ⟨_, rfl, hsize⟩
  | date => exact ⟨_, rfl, hdates _⟩
  | «from» => exact ⟨_, rfl, hfields⟩
  | subject => exact ⟨_, rfl, hfields⟩
  | cc => exact ⟨_, rfl, hfields⟩
  | «to» => exact ⟨_, rfl, hfields⟩

section order

variable {sortTypes : List (Bool × WString)}

theorem keyLess_asymm (habort : ∀ n, env.abortRequested n = false) {c : Bool × WString}
    (hs : getSortField env c.2 ≠ .unknown) {a b : SortEntry} (h : keyLess env messages characterSet c a b = true) :
    keyLess env messages characterSet c b a = false := by
  obtain ⟨lt, hlt, hweak⟩ : ∃ lt, comparator env messages characterSet _ = some (some lt) ∧ StrictWeak lt :=
    comparator_strictWeak habort hs
  unfold keyLess at h ⊢
  rw [hlt] at h ⊢
  dsimp only at h ⊢
  split at h
  · rename_i hasc
    rw [if_pos hasc]
    exact hweak.asymm _ _ h
  · rename_i hdesc
    rw [if_neg hdesc]
    exact hweak.asymm _ _ h

/-- Of two messages with different numbers exactly one precedes the other. -/
theorem precedes_swap (habort : ∀ n, env.abortRequested n = false)
    (hs : ∀ c ∈ sortTypes, getSortField env c.2 ≠ .unknown) {a b : SortEntry} (hne : a.1 ≠ b.1) :
    precedes env messages characterSet sortTypes b a = !precedes env messages characterSet sortTypes a b := by
  induction sortTypes with
  | nil =>
    rw [precedes, precedes, ← decide_not, decide_eq_decide]
    omega
  | cons c cs ih =>
    have hrest := ih fun d hd => hs d (by simp [hd])
    have hfirst := hs c (by simp)
    rw [precedes, precedes, hrest]
    cases hab : keyLess env messages characterSet c a b with
    | true => simp [keyLess_asymm habort hfirst hab]
    | false =>
      cases hba : keyLess env messages characterSet c b a with
      | true => simp
      | false => simp

end order

/-! ## The theorem -/

/-- Messages with their numbers ascending: no two have the same. -/
theorem number_ne (hnumbers : messages.Pairwise fun a b => a.1 < b.1) {a b : SortEntry} (ha : a ∈ messages)
    (hb : b ∈ messages) (hne : a ≠ b) : a.1 ≠ b.1 := by
  have hnodup : (messages.map Prod.fst).Nodup := List.pairwise_map.2 (hnumbers.imp fun h => h.ne)
  exact fun heq => hne (List.inj_on_of_nodup_map hnodup ha hb heq)

/-- `Sort` sorts by the last criterion. -/
theorem sort_eq {stdSort : (SortEntry → SortEntry → Bool) → List SortEntry → List SortEntry}
    {sortTypes : List (Bool × WString)} {c : Bool × WString} {lt : SortEntry → SortEntry → Bool}
    (hc : sortTypes.getLast? = some c) (hlt : comparator env messages characterSet c.2 = some (some lt)) :
    sort env stdSort messages characterSet sortTypes =
      some (if c.1 then stdSort lt messages else (stdSort lt messages).reverse) := by
  unfold sort
  rw [hc]
  dsimp only
  rw [hlt]
  cases c.1 <;> rfl

/-- A completed SORT is ordered by all its keys, whatever the library does with
    ties, exactly if the last key alone decides. -/
theorem sorted_by_every_key_iff {sortTypes : List (Bool × WString)} (hne : sortTypes ≠ [])
    (hs : ∀ c ∈ sortTypes, getSortField env c.2 ≠ .unknown)
    (hnumbers : messages.Pairwise fun a b => a.1 < b.1) (habort : ∀ n, env.abortRequested n = false) :
    (∀ stdSort, IsSort stdSort → ∃ sorted, sort env stdSort messages characterSet sortTypes = some sorted ∧
      SortedByKeys env messages characterSet sortTypes sorted) ↔
      LastKeyDecides env messages characterSet sortTypes := by
  obtain ⟨c, hc⟩ : ∃ c, sortTypes.getLast? = some c := ⟨_, List.getLast?_eq_some_getLast hne⟩
  have hlast := hs c (List.mem_of_getLast? hc)
  obtain ⟨lt, hlt, hweak⟩ : ∃ lt, comparator env messages characterSet _ = some (some lt) ∧ StrictWeak lt :=
    comparator_strictWeak habort hlast
  have hnodup : messages.Nodup := hnumbers.imp fun hab heq => by
    rw [heq] at hab
    exact lt_irrefl _ hab
  have hless (a b : SortEntry) : keyLess env messages characterSet c a b = if c.1 then lt a b else lt b a := by
    rw [keyLess, hlt]
  have hpairs : (∀ stdSort, IsSort stdSort → ∃ sorted, sort env stdSort messages characterSet sortTypes = some sorted ∧
      SortedByKeys env messages characterSet sortTypes sorted) ↔
      ∀ a ∈ messages, ∀ b ∈ messages, a ≠ b → keyLess env messages characterSet c b a = false →
        precedes env messages characterSet sortTypes a b = true := by
    have hsorted : (∀ stdSort, IsSort stdSort → ∃ sorted,
        sort env stdSort messages characterSet sortTypes = some sorted ∧
          SortedByKeys env messages characterSet sortTypes sorted) ↔
        ∀ stdSort, IsSort stdSort → (if c.1 then stdSort lt messages else (stdSort lt messages).reverse).Pairwise
          fun a b => precedes env messages characterSet sortTypes a b = true := by
      refine forall₂_congr fun stdSort hsort => ?_
      rw [sort_eq hc hlt]
      constructor
      · intro h
        obtain ⟨sorted, heq, hby⟩ := h
        obtain rfl := Option.some.inj heq
        exact hby.ordered
      · intro h
        refine ⟨_, rfl, ?_, h⟩
        split
        · exact (hsort lt hweak messages).1
        · exact (List.reverse_perm _).trans (hsort lt hweak messages).1
    rw [hsorted]
    cases hdir : c.1 with
    | true =>
      simp only [hless, hdir, if_true]
      exact pairwise_sort_iff hweak hnodup
    | false =>
      simp only [hless, hdir, Bool.false_eq_true, if_false, List.pairwise_reverse]
      rw [pairwise_sort_iff hweak hnodup]
      exact ⟨fun h a ha b hb hab => h b hb a ha hab.symm, fun h a ha b hb hab => h b hb a ha hab.symm⟩
  rw [hpairs]
  constructor
  · intro h d hd a ha b hb hab
    obtain rfl := Option.some.inj (hc.symm.trans hd)
    cases hk : keyLess env messages characterSet c a b with
    | true => exact (h a ha b hb hab (keyLess_asymm habort hlast hk)).symm
    | false =>
      have hba := h b hb a ha hab.symm hk
      rw [precedes_swap habort hs (number_ne hnumbers ha hb hab)] at hba
      simpa using hba.symm
  · intro h a ha b hb hab hk
    have hba := h c hc b hb a ha hab.symm
    rw [hk, precedes_swap habort hs (number_ne hnumbers ha hb hab)] at hba
    simpa using hba.symm

/-! ## Where it fails -/

/-- A server without the metadata index, and a search within its ceilings. -/
def plainSort : SortEnvironment where
  loc := classicLocale
  messageIndexing := false
  getMetaData _ _ _ _ := none
  mimeTimeStamp _ := none
  getDateFromSystemDate _ := ⟨0, 1899, 12, 30⟩
  toAnsi s := s.map UInt8.ofNat
  abortRequested _ := false

/-- A message with that subject and size. -/
def sized (id size : Int) (subject : String) : SortMessage where
  id := id
  accountID := 1
  folderID := 1
  size := size
  createTime := wide "2024-01-01 10:00:00"
  unicodeFieldValue name := if name = wide "Subject" then wide subject else []

def twoSubjects : List SortEntry := [(1, sized 11 20 "apples"), (2, sized 12 10 "pears")]

/-- `SORT (SIZE)`: no two messages have the same size. -/
theorem sorted_by_every_key_iff_size :
    LastKeyDecides plainSort twoSubjects (wide "UTF-8") [(true, wide "SIZE")] ∧
    ∀ stdSort, IsSort stdSort → ∃ sorted, sort plainSort stdSort twoSubjects (wide "UTF-8") [(true, wide "SIZE")] =
      some sorted ∧ SortedByKeys plainSort twoSubjects (wide "UTF-8") [(true, wide "SIZE")] sorted := by
  have hlast : LastKeyDecides plainSort twoSubjects (wide "UTF-8") [(true, wide "SIZE")] := by
    intro c hc a ha b hb hab
    obtain rfl := Option.some.inj hc
    simp only [twoSubjects, List.mem_cons, List.not_mem_nil, or_false] at ha hb
    rcases ha with rfl | rfl <;> rcases hb with rfl | rfl
    · exact absurd rfl hab
    · decide
    · decide
    · exact absurd rfl hab
  refine ⟨hlast, (sorted_by_every_key_iff (by simp) ?_ ?_ fun _ => rfl).2 hlast⟩
  · intro c hc
    obtain rfl := List.mem_singleton.1 hc
    decide
  · simp [twoSubjects]

/-- `SORT (SUBJECT SIZE)` puts `pears` before `apples`, being smaller. -/
theorem sorted_by_last_key_only :
    ∃ sorted, sort plainSort stableSort twoSubjects (wide "UTF-8") [(true, wide "SUBJECT"), (true, wide "SIZE")] =
        some sorted ∧
      ¬ SortedByKeys plainSort twoSubjects (wide "UTF-8") [(true, wide "SUBJECT"), (true, wide "SIZE")] sorted := by
  refine ⟨[(2, sized 12 10 "pears"), (1, sized 11 20 "apples")], ?_, fun h => ?_⟩
  · have hlt : comparator plainSort twoSubjects (wide "UTF-8") (wide "SIZE") = some (some sortSize) := rfl
    rw [sort_eq rfl hlt]
    simp [stableSort, twoSubjects, sortSize, sized, List.mergeSort, List.MergeSort.Internal.splitInTwo]
  · have hfirst := List.pairwise_pair.1 h.ordered
    revert hfirst
    decide

end IMAPSort
end HMailServer
