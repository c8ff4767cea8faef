import HMailServer.Imap.BaseSubject

/- RFC 5256 THREAD (`IMAP/IMAPThread.cpp`). The arena of containers is a heap of
   cells; a pointer is an arena index or the virtual root. The pointer walks that
   the source bounds by `kMaxThreadDepth` are bounded the same way here; the walks
   it leaves unbounded (`Prune_`, `SortChildrenRecursively_`, `RenderContainer_`)
   take fuel and answer `none` when it runs out. -/
namespace HMailServer.Thread
open WString BaseSubject

/-- What the build reads of a searched message: its header values, its UID and
its internal date. Dates only matter through their order. -/
structure Message where
  uid : Nat
  createTime : Int
  messageId : WString
  references : WString
  inReplyTo : WString
  subject : WString
  date : WString

/-- What is read from outside: the locale, and `Time::GetDateTimeFromMimeHeader`,
`none` being a value whose status is not valid. -/
structure Environment where
  locale : Locale
  getDateTimeFromMimeHeader : WString → Option Int

inductive Ptr where
  | virtualRoot
  | owned (index : Nat)
  deriving DecidableEq, Repr

structure ThreadContainer where
  message : Option Message := none
  sequence : Nat := 0
  parent : Option Ptr := none
  children : List Ptr := []
  sentDate : Int := 0
  baseSubjectKey : WString := []
  isReplyOrForward : Bool := false

/-- The arena: its size, and the cell behind each pointer. -/
structure Heap where
  size : Nat
  cell : Ptr → ThreadContainer

namespace Heap

def set (h : Heap) (p : Ptr) (c : ThreadContainer) : Heap :=
  { h with cell := fun q => if q = p then c else h.cell q }

def empty : Heap := ⟨0, fun _ => {}⟩

def setParent (h : Heap) (p : Ptr) (parent : Option Ptr) : Heap :=
  h.set p { h.cell p with parent := parent }

def setChildren (h : Heap) (p : Ptr) (children : List Ptr) : Heap :=
  h.set p { h.cell p with children := children }

/-- A new dummy container. -/
def makeContainer (h : Heap) : Heap × Ptr :=
  ({ (h.set (.owned h.size) {}) with size := h.size + 1 }, .owned h.size)

end Heap

def kMaxReferencesPerMessage : Nat := 100
def kMaxThreadDepth : Nat := 512

/-! ## Links -/

/-- The walk of `DepthOf_`, which stops one past the cap. -/
def depthFrom (h : Heap) : Nat → Option Ptr → Nat → Nat
  | 0, _, depth => depth
  | _ + 1, none, depth => depth
  | fuel + 1, some p, depth =>
    if depth + 1 > kMaxThreadDepth then depth + 1
    else depthFrom h fuel (h.cell p).parent (depth + 1)

def depthOf (h : Heap) (node : Ptr) : Nat := depthFrom h (kMaxThreadDepth + 1) (some node) 0

/-- The walk of `IsSelfOrAncestor_`, which answers true past the cap. -/
def climbsTo (h : Heap) (candidate : Ptr) : Nat → Option Ptr → Nat → Bool
  | 0, _, _ => true
  | _ + 1, none, _ => false
  | fuel + 1, some p, depth =>
    if p = candidate then true
    else if depth + 1 > kMaxThreadDepth then true
    else climbsTo h candidate fuel (h.cell p).parent (depth + 1)

def isSelfOrAncestor (h : Heap) (candidate node : Ptr) : Bool :=
  climbsTo h candidate (kMaxThreadDepth + 1) (some node) 0

def canLink (h : Heap) (parent child : Ptr) : Bool :=
  if parent = child then false
  else if isSelfOrAncestor h child parent then false
  else if depthOf h parent ≥ kMaxThreadDepth then false
  else true

def detachFromParent (h : Heap) (node : Ptr) : Heap :=
  match (h.cell node).parent with
  | none => h
  | some p => (h.setChildren p ((h.cell p).children.erase node)).setParent node none

def attachChild (h : Heap) (parent child : Ptr) : Heap :=
  let h := h.setParent child (some parent)
  h.setChildren parent ((h.cell parent).children ++ [child])

/-! ## Loading a message -/

/-- The loop of `ExtractMessageIds_`; every turn moves `position` forward. -/
def extractIdsFrom (headerValue : WString) : Nat → Nat → List WString
  | 0, _ => []
  | fuel + 1, position =>
    match findFrom headerValue 60 position with
    | none => []
    | some start =>
      match findFrom headerValue 62 (start + 1) with
      | none => []
      | some last =>
        let id := mid headerValue start (last - start + 1)
        if id.length > 2 then id :: extractIdsFrom headerValue fuel (last + 1)
        else extractIdsFrom headerValue fuel (last + 1)

def extractMessageIds (headerValue : WString) : List WString :=
  extractIdsFrom headerValue (headerValue.length + 1) 0

def extractFirstMessageId (headerValue : WString) : WString :=
  (extractMessageIds headerValue).head?.getD []

/-- References, or the first id of In-Reply-To when there are none; at most the
last hundred. -/
def referencesOf (m : Message) : List WString :=
  let references := extractMessageIds m.references
  let references :=
    if references.isEmpty then
      let inReplyTo := extractFirstMessageId m.inReplyTo
      if inReplyTo.isEmpty then [] else [inReplyTo]
    else references
  if references.length > kMaxReferencesPerMessage then
    references.drop (references.length - kMaxReferencesPerMessage)
  else references

def sentDateOf (env : Environment) (m : Message) : Int :=
  if m.date.isEmpty then m.createTime
  else (env.getDateTimeFromMimeHeader m.date).getD m.createTime

/-- The state of the load and link loop. -/
structure LoadState where
  heap : Heap
  byMessageId : WString → Option Ptr
  searchedContainers : List Ptr

def LoadState.initial : LoadState := ⟨.empty, fun _ => none, []⟩

/-- `byMessageId[id] = p`. -/
def assign (table : WString → Option Ptr) (id : WString) (p : Ptr) : WString → Option Ptr :=
  fun key => if key = id then some p else table key

/-- Find or create the message's own container. -/
def ownContainer (s : LoadState) (messageId : WString) : LoadState × Ptr :=
  let fresh := s.heap.makeContainer
  if messageId.isEmpty then ({ s with heap := fresh.1 }, fresh.2)
  else
    match s.byMessageId messageId with
    | none =>
      ({ s with heap := fresh.1, byMessageId := assign s.byMessageId messageId fresh.2 }, fresh.2)
    | some found =>
      if (s.heap.cell found).message.isNone then (s, found)
      else ({ s with heap := fresh.1 }, fresh.2)

/-- The container of a reference, found or created. -/
def referencedContainer (s : LoadState) (referenceId : WString) : LoadState × Ptr :=
  match s.byMessageId referenceId with
  | some found => (s, found)
  | none =>
    let fresh := s.heap.makeContainer
    ({ s with heap := fresh.1, byMessageId := assign s.byMessageId referenceId fresh.2 }, fresh.2)

/-- Link the ancestry chain, oldest first; answers the last reference. -/
def linkReferences (s : LoadState) (previous : Option Ptr) : List WString → LoadState × Option Ptr
  | [] => (s, previous)
  | referenceId :: rest =>
    let (s, referenced) := referencedContainer s referenceId
    let s := match previous with
      | none => s
      | some p =>
        if (s.heap.cell referenced).parent.isNone && canLink s.heap p referenced then
          { s with heap := attachChild s.heap p referenced }
        else s
    linkReferences s (some referenced) rest

inductive Algorithm where
  | orderedSubject
  | references
  deriving DecidableEq, Repr

/-- Store the message in its container. -/
def fillContainer (env : Environment) (h : Heap) (container : Ptr) (sequence : Nat) (m : Message) :
    Heap :=
  let base := calculateBaseSubject env.locale m.subject
  h.set container { h.cell container with
    message := some m
    sequence := sequence
    sentDate := sentDateOf env m
    baseSubjectKey := base.1.map env.locale.toUpper
    isReplyOrForward := base.2 }

/-- The message's own place: under its last reference, authoritatively. -/
def linkOwn (s : LoadState) (references : List WString) (previous : Option Ptr) (container : Ptr) :
    LoadState :=
  match previous with
  | some p =>
    if canLink s.heap p container then
      { s with heap := attachChild (detachFromParent s.heap container) p container }
    else if references.isEmpty then { s with heap := detachFromParent s.heap container }
    else s
  | none =>
    if references.isEmpty then { s with heap := detachFromParent s.heap container } else s

/-- One turn of the load and link loop. -/
def loadMessage (env : Environment) (algorithm : Algorithm) (s : LoadState) (entry : Nat × Message) :
    LoadState :=
  let (s, container) := ownContainer s (extractFirstMessageId entry.2.messageId)
  let s := { s with
    heap := fillContainer env s.heap container entry.1 entry.2
    searchedContainers := s.searchedContainers ++ [container] }
  match algorithm with
  | .orderedSubject => s
  | .references =>
    let references := referencesOf entry.2
    let (s, previous) := linkReferences s none references
    linkOwn s references previous container

/-- The loop, which asks `abortRequested` in front of every message; `none` when
the answer was yes. -/
def loadMessages (env : Environment) (algorithm : Algorithm) (abortRequested : Nat → Bool) :
    Nat → LoadState → List (Nat × Message) → Option LoadState
  | _, s, [] => some s
  | asked, s, entry :: rest =>
    if abortRequested asked then none
    else loadMessages env algorithm abortRequested (asked + 1) (loadMessage env algorithm s entry) rest

def attachRoot (h : Heap) (i : Nat) : Heap :=
  if (h.cell (.owned i)).parent.isNone then attachChild h .virtualRoot (.owned i) else h

/-- Hang every parentless container of the arena in under the virtual root. -/
def attachRoots (h : Heap) : Heap := (List.range h.size).foldl attachRoot h

/-! ## Pruning and sorting -/

/-- What `Prune_` does with child `i` of `node` once the child is pruned itself:
the heap, and the index the loop goes on from. -/
def pruneChild (h : Heap) (node child : Ptr) (i : Nat) : Heap × Nat :=
  if (h.cell child).message.isNone && (h.cell child).children.isEmpty then
    (h.setChildren node ((h.cell node).children.eraseIdx i), i)
  else if (h.cell child).message.isNone &&
      (node != .virtualRoot || (h.cell child).children.length == 1) then
    let grandChildren := (h.cell child).children
    let h := grandChildren.foldl (fun h grandChild => h.setParent grandChild (some node)) h
    let children := (h.cell node).children.eraseIdx i
    (h.setChildren node (children.take i ++ grandChildren ++ children.drop i), i)
  else (h, i + 1)

/-- `Prune_`, from child `i` on. -/
def pruneFrom : Nat → Heap → Ptr → Nat → Option Heap
  | 0, _, _, _ => none
  | fuel + 1, h, node, i =>
    match (h.cell node).children[i]? with
    | none => some h
    | some child =>
      (pruneFrom fuel h child 0).bind fun h =>
        pruneFrom fuel (pruneChild h node child i).1 node (pruneChild h node child i).2

def prune (fuel : Nat) (h : Heap) (node : Ptr) : Option Heap := pruneFrom fuel h node 0

/-- The sent date of a message, or of a dummy's first child. -/
def sortDate (h : Heap) (node : Ptr) : Int :=
  if (h.cell node).message.isSome then (h.cell node).sentDate
  else
    match (h.cell node).children.head? with
    | some child => (h.cell child).sentDate
    | none => 0

/-- `std::stable_sort` under `AscendingBySentDate`. -/
def stableSortByDate (h : Heap) (nodes : List Ptr) : List Ptr :=
  nodes.mergeSort fun left right => !decide (sortDate h right < sortDate h left)

def sortChildrenRecursively : Nat → Heap → Ptr → Option Heap
  | 0, _, _ => none
  | fuel + 1, h, node =>
    let children := stableSortByDate h (h.cell node).children
    children.foldlM (sortChildrenRecursively fuel) (h.setChildren node children)

/-! ## Subject grouping -/

def threadSubjectKey (h : Heap) (root : Ptr) : WString :=
  if (h.cell root).message.isSome then (h.cell root).baseSubjectKey
  else
    match (h.cell root).children.head? with
    | some child => (h.cell child).baseSubjectKey
    | none => []

def threadIsReply (h : Heap) (root : Ptr) : Bool :=
  if (h.cell root).message.isSome then (h.cell root).isReplyOrForward
  else
    match (h.cell root).children.head? with
    | some child => (h.cell child).isReplyOrForward
    | none => false

/-- First pass: the root each subject files under. -/
def chooseTable (h : Heap) (bySubject : WString → Option Ptr) (root : Ptr) :
    WString → Option Ptr :=
  let key := threadSubjectKey h root
  if key.isEmpty then bySubject
  else
    match bySubject key with
    | none => assign bySubject key root
    | some table =>
      if ((h.cell root).message.isNone && (h.cell table).message.isSome) ||
          ((h.cell table).message.isSome && threadIsReply h table && !threadIsReply h root) then
        assign bySubject key root
      else bySubject

structure GroupState where
  heap : Heap
  bySubject : WString → Option Ptr

/-- Two dummies: the table's one keeps both families. -/
def adoptChildren (h : Heap) (table root : Ptr) : Heap :=
  (h.cell root).children.foldl
    (fun h orphan => attachChild (detachFromParent h orphan) table orphan) h

/-- A new dummy over the two threads, in the table entry's place. -/
def sideBySide (h : Heap) (table root : Ptr) : Heap × Ptr :=
  let (h, dummy) := h.makeContainer
  let children := (h.cell .virtualRoot).children
  let tablePosition := if table ∈ children then children.idxOf table else 0
  let h := attachChild (attachChild (detachFromParent h table) dummy table) dummy root
  let h := h.setParent dummy (some .virtualRoot)
  (h.setChildren .virtualRoot ((h.cell .virtualRoot).children.insertIdx tablePosition dummy), dummy)

/-- Second pass, for one root; `none` is the null table entry that the source
would follow. -/
def groupRoot (s : GroupState) (root : Ptr) : Option GroupState :=
  let key := threadSubjectKey s.heap root
  if key.isEmpty then some s
  else
    (s.bySubject key).bind fun table =>
      if table = root then some s
      else
        let h := detachFromParent s.heap root
        if (h.cell table).message.isNone && (h.cell root).message.isNone then
          some { s with heap := adoptChildren h table root }
        else if (h.cell table).message.isNone then
          some { s with heap := attachChild h table root }
        else if threadIsReply h root && !threadIsReply h table then
          some { s with heap := attachChild h table root }
        else
          let (h, dummy) := sideBySide h table root
          some { heap := h, bySubject := assign s.bySubject key dummy }

def groupBySubject (h : Heap) : Option Heap :=
  let rootSet := (h.cell .virtualRoot).children
  let bySubject := rootSet.foldl (chooseTable h) fun _ => none
  (rootSet.foldlM groupRoot ⟨h, bySubject⟩).map GroupState.heap

/-! ## ORDEREDSUBJECT -/

/-- The order of the first sort: base subject, then sent date. The right-hand
key passes through a C string. -/
def subjectDateLess (h : Heap) (left right : Ptr) : Bool :=
  match WString.compare (h.cell left).baseSubjectKey (cstr (h.cell right).baseSubjectKey) with
  | .lt => true
  | .gt => false
  | .eq => decide ((h.cell left).sentDate < (h.cell right).sentDate)

structure ChainState where
  heap : Heap
  chainHead : Option Ptr
  chainTail : Ptr

/-- One container goes to the tail of its chain, or starts a new one. -/
def chainContainer (s : ChainState) (container : Ptr) : ChainState :=
  match s.chainHead with
  | some head =>
    if (s.heap.cell container).baseSubjectKey ≠ (s.heap.cell head).baseSubjectKey then
      ⟨attachChild s.heap .virtualRoot container, some container, container⟩
    else ⟨attachChild s.heap s.chainTail container, some head, container⟩
  | none => ⟨attachChild s.heap .virtualRoot container, some container, container⟩

def orderBySubject (h : Heap) (searchedContainers : List Ptr) : Heap :=
  let sorted := searchedContainers.mergeSort fun left right => !subjectDateLess h right left
  let h := (sorted.foldl chainContainer ⟨h, none, .virtualRoot⟩).heap
  h.setChildren .virtualRoot (stableSortByDate h (h.cell .virtualRoot).children)

/-! ## Rendering -/

/-- `%u` and `%d` of a number that is not negative. -/
def decimal (n : Nat) : WString := (Nat.toDigits 10 n).map Char.toNat

/-- The number a message is shown by. -/
def numberOf (useUid : Bool) (sequence : Nat) (m : Message) : Nat :=
  if useUid then m.uid else sequence

/-- The nested lists of a branch; `render` is the recursive call. -/
def renderBranches (render : Ptr → WString → Option WString) (children : List Ptr)
    (out : WString) : Option WString :=
  children.foldlM (fun out child => (render child (out ++ wide "(")).map (· ++ wide ")")) out

/-- `RenderContainer_`, its chain loop first; `first` is the flag of that loop,
which leaves a node with one child only by walking into it. -/
def renderFrom (h : Heap) (useUid : Bool) : Nat → Ptr → Bool → WString → Option WString
  | 0, _, _, _ => none
  | fuel + 1, current, first, out =>
    match (h.cell current).message with
    | some m =>
      let out := (if first then out else out ++ wide " ") ++
        decimal (numberOf useUid (h.cell current).sequence m)
      match (h.cell current).children with
      | [] => some out
      | [child] => renderFrom h useUid fuel child false out
      | children =>
        renderBranches (fun child out => renderFrom h useUid fuel child true out) children
          (out ++ wide " ")
    | none =>
      if (h.cell current).children.isEmpty then some out
      else
        renderBranches (fun child out => renderFrom h useUid fuel child true out)
          (h.cell current).children (if first then out else out ++ wide " ")

def renderContainer (h : Heap) (useUid : Bool) (fuel : Nat) (node : Ptr) (out : WString) :
    Option WString :=
  renderFrom h useUid fuel node true out

def renderRoots (h : Heap) (useUid : Bool) (fuel : Nat) : Option WString :=
  (h.cell .virtualRoot).children.foldlM
    (fun responseBody root =>
      (renderContainer h useUid fuel root
        (responseBody ++ if responseBody.isEmpty then wide " (" else wide "(")).map (· ++ wide ")"))
    []

/-! ## The whole build -/

/-- The containers of the searched messages, arranged into threads under the
virtual root. -/
def arrange (fuel : Nat) (algorithm : Algorithm) (s : LoadState) : Option Heap :=
  match algorithm with
  | .references => do
    let h ← prune fuel (attachRoots s.heap) .virtualRoot
    let h ← sortChildrenRecursively fuel h .virtualRoot
    let h ← groupBySubject h
    sortChildrenRecursively fuel h .virtualRoot
  | .orderedSubject => some (orderBySubject s.heap s.searchedContainers)

/-- `BuildThreads`: its answer and `responseBody`. -/
def buildThreads (fuel : Nat) (env : Environment) (messages : List (Nat × Message)) (useUid : Bool)
    (algorithm : Algorithm) (abortRequested : Nat → Bool) : Option (Bool × WString) :=
  if messages.isEmpty then some (true, [])
  else
    match loadMessages env algorithm abortRequested 0 .initial messages with
    | none => some (false, [])
    | some s => do
      let h ← arrange fuel algorithm s
      let responseBody ← renderRoots h useUid fuel
      some (true, responseBody)

end HMailServer.Thread
