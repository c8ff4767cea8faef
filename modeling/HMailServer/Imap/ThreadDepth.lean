import HMailServer.Lib.ParentChain
import HMailServer.Imap.ThreadForest

/- How deep the linking phase nests. `CanLink_` asks for the depth of the new parent
   only; the child may bring a tree of its own. Where every link that is made also
   has room for the child's tree (`RunFits`), no chain of parents is longer than
   `kMaxThreadDepth` and one; a chain that is built from the bottom up never fails
   the guard (`Bottom`). -/
namespace HMailServer.Thread
open ParentChain Heap

/-- `node->parent`. -/
def Heap.parentOf (h : Heap) (p : Ptr) : Option Ptr := (h.cell p).parent

/-- No container has more than `kMaxThreadDepth + 1` containers on its parent chain,
itself included. -/
def ChainsBounded (h : Heap) : Prop := Bounded h.parentOf (kMaxThreadDepth + 1)

/-! ## The links that are made -/

/-- The chains that the link of `child` under `parent` joins have room. -/
def LinkFits (h : Heap) (parent child : Ptr) : Prop := Fits h.parentOf (kMaxThreadDepth + 1) parent child

/-- Every link of a reference chain fits. -/
def ReferencesFit (s : LoadState) (previous : Option Ptr) : List WString → Prop
  | [] => True
  | referenceId :: rest =>
    let (s, referenced) := referencedContainer s referenceId
    match previous with
    | none => ReferencesFit s (some referenced) rest
    | some p =>
      if (s.heap.cell referenced).parent.isNone && canLink s.heap p referenced then
        LinkFits s.heap p referenced ∧
          ReferencesFit { s with heap := attachChild s.heap p referenced } (some referenced) rest
      else ReferencesFit s (some referenced) rest

/-- The link of a message under its last reference fits. -/
def OwnFits (s : LoadState) (previous : Option Ptr) (container : Ptr) : Prop :=
  ∀ p, previous = some p → canLink s.heap p container = true → LinkFits s.heap p container

/-- Every link that one message makes fits. -/
def MessageFits (env : Environment) (s : LoadState) (entry : Nat × Message) : Prop :=
  let (s, container) := ownContainer s (extractFirstMessageId entry.2.messageId)
  let s := { s with
    heap := fillContainer env s.heap container entry.1 entry.2
    searchedContainers := s.searchedContainers ++ [container] }
  ReferencesFit s none (referencesOf entry.2) ∧
    OwnFits (linkReferences s none (referencesOf entry.2)).1 (linkReferences s none (referencesOf entry.2)).2 container

/-- Every link of the run fits. -/
def RunFits (env : Environment) : LoadState → List (Nat × Message) → Prop
  | _, [] => True
  | s, entry :: rest => MessageFits env s entry ∧ RunFits env (loadMessage env .references s entry) rest

/-! ## One step -/

theorem parentOf_attachChild (h : Heap) (p c : Ptr) :
    Hung h.parentOf (attachChild h p c).parentOf p c := by
  refine ⟨?_, ?_⟩
  · unfold parentOf
    rw [attachChild_parent, if_pos rfl]
  · intro x hx
    unfold parentOf
    rw [attachChild_parent, if_neg hx]

/-- The chain of a new parent does not come by the child. -/
theorem canLink_apart {h : Heap} {p c : Ptr} (hlink : canLink h p c = true) (m : Nat) :
    ancestor h.parentOf m p ≠ some c := by
  intro hm
  have hself := climbsTo_of_climbs (reflTransGen_of_ancestor m hm) (kMaxThreadDepth + 1) 0
  unfold canLink isSelfOrAncestor at hlink
  rw [hself] at hlink
  simp at hlink

theorem attachChild_bounded {h : Heap} {p c : Ptr} (hlink : canLink h p c = true) (hfits : LinkFits h p c)
    (hb : ChainsBounded h) : ChainsBounded (attachChild h p c) :=
  (parentOf_attachChild h p c).bounded (canLink_apart hlink) hfits hb

theorem parentOf_detachFromParent (h : Heap) (c x y : Ptr) (hy : (detachFromParent h c).parentOf x = some y) :
    h.parentOf x = some y := by
  unfold parentOf at hy ⊢
  rw [detachFromParent_parent] at hy
  split at hy
  · cases hy
  · exact hy

theorem parentOf_makeContainer (h : Heap) (x y : Ptr) (hy : h.makeContainer.1.parentOf x = some y) :
    h.parentOf x = some y := by
  unfold parentOf at hy ⊢
  rw [cell_makeContainer] at hy
  split at hy
  · cases hy
  · exact hy

theorem parentOf_fillContainer (env : Environment) (h : Heap) (container : Ptr) (sequence : Nat) (m : Message) :
    (fillContainer env h container sequence m).parentOf = h.parentOf := by
  funext x
  unfold parentOf fillContainer Heap.set
  dsimp only
  split
  · rename_i hx
    rw [hx]
  · rfl

/-- The message's own link: it leaves its old parent, and its tree comes along. -/
theorem moveChild_bounded {h : Heap} {p c : Ptr} (hlink : canLink h p c = true) (hfits : LinkFits h p c)
    (hb : ChainsBounded h) : ChainsBounded (attachChild (detachFromParent h c) p c) := by
  have hle := parentOf_detachFromParent h c
  refine (parentOf_attachChild _ p c).bounded ?_ (hfits.of_le hle) (hb.of_le hle)
  intro m hm
  exact canLink_apart hlink m (ancestor_of_le hle m hm)

/-! ## The run -/

theorem ownContainer_bounded {s : LoadState} (hb : ChainsBounded s.heap) (messageId : WString) :
    ChainsBounded (ownContainer s messageId).1.heap := by
  have hfresh : ChainsBounded s.heap.makeContainer.1 := hb.of_le (parentOf_makeContainer s.heap)
  unfold ownContainer
  split
  · exact hfresh
  · split
    · exact hfresh
    · split
      · exact hb
      · exact hfresh

theorem referencedContainer_bounded {s : LoadState} (hb : ChainsBounded s.heap) (referenceId : WString) :
    ChainsBounded (referencedContainer s referenceId).1.heap := by
  unfold referencedContainer
  split
  · exact hb
  · exact hb.of_le (parentOf_makeContainer s.heap)

theorem linkReferences_bounded (references : List WString) : ∀ (s : LoadState) (previous : Option Ptr),
    ChainsBounded s.heap → ReferencesFit s previous references →
    ChainsBounded (linkReferences s previous references).1.heap := by
  induction references with
  | nil => exact fun _ _ hb _ => hb
  | cons referenceId rest ih =>
    intro s previous hb hfit
    have hb' := referencedContainer_bounded hb referenceId
    unfold ReferencesFit at hfit
    unfold linkReferences
    generalize referencedContainer s referenceId = r at hb' hfit ⊢
    obtain ⟨s', referenced⟩ := r
    dsimp only at hb' hfit ⊢
    cases previous with
    | none => exact ih s' _ hb' hfit
    | some p =>
      dsimp only at hfit ⊢
      split
      · rename_i hlink
        rw [if_pos hlink] at hfit
        exact ih _ _ (attachChild_bounded (Bool.and_eq_true_iff.1 hlink).2 hfit.1 hb') hfit.2
      · rename_i hlink
        rw [if_neg hlink] at hfit
        exact ih s' _ hb' hfit

theorem linkOwn_bounded {s : LoadState} (hb : ChainsBounded s.heap) (references : List WString)
    {previous : Option Ptr} {container : Ptr} (hfit : OwnFits s previous container) :
    ChainsBounded (linkOwn s references previous container).heap := by
  have hdetached : ChainsBounded (detachFromParent s.heap container) :=
    hb.of_le (parentOf_detachFromParent s.heap container)
  unfold linkOwn
  split
  · rename_i p
    split
    · rename_i hlink
      exact moveChild_bounded hlink (hfit p rfl hlink) hb
    · split
      · exact hdetached
      · exact hb
  · split
    · exact hdetached
    · exact hb

theorem loadMessage_bounded (env : Environment) {s : LoadState} (hb : ChainsBounded s.heap) {entry : Nat × Message}
    (hfit : MessageFits env s entry) : ChainsBounded (loadMessage env .references s entry).heap := by
  have hb' := ownContainer_bounded hb (extractFirstMessageId entry.2.messageId)
  unfold MessageFits at hfit
  unfold loadMessage
  generalize ownContainer s (extractFirstMessageId entry.2.messageId) = r at hb' hfit ⊢
  obtain ⟨s', container⟩ := r
  dsimp only at hb' hfit ⊢
  have hfilled : ChainsBounded (fillContainer env s'.heap container entry.1 entry.2) := by
    unfold ChainsBounded
    rw [parentOf_fillContainer]
    exact hb'
  exact linkOwn_bounded (linkReferences_bounded _ _ none hfilled hfit.1) _ hfit.2

theorem loadMessages_bounded (env : Environment) (abortRequested : Nat → Bool) (messages : List (Nat × Message)) :
    ∀ (asked : Nat) (s : LoadState), ChainsBounded s.heap → RunFits env s messages →
      ∀ t, loadMessages env .references abortRequested asked s messages = some t → ChainsBounded t.heap := by
  induction messages with
  | nil =>
    intro asked s hb _ t ht
    cases ht
    exact hb
  | cons entry rest ih =>
    intro asked s hb hfit t ht
    unfold loadMessages at ht
    split at ht
    · cases ht
    · exact ih (asked + 1) _ (loadMessage_bounded env hb hfit.1) hfit.2 t ht

end HMailServer.Thread
