import HMailServer.Lib.PointerForest
import HMailServer.Imap.Thread

/- The containers as a forest. `Holds h F` says that the pointers of the heap
   hold the forest `F`, without repetitions; each pointer operation of the build
   is an operation on forests. The load loop keeps such a forest over the whole
   arena, whatever the headers say: a link is only made after `canLink` has seen
   that the new parent is not below the child. -/
namespace HMailServer.Thread
open PointerForest Forest

namespace Heap

def links (h : Heap) : Links Ptr := ⟨fun p => (h.cell p).parent, fun p => (h.cell p).children⟩

/-- The cell without its pointers. -/
def content (h : Heap) (p : Ptr) : ThreadContainer :=
  { h.cell p with parent := none, children := [] }

/-- Only pointers differ. -/
structure SameContent (h h' : Heap) : Prop where
  size : h'.size = h.size
  content : ∀ p, h'.content p = h.content p

@[simp] theorem links_parent (h : Heap) (p : Ptr) : h.links.parent p = (h.cell p).parent := rfl
@[simp] theorem links_children (h : Heap) (p : Ptr) : h.links.children p = (h.cell p).children := rfl

theorem SameContent.refl (h : Heap) : SameContent h h := ⟨rfl, fun _ => rfl⟩

theorem SameContent.trans {h₁ h₂ h₃ : Heap} (h12 : SameContent h₁ h₂) (h23 : SameContent h₂ h₃) :
    SameContent h₁ h₃ :=
  ⟨h23.size.trans h12.size, fun p => (h23.content p).trans (h12.content p)⟩

theorem SameContent.message {h h' : Heap} (hs : SameContent h h') (p : Ptr) :
    (h'.cell p).message = (h.cell p).message := by
  have he := congrArg ThreadContainer.message (hs.content p)
  exact he

theorem SameContent.sequence {h h' : Heap} (hs : SameContent h h') (p : Ptr) :
    (h'.cell p).sequence = (h.cell p).sequence := by
  have he := congrArg ThreadContainer.sequence (hs.content p)
  exact he

theorem SameContent.baseSubjectKey {h h' : Heap} (hs : SameContent h h') (p : Ptr) :
    (h'.cell p).baseSubjectKey = (h.cell p).baseSubjectKey := by
  have he := congrArg ThreadContainer.baseSubjectKey (hs.content p)
  exact he

theorem cell_setParent (h : Heap) (p q : Ptr) (x : Option Ptr) :
    (h.setParent p x).cell q = if q = p then { h.cell p with parent := x } else h.cell q := rfl

theorem cell_setChildren (h : Heap) (p q : Ptr) (x : List Ptr) :
    (h.setChildren p x).cell q = if q = p then { h.cell p with children := x } else h.cell q := rfl

@[simp] theorem parent_setParent (h : Heap) (p q : Ptr) (x : Option Ptr) :
    ((h.setParent p x).cell q).parent = if q = p then x else (h.cell q).parent := by
  rw [cell_setParent]
  split <;> rfl

@[simp] theorem children_setParent (h : Heap) (p q : Ptr) (x : Option Ptr) :
    ((h.setParent p x).cell q).children = (h.cell q).children := by
  rw [cell_setParent]
  split
  · rename_i hq
    rw [hq]
  · rfl

@[simp] theorem parent_setChildren (h : Heap) (p q : Ptr) (x : List Ptr) :
    ((h.setChildren p x).cell q).parent = (h.cell q).parent := by
  rw [cell_setChildren]
  split
  · rename_i hq
    rw [hq]
  · rfl

@[simp] theorem children_setChildren (h : Heap) (p q : Ptr) (x : List Ptr) :
    ((h.setChildren p x).cell q).children = if q = p then x else (h.cell q).children := by
  rw [cell_setChildren]
  split <;> rfl

@[simp] theorem size_setParent (h : Heap) (p : Ptr) (x : Option Ptr) :
    (h.setParent p x).size = h.size := rfl

@[simp] theorem size_setChildren (h : Heap) (p : Ptr) (x : List Ptr) :
    (h.setChildren p x).size = h.size := rfl

theorem sameContent_setParent (h : Heap) (p : Ptr) (x : Option Ptr) :
    SameContent h (h.setParent p x) := by
  refine ⟨rfl, fun q => ?_⟩
  rw [content, content, cell_setParent]
  split
  · rename_i hq
    rw [hq]
  · rfl

theorem sameContent_setChildren (h : Heap) (p : Ptr) (x : List Ptr) :
    SameContent h (h.setChildren p x) := by
  refine ⟨rfl, fun q => ?_⟩
  rw [content, content, cell_setChildren]
  split
  · rename_i hq
    rw [hq]
  · rfl

end Heap
open Heap

/-- The heap's pointers hold `F`, every node once, under no parent. -/
structure Holds (h : Heap) (F : Forest Ptr) : Prop where
  linked : Linked h.links none F
  nodup : (nodes F).Nodup

/-! ## Attach and detach -/

theorem attachChild_parent (h : Heap) (parent child q : Ptr) :
    ((attachChild h parent child).cell q).parent =
      if q = child then some parent else (h.cell q).parent := by
  simp [attachChild]

theorem attachChild_children (h : Heap) (parent child q : Ptr) :
    ((attachChild h parent child).cell q).children =
      if q = parent then (h.cell q).children ++ [child] else (h.cell q).children := by
  simp only [attachChild, children_setChildren, children_setParent]
  split
  · rename_i hq
    rw [hq]
  · rfl

@[simp] theorem attachChild_size (h : Heap) (parent child : Ptr) :
    (attachChild h parent child).size = h.size := rfl

theorem sameContent_attachChild (h : Heap) (parent child : Ptr) :
    SameContent h (attachChild h parent child) :=
  (sameContent_setParent h _ _).trans (sameContent_setChildren _ _ _)

theorem detachFromParent_parent (h : Heap) (node q : Ptr) :
    ((detachFromParent h node).cell q).parent = if q = node then none else (h.cell q).parent := by
  unfold detachFromParent
  split
  · rename_i hp
    split
    · rename_i hq
      rw [hq, hp]
    · rfl
  · simp

theorem detachFromParent_children (h : Heap) (node q : Ptr) :
    ((detachFromParent h node).cell q).children =
      if (h.cell node).parent = some q then (h.cell q).children.erase node
      else (h.cell q).children := by
  unfold detachFromParent
  split
  · rename_i hp
    rw [hp, if_neg (by simp)]
  · rename_i p hp
    simp only [children_setParent, children_setChildren, hp, Option.some_inj]
    by_cases hq : q = p
    · rw [if_pos hq, if_pos hq.symm, hq]
    · rw [if_neg hq, if_neg (Ne.symm hq)]

@[simp] theorem detachFromParent_size (h : Heap) (node : Ptr) :
    (detachFromParent h node).size = h.size := by
  unfold detachFromParent
  split <;> rfl

theorem sameContent_detachFromParent (h : Heap) (node : Ptr) :
    SameContent h (detachFromParent h node) := by
  unfold detachFromParent
  split
  · exact SameContent.refl h
  · exact (sameContent_setChildren h _ _).trans (sameContent_setParent _ _ _)

/-- Attaching a root tree under a node of the rest. -/
theorem Holds.attach {h : Heap} {A b : Forest Ptr} {p c : Ptr} (hF : Holds h (A ++ tree c b))
    (hp : p ∈ nodes A) : Holds (attachChild h p c) (graft p (tree c b) A) := by
  obtain ⟨hA, hc⟩ := linked_append.mp hF.linked
  have hn := hF.nodup
  rw [nodes_append, List.nodup_append] at hn
  obtain ⟨hnA, hnT, hd⟩ := hn
  obtain ⟨hcp, hcc, hcb⟩ := linked_tree.mp hc
  have hcA : c ∉ nodes A := fun hx => hd c hx c (by simp) rfl
  have hpc : p ≠ c := fun e => hcA (e ▸ hp)
  have hpb : p ∉ nodes b := fun hx => hd p hp p (by simp [hx]) rfl
  have hcb' : c ∉ nodes b := (List.nodup_cons.mp (by simpa using hnT)).1
  refine ⟨hA.graft hnA (linked_tree.mpr ⟨?_, ?_, hcb.congr ?_⟩) ?_ ?_, ?_⟩
  · simp [attachChild_parent]
  · simpa [attachChild_children, Ne.symm hpc] using hcc
  · intro x hx
    have hxc : x ≠ c := fun e => hcb' (e ▸ hx)
    have hxp : x ≠ p := fun e => hpb (e ▸ hx)
    simp [attachChild_parent, attachChild_children, hxc, hxp]
  · intro x hx
    have hxc : x ≠ c := fun e => hcA (e ▸ hx)
    simp [attachChild_parent, hxc]
  · intro x hx
    simp [attachChild_children]
  · refine (nodes_graft (tree c b) hnA hp).nodup_iff.mpr ?_
    rw [← nodes_append]
    exact hF.nodup

/-- Detaching a node cuts its tree out and makes it the last root. -/
theorem Holds.detach {h : Heap} {F : Forest Ptr} {c : Ptr} (hF : Holds h F) (hc : c ∈ nodes F) :
    Holds (detachFromParent h c) (cut c F ++ tree c (under c F)) := by
  obtain ⟨huc, hul⟩ := hF.linked.under hF.nodup hc
  have hperm := nodes_cut hF.nodup hc
  have hn : (nodes (cut c F) ++ nodes (tree c (under c F))).Nodup := hperm.nodup_iff.mp hF.nodup
  have hcu : c ∉ nodes (under c F) := by
    rw [List.nodup_append] at hn
    exact (List.nodup_cons.mp (by simpa using hn.2.1)).1
  -- only the parent lists `c`, so erasing it everywhere changes nothing elsewhere
  have herase : ∀ x ∈ nodes F, ((detachFromParent h c).cell x).children =
      (h.cell x).children.erase c := by
    intro x hx
    rw [detachFromParent_children]
    split
    · rfl
    · rename_i hpar
      refine (List.erase_of_not_mem ?_).symm
      intro hmem
      exact hpar (hF.linked.child hx hmem).1
  have hkeep : ∀ x ∈ nodes (under c F), c ∉ (h.cell x).children := by
    intro x hx hmem
    exact hcu (hul.child hx hmem).2
  refine ⟨linked_append.mpr ⟨hF.linked.cut hF.nodup ?_ ?_, linked_tree.mpr ⟨?_, ?_, ?_⟩⟩, ?_⟩
  · intro x _ hxc
    simp [detachFromParent_parent, hxc]
  · intro x hx _
    exact herase x hx
  · simp [detachFromParent_parent]
  · have hcc : c ∉ (h.cell c).children := by
      intro hmem
      rw [show (h.cell c).children = roots (under c F) from huc] at hmem
      exact hcu (roots_subset_nodes _ _ hmem)
    rw [links_children, herase c hc, List.erase_of_not_mem hcc]
    exact huc
  · refine hul.congr ?_
    intro x hx
    have hxF : x ∈ nodes F := hperm.mem_iff.mpr (by simp [hx])
    have hxc : x ≠ c := fun e => hcu (e ▸ hx)
    refine ⟨by simp [detachFromParent_parent, hxc], ?_⟩
    rw [links_children, herase x hxF, List.erase_of_not_mem (hkeep x hx)]
    rfl
  · rwa [nodes_append]

/-- A parentless node is a root. -/
theorem Holds.root {h : Heap} {F : Forest Ptr} {c : Ptr} (hF : Holds h F) (hc : c ∈ nodes F)
    (hpar : (h.cell c).parent = none) : c ∈ roots F := by
  rcases hF.linked.inner hc with hroot | ⟨p, -, hp, -⟩
  · exact hroot
  · rw [links_parent, hpar] at hp
    cases hp

/-- The roots of a forest may be taken in any order. -/
theorem Holds.rotate {h : Heap} {F₁ T F₂ : Forest Ptr} (hF : Holds h (F₁ ++ T ++ F₂)) :
    Holds h (F₁ ++ F₂ ++ T) := by
  obtain ⟨h12, h3⟩ := linked_append.mp hF.linked
  obtain ⟨h1, h2⟩ := linked_append.mp h12
  refine ⟨linked_append.mpr ⟨linked_append.mpr ⟨h1, h3⟩, h2⟩, ?_⟩
  refine (List.Perm.nodup_iff ?_).mp hF.nodup
  simp only [nodes_append, List.append_assoc]
  exact List.Perm.append_left _ List.perm_append_comm

/-! ## The link guard -/

/-- A climb to `candidate` is always reported: it is found, or the cap is hit. -/
theorem climbsTo_of_climbs {h : Heap} {candidate node : Ptr}
    (hc : Relation.ReflTransGen (fun x y => h.links.parent x = some y) node candidate) :
    ∀ fuel depth, climbsTo h candidate fuel (some node) depth = true := by
  induction hc using Relation.ReflTransGen.head_induction_on with
  | refl =>
    intro fuel depth
    cases fuel with
    | zero => rfl
    | succ fuel => simp [climbsTo]
  | head hstep _ ih =>
    intro fuel depth
    cases fuel with
    | zero => rfl
    | succ fuel =>
      rw [climbsTo]
      split
      · rfl
      · split
        · rfl
        · rw [show (h.cell _).parent = some _ from hstep]
          exact ih fuel (depth + 1)

/-- A permitted link has its new parent outside the child's tree. -/
theorem canLink_not_below {h : Heap} {par : Option Ptr} {parent child : Ptr} {b : Forest Ptr}
    (hT : Linked h.links par (tree child b)) (hlink : canLink h parent child = true) :
    parent ∉ nodes (tree child b) := by
  intro hmem
  have hself := climbsTo_of_climbs (hT.climbs parent hmem) (kMaxThreadDepth + 1) 0
  rw [canLink, isSelfOrAncestor, hself] at hlink
  simp at hlink

/-- The link of a reference chain: a parentless container goes under another. -/
theorem Holds.link {h : Heap} {F : Forest Ptr} {p c : Ptr} (hF : Holds h F) (hp : p ∈ nodes F)
    (hc : c ∈ nodes F) (hpar : (h.cell c).parent = none) (hlink : canLink h p c = true) :
    ∃ F', Holds (attachChild h p c) F' ∧ (nodes F').Perm (nodes F) := by
  obtain ⟨F₁, b, F₂, rfl⟩ := split_root (hF.root hc hpar)
  have hF' := hF.rotate
  obtain ⟨-, hT⟩ := linked_append.mp hF'.linked
  have hpT := canLink_not_below hT hlink
  have hpA : p ∈ nodes (F₁ ++ F₂) := by
    simp only [nodes_append, List.mem_append] at hp ⊢
    tauto
  have hnA : (nodes (F₁ ++ F₂)).Nodup := by
    have hn := hF'.nodup
    rw [nodes_append, List.nodup_append] at hn
    exact hn.1
  refine ⟨graft p (tree c b) (F₁ ++ F₂), hF'.attach hpA, (nodes_graft _ hnA hpA).trans ?_⟩
  simp only [nodes_append, List.append_assoc]
  exact List.Perm.append_left _ List.perm_append_comm

/-- The authoritative link: the container moves with its whole tree. -/
theorem Holds.move {h : Heap} {F : Forest Ptr} {p c : Ptr} (hF : Holds h F) (hp : p ∈ nodes F)
    (hc : c ∈ nodes F) (hlink : canLink h p c = true) :
    ∃ F', Holds (attachChild (detachFromParent h c) p c) F' ∧ (nodes F').Perm (nodes F) := by
  obtain ⟨huc, hul⟩ := hF.linked.under hF.nodup hc
  have hperm := nodes_cut hF.nodup hc
  have hT : Linked h.links (h.cell c).parent (tree c (under c F)) :=
    linked_tree.mpr ⟨rfl, huc, hul⟩
  have hpT := canLink_not_below hT hlink
  have hpA : p ∈ nodes (cut c F) := by
    have hp' := hperm.mem_iff.mp hp
    rw [List.mem_append] at hp'
    tauto
  have hD := hF.detach hc
  have hnA : (nodes (cut c F)).Nodup := by
    have hn := hD.nodup
    rw [nodes_append, List.nodup_append] at hn
    exact hn.1
  exact ⟨_, hD.attach hpA, (nodes_graft _ hnA hpA).trans hperm.symm⟩

/-! ## The load loop -/

/-- The pointers the arena has given out. -/
def Heap.Owned (h : Heap) (p : Ptr) : Prop := ∃ i < h.size, p = .owned i

/-- What holds between two messages: the arena is one forest, the tables point
into it, and the searched containers hold the messages loaded so far. -/
structure LoadInv (s : LoadState) (loaded : List (Nat × Message)) : Prop where
  forest : ∃ F, Holds s.heap F ∧ ∀ p, p ∈ nodes F ↔ s.heap.Owned p
  virtualRoot : s.heap.cell .virtualRoot = {}
  table : ∀ id p, s.byMessageId id = some p → s.heap.Owned p
  nodup : s.searchedContainers.Nodup
  searched : ∀ p, p ∈ s.searchedContainers ↔ s.heap.Owned p ∧ (s.heap.cell p).message.isSome
  messages : s.searchedContainers.map (fun p => ((s.heap.cell p).sequence, (s.heap.cell p).message))
    = loaded.map fun e => (e.1, some e.2)

theorem Heap.not_owned_size (h : Heap) : ¬ h.Owned (.owned h.size) := by
  rintro ⟨i, hi, he⟩
  injection he with he
  omega

theorem Heap.not_owned_virtualRoot (h : Heap) : ¬ h.Owned .virtualRoot := by
  rintro ⟨i, -, he⟩
  cases he

theorem Heap.owned_makeContainer (h : Heap) (p : Ptr) :
    h.makeContainer.1.Owned p ↔ h.Owned p ∨ p = .owned h.size := by
  constructor
  · rintro ⟨i, hi, rfl⟩
    by_cases hlt : i < h.size
    · exact .inl ⟨i, hlt, rfl⟩
    · have hlt' : i < h.size + 1 := hi
      exact .inr (by rw [show i = h.size by omega])
  · rintro (⟨i, hi, rfl⟩ | rfl)
    · exact ⟨i, Nat.lt_succ_of_lt hi, rfl⟩
    · exact ⟨h.size, Nat.lt_succ_self _, rfl⟩

theorem Heap.cell_makeContainer (h : Heap) (q : Ptr) :
    h.makeContainer.1.cell q = if q = .owned h.size then {} else h.cell q := rfl

theorem Heap.cell_makeContainer_old {h : Heap} {q : Ptr} (hq : h.Owned q) :
    h.makeContainer.1.cell q = h.cell q := by
  rw [cell_makeContainer, if_neg]
  intro he
  exact h.not_owned_size (he ▸ hq)

/-- A new container is a new tree of one node. -/
theorem Holds.makeContainer {h : Heap} {F : Forest Ptr} (hF : Holds h F)
    (hnew : Ptr.owned h.size ∉ nodes F) :
    Holds h.makeContainer.1 (F ++ tree (.owned h.size) .nil) := by
  refine ⟨linked_append.mpr ⟨hF.linked.congr ?_, linked_tree.mpr ⟨?_, ?_, trivial⟩⟩, ?_⟩
  · intro x hx
    have hne : x ≠ .owned h.size := fun e => hnew (e ▸ hx)
    simp [cell_makeContainer, hne]
  · simp [cell_makeContainer]
  · simp [cell_makeContainer]
  · rw [nodes_append, nodes_tree, nodes_nil]
    exact List.nodup_append.mpr ⟨hF.nodup, by simp, by
      intro x hx y hy e
      simp only [List.mem_singleton] at hy
      exact hnew (hy ▸ e ▸ hx)⟩

/-- A new container, with whatever the table then says about it. -/
theorem LoadInv.makeContainer {s : LoadState} {loaded : List (Nat × Message)} (hs : LoadInv s loaded)
    {byMessageId : WString → Option Ptr}
    (ht : ∀ id p, byMessageId id = some p → s.byMessageId id = some p ∨ p = .owned s.heap.size) :
    LoadInv { s with heap := s.heap.makeContainer.1, byMessageId := byMessageId } loaded := by
  obtain ⟨F, hF, hmem⟩ := hs.forest
  have hold : ∀ p ∈ s.searchedContainers, s.heap.makeContainer.1.cell p = s.heap.cell p :=
    fun p hp => cell_makeContainer_old ((hs.searched p).mp hp).1
  refine ⟨⟨_, hF.makeContainer ?_, ?_⟩, ?_, ?_, hs.nodup, ?_, ?_⟩
  · intro hx
    exact s.heap.not_owned_size ((hmem _).mp hx)
  · intro p
    rw [owned_makeContainer, nodes_append, List.mem_append, hmem]
    simp
  · rw [cell_makeContainer, if_neg (by simp)]
    exact hs.virtualRoot
  · intro id p hp
    rw [owned_makeContainer]
    rcases ht id p hp with hp | hp
    · exact .inl (hs.table id p hp)
    · exact .inr hp
  · intro p
    rw [hs.searched p, owned_makeContainer]
    constructor
    · rintro ⟨ho, hm⟩
      exact ⟨.inl ho, by rw [cell_makeContainer_old ho]; exact hm⟩
    · rintro ⟨ho | rfl, hm⟩
      · exact ⟨ho, by rw [cell_makeContainer_old ho] at hm; exact hm⟩
      · simp [cell_makeContainer] at hm
  · rw [← hs.messages]
    exact List.map_congr_left fun p hp => by simp only [hold p hp]

/-- A change of pointers that keeps the arena a forest. -/
theorem LoadInv.relink {s : LoadState} {loaded : List (Nat × Message)} (hs : LoadInv s loaded)
    {h : Heap} (hsame : SameContent s.heap h)
    (hroot : h.cell .virtualRoot = s.heap.cell .virtualRoot)
    (hforest : ∀ F, Holds s.heap F → (∀ p, p ∈ nodes F ↔ s.heap.Owned p) →
      ∃ F', Holds h F' ∧ (nodes F').Perm (nodes F)) :
    LoadInv { s with heap := h } loaded := by
  obtain ⟨F, hF, hmem⟩ := hs.forest
  obtain ⟨F', hF', hperm⟩ := hforest F hF hmem
  have hown : ∀ p, h.Owned p ↔ s.heap.Owned p := by
    intro p
    rw [Owned, Owned, hsame.size]
  refine ⟨⟨F', hF', ?_⟩, hroot.trans hs.virtualRoot, ?_, hs.nodup, ?_, ?_⟩
  · intro p
    rw [hperm.mem_iff, hmem, hown]
  · intro id p hp
    exact (hown p).mpr (hs.table id p hp)
  · intro p
    rw [hs.searched p, hown, hsame.message]
  · rw [← hs.messages]
    exact List.map_congr_left fun p _ => by simp only [hsame.message, hsame.sequence]

theorem attachChild_cell_of_ne {h : Heap} {p c q : Ptr} (hp : q ≠ p) (hc : q ≠ c) :
    (attachChild h p c).cell q = h.cell q := by
  rw [attachChild, cell_setChildren, if_neg hp, cell_setParent, if_neg hc]

theorem detachFromParent_cell_of_ne {h : Heap} {c q : Ptr} (hp : (h.cell c).parent ≠ some q)
    (hc : q ≠ c) : (detachFromParent h c).cell q = h.cell q := by
  unfold detachFromParent
  split
  · rfl
  · rename_i p hpar
    have hqp : q ≠ p := fun e => hp (e ▸ hpar)
    rw [cell_setParent, if_neg hc, cell_setChildren, if_neg hqp]

theorem Heap.Owned.ne_virtualRoot {h : Heap} {p : Ptr} (hp : h.Owned p) : .virtualRoot ≠ p :=
  fun e => h.not_owned_virtualRoot (e ▸ hp)

theorem LoadInv.parent_ne {s : LoadState} {loaded : List (Nat × Message)} (hs : LoadInv s loaded)
    {c : Ptr} (hc : s.heap.Owned c) : (s.heap.cell c).parent ≠ some .virtualRoot := by
  obtain ⟨F, hF, hmem⟩ := hs.forest
  intro hpar
  rcases hF.linked.inner ((hmem c).mpr hc) with hroot | ⟨p, hp, hpar', -⟩
  · have hnone := hF.linked.root_parent c hroot
    rw [links_parent, hpar] at hnone
    cases hnone
  · rw [links_parent, hpar] at hpar'
    injection hpar' with he
    exact ((hmem p).mp hp).ne_virtualRoot he

theorem assign_apply (table : WString → Option Ptr) (id key : WString) (p : Ptr) :
    assign table id p key = if key = id then some p else table key := rfl

theorem ownContainer_inv {s : LoadState} {loaded : List (Nat × Message)} (hs : LoadInv s loaded)
    (messageId : WString) :
    LoadInv (ownContainer s messageId).1 loaded ∧
      (ownContainer s messageId).1.heap.Owned (ownContainer s messageId).2 ∧
      ((ownContainer s messageId).1.heap.cell (ownContainer s messageId).2).message = none := by
  have hfresh : s.heap.makeContainer.1.Owned s.heap.makeContainer.2 :=
    (owned_makeContainer _ _).mpr (.inr rfl)
  have hempty : (s.heap.makeContainer.1.cell s.heap.makeContainer.2).message = none := by
    simp [Heap.makeContainer, Heap.set]
  have hkeep : LoadInv { s with heap := s.heap.makeContainer.1 } loaded :=
    hs.makeContainer fun id p hp => .inl hp
  unfold ownContainer
  split
  · exact ⟨hkeep, hfresh, hempty⟩
  · split
    · refine ⟨hs.makeContainer ?_, hfresh, hempty⟩
      intro id p hp
      rw [assign_apply] at hp
      split at hp
      · injection hp with hp
        exact .inr hp.symm
      · exact .inl hp
    · rename_i found hfound
      split
      · rename_i hnone
        exact ⟨hs, hs.table _ _ hfound, by simpa using hnone⟩
      · exact ⟨hkeep, hfresh, hempty⟩

theorem referencedContainer_inv {s : LoadState} {loaded : List (Nat × Message)}
    (hs : LoadInv s loaded) (referenceId : WString) :
    LoadInv (referencedContainer s referenceId).1 loaded ∧
      (referencedContainer s referenceId).1.heap.Owned (referencedContainer s referenceId).2 ∧
      ∀ p, s.heap.Owned p → (referencedContainer s referenceId).1.heap.Owned p := by
  unfold referencedContainer
  split
  · rename_i found hfound
    exact ⟨hs, hs.table _ _ hfound, fun p hp => hp⟩
  · refine ⟨hs.makeContainer ?_, (owned_makeContainer _ _).mpr (.inr rfl),
      fun p hp => (owned_makeContainer _ _).mpr (.inl hp)⟩
    intro id p hp
    rw [assign_apply] at hp
    split at hp
    · injection hp with hp
      exact .inr hp.symm
    · exact .inl hp

/-- The link step of a reference chain. -/
theorem LoadInv.link {s : LoadState} {loaded : List (Nat × Message)} (hs : LoadInv s loaded)
    {p c : Ptr} (hp : s.heap.Owned p) (hc : s.heap.Owned c)
    (hpar : (s.heap.cell c).parent = none) (hlink : canLink s.heap p c = true) :
    LoadInv { s with heap := attachChild s.heap p c } loaded :=
  hs.relink (sameContent_attachChild _ _ _)
    (attachChild_cell_of_ne hp.ne_virtualRoot hc.ne_virtualRoot)
    fun _ hF hmem => hF.link ((hmem p).mpr hp) ((hmem c).mpr hc) hpar hlink

theorem linkReferences_inv {loaded : List (Nat × Message)} (references : List WString) :
    ∀ (s : LoadState) (previous : Option Ptr), LoadInv s loaded →
      (∀ p, previous = some p → s.heap.Owned p) →
      LoadInv (linkReferences s previous references).1 loaded ∧
        (∀ p, (linkReferences s previous references).2 = some p →
          (linkReferences s previous references).1.heap.Owned p) ∧
        ∀ p, s.heap.Owned p → (linkReferences s previous references).1.heap.Owned p := by
  induction references with
  | nil => exact fun s previous hs hp => ⟨hs, hp, fun p hp => hp⟩
  | cons referenceId rest ih =>
    intro s previous hs hp
    obtain ⟨hs', hown, hmono⟩ := referencedContainer_inv hs referenceId
    rw [linkReferences]
    generalize referencedContainer s referenceId = r at hs' hown hmono
    obtain ⟨s', referenced⟩ := r
    simp only at hs' hown hmono ⊢
    have hfinish : ∀ t : LoadState, LoadInv t loaded → t.heap.size = s'.heap.size →
        LoadInv (linkReferences t (some referenced) rest).1 loaded ∧
          (∀ p, (linkReferences t (some referenced) rest).2 = some p →
            (linkReferences t (some referenced) rest).1.heap.Owned p) ∧
          ∀ p, s.heap.Owned p → (linkReferences t (some referenced) rest).1.heap.Owned p := by
      intro t ht hsize
      have hown' : ∀ p, t.heap.Owned p ↔ s'.heap.Owned p := by
        intro p
        rw [Owned, Owned, hsize]
      obtain ⟨h1, h2, h3⟩ := ih t (some referenced) ht (by
        intro p hp
        injection hp with hp
        rw [← hp, hown']
        exact hown)
      exact ⟨h1, h2, fun p hp => h3 p ((hown' p).mpr (hmono p hp))⟩
    split
    · exact hfinish s' hs' rfl
    · rename_i p
      split
      · rename_i hlink
        simp only [Bool.and_eq_true, Option.isNone_iff_eq_none] at hlink
        exact hfinish _ (hs'.link (hmono p (hp p rfl)) hown hlink.1 hlink.2) rfl
      · exact hfinish s' hs' rfl

theorem LoadInv.detach {s : LoadState} {loaded : List (Nat × Message)} (hs : LoadInv s loaded)
    {c : Ptr} (hc : s.heap.Owned c) :
    LoadInv { s with heap := detachFromParent s.heap c } loaded := by
  refine hs.relink (sameContent_detachFromParent _ _)
    (detachFromParent_cell_of_ne (hs.parent_ne hc) hc.ne_virtualRoot) ?_
  intro F hF hmem
  have hcF := (hmem c).mpr hc
  refine ⟨_, hF.detach hcF, ?_⟩
  rw [nodes_append]
  exact (nodes_cut hF.nodup hcF).symm

theorem linkOwn_inv {s : LoadState} {loaded : List (Nat × Message)} (hs : LoadInv s loaded)
    (references : List WString) {previous : Option Ptr} {container : Ptr}
    (hprev : ∀ p, previous = some p → s.heap.Owned p) (hc : s.heap.Owned container) :
    LoadInv (linkOwn s references previous container) loaded := by
  unfold linkOwn
  split
  · rename_i p
    have hp := hprev p rfl
    split
    · rename_i hlink
      refine hs.relink ((sameContent_detachFromParent _ _).trans (sameContent_attachChild _ _ _)) ?_
        fun _ hF hmem => hF.move ((hmem p).mpr hp) ((hmem container).mpr hc) hlink
      rw [attachChild_cell_of_ne hp.ne_virtualRoot hc.ne_virtualRoot,
        detachFromParent_cell_of_ne (hs.parent_ne hc) hc.ne_virtualRoot]
    · split
      · exact hs.detach hc
      · exact hs
  · split
    · exact hs.detach hc
    · exact hs

/-- Storing a message turns an empty container into a searched one. -/
theorem LoadInv.fill {s : LoadState} {loaded : List (Nat × Message)} (hs : LoadInv s loaded)
    (env : Environment) {container : Ptr} (hc : s.heap.Owned container)
    (hnone : (s.heap.cell container).message = none) (entry : Nat × Message) :
    LoadInv { s with
      heap := fillContainer env s.heap container entry.1 entry.2
      searchedContainers := s.searchedContainers ++ [container] } (loaded ++ [entry]) := by
  have hnew : container ∉ s.searchedContainers := by
    intro hmem
    have hsome := ((hs.searched container).mp hmem).2
    rw [hnone] at hsome
    cases hsome
  have hother : ∀ q ≠ container,
      (fillContainer env s.heap container entry.1 entry.2).cell q = s.heap.cell q := by
    intro q hq
    simp [fillContainer, Heap.set, hq]
  have hlinks : ∀ q, ((fillContainer env s.heap container entry.1 entry.2).cell q).parent =
        (s.heap.cell q).parent ∧
      ((fillContainer env s.heap container entry.1 entry.2).cell q).children =
        (s.heap.cell q).children := by
    intro q
    by_cases hq : q = container
    · subst hq
      simp [fillContainer, Heap.set]
    · rw [hother q hq]
      exact ⟨rfl, rfl⟩
  obtain ⟨F, hF, hmem⟩ := hs.forest
  refine ⟨⟨F, ⟨hF.linked.congr fun x _ => hlinks x, hF.nodup⟩, hmem⟩, ?_, hs.table, ?_, ?_, ?_⟩
  · rw [hother _ hc.ne_virtualRoot]
    exact hs.virtualRoot
  · exact List.nodup_append.mpr ⟨hs.nodup, by simp, by
      intro x hx y hy e
      simp only [List.mem_singleton] at hy
      exact hnew (hy ▸ e ▸ hx)⟩
  · intro p
    rw [List.mem_append, List.mem_singleton, hs.searched p]
    by_cases hp : p = container
    · subst hp
      exact iff_of_true (.inr rfl) ⟨hc, by simp [fillContainer, Heap.set]⟩
    · rw [hother p hp]
      simp only [hp, or_false]
      rfl
  · rw [List.map_append, List.map_append, ← hs.messages]
    congr 1
    · refine List.map_congr_left fun p hp => ?_
      rw [hother p (fun e => hnew (e ▸ hp))]
    · simp [fillContainer, Heap.set]

/-- One turn of the load loop. -/
theorem loadMessage_inv {s : LoadState} {loaded : List (Nat × Message)} (hs : LoadInv s loaded)
    (env : Environment) (algorithm : Algorithm) (entry : Nat × Message) :
    LoadInv (loadMessage env algorithm s entry) (loaded ++ [entry]) := by
  obtain ⟨hs', hown, hnone⟩ := ownContainer_inv hs (extractFirstMessageId entry.2.messageId)
  rw [loadMessage]
  generalize ownContainer s (extractFirstMessageId entry.2.messageId) = r at hs' hown hnone
  obtain ⟨s', container⟩ := r
  simp only at hs' hown hnone ⊢
  have hfill := hs'.fill env hown hnone entry
  cases algorithm with
  | orderedSubject => exact hfill
  | references =>
    simp only
    obtain ⟨hlink, hprev, hmono⟩ :=
      linkReferences_inv (referencesOf entry.2) _ none hfill (by intro p hp; cases hp)
    exact linkOwn_inv hlink _ hprev (hmono _ hown)

theorem initial_inv : LoadInv .initial [] where
  forest := by
    refine ⟨.nil, ⟨trivial, List.nodup_nil⟩, fun p => ?_⟩
    simp [Owned, LoadState.initial, Heap.empty]
  virtualRoot := rfl
  table := by intro id p hp; cases hp
  nodup := List.nodup_nil
  searched := by simp [Owned, LoadState.initial, Heap.empty]
  messages := rfl

theorem loadMessages_inv (env : Environment) (algorithm : Algorithm) (abortRequested : Nat → Bool)
    (messages : List (Nat × Message)) :
    ∀ (asked : Nat) (s : LoadState) (loaded : List (Nat × Message)), LoadInv s loaded →
      ∀ t, loadMessages env algorithm abortRequested asked s messages = some t →
        LoadInv t (loaded ++ messages) := by
  induction messages with
  | nil =>
    intro asked s loaded hs t ht
    injection ht with ht
    rw [List.append_nil, ← ht]
    exact hs
  | cons entry rest ih =>
    intro asked s loaded hs t ht
    rw [loadMessages] at ht
    split at ht
    · cases ht
    · have h := ih (asked + 1) _ _ (loadMessage_inv hs env algorithm entry) t ht
      rwa [List.append_assoc] at h

end HMailServer.Thread
