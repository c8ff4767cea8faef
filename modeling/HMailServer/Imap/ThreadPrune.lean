import HMailServer.Lib.Fuel
import HMailServer.Imap.ThreadForest

/- The tree under the virtual root: attaching the root set, pruning and sorting.
   Pruning splices dummies out and re-visits what it spliced in; on the part of
   the tree a call may touch it always returns, and the messages stay in their
   order. Sorting permutes siblings. -/
namespace HMailServer.Thread
open PointerForest Forest Heap Fuel

/-! ## The root set -/

/-- With every arena container below it, the virtual root is the only root. -/
theorem Holds.single_root {h : Heap} {F : Forest Ptr} (hF : Holds h F) {r : Ptr} (hr : r ∈ roots F)
    (hall : ∀ p ∈ nodes F, p ≠ r → (h.cell p).parent ≠ none) : ∃ b, F = tree r b := by
  obtain ⟨F₁, b, F₂, rfl⟩ := split_root hr
  have hn := hF.nodup
  have hother : ∀ p ∈ roots (F₁ ++ F₂), p = r := by
    intro p hp
    by_contra hne
    have hpF : p ∈ roots (F₁ ++ tree r b ++ F₂) := by
      simp only [roots_append, List.mem_append] at hp ⊢
      tauto
    exact hall p (roots_subset_nodes _ p hpF) hne (hF.linked.root_parent p hpF)
  have hr' : r ∉ nodes (F₁ ++ F₂) := by
    have hn' := hF.rotate.nodup
    rw [nodes_append, List.nodup_append] at hn'
    intro hx
    exact hn'.2.2 r hx r (by simp) rfl
  have hempty : F₁ ++ F₂ = .nil := by
    cases hE : F₁ ++ F₂ with
    | nil => rfl
    | cons p b' r' =>
      exfalso
      apply hr'
      rw [hE]
      have hp := hother p (by rw [hE]; simp)
      rw [← hp]
      simp
  cases F₁ with
  | nil =>
    rw [nil_append] at hempty
    exact ⟨b, by rw [hempty, nil_append, append_nil]⟩
  | cons p b' r' => cases hempty

/-- One turn of the loop over the arena. -/
theorem Holds.attachRoot {h : Heap} {F : Forest Ptr} (hF : Holds h F) {r c : Ptr}
    (hroot : r ∈ roots F) (hc : c ∈ nodes F) (hne : c ≠ r) (hpar : (h.cell c).parent = none) :
    ∃ F', Holds (attachChild h r c) F' ∧ (nodes F').Perm (nodes F) ∧ r ∈ roots F' := by
  obtain ⟨F₁, b, F₂, rfl⟩ := split_root (hF.root hc hpar)
  have hF' := hF.rotate
  have hrA : r ∈ roots (F₁ ++ F₂) := by
    simp only [roots_append, roots_tree, List.mem_append, List.mem_singleton] at hroot ⊢
    rcases hroot with (h1 | h2) | h3
    · exact .inl h1
    · exact absurd h2.symm hne
    · exact .inr h3
  have hrA' := roots_subset_nodes _ _ hrA
  have hnA : (nodes (F₁ ++ F₂)).Nodup := by
    have hn := hF'.nodup
    rw [nodes_append, List.nodup_append] at hn
    exact hn.1
  refine ⟨_, hF'.attach hrA', (nodes_graft _ hnA hrA').trans ?_, by rw [roots_graft]; exact hrA⟩
  simp only [nodes_append, List.append_assoc]
  exact List.Perm.append_left _ List.perm_append_comm

/-- The tree that the later phases work on: `F` hangs under the virtual root. -/
structure Rooted (h : Heap) (F : Forest Ptr) : Prop where
  children : (h.cell .virtualRoot).children = roots F
  linked : Linked h.links (some .virtualRoot) F
  nodup : (nodes F).Nodup
  notIn : Ptr.virtualRoot ∉ nodes F

theorem rooted_iff {h : Heap} {F : Forest Ptr} (hpar : (h.cell .virtualRoot).parent = none) :
    Rooted h F ↔ Holds h (tree .virtualRoot F) := by
  constructor
  · intro hR
    refine ⟨linked_tree.mpr ⟨hpar, hR.children, hR.linked⟩, ?_⟩
    rw [nodes_tree]
    exact List.nodup_cons.mpr ⟨hR.notIn, hR.nodup⟩
  · intro hH
    obtain ⟨-, hc, hl⟩ := linked_tree.mp hH.linked
    have hn := hH.nodup
    rw [nodes_tree] at hn
    obtain ⟨h1, h2⟩ := List.nodup_cons.mp hn
    exact ⟨hc, hl, h2, h1⟩

/-- What holds when the loop over the arena has passed `n` containers: one forest
over the arena and the virtual root, and nothing it passed is without a parent. -/
structure AttachInv (h₀ : Heap) (n : Nat) (h : Heap) : Prop where
  forest : ∃ G, Holds h G ∧ (∀ p, p ∈ nodes G ↔ h₀.Owned p ∨ p = .virtualRoot) ∧
    Ptr.virtualRoot ∈ roots G
  same : SameContent h₀ h
  passed : ∀ i < n, (h.cell (.owned i)).parent ≠ none

theorem attachInv_start {s : LoadState} {loaded : List (Nat × Message)} (hs : LoadInv s loaded) :
    AttachInv s.heap 0 s.heap := by
  obtain ⟨F, hF, hmem⟩ := hs.forest
  have hnew : Ptr.virtualRoot ∉ nodes F := fun hx => s.heap.not_owned_virtualRoot ((hmem _).mp hx)
  refine ⟨⟨F ++ tree .virtualRoot .nil, ⟨?_, ?_⟩, ?_, by simp⟩, SameContent.refl _, ?_⟩
  · refine linked_append.mpr ⟨hF.linked, linked_tree.mpr ⟨?_, ?_, trivial⟩⟩
    · rw [links_parent, hs.virtualRoot]
    · rw [links_children, hs.virtualRoot]
      rfl
  · rw [nodes_append, nodes_tree, nodes_nil]
    refine List.nodup_append.mpr ⟨hF.nodup, by simp, ?_⟩
    intro x hx y hy e
    rw [List.mem_singleton] at hy
    exact hnew (hy ▸ e ▸ hx)
  · intro p
    simp [hmem]
  · intro i hi
    omega

theorem attachInv_step {h₀ h : Heap} {n : Nat} (hn : n < h₀.size) (hh : AttachInv h₀ n h) :
    AttachInv h₀ (n + 1) (attachRoot h n) := by
  obtain ⟨G, hG, hGm, hGr⟩ := hh.forest
  have hnG : Ptr.owned n ∈ nodes G := (hGm _).mpr (.inl ⟨n, hn, rfl⟩)
  rw [attachRoot]
  split
  · rename_i hpar
    rw [Option.isNone_iff_eq_none] at hpar
    obtain ⟨G', hG', hperm, hr'⟩ := hG.attachRoot hGr hnG (by simp) hpar
    refine ⟨⟨G', hG', ?_, hr'⟩, hh.same.trans (sameContent_attachChild _ _ _), ?_⟩
    · intro p
      rw [hperm.mem_iff, hGm]
    · intro i hi
      rw [attachChild_parent]
      split
      · simp
      · rename_i hne
        have hin : i ≠ n := fun e => hne (by rw [e])
        exact hh.passed i (by omega)
  · rename_i hpar
    rw [Option.isNone_iff_eq_none] at hpar
    refine ⟨⟨G, hG, hGm, hGr⟩, hh.same, ?_⟩
    intro i hi
    by_cases hin : i = n
    · rw [hin]
      exact hpar
    · exact hh.passed i (by omega)

/-- After `attachRoots` the whole arena hangs under the virtual root. -/
theorem attachRoots_rooted {s : LoadState} {loaded : List (Nat × Message)} (hs : LoadInv s loaded) :
    ∃ F, Rooted (attachRoots s.heap) F ∧ (∀ p, p ∈ nodes F ↔ s.heap.Owned p) ∧
      SameContent s.heap (attachRoots s.heap) ∧
      ((attachRoots s.heap).cell .virtualRoot).parent = none := by
  have hloop : ∀ n ≤ s.heap.size, AttachInv s.heap n ((List.range n).foldl attachRoot s.heap) := by
    intro n hn
    induction n with
    | zero => exact attachInv_start hs
    | succ n ih =>
      rw [List.range_succ, List.foldl_append, List.foldl_cons, List.foldl_nil]
      exact attachInv_step (by omega) (ih (by omega))
  have hend : AttachInv s.heap s.heap.size (attachRoots s.heap) := hloop _ le_rfl
  obtain ⟨G, hG, hGm, hGr⟩ := hend.forest
  obtain ⟨b, rfl⟩ := hG.single_root hGr (by
    intro p hp hne
    rcases (hGm p).mp hp with ⟨i, hi, rfl⟩ | hv
    · exact hend.passed i hi
    · exact absurd hv hne)
  have hpar := (linked_tree.mp hG.linked).1
  have hR := (rooted_iff hpar).mpr hG
  refine ⟨b, hR, ?_, hend.same, hpar⟩
  intro p
  constructor
  · intro hp
    rcases (hGm p).mp (by simp [hp]) with ho | hv
    · exact ho
    · exact absurd (hv ▸ hp) hR.notIn
  · intro hp
    have hp' := (hGm p).mpr (.inl hp)
    rw [nodes_tree, List.mem_cons] at hp'
    rcases hp' with hv | hp'
    · exact absurd hp (by rw [hv]; exact s.heap.not_owned_virtualRoot)
    · exact hp'

/-! ## Pruning -/

/-- The messages of a forest, in preorder. -/
def messagesIn (h : Heap) (F : Forest Ptr) : List Ptr :=
  (nodes F).filter fun p => (h.cell p).message.isSome

/-- What a call on `node` may touch: the cells of the forest below it, and the
children of `node` itself. -/
structure Frame (node : Ptr) (F : Forest Ptr) (h h' : Heap) : Prop where
  same : SameContent h h'
  parent : ∀ x, x ∉ nodes F → (h'.cell x).parent = (h.cell x).parent
  children : ∀ x, x ∉ nodes F → x ≠ node → (h'.cell x).children = (h.cell x).children

/-- The children of `node` from one place on are the roots of `F`. -/
structure Below (h : Heap) (node : Ptr) (pre : List Ptr) (F : Forest Ptr) : Prop where
  children : (h.cell node).children = pre ++ roots F
  linked : Linked h.links (some node) F
  nodup : (nodes F).Nodup
  notIn : node ∉ nodes F

theorem pruneFrom_end {h : Heap} {node : Ptr} {i : Nat} (hi : (h.cell node).children.length = i) :
    Returns (fun n => pruneFrom n h node i) h := by
  refine (Returns.pure' h).step fun n => ?_
  rw [pruneFrom, List.getElem?_eq_none hi.le]

/-- One turn of the loop, given what the recursive call returns. -/
theorem pruneFrom_turn {h h₁ h' : Heap} {node child : Ptr} {i : Nat}
    (hget : (h.cell node).children[i]? = some child)
    (hdown : Returns (fun n => pruneFrom n h child 0) h₁)
    (hrest : Returns (fun n => pruneFrom n (pruneChild h₁ node child i).1 node
      (pruneChild h₁ node child i).2) h') : Returns (fun n => pruneFrom n h node i) h' := by
  refine (hdown.bind' (g := fun n h => pruneFrom n (pruneChild h node child i).1 node
    (pruneChild h node child i).2) hrest).step fun n => ?_
  rw [pruneFrom, hget]

theorem pruneChild_message {h : Heap} {node child : Ptr} {i : Nat}
    (hm : (h.cell child).message.isSome) : pruneChild h node child i = (h, i + 1) := by
  have hnone : (h.cell child).message.isNone = false := by simpa using hm
  rw [pruneChild, hnone]
  rfl

/-- Where every node holds a message the walk moves across and changes nothing. -/
theorem pruneFrom_across {h : Heap} (F : Forest Ptr) :
    ∀ (node : Ptr) (pre suf : List Ptr) (h' : Heap),
      (h.cell node).children = pre ++ roots F ++ suf → Linked h.links (some node) F →
      (∀ p ∈ nodes F, (h.cell p).message.isSome) →
      Returns (fun n => pruneFrom n h node (pre ++ roots F).length) h' →
      Returns (fun n => pruneFrom n h node pre.length) h' := by
  induction F with
  | nil =>
    intro node pre suf h' _ _ _ hrest
    simpa using hrest
  | cons p b r ihb ihr =>
    intro node pre suf h' hchildren hlinked hmsg hrest
    obtain ⟨-, hpc, hb, hr⟩ := hlinked
    have hpc' : (h.cell p).children = [] ++ roots b ++ [] := by simpa using hpc
    have hdown : Returns (fun n => pruneFrom n h p ([] : List Ptr).length) h :=
      ihb p [] [] h hpc' hb (fun q hq => hmsg q (by simp [hq])) (pruneFrom_end (by simp [hpc']))
    have hnext : Returns (fun n => pruneFrom n h node (pre ++ [p]).length) h' := by
      refine ihr node (pre ++ [p]) suf h' (by simpa using hchildren) hr
        (fun q hq => hmsg q (by simp [hq])) ?_
      simpa using hrest
    have hget : (h.cell node).children[pre.length]? = some p := by
      rw [hchildren]
      simp
    refine pruneFrom_turn hget hdown ?_
    rw [pruneChild_message (hmsg p (by simp))]
    simpa using hnext

theorem Frame.trans {node : Ptr} {F : Forest Ptr} {h₁ h₂ h₃ : Heap} (h12 : Frame node F h₁ h₂)
    (h23 : Frame node F h₂ h₃) : Frame node F h₁ h₃ :=
  ⟨h12.same.trans h23.same, fun x hx => (h23.parent x hx).trans (h12.parent x hx),
    fun x hx hn => (h23.children x hx hn).trans (h12.children x hx hn)⟩

theorem Frame.widen {node node' : Ptr} {F F' : Forest Ptr} {h h' : Heap} (hf : Frame node F h h')
    (hsub : ∀ x ∈ nodes F, x ∈ nodes F') (hnode : node = node' ∨ node ∈ nodes F') :
    Frame node' F' h h' := by
  refine ⟨hf.same, fun x hx => hf.parent x fun hx' => hx (hsub x hx'), ?_⟩
  intro x hx hne
  refine hf.children x (fun hx' => hx (hsub x hx')) ?_
  rintro rfl
  rcases hnode with he | he
  · exact hne he
  · exact hx he

theorem frame_setChildren (h : Heap) (node : Ptr) (F : Forest Ptr) (cs : List Ptr) :
    Frame node F h (h.setChildren node cs) :=
  ⟨sameContent_setChildren _ _ _, fun x _ => by simp, fun x _ hne => by simp [hne]⟩

/-- Cells outside the frame keep a forest linked. -/
theorem Frame.linked {node : Ptr} {F G : Forest Ptr} {h h' : Heap} (hf : Frame node F h h')
    {par : Option Ptr} (hG : Linked h.links par G) (hd : ∀ x ∈ nodes G, x ∉ nodes F)
    (hnode : node ∉ nodes G) : Linked h'.links par G :=
  hG.congr fun x hx =>
    ⟨hf.parent x (hd x hx), hf.children x (hd x hx) fun e => hnode (e ▸ hx)⟩

/-- The loop that gives the grandchildren their new parent. -/
theorem foldl_setParent (node : Ptr) (grandChildren : List Ptr) : ∀ h : Heap,
    SameContent h (grandChildren.foldl (fun h g => h.setParent g (some node)) h) ∧
    ∀ x, ((grandChildren.foldl (fun h g => h.setParent g (some node)) h).cell x).parent =
        (if x ∈ grandChildren then some node else (h.cell x).parent) ∧
      ((grandChildren.foldl (fun h g => h.setParent g (some node)) h).cell x).children =
        (h.cell x).children := by
  induction grandChildren with
  | nil => exact fun h => ⟨SameContent.refl h, fun x => ⟨by simp, rfl⟩⟩
  | cons g gs ih =>
    intro h
    obtain ⟨hsame, hcell⟩ := ih (h.setParent g (some node))
    refine ⟨(sameContent_setParent h g (some node)).trans hsame, fun x => ?_⟩
    rw [List.foldl_cons, (hcell x).1, (hcell x).2]
    refine ⟨?_, by simp⟩
    by_cases hg : x = g
    · simp [hg]
    · simp [hg]

/-- What one call of `Prune_` leaves: `F'` in the place of `F`. -/
structure Pruned (node : Ptr) (pre : List Ptr) (F : Forest Ptr) (h h' : Heap) (F' : Forest Ptr) :
    Prop where
  below : Below h' node pre F'
  frame : Frame node F h h'
  sublist : (nodes F').Sublist (nodes F)
  messages : messagesIn h F' = messagesIn h F
  full : node ≠ .virtualRoot → ∀ p ∈ nodes F', (h.cell p).message.isSome

theorem messagesIn_cons (h : Heap) (p : Ptr) (b r : Forest Ptr) :
    messagesIn h (.cons p b r) =
      (if (h.cell p).message.isSome then [p] else []) ++ messagesIn h b ++ messagesIn h r := by
  rw [messagesIn, nodes_cons, List.filter_cons, List.filter_append]
  split <;> simp [messagesIn]

theorem messagesIn_append (h : Heap) (F G : Forest Ptr) :
    messagesIn h (F ++ G) = messagesIn h F ++ messagesIn h G := by
  simp [messagesIn]

theorem Heap.SameContent.messagesIn {h h' : Heap} (hs : SameContent h h') (F : Forest Ptr) :
    messagesIn h' F = messagesIn h F := by
  simp only [Thread.messagesIn, hs.message]

/-- The three ways a turn can end, for a child whose own subtree is pruned. -/
theorem pruneChild_cases (h : Heap) (node child : Ptr) (i : Nat) :
    ((h.cell child).message.isNone ∧ (h.cell child).children = [] ∧
      pruneChild h node child i = (h.setChildren node ((h.cell node).children.eraseIdx i), i)) ∨
    ((h.cell child).message.isNone ∧
      pruneChild h node child i =
        (((h.cell child).children.foldl (fun h g => h.setParent g (some node)) h).setChildren node
          (((h.cell node).children.eraseIdx i).take i ++ (h.cell child).children ++
            ((h.cell node).children.eraseIdx i).drop i), i)) ∨
    ((node ≠ .virtualRoot → (h.cell child).message.isSome) ∧
      pruneChild h node child i = (h, i + 1)) := by
  rw [pruneChild]
  split
  · rename_i hc
    rw [Bool.and_eq_true, List.isEmpty_iff] at hc
    exact .inl ⟨hc.1, hc.2, rfl⟩
  · split
    · rename_i hc
      rw [Bool.and_eq_true] at hc
      refine .inr (.inl ⟨hc.1, ?_⟩)
      dsimp only
      rw [((foldl_setParent node _ h).2 node).2]
    · rename_i hc
      refine .inr (.inr ⟨fun hne => ?_, rfl⟩)
      by_contra hnone
      apply hc
      simp only [Bool.not_eq_true, Option.isSome_eq_false_iff] at hnone
      simp [hnone, hne]

/-- A turn of the loop: `node` has the child `p` with `b` below it and `r` after
it, and the recursive call on `p` has turned `b` into `b'`. -/
structure Turn (h h₁ : Heap) (node p : Ptr) (pre : List Ptr) (b b' r : Forest Ptr) : Prop where
  start : Below h node pre (.cons p b r)
  child : Pruned p [] b h h₁ b'
  notRoot : p ≠ .virtualRoot

namespace Turn
variable {h h₁ h₂ h' : Heap} {node p : Ptr} {pre : List Ptr} {b b' r r' : Forest Ptr}

theorem node_ne (ht : Turn h h₁ node p pre b b' r) :
    node ≠ p ∧ node ∉ nodes b ∧ node ∉ nodes r := by
  have hnode := ht.start.notIn
  simpa only [nodes_cons, List.mem_cons, List.mem_append, not_or] using hnode

theorem parts (ht : Turn h h₁ node p pre b b' r) :
    p ∉ nodes b ∧ p ∉ nodes r ∧ (nodes b).Nodup ∧ (nodes r).Nodup ∧ ∀ x ∈ nodes b, x ∉ nodes r :=
  nodup_cons_parts ht.start.nodup

theorem sub (ht : Turn h h₁ node p pre b b' r) : ∀ x ∈ nodes b', x ∈ nodes b :=
  fun _ hx => ht.child.sublist.subset hx

theorem disjoint (ht : Turn h h₁ node p pre b b' r) : ∀ x ∈ nodes b', x ∉ nodes r :=
  fun x hx => ht.parts.2.2.2.2 x (ht.sub x hx)

theorem node_notIn (ht : Turn h h₁ node p pre b b' r) : node ∉ nodes b' :=
  fun hx => ht.node_ne.2.1 (ht.sub _ hx)

theorem childrenOf (ht : Turn h h₁ node p pre b b' r) : (h₁.cell p).children = roots b' := by
  simpa using ht.child.below.children

theorem children (ht : Turn h h₁ node p pre b b' r) :
    (h₁.cell node).children = pre ++ p :: roots r := by
  obtain ⟨hnp, hnb, -⟩ := ht.node_ne
  rw [ht.child.frame.children node hnb hnp, ht.start.children, roots_cons]

theorem eraseIdx (ht : Turn h h₁ node p pre b b' r) :
    (h₁.cell node).children.eraseIdx pre.length = pre ++ roots r := by
  rw [ht.children, List.eraseIdx_append_of_length_le le_rfl]
  simp

theorem rest (ht : Turn h h₁ node p pre b b' r) : Linked h₁.links (some node) r := by
  obtain ⟨-, hpr, -, -, hd⟩ := ht.parts
  exact ht.child.frame.linked ht.start.linked.2.2.2 (fun x hx hx' => hd x hx' hx) hpr

theorem frame (ht : Turn h h₁ node p pre b b' r) : Frame node (.cons p b r) h h₁ :=
  ht.child.frame.widen (fun x hx => by simp [hx]) (.inr (by simp))

theorem full (ht : Turn h h₁ node p pre b b' r) : ∀ q ∈ nodes b', (h.cell q).message.isSome :=
  ht.child.full ht.notRoot

/-- The frame of the turn and of the rest of the loop together. -/
theorem frame_rest (ht : Turn h h₁ node p pre b b' r) (h12 : Frame node (.cons p b r) h₁ h₂)
    (hR : Frame node r h₂ h') : Frame node (.cons p b r) h h' :=
  (ht.frame.trans h12).trans (hR.widen (fun x hx => by simp [hx]) (.inl rfl))

/-- An empty dummy goes. -/
theorem drop (ht : Turn h h₁ node p pre b b' r) (hnone : (h₁.cell p).message.isNone)
    (hempty : (h₁.cell p).children = [])
    (hR : Pruned node pre r (h₁.setChildren node (pre ++ roots r)) h' r') :
    Pruned node pre (.cons p b r) h h' r' := by
  have hsame := ht.child.frame.same.trans (sameContent_setChildren h₁ node (pre ++ roots r))
  refine ⟨hR.below, ht.frame_rest (frame_setChildren _ _ _ _) hR.frame,
    hR.sublist.trans ((List.sublist_append_right _ _).cons p), ?_, fun hne q hq => ?_⟩
  · have hnil : b' = .nil := by
      rw [ht.childrenOf] at hempty
      cases b' with
      | nil => rfl
      | cons q c d => cases hempty
    have hmb : messagesIn h b = [] := by
      rw [← ht.child.messages, hnil]
      rfl
    have hmr := hR.messages
    rw [hsame.messagesIn, hsame.messagesIn] at hmr
    rw [ht.child.frame.same.message] at hnone
    have hpnone : (h.cell p).message.isSome = false := by simpa using hnone
    rw [messagesIn_cons, hpnone, hmb, hmr]
    rfl
  · rw [← hsame.message]
    exact hR.full hne q hq

/-- What the splice does: `b'` now hangs under `node`, and `r` still does. -/
theorem splice_linked (ht : Turn h h₁ node p pre b b' r)
    (hset : h₂ = (roots b').foldl (fun h g => h.setParent g (some node)) h₁) :
    Frame node (.cons p b r) h₁ h₂ ∧ Linked h₂.links (some node) b' ∧
      Linked h₂.links (some node) r := by
  obtain ⟨hsame, hcell⟩ := foldl_setParent node (roots b') h₁
  rw [← hset] at hsame hcell
  refine ⟨⟨hsame, fun x hx => ?_, fun x _ _ => (hcell x).2⟩, ?_, ?_⟩
  · rw [(hcell x).1, if_neg]
    intro hx'
    exact hx (by simp [ht.sub x (roots_subset_nodes _ _ hx')])
  · refine ht.child.below.linked.reparent ht.child.below.nodup (fun x hx => ?_) (fun x _ hx => ?_)
      fun x _ => (hcell x).2
    · rw [links_parent, (hcell x).1, if_pos hx]
    · rw [links_parent, (hcell x).1, if_neg hx]
      rfl
  · refine ht.rest.congr fun x hx => ⟨?_, (hcell x).2⟩
    rw [links_parent, (hcell x).1, if_neg]
    · rfl
    · intro hx'
      exact ht.disjoint x (roots_subset_nodes _ _ hx') hx

/-- A dummy is replaced by its children. -/
theorem splice (ht : Turn h h₁ node p pre b b' r) (hnone : (h₁.cell p).message.isNone)
    (h12 : Frame node (.cons p b r) h₁ h₂) (hb : Linked h₂.links (some node) b')
    (hR : Pruned node (pre ++ roots b') r h₂ h' r') :
    Pruned node pre (.cons p b r) h h' (b' ++ r') := by
  have hsame := ht.child.frame.same.trans h12.same
  refine ⟨⟨?_, ?_, ?_, ?_⟩, ht.frame_rest h12 hR.frame, ?_, ?_, fun hne q hq => ?_⟩
  · rw [hR.below.children, roots_append, List.append_assoc]
  · exact linked_append.mpr ⟨hR.frame.linked hb ht.disjoint ht.node_notIn, hR.below.linked⟩
  · rw [nodes_append]
    exact List.nodup_append.mpr ⟨ht.child.below.nodup, hR.below.nodup, fun x hx y hy e =>
      ht.disjoint x hx (hR.sublist.subset (e ▸ hy))⟩
  · rw [nodes_append, List.mem_append, not_or]
    exact ⟨ht.node_notIn, hR.below.notIn⟩
  · rw [nodes_append, nodes_cons]
    exact (ht.child.sublist.append hR.sublist).cons p
  · have hmr := hR.messages
    rw [hsame.messagesIn, hsame.messagesIn] at hmr
    rw [ht.child.frame.same.message] at hnone
    have hpnone : (h.cell p).message.isSome = false := by simpa using hnone
    rw [messagesIn_append, messagesIn_cons, hpnone, ht.child.messages, hmr]
    rfl
  · rw [nodes_append, List.mem_append] at hq
    rcases hq with hq | hq
    · exact ht.full q hq
    · rw [← hsame.message]
      exact hR.full hne q hq

/-- Anything else stays. -/
theorem keep (ht : Turn h h₁ node p pre b b' r)
    (hsome : node ≠ .virtualRoot → (h₁.cell p).message.isSome)
    (hR : Pruned node (pre ++ [p]) r h₁ h' r') :
    Pruned node pre (.cons p b r) h h' (.cons p b' r') := by
  obtain ⟨hpb, hpr, -, -, -⟩ := ht.parts
  obtain ⟨hnp, -, -⟩ := ht.node_ne
  have hsame := ht.child.frame.same
  refine ⟨⟨?_, ⟨?_, ?_, ?_, hR.below.linked⟩, ?_, ?_⟩,
    ht.frame.trans (hR.frame.widen (fun x hx => by simp [hx]) (.inl rfl)), ?_, ?_, fun hne q hq => ?_⟩
  · simp [hR.below.children]
  · rw [links_parent, hR.frame.parent p hpr, ht.child.frame.parent p hpb]
    exact ht.start.linked.1
  · rw [links_children, hR.frame.children p hpr (Ne.symm hnp), ht.childrenOf]
  · exact hR.frame.linked ht.child.below.linked ht.disjoint ht.node_notIn
  · rw [nodes_cons, List.nodup_cons, List.mem_append, not_or, List.nodup_append]
    exact ⟨⟨ht.child.below.notIn, fun hx => hpr (hR.sublist.subset hx)⟩, ht.child.below.nodup,
      hR.below.nodup, fun x hx y hy e => ht.disjoint x hx (hR.sublist.subset (e ▸ hy))⟩
  · rw [nodes_cons, List.mem_cons, List.mem_append, not_or, not_or]
    exact ⟨hnp, ht.node_notIn, hR.below.notIn⟩
  · rw [nodes_cons, nodes_cons]
    exact (ht.child.sublist.append hR.sublist).cons_cons p
  · have hmr := hR.messages
    rw [hsame.messagesIn, hsame.messagesIn] at hmr
    rw [messagesIn_cons, messagesIn_cons, ht.child.messages, hmr]
  · rw [nodes_cons, List.mem_cons, List.mem_append] at hq
    rcases hq with rfl | hq | hq
    · rw [← hsame.message]
      exact hsome hne
    · exact ht.full q hq
    · rw [← hsame.message]
      exact hR.full hne q hq

end Turn

/-- `Prune_` returns, and leaves a pruned forest with the same messages in the
same order. -/
theorem pruneFrom_spec (F : Forest Ptr) : ∀ (h : Heap) (node : Ptr) (pre : List Ptr),
    Below h node pre F → Ptr.virtualRoot ∉ nodes F →
    ∃ h' F', Returns (fun n => pruneFrom n h node pre.length) h' ∧ Pruned node pre F h h' F' := by
  induction F with
  | nil =>
    intro h node pre hF _
    refine ⟨h, .nil, pruneFrom_end (by simp [hF.children]), hF, ⟨SameContent.refl _, fun _ _ => rfl,
      fun _ _ _ => rfl⟩, List.Sublist.refl _, rfl, fun _ p hp => by simp at hp⟩
  | cons p b r ihb ihr =>
    intro h node pre hF hroot
    simp only [nodes_cons, List.mem_cons, List.mem_append, not_or] at hroot
    obtain ⟨hpb, -, hnb, hnr, -⟩ := nodup_cons_parts hF.nodup
    obtain ⟨-, hpc, hb, -⟩ := hF.linked
    obtain ⟨h₁, b', hdown, hP⟩ := ihb h p [] ⟨by simpa using hpc, hb, hnb, hpb⟩ hroot.2.1
    have ht : Turn h h₁ node p pre b b' r := ⟨hF, hP, Ne.symm hroot.1⟩
    obtain ⟨-, -, hnoder⟩ := ht.node_ne
    have hget : (h.cell node).children[pre.length]? = some p := by simp [hF.children]
    rcases pruneChild_cases h₁ node p pre.length with ⟨hnone, hempty, hE⟩ | ⟨hnone, hE⟩ | ⟨hsome, hE⟩
    · rw [ht.eraseIdx] at hE
      obtain ⟨h', r', hret, hR⟩ := ihr (h₁.setChildren node (pre ++ roots r)) node pre
        ⟨by simp, (frame_setChildren h₁ node .nil _).linked ht.rest (by simp) hnoder, hnr, hnoder⟩
        hroot.2.2
      exact ⟨h', r', pruneFrom_turn hget hdown (by rw [hE]; exact hret), ht.drop hnone hempty hR⟩
    · -- the loop walks across the grandchildren before it comes to the rest
      rw [ht.eraseIdx, ht.childrenOf, List.take_left, List.drop_left] at hE
      obtain ⟨hframe, hb₂, hr₂⟩ := ht.splice_linked rfl
      generalize (roots b').foldl (fun h g => h.setParent g (some node)) h₁ = h₂ at hE hframe hb₂ hr₂
      have hset := fun G => frame_setChildren h₂ node G (pre ++ roots b' ++ roots r)
      have hb₃ := (hset .nil).linked hb₂ (by simp) ht.node_notIn
      obtain ⟨h', r', hret, hR⟩ := ihr (h₂.setChildren node (pre ++ roots b' ++ roots r)) node
        (pre ++ roots b') ⟨by simp, (hset .nil).linked hr₂ (by simp) hnoder, hnr, hnoder⟩ hroot.2.2
      have hsame := (hP.frame.same.trans hframe.same).trans (hset .nil).same
      have hcross := pruneFrom_across b' node pre (roots r) h' (by simp) hb₃
        (fun q hq => by rw [hsame.message]; exact ht.full q hq) hret
      exact ⟨h', b' ++ r', pruneFrom_turn hget hdown (by rw [hE]; exact hcross),
        ht.splice hnone (hframe.trans (hset _)) hb₃ hR⟩
    · obtain ⟨h', r', hret, hR⟩ := ihr h₁ node (pre ++ [p])
        ⟨by simp [ht.children], ht.rest, hnr, hnoder⟩ hroot.2.2
      refine ⟨h', .cons p b' r', pruneFrom_turn hget hdown ?_, ht.keep hsome hR⟩
      rw [hE]
      simpa using hret

/-- Pruning from the virtual root. -/
theorem prune_spec {h : Heap} {F : Forest Ptr} (hF : Rooted h F) :
    ∃ h' F', Returns (fun n => prune n h .virtualRoot) h' ∧ Rooted h' F' ∧ SameContent h h' ∧
      (h'.cell .virtualRoot).parent = (h.cell .virtualRoot).parent ∧
      (nodes F').Sublist (nodes F) ∧ messagesIn h F' = messagesIn h F := by
  obtain ⟨h', F', hret, hP⟩ := pruneFrom_spec F h .virtualRoot []
    ⟨hF.children, hF.linked, hF.nodup, hF.notIn⟩ hF.notIn
  exact ⟨h', F', hret, ⟨hP.below.children, hP.below.linked, hP.below.nodup, hP.below.notIn⟩,
    hP.frame.same, hP.frame.parent _ hF.notIn, hP.sublist, hP.messages⟩

end HMailServer.Thread
