import HMailServer.Imap.ThreadPrune

/- Sorting, and the ORDEREDSUBJECT chains. A stable sort permutes the siblings it
   is given, under any comparison, so the walk of `SortChildrenRecursively_`
   returns with the same nodes; the chains are built by attaching each searched
   container once, to the virtual root or to the one before it. -/
namespace HMailServer.Thread
open PointerForest Forest Heap Fuel

theorem stableSortByDate_perm (h : Heap) (nodes : List Ptr) :
    (stableSortByDate h nodes).Perm nodes := List.mergeSort_perm _ _

/-- What sorting leaves: the same nodes, and the same parents. -/
structure Sorted (F : Forest Ptr) (h h' : Heap) (F' : Forest Ptr) : Prop where
  roots : roots F' = roots F
  perm : (nodes F').Perm (nodes F)
  same : SameContent h h'
  parent : ∀ x, (h'.cell x).parent = (h.cell x).parent
  children : ∀ x, x ∉ nodes F → (h'.cell x).children = (h.cell x).children

theorem Sorted.linked {F F' G : Forest Ptr} {h h' : Heap} (hs : Sorted F h h' F') {par : Option Ptr}
    (hG : Linked h.links par G) (hd : ∀ x ∈ nodes G, x ∉ nodes F) : Linked h'.links par G :=
  hG.congr fun x hx => ⟨hs.parent x, hs.children x (hd x hx)⟩

/-- The sorts of several trees, one after the other. -/
theorem sortChildrenRecursively_fold (k : Nat) : ∀ (F : Forest Ptr) (h : Heap) (par : Option Ptr),
    (nodes F).length ≤ k → Linked h.links par F → (nodes F).Nodup →
    ∃ h' F', Returns (fun n => (roots F).foldlM (sortChildrenRecursively n) h) h' ∧
      Linked h'.links par F' ∧ Sorted F h h' F' := by
  induction k with
  | zero =>
    intro F h par hk hl hn
    cases F with
    | nil =>
      exact ⟨h, .nil, Returns.pure' h, trivial, rfl, .refl _, SameContent.refl _, fun _ => rfl,
        fun _ _ => rfl⟩
    | cons p b r => simp at hk
  | succ k ih =>
    intro F h par hk hl hn
    cases F with
    | nil =>
      exact ⟨h, .nil, Returns.pure' h, trivial, rfl, .refl _, SameContent.refl _, fun _ => rfl,
        fun _ _ => rfl⟩
    | cons p b r =>
      obtain ⟨hpb, hpr, hnb, hnr, hd⟩ := nodup_cons_parts hn
      obtain ⟨hpp, hpc, hb, hr⟩ := hl
      rw [nodes_cons, List.length_cons, List.length_append] at hk
      -- the children of `p` are permuted, which permutes the trees below it
      obtain ⟨b₁, hroots, hb₁, hperm⟩ := Linked.reorder
        (stableSortByDate_perm h (roots b)).symm b rfl hb
      have hpb₁ : p ∉ nodes b₁ := fun hx => hpb (hperm.mem_iff.mp hx)
      have hb₂ : Linked (h.setChildren p (roots b₁)).links (some p) b₁ := by
        refine hb₁.congr fun x hx => ?_
        have hne : x ≠ p := fun e => hpb₁ (e ▸ hx)
        simp [hne]
      obtain ⟨h₂, b₂, hret, hlb, hsb⟩ := ih b₁ _ (some p) (by rw [hperm.length_eq]; omega) hb₂
        (hperm.nodup_iff.mpr hnb)
      have hdr : ∀ x ∈ nodes r, x ∉ nodes b₁ := fun x hx hx' => hd x (hperm.mem_iff.mp hx') hx
      have hr₂ : Linked h₂.links par r := by
        refine hsb.linked (hr.congr fun x hx => ?_) hdr
        have hne : x ≠ p := fun e => hpr (e ▸ hx)
        simp [hne]
      obtain ⟨h₃, r₃, hret', hlr, hsr⟩ := ih r h₂ par (by omega) hr₂ hnr
      refine ⟨h₃, .cons p b₂ r₃, Returns.foldlM_cons (hret.step fun n => ?_) hret',
        ⟨?_, ?_, ?_, hlr⟩, ?_, ?_, ?_, ?_, ?_⟩
      · rw [sortChildrenRecursively, ← links_children, hpc, hroots]
      · rw [links_parent, hsr.parent, hsb.parent, parent_setChildren]
        exact hpp
      · rw [links_children, hsr.children p hpr, hsb.children p hpb₁, hsb.roots]
        simp
      · exact hsr.linked hlb fun x hx =>
          hd x (hperm.mem_iff.mp (hsb.perm.mem_iff.mp hx))
      · rw [roots_cons, roots_cons, hsr.roots]
      · rw [nodes_cons, nodes_cons]
        exact ((hsb.perm.trans hperm).append hsr.perm).cons p
      · exact ((sameContent_setChildren h p _).trans hsb.same).trans hsr.same
      · intro x
        rw [hsr.parent, hsb.parent, parent_setChildren]
      · intro x hx
        simp only [nodes_cons, List.mem_cons, List.mem_append, not_or] at hx
        rw [hsr.children x hx.2.2, hsb.children x fun hx' => hx.2.1 (hperm.mem_iff.mp hx')]
        simp [hx.1]

/-- Sorting from the virtual root. -/
theorem sortChildrenRecursively_spec {h : Heap} {F : Forest Ptr} (hF : Rooted h F)
    (hpar : (h.cell .virtualRoot).parent = none) :
    ∃ h' F', Returns (fun n => sortChildrenRecursively n h .virtualRoot) h' ∧ Rooted h' F' ∧
      SameContent h h' ∧ (h'.cell .virtualRoot).parent = none ∧ (nodes F').Perm (nodes F) := by
  have hH := (rooted_iff hpar).mp hF
  obtain ⟨h', G, hret, hl, hs⟩ := sortChildrenRecursively_fold _ _ h none le_rfl hH.linked hH.nodup
  have hroot : Ptr.virtualRoot ∈ roots G := by rw [hs.roots]; simp
  have hG : Holds h' G := ⟨hl, hs.perm.nodup_iff.mpr hH.nodup⟩
  obtain ⟨F', rfl⟩ : ∃ F', G = tree .virtualRoot F' := by
    refine hG.single_root hroot ?_
    intro p hp hne hnone
    have hpr := hG.root hp hnone
    rw [hs.roots, roots_tree, List.mem_singleton] at hpr
    exact hne hpr
  have hpar' : (h'.cell .virtualRoot).parent = none := by rw [hs.parent, hpar]
  refine ⟨h', F', hret.congr' fun n => ?_, (rooted_iff hpar').mpr hG, hs.same, hpar', ?_⟩
  · simp [List.foldlM_cons]
  · have hp := hs.perm
    rw [nodes_tree, nodes_tree] at hp
    exact hp.cons_inv

/-! ## ORDEREDSUBJECT -/

/-- What holds between two containers of the chain loop: those that are done hang
under the virtual root, the others are untouched. -/
structure ChainInv (h₀ : Heap) (done : List Ptr) (s : ChainState) : Prop where
  forest : ∃ F, Rooted s.heap F ∧ (nodes F).Perm done
  virtualRoot : (s.heap.cell .virtualRoot).parent = none
  same : SameContent h₀ s.heap
  tail : s.chainHead.isSome → s.chainTail ∈ done
  alone : ∀ p, p ∉ done → p ≠ .virtualRoot →
    (s.heap.cell p).parent = none ∧ (s.heap.cell p).children = []

/-- An untouched container goes under the virtual root or a container that is done. -/
theorem ChainInv.attach {h₀ : Heap} {done : List Ptr} {s : ChainState} (hs : ChainInv h₀ done s)
    {q c : Ptr} (hq : q = .virtualRoot ∨ q ∈ done) (hc : c ∉ done) (hne : c ≠ .virtualRoot)
    (head : Option Ptr) : ChainInv h₀ (done ++ [c]) ⟨attachChild s.heap q c, head, c⟩ := by
  obtain ⟨F, hF, hperm⟩ := hs.forest
  have hH := (rooted_iff hs.virtualRoot).mp hF
  obtain ⟨hcp, hcc⟩ := hs.alone c hc hne
  have hcT : c ∉ nodes (tree .virtualRoot F) := by
    rw [nodes_tree, List.mem_cons, hperm.mem_iff, not_or]
    exact ⟨hne, hc⟩
  have hqT : q ∈ nodes (tree .virtualRoot F) := by
    rw [nodes_tree, List.mem_cons, hperm.mem_iff]
    exact hq
  have hplus : Holds s.heap (tree .virtualRoot F ++ tree c .nil) := by
    refine ⟨linked_append.mpr ⟨hH.linked, linked_tree.mpr ⟨hcp, hcc, trivial⟩⟩, ?_⟩
    rw [nodes_append, nodes_tree c, nodes_nil]
    refine List.nodup_append.mpr ⟨hH.nodup, by simp, ?_⟩
    intro x hx y hy e
    rw [List.mem_singleton] at hy
    exact hcT (hy ▸ e ▸ hx)
  have hpar : ((attachChild s.heap q c).cell .virtualRoot).parent = none := by
    rw [attachChild_parent, if_neg (Ne.symm hne)]
    exact hs.virtualRoot
  have hA := hplus.attach hqT
  obtain ⟨F', hF'⟩ : ∃ F', graft q (tree c .nil) (tree .virtualRoot F) = tree .virtualRoot F' := by
    by_cases hqv : q = .virtualRoot
    · exact ⟨_, by rw [hqv, graft_tree_root]⟩
    · exact ⟨_, graft_tree hqv _ _⟩
  have hnodes := nodes_graft (tree c .nil) hH.nodup hqT
  rw [hF'] at hA hnodes
  rw [nodes_tree, nodes_tree, nodes_tree, List.cons_append] at hnodes
  refine ⟨⟨F', (rooted_iff hpar).mpr hA, ?_⟩, hpar, hs.same.trans (sameContent_attachChild _ _ _),
    fun _ => by simp, ?_⟩
  · exact hnodes.cons_inv.trans (hperm.append_right _)
  · intro p hp hpv
    rw [List.mem_append, List.mem_singleton, not_or] at hp
    have hpq : p ≠ q := by
      rintro rfl
      rcases hq with hq | hq
      · exact hpv hq
      · exact hp.1 hq
    rw [attachChild_cell_of_ne hpq hp.2]
    exact hs.alone p hp.1 hpv

theorem chainContainer_inv {h₀ : Heap} {done : List Ptr} {s : ChainState} (hs : ChainInv h₀ done s)
    {c : Ptr} (hc : c ∉ done) (hne : c ≠ .virtualRoot) :
    ChainInv h₀ (done ++ [c]) (chainContainer s c) := by
  unfold chainContainer
  split
  · rename_i head hhead
    split
    · exact hs.attach (.inl rfl) hc hne _
    · exact hs.attach (.inr (hs.tail (by rw [hhead]; rfl))) hc hne _
  · exact hs.attach (.inl rfl) hc hne _

theorem chain_inv {h₀ : Heap} (todo : List Ptr) : ∀ (done : List Ptr) (s : ChainState),
    ChainInv h₀ done s → (done ++ todo).Nodup → Ptr.virtualRoot ∉ todo →
    ChainInv h₀ (done ++ todo) (todo.foldl chainContainer s) := by
  induction todo with
  | nil =>
    intro done s hs _ _
    rw [List.append_nil]
    exact hs
  | cons c rest ih =>
    intro done s hs hn hv
    have hc : c ∉ done := by
      rw [List.nodup_append] at hn
      exact fun hx => hn.2.2 c hx c (by simp) rfl
    rw [List.mem_cons, not_or] at hv
    have h := ih (done ++ [c]) _ (chainContainer_inv hs hc (Ne.symm hv.1)) (by simpa using hn) hv.2
    simpa using h

/-- ORDEREDSUBJECT leaves exactly the searched containers under the virtual root. -/
theorem orderBySubject_spec {h : Heap} {searched : List Ptr} (hn : searched.Nodup)
    (hv : Ptr.virtualRoot ∉ searched)
    (halone : ∀ p, (h.cell p).parent = none ∧ (h.cell p).children = []) :
    ∃ F, Rooted (orderBySubject h searched) F ∧ SameContent h (orderBySubject h searched) ∧
      (nodes F).Perm searched := by
  have hperm := List.mergeSort_perm searched fun left right => !subjectDateLess h right left
  rw [orderBySubject]
  generalize (searched.mergeSort fun left right => !subjectDateLess h right left) = sorted at hperm
  have hstart : ChainInv h [] ⟨h, none, .virtualRoot⟩ :=
    ⟨⟨.nil, ⟨(halone _).2, trivial, List.nodup_nil, by simp⟩, .refl _⟩, (halone _).1,
      SameContent.refl _, (fun hx => by cases hx), fun p _ _ => halone p⟩
  have hend := chain_inv sorted [] _ hstart (hperm.nodup_iff.mpr hn)
    fun hx => hv (hperm.mem_iff.mp hx)
  rw [List.nil_append] at hend
  generalize sorted.foldl chainContainer ⟨h, none, .virtualRoot⟩ = s at hend
  obtain ⟨F, hF, hFp⟩ := hend.forest
  have hsort := (stableSortByDate_perm s.heap (s.heap.cell .virtualRoot).children).symm
  rw [hF.children] at hsort
  obtain ⟨G, hG, hGl, hGp⟩ := Linked.reorder hsort F rfl hF.linked
  have hvG : Ptr.virtualRoot ∉ nodes G := fun hx => hF.notIn (hGp.mem_iff.mp hx)
  refine ⟨G, ⟨?_, hGl.congr fun x hx => ?_, hGp.nodup_iff.mpr hF.nodup, hvG⟩,
    hend.same.trans (sameContent_setChildren _ _ _), hGp.trans (hFp.trans hperm)⟩
  · rw [hG, ← hF.children]
    simp
  · have hne : x ≠ .virtualRoot := fun e => hvG (e ▸ hx)
    simp [hne]

end HMailServer.Thread
