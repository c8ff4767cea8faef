import HMailServer.Lib.Nesting
import HMailServer.Imap.ThreadSort

/- Subject grouping. The table entry of a subject is always one of the threads
   under the virtual root, and never the thread being filed, so filing moves one
   tree under another: nothing is lost, and no cycle is closed. A null table entry
   is never met, since a thread's key does not change while it waits. -/
namespace HMailServer.Thread
open PointerForest Forest Heap

/-- The number a container is shown by, when it holds a message. -/
def Heap.number (h : Heap) (useUid : Bool) (p : Ptr) : Option Nat :=
  (h.cell p).message.map (numberOf useUid (h.cell p).sequence)

/-- The numbers of a forest, in preorder. -/
def numbersIn (h : Heap) (useUid : Bool) (F : Forest Ptr) : List Nat :=
  (nodes F).filterMap (h.number useUid)

theorem Heap.SameContent.number {h h' : Heap} (hs : SameContent h h') (useUid : Bool) (p : Ptr) :
    h'.number useUid p = h.number useUid p := by
  rw [Heap.number, Heap.number, hs.message, hs.sequence]

theorem Heap.SameContent.owned {h h' : Heap} (hs : SameContent h h') (p : Ptr) :
    h'.Owned p ↔ h.Owned p := by
  rw [Owned, Owned, hs.size]

/-! ## Moving threads -/

/-- Two trees side by side: the threads, and one that has been taken out. -/
theorem Holds.takeOut {h : Heap} {F : Forest Ptr} {r : Ptr} (hF : Holds h (tree .virtualRoot F))
    (hr : r ∈ nodes F) :
    Holds (detachFromParent h r) (tree .virtualRoot (cut r F) ++ tree r (under r F)) := by
  have hne : r ≠ .virtualRoot := by
    have hn := hF.nodup
    rw [nodes_tree, List.nodup_cons] at hn
    exact fun e => hn.1 (e ▸ hr)
  have hD := hF.detach (c := r) (by simp [hr])
  rwa [cut_tree hne, under_tree hne] at hD

/-- The tree that was taken out is filed under another thread. -/
theorem Holds.fileUnder {h : Heap} {A B : Forest Ptr} {t r : Ptr}
    (hF : Holds h (tree .virtualRoot A ++ tree r B)) (ht : t ∈ nodes A) :
    Holds (attachChild h t r) (tree .virtualRoot (graft t (tree r B) A)) := by
  have hne : t ≠ .virtualRoot := by
    have hn := hF.nodup
    rw [nodes_append, nodes_tree, List.cons_append, List.nodup_cons] at hn
    exact fun e => hn.1 (by rw [← e]; simp [ht])
  have hA := hF.attach (p := t) (by simp [ht])
  rwa [graft_tree hne] at hA

/-- The parts of the two trees are apart. -/
theorem Holds.apart {h : Heap} {A B : Forest Ptr} {r : Ptr}
    (hF : Holds h (tree .virtualRoot A ++ tree r B)) :
    Ptr.virtualRoot ∉ nodes A ∧ (nodes A).Nodup ∧ r ∉ nodes B ∧ (nodes B).Nodup ∧
      r ≠ .virtualRoot ∧ Ptr.virtualRoot ∉ nodes B ∧ r ∉ nodes A ∧ ∀ x ∈ nodes A, x ∉ nodes B := by
  have hn := hF.nodup
  rw [nodes_append, nodes_tree, nodes_tree, List.nodup_append] at hn
  obtain ⟨h1, h2, h3⟩ := hn
  rw [List.nodup_cons] at h1 h2
  refine ⟨h1.1, h1.2, h2.1, h2.2, ?_, ?_, ?_, ?_⟩
  · exact fun e => h3 .virtualRoot (by simp) r (by simp) e.symm
  · exact fun hx => h3 .virtualRoot (by simp) .virtualRoot (by simp [hx]) rfl
  · exact fun hx => h3 r (by simp [hx]) r (by simp) rfl
  · exact fun x hx hx' => h3 x (by simp [hx]) x (by simp [hx']) rfl

/-- One orphan goes over to the table's family. -/
theorem Holds.adopt {h : Heap} {A b B : Forest Ptr} {t r o : Ptr}
    (hF : Holds h (tree .virtualRoot A ++ tree r (.cons o b B))) (ht : t ∈ nodes A) :
    Holds (attachChild (detachFromParent h o) t o)
      (tree .virtualRoot (graft t (tree o b) A) ++ tree r B) := by
  obtain ⟨hvA, hnA, hrB, hnB, hrv, hvB, hrA, hd⟩ := hF.apart
  obtain ⟨hob, hoB, -, -, -⟩ := nodup_cons_parts hnB
  simp only [nodes_cons, List.mem_cons, List.mem_append, not_or] at hrB hvB
  have hoA : o ∉ nodes A := fun hx => hd o hx (by simp)
  have hov : o ≠ .virtualRoot := Ne.symm hvB.1
  have hor : o ≠ r := Ne.symm hrB.1
  have htv : t ≠ .virtualRoot := fun e => hvA (e ▸ ht)
  have htr : t ≠ r := fun e => hrA (e ▸ ht)
  have hoT : o ∉ nodes (tree .virtualRoot A) := by simp [hov, hoA]
  have htB : t ∉ nodes (tree r B) := by
    have htB' : t ∉ nodes B := fun hx => hd t ht (by simp [hx])
    simp [htr, htB']
  have hD := hF.detach (c := o) (by simp)
  rw [cut_append, cut_of_not_mem hoT, cut_tree hor, cons_eq_append, cut_append, cut_tree_root,
    cut_of_not_mem hoB, nil_append, under_append_right _ hoT, under_tree hor,
    under_append_left _ hoB, under_tree_root] at hD
  have hA := hD.attach (p := t) (by simp [ht])
  rwa [graft_append, graft_tree htv, graft_of_not_mem _ htB] at hA

theorem insertIdx_length_append {α : Type} (xs ys : List α) (d : α) :
    (xs ++ ys).insertIdx xs.length d = xs ++ d :: ys := by
  induction xs with
  | nil => simp
  | cons x xs ih => simp [ih]

/-- The last step of `sideBySide`: a tree goes in between the threads. -/
theorem Holds.insertRoot {h : Heap} {A₁ A₂ B : Forest Ptr} {d : Ptr}
    (hF : Holds h (tree .virtualRoot (A₁ ++ A₂) ++ tree d B)) :
    Holds ((h.setParent d (some .virtualRoot)).setChildren .virtualRoot
        ((h.cell .virtualRoot).children.insertIdx (roots A₁).length d))
      (tree .virtualRoot (A₁ ++ tree d B ++ A₂)) := by
  obtain ⟨hvA, hnA, hdB, hnB, hdv, hvB, hdA, hdis⟩ := hF.apart
  obtain ⟨hV, hT⟩ := linked_append.mp hF.linked
  obtain ⟨hvp, hvc, hA⟩ := linked_tree.mp hV
  obtain ⟨hdp, hdc, hB⟩ := linked_tree.mp hT
  obtain ⟨hA₁, hA₂⟩ := linked_append.mp hA
  rw [nodes_append, List.mem_append, not_or] at hvA hdA
  have hother : ∀ x, x ≠ d → x ≠ .virtualRoot →
      (((h.setParent d (some .virtualRoot)).setChildren .virtualRoot
        ((h.cell .virtualRoot).children.insertIdx (roots A₁).length d)).cell x) = h.cell x := by
    intro x hxd hxv
    rw [cell_setChildren, if_neg hxv, cell_setParent, if_neg hxd]
  have hkeep : ∀ (G : Forest Ptr) (par : Option Ptr), Linked h.links par G → d ∉ nodes G →
      Ptr.virtualRoot ∉ nodes G → Linked ((h.setParent d (some .virtualRoot)).setChildren .virtualRoot
        ((h.cell .virtualRoot).children.insertIdx (roots A₁).length d)).links par G := by
    intro G par hG hdG hvG
    refine hG.congr fun x hx => ?_
    have hx' := hother x (fun e => hdG (e ▸ hx)) (fun e => hvG (e ▸ hx))
    exact ⟨by rw [links_parent, hx']; rfl, by rw [links_children, hx']; rfl⟩
  refine ⟨linked_tree.mpr ⟨?_, ?_, linked_append.mpr ⟨linked_append.mpr ⟨?_, ?_⟩, ?_⟩⟩, ?_⟩
  · simpa [Ne.symm hdv] using hvp
  · have hvc' : (h.cell .virtualRoot).children = roots A₁ ++ roots A₂ := by simpa using hvc
    rw [links_children, children_setChildren, if_pos rfl, hvc']
    simp [insertIdx_length_append]
  · exact hkeep A₁ _ hA₁ hdA.1 hvA.1
  · refine linked_tree.mpr ⟨by simp, ?_, hkeep B _ hB hdB hvB⟩
    simpa [hdv] using hdc
  · exact hkeep A₂ _ hA₂ hdA.2 hvA.2
  · refine (List.Perm.nodup_iff ?_).mp hF.nodup
    simp only [nodes_append, nodes_tree, List.cons_append, List.append_assoc]
    refine List.Perm.cons _ (List.Perm.append_left _ ?_)
    exact List.perm_append_comm

/-- Two dummies: all orphans go over, and the other dummy is left empty. -/
theorem adoptChildren_spec {h : Heap} {A B : Forest Ptr} {t r : Ptr}
    (hF : Holds h (tree .virtualRoot A ++ tree r B)) (ht : t ∈ nodes A) :
    ∃ A', Holds (adoptChildren h t r) (tree .virtualRoot A' ++ tree r .nil) ∧ roots A' = roots A ∧
      (t ∈ roots A → height A' ≤ max (height A) (height B + 1)) ∧
      (nodes A').Perm (nodes A ++ nodes B) ∧ SameContent h (adoptChildren h t r) ∧
      (∀ x, x ∉ roots B → ((adoptChildren h t r).cell x).parent = (h.cell x).parent) ∧
      ∀ x, x ≠ r → ((adoptChildren h t r).cell x).children =
        if x = t then (h.cell x).children ++ roots B else (h.cell x).children := by
  have hchildren : (h.cell r).children = roots B :=
    (linked_tree.mp (linked_append.mp hF.linked).2).2.1
  rw [adoptChildren, hchildren]
  clear hchildren
  induction B generalizing h A with
  | nil =>
    exact ⟨A, hF, rfl, fun _ => le_max_left _ _, by simp, SameContent.refl h, fun _ _ => rfl, fun x _ => by simp⟩
  | cons o b B _ ih =>
    obtain ⟨hvA, hnA, hrB, hnB, hrv, hvB, hrA, hd⟩ := hF.apart
    have hparent : (h.cell o).parent = some r :=
      (linked_tree.mp (linked_append.mp hF.linked).2).2.2.1
    have hstep := hF.adopt ht
    have hA' := nodes_graft (tree o b) hnA ht
    obtain ⟨A', hH, hroots, hheight, hperm, hsame, hpar, hch⟩ :=
      ih hstep (hA'.mem_iff.mpr (List.mem_append_left _ ht))
    refine ⟨A', hH, by rw [hroots, roots_graft], ?_, ?_,
      ((sameContent_detachFromParent _ _).trans (sameContent_attachChild _ _ _)).trans hsame, ?_, ?_⟩
    · intro htA
      have hg := height_graft_root (tree o b) hnA htA
      have hrest := hheight (by rw [roots_graft]; exact htA)
      rw [height_tree] at hg
      rw [height]
      omega
    · refine (hperm.trans (hA'.append_right _)).trans ?_
      simp
    · intro x hx
      rw [roots_cons, List.mem_cons, not_or] at hx
      rw [roots_cons, List.foldl_cons, hpar x hx.2, attachChild_parent, if_neg hx.1, detachFromParent_parent,
        if_neg hx.1]
    · intro x hx
      have hdet : ((detachFromParent h o).cell x).children = (h.cell x).children := by
        rw [detachFromParent_children, hparent, if_neg]
        intro he
        injection he with he
        exact hx he.symm
      rw [roots_cons, List.foldl_cons, hch x hx, attachChild_children, hdet]
      split <;> simp

/-- The middle of `sideBySide`: two trees go under a third. -/
theorem Holds.pairUp {h : Heap} {A₁ A₂ B C : Forest Ptr} {t r d : Ptr}
    (hF : Holds h (tree .virtualRoot (A₁ ++ tree t C ++ A₂) ++ tree r B ++ tree d .nil)) :
    Holds (attachChild (attachChild (detachFromParent h t) d t) d r)
      (tree .virtualRoot (A₁ ++ A₂) ++ tree d (tree t C ++ tree r B)) := by
  have hn : ((.virtualRoot :: nodes A₁) ++ t :: (nodes C ++ (nodes A₂ ++ r :: (nodes B ++ [d])))).Nodup := by
    simpa using hF.nodup
  have ht := (List.nodup_cons.1 (List.nodup_middle.1 hn)).1
  have hd : d ∉ (.virtualRoot :: nodes A₁ ++ t :: (nodes C ++ (nodes A₂ ++ r :: nodes B))) ++ [] :=
    (List.nodup_cons.1 (List.nodup_middle.1 (by simpa using hn))).1
  simp only [List.append_nil, List.mem_append, List.mem_cons, List.not_mem_nil, not_or] at ht hd
  obtain ⟨⟨htv, htA₁⟩, -, htA₂, htr, htB, htd, -⟩ := ht
  obtain ⟨⟨hdv, hdA₁⟩, -, -, hdA₂, hdr, hdB⟩ := hd
  have hT := hF.detach (c := t) (by simp)
  have hcut : cut t (tree .virtualRoot (A₁ ++ tree t C ++ A₂) ++ tree r B ++ tree d .nil) =
      tree .virtualRoot (A₁ ++ A₂) ++ tree r B ++ tree d .nil := by
    rw [cut_append, cut_append, cut_tree htv, cut_append, cut_append, cut_of_not_mem htA₁,
      cut_tree_root, cut_of_not_mem htA₂, append_nil, cut_tree htr, cut_of_not_mem htB, cut_tree htd]
    rfl
  have hunder : under t (tree .virtualRoot (A₁ ++ tree t C ++ A₂) ++ tree r B ++ tree d .nil) = C := by
    rw [under_append_left _ (by simp [htd]), under_append_left _ (by simp [htr, htB]),
      under_tree htv, under_append_left _ htA₂, under_append_right _ htA₁, under_tree_root]
  rw [hcut, hunder] at hT
  have h1 := hT.attach (p := d) (by simp)
  rw [graft_append, graft_append, graft_tree hdv,
    graft_of_not_mem (F := A₁ ++ A₂) _ (by simp [hdA₁, hdA₂]), graft_tree hdr,
    graft_of_not_mem _ hdB, graft_tree_root, nil_append] at h1
  have h2 := h1.rotate.attach (p := d) (by simp)
  rwa [graft_append, graft_tree hdv, graft_of_not_mem (F := A₁ ++ A₂) _ (by simp [hdA₁, hdA₂]),
    graft_tree_root] at h2

/-- Two threads go under a new dummy, in the place of the first. -/
theorem sideBySide_spec {h : Heap} {A₁ A₂ B C : Forest Ptr} {t r : Ptr}
    (hF : Holds h (tree .virtualRoot (A₁ ++ tree t C ++ A₂) ++ tree r B))
    (hown : ∀ p ∈ nodes (A₁ ++ tree t C ++ A₂) ++ nodes (tree r B), h.Owned p) :
    (sideBySide h t r).2 = .owned h.size ∧
    Holds (sideBySide h t r).1
      (tree .virtualRoot (A₁ ++ tree (.owned h.size) (tree t C ++ tree r B) ++ A₂)) ∧
    SameContent h.makeContainer.1 (sideBySide h t r).1 ∧
    (∀ x, h.Owned x → x ≠ t → x ≠ r →
      ((sideBySide h t r).1.cell x).parent = (h.cell x).parent) ∧
    ((sideBySide h t r).1.cell t).parent = some (.owned h.size) ∧
    ∀ x, h.Owned x → ((sideBySide h t r).1.cell x).children = (h.cell x).children := by
  have hne : ∀ p, h.Owned p → p ≠ .owned h.size := fun p hp e => h.not_owned_size (e ▸ hp)
  have hnew : Ptr.owned h.size ∉ nodes (tree .virtualRoot (A₁ ++ tree t C ++ A₂) ++ tree r B) := by
    intro hx
    rw [nodes_append, nodes_tree, List.cons_append, List.mem_cons] at hx
    rcases hx with hx | hx
    · cases hx
    · exact h.not_owned_size (hown _ hx)
  have hto : h.Owned t := hown t (by simp)
  have hro : h.Owned r := hown r (by simp)
  obtain ⟨hvA, hnA, -, -, -, -, hrA, -⟩ := hF.apart
  have htr : t ≠ r := by
    rintro rfl
    exact hrA (by simp)
  obtain ⟨hV, -⟩ := linked_append.mp hF.linked
  obtain ⟨-, hvc, hA⟩ := linked_tree.mp hV
  have htp : (h.cell t).parent = some .virtualRoot := hA.root_parent t (by simp)
  -- the position of `t` is where `A₂` begins, also once `t` is gone
  have hpos : (if t ∈ (h.makeContainer.1.cell .virtualRoot).children then
      (h.makeContainer.1.cell .virtualRoot).children.idxOf t else 0) = (roots A₁).length := by
    have hc : (h.makeContainer.1.cell .virtualRoot).children = roots A₁ ++ t :: roots A₂ := by
      rw [cell_makeContainer, if_neg (by simp)]
      simpa using hvc
    have htA₁ : t ∉ roots A₁ := by
      intro hx
      have hn := hnA
      simp only [nodes_append, nodes_tree] at hn
      have htn := roots_subset_nodes _ _ hx
      grind
    rw [hc, if_pos (by simp), List.idxOf_append_of_notMem htA₁, List.idxOf_cons_self, Nat.add_zero]
  have hP := (hF.makeContainer hnew).pairUp
  have hdef : sideBySide h t r =
      (((attachChild (attachChild (detachFromParent h.makeContainer.1 t) (.owned h.size) t)
        (.owned h.size) r).setParent (.owned h.size) (some .virtualRoot)).setChildren .virtualRoot
        (((attachChild (attachChild (detachFromParent h.makeContainer.1 t) (.owned h.size) t)
          (.owned h.size) r).cell .virtualRoot).children.insertIdx (roots A₁).length
            (.owned h.size)), .owned h.size) := by
    rw [← hpos]
    simp [sideBySide, Heap.makeContainer]
  have hcell : ∀ x, h.Owned x → h.makeContainer.1.cell x = h.cell x :=
    fun x hx => cell_makeContainer_old hx
  rw [hdef]
  refine ⟨rfl, hP.insertRoot, ?_, ?_, ?_, ?_⟩
  · exact ((((sameContent_detachFromParent _ _).trans (sameContent_attachChild _ _ _)).trans
      (sameContent_attachChild _ _ _)).trans (sameContent_setParent _ _ _)).trans
      (sameContent_setChildren _ _ _)
  · intro x hx hxt hxr
    simp [attachChild_parent, detachFromParent_parent, hne x hx, hxt, hxr, hcell x hx]
  · simp [attachChild_parent, hne t hto, htr]
  · intro x hx
    have hxv : x ≠ .virtualRoot := Ne.symm hx.ne_virtualRoot
    simp [attachChild_children, detachFromParent_children, hne x hx, hxv, hcell x hx, hcell t hto,
      htp, Ne.symm hxv]

/-! ## The keys of the waiting threads -/

/-- A thread keeps its key when its child list stays or, a thread with a key, grows. -/
theorem threadSubjectKey_grow {h h' : Heap} (hs : SameContent h h') {x : Ptr} (ys : List Ptr)
    (hc : (h'.cell x).children = (h.cell x).children ++ ys)
    (hk : ys = [] ∨ threadSubjectKey h x ≠ []) :
    threadSubjectKey h' x = threadSubjectKey h x := by
  rw [threadSubjectKey, threadSubjectKey, hs.message, hs.baseSubjectKey, hc]
  split
  · rfl
  · rename_i hm
    cases hcx : (h.cell x).children with
    | cons c cs => simp [hs.baseSubjectKey]
    | nil =>
      rcases hk with rfl | hk
      · rfl
      · exfalso
        apply hk
        rw [threadSubjectKey, if_neg hm, hcx]
        rfl

theorem threadSubjectKey_makeContainer {h : Heap} {x : Ptr} (hx : h.Owned x)
    (hc : ∀ c ∈ (h.cell x).children, h.Owned c) :
    threadSubjectKey h.makeContainer.1 x = threadSubjectKey h x := by
  rw [threadSubjectKey, threadSubjectKey, cell_makeContainer_old hx]
  split
  · rfl
  · cases hcx : (h.cell x).children with
    | nil => rfl
    | cons c cs =>
      have hco := hc c (by rw [hcx]; simp)
      simp only [List.head?_cons, cell_makeContainer_old hco]

/-- What holds between two threads of the second pass, `key` being the keys at
its start: one tree under the virtual root with the numbers it always had, a
table into its threads, and threads that wait with their keys unchanged. -/
structure GroupInv (key : Ptr → WString) (useUid : Bool) (numbers : List Nat) (todo : List Ptr)
    (s : GroupState) : Prop where
  forest : ∃ F, Holds s.heap (tree .virtualRoot F) ∧
    (∀ k t, s.bySubject k = some t → t ∈ roots F) ∧ (∀ r ∈ todo, r ∈ nodes F) ∧
    (∀ p ∈ nodes F, s.heap.Owned p) ∧ (numbersIn s.heap useUid F).Perm numbers
  nodup : todo.Nodup
  keys : ∀ r ∈ todo, threadSubjectKey s.heap r = key r
  parents : ∀ r ∈ todo, ∀ p, (s.heap.cell r).parent = some p → p ∉ todo
  entry : ∀ r ∈ todo, key r ≠ [] → ∃ t, s.bySubject (key r) = some t
  table : ∀ k t, s.bySubject k = some t → k ≠ [] ∧ (t ∈ todo → key t = k)
  injective : ∀ k k' t, s.bySubject k = some t → s.bySubject k' = some t → k = k'

theorem numbersIn_perm {h h' : Heap} {useUid : Bool} {F F' : Forest Ptr} (extra : List Ptr)
    (hperm : (nodes F').Perm (nodes F ++ extra))
    (hsame : ∀ p ∈ nodes F, h'.number useUid p = h.number useUid p)
    (hextra : ∀ p ∈ extra, h'.number useUid p = none) :
    (numbersIn h' useUid F').Perm (numbersIn h useUid F) := by
  rw [numbersIn, numbersIn]
  refine (hperm.filterMap _).trans ?_
  rw [List.filterMap_append, List.filterMap_eq_nil_iff.mpr hextra, List.append_nil,
    List.filterMap_congr hsame]

namespace GroupInv
variable {key : Ptr → WString} {useUid : Bool} {numbers : List Nat} {r t : Ptr} {rest : List Ptr}
  {s : GroupState}

/-- A thread without a key, or the table entry itself, stays where it is. -/
theorem skip (hs : GroupInv key useUid numbers (r :: rest) s) :
    GroupInv key useUid numbers rest s := by
  obtain ⟨F, hF, ht, htodo, hown, hnum⟩ := hs.forest
  refine ⟨⟨F, hF, ht, fun x hx => htodo x (by simp [hx]), hown, hnum⟩, (List.nodup_cons.mp hs.nodup).2,
    fun x hx => hs.keys x (by simp [hx]), fun x hx p hp => ?_, fun x hx => hs.entry x (by simp [hx]),
    fun k t hk => ⟨(hs.table k t hk).1, fun hx => (hs.table k t hk).2 (by simp [hx])⟩, hs.injective⟩
  exact fun hx => hs.parents x (by simp [‹x ∈ rest›]) p hp (by simp [hx])

/-- Two table entries that are threads still waiting are told apart by their keys. -/
theorem other_ne (hs : GroupInv key useUid numbers (r :: rest) s)
    (ht : s.bySubject (key r) = some t) (hne : t ≠ r) {k : WString} {t' : Ptr}
    (hk : s.bySubject k = some t') : t' ≠ r := by
  rintro rfl
  have hkey := (hs.table k t' hk).2 (by simp)
  rw [hkey, hk] at ht
  injection ht with ht
  exact hne ht.symm

/-- The detached thread, with what waits unchanged. -/
theorem detach_keys (hs : GroupInv key useUid numbers (r :: rest) s) {x : Ptr} (hx : x ∈ r :: rest) :
    ((detachFromParent s.heap r).cell x).children = (s.heap.cell x).children := by
  rw [detachFromParent_children, if_neg]
  intro hp
  exact hs.parents r (by simp) x hp hx

/-- After the thread `r` has been filed into `F'`, with the table as it was or
with a new entry for the subject of `r`. -/
theorem filed (hs : GroupInv key useUid numbers (r :: rest) s) {s' : GroupState} {F' : Forest Ptr}
    (hF : Holds s'.heap (tree .virtualRoot F')) (hroots : ∀ k t, s'.bySubject k = some t → t ∈ roots F')
    (hrest : ∀ x ∈ rest, x ∈ nodes F') (hown : ∀ p ∈ nodes F', s'.heap.Owned p)
    (hnum : (numbersIn s'.heap useUid F').Perm numbers)
    (hkeys : ∀ x ∈ rest, threadSubjectKey s'.heap x = threadSubjectKey s.heap x)
    (hparents : ∀ x ∈ rest, ∀ p, (s'.heap.cell x).parent = some p →
      (s.heap.cell x).parent = some p ∨ p ∉ rest)
    (hentry : ∀ k t, s.bySubject k = some t → ∃ t', s'.bySubject k = some t')
    (hnew : ∀ k t, s'.bySubject k = some t →
      s.bySubject k = some t ∨ k = key r ∧ k ≠ [] ∧ t ∉ rest ∧ ∀ k', s.bySubject k' ≠ some t) :
    GroupInv key useUid numbers rest s' := by
  have hskip := hs.skip
  refine ⟨⟨F', hF, hroots, hrest, hown, hnum⟩, hskip.nodup, ?_, ?_, ?_, ?_, ?_⟩
  · intro x hx
    rw [hkeys x hx, hskip.keys x hx]
  · intro x hx p hp
    rcases hparents x hx p hp with hp | hp
    · exact hskip.parents x hx p hp
    · exact hp
  · intro x hx hk
    obtain ⟨t, ht⟩ := hskip.entry x hx hk
    exact hentry _ t ht
  · intro k t hk
    rcases hnew k t hk with hk | ⟨-, hne, ht, -⟩
    · exact hskip.table k t hk
    · exact ⟨hne, fun hx => absurd hx ht⟩
  · intro k k' t hk hk'
    rcases hnew k t hk with hk | ⟨rfl, -, -, hfresh⟩
    · rcases hnew k' t hk' with hk' | ⟨-, -, -, hfresh⟩
      · exact hs.injective k k' t hk hk'
      · exact absurd hk (hfresh k)
    · rcases hnew k' t hk' with hk' | ⟨rfl, -, -, -⟩
      · exact absurd hk' (hfresh k')
      · rfl

/-- Where the thread `r` has been taken out and the others are as before. -/
structure TakenOut (useUid : Bool) (numbers : List Nat) (s : GroupState) (r : Ptr)
    (rest : List Ptr) (A B : Forest Ptr) (h : Heap) : Prop where
  holds : Holds h (tree .virtualRoot A ++ tree r B)
  same : SameContent s.heap h
  roots : ∀ k t, s.bySubject k = some t → t ∈ Forest.roots A
  children : ∀ x ∈ rest, (h.cell x).children = (s.heap.cell x).children
  parent : ∀ x ∈ rest, (h.cell x).parent = (s.heap.cell x).parent
  mem : ∀ x ∈ rest, x ∈ nodes A ∨ x ∈ nodes B
  owned : ∀ p, p ∈ nodes A ∨ p = r ∨ p ∈ nodes B → s.heap.Owned p
  numbers : (numbersIn s.heap useUid (A ++ tree r B)).Perm numbers

theorem takenOut (hs : GroupInv key useUid numbers (r :: rest) s)
    (ht : s.bySubject (key r) = some t) (hne : t ≠ r) :
    ∃ A B, TakenOut useUid numbers s r rest A B (detachFromParent s.heap r) := by
  obtain ⟨F, hF, hroots, htodo, hown, hnum⟩ := hs.forest
  have hrF := htodo r (by simp)
  have hnF : (nodes F).Nodup := by
    have hn := hF.nodup
    rw [nodes_tree, List.nodup_cons] at hn
    exact hn.2
  have hperm := nodes_cut hnF hrF
  have hrest : ∀ x ∈ rest, x ≠ r := by
    rintro x hx rfl
    exact (List.nodup_cons.mp hs.nodup).1 hx
  refine ⟨cut r F, under r F, hF.takeOut hrF, sameContent_detachFromParent _ _, ?_, ?_, ?_, ?_, ?_, ?_⟩
  · intro k t' hk
    rw [roots_cut hnF]
    exact (List.mem_erase_of_ne (hs.other_ne ht hne hk)).mpr (hroots k t' hk)
  · exact fun x hx => hs.detach_keys (by simp [hx])
  · intro x hx
    rw [detachFromParent_parent, if_neg (hrest x hx)]
  · intro x hx
    have hx' := hperm.mem_iff.mp (htodo x (by simp [hx]))
    rw [List.mem_append, nodes_tree, List.mem_cons] at hx'
    rcases hx' with hx' | hx' | hx'
    · exact .inl hx'
    · exact absurd hx' (hrest x hx)
    · exact .inr hx'
  · intro p hp
    apply hown
    rw [hperm.mem_iff, List.mem_append, nodes_tree, List.mem_cons]
    exact hp
  · refine (numbersIn_perm [] ?_ (fun _ _ => rfl) (by simp)).trans hnum
    rw [List.append_nil, nodes_append]
    exact hperm.symm

/-- The thread goes under the table entry. -/
theorem attach (hs : GroupInv key useUid numbers (r :: rest) s)
    (ht : s.bySubject (key r) = some t) {A B : Forest Ptr} {h : Heap}
    (hT : TakenOut useUid numbers s r rest A B h) :
    GroupInv key useUid numbers rest { s with heap := attachChild h t r } := by
  obtain ⟨-, hnA, -⟩ := hT.holds.apart
  have htA := roots_subset_nodes _ _ (hT.roots _ _ ht)
  have hperm := nodes_graft (tree r B) hnA htA
  have hsame := hT.same.trans (sameContent_attachChild h t r)
  refine hs.filed (hT.holds.fileUnder htA) ?_ ?_ ?_ ?_ ?_ ?_ (fun k t' hk => ⟨t', hk⟩)
    (fun k t' hk => .inl hk)
  · intro k t' hk
    rw [roots_graft]
    exact hT.roots k t' hk
  · intro x hx
    rw [hperm.mem_iff, List.mem_append, nodes_tree, List.mem_cons]
    have hx' := hT.mem x hx
    tauto
  · intro p hp
    rw [hperm.mem_iff, List.mem_append, nodes_tree, List.mem_cons] at hp
    exact (hsame.owned p).mpr (hT.owned p hp)
  · refine (numbersIn_perm [] ?_ (fun p _ => hsame.number useUid p) (by simp)).trans hT.numbers
    rw [List.append_nil, nodes_append]
    exact hperm
  · intro x hx
    by_cases hxt : x = t
    · subst hxt
      refine threadSubjectKey_grow hsame [r] ?_ (.inr ?_)
      · rw [attachChild_children, if_pos rfl, hT.children x hx]
      · rw [hs.keys x (by simp [hx]), (hs.table _ _ ht).2 (by simp [hx])]
        exact (hs.table _ _ ht).1
    · refine threadSubjectKey_grow hsame [] ?_ (.inl rfl)
      rw [attachChild_children, if_neg hxt, hT.children x hx, List.append_nil]
  · intro x hx p hp
    have hxr : x ≠ r := by
      rintro rfl
      exact (List.nodup_cons.mp hs.nodup).1 hx
    rw [attachChild_parent, if_neg hxr, hT.parent x hx] at hp
    exact .inl hp

/-- The children of one dummy go over to the other. -/
theorem adopt (hs : GroupInv key useUid numbers (r :: rest) s)
    (ht : s.bySubject (key r) = some t) {A B : Forest Ptr} {h : Heap}
    (hT : TakenOut useUid numbers s r rest A B h) (hr : (h.cell r).message = none) :
    GroupInv key useUid numbers rest { s with heap := adoptChildren h t r } := by
  have htA := roots_subset_nodes _ _ (hT.roots _ _ ht)
  obtain ⟨A', hH, hroots, -, hperm, hsame', hpar, hch⟩ := adoptChildren_spec hT.holds htA
  have hsame := hT.same.trans hsame'
  have hlB := (linked_tree.mp (linked_append.mp hT.holds.linked).2).2.2
  have hrest : ∀ x ∈ rest, x ≠ r := by
    rintro x hx rfl
    exact (List.nodup_cons.mp hs.nodup).1 hx
  have hH' : Holds (adoptChildren h t r) (tree .virtualRoot A') := by
    refine ⟨(linked_append.mp hH.linked).1, ?_⟩
    have hn := hH.nodup
    rw [nodes_append, List.nodup_append] at hn
    exact hn.1
  refine hs.filed hH' ?_ ?_ ?_ ?_ ?_ ?_ (fun k t' hk => ⟨t', hk⟩) (fun k t' hk => .inl hk)
  · intro k t' hk
    rw [hroots]
    exact hT.roots k t' hk
  · intro x hx
    rw [hperm.mem_iff, List.mem_append]
    exact hT.mem x hx
  · intro p hp
    rw [hperm.mem_iff, List.mem_append] at hp
    refine (hsame.owned p).mpr (hT.owned p ?_)
    tauto
  · refine List.Perm.trans ?_ hT.numbers
    refine (numbersIn_perm [r] ?_ (fun p _ => (hsame.number useUid p).symm) ?_).symm
    · rw [nodes_append, nodes_tree]
      exact List.perm_middle.trans ((hperm.symm.cons r).trans (List.perm_append_singleton r _).symm)
    · intro p hp
      rw [List.mem_singleton] at hp
      rw [hp, Heap.number, ← hT.same.message, hr]
      rfl
  · intro x hx
    by_cases hxt : x = t
    · subst hxt
      refine threadSubjectKey_grow hsame (Forest.roots B) ?_ (.inr ?_)
      · rw [hch x (hrest x hx), if_pos rfl, hT.children x hx]
      · rw [hs.keys x (by simp [hx]), (hs.table _ _ ht).2 (by simp [hx])]
        exact (hs.table _ _ ht).1
    · refine threadSubjectKey_grow hsame [] ?_ (.inl rfl)
      rw [hch x (hrest x hx), if_neg hxt, hT.children x hx, List.append_nil]
  · intro x hx p hp
    have hxB : x ∉ Forest.roots B := by
      intro hxB
      have hxr := hlB.root_parent x hxB
      rw [links_parent, hT.parent x hx] at hxr
      exact hs.parents x (by simp [hx]) r hxr (by simp)
    rw [hpar x hxB, hT.parent x hx] at hp
    exact .inl hp

/-- A new dummy takes the table entry's place. -/
theorem pair (hs : GroupInv key useUid numbers (r :: rest) s)
    (ht : s.bySubject (key r) = some t) {A B : Forest Ptr} {h : Heap}
    (hT : TakenOut useUid numbers s r rest A B h) :
    GroupInv key useUid numbers rest
      { heap := (sideBySide h t r).1
        bySubject := assign s.bySubject (key r) (sideBySide h t r).2 } := by
  obtain ⟨A₁, C, A₂, rfl⟩ := split_root (hT.roots _ _ ht)
  have hown : ∀ p ∈ nodes (A₁ ++ tree t C ++ A₂) ++ nodes (tree r B), h.Owned p := by
    intro p hp
    rw [List.mem_append, nodes_tree r, List.mem_cons] at hp
    exact (hT.same.owned p).mpr (hT.owned p hp)
  obtain ⟨hdummy, hH, hsame, hpar, htpar, hch⟩ := sideBySide_spec hT.holds hown
  have hnew : ¬ s.heap.Owned (.owned h.size) := by
    rw [← hT.same.owned]
    exact h.not_owned_size
  have hownRest : ∀ x ∈ rest, h.Owned x := by
    intro x hx
    refine (hT.same.owned x).mpr (hT.owned x ?_)
    have := hT.mem x hx
    tauto
  have hsize : ∀ p, h.Owned p → (sideBySide h t r).1.Owned p :=
    fun p hp => (hsame.owned p).mpr ((owned_makeContainer h p).mpr (.inl hp))
  have hperm : (nodes (A₁ ++ tree (.owned h.size) (tree t C ++ tree r B) ++ A₂)).Perm
      (nodes (A₁ ++ tree t C ++ A₂ ++ tree r B) ++ [.owned h.size]) := by
    simp only [nodes_append, nodes_tree, List.append_assoc]
    refine List.Perm.append_left _ ?_
    -- the dummy moves to the end, and the tree of `r` over `A₂`
    rw [List.cons_append]
    refine (List.perm_append_singleton _ _).symm.trans ?_
    simp only [List.cons_append, List.append_assoc]
    refine List.Perm.cons _ (List.Perm.append_left _ ?_)
    exact List.perm_append_comm_assoc (r :: nodes B) (nodes A₂) _
  have hchOwned : ∀ x ∈ rest, ∀ c ∈ (h.cell x).children, h.Owned c := by
    intro x hx c hc
    have hx' : x ∈ nodes (tree .virtualRoot (A₁ ++ tree t C ++ A₂) ++ tree r B) := by
      rw [nodes_append, List.mem_append, nodes_tree, nodes_tree r, List.mem_cons, List.mem_cons]
      have := hT.mem x hx
      tauto
    obtain ⟨hcp, hcm⟩ := hT.holds.linked.child hx' hc
    rw [nodes_append, nodes_tree, List.cons_append, List.mem_cons] at hcm
    rcases hcm with rfl | hcm
    · exfalso
      have hroot := (linked_tree.mp (linked_append.mp hT.holds.linked).1).1
      rw [hcp] at hroot
      cases hroot
    · exact hown c hcm
  refine hs.filed hH ?_ ?_ ?_ ?_ ?_ ?_ ?_ ?_
  · intro k t' hk
    dsimp only at hk
    rw [assign_apply] at hk
    split at hk
    · injection hk with hk
      rw [← hk, hdummy]
      simp
    · rename_i hkr
      have htt : t' ≠ t := fun e => hkr (hs.injective k (key r) t (e ▸ hk) ht)
      have hmem := hT.roots k t' hk
      simp only [roots_append, roots_tree, List.mem_append, List.mem_singleton] at hmem ⊢
      tauto
  · intro x hx
    rw [hperm.mem_iff, List.mem_append, nodes_append, List.mem_append, nodes_tree r, List.mem_cons]
    have := hT.mem x hx
    tauto
  · intro p hp
    rw [hperm.mem_iff, List.mem_append, nodes_append, List.mem_singleton] at hp
    rcases hp with hp | rfl
    · exact hsize p (hown p hp)
    · exact (hsame.owned _).mpr ((owned_makeContainer h _).mpr (.inr rfl))
  · refine (numbersIn_perm [.owned h.size] hperm ?_ ?_).trans hT.numbers
    · intro p hp
      rw [nodes_append] at hp
      rw [hsame.number, ← hT.same.number, Heap.number, Heap.number, cell_makeContainer_old (hown p hp)]
    · intro p hp
      rw [List.mem_singleton] at hp
      rw [hp, hsame.number, Heap.number, cell_makeContainer, if_pos rfl]
      rfl
  · intro x hx
    have hxo := hownRest x hx
    calc threadSubjectKey (sideBySide h t r).1 x
        = threadSubjectKey h.makeContainer.1 x := by
          refine threadSubjectKey_grow hsame [] ?_ (.inl rfl)
          rw [hch x hxo, cell_makeContainer_old hxo, List.append_nil]
      _ = threadSubjectKey h x := threadSubjectKey_makeContainer hxo (hchOwned x hx)
      _ = threadSubjectKey s.heap x :=
          threadSubjectKey_grow hT.same [] (by rw [hT.children x hx, List.append_nil]) (.inl rfl)
  · intro x hx p hp
    have hxr : x ≠ r := by
      rintro rfl
      exact (List.nodup_cons.mp hs.nodup).1 hx
    by_cases hxt : x = t
    · subst hxt
      rw [htpar] at hp
      injection hp with hp
      refine .inr fun hpr => hnew ?_
      rw [hp, ← hT.same.owned]
      exact hownRest p hpr
    · rw [hpar x (hownRest x hx) hxt hxr, hT.parent x hx] at hp
      exact .inl hp
  · intro k t' hk
    by_cases hkr : k = key r
    · exact ⟨_, if_pos hkr⟩
    · exact ⟨t', (if_neg hkr).trans hk⟩
  · intro k t' hk
    dsimp only at hk
    rw [assign_apply] at hk
    split at hk
    · rename_i hkr
      injection hk with hk
      rw [hdummy] at hk
      refine .inr ⟨hkr, ?_, ?_, ?_⟩
      · rw [hkr]
        exact (hs.table _ _ ht).1
      · intro hx
        exact h.not_owned_size (by rw [hk]; exact hownRest _ hx)
      · intro k' hk'
        have hmem := roots_subset_nodes _ _ (hT.roots k' t' hk')
        exact h.not_owned_size (by rw [hk]; exact hown _ (List.mem_append_left _ hmem))
    · exact .inl hk

end GroupInv

/-- One thread of the second pass: a table entry is there, and nothing is lost. -/
theorem groupRoot_inv {key : Ptr → WString} {useUid : Bool} {numbers : List Nat} {r : Ptr}
    {rest : List Ptr} {s : GroupState} (hs : GroupInv key useUid numbers (r :: rest) s) :
    ∃ s', groupRoot s r = some s' ∧ GroupInv key useUid numbers rest s' := by
  have hkey := hs.keys r (by simp)
  rw [groupRoot, hkey]
  by_cases hempty : key r = []
  · exact ⟨s, by rw [hempty]; rfl, hs.skip⟩
  · obtain ⟨t, ht⟩ := hs.entry r (by simp) hempty
    rw [if_neg (by simpa using hempty), ht, Option.bind_some]
    split
    · exact ⟨s, rfl, hs.skip⟩
    · rename_i hne
      obtain ⟨A, B, hT⟩ := hs.takenOut ht hne
      dsimp only
      split
      · rename_i hdummies
        simp only [Bool.and_eq_true, Option.isNone_iff_eq_none] at hdummies
        exact ⟨_, rfl, hs.adopt ht hT hdummies.2⟩
      · split
        · exact ⟨_, rfl, hs.attach ht hT⟩
        · split
          · exact ⟨_, rfl, hs.attach ht hT⟩
          · exact ⟨_, rfl, hs.pair ht hT⟩

theorem groupRoots_inv {key : Ptr → WString} {useUid : Bool} {numbers : List Nat} (todo : List Ptr) :
    ∀ s, GroupInv key useUid numbers todo s →
      ∃ s', todo.foldlM groupRoot s = some s' ∧ GroupInv key useUid numbers [] s' := by
  induction todo with
  | nil => exact fun s hs => ⟨s, rfl, hs⟩
  | cons r rest ih =>
    intro s hs
    obtain ⟨s₁, h₁, hs₁⟩ := groupRoot_inv hs
    obtain ⟨s₂, h₂, hs₂⟩ := ih s₁ hs₁
    refine ⟨s₂, ?_, hs₂⟩
    rw [List.foldlM_cons, h₁]
    exact h₂

/-- What the first pass leaves: each entry is a thread with that key, and each
key has an entry. -/
structure TableInv (h : Heap) (done : List Ptr) (bySubject : WString → Option Ptr) : Prop where
  entry : ∀ r ∈ done, threadSubjectKey h r ≠ [] → ∃ t, bySubject (threadSubjectKey h r) = some t
  table : ∀ k t, bySubject k = some t → t ∈ done ∧ threadSubjectKey h t = k ∧ k ≠ []

theorem chooseTable_inv {h : Heap} {done : List Ptr} {bySubject : WString → Option Ptr}
    (hb : TableInv h done bySubject) (r : Ptr) :
    TableInv h (done ++ [r]) (chooseTable h bySubject r) := by
  have hassign : threadSubjectKey h r ≠ [] →
      TableInv h (done ++ [r]) (assign bySubject (threadSubjectKey h r) r) := by
    intro hne
    refine ⟨fun x hx hk => ?_, fun k t hk => ?_⟩
    · by_cases he : threadSubjectKey h x = threadSubjectKey h r
      · exact ⟨r, by rw [assign_apply, if_pos he]⟩
      · rw [List.mem_append, List.mem_singleton] at hx
        rcases hx with hx | rfl
        · obtain ⟨t, ht⟩ := hb.entry x hx hk
          exact ⟨t, by rw [assign_apply, if_neg he]; exact ht⟩
        · exact absurd rfl he
    · rw [assign_apply] at hk
      split at hk
      · rename_i he
        injection hk with hk
        subst hk
        exact ⟨by simp, he.symm, by rw [he]; exact hne⟩
      · obtain ⟨h1, h2⟩ := hb.table k t hk
        exact ⟨by simp [h1], h2⟩
  have hkeep : (threadSubjectKey h r ≠ [] → ∃ t, bySubject (threadSubjectKey h r) = some t) →
      TableInv h (done ++ [r]) bySubject := by
    intro hr
    refine ⟨fun x hx hk => ?_, fun k t hk => ?_⟩
    · rw [List.mem_append, List.mem_singleton] at hx
      rcases hx with hx | rfl
      · exact hb.entry x hx hk
      · exact hr hk
    · obtain ⟨h1, h2⟩ := hb.table k t hk
      exact ⟨by simp [h1], h2⟩
  rw [chooseTable]
  split
  · rename_i hempty
    rw [List.isEmpty_iff] at hempty
    exact hkeep fun hne => absurd hempty hne
  · rename_i hne
    rw [List.isEmpty_iff] at hne
    split
    · exact hassign hne
    · rename_i t ht
      split
      · exact hassign hne
      · exact hkeep fun _ => ⟨t, ht⟩

theorem chooseTables_inv {h : Heap} (todo : List Ptr) : ∀ done bySubject,
    TableInv h done bySubject → TableInv h (done ++ todo) (todo.foldl (chooseTable h) bySubject) := by
  induction todo with
  | nil =>
    intro done bySubject hb
    rw [List.append_nil]
    exact hb
  | cons r rest ih =>
    intro done bySubject hb
    have h' := ih _ _ (chooseTable_inv hb r)
    rwa [List.append_assoc] at h'

/-- The second pass starts with every thread waiting. -/
theorem groupInv_start {h : Heap} {F : Forest Ptr} (hF : Rooted h F)
    (hpar : (h.cell .virtualRoot).parent = none) (hown : ∀ p ∈ nodes F, h.Owned p) (useUid : Bool) :
    GroupInv (threadSubjectKey h) useUid (numbersIn h useUid F) (roots F)
      ⟨h, (roots F).foldl (chooseTable h) fun _ => none⟩ := by
  have hH := (rooted_iff hpar).mp hF
  have htable : TableInv h (roots F) ((roots F).foldl (chooseTable h) fun _ => none) := by
    have h' := @chooseTables_inv h (roots F) [] (fun _ => none)
      ⟨by simp, by intro k t hk; cases hk⟩
    rwa [List.nil_append] at h'
  refine ⟨⟨F, hH, fun k t hk => (htable.table k t hk).1, fun r hr => roots_subset_nodes _ _ hr, hown,
    .refl _⟩, hF.nodup.sublist (roots_sublist_nodes F), fun _ _ => rfl, ?_, htable.entry, ?_, ?_⟩
  · intro r hr p hp hpF
    have hroot := hF.linked.root_parent r hr
    rw [links_parent, hp] at hroot
    injection hroot with hroot
    exact hF.notIn (roots_subset_nodes _ _ (hroot ▸ hpF))
  · exact fun k t hk => ⟨(htable.table k t hk).2.2, fun _ => (htable.table k t hk).2.1⟩
  · intro k k' t hk hk'
    rw [← (htable.table k t hk).2.1, (htable.table k' t hk').2.1]

/-- Subject grouping returns, and keeps the numbers under the virtual root. -/
theorem groupBySubject_spec {h : Heap} {F : Forest Ptr} (hF : Rooted h F)
    (hpar : (h.cell .virtualRoot).parent = none) (hown : ∀ p ∈ nodes F, h.Owned p) (useUid : Bool) :
    ∃ h' F', groupBySubject h = some h' ∧ Rooted h' F' ∧
      (h'.cell .virtualRoot).parent = none ∧
      (numbersIn h' useUid F').Perm (numbersIn h useUid F) := by
  obtain ⟨s', hret, hend⟩ := groupRoots_inv (roots F) _ (groupInv_start hF hpar hown useUid)
  obtain ⟨F', hF', -, -, -, hnum⟩ := hend.forest
  have hpar' := (linked_tree.mp hF'.linked).1
  refine ⟨s'.heap, F', ?_, (rooted_iff hpar').mpr hF', hpar', hnum⟩
  simp only [groupBySubject]
  rw [hF.children, hret]
  rfl

end HMailServer.Thread
