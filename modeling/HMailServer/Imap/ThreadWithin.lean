import HMailServer.Lib.Nesting
import HMailServer.Imap.Thread
import HMailServer.Imap.ThreadPrune
import HMailServer.Imap.ThreadSort

/- The walks of `BuildThreads` on a stack with room for `levels` calls inside each
   other. The source's walks have no such limit; where `Within` holds of the node
   they start from, the limit makes no difference. -/
namespace HMailServer.Thread
open Nesting Heap

def Heap.childrenOf (h : Heap) (p : Ptr) : List Ptr := (h.cell p).children

/-! ## The walks with a limit -/

/-- `Prune_`, from child `i` on, with room for `levels` calls. -/
def pruneWithin : Nat → Nat → Heap → Ptr → Nat → Option Heap
  | 0, _, _, _, _ => none
  | _ + 1, 0, _, _, _ => none
  | fuel + 1, levels + 1, h, node, i =>
    match (h.cell node).children[i]? with
    | none => some h
    | some child =>
      (pruneWithin fuel levels h child 0).bind fun h =>
        pruneWithin fuel (levels + 1) (pruneChild h node child i).1 node (pruneChild h node child i).2

/-- `SortChildrenRecursively_`: every unit of fuel is one more call. -/
def sortWithin (fuel levels : Nat) (h : Heap) (node : Ptr) : Option Heap :=
  sortChildrenRecursively (min fuel levels) h node

/-- `RenderContainer_`, whose chain loop makes no call. -/
def renderWithin (h : Heap) (useUid : Bool) : Nat → Nat → Ptr → Bool → WString → Option WString
  | 0, _, _, _, _ => none
  | _ + 1, 0, _, _, _ => none
  | fuel + 1, levels + 1, current, first, out =>
    match (h.cell current).message with
    | some m =>
      let out := (if first then out else out ++ wide " ") ++
        decimal (numberOf useUid (h.cell current).sequence m)
      match (h.cell current).children with
      | [] => some out
      | [child] => renderWithin h useUid fuel (levels + 1) child false out
      | children =>
        renderBranches (fun child out => renderWithin h useUid fuel levels child true out) children
          (out ++ wide " ")
    | none =>
      if (h.cell current).children.isEmpty then some out
      else
        renderBranches (fun child out => renderWithin h useUid fuel levels child true out)
          (h.cell current).children (if first then out else out ++ wide " ")

/-! ## Pruning -/

/-- What `Prune_` does with a child takes nodes out of the levels, and moves the
rest up. -/
theorem pruneChild_lifts {h₀ h : Heap} {node child : Ptr} (hlift : Lifts h₀.childrenOf h.childrenOf)
    (hchild : child ∈ h₀.childrenOf node) (i : Nat) :
    Lifts h₀.childrenOf (pruneChild h node child i).1.childrenOf := by
  have hold : ∀ q c, c ∈ h.childrenOf q → Under h₀.childrenOf q c := hlift
  have hgrand : ∀ c, c ∈ h.childrenOf child → Under h₀.childrenOf node c :=
    fun c hc => .head hchild (hold child c hc)
  rcases pruneChild_cases h node child i with ⟨-, -, he⟩ | ⟨-, he⟩ | ⟨-, he⟩
  · rw [he]
    intro q c hc
    unfold childrenOf at hc
    rw [children_setChildren] at hc
    split at hc
    · rename_i hq
      exact hold q c (by rw [hq]; exact List.mem_of_mem_eraseIdx hc)
    · exact hold q c hc
  · rw [he]
    intro q c hc
    unfold childrenOf at hc
    rw [children_setChildren, ((foldl_setParent node _ h).2 q).2] at hc
    split at hc
    · rename_i hq
      subst hq
      rw [List.mem_append, List.mem_append] at hc
      rcases hc with (hc | hc) | hc
      · exact hold q c (List.mem_of_mem_eraseIdx (List.mem_of_mem_take hc))
      · exact hgrand c hc
      · exact hold q c (List.mem_of_mem_eraseIdx (List.mem_of_mem_drop hc))
    · exact hold q c hc
  · rw [he]
    exact hlift

theorem pruneFrom_lifts (fuel : Nat) : ∀ (h : Heap) (node : Ptr) (i : Nat) (h' : Heap),
    pruneFrom fuel h node i = some h' → Lifts h.childrenOf h'.childrenOf := by
  induction fuel with
  | zero => exact fun _ _ _ _ he => by cases he
  | succ fuel ih =>
    intro h node i h' he
    unfold pruneFrom at he
    split at he
    · cases he
      exact Lifts.refl _
    · rename_i child hchild
      obtain ⟨h₁, h₁e, he⟩ := Option.bind_eq_some_iff.1 he
      have hmem : child ∈ h.childrenOf node := List.mem_of_getElem? hchild
      exact (pruneChild_lifts (ih h child 0 h₁ h₁e) hmem i).trans (ih _ node _ h' he)

/-- A stack with room for the levels of the tree is enough for `Prune_`. -/
theorem pruneWithin_eq (fuel : Nat) : ∀ (levels : Nat) (h : Heap) (node : Ptr) (i : Nat),
    Within h.childrenOf levels node → pruneWithin fuel levels h node i = pruneFrom fuel h node i := by
  induction fuel with
  | zero => exact fun _ _ _ _ _ => rfl
  | succ fuel ih =>
    intro levels h node i hw
    cases levels with
    | zero => exact hw.elim
    | succ levels =>
      unfold pruneWithin pruneFrom
      cases hchild : (h.cell node).children[i]? with
      | none => rfl
      | some child =>
        have hmem : child ∈ h.childrenOf node := List.mem_of_getElem? hchild
        dsimp only
        rw [ih levels h child 0 (hw child hmem)]
        cases hrec : pruneFrom fuel h child 0 with
        | none => rfl
        | some h₁ =>
          rw [Option.bind_some, Option.bind_some]
          apply ih
          exact (pruneChild_lifts (pruneFrom_lifts fuel h child 0 h₁ hrec) hmem i).within hw

theorem pruneFrom_mono (fuel : Nat) : ∀ (h : Heap) (node : Ptr) (i : Nat) (h' : Heap) (n : Nat), fuel ≤ n →
    pruneFrom fuel h node i = some h' → pruneFrom n h node i = some h' := by
  induction fuel with
  | zero => exact fun _ _ _ _ _ _ he => by cases he
  | succ fuel ih =>
    intro h node i h' n hn he
    obtain ⟨n, rfl⟩ : ∃ k, n = k + 1 := ⟨n - 1, by omega⟩
    unfold pruneFrom at he ⊢
    cases hchild : (h.cell node).children[i]? with
    | none =>
      rw [hchild] at he
      exact he
    | some child =>
      rw [hchild] at he
      dsimp only at he ⊢
      obtain ⟨h₁, h₁e, he⟩ := Option.bind_eq_some_iff.1 he
      rw [ih h child 0 h₁ n (by omega) h₁e, Option.bind_some]
      exact ih _ node _ h' n (by omega) he

/-! ## Sorting -/

theorem setChildren_lifts {h : Heap} (node : Ptr) {children : List Ptr}
    (hperm : children.Perm (h.childrenOf node)) :
    Lifts h.childrenOf (h.setChildren node children).childrenOf := by
  apply Lifts.of_subset
  intro q c hc
  unfold childrenOf at hc ⊢
  rw [children_setChildren] at hc
  split at hc
  · rename_i hq
    rw [hq]
    exact hperm.mem_iff.1 hc
  · exact hc

/-- A stack with room for the levels of the tree is enough for the sort. -/
theorem sortChildrenRecursively_within (n : Nat) : ∀ (h : Heap) (node : Ptr), Within h.childrenOf n node →
    ∃ h', sortChildrenRecursively n h node = some h' ∧ Lifts h.childrenOf h'.childrenOf := by
  induction n with
  | zero => exact fun _ _ hw => hw.elim
  | succ n ih =>
    -- the loop over the children, which the earlier ones leave as deep as they were
    have hloop : ∀ (nodes : List Ptr) (h : Heap), (∀ c ∈ nodes, Within h.childrenOf n c) →
        ∃ h', nodes.foldlM (sortChildrenRecursively n) h = some h' ∧ Lifts h.childrenOf h'.childrenOf := by
      intro nodes
      induction nodes with
      | nil => exact fun h _ => ⟨h, rfl, Lifts.refl _⟩
      | cons c rest ihrest =>
        intro h hw
        obtain ⟨h₁, he₁, hl₁⟩ := ih h c (hw c List.mem_cons_self)
        obtain ⟨h₂, he₂, hl₂⟩ := ihrest h₁ fun x hx => hl₁.within (hw x (List.mem_cons_of_mem c hx))
        refine ⟨h₂, ?_, hl₁.trans hl₂⟩
        rw [List.foldlM_cons, he₁]
        exact he₂
    intro h node hw
    have hperm := stableSortByDate_perm h (h.cell node).children
    have hl := setChildren_lifts node hperm
    obtain ⟨h', he, hl'⟩ := hloop (stableSortByDate h (h.cell node).children) _
      fun c hc => hl.within (hw c (hperm.mem_iff.1 hc))
    exact ⟨h', he, hl.trans hl'⟩

theorem sortChildrenRecursively_mono (n : Nat) : ∀ (h : Heap) (node : Ptr) (h' : Heap) (m : Nat), n ≤ m →
    sortChildrenRecursively n h node = some h' → sortChildrenRecursively m h node = some h' := by
  induction n with
  | zero => exact fun _ _ _ _ _ he => by cases he
  | succ n ih =>
    intro h node h' m hm he
    obtain ⟨m, rfl⟩ : ∃ k, m = k + 1 := ⟨m - 1, by omega⟩
    have hloop : ∀ (nodes : List Ptr) (h h' : Heap), nodes.foldlM (sortChildrenRecursively n) h = some h' →
        nodes.foldlM (sortChildrenRecursively m) h = some h' := by
      intro nodes
      induction nodes with
      | nil => exact fun _ _ he => he
      | cons c rest ihrest =>
        intro h h' he
        rw [List.foldlM_cons] at he ⊢
        obtain ⟨h₁, he₁, he⟩ := Option.bind_eq_some_iff.1 he
        rw [ih h c h₁ m (by omega) he₁]
        exact ihrest h₁ h' he
    exact hloop _ _ h' he

theorem sortWithin_eq {levels : Nat} {h : Heap} {node : Ptr} (hw : Within h.childrenOf levels node) (fuel : Nat) :
    sortWithin fuel levels h node = sortChildrenRecursively fuel h node := by
  obtain ⟨h', he, -⟩ := sortChildrenRecursively_within levels h node hw
  unfold sortWithin
  rcases Nat.le_total fuel levels with hle | hle
  · rw [Nat.min_eq_left hle]
  · rw [Nat.min_eq_right hle, he, sortChildrenRecursively_mono levels h node h' fuel hle he]

/-- The sorted heap is as deep as the one that was sorted. -/
theorem sortChildrenRecursively_lifts {levels : Nat} {h : Heap} {node : Ptr} (hw : Within h.childrenOf levels node)
    {fuel : Nat} {h' : Heap} (he : sortChildrenRecursively fuel h node = some h') :
    Lifts h.childrenOf h'.childrenOf := by
  obtain ⟨t, ht, hl⟩ := sortChildrenRecursively_within levels h node hw
  have h1 := sortChildrenRecursively_mono levels h node t (max fuel levels) (by omega) ht
  have h2 := sortChildrenRecursively_mono fuel h node h' (max fuel levels) (by omega) he
  rw [h1] at h2
  cases h2
  exact hl

/-! ## Rendering -/

theorem renderBranches_congr {f g : Ptr → WString → Option WString} (children : List Ptr) :
    (∀ c ∈ children, ∀ out, f c out = g c out) → ∀ out, renderBranches f children out = renderBranches g children out := by
  induction children with
  | nil => exact fun _ _ => rfl
  | cons c rest ih =>
    intro hfg out
    unfold renderBranches at ih ⊢
    rw [List.foldlM_cons, List.foldlM_cons, hfg c List.mem_cons_self]
    exact congrArg _ (funext fun out => ih (fun x hx => hfg x (List.mem_cons_of_mem c hx)) out)

/-- A stack with room for the levels of the tree is enough for `RenderContainer_`. -/
theorem renderWithin_eq (h : Heap) (useUid : Bool) (fuel : Nat) :
    ∀ (levels : Nat) (current : Ptr) (first : Bool) (out : WString), Within h.childrenOf levels current →
      renderWithin h useUid fuel levels current first out = renderFrom h useUid fuel current first out := by
  induction fuel with
  | zero => exact fun _ _ _ _ _ => rfl
  | succ fuel ih =>
    intro levels current first out hw
    cases levels with
    | zero => exact hw.elim
    | succ levels =>
      have hbranches : ∀ out, renderBranches (fun c out => renderWithin h useUid fuel levels c true out)
            (h.cell current).children out =
          renderBranches (fun c out => renderFrom h useUid fuel c true out) (h.cell current).children out :=
        renderBranches_congr _ fun c hc out => ih levels c true out (hw c hc)
      unfold renderWithin renderFrom
      cases hmessage : (h.cell current).message with
      | none =>
        dsimp only
        rw [hbranches]
      | some m =>
        dsimp only
        generalize hchildren : (h.cell current).children = children at hbranches
        match children, hchildren with
        | [], _ => rfl
        | [child], hchildren =>
          have hc : child ∈ h.childrenOf current := by
            unfold childrenOf
            rw [hchildren]
            exact List.mem_cons_self
          exact ih (levels + 1) child false _ (hw child hc).succ
        | a :: b :: rest, _ => exact hbranches _

end HMailServer.Thread
