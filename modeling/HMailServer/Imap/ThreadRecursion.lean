import HMailServer.Imap.ThreadDepth
import HMailServer.Imap.ThreadWithin
import HMailServer.Imap.ThreadResponse

/- How deep the walks of `BuildThreads` call themselves. Under the virtual root the
   chains of the linking phase are one longer, and a walk nests no deeper than the
   longest of them. Subject grouping makes further links: they fit where a thread
   that is filed one level lower leaves that level free (`FilingFits`). -/
namespace HMailServer.Thread
open PointerForest Forest Nesting ParentChain Heap

/-! ## Under the virtual root -/

/-- A container keeps its parent, or gets the virtual root. -/
theorem attachRoots_parentOf (h : Heap) (x : Ptr) :
    (attachRoots h).parentOf x = h.parentOf x ∨ (attachRoots h).parentOf x = some .virtualRoot := by
  unfold attachRoots
  induction h.size with
  | zero => exact .inl rfl
  | succ n ih =>
    rw [List.range_succ, List.foldl_append, List.foldl_cons, List.foldl_nil]
    generalize (List.range n).foldl attachRoot h = t at ih ⊢
    unfold attachRoot
    split
    · unfold parentOf at ih ⊢
      rw [attachChild_parent]
      split
      · exact .inr rfl
      · exact ih
    · exact ih

/-- Below the virtual root the chains are those of the linking phase. -/
theorem attachRoots_ancestor {h : Heap} (hroot : (attachRoots h).parentOf .virtualRoot = none) (n : Nat) :
    ∀ {x r : Ptr}, r ≠ .virtualRoot → ancestor (attachRoots h).parentOf n x = some r →
      ancestor h.parentOf n x = some r := by
  induction n with
  | zero => exact fun _ hx => hx
  | succ n ih =>
    intro x r hr hx
    obtain ⟨y, hy, hyr⟩ := Option.bind_eq_some_iff.1 hx
    rcases attachRoots_parentOf h x with he | he
    · rw [he] at hy
      rw [ancestor_succ_of hy]
      exact ih hr hyr
    · -- the virtual root links no further
      rw [he] at hy
      cases hy
      cases n with
      | zero =>
        cases hyr
        exact absurd rfl hr
      | succ n =>
        rw [ancestor_succ_none hroot] at hyr
        cases hyr

theorem Holds.within_iff {h : Heap} {F : Forest Ptr} (hF : Holds h F) {n : Nat} :
    (∀ r ∈ roots F, Within h.childrenOf n r) ↔ height F ≤ n :=
  hF.linked.within_iff

/-- The tree that the later phases work on has the levels of the longest chain,
and the virtual root. -/
theorem attachRoots_within {s : LoadState} {loaded : List (Nat × Message)} (hs : LoadInv s loaded)
    (hb : ChainsBounded s.heap) : Within (attachRoots s.heap).childrenOf (kMaxThreadDepth + 2) .virtualRoot := by
  obtain ⟨F, hF, -, -, hpar⟩ := attachRoots_rooted hs
  have hheight : height F ≤ kMaxThreadDepth + 1 := by
    by_contra hlt
    obtain ⟨n, hn⟩ : ∃ n, height F = n + 1 := ⟨height F - 1, by omega⟩
    obtain ⟨x, r, hr, hx⟩ := hF.linked.deepest hn
    have hne : r ≠ .virtualRoot := fun e => hF.notIn (e ▸ roots_subset_nodes F r hr)
    have hchain : ancestor s.heap.parentOf n x = some r := attachRoots_ancestor hpar n hne hx
    have hshort : ancestor s.heap.parentOf (kMaxThreadDepth + 1) x ≠ none := by
      intro hnone
      rw [ancestor_none_mono hnone (by omega)] at hchain
      cases hchain
    exact hshort (hb x)
  have hH := (rooted_iff hpar).mp hF
  apply hH.within_iff.2 ?_ .virtualRoot (by simp)
  rw [height_tree]
  omega

/-! ## Subject grouping -/

/-- Filing `root` leaves room for the level that what is filed goes down by. Two
dummies take no level: the one's children go over to the other. -/
def FilingFits (s : GroupState) (root : Ptr) : Prop :=
  ∀ table, s.bySubject (threadSubjectKey s.heap root) = some table → table ≠ root →
    let h := detachFromParent s.heap root
    ((h.cell table).message.isNone ∧ (h.cell root).message.isNone) ∨
      (Within h.childrenOf kMaxThreadDepth root ∧
        ((h.cell table).message.isNone ∨ (threadIsReply h root ∧ threadIsReply h table = false) ∨
          Within h.childrenOf kMaxThreadDepth table))

/-- Every thread that the second pass files fits. -/
def FilingsFit : GroupState → List Ptr → Prop
  | _, [] => True
  | s, root :: rest => FilingFits s root ∧ ∀ s', groupRoot s root = some s' → FilingsFit s' rest

/-- Every thread that subject grouping files fits. -/
def GroupingFits (h : Heap) : Prop :=
  FilingsFit ⟨h, (h.cell .virtualRoot).children.foldl (chooseTable h) fun _ => none⟩ (h.cell .virtualRoot).children

theorem detachFromParent_lifts (h : Heap) (node : Ptr) :
    Lifts h.childrenOf (detachFromParent h node).childrenOf := by
  apply Lifts.of_subset
  intro q c hc
  unfold childrenOf at hc ⊢
  rw [detachFromParent_children] at hc
  split at hc
  · exact List.mem_of_mem_erase hc
  · exact hc

theorem Holds.within_tree {h : Heap} {F : Forest Ptr} {p : Ptr} {b : Forest Ptr} (hF : Holds h F)
    {par : Option Ptr} (hb : Linked h.links par (tree p b)) {n : Nat} (hw : Within h.childrenOf n p) :
    height b + 1 ≤ n := by
  rw [← height_tree p b]
  exact hb.within_iff.1 fun r hr => by rwa [List.mem_singleton.1 hr]

/-- A node of the tree is the root of a lower one. -/
theorem Linked.under_root {l : Links Ptr} {F : Forest Ptr} : ∀ {par : Option Ptr}, Linked l par F →
    ∀ p ∈ nodes F, p ∈ roots F ∨ ∃ r ∈ roots F, Under l.children r p := by
  induction F with
  | nil => exact fun _ p hp => absurd hp List.not_mem_nil
  | cons q b r ihb ihr =>
    intro par h p hp
    obtain ⟨-, hc, hb, hr⟩ := h
    rcases List.mem_cons.1 hp with rfl | hp
    · exact .inl List.mem_cons_self
    · rcases List.mem_append.1 hp with hp | hp
      · refine .inr ⟨q, List.mem_cons_self, ?_⟩
        rcases ihb hb p hp with hroot | ⟨y, hy, hyp⟩
        · exact .single (by rw [hc]; exact hroot)
        · exact .head (by rw [hc]; exact hy) hyp
      · rcases ihr hr p hp with hroot | ⟨y, hy, hyp⟩
        · exact .inl (List.mem_cons_of_mem q hroot)
        · exact .inr ⟨y, List.mem_cons_of_mem q hy, hyp⟩

section
variable {key : Ptr → WString} {useUid : Bool} {numbers : List Nat} {r : Ptr} {rest : List Ptr} {s : GroupState}

/-- A waiting thread is one level down at least. -/
theorem GroupInv.root_within (hs : GroupInv key useUid numbers (r :: rest) s) {n : Nat}
    (hw : Within s.heap.childrenOf (n + 1) .virtualRoot) : Within s.heap.childrenOf n r := by
  obtain ⟨F, hF, -, htodo, -, -⟩ := hs.forest
  have hlinked := hF.linked
  obtain ⟨-, hc, hl⟩ := linked_tree.1 hlinked
  apply hw.under
  rcases Linked.under_root hlinked r (by rw [nodes_tree]; exact List.mem_cons_of_mem _ (htodo r List.mem_cons_self)) with
    hroot | ⟨v, hv, hvr⟩
  · have hn := hF.nodup
    rw [nodes_tree, List.nodup_cons] at hn
    rw [roots_tree, List.mem_singleton] at hroot
    exact absurd (htodo r List.mem_cons_self) (hroot ▸ hn.1)
  · rw [roots_tree, List.mem_singleton] at hv
    exact hv ▸ hvr

/-- One thread of the second pass: what is filed one level lower fits there. -/
theorem groupRoot_within (hs : GroupInv key useUid numbers (r :: rest) s)
    (hw : Within s.heap.childrenOf (kMaxThreadDepth + 2) .virtualRoot) (hfit : FilingFits s r) {s' : GroupState}
    (he : groupRoot s r = some s') : Within s'.heap.childrenOf (kMaxThreadDepth + 2) .virtualRoot := by
  have hkey := hs.keys r (by simp)
  have hrw := hs.root_within hw
  rw [groupRoot] at he
  unfold FilingFits at hfit
  rw [hkey] at he hfit
  by_cases hempty : key r = []
  · rw [hempty] at he
    cases he
    exact hw
  · rw [if_neg (by simpa using hempty)] at he
    obtain ⟨t, ht, he⟩ := Option.bind_eq_some_iff.1 he
    split at he
    · cases he
      exact hw
    · rename_i hne
      obtain ⟨A, B, hT⟩ := hs.takenOut ht hne
      have hlifts := detachFromParent_lifts s.heap r
      have hfit := hfit t ht hne
      dsimp only at he hfit
      generalize detachFromParent s.heap r = h at hT hlifts he hfit
      obtain ⟨hV, hR⟩ := linked_append.1 hT.holds.linked
      obtain ⟨-, hnA, -⟩ := hT.holds.apart
      have htA := hT.roots _ _ ht
      have hA : height A + 1 ≤ kMaxThreadDepth + 2 := hT.holds.within_tree hV (hlifts.within hw)
      have hB : height B + 1 ≤ kMaxThreadDepth + 1 := hT.holds.within_tree hR (hlifts.within hrw)
      have hend : ∀ {h' : Heap} {F : Forest Ptr}, Holds h' (tree .virtualRoot F) → height F ≤ kMaxThreadDepth + 1 →
          Within h'.childrenOf (kMaxThreadDepth + 2) .virtualRoot := by
        intro h' F hF hle
        apply hF.within_iff.2 ?_ .virtualRoot (by simp)
        rw [height_tree]
        omega
      -- the thread goes under the table entry
      have hattach : Within h.childrenOf kMaxThreadDepth r →
          Within (attachChild h t r).childrenOf (kMaxThreadDepth + 2) .virtualRoot := by
        intro hr
        have hB' := hT.holds.within_tree hR hr
        have hg := height_graft_root (tree r B) hnA htA
        rw [height_tree] at hg
        exact hend (hT.holds.fileUnder (roots_subset_nodes A t htA)) (by omega)
      split at he
      · cases he
        obtain ⟨A', hH, -, hheight, -⟩ := adoptChildren_spec hT.holds (roots_subset_nodes A t htA)
        have hA' := hheight htA
        have hH' : Holds (adoptChildren h t r) (tree .virtualRoot A') := by
          refine ⟨(linked_append.1 hH.linked).1, ?_⟩
          have hn := hH.nodup
          rw [nodes_append, List.nodup_append] at hn
          exact hn.1
        exact hend hH' (by omega)
      · rename_i hdummies
        have hfit := hfit.resolve_left fun hd => hdummies (by rw [hd.1, hd.2]; rfl)
        split at he
        · cases he
          exact hattach hfit.1
        · rename_i htable
          split at he
          · cases he
            exact hattach hfit.1
          · rename_i hreply
            cases he
            have ht' : Within h.childrenOf kMaxThreadDepth t := by
              rcases hfit.2 with hd | hd | hd
              · exact absurd hd htable
              · exact absurd (by rw [hd.1, hd.2]; rfl) hreply
              · exact hd
            obtain ⟨A₁, C, A₂, rfl⟩ := split_root htA
            obtain ⟨-, hH, -⟩ := sideBySide_spec hT.holds fun p hp => by
              rw [List.mem_append, nodes_tree r, List.mem_cons] at hp
              exact (hT.same.owned p).2 (hT.owned p hp)
            have hC := hT.holds.within_tree
              (linked_append.1 (linked_append.1 (linked_tree.1 hV).2.2).1).2 ht'
            have hB' := hT.holds.within_tree hR hfit.1
            apply hend hH
            simp only [height_append, height_tree] at hA ⊢
            omega

theorem groupRoots_within (todo : List Ptr) : ∀ s, GroupInv key useUid numbers todo s →
    Within s.heap.childrenOf (kMaxThreadDepth + 2) .virtualRoot → FilingsFit s todo →
    ∀ s', todo.foldlM groupRoot s = some s' → Within s'.heap.childrenOf (kMaxThreadDepth + 2) .virtualRoot := by
  induction todo with
  | nil =>
    intro s _ hw _ s' he
    cases he
    exact hw
  | cons r rest ih =>
    intro s hs hw hfit s' he
    obtain ⟨s₁, he₁, hs₁⟩ := groupRoot_inv hs
    rw [List.foldlM_cons, he₁] at he
    exact ih s₁ hs₁ (groupRoot_within hs hw hfit.1 he₁) (hfit.2 s₁ he₁) s' he

end

/-! ## The whole build -/

/-- The threads before subject grouping. -/
def ungrouped (fuel : Nat) (s : LoadState) : Option Heap := do
  let h ← prune fuel (attachRoots s.heap) .virtualRoot
  sortChildrenRecursively fuel h .virtualRoot

/-- The same, with room for `levels` calls under the one for the virtual root. -/
def ungroupedWithin (fuel levels : Nat) (s : LoadState) : Option Heap := do
  let h ← pruneWithin fuel (levels + 1) (attachRoots s.heap) .virtualRoot 0
  sortWithin fuel (levels + 1) h .virtualRoot

def renderRootsWithin (h : Heap) (useUid : Bool) (fuel levels : Nat) : Option WString :=
  (h.cell .virtualRoot).children.foldlM
    (fun responseBody root =>
      (renderWithin h useUid fuel levels root true
        (responseBody ++ if responseBody.isEmpty then wide " (" else wide "(")).map (· ++ wide ")"))
    []

/-- `BuildThreads` under REFERENCES, with room for `levels` calls under the one for
the virtual root. -/
def buildThreadsWithin (fuel levels : Nat) (env : Environment) (messages : List (Nat × Message)) (useUid : Bool)
    (abortRequested : Nat → Bool) : Option (Bool × WString) :=
  if messages.isEmpty then some (true, [])
  else
    match loadMessages env .references abortRequested 0 .initial messages with
    | none => some (false, [])
    | some s => do
      let h ← ungroupedWithin fuel levels s
      let h ← groupBySubject h
      let h ← sortWithin fuel (levels + 1) h .virtualRoot
      let responseBody ← renderRootsWithin h useUid fuel levels
      some (true, responseBody)

theorem ungroupedWithin_eq {levels : Nat} {s : LoadState}
    (hw : Within (attachRoots s.heap).childrenOf (levels + 1) .virtualRoot) (fuel : Nat) :
    ungroupedWithin fuel levels s = ungrouped fuel s := by
  unfold ungroupedWithin ungrouped
  rw [pruneWithin_eq fuel _ _ _ 0 hw]
  show ((prune fuel (attachRoots s.heap) .virtualRoot).bind fun h => sortWithin fuel (levels + 1) h .virtualRoot) =
    (prune fuel (attachRoots s.heap) .virtualRoot).bind fun h => sortChildrenRecursively fuel h .virtualRoot
  cases hp : prune fuel (attachRoots s.heap) .virtualRoot with
  | none => rfl
  | some h => exact sortWithin_eq ((pruneFrom_lifts fuel _ _ 0 h hp).within hw) fuel

theorem ungrouped_lifts {levels : Nat} {s : LoadState}
    (hw : Within (attachRoots s.heap).childrenOf levels .virtualRoot) {fuel : Nat} {h : Heap}
    (he : ungrouped fuel s = some h) : Within h.childrenOf levels .virtualRoot := by
  obtain ⟨t, ht, he⟩ := Option.bind_eq_some_iff.1 he
  have hwt := (pruneFrom_lifts fuel _ _ 0 t ht).within hw
  exact (sortChildrenRecursively_lifts hwt he).within hwt

/-- The threads that subject grouping starts from are a forest in the arena. -/
theorem ungrouped_rooted {s : LoadState} {loaded : List (Nat × Message)} (hs : LoadInv s loaded) {fuel : Nat}
    {h : Heap} (he : ungrouped fuel s = some h) :
    ∃ F, Rooted h F ∧ (h.cell .virtualRoot).parent = none ∧ SameContent s.heap h ∧ ∀ p ∈ nodes F, h.Owned p := by
  obtain ⟨F₁, hF₁, hmem, hsame₁, hpar₁⟩ := attachRoots_rooted hs
  obtain ⟨h₂, F₂, ⟨N, hN⟩, hF₂, hsame₂, hpar₂, hsub, -⟩ := prune_spec hF₁
  obtain ⟨h₃, F₃, ⟨M, hM⟩, hF₃, hsame₃, hpar₃, hperm₃⟩ := sortChildrenRecursively_spec hF₂ (hpar₂.trans hpar₁)
  obtain ⟨t, ht, he⟩ := Option.bind_eq_some_iff.1 he
  have ht' := pruneFrom_mono fuel _ _ 0 t (max fuel N) (by omega) ht
  have hN' : pruneFrom (max fuel N) (attachRoots s.heap) .virtualRoot 0 = some h₂ := hN (max fuel N) (by omega)
  rw [hN'] at ht'
  cases ht'
  have he' := sortChildrenRecursively_mono fuel _ _ h (max fuel M) (by omega) he
  have hM' : sortChildrenRecursively (max fuel M) h₂ .virtualRoot = some h₃ := hM (max fuel M) (by omega)
  rw [hM'] at he'
  cases he'
  have hsame := (hsame₁.trans hsame₂).trans hsame₃
  refine ⟨F₃, hF₃, hpar₃, hsame, fun p hp => ?_⟩
  rw [hsame.owned, ← hmem]
  exact hsub.subset (hperm₃.mem_iff.1 hp)

theorem groupBySubject_within {s : LoadState} {loaded : List (Nat × Message)} (hs : LoadInv s loaded) {fuel : Nat}
    {h h' : Heap} (he : ungrouped fuel s = some h)
    (hw : Within h.childrenOf (kMaxThreadDepth + 2) .virtualRoot) (hfits : GroupingFits h)
    (he' : groupBySubject h = some h') : Within h'.childrenOf (kMaxThreadDepth + 2) .virtualRoot := by
  obtain ⟨F, hF, hpar, -, hown⟩ := ungrouped_rooted hs he
  have hstart := groupInv_start hF hpar hown true
  unfold GroupingFits at hfits
  unfold groupBySubject at he'
  rw [hF.children] at hfits he'
  obtain ⟨s', hs', rfl⟩ := Option.map_eq_some_iff.1 he'
  exact groupRoots_within (roots F) _ hstart hw hfits s' hs'

theorem renderRootsWithin_eq {levels : Nat} {h : Heap} (hw : Within h.childrenOf (levels + 1) .virtualRoot)
    (useUid : Bool) (fuel : Nat) : renderRootsWithin h useUid fuel levels = renderRoots h useUid fuel := by
  have hroots : ∀ r ∈ (h.cell .virtualRoot).children, Within h.childrenOf levels r := hw
  unfold renderRootsWithin renderRoots
  generalize (h.cell .virtualRoot).children = nodes at hroots
  generalize ([] : WString) = out
  induction nodes generalizing out with
  | nil => rfl
  | cons r rest ih =>
    rw [List.foldlM_cons, List.foldlM_cons, renderWithin_eq h useUid fuel levels r true _ (hroots r List.mem_cons_self)]
    exact congrArg _ (funext fun out => ih (fun x hx => hroots x (List.mem_cons_of_mem r hx)) out)

/-! ## A chain that is built from the bottom up -/

/-- The message id with `j + 1` letters. -/
def idOf (j : Nat) : WString := 60 :: (List.replicate (j + 1) 97 ++ [62])

/-- Message `j` answers a message that comes after it. -/
def answering (j : Nat) : Nat × Message :=
  (j + 1, { uid := j + 1, createTime := 0, messageId := idOf j, references := idOf (j + 1), inReplyTo := [],
            subject := [], date := [] })

theorem idOf_length (j : Nat) : (idOf j).length = j + 3 := by
  simp [idOf]

theorem idOf_injective {i j : Nat} (h : idOf i = idOf j) : i = j := by
  have hlength := congrArg List.length h
  rw [idOf_length, idOf_length] at hlength
  omega

theorem findIdx_letters (k : Nat) : (List.replicate k 97 ++ [62]).findIdx? (· == 62) = some k := by
  induction k with
  | zero => rfl
  | succ k ih =>
    rw [List.replicate_succ, List.cons_append, List.findIdx?_cons, ih]
    rfl

theorem extractMessageIds_idOf (j : Nat) : extractMessageIds (idOf j) = [idOf j] := by
  have hopen : WString.findFrom (idOf j) 60 0 = some 0 := rfl
  have hclose : WString.findFrom (idOf j) 62 1 = some (j + 2) := by
    show ((List.replicate (j + 1) 97 ++ [62]).findIdx? (· == 62)).map (· + 1) = some (j + 2)
    rw [findIdx_letters]
    rfl
  have hend : WString.findFrom (idOf j) 60 (j + 2 + 1) = none := by
    unfold WString.findFrom
    rw [List.drop_eq_nil_of_le (by rw [idOf_length])]
    rfl
  have hmid : WString.mid (idOf j) 0 (j + 2 - 0 + 1) = idOf j :=
    List.take_of_length_le (by rw [List.drop_zero, idOf_length]; omega)
  unfold extractMessageIds
  rw [extractIdsFrom, hopen]
  dsimp only
  rw [hclose]
  dsimp only
  rw [hmid, if_pos (by rw [idOf_length]; omega), idOf_length, extractIdsFrom, hend]

theorem extractFirstMessageId_idOf (j : Nat) : extractFirstMessageId (idOf j) = idOf j := by
  unfold extractFirstMessageId
  rw [extractMessageIds_idOf]
  rfl

theorem referencesOf_answering (j : Nat) : referencesOf (answering j).2 = [idOf (j + 1)] := by
  have hids : extractMessageIds (answering j).2.references = [idOf (j + 1)] := extractMessageIds_idOf (j + 1)
  unfold referencesOf
  rw [hids]
  rfl

/-- `j` containers hang in a chain under the container of the next message. -/
structure Climbing (s : LoadState) (j : Nat) : Prop where
  size : s.heap.size = j + 1
  table : ∀ i, s.byMessageId (idOf i) = if i ≤ j then some (.owned i) else none
  parent : ∀ i, s.heap.parentOf (.owned i) = if i < j then some (.owned (i + 1)) else none
  waiting : (s.heap.cell (.owned j)).message = none

theorem canLink_of_root {h : Heap} {p c : Ptr} (hne : p ≠ c) (hroot : h.parentOf p = none) :
    canLink h p c = true := by
  have hroot' : (h.cell p).parent = none := hroot
  have hclimb : isSelfOrAncestor h c p = false := by
    unfold isSelfOrAncestor
    rw [climbsTo, if_neg hne, if_neg (by decide), hroot']
    rfl
  have hdepth : depthOf h p = 1 := by
    unfold depthOf
    rw [depthFrom, if_neg (by decide), hroot']
    rfl
  unfold canLink
  rw [if_neg hne, hclimb, hdepth]
  rfl

/-- What is left when message `j` is stored, in front of its own link. -/
def stored (env : Environment) (s : LoadState) (j : Nat) : Heap :=
  (fillContainer env s.heap (.owned j) (answering j).1 (answering j).2).makeContainer.1

theorem stored_parentOf (env : Environment) {s : LoadState} {j : Nat} (hs : Climbing s j) (i : Nat) :
    (stored env s j).parentOf (.owned i) = if i < j then some (.owned (i + 1)) else none := by
  have hp := hs.parent i
  rw [← parentOf_fillContainer env s.heap (.owned j) (answering j).1 (answering j).2] at hp
  have hsize : (fillContainer env s.heap (.owned j) (answering j).1 (answering j).2).size = j + 1 := hs.size
  unfold stored
  unfold parentOf at hp ⊢
  rw [cell_makeContainer, hsize]
  split
  · rename_i hi
    injection hi with hi
    rw [if_neg (by omega)]
  · exact hp

/-- The message takes the waiting container, and goes under a new one. -/
theorem loadMessage_answering (env : Environment) {s s' : LoadState} {j : Nat}
    (hown : ownContainer s (idOf j) = (s', .owned j)) (hs : Climbing s' j) :
    loadMessage env .references s (answering j) =
      { heap := attachChild (detachFromParent (stored env s' j) (.owned j)) (.owned (j + 1)) (.owned j)
        byMessageId := assign s'.byMessageId (idOf (j + 1)) (.owned (j + 1))
        searchedContainers := s'.searchedContainers ++ [.owned j] } := by
  have hne : Ptr.owned (j + 1) ≠ .owned j := fun h => by injection h; omega
  have hmissing : s'.byMessageId (idOf (j + 1)) = none := by rw [hs.table, if_neg (by omega)]
  have hid : extractFirstMessageId (answering j).2.messageId = idOf j := extractFirstMessageId_idOf j
  have hlink : canLink (stored env s' j) (.owned (j + 1)) (.owned j) = true :=
    canLink_of_root hne (by rw [stored_parentOf env hs, if_neg (by omega)])
  have hfresh : (fillContainer env s'.heap (.owned j) (answering j).1 (answering j).2).makeContainer.2 =
      .owned (j + 1) := congrArg Ptr.owned hs.size
  unfold loadMessage
  rw [hid, hown]
  dsimp only
  rw [referencesOf_answering, linkReferences, referencedContainer]
  dsimp only
  rw [hmissing]
  dsimp only
  rw [linkReferences, linkOwn]
  dsimp only
  rw [hfresh]
  exact if_pos hlink

/-- The new container waits for the message that is answered. -/
theorem loadMessage_climbs (env : Environment) {s s' : LoadState} {j : Nat}
    (hown : ownContainer s (idOf j) = (s', .owned j)) (hs : Climbing s' j) :
    Climbing (loadMessage env .references s (answering j)) (j + 1) := by
  rw [loadMessage_answering env hown hs]
  refine ⟨?_, ?_, ?_, ?_⟩
  · show (attachChild (detachFromParent (stored env s' j) (.owned j)) (.owned (j + 1)) (.owned j)).size = _
    rw [attachChild_size, detachFromParent_size]
    exact congrArg (· + 1) hs.size
  · intro i
    show (if idOf i = idOf (j + 1) then some (Ptr.owned (j + 1)) else s'.byMessageId (idOf i)) = _
    by_cases hi : i = j + 1
    · rw [hi, if_pos rfl, if_pos le_rfl]
    · rw [if_neg fun he => hi (idOf_injective he), hs.table]
      exact if_congr (by omega) rfl rfl
  · intro i
    have hp := stored_parentOf env hs i
    unfold parentOf at hp ⊢
    rw [attachChild_parent, detachFromParent_parent, hp]
    by_cases hi : i = j
    · rw [if_pos (by rw [hi]), if_pos (by omega), hi]
    · have hne' : Ptr.owned i ≠ .owned j := fun h => hi (by injection h)
      rw [if_neg hne', if_neg hne']
      exact if_congr (by omega) rfl rfl
  · show ((attachChild (detachFromParent (stored env s' j) (.owned j)) (.owned (j + 1)) (.owned j)).cell
      (.owned (j + 1))).message = none
    have hsize : (fillContainer env s'.heap (.owned j) (answering j).1 (answering j).2).size = j + 1 := hs.size
    rw [(sameContent_attachChild _ _ _).message, (sameContent_detachFromParent _ _).message, stored, cell_makeContainer,
      hsize, if_pos rfl]

theorem ownContainer_climbs {s : LoadState} {j : Nat} (hs : Climbing s j) :
    ownContainer s (idOf j) = (s, .owned j) := by
  unfold ownContainer
  dsimp only
  rw [if_neg (by simp [idOf]), hs.table, if_pos le_rfl]
  dsimp only
  rw [hs.waiting]
  rfl

theorem ownContainer_initial : Climbing (ownContainer .initial (idOf 0)).1 0 := by
  refine ⟨rfl, fun i => ?_, fun i => ?_, rfl⟩
  · show (if idOf i = idOf 0 then some (Ptr.owned 0) else none) = _
    by_cases hi : i = 0
    · rw [hi]
      rfl
    · rw [if_neg fun he => hi (idOf_injective he), if_neg (by omega)]
  · rw [if_neg (by omega)]
    show (if Ptr.owned i = .owned 0 then ({} : ThreadContainer) else {}).parent = none
    split <;> rfl

theorem loadMessages_climb (env : Environment) (k : Nat) : ∀ (asked j : Nat) (s s' : LoadState),
    ownContainer s (idOf j) = (s', .owned j) → Climbing s' j →
    ∃ t, loadMessages env .references (fun _ => false) asked s ((List.range' j (k + 1)).map answering) = some t ∧
      Climbing t (j + k + 1) := by
  induction k with
  | zero => exact fun _ j s s' hown hs => ⟨_, rfl, loadMessage_climbs env hown hs⟩
  | succ k ih =>
    intro asked j s s' hown hs
    have hnext := loadMessage_climbs env hown hs
    obtain ⟨t, ht, hclimb⟩ := ih (asked + 1) (j + 1) _ _ (ownContainer_climbs hnext) hnext
    refine ⟨t, ht, ?_⟩
    rwa [show j + (k + 1) + 1 = j + 1 + k + 1 by omega]

/-- Messages that each answer the next one make a chain as long as they are many. -/
theorem answering_climbs (env : Environment) (k : Nat) :
    ∃ t, loadMessages env .references (fun _ => false) 0 .initial ((List.range' 0 (k + 1)).map answering) = some t ∧
      Climbing t (k + 1) := by
  obtain ⟨t, ht, hclimb⟩ := loadMessages_climb env k 0 0 .initial _ rfl ownContainer_initial
  rw [Nat.zero_add] at hclimb
  exact ⟨t, ht, hclimb⟩

theorem Climbing.ancestor {s : LoadState} {j : Nat} (hs : Climbing s j) (n : Nat) :
    ∀ {i : Nat}, i + n ≤ j → ParentChain.ancestor s.heap.parentOf n (.owned i) = some (.owned (i + n)) := by
  induction n with
  | zero => exact fun _ => rfl
  | succ n ih =>
    intro i hi
    have hp : s.heap.parentOf (.owned i) = some (.owned (i + 1)) := by rw [hs.parent, if_pos (by omega)]
    rw [ancestor_succ_of hp, ih (by omega), show i + 1 + n = i + (n + 1) by omega]

/-! ## How deep a run may go -/

/-- Nothing is filed where no thread has a subject. -/
theorem groupingFits_of_no_subject {h : Heap} (hkeys : ∀ p, (h.cell p).baseSubjectKey = []) : GroupingFits h := by
  have hkey : ∀ r, threadSubjectKey h r = [] := by
    intro r
    unfold threadSubjectKey
    split
    · exact hkeys r
    · split
      · exact hkeys _
      · rfl
  have htable : ∀ todo : List Ptr, todo.foldl (chooseTable h) (fun _ => none) = fun _ => none := by
    intro todo
    induction todo with
    | nil => rfl
    | cons r rest ih =>
      have hskip : chooseTable h (fun _ => none) r = fun _ => none := by
        unfold chooseTable
        rw [hkey]
        rfl
      rw [List.foldl_cons, hskip, ih]
  unfold GroupingFits
  rw [htable]
  generalize (h.cell .virtualRoot).children = todo
  induction todo with
  | nil => trivial
  | cons r rest ih =>
    refine ⟨fun _ ht _ => (by cases ht), fun s' he => ?_⟩
    have hskip : groupRoot ⟨h, fun _ => none⟩ r = some ⟨h, fun _ => none⟩ := by
      unfold groupRoot
      dsimp only
      rw [hkey]
      rfl
    rw [hskip] at he
    cases he
    exact ih

/-- A link between containers without parents fits. -/
theorem linkFits_of_unlinked {h : Heap} (hnone : ∀ x, h.parentOf x = none) (p c : Ptr) : LinkFits h p c := by
  have hend : ∀ (n : Nat) (x : Ptr), ancestor h.parentOf n x ≠ none → n = 0 := by
    intro n x hx
    cases n with
    | zero => rfl
    | succ n => exact absurd (ancestor_succ_none (hnone x) n) hx
  intro x k m hk hm
  have hk' := hend k x (by rw [hk]; exact Option.some_ne_none c)
  have hm' := hend m p hm
  rw [hk', hm']
  decide


end HMailServer.Thread
