import Mathlib

/- Ordered forests kept as parent and child pointers. `Forest P` is the
   mathematical object, in first-child / next-sibling form so that plain
   induction goes over it; `Linked l par F` says that the pointers `l` hold the
   forest `F`, its roots having parent `par`. Taking a subtree out (`cut`) and
   hanging one in (`graft`) are defined on forests, and each is proved to be what
   the corresponding pointer update does, and to lose or invent no node. -/
namespace PointerForest
variable {P : Type}

inductive Forest (P : Type) where
  | nil : Forest P
  | cons : P → Forest P → Forest P → Forest P

namespace Forest

/-- All nodes, in preorder. -/
def nodes : Forest P → List P
  | nil => []
  | cons p below rest => p :: (nodes below ++ nodes rest)

def roots : Forest P → List P
  | nil => []
  | cons p _ rest => p :: roots rest

def append : Forest P → Forest P → Forest P
  | nil, G => G
  | cons p below rest, G => cons p below (append rest G)

instance : Append (Forest P) := ⟨append⟩

/-- The tree with root `p` and the given children. -/
def tree (p : P) (below : Forest P) : Forest P := cons p below nil

@[simp] theorem nil_append (F : Forest P) : nil ++ F = F := rfl

@[simp] theorem cons_append (p : P) (b r F : Forest P) : cons p b r ++ F = cons p b (r ++ F) := rfl

@[simp] theorem append_nil (F : Forest P) : F ++ nil = F := by
  induction F with
  | nil => rfl
  | cons p b r _ ih => rw [cons_append, ih]

theorem append_assoc (F G H : Forest P) : F ++ G ++ H = F ++ (G ++ H) := by
  induction F with
  | nil => rfl
  | cons p b r _ ih => simp only [cons_append, ih]

@[simp] theorem nodes_nil : nodes (nil : Forest P) = [] := rfl
@[simp] theorem roots_nil : roots (nil : Forest P) = [] := rfl
@[simp] theorem nodes_cons (p : P) (b r : Forest P) :
    nodes (cons p b r) = p :: (nodes b ++ nodes r) := rfl
@[simp] theorem roots_cons (p : P) (b r : Forest P) : roots (cons p b r) = p :: roots r := rfl

@[simp] theorem nodes_append (F G : Forest P) : nodes (F ++ G) = nodes F ++ nodes G := by
  induction F with
  | nil => rfl
  | cons p b r _ ih => simp [ih]

@[simp] theorem roots_append (F G : Forest P) : roots (F ++ G) = roots F ++ roots G := by
  induction F with
  | nil => rfl
  | cons p b r _ ih => simp [ih]

@[simp] theorem nodes_tree (p : P) (b : Forest P) : nodes (tree p b) = p :: nodes b := by
  simp [tree]

@[simp] theorem roots_tree (p : P) (b : Forest P) : roots (tree p b) = [p] := rfl

theorem cons_eq_append (p : P) (b r : Forest P) : cons p b r = tree p b ++ r := rfl

theorem roots_subset_nodes (F : Forest P) : ∀ p ∈ roots F, p ∈ nodes F := by
  induction F with
  | nil => intro p hp; simp at hp
  | cons q b r _ ih =>
    intro p hp
    rcases List.mem_cons.mp hp with rfl | hp
    · simp
    · simp [ih p hp]

theorem roots_sublist_nodes (F : Forest P) : (roots F).Sublist (nodes F) := by
  induction F with
  | nil => simp
  | cons q b r _ ih =>
    rw [roots_cons, nodes_cons]
    exact (ih.trans (List.sublist_append_right _ _)).cons_cons q

/-- A root splits the forest at its tree. -/
theorem split_root {F : Forest P} {p : P} (hp : p ∈ roots F) :
    ∃ F₁ b F₂, F = F₁ ++ tree p b ++ F₂ := by
  induction F with
  | nil => simp at hp
  | cons q b r _ ih =>
    rcases List.mem_cons.mp hp with rfl | hp
    · exact ⟨nil, b, r, rfl⟩
    · obtain ⟨F₁, b', F₂, rfl⟩ := ih hp
      exact ⟨cons q b F₁, b', F₂, rfl⟩

/-- The parts of a node list without repetitions, one level down. -/
theorem nodup_cons_parts {p : P} {b r : Forest P} (h : (nodes (cons p b r)).Nodup) :
    p ∉ nodes b ∧ p ∉ nodes r ∧ (nodes b).Nodup ∧ (nodes r).Nodup ∧
      ∀ x ∈ nodes b, x ∉ nodes r := by
  rw [nodes_cons, List.nodup_cons, List.mem_append, not_or, List.nodup_append] at h
  obtain ⟨⟨hb, hr⟩, hnb, hnr, hd⟩ := h
  exact ⟨hb, hr, hnb, hnr, fun x hx hx' => hd x hx x hx' rfl⟩

variable [DecidableEq P]

/-- The forest without the tree at `c`. -/
def cut (c : P) : Forest P → Forest P
  | nil => nil
  | cons p below rest => if p = c then cut c rest else cons p (cut c below) (cut c rest)

/-- The forest under `c`. -/
def under (c : P) : Forest P → Forest P
  | nil => nil
  | cons p below rest => if p = c then below else under c below ++ under c rest

/-- The forest with `G` hung in under `p`, behind the children `p` has. -/
def graft (p : P) (G : Forest P) : Forest P → Forest P
  | nil => nil
  | cons q below rest =>
    if q = p then cons q (below ++ G) (graft p G rest)
    else cons q (graft p G below) (graft p G rest)

theorem graft_tree_root (r : P) (G b : Forest P) : graft r G (tree r b) = tree r (b ++ G) := by
  simp [tree, graft]

theorem graft_tree {p r : P} (hne : p ≠ r) (G b : Forest P) :
    graft p G (tree r b) = tree r (graft p G b) := by
  simp [tree, graft, Ne.symm hne]

theorem cut_tree {c r : P} (hne : c ≠ r) (b : Forest P) : cut c (tree r b) = tree r (cut c b) := by
  simp [tree, cut, Ne.symm hne]

theorem cut_of_not_mem {c : P} {F : Forest P} (h : c ∉ nodes F) : cut c F = F := by
  induction F with
  | nil => rfl
  | cons p b r ihb ihr =>
    simp only [nodes_cons, List.mem_cons, List.mem_append, not_or] at h
    obtain ⟨hp, hb, hr⟩ := h
    rw [cut, if_neg (Ne.symm hp), ihb hb, ihr hr]

theorem under_of_not_mem {c : P} {F : Forest P} (h : c ∉ nodes F) : under c F = nil := by
  induction F with
  | nil => rfl
  | cons p b r ihb ihr =>
    simp only [nodes_cons, List.mem_cons, List.mem_append, not_or] at h
    obtain ⟨hp, hb, hr⟩ := h
    rw [under, if_neg (Ne.symm hp), ihb hb, ihr hr]
    rfl

theorem graft_of_not_mem {p : P} {F : Forest P} (G : Forest P) (h : p ∉ nodes F) :
    graft p G F = F := by
  induction F with
  | nil => rfl
  | cons q b r ihb ihr =>
    simp only [nodes_cons, List.mem_cons, List.mem_append, not_or] at h
    obtain ⟨hp, hb, hr⟩ := h
    rw [graft, if_neg (Ne.symm hp), ihb hb, ihr hr]

theorem cut_append (c : P) (F G : Forest P) : cut c (F ++ G) = cut c F ++ cut c G := by
  induction F with
  | nil => rfl
  | cons p b r _ ih =>
    rw [cons_append, cut, cut, ih]
    split <;> rfl

theorem graft_append (p : P) (G F H : Forest P) :
    graft p G (F ++ H) = graft p G F ++ graft p G H := by
  induction F with
  | nil => rfl
  | cons q b r _ ih =>
    rw [cons_append, graft, graft, ih]
    split <;> rfl

theorem under_append_left {c : P} (F : Forest P) {G : Forest P} (h : c ∉ nodes G) :
    under c (F ++ G) = under c F := by
  induction F with
  | nil => exact under_of_not_mem h
  | cons p b r _ ih => rw [cons_append, under, under, ih]

theorem under_append_right {c : P} {F : Forest P} (G : Forest P) (h : c ∉ nodes F) :
    under c (F ++ G) = under c G := by
  induction F with
  | nil => rfl
  | cons p b r _ ih =>
    simp only [nodes_cons, List.mem_cons, List.mem_append, not_or] at h
    rw [cons_append, under, if_neg (Ne.symm h.1), under_of_not_mem h.2.1, ih h.2.2, nil_append]

theorem under_tree {c r : P} (hne : c ≠ r) (b : Forest P) : under c (tree r b) = under c b := by
  simp [tree, under, Ne.symm hne]

@[simp] theorem under_tree_root (r : P) (b : Forest P) : under r (tree r b) = b := by
  simp [tree, under]

@[simp] theorem cut_tree_root (r : P) (b : Forest P) : cut r (tree r b) = nil := by
  simp [tree, cut]

@[simp] theorem roots_graft (p : P) (G F : Forest P) : roots (graft p G F) = roots F := by
  induction F with
  | nil => rfl
  | cons q b r _ ih =>
    rw [graft]
    split <;> simp [ih]

/-- Hanging a forest in adds its nodes and nothing else. -/
theorem nodes_graft {p : P} {F : Forest P} (G : Forest P) (h : (nodes F).Nodup)
    (hp : p ∈ nodes F) : (nodes (graft p G F)).Perm (nodes F ++ nodes G) := by
  induction F with
  | nil => simp at hp
  | cons q b r ihb ihr =>
    obtain ⟨hqb, hqr, hnb, hnr, hd⟩ := nodup_cons_parts h
    rw [graft]
    split
    · rename_i hq
      subst hq
      rw [graft_of_not_mem G hqr, nodes_cons, nodes_append, nodes_cons, List.cons_append]
      refine List.Perm.cons _ ?_
      rw [List.append_assoc, List.append_assoc]
      exact List.Perm.append_left _ List.perm_append_comm
    · rename_i hq
      rw [nodes_cons, nodes_cons, List.cons_append]
      refine List.Perm.cons _ ?_
      rcases List.mem_cons.mp hp with rfl | hp
      · exact absurd rfl hq
      · rcases List.mem_append.mp hp with hpb | hpr
        · rw [graft_of_not_mem G (hd p hpb), List.append_assoc]
          refine ((ihb hnb hpb).append_right _).trans ?_
          rw [List.append_assoc]
          exact List.Perm.append_left _ List.perm_append_comm
        · have hpb : p ∉ nodes b := fun hpb => hd p hpb hpr
          rw [graft_of_not_mem G hpb, List.append_assoc]
          exact (ihr hnr hpr).append_left _

/-- Taking a tree out loses no node: what is not left was in the tree. -/
theorem nodes_cut {c : P} {F : Forest P} (h : (nodes F).Nodup) (hc : c ∈ nodes F) :
    (nodes F).Perm (nodes (cut c F) ++ nodes (tree c (under c F))) := by
  induction F with
  | nil => simp at hc
  | cons q b r ihb ihr =>
    obtain ⟨hqb, hqr, hnb, hnr, hd⟩ := nodup_cons_parts h
    rw [cut, under]
    split
    · rename_i hq
      subst hq
      rw [cut_of_not_mem hqr, nodes_cons, nodes_tree]
      rw [← List.cons_append]
      exact List.perm_append_comm
    · rename_i hq
      rw [nodes_cons, nodes_cons, List.cons_append]
      refine List.Perm.cons _ ?_
      rcases List.mem_cons.mp hc with rfl | hc
      · exact absurd rfl hq
      · rcases List.mem_append.mp hc with hcb | hcr
        · have hcr := hd c hcb
          rw [cut_of_not_mem hcr, under_of_not_mem hcr, append_nil, List.append_assoc]
          refine ((ihb hnb hcb).append_right _).trans ?_
          rw [List.append_assoc]
          exact List.Perm.append_left _ List.perm_append_comm
        · have hcb : c ∉ nodes b := fun hcb => hd c hcb hcr
          rw [cut_of_not_mem hcb, under_of_not_mem hcb, nil_append, List.append_assoc]
          exact (ihr hnr hcr).append_left _

theorem roots_cut {c : P} {F : Forest P} (h : (nodes F).Nodup) :
    roots (cut c F) = (roots F).erase c := by
  induction F with
  | nil => rfl
  | cons q b r _ ih =>
    obtain ⟨-, hqr, -, hnr, -⟩ := nodup_cons_parts h
    rw [cut]
    split
    · rename_i hq
      subst hq
      rw [cut_of_not_mem hqr, roots_cons, List.erase_cons_head]
    · rename_i hq
      rw [roots_cons, roots_cons, List.erase_cons_tail (by simpa using hq), ih hnr]

end Forest

/-! ## Pointers that hold a forest -/

/-- The two pointer fields of every cell. -/
structure Links (P : Type) where
  parent : P → Option P
  children : P → List P

open Forest

/-- The pointers hold `F`, and its roots have parent `par`. -/
def Linked (l : Links P) (par : Option P) : Forest P → Prop
  | .nil => True
  | .cons p below rest =>
    l.parent p = par ∧ l.children p = roots below ∧ Linked l (some p) below ∧ Linked l par rest

theorem linked_append {l : Links P} {par : Option P} {F G : Forest P} :
    Linked l par (F ++ G) ↔ Linked l par F ∧ Linked l par G := by
  induction F with
  | nil => simp [Linked]
  | cons p b r _ ih => simp only [cons_append, Linked, ih, and_assoc]

theorem linked_tree {l : Links P} {par : Option P} {p : P} {b : Forest P} :
    Linked l par (tree p b) ↔ l.parent p = par ∧ l.children p = roots b ∧ Linked l (some p) b := by
  simp [tree, Linked]

/-- Only the cells of the forest matter. -/
theorem Linked.congr {l l' : Links P} {par : Option P} {F : Forest P} (h : Linked l par F)
    (hl : ∀ x ∈ nodes F, l'.parent x = l.parent x ∧ l'.children x = l.children x) :
    Linked l' par F := by
  induction F generalizing par with
  | nil => trivial
  | cons p b r ihb ihr =>
    obtain ⟨hp, hc, hb, hr⟩ := h
    obtain ⟨ep, ec⟩ := hl p (by simp)
    exact ⟨ep.trans hp, ec.trans hc, ihb hb (fun x hx => hl x (by simp [hx])),
      ihr hr (fun x hx => hl x (by simp [hx]))⟩

/-- Changing the parent of the roots alone moves the forest under another node. -/
theorem Linked.reparent {l l' : Links P} {par par' : Option P} {F : Forest P}
    (h : Linked l par F) (hn : (nodes F).Nodup)
    (hroot : ∀ x ∈ roots F, l'.parent x = par')
    (hin : ∀ x ∈ nodes F, x ∉ roots F → l'.parent x = l.parent x)
    (hchild : ∀ x ∈ nodes F, l'.children x = l.children x) : Linked l' par' F := by
  induction F with
  | nil => trivial
  | cons p b r _ ih =>
    obtain ⟨-, hpr, -, hnr, hd⟩ := nodup_cons_parts hn
    obtain ⟨hpb, -, -, -, -⟩ := nodup_cons_parts hn
    obtain ⟨-, hc, hb, hr⟩ := h
    refine ⟨hroot p (by simp), (hchild p (by simp)).trans hc, hb.congr ?_, ih hr hnr ?_ ?_ ?_⟩
    · intro x hx
      refine ⟨hin x (by simp [hx]) ?_, hchild x (by simp [hx])⟩
      intro hxr
      rcases List.mem_cons.mp hxr with rfl | hxr
      · exact hpb hx
      · exact hd x hx (roots_subset_nodes r x hxr)
    · exact fun x hx => hroot x (by simp [hx])
    · intro x hx hxr
      refine hin x (by simp [hx]) ?_
      intro hx'
      rcases List.mem_cons.mp hx' with rfl | hx'
      · exact hpr hx
      · exact hxr hx'
    · exact fun x hx => hchild x (by simp [hx])

theorem Linked.root_parent {l : Links P} {par : Option P} {F : Forest P} (h : Linked l par F) :
    ∀ x ∈ roots F, l.parent x = par := by
  induction F with
  | nil => intro x hx; simp at hx
  | cons p b r _ ih =>
    intro x hx
    rcases List.mem_cons.mp hx with rfl | hx
    · exact h.1
    · exact ih h.2.2.2 x hx

/-- The trees of a forest may be taken in any order. -/
theorem Linked.reorder {l : Links P} {par : Option P} {L M : List P} (hperm : L.Perm M) :
    ∀ F : Forest P, roots F = L → Linked l par F →
      ∃ G, roots G = M ∧ Linked l par G ∧ (nodes G).Perm (nodes F) := by
  induction hperm with
  | nil => exact fun F hF hl => ⟨F, hF, hl, .refl _⟩
  | cons x _ ih =>
    intro F hF hl
    cases F with
    | nil => cases hF
    | cons p b r =>
      injection hF with hp hr
      obtain ⟨G, hG, hlG, hn⟩ := ih r hr hl.2.2.2
      exact ⟨.cons p b G, by rw [roots_cons, hG, hp], ⟨hl.1, hl.2.1, hl.2.2.1, hlG⟩,
        (hn.append_left _).cons p⟩
  | swap x y t =>
    intro F hF hl
    cases F with
    | nil => cases hF
    | cons p b r =>
      cases r with
      | nil => cases hF
      | cons q c r =>
        injection hF with hp hF
        injection hF with hq hr
        obtain ⟨hl1, hl2, hl3, hl4, hl5, hl6, hl7⟩ := hl
        refine ⟨.cons q c (.cons p b r), by simp [hp, hq, hr],
          ⟨hl4, hl5, hl6, hl1, hl2, hl3, hl7⟩, ?_⟩
        rw [cons_eq_append, cons_eq_append, cons_eq_append p b (.cons q c r), cons_eq_append]
        simp only [nodes_append, ← List.append_assoc]
        exact List.perm_append_comm.append_right _
  | trans _ _ ih₁ ih₂ =>
    intro F hF hl
    obtain ⟨G, hG, hlG, hn⟩ := ih₁ F hF hl
    obtain ⟨H, hH, hlH, hn'⟩ := ih₂ G hG hlG
    exact ⟨H, hH, hlH, hn'.trans hn⟩

/-- A child pointer stays in the forest and is answered by a parent pointer. -/
theorem Linked.child {l : Links P} {par : Option P} {F : Forest P} (h : Linked l par F) {p c : P}
    (hp : p ∈ nodes F) (hc : c ∈ l.children p) : l.parent c = some p ∧ c ∈ nodes F := by
  induction F generalizing par with
  | nil => simp at hp
  | cons q b r ihb ihr =>
    obtain ⟨-, hcq, hb, hr⟩ := h
    rcases List.mem_cons.mp hp with rfl | hp
    · rw [hcq] at hc
      exact ⟨hb.root_parent c hc, by simp [roots_subset_nodes b c hc]⟩
    · rcases List.mem_append.mp hp with hp | hp
      · obtain ⟨h1, h2⟩ := ihb hb hp
        exact ⟨h1, by simp [h2]⟩
      · obtain ⟨h1, h2⟩ := ihr hr hp
        exact ⟨h1, by simp [h2]⟩

/-- A node that is no root has its parent in the forest, which lists it. -/
theorem Linked.inner {l : Links P} {par : Option P} {F : Forest P} (h : Linked l par F) {c : P}
    (hc : c ∈ nodes F) : c ∈ roots F ∨ ∃ p ∈ nodes F, l.parent c = some p ∧ c ∈ l.children p := by
  induction F generalizing par with
  | nil => simp at hc
  | cons q b r ihb ihr =>
    obtain ⟨-, hcq, hb, hr⟩ := h
    rcases List.mem_cons.mp hc with rfl | hc
    · exact .inl (by simp)
    · rcases List.mem_append.mp hc with hc | hc
      · rcases ihb hb hc with hroot | ⟨p, hp, h1, h2⟩
        · exact .inr ⟨q, by simp, hb.root_parent c hroot, by rw [hcq]; exact hroot⟩
        · exact .inr ⟨p, by simp [hp], h1, h2⟩
      · rcases ihr hr hc with hroot | ⟨p, hp, h1, h2⟩
        · exact .inl (by simp [hroot])
        · exact .inr ⟨p, by simp [hp], h1, h2⟩

/-- Every node of a tree climbs to its root. -/
theorem Linked.climbs {l : Links P} {par : Option P} {r : P} {b : Forest P}
    (h : Linked l par (tree r b)) : ∀ x ∈ nodes (tree r b),
      Relation.ReflTransGen (fun x y => l.parent x = some y) x r := by
  have hgen : ∀ (F : Forest P) (q : P), Linked l (some q) F → ∀ x ∈ nodes F,
      Relation.ReflTransGen (fun x y => l.parent x = some y) x q := by
    intro F
    induction F with
    | nil => intro q _ x hx; simp at hx
    | cons p b r ihb ihr =>
      intro q hF x hx
      obtain ⟨hp, -, hb, hr⟩ := hF
      rcases List.mem_cons.mp hx with rfl | hx
      · exact .single hp
      · rcases List.mem_append.mp hx with hx | hx
        · exact (ihb p hb x hx).tail hp
        · exact ihr q hr x hx
  intro x hx
  rcases List.mem_cons.mp (by simpa using hx) with rfl | hx
  · exact .refl
  · exact hgen b r (linked_tree.mp h).2.2 x hx

section Updates
variable [DecidableEq P]

/-- Hanging `G` in under `p` by appending its roots to the children of `p`. -/
theorem Linked.graft {l l' : Links P} {par : Option P} {F G : Forest P} {p : P}
    (hF : Linked l par F) (hn : (nodes F).Nodup) (hG : Linked l' (some p) G)
    (hparent : ∀ x ∈ nodes F, l'.parent x = l.parent x)
    (hp : ∀ x ∈ nodes F, l'.children x = if x = p then l.children x ++ roots G else l.children x) :
    Linked l' par (graft p G F) := by
  induction F generalizing par with
  | nil => trivial
  | cons q b r ihb ihr =>
    obtain ⟨hqb, hqr, hnb, hnr, hd⟩ := nodup_cons_parts hn
    obtain ⟨hq, hc, hb, hr⟩ := hF
    have hr' := ihr hr hnr (fun x hx => hparent x (by simp [hx])) (fun x hx => hp x (by simp [hx]))
    have hq' := (hparent q (by simp)).trans hq
    have hcq := hp q (by simp)
    rw [Forest.graft]
    split
    · rename_i hqp
      subst hqp
      rw [if_pos rfl, hc] at hcq
      refine ⟨hq', by rw [hcq, roots_append], linked_append.mpr ⟨hb.congr ?_, hG⟩, hr'⟩
      intro x hx
      have hne : x ≠ q := fun h => hqb (h ▸ hx)
      exact ⟨hparent x (by simp [hx]), by rw [hp x (by simp [hx]), if_neg hne]⟩
    · rename_i hqp
      rw [if_neg hqp, hc] at hcq
      exact ⟨hq', by rw [hcq, roots_graft],
        ihb hb hnb (fun x hx => hparent x (by simp [hx])) (fun x hx => hp x (by simp [hx])), hr'⟩

/-- Taking the tree at `c` out by erasing `c` from every child list. -/
theorem Linked.cut {l l' : Links P} {par : Option P} {F : Forest P} {c : P}
    (hF : Linked l par F) (hn : (nodes F).Nodup)
    (hparent : ∀ x ∈ nodes F, x ≠ c → l'.parent x = l.parent x)
    (hchild : ∀ x ∈ nodes F, x ≠ c → l'.children x = (l.children x).erase c) :
    Linked l' par (cut c F) := by
  induction F generalizing par with
  | nil => trivial
  | cons q b r ihb ihr =>
    obtain ⟨hqb, hqr, hnb, hnr, hd⟩ := nodup_cons_parts hn
    obtain ⟨hq, hc, hb, hr⟩ := hF
    have hr' := ihr hr hnr (fun x hx => hparent x (by simp [hx])) (fun x hx => hchild x (by simp [hx]))
    rw [Forest.cut]
    split
    · exact hr'
    · rename_i hqc
      refine ⟨(hparent q (by simp) hqc).trans hq, ?_, ?_, hr'⟩
      · rw [hchild q (by simp) hqc, hc, roots_cut hnb]
      · exact ihb hb hnb (fun x hx => hparent x (by simp [hx])) (fun x hx => hchild x (by simp [hx]))

/-- What hangs under `c`, before the cut. -/
theorem Linked.under {l : Links P} {par : Option P} {F : Forest P} {c : P} (hF : Linked l par F)
    (hn : (nodes F).Nodup) (hc : c ∈ nodes F) :
    l.children c = roots (under c F) ∧ Linked l (some c) (under c F) := by
  induction F generalizing par with
  | nil => simp at hc
  | cons q b r ihb ihr =>
    obtain ⟨hqb, hqr, hnb, hnr, hd⟩ := nodup_cons_parts hn
    obtain ⟨-, hcq, hb, hr⟩ := hF
    rw [Forest.under]
    split
    · rename_i hq
      subst hq
      exact ⟨hcq, hb⟩
    · rename_i hq
      rcases List.mem_cons.mp hc with rfl | hc
      · exact absurd rfl hq
      · rcases List.mem_append.mp hc with hcb | hcr
        · rw [under_of_not_mem (hd c hcb), append_nil]
          exact ihb hb hnb hcb
        · have hcb : c ∉ nodes b := fun hcb => hd c hcb hcr
          rw [under_of_not_mem hcb, nil_append]
          exact ihr hr hnr hcr

end Updates
end PointerForest
