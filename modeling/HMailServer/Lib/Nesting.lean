import HMailServer.Lib.PointerForest
import HMailServer.Lib.ParentChain

/- Walks that call themselves on the children of a node, and how deep the calls
   nest. Giving a node children that were below it before (`Lifts`) never makes a
   walk nest deeper; on pointers that hold a forest the depth is the height of the
   forest, and no more than the longest chain of parents. -/
namespace Nesting
variable {P : Type}

/-- The walk from `p` has at most `n` calls inside each other. -/
def Within (ch : P → List P) : Nat → P → Prop
  | 0, _ => False
  | n + 1, p => ∀ c ∈ ch p, Within ch n c

variable {ch ch' ch'' : P → List P}

theorem Within.succ {n : Nat} : ∀ {p : P}, Within ch n p → Within ch (n + 1) p := by
  induction n with
  | zero => exact fun h => h.elim
  | succ n ih => exact fun h c hc => ih (h c hc)

theorem Within.mono {n m : Nat} (hnm : n ≤ m) {p : P} (h : Within ch n p) : Within ch m p := by
  induction hnm with
  | refl => exact h
  | step _ ih => exact ih.succ

/-- `c` is some levels below `p`. -/
def Under (ch : P → List P) : P → P → Prop := Relation.TransGen fun p c => c ∈ ch p

theorem Within.under {p c : P} (hc : Under ch p c) : ∀ {n : Nat}, Within ch (n + 1) p → Within ch n c := by
  induction hc using Relation.TransGen.head_induction_on with
  | single hc => exact fun h => h _ hc
  | head hq _ ih =>
    intro n h
    cases n with
    | zero => exact (h _ hq).elim
    | succ n => exact (ih (h _ hq)).succ

/-- Every child in `ch'` was below its parent in `ch`. -/
def Lifts (ch ch' : P → List P) : Prop := ∀ p, ∀ c ∈ ch' p, Under ch p c

theorem Lifts.of_subset (h : ∀ p, ∀ c ∈ ch' p, c ∈ ch p) : Lifts ch ch' :=
  fun p c hc => .single (h p c hc)

theorem Lifts.refl (ch : P → List P) : Lifts ch ch := .of_subset fun _ _ hc => hc

theorem Lifts.under (h : Lifts ch ch') {p c : P} (hc : Under ch' p c) : Under ch p c :=
  Relation.TransGen.closed (fun a b hab => h a b hab) p c hc

theorem Lifts.trans (h : Lifts ch ch') (h' : Lifts ch' ch'') : Lifts ch ch'' :=
  fun p c hc => h.under (h' p c hc)

theorem Lifts.within (h : Lifts ch ch') {n : Nat} : ∀ {p : P}, Within ch n p → Within ch' n p := by
  induction n with
  | zero => exact fun hp => hp
  | succ n ih => exact fun {p} hp c hc => ih (hp.under (h p c hc))

end Nesting

namespace PointerForest
open Forest Nesting ParentChain
variable {P : Type}

namespace Forest

/-- The number of levels. -/
def height : Forest P → Nat
  | nil => 0
  | cons _ below rest => max (height below + 1) (height rest)

@[simp] theorem height_tree (p : P) (b : Forest P) : height (tree p b) = height b + 1 := by
  simp [tree, height]

@[simp] theorem height_append (F G : Forest P) : height (F ++ G) = max (height F) (height G) := by
  induction F with
  | nil => simp [height]
  | cons p b r _ ih => simp only [cons_append, height, ih, max_assoc]

variable [DecidableEq P]

/-- What is hung in under a root stands one level lower. -/
theorem height_graft_root {F : Forest P} {p : P} (G : Forest P) (hn : (nodes F).Nodup) (hp : p ∈ roots F) :
    height (graft p G F) ≤ max (height F) (height G + 1) := by
  induction F with
  | nil => exact absurd hp List.not_mem_nil
  | cons q b r _ ih =>
    obtain ⟨hqb, hqr, -, hnr, hd⟩ := nodup_cons_parts hn
    rw [graft]
    split
    · rename_i hq
      rw [graft_of_not_mem G (hq ▸ hqr), height, height_append, height]
      omega
    · rename_i hq
      have hpr : p ∈ roots r := (List.mem_cons.1 hp).resolve_left (Ne.symm hq)
      have hpb : p ∉ nodes b := fun hpb => hd p hpb (roots_subset_nodes r p hpr)
      have := ih hnr hpr
      rw [graft_of_not_mem G hpb, height, height]
      omega

end Forest

/-- The walk over a forest nests as deep as the forest is high. -/
theorem Linked.within_iff {l : Links P} {F : Forest P} : ∀ {par : Option P} {n : Nat}, Linked l par F →
    ((∀ r ∈ roots F, Within l.children n r) ↔ height F ≤ n) := by
  induction F with
  | nil => exact fun _ => by simp [height]
  | cons p b r ihb ihr =>
    intro par n h
    obtain ⟨-, hc, hb, hr⟩ := h
    have hp : Within l.children n p ↔ height b + 1 ≤ n := by
      cases n with
      | zero => simp [Within]
      | succ n =>
        rw [Within, hc, ihb hb]
        omega
    rw [roots_cons, List.forall_mem_cons, hp, ihr hr, height]
    omega

/-- A forest with `n + 1` levels has a node that is `n` links under a root. -/
theorem Linked.deepest {l : Links P} {F : Forest P} : ∀ {par : Option P} {n : Nat}, Linked l par F →
    height F = n + 1 → ∃ x, ∃ r ∈ roots F, ancestor l.parent n x = some r := by
  induction F with
  | nil => exact fun _ h => by simp [height] at h
  | cons p b r ihb ihr =>
    intro par n h hn
    obtain ⟨-, -, hb, hr⟩ := h
    rw [height] at hn
    by_cases hrn : height r = n + 1
    · obtain ⟨x, q, hq, hx⟩ := ihr hr hrn
      exact ⟨x, q, List.mem_cons_of_mem p hq, hx⟩
    · have hbn : height b = n := by omega
      cases n with
      | zero => exact ⟨p, p, List.mem_cons_self, rfl⟩
      | succ n =>
        obtain ⟨x, q, hq, hx⟩ := ihb hb hbn
        exact ⟨x, p, List.mem_cons_self, by rw [ancestor_last, hx, Option.bind_some, hb.root_parent q hq]⟩

end PointerForest
