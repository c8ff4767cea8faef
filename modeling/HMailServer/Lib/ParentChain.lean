import Mathlib

/- Chains of parents. `par` gives a node its parent, if it has one; nothing is said
   about the number of nodes, or that the chains end. Hanging a node in under a
   parent joins what climbs to the node to the chain of the parent. -/
namespace ParentChain
variable {P : Type}

/-- The node `n` links up. -/
def ancestor (par : P → Option P) : Nat → P → Option P
  | 0, p => some p
  | n + 1, p => (par p).bind (ancestor par n)

/-- No chain has more than `n` nodes, the first one included. -/
def Bounded (par : P → Option P) (n : Nat) : Prop := ∀ p, ancestor par n p = none

variable {par par' : P → Option P}

theorem ancestor_succ_of {p q : P} (h : par p = some q) (n : Nat) : ancestor par (n + 1) p = ancestor par n q := by
  rw [ancestor, h, Option.bind_some]

theorem ancestor_succ_none {p : P} (h : par p = none) (n : Nat) : ancestor par (n + 1) p = none := by
  rw [ancestor, h, Option.bind_none]

/-- The last link of a chain. -/
theorem ancestor_last (n : Nat) : ∀ p : P, ancestor par (n + 1) p = (ancestor par n p).bind par := by
  induction n with
  | zero =>
    intro p
    show (par p).bind some = (some p).bind par
    rw [Option.bind_some, Option.bind_fun_some]
  | succ n ih =>
    intro p
    rw [ancestor, ancestor, Option.bind_assoc]
    exact congrArg _ (funext ih)

/-- A chain that has ended goes no further. -/
theorem ancestor_none_mono {n m : Nat} {p : P} (h : ancestor par n p = none) (hnm : n ≤ m) :
    ancestor par m p = none := by
  induction hnm with
  | refl => exact h
  | step _ ih => rw [ancestor_last, ih, Option.bind_none]

/-- Nodes that lose their parent only shorten chains. -/
theorem ancestor_of_le (hle : ∀ x y, par' x = some y → par x = some y) (n : Nat) :
    ∀ {p q : P}, ancestor par' n p = some q → ancestor par n p = some q := by
  induction n with
  | zero => exact fun h => h
  | succ n ih =>
    intro p q h
    obtain ⟨y, hy, hq⟩ := Option.bind_eq_some_iff.1 h
    rw [ancestor_succ_of (hle p y hy)]
    exact ih hq

theorem Bounded.of_le {n : Nat} (h : Bounded par n) (hle : ∀ x y, par' x = some y → par x = some y) :
    Bounded par' n := by
  intro p
  rw [Option.eq_none_iff_forall_ne_some]
  intro q hq
  have hnone := h p
  rw [ancestor_of_le hle n hq] at hnone
  cases hnone

/-- `par'` is `par` with `c` hung in under `p`. -/
structure Hung (par par' : P → Option P) (p c : P) : Prop where
  child : par' c = some p
  other : ∀ x, x ≠ c → par' x = par x

/-- The chain of the new parent is what it was, if it does not come by the child. -/
theorem Hung.above {p c : P} (hhung : Hung par par' p c) (n : Nat) :
    ∀ {q : P}, (∀ m, ancestor par m q ≠ some c) → ancestor par' n q = ancestor par n q := by
  induction n with
  | zero => exact fun _ => rfl
  | succ n ih =>
    intro q hq
    have hne : q ≠ c := fun h => hq 0 (congrArg some h)
    cases hpar : par q with
    | none => rw [ancestor_succ_none hpar, ancestor_succ_none ((hhung.other q hne).trans hpar)]
    | some r =>
      rw [ancestor_succ_of hpar, ancestor_succ_of ((hhung.other q hne).trans hpar)]
      apply ih
      intro m hm
      exact hq (m + 1) ((ancestor_succ_of hpar m).trans hm)

/-- A chain is an old one, or climbs to the child and goes on above the parent. -/
theorem Hung.chain {p c : P} (hhung : Hung par par' p c) (n : Nat) :
    ∀ {x : P}, ancestor par' n x ≠ none →
      ancestor par n x ≠ none ∨ ∃ k m, ancestor par k x = some c ∧ n = k + 1 + m ∧ ancestor par' m p ≠ none := by
  induction n with
  | zero => exact fun h => .inl h
  | succ n ih =>
    intro x hx
    by_cases hxc : x = c
    · subst hxc
      rw [ancestor_succ_of hhung.child] at hx
      exact .inr ⟨0, n, rfl, by omega, hx⟩
    · cases hpar : par x with
      | none =>
        rw [ancestor_succ_none ((hhung.other x hxc).trans hpar)] at hx
        exact absurd rfl hx
      | some y =>
        rw [ancestor_succ_of ((hhung.other x hxc).trans hpar)] at hx
        rcases ih hx with h | ⟨k, m, hk, hn, hm⟩
        · exact .inl (by rwa [ancestor_succ_of hpar])
        · exact .inr ⟨k + 1, m, (ancestor_succ_of hpar k).trans hk, by omega, hm⟩

/-- What climbs to `c` and the chain of `p` make chains of `n` nodes at most. -/
def Fits (par : P → Option P) (n : Nat) (p c : P) : Prop :=
  ∀ x k m, ancestor par k x = some c → ancestor par m p ≠ none → k + 1 + m < n

theorem Fits.of_le {n : Nat} {p c : P} (h : Fits par n p c) (hle : ∀ x y, par' x = some y → par x = some y) :
    Fits par' n p c := by
  intro x k m hk hm
  obtain ⟨q, hq⟩ := Option.ne_none_iff_exists'.1 hm
  exact h x k m (ancestor_of_le hle k hk) (by rw [ancestor_of_le hle m hq]; exact Option.some_ne_none q)

theorem Hung.bounded {p c : P} {n : Nat} (hhung : Hung par par' p c) (hapart : ∀ m, ancestor par m p ≠ some c)
    (hfits : Fits par n p c) (hbounded : Bounded par n) : Bounded par' n := by
  intro x
  by_contra hx
  rcases hhung.chain n hx with h | ⟨k, m, hk, hn, hm⟩
  · exact h (hbounded x)
  · rw [hhung.above m hapart] at hm
    have := hfits x k m hk hm
    omega

/-- A chain that reaches another node is a path of parents. -/
theorem reflTransGen_of_ancestor (n : Nat) : ∀ {p q : P}, ancestor par n p = some q →
    Relation.ReflTransGen (fun x y => par x = some y) p q := by
  induction n with
  | zero =>
    intro p q h
    rw [Option.some.inj h]
  | succ n ih =>
    intro p q h
    obtain ⟨y, hy, hq⟩ := Option.bind_eq_some_iff.1 h
    exact .head hy (ih hq)

end ParentChain
