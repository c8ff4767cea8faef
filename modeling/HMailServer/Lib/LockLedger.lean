import Mathlib

/- The history of a table of locks: who took which lock, and who let it go. -/
namespace LockLedger

variable {H K : Type} [DecidableEq K]

/-- A lock that was taken, or let go, by a holder. -/
inductive Entry (H K : Type) where
  | acquired (holder : H) (key : K)
  | released (holder : H) (key : K)
  deriving DecidableEq

/-- Who holds the lock after an entry. -/
def next (key : K) (before : Option H) : Entry H K → Option H
  | .acquired holder k => if k = key then some holder else before
  | .released _ k => if k = key then none else before

/-- Who holds the lock after a history. -/
def holder (key : K) (history : List (Entry H K)) : Option H := history.foldl (next key) none

/-- Nobody lets a lock go that another has, or takes one that is taken. -/
def Disciplined (history : List (Entry H K)) : Prop :=
  ∀ before entry behind, history = before ++ entry :: behind →
    match entry with
    | .acquired _ key => holder key before = none
    | .released h key => holder key before = some h

@[simp] theorem holder_nil (key : K) : holder key ([] : List (Entry H K)) = none := rfl

theorem holder_append (key : K) (history : List (Entry H K)) (entry : Entry H K) :
    holder key (history ++ [entry]) = next key (holder key history) entry := by
  rw [holder, List.foldl_append]
  rfl

theorem holder_acquired_self (history : List (Entry H K)) (h : H) (key : K) :
    holder key (history ++ [.acquired h key]) = some h := by
  rw [holder_append, next, if_pos rfl]

theorem holder_released_self (history : List (Entry H K)) (h : H) (key : K) :
    holder key (history ++ [.released h key]) = none := by
  rw [holder_append, next, if_pos rfl]

theorem holder_acquired_of_ne {key other : K} (hne : other ≠ key) (history : List (Entry H K)) (h : H) :
    holder key (history ++ [.acquired h other]) = holder key history := by
  rw [holder_append, next, if_neg hne]

theorem holder_released_of_ne {key other : K} (hne : other ≠ key) (history : List (Entry H K)) (h : H) :
    holder key (history ++ [.released h other]) = holder key history := by
  rw [holder_append, next, if_neg hne]

theorem disciplined_nil : Disciplined ([] : List (Entry H K)) := by
  intro before entry behind h
  exact absurd h.symm (List.append_ne_nil_of_right_ne_nil _ (List.cons_ne_nil _ _))

/-- One entry more. -/
theorem Disciplined.append {history : List (Entry H K)} (h : Disciplined history) {entry : Entry H K}
    (hentry : match entry with
      | .acquired _ key => holder key history = none
      | .released who key => holder key history = some who) : Disciplined (history ++ [entry]) := by
  intro before last behind hsplit
  rcases List.eq_nil_or_concat behind with hbehind | ⟨behind', final, hbehind⟩
  · subst hbehind
    obtain ⟨hbefore, hlast⟩ := List.append_inj' hsplit rfl
    obtain rfl := (List.cons.inj hlast).1
    rw [← hbefore]
    exact hentry
  · subst hbehind
    rw [List.concat_eq_append, ← List.cons_append, ← List.append_assoc] at hsplit
    exact h before last behind' (List.append_inj' hsplit rfl).1

end LockLedger
