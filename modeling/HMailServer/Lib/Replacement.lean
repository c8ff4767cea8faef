import Mathlib

/- Replacing a text by another, leftmost first and never rereading what was
   written. -/
namespace Replacement

variable {α : Type} [DecidableEq α] {old new s t : List α} {c : α}

/-- With `skip` characters of the old text to pass. -/
def replaceFrom (old new : List α) : Nat → List α → List α
  | _, [] => []
  | skip + 1, _ :: s => replaceFrom old new skip s
  | 0, c :: s =>
    if old.isPrefixOf (c :: s) then new ++ replaceFrom old new (old.length - 1) s
    else c :: replaceFrom old new 0 s

def replace (old new s : List α) : List α := replaceFrom old new 0 s

@[simp] theorem replace_nil : replace old new [] = [] := rfl

theorem replaceFrom_eq (skip : Nat) (s : List α) : replaceFrom old new skip s = replace old new (s.drop skip) := by
  induction s generalizing skip with
  | nil => rw [List.drop_nil, replaceFrom, replace_nil]
  | cons c s ih =>
    cases skip with
    | zero => rfl
    | succ skip => exact ih skip

theorem replace_cons_of_not (h : ¬old <+: c :: s) : replace old new (c :: s) = c :: replace old new s := by
  rw [replace, replaceFrom, if_neg (by rwa [List.isPrefixOf_iff_prefix])]
  rfl

theorem replace_append_old (hold : old ≠ []) : replace old new (old ++ s) = new ++ replace old new s := by
  cases old with
  | nil => exact absurd rfl hold
  | cons m ms =>
    have hhead : (m :: ms).isPrefixOf (m :: (ms ++ s)) = true :=
      List.isPrefixOf_iff_prefix.2 (List.prefix_append (m :: ms) s)
    rw [List.cons_append, replace, replaceFrom, if_pos hhead, replaceFrom_eq, List.length_cons,
      Nat.add_sub_cancel, List.drop_left]

theorem replace_of_prefix (new : List α) (hold : old ≠ []) (h : old <+: s) :
    ∃ rest, s = old ++ rest ∧ replace old new s = new ++ replace old new rest := by
  obtain ⟨rest, rfl⟩ := h
  exact ⟨rest, rfl, replace_append_old hold⟩

/-- A front part in which the old text does not begin stays as it is. -/
theorem replace_append_of_not (h : ∀ i < s.length, ¬old <+: s.drop i ++ t) :
    replace old new (s ++ t) = s ++ replace old new t := by
  induction s with
  | nil => rfl
  | cons c s ih =>
    have hhead : ¬old <+: c :: (s ++ t) := h 0 (Nat.succ_pos _)
    rw [List.cons_append, replace_cons_of_not hhead, ih fun i hi => h (i + 1) (Nat.succ_lt_succ hi)]
    rfl

theorem replace_append_of_notMem {m : α} {ms : List α} (h : m ∉ s) :
    replace (m :: ms) new (s ++ t) = s ++ replace (m :: ms) new t := by
  induction s with
  | nil => rfl
  | cons c s ih =>
    rw [List.mem_cons, not_or] at h
    have hhead : ¬m :: ms <+: c :: (s ++ t) := fun hp => h.1 (List.cons_prefix_cons.1 hp).1
    rw [List.cons_append, replace_cons_of_not hhead, ih h.2]
    rfl

/-- An induction that passes the old text whole. -/
theorem replace_induction {P : List α → Prop} (hold : old ≠ []) (hnil : P [])
    (hpassed : ∀ s, P s → P (old ++ s)) (hcons : ∀ c s, ¬old <+: c :: s → P s → P (c :: s)) (s : List α) : P s := by
  induction hn : s.length using Nat.strong_induction_on generalizing s with
  | _ n ih =>
    cases s with
    | nil => exact hnil
    | cons c s =>
      rw [List.length_cons] at hn
      by_cases hhead : old <+: c :: s
      · obtain ⟨rest, hrest⟩ := hhead
        have hlength := congrArg List.length hrest
        have hpos := List.length_pos_iff.2 hold
        rw [List.length_append, List.length_cons] at hlength
        rw [← hrest]
        exact hpassed rest (ih rest.length (by omega) rest rfl)
      · exact hcons c s hhead (ih s.length (by omega) s rfl)

theorem replace_of_not_infix (h : ¬old <:+: s) : replace old new s = s := by
  have hstays : replace old new (s ++ []) = s ++ replace old new [] := by
    apply replace_append_of_not
    intro i _ hp
    rw [List.append_nil] at hp
    exact h (hp.isInfix.trans (List.drop_suffix i s).isInfix)
  rwa [replace_nil, List.append_nil] at hstays

/-- What neither text holds is counted the same. -/
theorem count_replace_eq {x : α} (hold : old ≠ []) (h : old.count x = new.count x) :
    (replace old new s).count x = s.count x := by
  induction s using replace_induction hold with
  | hnil => rfl
  | hpassed s ih => rw [replace_append_old hold, List.count_append, List.count_append, ih, h]
  | hcons c s hhead ih => rw [replace_cons_of_not hhead, List.count_cons, List.count_cons, ih]

theorem count_replace_le {x : α} (hold : old ≠ []) (h : new.count x ≤ old.count x) :
    (replace old new s).count x ≤ s.count x := by
  induction s using replace_induction hold with
  | hnil => exact Nat.le_refl _
  | hpassed s ih =>
    rw [replace_append_old hold, List.count_append, List.count_append]
    omega
  | hcons c s hhead ih =>
    rw [replace_cons_of_not hhead, List.count_cons, List.count_cons]
    omega

/-- What the old text has more of is less when it was there. -/
theorem count_replace_lt {x : α} (hold : old ≠ []) (h : new.count x < old.count x) (hinside : old <:+: s) :
    (replace old new s).count x < s.count x := by
  induction s using replace_induction hold with
  | hnil => exact absurd (List.infix_nil.1 hinside) hold
  | hpassed s _ =>
    have hle := count_replace_le (s := s) hold h.le
    rw [replace_append_old hold, List.count_append, List.count_append]
    omega
  | hcons c s hhead ih =>
    have hrest := ih ((List.infix_cons_iff.1 hinside).resolve_left hhead)
    rw [replace_cons_of_not hhead, List.count_cons, List.count_cons]
    omega

end Replacement
