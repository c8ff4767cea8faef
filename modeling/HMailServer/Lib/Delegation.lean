import Mathlib

/- Policies that decide by their first clause that applies, and that may ask the policy of
   another name or hand the decision over to it. `Decides` is what such policies mean: a
   verdict is reached by finitely many steps, and a ring of names that ask one another
   without end reaches none. -/
namespace Delegation

variable {N V : Type}

/-- What a clause that has been looked at comes to. -/
inductive Outcome (V : Type) where
  | verdict (v : V)
  | next

/-- A clause that can be looked at here, or one that reads the verdict of another name. -/
inductive Clause (N V : Type) where
  | here (o : Outcome V)
  | ask (n : N) (read : V → Outcome V)

/-- What holds where no clause decided. -/
inductive Fallback (N V : Type) where
  | verdict (v : V)
  | delegate (n : N) (read : V → V)

structure Policy (N V : Type) where
  clauses : List (Clause N V)
  fallback : Fallback N V

/-- The verdict of a policy, where `policies` holds those of the other names. -/
inductive Decides (policies : N → Policy N V) : Policy N V → V → Prop where
  | here {v clauses fallback} : Decides policies ⟨.here (.verdict v) :: clauses, fallback⟩ v
  | skip {clauses fallback v} (rest : Decides policies ⟨clauses, fallback⟩ v) :
      Decides policies ⟨.here .next :: clauses, fallback⟩ v
  | asked {n read v w clauses fallback} (other : Decides policies (policies n) w) (hread : read w = .verdict v) :
      Decides policies ⟨.ask n read :: clauses, fallback⟩ v
  | passed {n read v w clauses fallback} (other : Decides policies (policies n) w) (hread : read w = .next)
      (rest : Decides policies ⟨clauses, fallback⟩ v) : Decides policies ⟨.ask n read :: clauses, fallback⟩ v
  | fallback {v} : Decides policies ⟨[], .verdict v⟩ v
  | delegated {n read w} (other : Decides policies (policies n) w) : Decides policies ⟨[], .delegate n read⟩ (read w)

variable {policies : N → Policy N V} {p : Policy N V} {v w : V}

/-- What a clause comes to. -/
inductive Clause.Comes (policies : N → Policy N V) : Clause N V → Outcome V → Prop where
  | here {o} : Comes policies (.here o) o
  | ask {n read w} (other : Decides policies (policies n) w) : Comes policies (.ask n read) (read w)

/-- A clause that comes to a verdict decides. -/
theorem Decides.of_verdict {c : Clause N V} {clauses : List (Clause N V)} {fallback : Fallback N V} {o : Outcome V}
    (hc : c.Comes policies o) (ho : o = .verdict v) : Decides policies ⟨c :: clauses, fallback⟩ v := by
  cases hc with
  | here =>
    rw [ho]
    exact .here
  | ask other => exact .asked other ho

/-- One that comes to none leaves the decision to those behind it. -/
theorem Decides.of_next {c : Clause N V} {clauses : List (Clause N V)} {fallback : Fallback N V} {o : Outcome V}
    (hc : c.Comes policies o) (ho : o = .next) (rest : Decides policies ⟨clauses, fallback⟩ v) :
    Decides policies ⟨c :: clauses, fallback⟩ v := by
  cases hc with
  | here =>
    rw [ho]
    exact .skip rest
  | ask other => exact .passed other ho rest

/-- No policy has two verdicts. -/
theorem Decides.unique (hv : Decides policies p v) (hw : Decides policies p w) : v = w := by
  induction hv generalizing w with
  | here =>
    cases hw
    rfl
  | skip _ ih =>
    cases hw with
    | skip rest => exact ih rest
  | asked _ hread ihother =>
    cases hw with
    | asked other' hread' =>
      cases ihother other'
      rw [hread] at hread'
      cases hread'
      rfl
    | passed other' hread' _ =>
      cases ihother other'
      rw [hread] at hread'
      cases hread'
  | passed _ hread _ ihother ihrest =>
    cases hw with
    | asked other' hread' =>
      cases ihother other'
      rw [hread] at hread'
      cases hread'
    | passed other' hread' rest' => exact ihrest rest'
  | fallback =>
    cases hw
    rfl
  | delegated _ ih =>
    cases hw with
    | delegated other' => rw [ih other']

end Delegation
