import Mathlib

/- Readers of a stream that say how much more they need. A caller starts from
   nothing and each time takes exactly what it is asked for. -/
namespace Incremental

variable {α : Type}

/-- The first elements of a stream. -/
def taken (stream : Nat → α) (n : Nat) : List α := (List.range n).map stream

/-- The stream begins with these elements. -/
def Begins (stream : Nat → α) (h : List α) : Prop := taken stream h.length = h

@[simp] theorem length_taken (stream : Nat → α) (n : Nat) : (taken stream n).length = n := by
  rw [taken, List.length_map, List.length_range]

theorem taken_succ (stream : Nat → α) (n : Nat) : taken stream (n + 1) = taken stream n ++ [stream n] := by
  rw [taken, List.range_succ, List.map_append, List.map_singleton, ← taken]

theorem getElem?_taken {stream : Nat → α} {n i : Nat} (h : i < n) : (taken stream n)[i]? = some (stream i) := by
  rw [taken, List.getElem?_map, List.getElem?_range h]
  rfl

theorem take_taken {stream : Nat → α} {m n : Nat} (h : m ≤ n) : (taken stream n).take m = taken stream m := by
  rw [taken, taken, ← List.map_take, List.take_range, Nat.min_eq_left h]

theorem mem_taken {stream : Nat → α} {n : Nat} {c : α} : c ∈ taken stream n ↔ ∃ i < n, stream i = c := by
  simp [taken]

theorem Begins.get {stream : Nat → α} {h : List α} (hb : Begins stream h) {i : Nat} {c : α} (hc : h[i]? = some c) :
    stream i = c := by
  have hi : i < h.length := (List.getElem?_eq_some_iff.1 hc).1
  rw [← hb, getElem?_taken hi] at hc
  exact Option.some.inj hc

theorem Begins.append {stream : Nat → α} {h t : List α} (hb : Begins stream (h ++ t)) : Begins stream h := by
  have htake := congrArg (List.take h.length) hb
  rwa [List.length_append, take_taken (Nat.le_add_right _ _), List.take_left] at htake

/-- A stream begins with a list element for element. -/
theorem begins_iff {stream : Nat → α} {h : List α} : Begins stream h ↔ ∀ i c, h[i]? = some c → stream i = c := by
  constructor
  · exact fun hb i c => hb.get
  · intro hget
    refine List.ext_getElem? fun i => ?_
    by_cases hi : i < h.length
    · rw [getElem?_taken hi, hget i h[i] (List.getElem?_eq_getElem hi), List.getElem?_eq_getElem hi]
    · rw [List.getElem?_eq_none (by rw [length_taken]; omega), List.getElem?_eq_none (by omega)]

/-- A list and then one element for ever. -/
theorem begins_getD (h : List α) (d : α) : Begins (fun i => h.getD i d) h := by
  refine begins_iff.2 fun i c hc => ?_
  show h.getD i d = c
  rw [List.getD_eq_getElem?_getD, hc]
  rfl

section
variable (asks : List α → Option Nat) (stream : Nat → α)

/-- One read. -/
def Step (n m : Nat) : Prop := ∃ k, asks (taken stream n) = some k ∧ m = n + k

/-- The caller comes to have these many elements. -/
def Reads (n : Nat) : Prop := Relation.ReflTransGen (Step asks stream) 0 n

/-- The caller ends with these many elements. -/
def Stops (n : Nat) : Prop := Reads asks stream n ∧ asks (taken stream n) = none

end

variable {asks : List α → Option Nat} {stream : Nat → α}

theorem Reads.more {n k : Nat} (h : Reads asks stream n) (hk : asks (taken stream n) = some k) :
    Reads asks stream (n + k) := h.tail ⟨k, hk, rfl⟩

theorem Stops.unique {n m : Nat} (hn : Stops asks stream n) (hm : Stops asks stream m) : n = m := by
  have hright : Relator.RightUnique (Step asks stream) := by
    rintro a b c ⟨k, hk, rfl⟩ ⟨l, hl, rfl⟩
    rw [Option.some.inj (hk.symm.trans hl)]
  have hlast : ∀ {a b : Nat}, asks (taken stream a) = none → Relation.ReflTransGen (Step asks stream) a b → a = b := by
    intro a b ha hab
    obtain rfl | ⟨c, ⟨k, hk, _⟩, _⟩ := hab.cases_head
    · rfl
    · rw [ha] at hk
      cases hk
  obtain h | h := Relation.ReflTransGen.total_of_right_unique hright hn.1 hm.1
  · exact hlast hn.2 h
  · exact (hlast hm.2 h).symm

/-- What holds of no elements and after each read holds whatever was read. -/
theorem Reads.induct {P : Nat → Prop} (hzero : P 0) (hstep : ∀ n k, P n → asks (taken stream n) = some k → P (n + k))
    {n : Nat} (h : Reads asks stream n) : P n := by
  induction h with
  | refl => exact hzero
  | tail _ hlast ih =>
    obtain ⟨k, hk, rfl⟩ := hlast
    exact hstep _ k ih hk

end Incremental
