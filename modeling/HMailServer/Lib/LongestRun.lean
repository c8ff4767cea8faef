import Mathlib.Data.List.TakeWhile

/- The runs of a predicate in a list, by where they begin, and the first of the longest
   of them. -/
namespace LongestRun

variable {α : Type} {p : α → Bool} {s : List α} {i j : Nat}

/-- How many elements from position `i` on satisfy the predicate. -/
def runLength (p : α → Bool) (s : List α) (i : Nat) : Nat := ((s.drop i).takeWhile p).length

theorem runLength_le (p : α → Bool) (s : List α) (i : Nat) : runLength p s i ≤ s.length - i := by
  have hle := (List.takeWhile_prefix p (l := s.drop i)).length_le
  rw [List.length_drop] at hle
  exact hle

theorem runLength_of_length_le (h : s.length ≤ i) : runLength p s i = 0 := by
  have hle := runLength_le p s i
  omega

theorem runLength_of_pos (hlt : i < s.length) (hp : p s[i] = true) :
    runLength p s i = runLength p s (i + 1) + 1 := by
  unfold runLength
  rw [List.drop_eq_getElem_cons hlt, List.takeWhile_cons_of_pos hp, List.length_cons]

theorem runLength_of_neg (hlt : i < s.length) (hp : p s[i] = false) : runLength p s i = 0 := by
  unfold runLength
  rw [List.drop_eq_getElem_cons hlt, List.takeWhile_cons_of_neg (by simp [hp]), List.length_nil]

/-- Inside a run the rest of it is left. -/
theorem runLength_add {k : Nat} (h : k ≤ runLength p s i) : runLength p s (i + k) = runLength p s i - k := by
  induction k with
  | zero => rfl
  | succ k ih =>
    have hk := ih (by omega)
    have hlt : i + k < s.length := by
      have hle := runLength_le p s (i + k)
      omega
    cases hp : p s[i + k] with
    | false =>
      rw [runLength_of_neg hlt hp] at hk
      omega
    | true =>
      rw [runLength_of_pos hlt hp] at hk
      rw [← Nat.add_assoc]
      omega

/-- Each element of a run satisfies the predicate. -/
theorem pos_of_runLength (hlt : i < s.length) (h : 0 < runLength p s i) : p s[i] = true := by
  cases hp : p s[i] with
  | true => rfl
  | false =>
    rw [runLength_of_neg hlt hp] at h
    omega

/-- The run at `start` is a longest one, and the first of them. -/
structure FirstLongest (p : α → Bool) (s : List α) (start length : Nat) : Prop where
  run : runLength p s start = length
  longest : ∀ i, runLength p s i ≤ length
  first : ∀ i, runLength p s i = length → start ≤ i

/-- The same of the runs that begin before a position; a length of 0 is no run. -/
structure FirstLongestBefore (p : α → Bool) (s : List α) (position start length : Nat) : Prop where
  run : 0 < length → start < position ∧ runLength p s start = length
  longest : ∀ i < position, runLength p s i ≤ length
  first : 0 < length → ∀ i < position, runLength p s i = length → start ≤ i

namespace FirstLongestBefore

variable {position start length : Nat}

theorem zero (p : α → Bool) (s : List α) (start : Nat) : FirstLongestBefore p s 0 start 0 :=
  ⟨fun h => absurd h (by omega), fun _ h => absurd h (by omega), fun h => absurd h (by omega)⟩

/-- A position that begins no run changes nothing. -/
theorem skip (h : FirstLongestBefore p s position start length) (hzero : runLength p s position = 0) :
    FirstLongestBefore p s (position + 1) start length := by
  refine ⟨?_, ?_, ?_⟩
  · intro hpos
    exact ⟨(h.run hpos).1.trans (Nat.lt_succ_self _), (h.run hpos).2⟩
  · intro i hi
    by_cases heq : i = position
    · rw [heq, hzero]
      exact Nat.zero_le _
    · exact h.longest i (by omega)
  · intro hpos i hi hrun
    by_cases heq : i = position
    · rw [heq, hzero] at hrun
      omega
    · exact h.first hpos i (by omega) hrun

/-- A run replaces the best one exactly if it is longer; what begins inside it is
    shorter. -/
theorem run_at (h : FirstLongestBefore p s position start length) :
    FirstLongestBefore p s (position + runLength p s position)
      (if length < runLength p s position then position else start)
      (if length < runLength p s position then runLength p s position else length) := by
  have hinside : ∀ i, position ≤ i → i < position + runLength p s position →
      runLength p s i = runLength p s position - (i - position) := by
    intro i hle hlt
    obtain ⟨k, rfl⟩ := Nat.exists_eq_add_of_le hle
    rw [runLength_add (by omega), Nat.add_sub_cancel_left]
  by_cases hlonger : length < runLength p s position
  · rw [if_pos hlonger, if_pos hlonger]
    refine ⟨fun _ => ⟨by omega, rfl⟩, ?_, ?_⟩
    · intro i hi
      by_cases hbefore : i < position
      · exact (h.longest i hbefore).trans hlonger.le
      · rw [hinside i (by omega) hi]
        omega
    · intro _ i hi hrun
      by_cases hbefore : i < position
      · have hle := h.longest i hbefore
        omega
      · omega
  · rw [if_neg hlonger, if_neg hlonger]
    refine ⟨?_, ?_, ?_⟩
    · intro hpos
      exact ⟨Nat.lt_add_right _ (h.run hpos).1, (h.run hpos).2⟩
    · intro i hi
      by_cases hbefore : i < position
      · exact h.longest i hbefore
      · rw [hinside i (by omega) hi]
        omega
    · intro hpos i hi hrun
      by_cases hbefore : i < position
      · exact h.first hpos i hbefore hrun
      · have hstart := (h.run hpos).1
        omega

/-- At the end of the list the first longest run is found. -/
theorem firstLongest (h : FirstLongestBefore p s position start length) (hpos : 0 < length)
    (hend : s.length ≤ position) : FirstLongest p s start length := by
  refine ⟨(h.run hpos).2, ?_, ?_⟩
  · intro i
    by_cases hi : i < position
    · exact h.longest i hi
    · rw [runLength_of_length_le (by omega)]
      exact Nat.zero_le _
  · intro i hrun
    by_cases hi : i < position
    · exact h.first hpos i hi hrun
    · have hstart := (h.run hpos).1
      omega

end FirstLongestBefore

end LongestRun
