import Mathlib

/- Deleting several elements of a list by number. The elements that satisfy `p`
   are named by their positions in the list as it was (`positions`); a reader that
   deletes one element after the other needs each number lowered by the deletions
   before it (`shifted`). Such a reader ends with exactly the elements that do not
   satisfy `p`, and meets the others in order. -/
namespace SequenceDeletion
variable {α : Type}

/-- The positions, counted from one behind `base`, of the elements with `p`. -/
def positions (p : α → Bool) : Nat → List α → List Int
  | _, [] => []
  | base, x :: rest =>
    if p x then (base + 1 : Int) :: positions p (base + 1) rest else positions p (base + 1) rest

/-- Each number lowered by how many stand in front of it, `k` for the first. -/
def shifted : Nat → List Int → List Int
  | _, [] => []
  | k, n :: rest => (n - k) :: shifted (k + 1) rest

/-- Delete the elements with these numbers, one after the other; the list that is
left and the elements deleted, or `none` when a number is out of range. -/
def deleteEach : List Int → List α → Option (List α × List α)
  | [], l => some (l, [])
  | n :: rest, l =>
    if 1 ≤ n then
      (l[(n - 1).toNat]?).bind fun x =>
        (deleteEach rest (l.eraseIdx (n - 1).toNat)).map fun r => (r.1, x :: r.2)
    else none

theorem mem_positions (p : α → Bool) (l : List α) (n : Int) : ∀ base,
    n ∈ positions p base l ↔ ∃ (i : Nat) (x : α), l[i]? = some x ∧ p x = true ∧ n = base + i + 1 := by
  induction l with
  | nil => intro base; simp [positions]
  | cons x rest ih =>
    intro base
    have hrest : n ∈ positions p (base + 1) rest ↔
        ∃ (i : Nat) (y : α), (x :: rest)[i + 1]? = some y ∧ p y = true ∧ n = base + (i + 1 : Nat) + 1 := by
      rw [ih]
      constructor
      · intro ⟨i, y, hy, hp, hn⟩
        exact ⟨i, y, by simpa using hy, hp, by push_cast at hn ⊢; omega⟩
      · intro ⟨i, y, hy, hp, hn⟩
        exact ⟨i, y, by simpa using hy, hp, by push_cast at hn ⊢; omega⟩
    rw [positions]
    split
    · rename_i hx
      rw [List.mem_cons, hrest]
      constructor
      · intro h
        rcases h with h | ⟨i, y, hy, hp, hn⟩
        · exact ⟨0, x, rfl, hx, by simpa using h⟩
        · exact ⟨i + 1, y, hy, hp, hn⟩
      · intro ⟨i, y, hy, hp, hn⟩
        cases i with
        | zero => exact .inl (by simpa using hn)
        | succ i => exact .inr ⟨i, y, hy, hp, hn⟩
    · rename_i hx
      rw [hrest]
      constructor
      · intro ⟨i, y, hy, hp, hn⟩
        exact ⟨i + 1, y, hy, hp, hn⟩
      · intro ⟨i, y, hy, hp, hn⟩
        cases i with
        | zero =>
          injection hy with hy
          exact absurd (hy ▸ hp) hx
        | succ i => exact ⟨i, y, hy, hp, hn⟩

/-- The positions are strictly increasing. -/
theorem positions_pairwise (p : α → Bool) (l : List α) : ∀ base,
    (positions p base l).Pairwise (· < ·) := by
  induction l with
  | nil => intro base; exact List.Pairwise.nil
  | cons x rest ih =>
    intro base
    rw [positions]
    split
    · refine List.Pairwise.cons (fun n hn => ?_) (ih (base + 1))
      obtain ⟨i, y, -, -, hn⟩ := (mem_positions p rest n (base + 1)).mp hn
      push_cast at hn
      omega
    · exact ih (base + 1)

/-- A list of positions without repetitions, once sorted, is `positions`. -/
theorem mergeSort_eq_positions (p : α → Bool) {l : List α} {ns : List Int} (hn : ns.Nodup)
    (hmem : ∀ n, n ∈ ns ↔ n ∈ positions p 0 l) : ns.mergeSort = positions p 0 l := by
  have hpos := positions_pairwise p l 0
  have hperm : ns.mergeSort.Perm (positions p 0 l) := by
    refine (List.mergeSort_perm ns _).trans ?_
    refine (List.perm_ext_iff_of_nodup hn ?_).mpr hmem
    exact hpos.imp fun h => ne_of_lt h
  refine hperm.eq_of_pairwise (fun a b _ _ hab hba => le_antisymm hab hba) ?_
    (hpos.imp fun h => le_of_lt h)
  have hsorted : ns.mergeSort.Pairwise fun a b => decide (a ≤ b) = true := by
    refine List.pairwise_mergeSort ?_ ?_ ns
    · intro a b c hab hbc
      simp only [decide_eq_true_eq] at hab hbc ⊢
      omega
    · intro a b
      simp only [Bool.or_eq_true, decide_eq_true_eq]
      omega
  exact hsorted.imp fun h => by simpa using h

/-- The run of a reader that has passed `kept`, `k` deletions so far. -/
theorem deleteEach_from (p : α → Bool) (l : List α) : ∀ (kept : List α) (k : Nat),
    deleteEach (shifted k (positions p (kept.length + k) l)) (kept ++ l) =
      some (kept ++ l.filter (fun x => !p x), l.filter p) := by
  induction l with
  | nil => intro kept k; simp [positions, shifted, deleteEach]
  | cons x rest ih =>
    intro kept k
    rw [positions]
    split
    · rename_i hx
      have hnumber : ((kept.length + k : Nat) + 1 : Int) - k = kept.length + 1 := by push_cast; omega
      have hindex : ((kept.length : Int) + 1 - 1).toNat = kept.length := by omega
      rw [shifted, deleteEach, hnumber, if_pos (by omega), hindex]
      have h := ih kept (k + 1)
      rw [show kept.length + (k + 1) = kept.length + k + 1 by omega] at h
      simp [List.eraseIdx_append_of_length_le, h, hx]
    · rename_i hx
      have h := ih (kept ++ [x]) k
      rw [List.length_append, List.length_singleton,
        show kept.length + 1 + k = kept.length + k + 1 by omega] at h
      simpa [hx] using h

/-- Deleting by lowered positions leaves exactly what does not satisfy `p`. -/
theorem deleteEach_positions (p : α → Bool) (l : List α) :
    deleteEach (shifted 0 (positions p 0 l)) l = some (l.filter (fun x => !p x), l.filter p) :=
  deleteEach_from p l [] 0

theorem shifted_eq_zipIdx (ns : List Int) : ∀ k,
    (ns.zipIdx k).map (fun n => n.1 - (n.2 : Int)) = shifted k ns := by
  induction ns with
  | nil => intro k; rfl
  | cons n rest ih =>
    intro k
    rw [List.zipIdx_cons, List.map_cons, ih, shifted]

/-- The element with this number. -/
def numbered (l : List α) (n : Int) : Option α := if 1 ≤ n then l[(n - 1).toNat]? else none

/-- The elements at the positions, looked up in the list as it was. -/
theorem mapM_numbered {β : Type} (p : α → Bool) (f : α → β) (l : List α) : ∀ kept : List α,
    (positions p kept.length l).mapM (fun n => (numbered (kept ++ l) n).map f) =
      some ((l.filter p).map f) := by
  induction l with
  | nil => intro kept; simp [positions]
  | cons x rest ih =>
    intro kept
    have h := ih (kept ++ [x])
    rw [List.length_append, List.length_singleton, List.append_assoc, List.singleton_append] at h
    rw [positions]
    split
    · rename_i hx
      have hnum : numbered (kept ++ x :: rest) ((kept.length : Int) + 1) = some x := by
        rw [numbered, if_pos (by omega), show ((kept.length : Int) + 1 - 1).toNat = kept.length by omega]
        simp
      rw [List.mapM_cons, hnum, h]
      simp [hx]
    · rename_i hx
      rw [h]
      simp [hx]

end SequenceDeletion
