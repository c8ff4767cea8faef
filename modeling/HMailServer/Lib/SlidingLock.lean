import Mathlib

/- A lock by repeated failures. Failures come in the order of their times; the one
   that is the threshold-th within a window locks for a while, and what came before
   the end of that lock never counts again. -/
namespace HMailServer.SlidingLock

structure Rule where
  threshold : Nat
  window : Nat
  duration : Nat

variable (r : Rule)

/-- Not before the end of any of the locks. -/
def counts (locks : List Nat) (g : Nat) : Bool := locks.all fun l => l + r.duration ≤ g

/-- The failures that lock, newest first, among failures newest first: those that
    count and are the threshold-th to count in the window they end. -/
def locks : List Nat → List Nat
  | [] => []
  | f :: older =>
    if counts r (locks older) f ∧
        (f :: older).countP (fun g => counts r (locks older) g && f < g + r.window) = r.threshold then
      f :: locks older
    else locks older

def Locked (failures : List Nat) (t : Nat) : Prop := ∃ f ∈ locks r failures, f ≤ t ∧ t < f + r.duration

/-- The failures that count and are in the window that ends at a time. -/
def pending (failures : List Nat) (t : Nat) : List Nat :=
  failures.filter fun g => counts r (locks r failures) g && t < g + r.window

variable {r}

theorem counts_iff {locks : List Nat} {g : Nat} : counts r locks g = true ↔ ∀ l ∈ locks, l + r.duration ≤ g := by
  simp [counts]

theorem mem_of_mem_locks {failures : List Nat} {l : Nat} (h : l ∈ locks r failures) : l ∈ failures := by
  induction failures with
  | nil => exact h
  | cons f older ih =>
    unfold locks at h
    split at h
    · obtain rfl | h := List.mem_cons.1 h
      · exact List.mem_cons_self
      · exact List.mem_cons_of_mem _ (ih h)
    · exact List.mem_cons_of_mem _ (ih h)

theorem pending_sublist (failures : List Nat) {t u : Nat} (h : t ≤ u) : (pending r failures u).Sublist (pending r failures t) := by
  apply List.monotone_filter_right
  intro g hg
  rw [Bool.and_eq_true, decide_eq_true_eq] at hg ⊢
  exact ⟨hg.1, by omega⟩

/-- The failures at hand when the next one comes. -/
theorem pending_cons_of_counts {f : Nat} {older : List Nat} (hcounts : counts r (locks r older) f = true)
    (hwindow : 0 < r.window) :
    (f :: older).countP (fun g => counts r (locks r older) g && f < g + r.window) = (pending r older f).length + 1 := by
  rw [List.countP_cons_of_pos (by rw [hcounts, Bool.true_and, decide_eq_true_eq]; omega), List.countP_eq_length_filter]
  rfl

theorem pending_locked {f : Nat} {older : List Nat} (hpast : ∀ g ∈ older, g ≤ f) (hduration : 0 < r.duration)
    (hlocks : locks r (f :: older) = f :: locks r older) (t : Nat) : pending r (f :: older) t = [] := by
  apply List.filter_eq_nil_iff.2
  intro g hg hpending
  rw [Bool.and_eq_true, hlocks, counts_iff] at hpending
  have hafter := hpending.1 f List.mem_cons_self
  have hbefore : g ≤ f := by
    obtain rfl | hg := List.mem_cons.1 hg
    · exact Nat.le_refl g
    · exact hpast g hg
  omega

theorem pending_unlocked {f : Nat} {older : List Nat} (hlocks : locks r (f :: older) = locks r older) (t : Nat) :
    pending r (f :: older) t =
      if counts r (locks r older) f && t < f + r.window then f :: pending r older t else pending r older t := by
  show (f :: older).filter _ = _
  rw [List.filter_cons, hlocks]
  rfl

/-- Among ascending times, what a window has left behind is in front. -/
theorem dropWhile_ascending (t : Nat) {times : List Nat} (h : times.Pairwise (· ≤ ·)) :
    (times.dropWhile fun g => g + r.window ≤ t) = times.filter fun g => t < g + r.window := by
  induction times with
  | nil => rfl
  | cons a times ih =>
    obtain ⟨hle, htimes⟩ := List.pairwise_cons.1 h
    by_cases ha : a + r.window ≤ t
    · have hdrop : ((a :: times).dropWhile fun g => decide (g + r.window ≤ t)) =
          times.dropWhile fun g => decide (g + r.window ≤ t) := by
        simp [ha]
      have hfilter : ((a :: times).filter fun g => decide (t < g + r.window)) =
          times.filter fun g => decide (t < g + r.window) := by
        simp [ha]
      rw [hdrop, hfilter, ih htimes]
    · have hdrop : ((a :: times).dropWhile fun g => decide (g + r.window ≤ t)) = a :: times := by
        simp [ha]
      rw [hdrop, eq_comm]
      apply List.filter_eq_self.2
      intro g hg
      rw [decide_eq_true_eq]
      obtain rfl | hg := List.mem_cons.1 hg
      · omega
      · have := hle g hg
        omega

/-- A window that moves on drops its oldest failures. -/
theorem dropWhile_pending {failures : List Nat} (hsorted : failures.Pairwise (· ≥ ·)) {p t : Nat} (hp : p ≤ t) :
    ((pending r failures p).reverse.dropWhile fun g => g + r.window ≤ t) = (pending r failures t).reverse := by
  have hascending : ((pending r failures p).reverse).Pairwise (· ≤ ·) :=
    List.pairwise_reverse.2 (hsorted.sublist List.filter_sublist)
  rw [dropWhile_ascending t hascending, List.filter_reverse]
  congr 1
  show (failures.filter _).filter _ = failures.filter _
  rw [List.filter_filter]
  apply List.filter_congr
  intro g _
  by_cases hg : t < g + r.window
  · have hg' : p < g + r.window := by omega
    simp [hg, hg']
  · simp [hg]

/-- A window never holds as many failures as would lock. -/
theorem length_pending_lt (hthreshold : 0 < r.threshold) (hwindow : 0 < r.window) (hduration : 0 < r.duration)
    {failures : List Nat} (hsorted : failures.Pairwise (· ≥ ·)) :
    ∀ {t : Nat}, (∀ g ∈ failures, g ≤ t) → (pending r failures t).length < r.threshold := by
  induction failures with
  | nil => intro t _; exact hthreshold
  | cons f older ih =>
    intro t ht
    obtain ⟨hpast, hsorted⟩ := List.pairwise_cons.1 hsorted
    have holder : ∀ {t : Nat}, f ≤ t → (pending r older t).length < r.threshold := fun hf =>
      ih hsorted fun g hg => Nat.le_trans (hpast g hg) hf
    have hft : f ≤ t := ht f List.mem_cons_self
    by_cases hlock : locks r (f :: older) = f :: locks r older
    · rw [pending_locked hpast hduration hlock]
      exact hthreshold
    · have hnot : ¬(counts r (locks r older) f = true ∧
          (f :: older).countP (fun g => counts r (locks r older) g && f < g + r.window) = r.threshold) :=
        fun h => hlock (by rw [locks, if_pos h])
      rw [pending_unlocked (by rw [locks, if_neg hnot])]
      split
      · rename_i hpending
        have hcounts : counts r (locks r older) f = true := (Bool.and_eq_true _ _ ▸ hpending).1
        have hcount := pending_cons_of_counts hcounts hwindow
        have hfew := holder (Nat.le_refl f)
        have hshrinks := (pending_sublist (r := r) older hft).length_le
        have hne : (pending r older f).length + 1 ≠ r.threshold := fun h => hnot ⟨hcounts, hcount.trans h⟩
        rw [List.length_cons]
        omega
      · exact holder hft

end HMailServer.SlidingLock
