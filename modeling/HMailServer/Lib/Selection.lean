import Mathlib

/- Names take elements from a list, each the first one that fits and is not used
   yet. -/
namespace Selection

variable {ν α β : Type}

/-- What the names take, in their order, and what is left. -/
def select (fits : ν → α → Bool) : List ν → List α → List (ν × α) × List α
  | [], xs => ([], xs)
  | n :: ns, xs =>
    match xs.find? (fits n) with
    | none => select fits ns xs
    | some x =>
      let (taken, rest) := select fits ns (xs.eraseP (fits n))
      ((n, x) :: taken, rest)

variable {fits p q : ν → α → Bool}

theorem select_none {n : ν} {ns : List ν} {xs : List α} (h : xs.find? (fits n) = none) :
    select fits (n :: ns) xs = select fits ns xs := by
  rw [select, h]

theorem select_some {n : ν} {ns : List ν} {xs : List α} {x : α} (h : xs.find? (fits n) = some x) :
    select fits (n :: ns) xs =
      ((n, x) :: (select fits ns (xs.eraseP (fits n))).1, (select fits ns (xs.eraseP (fits n))).2) := by
  rw [select, h]

theorem select_map (fits : ν → β → Bool) (f : α → β) (ns : List ν) (xs : List α) :
    select fits ns (xs.map f) =
      ((select (fun n x => fits n (f x)) ns xs).1.map fun s => (s.1, f s.2),
        (select (fun n x => fits n (f x)) ns xs).2.map f) := by
  induction ns generalizing xs with
  | nil => rfl
  | cons n ns ih =>
    have hfind : (xs.map f).find? (fits n) = (xs.find? fun x => fits n (f x)).map f := List.find?_map
    cases h : xs.find? fun x => fits n (f x) with
    | none =>
      rw [h] at hfind
      rw [select_none hfind, select_none h, ih]
    | some x =>
      rw [h] at hfind
      rw [select_some hfind, select_some h, List.eraseP_map, ih]
      rfl

/-- A narrower choice takes the same element if that is among what it allows. -/
theorem find?_narrow {p q : α → Bool} (hpq : ∀ x, p x = true → q x = true) {xs : List α} {x : α}
    (h : xs.find? q = some x) (hp : p x = true) : xs.find? p = some x ∧ xs.eraseP p = xs.eraseP q := by
  induction xs with
  | nil => cases h
  | cons y xs ih =>
    rw [List.find?_cons] at h ⊢
    cases hy : q y with
    | true =>
      rw [hy] at h
      rw [Option.some.inj h, hp, List.eraseP_cons_of_pos hp, List.eraseP_cons_of_pos (hpq x hp)]
      exact ⟨rfl, rfl⟩
    | false =>
      have hpy : p y = false := by
        by_contra hne
        rw [Bool.not_eq_false] at hne
        rw [hpq y hne] at hy
        cases hy
      rw [hy] at h
      rw [hpy, List.eraseP_cons_of_neg (by simp [hpy]), List.eraseP_cons_of_neg (by simp [hy])]
      exact ⟨(ih h).1, congrArg _ (ih h).2⟩

theorem select_narrow (hpq : ∀ n x, p n x = true → q n x = true) {ns : List ν} {xs : List α}
    (h : ∀ s ∈ (select q ns xs).1, p s.1 s.2 = true) : select p ns xs = select q ns xs := by
  induction ns generalizing xs with
  | nil => rfl
  | cons n ns ih =>
    cases hq : xs.find? (q n) with
    | none =>
      have hnone : xs.find? (p n) = none := by
        rw [List.find?_eq_none] at hq ⊢
        exact fun x hx hp => hq x hx (hpq n x hp)
      rw [select_none hq] at h
      rw [select_none hnone, select_none hq, ih h]
    | some x =>
      rw [select_some hq] at h
      obtain ⟨hp, hrest⟩ := List.forall_mem_cons.1 h
      obtain ⟨hfind, herase⟩ := find?_narrow (hpq n) hq hp
      rw [select_some hfind, select_some hq, herase, ih hrest]

/-- Every element is taken or left. -/
theorem countP_select (w : α → Bool) (ns : List ν) (xs : List α) :
    (select fits ns xs).2.countP w + (select fits ns xs).1.countP (fun s => w s.2) = xs.countP w := by
  induction ns generalizing xs with
  | nil => rfl
  | cons n ns ih =>
    cases h : xs.find? (fits n) with
    | none => rw [select_none h, ih]
    | some x =>
      have hrest := ih (xs.eraseP (fits n))
      obtain ⟨hx, pre, post, rfl, hpre⟩ := List.find?_eq_some_iff_append.1 h
      have herase : (pre ++ x :: post).eraseP (fits n) = pre ++ post := by
        rw [List.eraseP_append_right _ fun b hb => by simpa using hpre b hb, List.eraseP_cons_of_pos hx]
      rw [herase, List.countP_append] at hrest
      rw [select_some h, herase, List.countP_append, List.countP_cons]
      dsimp only
      rw [List.countP_cons]
      omega

theorem fits_of_mem_select {s : ν × α} {ns : List ν} {xs : List α} (h : s ∈ (select fits ns xs).1) :
    s.1 ∈ ns ∧ s.2 ∈ xs ∧ fits s.1 s.2 = true := by
  induction ns generalizing xs with
  | nil => cases h
  | cons n ns ih =>
    cases hf : xs.find? (fits n) with
    | none =>
      rw [select_none hf] at h
      obtain ⟨hn, hx, hs⟩ := ih h
      exact ⟨List.mem_cons_of_mem _ hn, hx, hs⟩
    | some x =>
      rw [select_some hf] at h
      rcases List.mem_cons.1 h with rfl | h
      · exact ⟨List.mem_cons_self, List.mem_of_find?_eq_some hf, List.find?_some hf⟩
      · obtain ⟨hn, hx, hs⟩ := ih h
        exact ⟨List.mem_cons_of_mem _ hn, List.mem_of_mem_eraseP hx, hs⟩

theorem select_rest_subset (fits : ν → α → Bool) (ns : List ν) (xs : List α) : (select fits ns xs).2 ⊆ xs := by
  induction ns generalizing xs with
  | nil => exact List.Subset.refl _
  | cons n ns ih =>
    cases hf : xs.find? (fits n) with
    | none =>
      rw [select_none hf]
      exact ih xs
    | some x =>
      rw [select_some hf]
      exact List.Subset.trans (ih _) List.eraseP_subset

theorem select_congr {ns : List ν} {xs : List α} (h : ∀ n ∈ ns, ∀ x ∈ xs, p n x = q n x) :
    select p ns xs = select q ns xs := by
  induction ns generalizing xs with
  | nil => rfl
  | cons n ns ih =>
    have hn := h n List.mem_cons_self
    have hfind : xs.find? (p n) = xs.find? (q n) := by
      clear ih h
      induction xs with
      | nil => rfl
      | cons y xs ih =>
        rw [List.find?_cons, List.find?_cons, hn y List.mem_cons_self, ih fun x hx => hn x (List.mem_cons_of_mem _ hx)]
    have herase : xs.eraseP (p n) = xs.eraseP (q n) := by
      clear ih h hfind
      induction xs with
      | nil => rfl
      | cons y xs ih =>
        rw [List.eraseP_cons, List.eraseP_cons, hn y List.mem_cons_self, ih fun x hx => hn x (List.mem_cons_of_mem _ hx)]
    have hrest : ∀ ys : List α, ys ⊆ xs → select p ns ys = select q ns ys := fun ys hys =>
      ih fun m hm x hx => h m (List.mem_cons_of_mem _ hm) x (hys hx)
    cases hq : xs.find? (q n) with
    | none => rw [select_none hq, select_none (hfind.trans hq), hrest xs (List.Subset.refl _)]
    | some x => rw [select_some hq, select_some (hfind.trans hq), herase, hrest _ List.eraseP_subset]

/-- A choice that passes some elements over leaves the same as the full one
    exactly if that takes none of them. -/
theorem select_rest_iff {w : α → Bool} (hp : ∀ n x, p n x = (q n x && !w x)) {w' : β → Bool} {f : α → β}
    (ns : List ν) {xs : List α} (hw : ∀ x ∈ xs, w' (f x) = w x) :
    (select p ns xs).2.map f = (select q ns xs).2.map f ↔ ∀ s ∈ (select q ns xs).1, w s.2 = false := by
  constructor
  · intro h
    have hcount := congrArg (List.countP w') h
    have hp' : (select p ns xs).1.countP (fun s => w s.2) = 0 := by
      rw [List.countP_eq_zero]
      intro s hs
      have hfits := (fits_of_mem_select hs).2.2
      rw [hp, Bool.and_eq_true, Bool.not_eq_true'] at hfits
      simp [hfits.2]
    have hcp := @countP_select _ _ p w ns xs
    have hcq := @countP_select _ _ q w ns xs
    have hview : ∀ {fits : ν → α → Bool}, ((select fits ns xs).2.map f).countP w' = (select fits ns xs).2.countP w := by
      intro fits
      rw [List.countP_map]
      apply List.countP_congr
      intro x hx
      rw [Function.comp_apply, hw x (select_rest_subset fits ns xs hx)]
    rw [hview, hview] at hcount
    have hzero : (select q ns xs).1.countP (fun s => w s.2) = 0 := by omega
    intro s hs
    simpa using List.countP_eq_zero.1 hzero s hs
  · intro h
    rw [select_narrow (p := p) (q := q)]
    · intro n x hx
      rw [hp, Bool.and_eq_true] at hx
      exact hx.1
    · intro s hs
      rw [hp, (fits_of_mem_select hs).2.2, h s hs]
      rfl

end Selection
