import HMailServer.Lib.Occurrence

/- Texts in which no two separators stand side by side, and which neither begin nor end
   with one: the pieces of such a text are not empty. A doubled separator between two of
   them is found where it stands, and is the only one. -/
namespace LoneSeparator

variable {α : Type} {sep : α} {s t : List α}

structure Lone (sep : α) (s : List α) : Prop where
  chain : s.IsChain fun a b => ¬(a = sep ∧ b = sep)
  head : s.head? ≠ some sep
  last : s.getLast? ≠ some sep

theorem lone_nil (sep : α) : Lone sep [] := ⟨List.IsChain.nil, nofun, nofun⟩

theorem lone_of_notMem (h : sep ∉ s) : Lone sep s := by
  refine ⟨?_, ?_, ?_⟩
  · apply List.Pairwise.isChain
    apply List.Pairwise.imp_of_mem (R := fun _ _ => True)
    · intro a b ha _ _ hab
      rw [hab.1] at ha
      exact h ha
    · exact List.pairwise_of_forall fun _ _ => trivial
  · intro hhead
    exact h (List.mem_of_head? hhead)
  · intro hlast
    exact h (List.mem_of_getLast? hlast)

/-- Two texts with one separator between them, where neither is empty. -/
theorem Lone.append (hs : Lone sep s) (ht : Lone sep t) (hs' : s ≠ []) (ht' : t ≠ []) :
    Lone sep (s ++ sep :: t) := by
  refine ⟨?_, ?_, ?_⟩
  · rw [List.isChain_append, List.isChain_cons]
    refine ⟨hs.chain, ⟨?_, ht.chain⟩, ?_⟩
    · intro b hb hab
      rw [hab.2] at hb
      exact ht.head hb
    · intro a ha b _ hab
      rw [hab.1] at ha
      exact hs.last ha
  · rw [List.head?_append_of_ne_nil _ hs']
    exact hs.head
  · rw [List.getLast?_append_of_ne_nil _ (by simp), List.getLast?_cons_of_ne_nil ht']
    exact ht.last

theorem lone_intercalate {pieces : List (List α)} (h : ∀ p ∈ pieces, p ≠ [] ∧ sep ∉ p) :
    Lone sep ([sep].intercalate pieces) ∧ ([sep].intercalate pieces = [] ↔ pieces = []) := by
  induction pieces with
  | nil => exact ⟨lone_nil sep, by simp⟩
  | cons p pieces ih =>
    obtain ⟨hne, hmem⟩ := h p List.mem_cons_self
    obtain ⟨hlone, hempty⟩ := ih fun q hq => h q (List.mem_cons_of_mem p hq)
    cases pieces with
    | nil =>
      rw [List.intercalate_singleton]
      exact ⟨lone_of_notMem hmem, by simp [hne]⟩
    | cons q pieces =>
      rw [List.intercalate_cons_cons, List.append_assoc, List.singleton_append]
      refine ⟨(lone_of_notMem hmem).append hlone hne (fun he => absurd (hempty.1 he) (by simp)), by simp [hne]⟩

/-! ## The doubled separator -/

theorem Lone.no_pair (h : Lone sep s) : ¬[sep, sep] <:+: s := by
  intro hin
  have hpair := h.chain.infix hin
  rw [List.isChain_pair] at hpair
  exact hpair ⟨rfl, rfl⟩

/-- Between two texts without one the doubled separator stands once. -/
theorem position_of_pair {j : Nat} (hs : Lone sep s) (ht : Lone sep t)
    (h : [sep, sep] <+: (s ++ sep :: sep :: t).drop j) : j = s.length := by
  obtain hlt | heq | hgt := lt_trichotomy j s.length
  · -- the first of the two is in front of the place
    rw [List.drop_append_of_le_length hlt.le] at h
    cases hdrop : s.drop j with
    | nil =>
      rw [List.drop_eq_nil_iff] at hdrop
      omega
    | cons a rest =>
      rw [hdrop, List.cons_append, List.cons_prefix_cons] at h
      obtain ⟨rfl, h⟩ := h
      have hsuffix : sep :: rest <:+ s := hdrop ▸ List.drop_suffix j s
      cases rest with
      | nil =>
        obtain ⟨u, rfl⟩ := hsuffix
        exact absurd (by simp) hs.last
      | cons b rest =>
        rw [List.cons_append, List.cons_prefix_cons] at h
        obtain ⟨rfl, -⟩ := h
        have hpair : [sep, sep] <+: sep :: sep :: rest := by simp
        exact absurd (hpair.isInfix.trans hsuffix.isInfix) hs.no_pair
  · exact heq
  · -- or the second is behind it
    obtain ⟨k, rfl⟩ := Nat.exists_eq_add_of_lt hgt
    rw [List.drop_append, List.drop_eq_nil_of_le (by omega), List.nil_append] at h
    have hrest : s.length + k + 1 - s.length = k + 1 := by omega
    rw [hrest, List.drop_succ_cons] at h
    cases k with
    | zero =>
      cases t with
      | nil => simp at h
      | cons b t =>
        rw [List.drop_zero, List.cons_prefix_cons, List.cons_prefix_cons] at h
        exact absurd (by rw [h.2.1]; rfl) ht.head
    | succ k =>
      rw [List.drop_succ_cons] at h
      exact absurd (h.isInfix.trans (List.drop_suffix k t).isInfix) ht.no_pair

variable [DecidableEq α]

theorem find_none (h : Lone sep s) : Occurrence.find [sep, sep] s = none := by
  rw [Occurrence.find_eq_none_iff (by simp)]
  intro j hpre
  exact h.no_pair (hpre.isInfix.trans (List.drop_suffix j s).isInfix)

theorem find_append (hs : Lone sep s) (ht : Lone sep t) :
    Occurrence.find [sep, sep] (s ++ sep :: sep :: t) = some s.length := by
  rw [Occurrence.find_eq_some_iff]
  refine ⟨by simp, by simp, ?_⟩
  intro j hj hpre
  have heq := position_of_pair hs ht hpre
  omega

end LoneSeparator
