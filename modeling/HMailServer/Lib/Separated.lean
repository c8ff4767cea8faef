import Mathlib

/- A text as the pieces between its separators. -/
namespace Separated

variable {α : Type} {sep : α}

theorem notMem_of_mem_splitOn [DecidableEq α] {s p : List α} (h : p ∈ s.splitOn sep) : sep ∉ p := by
  induction s generalizing p with
  | nil =>
    rw [List.splitOn_nil, List.mem_singleton] at h
    rw [h]
    exact List.not_mem_nil
  | cons c s ih =>
    obtain ⟨q, qs, hqs⟩ := List.exists_cons_of_ne_nil (List.splitOn_ne_nil sep s)
    rw [List.splitOn_cons_eq_if_modifyHead, hqs] at h
    rw [hqs] at ih
    split at h
    · rcases List.mem_cons.1 h with rfl | h
      · exact List.not_mem_nil
      · exact ih h
    · rename_i hc
      rcases List.mem_cons.1 h with rfl | h
      · rw [List.mem_cons, not_or]
        exact ⟨fun hsep => hc (by simp [hsep]), ih List.mem_cons_self⟩
      · exact ih (List.mem_cons_of_mem _ h)

/-- A text is its first piece and the others with a separator in front of
    each. -/
theorem intercalate_cons (p : List α) (ps : List (List α)) :
    [sep].intercalate (p :: ps) = p ++ ps.flatMap (sep :: ·) := by
  induction ps generalizing p with
  | nil => simp
  | cons q ps ih => rw [List.intercalate_cons_cons, ih, List.flatMap_cons, List.append_assoc, List.singleton_append,
      List.cons_append]

/-- What a piece has the text has. -/
theorem mem_of_mem_splitOn [DecidableEq α] {s p : List α} {c : α} (hp : p ∈ s.splitOn sep) (hc : c ∈ p) : c ∈ s := by
  have hjoin : [sep].intercalate (s.splitOn sep) = s := List.intercalate_splitOn sep
  obtain ⟨q, qs, hqs⟩ := List.exists_cons_of_ne_nil (List.splitOn_ne_nil sep s)
  rw [hqs] at hp hjoin
  rw [← hjoin, intercalate_cons, List.mem_append, List.mem_flatMap]
  rcases List.mem_cons.1 hp with rfl | hp
  · exact .inl hc
  · exact .inr ⟨p, hp, List.mem_cons_of_mem _ hc⟩

/-- What a text has is a separator or stands in a piece. -/
theorem mem_or_mem_splitOn [DecidableEq α] (sep : α) {s : List α} {c : α} (hc : c ∈ s) :
    c = sep ∨ ∃ p ∈ s.splitOn sep, c ∈ p := by
  have hjoin : [sep].intercalate (s.splitOn sep) = s := List.intercalate_splitOn sep
  obtain ⟨q, qs, hqs⟩ := List.exists_cons_of_ne_nil (List.splitOn_ne_nil sep s)
  rw [hqs] at hjoin ⊢
  rw [← hjoin, intercalate_cons, List.mem_append, List.mem_flatMap] at hc
  rcases hc with hc | ⟨p, hp, hc⟩
  · exact .inr ⟨q, List.mem_cons_self, hc⟩
  · rcases List.mem_cons.1 hc with rfl | hc
    · exact .inl rfl
    · exact .inr ⟨p, List.mem_cons_of_mem _ hp, hc⟩

/-- A text goes on in its last piece. -/
theorem splitOn_append [DecidableEq α] (sep : α) (s : List α) :
    ∃ ps l, s.splitOn sep = ps ++ [l] ∧ ∀ t : List α, (s ++ t).splitOn sep = ps ++ (t.splitOn sep).modifyHead (l ++ ·) := by
  induction s with
  | nil =>
    refine ⟨[], [], List.splitOn_nil sep, fun t => ?_⟩
    obtain ⟨q, qs, hqs⟩ := List.exists_cons_of_ne_nil (List.splitOn_ne_nil sep t)
    simp [hqs]
  | cons c s ih =>
    obtain ⟨ps, l, hs, hst⟩ := ih
    by_cases hc : c = sep
    · refine ⟨[] :: ps, l, ?_, fun t => ?_⟩
      · rw [List.splitOn_cons_eq_if_modifyHead, if_pos (by simp [hc]), hs, List.cons_append]
      · rw [List.cons_append, List.splitOn_cons_eq_if_modifyHead, if_pos (by simp [hc]), hst, List.cons_append]
    · have hne : ¬ (c == sep) = true := by simp [hc]
      cases ps with
      | nil =>
        refine ⟨[], c :: l, ?_, fun t => ?_⟩
        · rw [List.splitOn_cons_eq_if_modifyHead, if_neg hne, hs]
          rfl
        · rw [List.cons_append, List.splitOn_cons_eq_if_modifyHead, if_neg hne, hst]
          obtain ⟨q, qs, hqs⟩ := List.exists_cons_of_ne_nil (List.splitOn_ne_nil sep t)
          rw [hqs]
          rfl
      | cons p ps =>
        refine ⟨(c :: p) :: ps, l, ?_, fun t => ?_⟩
        · rw [List.splitOn_cons_eq_if_modifyHead, if_neg hne, hs]
          rfl
        · rw [List.cons_append, List.splitOn_cons_eq_if_modifyHead, if_neg hne, hst]
          rfl

/-- The pieces of the beginning of a text begin the pieces of the text. -/
theorem prefix_of_mem_splitOn [DecidableEq α] {s t p : List α} (h : s <+: t) (hp : p ∈ s.splitOn sep) :
    ∃ q ∈ t.splitOn sep, p <+: q := by
  obtain ⟨rest, rfl⟩ := h
  obtain ⟨ps, l, hs, hst⟩ := splitOn_append sep s
  obtain ⟨q, qs, hqs⟩ := List.exists_cons_of_ne_nil (List.splitOn_ne_nil sep rest)
  rw [hst, hqs, List.modifyHead_cons]
  rw [hs, List.mem_append, List.mem_singleton] at hp
  rcases hp with hp | rfl
  · exact ⟨p, List.mem_append_left _ hp, List.prefix_rfl⟩
  · exact ⟨p ++ q, List.mem_append_right _ List.mem_cons_self, List.prefix_append p q⟩

/-- Two texts are the same exactly if they begin with the same piece and go on
    alike. -/
theorem append_inj {p q : List α} {s t : List α} (hp : sep ∉ p) (hq : sep ∉ q)
    (hs : ∀ c, s.head? = some c → c = sep) (ht : ∀ c, t.head? = some c → c = sep) (h : p ++ s = q ++ t) :
    p = q ∧ s = t := by
  induction p generalizing q with
  | nil =>
    cases q with
    | nil => exact ⟨rfl, h⟩
    | cons c q =>
      have hc : c = sep := hs c (by rw [List.nil_append] at h; rw [h]; rfl)
      exact absurd (by rw [hc]; exact List.mem_cons_self) hq
  | cons c p ih =>
    cases q with
    | nil =>
      have hc : c = sep := ht c (by rw [List.nil_append] at h; rw [← h]; rfl)
      exact absurd (by rw [hc]; exact List.mem_cons_self) hp
    | cons d q =>
      obtain ⟨hcd, hrest⟩ := List.cons.inj h
      rw [List.mem_cons, not_or] at hp hq
      obtain ⟨hpq, hst⟩ := ih hp.2 hq.2 hrest
      exact ⟨by rw [hcd, hpq], hst⟩

end Separated
