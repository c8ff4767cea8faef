import Mathlib

/- Recursion on fuel. `Returns f a` says that `f` answers `a` for all large
   enough fuel: total correctness of a function that answers `none` when its
   fuel runs out. The rules follow the shape of such a function, so that no
   proof has to name an amount of fuel. -/
namespace Fuel
variable {α β σ : Type}

def Returns (f : Nat → Option α) (a : α) : Prop := ∃ N, ∀ n ≥ N, f n = some a

namespace Returns

theorem pure' (a : α) : Returns (fun _ => some a) a := ⟨0, fun _ _ => rfl⟩

/-- One unit of fuel is spent on the step from `f` to `g`. -/
theorem step {f g : Nat → Option α} {a : α} (hg : Returns g a) (h : ∀ n, f (n + 1) = g n) :
    Returns f a := by
  obtain ⟨N, hN⟩ := hg
  refine ⟨N + 1, fun n hn => ?_⟩
  obtain ⟨k, rfl⟩ : ∃ k, n = k + 1 := ⟨n - 1, by omega⟩
  rw [h]
  exact hN k (by omega)

theorem bind' {f : Nat → Option α} {g : Nat → α → Option β} {a : α} {b : β} (hf : Returns f a)
    (hg : Returns (fun n => g n a) b) : Returns (fun n => (f n).bind (g n)) b := by
  obtain ⟨N, hN⟩ := hf
  obtain ⟨M, hM⟩ := hg
  refine ⟨max N M, fun n hn => ?_⟩
  show (f n).bind (g n) = some b
  rw [hN n (by omega), Option.bind_some]
  exact hM n (by omega)

theorem map' {f : Nat → Option α} {a : α} (hf : Returns f a) (g : α → β) :
    Returns (fun n => (f n).map g) (g a) := by
  obtain ⟨N, hN⟩ := hf
  refine ⟨N, fun n hn => ?_⟩
  show (f n).map g = some (g a)
  rw [hN n hn, Option.map_some]

theorem congr' {f g : Nat → Option α} {a : α} (hf : Returns f a) (h : ∀ n, g n = f n) :
    Returns g a := by
  have he : g = f := funext h
  rwa [he]

theorem foldlM_nil (g : Nat → σ → β → Option σ) (s : σ) :
    Returns (fun n => ([] : List β).foldlM (g n) s) s := pure' s

theorem foldlM_cons {g : Nat → σ → β → Option σ} {s s' t : σ} {b : β} {rest : List β}
    (hb : Returns (fun n => g n s b) s') (hrest : Returns (fun n => rest.foldlM (g n) s') t) :
    Returns (fun n => (b :: rest).foldlM (g n) s) t :=
  (bind' hb hrest).congr' fun _ => by rw [List.foldlM_cons]; rfl

end Returns
end Fuel
