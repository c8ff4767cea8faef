import Mathlib

/- Runs of computations with a state, in three readings that compose: what a run keeps of
   the state, how far it raises a potential, and what it answers while an invariant holds.
   A potential is an integer read off the state; a charge below zero is paid ahead, so the
   bound of a run is what its steps have not paid for. -/
namespace StateRun

variable {σ α β γ δ : Type}

/-- A property of computations that the answers and the sequences of such have too. -/
structure Closed (P : ∀ {α : Type}, StateM σ α → Prop) : Prop where
  pure' : ∀ {α : Type} (a : α), P (pure a : StateM σ α)
  bind' : ∀ {α β : Type} {x : StateM σ α} {f : α → StateM σ β}, P x → (∀ a, P (f a)) → P (x >>= f)

/-! ## What a run keeps -/

/-- No run of `x` changes what `g` reads. -/
def Keeps (g : σ → γ) (x : StateM σ α) : Prop := ∀ s, g (x.run s).2 = g s

namespace Keeps
variable {g : σ → γ}

theorem pure' (a : α) : Keeps g (pure a : StateM σ α) := fun _ => rfl

theorem get' : Keeps g (get : StateM σ σ) := fun _ => rfl

theorem modify' {f : σ → σ} (h : ∀ s, g (f s) = g s) : Keeps g (modify f : StateM σ Unit) := h

theorem bind' {x : StateM σ α} {f : α → StateM σ β} (hx : Keeps g x) (hf : ∀ a, Keeps g (f a)) : Keeps g (x >>= f) := by
  intro s
  calc g ((x >>= f).run s).2 = g ((f (x.run s).1).run (x.run s).2).2 := rfl
    _ = g (x.run s).2 := hf _ _
    _ = g s := hx s

theorem map' {x : StateM σ α} (f : α → β) (hx : Keeps g x) : Keeps g (f <$> x) := hx

end Keeps

theorem Keeps.closed (g : σ → γ) : Closed (fun {α : Type} (x : StateM σ α) => Keeps g x) := ⟨Keeps.pure', Keeps.bind'⟩

/-! ## What a run maintains -/

/-- No run of `x` ends outside `I` that began in it. -/
def Maintains (I : σ → Prop) (x : StateM σ α) : Prop := ∀ s, I s → I (x.run s).2

theorem Maintains.closed (I : σ → Prop) : Closed (fun {α : Type} (x : StateM σ α) => Maintains I x) where
  pure' := fun _ _ hs => hs
  bind' := fun hx hf s hs => hf _ _ (hx s hs)

theorem Maintains.of_keeps {g : σ → γ} {I : γ → Prop} {x : StateM σ α} (hx : Keeps g x) : Maintains (fun s => I (g s)) x := by
  intro s hs
  show I (g (x.run s).2)
  rwa [hx s]

/-! ## How far it raises a potential -/

/-- A run of `x` raises the potential by no more than its result is charged. -/
def Rises (φ : σ → ℤ) (x : StateM σ α) (k : α → ℤ) : Prop := ∀ s, φ (x.run s).2 ≤ φ s + k (x.run s).1

namespace Rises
variable {φ : σ → ℤ}

theorem pure' (a : α) {k : α → ℤ} (h : 0 ≤ k a) : Rises φ (pure a : StateM σ α) k := by
  intro s
  show φ s ≤ φ s + k a
  exact le_add_of_nonneg_right h

theorem get' : Rises φ (get : StateM σ σ) fun _ => 0 := by
  intro s
  show φ s ≤ φ s + 0
  exact (add_zero _).ge

theorem modify' {f : σ → σ} {n : ℤ} (h : ∀ s, φ (f s) ≤ φ s + n) : Rises φ (modify f : StateM σ Unit) fun _ => n := h

theorem mono {x : StateM σ α} {j k : α → ℤ} (hx : Rises φ x j) (h : ∀ a, j a ≤ k a) : Rises φ x k := by
  intro s
  calc φ (x.run s).2 ≤ φ s + j (x.run s).1 := hx s
    _ ≤ φ s + k (x.run s).1 := Int.add_le_add_left (h _) _

/-- The continuation is charged what is left of its result's charge. -/
theorem bind' {x : StateM σ α} {f : α → StateM σ β} {j : α → ℤ} {k : β → ℤ} (hx : Rises φ x j)
    (hf : ∀ a, Rises φ (f a) fun b => k b - j a) : Rises φ (x >>= f) k := by
  intro s
  have hfirst := hx s
  have hsecond := hf (x.run s).1 (x.run s).2
  show φ ((f (x.run s).1).run (x.run s).2).2 ≤ φ s + k ((f (x.run s).1).run (x.run s).2).1
  linarith

theorem map' {x : StateM σ α} {f : α → β} {k : β → ℤ} (hx : Rises φ x fun a => k (f a)) : Rises φ (f <$> x) k := hx

theorem ite' {c : Prop} [Decidable c] {x y : StateM σ α} {k : α → ℤ} (hx : c → Rises φ x k) (hy : ¬c → Rises φ y k) :
    Rises φ (if c then x else y) k := by
  by_cases h : c
  · rw [if_pos h]
    exact hx h
  · rw [if_neg h]
    exact hy h

/-- What a run keeps has no part in what it raises. -/
theorem of_keeps {x : StateM σ α} {g : σ → γ} (hx : Keeps g x) {ψ : γ → ℤ} : Rises (fun s => ψ (g s)) x fun _ => 0 := by
  intro s
  show ψ (g (x.run s).2) ≤ ψ (g s) + 0
  rw [hx s, add_zero]

end Rises

/-- The computations that raise a potential by nothing. -/
theorem Rises.closed (φ : σ → ℤ) : Closed (fun {α : Type} (x : StateM σ α) => Rises φ x fun _ => 0) where
  pure' := fun a => Rises.pure' a le_rfl
  bind' := fun hx hf => Rises.bind' hx fun a => (hf a).mono fun _ => (sub_zero _).ge

/-! ## What it answers -/

/-- From a state that `I` holds of, a run of `x` gives what `read` reads as `b`, and `I`
    still holds. -/
def Yields (I : σ → Prop) (read : α → σ → β) (x : StateM σ α) (b : β) : Prop :=
  ∀ s, I s → read (x.run s).1 (x.run s).2 = b ∧ I (x.run s).2

/-- The answer itself. -/
def Answers (I : σ → Prop) (x : StateM σ α) (a : α) : Prop := Yields I (fun a _ => a) x a

namespace Answers
variable {I : σ → Prop}

theorem pure' (a : α) : Answers I (pure a : StateM σ α) a := fun _ hs => ⟨rfl, hs⟩

theorem yields_bind {x : StateM σ α} {f : α → StateM σ β} {a : α} {read : β → σ → γ} {c : γ} (hx : Answers I x a)
    (hf : Yields I read (f a) c) : Yields I read (x >>= f) c := by
  intro s hs
  obtain ⟨hanswer, hkept⟩ := hx s hs
  show read ((f (x.run s).1).run (x.run s).2).1 ((f (x.run s).1).run (x.run s).2).2 = c ∧
    I ((f (x.run s).1).run (x.run s).2).2
  dsimp only at hanswer
  rw [hanswer]
  exact hf _ hkept

theorem bind' {x : StateM σ α} {f : α → StateM σ β} {a : α} {b : β} (hx : Answers I x a) (hf : Answers I (f a) b) :
    Answers I (x >>= f) b := yields_bind hx hf

end Answers

/-! ## A run from one state -/

/-- What holds of the answer and of the state behind a run of `x` from `s`. -/
def Post (x : StateM σ α) (s : σ) (Q : α → σ → Prop) : Prop := Q (x.run s).1 (x.run s).2

namespace Post
variable {s : σ}

theorem mono {x : StateM σ α} {P Q : α → σ → Prop} (hx : Post x s P) (h : ∀ a t, P a t → Q a t) : Post x s Q :=
  h _ _ hx

theorem bind' {x : StateM σ α} {f : α → StateM σ β} {P : α → σ → Prop} {Q : β → σ → Prop} (hx : Post x s P)
    (hf : ∀ a t, P a t → Post (f a) t Q) : Post (x >>= f) s Q := hf _ _ hx

theorem get_bind {f : σ → StateM σ β} {Q : β → σ → Prop} (hf : Post (f s) s Q) : Post (get >>= f) s Q := hf

/-- Continuations that run the same from every state that can come up. -/
theorem bind_congr {x : StateM σ α} {f g : α → StateM σ β} {P : α → σ → Prop} (hx : Post x s P)
    (h : ∀ a t, P a t → (f a).run t = (g a).run t) : (x >>= f).run s = (x >>= g).run s := h _ _ hx

end Post

theorem run_bind_left {x y : StateM σ α} {f : α → StateM σ β} {s : σ} (h : x.run s = y.run s) :
    (x >>= f).run s = (y >>= f).run s := by
  show (f (x.run s).1).run (x.run s).2 = (f (y.run s).1).run (y.run s).2
  rw [h]

end StateRun
