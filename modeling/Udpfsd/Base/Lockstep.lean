import Udpfsd.Base.Program

/-!
# Two computations in lockstep

Two computations are in lockstep when both stop with the same fault or both succeed with
related results. Sequences of computations in lockstep are in lockstep, so that a relation
between two states is carried through a whole program by one lemma for each of its parts.
-/

/-- Both computations stop with one fault, or their results are related. -/
inductive Lockstep {ε α β : Type*} (R : α → β → Prop) : Except ε α → Except ε β → Prop
  /-- The same fault. -/
  | fault (e : ε) : Lockstep R (.error e) (.error e)
  /-- Related results. -/
  | done {a : α} {b : β} : R a b → Lockstep R (.ok a) (.ok b)

namespace Lockstep

/-- The same value beside related states. -/
def Same {α σ τ : Type*} (Q : σ → τ → Prop) (x : α × σ) (y : α × τ) : Prop := x.1 = y.1 ∧ Q x.2 y.2

variable {ε : Type*} {α β γ δ : Type _} {R : α → β → Prop} {S : γ → δ → Prop}
  {x : Except ε α} {y : Except ε β}

/-- What is done with related results keeps in step. -/
theorem bind {f : α → Except ε γ} {g : β → Except ε δ} (h : Lockstep R x y)
    (hnext : ∀ a b, R a b → Lockstep S (f a) (g b)) : Lockstep S (x >>= f) (y >>= g) := by
  cases h with
  | fault e => exact .fault e
  | done hab => exact hnext _ _ hab

/-- A condition that both look at. -/
theorem ite {c : Prop} [Decidable c] {x' : Except ε α} {y' : Except ε β} (h : c → Lockstep R x y)
    (h' : ¬ c → Lockstep R x' y') : Lockstep R (if c then x else x') (if c then y else y') := by
  by_cases hc : c
  · rw [if_pos hc, if_pos hc]
    exact h hc
  · rw [if_neg hc, if_neg hc]
    exact h' hc

/-- When the first succeeds, so does the second. -/
theorem of_ok {a : α} (h : Lockstep R (.ok a) y) : ∃ b, y = .ok b ∧ R a b := by
  cases h with
  | done hab => exact ⟨_, rfl, hab⟩

/-- When the first stops, so does the second. -/
theorem of_error {e : ε} (h : Lockstep R (.error e) y) : y = .error e := by
  cases h with
  | fault => rfl

/-- Computations with the same value beside their states. -/
theorem bind_same {σ τ : Type _} {Q : σ → τ → Prop} {x : Except ε (α × σ)} {y : Except ε (α × τ)}
    {f : α × σ → Except ε γ} {g : α × τ → Except ε δ} (h : Lockstep (Same Q) x y)
    (hnext : ∀ a s t, Q s t → Lockstep S (f (a, s)) (g (a, t))) :
    Lockstep S (x >>= f) (y >>= g) := by
  refine h.bind ?_
  rintro ⟨a, s⟩ ⟨b, t⟩ ⟨rfl, hst⟩
  exact hnext a s t hst

end Lockstep

namespace Program

variable {σ ε π α β : Type} {Q : σ → σ → Prop}

/-- The program does the same from related states. -/
def InStep (Q : σ → σ → Prop) (p : Program σ ε π α) : Prop :=
  ∀ s t, Q s t → Lockstep (Lockstep.Same Q) (p s) (p t)

namespace InStep

theorem pure (a : α) : InStep Q (pure a : Program σ ε π α) := fun _ _ hst => .done ⟨rfl, hst⟩

theorem fail (err : ε) : InStep Q (fail err : Program σ ε π α) := fun _ _ hst => .done ⟨rfl, hst⟩

theorem fault (e : π) : InStep Q (fault e : Program σ ε π α) := fun _ _ _ => .fault e

theorem bind {p : Program σ ε π α} {k : α → Program σ ε π β} (hp : InStep Q p)
    (hk : ∀ a, InStep Q (k a)) : InStep Q (p >>= k) := by
  intro s t hst
  change Lockstep _ (seq p k s) (seq p k t)
  unfold seq
  have hfirst := hp s t hst
  generalize p s = x at hfirst ⊢
  generalize p t = y at hfirst ⊢
  cases hfirst with
  | fault e => exact .fault e
  | @done a b hab =>
    obtain ⟨r, s'⟩ := a
    obtain ⟨r', t'⟩ := b
    obtain ⟨rfl, hst'⟩ := hab
    cases r with
    | error err => exact .done ⟨rfl, hst'⟩
    | ok a => exact hk a s' t' hst'

theorem ite {p q : Program σ ε π α} {c : Prop} [Decidable c] (hp : InStep Q p)
    (hq : InStep Q q) : InStep Q (if c then p else q) := by
  by_cases hc : c
  · rwa [if_pos hc]
  · rwa [if_neg hc]

theorem check (condition : Bool) (err : ε) :
    InStep Q (check condition err : Program σ ε π Unit) :=
  .ite (.pure ()) (.fail err)

end InStep

end Program
