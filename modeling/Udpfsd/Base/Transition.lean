import Mathlib.Data.Nat.Notation

/-!
# Reachable states

A state machine is given by its initial states and its step relation. Every
safety result of the development is an instance of the one induction below:
a property of the initial states that each step preserves holds of every
reachable state.
-/

namespace Transition

variable {σ : Type*}

/-- The states reached from an initial state by finitely many steps. -/
inductive Reachable (init : σ → Prop) (step : σ → σ → Prop) : σ → Prop
  | start {s : σ} : init s → Reachable init step s
  | next {s t : σ} : Reachable init step s → step s t → Reachable init step t

/-- The invariant rule. The step obligation may use that its source state is
itself reachable, so that established invariants need not be repeated. -/
theorem Reachable.invariant {init : σ → Prop} {step : σ → σ → Prop} {P : σ → Prop}
    (hinit : ∀ s, init s → P s)
    (hstep : ∀ s t, Reachable init step s → P s → step s t → P t)
    {s : σ} (hs : Reachable init step s) : P s := by
  induction hs with
  | start h => exact hinit _ h
  | next hr h ih => exact hstep _ _ hr ih h

end Transition

namespace Fallible

variable {ε : Type*} {α β : Type _}

/-- A bind that succeeds splits into its two successful halves. -/
theorem bind_eq_ok {x : Except ε α} {f : α → Except ε β} {b : β} :
    x >>= f = .ok b ↔ ∃ a, x = .ok a ∧ f a = .ok b := by
  cases x with
  | error e => simp [Bind.bind, Except.bind]
  | ok a => simp [Bind.bind, Except.bind]

/-- A computation whose result is dropped succeeds with some result. -/
theorem map_snd_eq_ok {γ : Type _} {x : Except ε (γ × α)} {a : α} :
    Prod.snd <$> x = .ok a ↔ ∃ c, x = .ok (c, a) := by
  cases x with
  | error e => simp [Functor.map, Except.map]
  | ok p =>
    obtain ⟨c, a'⟩ := p
    simp [Functor.map, Except.map]

/-- A bind that fails does so in its first half, or in its second after the
first succeeded. -/
theorem bind_eq_error {x : Except ε α} {f : α → Except ε β} {e : ε} :
    x >>= f = .error e ↔ x = .error e ∨ ∃ a, x = .ok a ∧ f a = .error e := by
  cases x with
  | error e => simp [Bind.bind, Except.bind]
  | ok a => simp [Bind.bind, Except.bind]

/-- A computation that is only made under a condition. -/
def guarded (p : Prop) [Decidable p] (x : Except ε α) : Except (Option ε) α :=
  if p then x.mapError some else .error none

/-- A computation under a condition succeeds if the condition is met and it succeeds. -/
theorem guarded_eq_ok {p : Prop} [Decidable p] {x : Except ε α} {a : α} :
    guarded p x = .ok a ↔ p ∧ x = .ok a := by
  unfold guarded
  by_cases hp : p
  · rw [if_pos hp]
    cases x with
    | error e =>
      change (.error (some e) : Except (Option ε) α) = .ok a ↔ _
      simp
    | ok b =>
      change (.ok b : Except (Option ε) α) = .ok a ↔ _
      simp [hp]
  · simp [hp]

/-- Two computations that fail with the same error, or succeed with related results. -/
def Related {γ : Type _} (R : α → γ → Prop) : Except ε α → Except ε γ → Prop
  | .ok a, .ok b => R a b
  | .error e, .error e' => e = e'
  | _, _ => False

/-- Related computations continued alike are related. -/
theorem Related.bind {γ δ : Type _} {R : α → γ → Prop} {S : β → δ → Prop} {x : Except ε α}
    {y : Except ε γ} {f : α → Except ε β} {g : γ → Except ε δ} (h : Related R x y)
    (hcont : ∀ a b, R a b → Related S (f a) (g b)) : Related S (x >>= f) (y >>= g) := by
  cases x with
  | error e =>
    cases y with
    | error e' => exact h
    | ok b => exact h.elim
  | ok a =>
    cases y with
    | error e' => exact h.elim
    | ok b => exact hcont a b h

end Fallible

/-- A run given as a list of events reaches its end state. -/
theorem Transition.Reachable.foldlM {σ : Type _} {ι ε : Type*} {init : σ → Prop}
    {rel : σ → σ → Prop} {step : σ → ι → Except ε σ} {s t : σ} {events : List ι}
    (hstep : ∀ e ∈ events, ∀ s t, step s e = .ok t → rel s t) (hs : Reachable init rel s)
    (hrun : events.foldlM step s = .ok t) : Reachable init rel t := by
  induction events generalizing s with
  | nil =>
    cases hrun
    exact hs
  | cons e events ih =>
    rw [List.foldlM_cons] at hrun
    obtain ⟨u, hu, hrest⟩ := Fallible.bind_eq_ok.mp hrun
    exact ih (fun e he => hstep e (List.mem_cons_of_mem _ he))
      (.next hs (hstep e List.mem_cons_self s u hu)) hrest
