import Mathlib.Data.Nat.Notation

/-!
# Computations that return

A computation returns when it ends without a fault, with a result of a certain kind. What
follows a computation that returns may rely on its result.
-/

/-- The computation returns, and its result has the property. -/
def Returns {ε α : Type*} (Q : α → Prop) (x : Except ε α) : Prop := ∃ a, x = .ok a ∧ Q a

namespace Returns

variable {ε : Type*} {α β : Type _} {Q Q' : α → Prop} {R : β → Prop} {x : Except ε α}

theorem ok {a : α} (h : Q a) : Returns (ε := ε) Q (.ok a) := ⟨a, rfl, h⟩

theorem bind {f : α → Except ε β} (h : Returns Q x) (hnext : ∀ a, Q a → Returns R (f a)) :
    Returns R (x >>= f) := by
  obtain ⟨a, rfl, ha⟩ := h
  exact hnext a ha

theorem mono (h : Returns Q x) (himp : ∀ a, Q a → Q' a) : Returns Q' x := by
  obtain ⟨a, rfl, ha⟩ := h
  exact ⟨a, rfl, himp a ha⟩

theorem ite {c : Prop} [Decidable c] {y : Except ε α} (h : c → Returns Q x)
    (h' : ¬ c → Returns Q y) : Returns Q (if c then x else y) := by
  by_cases hc : c
  · rw [if_pos hc]
    exact h hc
  · rw [if_neg hc]
    exact h' hc

/-- The result, once it is known. -/
theorem of_eq_ok {a : α} (h : Returns Q x) (hx : x = .ok a) : Q a := by
  obtain ⟨b, rfl, hb⟩ := h
  cases hx
  exact hb

theorem ne_error (h : Returns Q x) (e : ε) : x ≠ .error e := by
  obtain ⟨a, rfl, -⟩ := h
  rintro ⟨⟩

end Returns
