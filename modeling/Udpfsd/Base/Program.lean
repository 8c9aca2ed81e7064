import Mathlib.Data.Nat.Notation

/-!
# Programs with errors and faults

A program works on a state. It returns a value or an error, and in both cases the state
it has left; or it stops with a fault, and there is no state any more. A sequence of two
programs ends with the first error or fault.
-/

/-- A program on a state `σ` with errors `ε` and faults `π`. -/
def Program (σ ε π α : Type) : Type := σ → Except π (Except ε α × σ)

namespace Program

variable {σ ε π α β : Type}

/-- The program that returns a value. -/
def ret (a : α) : Program σ ε π α := fun s => .ok (.ok a, s)

/-- The program that returns an error. -/
def fail (err : ε) : Program σ ε π α := fun s => .ok (.error err, s)

/-- The program that stops with a fault. -/
def fault (e : π) : Program σ ε π α := fun _ => .error e

/-- A program and what is done with its value. -/
def seq (p : Program σ ε π α) (k : α → Program σ ε π β) : Program σ ε π β := fun s =>
  match p s with
  | .error e => .error e
  | .ok (.error err, s) => .ok (.error err, s)
  | .ok (.ok a, s) => k a s

instance : Monad (Program σ ε π) where
  pure := ret
  bind := seq

/-- The program that returns an error unless a condition is met. -/
def check (condition : Bool) (err : ε) : Program σ ε π Unit :=
  if condition then ret () else fail err

variable {p : Program σ ε π α} {k : α → Program σ ε π β} {s t : σ} {a : α} {b : β} {err : ε}
  {condition : Bool}

theorem pure_run (a : α) (s : σ) : (pure a : Program σ ε π α) s = .ok (.ok a, s) := rfl

theorem check_run (hcondition : condition = true) :
    check condition err s = (.ok (.ok (), s) : Except π (Except ε Unit × σ)) := by
  rw [hcondition]
  rfl

theorem check_fail (hcondition : condition = false) :
    check condition err s = (.ok (.error err, s) : Except π (Except ε Unit × σ)) := by
  rw [hcondition]
  rfl

/-- A check that returns no error is passed, and leaves the state. -/
theorem check_eq_ok {u : Unit}
    (h : check condition err s = (.ok (.ok u, t) : Except π (Except ε Unit × σ))) :
    condition = true ∧ t = s := by
  cases condition with
  | true =>
    cases h
    exact ⟨rfl, rfl⟩
  | false => cases h

/-- After a value the second program runs. -/
theorem bind_of_ok (h : p s = .ok (.ok a, t)) : (p >>= k) s = k a t := by
  change seq p k s = _
  rw [seq, h]

/-- An error ends the sequence. -/
theorem bind_of_error (h : p s = .ok (.error err, t)) : (p >>= k) s = .ok (.error err, t) := by
  change seq p k s = _
  rw [seq, h]

/-- A fault ends the sequence. -/
theorem bind_of_fault {e : π} (h : p s = .error e) : (p >>= k) s = .error e := by
  change seq p k s = _
  rw [seq, h]

/-- A sequence returns a value when both programs do. -/
theorem bind_eq_ok :
    (p >>= k) s = .ok (.ok b, t) ↔ ∃ a u, p s = .ok (.ok a, u) ∧ k a u = .ok (.ok b, t) := by
  constructor
  · intro h
    change seq p k s = _ at h
    unfold seq at h
    split at h
    · cases h
    · cases h
    · rename_i a u heq
      exact ⟨a, u, heq, h⟩
  · rintro ⟨a, u, hp, hk⟩
    rw [bind_of_ok hp, hk]

/-- Sequences may be grouped either way. -/
theorem bind_assoc {γ : Type} (p : Program σ ε π α) (k : α → Program σ ε π β)
    (l : β → Program σ ε π γ) : ((p >>= k) >>= l) = (p >>= fun a => k a >>= l) := by
  funext s
  cases hp : p s with
  | error e => rw [bind_of_fault (bind_of_fault hp), bind_of_fault hp]
  | ok result =>
    obtain ⟨r, t⟩ := result
    cases r with
    | error err => rw [bind_of_error (bind_of_error hp), bind_of_error hp]
    | ok a =>
      rw [bind_of_ok hp]
      change seq (seq p k) l s = seq (k a) l t
      have hk : seq p k s = k a t := bind_of_ok hp
      rw [seq, hk]
      rfl

end Program
