import Mathlib.Data.List.Basic

/-!
# Waiting for a subsequence

To wait for the elements of a pattern in their order, remember the part of it that is
still to come, and drop its head when that element arrives. Nothing is lost by taking an
element when it first comes: the part to come is empty exactly when the pattern is a
subsequence of what has arrived.
-/

namespace Subsequence

variable {α : Type*} [DecidableEq α]

/-- What is still to come after one arrival. -/
def advance : List α → α → List α
  | [], _ => []
  | p :: rest, a => if a = p then rest else p :: rest

/-- What is still to come of a pattern after some arrivals. -/
def toCome (pattern arrived : List α) : List α := arrived.foldl advance pattern

theorem toCome_append_singleton (pattern arrived : List α) (a : α) :
    toCome pattern (arrived ++ [a]) = advance (toCome pattern arrived) a := by
  simp [toCome]

theorem toCome_nil (arrived : List α) : toCome [] arrived = [] := by
  induction arrived with
  | nil => rfl
  | cons a arrived ih => exact ih

theorem toCome_eq_nil {pattern arrived : List α} :
    toCome pattern arrived = [] ↔ pattern.Sublist arrived := by
  induction arrived generalizing pattern with
  | nil => exact List.sublist_nil.symm
  | cons a arrived ih =>
    cases pattern with
    | nil => simp [toCome_nil]
    | cons p rest =>
      change toCome (advance (p :: rest) a) arrived = [] ↔ _
      rw [advance]
      split_ifs with hap
      · rw [ih, hap, List.cons_sublist_cons]
      · rw [ih]
        constructor
        · exact .cons a
        · intro h
          cases h with
          | cons _ h => exact h
          | cons_cons _ h => exact absurd rfl hap

/-- Of consecutive numbers, the first is the next to come. -/
theorem advance_range' (k m a : ℕ) :
    advance (List.range' k (m + 1)) a =
      if a = k then List.range' (k + 1) m else List.range' k (m + 1) :=
  rfl

end Subsequence
