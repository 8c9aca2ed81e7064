import Mathlib.Data.Int.Cast.Defs
import Mathlib.Data.Nat.Cast.Basic
import Mathlib.Data.List.Basic
import Mathlib.Tactic.Abel

/-!
# Runs of consecutive sequence numbers

Sequence numbers live in a commutative group with a unit step, such as the
integers or the words of a fixed width. A run is described by the number that
follows its last element, so that dropping elements from the front does not
change the description.
-/

namespace SeqSpace

variable {R : Type*} [AddCommGroupWithOne R]

/-- The numbers of the list follow each other by steps of one and the last of
them is the predecessor of `stop`. -/
def Consecutive (stop : R) : List R → Prop
  | [] => True
  | x :: xs => x = stop - ((xs.length + 1 : ℕ) : R) ∧ Consecutive stop xs

variable {xs : List R}

/-- A run is extended by the number that follows it. -/
theorem Consecutive.append_singleton {stop : R} (h : Consecutive stop xs) :
    Consecutive (stop + 1) (xs ++ [stop]) := by
  induction xs with
  | nil => simp [Consecutive]
  | cons x xs ih =>
    obtain ⟨hx, hxs⟩ := h
    rw [List.cons_append]
    refine ⟨?_, ih hxs⟩
    rw [hx, List.length_append, List.length_singleton]
    push_cast
    abel

/-- The rest of a run after its first elements is a run with the same end. -/
theorem Consecutive.drop {stop : R} (h : Consecutive stop xs) (k : ℕ) :
    Consecutive stop (xs.drop k) := by
  induction xs generalizing k with
  | nil => simp [Consecutive]
  | cons x xs ih =>
    cases k with
    | zero => exact h
    | succ k => exact ih h.2 k

/-- The element with `k` elements after it lies `k + 1` before the end. -/
theorem Consecutive.getElem {stop : R} (h : Consecutive stop xs) {k : ℕ}
    (hk : k < xs.length) : xs[k] = stop - ((xs.length - k : ℕ) : R) := by
  induction xs generalizing k with
  | nil => simp at hk
  | cons x xs ih =>
    cases k with
    | zero => simpa using h.1
    | succ k =>
      have hk' : k < xs.length := by simpa using hk
      simpa using ih h.2 hk'

/-- The last number of a run is the one before its end. -/
theorem Consecutive.getLast? {stop : R} (h : Consecutive stop xs) (hne : xs ≠ []) :
    xs.getLast? = some (stop - 1) := by
  have hpos : 0 < xs.length := List.length_pos_iff.mpr hne
  rw [List.getLast?_eq_getElem?, List.getElem?_eq_getElem (by omega), h.getElem]
  simp [show xs.length - (xs.length - 1) = 1 by omega]

/-- A run is determined by its length and its end. -/
theorem Consecutive.eq_map_range {stop : R} (h : Consecutive stop xs) :
    xs = (List.range xs.length).map (fun k => stop - ((xs.length - k : ℕ) : R)) := by
  apply List.ext_getElem
  · simp
  · intro k h₁ h₂
    simp [h.getElem h₁]

/-- Every member of a run lies at some distance within its length before the end. -/
theorem Consecutive.mem {stop x : R} (h : Consecutive stop xs) (hx : x ∈ xs) :
    ∃ k, 0 < k ∧ k ≤ xs.length ∧ x = stop - (k : R) := by
  obtain ⟨k, hk, rfl⟩ := List.mem_iff_getElem.mp hx
  exact ⟨xs.length - k, by omega, by omega, h.getElem hk⟩

end SeqSpace
