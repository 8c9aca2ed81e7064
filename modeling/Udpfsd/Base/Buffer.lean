import Mathlib.Data.Nat.Notation

/-!
# Reused byte buffers

A buffer is a block of memory that is written over again and again. `copy`
overwrites a range, `fill` sets a range to one value, and `slice` reads a prefix.
The two lemmas about `slice` say that a prefix assembled by writes laid end to end
is the concatenation of what was written, whatever the buffer held before.
-/

/-- Memory addressed from zero; cells outside the part in use are never read. -/
def Buffer (α : Type*) := ℕ → α

namespace Buffer

variable {α : Type*}

/-- Overwrite the cells from `start` on with the elements of `xs`. -/
def copy (b : Buffer α) (start : ℕ) (xs : List α) : Buffer α := fun i =>
  if start ≤ i then (xs[i - start]?).getD (b i) else b i

/-- Set the cells from `start` up to, and not including, `stop`. -/
def fill (b : Buffer α) (start stop : ℕ) (a : α) : Buffer α := fun i =>
  if start ≤ i ∧ i < stop then a else b i

/-- The first `n` cells. -/
def slice (b : Buffer α) (n : ℕ) : List α := (List.range n).map (fun i => b i)

@[simp] theorem length_slice (b : Buffer α) (n : ℕ) : (b.slice n).length = n := by
  simp [slice]

/-- Appending one range of cells to a prefix. -/
theorem slice_add (b : Buffer α) (n k : ℕ) :
    b.slice (n + k) = b.slice n ++ (List.range k).map (fun i => b (n + i)) := by
  simp [slice, List.range_add, Function.comp_def]

/-- A copy placed right after a prefix extends that prefix by the copied data. -/
theorem slice_copy (b : Buffer α) (n : ℕ) (xs : List α) :
    (b.copy n xs).slice (n + xs.length) = b.slice n ++ xs := by
  rw [slice_add]
  congr 1
  · apply List.map_congr_left
    intro i hi
    have hlt : i < n := List.mem_range.mp hi
    simp [copy, Nat.not_le.mpr hlt]
  · apply List.ext_getElem
    · simp
    · intro i h₁ h₂
      simp [copy, h₂]

/-- A fill placed right after a prefix extends that prefix by the filled cells. -/
theorem slice_fill (b : Buffer α) (n k : ℕ) (a : α) :
    (b.fill n (n + k) a).slice (n + k) = b.slice n ++ List.replicate k a := by
  rw [slice_add]
  congr 1
  · apply List.map_congr_left
    intro i hi
    have hlt : i < n := List.mem_range.mp hi
    simp [fill, Nat.not_le.mpr hlt]
  · apply List.ext_getElem
    · simp
    · intro i h₁ h₂
      simp only [List.length_map, List.length_range] at h₁
      simp [fill, h₁]

end Buffer
