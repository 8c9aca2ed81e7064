import Mathlib.Algebra.Group.Fin.Basic
import Mathlib.Data.List.Basic
import Mathlib.Tactic.Abel

/-!
# Circular buffers

A fixed number of slots is used as a queue between a read and a write index, both
of which advance modulo the number of slots. `contents` is the queue as a list,
oldest element first; the lemmas give the effect of a push and of a pop on it.
-/

namespace CircularBuffer

variable {α : Type*} {n : ℕ} [NeZero n]

/-- The occupied slots, from the read index up to the write index. -/
def contents (slots : Fin n → α) (read write : Fin n) : List α :=
  (List.range (write - read).val).map (fun k => slots (read + Fin.ofNat n k))

@[simp] theorem length_contents (slots : Fin n → α) (read write : Fin n) :
    (contents slots read write).length = (write - read).val := by
  simp [contents]

@[simp] theorem contents_self (slots : Fin n → α) (i : Fin n) : contents slots i i = [] := by
  simp [contents]

/-- The queue is empty exactly when the two indices coincide. -/
theorem contents_eq_nil_iff {slots : Fin n → α} {read write : Fin n} :
    contents slots read write = [] ↔ read = write := by
  constructor
  · intro h
    have hlen := congrArg List.length h
    rw [length_contents, List.length_nil, ← Fin.val_zero n, Fin.val_inj, sub_eq_zero] at hlen
    exact hlen.symm
  · rintro rfl
    exact contents_self slots read

/-- Advancing the write index lengthens the queue by one, unless it meets the
read index. -/
theorem val_add_one_sub {read write : Fin n} (hroom : write + 1 ≠ read) :
    (write + 1 - read).val = (write - read).val + 1 := by
  have hcomm : write + 1 - read = (write - read) + 1 := by abel
  have hne : (write - read) + 1 ≠ 0 := by
    rw [← hcomm]
    exact sub_ne_zero.mpr hroom
  have hlt := (write - read).isLt
  have hval : ((write - read) + 1).val = ((write - read).val + 1) % n := by
    rw [Fin.val_add, Fin.val_one', Nat.add_mod_mod]
  rw [hcomm, hval]
  apply Nat.mod_eq_of_lt
  by_contra hfull
  apply hne
  apply Fin.ext
  rw [hval, show (write - read).val + 1 = n by omega, Nat.mod_self, Fin.val_zero]

/-- There is room for another element as long as one slot stays free. -/
theorem room_iff {slots : Fin n → α} {read write : Fin n} :
    write + 1 ≠ read ↔ (contents slots read write).length + 1 < n := by
  rw [length_contents]
  constructor
  · intro hroom
    rw [← val_add_one_sub hroom]
    exact (write + 1 - read).isLt
  · intro hlt heq
    have hzero : (write - read) + 1 = 0 := by
      rw [← heq]
      abel
    have hval := congrArg Fin.val hzero
    rw [Fin.val_add, Fin.val_one', Nat.add_mod_mod, Nat.mod_eq_of_lt hlt, Fin.val_zero] at hval
    omega

private theorem read_add_ne_write {read write : Fin n} {k : ℕ} (hk : k < (write - read).val) :
    read + Fin.ofNat n k ≠ write := by
  intro heq
  have hsub : write - read = Fin.ofNat n k := by rw [← heq]; abel
  rw [hsub, Fin.val_ofNat] at hk
  have hle := Nat.mod_le k n
  omega

/-- Writing the slot at the write index and advancing it appends to the queue. -/
theorem contents_push {slots : Fin n → α} {read write : Fin n} (a : α)
    (hroom : write + 1 ≠ read) :
    contents (Function.update slots write a) read (write + 1) =
      contents slots read write ++ [a] := by
  unfold contents
  rw [val_add_one_sub hroom, List.range_succ, List.map_append]
  congr 1
  · apply List.map_congr_left
    intro k hk
    rw [Function.update_of_ne (read_add_ne_write (List.mem_range.mp hk))]
  · have hlast : read + Fin.ofNat n (write - read).val = write := by simp
    simp only [List.map_cons, List.map_nil, hlast, Function.update_self]

/-- A nonempty queue starts with the slot at the read index; advancing that index
leaves the remaining elements. -/
theorem contents_cons {slots : Fin n → α} {read write : Fin n} (hne : read ≠ write) :
    contents slots read write = slots read :: contents slots (read + 1) write := by
  have hpos : (write - read).val = (write - (read + 1)).val + 1 := by
    have hroom : (write - (read + 1)) + 1 ≠ 0 := by
      have hcomm : (write - (read + 1)) + 1 = write - read := by abel
      rw [hcomm]
      exact sub_ne_zero.mpr (Ne.symm hne)
    have h := @val_add_one_sub n _ 0 _ hroom
    rw [sub_zero, sub_zero] at h
    rw [← h]
    congr 1
    abel
  unfold contents
  rw [hpos, List.range_succ_eq_map, List.map_cons, List.map_map]
  congr 1
  · simp
  · apply List.map_congr_left
    intro k _
    have hsucc : Fin.ofNat n (k + 1) = 1 + Fin.ofNat n k := by
      apply Fin.ext
      rw [Fin.val_add, Fin.val_ofNat, Fin.val_ofNat, Fin.val_one', ← Nat.add_mod, Nat.add_comm]
    simp only [Function.comp_apply, Nat.succ_eq_add_one, hsucc, add_assoc]

end CircularBuffer
