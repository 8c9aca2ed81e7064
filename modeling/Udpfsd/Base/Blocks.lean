import Mathlib.Data.List.Basic

/-!
# A sequence in blocks

A sequence is cut into blocks of equal size, of which the last may be short. An element is
found in the block of its position divided by the block size, at the remainder. A container
of blocks is a sequence in which the blocks are placed at positions of their own.
-/

namespace Blocks

variable {α : Type*}

/-- Block `i` of a sequence in blocks of `b` elements. -/
def block (xs : List α) (b i : ℕ) : List α := (xs.drop (i * b)).take b

theorem length_block (xs : List α) (b i : ℕ) :
    (block xs b i).length = min b (xs.length - i * b) := by
  simp [block]

/-- A part of a block is a part of the sequence. -/
theorem part_block (xs : List α) {b i offset k : ℕ}
    (h : offset + k ≤ (block xs b i).length) :
    ((block xs b i).drop offset).take k = (xs.drop (i * b + offset)).take k := by
  rw [length_block] at h
  rw [block, List.drop_take, List.take_take, List.drop_drop, Nat.min_eq_left (by omega)]

/-- The size of the block of position `p` in a sequence of `n` elements: the last block is
short unless the blocks come out even. -/
theorem size_block {b n p : ℕ} (hb : 0 < b) (hp : p < n) :
    (if p / b + 1 = (n + b - 1) / b ∧ n % b ≠ 0 then n % b else b) = min b (n - p / b * b) := by
  obtain ⟨q, r, hr, rfl⟩ : ∃ q r, r < b ∧ n = q * b + r :=
    ⟨n / b, n % b, Nat.mod_lt n hb, (Nat.div_add_mod' n b).symm⟩
  have hmod : (q * b + r) % b = r := by
    rw [Nat.mul_add_mod_self_right, Nat.mod_eq_of_lt hr]
  have hle : p / b * b ≤ p := Nat.div_mul_le_self p b
  have hbefore (hlt : p / b < q) : min b (q * b + r - p / b * b) = b := by
    have hnext : (p / b + 1) * b ≤ q * b := Nat.mul_le_mul_right b hlt
    rw [Nat.succ_mul] at hnext
    exact Nat.min_eq_left (by omega)
  have hlast : p / b < q ∨ p / b = q ∧ 0 < r := by
    rcases Nat.lt_trichotomy (p / b) q with hlt | heq | hgt
    · exact Or.inl hlt
    · rw [heq] at hle
      exact Or.inr ⟨heq, by omega⟩
    · have hnext : (q + 1) * b ≤ p / b * b := Nat.mul_le_mul_right b hgt
      rw [Nat.succ_mul] at hnext
      omega
  rw [hmod]
  rcases Nat.eq_zero_or_pos r with rfl | hpos
  · rw [if_neg (fun h => h.2 rfl), hbefore (by omega)]
  · have hblocks : (q * b + r + b - 1) / b = q + 1 := by
      apply Nat.div_eq_of_lt_le <;> simp only [Nat.succ_mul] <;> omega
    rw [hblocks]
    rcases hlast with hlt | ⟨heq, -⟩
    · rw [if_neg (by omega), hbefore hlt]
    · rw [if_pos ⟨by rw [heq], by omega⟩, heq]
      omega

/-- An element of a block. -/
theorem getElem?_block (xs : List α) {b j : ℕ} (hj : j < b) (i : ℕ) :
    (block xs b i)[j]? = xs[i * b + j]? := by
  rw [block, List.getElem?_take_of_lt hj, List.getElem?_drop]

/-! ### Pieces of one size -/

section Pieces

variable {g : ℕ → List α} {n w : ℕ}

theorem length_flatMap_range (hlength : ∀ m < n, (g m).length = w) :
    ((List.range n).flatMap g).length = n * w := by
  induction n with
  | zero => simp
  | succ n ih =>
    rw [List.range_succ, List.flatMap_append, List.length_append,
      ih fun m hm => hlength m (by omega), List.flatMap_singleton, hlength n (by omega),
      Nat.succ_mul]

/-- Pieces of one size, put together, are looked up by quotient and remainder. -/
theorem getElem?_flatMap_range (hlength : ∀ m < n, (g m).length = w) {j : ℕ} (hj : j < n * w) :
    ((List.range n).flatMap g)[j]? = (g (j / w))[j % w]? := by
  induction n with
  | zero => omega
  | succ n ih =>
    have hbefore := length_flatMap_range (fun m (hm : m < n) => hlength m (by omega))
    rw [Nat.succ_mul] at hj
    rw [List.range_succ, List.flatMap_append, List.flatMap_singleton]
    rcases Nat.lt_or_ge j (n * w) with hlt | hge
    · rw [List.getElem?_append_left (by omega)]
      exact ih (fun m hm => hlength m (by omega)) hlt
    · obtain ⟨r, rfl⟩ : ∃ r, j = r + n * w := ⟨j - n * w, by omega⟩
      have hr : r < w := by omega
      rw [List.getElem?_append_right (by omega), hbefore, Nat.add_sub_cancel,
        Nat.add_mul_div_right r n (by omega), Nat.div_eq_of_lt hr, Nat.zero_add,
        Nat.add_mul_mod_self_right, Nat.mod_eq_of_lt hr]

end Pieces

/-! ### Parts at a position -/

/-- The sequence has this part at this position. -/
def Placed (xs : List α) (pos : ℕ) (part : List α) : Prop := part <+: xs.drop pos

instance [DecidableEq α] (xs : List α) (pos : ℕ) (part : List α) :
    Decidable (Placed xs pos part) :=
  inferInstanceAs (Decidable (part <+: xs.drop pos))

variable {xs part : List α} {pos n : ℕ}

/-- A part that is not empty is within the sequence. -/
theorem Placed.le_length (h : Placed xs pos part) (hpart : part ≠ []) :
    pos + part.length ≤ xs.length := by
  have hle := h.length_le
  have hpos := List.length_pos_iff.mpr hpart
  rw [List.length_drop] at hle
  omega

theorem Placed.take (h : Placed xs pos part) : (xs.drop pos).take part.length = part :=
  (List.prefix_iff_eq_take.mp h).symm

/-- A slice that is long enough starts with the part. -/
theorem Placed.slice_start (h : Placed xs pos part) (hn : part.length ≤ n) :
    part <+: (xs.drop pos).take n := by
  rw [← h.take, ← Nat.min_eq_left hn, ← List.take_take]
  exact List.take_prefix _ _

/-- A part of a sequence is a part of a slice around it. -/
theorem Placed.slice {start : ℕ} (h : Placed xs (start + pos) part) (hn : pos + part.length ≤ n) :
    Placed ((xs.drop start).take n) pos part := by
  rw [Placed, List.drop_take, List.drop_drop]
  exact h.slice_start (by omega)

end Blocks
