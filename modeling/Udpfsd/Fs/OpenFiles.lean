import Udpfsd.Fs.Platform

/-!
# Open files

What is needed of the methods of `os.File`, in three parts, so that a result asks only for the
methods it speaks of: where a file stands and what it holds, with `Seek`; `Read`; and `Write`. A
write may fail after it has stored a part of its data.
-/

namespace Udpfsd.Fs

open Udprdma (Byte)

variable {η φ ρ : Type}

/-! ### Bytes written into a file -/

/-- The bytes of a file after `data` has been written at `pos`; a hole is zeros. Writing nothing
changes nothing. -/
def overwrite (content : List Byte) (pos : ℕ) (data : List Byte) : List Byte :=
  if data = [] then content
  else content.take pos ++ List.replicate (pos - content.length) 0 ++ data ++
    content.drop (pos + data.length)

/-- Writing nothing changes nothing. -/
@[simp] theorem overwrite_nil (content : List Byte) (pos : ℕ) :
    overwrite content pos [] = content :=
  if_pos rfl

/-- A file that something has been written to reaches as far as what was written. -/
theorem length_overwrite {data : List Byte} (hdata : data ≠ []) (content : List Byte) (pos : ℕ) :
    (overwrite content pos data).length = max content.length (pos + data.length) := by
  rw [overwrite, if_neg hdata]
  simp only [List.length_append, List.length_take, List.length_replicate, List.length_drop]
  omega

/-- Outside of what is written, every byte stays. -/
theorem getElem?_overwrite {content data : List Byte} {pos i : ℕ} (hi : i < content.length)
    (hout : i < pos ∨ pos + data.length ≤ i) : (overwrite content pos data)[i]? = content[i]? := by
  unfold overwrite
  split_ifs
  · rfl
  rcases hout with hlt | hge
  · rw [List.append_assoc, List.append_assoc, List.getElem?_append_left,
      List.getElem?_take_of_lt hlt]
    rw [List.length_take]
    omega
  · rw [List.getElem?_append_right] <;>
      simp only [List.length_append, List.length_take, List.length_replicate]
    · rw [List.getElem?_drop]
      congr 1
      omega
    · omega

/-- Data written behind the end is nowhere else. -/
theorem eq_of_overwrite_eq {content data : List Byte} {pos pos' : ℕ} (hdata : data ≠ [])
    (hend : content.length ≤ pos)
    (heq : overwrite content pos data = overwrite content pos' data) : pos = pos' := by
  have hpos := List.length_pos_iff.mpr hdata
  have hlength := congrArg List.length heq
  rw [length_overwrite hdata, length_overwrite hdata] at hlength
  omega

/-! ### The methods of open files -/

/-- What open files hold and where they stand. A seek from the start moves a file and changes
nothing else. -/
structure OpenFiles (P : Platform η φ ρ) where
  /-- The content of an open file. -/
  content : φ → η → List Byte
  /-- Its position. -/
  position : φ → ℕ
  /-- Whether it was opened for appending. -/
  appends : φ → Bool
  /-- The file is open. -/
  Live : φ → η → Prop
  /-- A seek from the start. -/
  seek : ∀ f offset h, Live f h →
    Live (P.os.seek f offset 0 h).2.1 (P.os.seek f offset 0 h).2.2 ∧
    content (P.os.seek f offset 0 h).2.1 (P.os.seek f offset 0 h).2.2 = content f h ∧
    appends (P.os.seek f offset 0 h).2.1 = appends f ∧
    ((P.os.seek f offset 0 h).1.2 = none →
      0 ≤ offset ∧ position (P.os.seek f offset 0 h).2.1 = offset.toNat)

/-- Where a file is written: at its position, or at its end when it was opened for appending. -/
def OpenFiles.target {P : Platform η φ ρ} (F : OpenFiles P) (f : φ) (h : η) : ℕ :=
  if F.appends f then (F.content f h).length else F.position f

/-- Files that are read. A read that does not fail fills its buffer up to the end of the file. -/
structure Files (P : Platform η φ ρ) extends OpenFiles P where
  /-- Sizes are signed 64-bit numbers. -/
  length_lt : ∀ f h, Live f h → (content f h).length < 2 ^ 63
  /-- A read. -/
  read : ∀ f n h, Live f h →
    (P.os.read f n h).1.2 ≠ some .closed ∧
    ((P.os.read f n h).1.2 = none ∨ (P.os.read f n h).1.2 = some .eof →
      Live (P.os.read f n h).2.1 (P.os.read f n h).2.2 ∧
      content (P.os.read f n h).2.1 (P.os.read f n h).2.2 = content f h ∧
      (P.os.read f n h).1.1 = ((content f h).drop (position f)).take n ∧
      position (P.os.read f n h).2.1 = position f + (P.os.read f n h).1.1.length)

/-- Files that are written. A write stores as many bytes as it reports, which are all of them
unless it fails. -/
structure WritableFiles (P : Platform η φ ρ) extends OpenFiles P where
  /-- A write. -/
  write : ∀ f data h, Live f h → ∃ n : ℕ, n ≤ data.length ∧
    (P.os.write f data h).1.1 = n ∧ ((P.os.write f data h).1.2 = none → n = data.length) ∧
    content (P.os.write f data h).2.1 (P.os.write f data h).2.2 =
      overwrite (content f h) (toOpenFiles.target f h) (data.take n)

namespace WritableFiles

variable {P : Platform η φ ρ} (W : WritableFiles P) {f : φ} {data : List Byte} {h : η}

/-- A write that succeeds has stored all of its data. -/
theorem write_ok (hlive : W.Live f h) (hok : (P.os.write f data h).1.2 = none) :
    W.content (P.os.write f data h).2.1 (P.os.write f data h).2.2 =
      overwrite (W.content f h) (W.target f h) data := by
  obtain ⟨n, -, -, hall, hstored⟩ := W.write f data h hlive
  rw [hstored, hall hok, List.take_length]

/-- After a seek, a file that is not opened for appending is written at the offset. -/
theorem target_seek {offset : ℤ} (hlive : W.Live f h)
    (hok : (P.os.seek f offset 0 h).1.2 = none) :
    W.target (P.os.seek f offset 0 h).2.1 (P.os.seek f offset 0 h).2.2 =
      if W.appends f then (W.content f h).length else offset.toNat := by
  obtain ⟨-, hcontent, happends, hmoved⟩ := W.seek f offset h hlive
  rw [OpenFiles.target, happends, hcontent, (hmoved hok).2]

end WritableFiles

end Udpfsd.Fs
