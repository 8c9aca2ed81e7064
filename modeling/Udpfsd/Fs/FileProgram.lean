import Udpfsd.Base.Program
import Udpfsd.Base.Blocks
import Udpfsd.Fs.Platform

/-!
# Programs on an open file

The decoders of compressed images work on an `os.File`: they seek, fill buffers with
`io.ReadFull` and look at the file's size. What they need of the host is that the file is
there to be read, `Holds`; a `Read` may return less than it was asked for.
-/

namespace Udpfsd.Fs

open Udprdma (Byte uint32)
open Udpfs (Error Fault FileInfo Time)

variable {η φ : Type}

/-- A program on an open file. -/
abbrev FileProgram (η φ : Type) := Program (φ × η) Error Fault

namespace FileProgram

variable (os : OS η φ)

/-- `File.Seek` from the start, of which only the error is looked at. -/
def seekStart (offset : ℤ) : FileProgram η φ Unit := fun (f, h) =>
  let ((_, err), f, h) := os.seek f offset 0 h
  .ok (match err with
    | none => .ok ()
    | some err => .error err, f, h)

/-- The loop of `io.ReadFull` with `n` bytes of the buffer left to fill and `read` before
them. `File.Read` returns a byte or an error, so `n` rounds are enough. -/
def fill : ℕ → ℕ → List Byte → FileProgram η φ (List Byte)
  | _, 0, read => pure read
  | 0, _ + 1, _ => Program.fail .other
  | fuel + 1, n + 1, read => fun (f, h) =>
    let ((bytes, err), f, h) := os.read f (n + 1) h
    let bytes := bytes.take (n + 1)
    if bytes.length = n + 1 then .ok (.ok (read ++ bytes), f, h)
    else
      match err with
      | none => fill fuel (n + 1 - bytes.length) (read ++ bytes) (f, h)
      | some err =>
        -- the end of the file behind some bytes is `io.ErrUnexpectedEOF`
        .ok (.error (if err = .eof ∧ read ++ bytes ≠ [] then .other else err), f, h)

/-- `io.ReadFull` into a buffer of `n` bytes. -/
def readFull (n : ℕ) : FileProgram η φ (List Byte) := fill os n n []

/-- `File.Stat`. -/
def fstat : FileProgram η φ FileInfo := fun (f, h) => .ok (os.fstat f h, f, h)

/-- The modification time of the file, zero when it cannot be had. -/
def modTime : FileProgram η φ Time := fun (f, h) =>
  match os.fstat f h with
  | .ok info => .ok (.ok info.modTime, f, h)
  | .error _ => .ok (.ok .zero, f, h)

/-- The length of a slice that is made. A negative length is a fault; that `make` panics above
about `2 ^ 48` bytes as well is left out. -/
def makeLen (n : ℤ) : FileProgram η φ ℕ :=
  if n < 0 then Program.fault .negativeLength else pure n.toNat

/-- A length that is not negative is handed out. -/
theorem makeLen_natCast (n : ℕ) (s : φ × η) : makeLen (n : ℤ) s = .ok (.ok n, s) := by
  rw [makeLen, if_neg (by omega)]
  rfl

/-- `make` of a slice, given the size of an element and the number of elements. -/
abbrev Make (η φ : Type) := ℕ → ℤ → FileProgram η φ ℕ

/-- `make` as the decoders use it. -/
def makeAny : Make η φ := fun _ n => makeLen n

/-- An index into a slice. -/
def entry (offsets : List (BitVec 32)) (i : ℤ) : FileProgram η φ (BitVec 32) :=
  if i < 0 then Program.fault .indexOutOfRange
  else
    match offsets[i.toNat]? with
    | none => Program.fault .indexOutOfRange
    | some offset => pure offset

/-- An index that is in range. -/
theorem entry_natCast {offsets : List (BitVec 32)} {i : ℕ} {e : BitVec 32}
    (h : offsets[i]? = some e) (s : φ × η) : entry offsets (i : ℤ) s = .ok (.ok e, s) := by
  rw [entry, if_neg (by omega), Int.toNat_natCast, h]
  rfl

/-- The loop that decodes a table of `n` offsets. -/
def decodeOffsets (make : Make η φ) (n : ℤ) (offsetBytes : List Byte) :
    FileProgram η φ (List (BitVec 32)) := do
  let n ← make 4 n
  if offsetBytes.length < 4 * n then Program.fault .sliceBounds
  else pure ((List.range n).map fun i => uint32 (offsetBytes.drop (4 * i)))

end FileProgram

/-! ### A file that can be read -/

/-- An open file holds these bytes: `At f pos h` says that `f` is at the position `pos` of
the file on the host `h`. A read within the file returns some of the bytes there. -/
structure Holds (os : OS η φ) (file : List Byte) (At : φ → ℕ → η → Prop) : Prop where
  /-- A seek into the file, or to an offset of 32 bits. -/
  seek : ∀ f pos h (offset : ℕ), At f pos h → offset ≤ file.length ∨ offset < 2 ^ 32 →
    ∃ f' h', os.seek f offset 0 h = (((offset : ℤ), none), f', h') ∧ At f' offset h'
  /-- Any seek leaves the file open. -/
  seek_open : ∀ f pos h offset, At f pos h →
    ∃ pos', At (os.seek f offset 0 h).2.1 pos' (os.seek f offset 0 h).2.2
  /-- A read within the file. -/
  read : ∀ f pos h n, At f pos h → 0 < n → pos < file.length →
    ∃ k f' h', 0 < k ∧ k ≤ n ∧ pos + k ≤ file.length ∧
      os.read f n h = (((file.drop pos).take k, none), f', h') ∧ At f' (pos + k) h'
  /-- A read at the end. -/
  eof : ∀ f pos h n, At f pos h → 0 < n → file.length ≤ pos →
    ∃ f' h', os.read f n h = (([], some .eof), f', h') ∧ At f' pos h'
  /-- The size. -/
  stat : ∀ f pos h, At f pos h → ∃ info, os.fstat f h = .ok info ∧ info.size = file.length

namespace Holds

open FileProgram

variable {os : OS η φ} {file : List Byte} {At : φ → ℕ → η → Prop} {f : φ} {pos n : ℕ} {h : η}

section Reading

variable (hos : Holds os file At) (hf : At f pos h)
include hos hf

theorem seekStart (offset : ℕ) (hoffset : offset ≤ file.length ∨ offset < 2 ^ 32) :
    ∃ f' h', FileProgram.seekStart os offset (f, h) = .ok (.ok (), f', h') ∧ At f' offset h' := by
  obtain ⟨f', h', hseek, hf'⟩ := hos.seek f pos h offset hf hoffset
  refine ⟨f', h', ?_, hf'⟩
  simp only [FileProgram.seekStart, hseek]

/-- A round of `io.ReadFull` within the file. -/
theorem fill_step (hn : 0 < n) (hpos : pos < file.length) (fuel : ℕ) (read : List Byte) :
    ∃ k f' h', 0 < k ∧ k ≤ n ∧ pos + k ≤ file.length ∧ At f' (pos + k) h' ∧
      fill os (fuel + 1) n read (f, h) =
        if k = n then .ok (.ok (read ++ (file.drop pos).take k), f', h')
        else fill os fuel (n - k) (read ++ (file.drop pos).take k) (f', h') := by
  obtain ⟨m, rfl⟩ : ∃ m, n = m + 1 := ⟨n - 1, by omega⟩
  obtain ⟨k, f', h', hk, hle, hend, hread, hf'⟩ := hos.read f pos h (m + 1) hf hn hpos
  refine ⟨k, f', h', hk, hle, hend, hf', ?_⟩
  have htake : ((file.drop pos).take k).take (m + 1) = (file.drop pos).take k := by
    rw [List.take_take, Nat.min_eq_right hle]
  have hlength : ((file.drop pos).take k).length = k := by
    rw [List.length_take, List.length_drop]
    omega
  simp only [fill, hread, htake, hlength]

theorem fill_ok {fuel : ℕ} (hfuel : n ≤ fuel) (hend : pos + n ≤ file.length) (read : List Byte) :
    ∃ f' h', fill os fuel n read (f, h) = .ok (.ok (read ++ (file.drop pos).take n), f', h') ∧
      At f' (pos + n) h' := by
  induction fuel generalizing f pos h n read with
  | zero =>
    obtain rfl : n = 0 := by omega
    exact ⟨f, h, by simp [fill, Program.pure_run], hf⟩
  | succ fuel ih =>
    rcases Nat.eq_zero_or_pos n with rfl | hn
    · exact ⟨f, h, by simp [fill, Program.pure_run], hf⟩
    obtain ⟨k, f₁, h₁, hk, hle, -, hf₁, hfill⟩ := hos.fill_step hf hn (by omega) fuel read
    rw [hfill]
    split_ifs with hlast
    · exact ⟨f₁, h₁, by rw [hlast], hlast ▸ hf₁⟩
    · obtain ⟨f', h', hrest, hf'⟩ :=
        ih (n := n - k) hf₁ (by omega) (by omega) (read ++ (file.drop pos).take k)
      refine ⟨f', h', ?_, ?_⟩
      · rw [hrest, List.append_assoc, ← List.drop_drop, ← List.take_add, Nat.add_sub_cancel' hle]
      · rwa [Nat.add_assoc, Nat.add_sub_cancel' hle] at hf'

/-- `io.ReadFull` within the file. -/
theorem readFull (hend : pos + n ≤ file.length) :
    ∃ f' h', FileProgram.readFull os n (f, h) = .ok (.ok ((file.drop pos).take n), f', h') ∧
      At f' (pos + n) h' := by
  obtain ⟨f', h', hfill, hf'⟩ := hos.fill_ok hf le_rfl hend []
  exact ⟨f', h', by rw [FileProgram.readFull, hfill, List.nil_append], hf'⟩

end Reading

theorem fill_short (hos : Holds os file At) (fuel : ℕ) (hf : At f pos h) (hn : 0 < n)
    (hend : file.length < pos + n) (read : List Byte) :
    ∃ err f' h' pos', fill os fuel n read (f, h) = .ok (.error err, f', h') ∧ At f' pos' h' := by
  induction fuel generalizing f pos h n read with
  | zero =>
    obtain ⟨m, rfl⟩ : ∃ m, n = m + 1 := ⟨n - 1, by omega⟩
    exact ⟨.other, f, h, pos, rfl, hf⟩
  | succ fuel ih =>
    by_cases hpos : pos < file.length
    · obtain ⟨k, f₁, h₁, hk, hle, hin, hf₁, hfill⟩ := hos.fill_step hf hn hpos fuel read
      rw [hfill, if_neg (by omega)]
      exact ih hf₁ (by omega) (by omega) _
    · obtain ⟨m, rfl⟩ : ∃ m, n = m + 1 := ⟨n - 1, by omega⟩
      obtain ⟨f', h', hread, hf'⟩ := hos.eof f pos h (m + 1) hf hn (by omega)
      refine ⟨if Error.eof = .eof ∧ read ++ [] ≠ [] then .other else .eof, f', h', pos, ?_, hf'⟩
      simp only [fill, hread, List.take_nil, List.length_nil]
      rfl

/-- `io.ReadFull` beyond the end of the file. -/
theorem readFull_short (hos : Holds os file At) (hf : At f pos h) (hn : 0 < n)
    (hend : file.length < pos + n) :
    ∃ err f' h' pos', FileProgram.readFull os n (f, h) = .ok (.error err, f', h') ∧
      At f' pos' h' :=
  hos.fill_short n hf hn hend []

end Holds

/-! ### Properties of all programs -/

namespace FileProgram

/-- A property that every program has that is built from these parts. -/
structure Closed (os : OS η φ) (Has : ∀ α : Type, FileProgram η φ α → Prop) : Prop where
  /-- A value. -/
  pure : ∀ {α : Type} (a : α), Has α (pure a)
  /-- An error. -/
  fail : ∀ {α : Type} (err : Error), Has α (Program.fail err)
  /-- A fault. -/
  fault : ∀ {α : Type} (e : Fault), Has α (Program.fault e)
  /-- A sequence. -/
  bind : ∀ {α β : Type} {p : FileProgram η φ α} {q : α → FileProgram η φ β}, Has α p →
    (∀ a, Has β (q a)) → Has β (p >>= q)
  /-- A seek. -/
  seekStart : ∀ offset, Has Unit (seekStart os offset)
  /-- The filling of a buffer. -/
  readFull : ∀ n, Has (List Byte) (readFull os n)
  /-- `File.Stat`. -/
  fstat : Has FileInfo (fstat os)
  /-- The modification time. -/
  modTime : Has Time (modTime os)

namespace Closed

variable {os : OS η φ} {Has : ∀ α : Type, FileProgram η φ α → Prop}

/-- A condition. -/
theorem cond {α : Type} {p q : FileProgram η φ α} {c : Prop} [Decidable c] (hp : Has α p)
    (hq : Has α q) : Has α (if c then p else q) := by
  split_ifs
  · exact hp
  · exact hq

variable (hos : Closed os Has)
include hos

/-- A check. -/
theorem check (condition : Bool) (err : Error) : Has Unit (Program.check condition err) :=
  cond (hos.pure ()) (hos.fail err)

/-- A slice that is made. -/
theorem makeLen (n : ℤ) : Has ℕ (makeLen n) := cond (hos.fault _) (hos.pure _)

/-- An index into a slice. -/
theorem entry (offsets : List (BitVec 32)) (i : ℤ) : Has (BitVec 32) (entry offsets i) := by
  refine cond (hos.fault _) ?_
  cases offsets[i.toNat]? with
  | none => exact hos.fault _
  | some offset => exact hos.pure _

end Closed

end FileProgram

/-- Seeks and reads leave the file open. -/
structure StaysOpen (os : OS η φ) (At : φ → ℕ → η → Prop) : Prop where
  /-- A seek. -/
  seek : ∀ f pos h offset, At f pos h →
    ∃ pos', At (os.seek f offset 0 h).2.1 pos' (os.seek f offset 0 h).2.2
  /-- A read of a byte or more. -/
  read : ∀ f pos h n, At f pos h → 0 < n →
    ∃ pos', At (os.read f n h).2.1 pos' (os.read f n h).2.2

/-- A file that can be read stays open. -/
theorem Holds.staysOpen {os : OS η φ} {file : List Byte} {At : φ → ℕ → η → Prop}
    (hos : Holds os file At) : StaysOpen os At where
  seek := hos.seek_open
  read := by
    intro f pos h n hf hn
    rcases Nat.lt_or_ge pos file.length with hpos | hend
    · obtain ⟨k, f', h', -, -, -, hread, hf'⟩ := hos.read f pos h n hf hn hpos
      rw [hread]
      exact ⟨_, hf'⟩
    · obtain ⟨f', h', hread, hf'⟩ := hos.eof f pos h n hf hn hend
      rw [hread]
      exact ⟨_, hf'⟩

/-- Wherever it starts in the file and whatever it returns, the program leaves the file open. -/
def Keeps {α : Type} (At : φ → ℕ → η → Prop) (p : FileProgram η φ α) : Prop :=
  ∀ f pos h res f' h', At f pos h → p (f, h) = .ok (res, f', h') → ∃ pos', At f' pos' h'

namespace Keeps

variable {os : OS η φ} {At : φ → ℕ → η → Prop} {α β : Type}

/-- A sequence. -/
theorem bind {p : FileProgram η φ α} {q : α → FileProgram η φ β} (hp : Keeps At p)
    (hq : ∀ a, Keeps At (q a)) : Keeps At (p >>= q) := by
  intro f pos h res f' h' hf hok
  cases hrun : p (f, h) with
  | error e =>
    rw [Program.bind_of_fault hrun] at hok
    cases hok
  | ok result =>
    obtain ⟨r, f₁, h₁⟩ := result
    obtain ⟨pos₁, hf₁⟩ := hp f pos h r f₁ h₁ hf hrun
    cases r with
    | error err =>
      rw [Program.bind_of_error hrun] at hok
      cases hok
      exact ⟨pos₁, hf₁⟩
    | ok a =>
      rw [Program.bind_of_ok hrun] at hok
      exact hq a f₁ pos₁ h₁ res f' h' hf₁ hok

/-- The loop of `io.ReadFull`. -/
theorem fill (hos : StaysOpen os At) (fuel n : ℕ) (read : List Byte) :
    Keeps At (FileProgram.fill os fuel n read) := by
  induction fuel generalizing n read with
  | zero =>
    intro f pos h res f' h' hf hok
    cases n <;> cases hok <;> exact ⟨pos, hf⟩
  | succ fuel ih =>
    intro f pos h res f' h' hf hok
    cases n with
    | zero =>
      cases hok
      exact ⟨pos, hf⟩
    | succ n =>
      obtain ⟨pos₁, hf₁⟩ := hos.read f pos h (n + 1) hf (Nat.succ_pos n)
      simp only [FileProgram.fill] at hok
      split at hok
      · cases hok
        exact ⟨pos₁, hf₁⟩
      · split at hok
        · exact ih _ _ _ pos₁ _ res f' h' hf₁ hok
        · cases hok
          exact ⟨pos₁, hf₁⟩

/-- No program of the decoders closes the file. -/
theorem closed (hos : StaysOpen os At) : FileProgram.Closed os fun _ => Keeps At where
  pure := by
    intro α a f pos h res f' h' hf hok
    cases hok
    exact ⟨pos, hf⟩
  fail := by
    intro α err f pos h res f' h' hf hok
    cases hok
    exact ⟨pos, hf⟩
  fault := by
    intro α e f pos h res f' h' hf hok
    cases hok
  bind := bind
  seekStart := by
    intro offset f pos h res f' h' hf hok
    cases hok
    exact hos.seek f pos h offset hf
  readFull n := .fill hos n n []
  fstat := by
    intro f pos h res f' h' hf hok
    cases hok
    exact ⟨pos, hf⟩
  modTime := by
    intro f pos h res f' h' hf hok
    simp only [FileProgram.modTime] at hok
    split at hok <;> cases hok <;> exact ⟨pos, hf⟩

end Keeps

end Udpfsd.Fs
