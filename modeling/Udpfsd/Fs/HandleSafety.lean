import Udpfsd.Fs.Host
import Udpfsd.Fs.Table
import Udpfsd.Udpfs.Handlers

/-!
# Requests with a handle that names nothing

A request carries any 32-bit number as its handle. The lookups of the backend check it
differently: `getFile` rejects negative numbers but not those behind the table, `getDir` and
`freeHandle` reject nothing and index the table at once, and closing an empty slot succeeds.
-/

namespace Udpfsd.Fs

open Udprdma (Byte)
open Udpfs

variable {η φ ρ : Type}

namespace Backend

variable (s : Backend η φ ρ)

/-- The handle names a live file. -/
def NamesFile (handle : ℤ) : Prop :=
  (handle = blockDeviceHandle ∧ s.bdHandle ≠ none) ∨
    ∃ (i : Fin maxHandles) (f : FileHandle φ ρ), handle = (i : ℤ) + 1 ∧ s.handles i = some (.file f)

/-- The handle names a live directory. -/
def NamesDir (handle : ℤ) : Prop :=
  ∃ (i : Fin maxHandles) (d : DirHandle), handle = (i : ℤ) + 1 ∧ s.handles i = some (.dir d)

/-- The handle names something that a request of this type can work on. The block device is
never closed, and a CLOSE of it is answered as such. -/
def Names : MsgType → ℤ → Prop
  | .closeReq, handle =>
    handle = blockDeviceHandle ∨ ∃ i : Fin maxHandles, handle = (i : ℤ) + 1 ∧ s.handles i ≠ none
  | .dreadReq, handle => s.NamesDir handle
  | _, handle => s.NamesFile handle

end Backend

/-- The handles that a request of this type may carry when they name nothing. -/
def HandleInRange : MsgType → ℤ → Prop
  | .closeReq, _ => False
  | .dreadReq, handle => 1 ≤ handle ∧ handle ≤ 64
  | _, handle => handle ≤ 64

/-- The request is answered with a negative result, and the backend is as it was: the table,
the host with its files, and the clock. -/
def RejectedCleanly (P : Platform η φ ρ) (c : Connection) (s : Backend η φ ρ)
    (payload : List Byte) : Prop :=
  ∃ out, c.handlePayload (Backend.fs P) s payload = .ok out ∧ out.reply.Failed ∧ out.fs = s

/-! ### The lookups -/

namespace Backend

variable {P : Platform η φ ρ} {s : Backend η φ ρ} {handle : ℤ}

/-- The handles of the table. -/
theorem exists_slotOf (hlow : 1 ≤ handle) (hhigh : handle ≤ 64) :
    ∃ i : Fin maxHandles, slotOf handle = .ok i := by
  obtain ⟨n, hn⟩ : ∃ n : ℕ, handle = n + 1 := ⟨(handle - 1).toNat, by omega⟩
  exact ⟨⟨n, show n < 64 by omega⟩, slotOf_eq_ok.mpr hn⟩

/-- All others are out of range. -/
theorem slotOf_out_of_range (hout : handle < 1 ∨ 64 < handle) :
    slotOf handle = .error .indexOutOfRange := by
  unfold slotOf
  split_ifs with hlow
  · rfl
  · have hget : (List.finRange maxHandles)[(handle - 1).toNat]? = none := by
      rw [List.getElem?_eq_none_iff, List.length_finRange]
      change 64 ≤ _
      omega
    rw [hget]

/-- No file is found. -/
theorem getFile_missing (hfile : ¬ s.NamesFile handle) :
    s.getFile handle = if handle ≤ 64 then .ok (none, s) else .error .indexOutOfRange := by
  unfold getFile
  by_cases hneg : handle < 0
  · rw [if_pos hneg, if_pos (by omega)]
  rw [if_neg hneg]
  by_cases hbd : handle = blockDeviceHandle
  · have hnone : s.bdHandle = none := by
      by_contra hsome
      exact hfile (Or.inl ⟨hbd, hsome⟩)
    rw [if_pos hbd, if_pos (by rw [hbd]; decide), hnone]
    rfl
  rw [if_neg hbd]
  have hpos : 1 ≤ handle := by
    unfold blockDeviceHandle at hbd
    omega
  by_cases hhigh : handle ≤ 64
  · obtain ⟨i, hi⟩ := exists_slotOf hpos hhigh
    rw [if_pos hhigh, hi]
    dsimp only [bind, Except.bind]
    split
    · rename_i f hf
      exact absurd (Or.inr ⟨i, f, slotOf_eq_ok.mp hi, hf⟩) hfile
    · rfl
  · rw [if_neg hhigh, slotOf_out_of_range (Or.inr (by omega))]
    rfl

/-- The methods of the files do nothing. -/
theorem withFile_missing {α : Type} {missing : α}
    {body : FileHandle φ ρ → World η → Except Fault (α × FileHandle φ ρ × World η)}
    (hfile : ¬ s.NamesFile handle) :
    s.withFile handle missing body =
      if handle ≤ 64 then .ok (missing, s) else .error .indexOutOfRange := by
  rw [withFile, getFile_missing hfile]
  split_ifs <;> rfl

/-- No directory is found. -/
theorem getDir_missing (hdir : ¬ s.NamesDir handle) :
    s.getDir handle =
      if 1 ≤ handle ∧ handle ≤ 64 then .ok (none, s) else .error .indexOutOfRange := by
  rw [getDir]
  split_ifs with hrange
  · obtain ⟨i, hi⟩ := exists_slotOf hrange.1 hrange.2
    rw [hi]
    dsimp only [bind, Except.bind]
    split
    · rename_i d hd
      exact absurd ⟨i, d, slotOf_eq_ok.mp hi, hd⟩ hdir
    · rfl
  · rw [slotOf_out_of_range (by omega)]
    rfl

/-- The methods of the directories do nothing, either. -/
theorem dread_missing (hdir : ¬ s.NamesDir handle) :
    dread P handle s =
      if 1 ≤ handle ∧ handle ≤ 64 then .ok ((false, [], .empty, some .invalid), s)
      else .error .indexOutOfRange := by
  rw [dread, getDir_missing hdir]
  split_ifs <;> rfl

/-- Closing a handle that names nothing panics or succeeds. -/
theorem close_missing (hnone : ¬ s.Names .closeReq handle) :
    (∃ t, close P handle s = .ok (none, t)) ∨ close P handle s = .error .indexOutOfRange := by
  have hne : handle ≠ blockDeviceHandle := fun hbd => hnone (Or.inl hbd)
  rw [close, freeHandle, if_neg hne]
  by_cases hrange : 1 ≤ handle ∧ handle ≤ 64
  · obtain ⟨i, hi⟩ := exists_slotOf hrange.1 hrange.2
    rw [hi]
    exact Or.inl ⟨_, rfl⟩
  · rw [slotOf_out_of_range (by omega)]
    exact Or.inr rfl

end Backend

/-! ### The requests -/

section Requests

variable {P : Platform η φ ρ} {c : Connection} {s : Backend η φ ρ} {payload : List Byte}

/-- A handler that panics with the lookup of its handle, or goes on and answers with a
failure. -/
theorem exists_failed_iff {α : Type} {x : Except Fault (Outcome (Backend η φ ρ))}
    {lookup : Except Fault (α × Backend η φ ρ)} {a : α}
    {k : α × Backend η φ ρ → Except Fault (Outcome (Backend η φ ρ))} {p : Prop} [Decidable p]
    {out : Outcome (Backend η φ ρ)} (hx : x = lookup >>= k)
    (hlookup : lookup = if p then .ok (a, s) else .error .indexOutOfRange)
    (hk : k (a, s) = .ok out) (hfailed : out.reply.Failed) (hfs : out.fs = s) :
    (∃ out, x = .ok out ∧ out.reply.Failed ∧ out.fs = s) ↔ p := by
  rw [hx, hlookup]
  split_ifs with hp
  · exact ⟨fun _ => hp, fun _ => ⟨out, hk, hfailed, hfs⟩⟩
  · simp only [hp, iff_false]
    rintro ⟨out, hok, -⟩
    cases hok

/-- A CLOSE of a handle that names nothing is never rejected. -/
theorem handleClose_missing (hlength : 8 ≤ payload.length)
    (hnone : ¬ s.Names .closeReq (handleField payload)) :
    ¬ ∃ out, c.handleClose (Backend.fs P) s payload = .ok out ∧ out.reply.Failed ∧ out.fs = s := by
  rintro ⟨out, hok, ⟨result, hresult, hneg⟩, -⟩
  rw [Connection.handleClose, if_neg (by omega)] at hok
  simp only at hok
  rw [if_neg (fun hbd => hnone (Or.inl hbd))] at hok
  change (Backend.close P _ s >>= _) = _ at hok
  rcases Backend.close_missing (P := P) hnone with ⟨t, hclose⟩ | hclose
  · rw [hclose] at hok
    cases hok
    cases hresult
    omega
  · rw [hclose] at hok
    cases hok

/-- A request whose handle names nothing it can work on is rejected, without a panic and with
everything as it was, if and only if the handle is in range: at most 64 for READ, WRITE, LSEEK,
BREAD and BWRITE, from 1 to 64 for DREAD. A CLOSE of such a handle is never rejected. -/
theorem rejectedCleanly_iff_handleInRange {m : MsgType} {handle : ℤ}
    (htype : msgType payload = some m) (hhandle : namedHandle payload = some handle)
    (hnames : ¬ s.Names m handle) :
    RejectedCleanly P c s payload ↔ HandleInRange m handle := by
  rw [namedHandle, htype] at hhandle
  simp only [Option.bind_eq_bind, Option.bind_some] at hhandle
  unfold RejectedCleanly Connection.handlePayload
  rw [htype]
  obtain ⟨n, hn, hhandle⟩ := Option.bind_eq_some_iff.mp hhandle
  split_ifs at hhandle with hlength
  simp only [Option.some.injEq] at hhandle
  subst hhandle
  cases m <;> simp only [MsgType.handleLength, reduceCtorEq, Option.some.injEq] at hn <;> subst hn
  case closeReq =>
    simpa only [HandleInRange, iff_false] using handleClose_missing (by omega) hnames
  case readReq =>
    rw [Connection.handleRead, Connection.handleReadOp, if_neg (by omega)]
    exact exists_failed_iff (p := handleField payload ≤ 64) rfl
      (show Backend.read P _ _ _ s = _ from Backend.withFile_missing hnames) rfl (.of_err rfl) rfl
  case writeReq =>
    rw [Connection.handleWriteReq, if_neg (by omega)]
    exact exists_failed_iff (p := handleField payload ≤ 64) rfl
      (show Backend.writeStart _ s = _ from Backend.withFile_missing hnames) rfl (.of_err rfl) rfl
  case lseekReq =>
    rw [Connection.handleLseek, if_neg (by omega)]
    exact exists_failed_iff (p := handleField payload ≤ 64) rfl
      (show Backend.lseek P _ _ _ s = _ from Backend.withFile_missing hnames) rfl
      ⟨-1, rfl, by decide⟩ rfl
  case dreadReq =>
    rw [Connection.handleDread, if_neg (by omega)]
    exact exists_failed_iff (p := 1 ≤ handleField payload ∧ handleField payload ≤ 64) rfl
      (Backend.dread_missing hnames) rfl (.of_err rfl) rfl
  case breadReq =>
    rw [Connection.handleBread, Connection.handleReadOp, if_neg (by omega)]
    exact exists_failed_iff (p := handleField payload ≤ 64) rfl
      (show Backend.bread P _ _ _ _ s = _ from Backend.withFile_missing hnames) rfl
      (.of_err rfl) rfl
  case bwriteReq =>
    rw [Connection.handleBwriteReq, if_neg (by omega)]
    exact exists_failed_iff (p := handleField payload ≤ 64) rfl
      (show Backend.bwriteStart _ _ _ s = _ from Backend.withFile_missing hnames) rfl
      (.of_err rfl) rfl

end Requests

/-- A server of the empty directory `/r` has no handles. -/
theorem exists_new_without_handles : ∃ s : Backend Host OsFile Host.Image,
    Backend.newBackend Host.platform ⟨Path.ascii ['/', 'r'], [], 0, false, false, 0⟩
      ⟨[(Path.ascii ['/', 'r'], .dir)], fun _ => [], 0⟩ 0 = .ok (some s) ∧
    s.bdHandle = none ∧ ∀ i, s.handles i = none :=
  ⟨_, rfl, rfl, fun _ => rfl⟩

/-- Nothing is named in an empty table. -/
theorem Backend.not_namesFile_of_empty {s : Backend η φ ρ} (hdevice : s.bdHandle = none)
    (hhandles : ∀ i, s.handles i = none) (handle : ℤ) : ¬ s.NamesFile handle := by
  rintro (⟨-, hdevice'⟩ | ⟨i, f, -, hf⟩)
  · exact hdevice' hdevice
  · cases (hhandles i).symm.trans hf

/-- A READ through the handle -1 of a new server is rejected. -/
theorem rejectedCleanly_of_negative_handle : ∃ s : Backend Host OsFile Host.Image,
    Backend.newBackend Host.platform ⟨Path.ascii ['/', 'r'], [], 0, false, false, 0⟩
      ⟨[(Path.ascii ['/', 'r'], .dir)], fun _ => [], 0⟩ 0 = .ok (some s) ∧
    ¬ s.Names .readReq (-1) ∧
    RejectedCleanly Host.platform newConnection s
      [0x14, 0, 0, 0, 0xFF, 0xFF, 0xFF, 0xFF, 16, 0, 0, 0] := by
  obtain ⟨s, hnew, hdevice, hhandles⟩ := exists_new_without_handles
  have hnames : ¬ s.Names .readReq (-1) := Backend.not_namesFile_of_empty hdevice hhandles (-1)
  refine ⟨s, hnew, hnames, (rejectedCleanly_iff_handleInRange rfl rfl hnames).mpr ?_⟩
  exact (by decide : (-1 : ℤ) ≤ 64)

/-- A READ through the handle 65 of a new server panics, and a CLOSE of the handle 1, which was
never opened, succeeds. -/
theorem handle_out_of_range_panics : ∃ s : Backend Host OsFile Host.Image,
    Backend.newBackend Host.platform ⟨Path.ascii ['/', 'r'], [], 0, false, false, 0⟩
      ⟨[(Path.ascii ['/', 'r'], .dir)], fun _ => [], 0⟩ 0 = .ok (some s) ∧
    ¬ s.Names .readReq 65 ∧
    newConnection.handlePayload (Backend.fs Host.platform) s
      [0x14, 0, 0, 0, 65, 0, 0, 0, 16, 0, 0, 0] = .error .indexOutOfRange ∧
    ¬ s.Names .closeReq 1 ∧
    ∃ out, newConnection.handlePayload (Backend.fs Host.platform) s [0x12, 0, 0, 0, 1, 0, 0, 0] =
      .ok out ∧ out.reply = .closeReply 0 := by
  obtain ⟨s, hnew, hdevice, hhandles⟩ := exists_new_without_handles
  refine ⟨s, hnew, Backend.not_namesFile_of_empty hdevice hhandles 65, rfl, ?_, _, rfl, rfl⟩
  rintro (hbd | ⟨i, -, hi⟩)
  · cases hbd
  · exact hi (hhandles i)

end Udpfsd.Fs
