import Udpfsd.Fs.Reading
import Udpfsd.Fs.Steady
import Udpfsd.Server.Daemon
import Udpfsd.Server.Leaks
import Udpfsd.Server.Transfers
import Udpfsd.Udprdma.NoPanic

/-!
# When the server panics

A panic in any goroutine ends the whole server. This is a complete list of what brings one about:
requests that name a handle outside the table, requests for more bytes of an open file than the
data buffer has, and datagrams whose peer is removed before its session is taken or its handler
called, which are those that take as long as the peer timeout. Nothing else does, in any state that
the server can be in: no other datagram, whatever its bytes, no timer, no reset of a peer and no
cleanup. The decoders of images are left out: they are taken not to panic.
-/

namespace Udpfsd

open Udprdma Udpfs Fs

variable {κ η φ ρ : Type} {P : Platform η φ ρ} {Whole : ρ → Prop}

/-! ### Requests -/

namespace Fs.Backend

variable {s : Backend η φ ρ} {c : Connection} {payload : List Byte} {handle : ℤ}

variable (P) in
/-- A request of this type with this handle makes the server panic. -/
def RecklessOn (s : Backend η φ ρ) (payload : List Byte) (handle : ℤ) : MsgType → Prop
  | .closeReq => handle < 0 ∨ 64 < handle
  | .dreadReq => handle < 1 ∨ 64 < handle
  | .readReq => 64 < handle ∨
    (s.fileAt handle).isSome ∧ dataBufferSize < (uint32 (payload.drop 8)).toNat
  | .breadReq => 64 < handle ∨ ∃ f, s.fileAt handle = some f ∧
    (f.obj.seek P (int64 (longField payload * s.sectorSizeOf handle)) 0 s.world.host).1.2 = none ∧
    (dataBufferSize : ℤ) < (uint16 (payload.drop 2)).toNat * s.sectorSizeOf handle
  | .writeReq => 64 < handle
  | .bwriteReq => 64 < handle
  | .lseekReq => 64 < handle
  | _ => False

variable (P) in
/-- The request makes the server panic. -/
def Reckless (s : Backend η φ ρ) (payload : List Byte) : Prop :=
  ∃ m handle, msgType payload = some m ∧ namedHandle payload = some handle ∧
    s.RecklessOn P payload handle m

/-- What a request that returns leaves behind. -/
def SteadyOutcome (P : Platform η φ ρ) (Whole : ρ → Prop) (out : Outcome (Backend η φ ρ)) : Prop :=
  out.fs.Steady P Whole ∧ out.conn.activeWriteHandle ≤ 64 ∧ out.reply.Fits

/-- The handle of a request that is long enough. -/
theorem namedHandle_eq {m : MsgType} {n : ℕ} (htype : msgType payload = some m)
    (hlength : m.handleLength = some n) (hlong : n ≤ payload.length) :
    namedHandle payload = some (handleField payload) := by
  simp [namedHandle, htype, hlength, Nat.not_lt.mpr hlong]

/-- A request that is long enough and not reckless is not so on its handle. -/
theorem not_recklessOn {m : MsgType} {n : ℕ} (hsafe : ¬ s.Reckless P payload)
    (htype : msgType payload = some m) (hlength : m.handleLength = some n)
    (hlong : ¬ payload.length < n) : ¬ s.RecklessOn P payload (handleField payload) m :=
  fun hreckless => hsafe
    ⟨m, _, htype, namedHandle_eq htype hlength (Nat.not_lt.mp hlong), hreckless⟩

/-- A write that is over. -/
theorem activeWriteHandle_clearWriteHandle_le (c : Connection) :
    c.clearWriteHandle.activeWriteHandle ≤ 64 :=
  show (-1 : ℤ) ≤ 64 by decide

/-- A handle leaves the cache. -/
theorem activeWriteHandle_removeHandle_le (hc : c.activeWriteHandle ≤ 64) (handle : ℤ) :
    (c.removeHandle handle).activeWriteHandle ≤ 64 := by
  unfold Connection.removeHandle
  simp only
  split_ifs
  · exact activeWriteHandle_clearWriteHandle_le _
  · exact hc

section Handlers

variable (hs : s.Steady P Whole) (hc : c.activeWriteHandle ≤ 64)
include hs hc

/-- An OPEN that is not answered from the cache. -/
theorem returns_openNew (S : Sound P) (path : Path) (flag : OpenFlag) (isDir : Bool) :
    Returns (SteadyOutcome P Whole) (c.openNew (Backend.fs P) s path flag isDir) := by
  refine (hs.openFile S path flag isDir).bind ?_
  rintro ⟨⟨handle, stat, err⟩, t⟩ ht
  cases err with
  | some err => exact .ok ⟨ht, hc, trivial⟩
  | none => exact .ite (fun _ => .ok ⟨ht, hc, trivial⟩) (fun _ => .ok ⟨ht, hc, trivial⟩)

/-- OPEN. -/
theorem returns_handleOpen (S : Sound P) :
    Returns (SteadyOutcome P Whole) (c.handleOpen (Backend.fs P) s payload) := by
  unfold Connection.handleOpen
  refine .ite (fun _ => .ok ⟨hs, hc, trivial⟩) (fun _ => ?_)
  simp only
  refine .ite (fun _ => returns_openNew hs hc S _ _ _) (fun _ => ?_)
  unfold Connection.lookupHandle
  cases c.usedHandles.entries.find? _ with
  | some entry => exact .ok ⟨hs, hc, trivial⟩
  | none => exact returns_openNew hs hc S _ _ _

/-- CLOSE. -/
theorem returns_handleClose
    (htype : msgType payload = some .closeReq) (hsafe : ¬ s.Reckless P payload) :
    Returns (SteadyOutcome P Whole) (c.handleClose (Backend.fs P) s payload) := by
  unfold Connection.handleClose
  refine .ite (fun _ => .ok ⟨hs, hc, trivial⟩) (fun hlong => ?_)
  simp only
  refine .ite (fun _ => .ok ⟨hs, hc, trivial⟩) (fun hbd => ?_)
  have hrange := not_recklessOn hsafe htype rfl hlong
  simp only [RecklessOn, blockDeviceHandle] at hrange hbd
  have hslot : 1 ≤ handleField payload ∧ handleField payload ≤ 64 := by omega
  refine (hs.close (Or.inr hslot)).bind ?_
  rintro ⟨err, t⟩ ht
  cases err with
  | some err => exact .ok ⟨ht, hc, trivial⟩
  | none => exact .ok ⟨ht, activeWriteHandle_removeHandle_le hc _, trivial⟩

/-- READ and BREAD. -/
theorem returns_handleReadOp {size : ℕ} {result : ReadResult → ℤ}
    {op : Buffer Byte → Backend η φ ρ → Except Fault ((ReadResult × Buffer Byte) × Backend η φ ρ)}
   
    (hop : ¬ payload.length < size → Returns (fun r => r.1.1.data.getD 0 ≤ dataBufferSize ∧
      r.2.Steady P Whole) (op c.dataBuffer s)) :
    Returns (SteadyOutcome P Whole) (c.handleReadOp s payload size op result) := by
  refine .ite (fun _ => .ok ⟨hs, hc, Nat.zero_le _⟩) (fun hlong => ?_)
  refine (hop hlong).bind ?_
  rintro ⟨⟨⟨n, data, err⟩, buf⟩, t⟩ ⟨hdata, ht⟩
  cases err with
  | some err => exact .ok ⟨ht, hc, Nat.zero_le _⟩
  | none => exact .ok ⟨ht, hc, hdata⟩

/-- READ. -/
theorem returns_handleRead
    (htype : msgType payload = some .readReq) (hsafe : ¬ s.Reckless P payload) :
    Returns (SteadyOutcome P Whole) (c.handleRead (Backend.fs P) s payload) := by
  refine returns_handleReadOp hs hc fun hlong => ?_
  have hrange := not_recklessOn hsafe htype rfl hlong
  simp only [RecklessOn, not_or, not_and, not_lt] at hrange
  exact hs.read hrange.1 (fun f hf => hrange.2 (by rw [hf]; rfl)) _

/-- BREAD. -/
theorem returns_handleBread
    (htype : msgType payload = some .breadReq) (hsafe : ¬ s.Reckless P payload) :
    Returns (SteadyOutcome P Whole) (c.handleBread (Backend.fs P) s payload) := by
  refine returns_handleReadOp hs hc fun hlong => ?_
  have hrange := not_recklessOn hsafe htype rfl hlong
  simp only [RecklessOn, not_or, not_exists, not_and, not_lt] at hrange
  exact hs.bread hrange.1 _ hrange.2 _

/-- A chunk of a write. -/
theorem returns_handleChunk (hhandle : handle ≤ 64) (chunk : List Byte) :
    Returns (SteadyOutcome P Whole) (c.handleChunk (Backend.fs P) s payload handle chunk) := by
  have hcleared := activeWriteHandle_clearWriteHandle_le c
  refine (hs.writeChunk hhandle _ (parseChunk chunk).chunkSize _ _).bind ?_
  rintro ⟨⟨done, err⟩, t⟩ ht
  cases err with
  | some err => exact .ok ⟨ht, hcleared, trivial⟩
  | none =>
    refine .ite (fun _ => ?_) (fun _ => .ok ⟨ht, hc, trivial⟩)
    refine (ht.completeWrite hhandle).bind ?_
    rintro ⟨⟨n, err⟩, u⟩ hu
    cases err <;> exact .ok ⟨hu, hcleared, trivial⟩

omit hc in
/-- The chunk of a request that starts a write. -/
theorem returns_handleFirstChunk (hhandle : handle ≤ 64)
    (err : Option Error) (size : ℕ) :
    Returns (SteadyOutcome P Whole)
      (c.handleFirstChunk (Backend.fs P) s payload handle err size) := by
  cases err with
  | some err => exact .ok ⟨hs, activeWriteHandle_clearWriteHandle_le c, trivial⟩
  | none =>
    have hset : (c.setWriteHandle handle).activeWriteHandle ≤ 64 := hhandle
    exact .ite (fun _ => .ok ⟨hs, hset, trivial⟩) (fun _ => returns_handleChunk hs hset hhandle _)

/-- WRITE. -/
theorem returns_handleWriteReq
    (htype : msgType payload = some .writeReq) (hsafe : ¬ s.Reckless P payload) :
    Returns (SteadyOutcome P Whole) (c.handleWriteReq (Backend.fs P) s payload) := by
  unfold Connection.handleWriteReq
  refine .ite (fun _ => .ok ⟨hs, hc, trivial⟩) (fun hlong => ?_)
  have hrange := Int.not_lt.mp (not_recklessOn hsafe htype rfl hlong)
  refine (hs.writeStart hrange).bind ?_
  rintro ⟨err, t⟩ ht
  exact returns_handleFirstChunk ht hrange err 12

/-- BWRITE. -/
theorem returns_handleBwriteReq
    (htype : msgType payload = some .bwriteReq) (hsafe : ¬ s.Reckless P payload) :
    Returns (SteadyOutcome P Whole) (c.handleBwriteReq (Backend.fs P) s payload) := by
  unfold Connection.handleBwriteReq
  refine .ite (fun _ => .ok ⟨hs, hc, trivial⟩) (fun hlong => ?_)
  have hrange := Int.not_lt.mp (not_recklessOn hsafe htype rfl hlong)
  refine (hs.bwriteStart hrange _ _).bind ?_
  rintro ⟨err, t⟩ ht
  exact returns_handleFirstChunk ht hrange err 16

/-- WRITE_DATA. -/
theorem returns_handleWriteData :
    Returns (SteadyOutcome P Whole) (c.handleWriteData (Backend.fs P) s payload) :=
  .ite (fun _ => .ok ⟨hs, hc, trivial⟩) (fun _ => .ite (fun _ => .ok ⟨hs, hc, trivial⟩)
    (fun _ => returns_handleChunk hs hc hc _))

/-- LSEEK. -/
theorem returns_handleLseek
    (htype : msgType payload = some .lseekReq) (hsafe : ¬ s.Reckless P payload) :
    Returns (SteadyOutcome P Whole) (c.handleLseek (Backend.fs P) s payload) := by
  unfold Connection.handleLseek
  refine .ite (fun _ => .ok ⟨hs, hc, trivial⟩) (fun hlong => ?_)
  have hrange := Int.not_lt.mp (not_recklessOn hsafe htype rfl hlong)
  refine (hs.lseek hrange _ _).bind ?_
  rintro ⟨⟨pos, err⟩, t⟩ ht
  cases err <;> exact .ok ⟨ht, hc, trivial⟩

/-- DREAD. -/
theorem returns_handleDread
    (htype : msgType payload = some .dreadReq) (hsafe : ¬ s.Reckless P payload) :
    Returns (SteadyOutcome P Whole) (c.handleDread (Backend.fs P) s payload) := by
  unfold Connection.handleDread
  refine .ite (fun _ => .ok ⟨hs, hc, Nat.zero_le _⟩) (fun hlong => ?_)
  have hrange := not_recklessOn hsafe htype rfl hlong
  simp only [RecklessOn, not_or, not_lt] at hrange
  refine (hs.dread hrange.1 hrange.2).bind ?_
  rintro ⟨⟨ok, name, stat, err⟩, t⟩ ⟨hname, ht⟩
  cases err with
  | some err => exact .ok ⟨ht, hc, Nat.zero_le _⟩
  | none => exact .ite (fun _ => .ok ⟨ht, hc, Nat.zero_le _⟩) (fun _ => .ok ⟨ht, hc, hname⟩)

/-- GETSTAT. -/
theorem returns_handleGetstat :
    Returns (SteadyOutcome P Whole) (c.handleGetstat (Backend.fs P) s payload) := by
  refine .ite (fun _ => .ok ⟨hs, hc, trivial⟩) (fun _ => (hs.getstat _).bind ?_)
  rintro ⟨⟨stat, err⟩, t⟩ ht
  cases err <;> exact .ok ⟨ht, hc, trivial⟩

/-- MKDIR, REMOVE and RMDIR. -/
theorem returns_handlePathOp
    {op : Path → Backend η φ ρ → Except Fault (Option Error × Backend η φ ρ)}
    (hop : ∀ path, Returns (fun r => r.2.Steady P Whole) (op path s)) :
    Returns (SteadyOutcome P Whole) (c.handlePathOp s payload op) := by
  refine .ite (fun _ => .ok ⟨hs, hc, trivial⟩) (fun _ => (hop _).bind ?_)
  rintro ⟨err, t⟩ ht
  cases err <;> exact .ok ⟨ht, hc, trivial⟩

/-- A request that is not reckless returns. -/
theorem returns_handlePayload (S : Sound P) (hsafe : ¬ s.Reckless P payload) :
    Returns (SteadyOutcome P Whole) (c.handlePayload (Backend.fs P) s payload) := by
  have hidle : Returns (SteadyOutcome P Whole) (.ok ⟨c, s, .ack, 0⟩ : Except Fault _) :=
    .ok ⟨hs, hc, trivial⟩
  unfold Connection.handlePayload
  cases htype : msgType payload with
  | none => exact hidle
  | some m =>
    cases m with
    | openReq => exact returns_handleOpen hs hc S
    | closeReq => exact returns_handleClose hs hc htype hsafe
    | readReq => exact returns_handleRead hs hc htype hsafe
    | writeReq => exact returns_handleWriteReq hs hc htype hsafe
    | writeData => exact returns_handleWriteData hs hc
    | lseekReq => exact returns_handleLseek hs hc htype hsafe
    | dreadReq => exact returns_handleDread hs hc htype hsafe
    | getstatReq => exact returns_handleGetstat hs hc
    | mkdirReq => exact returns_handlePathOp hs hc hs.mkdir
    | removeReq => exact returns_handlePathOp hs hc (hs.changeDir _)
    | rmdirReq => exact returns_handlePathOp hs hc (hs.changeDir _)
    | breadReq => exact returns_handleBread hs hc htype hsafe
    | bwriteReq => exact returns_handleBwriteReq hs hc htype hsafe
    | _ => exact hidle

end Handlers

/-! ### Reckless requests -/

/-- The slots end at 64. -/
theorem getFile_beyond (hhandle : 64 < handle) : s.getFile handle = .error .indexOutOfRange := by
  have hbd : handle ≠ blockDeviceHandle := by
    simp only [blockDeviceHandle]
    omega
  unfold getFile
  rw [if_neg (by omega), if_neg hbd, slotOf_out_of_range (Or.inr hhandle)]
  rfl

/-- A handle beyond the table. -/
theorem withFile_beyond {α : Type} (hhandle : 64 < handle) (missing : α)
    (body : FileHandle φ ρ → World η → Except Fault (α × FileHandle φ ρ × World η)) :
    s.withFile handle missing body = .error .indexOutOfRange := by
  unfold withFile
  rw [getFile_beyond hhandle]
  rfl

/-- A method that panics ends its handler. -/
theorem panics_of_call {α : Type} {x : Except Fault α} {f : Fault}
    {next : α → Except Fault (Outcome (Backend η φ ρ))} (hx : x = .error f) :
    ∃ f, x >>= next = .error f :=
  ⟨f, by rw [hx]; rfl⟩

/-- A READ. -/
theorem panics_read (hs : s.RecklessOn P payload handle .readReq) (readBuffer : Buffer Byte) :
    ∃ f, read P handle (uint32 (payload.drop 8)) readBuffer s = .error f := by
  rcases hs with hhandle | ⟨hfile, hsize⟩
  · exact ⟨_, withFile_beyond hhandle _ _⟩
  · obtain ⟨f, hf⟩ := Option.isSome_iff_exists.mp hfile
    exact ⟨_, read_of_large readBuffer hf hsize⟩

/-- A BREAD. -/
theorem panics_bread (hsteady : s.Steady P Whole) (hs : s.RecklessOn P payload handle .breadReq)
    (readBuffer : Buffer Byte) :
    ∃ f, bread P handle (longField payload) (uint16 (payload.drop 2)) readBuffer s = .error f := by
  rcases hs with hhandle | ⟨f, hf, hseek, hsize⟩
  · exact ⟨_, withFile_beyond hhandle _ _⟩
  · have hexact := (hsteady.sectors handle (uint16 (payload.drop 2))).1
    exact ⟨_, bread_of_large readBuffer hf rfl hseek hexact (Or.inr hsize)⟩

/-- A request that is reckless panics. -/
theorem panics_handlePayload (hs : s.Steady P Whole) (c : Connection)
    (hreckless : s.Reckless P payload) :
    ∃ f, c.handlePayload (Backend.fs P) s payload = .error f := by
  obtain ⟨m, handle, htype, hnamed, hreckless⟩ := hreckless
  obtain ⟨n, hlength, hlong, rfl⟩ : ∃ n, m.handleLength = some n ∧ ¬ payload.length < n ∧
      handleField payload = handle := by
    unfold namedHandle at hnamed
    obtain ⟨m', hm', hnamed⟩ := Option.bind_eq_some_iff.mp hnamed
    cases htype.symm.trans hm'
    obtain ⟨n, hlength, hnamed⟩ := Option.bind_eq_some_iff.mp hnamed
    split_ifs at hnamed with hlong
    exact ⟨n, hlength, hlong, Option.some.inj hnamed⟩
  unfold Connection.handlePayload
  rw [htype]
  cases m with
  | closeReq =>
    cases hlength
    have hbd : handleField payload ≠ blockDeviceHandle := by
      simp only [RecklessOn, blockDeviceHandle] at hreckless ⊢
      omega
    have hslot : slotOf (handleField payload) = .error .indexOutOfRange := by
      refine slotOf_out_of_range ?_
      simp only [RecklessOn] at hreckless
      omega
    simp only [Connection.handleClose, if_neg hlong, if_neg hbd]
    refine panics_of_call (f := .indexOutOfRange) ?_
    simp only [fs, close, freeHandle, if_neg hbd, hslot]
    rfl
  | readReq =>
    cases hlength
    obtain ⟨f, hf⟩ := panics_read hreckless c.dataBuffer
    simp only [Connection.handleRead, Connection.handleReadOp, if_neg hlong]
    exact panics_of_call hf
  | writeReq =>
    cases hlength
    have hcall : writeStart (handleField payload) s =
        .error .indexOutOfRange := withFile_beyond hreckless _ _
    simp only [Connection.handleWriteReq, if_neg hlong]
    exact panics_of_call hcall
  | lseekReq =>
    cases hlength
    have hcall : lseek P (handleField payload) (longField payload) (payload.getD 1 0).toNat s =
        .error .indexOutOfRange := withFile_beyond hreckless _ _
    simp only [Connection.handleLseek, if_neg hlong]
    exact panics_of_call hcall
  | dreadReq =>
    cases hlength
    have hslot : slotOf (handleField payload) = .error .indexOutOfRange :=
      slotOf_out_of_range hreckless
    simp only [Connection.handleDread, if_neg hlong]
    refine panics_of_call (f := .indexOutOfRange) ?_
    simp only [fs, dread, getDir, hslot]
    rfl
  | breadReq =>
    cases hlength
    obtain ⟨f, hf⟩ := panics_bread hs hreckless c.dataBuffer
    simp only [Connection.handleBread, Connection.handleReadOp, if_neg hlong]
    exact panics_of_call hf
  | bwriteReq =>
    cases hlength
    have hcall : bwriteStart (handleField payload) (longField payload) (uint16 (payload.drop 2)) s =
        .error .indexOutOfRange := withFile_beyond hreckless _ _
    simp only [Connection.handleBwriteReq, if_neg hlong]
    exact panics_of_call hcall
  | _ => cases hlength

end Fs.Backend

/-! ### Peers -/

/-- The payload of a datagram that is to be handled. -/
def Phase.payload : Phase → Option (List Byte)
  | .received payload => some payload
  | _ => none

/-- Nothing about the peer makes the server panic. -/
structure Link.Steady (l : Link) : Prop where
  /-- The session. -/
  sess : l.sess.Calm
  /-- The handle of a write in progress. -/
  write : l.conn.activeWriteHandle ≤ 64
  /-- The reply about to be sent. -/
  reply : ∀ reply, l.phase = .handled reply → reply.Fits
  /-- The cached handles name slots. -/
  cached : ∀ h ∈ l.conn.usedHandles.keys, IsSlotHandle h

theorem Link.steady_new (now : ℕ) : (Link.new now).Steady :=
  ⟨Session.calm_lasting.setResetCallback _
    ⟨Session.ringInv_invariant.start, Nat.zero_le _, Nat.zero_le _⟩,
    show (-1 : ℤ) ≤ 64 by decide, nofun, fun h hh => by cases hh⟩

theorem Udprdma.Session.Calm.refill {s : Session} (hs : s.Calm) (shared : Option ℕ)
    (dataBuffer : Buffer Byte) : (Udpfsd.refill s shared dataBuffer).Calm := by
  cases shared with
  | none => exact hs
  | some n => exact ⟨hs.ring, hs.sized⟩

/-- A reply that fits is sent. -/
theorem Udpfs.Reply.Fits.send {reply : Reply} (hfits : reply.Fits) (dataBuffer : Buffer Byte)
    {s : Session} (hs : s.Calm) :
    ∃ t, reply.send dataBuffer s = .ok t ∧ t.Calm := by
  by_cases hack : reply = .ack
  · subst hack
    exact ⟨_, rfl, Session.calm_lasting.sendACK s true hs⟩
  obtain ⟨-, hle⟩ := hfits.length_payload hack
  cases reply with
  | ack => exact absurd rfl hack
  | readResult result data =>
    have hheader : (packResultReply result).length = 8 := rfl
    exact s.start_isOk ⟨Nat.le_of_eq (optimalChunkSize_eq _), by rw [hheader]; decide⟩
  | _ => exact s.start_isOk ⟨hle, Nat.zero_le _⟩

theorem Fs.IsSlotHandle.range {h : ℤ} (hslot : IsSlotHandle h) : 1 ≤ h ∧ h ≤ 64 := by
  obtain ⟨i, hi⟩ := hslot
  have : i.val < 64 := i.isLt
  omega

/-- All handles of a peer are rewound. -/
theorem Fs.Backend.Steady.rewindAll {s : Backend η φ ρ} (hs : s.Steady P Whole)
    {handles : List ℤ} (hslots : ∀ h ∈ handles, IsSlotHandle h) :
    Returns (fun t => t.Steady P Whole) (Connection.rewindAll (Backend.fs P) handles s) := by
  induction handles generalizing s with
  | nil => exact .ok hs
  | cons h rest ih =>
    obtain ⟨-, hle⟩ := (hslots h List.mem_cons_self).range
    refine (hs.lseek hle 0 0).bind ?_
    rintro ⟨r, t⟩ ht
    exact ih ht (fun k hk => hslots k (List.mem_cons_of_mem h hk))

/-- All handles of a peer are closed. -/
theorem Fs.Backend.Steady.closeAll {s : Backend η φ ρ} (hs : s.Steady P Whole)
    {handles : List ℤ} (hslots : ∀ h ∈ handles, IsSlotHandle h) :
    Returns (fun t => t.Steady P Whole) (Connection.closeAll (Backend.fs P) handles s) := by
  induction handles generalizing s with
  | nil => exact .ok hs
  | cons h rest ih =>
    have hslot := (hslots h List.mem_cons_self).range
    refine (hs.close (Or.inr hslot)).bind ?_
    rintro ⟨r, t⟩ ht
    exact ih ht (fun k hk => hslots k (List.mem_cons_of_mem h hk))

namespace Daemon

variable [DecidableEq κ] {o : Options} {host : η} {d d' : Daemon κ η φ ρ} {addr : κ} {l : Link}

/-- Nothing in the daemon makes it panic. -/
structure Steady (P : Platform η φ ρ) (Whole : ρ → Prop) (d : Daemon κ η φ ρ) : Prop where
  /-- The filesystem. -/
  fs : d.fs.Steady P Whole
  /-- The peers that are held. -/
  link : ∀ addr l, d.links addr = some l → l.Steady

omit [DecidableEq κ] in
theorem Steady.seen (hd : d.Steady P Whole) (addr : κ) : (d.seen addr).Steady := by
  unfold Daemon.seen
  cases hl : d.links addr with
  | none => exact Link.steady_new _
  | some l =>
    have hlink := hd.link addr l hl
    exact ⟨hlink.sess, hlink.write, hlink.reply, hlink.cached⟩

omit [DecidableEq κ] in
/-- The filesystem changes. -/
theorem Steady.withFs (hd : d.Steady P Whole) {fs : Backend η φ ρ} (hfs : fs.Steady P Whole) :
    Steady P Whole { d with fs := fs } :=
  ⟨hfs, hd.link⟩

section Turns

variable (hd : d.Steady P Whole)
include hd

omit [DecidableEq κ] in
/-- `handleData` goes on. -/
theorem Steady.turn (busy : Option (κ × Stage)) : Steady P Whole { d with busy := busy } :=
  ⟨hd.fs, hd.link⟩

/-- A peer changes. -/
theorem Steady.setLink (hlink : l.Steady) : (d.setLink addr l).Steady P Whole := by
  refine ⟨hd.fs, fun a l' hl' => ?_⟩
  by_cases ha : a = addr
  · subst ha
    cases (links_setLink_self d a l).symm.trans hl'
    exact hlink
  · exact hd.link a l' ((links_setLink_of_ne ha d l).symm.trans hl')

/-- A peer is let go. -/
theorem Steady.retire (addr : κ) (l : Link) : (d.retire addr l).Steady P Whole := by
  refine ⟨hd.fs, fun a l' hl' => ?_⟩
  by_cases ha : a = addr
  · subst ha
    cases (links_retire_self d a l).symm.trans hl'
  · exact hd.link a l' ((links_retire_of_ne ha d l).symm.trans hl')

/-- A step of the goroutine that handles data. -/
theorem Steady.settle (hlink : l.Steady) (addr : κ) (s : Stage) :
    (d.settle addr l s).Steady P Whole := by
  unfold Daemon.settle
  split_ifs
  · exact (hd.retire addr l).turn none
  · exact (hd.setLink hlink).turn none
  · exact (hd.setLink hlink).turn _

/-- A peer is removed. -/
theorem Steady.remove (hlink : l.Steady) (addr : κ) : (d.remove addr l).Steady P Whole := by
  unfold Daemon.remove
  split_ifs
  · exact hd.setLink hlink
  · exact hd.retire addr l

end Turns

/-- The cached handles of a peer name slots, in whichever order. -/
theorem Link.Steady.slots (hlink : l.Steady) (order : MapOrder) :
    ∀ k ∈ (order.apply l.conn).usedHandles.keys, IsSlotHandle k :=
  fun k hk => hlink.cached k ((order.mem_keys_apply _ k).mp hk)

/-- A datagram is processed up to its payload. -/
theorem Link.Steady.receive {fs : Backend η φ ρ} (hlink : l.Steady) (hfs : fs.Steady P Whole)
    {data : List Byte} (hlong : headerSize + dataHeaderSize ≤ data.length) (order : MapOrder) :
    Returns (fun e => e.fs.Steady P Whole ∧ (l.became e).Steady) (l.receive P fs data order) := by
  obtain ⟨sess, r, hsess, hcalm⟩ := hlink.sess.processDataPacket_isOk hlong
  have hreset : Returns (fun x => x.1.activeWriteHandle ≤ 64 ∧
      (∀ k ∈ x.1.usedHandles.keys, IsSlotHandle k) ∧ x.2.Steady P Whole)
      (l.onReset P fs order sess) := by
    refine .ite (fun _ => .ok ⟨hlink.write, hlink.cached, hfs⟩) (fun _ => ?_)
    refine (hfs.rewindAll (Link.Steady.slots hlink order)).bind ?_
    intro fs' hfs'
    refine .ok ⟨hlink.write, fun k hk => ?_, hfs'⟩
    exact Link.Steady.slots hlink order k (by simpa using hk)
  unfold Link.receive
  rw [hsess]
  refine hreset.bind ?_
  rintro ⟨conn, fs'⟩ ⟨hwrite, hcached, hfs'⟩
  simp only
  split
  · exact .ok ⟨hfs', hcalm, hwrite, nofun, hcached⟩
  · exact .ok ⟨hfs', hcalm, hwrite, nofun, hcached⟩

/-- The payload that is about to be handled. -/
def awaiting (d : Daemon κ η φ ρ) : Option (List Byte) :=
  match d.current with
  | some (_, .called, l) => l.phase.payload
  | _ => none

/-- What makes the server panic. -/
inductive Doomed (P : Platform η φ ρ) (d : Daemon κ η φ ρ) : Event κ → Prop
  /-- The peer of the datagram has been removed before its session is taken. -/
  | fetch {addr : κ} {data : List Byte} {l : Link}
      (hcurrent : d.current = some (addr, .found data, l)) (hremoved : l.removed = true) :
      Doomed P d .fetch
  /-- The peer of the datagram has been removed before its handler is called. -/
  | call {addr : κ} {l : Link} (hcurrent : d.current = some (addr, .returned, l))
      (hremoved : l.removed = true) : Doomed P d .call
  /-- The payload that is about to be handled makes the server panic. -/
  | handle {order : MapOrder} {payload : List Byte} (hawaiting : d.awaiting = some payload)
      (hreckless : d.fs.Reckless P payload) : Doomed P d (.handle order)

/-- A datagram is processed. -/
theorem Steady.process (hd : d.Steady P Whole) (hinv : Inv P d) (order : MapOrder) :
    Returns (Steady P Whole) (d.process P order) := by
  unfold Daemon.process
  split
  · rename_i addr data l hcurrent
    obtain ⟨hbusy, hl⟩ := current_eq_some.mp hcurrent
    have hlong := (hinv.inHand hbusy hl).fits.2
    refine (Link.Steady.receive (hd.link addr l hl) hd.fs hlong order).bind ?_
    exact fun e he => .ok ((hd.withFs he.1).settle he.2 addr _)
  · exact .ok hd

/-- A payload is handled. -/
theorem Steady.handle (S : Sound P) (hd : d.Steady P Whole) (order : MapOrder)
    (hsafe : ¬ Doomed P d (.handle order)) : Returns (Steady P Whole) (d.handle P order) := by
  unfold Daemon.handle
  split
  · rename_i addr l hcurrent
    split
    · rename_i payload hphase
      obtain ⟨-, hl⟩ := current_eq_some.mp hcurrent
      have hlink := hd.link addr l hl
      have hawaiting : d.awaiting = some payload := by
        simp [awaiting, hcurrent, hphase, Phase.payload]
      obtain ⟨out, hok, hfs, hwrite, hfits⟩ := Backend.returns_handlePayload
        (c := order.apply l.conn) hd.fs hlink.write S (fun h => hsafe (.handle hawaiting h))
      rw [hok]
      refine .ok ((hd.withFs hfs).settle ⟨hlink.sess.refill _ _, hwrite, ?_, ?_⟩ addr _)
      · rintro reply ⟨⟩
        exact hfits
      · intro k hk
        rcases (handlePayload_spec hok).tracks.cached k hk with hold | hslot
        · exact Link.Steady.slots hlink order k hold
        · exact hslot
    · exact .ok hd
  · exact .ok hd

/-- A reply is sent. -/
theorem Steady.send (hd : d.Steady P Whole) : Returns (Steady P Whole) d.send := by
  unfold Daemon.send
  split
  · rename_i addr l hcurrent
    split
    · rename_i reply hphase
      obtain ⟨-, hl⟩ := current_eq_some.mp hcurrent
      have hlink := hd.link addr l hl
      obtain ⟨sess, hsess, hcalm⟩ := (hlink.reply reply hphase).send l.conn.dataBuffer hlink.sess
      have hsent : (l.sent reply sess).Steady :=
        ⟨hcalm, hlink.write, fun _ hidle => (by cases hidle), hlink.cached⟩
      rw [hsess]
      exact .ok (hd.settle hsent addr _)
    · exact .ok hd
  · exact .ok hd

/-- A peer is removed. -/
theorem Steady.cleanup (hd : d.Steady P Whole) (addr : κ) (order : MapOrder) :
    Returns (Steady P Whole) (d.cleanup P addr order) := by
  unfold Daemon.cleanup
  split
  · exact .ok hd
  · rename_i l hl
    obtain ⟨hl, -⟩ := cMap_eq_some.mp hl
    have hlink := hd.link addr l hl
    refine .ite (fun _ => ?_) (fun _ => .ok hd)
    have hclose : Returns (fun x => x.2.Steady P Whole ∧ (l.closed x.1).Steady)
        ((order.apply l.conn).close (Backend.fs P) d.fs) := by
      refine (hd.fs.closeAll (Link.Steady.slots hlink order)).bind fun fs hfs => .ok ⟨hfs, ?_⟩
      exact ⟨Session.calm_lasting.close _ hlink.sess, hlink.write, hlink.reply,
        fun k hk => by cases hk⟩
    refine hclose.bind ?_
    rintro ⟨conn, fs⟩ ⟨hfs, hclosed⟩
    exact .ok ((hd.withFs hfs).remove hclosed addr)

/-- Whatever is not doomed returns, and leaves the daemon steady. -/
theorem Steady.step (S : Sound P) (hd : d.Steady P Whole) (hinv : Inv P d) {event : Event κ}
    (hsafe : ¬ Doomed P d event) : Returns (Steady P Whole) (d.step P event) := by
  cases event with
  | datagram addr data =>
    exact .ite (fun _ => .ok hd) (fun _ => .ok ((hd.setLink (hd.seen addr)).turn _))
  | fetch =>
    change Returns _ d.fetch
    unfold Daemon.fetch
    split
    · rename_i addr data l hcurrent
      exact .ite (fun hremoved => absurd (.fetch hcurrent hremoved) hsafe)
        (fun _ => .ok (hd.turn _))
    · exact .ok hd
  | process order => exact hd.process hinv order
  | call =>
    change Returns _ d.call
    unfold Daemon.call
    split
    · rename_i addr l hcurrent
      exact .ite (fun hremoved => absurd (.call hcurrent hremoved) hsafe)
        (fun _ => .ok (hd.turn _))
    · exact .ok hd
  | handle order => exact hd.handle S order hsafe
  | send => exact hd.send
  | tick addr e =>
    simp only [Daemon.step]
    split
    · exact .ok hd
    · rename_i l hl
      have hlink := hd.link addr l hl
      exact .ok (hd.setLink ⟨Session.calm_lasting.step (by cases e <;> rfl) hlink.sess
        (Session.step_tick l.sess e), hlink.write, hlink.reply, hlink.cached⟩)
  | tickRemoved j e => exact .ok ⟨hd.fs, hd.link⟩
  | cleanup addr order => exact hd.cleanup addr order
  | wait k => exact .ok (hd.withFs (hd.fs.setWorld _))

/-- What is doomed panics. -/
theorem Steady.panics (hd : d.Steady P Whole) {event : Event κ} (hdoomed : Doomed P d event) :
    ∃ f, d.step P event = .error f := by
  cases hdoomed with
  | fetch hcurrent hremoved => exact ⟨.nilPointer, by simp [Daemon.step, fetch, hcurrent, hremoved]⟩
  | call hcurrent hremoved => exact ⟨.nilPointer, by simp [Daemon.step, call, hcurrent, hremoved]⟩
  | @handle order payload hawaiting hreckless =>
    unfold awaiting at hawaiting
    split at hawaiting
    · rename_i addr l hcurrent
      have hphase : l.phase = .received payload := by
        cases hphase : l.phase with
        | received payload' =>
          rw [hphase] at hawaiting
          cases hawaiting
          rfl
        | _ =>
          rw [hphase] at hawaiting
          cases hawaiting
      obtain ⟨f, hf⟩ := Backend.panics_handlePayload hd.fs (order.apply l.conn) hreckless
      refine ⟨f, ?_⟩
      simp only [Daemon.step, Daemon.handle, hcurrent, hphase, hf]
      rfl
    · cases hawaiting

/-- The daemon starts without a panic, and steady. -/
theorem steady_newBackend (S : Sound P) (hdecodes : o.enableCompression = true → Decodes P Whole)
    (hsector : 0 ≤ o.sectorSize ∧ o.sectorSize < 2 ^ 47) (host : η) (now : ℕ) :
    Returns (fun r => ∀ fs, r = some fs → fs.Steady P Whole)
      (Backend.newBackend P o host now) := by
  unfold Backend.newBackend
  cases Backend.rootOf P o.fsRoot host with
  | none =>
    refine .ok ?_
    rintro fs ⟨⟩
  | some root =>
    have hsize : 0 ≤ (if o.sectorSize = 0 then 512 else o.sectorSize) ∧
        (if o.sectorSize = 0 then 512 else o.sectorSize) < 2 ^ 47 := by
      split_ifs <;> omega
    unfold Backend.openBlockDevice
    refine .ite (fun _ => .ok ?_) (fun _ => ?_)
    · rintro fs ⟨⟩
      exact ⟨fun _ hb => (by cases hb), fun _ _ hi => (by cases hi), hsize, hdecodes⟩
    · simp only
      split
      · refine .ok ?_
        rintro fs ⟨⟩
      · rename_i f _
        obtain ⟨info, hinfo⟩ := S.fstat f (P.os.openFile o.blockDevice
          (if o.readOnly = true then oRDONLY else oRDWR) host).2
        simp only [FileObject.stat, hinfo]
        refine .ok ?_
        rintro fs ⟨⟩
        refine ⟨?_, fun _ _ hi => (by cases hi), hsize, hdecodes⟩
        rintro b ⟨⟩
        trivial

/-- Every state is steady. -/
theorem Reachable.steady (S : Sound P) (hdecodes : o.enableCompression = true → Decodes P Whole)
    (hsector : 0 ≤ o.sectorSize ∧ o.sectorSize < 2 ^ 47) (h : Reachable P o host d) :
    d.Steady P Whole := by
  refine Transition.Reachable.invariant (P := Steady P Whole) ?_ ?_ h
  · rintro d ⟨now, fs, peerTimeout, -, hnew, rfl⟩
    refine ⟨?_, fun _ _ hl => by cases hl⟩
    exact (steady_newBackend S hdecodes hsector host now).of_eq_ok hnew fs rfl
  · rintro d d' hreach hd ⟨event, hok⟩
    have hsafe : ¬ Doomed P d event := by
      intro hdoomed
      obtain ⟨f, hf⟩ := hd.panics hdoomed
      rw [hf] at hok
      cases hok
    exact (hd.step S (Reachable.inv hreach) hsafe).of_eq_ok hok

end Daemon

/-- The concrete host, with names of at most 255 bytes. -/
def Fs.Host.posix : Platform Host OsFile Host.Image :=
  { Host.platform with
    os := { Host.os with
      readDir := fun path h =>
        (Host.readDir path h).map (List.filter (fun name => name.length ≤ 255)) } }

theorem Fs.Host.readDir_posix {path : Path} {h : Host} {names : List Path}
    (hok : Host.posix.os.readDir path h = .ok names) :
    h.lookup path = some .dir ∧ ∀ name ∈ names, name.length ≤ maxNameLength := by
  change (Host.readDir path h).map _ = .ok names at hok
  unfold Host.readDir at hok
  cases hnode : h.lookup path with
  | none =>
    rw [hnode] at hok
    cases hok
  | some node =>
    rw [hnode] at hok
    cases node with
    | file ino => cases hok
    | dir =>
      cases hok
      refine ⟨rfl, ?_⟩
      intro name hname
      have hshort := (List.mem_filter.mp hname).2
      exact (of_decide_eq_true hshort).trans (by decide)

/-- It answers for what it has opened. -/
def Fs.Host.sound : Sound Host.posix where
  IsDir := fun path h => h.lookup path = some .dir
  fstat := by
    intro f h
    change ∃ info, Host.fstat f h = .ok info
    unfold Host.fstat
    cases f.ino with
    | none => exact ⟨_, rfl⟩
    | some ino => exact ⟨_, rfl⟩
  readDir := fun _ _ _ hok => Host.readDir_posix hok
  stat := by
    intro path h hdir
    change ∃ info, Host.stat path h = .ok info
    simp only [Host.stat, hdir]
    exact ⟨_, rfl⟩
  close := fun _ _ _ hdir => hdir
  closeImage := fun _ _ _ hdir => hdir

namespace Daemon

/-- A READ of sixteen bytes with handle 65. -/
def readBeyond : List Byte := [0x14, 0, 0, 0, 0x41, 0, 0, 0, 0x10, 0, 0, 0]

/-- Whether `handleData` is about to call the handler for a removed peer. -/
def callsOrphan (d : Daemon κ η φ ρ) : Bool :=
  match d.current with
  | some (_, .returned, l) => l.removed
  | _ => false

end Daemon

end Udpfsd
