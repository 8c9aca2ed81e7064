import Udpfsd.Base.Lockstep
import Udpfsd.Udpfs.Handlers

/-!
# Connections on two filesystems

A connection learns of its filesystem only what the methods return. So on two filesystems
whose methods return the same from related states, it does the same, request by request.
-/

namespace Udpfsd.Udpfs

open Udprdma (Byte)
open Lockstep (Same)

variable {σ τ : Type} {F : FS σ} {G : FS τ} {Q : σ → τ → Prop}

/-- The methods of the two filesystems return the same from related states, and leave related
states. -/
structure FS.Mirrors (F : FS σ) (G : FS τ) (Q : σ → τ → Prop) : Prop where
  /-- `Open`. -/
  openFile : ∀ path flag isDir {s t}, Q s t →
    Lockstep (Same Q) (F.openFile path flag isDir s) (G.openFile path flag isDir t)
  /-- `Close`. -/
  close : ∀ handle {s t}, Q s t → Lockstep (Same Q) (F.close handle s) (G.close handle t)
  /-- `Read`. -/
  read : ∀ handle size buf {s t}, Q s t →
    Lockstep (Same Q) (F.read handle size buf s) (G.read handle size buf t)
  /-- `WriteStart`. -/
  writeStart : ∀ handle {s t}, Q s t →
    Lockstep (Same Q) (F.writeStart handle s) (G.writeStart handle t)
  /-- `WriteChunk`. -/
  writeChunk : ∀ handle nr size total chunk {s t}, Q s t →
    Lockstep (Same Q) (F.writeChunk handle nr size total chunk s)
      (G.writeChunk handle nr size total chunk t)
  /-- `CompleteWrite`. -/
  completeWrite : ∀ handle {s t}, Q s t →
    Lockstep (Same Q) (F.completeWrite handle s) (G.completeWrite handle t)
  /-- `Lseek`. -/
  lseek : ∀ handle offset whence {s t}, Q s t →
    Lockstep (Same Q) (F.lseek handle offset whence s) (G.lseek handle offset whence t)
  /-- `Dread`. -/
  dread : ∀ handle {s t}, Q s t → Lockstep (Same Q) (F.dread handle s) (G.dread handle t)
  /-- `Getstat`. -/
  getstat : ∀ path {s t}, Q s t → Lockstep (Same Q) (F.getstat path s) (G.getstat path t)
  /-- `Mkdir`. -/
  mkdir : ∀ path {s t}, Q s t → Lockstep (Same Q) (F.mkdir path s) (G.mkdir path t)
  /-- `Remove`. -/
  remove : ∀ path {s t}, Q s t → Lockstep (Same Q) (F.remove path s) (G.remove path t)
  /-- `Rmdir`. -/
  rmdir : ∀ path {s t}, Q s t → Lockstep (Same Q) (F.rmdir path s) (G.rmdir path t)
  /-- `Bread`. -/
  bread : ∀ handle nr count buf {s t}, Q s t →
    Lockstep (Same Q) (F.bread handle nr count buf s) (G.bread handle nr count buf t)
  /-- `BwriteStart`. -/
  bwriteStart : ∀ handle nr count {s t}, Q s t →
    Lockstep (Same Q) (F.bwriteStart handle nr count s) (G.bwriteStart handle nr count t)

/-- Two outcomes of a request that differ in the filesystem at most. -/
structure Outcome.Mirrors (Q : σ → τ → Prop) (out : Outcome σ) (out' : Outcome τ) : Prop where
  /-- The connection. -/
  conn : out'.conn = out.conn
  /-- The filesystem. -/
  fs : Q out.fs out'.fs
  /-- The reply. -/
  reply : out'.reply = out.reply
  /-- The status. -/
  status : out'.status = out.status

namespace FS.Mirrors

variable {c : Connection} {s : σ} {t : τ} {payload : List Byte}

/-- The end of a handler. -/
theorem done (hst : Q s t) (c : Connection) (reply : Reply) (status : ℤ) :
    Lockstep (Outcome.Mirrors Q) (.ok ⟨c, s, reply, status⟩ : Except Fault _)
      (.ok ⟨c, t, reply, status⟩) :=
  .done ⟨rfl, hst, rfl, rfl⟩

variable (hF : F.Mirrors G Q) (hst : Q s t)
include hF hst

/-- An OPEN that is not answered from the cache. -/
theorem openNew (path : Path) (flag : OpenFlag) (isDir : Bool) :
    Lockstep (Outcome.Mirrors Q) (c.openNew F s path flag isDir)
      (c.openNew G t path flag isDir) := by
  refine (hF.openFile path flag isDir hst).bind_same ?_
  rintro ⟨handle, stat, err⟩ s' t' hst'
  cases err with
  | some err => exact done hst' _ _ _
  | none => exact .ite (fun _ => done hst' _ _ _) (fun _ => done hst' _ _ _)

/-- OPEN. -/
theorem handleOpen :
    Lockstep (Outcome.Mirrors Q) (c.handleOpen F s payload) (c.handleOpen G t payload) := by
  refine .ite (fun _ => done hst _ _ _) (fun _ => ?_)
  refine .ite (fun _ => hF.openNew hst _ _ _) (fun _ => ?_)
  rcases c.lookupHandle (cString (payload.drop 8))
    (udpfsFlagsToOSFlags (Udprdma.uint16 (payload.drop 2))) with ⟨found, c'⟩
  cases found with
  | none => exact hF.openNew hst _ _ _
  | some h => exact done hst _ _ _

/-- CLOSE. -/
theorem handleClose :
    Lockstep (Outcome.Mirrors Q) (c.handleClose F s payload) (c.handleClose G t payload) := by
  refine .ite (fun _ => done hst _ _ _) (fun _ => .ite (fun _ => done hst _ _ _) (fun _ => ?_))
  refine (hF.close _ hst).bind_same ?_
  intro err s' t' hst'
  cases err <;> exact done hst' _ _ _

omit hF in
/-- READ and BREAD. -/
theorem handleReadOp {opF : Buffer Byte → σ → Except Fault ((ReadResult × Buffer Byte) × σ)}
    {opG : Buffer Byte → τ → Except Fault ((ReadResult × Buffer Byte) × τ)}
    (hop : ∀ buf, Lockstep (Same Q) (opF buf s) (opG buf t)) (size : ℕ)
    (result : ReadResult → ℤ) :
    Lockstep (Outcome.Mirrors Q) (c.handleReadOp s payload size opF result)
      (c.handleReadOp t payload size opG result) := by
  refine .ite (fun _ => done hst _ _ _) (fun _ => ?_)
  refine (hop _).bind_same ?_
  rintro ⟨⟨n, data, err⟩, buf⟩ s' t' hst'
  cases err <;> exact done hst' _ _ _

/-- A chunk of a write. -/
theorem handleChunk (handle : ℤ) (chunk : List Byte) :
    Lockstep (Outcome.Mirrors Q) (c.handleChunk F s payload handle chunk)
      (c.handleChunk G t payload handle chunk) := by
  refine (hF.writeChunk _ _ _ _ _ hst).bind_same ?_
  rintro ⟨complete, err⟩ s' t' hst'
  cases err with
  | some err => exact done hst' _ _ _
  | none =>
    refine .ite (fun _ => ?_) (fun _ => done hst' _ _ _)
    refine (hF.completeWrite _ hst').bind_same ?_
    rintro ⟨n, err⟩ s'' t'' hst''
    cases err <;> exact done hst'' _ _ _

/-- The chunk of a request that starts a write. -/
theorem handleFirstChunk (handle : ℤ) (err : Option Error)
    (size : ℕ) :
    Lockstep (Outcome.Mirrors Q) (c.handleFirstChunk F s payload handle err size)
      (c.handleFirstChunk G t payload handle err size) := by
  cases err with
  | some err => exact done hst _ _ _
  | none => exact .ite (fun _ => done hst _ _ _) (fun _ => hF.handleChunk hst _ _)

/-- WRITE. -/
theorem handleWriteReq :
    Lockstep (Outcome.Mirrors Q) (c.handleWriteReq F s payload) (c.handleWriteReq G t payload) := by
  refine .ite (fun _ => done hst _ _ _) (fun _ => ?_)
  exact (hF.writeStart _ hst).bind_same fun err s' t' hst' => hF.handleFirstChunk hst' _ err _

/-- BWRITE. -/
theorem handleBwriteReq :
    Lockstep (Outcome.Mirrors Q) (c.handleBwriteReq F s payload)
      (c.handleBwriteReq G t payload) := by
  refine .ite (fun _ => done hst _ _ _) (fun _ => ?_)
  exact (hF.bwriteStart _ _ _ hst).bind_same fun err s' t' hst' =>
    hF.handleFirstChunk hst' _ err _

/-- WRITE_DATA. -/
theorem handleWriteData :
    Lockstep (Outcome.Mirrors Q) (c.handleWriteData F s payload)
      (c.handleWriteData G t payload) :=
  .ite (fun _ => done hst _ _ _) fun _ => .ite (fun _ => done hst _ _ _) fun _ =>
    hF.handleChunk hst _ _

/-- LSEEK. -/
theorem handleLseek :
    Lockstep (Outcome.Mirrors Q) (c.handleLseek F s payload) (c.handleLseek G t payload) := by
  refine .ite (fun _ => done hst _ _ _) (fun _ => ?_)
  refine (hF.lseek _ _ _ hst).bind_same ?_
  rintro ⟨pos, err⟩ s' t' hst'
  cases err <;> exact done hst' _ _ _

/-- DREAD. -/
theorem handleDread :
    Lockstep (Outcome.Mirrors Q) (c.handleDread F s payload) (c.handleDread G t payload) := by
  refine .ite (fun _ => done hst _ _ _) (fun _ => ?_)
  refine (hF.dread _ hst).bind_same ?_
  rintro ⟨ok, name, stat, err⟩ s' t' hst'
  cases err with
  | some err => exact done hst' _ _ _
  | none => exact .ite (fun _ => done hst' _ _ _) (fun _ => done hst' _ _ _)

/-- GETSTAT. -/
theorem handleGetstat :
    Lockstep (Outcome.Mirrors Q) (c.handleGetstat F s payload) (c.handleGetstat G t payload) := by
  refine .ite (fun _ => done hst _ _ _) (fun _ => ?_)
  refine (hF.getstat _ hst).bind_same ?_
  rintro ⟨stat, err⟩ s' t' hst'
  cases err <;> exact done hst' _ _ _

omit hF in
/-- MKDIR, REMOVE and RMDIR. -/
theorem handlePathOp {op : Path → σ → Except Fault (Option Error × σ)}
    {op' : Path → τ → Except Fault (Option Error × τ)}
    (hop : ∀ path {s t}, Q s t → Lockstep (Same Q) (op path s) (op' path t)) :
    Lockstep (Outcome.Mirrors Q) (c.handlePathOp s payload op) (c.handlePathOp t payload op') := by
  refine .ite (fun _ => done hst _ _ _) (fun _ => ?_)
  refine (hop _ hst).bind_same ?_
  intro err s' t' hst'
  cases err <;> exact done hst' _ _ _

/-- A request has the same reply from related filesystems. -/
theorem handlePayload :
    Lockstep (Outcome.Mirrors Q) (c.handlePayload F s payload) (c.handlePayload G t payload) := by
  unfold Connection.handlePayload
  cases msgType payload with
  | none => exact done hst _ _ _
  | some m =>
    cases m with
    | openReq => exact hF.handleOpen hst
    | closeReq => exact hF.handleClose hst
    | readReq => exact handleReadOp hst (fun _ => hF.read _ _ _ hst) _ _
    | writeReq => exact hF.handleWriteReq hst
    | writeData => exact hF.handleWriteData hst
    | lseekReq => exact hF.handleLseek hst
    | dreadReq => exact hF.handleDread hst
    | getstatReq => exact hF.handleGetstat hst
    | mkdirReq => exact handlePathOp hst hF.mkdir
    | removeReq => exact handlePathOp hst hF.remove
    | rmdirReq => exact handlePathOp hst hF.rmdir
    | breadReq => exact handleReadOp hst (fun _ => hF.bread _ _ _ _ hst) _ _
    | bwriteReq => exact hF.handleBwriteReq hst
    | _ => exact done hst _ _ _

/-- The files of a peer are rewound. -/
theorem rewindAll (handles : List ℤ) :
    Lockstep Q (Connection.rewindAll F handles s) (Connection.rewindAll G handles t) := by
  induction handles generalizing s t with
  | nil => exact .done hst
  | cons h rest ih => exact (hF.lseek h 0 0 hst).bind_same fun _ _ _ hst' => ih hst'

/-- The files of a peer are closed. -/
theorem closeAll (handles : List ℤ) :
    Lockstep Q (Connection.closeAll F handles s) (Connection.closeAll G handles t) := by
  induction handles generalizing s t with
  | nil => exact .done hst
  | cons h rest ih => exact (hF.close h hst).bind_same fun _ _ _ hst' => ih hst'

/-- A reset of the peer leaves related filesystems. -/
theorem resetPeer :
    Lockstep (Same Q) (c.resetPeer F s) (c.resetPeer G t) :=
  (hF.rewindAll hst _).bind fun _ _ hst' => .done ⟨rfl, hst'⟩

/-- The closing of a connection leaves related filesystems. -/
theorem close_connection :
    Lockstep (Same Q) (c.close F s) (c.close G t) :=
  (hF.closeAll hst _).bind fun _ _ hst' => .done ⟨rfl, hst'⟩

end FS.Mirrors

end Udpfsd.Udpfs
