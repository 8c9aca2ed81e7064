import Udpfsd.Udpfs.Connection

/-!
# The request handlers

A handler decodes a request, calls the filesystem and ends by sending one reply. It is
modelled up to that reply: the connection and the filesystem after it, the reply, and
the status code the handler returns for the log.
-/

namespace Udpfsd.Udpfs

open Udprdma (Byte uint16 uint32)

/-- The request a payload carries. -/
def msgType (payload : List Byte) : Option MsgType := MsgType.ofByte (payload.getD 0 0)

/-- A C string at the front of a byte sequence: up to a zero byte or to its end. -/
def cString (b : List Byte) : Path := b.takeWhile (· ≠ 0)

/-- The signed handle in bytes 4 to 7 of a request. -/
def handleField (payload : List Byte) : ℤ := (uint32 (payload.drop 4)).toInt

/-- The signed 64-bit number in bytes 8 to 15 of a request, low word first. -/
def longField (payload : List Byte) : ℤ :=
  (uint32 (payload.drop 12) ++ uint32 (payload.drop 8) : BitVec 64).toInt

/-- A chunk of a write, after its two reserved bytes. -/
structure Chunk where
  /-- The number of the chunk. -/
  chunkNr : BitVec 16
  /-- The announced size. -/
  chunkSize : BitVec 16
  /-- The number of chunks of the write. -/
  totalChunks : BitVec 16
  /-- The data, cut off at the announced size. -/
  chunkData : List Byte

/-- The decoding of a chunk of at least eight bytes. -/
def parseChunk (b : List Byte) : Chunk :=
  let chunkSize := uint16 (b.drop 4)
  { chunkNr := uint16 (b.drop 2)
    chunkSize := chunkSize
    totalChunks := uint16 (b.drop 6)
    chunkData := (b.drop 8).take chunkSize.toNat }

/-- What a handler leaves behind. -/
structure Outcome (σ : Type*) where
  /-- The connection. -/
  conn : Connection
  /-- The filesystem. -/
  fs : σ
  /-- The reply it sends. -/
  reply : Reply
  /-- The status code it returns. -/
  status : ℤ

namespace Connection

variable {σ : Type*} (fs : FS σ) (c : Connection) (s : σ) (payload : List Byte)

/-- `SendWriteDone`, after which no write is active. -/
def sendWriteDone (result status : ℤ) : Outcome σ :=
  ⟨c.clearWriteHandle, s, .writeDone result, status⟩

/-- The part of `handleOpen` that opens the file. -/
def openNew (path : Path) (flag : OpenFlag) (isDir : Bool) : Except Fault (Outcome σ) := do
  let ((handle, stat, err), s) ← fs.openFile path flag isDir s
  match err with
  | some err => return ⟨c, s, .openReply (-errToErrno err) stat, -errToErrno err⟩
  | none =>
    if handle < 0 then return ⟨c, s, .openReply handle stat, handle⟩
    else return ⟨c.addHandle handle path flag isDir, s, .openReply handle stat, 0⟩

/-- `handleOpen`. -/
def handleOpen : Except Fault (Outcome σ) :=
  if payload.length < 8 then .ok ⟨c, s, .openReply (-einval) .empty, -einval⟩
  else
    let path := cString (payload.drop 8)
    let isDir : Bool := payload.getD 1 0 ≠ 0
    let flag := udpfsFlagsToOSFlags (uint16 (payload.drop 2))
    if isDir then c.openNew fs s path flag isDir
    else
      -- a client that restarted gets the handle of the same file again
      match c.lookupHandle path flag with
      | (some h, c) => .ok ⟨c, s, .openReply h .empty, 0⟩
      | (none, c) => c.openNew fs s path flag isDir

/-- `handleClose`. -/
def handleClose : Except Fault (Outcome σ) :=
  if payload.length < 8 then .ok ⟨c, s, .closeReply (-einval), -einval⟩
  else
    let handle := handleField payload
    if handle = blockDeviceHandle then .ok ⟨c, s, .closeReply handle, handle⟩
    else do
      let (err, s) ← fs.close handle s
      match err with
      | some err => return ⟨c, s, .closeReply (-errToErrno err), -errToErrno err⟩
      | none => return ⟨c.removeHandle handle, s, .closeReply 0, 0⟩

/-- The common body of `handleRead` and `handleBread`, for requests of `size` bytes. -/
def handleReadOp (size : ℕ) (op : Buffer Byte → σ → Except Fault ((ReadResult × Buffer Byte) × σ))
    (result : ReadResult → ℤ) : Except Fault (Outcome σ) :=
  if payload.length < size then .ok ⟨c, s, .readResult (-einval) none, -einval⟩
  else do
    let ((r, dataBuffer), s) ← op c.dataBuffer s
    let c := { c with dataBuffer := dataBuffer }
    match r.err with
    | some err => return ⟨c, s, .readResult (-errToErrno err) none, -errToErrno err⟩
    | none => return ⟨c, s, .readResult (result r) r.data, result r⟩

/-- `handleRead`, which replies with the number that `Read` returns. -/
def handleRead : Except Fault (Outcome σ) :=
  c.handleReadOp s payload 12 (fs.read (handleField payload) (uint32 (payload.drop 8)))
    ReadResult.n

/-- The common end of the handlers of a write: the chunk is handed over, and after the
last one the write is completed. -/
def handleChunk (handle : ℤ) (chunk : List Byte) : Except Fault (Outcome σ) := do
  let k := parseChunk chunk
  let ((done, err), s) ← fs.writeChunk handle k.chunkNr k.chunkSize k.totalChunks k.chunkData s
  match err with
  | some err => return c.sendWriteDone s (-errToErrno err) (-errToErrno err)
  | none =>
    if done then do
      let ((n, err), s) ← fs.completeWrite handle s
      match err with
      | some err => return c.sendWriteDone s (-errToErrno err) (-errToErrno err)
      | none => return c.sendWriteDone s n payload.length
    else return ⟨c, s, .ack, payload.length⟩

/-- The part of the two requests that start a write after the start itself: the first
chunk, behind a request header of `size` bytes, may be in the same packet. -/
def handleFirstChunk (handle : ℤ) (err : Option Error) (size : ℕ) : Except Fault (Outcome σ) :=
  match err with
  | some err => .ok (c.sendWriteDone s (-errToErrno err) (-errToErrno err))
  | none =>
    let c := c.setWriteHandle handle
    if payload.length < size + 8 then .ok ⟨c, s, .ack, 0⟩
    else c.handleChunk fs s payload handle (payload.drop size)

/-- `handleWriteReq`. -/
def handleWriteReq : Except Fault (Outcome σ) :=
  if payload.length < 12 then .ok ⟨c, s, .ack, 0⟩
  else do
    let handle := handleField payload
    let (err, s) ← fs.writeStart handle s
    c.handleFirstChunk fs s payload handle err 12

/-- `handleWriteData`. -/
def handleWriteData : Except Fault (Outcome σ) :=
  if payload.length < 8 then .ok ⟨c, s, .ack, 0⟩
  else if c.activeWriteHandle = -1 then .ok ⟨c, s, .ack, ebadf⟩
  else c.handleChunk fs s payload c.activeWriteHandle payload

/-- `handleLseek`. -/
def handleLseek : Except Fault (Outcome σ) :=
  if payload.length < 16 then .ok ⟨c, s, .lseekReply (-1), -1⟩
  else do
    let whence := (payload.getD 1 0).toNat
    let ((pos, err), s) ← fs.lseek (handleField payload) (longField payload) whence s
    match err with
    | some _ => return ⟨c, s, .lseekReply (-1), -1⟩
    | none => return ⟨c, s, .lseekReply pos, 0⟩

/-- `handleDread`. -/
def handleDread : Except Fault (Outcome σ) :=
  if payload.length < 8 then .ok ⟨c, s, .dreadReply (-einval) [] .empty, -einval⟩
  else do
    let ((ok, name, stat, err), s) ← fs.dread (handleField payload) s
    match err with
    | some err => return ⟨c, s, .dreadReply (-errToErrno err) [] .empty, -errToErrno err⟩
    | none =>
      if !ok then return ⟨c, s, .dreadReply 0 [] .empty, 0⟩
      else return ⟨c, s, .dreadReply 1 name stat, 0⟩

/-- `handleGetstat`. -/
def handleGetstat : Except Fault (Outcome σ) :=
  if payload.length < 4 then .ok ⟨c, s, .getstatReply (-einval) .empty, -einval⟩
  else do
    let ((stat, err), s) ← fs.getstat (cString (payload.drop 4)) s
    match err with
    | some err => return ⟨c, s, .getstatReply (-errToErrno err) .empty, -errToErrno err⟩
    | none => return ⟨c, s, .getstatReply 0 stat, 0⟩

/-- The common body of the handlers that change a directory. -/
def handlePathOp (op : Path → σ → Except Fault (Option Error × σ)) : Except Fault (Outcome σ) :=
  if payload.length < 4 then .ok ⟨c, s, .resultReply (-einval), -einval⟩
  else do
    let (err, s) ← op (cString (payload.drop 4)) s
    match err with
    | some err => return ⟨c, s, .resultReply (-errToErrno err), -errToErrno err⟩
    | none => return ⟨c, s, .resultReply 0, 0⟩

/-- `handleMkdir`. -/
def handleMkdir : Except Fault (Outcome σ) := c.handlePathOp s payload fs.mkdir

/-- `handleRemove`. -/
def handleRemove : Except Fault (Outcome σ) := c.handlePathOp s payload fs.remove

/-- `handleRmdir`. -/
def handleRmdir : Except Fault (Outcome σ) := c.handlePathOp s payload fs.rmdir

/-- `handleBread`, which replies with the length of the data. -/
def handleBread : Except Fault (Outcome σ) :=
  c.handleReadOp s payload 16
    (fs.bread (handleField payload) (longField payload) (uint16 (payload.drop 2)))
    (fun r => r.data.getD 0)

/-- `handleBwriteReq`. -/
def handleBwriteReq : Except Fault (Outcome σ) :=
  if payload.length < 16 then .ok ⟨c, s, .ack, 0⟩
  else do
    let sectorCount := uint16 (payload.drop 2)
    let handle := handleField payload
    let (err, s) ← fs.bwriteStart handle (longField payload) sectorCount s
    c.handleFirstChunk fs s payload handle err 16

/-- `HandlePayload` for a nonempty payload. A message of an unknown type is only
acknowledged. -/
def handlePayload : Except Fault (Outcome σ) :=
  match msgType payload with
  | some .openReq => c.handleOpen fs s payload
  | some .closeReq => c.handleClose fs s payload
  | some .readReq => c.handleRead fs s payload
  | some .writeReq => c.handleWriteReq fs s payload
  | some .writeData => c.handleWriteData fs s payload
  | some .lseekReq => c.handleLseek fs s payload
  | some .dreadReq => c.handleDread fs s payload
  | some .getstatReq => c.handleGetstat fs s payload
  | some .mkdirReq => c.handleMkdir fs s payload
  | some .removeReq => c.handleRemove fs s payload
  | some .rmdirReq => c.handleRmdir fs s payload
  | some .breadReq => c.handleBread fs s payload
  | some .bwriteReq => c.handleBwriteReq fs s payload
  | _ => .ok ⟨c, s, .ack, 0⟩

end Connection

/-! ### The handle of a request -/

/-- The length from which on a request is decoded as far as its handle. -/
def MsgType.handleLength : MsgType → Option ℕ
  | .closeReq => some 8
  | .readReq => some 12
  | .writeReq => some 12
  | .lseekReq => some 16
  | .dreadReq => some 8
  | .breadReq => some 16
  | .bwriteReq => some 16
  | _ => none

/-- The handle that a request names. -/
def namedHandle (payload : List Byte) : Option ℤ := do
  let m ← msgType payload
  let n ← m.handleLength
  if payload.length < n then none else some (handleField payload)

/-- The handle that a request works through: the one it names, or for the data of a
write the one of the write in progress. -/
def Connection.target (c : Connection) (payload : List Byte) : Option ℤ :=
  if msgType payload = some .writeData then
    if payload.length < 8 ∨ c.activeWriteHandle = -1 then none else some c.activeWriteHandle
  else namedHandle payload

theorem Reply.Failed.of_err {r : Reply} {err : Error} (h : r.result = some (-errToErrno err)) :
    r.Failed :=
  ⟨_, h, by have := errToErrno_pos err; omega⟩

end Udpfsd.Udpfs
