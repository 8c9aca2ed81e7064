import Mathlib.Logic.Function.Basic
import Mathlib.Data.List.FinRange
import Udpfsd.Fs.Compression

/-!
# The handle table

A handle is a file or a directory object. The table has 64 slots, shared by all
clients; slot `i` is the handle `i + 1`, since handle 0 is the block device. Objects
are numbered in the order in which they are made.
-/

namespace Udpfsd.Fs

open Udprdma (Byte)
open Udpfs (Error Fault FileInfo OpenFlag blockDeviceHandle emfile)

variable {η φ ρ : Type}

/-- `interfaces.FileObject`. -/
inductive FileObject (φ ρ : Type)
  /-- An `os.File`, with the name it was opened under. -/
  | osFile (name : Path) (file : φ)
  /-- A `CachedReader`. -/
  | cachedReader (reader : CachedReader ρ)

namespace FileObject

/-- `Name`. -/
def name : FileObject φ ρ → Path
  | osFile name _ => name
  | cachedReader c => c.info.name

/-- `Read` into a buffer of `n` bytes, which returns no more than that. -/
def read (P : Platform η φ ρ) (n : ℕ) (h : η) :
    FileObject φ ρ → Except Fault ((List Byte × Option Error) × FileObject φ ρ × η)
  | osFile name f =>
    let ((bytes, err), f, h) := P.os.read f n h
    .ok ((bytes.take n, err), osFile name f, h)
  | cachedReader c => do
    let ((bytes, err), c, h) ← c.read P.reader n h
    return ((bytes.take n, err), cachedReader c, h)

/-- `Write`. -/
def write (P : Platform η φ ρ) (data : List Byte) (h : η) :
    FileObject φ ρ → (ℤ × Option Error) × FileObject φ ρ × η
  | osFile name f =>
    let (r, f, h) := P.os.write f data h
    (r, osFile name f, h)
  | cachedReader c =>
    let (r, c) := c.write data
    (r, cachedReader c, h)

/-- `Seek`. -/
def seek (P : Platform η φ ρ) (offset whence : ℤ) (h : η) :
    FileObject φ ρ → (ℤ × Option Error) × FileObject φ ρ × η
  | osFile name f =>
    let (r, f, h) := P.os.seek f offset whence h
    (r, osFile name f, h)
  | cachedReader c =>
    let (r, c) := c.seek offset whence
    (r, cachedReader c, h)

/-- `Stat`. -/
def stat (P : Platform η φ ρ) (h : η) : FileObject φ ρ → Except Error FileInfo
  | osFile _ f => P.os.fstat f h
  | cachedReader c => .ok c.info.fileInfo

/-- `Close`. -/
def close (P : Platform η φ ρ) (h : η) : FileObject φ ρ → η
  | osFile _ f => P.os.close f h
  | cachedReader c => P.reader.close c.br h

end FileObject

/-- `writeState`. -/
structure WriteState where
  /-- The chunks received so far. -/
  dataBuffer : List Byte
  /-- The first sector of a block write. -/
  sectorNumber : ℤ
  /-- The number of sectors of a block write. -/
  sectorCount : BitVec 16
  /-- The number of chunks announced. -/
  totalChunks : BitVec 16
  /-- The number of chunks received. -/
  receivedChunks : BitVec 16
  /-- Whether the write is a block write. -/
  blockWrite : Bool

/-- The zero `writeState`. -/
def WriteState.zero : WriteState := ⟨[], 0, 0, 0, 0, false⟩

/-- `fileHandle`. The number and the host path are those of the object's making; no
method reads them. -/
structure FileHandle (φ ρ : Type) where
  /-- The number of the object. -/
  id : ℕ
  /-- The path that was opened on the host. -/
  hostPath : Path
  /-- The file object. -/
  obj : FileObject φ ρ
  /-- The write in progress. -/
  wr : WriteState
  /-- Whether the handle may not be written through. -/
  readOnly : Bool

namespace FileHandle

/-- `Read`. -/
def read (P : Platform η φ ρ) (f : FileHandle φ ρ) (n : ℕ) (w : World η) :
    Except Fault ((List Byte × Option Error) × FileHandle φ ρ × World η) := do
  let (r, obj, host) ← f.obj.read P n w.host
  return (r, { f with obj := obj }, { w.access f.id .read with host := host })

/-- `Write`. -/
def write (P : Platform η φ ρ) (f : FileHandle φ ρ) (data : List Byte) (w : World η) :
    (ℤ × Option Error) × FileHandle φ ρ × World η :=
  let (r, obj, host) := f.obj.write P data w.host
  (r, { f with obj := obj }, { w.access f.id .write with host := host })

/-- `Seek`. -/
def seek (P : Platform η φ ρ) (f : FileHandle φ ρ) (offset whence : ℤ) (w : World η) :
    (ℤ × Option Error) × FileHandle φ ρ × World η :=
  let (r, obj, host) := f.obj.seek P offset whence w.host
  (r, { f with obj := obj }, { w.access f.id .seek with host := host })

/-- `Close`. -/
def close (P : Platform η φ ρ) (f : FileHandle φ ρ) (w : World η) : World η :=
  { w.access f.id .close with host := f.obj.close P w.host }

end FileHandle

/-- `dirHandle`. -/
structure DirHandle where
  /-- The number of the object. -/
  id : ℕ
  /-- The host path of the directory. -/
  dirPath : Path
  /-- The names of the entries when it was opened. -/
  entries : List Path
  /-- The next entry to be read. -/
  index : ℕ

/-- `handle`. -/
inductive Handle (φ ρ : Type)
  /-- A `fileHandle`. -/
  | file (f : FileHandle φ ρ)
  /-- A `dirHandle`. -/
  | dir (d : DirHandle)

/-- The number of a handle's object. -/
def Handle.id : Handle φ ρ → ℕ
  | file f => f.id
  | dir d => d.id

/-- `Close`; closing a directory has no effect on the host. -/
def Handle.close (P : Platform η φ ρ) (w : World η) : Handle φ ρ → World η
  | file f => f.close P w
  | dir d => w.access d.id .close

/-- `blockDeviceHandle`. -/
structure BlockDevice (φ ρ : Type) where
  /-- The file handle. -/
  file : FileHandle φ ρ
  /-- The size in sectors. -/
  totalSectorCount : ℤ

/-- `maxHandles`. -/
abbrev maxHandles : ℕ := 64

/-- The table has slots. -/
instance maxHandles_neZero : NeZero maxHandles := ⟨Nat.succ_ne_zero 63⟩

/-- `handleMaxLastUsed`, one hour in nanoseconds. -/
def handleMaxLastUsed : ℕ := 3600 * 10 ^ 9

/-- `Backend`. -/
structure Backend (η φ ρ : Type) where
  /-- When each slot was last used. -/
  lastUsed : Fin maxHandles → ℕ
  /-- The slots. -/
  handles : Fin maxHandles → Option (Handle φ ρ)
  /-- The block device. -/
  bdHandle : Option (BlockDevice φ ρ)
  /-- The root directory, or the empty path when no directory is served. -/
  fsRoot : Path
  /-- The sector size of the block device. -/
  sectorSize : ℤ
  /-- The number of blocks cached for an image. -/
  compressionCacheSize : ℤ
  /-- Whether nothing may be written. -/
  readOnly : Bool
  /-- Whether images are decompressed. -/
  enableCompression : Bool
  /-- The world around the table. -/
  world : World η

/-- The slot of a handle other than the block device. The source does not check the
range of the index. -/
def slotOf (handle : ℤ) : Except Fault (Fin maxHandles) :=
  if handle < 1 then .error .indexOutOfRange
  else
    match (List.finRange maxHandles)[(handle - 1).toNat]? with
    | none => .error .indexOutOfRange
    | some i => .ok i

/-- Where `getFile` found a file. -/
inductive FileRef
  /-- The block device. -/
  | blockDevice
  /-- A slot of the table. -/
  | slot (i : Fin maxHandles)
  deriving DecidableEq

namespace Backend

/-- The loop of `allocHandle`: the first free slot, or the slot used longest ago among
those used before `ts`, and its time. -/
def allocScan (handles : Fin maxHandles → Option (Handle φ ρ)) (lastUsed : Fin maxHandles → ℕ) :
    List (Fin maxHandles) → Fin maxHandles → ℕ → Fin maxHandles ⊕ (Fin maxHandles × ℕ)
  | [], oldest, ts => .inr (oldest, ts)
  | i :: rest, oldest, ts =>
    match handles i with
    | none => .inl i
    | some _ =>
      if lastUsed i < ts then allocScan handles lastUsed rest i (lastUsed i)
      else allocScan handles lastUsed rest oldest ts

/-- The slot that `allocHandle` gives to a new handle, if it gives any: a free one, or
one that has not been used for an hour. -/
def allocSlot (s : Backend η φ ρ) : Option (Fin maxHandles) :=
  match allocScan s.handles s.lastUsed (List.finRange maxHandles) 0 s.world.now with
  | .inl i => some i
  | .inr (oldest, ts) => if handleMaxLastUsed ≤ s.world.now - ts then some oldest else none

variable (P : Platform η φ ρ)

/-- The world after the object in a slot, if there is one, has been closed. -/
def closeSlot (s : Backend η φ ρ) (i : Fin maxHandles) : World η :=
  match s.handles i with
  | none => s.world
  | some h => h.close P s.world

/-- `allocHandle`. -/
def allocHandle (s : Backend η φ ρ) (h : Handle φ ρ) : ℤ × Backend η φ ρ :=
  match s.allocSlot with
  | none => (-emfile, s)
  | some i =>
    ((i : ℤ) + 1,
      { s with
        handles := Function.update s.handles i (some h)
        lastUsed := Function.update s.lastUsed i s.world.now
        world := s.closeSlot P i })

/-- `freeHandle`. -/
def freeHandle (s : Backend η φ ρ) (handle : ℤ) : Except Fault (Bool × Backend η φ ρ) :=
  if handle = blockDeviceHandle then .ok (true, s)
  else do
    let i ← slotOf handle
    return (true,
      { s with handles := Function.update s.handles i none, world := s.closeSlot P i })

/-- Time passes. -/
def wait (d : ℕ) (s : Backend η φ ρ) : Backend η φ ρ :=
  { s with world.now := s.world.now + d }

/-- A slot is used. -/
def touch (s : Backend η φ ρ) (i : Fin maxHandles) : Backend η φ ρ :=
  { s with lastUsed := Function.update s.lastUsed i s.world.now }

/-- `getFile`. -/
def getFile (s : Backend η φ ρ) (handle : ℤ) :
    Except Fault (Option (FileRef × FileHandle φ ρ) × Backend η φ ρ) :=
  if handle < 0 then .ok (none, s)
  else if handle = blockDeviceHandle then
    .ok (s.bdHandle.map (fun b => (.blockDevice, b.file)), s)
  else do
    let i ← slotOf handle
    match s.handles i with
    | some (.file f) => return (some (.slot i, f), s.touch i)
    | _ => return (none, s)

/-- Whether a slot holds a file whose `Name` is this path. -/
def isNamed (hostPath : Path) : Option (Handle φ ρ) → Bool
  | some (.file f) => f.obj.name = hostPath
  | _ => false

/-- The first slot whose file has this name. -/
def findByPath (s : Backend η φ ρ) (hostPath : Path) : Option (Fin maxHandles) :=
  (List.finRange maxHandles).find? (fun i => isNamed hostPath (s.handles i))

/-- `getFileByPath`. -/
def getFileByPath (s : Backend η φ ρ) (hostPath : Path) :
    Option (FileHandle φ ρ) × Backend η φ ρ :=
  match s.findByPath hostPath with
  | none => (none, s)
  | some i =>
    match s.handles i with
    | some (.file f) => (some f, s.touch i)
    | _ => (none, s)

/-- `getFileState`: whether the file is open, and whether for reading only. -/
def getFileState (s : Backend η φ ρ) (hostPath : Path) : Bool × Bool :=
  match s.findByPath hostPath with
  | none => (false, true)
  | some i =>
    match s.handles i with
    | some (.file f) => (true, f.readOnly)
    | _ => (false, true)

/-- `getDir`. -/
def getDir (s : Backend η φ ρ) (handle : ℤ) :
    Except Fault (Option (Fin maxHandles × DirHandle) × Backend η φ ρ) := do
  let i ← slotOf handle
  match s.handles i with
  | some (.dir d) => return (some (i, d), s.touch i)
  | _ => return (none, s)

/-- The assignments through a file pointer, seen from the table. -/
def putFile (s : Backend η φ ρ) (f : FileHandle φ ρ) : FileRef → Backend η φ ρ
  | .blockDevice => { s with bdHandle := s.bdHandle.map (fun b => { b with file := f }) }
  | .slot i => { s with handles := Function.update s.handles i (some (.file f)) }

/-- A new object takes the next number. -/
def newObject (s : Backend η φ ρ) : ℕ × Backend η φ ρ :=
  (s.world.objects, { s with world.objects := s.world.objects + 1 })

/-- `newFileHandle`. -/
def newFileHandle (s : Backend η φ ρ) (hostPath : Path) (obj : FileObject φ ρ) (readOnly : Bool) :
    FileHandle φ ρ × Backend η φ ρ :=
  let (id, s) := s.newObject
  (⟨id, hostPath, obj, .zero, readOnly⟩, s)

end Backend

end Udpfsd.Fs
