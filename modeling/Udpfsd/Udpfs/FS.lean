import Udpfsd.Base.Buffer
import Udpfsd.Udpfs.Protocol
import Udpfsd.Udprdma.Session

/-!
# The filesystem behind a connection

`FS` is the interface through which the protocol layer uses a filesystem. Every
method works on a filesystem state `σ` and may panic; the panics of the source are
the faults below, and after one of them the server is gone.
-/

namespace Udpfsd.Udpfs

open Udprdma (Byte)

/-- The ways in which the handling of a request can panic. -/
inductive Fault
  /-- An index is out of range. -/
  | indexOutOfRange
  /-- A slice expression is out of range. -/
  | sliceBounds
  /-- A method is called on a nil interface or through a nil pointer. -/
  | nilPointer
  /-- An integer is divided by zero. -/
  | divideByZero
  /-- A slice is made with a negative length. -/
  | negativeLength
  /-- The session panics while a reply is sent. -/
  | session (panic : Udprdma.Panic)
  deriving DecidableEq

/-- The size of `Connection.dataBuffer`. -/
def dataBufferSize : ℕ := 128 * 1024

/-- What `FS.Read` and `FS.Bread` return. The data is a slice at the front of the read
buffer, given by its length, or nil. -/
structure ReadResult where
  /-- The number of bytes read. -/
  n : ℤ
  /-- The length of the returned slice of the read buffer. -/
  data : Option ℕ
  /-- The error. -/
  err : Option Error

/-- `udpfs.FS`. -/
structure FS (σ : Type*) where
  /-- `Open`: the handle or a negative errno, the stat data and the error. -/
  openFile (path : Path) (flag : OpenFlag) (isDir : Bool) :
    σ → Except Fault ((ℤ × StatInfo × Option Error) × σ)
  /-- `Close`. -/
  close (handle : ℤ) : σ → Except Fault (Option Error × σ)
  /-- `Read`, which also writes to the read buffer. -/
  read (handle : ℤ) (size : BitVec 32) (readBuffer : Buffer Byte) :
    σ → Except Fault ((ReadResult × Buffer Byte) × σ)
  /-- `WriteStart`. -/
  writeStart (handle : ℤ) : σ → Except Fault (Option Error × σ)
  /-- `WriteChunk`. -/
  writeChunk (handle : ℤ) (chunkNr chunkSize totalChunks : BitVec 16) (chunk : List Byte) :
    σ → Except Fault ((Bool × Option Error) × σ)
  /-- `CompleteWrite`. -/
  completeWrite (handle : ℤ) : σ → Except Fault ((ℤ × Option Error) × σ)
  /-- `Lseek`. -/
  lseek (handle offset whence : ℤ) : σ → Except Fault ((ℤ × Option Error) × σ)
  /-- `Dread`. -/
  dread (handle : ℤ) : σ → Except Fault ((Bool × Path × StatInfo × Option Error) × σ)
  /-- `Getstat`. -/
  getstat (path : Path) : σ → Except Fault ((StatInfo × Option Error) × σ)
  /-- `Mkdir`. -/
  mkdir (path : Path) : σ → Except Fault (Option Error × σ)
  /-- `Remove`. -/
  remove (path : Path) : σ → Except Fault (Option Error × σ)
  /-- `Rmdir`. -/
  rmdir (path : Path) : σ → Except Fault (Option Error × σ)
  /-- `Bread`, which also writes to the read buffer. -/
  bread (handle sectorNr : ℤ) (sectorCount : BitVec 16) (readBuffer : Buffer Byte) :
    σ → Except Fault ((ReadResult × Buffer Byte) × σ)
  /-- `BwriteStart`. -/
  bwriteStart (handle sectorNr : ℤ) (sectorCount : BitVec 16) :
    σ → Except Fault (Option Error × σ)

end Udpfsd.Udpfs
