import Udpfsd.Udpfs.FS

/-!
# What the filesystem backend runs on

The backend uses the functions of package `os` and the decoders of compressed disc
images. Both are given by interfaces over a host state `η`, a state `φ` for open files
and a state `ρ` for open images, so that what is proved of the backend holds whatever
the host does.
-/

namespace Udpfsd.Fs

open Udprdma (Byte)
open Udpfs (Error Fault FileInfo OpenFlag Time)

/-- The functions of package `os` and the methods of `os.File` that the backend uses. -/
structure OS (η φ : Type) where
  /-- `os.Getwd`. -/
  getwd : η → Option Path
  /-- `os.Stat`. -/
  stat (path : Path) : η → Except Error FileInfo
  /-- `DirEntry.Info` of the entry at this path. -/
  lstat (path : Path) : η → Except Error FileInfo
  /-- `os.ReadDir`: the names of the entries. -/
  readDir (path : Path) : η → Except Error (List Path)
  /-- `os.OpenFile`. -/
  openFile (path : Path) (flag : OpenFlag) : η → Except Error φ × η
  /-- `os.MkdirAll`, of which the backend ignores the result. -/
  mkdirAll (path : Path) : η → η
  /-- `os.Mkdir`. -/
  mkdir (path : Path) : η → Option Error × η
  /-- `os.Remove`. -/
  remove (path : Path) : η → Option Error × η
  /-- `File.Read` into a buffer of `n` bytes: the bytes read and the error. -/
  read (f : φ) (n : ℕ) : η → (List Byte × Option Error) × φ × η
  /-- `File.Write`: the number of bytes written and the error. -/
  write (f : φ) (data : List Byte) : η → (ℤ × Option Error) × φ × η
  /-- `File.Seek`: the new position and the error. -/
  seek (f : φ) (offset whence : ℤ) : η → (ℤ × Option Error) × φ × η
  /-- `File.Stat`. -/
  fstat (f : φ) : η → Except Error FileInfo
  /-- `File.Close`. -/
  close (f : φ) : η → η

/-- `common.CompressedInfo`. -/
structure CompressedInfo where
  /-- The modification time. -/
  modTime : Time
  /-- The name. -/
  name : Path
  /-- The size of the image. -/
  size : ℤ

/-- `&common.CompressedInfo{}`. -/
def CompressedInfo.zero : CompressedInfo := ⟨.zero, [], 0⟩

/-- A `CompressedInfo` as an `os.FileInfo`; its `Mode()` is zero, a regular file. -/
def CompressedInfo.fileInfo (c : CompressedInfo) : FileInfo := ⟨c.name, .regular, c.size, c.modTime⟩

/-- A block returned by a decoder: the bytes of the slice, and the memory behind it up
to its capacity, which a slice expression can reach. -/
structure Block where
  /-- The bytes of the slice. -/
  bytes : List Byte
  /-- The bytes between its length and its capacity. -/
  spare : List Byte

/-- `compression.BlockReader`. -/
structure BlockReader (η ρ : Type) where
  /-- `ReadBlock`. -/
  readBlock (r : ρ) (blockIdx : ℤ) : η → Except Fault (Except Error Block × ρ × η)
  /-- `BlockSize`. -/
  blockSize : ρ → ℤ
  /-- `NumBlocks`. -/
  numBlocks : ρ → ℤ
  /-- `UncompressedSize`. -/
  uncompressedSize : ρ → ℤ
  /-- `Close`. -/
  close (r : ρ) : η → η

/-- A package for one container format. -/
structure Format (η ρ : Type) where
  /-- `Extensions`, in lower case; none when the format is not built in. -/
  extensions : List Path
  /-- `Open`. -/
  openImage (path : Path) : η → Except Fault (Except Error ρ × η)
  /-- `GetStat`. -/
  getStat (path : Path) : η → Option CompressedInfo

/-- Everything the backend runs on. -/
structure Platform (η φ ρ : Type) where
  /-- Package `os`. -/
  os : OS η φ
  /-- The decoders. -/
  reader : BlockReader η ρ
  /-- Package `zso`. -/
  zso : Format η ρ
  /-- Package `cso`. -/
  cso : Format η ρ
  /-- Package `chd`. -/
  chd : Format η ρ

/-- The methods of a handle's object that read, move, write or close it. `Stat` and
`Name` change nothing and are not recorded. -/
inductive Method
  /-- `Read`. -/
  | read
  /-- `Write`. -/
  | write
  /-- `Seek`. -/
  | seek
  /-- `Close`. -/
  | close
  /-- The reading of a directory entry. -/
  | readEntry
  deriving DecidableEq

/-- The call of a method of the object with this number. -/
structure Access where
  /-- The object. -/
  object : ℕ
  /-- The method. -/
  method : Method
  deriving DecidableEq

/-- The world around the handle table: the host, the clock, the number of handle
objects made so far, and the calls of their methods in order. -/
structure World (η : Type) where
  /-- The host. -/
  host : η
  /-- `time.Now`, in nanoseconds. -/
  now : ℕ
  /-- The number of objects made so far, which numbers the next one. -/
  objects : ℕ
  /-- The method calls so far. -/
  accesses : List Access

/-- Record a method call. -/
def World.access {η : Type} (w : World η) (object : ℕ) (method : Method) : World η :=
  { w with accesses := w.accesses ++ [⟨object, method⟩] }

/-- A signed 64-bit word holds its value modulo `2 ^ 64`. -/
def int64 (x : ℤ) : ℤ := x.bmod (2 ^ 64)

theorem int64_eq_self {x : ℤ} (hlo : -2 ^ 63 ≤ x) (hhi : x < 2 ^ 63) : int64 x = x := by
  apply Int.bmod_eq_of_le <;> omega

theorem int64_wrap {x : ℤ} (hlo : 2 ^ 63 ≤ x) (hhi : x < 2 ^ 64) : int64 x = x - 2 ^ 64 := by
  simp only [int64, Int.bmod]
  omega

/-- A signed 32-bit word holds its value modulo `2 ^ 32`. -/
def int32 (x : ℤ) : ℤ := x.bmod (2 ^ 32)

end Udpfsd.Fs
