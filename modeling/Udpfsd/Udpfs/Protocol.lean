import Mathlib.Data.Int.Notation
import Udpfsd.Base.FilePath
import Udpfsd.Udprdma.Protocol

/-!
# UDPFS messages

The first byte of a UDPFS payload is its message type. Requests are decoded by the
handlers; the replies are encoded here. Numbers are little-endian, results are signed
32-bit words, and a negative result is a negated errno.
-/

namespace Udpfsd.Udpfs

open Udprdma (Byte putUint16 putUint32)

/-- `MsgType`. -/
inductive MsgType
  /-- `MsgOpenReq`. -/
  | openReq
  /-- `MsgOpenReply`. -/
  | openReply
  /-- `MsgCloseReq`. -/
  | closeReq
  /-- `MsgCloseReply`. -/
  | closeReply
  /-- `MsgReadReq`. -/
  | readReq
  /-- `MsgWriteReq`. -/
  | writeReq
  /-- `MsgWriteData`. -/
  | writeData
  /-- `MsgWriteDone`. -/
  | writeDone
  /-- `MsgLseekReq`. -/
  | lseekReq
  /-- `MsgLseekReply`. -/
  | lseekReply
  /-- `MsgDreadReq`. -/
  | dreadReq
  /-- `MsgDreadReply`. -/
  | dreadReply
  /-- `MsgGetstatReq`. -/
  | getstatReq
  /-- `MsgGetstatReply`. -/
  | getstatReply
  /-- `MsgMkdirReq`. -/
  | mkdirReq
  /-- `MsgRemoveReq`. -/
  | removeReq
  /-- `MsgRmdirReq`. -/
  | rmdirReq
  /-- `MsgResultReply`. -/
  | resultReply
  /-- `MsgBreadReq`. -/
  | breadReq
  /-- `MsgBwriteReq`. -/
  | bwriteReq
  deriving DecidableEq

/-- The byte of a message type. -/
def MsgType.code : MsgType → Byte
  | .openReq => 0x10
  | .openReply => 0x11
  | .closeReq => 0x12
  | .closeReply => 0x13
  | .readReq => 0x14
  | .writeReq => 0x16
  | .writeData => 0x17
  | .writeDone => 0x18
  | .lseekReq => 0x1A
  | .lseekReply => 0x1B
  | .dreadReq => 0x1C
  | .dreadReply => 0x1D
  | .getstatReq => 0x1E
  | .getstatReply => 0x1F
  | .mkdirReq => 0x20
  | .removeReq => 0x22
  | .rmdirReq => 0x24
  | .resultReply => 0x26
  | .breadReq => 0x28
  | .bwriteReq => 0x2A

/-- The types of the messages a client sends. -/
def MsgType.requests : List MsgType :=
  [.openReq, .closeReq, .readReq, .writeReq, .writeData, .lseekReq, .dreadReq, .getstatReq,
    .mkdirReq, .removeReq, .rmdirReq, .breadReq, .bwriteReq]

/-- The request a first byte announces. -/
def MsgType.ofByte (b : Byte) : Option MsgType := requests.find? (fun m => m.code = b)

/-- `BlockDeviceHandle`. -/
def blockDeviceHandle : ℤ := 0

/-- `ENOENT`. -/
def enoent : ℤ := 2

/-- `EIO`. -/
def eio : ℤ := 5

/-- `EBADF`. -/
def ebadf : ℤ := 9

/-- `EACCES`. -/
def eacces : ℤ := 13

/-- `EEXIST`. -/
def eexist : ℤ := 17

/-- `EINVAL`. -/
def einval : ℤ := 22

/-- `EMFILE`. -/
def emfile : ℤ := 24

/-- The errors a filesystem operation can return, as far as the server tells them
apart: those of package `os`, `io.EOF`, an `Errno`, and any other. -/
inductive Error
  /-- One that `os.IsNotExist` recognises. -/
  | notExist
  /-- One that `os.IsExist` recognises. -/
  | exist
  /-- One that `os.IsPermission` recognises. -/
  | permission
  /-- `os.ErrInvalid`. -/
  | invalid
  /-- `os.ErrClosed`. -/
  | closed
  /-- `io.EOF`. -/
  | eof
  /-- `Errno`. -/
  | errno (e : ℤ)
  /-- Any other error. -/
  | other
  deriving DecidableEq

/-- `errToErrno`, with `none` for the nil error. -/
def errToErrno : Option Error → ℤ
  | none => 0
  | some .notExist => enoent
  | some .exist => eexist
  | some .permission => eacces
  | some (.errno e) => if e < 0 then -e else eio
  | some _ => eio

/-- The errno of an error is positive, so that a negated errno is a negative result. -/
theorem errToErrno_pos (err : Error) : 0 < errToErrno (some err) := by
  cases err with
  | errno e =>
    by_cases he : e < 0
    · simp only [errToErrno, if_pos he]
      omega
    · simp [errToErrno, he, eio]
  | _ => decide

/-- The fields of a `time.Time` that a reply carries. -/
structure Time where
  /-- `Second()`. -/
  second : ℕ
  /-- `Minute()`. -/
  minute : ℕ
  /-- `Hour()`. -/
  hour : ℕ
  /-- `Day()`. -/
  day : ℕ
  /-- `Month()`. -/
  month : ℕ
  /-- `Year()`. -/
  year : ℕ
  deriving DecidableEq

/-- The zero `time.Time`. -/
def Time.zero : Time := ⟨0, 0, 0, 1, 1, 1⟩

/-- `EncodeTime`. -/
def encodeTime (t : Time) : Vector Byte 8 :=
  #v[0, BitVec.ofNat 8 t.second, BitVec.ofNat 8 t.minute, BitVec.ofNat 8 t.hour,
    BitVec.ofNat 8 t.day, BitVec.ofNat 8 t.month, BitVec.ofNat 8 t.year,
    BitVec.ofNat 8 (t.year >>> 8)]

/-- What the type bits of an `os.FileMode` say. -/
inductive FileType
  /-- `IsRegular()`. -/
  | regular
  /-- `IsDir()`. -/
  | dir
  /-- Neither. -/
  | other
  deriving DecidableEq

/-- `os.FileInfo`. -/
structure FileInfo where
  /-- `Name()`. -/
  name : Path
  /-- The type bits of `Mode()`. -/
  fileType : FileType
  /-- `Size()`, a signed 64-bit word. -/
  size : ℤ
  /-- `ModTime()`. -/
  modTime : Time
  deriving DecidableEq

/-- `StatInfo`. -/
structure StatInfo where
  /-- `FIO_S_IFREG`, `FIO_S_IFDIR` or zero. -/
  mode : BitVec 32
  /-- Always zero. -/
  attr : BitVec 32
  /-- The low word of the size. -/
  size : BitVec 32
  /-- The high word of the size. -/
  hisize : BitVec 32
  /-- Creation time. -/
  ctime : Vector Byte 8
  /-- Access time. -/
  atime : Vector Byte 8
  /-- Modification time. -/
  mtime : Vector Byte 8
  deriving DecidableEq

/-- `StatInfo{}`. -/
def StatInfo.empty : StatInfo :=
  ⟨0, 0, 0, 0, Vector.replicate 8 0, Vector.replicate 8 0, Vector.replicate 8 0⟩

/-- `FIO_S_IFREG`. -/
def fioSIfreg : BitVec 32 := 0x2000

/-- `FIO_S_IFDIR`. -/
def fioSIfdir : BitVec 32 := 0x1000

/-- `StatInfoFromFile`. -/
def statInfoFromFile (fi : FileInfo) : StatInfo :=
  let size := BitVec.ofInt 64 fi.size
  let t := encodeTime fi.modTime
  { mode := match fi.fileType with
      | .regular => fioSIfreg
      | .dir => fioSIfdir
      | .other => 0
    attr := 0
    size := size.setWidth 32
    hisize := (size >>> 32).setWidth 32
    ctime := t
    atime := t
    mtime := t }

/-- The layout shared by the replies of eight bytes: the type, three reserved bytes
and a result. -/
def packResult (m : MsgType) (result : ℤ) : List Byte :=
  [m.code, 0, 0, 0] ++ putUint32 (BitVec.ofInt 32 result)

/-- `PackOpenReply`: 44 bytes, of which the last eight stay zero. -/
def packOpenReply (handle : ℤ) (st : StatInfo) : List Byte :=
  packResult .openReply handle ++ putUint32 st.mode ++ putUint32 st.size ++ putUint32 st.hisize ++
    st.ctime.toList ++ st.mtime.toList ++ List.replicate 8 0

/-- `PackCloseReply`. -/
def packCloseReply (result : ℤ) : List Byte := packResult .closeReply result

/-- `PackResultReply`. -/
def packResultReply (result : ℤ) : List Byte := packResult .resultReply result

/-- `PackWriteDone`. -/
def packWriteDone (result : ℤ) : List Byte := packResult .writeDone result

/-- `PackLseekReply`. -/
def packLseekReply (position : ℤ) : List Byte :=
  let lo := BitVec.ofInt 32 position
  if position < 0 then [MsgType.lseekReply.code, 0, 0, 0] ++ putUint32 lo ++ putUint32 0xFFFFFFFF
  else
    [MsgType.lseekReply.code, 0, 0, 0] ++ putUint32 lo ++
      putUint32 ((BitVec.ofInt 64 position >>> 32).setWidth 32)

/-- The part of a directory or stat reply that follows its result. -/
def packStat (st : StatInfo) : List Byte :=
  putUint32 st.mode ++ putUint32 st.attr ++ putUint32 st.size ++ putUint32 st.hisize ++
    st.ctime.toList ++ st.atime.toList ++ st.mtime.toList

/-- `PackDreadReply`. A name is followed by a zero byte and padded to a multiple of
four bytes; it is appended to a positive result only. -/
def packDreadReply (result : ℤ) (name : Path) (st : StatInfo) : List Byte :=
  let nameBytes := if name = [] then [] else name ++ [0]
  let paddedNameLen := (nameBytes.length + 3) / 4 * 4
  let padded := nameBytes ++ List.replicate (paddedNameLen - nameBytes.length) 0
  [MsgType.dreadReply.code, 0] ++ putUint16 (BitVec.ofNat 16 name.length) ++
    putUint32 (BitVec.ofInt 32 result) ++ packStat st ++ if 0 < result then padded else []

/-- `PackGetstatReply`. -/
def packGetstatReply (result : ℤ) (st : StatInfo) : List Byte :=
  packResult .getstatReply result ++ packStat st

/-- The bits of the flags of an OPEN_REQ, as `utils.go` numbers them. -/
def flagReadOnly : BitVec 16 := 0x01

/-- `Flag_WriteOnly`. -/
def flagWriteOnly : BitVec 16 := 0x02

/-- `Flag_ReadWrite`. -/
def flagReadWrite : BitVec 16 := 0x03

/-- `Flag_Append`. -/
def flagAppend : BitVec 16 := 0x0100

/-- `Flag_Create`. -/
def flagCreate : BitVec 16 := 0x0200

/-- `Flag_Truncate`. -/
def flagTruncate : BitVec 16 := 0x0400

/-- The flags of `os.OpenFile`, with their values on Linux. -/
abbrev OpenFlag := BitVec 32

/-- `os.O_RDONLY`. -/
def oRDONLY : OpenFlag := 0

/-- `os.O_WRONLY`. -/
def oWRONLY : OpenFlag := 1

/-- `os.O_RDWR`. -/
def oRDWR : OpenFlag := 2

/-- `os.O_CREATE`. -/
def oCREATE : OpenFlag := 0x40

/-- `os.O_TRUNC`. -/
def oTRUNC : OpenFlag := 0x200

/-- `os.O_APPEND`. -/
def oAPPEND : OpenFlag := 0x400

/-- `parseMode`, the inner function of `udpfsFlagsToOSFlags`. -/
def parseMode (flags : BitVec 16) : OpenFlag :=
  (if flags &&& flagAppend ≠ 0 then oAPPEND else 0) |||
    (if flags &&& flagCreate ≠ 0 then oCREATE else 0) |||
    (if flags &&& flagTruncate ≠ 0 then oTRUNC else 0)

/-- `udpfsFlagsToOSFlags`. -/
def udpfsFlagsToOSFlags (flags : BitVec 16) : OpenFlag :=
  if flags &&& 0x03 = flagReadOnly then oRDONLY
  else if flags &&& 0x03 = flagWriteOnly then oWRONLY ||| parseMode flags
  else if flags &&& 0x03 = flagReadWrite then oRDWR ||| parseMode flags
  else oRDONLY

end Udpfsd.Udpfs
