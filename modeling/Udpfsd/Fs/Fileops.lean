import Udpfsd.Fs.Handles

/-!
# The filesystem backend

`Backend` implements the interface `FS` for a root directory and an optional block
device. A method on a file handle looks the file up, works on it and puts it back; this
pattern is `withFile`.
-/

namespace Udpfsd.Fs

open Udprdma (Byte)
open Udpfs

variable {η φ ρ : Type}

namespace Backend

variable (P : Platform η φ ρ)

/-- The normal form of a client path in `resolvePath`: leading separators are dropped,
backslashes are turned into slashes, and the path is cleaned. -/
def normalPath (clientPath : Path) : Path :=
  let trimmed := clientPath.dropWhile (fun c => c = Path.slash || c = Path.backslash)
  Path.clean (trimmed.map (fun c => if c = Path.backslash then Path.slash else c))

/-- The check of `resolvePath` that a path is still under the root. -/
def underRoot (fsRoot resolved : Path) : Bool :=
  let cleanFsRoot := fsRoot.clean
  let comparableRoot :=
    if cleanFsRoot.getLast? = some Path.slash then cleanFsRoot.dropLast else cleanFsRoot
  (comparableRoot ++ [Path.slash]).isPrefixOf resolved || resolved = cleanFsRoot

/-- `resolvePath`. -/
def resolvePath (s : Backend η φ ρ) (clientPath : Path) : Option Path :=
  if s.fsRoot = [] then none
  else
    (Path.abs (P.os.getwd s.world.host) (s.fsRoot.join (normalPath clientPath))).filter
      (underRoot s.fsRoot)

/-- `pathExists`. -/
def pathExists (s : Backend η φ ρ) (p : Path) : Bool :=
  match P.os.stat p s.world.host with
  | .ok _ => true
  | .error _ => false

/-- The file handle made for an opened file object is put into the table; without a
slot for it, the object is closed again. -/
def addFile (s : Backend η φ ρ) (hostPath : Path) (obj : FileObject φ ρ) (readOnly : Bool) :
    ℤ × Backend η φ ρ :=
  let (f, s) := s.newFileHandle hostPath obj readOnly
  let (handle, s) := s.allocHandle P (.file f)
  if handle < 0 then (handle, { s with world := f.close P s.world }) else (handle, s)

/-- The directory handle made for the entries of a directory is put into the table. -/
def addDir (s : Backend η φ ρ) (dirPath : Path) (entries : List Path) : ℤ × Backend η φ ρ :=
  let (id, s) := s.newObject
  s.allocHandle P (.dir ⟨id, dirPath, entries, 0⟩)

/-- The host after a call. -/
def setHost (s : Backend η φ ρ) (host : η) : Backend η φ ρ := { s with world.host := host }

/-- The result of `Open`: the handle, the stat data and the error. -/
abbrev OpenResult := ℤ × StatInfo × Option Error

/-- The end of `Open`: without a slot the negative errno is returned, otherwise the
handle and the stat data. The error of the stat call is ignored, its result is not. -/
def finishOpen (stat : η → Except Error FileInfo) (added : ℤ × Backend η φ ρ) :
    Except Fault (OpenResult × Backend η φ ρ) :=
  if added.1 < 0 then .ok ((added.1, .empty, none), added.2)
  else
    match stat added.2.world.host with
    | .error _ => .error .nilPointer
    | .ok st => .ok ((added.1, statInfoFromFile st, none), added.2)

/-- The part of `Open` for directories. -/
def openDir (s : Backend η φ ρ) (fullPath : Path) : Except Fault (OpenResult × Backend η φ ρ) :=
  match P.os.readDir fullPath s.world.host with
  | .error err => .ok ((0, .empty, some err), s)
  | .ok entries => finishOpen (P.os.stat fullPath) (s.addDir P fullPath entries)

/-- The extension `.iso`. -/
def isoExtension : Path := Path.ascii ['.', 'i', 's', 'o']

/-- The compressed image that `Open` decompresses for a file that does not exist: the
path without its extension `.iso`, if something is there. -/
def compressedPath (s : Backend η φ ρ) (fullPath : Path) : Option Path :=
  if s.enableCompression && !s.pathExists P fullPath && fullPath.ext.toLower = isoExtension then
    let path := fullPath.take (fullPath.length - fullPath.ext.length)
    if s.pathExists P path then some path else none
  else none

/-- Whether flags ask for writing. -/
def wantWrite (flag : OpenFlag) : Bool := flag &&& (oWRONLY ||| oRDWR) ≠ 0

/-- The part of `Open` for plain files. -/
def openPlain (s : Backend η φ ρ) (fullPath : Path) (flag : OpenFlag) (present : Bool) :
    Except Fault (OpenResult × Backend η φ ρ) :=
  if !present && flag &&& oCREATE = 0 then .ok ((0, .empty, some .notExist), s)
  else
    let host := if flag &&& oCREATE ≠ 0 then P.os.mkdirAll fullPath.dir s.world.host
      else s.world.host
    match P.os.openFile fullPath flag host with
    | (.error err, host) => .ok ((0, .empty, some err), s.setHost host)
    | (.ok f, host) =>
      let obj := FileObject.osFile fullPath f
      finishOpen (fun h => obj.stat P h)
        ((s.setHost host).addFile P fullPath obj (!wantWrite flag))

/-- The part of `Open` for files, from the search for a compressed image on. -/
def openRegular (s : Backend η φ ρ) (fullPath : Path) (flag : OpenFlag) :
    Except Fault (OpenResult × Backend η φ ρ) :=
  let present := s.pathExists P fullPath
  match s.compressedPath P fullPath with
  | none => s.openPlain P fullPath flag present
  | some path => do
    let (wrapper, host) ← openCompressed P path s.compressionCacheSize s.world.host
    match wrapper with
    | none => (s.setHost host).openPlain P fullPath flag present
    | some c =>
      finishOpen (fun _ => .ok c.info.fileInfo)
        ((s.setHost host).addFile P path (.cachedReader c) true)

/-- `Open`. -/
def openFile (path : Path) (flag : OpenFlag) (isDir : Bool) (s : Backend η φ ρ) :
    Except Fault (OpenResult × Backend η φ ρ) :=
  match s.resolvePath P path with
  | none => .ok ((0, .empty, some .notExist), s)
  | some fullPath =>
    let (isOpen, fileReadOnly) := s.getFileState fullPath
    let openForWriting := isOpen && !fileReadOnly
    if wantWrite flag && (s.readOnly || isOpen) then .ok ((0, .empty, some .permission), s)
    else if !wantWrite flag && openForWriting then .ok ((0, .empty, some .permission), s)
    else if isDir then s.openDir P fullPath
    else s.openRegular P fullPath flag

/-- `Close`. -/
def close (handle : ℤ) (s : Backend η φ ρ) : Except Fault (Option Error × Backend η φ ρ) := do
  let (ok, s) ← s.freeHandle P handle
  return (if ok then none else some .invalid, s)

/-- A method on a file handle: the file is looked up, the body works on it, and what it
assigned is put back. Without a file the method returns `missing`. -/
def withFile {α : Type} (s : Backend η φ ρ) (handle : ℤ) (missing : α)
    (body : FileHandle φ ρ → World η → Except Fault (α × FileHandle φ ρ × World η)) :
    Except Fault (α × Backend η φ ρ) := do
  let (found, s) ← s.getFile handle
  match found with
  | none => return (missing, s)
  | some (ref, f) =>
    let (a, f, w) ← body f s.world
    return (a, { s.putFile f ref with world := w })

/-- The bytes of a read are put at the front of the read buffer; the returned slice has
their length. -/
def filled (readBuffer : Buffer Byte) (bytes : List Byte) : ReadResult × Buffer Byte :=
  (⟨bytes.length, some bytes.length, none⟩, readBuffer.copy 0 bytes)

/-- What `Read` and `Bread` return for what the file has returned; `expected` are the errors that
are taken for the end of the file. -/
def readReturns (expected : Error → Prop) [DecidablePred expected] (readBuffer : Buffer Byte)
    (bytes : List Byte) : Option Error → ReadResult × Buffer Byte
  | none => filled readBuffer bytes
  | some err =>
    if expected err then filled readBuffer bytes
    else (⟨0, none, some err⟩, readBuffer.copy 0 bytes)

/-- The bytes are returned, or an error. -/
theorem readReturns_cases (expected : Error → Prop) [DecidablePred expected]
    (readBuffer : Buffer Byte) (bytes : List Byte) (err : Option Error) :
    readReturns expected readBuffer bytes err = filled readBuffer bytes ∨
      ∃ e buffer, readReturns expected readBuffer bytes err = (⟨0, none, some e⟩, buffer) := by
  cases err with
  | none => exact .inl rfl
  | some err =>
    rw [readReturns]
    split_ifs
    · exact .inl rfl
    · exact .inr ⟨_, _, rfl⟩

/-- `Read`. -/
def read (handle : ℤ) (size : BitVec 32) (readBuffer : Buffer Byte) (s : Backend η φ ρ) :
    Except Fault ((ReadResult × Buffer Byte) × Backend η φ ρ) :=
  s.withFile handle (⟨0, none, some .invalid⟩, readBuffer) fun f w =>
    if dataBufferSize < size.toNat then .error .sliceBounds
    else do
      let ((bytes, err), f, w) ← f.read P size.toNat w
      return (readReturns (fun err => err = .closed ∨ err = .eof) readBuffer bytes err, f, w)

/-- `WriteStart`. -/
def writeStart (handle : ℤ) (s : Backend η φ ρ) :
    Except Fault (Option Error × Backend η φ ρ) :=
  s.withFile handle (some .invalid) fun f w =>
    if f.readOnly then .ok (some .permission, f, w)
    else
      .ok (none,
        { f with wr := { f.wr with
          blockWrite := false, dataBuffer := [], totalChunks := 0, receivedChunks := 0 } }, w)

/-- `WriteChunk`. A chunk out of turn is ignored. -/
def writeChunk (handle : ℤ) (chunkNr _chunkSize totalChunks : BitVec 16) (chunk : List Byte)
    (s : Backend η φ ρ) : Except Fault ((Bool × Option Error) × Backend η φ ρ) :=
  s.withFile handle (false, some .invalid) fun f w =>
    if chunkNr ≠ f.wr.receivedChunks then .ok ((false, none), f, w)
    else
      let received := f.wr.receivedChunks + 1
      .ok ((totalChunks ≤ received, none),
        { f with wr := { f.wr with
          dataBuffer := f.wr.dataBuffer ++ chunk
          totalChunks := totalChunks
          receivedChunks := received } }, w)

/-- The sector size for a handle. -/
def sectorSizeOf (s : Backend η φ ρ) (handle : ℤ) : ℤ :=
  if handle ≠ blockDeviceHandle then 512 else s.sectorSize

/-- The body of `CompleteWrite`. -/
def completeBody (sectorSize : ℤ) (f : FileHandle φ ρ) (w : World η) :
    Except Fault ((ℤ × Option Error) × FileHandle φ ρ × World η) :=
  let data := f.wr.dataBuffer
  if f.wr.blockWrite then
    let expectedSize := int64 (f.wr.sectorCount.toNat * sectorSize)
    if expectedSize < 0 then .error .sliceBounds
    else
      let data := if expectedSize < data.length then data.take expectedSize.toNat else data
      let ((_, err), f, w) := f.seek P (int64 (f.wr.sectorNumber * sectorSize)) 0 w
      match err with
      | some err => .ok ((0, some err), f, w)
      | none =>
        let ((_, err), f, w) := f.write P data w
        .ok ((0, err), f, w)
  else
    let ((written, err), f, w) := f.write P data w
    match err with
    | some err => .ok ((0, some err), f, w)
    | none => .ok ((int32 written, none), f, w)

/-- `CompleteWrite`. -/
def completeWrite (handle : ℤ) (s : Backend η φ ρ) :
    Except Fault ((ℤ × Option Error) × Backend η φ ρ) :=
  s.withFile handle (0, some .invalid) (completeBody P (s.sectorSizeOf handle))

/-- `Lseek`. Without a file the position is -1, with no error. -/
def lseek (handle offset whence : ℤ) (s : Backend η φ ρ) :
    Except Fault ((ℤ × Option Error) × Backend η φ ρ) :=
  s.withFile handle (-1, none) fun f w => .ok (f.seek P offset whence w)

/-- The result of `Dread`. -/
abbrev DreadResult := Bool × Path × StatInfo × Option Error

/-- The entry that `Dread` reports, after the index has been advanced. -/
def entryOf (s : Backend η φ ρ) (dirPath entry : Path) : DreadResult :=
  let entryPath := dirPath.join entry
  match P.os.lstat entryPath s.world.host with
  | .error _ => (false, [], .empty, none)
  | .ok info =>
    if s.enableCompression && (getSupportedExtensions P).any (fun ext => entry.ext = ext) then
      match getCompressedStat P entryPath s.world.host with
      | none => (false, [], .empty, none)
      | some cst => (true, entry ++ isoExtension, statInfoFromFile cst.fileInfo, none)
    else (true, entry, statInfoFromFile info, none)

/-- `Dread`. -/
def dread (handle : ℤ) (s : Backend η φ ρ) : Except Fault (DreadResult × Backend η φ ρ) := do
  let (found, s) ← s.getDir handle
  match found with
  | none => return ((false, [], .empty, some .invalid), s)
  | some (i, d) =>
    let s := { s with world := s.world.access d.id .readEntry }
    match d.entries[d.index]? with
    | none => return ((false, [], .empty, none), s)
    | some entry =>
      let advanced := some (Handle.dir { d with index := d.index + 1 })
      return (s.entryOf P d.dirPath entry,
        { s with handles := Function.update s.handles i advanced })

/-- The part of `Getstat` for a path: an open file is asked itself, any other the host. -/
def statOnHost (path : Path) (s : Backend η φ ρ) : (StatInfo × Option Error) × Backend η φ ρ :=
  match s.resolvePath P path with
  | none => ((.empty, some .invalid), s)
  | some resolved =>
    let (found, s) := s.getFileByPath resolved
    match found with
    | none =>
      match P.os.stat resolved s.world.host with
      | .error _ => ((.empty, some .invalid), s)
      | .ok st => ((statInfoFromFile st, none), s)
    | some f =>
      match f.obj.stat P s.world.host with
      | .error err => ((.empty, some err), s)
      | .ok st => ((statInfoFromFile st, none), s)

/-- `Getstat`. The empty path is the block device, if there is one. -/
def getstat (path : Path) (s : Backend η φ ρ) :
    Except Fault ((StatInfo × Option Error) × Backend η φ ρ) :=
  match path, s.bdHandle with
  | [], some bd =>
    let totalBytes := BitVec.ofInt 64 (bd.totalSectorCount * s.sectorSize)
    let size := totalBytes.setWidth 32
    let hisize := (totalBytes >>> 32).setWidth 32
    .ok (({ StatInfo.empty with size := size, hisize := hisize }, none), s)
  | _, _ => .ok (statOnHost P path s)

/-- The common form of the methods that change a directory. -/
def changeDir (op : Path → η → Option Error × η) (path : Path) (s : Backend η φ ρ) :
    Except Fault (Option Error × Backend η φ ρ) :=
  if s.readOnly then .ok (some .permission, s)
  else
    match s.resolvePath P path with
    | none => .ok (some .permission, s)
    | some resolved =>
      let (err, host) := op resolved s.world.host
      .ok (err, s.setHost host)

/-- `Mkdir`. A directory that is there already is no error. -/
def mkdir (path : Path) (s : Backend η φ ρ) : Except Fault (Option Error × Backend η φ ρ) :=
  s.changeDir P (fun p h =>
    let (err, h) := P.os.mkdir p h
    (if err = some .exist then none else err, h)) path

/-- `Remove`. -/
def remove (path : Path) (s : Backend η φ ρ) : Except Fault (Option Error × Backend η φ ρ) :=
  s.changeDir P P.os.remove path

/-- `Rmdir`. -/
def rmdir (path : Path) (s : Backend η φ ρ) : Except Fault (Option Error × Backend η φ ρ) :=
  s.changeDir P P.os.remove path

/-- The body of `Bread`. -/
def breadBody (sectorSize sectorNr : ℤ) (sectorCount : BitVec 16) (readBuffer : Buffer Byte)
    (f : FileHandle φ ρ) (w : World η) :
    Except Fault ((ReadResult × Buffer Byte) × FileHandle φ ρ × World η) :=
  let ((_, err), f, w) := f.seek P (int64 (sectorNr * sectorSize)) 0 w
  match err with
  | some err => .ok ((⟨0, none, some err⟩, readBuffer), f, w)
  | none =>
    let size := int64 (sectorCount.toNat * sectorSize)
    if size < 0 ∨ (dataBufferSize : ℤ) < size then .error .sliceBounds
    else do
      let ((bytes, err), f, w) ← f.read P size.toNat w
      return (readReturns (fun err => err = .eof) readBuffer bytes err, f, w)

/-- `Bread`. -/
def bread (handle sectorNr : ℤ) (sectorCount : BitVec 16) (readBuffer : Buffer Byte)
    (s : Backend η φ ρ) : Except Fault ((ReadResult × Buffer Byte) × Backend η φ ρ) :=
  s.withFile handle (⟨0, none, some .invalid⟩, readBuffer)
    (breadBody P (s.sectorSizeOf handle) sectorNr sectorCount readBuffer)

/-- `BwriteStart`. -/
def bwriteStart (handle sectorNr : ℤ) (sectorCount : BitVec 16) (s : Backend η φ ρ) :
    Except Fault (Option Error × Backend η φ ρ) :=
  s.withFile handle (some .invalid) fun f w =>
    if f.readOnly then .ok (some .permission, f, w)
    else .ok (none, { f with wr := ⟨[], sectorNr, sectorCount, 0, 0, true⟩ }, w)

/-- `Backend` as an `FS`. -/
def fs : FS (Backend η φ ρ) where
  openFile := openFile P
  close := close P
  read := read P
  writeStart := writeStart
  writeChunk := writeChunk
  completeWrite := completeWrite P
  lseek := lseek P
  dread := dread P
  getstat := getstat P
  mkdir := mkdir P
  remove := remove P
  rmdir := rmdir P
  bread := bread P
  bwriteStart := bwriteStart

end Backend

/-- The values that the option functions of `NewBackend` were given. -/
structure Options where
  /-- `WithFSRoot`. -/
  fsRoot : Path
  /-- `WithBlockDevice`. -/
  blockDevice : Path
  /-- `WithSectorSize`. -/
  sectorSize : ℤ
  /-- `WithReadOnly`. -/
  readOnly : Bool
  /-- `WithCompression`. -/
  enableCompression : Bool
  /-- `WithCompressionCacheSize`. -/
  compressionCacheSize : ℤ

namespace Backend

variable (P : Platform η φ ρ)

/-- The root directory as `NewBackend` keeps it, or none when it is not a directory. -/
def rootOf (fsRoot : Path) (h : η) : Option Path :=
  if fsRoot = [] then some []
  else do
    let abs ← Path.abs (P.os.getwd h) fsRoot
    match P.os.stat abs h with
    | .ok info => if info.fileType = .dir then some abs else none
    | .error _ => none

/-- The block device is opened for the lifetime of the server. -/
def openBlockDevice (s : Backend η φ ρ) (path : Path) :
    Except Fault (Option (Backend η φ ρ)) :=
  if path = [] then .ok (some s)
  else
    let mode := if s.readOnly then oRDONLY else oRDWR
    let (r, host) := P.os.openFile path mode s.world.host
    let s := { s with world.host := host }
    match r with
    | .error _ => .ok none
    | .ok f =>
      let obj := FileObject.osFile path f
      match obj.stat P s.world.host with
      | .error _ => .error .nilPointer
      | .ok info =>
        let (file, s) := s.newFileHandle path obj s.readOnly
        .ok (some { s with bdHandle := some ⟨file, info.size.tdiv s.sectorSize⟩ })

/-- `NewBackend`, or none when it returns an error. -/
def newBackend (o : Options) (host : η) (now : ℕ) : Except Fault (Option (Backend η φ ρ)) :=
  match rootOf P o.fsRoot host with
  | none => .ok none
  | some root =>
    openBlockDevice P
      { lastUsed := fun _ => 0
        handles := fun _ => none
        bdHandle := none
        fsRoot := root
        sectorSize := if o.sectorSize = 0 then 512 else o.sectorSize
        compressionCacheSize := o.compressionCacheSize
        readOnly := o.readOnly
        enableCompression := o.enableCompression
        world := ⟨host, now, 0, []⟩ }
      o.blockDevice

end Backend

end Udpfsd.Fs
