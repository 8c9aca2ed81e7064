import Udpfsd.Fs.Disk
import Udpfsd.Fs.FileProgram

/-!
# A concrete host

A small Unix-like filesystem on which the backend can be run: directories and files by
absolute path, file contents by inode, and open files with a position. Images are
stored without compression, in blocks of 2048 bytes.
-/

namespace Udpfsd.Fs

open Udprdma (Byte)
open Udpfs

/-- What is found at a path. -/
inductive Node
  /-- A file, with its inode. -/
  | file (ino : ℕ)
  /-- A directory. -/
  | dir
  deriving DecidableEq

/-- The files of a host. -/
structure Host where
  /-- The directory tree. -/
  nodes : List (Path × Node)
  /-- The contents of the inodes. -/
  contents : ℕ → List Byte
  /-- The number of inodes made so far. -/
  inodes : ℕ

/-- An open file. -/
structure OsFile where
  /-- The inode, or none for a directory. -/
  ino : Option ℕ
  /-- The position. -/
  pos : ℕ
  /-- Whether it was opened for reading. -/
  readable : Bool
  /-- Whether it was opened for writing. -/
  writable : Bool
  /-- Whether writes go to the end. -/
  append : Bool
  deriving DecidableEq

namespace Host

/-- The node at a path. -/
def lookup (h : Host) (p : Path) : Option Node := (h.nodes.find? (fun e => e.1 = p)).map Prod.snd

/-- `os.Stat`; there are no links, so that it is `os.Lstat`, too. -/
def stat (p : Path) (h : Host) : Except Error FileInfo :=
  match h.lookup p with
  | none => .error .notExist
  | some .dir => .ok ⟨p.base, .dir, 0, .zero⟩
  | some (.file ino) => .ok ⟨p.base, .regular, (h.contents ino).length, .zero⟩

/-- The paths of the entries of a directory. -/
def children (p : Path) (h : Host) : List Path :=
  (h.nodes.filter (fun e => e.1 ≠ p && e.1.dir = p)).map Prod.fst

/-- `os.ReadDir`. -/
def readDir (p : Path) (h : Host) : Except Error (List Path) :=
  match h.lookup p with
  | none => .error .notExist
  | some (.file _) => .error .other
  | some .dir => .ok ((h.children p).map Path.base)

/-- The state of a file just opened. -/
def opened (ino : Option ℕ) (flag : OpenFlag) : OsFile where
  ino := ino
  pos := 0
  readable := flag &&& oWRONLY = 0
  writable := Backend.wantWrite flag
  append := flag &&& oAPPEND ≠ 0

/-- `os.OpenFile`. -/
def openFile (p : Path) (flag : OpenFlag) (h : Host) : Except Error OsFile × Host :=
  match h.lookup p with
  | some .dir =>
    if Backend.wantWrite flag then (.error .other, h) else (.ok (opened none flag), h)
  | some (.file ino) =>
    (.ok (opened (some ino) flag),
      if flag &&& oTRUNC ≠ 0 then { h with contents := Function.update h.contents ino [] } else h)
  | none =>
    if flag &&& oCREATE ≠ 0 && h.lookup p.dir = some .dir then
      (.ok (opened (some h.inodes) flag),
        { nodes := h.nodes ++ [(p, .file h.inodes)]
          contents := Function.update h.contents h.inodes []
          inodes := h.inodes + 1 })
    else (.error .notExist, h)

/-- `os.Mkdir`. -/
def mkdir (p : Path) (h : Host) : Option Error × Host :=
  if (h.lookup p).isSome then (some .exist, h)
  else if h.lookup p.dir ≠ some .dir then (some .notExist, h)
  else (none, { h with nodes := h.nodes ++ [(p, .dir)] })

/-- `os.MkdirAll`: the directories on the way are made from the top down. -/
def mkdirAll (p : Path) (h : Host) : Host :=
  let ancestors := (List.range p.length).filterMap
    (fun n => if p[n]? = some Path.slash && n ≠ 0 then some (p.take n) else none)
  (ancestors ++ [p]).foldl (fun h dir => (h.mkdir dir).2) h

/-- `os.Remove`. A directory must be empty. -/
def remove (p : Path) (h : Host) : Option Error × Host :=
  match h.lookup p with
  | none => (some .notExist, h)
  | some node =>
    if node = .dir && h.children p ≠ [] then (some .exist, h)
    else (none, { h with nodes := h.nodes.filter (fun e => e.1 ≠ p) })

/-- `File.Read`. -/
def read (f : OsFile) (n : ℕ) (h : Host) : (List Byte × Option Error) × OsFile × Host :=
  match f.ino with
  | none => (([], some .other), f, h)
  | some ino =>
    let bytes := ((h.contents ino).drop f.pos).take n
    if !f.readable then (([], some .other), f, h)
    else if n ≠ 0 && bytes = [] then (([], some .eof), f, h)
    else ((bytes, none), { f with pos := f.pos + bytes.length }, h)

/-- `File.Write`. -/
def write (f : OsFile) (data : List Byte) (h : Host) : (ℤ × Option Error) × OsFile × Host :=
  match f.ino with
  | none => ((0, some .other), f, h)
  | some ino =>
    if !f.writable then ((0, some .other), f, h)
    else
      let pos := if f.append then (h.contents ino).length else f.pos
      ((data.length, none), { f with pos := pos + data.length },
        { h with contents :=
          Function.update h.contents ino (overwrite (h.contents ino) pos data) })

/-- The size of an open file. -/
def size (f : OsFile) (h : Host) : ℕ :=
  match f.ino with
  | none => 0
  | some ino => (h.contents ino).length

/-- `File.Seek`. -/
def seek (f : OsFile) (offset whence : ℤ) (h : Host) : (ℤ × Option Error) × OsFile × Host :=
  let move (pos : ℤ) : (ℤ × Option Error) × OsFile × Host :=
    if pos < 0 then ((0, some .other), f, h) else ((pos, none), { f with pos := pos.toNat }, h)
  if whence = 0 then move offset
  else if whence = 1 then move (int64 (f.pos + offset))
  else if whence = 2 then move (int64 (size f h + offset))
  else ((0, some .other), f, h)

/-- `File.Stat`. -/
def fstat (f : OsFile) (h : Host) : Except Error FileInfo :=
  match f.ino with
  | none => .ok ⟨[], .dir, 0, .zero⟩
  | some ino => .ok ⟨[], .regular, (h.contents ino).length, .zero⟩

/-- Package `os` on this host, with the root as its working directory. -/
def os : OS Host OsFile where
  getwd := fun _ => some [Path.slash]
  stat := stat
  lstat := stat
  readDir := readDir
  openFile := openFile
  mkdirAll := mkdirAll
  mkdir := mkdir
  remove := remove
  read := read
  write := write
  seek := seek
  fstat := fstat
  close := fun _ h => h

/-- An open image: its file and its size. -/
structure Image where
  /-- The file. -/
  file : OsFile
  /-- The size. -/
  size : ℕ
  deriving DecidableEq

/-- The block size of a stored image. -/
def imageBlock : ℕ := 2048

/-- The decoder of stored images. -/
def reader : BlockReader Host Image where
  readBlock := fun r blockIdx h =>
    let (_, f, h) := seek r.file (blockIdx * imageBlock) 0 h
    let ((bytes, err), f, h) := read f imageBlock h
    .ok (match err with
      | some err => .error err
      | none => .ok ⟨bytes, []⟩, { r with file := f }, h)
  blockSize := fun _ => imageBlock
  numBlocks := fun r => ((r.size + imageBlock - 1) / imageBlock : ℕ)
  uncompressedSize := fun r => r.size
  close := fun _ h => h

/-- A format of stored images with these extensions. -/
def imageFormat (extensions : List Path) : Format Host Image where
  extensions := extensions
  openImage := fun p h =>
    match openFile p oRDONLY h with
    | (.error err, h) => .ok (.error err, h)
    | (.ok f, h) => .ok (.ok ⟨f, size f h⟩, h)
  getStat := fun p h =>
    match stat p h with
    | .error _ => none
    | .ok info => some ⟨info.modTime, info.name, info.size⟩

/-- The backend's platform on this host; the build has no CHD. -/
def platform : Platform Host OsFile Image where
  os := os
  reader := reader
  zso := imageFormat [Path.ascii ['.', 'z', 's', 'o'], Path.ascii ['.', 'z', 'i', 's', 'o']]
  cso := imageFormat [Path.ascii ['.', 'c', 's', 'o'], Path.ascii ['.', 'c', 'i', 's', 'o']]
  chd := imageFormat []

theorem append_opened {ino : Option ℕ} {flag : OpenFlag} (hflag : flag = oRDONLY ∨ flag = oRDWR) :
    (opened ino flag).append = false := by
  rcases hflag with rfl | rfl <;> rfl

theorem append_openFile {p : Path} {flag : OpenFlag} {h h' : Host} {f : OsFile}
    (hflag : flag = oRDONLY ∨ flag = oRDWR) (hok : openFile p flag h = (.ok f, h')) :
    f.append = false := by
  unfold openFile at hok
  split at hok
  · split_ifs at hok <;> cases hok
    exact append_opened hflag
  · cases hok
    exact append_opened hflag
  · split_ifs at hok <;> cases hok
    exact append_opened hflag

/-- The content of an open file. -/
def content (f : OsFile) (h : Host) : List Byte :=
  match f.ino with
  | none => []
  | some ino => h.contents ino

theorem seek_start (f : OsFile) (offset : ℤ) (h : Host) :
    seek f offset 0 h =
      if offset < 0 then ((0, some .other), f, h)
      else ((offset, none), { f with pos := offset.toNat }, h) := by
  simp [seek]

/-- A seek from the start moves a file and changes nothing else. -/
theorem seek_spec (f : OsFile) (offset : ℤ) (h : Host) :
    (seek f offset 0 h).2.1.ino = f.ino ∧ (seek f offset 0 h).2.2 = h ∧
    (seek f offset 0 h).2.1.append = f.append ∧
    ((seek f offset 0 h).1.2 = none → 0 ≤ offset ∧ (seek f offset 0 h).2.1.pos = offset.toNat) := by
  rw [seek_start]
  split_ifs with hneg
  · exact ⟨rfl, rfl, rfl, fun herr => by cases herr⟩
  · exact ⟨rfl, rfl, rfl, fun _ => ⟨by omega, rfl⟩⟩

/-- A write stores all of its data, or it fails and stores nothing. -/
theorem write_spec (f : OsFile) (data : List Byte) (h : Host) :
    ∃ n : ℕ, n ≤ data.length ∧ (write f data h).1.1 = n ∧
    ((write f data h).1.2 = none → n = data.length) ∧
    (write f data h).2.1.append = f.append ∧
    content (write f data h).2.1 (write f data h).2.2 =
      overwrite (content f h) (if f.append then (content f h).length else f.pos) (data.take n) := by
  unfold write
  cases hino : f.ino with
  | none => exact ⟨0, by simp⟩
  | some ino =>
    by_cases hw : f.writable
    · exact ⟨data.length, by simp [hw, content, hino]⟩
    · exact ⟨0, by simp [hw]⟩

/-- Open files whose content satisfies a predicate. -/
def openFiles (Valid : List Byte → Prop) : OpenFiles platform where
  content := content
  position := OsFile.pos
  appends := OsFile.append
  Live := fun f h => Valid (content f h)
  seek := by
    intro f offset h hvalid
    obtain ⟨hino, hhost, happend, hmoved⟩ := seek_spec f offset h
    have hcontent : content (seek f offset 0 h).2.1 (seek f offset 0 h).2.2 = content f h := by
      simp only [content, hino, hhost]
    change Valid (content (seek f offset 0 h).2.1 (seek f offset 0 h).2.2) ∧
      content (seek f offset 0 h).2.1 (seek f offset 0 h).2.2 = content f h ∧ _
    rw [hcontent]
    exact ⟨hvalid, rfl, happend, hmoved⟩

/-- They can be written. -/
def writableFiles (Valid : List Byte → Prop) : WritableFiles platform where
  toOpenFiles := openFiles Valid
  write := by
    intro f data h _
    obtain ⟨n, hn, hreturned, hall, -, hstored⟩ := write_spec f data h
    exact ⟨n, hn, hreturned, hall, hstored⟩

/-- Files are a disk. -/
def disk : Disk platform where
  toWritableFiles := writableFiles fun _ => True
  openFile := fun _ _ _ _ _ hflag hok => ⟨trivial, append_openFile hflag hok⟩
  write_live := by
    intro f data h _
    obtain ⟨n, -, -, -, happend, -⟩ := write_spec f data h
    exact ⟨trivial, happend⟩

/-- `File.Write` of a file that cannot grow, such as a disk: what does not fit is not written, and
the write fails. -/
def writeWithin (f : OsFile) (data : List Byte) (h : Host) : (ℤ × Option Error) × OsFile × Host :=
  let room := (content f h).length - f.pos
  let ((n, err), f, h) := write f (data.take room) h
  ((n, err.or (if data.length ≤ room then none else some .other)), f, h)

/-- The platform with files that cannot grow. -/
def fixedPlatform : Platform Host OsFile Image :=
  { platform with os := { os with write := writeWithin } }

/-- A file that cannot grow is a disk, too. -/
def fixedDisk : Disk fixedPlatform where
  toOpenFiles := { openFiles fun _ => True with seek := (openFiles fun _ => True).seek }
  write := by
    intro f data h _
    obtain ⟨n, hn, hreturned, hall, -, hstored⟩ :=
      write_spec f (data.take ((content f h).length - f.pos)) h
    rw [List.length_take] at hn hall
    refine ⟨n, by omega, hreturned, ?_, ?_⟩
    · intro hok
      obtain ⟨hok, hroom⟩ := Option.or_eq_none_iff.mp hok
      split_ifs at hroom with hfits
      have := hall hok
      omega
    · rw [List.take_take, Nat.min_eq_left (by omega)] at hstored
      exact hstored
  openFile := fun _ _ _ _ _ hflag hok => ⟨trivial, append_openFile hflag hok⟩
  write_live := by
    intro f data h _
    obtain ⟨n, -, -, -, happend, -⟩ :=
      write_spec f (data.take ((content f h).length - f.pos)) h
    exact ⟨trivial, happend⟩

/-- A host with one file, `/a`. -/
def ofFile (file : List Byte) : Host := ⟨[(Path.ascii ['/', 'a'], .file 0)], fun _ => file, 1⟩

/-- A file that is open for reading can be read. -/
theorem holds (ino : ℕ) (file : List Byte) :
    Holds os file (fun f pos h =>
      f.ino = some ino ∧ f.readable = true ∧ f.pos = pos ∧ h.contents ino = file) where
  seek := by
    rintro f pos h offset ⟨hino, hreadable, -, hfile⟩ -
    refine ⟨{ f with pos := offset }, h, ?_, hino, hreadable, rfl, hfile⟩
    change seek f offset 0 h = _
    rw [seek_start, if_neg (by omega), Int.toNat_natCast]
  seek_open := by
    rintro f pos h offset ⟨hino, hreadable, hpos, hfile⟩
    change ∃ pos', (seek f offset 0 h).2.1.ino = some ino ∧
      (seek f offset 0 h).2.1.readable = true ∧ (seek f offset 0 h).2.1.pos = pos' ∧
      (seek f offset 0 h).2.2.contents ino = file
    rw [seek_start]
    split_ifs
    · exact ⟨pos, hino, hreadable, hpos, hfile⟩
    · exact ⟨_, hino, hreadable, rfl, hfile⟩
  read := by
    rintro f pos h n ⟨hino, hreadable, rfl, hfile⟩ hn hpos
    obtain ⟨k, hk⟩ : ∃ k, k = min n (file.length - f.pos) := ⟨_, rfl⟩
    refine ⟨k, { f with pos := f.pos + k }, h, by omega, by omega, by omega, ?_, hino, hreadable,
      rfl, hfile⟩
    have htake : (file.drop f.pos).take n = (file.drop f.pos).take k := by
      rw [List.take_eq_take_iff, List.length_drop]
      omega
    have hlength : ((file.drop f.pos).take k).length = k := by
      rw [List.length_take, List.length_drop]
      omega
    have hne : (file.drop f.pos).take k ≠ [] := by
      rw [← List.length_pos_iff]
      omega
    change read f n h = _
    simp [read, hino, hreadable, hfile, htake, hne, hlength]
  eof := by
    rintro f pos h n ⟨hino, hreadable, rfl, hfile⟩ hn hpos
    refine ⟨f, h, ?_, hino, hreadable, rfl, hfile⟩
    change read f n h = _
    simp [read, hino, hreadable, hfile, List.drop_of_length_le hpos, hn.ne']
  stat := by
    rintro f pos h ⟨hino, -, -, rfl⟩
    refine ⟨⟨[], .regular, (h.contents ino).length, .zero⟩, ?_, rfl⟩
    change fstat f h = _
    simp [fstat, hino]

end Host

/-! ### Runs on a new backend -/

namespace Backend

variable {η φ ρ σ ι ε ω β : Type} {P : Platform η φ ρ} {o : Options} {host : η}

/-- What is seen of a run of a system on a new backend and of what is done after it. -/
def observe (P : Platform η φ ρ) (o : Options) (host : η) (init : Backend η φ ρ → σ)
    (step : σ → ι → Except ε σ) (events : List ι) (last : σ → Except ε ω) (view : σ → ω → β) :
    Option β :=
  match newBackend P o host 0 with
  | .ok (some fs) =>
    match events.foldlM step (init fs) with
    | .ok s =>
      match last s with
      | .ok r => some (view s r)
      | .error _ => none
    | .error _ => none
  | _ => none

/-- What is seen is seen of a run that succeeds. -/
theorem observe_eq_some {init : Backend η φ ρ → σ} {step : σ → ι → Except ε σ} {events : List ι}
    {last : σ → Except ε ω} {view : σ → ω → β} {b : β}
    (h : observe P o host init step events last view = some b) :
    ∃ fs s r, newBackend P o host 0 = .ok (some fs) ∧ events.foldlM step (init fs) = .ok s ∧
      last s = .ok r ∧ view s r = b := by
  unfold observe at h
  split at h
  · rename_i fs hnew
    split at h
    · rename_i s hrun
      split at h
      · rename_i r hlast
        exact ⟨fs, s, r, hnew, hrun, hlast, Option.some.inj h⟩
      · cases h
    · cases h
  · cases h

end Backend

end Udpfsd.Fs
