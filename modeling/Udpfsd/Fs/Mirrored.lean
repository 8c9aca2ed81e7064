import Udpfsd.Fs.Enclosure

/-!
# Backends on hosts that agree

Two backends that differ in their hosts only, on hosts that have the same inside. Every path
that the backend hands to package `os` is inside: it is the block device's or has passed
`resolvePath`, or it is an entry of a directory that has. So every method returns the same
from both, and keeps the outside. One path is made without `resolvePath`: for a file that does
not exist, `Open` takes off the extension `.iso`. This leaves a root that has itself this
extension, and is excluded here.
-/

namespace Udpfsd.Fs

open Udprdma (Byte)
open Udpfs (Error Fault FileInfo OpenFlag StatInfo oCREATE blockDeviceHandle)
open Lockstep (Same)

variable {η φ ρ : Type} {P : Platform η φ ρ} {inside : Path → Prop}

namespace Enclosure

variable (E : Enclosure P inside) (h₀ : η)

/-- Worlds that differ in their hosts only. -/
def NearWorld (w w' : World η) : Prop :=
  w' = { w with host := w'.host } ∧ E.Near h₀ w.host w'.host

/-- The file of the handle was opened inside. -/
def OwnFile (f : FileHandle φ ρ) : Prop := E.OwnObject f.obj

/-- The handle is of a file that was opened inside, or of a directory with its entries inside. -/
def OwnHandle : Handle φ ρ → Prop
  | .file f => E.OwnFile f
  | .dir d => ∀ name ∈ d.entries, inside (d.dirPath.join name)

variable {E h₀} {w w' : World η} {f : FileHandle φ ρ}

/-- The hosts are replaced. -/
theorem NearWorld.set (hw : E.NearWorld h₀ w w') {h k : η} (hnear : E.Near h₀ h k) :
    E.NearWorld h₀ { w with host := h } { w' with host := k } := by
  refine ⟨?_, hnear⟩
  rw [hw.1]

/-- A call is recorded. -/
theorem NearWorld.access (hw : E.NearWorld h₀ w w') (object : ℕ) (method : Method) :
    E.NearWorld h₀ (w.access object method) (w'.access object method) := by
  refine ⟨?_, hw.2⟩
  rw [hw.1]
  rfl

/-! ### Methods of file handles -/

section OwnFiles

variable (hf : E.OwnFile f) (hw : E.NearWorld h₀ w w')
include hf hw

/-- `Read`. -/
theorem readFile (n : ℕ) :
    Lockstep (Same (Owned E.OwnFile (E.NearWorld h₀))) (f.read P n w) (f.read P n w') := by
  refine (readObject hf hw.2 n).bind ?_
  rintro ⟨r, obj, h⟩ ⟨r', obj', k⟩ ⟨hr, hobj, hown, hnear⟩
  cases hr
  cases hobj
  exact .done ⟨rfl, rfl, hown, (hw.access f.id .read).set hnear⟩

/-- `Write`. -/
theorem writeFile (data : List Byte) :
    Same (Owned E.OwnFile (E.NearWorld h₀)) (f.write P data w) (f.write P data w') := by
  obtain ⟨hr, hobj, hown, hnear⟩ := writeObject hf hw.2 data
  exact ⟨hr, congrArg (fun obj => { f with obj := obj }) hobj, hown,
    (hw.access f.id .write).set hnear⟩

/-- `Seek`. -/
theorem seekFile (offset whence : ℤ) :
    Same (Owned E.OwnFile (E.NearWorld h₀)) (f.seek P offset whence w)
      (f.seek P offset whence w') := by
  obtain ⟨hr, hobj, hown, hnear⟩ := seekObject hf hw.2 offset whence
  exact ⟨hr, congrArg (fun obj => { f with obj := obj }) hobj, hown,
    (hw.access f.id .seek).set hnear⟩

/-- `Close`. -/
theorem closeFile : E.NearWorld h₀ (f.close P w) (f.close P w') :=
  (hw.access f.id .close).set (closeObject hf hw.2)

end OwnFiles

/-- `Close` of a file or a directory. -/
theorem closeHandle {h : Handle φ ρ} (hh : E.OwnHandle h) (hw : E.NearWorld h₀ w w') :
    E.NearWorld h₀ (h.close P w) (h.close P w') := by
  cases h with
  | file f => exact closeFile hh hw
  | dir d => exact hw.access d.id .close

end Enclosure

/-! ### The handle table -/

open Enclosure

/-- Backends that differ in their hosts only. -/
structure Mirrored (E : Enclosure P inside) (root : Path) (h₀ : η) (s t : Backend η φ ρ) :
    Prop where
  /-- All else is the same. -/
  eq : t = { s with world := t.world }
  /-- The hosts agree. -/
  world : E.NearWorld h₀ s.world t.world
  /-- The root. -/
  root : s.fsRoot = root
  /-- The table. -/
  own : ∀ i h, s.handles i = some h → E.OwnHandle h
  /-- The block device. -/
  device : ∀ bd, s.bdHandle = some bd → E.OwnFile bd.file

namespace Mirrored

/-- The method returns the same from both, and they go on alike. -/
abbrev InStep (E : Enclosure P inside) (root : Path) (h₀ : η) {α : Type} (s t : Backend η φ ρ)
    (method : Backend η φ ρ → Except Fault (α × Backend η φ ρ)) : Prop :=
  Lockstep (Same (Mirrored E root h₀)) (method s) (method t)

variable {E : Enclosure P inside} {root : Path} {h₀ : η} {s t : Backend η φ ρ}
variable (hst : Mirrored E root h₀ s t)
include hst

/-- The worlds are replaced. -/
theorem setWorld {w w' : World η} (hw : E.NearWorld h₀ w w') :
    Mirrored E root h₀ { s with world := w } { t with world := w' } := by
  refine ⟨?_, hw, hst.root, hst.own, hst.device⟩
  rw [hst.eq]

/-- The hosts are replaced. -/
theorem setHost {h k : η} (hnear : E.Near h₀ h k) :
    Mirrored E root h₀ (s.setHost h) (t.setHost k) :=
  hst.setWorld (hst.world.set hnear)

/-- The clocks agree. -/
theorem now_eq : t.world.now = s.world.now := by
  rw [hst.world.1]

/-- A slot is filled or emptied. -/
theorem setSlot (i : Fin maxHandles) {x : Option (Handle φ ρ)}
    (hx : ∀ h, x = some h → E.OwnHandle h) :
    Mirrored E root h₀ { s with handles := Function.update s.handles i x }
      { t with handles := Function.update t.handles i x } := by
  refine ⟨?_, hst.world, hst.root, ?_, hst.device⟩
  · rw [hst.eq]
  · intro j h hj
    by_cases hji : j = i
    · subst hji
      exact hx h (by simpa using hj)
    · exact hst.own j h (by simpa [Function.update_of_ne hji] using hj)

/-- A slot is used. -/
theorem touch (i : Fin maxHandles) : Mirrored E root h₀ (s.touch i) (t.touch i) := by
  refine ⟨?_, hst.world, hst.root, hst.own, hst.device⟩
  rw [Backend.touch, hst.now_eq, hst.eq]
  rfl

/-- An object gets its number. -/
theorem newObject : Same (Mirrored E root h₀) s.newObject t.newObject := by
  refine ⟨?_, ?_, ⟨?_, hst.world.2⟩, hst.root, hst.own, hst.device⟩
  · rw [Backend.newObject, Backend.newObject, hst.world.1]
  · rw [hst.eq]
    rfl
  · simp only [Backend.newObject]
    rw [hst.world.1]

/-- What is in a slot is closed. -/
theorem closeSlot (i : Fin maxHandles) : E.NearWorld h₀ (s.closeSlot P i) (t.closeSlot P i) := by
  have hsame : t.handles = s.handles := by rw [hst.eq]
  unfold Backend.closeSlot
  rw [hsame]
  cases hi : s.handles i with
  | none => exact hst.world
  | some h => exact closeHandle (hst.own i h hi) hst.world

/-- Both choose the same slot. -/
theorem allocSlot : t.allocSlot = s.allocSlot := by
  have hsame : t.handles = s.handles ∧ t.lastUsed = s.lastUsed := by
    rw [hst.eq]
    exact ⟨rfl, rfl⟩
  unfold Backend.allocSlot
  rw [hsame.1, hsame.2, hst.now_eq]

/-- A handle is put into the table. -/
theorem allocHandle {h : Handle φ ρ} (hh : E.OwnHandle h) :
    Same (Mirrored E root h₀) (s.allocHandle P h) (t.allocHandle P h) := by
  unfold Backend.allocHandle
  rw [hst.allocSlot]
  cases s.allocSlot with
  | none => exact ⟨rfl, hst⟩
  | some i =>
    have hclosed := hst.closeSlot i
    have hfilled := ((hst.touch i).setSlot i (x := some h) (by rintro _ ⟨⟩; exact hh)).setWorld
      hclosed
    exact ⟨rfl, hfilled⟩

/-- A handle is taken out of the table. -/
theorem freeHandle (handle : ℤ) :
    Lockstep (Same (Mirrored E root h₀)) (s.freeHandle P handle) (t.freeHandle P handle) := by
  refine .ite (fun _ => .done ⟨rfl, hst⟩) (fun _ => ?_)
  cases slotOf handle with
  | error e => exact .fault e
  | ok i =>
    have hemptied := (hst.setSlot i (x := none) (by simp)).setWorld (hst.closeSlot i)
    exact .done ⟨rfl, hemptied⟩

/-- Both find the same file. -/
theorem getFile (handle : ℤ) :
    Lockstep (Same (Mirrored E root h₀)) (s.getFile handle) (t.getFile handle) ∧
      ∀ ref f s', s.getFile handle = .ok (some (ref, f), s') → E.OwnFile f := by
  have hsame : t.handles = s.handles ∧ t.bdHandle = s.bdHandle := by
    rw [hst.eq]
    exact ⟨rfl, rfl⟩
  unfold Backend.getFile
  rw [hsame.1, hsame.2]
  by_cases hneg : handle < 0
  · rw [if_pos hneg, if_pos hneg]
    exact ⟨.done ⟨rfl, hst⟩, fun ref f s' heq => by cases heq⟩
  rw [if_neg hneg, if_neg hneg]
  by_cases hdevice : handle = blockDeviceHandle
  · rw [if_pos hdevice, if_pos hdevice]
    refine ⟨.done ⟨rfl, hst⟩, ?_⟩
    intro ref f s' heq
    cases hbd : s.bdHandle with
    | none =>
      rw [hbd] at heq
      cases heq
    | some bd =>
      rw [hbd] at heq
      cases heq
      exact hst.device bd hbd
  rw [if_neg hdevice, if_neg hdevice]
  cases slotOf handle with
  | error e => exact ⟨.fault e, fun ref f s' heq => by cases heq⟩
  | ok i =>
    rcases hi : s.handles i with _ | ⟨f | d⟩
    · simp only [Bind.bind, Except.bind, hi]
      exact ⟨.done ⟨rfl, hst⟩, fun ref f s' heq => by cases heq⟩
    · simp only [Bind.bind, Except.bind, hi]
      refine ⟨.done ⟨rfl, hst.touch i⟩, ?_⟩
      rintro ref g s' heq
      cases heq
      exact hst.own i _ hi
    · simp only [Bind.bind, Except.bind, hi]
      exact ⟨.done ⟨rfl, hst⟩, fun ref f s' heq => by cases heq⟩

/-- Both find the same file by its name. -/
theorem getFileByPath (path : Path) :
    Same (Mirrored E root h₀) (s.getFileByPath path) (t.getFileByPath path) ∧
      ∀ f, (s.getFileByPath path).1 = some f → E.OwnFile f := by
  have hsame : t.handles = s.handles := by rw [hst.eq]
  have hfind : t.findByPath path = s.findByPath path := by
    rw [Backend.findByPath, Backend.findByPath, hsame]
  unfold Backend.getFileByPath
  rw [hfind, hsame]
  cases s.findByPath path with
  | none => exact ⟨⟨rfl, hst⟩, fun f heq => by cases heq⟩
  | some i =>
    rcases hi : s.handles i with _ | ⟨f | d⟩
    · simp only [hi]
      exact ⟨⟨rfl, hst⟩, fun f heq => by cases heq⟩
    · simp only [hi]
      refine ⟨⟨rfl, hst.touch i⟩, ?_⟩
      rintro g ⟨⟩
      exact hst.own i _ hi
    · simp only [hi]
      exact ⟨⟨rfl, hst⟩, fun f heq => by cases heq⟩

/-- Both know the same of an open file. -/
theorem getFileState (path : Path) : t.getFileState path = s.getFileState path := by
  have hsame : t.handles = s.handles := by rw [hst.eq]
  unfold Backend.getFileState Backend.findByPath
  rw [hsame]

/-- A file is put back. -/
theorem putFile {f : FileHandle φ ρ} (hf : E.OwnFile f)
    (ref : FileRef) : Mirrored E root h₀ (s.putFile f ref) (t.putFile f ref) := by
  cases ref with
  | blockDevice =>
    refine ⟨?_, hst.world, hst.root, hst.own, ?_⟩
    · simp only [Backend.putFile]
      rw [hst.eq]
    · intro bd hbd
      obtain ⟨b, -, rfl⟩ := Option.map_eq_some_iff.mp hbd
      exact hf
  | slot i =>
    refine hst.setSlot i ?_
    rintro h ⟨⟩
    exact hf

omit hst in
/-- A method on a file handle is in step when its body is. -/
theorem withFile {α : Type} {missing : α}
    {body : FileHandle φ ρ → World η → Except Fault (α × FileHandle φ ρ × World η)}
    (hbody : ∀ f w w', E.OwnFile f → E.NearWorld h₀ w w' →
      Lockstep (Same (Owned E.OwnFile (E.NearWorld h₀))) (body f w) (body f w'))
    (hst : Mirrored E root h₀ s t) (handle : ℤ) :
    Lockstep (Same (Mirrored E root h₀)) (s.withFile handle missing body)
      (t.withFile handle missing body) := by
  obtain ⟨hget, hown⟩ := hst.getFile handle
  unfold Backend.withFile
  cases hs : s.getFile handle with
  | error e =>
    rw [hs] at hget
    rw [hget.of_error]
    exact .fault e
  | ok found =>
    obtain ⟨found, s'⟩ := found
    rw [hs] at hget
    obtain ⟨⟨found', t'⟩, ht, hfound, hst'⟩ := hget.of_ok
    cases hfound
    rw [ht]
    cases found with
    | none => exact .done ⟨rfl, hst'⟩
    | some found =>
      obtain ⟨ref, f⟩ := found
      refine (hbody f s'.world t'.world (hown ref f s' hs) hst'.world).bind ?_
      rintro ⟨a, f', w⟩ ⟨a', f'', w'⟩ ⟨ha, hf', hf, hw⟩
      cases ha
      cases hf'
      exact .done ⟨rfl, (hst'.putFile hf ref).setWorld hw⟩

/-! ### Methods on a handle -/

/-- `Close`. -/
theorem close (handle : ℤ) :
    InStep E root h₀ s t (Backend.close P handle) :=
  (hst.freeHandle handle).bind_same fun _ _ _ hst' => .done ⟨rfl, hst'⟩

/-- `Read`. -/
theorem read (handle : ℤ) (size : BitVec 32) (buf : Buffer Byte) :
    InStep E root h₀ s t (Backend.read P handle size buf) := by
  refine hst.withFile ?_ handle
  intro f w w' hf hw
  refine .ite (fun _ => .fault _) (fun _ => ?_)
  refine (readFile hf hw size.toNat).bind ?_
  rintro ⟨⟨bytes, err⟩, f', w₁⟩ ⟨r', f'', w₁'⟩ ⟨hr, hf', hown, hw'⟩
  cases hr
  exact .done ⟨rfl, hf', hown, hw'⟩

/-- `WriteStart`. -/
theorem writeStart (handle : ℤ) :
    InStep E root h₀ s t (Backend.writeStart handle) := by
  refine hst.withFile ?_ handle
  intro f w w' hf hw
  exact .ite (fun _ => .done ⟨rfl, rfl, hf, hw⟩) (fun _ => .done ⟨rfl, rfl, hf, hw⟩)

/-- `BwriteStart`. -/
theorem bwriteStart (handle sectorNr : ℤ) (sectorCount : BitVec 16) :
    InStep E root h₀ s t (Backend.bwriteStart handle sectorNr sectorCount) := by
  refine hst.withFile ?_ handle
  intro f w w' hf hw
  exact .ite (fun _ => .done ⟨rfl, rfl, hf, hw⟩) (fun _ => .done ⟨rfl, rfl, hf, hw⟩)

/-- `WriteChunk`. -/
theorem writeChunk (handle : ℤ) (chunkNr chunkSize totalChunks : BitVec 16) (chunk : List Byte) :
    InStep E root h₀ s t (Backend.writeChunk handle chunkNr chunkSize totalChunks chunk) := by
  refine hst.withFile ?_ handle
  intro f w w' hf hw
  exact .ite (fun _ => .done ⟨rfl, rfl, hf, hw⟩) (fun _ => .done ⟨rfl, rfl, hf, hw⟩)

/-- The sectors have the same size. -/
theorem sectorSizeOf (handle : ℤ) : t.sectorSizeOf handle = s.sectorSizeOf handle := by
  rw [hst.eq]
  rfl

omit hst in
/-- The write of the collected chunks. -/
theorem completeBody {f : FileHandle φ ρ} {w w' : World η} (sectorSize : ℤ) (hf : E.OwnFile f)
    (hw : E.NearWorld h₀ w w') :
    Lockstep (Same (Owned E.OwnFile (E.NearWorld h₀))) (Backend.completeBody P sectorSize f w)
      (Backend.completeBody P sectorSize f w') := by
  unfold Backend.completeBody
  refine .ite (fun _ => ?_) (fun _ => ?_)
  · refine .ite (fun _ => .fault _) (fun _ => ?_)
    have hseek := seekFile hf hw (int64 (f.wr.sectorNumber * sectorSize)) 0
    generalize f.seek P (int64 (f.wr.sectorNumber * sectorSize)) 0 w = x at hseek ⊢
    generalize f.seek P (int64 (f.wr.sectorNumber * sectorSize)) 0 w' = y at hseek ⊢
    obtain ⟨⟨n, err⟩, f₁, v⟩ := x
    obtain ⟨r, f₂, v'⟩ := y
    obtain ⟨hr, hf₁, hown, hv⟩ := hseek
    cases hr
    cases hf₁
    cases err with
    | some err => exact .done ⟨rfl, rfl, hown, hv⟩
    | none =>
      obtain ⟨hr, hf₂, hown', hv'⟩ := writeFile hown hv
        (if int64 (f.wr.sectorCount.toNat * sectorSize) < f.wr.dataBuffer.length then
          f.wr.dataBuffer.take (int64 (f.wr.sectorCount.toNat * sectorSize)).toNat
        else f.wr.dataBuffer)
      exact .done ⟨congrArg (fun r => (0, r.2)) hr, hf₂, hown', hv'⟩
  · have hwrite := writeFile hf hw f.wr.dataBuffer
    generalize f.write P f.wr.dataBuffer w = x at hwrite ⊢
    generalize f.write P f.wr.dataBuffer w' = y at hwrite ⊢
    obtain ⟨⟨n, err⟩, f₁, v⟩ := x
    obtain ⟨r, f₂, v'⟩ := y
    obtain ⟨hr, hf₁, hown, hv⟩ := hwrite
    cases hr
    cases hf₁
    cases err with
    | some err => exact .done ⟨rfl, rfl, hown, hv⟩
    | none => exact .done ⟨rfl, rfl, hown, hv⟩

/-- `CompleteWrite`. -/
theorem completeWrite (handle : ℤ) :
    InStep E root h₀ s t (Backend.completeWrite P handle) := by
  unfold InStep Backend.completeWrite
  rw [hst.sectorSizeOf]
  refine hst.withFile ?_ handle
  intro f w w' hf hw
  exact completeBody _ hf hw

/-- `Lseek`. -/
theorem lseek (handle offset whence : ℤ) :
    InStep E root h₀ s t (Backend.lseek P handle offset whence) :=
  hst.withFile (fun _ _ _ hf hw => .done (seekFile hf hw offset whence)) handle

omit hst in
/-- The seek and the read of `Bread`. -/
theorem breadBody {f : FileHandle φ ρ} {w w' : World η} (sectorSize sectorNr : ℤ)
    (sectorCount : BitVec 16) (buf : Buffer Byte) (hf : E.OwnFile f) (hw : E.NearWorld h₀ w w') :
    Lockstep (Same (Owned E.OwnFile (E.NearWorld h₀)))
      (Backend.breadBody P sectorSize sectorNr sectorCount buf f w)
      (Backend.breadBody P sectorSize sectorNr sectorCount buf f w') := by
  unfold Backend.breadBody
  have hseek := seekFile hf hw (int64 (sectorNr * sectorSize)) 0
  generalize f.seek P (int64 (sectorNr * sectorSize)) 0 w = x at hseek ⊢
  generalize f.seek P (int64 (sectorNr * sectorSize)) 0 w' = y at hseek ⊢
  obtain ⟨⟨n, err⟩, f₁, v⟩ := x
  obtain ⟨r, f₂, v'⟩ := y
  obtain ⟨hr, hf₁, hown, hv⟩ := hseek
  cases hr
  cases hf₁
  cases err with
  | some err => exact .done ⟨rfl, rfl, hown, hv⟩
  | none =>
    refine .ite (fun _ => .fault _) (fun _ => ?_)
    refine (readFile hown hv _).bind ?_
    rintro ⟨⟨bytes, err⟩, f', w₁⟩ ⟨r', f'', w₁'⟩ ⟨hr, hf', hown', hw'⟩
    cases hr
    exact .done ⟨rfl, hf', hown', hw'⟩

/-- `Bread`. -/
theorem bread (handle sectorNr : ℤ) (sectorCount : BitVec 16) (buf : Buffer Byte) :
    InStep E root h₀ s t (Backend.bread P handle sectorNr sectorCount buf) := by
  unfold InStep Backend.bread
  rw [hst.sectorSizeOf]
  refine hst.withFile ?_ handle
  intro f w w' hf hw
  exact breadBody _ _ _ _ hf hw

/-- The entries of a directory that was opened inside are looked up inside. -/
theorem entryOf {dirPath entry : Path} (hentry : inside (dirPath.join entry)) :
    t.entryOf P dirPath entry = s.entryOf P dirPath entry := by
  have hlstat := E.lstat _ _ _ hentry hst.world.2.1
  have hstat := Enclosure.getCompressedStat hentry hst.world.2
  have hsame : t.enableCompression = s.enableCompression := by rw [hst.eq]
  unfold Backend.entryOf
  simp only [← hlstat, ← hstat, hsame]

/-- `Dread`. -/
theorem dread (handle : ℤ) :
    InStep E root h₀ s t (Backend.dread P handle) := by
  have hsame : t.handles = s.handles := by rw [hst.eq]
  unfold InStep Backend.dread Backend.getDir
  rw [hsame]
  cases slotOf handle with
  | error e => exact .fault e
  | ok i =>
    rcases hi : s.handles i with _ | ⟨f | d⟩
    · simp only [Bind.bind, Except.bind, hi]
      exact .done ⟨rfl, hst⟩
    · simp only [Bind.bind, Except.bind, hi]
      exact .done ⟨rfl, hst⟩
    · have hread := (hst.touch i).setWorld ((hst.touch i).world.access d.id .readEntry)
      have hd := hst.own i _ hi
      simp only [Bind.bind, Except.bind, hi, Pure.pure, Except.pure]
      cases hentry : d.entries[d.index]? with
      | none => exact .done ⟨rfl, hread⟩
      | some entry =>
        refine .done ⟨(hread.entryOf (hd entry (List.mem_of_getElem? hentry))).symm, ?_⟩
        refine hread.setSlot i ?_
        rintro h ⟨⟩
        exact hd

end Mirrored

/-! ### Methods on a path -/

/-- What is below the root is inside, and the root is not itself taken for an image. -/
structure Encloses (inside : Path → Prop) (root : Path) : Prop where
  /-- The root, as it is given. -/
  self : inside root
  /-- The root and what is below. -/
  below : ∀ path, Backend.underRoot root path = true → inside path
  /-- The name of the root. -/
  name : root.clean.ext.toLower ≠ Backend.isoExtension

/-- The image of a file below the root is below the root. -/
theorem Encloses.image {root path : Path} (hin : Encloses inside root)
    (hpath : Backend.underRoot root path = true) (hext : path.ext.toLower = Backend.isoExtension) :
    inside (path.take (path.length - path.ext.length)) := by
  apply hin.below
  simp only [Backend.underRoot, Bool.or_eq_true, List.isPrefixOf_iff_prefix,
    decide_eq_true_eq] at hpath ⊢
  rcases hpath with hbelow | rfl
  · exact Or.inl (Path.dir_prefix_stem hbelow)
  · exact absurd hext hin.name

namespace Mirrored

variable {E : Enclosure P inside} {root : Path} {h₀ : η} {s t : Backend η φ ρ} {path : Path}

section Methods

variable (hst : Mirrored E root h₀ s t)
include hst

/-- Both resolve a path alike. -/
theorem resolvePath (path : Path) :
    t.resolvePath P path = s.resolvePath P path := by
  have hwd := E.getwd _ _ hst.world.2.1
  have hroot : t.fsRoot = s.fsRoot := by rw [hst.eq]
  unfold Backend.resolvePath
  rw [hroot, ← hwd]

/-- A path that has passed `resolvePath`. -/
theorem underRoot_of_resolvePath {resolved : Path}
    (hpath : s.resolvePath P path = some resolved) : Backend.underRoot root resolved = true := by
  unfold Backend.resolvePath at hpath
  split_ifs at hpath
  rw [← hst.root]
  exact (Option.filter_eq_some_iff.mp hpath).2

/-- A path inside exists for both or for none. -/
theorem pathExists (hpath : inside path) :
    t.pathExists P path = s.pathExists P path := by
  unfold Backend.pathExists
  rw [E.stat path _ _ hpath hst.world.2.1]

/-- `Getstat`. -/
theorem getstat (hin : Encloses inside root) (path : Path) :
    InStep E root h₀ s t (Backend.getstat P path) := by
  have hhost : Same (Mirrored E root h₀) (Backend.statOnHost P path s)
      (Backend.statOnHost P path t) := by
    unfold Backend.statOnHost
    rw [hst.resolvePath]
    cases hpath : s.resolvePath P path with
    | none => exact ⟨rfl, hst⟩
    | some resolved =>
      have hinside := hin.below resolved (hst.underRoot_of_resolvePath hpath)
      obtain ⟨⟨hfound, hst'⟩, hown⟩ := hst.getFileByPath resolved
      obtain ⟨found, s', hs⟩ : ∃ found s', s.getFileByPath resolved = (found, s') := ⟨_, _, rfl⟩
      obtain ⟨found', t', ht⟩ : ∃ found t', t.getFileByPath resolved = (found, t') := ⟨_, _, rfl⟩
      simp only [hs, ht] at hfound hst' hown ⊢
      cases hfound
      cases found with
      | none =>
        rw [← E.stat resolved _ _ hinside hst'.world.2.1]
        cases P.os.stat resolved s'.world.host with
        | error err => exact ⟨rfl, hst'⟩
        | ok st => exact ⟨rfl, hst'⟩
      | some f =>
        simp only
        rw [← statObject (hown f rfl) hst'.world.2]
        cases f.obj.stat P s'.world.host with
        | error err => exact ⟨rfl, hst'⟩
        | ok st => exact ⟨rfl, hst'⟩
  have hdevice : t.bdHandle = s.bdHandle ∧ t.sectorSize = s.sectorSize := by
    rw [hst.eq]
    exact ⟨rfl, rfl⟩
  unfold InStep Backend.getstat
  rw [hdevice.1, hdevice.2]
  cases path with
  | cons c path => exact .done hhost
  | nil =>
    cases s.bdHandle with
    | none => exact .done hhost
    | some bd => exact .done ⟨rfl, hst⟩

/-- A call that changes a directory. -/
theorem changeDir {op : Path → η → Option Error × η}
    (hop : ∀ path h k, inside path → E.Agree h k →
      (op path h).1 = (op path k).1 ∧ E.Agree (op path h).2 (op path k).2 ∧
        E.Kept h (op path h).2)
    (hin : Encloses inside root) (path : Path) :
    InStep E root h₀ s t (Backend.changeDir P op path) := by
  have hreadOnly : t.readOnly = s.readOnly := by rw [hst.eq]
  unfold InStep Backend.changeDir
  rw [hst.resolvePath, hreadOnly]
  refine .ite (fun _ => .done ⟨rfl, hst⟩) (fun _ => ?_)
  cases hpath : s.resolvePath P path with
  | none => exact .done ⟨rfl, hst⟩
  | some resolved =>
    have hinside := hin.below resolved (hst.underRoot_of_resolvePath hpath)
    obtain ⟨hr, hagree, hkept⟩ := hop resolved _ _ hinside hst.world.2.1
    exact .done ⟨hr, hst.setHost (hst.world.2.step hagree hkept)⟩

/-- `Mkdir`. -/
theorem mkdir (hin : Encloses inside root) (path : Path) :
    InStep E root h₀ s t (Backend.mkdir P path) := by
  refine hst.changeDir ?_ hin path
  intro path h k hpath hagree
  obtain ⟨hr, hagree', hkept⟩ := E.mkdir path h k hpath hagree
  exact ⟨congrArg (fun err => if err = some Error.exist then none else err) hr, hagree', hkept⟩

/-- `Remove` and `Rmdir`. -/
theorem remove (hin : Encloses inside root) (path : Path) :
    InStep E root h₀ s t (Backend.remove P path) :=
  hst.changeDir E.remove hin path

/-! ### Opening -/

/-- A file that was opened gets a handle. -/
theorem addFile (hostPath : Path) {obj : FileObject φ ρ}
    (hobj : E.OwnObject obj) (readOnly : Bool) :
    Same (Mirrored E root h₀) (s.addFile P hostPath obj readOnly)
      (t.addFile P hostPath obj readOnly) := by
  obtain ⟨hid, hnew⟩ := hst.newObject
  unfold Backend.addFile Backend.newFileHandle
  generalize s.newObject = x at hid hnew ⊢
  generalize t.newObject = y at hid hnew ⊢
  obtain ⟨id, s₁⟩ := x
  obtain ⟨id', t₁⟩ := y
  cases hid
  simp only
  have hf : E.OwnFile ⟨id, hostPath, obj, .zero, readOnly⟩ := hobj
  obtain ⟨hhandle, halloc⟩ := hnew.allocHandle (h := .file ⟨id, hostPath, obj, .zero, readOnly⟩) hf
  rw [← hhandle]
  split_ifs
  · exact ⟨rfl, halloc.setWorld (closeFile hf halloc.world)⟩
  · exact ⟨rfl, halloc⟩

omit hst in
/-- The end of `Open`. -/
theorem finishOpen {stat stat' : η → Except Error FileInfo} {added added' : ℤ × Backend η φ ρ}
    (hstat : ∀ h k, E.Near h₀ h k → stat h = stat' k)
    (hadded : Same (Mirrored E root h₀) added added') :
    Lockstep (Same (Mirrored E root h₀)) (Backend.finishOpen stat added)
      (Backend.finishOpen stat' added') := by
  obtain ⟨hhandle, hst⟩ := hadded
  unfold Backend.finishOpen
  rw [← hhandle, ← hstat _ _ hst.world.2]
  refine .ite (fun _ => .done ⟨rfl, hst⟩) (fun _ => ?_)
  cases stat added.2.world.host with
  | error err => exact .fault _
  | ok st => exact .done ⟨rfl, hst⟩

variable {fullPath : Path}

/-- `Open` of a directory. -/
theorem openDir (hpath : inside fullPath) :
    Lockstep (Same (Mirrored E root h₀)) (s.openDir P fullPath) (t.openDir P fullPath) := by
  unfold Backend.openDir
  rw [← E.readDir fullPath _ _ hpath hst.world.2.1]
  cases hentries : P.os.readDir fullPath s.world.host with
  | error err => exact .done ⟨rfl, hst⟩
  | ok entries =>
    refine finishOpen (fun h k hnear => E.stat fullPath h k hpath hnear.1) ?_
    obtain ⟨hid, hnew⟩ := hst.newObject
    unfold Backend.addDir
    generalize s.newObject = x at hid hnew ⊢
    generalize t.newObject = y at hid hnew ⊢
    obtain ⟨id, s₁⟩ := x
    obtain ⟨id', t₁⟩ := y
    cases hid
    exact hnew.allocHandle (h := .dir ⟨id, fullPath, entries, 0⟩)
      (E.entries fullPath _ entries hpath hentries)

/-- `Open` of a file of the host. -/
theorem openPlain (hpath : inside fullPath) (flag : OpenFlag)
    (present : Bool) :
    Lockstep (Same (Mirrored E root h₀)) (s.openPlain P fullPath flag present)
      (t.openPlain P fullPath flag present) := by
  refine .ite (fun _ => .done ⟨rfl, hst⟩) (fun _ => ?_)
  -- the directories above the file are made first
  obtain ⟨h, hh⟩ : ∃ h, h = if flag &&& oCREATE ≠ 0 then P.os.mkdirAll fullPath.dir s.world.host
      else s.world.host := ⟨_, rfl⟩
  obtain ⟨k, hk⟩ : ∃ k, k = if flag &&& oCREATE ≠ 0 then P.os.mkdirAll fullPath.dir t.world.host
      else t.world.host := ⟨_, rfl⟩
  have hnear : E.Near h₀ h k := by
    rw [hh, hk]
    split_ifs
    · obtain ⟨hagree, hkept⟩ := E.mkdirAll fullPath _ _ hpath hst.world.2.1
      exact hst.world.2.step hagree hkept
    · exact hst.world.2
  simp only [← hh, ← hk]
  obtain ⟨hopen, hown, hagree, hkept⟩ := E.openFile fullPath flag h k hpath hnear.1
  generalize P.os.openFile fullPath flag h = x at hopen hown hagree hkept ⊢
  generalize P.os.openFile fullPath flag k = y at hopen hown hagree hkept ⊢
  obtain ⟨r, h'⟩ := x
  obtain ⟨r', k'⟩ := y
  cases hopen
  have hst' := hst.setHost (hnear.step hagree hkept)
  cases r with
  | error err => exact .done ⟨rfl, hst'⟩
  | ok f =>
    have hobj : E.OwnObject (.osFile fullPath f) := hown f rfl
    exact finishOpen (fun _ _ hnear => statObject hobj hnear) (hst'.addFile fullPath hobj _)

/-- Both find the same image. -/
theorem compressedPath (hin : Encloses inside root)
    (hpath : Backend.underRoot root fullPath = true) :
    t.compressedPath P fullPath = s.compressedPath P fullPath ∧
      ∀ image, s.compressedPath P fullPath = some image → inside image := by
  have hsame : t.enableCompression = s.enableCompression := by rw [hst.eq]
  have hexists := hst.pathExists (hin.below _ hpath)
  unfold Backend.compressedPath
  rw [hsame, hexists]
  by_cases hcond : (s.enableCompression && !s.pathExists P fullPath &&
      decide (fullPath.ext.toLower = Backend.isoExtension)) = true
  · rw [if_pos hcond, if_pos hcond]
    simp only [Bool.and_eq_true, decide_eq_true_eq] at hcond
    have himage := hin.image hpath hcond.2
    simp only [hst.pathExists himage]
    refine ⟨trivial, ?_⟩
    intro image hsome
    split_ifs at hsome
    cases hsome
    exact himage
  · rw [if_neg hcond, if_neg hcond]
    exact ⟨rfl, fun image hnone => by cases hnone⟩

/-- `Open` of a file or an image. -/
theorem openRegular (hin : Encloses inside root)
    (hpath : Backend.underRoot root fullPath = true) (flag : OpenFlag) :
    Lockstep (Same (Mirrored E root h₀)) (s.openRegular P fullPath flag)
      (t.openRegular P fullPath flag) := by
  have hinside := hin.below _ hpath
  have hcache : t.compressionCacheSize = s.compressionCacheSize := by rw [hst.eq]
  obtain ⟨himage, hown⟩ := hst.compressedPath hin hpath
  unfold Backend.openRegular
  simp only
  rw [himage, hst.pathExists hinside, hcache]
  cases hc : s.compressedPath P fullPath with
  | none => exact hst.openPlain hinside flag _
  | some image =>
    obtain ⟨hopen, hreader⟩ := Enclosure.openCompressed (hown image hc) hst.world.2
      s.compressionCacheSize
    simp only
    cases hs : openCompressed P image s.compressionCacheSize s.world.host with
    | error e =>
      rw [hs] at hopen
      rw [hopen.of_error]
      exact .fault e
    | ok opened =>
      obtain ⟨wrapper, h'⟩ := opened
      rw [hs] at hopen
      obtain ⟨⟨wrapper', k'⟩, ht, hwrapper, hnear⟩ := hopen.of_ok
      cases hwrapper
      rw [ht]
      have hst' := hst.setHost hnear
      cases wrapper with
      | none => exact hst'.openPlain hinside flag _
      | some c =>
        have hobj : E.OwnObject (.cachedReader c) := hreader c h' hs
        have hfinish : Lockstep _ (Backend.finishOpen (fun _ => .ok c.info.fileInfo) _)
            (Backend.finishOpen (fun _ => .ok c.info.fileInfo) _) :=
          finishOpen (fun _ _ _ => rfl) (hst'.addFile image hobj true)
        exact hfinish

/-- `Open`. -/
theorem openFile (hin : Encloses inside root) (path : Path)
    (flag : OpenFlag) (isDir : Bool) :
    InStep E root h₀ s t (Backend.openFile P path flag isDir) := by
  have hreadOnly : t.readOnly = s.readOnly := by rw [hst.eq]
  unfold InStep Backend.openFile
  rw [hst.resolvePath]
  cases hpath : s.resolvePath P path with
  | none => exact .done ⟨rfl, hst⟩
  | some fullPath =>
    have hunder := hst.underRoot_of_resolvePath hpath
    simp only [hst.getFileState, hreadOnly]
    refine .ite (fun _ => .done ⟨rfl, hst⟩) fun _ => .ite (fun _ => .done ⟨rfl, hst⟩) fun _ => ?_
    exact .ite (fun _ => hst.openDir (hin.below _ hunder))
      (fun _ => hst.openRegular hin hunder flag)

/-- Time passes. -/
theorem wait (d : ℕ) : Mirrored E root h₀ (s.wait d) (t.wait d) := by
  refine ⟨?_, ⟨?_, hst.world.2⟩, hst.root, hst.own, hst.device⟩
  · simp only [Backend.wait]
    rw [hst.eq]
  · simp only [Backend.wait]
    rw [hst.world.1]

end Methods

/-- Every method returns the same. -/
theorem mirrors (E : Enclosure P inside) (hin : Encloses inside root) (h₀ : η) :
    (Backend.fs P).Mirrors (Backend.fs P) (Mirrored E root h₀) where
  openFile path flag isDir _ _ hst := hst.openFile hin path flag isDir
  close handle _ _ hst := hst.close handle
  read handle size buf _ _ hst := hst.read handle size buf
  writeStart handle _ _ hst := hst.writeStart handle
  writeChunk handle nr size total chunk _ _ hst := hst.writeChunk handle nr size total chunk
  completeWrite handle _ _ hst := hst.completeWrite handle
  lseek handle offset whence _ _ hst := hst.lseek handle offset whence
  dread handle _ _ hst := hst.dread handle
  getstat path _ _ hst := hst.getstat hin path
  mkdir path _ _ hst := hst.mkdir hin path
  remove path _ _ hst := hst.remove hin path
  rmdir path _ _ hst := hst.remove hin path
  bread handle nr count buf _ _ hst := hst.bread handle nr count buf
  bwriteStart handle nr count _ _ hst := hst.bwriteStart handle nr count

/-- On hosts that agree the root is the same. -/
theorem rootOf (E : Enclosure P inside) (hself : inside root) {fsRoot : Path} {h k : η}
    (hagree : E.Agree h k) (hroot : Backend.rootOf P fsRoot h = some root) :
    Backend.rootOf P fsRoot k = some root := by
  rw [← hroot]
  unfold Backend.rootOf at hroot ⊢
  split_ifs at hroot ⊢
  · rfl
  obtain ⟨path, habs, hdir⟩ := Option.bind_eq_some_iff.mp hroot
  obtain rfl : path = root := by
    split at hdir
    · split_ifs at hdir
      exact Option.some.inj hdir
    · cases hdir
  rw [← E.getwd h k hagree, habs]
  simp only [Option.bind_eq_bind, Option.bind_some]
  rw [E.stat path h k hself hagree]

/-- On hosts that agree, `NewBackend` makes backends that differ in their hosts only. -/
theorem newBackend (E : Enclosure P inside) (hin : Encloses inside root) {o : Options}
    (hdevice : o.blockDevice ≠ [] → inside o.blockDevice) {h k : η} (hagree : E.Agree h k)
    (hroot : Backend.rootOf P o.fsRoot h = some root) (now : ℕ) :
    Lockstep (Option.Rel (Mirrored E root h)) (Backend.newBackend P o h now)
      (Backend.newBackend P o k now) := by
  have hnear : E.Near h h k := ⟨hagree, E.kept_refl h⟩
  unfold Backend.newBackend
  rw [rootOf E hin.self hagree hroot, hroot]
  unfold Backend.openBlockDevice
  refine .ite (fun _ => ?_) (fun hne => ?_)
  · refine .done (.some ⟨rfl, ⟨rfl, hnear⟩, rfl, ?_, ?_⟩)
    · intro i h hi
      cases hi
    · intro bd hbd
      cases hbd
  · obtain ⟨hopen, hown, hagree', hkept⟩ := E.openFile o.blockDevice
      (if o.readOnly then Udpfs.oRDONLY else Udpfs.oRDWR) h k (hdevice hne) hagree
    obtain ⟨r, h', hs⟩ : ∃ r h', P.os.openFile o.blockDevice
        (if o.readOnly then Udpfs.oRDONLY else Udpfs.oRDWR) h = (r, h') := ⟨_, _, rfl⟩
    obtain ⟨r', k', ht⟩ : ∃ r k', P.os.openFile o.blockDevice
        (if o.readOnly then Udpfs.oRDONLY else Udpfs.oRDWR) k = (r, k') := ⟨_, _, rfl⟩
    simp only [hs, ht] at hopen hown hagree' hkept ⊢
    cases hopen
    have hnear' : E.Near h h' k' := hnear.step hagree' hkept
    cases r with
    | error err => exact .done .none
    | ok f =>
      have hobj : E.OwnObject (.osFile o.blockDevice f) := hown f rfl
      have hstat := statObject hobj hnear'
      simp only [hstat]
      cases FileObject.stat P k' (.osFile o.blockDevice f) with
      | error err => exact .fault _
      | ok info =>
        refine .done (.some ⟨rfl, ⟨rfl, hnear'⟩, rfl, ?_, ?_⟩)
        · intro i h hi
          cases hi
        · intro bd hbd
          cases hbd
          exact hobj

end Mirrored

end Udpfsd.Fs
