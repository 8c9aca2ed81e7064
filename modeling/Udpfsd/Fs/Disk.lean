import Udpfsd.Base.Transition
import Udpfsd.Fs.Fileops
import Udpfsd.Fs.OpenFiles

/-!
# Block writes to the device

A block write is what one client means to store: its chunks in order, cut off at the
sectors it asked for, from its sector on. The backend collects the chunks in the write
state of the device's file handle and stores them with a seek and a write. What the
device holds is a matter of the host; a `Disk` says what is needed of it. A write that fails may
have stored a part of its data.
-/

namespace Udpfsd.Fs

open Udprdma (Byte)
open Udpfs (Error Fault blockDeviceHandle oRDONLY oRDWR)

variable {η φ ρ : Type}

/-- A block write. -/
structure Write where
  /-- The first sector. -/
  sectorNr : ℤ
  /-- The number of sectors. -/
  sectorCount : BitVec 16
  /-- The chunks so far. -/
  chunks : List (List Byte)
  deriving DecidableEq

namespace Write

/-- The write with one chunk more. -/
def add (w : Write) (chunk : List Byte) : Write := { w with chunks := w.chunks ++ [chunk] }

/-- What the write is to store. -/
def data (sectorSize : ℤ) (w : Write) : List Byte :=
  w.chunks.flatten.take (w.sectorCount.toNat * sectorSize).toNat

/-- The content of the device after the write. -/
def store (sectorSize : ℤ) (content : List Byte) (w : Write) : List Byte :=
  overwrite content (w.sectorNr * sectorSize).toNat (w.data sectorSize)

/-- The position and the length of the write are 64-bit numbers. -/
def Fits (sectorSize : ℤ) (w : Write) : Prop :=
  int64 (w.sectorNr * sectorSize) = w.sectorNr * sectorSize ∧
    int64 (w.sectorCount.toNat * sectorSize) = w.sectorCount.toNat * sectorSize

instance (sectorSize : ℤ) (w : Write) : Decidable (w.Fits sectorSize) := by
  unfold Fits
  infer_instance

end Write

/-- Files that a block device can be: what is opened in one of its modes is not opened for
appending, and it stays open. -/
structure Disk (P : Platform η φ ρ) extends WritableFiles P where
  /-- The modes of the block device. -/
  openFile : ∀ path flag h f h', flag = oRDONLY ∨ flag = oRDWR →
    P.os.openFile path flag h = (.ok f, h') → Live f h' ∧ appends f = false
  /-- A file stays open when it is written. -/
  write_live : ∀ f data h, Live f h →
    Live (P.os.write f data h).2.1 (P.os.write f data h).2.2 ∧
    appends (P.os.write f data h).2.1 = appends f

/-- The chunks of a block write have been collected in a file's write state. -/
structure FileHandle.Collects (f : FileHandle φ ρ) (w : Write) : Prop where
  /-- The chunks. -/
  buffer : f.wr.dataBuffer = w.chunks.flatten
  /-- The first sector. -/
  sectorNumber : f.wr.sectorNumber = w.sectorNr
  /-- The number of sectors. -/
  sectorCount : f.wr.sectorCount = w.sectorCount
  /-- The number of chunks. -/
  receivedChunks : f.wr.receivedChunks = BitVec.ofNat 16 w.chunks.length
  /-- It is a block write. -/
  blockWrite : f.wr.blockWrite = true

namespace Disk

variable {P : Platform η φ ρ} (D : Disk P)

/-- The content behind a file object. -/
def objectContent (h : η) : FileObject φ ρ → List Byte
  | .osFile _ f => D.content f h
  | .cachedReader _ => []

/-- The file object is an open file that is written at its position. -/
def Regular (h : η) : FileObject φ ρ → Prop
  | .osFile _ f => D.Live f h ∧ D.appends f = false
  | .cachedReader _ => False

variable {D} {obj : FileObject φ ρ} {h : η}

/-- A seek keeps the content, whether it succeeds or not. -/
theorem Regular.seek (hobj : D.Regular h obj) (offset : ℤ) :
    D.Regular (obj.seek P offset 0 h).2.2 (obj.seek P offset 0 h).2.1 ∧
    D.objectContent (obj.seek P offset 0 h).2.2 (obj.seek P offset 0 h).2.1 =
      D.objectContent h obj := by
  cases obj with
  | osFile name f =>
    obtain ⟨hlive, hcontent, happends, -⟩ := D.seek f offset h hobj.1
    exact ⟨⟨hlive, happends.trans hobj.2⟩, hcontent⟩
  | cachedReader c => cases hobj

/-- A seek and a write store data at the offset: all of it, unless the write fails. -/
theorem Regular.seek_write (hobj : D.Regular h obj) {offset : ℤ}
    (hseek : (obj.seek P offset 0 h).1.2 = none) (data : List Byte) :
    let moved := (obj.seek P offset 0 h).2
    let written := moved.1.write P data moved.2
    D.Regular written.2.2 written.2.1 ∧ (written.1.2 = none →
      D.objectContent written.2.2 written.2.1 =
        overwrite (D.objectContent h obj) offset.toNat data) := by
  cases obj with
  | osFile name f =>
    obtain ⟨hlive, hcontent, happends, -⟩ := D.seek f offset h hobj.1
    obtain ⟨hlive', happends'⟩ := D.write_live _ data _ hlive
    refine ⟨⟨hlive', happends'.trans (happends.trans hobj.2)⟩, fun hok => ?_⟩
    refine (D.write_ok hlive hok).trans ?_
    rw [hcontent, D.target_seek hobj.1 hseek, hobj.2]
    rfl
  | cachedReader c => cases hobj

end Disk

namespace Backend

/-- The file handle of the block device. -/
def device (s : Backend η φ ρ) : Option (FileHandle φ ρ) := s.bdHandle.map BlockDevice.file

variable {P : Platform η φ ρ} {s t : Backend η φ ρ}

/-- A method on the block device. -/
theorem withFile_device {α : Type} {missing a : α}
    {body : FileHandle φ ρ → World η → Except Fault (α × FileHandle φ ρ × World η)}
    (hok : s.withFile blockDeviceHandle missing body = .ok (a, t)) :
    t.sectorSize = s.sectorSize ∧
      ((s.device = none ∧ a = missing ∧ t = s) ∨
        ∃ f f', s.device = some f ∧ body f s.world = .ok (a, f', t.world) ∧
          t.device = some f') := by
  obtain ⟨⟨found, s'⟩, hget, hok⟩ := Fallible.bind_eq_ok.mp hok
  cases hget
  cases hbd : s.bdHandle with
  | none =>
    simp only [hbd, Option.map_none] at hok
    cases hok
    exact ⟨rfl, Or.inl ⟨by simp [device, hbd], rfl, rfl⟩⟩
  | some bd =>
    simp only [hbd, Option.map_some] at hok
    obtain ⟨⟨a', f', w⟩, hbody, hok⟩ := Fallible.bind_eq_ok.mp hok
    cases hok
    exact ⟨rfl, Or.inr ⟨bd.file, f', by simp [device, hbd], hbody,
      by simp [device, putFile, hbd]⟩⟩

end Backend

section Device

variable {P : Platform η φ ρ} (D : Disk P) {s t : Backend η φ ρ} {sectorSize : ℤ}
  {content : List Byte} {w : Write}

/-- What the block device holds. -/
def Disk.deviceContent (s : Backend η φ ρ) : List Byte :=
  match s.device with
  | none => []
  | some f => D.objectContent s.world.host f.obj

/-- The block device has sectors of this size and this content. -/
structure Disk.Holds (s : Backend η φ ρ) (sectorSize : ℤ) (content : List Byte) : Prop where
  /-- The sector size. -/
  sectorSize : s.sectorSize = sectorSize
  /-- The device is a regular file. -/
  regular : ∀ f, s.device = some f → D.Regular s.world.host f.obj
  /-- The content. -/
  content : D.deviceContent s = content

/-- The device collects the chunks of a block write. -/
def Backend.Collecting (s : Backend η φ ρ) (w : Write) : Prop :=
  ∃ f, s.device = some f ∧ f.Collects w

variable {D}

/-- A method that leaves the device's object and the host alone. -/
theorem Disk.Holds.of_obj {f f' : FileHandle φ ρ} (hs : D.Holds s sectorSize content)
    (hsize : t.sectorSize = s.sectorSize) (hf : s.device = some f) (hf' : t.device = some f')
    (hobj : f'.obj = f.obj) (hworld : t.world = s.world) : D.Holds t sectorSize content := by
  refine ⟨hsize.trans hs.sectorSize, ?_, ?_⟩
  · intro g hg
    cases hf'.symm.trans hg
    rw [hobj, hworld]
    exact hs.regular f hf
  · rw [← hs.content]
    simp [Disk.deviceContent, hf, hf', hobj, hworld]

theorem bwriteStart_device {sectorNr : ℤ} {sectorCount : BitVec 16} {err : Option Error}
    (hs : D.Holds s sectorSize content)
    (hok : Backend.bwriteStart blockDeviceHandle sectorNr sectorCount s = .ok (err, t)) :
    D.Holds t sectorSize content ∧ (err = none → t.Collecting ⟨sectorNr, sectorCount, []⟩) := by
  obtain ⟨hsize, ⟨-, rfl, rfl⟩ | ⟨f, f', hf, hbody, hf'⟩⟩ := Backend.withFile_device hok
  · exact ⟨hs, by simp⟩
  split_ifs at hbody
  · simp only [Except.ok.injEq, Prod.mk.injEq] at hbody
    obtain ⟨rfl, rfl, hworld⟩ := hbody
    exact ⟨hs.of_obj hsize hf hf' rfl hworld.symm, by simp⟩
  · simp only [Except.ok.injEq, Prod.mk.injEq] at hbody
    obtain ⟨rfl, rfl, hworld⟩ := hbody
    exact ⟨hs.of_obj hsize hf hf' rfl hworld.symm, fun _ => ⟨_, hf', rfl, rfl, rfl, rfl, rfl⟩⟩

/-- A chunk in turn is added to the write. -/
theorem writeChunk_device {chunkNr totalChunks : BitVec 16} (chunkSize : BitVec 16)
    {chunk : List Byte} {r : Bool × Option Error} (hs : D.Holds s sectorSize content)
    (hw : s.Collecting w) (hturn : chunkNr = BitVec.ofNat 16 w.chunks.length)
    (hok : Backend.writeChunk blockDeviceHandle chunkNr chunkSize totalChunks chunk s =
      .ok (r, t)) :
    r.2 = none ∧ D.Holds t sectorSize content ∧ t.Collecting (w.add chunk) := by
  obtain ⟨g, hg, hcollects⟩ := hw
  obtain ⟨hsize, ⟨hnone, -, -⟩ | ⟨f, f', hf, hbody, hf'⟩⟩ := Backend.withFile_device hok
  · cases hnone.symm.trans hg
  cases hf.symm.trans hg
  rw [if_neg (by rw [hturn, hcollects.receivedChunks]; exact not_not.mpr rfl)] at hbody
  simp only [Except.ok.injEq, Prod.mk.injEq] at hbody
  obtain ⟨rfl, rfl, hworld⟩ := hbody
  refine ⟨rfl, hs.of_obj hsize hf hf' rfl hworld.symm, _, hf', ?_, hcollects.sectorNumber,
    hcollects.sectorCount, ?_, hcollects.blockWrite⟩
  · simp [Write.add, hcollects.buffer]
  · simp [Write.add, hcollects.receivedChunks, BitVec.ofNat_add]

/-- The data that `CompleteWrite` cuts off is what the write is to store. -/
theorem data_eq {f : FileHandle φ ρ} (hcollects : f.Collects w) (hfits : w.Fits sectorSize)
    (hsize : ¬ int64 (f.wr.sectorCount.toNat * sectorSize) < 0) :
    (if int64 (f.wr.sectorCount.toNat * sectorSize) < f.wr.dataBuffer.length then
      f.wr.dataBuffer.take (int64 (f.wr.sectorCount.toNat * sectorSize)).toNat
      else f.wr.dataBuffer) = w.data sectorSize := by
  rw [hcollects.sectorCount, hfits.2] at hsize ⊢
  rw [hcollects.buffer, Write.data]
  split_ifs with hlong
  · rfl
  · rw [List.take_of_length_le]
    omega

/-- A completed write has stored its data, unless it failed. -/
theorem completeWrite_device {r : ℤ × Option Error} (hs : D.Holds s sectorSize content)
    (hw : s.Collecting w) (hfits : w.Fits sectorSize)
    (hok : Backend.completeWrite P blockDeviceHandle s = .ok (r, t)) :
    r.1 = 0 ∧ ∃ content', D.Holds t sectorSize content' ∧
      (r.2 = none → content' = w.store sectorSize content) := by
  obtain ⟨f, hf, hcollects⟩ := hw
  obtain ⟨hsize, ⟨hnone, -, -⟩ | ⟨g, f', hg, hbody, hf'⟩⟩ := Backend.withFile_device hok
  · cases hnone.symm.trans hf
  cases hg.symm.trans hf
  have hsector : s.sectorSizeOf blockDeviceHandle = sectorSize := by
    simp [Backend.sectorSizeOf, hs.sectorSize]
  have hregular := hs.regular f hf
  have hcontent : D.objectContent s.world.host f.obj = content := by
    rw [← hs.content, Disk.deviceContent, hf]
  have hholds (hregular' : D.Regular t.world.host f'.obj) :
      D.Holds t sectorSize (D.objectContent t.world.host f'.obj) := by
    refine ⟨hsize.trans hs.sectorSize, ?_, by rw [Disk.deviceContent, hf']⟩
    intro x hx
    cases hf'.symm.trans hx
    exact hregular'
  rw [hsector, Backend.completeBody] at hbody
  simp only [hcollects.blockWrite, if_true] at hbody
  by_cases hneg : int64 (f.wr.sectorCount.toNat * sectorSize) < 0
  · rw [if_pos hneg] at hbody
    cases hbody
  rw [if_neg hneg, data_eq hcollects hfits hneg, hcollects.sectorNumber, hfits.1] at hbody
  cases herr : (f.obj.seek P (w.sectorNr * sectorSize) 0 s.world.host).1.2 with
  | some err =>
    obtain ⟨hmoved, -⟩ := hregular.seek (w.sectorNr * sectorSize)
    rw [show (f.seek P (w.sectorNr * sectorSize) 0 s.world).1.2 = some err from herr] at hbody
    simp only [Except.ok.injEq, Prod.mk.injEq] at hbody
    obtain ⟨rfl, rfl, hworld⟩ := hbody
    rw [← hworld] at hholds
    exact ⟨rfl, _, hholds hmoved, fun h => by cases h⟩
  | none =>
    obtain ⟨hwritten, hstored⟩ := hregular.seek_write herr (w.data sectorSize)
    rw [hcontent] at hstored
    rw [show (f.seek P (w.sectorNr * sectorSize) 0 s.world).1.2 = none from herr] at hbody
    simp only [Except.ok.injEq, Prod.mk.injEq] at hbody
    obtain ⟨rfl, rfl, hworld⟩ := hbody
    rw [← hworld] at hholds
    exact ⟨rfl, _, hholds hwritten, hstored⟩

/-- The block device of a new backend is a regular file. -/
theorem holds_newBackend (D : Disk P) {o : Options} {host : η} {now : ℕ}
    (h : Backend.newBackend P o host now = .ok (some s)) :
    D.Holds s s.sectorSize (D.deviceContent s) := by
  refine ⟨rfl, ?_, rfl⟩
  intro f hf
  unfold Backend.newBackend at h
  split at h
  · cases h
  unfold Backend.openBlockDevice at h
  split at h
  · cases h
    cases hf
  simp only at h
  split at h
  · cases h
  rename_i x hopen
  split at h <;> cases h
  cases hf
  refine D.openFile _ _ _ x _ ?_ (Prod.ext hopen rfl)
  split_ifs <;> simp

end Device

end Udpfsd.Fs
