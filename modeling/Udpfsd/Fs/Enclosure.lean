import Udpfsd.Base.Transition
import Udpfsd.Fs.Fileops
import Udpfsd.Udpfs.Lockstep

/-!
# What is inside

Some paths are inside: the root with all that is below it, and the block device. Two hosts
agree when they have the same inside. A call of package `os` with a path inside, or of a file
that was opened there, returns the same on hosts that agree, leaves hosts that agree, and
keeps what is outside. These are the laws of an `Enclosed` host. Package `os` follows symbolic
links and the server looks at the letters of a path only, so the laws say in particular that no
link leads out of the inside. An `Enclosure` adds the same for the decoders of images. The methods
of file objects and of handles are in lockstep on hosts that agree.
-/

namespace Udpfsd.Fs

open Udprdma (Byte)
open Udpfs (Error Fault FileInfo OpenFlag)
open Lockstep (Same)

variable {η φ ρ α : Type}

/-- The same owned object beside related hosts. -/
def Owned (Own : α → Prop) (Near : η → η → Prop) (x y : α × η) : Prop :=
  x.1 = y.1 ∧ Own x.1 ∧ Near x.2 y.2

/-- A host with an inside and an outside, and no symbolic link that leads out of the inside. -/
structure Enclosed (os : OS η φ) (inside : Path → Prop) where
  /-- The hosts have the same inside. -/
  Agree : η → η → Prop
  /-- The outside is kept. -/
  Kept : η → η → Prop
  /-- Nothing need be done. -/
  kept_refl : ∀ h, Kept h h
  /-- Calls may follow each other. -/
  kept_trans : ∀ h h' h'', Kept h h' → Kept h' h'' → Kept h h''
  /-- The file was opened inside. -/
  Own : φ → Prop
  /-- `os.Getwd`. -/
  getwd : ∀ h k, Agree h k → os.getwd h = os.getwd k
  /-- `os.Stat`. -/
  stat : ∀ path h k, inside path → Agree h k → os.stat path h = os.stat path k
  /-- `DirEntry.Info`. -/
  lstat : ∀ path h k, inside path → Agree h k → os.lstat path h = os.lstat path k
  /-- `os.ReadDir`. -/
  readDir : ∀ path h k, inside path → Agree h k → os.readDir path h = os.readDir path k
  /-- The entries of a directory inside are inside. -/
  entries : ∀ path h names, inside path → os.readDir path h = .ok names →
    ∀ name ∈ names, inside (path.join name)
  /-- `os.OpenFile`. -/
  openFile : ∀ path flag h k, inside path → Agree h k →
    (os.openFile path flag h).1 = (os.openFile path flag k).1 ∧
    (∀ f, (os.openFile path flag h).1 = .ok f → Own f) ∧
    Agree (os.openFile path flag h).2 (os.openFile path flag k).2 ∧
    Kept h (os.openFile path flag h).2
  /-- `os.MkdirAll` of the directories above a path inside. -/
  mkdirAll : ∀ path h k, inside path → Agree h k →
    Agree (os.mkdirAll path.dir h) (os.mkdirAll path.dir k) ∧ Kept h (os.mkdirAll path.dir h)
  /-- `os.Mkdir`. -/
  mkdir : ∀ path h k, inside path → Agree h k →
    (os.mkdir path h).1 = (os.mkdir path k).1 ∧ Agree (os.mkdir path h).2 (os.mkdir path k).2 ∧
    Kept h (os.mkdir path h).2
  /-- `os.Remove`. -/
  remove : ∀ path h k, inside path → Agree h k →
    (os.remove path h).1 = (os.remove path k).1 ∧
    Agree (os.remove path h).2 (os.remove path k).2 ∧ Kept h (os.remove path h).2
  /-- `File.Read`. -/
  read : ∀ f n h k, Own f → Agree h k →
    Same (Owned Own Agree) (os.read f n h) (os.read f n k) ∧ Kept h (os.read f n h).2.2
  /-- `File.Write`. -/
  write : ∀ f data h k, Own f → Agree h k →
    Same (Owned Own Agree) (os.write f data h) (os.write f data k) ∧
    Kept h (os.write f data h).2.2
  /-- `File.Seek`. -/
  seek : ∀ f offset whence h k, Own f → Agree h k →
    Same (Owned Own Agree) (os.seek f offset whence h) (os.seek f offset whence k) ∧
    Kept h (os.seek f offset whence h).2.2
  /-- `File.Stat`. -/
  fstat : ∀ f h k, Own f → Agree h k → os.fstat f h = os.fstat f k
  /-- `File.Close`. -/
  close : ∀ f h k, Own f → Agree h k → Agree (os.close f h) (os.close f k) ∧ Kept h (os.close f h)

namespace Enclosed

variable {os : OS η φ} {inside : Path → Prop} (E : Enclosed os inside)

/-- The hosts agree, and the outside of the first is that of another host. -/
def Near (h₀ h k : η) : Prop := E.Agree h k ∧ E.Kept h₀ h

variable {E} {h₀ h k h' k' : η}

/-- Both take a step. -/
theorem Near.step (hnear : E.Near h₀ h k) (hagree : E.Agree h' k') (hkept : E.Kept h h') :
    E.Near h₀ h' k' :=
  ⟨hagree, E.kept_trans _ _ _ hnear.2 hkept⟩

end Enclosed

/-- The files of images, too, are opened inside only. -/
structure Enclosure (P : Platform η φ ρ) (inside : Path → Prop) extends Enclosed P.os inside where
  /-- The file of the image was opened inside. -/
  OwnImage : ρ → Prop
  /-- `Open`. -/
  openImage : ∀ format ∈ [P.zso, P.cso, P.chd], ∀ path h₀ h k, inside path →
    toEnclosed.Near h₀ h k →
    Lockstep (Same (toEnclosed.Near h₀)) (format.openImage path h) (format.openImage path k) ∧
    ∀ r h', format.openImage path h = .ok (.ok r, h') → OwnImage r
  /-- `GetStat`. -/
  getStat : ∀ format ∈ [P.zso, P.cso, P.chd], ∀ path h k, inside path → Agree h k →
    format.getStat path h = format.getStat path k
  /-- `ReadBlock`. -/
  readBlock : ∀ r idx h₀ h k, OwnImage r → toEnclosed.Near h₀ h k →
    Lockstep (Same (Owned OwnImage (toEnclosed.Near h₀))) (P.reader.readBlock r idx h)
      (P.reader.readBlock r idx k)
  /-- `Close`. -/
  closeImage : ∀ r h₀ h k, OwnImage r → toEnclosed.Near h₀ h k →
    toEnclosed.Near h₀ (P.reader.close r h) (P.reader.close r k)

/-! ### File objects -/

namespace Enclosure

variable {P : Platform η φ ρ} {inside : Path → Prop} (E : Enclosure P inside)

/-- The file object was opened inside. -/
def OwnObject : FileObject φ ρ → Prop
  | .osFile _ f => E.Own f
  | .cachedReader c => E.OwnImage c.br

variable {E} {h₀ h k : η} {c : CachedReader ρ} {obj : FileObject φ ρ}

section Cached

variable (hc : E.OwnImage c.br) (hnear : E.Near h₀ h k)
include hc hnear

/-- A block from the cache or the decoder. -/
theorem getBlock (idx : ℤ) :
    Lockstep (Same (Owned (fun c => E.OwnImage c.br) (E.Near h₀))) (c.getBlock P.reader idx h)
      (c.getBlock P.reader idx k) := by
  unfold CachedReader.getBlock
  rcases c.cache.get idx with ⟨found, cache⟩
  cases found with
  | some b => exact .done ⟨rfl, rfl, hc, hnear⟩
  | none =>
    refine (E.readBlock c.br idx h₀ h k hc hnear).bind ?_
    rintro ⟨r, br, h'⟩ ⟨r', br', k'⟩ ⟨hr, hbr, hown, hnear'⟩
    cases hr
    cases hbr
    cases r with
    | error err => exact .done ⟨rfl, rfl, hown, hnear'⟩
    | ok b => exact .done ⟨rfl, rfl, hown, hnear'⟩

/-- A part of a block is copied. -/
theorem copyPart (idx offset toRead : ℤ) :
    Lockstep (Same (Owned (fun c => E.OwnImage c.br) (E.Near h₀)))
      (c.copyPart P.reader idx offset toRead h) (c.copyPart P.reader idx offset toRead k) := by
  refine (getBlock hc hnear idx).bind ?_
  rintro ⟨r, c', h'⟩ ⟨r', c'', k'⟩ ⟨hr, hc', hown, hnear'⟩
  cases hr
  cases hc'
  cases r with
  | error err => exact .done ⟨rfl, rfl, hown, hnear'⟩
  | ok b => exact .ite (fun _ => .fault _) (fun _ => .done ⟨rfl, rfl, hown, hnear'⟩)

/-- A round of the loop of `Read`. -/
theorem readRound (n : ℕ) :
    Lockstep (Same (Owned (fun c => E.OwnImage c.br) (E.Near h₀))) (c.readRound P.reader n h)
      (c.readRound P.reader n k) :=
  .ite (fun _ => .done ⟨rfl, rfl, hc, hnear⟩) fun _ => .ite (fun _ => .fault _) fun _ =>
    .ite (fun _ => .done ⟨rfl, rfl, hc, hnear⟩) fun _ => copyPart hc hnear _ _ _

end Cached

/-- The loop of `Read`. -/
theorem readLoop (fuel : ℕ) (hc : E.OwnImage c.br) (hnear : E.Near h₀ h k) (n : ℕ)
    (read : List Byte) :
    Lockstep (Same (Owned (fun c => E.OwnImage c.br) (E.Near h₀)))
      (CachedReader.readLoop P.reader fuel c n read h)
      (CachedReader.readLoop P.reader fuel c n read k) := by
  induction fuel generalizing c n read h k with
  | zero => exact .done ⟨rfl, rfl, hc, hnear⟩
  | succ fuel ih =>
    refine (readRound hc hnear n).bind ?_
    rintro ⟨r, c', h'⟩ ⟨r', c'', k'⟩ ⟨hr, hc', hown, hnear'⟩
    cases hr
    cases hc'
    cases r with
    | none => exact .done ⟨rfl, rfl, hown, hnear'⟩
    | some part =>
      cases part with
      | error err => exact .done ⟨rfl, rfl, hown, hnear'⟩
      | ok part => exact ih hown hnear' _ _

/-- `Read` of an image. -/
theorem readImage (hc : E.OwnImage c.br) (hnear : E.Near h₀ h k) (n : ℕ) :
    Lockstep (Same (Owned (fun c => E.OwnImage c.br) (E.Near h₀))) (c.read P.reader n h)
      (c.read P.reader n k) :=
  .ite (fun _ => .done ⟨rfl, rfl, hc, hnear⟩) fun _ => readLoop _ hc hnear _ _

section Objects

variable (hobj : E.OwnObject obj) (hnear : E.Near h₀ h k)
include hobj hnear

/-- `Read`. -/
theorem readObject (n : ℕ) :
    Lockstep (Same (Owned E.OwnObject (E.Near h₀))) (obj.read P n h) (obj.read P n k) := by
  cases obj with
  | osFile name f =>
    obtain ⟨⟨hr, hf, hown, hagree⟩, hkept⟩ := E.read f n h k hobj hnear.1
    refine .done ⟨?_, congrArg (FileObject.osFile name) hf, hown, hnear.step hagree hkept⟩
    exact congrArg (fun r : List Byte × Option Error => (r.1.take n, r.2)) hr
  | cachedReader c =>
    refine (readImage hobj hnear n).bind ?_
    rintro ⟨⟨bytes, err⟩, c', h'⟩ ⟨r', c'', k'⟩ ⟨hr, hc', hown, hnear'⟩
    cases hr
    cases hc'
    exact .done ⟨rfl, rfl, hown, hnear'⟩

/-- `Write`. -/
theorem writeObject (data : List Byte) :
    Same (Owned E.OwnObject (E.Near h₀)) (obj.write P data h) (obj.write P data k) := by
  cases obj with
  | osFile name f =>
    obtain ⟨⟨hr, hf, hown, hagree⟩, hkept⟩ := E.write f data h k hobj hnear.1
    exact ⟨hr, congrArg (FileObject.osFile name) hf, hown, hnear.step hagree hkept⟩
  | cachedReader c => exact ⟨rfl, rfl, hobj, hnear⟩

/-- `Seek`. -/
theorem seekObject (offset whence : ℤ) :
    Same (Owned E.OwnObject (E.Near h₀)) (obj.seek P offset whence h)
      (obj.seek P offset whence k) := by
  cases obj with
  | osFile name f =>
    obtain ⟨⟨hr, hf, hown, hagree⟩, hkept⟩ := E.seek f offset whence h k hobj hnear.1
    exact ⟨hr, congrArg (FileObject.osFile name) hf, hown, hnear.step hagree hkept⟩
  | cachedReader c =>
    refine ⟨rfl, rfl, ?_, hnear⟩
    change E.OwnImage (c.seek offset whence).2.br
    unfold CachedReader.seek
    simp only
    split_ifs <;> exact hobj

/-- `Stat`. -/
theorem statObject : obj.stat P h = obj.stat P k := by
  cases obj with
  | osFile name f => exact E.fstat f h k hobj hnear.1
  | cachedReader c => rfl

/-- `Close`. -/
theorem closeObject : E.Near h₀ (obj.close P h) (obj.close P k) := by
  cases obj with
  | osFile name f =>
    obtain ⟨hagree, hkept⟩ := E.close f h k hobj hnear.1
    exact hnear.step hagree hkept
  | cachedReader c => exact E.closeImage c.br h₀ h k hobj hnear

end Objects

/-- An image inside is opened from both hosts alike. -/
theorem openCompressed {path : Path} (hpath : inside path) (hnear : E.Near h₀ h k) (size : ℤ) :
    Lockstep (Same (E.Near h₀)) (openCompressed P path size h) (openCompressed P path size k) ∧
      ∀ c h', openCompressed P path size h = .ok (some c, h') → E.OwnImage c.br := by
  have hreader : Lockstep (Same (E.Near h₀)) (openReader P path h) (openReader P path k) ∧
      ∀ r h', openReader P path h = .ok (.ok r, h') → E.OwnImage r := by
    unfold openReader
    simp only
    split_ifs
    · exact E.openImage P.zso (by simp) path h₀ h k hpath hnear
    · exact E.openImage P.cso (by simp) path h₀ h k hpath hnear
    · exact E.openImage P.chd (by simp) path h₀ h k hpath hnear
    · exact ⟨.done ⟨rfl, hnear⟩, fun r h' heq => by cases heq⟩
  constructor
  · refine hreader.1.bind_same ?_
    intro r h' k' hnear'
    cases r with
    | error err => exact .done ⟨rfl, hnear'⟩
    | ok r => exact .done ⟨rfl, hnear'⟩
  · intro c h' hok
    obtain ⟨⟨r, h₁⟩, hopen, hok⟩ := Fallible.bind_eq_ok.mp hok
    cases r with
    | error err => cases hok
    | ok r =>
      cases hok
      exact hreader.2 r _ hopen

/-- The size of an image. -/
theorem getCompressedStat {path : Path} (hpath : inside path) (hnear : E.Near h₀ h k) :
    getCompressedStat P path h = getCompressedStat P path k := by
  unfold Fs.getCompressedStat
  simp only
  split_ifs
  · exact E.getStat P.zso (by simp) path h k hpath hnear.1
  · exact E.getStat P.cso (by simp) path h k hpath hnear.1
  · exact E.getStat P.chd (by simp) path h k hpath hnear.1
  · rfl

end Enclosure

end Udpfsd.Fs
