import Udpfsd.Base.Transition
import Udpfsd.Fs.Fileops

/-!
# What the methods do to the handle table

Of a handle in the table only its tag matters here: which object it is, what that
object was opened on and how. A method on a handle calls methods of that handle's
object and changes no tag; `Close` empties a slot; a successful `Open` fills one with a
new object, closing what was evicted from it. These three kinds of step are operations
on a `Table` of tags, and each method of `Backend` is one of them.
-/

namespace Udpfsd.Fs

open Udprdma (Byte)
open Udpfs (Error Fault OpenFlag blockDeviceHandle emfile)

/-- What stays the same about a file handle as long as it is in the table. -/
structure FileTag where
  /-- The number of the object. -/
  id : ℕ
  /-- Its `Name()`. -/
  name : Path
  /-- The path that was opened on the host. -/
  hostPath : Path
  /-- Whether it may not be written through. -/
  readOnly : Bool
  /-- Whether it is a decompressed image. -/
  decompressed : Bool
  deriving DecidableEq

/-- What stays the same about a handle as long as it is in the table. -/
inductive Tag
  /-- A file. -/
  | file (f : FileTag)
  /-- A directory, with its object's number. -/
  | dir (id : ℕ)
  deriving DecidableEq

/-- The number of the object. -/
def Tag.id : Tag → ℕ
  | file f => f.id
  | dir id => id

/-- The handle table, reduced to tags, with the calls of the objects' methods. -/
structure Table where
  /-- The slots. -/
  slots : Fin maxHandles → Option Tag
  /-- The object of the block device. -/
  device : Option ℕ
  /-- The number of objects made so far. -/
  objects : ℕ
  /-- The calls so far. -/
  accesses : List Access

namespace Table

/-- The object that a handle names. -/
def objectAt (T : Table) (handle : ℤ) : Option ℕ :=
  if handle = blockDeviceHandle then T.device
  else
    match slotOf handle with
    | .ok i => (T.slots i).map Tag.id
    | .error _ => none

/-- The calls made when a slot is emptied. -/
def closing : Option Tag → List Access
  | none => []
  | some tag => [⟨tag.id, .close⟩]

/-- A slot is emptied. -/
def free (T : Table) (i : Fin maxHandles) : Table :=
  { T with
    slots := Function.update T.slots i none
    accesses := T.accesses ++ closing (T.slots i) }

/-- A new object is put into a slot, and what was there is closed. -/
def put (T : Table) (i : Fin maxHandles) (tag : Tag) : Table :=
  { T with
    slots := Function.update T.slots i (some tag)
    objects := T.objects + 1
    accesses := T.accesses ++ closing (T.slots i) }

/-- Nothing happens but calls of methods of objects in `own`. -/
structure Uses (own : ℕ → Prop) (T T' : Table) : Prop where
  /-- The slots are as they were. -/
  slots : T'.slots = T.slots
  /-- The block device is as it was. -/
  device : T'.device = T.device
  /-- No object is made. -/
  objects : T'.objects = T.objects
  /-- The new calls are of methods of these objects, and none of them is `Close`. -/
  calls : ∃ new, T'.accesses = T.accesses ++ new ∧ ∀ a ∈ new, own a.object ∧ a.method ≠ .close

/-- Nothing is put into the table; an object that was made is given up again. -/
structure Rejects (T T' : Table) : Prop where
  /-- The slots are as they were. -/
  slots : T'.slots = T.slots
  /-- The block device is as it was. -/
  device : T'.device = T.device
  /-- Objects are only added. -/
  objects : T.objects ≤ T'.objects
  /-- The only new call is the `Close` of the object that was made. -/
  calls : ∃ new, T'.accesses = T.accesses ++ new ∧
    (new = [] ∨ new = [⟨T.objects, .close⟩] ∧ T.objects < T'.objects)

variable {own own' : ℕ → Prop} {T T' T'' : Table}

/-- Nothing is done. -/
theorem Rejects.refl (T : Table) : Rejects T T := ⟨rfl, rfl, Nat.le_refl _, [], by simp⟩

/-- The new calls are of methods of new objects. -/
theorem Rejects.accesses (h : Rejects T T') :
    ∃ new, T'.accesses = T.accesses ++ new ∧ ∀ a ∈ new, T.objects ≤ a.object := by
  obtain ⟨new, hnew, rfl | ⟨rfl, -⟩⟩ := h.calls
  · exact ⟨[], hnew, by simp⟩
  · exact ⟨_, hnew, by simp⟩

/-- Nothing is called. -/
theorem Uses.refl (own : ℕ → Prop) (T : Table) : Uses own T T :=
  ⟨rfl, rfl, rfl, [], by simp⟩

/-- The calls are of own objects. -/
theorem Uses.accesses (h : Uses own T T') :
    ∃ new, T'.accesses = T.accesses ++ new ∧ ∀ a ∈ new, own a.object := by
  obtain ⟨new, hnew, hcalls⟩ := h.calls
  exact ⟨new, hnew, fun a ha => (hcalls a ha).1⟩

/-- The table is the same. -/
theorem Uses.of_eq (h : T' = T) : Uses own T T' := h ▸ Uses.refl own T

/-- One after the other. -/
theorem Uses.trans (h : Uses own T T') (h' : Uses own T' T'') : Uses own T T'' := by
  obtain ⟨new, hnew, hown⟩ := h.calls
  obtain ⟨new', hnew', hown'⟩ := h'.calls
  refine ⟨h'.slots.trans h.slots, h'.device.trans h.device, h'.objects.trans h.objects,
    new ++ new', ?_, ?_⟩
  · rw [hnew', hnew, List.append_assoc]
  · intro a ha
    rcases List.mem_append.mp ha with ha | ha
    · exact hown a ha
    · exact hown' a ha

/-- With more objects. -/
theorem Uses.mono (h : Uses own T T') (himp : ∀ o, own o → own' o) : Uses own' T T' := by
  obtain ⟨new, hnew, hown⟩ := h.calls
  exact ⟨h.slots, h.device, h.objects, new, hnew, fun a ha => (hown a ha).imp_left (himp _)⟩

/-- Handles name the same objects after calls of methods. -/
theorem Uses.objectAt (h : Uses own T T') (handle : ℤ) :
    T'.objectAt handle = T.objectAt handle := by
  simp only [Table.objectAt, h.slots, h.device]

end Table

variable {η φ ρ : Type}

/-- Whether a file object decompresses an image. -/
def FileObject.decompressed : FileObject φ ρ → Bool
  | osFile _ _ => false
  | cachedReader _ => true

/-- The tag of a file handle. -/
def FileHandle.tag (f : FileHandle φ ρ) : FileTag :=
  ⟨f.id, f.obj.name, f.hostPath, f.readOnly, f.obj.decompressed⟩

/-- The tag of a handle. -/
def Handle.tag : Handle φ ρ → Tag
  | file f => .file f.tag
  | dir d => .dir d.id

/-- The table of a backend. -/
def Backend.table (s : Backend η φ ρ) : Table where
  slots := fun i => (s.handles i).map Handle.tag
  device := s.bdHandle.map (fun b => b.file.id)
  objects := s.world.objects
  accesses := s.world.accesses

/-! ### Methods of file objects -/

/-- A body of a method works on a file: the tag stays, and only methods of this object
are called. -/
structure FileHandle.Moves (f f' : FileHandle φ ρ) (w w' : World η) : Prop where
  /-- The tag stays. -/
  tag : f'.tag = f.tag
  /-- Time does not pass. -/
  now : w'.now = w.now
  /-- No object is made. -/
  objects : w'.objects = w.objects
  /-- The new calls are of methods of this object, and none of them is `Close`. -/
  calls : ∃ new, w'.accesses = w.accesses ++ new ∧
    ∀ a ∈ new, a.object = f.id ∧ a.method ≠ .close

namespace CachedReader

variable {R : BlockReader η ρ} {c c' : CachedReader ρ} {h h' : η}

/-- `getBlock` changes the cache and the decoder only. -/
theorem getBlock_eq {idx : ℤ} {r : Except Error Block}
    (hok : c.getBlock R idx h = .ok (r, c', h')) :
    ∃ cache br, c' = { c with cache := cache, br := br } := by
  unfold getBlock at hok
  split at hok
  · cases hok
    exact ⟨_, _, rfl⟩
  · obtain ⟨⟨r', br, h₁⟩, -, hok⟩ := Fallible.bind_eq_ok.mp hok
    cases r' <;> cases hok <;> exact ⟨_, _, rfl⟩

/-- A block is fetched. -/
theorem info_getBlock {idx : ℤ} {r : Except Error Block}
    (hok : c.getBlock R idx h = .ok (r, c', h')) : c'.info = c.info := by
  obtain ⟨cache, br, rfl⟩ := getBlock_eq hok
  rfl

/-- A property of a reader and the host that `Read` keeps, because fetching a block and
moving the position do. -/
structure ReadInvariant (R : BlockReader η ρ) (Q : CachedReader ρ → η → Prop) : Prop where
  /-- A block is fetched. -/
  block : ∀ {c c' : CachedReader ρ} {h h' : η} {idx : ℤ} {r : Except Error Block},
    Q c h → c.getBlock R idx h = .ok (r, c', h') → Q c' h'
  /-- The position is moved. -/
  move : ∀ {c : CachedReader ρ} {h : η} (pos : ℤ), Q c h → Q { c with pos := pos } h

namespace ReadInvariant

variable {Q : CachedReader ρ → η → Prop}

section ReadLoop

variable (hQ : ReadInvariant R Q) (hc : Q c h)
include hQ hc

/-- A part of a block is copied. -/
theorem copyPart {idx offset toRead : ℤ} {r : Option (Except Error (List Byte))}
    (hok : c.copyPart R idx offset toRead h = .ok (r, c', h')) : Q c' h' := by
  obtain ⟨⟨r', c₁, h₁⟩, hblock, hok⟩ := Fallible.bind_eq_ok.mp hok
  have hc₁ := hQ.block hc hblock
  cases r' with
  | error err =>
    cases hok
    exact hc₁
  | ok b =>
    simp only at hok
    split_ifs at hok
    cases hok
    exact hQ.move _ hc₁

/-- A round of the loop. -/
theorem readRound {n : ℕ} {r : Option (Except Error (List Byte))}
    (hok : c.readRound R n h = .ok (r, c', h')) : Q c' h' := by
  unfold CachedReader.readRound at hok
  by_cases hend : n = 0 ∨ c.size ≤ c.pos
  · rw [if_pos hend] at hok
    cases hok
    exact hc
  rw [if_neg hend] at hok
  by_cases hzero : c.blockSize = 0
  · rw [if_pos hzero] at hok
    cases hok
  rw [if_neg hzero] at hok
  simp only at hok
  split at hok
  · cases hok
    exact hc
  · exact hQ.copyPart hc hok

/-- The loop. -/
theorem readLoop {fuel n : ℕ} {read : List Byte} {r : List Byte × Option Error}
    (hok : CachedReader.readLoop R fuel c n read h = .ok (r, c', h')) : Q c' h' := by
  induction fuel generalizing c n read h with
  | zero =>
    cases hok
    exact hc
  | succ fuel ih =>
    obtain ⟨⟨r', c₁, h₁⟩, hround, hok⟩ := Fallible.bind_eq_ok.mp hok
    have hc₁ := hQ.readRound hc hround
    match r', hok with
    | none, hok =>
      cases hok
      exact hc₁
    | some (.error err), hok =>
      cases hok
      exact hc₁
    | some (.ok part), hok => exact ih hc₁ hok

/-- `Read`. -/
theorem read {n : ℕ} {r : List Byte × Option Error} (hok : c.read R n h = .ok (r, c', h')) :
    Q c' h' := by
  unfold CachedReader.read at hok
  split at hok
  · cases hok
    exact hc
  · exact hQ.readLoop hc hok

end ReadLoop

end ReadInvariant

/-- `Read` keeps the information. -/
theorem info_read {n : ℕ} {r : List Byte × Option Error}
    (hok : c.read R n h = .ok (r, c', h')) : c'.info = c.info := by
  have hkept : ReadInvariant R (fun (d : CachedReader ρ) _ => d.info = c.info) :=
    ⟨fun hd hblock => (info_getBlock hblock).trans hd, fun _ hd => hd⟩
  exact hkept.read rfl hok

/-- `Seek` keeps the information. -/
theorem info_seek (c : CachedReader ρ) (offset whence : ℤ) :
    (c.seek offset whence).2.info = c.info := by
  unfold seek
  simp only
  split_ifs <;> rfl

end CachedReader

namespace FileHandle

variable {P : Platform η φ ρ} {f f' f'' : FileHandle φ ρ} {w w' w'' : World η}

/-- Nothing is called. -/
theorem Moves.refl (f : FileHandle φ ρ) (w : World η) : Moves f f w w :=
  ⟨rfl, rfl, rfl, [], by simp⟩

/-- One after the other. -/
theorem Moves.trans (h : Moves f f' w w') (h' : Moves f' f'' w' w'') : Moves f f'' w w'' := by
  obtain ⟨new, hnew, hown⟩ := h.calls
  obtain ⟨new', hnew', hown'⟩ := h'.calls
  have hid : f'.id = f.id := congrArg FileTag.id h.tag
  refine ⟨h'.tag.trans h.tag, h'.now.trans h.now, h'.objects.trans h.objects, new ++ new', ?_, ?_⟩
  · rw [hnew', hnew, List.append_assoc]
  · intro a ha
    rcases List.mem_append.mp ha with ha | ha
    · exact hown a ha
    · exact (hown' a ha).imp_left (·.trans hid)

/-- Assigning to the write state is no call. -/
theorem Moves.setWr (f : FileHandle φ ρ) (wr : WriteState) (w : World η) :
    Moves f { f with wr := wr } w w :=
  ⟨rfl, rfl, rfl, [], by simp⟩

/-- One call of a method of the file object that keeps its name and kind. -/
theorem Moves.call {obj : FileObject φ ρ} {method : Method} (host : η) (hmethod : method ≠ .close)
    (hname : obj.name = f.obj.name) (hkind : obj.decompressed = f.obj.decompressed) :
    Moves f { f with obj := obj } w { w.access f.id method with host := host } := by
  refine ⟨?_, rfl, rfl, [⟨f.id, method⟩], rfl, by simpa using hmethod⟩
  unfold FileHandle.tag
  rw [hname, hkind]

/-- `Read`. -/
theorem moves_read {n : ℕ} {r : List Byte × Option Error}
    (hok : f.read P n w = .ok (r, f', w')) : Moves f f' w w' := by
  obtain ⟨⟨r', obj, host⟩, hread, hok⟩ := Fallible.bind_eq_ok.mp hok
  have hsame : obj.name = f.obj.name ∧ obj.decompressed = f.obj.decompressed := by
    cases hobj : f.obj with
    | osFile name file =>
      rw [hobj] at hread
      cases hread
      exact ⟨rfl, rfl⟩
    | cachedReader c =>
      rw [hobj] at hread
      obtain ⟨⟨⟨bytes, err⟩, c', h'⟩, hread, hok⟩ := Fallible.bind_eq_ok.mp hread
      cases hok
      exact ⟨congrArg CompressedInfo.name (CachedReader.info_read hread), rfl⟩
  cases hok
  exact Moves.call host (by decide) hsame.1 hsame.2

/-- `Write`. -/
theorem moves_write (f : FileHandle φ ρ) (data : List Byte) (w : World η) :
    Moves f (f.write P data w).2.1 w (f.write P data w).2.2 := by
  apply Moves.call
  · decide
  · cases f.obj <;> rfl
  · cases f.obj <;> rfl

/-- `Seek`. -/
theorem moves_seek (f : FileHandle φ ρ) (offset whence : ℤ) (w : World η) :
    Moves f (f.seek P offset whence w).2.1 w (f.seek P offset whence w).2.2 := by
  apply Moves.call
  · decide
  · cases f.obj with
    | osFile name file => rfl
    | cachedReader c => exact congrArg CompressedInfo.name (c.info_seek offset whence)
  · cases f.obj <;> rfl

end FileHandle

/-! ### Methods on a handle -/

namespace Backend

variable {P : Platform η φ ρ} {s t : Backend η φ ρ}

/-- Handles count from 1. -/
theorem slotOf_eq_ok {handle : ℤ} {i : Fin maxHandles} :
    slotOf handle = .ok i ↔ handle = (i : ℤ) + 1 := by
  unfold slotOf
  split_ifs with hlow
  · simp only [false_iff]
    omega
  · generalize hn : (handle - 1).toNat = n
    by_cases hhigh : n < 64
    · have hget : (List.finRange maxHandles)[n]? = some ⟨n, hhigh⟩ := by simp [hhigh]
      rw [hget]
      simp only [Except.ok.injEq, Fin.ext_iff]
      omega
    · have hget : (List.finRange maxHandles)[n]? = none := by simpa using hhigh
      rw [hget]
      simp only [reduceCtorEq, false_iff]
      have : i.val < 64 := i.isLt
      omega

/-- What `getFile` finds is the file behind the handle. -/
theorem getFile_spec {handle : ℤ} {found : Option (FileRef × FileHandle φ ρ)}
    (hok : s.getFile handle = .ok (found, t)) :
    t.table = s.table ∧ t.world = s.world ∧
      ∀ ref f, found = some (ref, f) →
        s.table.objectAt handle = some f.id ∧
        ((handle = blockDeviceHandle ∧ ref = .blockDevice ∧ t = s ∧
            ∃ n, s.bdHandle = some ⟨f, n⟩) ∨
          ∃ i, ref = .slot i ∧ t = s.touch i ∧ slotOf handle = .ok i ∧
            s.handles i = some (.file f)) := by
  unfold getFile at hok
  by_cases hneg : handle < 0
  · rw [if_pos hneg] at hok
    cases hok
    simp
  rw [if_neg hneg] at hok
  by_cases hbd : handle = blockDeviceHandle
  · rw [if_pos hbd] at hok
    cases hok
    refine ⟨rfl, rfl, ?_⟩
    intro ref f hfound
    obtain ⟨b, hb, heq⟩ := Option.map_eq_some_iff.mp hfound
    cases heq
    refine ⟨?_, Or.inl ⟨hbd, rfl, rfl, b.totalSectorCount, hb⟩⟩
    simp [Table.objectAt, hbd, table, hb]
  rw [if_neg hbd] at hok
  obtain ⟨i, hi, hok⟩ := Fallible.bind_eq_ok.mp hok
  split at hok
  · rename_i g hg
    cases hok
    refine ⟨rfl, rfl, ?_⟩
    intro ref f hfound
    cases hfound
    refine ⟨?_, Or.inr ⟨i, rfl, rfl, hi, hg⟩⟩
    simp [Table.objectAt, hbd, hi, table, hg, Handle.tag, Tag.id, FileHandle.tag]
  · cases hok
    simp

/-- A lookup that fails. -/
theorem getFile_none {handle : ℤ} (hok : s.getFile handle = .ok (none, t)) : t = s := by
  unfold getFile at hok
  by_cases hneg : handle < 0
  · rw [if_pos hneg] at hok
    cases hok
    rfl
  rw [if_neg hneg] at hok
  by_cases hbd : handle = blockDeviceHandle
  · rw [if_pos hbd] at hok
    exact (congrArg Prod.snd (Except.ok.inj hok)).symm
  rw [if_neg hbd] at hok
  obtain ⟨i, -, hok⟩ := Fallible.bind_eq_ok.mp hok
  split at hok <;> cases hok
  rfl

/-- The tags after a slot has been filled or emptied. -/
theorem slots_update (handles : Fin maxHandles → Option (Handle φ ρ)) (i : Fin maxHandles)
    (h : Option (Handle φ ρ)) :
    (fun j => (Function.update handles i h j).map Handle.tag) =
      Function.update (fun j => (handles j).map Handle.tag) i (h.map Handle.tag) :=
  Function.comp_update (Option.map Handle.tag) handles i h

/-- A slot that gets a handle with the tag it had. -/
theorem slots_update_same {handles : Fin maxHandles → Option (Handle φ ρ)} {i : Fin maxHandles}
    {h : Option (Handle φ ρ)} (htag : h.map Handle.tag = (handles i).map Handle.tag) :
    (fun j => (Function.update handles i h j).map Handle.tag) =
      fun j => (handles j).map Handle.tag := by
  rw [slots_update, htag, Function.update_eq_self]

/-- Putting back a file whose tag is unchanged changes nothing of the table but the
world. -/
theorem table_putFile {ref : FileRef} {f f' : FileHandle φ ρ} {w : World η} (htag : f'.tag = f.tag)
    (href : (ref = .blockDevice ∧ ∃ n, s.bdHandle = some ⟨f, n⟩) ∨
      ∃ i, ref = .slot i ∧ s.handles i = some (.file f)) :
    ({ s.putFile f' ref with world := w } : Backend η φ ρ).table =
      { s.table with objects := w.objects, accesses := w.accesses } := by
  rcases href with ⟨rfl, n, hbd⟩ | ⟨i, rfl, hi⟩
  · have hid : f'.id = f.id := congrArg FileTag.id htag
    simp [table, putFile, hbd, hid]
  · simp only [table, putFile, Table.mk.injEq, and_self, and_true]
    exact slots_update_same (by simp [hi, Handle.tag, htag])

/-- A method on a file handle calls only methods of the handle's object; without an
object it reports the missing file. -/
theorem withFile_spec {α : Type} {handle : ℤ} {missing a : α}
    {body : FileHandle φ ρ → World η → Except Fault (α × FileHandle φ ρ × World η)}
    (hbody : ∀ f w a f' w', body f w = .ok (a, f', w') → f.Moves f' w w')
    (hok : s.withFile handle missing body = .ok (a, t)) :
    Table.Uses (fun o => s.table.objectAt handle = some o) s.table t.table ∧
      (s.table.objectAt handle = none → a = missing) := by
  obtain ⟨⟨found, s₁⟩, hget, hok⟩ := Fallible.bind_eq_ok.mp hok
  obtain ⟨htable, hworld, hfound⟩ := getFile_spec hget
  match found, hok with
  | none, hok =>
    cases hok
    exact ⟨.of_eq htable, fun _ => rfl⟩
  | some (ref, f), hok =>
    obtain ⟨hobject, href⟩ := hfound ref f rfl
    obtain ⟨⟨a', f', w'⟩, hrun, hok⟩ := Fallible.bind_eq_ok.mp hok
    cases hok
    have hmoves := hbody f s₁.world _ f' w' hrun
    obtain ⟨new, hnew, hown⟩ := hmoves.calls
    have href' : (ref = .blockDevice ∧ ∃ n, s₁.bdHandle = some ⟨f, n⟩) ∨
        ∃ i, ref = .slot i ∧ s₁.handles i = some (.file f) := by
      rcases href with ⟨-, hbd, rfl, hfile⟩ | ⟨i, hslot, rfl, -, hfile⟩
      · exact Or.inl ⟨hbd, hfile⟩
      · exact Or.inr ⟨i, hslot, hfile⟩
    rw [table_putFile hmoves.tag href', htable, hobject]
    refine ⟨⟨rfl, rfl, ?_, new, ?_, ?_⟩, by simp⟩
    · simp only [hmoves.objects, hworld, table]
    · simp only [hnew, hworld, table]
    · intro a ha
      exact ⟨congrArg some (hown a ha).1.symm, (hown a ha).2⟩

/-- The calls a request on a handle may make: methods of the object it names. -/
abbrev UsesHandle (handle : ℤ) (s t : Backend η φ ρ) : Prop :=
  Table.Uses (fun o => s.table.objectAt handle = some o) s.table t.table

variable {buf : Buffer Byte} {o : Options}

/-- `Read`. -/
theorem read_spec {handle : ℤ} {size : BitVec 32} {r : Udpfs.ReadResult × Buffer Byte}
    (hok : read P handle size buf s = .ok (r, t)) :
    UsesHandle handle s t ∧
      (s.table.objectAt handle = none → r = (⟨0, none, some .invalid⟩, buf)) := by
  apply withFile_spec _ hok
  intro f w a f' w' hbody
  split at hbody
  · cases hbody
  obtain ⟨⟨⟨bytes, err⟩, f₁, w₁⟩, hread, hbody⟩ := Fallible.bind_eq_ok.mp hbody
  cases hbody
  exact FileHandle.moves_read hread

/-- `WriteStart`. -/
theorem writeStart_spec {handle : ℤ} {r : Option Error}
    (hok : writeStart handle s = .ok (r, t)) :
    UsesHandle handle s t ∧ (s.table.objectAt handle = none → r = some .invalid) := by
  apply withFile_spec _ hok
  intro f w a f' w' hbody
  split at hbody <;> cases hbody
  · exact .refl f w
  · exact .setWr f _ w

/-- `WriteChunk`. -/
theorem writeChunk_spec {handle : ℤ} {chunkNr totalChunks : BitVec 16} (chunkSize : BitVec 16)
    {chunk : List Byte} {r : Bool × Option Error}
    (hok : writeChunk handle chunkNr chunkSize totalChunks chunk s = .ok (r, t)) :
    UsesHandle handle s t ∧ (s.table.objectAt handle = none → r = (false, some .invalid)) := by
  apply withFile_spec _ hok
  intro f w a f' w' hbody
  split at hbody <;> cases hbody
  · exact .refl f w
  · exact .setWr f _ w

/-- The write of the collected chunks. -/
theorem moves_completeBody {sectorSize : ℤ} {f f' : FileHandle φ ρ} {w w' : World η}
    {r : ℤ × Option Error} (hok : completeBody P sectorSize f w = .ok (r, f', w')) :
    f.Moves f' w w' := by
  unfold completeBody at hok
  by_cases hblock : f.wr.blockWrite
  · rw [if_pos hblock] at hok
    simp only at hok
    split at hok
    · cases hok
    split at hok
    · cases hok
      exact FileHandle.moves_seek f _ 0 w
    · cases hok
      exact (FileHandle.moves_seek f _ 0 w).trans (FileHandle.moves_write _ _ _)
  · rw [if_neg hblock] at hok
    simp only at hok
    split at hok <;> cases hok <;> exact FileHandle.moves_write f _ w

/-- `CompleteWrite`. -/
theorem completeWrite_spec {handle : ℤ} {r : ℤ × Option Error}
    (hok : completeWrite P handle s = .ok (r, t)) :
    UsesHandle handle s t ∧ (s.table.objectAt handle = none → r = (0, some .invalid)) :=
  withFile_spec (fun _ _ _ _ _ hbody => moves_completeBody hbody) hok

/-- `Lseek`. -/
theorem lseek_spec {handle offset whence : ℤ} {r : ℤ × Option Error}
    (hok : lseek P handle offset whence s = .ok (r, t)) :
    UsesHandle handle s t ∧ (s.table.objectAt handle = none → r = (-1, none)) := by
  apply withFile_spec _ hok
  intro f w a f' w' hbody
  cases hbody
  exact FileHandle.moves_seek f offset whence w

/-- The seek and the read of `Bread`. -/
theorem moves_breadBody {sectorSize sectorNr : ℤ} {sectorCount : BitVec 16} {f f' : FileHandle φ ρ}
    {w w' : World η} {r : Udpfs.ReadResult × Buffer Byte}
    (hok : breadBody P sectorSize sectorNr sectorCount buf f w = .ok (r, f', w')) :
    f.Moves f' w w' := by
  have hseek := FileHandle.moves_seek (P := P) f (int64 (sectorNr * sectorSize)) 0 w
  unfold breadBody at hok
  simp only at hok
  split at hok
  · cases hok
    exact hseek
  split at hok
  · cases hok
  obtain ⟨⟨⟨bytes, err⟩, f₁, w₁⟩, hread, hok⟩ := Fallible.bind_eq_ok.mp hok
  cases hok
  exact hseek.trans (FileHandle.moves_read hread)

/-- `Bread`. -/
theorem bread_spec {handle sectorNr : ℤ} {sectorCount : BitVec 16}
    {r : Udpfs.ReadResult × Buffer Byte}
    (hok : bread P handle sectorNr sectorCount buf s = .ok (r, t)) :
    UsesHandle handle s t ∧
      (s.table.objectAt handle = none → r = (⟨0, none, some .invalid⟩, buf)) :=
  withFile_spec (fun _ _ _ _ _ hbody => moves_breadBody hbody) hok

/-- `BwriteStart`. -/
theorem bwriteStart_spec {handle sectorNr : ℤ} {sectorCount : BitVec 16} {r : Option Error}
    (hok : bwriteStart handle sectorNr sectorCount s = .ok (r, t)) :
    UsesHandle handle s t ∧ (s.table.objectAt handle = none → r = some .invalid) := by
  apply withFile_spec _ hok
  intro f w a f' w' hbody
  split at hbody <;> cases hbody
  · exact .refl f w
  · exact .setWr f _ w

/-- `Dread`. -/
theorem dread_spec {handle : ℤ} {r : DreadResult} (hok : dread P handle s = .ok (r, t)) :
    UsesHandle handle s t ∧
      (s.table.objectAt handle = none → r = (false, [], .empty, some .invalid)) := by
  obtain ⟨⟨found, s₁⟩, hget, hok⟩ := Fallible.bind_eq_ok.mp hok
  obtain ⟨i, hi, hget⟩ := Fallible.bind_eq_ok.mp hget
  have hnz : handle ≠ blockDeviceHandle := by
    rw [slotOf_eq_ok] at hi
    simp only [blockDeviceHandle]
    omega
  have hobject : s.table.objectAt handle = (s.handles i).map Handle.id := by
    simp only [Table.objectAt, if_neg hnz, hi, table, Option.map_map]
    congr 1
    funext h
    cases h <;> rfl
  split at hget
  · rename_i d hd
    cases hget
    rw [hd] at hobject
    refine ⟨?_, by simp [hobject]⟩
    simp only [UsesHandle, hobject, Option.map_some, Option.some.injEq]
    simp only at hok
    split at hok
    · cases hok
      exact ⟨rfl, rfl, rfl, [⟨d.id, .readEntry⟩], rfl, by simp [Handle.id]⟩
    · cases hok
      exact ⟨slots_update_same (by simp [touch, hd, Handle.tag]), rfl, rfl, [⟨d.id, .readEntry⟩],
        rfl, by simp [Handle.id]⟩
  · cases hget
    cases hok
    exact ⟨.refl _ _, fun _ => rfl⟩

/-- A lookup by path. -/
theorem getFileByPath_frame (s : Backend η φ ρ) (hostPath : Path) :
    (s.getFileByPath hostPath).2.table = s.table ∧
      (s.getFileByPath hostPath).2.world = s.world := by
  unfold getFileByPath
  split
  · exact ⟨rfl, rfl⟩
  · split <;> exact ⟨rfl, rfl⟩

/-- `Getstat` of a path. -/
theorem table_statOnHost (path : Path) (s : Backend η φ ρ) :
    (statOnHost P path s).2.table = s.table := by
  unfold statOnHost
  split
  · rfl
  · rename_i resolved _
    have htable := (getFileByPath_frame s resolved).1
    simp only
    split <;> split <;> exact htable

/-- `Getstat` calls none of the recorded methods. -/
theorem getstat_spec {path : Path} {r : Udpfs.StatInfo × Option Error}
    (hok : getstat P path s = .ok (r, t)) : t.table = s.table := by
  unfold getstat at hok
  split at hok
  · cases hok
    rfl
  · have heq := Except.ok.inj hok
    rw [← table_statOnHost (P := P) _ s, heq]

/-- `Remove` and `Rmdir`. -/
theorem changeDir_spec {op : Path → η → Option Error × η} {path : Path} {r : Option Error}
    (hok : changeDir P op path s = .ok (r, t)) : t.table = s.table := by
  unfold changeDir at hok
  split at hok
  · cases hok
    rfl
  split at hok <;> cases hok <;> rfl

/-- `Mkdir`. -/
theorem table_mkdir {path : Path} {r : Option Error} (hok : mkdir P path s = .ok (r, t)) :
    t.table = s.table := by
  unfold mkdir at hok
  exact changeDir_spec hok

/-- What is in a slot is closed. -/
theorem closeSlot_spec (s : Backend η φ ρ) (i : Fin maxHandles) :
    (s.closeSlot P i).accesses = s.world.accesses ++ Table.closing (s.table.slots i) ∧
      (s.closeSlot P i).objects = s.world.objects := by
  simp only [closeSlot, table]
  cases s.handles i with
  | none => simp [Table.closing]
  | some h => cases h <;> exact ⟨rfl, rfl⟩

/-- `Close` empties a slot, except for the block device. -/
theorem close_spec {handle : ℤ} {r : Option Error} (hok : close P handle s = .ok (r, t)) :
    r = none ∧ ((handle = blockDeviceHandle ∧ t = s) ∨
      ∃ i, slotOf handle = .ok i ∧ t.table = s.table.free i) := by
  obtain ⟨⟨ok, s₁⟩, hfree, hok⟩ := Fallible.bind_eq_ok.mp hok
  unfold freeHandle at hfree
  split at hfree
  · rename_i hbd
    cases hfree
    cases hok
    exact ⟨rfl, Or.inl ⟨hbd, rfl⟩⟩
  · obtain ⟨i, hi, hfree⟩ := Fallible.bind_eq_ok.mp hfree
    cases hfree
    cases hok
    refine ⟨rfl, Or.inr ⟨i, hi, ?_⟩⟩
    obtain ⟨haccesses, hobjects⟩ := closeSlot_spec (P := P) s i
    simp only [table, Table.free, Table.mk.injEq] at haccesses ⊢
    exact ⟨slots_update s.handles i none, trivial, hobjects, haccesses⟩

/-! ### Opening -/

/-- With a slot for it, a new handle is put there. -/
theorem table_allocHandle {i : Fin maxHandles} (hslot : s.allocSlot = some i) (h : Handle φ ρ) :
    (s.allocHandle P h).1 = (i : ℤ) + 1 ∧
      (s.allocHandle P h).2.table =
        { s.table.put i h.tag with objects := s.table.objects } := by
  obtain ⟨haccesses, hobjects⟩ := closeSlot_spec (P := P) s i
  simp only [allocHandle, hslot, true_and]
  simp only [table, Table.put, Table.mk.injEq] at haccesses ⊢
  exact ⟨slots_update s.handles i (some h), trivial, hobjects, haccesses⟩

theorem neg_emfile_neg : -emfile < 0 := by decide

/-- The table is full. -/
theorem allocHandle_of_none (hslot : s.allocSlot = none) (h : Handle φ ρ) :
    s.allocHandle P h = (-emfile, s) := by
  simp only [allocHandle, hslot]

/-- What became of an attempt to put the new object with this tag into the table: it got
the slot that `allocHandle` has for it, or there was none and it was given up. -/
def Placed (s t : Backend η φ ρ) (handle : ℤ) (tag : Tag) : Prop :=
  (handle < 0 ∧ s.table.Rejects t.table) ∨
    ∃ i, s.allocSlot = some i ∧ handle = (i : ℤ) + 1 ∧ t.table = s.table.put i tag

/-- A file gets a handle. -/
theorem addFile_spec (s : Backend η φ ρ) (hostPath : Path) (obj : FileObject φ ρ)
    (readOnly : Bool) :
    Placed s (s.addFile P hostPath obj readOnly).2 (s.addFile P hostPath obj readOnly).1
      (.file ⟨s.table.objects, obj.name, hostPath, readOnly, obj.decompressed⟩) := by
  let f : FileHandle φ ρ := ⟨s.world.objects, hostPath, obj, .zero, readOnly⟩
  let s₁ : Backend η φ ρ := { s with world.objects := s.world.objects + 1 }
  have hadd : s.addFile P hostPath obj readOnly =
      if (s₁.allocHandle P (.file f)).1 < 0 then
        ((s₁.allocHandle P (.file f)).1, { (s₁.allocHandle P (.file f)).2 with
          world := f.close P (s₁.allocHandle P (.file f)).2.world })
      else s₁.allocHandle P (.file f) := rfl
  cases hslot : s.allocSlot with
  | none =>
    have hslot₁ : s₁.allocSlot = none := hslot
    rw [hadd, allocHandle_of_none hslot₁, if_pos neg_emfile_neg]
    left
    exact ⟨neg_emfile_neg, rfl, rfl, Nat.le_succ _, _, rfl, Or.inr ⟨rfl, Nat.lt_succ_self _⟩⟩
  | some i =>
    have hslot₁ : s₁.allocSlot = some i := hslot
    obtain ⟨hhandle, htable⟩ := table_allocHandle (P := P) hslot₁ (.file f)
    rw [hadd, if_neg (by rw [hhandle]; omega)]
    exact Or.inr ⟨i, hslot, hhandle, htable⟩

/-- The tags of the objects that `Open` makes for a client path. The checks for a file
that is open already have been passed. -/
inductive Opens (P : Platform η φ ρ) (s : Backend η φ ρ) (path : Path) (flag : OpenFlag)
    (isDir : Bool) : Tag → Prop
  /-- A directory. -/
  | dir : Opens P s path flag isDir (.dir s.table.objects)
  /-- A plain file. -/
  | plain {fullPath : Path} (hpath : s.resolvePath P path = some fullPath) (hfile : isDir = false)
      (hwrite : wantWrite flag = true → (s.getFileState fullPath).1 = false)
      (hread : wantWrite flag = false → s.getFileState fullPath ≠ (true, false)) :
      Opens P s path flag isDir
        (.file ⟨s.table.objects, fullPath, fullPath, !wantWrite flag, false⟩)
  /-- A decompressed image. -/
  | image {fullPath image : Path} (hpath : s.resolvePath P path = some fullPath)
      (hfile : isDir = false) (himage : s.compressedPath P fullPath = some image) :
      Opens P s path flag isDir (.file ⟨s.table.objects, [], image, true, true⟩)

/-- The outcome of `Open`: it failed and left the table alone, or the new object got the
slot that `allocHandle` has for it. -/
def OpenOutcome (P : Platform η φ ρ) (s t : Backend η φ ρ) (path : Path) (flag : OpenFlag)
    (isDir : Bool) (r : OpenResult) : Prop :=
  ((r.2.2 ≠ none ∨ r.1 < 0) ∧ s.table.Rejects t.table) ∨
    (r.2.2 = none ∧ ∃ i tag, s.allocSlot = some i ∧ r.1 = (i : ℤ) + 1 ∧
      t.table = s.table.put i tag ∧ tag.id = s.table.objects ∧ Opens P s path flag isDir tag)

/-- A directory gets a handle. -/
theorem addDir_spec (s : Backend η φ ρ) (dirPath : Path) (entries : List Path) :
    Placed s (s.addDir P dirPath entries).2 (s.addDir P dirPath entries).1
      (.dir s.table.objects) := by
  let s₁ : Backend η φ ρ := { s with world.objects := s.world.objects + 1 }
  have hadd : s.addDir P dirPath entries =
      s₁.allocHandle P (.dir ⟨s.world.objects, dirPath, entries, 0⟩) := rfl
  cases hslot : s.allocSlot with
  | none =>
    have hslot₁ : s₁.allocSlot = none := hslot
    rw [hadd, allocHandle_of_none hslot₁]
    exact Or.inl ⟨neg_emfile_neg, rfl, rfl, Nat.le_succ _, [], by simp [table, s₁], by simp⟩
  | some i =>
    have hslot₁ : s₁.allocSlot = some i := hslot
    rw [hadd]
    obtain ⟨hhandle, htable⟩ :=
      table_allocHandle (P := P) hslot₁ (.dir ⟨s.world.objects, dirPath, entries, 0⟩)
    exact Or.inr ⟨i, hslot, hhandle, htable⟩

/-- An `Open` that fails. -/
theorem OpenOutcome.failed {path : Path} {flag : OpenFlag} {isDir : Bool}
    {stat : Udpfs.StatInfo} {err : Error}
    (htable : t.table = s.table) : OpenOutcome P s t path flag isDir (0, stat, some err) :=
  Or.inl ⟨Or.inl (Option.some_ne_none err), htable ▸ .refl _⟩

/-- The end of `Open`. -/
theorem finishOpen_spec {path : Path} {flag : OpenFlag} {isDir : Bool} {tag : Tag}
    {stat : η → Except Error Udpfs.FileInfo} {added : ℤ × Backend η φ ρ} {r : OpenResult}
    (hplaced : Placed s added.2 added.1 tag) (hid : tag.id = s.table.objects)
    (hopens : Opens P s path flag isDir tag) (hok : finishOpen stat added = .ok (r, t)) :
    OpenOutcome P s t path flag isDir r := by
  have houtcome (stat : Udpfs.StatInfo) :
      OpenOutcome P s added.2 path flag isDir (added.1, stat, none) := by
    rcases hplaced with ⟨hneg, hrejects⟩ | ⟨i, hslot, hhandle, htable⟩
    · exact Or.inl ⟨Or.inr hneg, hrejects⟩
    · exact Or.inr ⟨rfl, i, tag, hslot, hhandle, htable, hid, hopens⟩
  unfold finishOpen at hok
  split at hok
  · cases hok
    exact houtcome _
  · split at hok <;> cases hok
    exact houtcome _

/-- `Open` of a directory. -/
theorem openDir_spec {path fullPath : Path} {flag : OpenFlag} {isDir : Bool} {r : OpenResult}
    (hok : s.openDir P fullPath = .ok (r, t)) : OpenOutcome P s t path flag isDir r := by
  unfold openDir at hok
  split at hok
  · cases hok
    exact .failed rfl
  · exact finishOpen_spec (addDir_spec s fullPath _) rfl .dir hok

/-- `Open` of a file of the host. -/
theorem openPlain_spec {path fullPath : Path} {flag : OpenFlag} {isDir present : Bool}
    (host : η) {r : OpenResult}
    (hopens : Opens P s path flag isDir
      (.file ⟨s.table.objects, fullPath, fullPath, !wantWrite flag, false⟩))
    (hok : (s.setHost host).openPlain P fullPath flag present = .ok (r, t)) :
    OpenOutcome P s t path flag isDir r := by
  unfold openPlain at hok
  split at hok
  · cases hok
    exact .failed rfl
  simp only at hok
  split at hok
  · cases hok
    exact .failed rfl
  · rename_i f host' _
    exact finishOpen_spec (s := s) (addFile_spec ((s.setHost host).setHost host') fullPath
      (.osFile fullPath f) (!wantWrite flag)) rfl hopens hok

/-- An image that is opened reports the empty name. -/
theorem openCompressed_info {path : Path} {size : ℤ} {c : CachedReader ρ} {h h' : η}
    (hok : openCompressed P path size h = .ok (some c, h')) : c.info = .zero := by
  obtain ⟨⟨r, h₁⟩, -, hok⟩ := Fallible.bind_eq_ok.mp hok
  cases r <;> cases hok
  rfl

/-- What `Open` does. -/
theorem openFile_spec {path : Path} {flag : OpenFlag} {isDir : Bool} {r : OpenResult}
    (hok : openFile P path flag isDir s = .ok (r, t)) : OpenOutcome P s t path flag isDir r := by
  unfold openFile at hok
  split at hok
  · cases hok
    exact .failed rfl
  rename_i fullPath hpath
  simp only at hok
  split at hok
  · cases hok
    exact .failed rfl
  rename_i hwrite
  split at hok
  · cases hok
    exact .failed rfl
  rename_i hread
  split at hok
  · exact openDir_spec hok
  rename_i hfile
  simp only [Bool.not_eq_true] at hfile
  have hplain : Opens P s path flag isDir
      (.file ⟨s.table.objects, fullPath, fullPath, !wantWrite flag, false⟩) := by
    refine .plain hpath hfile ?_ ?_
    · intro hw
      simp only [hw, Bool.true_and, Bool.or_eq_true, not_or, Bool.not_eq_true] at hwrite
      exact hwrite.2
    · intro hw hstate
      simp [hw, hstate] at hread
  unfold openRegular at hok
  simp only at hok
  split at hok
  · exact openPlain_spec s.world.host hplain hok
  · rename_i image himage
    obtain ⟨⟨wrapper, host⟩, hopen, hok⟩ := Fallible.bind_eq_ok.mp hok
    cases wrapper with
    | none => exact openPlain_spec host hplain hok
    | some c =>
      have hplaced := addFile_spec (P := P) (s.setHost host) image (.cachedReader c) true
      simp only [FileObject.name, openCompressed_info hopen] at hplaced
      exact finishOpen_spec (s := s) hplaced rfl (.image hpath hfile himage) hok

/-! ### The new backend -/

/-- What `NewBackend` sets up: an empty table, and the block device opened in the mode that
the options ask for. -/
theorem newBackend_spec {host : η} {now : ℕ} (h : newBackend P o host now = .ok (some s)) :
    s.handles = (fun _ => none) ∧ rootOf P o.fsRoot host = some s.fsRoot ∧
      s.readOnly = o.readOnly ∧
      ((s.bdHandle = none ∧ s.world.host = host) ∨
        ∃ f size, P.os.openFile o.blockDevice (if o.readOnly then Udpfs.oRDONLY else Udpfs.oRDWR)
            host =
            (.ok f, s.world.host) ∧
          s.bdHandle = some ⟨⟨0, o.blockDevice, .osFile o.blockDevice f, .zero, o.readOnly⟩, size⟩ ∧
          s.world.objects = 1) := by
  unfold newBackend at h
  split at h
  · cases h
  rename_i root hroot
  unfold openBlockDevice at h
  split at h
  · cases h
    exact ⟨rfl, hroot, rfl, Or.inl ⟨rfl, rfl⟩⟩
  simp only at h
  split at h
  · cases h
  · rename_i f hopen
    split at h
    · cases h
    · cases h
      exact ⟨rfl, hroot, rfl, Or.inr ⟨f, _, Prod.ext hopen rfl, rfl, rfl⟩⟩

/-- A new backend has no handles. -/
theorem handles_newBackend {host : η} {now : ℕ}
    (h : newBackend P o host now = .ok (some s)) : s.handles = fun _ => none :=
  (newBackend_spec h).1

/-- The only object of a new backend is its block device. -/
theorem device_newBackend {host : η} {now : ℕ} (h : newBackend P o host now = .ok (some s))
    {object : ℕ} (hdevice : s.table.device = some object) : object < s.table.objects := by
  obtain ⟨-, -, -, ⟨hnone, -⟩ | ⟨f, size, -, hsome, hobjects⟩⟩ := newBackend_spec h
  · simp [table, hnone] at hdevice
  · simp only [table, hsome, hobjects] at hdevice ⊢
    cases hdevice
    exact Nat.zero_lt_one

end Backend

/-! ### The file behind a handle -/

namespace Backend

variable {s : Backend η φ ρ} {handle : ℤ} {f f' : FileHandle φ ρ}

/-- The file that `getFile` finds. -/
def fileAt (s : Backend η φ ρ) (handle : ℤ) : Option (FileHandle φ ρ) :=
  match s.getFile handle with
  | .ok (some (_, f), _) => some f
  | _ => none

/-- The file of a handle is found. -/
theorem getFile_of_fileAt (hf : s.fileAt handle = some f) :
    ∃ ref t, s.getFile handle = .ok (some (ref, f), t) := by
  unfold fileAt at hf
  split at hf
  · rename_i ref g t hget
    cases hf
    exact ⟨ref, t, hget⟩
  · cases hf

/-- A negative handle names no file. -/
theorem nonneg_of_fileAt (hf : s.fileAt handle = some f) : 0 ≤ handle := by
  by_contra hneg
  rw [fileAt, getFile, if_pos (by omega)] at hf
  cases hf

variable {α : Type}

/-- A method whose body panics on a file that is there panics. -/
theorem withFile_of_error {missing : α} {fault : Fault}
    {body : FileHandle φ ρ → World η → Except Fault (α × FileHandle φ ρ × World η)}
    (hf : s.fileAt handle = some f) (hbody : body f s.world = .error fault) :
    s.withFile handle missing body = .error fault := by
  obtain ⟨ref, s₁, hget⟩ := getFile_of_fileAt hf
  obtain ⟨-, hworld, -⟩ := getFile_spec hget
  rw [withFile, hget]
  change (body f s₁.world >>= _) = _
  rw [hworld, hbody]
  rfl

/-- No method on a file changes the sector size of the block device. -/
theorem sectorSize_of_withFile {missing a : α} {t : Backend η φ ρ}
    {body : FileHandle φ ρ → World η → Except Fault (α × FileHandle φ ρ × World η)}
    (hok : s.withFile handle missing body = .ok (a, t)) : t.sectorSize = s.sectorSize := by
  obtain ⟨⟨found, s₁⟩, hget, hok⟩ := Fallible.bind_eq_ok.mp hok
  have hsize : s₁.sectorSize = s.sectorSize := by
    unfold getFile at hget
    split_ifs at hget
    · cases hget
      rfl
    · cases hget
      rfl
    · obtain ⟨i, -, hget⟩ := Fallible.bind_eq_ok.mp hget
      split at hget <;> cases hget <;> rfl
  cases found with
  | none =>
    cases hok
    exact hsize
  | some found =>
    obtain ⟨⟨a', f', w⟩, -, hok⟩ := Fallible.bind_eq_ok.mp hok
    cases hok
    rw [← hsize]
    obtain ⟨ref, g⟩ := found
    cases ref <;> rfl

/-- A method on a file that is there puts back what its body made of it. -/
theorem withFile_of_fileAt {missing a : α} {w : World η}
    {body : FileHandle φ ρ → World η → Except Fault (α × FileHandle φ ρ × World η)}
    (hf : s.fileAt handle = some f) (hbody : body f s.world = .ok (a, f', w)) :
    ∃ t, s.withFile handle missing body = .ok (a, t) ∧ t.fileAt handle = some f' ∧ t.world = w := by
  obtain ⟨ref, s₁, hget⟩ := getFile_of_fileAt hf
  obtain ⟨-, hworld, hfound⟩ := getFile_spec hget
  have hrun : s.withFile handle missing body =
      .ok (a, { s₁.putFile f' ref with world := w }) := by
    rw [withFile, hget]
    change (body f s₁.world >>= _) = _
    rw [hworld, hbody]
    rfl
  refine ⟨_, hrun, ?_, rfl⟩
  rcases (hfound ref f rfl).2 with ⟨rfl, rfl, rfl, n, hbd⟩ | ⟨i, rfl, rfl, hslot, hi⟩
  · simp [fileAt, getFile, putFile, hbd, blockDeviceHandle]
  · have hhandle := slotOf_eq_ok.mp hslot
    have hneg : ¬ handle < 0 := by omega
    have hne : handle ≠ blockDeviceHandle := by
      unfold blockDeviceHandle
      omega
    simp [fileAt, getFile, putFile, hneg, hne, hslot, Bind.bind, Except.bind, Pure.pure,
      Except.pure]

end Backend

end Udpfsd.Fs
