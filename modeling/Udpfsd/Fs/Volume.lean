import Udpfsd.Fs.Containers
import Udpfsd.Fs.Table

/-!
# What reading leaves alone

A host has a tree of directories and files, the block device among them. A `Tree` says
what is found at each path, and that the calls for reading leave it alone: opening with
`O_RDONLY`, reading, seeking and closing a file. In a `Volume` the decoders of images do so,
too; those of ZSO and CSO images do in every tree. A backend is
sealed when it is read-only and so is each of its handles. The methods on a handle spare
the volume whatever the backend, down to the one that completes a write; the methods on a
path do when the backend is sealed.
-/

namespace Udpfsd.Fs

open Udprdma (Byte)
open Udpfs (Error Fault OpenFlag oRDONLY oCREATE)

variable {η φ ρ : Type}

/-- What is found at a path. -/
inductive Entry
  /-- A directory. -/
  | dir
  /-- A file or a device, with its bytes. -/
  | file (bytes : List Byte)
  deriving DecidableEq

/-- The tree of a host, and the calls of package `os` that leave it alone. -/
structure Tree (os : OS η φ) where
  /-- What is found at a path, if anything. -/
  entry : η → Path → Option Entry
  /-- Opening for reading. -/
  openFile : ∀ path h, entry (os.openFile path oRDONLY h).2 = entry h
  /-- Reading. -/
  read : ∀ f n h, entry (os.read f n h).2.2 = entry h
  /-- Seeking. -/
  seek : ∀ f offset whence h, entry (os.seek f offset whence h).2.2 = entry h
  /-- Closing. -/
  close : ∀ f h, entry (os.close f h) = entry h

/-- The tree of a host that the decoders of images leave alone, too. -/
structure Volume (P : Platform η φ ρ) extends Tree P.os where
  /-- Opening an image. -/
  openImage : ∀ format ∈ [P.zso, P.cso, P.chd], ∀ path h r h',
    format.openImage path h = .ok (r, h') → entry h' = entry h
  /-- Reading a block of an image. -/
  readBlock : ∀ r idx h b r' h', P.reader.readBlock r idx h = .ok (b, r', h') → entry h' = entry h
  /-- Closing an image. -/
  closeImage : ∀ r h, entry (P.reader.close r h) = entry h

/-! ### The decoders of ZSO and CSO images -/

namespace Tree

open FileProgram

variable {os : OS η φ} (T : Tree os) {h h' : η}

/-- Programs on an open file leave the tree alone. -/
theorem staysOpen (h₀ : η) : StaysOpen os fun _ _ h => T.entry h = T.entry h₀ where
  seek := fun f _ h offset hf => ⟨0, (T.seek f offset 0 h).trans hf⟩
  read := fun f _ h n hf _ => ⟨0, (T.read f n h).trans hf⟩

/-- Opening an image leaves the tree alone. -/
theorem openImage {α : Type} {layout : Layout α} {wrap : φ × α → ρ} {path : Path}
    {r : Except Error ρ} (hok : FileProgram.openImage os makeAny layout wrap path h = .ok (r, h')) :
    T.entry h' = T.entry h := by
  obtain ⟨⟨r₁, h₁⟩, hok, hlast⟩ := Fallible.bind_eq_ok.mp hok
  cases hlast
  unfold openWith at hok
  have hopened := T.openFile path h
  split at hok
  · rename_i heq
    rw [heq] at hopened
    cases hok
    exact hopened
  · rename_i f h₂ heq
    rw [heq] at hopened
    obtain ⟨⟨res, f', h₃⟩, hrun, hok⟩ := Fallible.bind_eq_ok.mp hok
    obtain ⟨-, hparsed⟩ := (Keeps.closed (T.staysOpen h)).parseHeader layout path f 0 h₂ res f' h₃
      hopened hrun
    cases res <;> cases hok
    · exact (T.close f' h₃).trans hparsed
    · exact hparsed

end Tree

/-- The decoders of ZSO and CSO images leave every tree alone. -/
def Decoder.volume {os : OS η φ} (T : Tree os) (flate zlib : List Byte → Option (List Byte))
    (lz4 : UncompressBlock) : Volume (Decoder.platform os flate zlib lz4) where
  toTree := T
  openImage := by
    intro format hformat path h r h' hok
    simp only [Decoder.platform, List.mem_cons, List.not_mem_nil, or_false] at hformat
    rcases hformat with rfl | rfl | rfl
    · obtain ⟨_, hopen, hok⟩ := Fallible.bind_eq_ok.mp hok
      cases hok
      exact T.openImage hopen
    · obtain ⟨_, hopen, hok⟩ := Fallible.bind_eq_ok.mp hok
      cases hok
      exact T.openImage hopen
    · cases hok
      rfl
  readBlock := by
    intro r idx h b r' h' hok
    cases r with
    | zso z =>
      obtain ⟨_, hread, hok⟩ := Fallible.bind_eq_ok.mp hok
      cases hok
      obtain ⟨⟨r, f', h'⟩, hblock, hok⟩ := Fallible.bind_eq_ok.mp hread
      cases hok
      obtain ⟨-, hkept⟩ := Zso.keeps_readBlock (T.staysOpen h) lz4 _ idx z.f 0 h r f' h' rfl hblock
      exact hkept
    | cso c =>
      obtain ⟨_, hread, hok⟩ := Fallible.bind_eq_ok.mp hok
      cases hok
      obtain ⟨⟨r, f', h'⟩, hblock, hok⟩ := Fallible.bind_eq_ok.mp hread
      cases hok
      obtain ⟨-, hkept⟩ := Cso.keeps_readBlock (T.staysOpen h) flate zlib _ idx c.f 0 h r f' h' rfl
        hblock
      exact hkept
  closeImage
    | .zso z, h => T.close z.f h
    | .cso c, h => T.close c.f h

namespace Volume

variable {P : Platform η φ ρ} {V : Volume P}

/-! ### File objects -/

/-- Kept by the reads of an image. -/
theorem readInvariant (V : Volume P) (h₀ : η) :
    CachedReader.ReadInvariant P.reader (fun _ h => V.entry h = V.entry h₀) := by
  refine ⟨?_, fun _ hc => hc⟩
  intro c c' h h' idx r hc hok
  unfold CachedReader.getBlock at hok
  split at hok
  · cases hok
    exact hc
  · obtain ⟨⟨r', br, h₁⟩, hread, hok⟩ := Fallible.bind_eq_ok.mp hok
    have hentry := (V.readBlock _ _ _ _ _ _ hread).trans hc
    cases r' <;> cases hok <;> exact hentry

/-- `Read`. -/
theorem entry_readObject {obj obj' : FileObject φ ρ} {n : ℕ} {h h' : η}
    {r : List Byte × Option Error} (hok : obj.read P n h = .ok (r, obj', h')) :
    V.entry h' = V.entry h := by
  cases obj with
  | osFile name f =>
    cases hok
    exact V.read f n h
  | cachedReader c =>
    obtain ⟨⟨⟨bytes, err⟩, c', h₁⟩, hread, hok⟩ := Fallible.bind_eq_ok.mp hok
    cases hok
    exact (V.readInvariant h).read rfl hread

/-- An image is opened. -/
theorem entry_openCompressed {path : Path} {size : ℤ} {h h' : η} {c : Option (CachedReader ρ)}
    (hok : openCompressed P path size h = .ok (c, h')) : V.entry h' = V.entry h := by
  obtain ⟨⟨r, h₁⟩, hopen, hok⟩ := Fallible.bind_eq_ok.mp hok
  have hentry : V.entry h₁ = V.entry h := by
    unfold openReader at hopen
    simp only at hopen
    split_ifs at hopen
    · exact V.openImage P.zso (by simp) path h r h₁ hopen
    · exact V.openImage P.cso (by simp) path h r h₁ hopen
    · exact V.openImage P.chd (by simp) path h r h₁ hopen
    · cases hopen
      rfl
  cases r <;> cases hok <;> exact hentry

/-! ### File handles -/

/-- The body of a method has read from a file at most. -/
structure Reads (V : Volume P) (f f' : FileHandle φ ρ) (w w' : World η) : Prop where
  /-- The handle is as writable as it was. -/
  readOnly : f'.readOnly = f.readOnly
  /-- The volume is as it was. -/
  entry : V.entry w'.host = V.entry w.host

variable {f f' f'' : FileHandle φ ρ} {w w' w'' : World η}

/-- One after the other. -/
theorem Reads.trans (h : V.Reads f f' w w') (h' : V.Reads f' f'' w' w'') : V.Reads f f'' w w'' :=
  ⟨h'.readOnly.trans h.readOnly, h'.entry.trans h.entry⟩

/-- `Read`. -/
theorem reads_read {n : ℕ} {r : List Byte × Option Error}
    (hok : f.read P n w = .ok (r, f', w')) : V.Reads f f' w w' := by
  obtain ⟨⟨r', obj, host⟩, hread, hok⟩ := Fallible.bind_eq_ok.mp hok
  cases hok
  exact ⟨rfl, entry_readObject hread⟩

/-- `Seek`. -/
theorem reads_seek (f : FileHandle φ ρ) (offset whence : ℤ) (w : World η) :
    V.Reads f (f.seek P offset whence w).2.1 w (f.seek P offset whence w).2.2 := by
  obtain ⟨id, path, _ | c, wr, readOnly⟩ := f
  · exact ⟨rfl, V.seek _ offset whence w.host⟩
  · exact ⟨rfl, rfl⟩

/-- `Close`. -/
theorem entry_close (f : FileHandle φ ρ) (w : World η) :
    V.entry (f.close P w).host = V.entry w.host := by
  obtain ⟨id, path, _ | c, wr, readOnly⟩ := f
  · exact V.close _ w.host
  · exact V.closeImage c.br w.host

end Volume

/-- Nothing can be written through the backend. -/
structure Backend.Sealed (s : Backend η φ ρ) : Prop where
  /-- The backend is read-only. -/
  readOnly : s.readOnly = true
  /-- The files in the table are. -/
  file : ∀ i f, s.handles i = some (.file f) → f.readOnly = true
  /-- The block device is. -/
  device : ∀ bd, s.bdHandle = some bd → bd.file.readOnly = true

/-- A slot can be refilled with what is read-only. -/
theorem Backend.Sealed.update {s : Backend η φ ρ} (hs : s.Sealed) (i : Fin maxHandles)
    {h : Option (Handle φ ρ)} (hh : ∀ f, h = some (.file f) → f.readOnly = true)
    (j : Fin maxHandles) (f : FileHandle φ ρ)
    (hj : Function.update s.handles i h j = some (.file f)) : f.readOnly = true := by
  by_cases hji : j = i
  · subst hji
    rw [Function.update_self] at hj
    exact hh f hj
  · rw [Function.update_of_ne hji] at hj
    exact hs.file j f hj

/-- A sealed backend stays sealed, and the volume is as it was. -/
structure Volume.Spares {P : Platform η φ ρ} (V : Volume P) (s t : Backend η φ ρ) : Prop where
  /-- The backend. -/
  stays : s.Sealed → t.Sealed
  /-- The volume. -/
  entry : V.entry t.world.host = V.entry s.world.host

namespace Volume

variable {P : Platform η φ ρ} {V : Volume P} {s t u : Backend η φ ρ}

/-- Nothing is done. -/
theorem Spares.refl (s : Backend η φ ρ) : V.Spares s s := ⟨id, rfl⟩

/-- One after the other. -/
theorem Spares.trans (h : V.Spares s t) (h' : V.Spares t u) : V.Spares s u :=
  ⟨h'.stays ∘ h.stays, h'.entry.trans h.entry⟩

/-! ### Methods on a handle -/

/-- A method on a file handle spares the volume when its body does. -/
theorem Spares.withFile {α : Type} {handle : ℤ} {missing a : α}
    {body : FileHandle φ ρ → World η → Except Fault (α × FileHandle φ ρ × World η)}
    (hbody : ∀ f w a f' w', body f w = .ok (a, f', w') → V.Reads f f' w w')
    (hok : s.withFile handle missing body = .ok (a, t)) : V.Spares s t := by
  obtain ⟨⟨found, s₁⟩, hget, hok⟩ := Fallible.bind_eq_ok.mp hok
  obtain ⟨-, hworld, hfound⟩ := Backend.getFile_spec hget
  match found, hok with
  | none, hok =>
    cases hok
    rw [Backend.getFile_none hget]
    exact .refl s
  | some (ref, f), hok =>
    obtain ⟨-, href⟩ := hfound ref f rfl
    obtain ⟨⟨a', f', w'⟩, hrun, hok⟩ := Fallible.bind_eq_ok.mp hok
    cases hok
    have hreads := hbody f s₁.world _ f' w' hrun
    refine ⟨?_, by rw [← hworld]; exact hreads.entry⟩
    intro hs
    rcases href with ⟨-, rfl, rfl, n, hbd⟩ | ⟨i, rfl, rfl, -, hi⟩
    · refine ⟨hs.readOnly, hs.file, ?_⟩
      intro bd hbd'
      simp only [Backend.putFile, hbd, Option.map_some, Option.some.injEq] at hbd'
      rw [← hbd']
      exact hreads.readOnly.trans (hs.device _ hbd)
    · refine ⟨hs.readOnly, ?_, hs.device⟩
      refine hs.update i ?_
      rintro g ⟨⟩
      exact hreads.readOnly.trans (hs.file i f hi)

variable {buf : Buffer Byte} {fullPath : Path}

/-- `Read`. -/
theorem Spares.read {handle : ℤ} {size : BitVec 32} {r : Udpfs.ReadResult × Buffer Byte}
    (hok : Backend.read P handle size buf s = .ok (r, t)) :
    V.Spares s t := by
  apply withFile _ hok
  intro f w a f' w' hbody
  split at hbody
  · cases hbody
  obtain ⟨⟨⟨bytes, err⟩, f₁, w₁⟩, hread, hbody⟩ := Fallible.bind_eq_ok.mp hbody
  cases hbody
  exact reads_read hread

/-- `Bread`. -/
theorem Spares.bread {handle sectorNr : ℤ} {sectorCount : BitVec 16}
    {r : Udpfs.ReadResult × Buffer Byte}
    (hok : Backend.bread P handle sectorNr sectorCount buf s = .ok (r, t)) : V.Spares s t := by
  apply withFile _ hok
  intro f w a f' w' hbody
  have hseek : V.Reads f _ w _ :=
    reads_seek f (int64 (sectorNr * s.sectorSizeOf handle)) 0 w
  unfold Backend.breadBody at hbody
  simp only at hbody
  split at hbody
  · cases hbody
    exact hseek
  split at hbody
  · cases hbody
  obtain ⟨⟨⟨bytes, err⟩, f₁, w₁⟩, hread, hbody⟩ := Fallible.bind_eq_ok.mp hbody
  cases hbody
  exact hseek.trans (reads_read hread)

/-- `Lseek`. -/
theorem Spares.lseek {handle offset whence : ℤ} {r : ℤ × Option Error}
    (hok : Backend.lseek P handle offset whence s = .ok (r, t)) : V.Spares s t := by
  apply withFile _ hok
  intro f w a f' w' hbody
  cases hbody
  exact reads_seek f offset whence w

/-- `Dread`. -/
theorem Spares.dread {handle : ℤ} {r : Backend.DreadResult}
    (hok : Backend.dread P handle s = .ok (r, t)) : V.Spares s t := by
  obtain ⟨⟨found, s₁⟩, hget, hok⟩ := Fallible.bind_eq_ok.mp hok
  obtain ⟨i, -, hget⟩ := Fallible.bind_eq_ok.mp hget
  split at hget
  · cases hget
    simp only at hok
    split at hok
    · cases hok
      exact ⟨fun hs => ⟨hs.readOnly, hs.file, hs.device⟩, rfl⟩
    · cases hok
      exact ⟨fun hs => ⟨hs.readOnly, hs.update i (by simp), hs.device⟩, rfl⟩
  · cases hget
    cases hok
    exact .refl s

/-! ### Starting a write -/

/-- What `getFile` finds in a sealed backend is read-only. -/
theorem readOnly_getFile {handle : ℤ} {ref : FileRef} {f : FileHandle φ ρ} (hs : s.Sealed)
    (hget : s.getFile handle = .ok (some (ref, f), t)) : f.readOnly = true := by
  obtain ⟨-, -, hfound⟩ := Backend.getFile_spec hget
  rcases (hfound ref f rfl).2 with ⟨-, -, -, n, hbd⟩ | ⟨i, -, -, -, hi⟩
  · exact hs.device _ hbd
  · exact hs.file i f hi

/-- A sealed backend starts no write. -/
theorem start_refused {handle : ℤ} {err : Option Error} (start : WriteState → WriteState)
    (hs : s.Sealed)
    (hok : s.withFile handle (some Error.invalid) (fun f w =>
      if f.readOnly then .ok (some .permission, f, w)
      else .ok (none, { f with wr := start f.wr }, w)) = .ok (err, t)) :
    err ≠ none ∧ V.Spares s t := by
  constructor
  · obtain ⟨⟨found, s₁⟩, hget, hok⟩ := Fallible.bind_eq_ok.mp hok
    match found, hok with
    | none, hok =>
      cases hok
      exact Option.some_ne_none _
    | some (ref, f), hok =>
      obtain ⟨⟨a', f', w'⟩, hrun, hok⟩ := Fallible.bind_eq_ok.mp hok
      simp only [if_pos (readOnly_getFile hs hget)] at hrun
      cases hrun
      cases hok
      exact Option.some_ne_none _
  · apply Spares.withFile _ hok
    intro f w a f' w' hbody
    split at hbody <;> cases hbody <;> exact ⟨rfl, rfl⟩

/-! ### Methods on a path -/

/-- An open file is looked up. -/
theorem Spares.getFileByPath (s : Backend η φ ρ) (path : Path) :
    V.Spares s (s.getFileByPath path).2 := by
  unfold Backend.getFileByPath
  split
  · exact .refl s
  · split
    · exact ⟨fun hs => ⟨hs.readOnly, hs.file, hs.device⟩, rfl⟩
    · exact .refl s

/-- `Getstat` of a path. -/
theorem Spares.statOnHost (path : Path) (s : Backend η φ ρ) :
    V.Spares s (Backend.statOnHost P path s).2 := by
  unfold Backend.statOnHost
  split
  · exact .refl s
  · rename_i resolved _
    have hfind := Spares.getFileByPath (V := V) s resolved
    simp only
    split <;> split <;> exact hfind

/-- `Getstat`. -/
theorem Spares.getstat {path : Path} {r : Udpfs.StatInfo × Option Error}
    (hok : Backend.getstat P path s = .ok (r, t)) : V.Spares s t := by
  unfold Backend.getstat at hok
  split at hok
  · cases hok
    exact .refl s
  · have hstat : t = (Backend.statOnHost P _ s).2 := (congrArg Prod.snd (Except.ok.inj hok)).symm
    rw [hstat]
    exact .statOnHost _ s

/-- A sealed backend changes no directory. -/
theorem Spares.changeDir {op : Path → η → Option Error × η} {path : Path} {r : Option Error}
    (hs : s.Sealed) (hok : Backend.changeDir P op path s = .ok (r, t)) : V.Spares s t := by
  rw [Backend.changeDir, if_pos hs.readOnly] at hok
  cases hok
  exact .refl s

/-- `Mkdir`. -/
theorem Spares.mkdir {path : Path} {r : Option Error} (hs : s.Sealed)
    (hok : Backend.mkdir P path s = .ok (r, t)) : V.Spares s t := by
  unfold Backend.mkdir at hok
  exact .changeDir hs hok

/-! ### Opening and closing -/

/-- What is in a slot is closed. -/
theorem entry_closeSlot (s : Backend η φ ρ) (i : Fin maxHandles) :
    V.entry (s.closeSlot P i).host = V.entry s.world.host := by
  unfold Backend.closeSlot
  cases s.handles i with
  | none => rfl
  | some h =>
    cases h with
    | file f => exact entry_close f s.world
    | dir d => rfl

/-- `Close`. -/
theorem Spares.close {handle : ℤ} {r : Option Error}
    (hok : Backend.close P handle s = .ok (r, t)) : V.Spares s t := by
  obtain ⟨⟨ok, s₁⟩, hfree, hok⟩ := Fallible.bind_eq_ok.mp hok
  cases hok
  unfold Backend.freeHandle at hfree
  split at hfree
  · cases hfree
    exact .refl s
  obtain ⟨i, -, hfree⟩ := Fallible.bind_eq_ok.mp hfree
  cases hfree
  exact ⟨fun hs => ⟨hs.readOnly, hs.update i (by simp), hs.device⟩, entry_closeSlot s i⟩

/-- A handle is put into the table. -/
theorem Spares.allocHandle (s : Backend η φ ρ) {h : Handle φ ρ}
    (hh : ∀ f, h = .file f → f.readOnly = true) : V.Spares s (s.allocHandle P h).2 := by
  unfold Backend.allocHandle
  split
  · exact .refl s
  rename_i i _
  refine ⟨fun hs => ⟨hs.readOnly, hs.update i ?_, hs.device⟩, entry_closeSlot s i⟩
  rintro f heq
  exact hh f (Option.some.inj heq)

/-- The world may change as long as the volume does not. -/
theorem Spares.setWorld (s : Backend η φ ρ) {w : World η}
    (hentry : V.entry w.host = V.entry s.world.host) : V.Spares s { s with world := w } :=
  ⟨fun hs => ⟨hs.readOnly, hs.file, hs.device⟩, hentry⟩

/-- A file gets a handle. -/
theorem Spares.addFile (s : Backend η φ ρ) (hostPath : Path) (obj : FileObject φ ρ) :
    V.Spares s (s.addFile P hostPath obj true).2 := by
  let f : FileHandle φ ρ := ⟨s.world.objects, hostPath, obj, .zero, true⟩
  let s₁ : Backend η φ ρ := { s with world.objects := s.world.objects + 1 }
  have halloc : V.Spares s₁ (s₁.allocHandle P (.file f)).2 := by
    apply Spares.allocHandle
    intro g hg
    cases hg
    rfl
  have hfirst : V.Spares s s₁ := Spares.setWorld s rfl
  have hnew := hfirst.trans halloc
  unfold Backend.addFile
  simp only
  split
  · exact hnew.trans (Spares.setWorld _ (entry_close f _))
  · exact hnew

/-- A directory gets a handle. -/
theorem Spares.addDir (s : Backend η φ ρ) (dirPath : Path) (entries : List Path) :
    V.Spares s (s.addDir P dirPath entries).2 := by
  have hnew : V.Spares s { s with world.objects := s.world.objects + 1 } := Spares.setWorld s rfl
  refine hnew.trans (Spares.allocHandle _ ?_)
  intro f hf
  cases hf

/-- The end of `Open`. -/
theorem Spares.finishOpen {stat : η → Except Error Udpfs.FileInfo} {added : ℤ × Backend η φ ρ}
    {r : Backend.OpenResult} (hadded : V.Spares s added.2)
    (hok : Backend.finishOpen stat added = .ok (r, t)) : V.Spares s t := by
  unfold Backend.finishOpen at hok
  split at hok
  · cases hok
    exact hadded
  · split at hok <;> cases hok
    exact hadded

/-- A plain file is opened for reading. -/
theorem Spares.openPlain {present : Bool} {r : Backend.OpenResult}
    (hok : s.openPlain P fullPath oRDONLY present = .ok (r, t)) : V.Spares s t := by
  unfold Backend.openPlain at hok
  split at hok
  · cases hok
    exact .refl s
  simp only at hok
  have hopen : V.entry (P.os.openFile fullPath oRDONLY (if oRDONLY &&& oCREATE ≠ 0 then
      P.os.mkdirAll fullPath.dir s.world.host else s.world.host)).2 = V.entry s.world.host := by
    rw [if_neg (by decide)]
    exact V.openFile fullPath s.world.host
  split at hok
  · rename_i heq
    rw [heq] at hopen
    cases hok
    exact .setWorld s hopen
  · rename_i f host heq
    rw [heq] at hopen
    have hadd := Spares.addFile (V := V) (s.setHost host) fullPath (.osFile fullPath f)
    exact .finishOpen ((Spares.setWorld s hopen).trans hadd) hok

/-- `Open` of a file or an image. -/
theorem Spares.openRegular {r : Backend.OpenResult}
    (hok : s.openRegular P fullPath oRDONLY = .ok (r, t)) : V.Spares s t := by
  unfold Backend.openRegular at hok
  simp only at hok
  split at hok
  · exact .openPlain hok
  · rename_i image _
    obtain ⟨⟨wrapper, host⟩, hopen, hok⟩ := Fallible.bind_eq_ok.mp hok
    have hhost : V.Spares s (s.setHost host) := .setWorld s (entry_openCompressed hopen)
    cases wrapper with
    | none => exact hhost.trans (.openPlain hok)
    | some c => exact .finishOpen (hhost.trans (.addFile _ image (.cachedReader c))) hok

/-- A sealed backend refuses to open for writing, and what is opened for reading spares the
volume. -/
theorem Spares.openFile {path : Path} {flag : OpenFlag} {isDir : Bool} {r : Backend.OpenResult}
    (hs : s.Sealed) (hflag : Backend.wantWrite flag = false → flag = oRDONLY)
    (hok : Backend.openFile P path flag isDir s = .ok (r, t)) : V.Spares s t := by
  unfold Backend.openFile at hok
  split at hok
  · cases hok
    exact .refl s
  simp only [hs.readOnly, Bool.true_or, Bool.and_true] at hok
  split at hok
  · cases hok
    exact .refl s
  rename_i hwrite
  rw [hflag (by simpa using hwrite)] at hok
  split at hok
  · cases hok
    exact .refl s
  split at hok
  · unfold Backend.openDir at hok
    split at hok
    · cases hok
      exact .refl s
    · exact .finishOpen (.addDir s _ _) hok
  · exact .openRegular hok

/-! ### The new backend -/

/-- A backend made for reading only is sealed, and its making spares the volume. -/
theorem sealed_newBackend {o : Options} {host : η} {now : ℕ} (V : Volume P)
    (ho : o.readOnly = true) (hnew : Backend.newBackend P o host now = .ok (some s)) :
    s.Sealed ∧ V.entry s.world.host = V.entry host := by
  obtain ⟨hhandles, -, hreadOnly, hdevice⟩ := Backend.newBackend_spec hnew
  have hfile (i : Fin maxHandles) (f : FileHandle φ ρ) (hi : s.handles i = some (.file f)) :
      f.readOnly = true := by
    rw [hhandles] at hi
    cases hi
  rcases hdevice with ⟨hnone, hhost⟩ | ⟨f, size, hopen, hsome, -⟩
  · refine ⟨⟨hreadOnly.trans ho, hfile, ?_⟩, by rw [hhost]⟩
    intro bd hbd
    rw [hnone] at hbd
    cases hbd
  · refine ⟨⟨hreadOnly.trans ho, hfile, ?_⟩, ?_⟩
    · intro bd hbd
      rw [hsome] at hbd
      cases hbd
      exact ho
    · have hentry := V.openFile o.blockDevice host
      rw [if_pos ho] at hopen
      rwa [hopen] at hentry

end Volume

namespace Host

/-- An open for reading. -/
theorem openFile_oRDONLY (p : Path) (h : Host) : (openFile p oRDONLY h).2 = h := by
  unfold openFile
  split
  · split <;> rfl
  · rfl
  · split_ifs with hcreate
    · simp [oRDONLY] at hcreate
    · rfl

/-- `File.Read`. -/
theorem host_read (f : OsFile) (n : ℕ) (h : Host) : (read f n h).2.2 = h := by
  unfold read
  split
  · rfl
  · simp only
    split_ifs <;> rfl

/-- `File.Seek`. -/
theorem host_seek (f : OsFile) (offset whence : ℤ) (h : Host) :
    (seek f offset whence h).2.2 = h := by
  unfold seek
  simp only
  split_ifs <;> rfl

/-- The tree of the host, with the contents of its files. -/
def tree : Tree os where
  entry := fun h p => (h.lookup p).map fun
    | .dir => .dir
    | .file ino => .file (h.contents ino)
  openFile := by
    intro p h
    rw [show (os.openFile p oRDONLY h).2 = h from openFile_oRDONLY p h]
  read := by
    intro f n h
    rw [show (os.read f n h).2.2 = h from host_read f n h]
  seek := by
    intro f offset whence h
    rw [show (os.seek f offset whence h).2.2 = h from host_seek f offset whence h]
  close := fun _ _ => rfl

end Host

end Udpfsd.Fs
