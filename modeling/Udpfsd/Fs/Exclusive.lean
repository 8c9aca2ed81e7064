import Udpfsd.Fs.Host
import Udpfsd.Fs.Table

/-!
# Writers are alone

A file that a live handle has open for writing should have no other live handle. `Open`
looks for the first handle whose name is the path asked for. That is enough for plain
files, whose name is the path opened on the host, but a decompressed image reports the
empty name. So the property holds in the runs in which no image is opened both ways.
-/

namespace Udpfsd.Fs

open Udprdma (Byte)
open Udpfs (Error Fault OpenFlag)

variable {η φ ρ : Type}

/-- A call of a method of `Backend` by some connection, or a passing of time. -/
inductive Call
  /-- `Open`. -/
  | openFile (path : Path) (flag : OpenFlag) (isDir : Bool)
  /-- `Close`. -/
  | close (handle : ℤ)
  /-- `Read`. -/
  | read (handle : ℤ) (size : BitVec 32) (readBuffer : Buffer Byte)
  /-- `WriteStart`. -/
  | writeStart (handle : ℤ)
  /-- `WriteChunk`. -/
  | writeChunk (handle : ℤ) (chunkNr chunkSize totalChunks : BitVec 16) (chunk : List Byte)
  /-- `CompleteWrite`. -/
  | completeWrite (handle : ℤ)
  /-- `Lseek`. -/
  | lseek (handle offset whence : ℤ)
  /-- `Dread`. -/
  | dread (handle : ℤ)
  /-- `Getstat`. -/
  | getstat (path : Path)
  /-- `Mkdir`. -/
  | mkdir (path : Path)
  /-- `Remove`. -/
  | remove (path : Path)
  /-- `Rmdir`. -/
  | rmdir (path : Path)
  /-- `Bread`. -/
  | bread (handle sectorNr : ℤ) (sectorCount : BitVec 16) (readBuffer : Buffer Byte)
  /-- `BwriteStart`. -/
  | bwriteStart (handle sectorNr : ℤ) (sectorCount : BitVec 16)
  /-- Nanoseconds pass. -/
  | wait (d : ℕ)

namespace Backend

/-- The backend after a call. -/
def step (P : Platform η φ ρ) (s : Backend η φ ρ) : Call → Except Fault (Backend η φ ρ)
  | .openFile path flag isDir => Prod.snd <$> openFile P path flag isDir s
  | .close handle => Prod.snd <$> close P handle s
  | .read handle size readBuffer => Prod.snd <$> read P handle size readBuffer s
  | .writeStart handle => Prod.snd <$> writeStart handle s
  | .writeChunk handle chunkNr chunkSize totalChunks chunk =>
    Prod.snd <$> writeChunk handle chunkNr chunkSize totalChunks chunk s
  | .completeWrite handle => Prod.snd <$> completeWrite P handle s
  | .lseek handle offset whence => Prod.snd <$> lseek P handle offset whence s
  | .dread handle => Prod.snd <$> dread P handle s
  | .getstat path => Prod.snd <$> getstat P path s
  | .mkdir path => Prod.snd <$> mkdir P path s
  | .remove path => Prod.snd <$> remove P path s
  | .rmdir path => Prod.snd <$> rmdir P path s
  | .bread handle sectorNr sectorCount readBuffer =>
    Prod.snd <$> bread P handle sectorNr sectorCount readBuffer s
  | .bwriteStart handle sectorNr sectorCount =>
    Prod.snd <$> bwriteStart handle sectorNr sectorCount s
  | .wait d => .ok (s.wait d)

/-- The states a backend reaches after `NewBackend` by calls that satisfy `guard`. -/
def Reachable (P : Platform η φ ρ) (guard : Backend η φ ρ → Call → Prop) :
    Backend η φ ρ → Prop :=
  Transition.Reachable
    (fun s => ∃ o host now, newBackend P o host now = .ok (some s))
    (fun s t => ∃ call, guard s call ∧ s.step P call = .ok t)

/-- A file that a live handle has open for writing has no other live handle. -/
def WriterAlone (s : Backend η φ ρ) : Prop :=
  ∀ i j f g, s.handles i = some (.file f) → s.handles j = some (.file g) → i ≠ j →
    f.hostPath = g.hostPath → f.readOnly = true ∧ g.readOnly = true

/-- No image is opened both ways: an image is decompressed only while no live handle has
it open for writing, and a file is opened for writing only while no live handle
decompresses it. -/
def ImagesApart (P : Platform η φ ρ) (s : Backend η φ ρ) : Call → Prop
  | .openFile path flag isDir => ∀ fullPath, s.resolvePath P path = some fullPath →
      (isDir = false → ∀ image, s.compressedPath P fullPath = some image →
        ∀ i f, s.handles i = some (.file f) → f.hostPath = image → f.readOnly = true) ∧
      (isDir = false → wantWrite flag = true →
        ∀ i f, s.handles i = some (.file f) → f.hostPath = fullPath → f.obj.decompressed = false)
  | _ => True

instance decidableForallFile (x : Option (Handle φ ρ)) (p : FileHandle φ ρ → Prop)
    [DecidablePred p] : Decidable (∀ f, x = some (.file f) → p f) :=
  match x with
  | some (.file f) => decidable_of_iff (p f) (by simp)
  | some (.dir _) => isTrue (by simp)
  | none => isTrue (by simp)

instance (P : Platform η φ ρ) (s : Backend η φ ρ) : DecidablePred (s.ImagesApart P)
  | .openFile path flag isDir => inferInstanceAs (Decidable (∀ fullPath ∈ s.resolvePath P path,
      (isDir = false → ∀ image ∈ s.compressedPath P fullPath,
        ∀ i f, s.handles i = some (.file f) → f.hostPath = image → f.readOnly = true) ∧
      (isDir = false → wantWrite flag = true →
        ∀ i f, s.handles i = some (.file f) → f.hostPath = fullPath → f.obj.decompressed = false)))
  | .close _ | .read .. | .writeStart _ | .writeChunk .. | .completeWrite _ | .lseek ..
  | .dread _ | .getstat _ | .mkdir _ | .remove _ | .rmdir _ | .bread .. | .bwriteStart ..
  | .wait _ =>
    isTrue trivial

end Backend

namespace Table

/-- What `Open` relies on about the names of live files, and what it keeps up. -/
structure Exclusive (T : Table) : Prop where
  /-- A plain file has the name of its host path; an image has no name and is read-only. -/
  named : ∀ i f, T.slots i = some (.file f) →
    (f.decompressed = false ∧ f.name = f.hostPath) ∨
      (f.decompressed = true ∧ f.name = [] ∧ f.readOnly = true)
  /-- Two handles on one file are both read-only. -/
  shared : ∀ i j f g, T.slots i = some (.file f) → T.slots j = some (.file g) → i ≠ j →
    f.hostPath = g.hostPath → f.readOnly = true ∧ g.readOnly = true

variable {T T' : Table}

/-- The invariant speaks of live handles only, so that it survives their loss. -/
theorem Exclusive.of_subset (h : Exclusive T)
    (hsub : ∀ i tag, T'.slots i = some tag → T.slots i = some tag) : Exclusive T' :=
  ⟨fun i f hi => h.named i f (hsub i _ hi),
    fun i j f g hi hj => h.shared i j f g (hsub i _ hi) (hsub j _ hj)⟩

theorem Exclusive.free (h : Exclusive T) (i : Fin maxHandles) : Exclusive (T.free i) := by
  apply h.of_subset
  intro j tag hj
  by_cases hji : j = i
  · subst hji
    simp [Table.free] at hj
  · simpa [Table.free, hji] using hj

/-- A new object keeps the invariant when it does so next to every live file. -/
theorem Exclusive.put {i : Fin maxHandles} {tag : Tag} (h : Exclusive T)
    (hnamed : ∀ f, tag = .file f → (f.decompressed = false ∧ f.name = f.hostPath) ∨
      (f.decompressed = true ∧ f.name = [] ∧ f.readOnly = true))
    (hshared : ∀ f, tag = .file f → ∀ j g, T.slots j = some (.file g) →
      g.hostPath = f.hostPath → f.readOnly = true ∧ g.readOnly = true) :
    Exclusive (T.put i tag) := by
  have hcases (j : Fin maxHandles) (f : FileTag) (hj : (T.put i tag).slots j = some (.file f)) :
      (j = i ∧ tag = .file f) ∨ (j ≠ i ∧ T.slots j = some (.file f)) := by
    by_cases hji : j = i
    · subst hji
      simp only [Table.put, Function.update_self, Option.some.injEq] at hj
      exact Or.inl ⟨rfl, hj⟩
    · simp only [Table.put, Function.update_of_ne hji] at hj
      exact Or.inr ⟨hji, hj⟩
  constructor
  · intro j f hj
    rcases hcases j f hj with ⟨-, htag⟩ | ⟨-, hold⟩
    · exact hnamed f htag
    · exact h.named j f hold
  · intro j k f g hj hk hjk hpath
    rcases hcases j f hj with ⟨rfl, hf⟩ | ⟨-, hf⟩ <;> rcases hcases k g hk with ⟨rfl, hg⟩ | ⟨-, hg⟩
    · exact absurd rfl hjk
    · exact hshared f hf k g hg hpath.symm
    · exact (hshared g hg j f hf hpath).symm
    · exact h.shared j k f g hf hg hjk hpath

end Table

namespace Backend

variable {P : Platform η φ ρ} {s t : Backend η φ ρ}

theorem slots_eq_some_file {i : Fin maxHandles} {f : FileTag} :
    s.table.slots i = some (.file f) ↔ ∃ h, s.handles i = some (.file h) ∧ h.tag = f := by
  simp only [table, Option.map_eq_some_iff]
  constructor
  · rintro ⟨h, hi, htag⟩
    cases h with
    | file h => exact ⟨h, hi, Tag.file.inj htag⟩
    | dir d => cases htag
  · rintro ⟨h, hi, rfl⟩
    exact ⟨.file h, hi, rfl⟩

/-- `getFileState` finds a file of this name, or there is none. -/
theorem getFileState_spec (s : Backend η φ ρ) (hostPath : Path) :
    (s.getFileState hostPath = (false, true) ∧
        ∀ i f, s.table.slots i = some (.file f) → f.name ≠ hostPath) ∨
      ∃ i f, s.table.slots i = some (.file f) ∧ f.name = hostPath ∧
        s.getFileState hostPath = (true, f.readOnly) := by
  unfold getFileState
  split
  · rename_i hnone
    refine Or.inl ⟨rfl, ?_⟩
    intro i f hslot hname
    obtain ⟨h, hi, rfl⟩ := slots_eq_some_file.mp hslot
    have hno : ¬ isNamed hostPath (s.handles i) = true :=
      List.find?_eq_none.mp hnone i (List.mem_finRange i)
    rw [hi] at hno
    simp only [isNamed, decide_eq_true_eq] at hno
    exact hno hname
  · rename_i i hsome
    have hnamed := List.find?_some hsome
    cases hi : s.handles i with
    | none => simp [hi, isNamed] at hnamed
    | some h =>
      cases h with
      | dir d => simp [hi, isNamed] at hnamed
      | file f =>
        simp only [hi, isNamed, decide_eq_true_eq] at hnamed
        exact Or.inr ⟨i, f.tag, slots_eq_some_file.mpr ⟨f, hi, rfl⟩, hnamed, rfl⟩

/-- A resolved path is not empty. -/
theorem resolvePath_ne_nil {path fullPath : Path}
    (h : s.resolvePath P path = some fullPath) : fullPath ≠ [] := by
  unfold resolvePath at h
  split at h
  · cases h
  have hroot : underRoot s.fsRoot fullPath = true := (Option.filter_eq_some_iff.mp h).2
  rintro rfl
  simp only [underRoot, Bool.or_eq_true, decide_eq_true_eq] at hroot
  rcases hroot with hroot | hroot
  · simp at hroot
  · exact Path.clean_ne_nil _ hroot.symm

/-- The new object of an `Open` keeps writers alone if no image is opened both ways. -/
theorem exclusive_put {path : Path} {flag : OpenFlag} {isDir : Bool} {i : Fin maxHandles}
    {tag : Tag} (h : s.table.Exclusive) (hopens : Opens P s path flag isDir tag)
    (hapart : ImagesApart P s (.openFile path flag isDir)) : (s.table.put i tag).Exclusive := by
  cases hopens with
  | dir => exact h.put (fun f hf => by cases hf) (fun f hf => by cases hf)
  | image hpath hfile himage =>
    apply h.put
    · intro f hf
      cases hf
      exact Or.inr ⟨rfl, rfl, rfl⟩
    · intro f hf j g hj hsame
      cases hf
      obtain ⟨k, hk, rfl⟩ := slots_eq_some_file.mp hj
      exact ⟨rfl, (hapart _ hpath).1 hfile _ himage j k hk hsame⟩
  | @plain fullPath hpath hfile hwrite hread =>
    apply h.put
    · intro f hf
      cases hf
      exact Or.inl ⟨rfl, rfl⟩
    · intro f hf j g hj hsame
      cases hf
      simp only at hsame
      rcases Bool.eq_false_or_eq_true (wantWrite flag) with hw | hw
      · -- a writer is let in only when no live file has its path
        exfalso
        have hplain : g.decompressed = false := by
          obtain ⟨k, hk, rfl⟩ := slots_eq_some_file.mp hj
          exact (hapart _ hpath).2 hfile hw j k hk hsame
        have hname : g.name = fullPath := by
          rcases h.named j g hj with ⟨-, hname⟩ | ⟨hdec, -⟩
          · rw [hname, hsame]
          · rw [hplain] at hdec
            cases hdec
        rcases getFileState_spec s fullPath with ⟨-, hnone⟩ | ⟨k, f, -, -, hstate⟩
        · exact hnone j g hj hname
        · have hclosed := hwrite hw
          rw [hstate] at hclosed
          cases hclosed
      · -- a reader is let in when the first file of this name is read-only
        refine ⟨by simp [hw], ?_⟩
        rcases h.named j g hj with ⟨-, hname⟩ | ⟨-, -, hro⟩
        · rw [hsame] at hname
          rcases getFileState_spec s fullPath with ⟨-, hnone⟩ | ⟨k, f, hk, hf, hstate⟩
          · exact absurd hname (hnone j g hj)
          · have hfirst : f.readOnly = true := by
              by_contra hro
              rw [Bool.not_eq_true] at hro
              exact hread hw (by rw [hstate, hro])
            have hfpath : f.hostPath = fullPath := by
              rcases h.named k f hk with ⟨-, heq⟩ | ⟨-, heq, -⟩
              · rw [← heq, hf]
              · exact absurd (hf.symm.trans heq) (resolvePath_ne_nil hpath)
            by_cases hjk : j = k
            · subst hjk
              rw [hj] at hk
              cases hk
              exact hfirst
            · exact (h.shared j k g f hj hk hjk (hsame.trans hfpath.symm)).1
        · exact hro

/-- A call opens an object, empties a slot or leaves the slots as they are. -/
theorem step_cases {call : Call} (hok : s.step P call = .ok t) :
    (∃ path flag isDir r, call = .openFile path flag isDir ∧
        OpenOutcome P s t path flag isDir r) ∨
      (∃ i, t.table = s.table.free i) ∨ t.table.slots = s.table.slots := by
  cases call with
  | openFile path flag isDir =>
    obtain ⟨r, hok⟩ := Fallible.map_snd_eq_ok.mp hok
    exact Or.inl ⟨path, flag, isDir, r, rfl, openFile_spec hok⟩
  | close handle =>
    obtain ⟨r, hok⟩ := Fallible.map_snd_eq_ok.mp hok
    rcases (close_spec hok).2 with ⟨-, rfl⟩ | ⟨i, -, htable⟩
    · exact Or.inr (Or.inr rfl)
    · exact Or.inr (Or.inl ⟨i, htable⟩)
  | wait d =>
    cases hok
    exact Or.inr (Or.inr rfl)
  | read handle size readBuffer =>
    obtain ⟨r, hok⟩ := Fallible.map_snd_eq_ok.mp hok
    exact Or.inr (Or.inr (read_spec hok).1.slots)
  | writeStart handle =>
    obtain ⟨r, hok⟩ := Fallible.map_snd_eq_ok.mp hok
    exact Or.inr (Or.inr (writeStart_spec hok).1.slots)
  | writeChunk handle chunkNr chunkSize totalChunks chunk =>
    obtain ⟨r, hok⟩ := Fallible.map_snd_eq_ok.mp hok
    exact Or.inr (Or.inr (writeChunk_spec chunkSize hok).1.slots)
  | completeWrite handle =>
    obtain ⟨r, hok⟩ := Fallible.map_snd_eq_ok.mp hok
    exact Or.inr (Or.inr (completeWrite_spec hok).1.slots)
  | lseek handle offset whence =>
    obtain ⟨r, hok⟩ := Fallible.map_snd_eq_ok.mp hok
    exact Or.inr (Or.inr (lseek_spec hok).1.slots)
  | dread handle =>
    obtain ⟨r, hok⟩ := Fallible.map_snd_eq_ok.mp hok
    exact Or.inr (Or.inr (dread_spec hok).1.slots)
  | getstat path =>
    obtain ⟨r, hok⟩ := Fallible.map_snd_eq_ok.mp hok
    exact Or.inr (Or.inr (congrArg Table.slots (getstat_spec hok)))
  | mkdir path =>
    obtain ⟨r, hok⟩ := Fallible.map_snd_eq_ok.mp hok
    exact Or.inr (Or.inr (congrArg Table.slots (changeDir_spec hok)))
  | remove path =>
    obtain ⟨r, hok⟩ := Fallible.map_snd_eq_ok.mp hok
    exact Or.inr (Or.inr (congrArg Table.slots (changeDir_spec hok)))
  | rmdir path =>
    obtain ⟨r, hok⟩ := Fallible.map_snd_eq_ok.mp hok
    exact Or.inr (Or.inr (congrArg Table.slots (changeDir_spec hok)))
  | bread handle sectorNr sectorCount readBuffer =>
    obtain ⟨r, hok⟩ := Fallible.map_snd_eq_ok.mp hok
    exact Or.inr (Or.inr (bread_spec hok).1.slots)
  | bwriteStart handle sectorNr sectorCount =>
    obtain ⟨r, hok⟩ := Fallible.map_snd_eq_ok.mp hok
    exact Or.inr (Or.inr (bwriteStart_spec hok).1.slots)

theorem exclusive_step {call : Call} (h : s.table.Exclusive) (hapart : ImagesApart P s call)
    (hok : s.step P call = .ok t) : t.table.Exclusive := by
  rcases step_cases hok with ⟨path, flag, isDir, r, rfl, houtcome⟩ | ⟨i, hfree⟩ | hslots
  · rcases houtcome with ⟨-, hrejects⟩ | ⟨-, i, tag, -, -, hput, -, hopens⟩
    · exact h.of_subset (fun i tag hi => by rwa [hrejects.slots] at hi)
    · rw [hput]
      exact exclusive_put h hopens hapart
  · rw [hfree]
    exact h.free i
  · exact h.of_subset (fun i tag hi => by rwa [hslots] at hi)

/-- In every run in which no image is opened both ways, a file that a live handle has
open for writing has no other live handle. -/
theorem writer_is_alone (h : Reachable P (ImagesApart P) s) : s.WriterAlone := by
  have hexclusive : s.table.Exclusive := by
    refine Transition.Reachable.invariant (P := fun s => s.table.Exclusive) ?_ ?_ h
    · rintro s ⟨o, host, now, hnew⟩
      have hnone (i : Fin maxHandles) : s.table.slots i = none := by
        simp [table, handles_newBackend hnew]
      constructor
      · intro i f hi
        simp [hnone] at hi
      · intro i j f g hi
        simp [hnone] at hi
    · rintro s t - hs ⟨call, hapart, hok⟩
      exact exclusive_step hs hapart hok
  intro i j f g hi hj hij hpath
  exact hexclusive.shared i j f.tag g.tag (slots_eq_some_file.mpr ⟨f, hi, rfl⟩)
    (slots_eq_some_file.mpr ⟨g, hj, rfl⟩) hij hpath

/-- What is seen of the backend after `NewBackend` and some calls. -/
def after {β : Type} (P : Platform η φ ρ) (o : Options) (host : η) (calls : List Call)
    (view : Backend η φ ρ → β) : Option β :=
  observe P o host id (step P) calls .ok (fun _ => view)

end Backend

/-- The path of an image on the host. -/
def imagePath : Path := Path.ascii ['/', 'r', '/', 'g', '.', 'c', 's', 'o']

/-- A host with a directory `/r` that holds the image. -/
def imageHost : Host := ⟨[(Path.ascii ['/', 'r'], .dir), (imagePath, .file 0)], fun _ => [], 1⟩

/-- The directory is served, with decompression. -/
def imageOptions : Options := ⟨Path.ascii ['/', 'r'], [], 0, false, true, 0⟩

/-- The image is opened under its own name, for writing. -/
def openForWriting : Call := .openFile (Path.ascii ['g', '.', 'c', 's', 'o']) Udpfs.oRDWR false

/-- The image is opened under its own name, for reading. -/
def openToRead : Call := .openFile (Path.ascii ['g', '.', 'c', 's', 'o']) Udpfs.oRDONLY false

/-- The image is opened decompressed, for reading. -/
def openDecompressed : Call :=
  .openFile (Path.ascii ['g', '.', 'c', 's', 'o', '.', 'i', 's', 'o']) Udpfs.oRDONLY false

namespace Backend

/-- The first two slots. -/
def firstSlots (s : Backend η φ ρ) : Option Tag × Option Tag := (s.table.slots 0, s.table.slots 1)

/-- A file that is read cannot be opened for writing, and one that is written cannot be opened. -/
theorem writer_is_alone_of_five_calls :
    ∃ t : Backend Host OsFile Host.Image,
      t.firstSlots = (some (.file ⟨1, imagePath, imagePath, false, false⟩), none) ∧
        t.WriterAlone := by
  have hview : observe Host.platform imageOptions imageHost id
      (fun s call => Fallible.guarded (s.ImagesApart Host.platform call)
        (s.step Host.platform call))
      [openToRead, openForWriting, .close 1, openForWriting, openToRead] .ok
      (fun _ => firstSlots) =
        some (some (.file ⟨1, imagePath, imagePath, false, false⟩), none) := by decide +kernel
  obtain ⟨s, t, _, hnew, hrun, ⟨⟩, hslots⟩ := observe_eq_some hview
  have hreach : Reachable Host.platform (ImagesApart Host.platform) t :=
    Transition.Reachable.foldlM (fun call _ _ _ hstep => ⟨call, Fallible.guarded_eq_ok.mp hstep⟩)
      (.start ⟨_, _, _, hnew⟩) hrun
  exact ⟨t, hslots, writer_is_alone hreach⟩

/-- An image can be decompressed by one handle while another has it open for writing,
whichever comes first. -/
theorem image_read_while_written :
    (∃ t : Backend Host OsFile Host.Image, Reachable Host.platform (fun _ _ => True) t ∧
      t.firstSlots = (some (.file ⟨0, [], imagePath, true, true⟩),
        some (.file ⟨1, imagePath, imagePath, false, false⟩)) ∧ ¬ t.WriterAlone) ∧
    ∃ t : Backend Host OsFile Host.Image, Reachable Host.platform (fun _ _ => True) t ∧
      t.firstSlots = (some (.file ⟨0, imagePath, imagePath, false, false⟩),
        some (.file ⟨1, [], imagePath, true, true⟩)) ∧ ¬ t.WriterAlone := by
  have hreach {s t : Backend Host OsFile Host.Image} {calls : List Call}
      (hnew : newBackend Host.platform imageOptions imageHost 0 = .ok (some s))
      (hrun : calls.foldlM (step Host.platform) s = .ok t) :
      Reachable Host.platform (fun _ _ => True) t :=
    Transition.Reachable.foldlM (fun call _ _ _ hstep => ⟨call, trivial, hstep⟩)
      (.start ⟨_, _, _, hnew⟩) hrun
  have hshared {t : Backend Host OsFile Host.Image} {f g : FileTag}
      (hslots : t.firstSlots = (some (.file f), some (.file g))) (hpath : f.hostPath = g.hostPath)
      (hwriter : ¬ (f.readOnly = true ∧ g.readOnly = true)) : ¬ t.WriterAlone := by
    intro halone
    obtain ⟨x, hx, rfl⟩ := slots_eq_some_file.mp (congrArg Prod.fst hslots)
    obtain ⟨y, hy, rfl⟩ := slots_eq_some_file.mp (congrArg Prod.snd hslots)
    exact hwriter (halone 0 1 x y hx hy (by decide) hpath)
  constructor
  · have hview : after Host.platform imageOptions imageHost [openDecompressed, openForWriting]
        firstSlots = some (some (.file ⟨0, [], imagePath, true, true⟩),
          some (.file ⟨1, imagePath, imagePath, false, false⟩)) := by rfl
    obtain ⟨s, t, _, hnew, hrun, ⟨⟩, hslots⟩ := observe_eq_some hview
    exact ⟨t, hreach hnew hrun, hslots, hshared hslots rfl (by decide)⟩
  · have hview : after Host.platform imageOptions imageHost [openForWriting, openDecompressed]
        firstSlots = some (some (.file ⟨0, imagePath, imagePath, false, false⟩),
          some (.file ⟨1, [], imagePath, true, true⟩)) := by rfl
    obtain ⟨s, t, _, hnew, hrun, ⟨⟩, hslots⟩ := observe_eq_some hview
    exact ⟨t, hreach hnew hrun, hslots, hshared hslots rfl (by decide)⟩

end Backend

end Udpfsd.Fs
