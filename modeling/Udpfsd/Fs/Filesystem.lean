import Udpfsd.Fs.Volume

/-!
# What opening does to a host

Opening a file may create or truncate it, and leaves it open. A `Filesystem` says this of package
`os`, along with the directories that `MkdirAll` makes. Of a decoder it is needed that an image that
cannot be opened is closed again, and that closing an image closes its file. For the decoders of
ZSO and CSO images this follows from what package `os` does.
-/

namespace Udpfsd.Fs

open Udprdma (Byte)
open Udpfs (Error Fault OpenFlag oRDONLY oCREATE oTRUNC)

variable {η φ ρ α : Type}

/-- Whether opening with these flags changes what is found at a path: a file is created where
there is nothing, and a file with bytes in it is truncated. -/
def Alters (flag : OpenFlag) (found : Option Entry) : Prop :=
  (flag &&& oCREATE ≠ 0 ∧ found = none) ∨
    (flag &&& oTRUNC ≠ 0 ∧ ∃ bytes, found = some (.file bytes) ∧ bytes ≠ [])

/-- The tree of a host, the number of its open files, and what package `os` does to them. -/
structure Filesystem (os : OS η φ) where
  /-- What is found at a path, if anything. -/
  entry : η → Path → Option Entry
  /-- The number of open files. -/
  opens : η → ℕ
  /-- The file is one of them. -/
  IsOpen : φ → η → Prop
  /-- On the way to this directory one is missing that can be made. -/
  Missing : Path → η → Prop
  /-- Opening fails. -/
  openFile_error : ∀ path flag h e h', os.openFile path flag h = (.error e, h') →
    entry h' = entry h ∧ opens h' = opens h
  /-- Opening succeeds. -/
  openFile_ok : ∀ path flag h f h', os.openFile path flag h = (.ok f, h') →
    (entry h' = entry h ↔ ¬ Alters flag (entry h path)) ∧
    (∀ p, entry h p = some .dir → entry h' p = some .dir) ∧ IsOpen f h' ∧ opens h' = opens h + 1
  /-- Seeking from the start. -/
  seek : ∀ f offset h, IsOpen f h → IsOpen (os.seek f offset 0 h).2.1 (os.seek f offset 0 h).2.2 ∧
    entry (os.seek f offset 0 h).2.2 = entry h ∧ opens (os.seek f offset 0 h).2.2 = opens h
  /-- Reading. -/
  read : ∀ f n h, IsOpen f h → IsOpen (os.read f n h).2.1 (os.read f n h).2.2 ∧
    entry (os.read f n h).2.2 = entry h ∧ opens (os.read f n h).2.2 = opens h
  /-- Closing. -/
  close : ∀ f h, entry (os.close f h) = entry h ∧
    (IsOpen f h → opens (os.close f h) + 1 = opens h)
  /-- `MkdirAll` where nothing is missing. -/
  mkdirAll_of_not_missing : ∀ dir h, ¬ Missing dir h → entry (os.mkdirAll dir h) = entry h
  /-- `MkdirAll` makes what is missing. -/
  mkdirAll_of_missing : ∀ dir h, Missing dir h →
    ∃ p, entry h p = none ∧ entry (os.mkdirAll dir h) p = some .dir
  /-- `MkdirAll` leaves no file open. -/
  opens_mkdirAll : ∀ dir h, opens (os.mkdirAll dir h) = opens h

/-- The result of opening an image: it fails and nothing stays open, or it succeeds and closing
the image brings back the files that were open. The tree is as it was. -/
def Filesystem.OpensImage {os : OS η φ} (F : Filesystem os) (R : BlockReader η ρ) (h : η)
    (r : Except Error ρ) (h' : η) : Prop :=
  F.entry h' = F.entry h ∧ (∀ e, r = .error e → F.opens h' = F.opens h) ∧
    ∀ br, r = .ok br → F.entry (R.close br h') = F.entry h ∧ F.opens (R.close br h') = F.opens h

/-- A filesystem, and decoders that work on it. -/
structure ImageFilesystem (P : Platform η φ ρ) extends Filesystem P.os where
  /-- Opening an image. -/
  openImage : ∀ format ∈ [P.zso, P.cso, P.chd], ∀ path h r h',
    format.openImage path h = .ok (r, h') → toFilesystem.OpensImage P.reader h r h'

/-! ### Images -/

namespace ImageFilesystem

variable {P : Platform η φ ρ} (F : ImageFilesystem P)

/-- Opening an image. -/
theorem openReader {path : Path} {h h' : η} {r : Except Error ρ}
    (hok : openReader P path h = .ok (r, h')) : F.OpensImage P.reader h r h' := by
  unfold Fs.openReader at hok
  simp only at hok
  split_ifs at hok
  · exact F.openImage P.zso (by simp) path h r h' hok
  · exact F.openImage P.cso (by simp) path h r h' hok
  · exact F.openImage P.chd (by simp) path h r h' hok
  · cases hok
    exact ⟨rfl, fun _ _ => rfl, fun _ hr => by cases hr⟩

/-- `compression.Open` leaves nothing open without a wrapper, and with one what its `Close`
closes. -/
theorem openCompressed {path : Path} {size : ℤ} {h h' : η} {wrapper : Option (CachedReader ρ)}
    (hok : openCompressed P path size h = .ok (wrapper, h')) :
    F.entry h' = F.entry h ∧ (wrapper = none → F.opens h' = F.opens h) ∧
      ∀ c, wrapper = some c → F.entry (P.reader.close c.br h') = F.entry h ∧
        F.opens (P.reader.close c.br h') = F.opens h := by
  obtain ⟨⟨r, h₁⟩, hopen, hok⟩ := Fallible.bind_eq_ok.mp hok
  obtain ⟨hentry, hfailed, hopened⟩ := F.openReader hopen
  cases r with
  | error e =>
    cases hok
    exact ⟨hentry, fun _ => hfailed e rfl, fun c hc => by cases hc⟩
  | ok br =>
    cases hok
    refine ⟨hentry, (fun hc => by cases hc), fun c hc => ?_⟩
    cases hc
    exact hopened br rfl

end ImageFilesystem

/-! ### The decoders of ZSO and CSO images -/

namespace Filesystem

open FileProgram

variable {os : OS η φ} (F : Filesystem os)

/-- The file has been opened on this host, and nothing else has happened. -/
def Opened (h₀ : η) (f : φ) (_pos : ℕ) (h : η) : Prop :=
  F.IsOpen f h ∧ F.entry h = F.entry h₀ ∧ F.opens h = F.opens h₀ + 1

/-- Reading an open image. -/
theorem staysOpen (h₀ : η) : StaysOpen os (F.Opened h₀) where
  seek := by
    rintro f pos h offset ⟨hopen, hentry, hopens⟩
    obtain ⟨hopen', hentry', hopens'⟩ := F.seek f offset h hopen
    exact ⟨0, hopen', hentry'.trans hentry, hopens'.trans hopens⟩
  read := by
    rintro f pos h n ⟨hopen, hentry, hopens⟩ -
    obtain ⟨hopen', hentry', hopens'⟩ := F.read f n h hopen
    exact ⟨0, hopen', hentry'.trans hentry, hopens'.trans hopens⟩

variable {F} in
theorem Opened.close {h₀ h : η} {f : φ} {pos : ℕ} (hf : F.Opened h₀ f pos h) :
    F.entry (os.close f h) = F.entry h₀ ∧ F.opens (os.close f h) = F.opens h₀ := by
  obtain ⟨hopen, hentry, hopens⟩ := hf
  obtain ⟨hentry', hopens'⟩ := F.close f h
  have hclosed := hopens' hopen
  exact ⟨hentry'.trans hentry, by omega⟩

/-- A file whose header does not parse is closed again. -/
theorem openWith {parseHeader : FileProgram η φ α} {path : Path} {h h' : η}
    {r : Except Error (φ × α)} (hparse : Keeps (F.Opened h) parseHeader)
    (hok : openWith os parseHeader path h = .ok (r, h')) :
    F.entry h' = F.entry h ∧ (∀ e, r = .error e → F.opens h' = F.opens h) ∧
      ∀ f a, r = .ok (f, a) → ∃ pos, F.Opened h f pos h' := by
  unfold FileProgram.openWith at hok
  split at hok
  · rename_i e h₁ hopen
    obtain ⟨hentry, hopens⟩ := F.openFile_error path oRDONLY h e h₁ hopen
    cases hok
    exact ⟨hentry, fun _ _ => hopens, fun f a hr => by cases hr⟩
  · rename_i f h₁ hopen
    obtain ⟨hentry, -, hisOpen, hopens⟩ := F.openFile_ok path oRDONLY h f h₁ hopen
    have hf : F.Opened h f 0 h₁ := ⟨hisOpen, hentry.mpr (by simp [Alters, oRDONLY]), hopens⟩
    obtain ⟨⟨res, f', h₂⟩, hrun, hok⟩ := Fallible.bind_eq_ok.mp hok
    obtain ⟨pos', hf'⟩ := hparse f 0 h₁ res f' h₂ hf hrun
    cases res with
    | error e =>
      cases hok
      obtain ⟨hentry', hopens'⟩ := hf'.close
      exact ⟨hentry', fun _ _ => hopens', fun f a hr => by cases hr⟩
    | ok a =>
      cases hok
      refine ⟨hf'.2.1, (fun e he => by cases he), fun g b hr => ?_⟩
      cases hr
      exact ⟨pos', hf'⟩

/-- An image that is made of the file and its header, and closes the file. -/
theorem opensImage_of_openWith {parseHeader : FileProgram η φ α} {path : Path} {h h' : η}
    {r : Except Error (φ × α)} {R : BlockReader η ρ} (wrap : φ × α → ρ)
    (hclose : ∀ f a h, R.close (wrap (f, a)) h = os.close f h)
    (hparse : Keeps (F.Opened h) parseHeader)
    (hok : FileProgram.openWith os parseHeader path h = .ok (r, h')) :
    F.OpensImage R h (r.map wrap) h' := by
  obtain ⟨hentry, hfailed, hopened⟩ := F.openWith hparse hok
  cases r with
  | error e => exact ⟨hentry, fun _ _ => hfailed e rfl, fun br hbr => by cases hbr⟩
  | ok image =>
    obtain ⟨f, a⟩ := image
    obtain ⟨pos, hf⟩ := hopened f a rfl
    refine ⟨hentry, (fun e he => by cases he), fun br hbr => ?_⟩
    cases hbr
    rw [hclose]
    exact hf.close

variable {path : Path} {h h' : η}

/-- A ZSO image. -/
theorem opensImage_zso (lz4 : UncompressBlock) {r : Except Error (Zso φ)}
    (hok : Zso.openImage os path h = .ok (r, h')) :
    F.OpensImage (Zso.reader os lz4) h r h' := by
  obtain ⟨⟨r₁, h₁⟩, hopen, hok⟩ := Fallible.bind_eq_ok.mp hok
  cases hok
  exact F.opensImage_of_openWith _ (fun _ _ _ => rfl)
    ((Keeps.closed (F.staysOpen h)).parseHeader _ path) hopen

/-- A CSO image. -/
theorem opensImage_cso (flate zlib : List Byte → Option (List Byte)) {r : Except Error (Cso φ)}
    (hok : Cso.openImage os path h = .ok (r, h')) :
    F.OpensImage (Cso.reader os flate zlib) h r h' := by
  obtain ⟨⟨r₁, h₁⟩, hopen, hok⟩ := Fallible.bind_eq_ok.mp hok
  cases hok
  exact F.opensImage_of_openWith _ (fun _ _ _ => rfl)
    ((Keeps.closed (F.staysOpen h)).parseHeader _ path) hopen

variable {F} in
/-- The image of one decoder as that of one of several. -/
theorem OpensImage.map {R : BlockReader η α} {R' : BlockReader η ρ} {r : Except Error α}
    (wrap : α → ρ) (hclose : ∀ br h, R'.close (wrap br) h = R.close br h)
    (himage : F.OpensImage R h r h') : F.OpensImage R' h (r.map wrap) h' := by
  obtain ⟨hentry, hfailed, hopened⟩ := himage
  cases r with
  | error e => exact ⟨hentry, fun _ _ => hfailed e rfl, fun br hbr => by cases hbr⟩
  | ok image =>
    refine ⟨hentry, (fun e he => by cases he), fun br hbr => ?_⟩
    cases hbr
    rw [hclose]
    exact hopened image rfl

end Filesystem

/-- The decoders of ZSO and CSO images, on any filesystem. -/
def Decoder.filesystem {os : OS η φ} (F : Filesystem os)
    (flate zlib : List Byte → Option (List Byte)) (lz4 : UncompressBlock) :
    ImageFilesystem (Decoder.platform os flate zlib lz4) where
  toFilesystem := F
  openImage := by
    intro format hformat path h r h' hok
    simp only [Decoder.platform, List.mem_cons, List.not_mem_nil, or_false] at hformat
    rcases hformat with rfl | rfl | rfl
    · obtain ⟨⟨r₁, h₁⟩, hopen, hok⟩ := Fallible.bind_eq_ok.mp hok
      cases hok
      exact (F.opensImage_zso lz4 hopen).map Decoder.zso fun _ _ => rfl
    · obtain ⟨⟨r₁, h₁⟩, hopen, hok⟩ := Fallible.bind_eq_ok.mp hok
      cases hok
      exact (F.opensImage_cso flate zlib hopen).map Decoder.cso fun _ _ => rfl
    · cases hok
      exact ⟨rfl, fun _ _ => rfl, fun br hbr => by cases hbr⟩

/-! ### A host that counts its open files -/

/-- Package `os` on a host with the number of open files. -/
def OS.counted (os : OS η φ) : OS (η × ℕ) φ where
  getwd h := os.getwd h.1
  stat path h := os.stat path h.1
  lstat path h := os.lstat path h.1
  readDir path h := os.readDir path h.1
  openFile path flag h :=
    match os.openFile path flag h.1 with
    | (.error err, h') => (.error err, h', h.2)
    | (.ok f, h') => (.ok f, h', h.2 + 1)
  mkdirAll path h := (os.mkdirAll path h.1, h.2)
  mkdir path h := ((os.mkdir path h.1).1, (os.mkdir path h.1).2, h.2)
  remove path h := ((os.remove path h.1).1, (os.remove path h.1).2, h.2)
  read f n h := ((os.read f n h.1).1, (os.read f n h.1).2.1, (os.read f n h.1).2.2, h.2)
  write f data h :=
    ((os.write f data h.1).1, (os.write f data h.1).2.1, (os.write f data h.1).2.2, h.2)
  seek f offset whence h :=
    ((os.seek f offset whence h.1).1, (os.seek f offset whence h.1).2.1,
      (os.seek f offset whence h.1).2.2, h.2)
  fstat f h := os.fstat f h.1
  close f h := (os.close f h.1, h.2 - 1)

namespace Host

variable {h : Host}

theorem lookup_of_nodes {h' : Host} (hnodes : h'.nodes = h.nodes) (p : Path) :
    h'.lookup p = h.lookup p := by
  rw [lookup, lookup, hnodes]

theorem lookup_of_append {h' : Host} {p : Path} {node : Node}
    (hnodes : h'.nodes = h.nodes ++ [(p, node)]) (q : Path) :
    h'.lookup q = (h.lookup q).or (if p = q then some node else none) := by
  simp only [lookup, hnodes, List.find?_append, List.find?_singleton, decide_eq_true_eq]
  cases h.nodes.find? fun e => decide (e.1 = q) with
  | some e => rfl
  | none => split_ifs <;> rfl

/-- Making a directory adds an entry where there was none. -/
theorem entry_mkdir (dir p : Path) (h : Host) :
    tree.entry (mkdir dir h).2 p = tree.entry h p ∨
      (tree.entry h p = none ∧ tree.entry (mkdir dir h).2 p = some .dir) := by
  unfold mkdir
  split_ifs with hfound hparent
  · exact Or.inl rfl
  · exact Or.inl rfl
  · have hnone : h.lookup dir = none := by simpa using hfound
    have hlookup : lookup { h with nodes := h.nodes ++ [(dir, .dir)] } p =
        (h.lookup p).or (if dir = p then some .dir else none) := lookup_of_append rfl p
    simp only [tree, hlookup]
    cases hp : h.lookup p with
    | some node => exact Or.inl rfl
    | none =>
      by_cases heq : dir = p
      · exact Or.inr ⟨rfl, by simp [heq]⟩
      · exact Or.inl (by simp [heq])

theorem entry_mkdirAll (dir p : Path) (h : Host) :
    tree.entry (mkdirAll dir h) p = tree.entry h p ∨
      (tree.entry h p = none ∧ tree.entry (mkdirAll dir h) p = some .dir) := by
  unfold mkdirAll
  simp only
  generalize _ ++ [dir] = dirs
  induction dirs generalizing h with
  | nil => exact Or.inl rfl
  | cons first rest ih =>
    rcases entry_mkdir first p h with hsame | ⟨hnone, hmade⟩
    · rcases ih (mkdir first h).2 with hrest | ⟨hnone, hmade⟩
      · exact Or.inl (hrest.trans hsame)
      · exact Or.inr ⟨hsame.symm.trans hnone, hmade⟩
    · rcases ih (mkdir first h).2 with hrest | ⟨hnone', hmade'⟩
      · exact Or.inr ⟨hnone, hrest.trans hmade⟩
      · exact Or.inr ⟨hnone, hmade'⟩

theorem entry_of_dir {p : Path} (hp : h.lookup p = some .dir) :
    tree.entry h p = some .dir := by
  simp [tree, hp]

theorem entry_of_file {p : Path} {ino : ℕ} (hp : h.lookup p = some (.file ino)) :
    tree.entry h p = some (.file (h.contents ino)) := by
  simp [tree, hp]

theorem entry_of_none {p : Path} (hp : h.lookup p = none) :
    tree.entry h p = none := by
  simp [tree, hp]

theorem lookup_of_dir {p : Path} (hp : tree.entry h p = some .dir) :
    h.lookup p = some .dir := by
  cases hlookup : h.lookup p with
  | none => cases (entry_of_none hlookup).symm.trans hp
  | some node =>
    cases node with
    | dir => rfl
    | file ino => cases (entry_of_file hlookup).symm.trans hp

/-- A failed open changes nothing. -/
theorem openFile_error {path : Path} {flag : OpenFlag} {h' : Host} {e : Error}
    (hok : openFile path flag h = (.error e, h')) : h' = h := by
  unfold openFile at hok
  split at hok
  · split_ifs at hok <;> cases hok
    rfl
  · cases hok
  · split_ifs at hok <;> cases hok
    rfl

/-- A truncated file is empty, and nothing else has changed. -/
theorem entry_truncate {p : Path} {ino : ℕ} (hp : h.lookup p = some (.file ino)) :
    tree.entry { h with contents := Function.update h.contents ino [] } = tree.entry h ↔
      h.contents ino = [] := by
  constructor
  · intro hsame
    have hempty := entry_of_file (h := { h with contents := Function.update h.contents ino [] })
      ((lookup_of_nodes rfl p).trans hp)
    rw [hsame, entry_of_file hp, Option.some.injEq, Entry.file.injEq] at hempty
    exact hempty.trans (Function.update_self ..)
  · intro hempty
    rw [← hempty, Function.update_eq_self]

/-- Opening a file changes the tree when it creates or truncates one. -/
theorem openFile_ok {path : Path} {flag : OpenFlag} {h' : Host} {f : OsFile}
    (hok : openFile path flag h = (.ok f, h')) :
    (tree.entry h' = tree.entry h ↔ ¬ Alters flag (tree.entry h path)) ∧
      ∀ p, tree.entry h p = some .dir → tree.entry h' p = some .dir := by
  unfold openFile at hok
  split at hok
  · rename_i hdir
    split_ifs at hok <;> cases hok
    exact ⟨iff_of_true rfl (by simp [Alters, entry_of_dir hdir]), fun _ hp => hp⟩
  · rename_i ino hfile
    obtain ⟨-, rfl⟩ := Prod.mk.inj hok
    rw [entry_of_file hfile]
    by_cases htrunc : flag &&& oTRUNC = 0
    · rw [if_neg (not_not.mpr htrunc)]
      exact ⟨iff_of_true rfl (by simp [Alters, htrunc]), fun _ hp => hp⟩
    · rw [if_pos htrunc, entry_truncate hfile]
      refine ⟨?_, fun p hp => entry_of_dir ?_⟩
      · simp only [Alters, ne_eq, reduceCtorEq, and_false, htrunc, not_false_eq_true, true_and,
          false_or, Option.some.injEq, Entry.file.injEq, exists_eq_left', not_not]
      · rw [← lookup_of_dir hp]
        exact lookup_of_nodes rfl p
  · rename_i hnone
    split_ifs at hok with hcreate
    · obtain ⟨-, rfl⟩ := Prod.mk.inj hok
      simp only [Bool.and_eq_true, decide_eq_true_eq] at hcreate
      have hlookup (p : Path) : lookup ⟨h.nodes ++ [(path, .file h.inodes)],
          Function.update h.contents h.inodes [], h.inodes + 1⟩ p =
            (h.lookup p).or (if path = p then some (.file h.inodes) else none) :=
        lookup_of_append rfl p
      refine ⟨iff_of_false ?_ ?_, fun p hp => entry_of_dir ?_⟩
      · intro hsame
        have hmade := hlookup path
        rw [hnone, if_pos rfl, Option.none_or] at hmade
        have hentry := entry_of_file hmade
        rw [hsame, entry_of_none hnone] at hentry
        cases hentry
      · rw [entry_of_none hnone, not_not]
        exact Or.inl ⟨hcreate.1, rfl⟩
      · rw [hlookup p, lookup_of_dir hp]
        rfl
    · cases hok

/-- The small host with the number of its open files. -/
def filesystem : Filesystem os.counted where
  entry h := tree.entry h.1
  opens := Prod.snd
  IsOpen _ h := 0 < h.2
  Missing dir h := ∃ p, tree.entry h.1 p = none ∧
    tree.entry (os.mkdirAll dir h.1) p = some .dir
  openFile_error := by
    rintro path flag ⟨h, n⟩ e h' hok
    simp only [OS.counted] at hok
    split at hok
    · rename_i heq
      cases hok
      rw [openFile_error heq]
      exact ⟨rfl, rfl⟩
    · cases hok
  openFile_ok := by
    rintro path flag ⟨h, n⟩ f h' hok
    simp only [OS.counted] at hok
    split at hok
    · cases hok
    · rename_i heq
      cases hok
      obtain ⟨hentry, hdirs⟩ := openFile_ok heq
      exact ⟨hentry, hdirs, Nat.succ_pos n, rfl⟩
  seek := by
    rintro f offset ⟨h, n⟩ hopen
    exact ⟨hopen, congrArg tree.entry (host_seek f offset 0 h), rfl⟩
  read := by
    rintro f n ⟨h, m⟩ hopen
    exact ⟨hopen, congrArg tree.entry (host_read f n h), rfl⟩
  close := by
    rintro f ⟨h, n⟩
    refine ⟨rfl, fun hopen => ?_⟩
    change n - 1 + 1 = n
    exact Nat.sub_add_cancel hopen
  mkdirAll_of_not_missing := by
    rintro dir ⟨h, n⟩ hnone
    funext p
    exact (entry_mkdirAll dir p h).resolve_right fun hmade => hnone ⟨p, hmade⟩
  mkdirAll_of_missing := fun _ _ hmissing => hmissing
  opens_mkdirAll := fun _ _ => rfl

end Host

end Udpfsd.Fs
