import Udpfsd.Fs.Reading

/-!
# Sector addresses

A sector is named by a 64-bit number. The backend multiplies it with the sector size in 64-bit
arithmetic, so that the position it goes to may be that of another sector. Whatever the file does
not refuse is then read there, or overwritten.
-/

namespace Udpfsd.Fs

open Udprdma (Byte uint16)
open Udpfs

variable {η φ ρ : Type}

/-! ### Block reads -/

/-- A read fails, or it returns bytes of the content from the position on, no more than `size`. -/
def ReadsAt (x : Except Fault (Outcome (Backend η φ ρ))) (content : List Byte) (pos size : ℤ) :
    Prop :=
  ∀ out, x = .ok out → out.reply.Failed ∨
    (0 ≤ pos ∧ ∃ k : ℕ, (k : ℤ) ≤ size ∧ out.reply = .readResult k (some k) ∧
      out.conn.dataBuffer.slice k = (content.drop pos.toNat).take k)

/-- The condition under which a BREAD is aimed at its sectors: there is a panic that ends it, the
file refuses it, or the position is the product in 64-bit arithmetic. Where it is not, nothing may
be left to read there. -/
def BreadAimed (P : Platform η φ ρ) (obj : FileObject φ ρ) (h : η) (length : ℕ) (pos size : ℤ) :
    Prop :=
  int64 size < 0 ∨ (dataBufferSize : ℤ) < int64 size ∨ obj.RefusesSeek P (int64 pos) h ∨
    (obj.seek P (int64 pos) 0 h).2.1.RefusesRead P (int64 size).toNat
      (obj.seek P (int64 pos) 0 h).2.2 ∨
    (0 ≤ pos ∧ (int64 pos = pos ∨ int64 size = 0 ∨ length ≤ (int64 pos).toNat))

theorem int64_le {x : ℤ} (hnonneg : 0 ≤ x) : int64 x ≤ x := by
  rcases lt_or_ge x (2 ^ 63) with hlt | hge
  · rw [int64_eq_self (by omega) hlt]
  · have hlt : int64 x < 2 ^ 63 := by
      simp only [int64, Int.bmod]
      omega
    omega

section Reads

variable {P : Platform η φ ρ} {F : Files P} {s : Backend η φ ρ} {c : Connection}
  {payload : List Byte} {handle : ℤ} {f : FileHandle φ ρ} {content : List Byte} {pos : ℕ}

/-- A read at the position in 64-bit arithmetic. -/
theorem Fills.readsAt_iff {out : Outcome (Backend η φ ρ)} {refused : Prop} {position size : ℤ}
    (hfills : Fills refused content (int64 position).toNat (int64 size).toNat out)
    (hlength : content.length < 2 ^ 63) (hsize : 0 ≤ size) (hfits : 0 ≤ int64 size) :
    ReadsAt (.ok out) content position size ↔ refused ∨ (0 ≤ position ∧
      (int64 position = position ∨ int64 size = 0 ∨ content.length ≤ (int64 position).toNat)) := by
  have hle := int64_le hsize
  rcases hfills with ⟨hrefused, hfailed⟩ | ⟨haccepted, k, hk, hreply, hslice⟩
  · refine iff_of_true ?_ (Or.inl hrefused)
    rintro out' hok
    cases hok
    exact Or.inl hfailed
  constructor
  · intro hreads
    rcases hreads out rfl with hfailed | ⟨hnonneg, k', -, hreply', hslice'⟩
    · rw [hreply] at hfailed
      exact absurd hfailed (not_failed_readResult k (some k))
    · cases hreply.symm.trans hreply'
      refine Or.inr ⟨hnonneg, ?_⟩
      rcases lt_or_ge position (2 ^ 63) with hlt | hge
      · exact Or.inl (int64_eq_self (by omega) hlt)
      · -- there is nothing so far behind the end
        have hnone : k = 0 := by
          have hlength := congrArg List.length (hslice.symm.trans hslice')
          rw [List.drop_of_length_le (by omega : content.length ≤ position.toNat),
            List.take_nil, List.length_take, List.length_drop, List.length_nil] at hlength
          omega
        omega
  · rintro (hrefused | ⟨hnonneg, haimed⟩) out' hok
    · exact absurd hrefused haccepted
    · cases hok
      refine Or.inr ⟨hnonneg, k, by omega, hreply, ?_⟩
      rcases haimed with haddress | hnothing
      · rw [hslice, haddress]
      · obtain rfl : k = 0 := by omega
        rw [hslice, List.take_zero, List.take_zero]

/-- BREAD works at its sectors if and only if it is aimed at them. -/
theorem bread_readsAt_iff (hf : s.fileAt handle = some f)
    (hobj : F.Shows s.world.host content pos f.obj) (hsector : 1 ≤ s.sectorSizeOf handle)
    (htype : msgType payload = some .breadReq) (hhandle : namedHandle payload = some handle) :
    ReadsAt (c.handlePayload (Backend.fs P) s payload) content
        (longField payload * s.sectorSizeOf handle)
        ((uint16 (payload.drop 2)).toNat * s.sectorSizeOf handle) ↔
      BreadAimed P f.obj s.world.host content.length (longField payload * s.sectorSizeOf handle)
        ((uint16 (payload.drop 2)).toNat * s.sectorSizeOf handle) := by
  have hnonneg : 0 ≤ ((uint16 (payload.drop 2)).toNat : ℤ) * s.sectorSizeOf handle :=
    Int.mul_nonneg (by omega) (by omega)
  unfold BreadAimed
  rcases handlePayload_bread_cases (c := c) hf hobj htype hhandle rfl rfl with
    ⟨hseek, out, hrun, hfailed⟩ | ⟨hseek, hlarge, hrun⟩ | ⟨hseek, hfits, out, hrun, hfills⟩
  · refine iff_of_true ?_ (Or.inr (Or.inr (Or.inl hseek)))
    intro out' hok
    cases hrun.symm.trans hok
    exact Or.inl hfailed
  · refine iff_of_true ?_ (by omega)
    intro out' hok
    cases hrun.symm.trans hok
  · rw [hrun, hfills.readsAt_iff hobj.length_lt hnonneg hfits.1]
    simp only [hseek, false_or, not_lt.mpr hfits.1, not_lt.mpr hfits.2]

end Reads

/-! ### Block writes -/

/-- Files that are read and written. -/
structure SectorFiles (P : Platform η φ ρ) extends Files P, WritableFiles P

/-- The data is stored at the position, and the bytes outside of the `size` bytes from there on are
as they were. -/
def Stored (content data : List Byte) (pos size : ℤ) (content' : List Byte) : Prop :=
  ((data = [] ∧ content' = content) ∨
    (0 ≤ pos ∧ content' = overwrite content pos.toNat data)) ∧
  ∀ i : ℕ, i < content.length → (i : ℤ) < pos ∨ pos + size ≤ i → content'[i]? = content[i]?

/-- A position at which data was written is the right one if and only if it is that position. -/
theorem stored_overwrite_iff {content data : List Byte} {pos size : ℤ} {offset : ℕ}
    (hdata : data ≠ []) (hlength : (data.length : ℤ) ≤ size)
    (hoffset : 0 ≤ pos → pos.toNat = offset ∨ content.length ≤ pos.toNat ∨
      content.length ≤ offset) :
    Stored content data pos size (overwrite content offset data) ↔ 0 ≤ pos ∧ pos = offset := by
  constructor
  · rintro ⟨⟨hnil, -⟩ | ⟨hnonneg, heq⟩, -⟩
    · exact absurd hnil hdata
    · rcases hoffset hnonneg with hsame | hbehind | hend
      · omega
      · have := eq_of_overwrite_eq hdata hbehind heq.symm
        omega
      · have := eq_of_overwrite_eq hdata hend heq
        omega
  · rintro ⟨hnonneg, rfl⟩
    exact ⟨Or.inr ⟨hnonneg, by rw [Int.toNat_natCast]⟩,
      fun i hi hout => getElem?_overwrite hi (by omega)⟩

/-- The data that a block write of this size stores. -/
def FileHandle.blockData (f : FileHandle φ ρ) (size : ℤ) : List Byte :=
  f.wr.dataBuffer.take (int64 size).toNat

theorem FileHandle.length_blockData_le (f : FileHandle φ ρ) {size : ℤ} (hsize : 0 ≤ size) :
    ((f.blockData size).length : ℤ) ≤ size := by
  have hle := int64_le hsize
  rw [blockData, List.length_take]
  omega

namespace Backend

variable {P : Platform η φ ρ} {s : Backend η φ ρ} {handle : ℤ} {f : FileHandle φ ρ}

/-- A block write is pending on the file, with the host as it was. -/
structure Pending (handle sectorNr : ℤ) (sectorCount : BitVec 16) (f : FileHandle φ ρ)
    (s t : Backend η φ ρ) : Prop where
  /-- The file has recorded the sectors, and nothing has been done to it. -/
  file : ∃ g, t.fileAt handle = some g ∧ g.obj = f.obj ∧ g.wr.blockWrite = true ∧
    g.wr.sectorNumber = sectorNr ∧ g.wr.sectorCount = sectorCount
  /-- The host. -/
  world : t.world = s.world
  /-- The sector size. -/
  sectorSize : t.sectorSizeOf handle = s.sectorSizeOf handle

/-- BWRITE records the sector and the number of sectors. -/
theorem bwriteStart_of_fileAt (sectorNr : ℤ) (sectorCount : BitVec 16)
    (hf : s.fileAt handle = some f) (hwritable : f.readOnly = false) :
    ∃ t, bwriteStart handle sectorNr sectorCount s = .ok (none, t) ∧
      Pending handle sectorNr sectorCount f s t := by
  obtain ⟨t, hrun, hg, hworld⟩ : ∃ t, bwriteStart handle sectorNr sectorCount s = .ok (none, t) ∧
      t.fileAt handle = some { f with wr := ⟨[], sectorNr, sectorCount, 0, 0, true⟩ } ∧
      t.world = s.world := withFile_of_fileAt hf (if_neg (by simp [hwritable]))
  refine ⟨t, hrun, ⟨_, hg, rfl, rfl, rfl, rfl⟩, hworld, ?_⟩
  rw [sectorSizeOf, sectorSizeOf, sectorSize_of_withFile hrun]

/-- A chunk leaves them as they are. -/
theorem Pending.writeChunk {t : Backend η φ ρ} {sectorNr : ℤ} {sectorCount : BitVec 16}
    (ht : Pending handle sectorNr sectorCount f s t) (k : Chunk) :
    ∃ r u, Backend.writeChunk handle k.chunkNr k.chunkSize k.totalChunks k.chunkData t =
        .ok (r, u) ∧ Pending handle sectorNr sectorCount f s u := by
  obtain ⟨g, hg, hobj, hblock, hnumber, hcount⟩ := ht.file
  have hsize {r : Bool × Option Error} {u : Backend η φ ρ}
      (hrun : Backend.writeChunk handle k.chunkNr k.chunkSize k.totalChunks k.chunkData t =
        .ok (r, u)) : u.sectorSizeOf handle = s.sectorSizeOf handle := by
    rw [← ht.sectorSize, sectorSizeOf, sectorSizeOf, sectorSize_of_withFile hrun]
  by_cases hturn : k.chunkNr ≠ g.wr.receivedChunks
  · obtain ⟨u, hrun, hg', hworld⟩ : ∃ u, Backend.writeChunk handle k.chunkNr k.chunkSize
        k.totalChunks k.chunkData t = .ok ((false, none), u) ∧ u.fileAt handle = some g ∧
        u.world = t.world := withFile_of_fileAt hg (if_pos hturn)
    exact ⟨_, u, hrun, ⟨g, hg', hobj, hblock, hnumber, hcount⟩, hworld.trans ht.world, hsize hrun⟩
  · obtain ⟨u, hrun, hg', hworld⟩ : ∃ u, Backend.writeChunk handle k.chunkNr k.chunkSize
          k.totalChunks k.chunkData t =
          .ok ((decide (k.totalChunks ≤ g.wr.receivedChunks + 1), none), u) ∧
        u.fileAt handle = some { g with wr := { g.wr with
          dataBuffer := g.wr.dataBuffer ++ k.chunkData
          totalChunks := k.totalChunks
          receivedChunks := g.wr.receivedChunks + 1 } } ∧ u.world = t.world :=
      withFile_of_fileAt hg (if_neg hturn)
    exact ⟨_, u, hrun, ⟨_, hg', hobj, hblock, hnumber, hcount⟩, hworld.trans ht.world, hsize hrun⟩

/-- `BwriteStart` and the `WriteChunk` calls after it. -/
def bwriteChunks (handle sectorNr : ℤ) (sectorCount : BitVec 16) (chunks : List Chunk)
    (s : Backend η φ ρ) : Except Fault (Backend η φ ρ) := do
  let (_, s) ← bwriteStart handle sectorNr sectorCount s
  chunks.foldlM (fun s k => Prod.snd <$>
    writeChunk handle k.chunkNr k.chunkSize k.totalChunks k.chunkData s) s

/-- After a BWRITE and any chunks, the write to its sectors is pending. -/
theorem exists_bwriteChunks (sectorNr : ℤ) (sectorCount : BitVec 16) (chunks : List Chunk)
    (hf : s.fileAt handle = some f) (hwritable : f.readOnly = false) :
    ∃ t, bwriteChunks handle sectorNr sectorCount chunks s = .ok t ∧
      Pending handle sectorNr sectorCount f s t := by
  obtain ⟨t, hstart, ht⟩ := bwriteStart_of_fileAt sectorNr sectorCount hf hwritable
  have hrun : bwriteChunks handle sectorNr sectorCount chunks s =
      chunks.foldlM (fun s k => Prod.snd <$>
        writeChunk handle k.chunkNr k.chunkSize k.totalChunks k.chunkData s) t := by
    rw [bwriteChunks, hstart]
    rfl
  rw [hrun]
  clear hstart hrun
  induction chunks generalizing t with
  | nil => exact ⟨t, rfl, ht⟩
  | cons k chunks ih =>
    obtain ⟨r, u, hchunk, hu⟩ := ht.writeChunk k
    rw [List.foldlM_cons, hchunk]
    exact ih u hu

/-- What becomes of a block write to a plain file: the number of bytes is negative and there is a
panic, or the file refuses the seek, or the data is written there. -/
theorem completeWrite_block_cases {name : Path} {file : φ} (hf : s.fileAt handle = some f)
    (hobj : f.obj = .osFile name file) (hblock : f.wr.blockWrite = true) {pos size : ℤ}
    (hpos : f.wr.sectorNumber * s.sectorSizeOf handle = pos)
    (hsize : f.wr.sectorCount.toNat * s.sectorSizeOf handle = size) :
    (int64 size < 0 ∧ completeWrite P handle s = .error .sliceBounds) ∨
    (∃ e t g, (P.os.seek file (int64 pos) 0 s.world.host).1.2 = some e ∧
      completeWrite P handle s = .ok ((0, some e), t) ∧ t.fileAt handle = some g ∧
      g.obj = .osFile name (P.os.seek file (int64 pos) 0 s.world.host).2.1 ∧
      t.world.host = (P.os.seek file (int64 pos) 0 s.world.host).2.2) ∨
    (0 ≤ int64 size ∧ (P.os.seek file (int64 pos) 0 s.world.host).1.2 = none ∧
      ∃ r file' t g, P.os.write (P.os.seek file (int64 pos) 0 s.world.host).2.1 (f.blockData size)
        (P.os.seek file (int64 pos) 0 s.world.host).2.2 = (r, file', t.world.host) ∧
      completeWrite P handle s = .ok ((0, r.2), t) ∧ t.fileAt handle = some g ∧
      g.obj = .osFile name file') := by
  rcases lt_or_ge (int64 size) 0 with hneg | hnonneg
  · refine Or.inl ⟨hneg, withFile_of_error hf ?_⟩
    rw [completeBody, if_pos hblock, hsize]
    exact if_pos hneg
  have hdata : (if int64 size < f.wr.dataBuffer.length then
      f.wr.dataBuffer.take (int64 size).toNat else f.wr.dataBuffer) = f.blockData size := by
    rw [FileHandle.blockData]
    split_ifs with hlong
    · rfl
    · rw [List.take_of_length_le (by omega)]
  have hmoved : f.seek P (int64 pos) 0 s.world =
      ((P.os.seek file (int64 pos) 0 s.world.host).1,
        { f with obj := .osFile name (P.os.seek file (int64 pos) 0 s.world.host).2.1 },
        { s.world.access f.id .seek with
          host := (P.os.seek file (int64 pos) 0 s.world.host).2.2 }) := by
    rw [FileHandle.seek, hobj]
    rfl
  cases hseek : (P.os.seek file (int64 pos) 0 s.world.host).1.2 with
  | some e =>
    have hbody : completeBody P (s.sectorSizeOf handle) f s.world =
        .ok ((0, some e), (f.seek P (int64 pos) 0 s.world).2) := by
      simp only [completeBody, if_pos hblock, hsize, if_neg (not_lt.mpr hnonneg), hpos, hmoved,
        hseek]
    obtain ⟨t, hrun, hg, hworld⟩ : ∃ t, completeWrite P handle s = .ok ((0, some e), t) ∧
        t.fileAt handle = some (f.seek P (int64 pos) 0 s.world).2.1 ∧
        t.world = (f.seek P (int64 pos) 0 s.world).2.2 := withFile_of_fileAt hf hbody
    rw [hmoved] at hg hworld
    exact Or.inr (Or.inl ⟨e, t, _, rfl, hrun, hg, rfl, by rw [hworld]⟩)
  | none =>
    obtain ⟨r, file', host, hwrite⟩ : ∃ r file' host,
        P.os.write (P.os.seek file (int64 pos) 0 s.world.host).2.1 (f.blockData size)
          (P.os.seek file (int64 pos) 0 s.world.host).2.2 = (r, file', host) := ⟨_, _, _, rfl⟩
    have hbody : completeBody P (s.sectorSizeOf handle) f s.world = .ok ((0, r.2),
        { f with obj := .osFile name file' },
        { (s.world.access f.id .seek).access f.id .write with host := host }) := by
      simp only [completeBody, if_pos hblock, hsize, if_neg (not_lt.mpr hnonneg), hpos, hmoved,
        hseek, hdata, FileHandle.write, FileObject.write, hwrite]
      rfl
    obtain ⟨t, hrun, hg, hworld⟩ : ∃ t, completeWrite P handle s = .ok ((0, r.2), t) ∧
        t.fileAt handle = some { f with obj := .osFile name file' } ∧
        t.world = { (s.world.access f.id .seek).access f.id .write with host := host } :=
      withFile_of_fileAt hf hbody
    refine Or.inr (Or.inr ⟨hnonneg, rfl, r, file', t, _, ?_, hrun, hg, rfl⟩)
    rw [hwrite, hworld]

end Backend

/-- A block write fails and leaves the content of the file as it was, or the data is stored at the
position. -/
def WritesAt {P : Platform η φ ρ} (F : OpenFiles P)
    (x : Except Fault ((ℤ × Option Error) × Backend η φ ρ)) (handle : ℤ)
    (content data : List Byte) (pos size : ℤ) : Prop :=
  ∀ r t, x = .ok (r, t) → ∃ g name file, t.fileAt handle = some g ∧ g.obj = .osFile name file ∧
    ((r.2 ≠ none ∧ F.content file t.world.host = content) ∨
      (r.2 = none ∧ Stored content data pos size (F.content file t.world.host)))

/-- The condition under which a block write of this data is aimed at its sectors: there is a panic
that ends it; the file refuses the seek; the write fails and has stored nothing; or it succeeds and
there is nothing to write, or the file writes at the position. A file opened for appending writes at
its end. -/
def BwriteAimed {P : Platform η φ ρ} (F : OpenFiles P) (file : φ) (h : η) (data : List Byte)
    (pos size : ℤ) : Prop :=
  let moved := P.os.seek file (int64 pos) 0 h
  let written := P.os.write moved.2.1 data moved.2.2
  int64 size < 0 ∨ moved.1.2 ≠ none ∨
    (written.1.2 ≠ none ∧ F.content written.2.1 written.2.2 = F.content file h) ∨
    (written.1.2 = none ∧ (data = [] ∨
      (0 ≤ pos ∧ pos = if F.appends file then ((F.content file h).length : ℤ) else int64 pos)))

section Writes

variable {P : Platform η φ ρ} {F : SectorFiles P} {s : Backend η φ ρ} {handle : ℤ}
  {f : FileHandle φ ρ} {name : Path} {file : φ}

/-- What a write to a live file at an offset has stored is stored at the position if and only if
there is nothing to store or it is the right one. -/
theorem stored_write_iff {h : η} {data : List Byte} {pos size : ℤ} (hlive : F.Live file h)
    (hlength : (data.length : ℤ) ≤ size) (hseek : (P.os.seek file (int64 pos) 0 h).1.2 = none)
    {r : ℤ × Option Error} {file' : φ} {host : η}
    (hwrite : P.os.write (P.os.seek file (int64 pos) 0 h).2.1 data
      (P.os.seek file (int64 pos) 0 h).2.2 = (r, file', host)) (hok : r.2 = none) :
    Stored (F.content file h) data pos size (F.content file' host) ↔ data = [] ∨
      (0 ≤ pos ∧ pos = if F.appends file then ((F.content file h).length : ℤ) else int64 pos) := by
  obtain ⟨hlive', hcontent, -, hmoved⟩ := F.seek file (int64 pos) h hlive
  obtain ⟨hnonneg, -⟩ := hmoved hseek
  rw [← show (P.os.write _ data _).1.2 = r.2 by rw [hwrite]] at hok
  have hstored := F.toWritableFiles.write_ok hlive' hok
  rw [hwrite, hcontent, F.toWritableFiles.target_seek hlive hseek] at hstored
  by_cases hdata : data = []
  · subst hdata
    rw [hstored, overwrite_nil]
    exact iff_of_true ⟨Or.inl ⟨rfl, rfl⟩, fun _ _ _ => rfl⟩ (Or.inl rfl)
  rw [hstored, stored_overwrite_iff hdata hlength]
  · simp only [hdata, false_or]
    split_ifs
    · rfl
    · rw [Int.toNat_of_nonneg hnonneg]
  · intro hpos
    split_ifs
    · exact Or.inr (Or.inr le_rfl)
    · rcases toNat_int64_or_end (F.length_lt file h hlive) hpos with heq | hend
      · exact Or.inl heq
      · exact Or.inr (Or.inl hend)

/-- A block write works at its sectors if and only if it is aimed at them. -/
theorem completeWrite_writesAt_iff (hf : s.fileAt handle = some f)
    (hobj : f.obj = .osFile name file) (hlive : F.Live file s.world.host)
    (hblock : f.wr.blockWrite = true) (hsector : 1 ≤ s.sectorSizeOf handle) {pos size : ℤ}
    (hpos : f.wr.sectorNumber * s.sectorSizeOf handle = pos)
    (hsize : f.wr.sectorCount.toNat * s.sectorSizeOf handle = size) :
    WritesAt F.toOpenFiles (Backend.completeWrite P handle s) handle
        (F.content file s.world.host) (f.blockData size) pos size ↔
      BwriteAimed F.toOpenFiles file s.world.host (f.blockData size) pos size := by
  have hnonneg : 0 ≤ size := by
    rw [← hsize]
    exact Int.mul_nonneg (by omega) (by omega)
  have hlength := f.length_blockData_le hnonneg
  unfold BwriteAimed
  rcases Backend.completeWrite_block_cases (P := P) hf hobj hblock hpos hsize with
    ⟨hneg, hrun⟩ | ⟨e, t, g, hseek, hrun, hg, hmoved, hhost⟩ |
      ⟨hfits, hseek, r, file', t, g, hwrite, hrun, hg, hmoved⟩
  · refine iff_of_true ?_ (Or.inl hneg)
    intro r t hok
    cases hrun.symm.trans hok
  · refine iff_of_true ?_ (Or.inr (Or.inl (by simp [hseek])))
    intro r t' hok
    cases hrun.symm.trans hok
    refine ⟨g, name, _, hg, hmoved, Or.inl ⟨by simp, ?_⟩⟩
    rw [hhost]
    exact (F.seek file (int64 pos) s.world.host hlive).2.1
  · have hiff := stored_write_iff hlive hlength hseek hwrite
    simp only [hwrite, hseek, not_lt.mpr hfits, ne_eq, not_true_eq_false, false_or]
    constructor
    · intro hwrites
      obtain ⟨g', name', file'', hg', hobj', hresult⟩ := hwrites _ _ hrun
      cases hg.symm.trans hg'
      cases hmoved.symm.trans hobj'
      exact hresult.imp_right fun hresult => ⟨hresult.1, (hiff hresult.1).mp hresult.2⟩
    · intro haimed r' t' hok'
      cases hrun.symm.trans hok'
      refine ⟨g, name, file', hg, hmoved, ?_⟩
      exact haimed.imp_right fun haimed => ⟨haimed.1, (hiff haimed.1).mpr haimed.2⟩

end Writes

/-! ### Sector addressing -/

/-- A block read or write of a live file works at its sectors, or fails, exactly when it is aimed at
them. The sectors of a write are those of its BWRITE, whatever chunks have come since. -/
theorem sector_addressing_exact_iff {P : Platform η φ ρ} {F : SectorFiles P} {s : Backend η φ ρ}
    {handle : ℤ} {f : FileHandle φ ρ} {content : List Byte} {pos : ℕ}
    (hf : s.fileAt handle = some f) (hobj : F.Shows s.world.host content pos f.obj)
    (hsector : 1 ≤ s.sectorSizeOf handle) :
    (∀ (c : Connection) (payload : List Byte), msgType payload = some .breadReq →
      namedHandle payload = some handle →
      (ReadsAt (c.handlePayload (Backend.fs P) s payload) content
          (longField payload * s.sectorSizeOf handle)
          ((uint16 (payload.drop 2)).toNat * s.sectorSizeOf handle) ↔
        BreadAimed P f.obj s.world.host content.length (longField payload * s.sectorSizeOf handle)
          ((uint16 (payload.drop 2)).toNat * s.sectorSizeOf handle))) ∧
    (∀ name file, f.obj = .osFile name file → f.wr.blockWrite = true →
      (WritesAt F.toOpenFiles (Backend.completeWrite P handle s) handle content
          (f.blockData (f.wr.sectorCount.toNat * s.sectorSizeOf handle))
          (f.wr.sectorNumber * s.sectorSizeOf handle)
          (f.wr.sectorCount.toNat * s.sectorSizeOf handle) ↔
        BwriteAimed F.toOpenFiles file s.world.host
          (f.blockData (f.wr.sectorCount.toNat * s.sectorSizeOf handle))
          (f.wr.sectorNumber * s.sectorSizeOf handle)
          (f.wr.sectorCount.toNat * s.sectorSizeOf handle))) ∧
    (∀ name file sectorNr sectorCount chunks, f.obj = .osFile name file → f.readOnly = false →
      ∃ t g, Backend.bwriteChunks handle sectorNr sectorCount chunks s = .ok t ∧
        t.fileAt handle = some g ∧
        (WritesAt F.toOpenFiles (Backend.completeWrite P handle t) handle content
            (g.blockData (sectorCount.toNat * s.sectorSizeOf handle))
            (sectorNr * s.sectorSizeOf handle) (sectorCount.toNat * s.sectorSizeOf handle) ↔
          BwriteAimed F.toOpenFiles file s.world.host
            (g.blockData (sectorCount.toNat * s.sectorSizeOf handle))
            (sectorNr * s.sectorSizeOf handle) (sectorCount.toNat * s.sectorSizeOf handle))) := by
  refine ⟨fun c payload htype hhandle => bread_readsAt_iff hf hobj hsector htype hhandle, ?_, ?_⟩
  · intro name file hfile hblock
    rw [hfile] at hobj
    obtain ⟨hlive, rfl, -⟩ := hobj
    exact completeWrite_writesAt_iff hf hfile hlive hblock hsector rfl rfl
  · intro name file sectorNr sectorCount chunks hfile hwritable
    obtain ⟨t, hrun, ht⟩ := Backend.exists_bwriteChunks sectorNr sectorCount chunks hf hwritable
    obtain ⟨g, hg, hobj', hblock, rfl, rfl⟩ := ht.file
    refine ⟨t, g, hrun, hg, ?_⟩
    rw [hfile] at hobj hobj'
    obtain ⟨hlive, rfl, -⟩ := hobj
    rw [← ht.world] at hlive ⊢
    exact completeWrite_writesAt_iff hg hobj' hlive hblock (ht.sectorSize ▸ hsector)
      (by rw [ht.sectorSize]) (by rw [ht.sectorSize])

/-- The files of the small host. -/
def Host.sectorFiles : SectorFiles Host.platform where
  toFiles := Host.files
  write := (Host.writableFiles fun content => content.length < 2 ^ 63).write

/-- A block write of one sector of the device is recorded, and its only chunk has come. -/
def writeSector (sectorNr : ℤ) (s : Backend Host OsFile Host.Image) :
    Except Fault (Backend Host OsFile Host.Image) :=
  Backend.bwriteChunks 0 sectorNr 1 [⟨0, 4, 1, [9, 9, 9, 9]⟩] s

/-- The second sector is read, and overwritten. -/
theorem sector_addressing_exact_second_sector :
    ∃ s t : Backend Host OsFile Host.Image,
      Backend.newBackend Host.platform Host.serveTwoSectors Host.twoSectors 0 = .ok (some s) ∧
      ReadsAt (newConnection.handlePayload (Backend.fs Host.platform) s
        (breadDevice [1, 0] [1, 0, 0, 0, 0, 0, 0, 0])) [1, 1, 1, 1, 2, 2, 2, 2] 4 4 ∧
      writeSector 1 s = .ok t ∧
      WritesAt Host.sectorFiles.toOpenFiles (Backend.completeWrite Host.platform 0 t) 0
        [1, 1, 1, 1, 2, 2, 2, 2] [9, 9, 9, 9] 4 4 := by
  have hserved : ∃ (s t : Backend Host OsFile Host.Image) (f g : FileHandle OsFile Host.Image)
      (name : Path) (file : OsFile),
      Backend.newBackend Host.platform Host.serveTwoSectors Host.twoSectors 0 = .ok (some s) ∧
      s.fileAt 0 = some f ∧ Host.sectorFiles.Shows s.world.host [1, 1, 1, 1, 2, 2, 2, 2] 0 f.obj ∧
      s.sectorSizeOf 0 = 4 ∧ f.obj = .osFile name file ∧ f.readOnly = false ∧
      writeSector 1 s = .ok t ∧ t.fileAt 0 = some g ∧ g.wr.dataBuffer = [9, 9, 9, 9] ∧
      file.append = false ∧ file.ino = some 0 ∧ file.writable = true :=
    ⟨_, _, _, _, _, _, rfl, rfl,
      ⟨(by decide : [1, 1, 1, 1, 2, 2, 2, 2].length < 2 ^ 63), rfl, rfl⟩, rfl, rfl, rfl, rfl, rfl,
      rfl, rfl, rfl, rfl⟩
  obtain ⟨s, t, f, g, name, file, hnew, hf, hobj, hsize, hfile, hwritable, hrun, hg, hbuffer,
    happend, hino, hmode⟩ := hserved
  obtain ⟨hreads, -, hwrites⟩ := sector_addressing_exact_iff hf hobj (by rw [hsize]; decide)
  refine ⟨s, t, hnew, ?_, hrun, ?_⟩
  · have hnumber : longField (breadDevice [1, 0] [1, 0, 0, 0, 0, 0, 0, 0]) = 1 := rfl
    have hcount : uint16 ((breadDevice [1, 0] [1, 0, 0, 0, 0, 0, 0, 0]).drop 2) = 1 := rfl
    have hiff := hreads newConnection (breadDevice [1, 0] [1, 0, 0, 0, 0, 0, 0, 0]) rfl rfl
    rw [hnumber, hcount, hsize] at hiff
    exact hiff.mpr (Or.inr (Or.inr (Or.inr (Or.inr ⟨by decide, Or.inl (by decide)⟩))))
  · obtain ⟨t', g', hrun', hg', hiff⟩ :=
      hwrites name file 1 1 [⟨0, 4, 1, [9, 9, 9, 9]⟩] hfile hwritable
    cases hrun.symm.trans hrun'
    cases hg.symm.trans hg'
    rw [FileHandle.blockData, hbuffer, hsize] at hiff
    refine hiff.mpr (Or.inr (Or.inr (Or.inr ⟨?_, Or.inr ⟨by decide, ?_⟩⟩)))
    · change (Host.write (Host.seek file 4 0 s.world.host).2.1 [9, 9, 9, 9] _).1.2 = none
      rw [Host.seek_start]
      simp [Host.write, hino, hmode]
    · rw [show Host.sectorFiles.appends file = false from happend]
      rfl

/-- Sector `2 ^ 62` of four bytes each is the first one. -/
theorem far_sector_is_first_sector :
    ∃ (s t u : Backend Host OsFile Host.Image) (f f' : FileHandle OsFile Host.Image)
      (out : Outcome _),
      Backend.newBackend Host.platform Host.serveTwoSectors Host.twoSectors 0 = .ok (some s) ∧
      s.fileAt 0 = some f ∧
      Host.sectorFiles.Shows s.world.host [1, 1, 1, 1, 2, 2, 2, 2] 0 f.obj ∧
      s.sectorSizeOf 0 = 4 ∧
      newConnection.handlePayload (Backend.fs Host.platform) s
        (breadDevice [1, 0] [0, 0, 0, 0, 0, 0, 0, 0x40]) = .ok out ∧
      out.reply = .readResult 4 (some 4) ∧ out.conn.dataBuffer.slice 4 = [1, 1, 1, 1] ∧
      ¬ ReadsAt (.ok out) [1, 1, 1, 1, 2, 2, 2, 2] (2 ^ 62 * 4) 4 ∧
      writeSector (2 ^ 62) s = .ok t ∧ t.fileAt 0 = some f' ∧
      f'.wr.sectorNumber = 2 ^ 62 ∧
      Host.sectorFiles.Shows t.world.host [1, 1, 1, 1, 2, 2, 2, 2] 0 f'.obj ∧
      Backend.completeWrite Host.platform 0 t = .ok ((0, none), u) ∧
      u.world.host.contents 0 = [9, 9, 9, 9, 2, 2, 2, 2] ∧
      ¬ WritesAt Host.sectorFiles.toOpenFiles (Backend.completeWrite Host.platform 0 t) 0
        [1, 1, 1, 1, 2, 2, 2, 2] [9, 9, 9, 9] (2 ^ 62 * 4) 4 := by
  have hlength : [1, 1, 1, 1, 2, 2, 2, 2].length < 2 ^ 63 := by decide
  refine ⟨_, _, _, _, _, _, rfl, rfl, ⟨hlength, rfl, rfl⟩, rfl, rfl, rfl, rfl, ?_, rfl,
    rfl, rfl, ⟨hlength, rfl, rfl⟩, rfl, rfl, ?_⟩
  · intro hreads
    rcases hreads _ rfl with ⟨result, hresult, hneg⟩ | ⟨-, k, -, hreply, hslice⟩
    · cases hresult
      cases hneg
    · cases hreply
      cases hslice
  · intro hwrites
    obtain ⟨g, name, file, hg, hobj, ⟨hfailed, -⟩ | ⟨-, -, hkept⟩⟩ := hwrites _ _ rfl
    · exact hfailed rfl
    · cases hg
      cases hobj
      cases hkept 0 (by decide) (by decide)

end Udpfsd.Fs
