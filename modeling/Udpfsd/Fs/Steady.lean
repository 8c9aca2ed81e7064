import Udpfsd.Base.Total
import Udpfsd.Fs.FlatFile
import Udpfsd.Fs.HandleSafety

/-!
# A backend that does not panic

The methods of the backend return, for any path, any state of the table and any handle that is
not beyond it, unless more bytes are asked for than the buffer has. This rests on what package
`os` does when a file has just been opened and, where images are decompressed, on decoders that
do not panic themselves and hand out whole blocks.
-/

namespace Udpfsd.Fs

open Udprdma (Byte)
open Udpfs

variable {η φ ρ : Type} {P : Platform η φ ρ} {Whole : ρ → Prop}

/-- The length that a name in a directory may have: with the extension `.iso` and the reply in
front it still fits into a packet. Hosts allow far less. -/
def maxNameLength : ℕ := 1352

/-- The host answers for what it has just opened. -/
structure Sound (P : Platform η φ ρ) where
  /-- There is a directory at the path. -/
  IsDir : Path → η → Prop
  /-- `File.Stat` of an open file. -/
  fstat : ∀ f h, ∃ info, P.os.fstat f h = .ok info
  /-- `os.ReadDir`. -/
  readDir : ∀ path h names, P.os.readDir path h = .ok names →
    IsDir path h ∧ ∀ name ∈ names, name.length ≤ maxNameLength
  /-- `os.Stat` of a directory. -/
  stat : ∀ path h, IsDir path h → ∃ info, P.os.stat path h = .ok info
  /-- `File.Close`. -/
  close : ∀ path f h, IsDir path h → IsDir path (P.os.close f h)
  /-- `Close` of an image. -/
  closeImage : ∀ path br h, IsDir path h → IsDir path (P.reader.close br h)

/-- The memory of a block is not shorter than this. -/
def Block.Spans (n : ℤ) (b : Block) : Prop := n ≤ (b.bytes ++ b.spare).length

/-- The decoders do not panic, and hand out whole blocks. -/
structure Decodes (P : Platform η φ ρ) (Whole : ρ → Prop) : Prop where
  /-- `Open`. -/
  openImage : ∀ format ∈ [P.zso, P.cso, P.chd], ∀ path h,
    Returns (fun r => ∀ br, r.1 = .ok br → Whole br) (format.openImage path h)
  /-- `BlockSize`. -/
  blockSize : ∀ br, Whole br → 0 < P.reader.blockSize br
  /-- `ReadBlock`. -/
  readBlock : ∀ br i h, Whole br → Returns (fun r => Whole r.2.1 ∧
    P.reader.blockSize r.2.1 = P.reader.blockSize br ∧
      ∀ b, r.1 = .ok b → b.Spans (P.reader.blockSize br)) (P.reader.readBlock br i h)

/-! ### Images -/

/-- Nothing in the reader of an image makes `Read` panic. -/
structure CachedReader.Steady (P : Platform η φ ρ) (Whole : ρ → Prop) (c : CachedReader ρ) :
    Prop where
  /-- The decoders. -/
  decodes : Decodes P Whole
  /-- The decoder of this image. -/
  whole : Whole c.br
  /-- The block size is the decoder's. -/
  blockSize : c.blockSize = P.reader.blockSize c.br
  /-- The cached blocks. -/
  cache : c.cache.Holds (fun _ b => b.Spans c.blockSize)
  /-- The position is negative only where nothing is read. -/
  pos : c.size ≤ c.pos ∨ 0 ≤ c.pos

namespace CachedReader

variable {c c' : CachedReader ρ} {h : η}

/-- The reader has read a block into its cache, if anything. -/
structure Cached (c c' : CachedReader ρ) : Prop where
  /-- The block size. -/
  blockSize : c'.blockSize = c.blockSize
  /-- The size. -/
  size : c'.size = c.size
  /-- The position. -/
  pos : c'.pos = c.pos

section CachedReads

variable (hc : c.Steady P Whole)
include hc

/-- A block from the cache or the decoder. -/
theorem Steady.getBlock (i : ℤ) (h : η) :
    Returns (fun r => r.2.1.Steady P Whole ∧ c.Cached r.2.1 ∧
      ∀ b, r.1 = .ok b → b.Spans c.blockSize) (c.getBlock P.reader i h) := by
  obtain ⟨hcache, hhit⟩ := hc.cache.get i
  unfold CachedReader.getBlock
  generalize c.cache.get i = found at hcache hhit
  obtain ⟨b, cache⟩ := found
  cases b with
  | some b =>
    refine .ok ⟨⟨hc.decodes, hc.whole, hc.blockSize, hcache, hc.pos⟩, ⟨rfl, rfl, rfl⟩, ?_⟩
    intro b' hb'
    cases hb'
    exact hhit b rfl
  | none =>
    refine (hc.decodes.readBlock c.br i h hc.whole).bind ?_
    rintro ⟨r, br, h'⟩ ⟨hwhole, hsize, hspans⟩
    have hsame : c.blockSize = P.reader.blockSize br := hc.blockSize.trans hsize.symm
    cases r with
    | error e =>
      refine .ok ⟨⟨hc.decodes, hwhole, hsame, hcache, hc.pos⟩, ⟨rfl, rfl, rfl⟩, ?_⟩
      intro b' hb'
      cases hb'
    | ok b =>
      have hb : b.Spans c.blockSize := hc.blockSize ▸ hspans b rfl
      refine .ok ⟨⟨hc.decodes, hwhole, hsame, hcache.put hb, hc.pos⟩, ⟨rfl, rfl, rfl⟩, ?_⟩
      intro b' hb'
      cases hb'
      exact hb

/-- The slice of a block is in range. -/
theorem Steady.copyPart (i : ℤ) {offset toRead : ℤ} (hoffset : 0 ≤ offset) (hpos : 0 ≤ c.pos)
    (hread : 0 ≤ toRead) (hfits : offset + toRead ≤ c.blockSize) (h : η) :
    Returns (fun r => r.2.1.Steady P Whole) (c.copyPart P.reader i offset toRead h) := by
  refine (hc.getBlock i h).bind ?_
  rintro ⟨r, c', h'⟩ ⟨hc', hcached, hspans⟩
  cases r with
  | error e => exact .ok hc'
  | ok b =>
    have hb : c.blockSize ≤ (b.bytes ++ b.spare).length := hspans b rfl
    simp only
    rw [if_neg (by omega)]
    refine .ok ⟨hc'.decodes, hc'.whole, hc'.blockSize, hc'.cache, Or.inr ?_⟩
    have hsame : c'.pos = c.pos := hcached.pos
    simp only
    omega

/-- A round of the loop of `Read`. -/
theorem Steady.readRound (n : ℕ) (h : η) :
    Returns (fun r => r.2.1.Steady P Whole) (c.readRound P.reader n h) := by
  have hblock : 0 < c.blockSize := hc.blockSize ▸ hc.decodes.blockSize c.br hc.whole
  unfold CachedReader.readRound
  refine .ite (fun _ => .ok hc) (fun hmore => ?_)
  rw [if_neg hblock.ne']
  have hpos : 0 ≤ c.pos := by
    rcases hc.pos with hend | hpos
    · exact absurd (Or.inr hend) hmore
    · exact hpos
  have hoffset := Int.tmod_nonneg c.blockSize hpos
  have hlast : c.lastBlockSize (c.pos.tdiv c.blockSize) ≤ c.blockSize := by
    unfold lastBlockSize
    split_ifs
    · exact (Int.tmod_lt_of_pos c.size hblock).le
    · exact le_rfl
  refine .ite (fun _ => .ok hc) (fun havail => ?_)
  refine hc.copyPart _ hoffset hpos ?_ ?_ h
  · omega
  · omega

/-- The loop of `Read`. -/
theorem Steady.readLoop (fuel n : ℕ) (sofar : List Byte) (h : η) :
    Returns (fun r => r.2.1.Steady P Whole) (CachedReader.readLoop P.reader fuel c n sofar h) := by
  induction fuel generalizing c n sofar h with
  | zero => exact .ok hc
  | succ fuel ih =>
    refine (hc.readRound n h).bind ?_
    rintro ⟨r, c', h'⟩ hc'
    rcases r with _ | e | part
    · exact .ok hc'
    · exact .ok hc'
    · exact ih hc' _ _ h'

/-- `Read`. -/
theorem Steady.read (n : ℕ) (h : η) :
    Returns (fun r => r.2.1.Steady P Whole) (c.read P.reader n h) :=
  .ite (fun _ => .ok hc) (fun _ => hc.readLoop _ _ _ h)

/-- A seek to a position. -/
theorem Steady.move (pos : ℤ) : { c with pos := c.clamp pos }.Steady P Whole := by
  refine ⟨hc.decodes, hc.whole, hc.blockSize, hc.cache, ?_⟩
  simp only [clamp]
  split_ifs <;> omega

/-- `Seek`. -/
theorem Steady.seek (offset whence : ℤ) : (c.seek offset whence).2.Steady P Whole := by
  unfold CachedReader.seek
  simp only
  split_ifs
  · exact hc.move _
  · exact hc.move _
  · exact hc.move _
  · exact hc

end CachedReads

/-- A new reader. -/
theorem steady_new (hdec : Decodes P Whole) {br : ρ} (hbr : Whole br) (cacheSize : ℤ)
    (info : CompressedInfo) : (newCachedReader P.reader br cacheSize info).Steady P Whole :=
  ⟨hdec, hbr, rfl, BlockCache.holds_new _ _, Or.inr le_rfl⟩

end CachedReader

/-- One of the decoders is tried. -/
theorem Decodes.openReader (hdec : Decodes P Whole) (path : Path) (h : η) :
    Returns (fun r => ∀ br, r.1 = .ok br → Whole br) (openReader P path h) := by
  unfold Fs.openReader
  simp only
  refine .ite (fun _ => hdec.openImage _ (by simp) path h) (fun _ => ?_)
  refine .ite (fun _ => hdec.openImage _ (by simp) path h) (fun _ => ?_)
  refine .ite (fun _ => hdec.openImage _ (by simp) path h) (fun _ => .ok ?_)
  rintro br ⟨⟩

/-- An image is opened, if it is one. -/
theorem Decodes.openCompressed (hdec : Decodes P Whole) (path : Path) (cacheSize : ℤ) (h : η) :
    Returns (fun r => ∀ c, r.1 = some c → c.Steady P Whole)
      (openCompressed P path cacheSize h) := by
  refine (hdec.openReader path h).bind ?_
  rintro ⟨r, h'⟩ hr
  cases r with
  | error e =>
    refine .ok ?_
    rintro c ⟨⟩
  | ok br =>
    refine .ok ?_
    rintro c ⟨⟩
    exact CachedReader.steady_new hdec (hr br rfl) _ _

/-! ### Objects -/

/-- Nothing in the object makes a method panic. -/
def FileObject.Steady (P : Platform η φ ρ) (Whole : ρ → Prop) : FileObject φ ρ → Prop
  | .osFile _ _ => True
  | .cachedReader c => c.Steady P Whole

namespace FileObject

variable {obj : FileObject φ ρ}

/-- A read returns no more than was asked for. -/
theorem Steady.read (hobj : obj.Steady P Whole) (n : ℕ) (h : η) :
    Returns (fun r => r.1.1.length ≤ n ∧ r.2.1.Steady P Whole) (obj.read P n h) := by
  cases obj with
  | osFile name f => exact .ok ⟨List.length_take_le n _, trivial⟩
  | cachedReader c =>
    refine (CachedReader.Steady.read hobj n h).bind ?_
    rintro ⟨⟨bytes, err⟩, c', h'⟩ hc'
    exact .ok ⟨List.length_take_le n _, hc'⟩

/-- `Seek`. -/
theorem Steady.seek (hobj : obj.Steady P Whole) (offset whence : ℤ) (h : η) :
    (obj.seek P offset whence h).2.1.Steady P Whole := by
  cases obj with
  | osFile name f => trivial
  | cachedReader c => exact CachedReader.Steady.seek hobj offset whence

/-- `Write`. -/
theorem Steady.write (hobj : obj.Steady P Whole) (data : List Byte) (h : η) :
    (obj.write P data h).2.1.Steady P Whole := by
  cases obj with
  | osFile name f => trivial
  | cachedReader c => exact hobj

/-- `Stat`. -/
theorem exists_stat (S : Sound P) (obj : FileObject φ ρ) (h : η) :
    ∃ info, obj.stat P h = .ok info := by
  cases obj with
  | osFile name f => exact S.fstat f h
  | cachedReader c => exact ⟨_, rfl⟩

end FileObject

/-- `Read` of a file handle. -/
theorem FileHandle.steady_read {f : FileHandle φ ρ} (hobj : f.obj.Steady P Whole) (n : ℕ)
    (w : World η) :
    Returns (fun r => r.1.1.length ≤ n ∧ r.2.1.obj.Steady P Whole) (f.read P n w) := by
  refine (hobj.read n w.host).bind ?_
  rintro ⟨r, obj, h'⟩ hr
  exact .ok hr

/-- Nothing in a slot makes a method panic. -/
def Handle.Steady (P : Platform η φ ρ) (Whole : ρ → Prop) : Handle φ ρ → Prop
  | .file f => f.obj.Steady P Whole
  | .dir d => ∀ name ∈ d.entries, name.length ≤ maxNameLength

/-- A directory survives a `Close`. -/
theorem Sound.isDir_close (S : Sound P) {path : Path} {w : World η} (h : Handle φ ρ)
    (hdir : S.IsDir path w.host) : S.IsDir path (h.close P w).host := by
  cases h with
  | dir d => exact hdir
  | file f =>
    obtain ⟨id, hostPath, obj, wr, readOnly⟩ := f
    cases obj with
    | osFile name f => exact S.close path f _ hdir
    | cachedReader c => exact S.closeImage path c.br _ hdir

/-! ### The table -/

namespace Backend

/-- Nothing in the backend makes a method panic, but for the requests themselves. -/
structure Steady (P : Platform η φ ρ) (Whole : ρ → Prop) (s : Backend η φ ρ) : Prop where
  /-- The block device. -/
  device : ∀ b, s.bdHandle = some b → b.file.obj.Steady P Whole
  /-- The slots. -/
  handle : ∀ i h, s.handles i = some h → h.Steady P Whole
  /-- No size of a block operation wraps around. -/
  sector : 0 ≤ s.sectorSize ∧ s.sectorSize < 2 ^ 47
  /-- The decoders, if they are used. -/
  decodes : s.enableCompression = true → Decodes P Whole

variable {s t : Backend η φ ρ} {handle : ℤ}
variable (hs : s.Steady P Whole)
include hs

/-- The host changes. -/
theorem Steady.setHost (h : η) : (s.setHost h).Steady P Whole :=
  ⟨hs.device, hs.handle, hs.sector, hs.decodes⟩

/-- The world changes. -/
theorem Steady.setWorld (w : World η) : { s with world := w }.Steady P Whole :=
  ⟨hs.device, hs.handle, hs.sector, hs.decodes⟩

/-- A slot is used. -/
theorem Steady.touch (i : Fin maxHandles) : (s.touch i).Steady P Whole :=
  ⟨hs.device, hs.handle, hs.sector, hs.decodes⟩

/-- A slot is filled or emptied. -/
theorem Steady.putSlot (i : Fin maxHandles) {h : Option (Handle φ ρ)}
    (hh : ∀ h', h = some h' → h'.Steady P Whole) :
    { s with handles := Function.update s.handles i h }.Steady P Whole := by
  refine ⟨hs.device, ?_, hs.sector, hs.decodes⟩
  intro j h' hj
  by_cases hji : j = i
  · subst hji
    exact hh h' ((Function.update_self j h s.handles).symm.trans hj)
  · exact hs.handle j h' ((Function.update_of_ne hji h s.handles).symm.trans hj)

/-- A file is put back. -/
theorem Steady.putFile {f : FileHandle φ ρ} (hf : f.obj.Steady P Whole)
    (ref : FileRef) : (s.putFile f ref).Steady P Whole := by
  cases ref with
  | blockDevice =>
    refine ⟨?_, hs.handle, hs.sector, hs.decodes⟩
    intro b hb
    obtain ⟨b', -, rfl⟩ := Option.map_eq_some_iff.mp hb
    exact hf
  | slot i =>
    refine hs.putSlot i ?_
    rintro h' ⟨⟩
    exact hf

/-- A handle is put into the table. -/
theorem Steady.allocHandle {h : Handle φ ρ} (hh : h.Steady P Whole) :
    (s.allocHandle P h).2.Steady P Whole := by
  unfold Backend.allocHandle
  cases s.allocSlot with
  | none => exact hs
  | some i =>
    have hput := hs.putSlot i (h := some h) (fun h' hh' => by cases hh'; exact hh)
    exact ⟨hput.device, hput.handle, hput.sector, hput.decodes⟩

/-- A handle in range is looked up. -/
theorem Steady.getFile (hhandle : handle ≤ 64) :
    Returns (fun r => r.2.Steady P Whole ∧ r.2.world = s.world ∧ ∀ ref f, r.1 = some (ref, f) →
      f.obj.Steady P Whole ∧ s.fileAt handle = some f) (s.getFile handle) := by
  have hfound : Returns (fun _ => True) (s.getFile handle) := by
    unfold Backend.getFile
    refine .ite (fun _ => .ok trivial) (fun hneg => .ite (fun _ => .ok trivial) (fun hbd => ?_))
    have hlow : 1 ≤ handle := by
      simp only [blockDeviceHandle] at hbd
      omega
    obtain ⟨i, hi⟩ := exists_slotOf hlow hhandle
    rw [hi]
    simp only [Bind.bind, Except.bind]
    split <;> exact .ok trivial
  obtain ⟨⟨found, t⟩, hget, -⟩ := hfound
  rw [hget]
  obtain ⟨-, hworld, hspec⟩ := getFile_spec hget
  refine .ok ⟨?_, hworld, ?_⟩
  · cases found with
    | none => exact getFile_none hget ▸ hs
    | some found =>
      obtain ⟨ref, f⟩ := found
      rcases (hspec ref f rfl).2 with ⟨-, -, rfl, -⟩ | ⟨i, -, rfl, -, -⟩
      · exact hs
      · exact hs.touch i
  · rintro ref f rfl
    refine ⟨?_, by simp only [fileAt, hget]⟩
    rcases (hspec ref f rfl).2 with ⟨-, -, -, n, hbd⟩ | ⟨i, -, -, -, hi⟩
    · exact hs.device _ hbd
    · exact hs.handle i _ hi

omit hs in
/-- The rule for the methods that work on a file. -/
theorem Steady.withFile {α : Type} {Q : α → Prop} {missing : α}
    {body : FileHandle φ ρ → World η → Except Fault (α × FileHandle φ ρ × World η)}
    (hs : s.Steady P Whole) (hhandle : handle ≤ 64) (hmissing : Q missing)
    (hbody : ∀ f, s.fileAt handle = some f → f.obj.Steady P Whole →
      Returns (fun r => Q r.1 ∧ r.2.1.obj.Steady P Whole) (body f s.world)) :
    Returns (fun r => Q r.1 ∧ r.2.Steady P Whole) (s.withFile handle missing body) := by
  refine (hs.getFile hhandle).bind ?_
  rintro ⟨found, t⟩ ⟨ht, hworld, hfound⟩
  cases found with
  | none => exact .ok ⟨hmissing, ht⟩
  | some found =>
    obtain ⟨ref, f⟩ := found
    obtain ⟨hobj, hat⟩ := hfound ref f rfl
    simp only at hworld
    simp only [hworld]
    refine (hbody f hat hobj).bind ?_
    rintro ⟨a, f', w⟩ ⟨ha, hf'⟩
    exact .ok ⟨ha, (ht.putFile hf' ref).setWorld w⟩

/-! ### The methods -/

omit hs in
/-- What is returned of a read fits into the buffer. -/
theorem length_readReturns_le {expected : Error → Prop} [DecidablePred expected] {n : ℕ}
    (hn : n ≤ dataBufferSize) (readBuffer : Buffer Byte) {bytes : List Byte}
    (hbytes : bytes.length ≤ n) (err : Option Error) :
    (readReturns expected readBuffer bytes err).1.data.getD 0 ≤ dataBufferSize := by
  rcases readReturns_cases expected readBuffer bytes err with heq | ⟨e, buffer, heq⟩ <;> rw [heq]
  · exact hbytes.trans hn
  · exact Nat.zero_le _

/-- `Read`. -/
theorem Steady.read (hhandle : handle ≤ 64) {size : BitVec 32}
    (hsize : ∀ f, s.fileAt handle = some f → size.toNat ≤ dataBufferSize)
    (readBuffer : Buffer Byte) :
    Returns (fun r => r.1.1.data.getD 0 ≤ dataBufferSize ∧ r.2.Steady P Whole)
      (read P handle size readBuffer s) := by
  refine hs.withFile (Q := fun r : ReadResult × Buffer Byte => r.1.data.getD 0 ≤ dataBufferSize)
    hhandle (Nat.zero_le _) ?_
  intro f hf hobj
  have hfits := hsize f hf
  rw [if_neg (Nat.not_lt.mpr hfits)]
  refine (FileHandle.steady_read hobj size.toNat s.world).bind ?_
  rintro ⟨⟨bytes, err⟩, f', w⟩ ⟨hbytes, hf'⟩
  exact .ok ⟨length_readReturns_le hfits readBuffer hbytes err, hf'⟩

/-- The sizes of block operations do not wrap around. -/
theorem Steady.sectors (handle : ℤ) (count : BitVec 16) :
    int64 (count.toNat * s.sectorSizeOf handle) = count.toNat * s.sectorSizeOf handle ∧
      0 ≤ count.toNat * s.sectorSizeOf handle := by
  obtain ⟨hlow, hhigh⟩ := hs.sector
  have hcount : (count.toNat : ℤ) < 2 ^ 16 := by exact_mod_cast count.isLt
  have hsize : 0 ≤ s.sectorSizeOf handle ∧ s.sectorSizeOf handle < 2 ^ 47 := by
    unfold sectorSizeOf
    split_ifs
    · omega
    · exact ⟨hlow, hhigh⟩
  have hnonneg : 0 ≤ (count.toNat : ℤ) * s.sectorSizeOf handle :=
    Int.mul_nonneg (Int.natCast_nonneg _) hsize.1
  have hlt : (count.toNat : ℤ) * s.sectorSizeOf handle < 2 ^ 63 := by
    calc (count.toNat : ℤ) * s.sectorSizeOf handle
        ≤ (2 ^ 16 - 1) * s.sectorSizeOf handle :=
          Int.mul_le_mul_of_nonneg_right (by omega) hsize.1
      _ < 2 ^ 63 := by omega
  exact ⟨int64_eq_self (by omega) hlt, hnonneg⟩

section Handles

variable (hhandle : handle ≤ 64)
include hhandle

/-- `Bread`. -/
theorem Steady.bread (sectorNr : ℤ) {sectorCount : BitVec 16}
    (hsize : ∀ f, s.fileAt handle = some f →
      (f.obj.seek P (int64 (sectorNr * s.sectorSizeOf handle)) 0 s.world.host).1.2 = none →
      sectorCount.toNat * s.sectorSizeOf handle ≤ dataBufferSize) (readBuffer : Buffer Byte) :
    Returns (fun r => r.1.1.data.getD 0 ≤ dataBufferSize ∧ r.2.Steady P Whole)
      (bread P handle sectorNr sectorCount readBuffer s) := by
  obtain ⟨hexact, hnonneg⟩ := hs.sectors handle sectorCount
  refine hs.withFile (Q := fun r : ReadResult × Buffer Byte => r.1.data.getD 0 ≤ dataBufferSize)
    hhandle (Nat.zero_le _) ?_
  intro f hf hobj
  have hmoved := hobj.seek (int64 (sectorNr * s.sectorSizeOf handle)) 0 s.world.host
  have hfits := hsize f hf
  unfold breadBody
  simp only [FileHandle.seek]
  generalize f.obj.seek P (int64 (sectorNr * s.sectorSizeOf handle)) 0 s.world.host = moved
    at hmoved hfits ⊢
  obtain ⟨⟨pos, err⟩, obj, h'⟩ := moved
  cases err with
  | some err => exact .ok ⟨Nat.zero_le _, hmoved⟩
  | none =>
    have hle := hfits rfl
    simp only [hexact]
    rw [if_neg (by omega)]
    have hn : (sectorCount.toNat * s.sectorSizeOf handle).toNat ≤ dataBufferSize := by omega
    refine (FileHandle.steady_read hmoved _ _).bind ?_
    rintro ⟨⟨bytes, err⟩, f', w⟩ ⟨hbytes, hf'⟩
    exact .ok ⟨length_readReturns_le hn readBuffer hbytes err, hf'⟩

/-- `WriteStart`. -/
theorem Steady.writeStart : Returns (fun r => r.2.Steady P Whole) (writeStart handle s) := by
  refine (hs.withFile (Q := fun _ => True) hhandle trivial ?_).mono (fun _ hr => hr.2)
  exact fun f _ hobj => .ite (fun _ => .ok ⟨trivial, hobj⟩) (fun _ => .ok ⟨trivial, hobj⟩)

/-- `BwriteStart`. -/
theorem Steady.bwriteStart (sectorNr : ℤ) (sectorCount : BitVec 16) :
    Returns (fun r => r.2.Steady P Whole) (bwriteStart handle sectorNr sectorCount s) := by
  refine (hs.withFile (Q := fun _ => True) hhandle trivial ?_).mono (fun _ hr => hr.2)
  exact fun f _ hobj => .ite (fun _ => .ok ⟨trivial, hobj⟩) (fun _ => .ok ⟨trivial, hobj⟩)

/-- `WriteChunk`. -/
theorem Steady.writeChunk (chunkNr chunkSize totalChunks : BitVec 16) (chunk : List Byte) :
    Returns (fun r => r.2.Steady P Whole)
      (writeChunk handle chunkNr chunkSize totalChunks chunk s) := by
  refine (hs.withFile (Q := fun _ => True) hhandle trivial ?_).mono (fun _ hr => hr.2)
  exact fun f _ hobj => .ite (fun _ => .ok ⟨trivial, hobj⟩) (fun _ => .ok ⟨trivial, hobj⟩)

/-- `Lseek`. -/
theorem Steady.lseek (offset whence : ℤ) :
    Returns (fun r => r.2.Steady P Whole) (lseek P handle offset whence s) := by
  refine (hs.withFile (Q := fun _ => True) hhandle trivial ?_).mono (fun _ hr => hr.2)
  exact fun f _ hobj => .ok ⟨trivial, hobj.seek offset whence _⟩

end Handles

omit hs in
/-- The write of the collected chunks. -/
theorem steady_completeBody {sectorSize : ℤ} {f : FileHandle φ ρ} (hobj : f.obj.Steady P Whole)
    (hsize : 0 ≤ int64 (f.wr.sectorCount.toNat * sectorSize)) (w : World η) :
    Returns (fun r => r.2.1.obj.Steady P Whole) (completeBody P sectorSize f w) := by
  unfold completeBody
  simp only
  refine .ite (fun _ => ?_) (fun _ => ?_)
  · rw [if_neg (by omega)]
    have hmoved := hobj.seek (int64 (f.wr.sectorNumber * sectorSize)) 0 w.host
    simp only [FileHandle.seek]
    generalize f.obj.seek P (int64 (f.wr.sectorNumber * sectorSize)) 0 w.host = moved at hmoved ⊢
    obtain ⟨⟨pos, err⟩, obj, h'⟩ := moved
    cases err with
    | some err => exact .ok hmoved
    | none => exact .ok (hmoved.write _ _)
  · have hwritten := hobj.write f.wr.dataBuffer w.host
    simp only [FileHandle.write]
    generalize f.obj.write P f.wr.dataBuffer w.host = written at hwritten ⊢
    obtain ⟨⟨n, err⟩, obj, h'⟩ := written
    cases err with
    | some err => exact .ok hwritten
    | none => exact .ok hwritten

/-- `CompleteWrite`. -/
theorem Steady.completeWrite (hhandle : handle ≤ 64) :
    Returns (fun r => r.2.Steady P Whole) (completeWrite P handle s) := by
  refine (hs.withFile (Q := fun _ => True) hhandle trivial ?_).mono (fun _ hr => hr.2)
  intro f _ hobj
  obtain ⟨hexact, hnonneg⟩ := hs.sectors handle f.wr.sectorCount
  rw [← hexact] at hnonneg
  exact (steady_completeBody hobj hnonneg _).mono (fun _ hr => ⟨trivial, hr⟩)

omit hs in
/-- The name of an entry, with the extension it may get, is not too long. -/
theorem length_entryOf (s : Backend η φ ρ) (dirPath : Path) {entry : Path}
    (hentry : entry.length ≤ maxNameLength) :
    (s.entryOf P dirPath entry).2.1.length ≤ maxNameLength + 4 := by
  unfold entryOf
  simp only
  split
  · exact Nat.zero_le _
  · split_ifs
    · split
      · exact Nat.zero_le _
      · simp only [List.length_append]
        exact Nat.add_le_add_right hentry 4
    · exact hentry.trans (Nat.le_add_right _ _)

/-- `Dread`. -/
theorem Steady.dread (hlow : 1 ≤ handle) (hhandle : handle ≤ 64) :
    Returns (fun r => r.1.2.1.length ≤ maxNameLength + 4 ∧ r.2.Steady P Whole)
      (dread P handle s) := by
  obtain ⟨i, hi⟩ := exists_slotOf hlow hhandle
  simp only [Backend.dread, getDir, hi, Bind.bind, Except.bind, Pure.pure, Except.pure]
  cases hslot : s.handles i with
  | none => exact .ok ⟨Nat.zero_le _, hs⟩
  | some h =>
    cases h with
    | file f => exact .ok ⟨Nat.zero_le _, hs⟩
    | dir d =>
      have hd : ∀ name ∈ d.entries, name.length ≤ maxNameLength := hs.handle i _ hslot
      simp only
      cases hentry : d.entries[d.index]? with
      | none => exact .ok ⟨Nat.zero_le _, (hs.touch i).setWorld _⟩
      | some entry =>
        refine .ok ⟨length_entryOf _ _ (hd _ (List.mem_of_getElem? hentry)), ?_⟩
        have hput := hs.putSlot i (h := some (Handle.dir { d with index := d.index + 1 }))
          (fun h' hh' => by cases hh'; exact hd)
        exact ⟨hput.device, hput.handle, hput.sector, hput.decodes⟩

/-- `Close`. -/
theorem Steady.close (hhandle : handle = 0 ∨ 1 ≤ handle ∧ handle ≤ 64) :
    Returns (fun r => r.2.Steady P Whole) (close P handle s) := by
  unfold Backend.close Backend.freeHandle
  by_cases hbd : handle = blockDeviceHandle
  · rw [if_pos hbd]
    exact .ok hs
  · rw [if_neg hbd]
    obtain ⟨i, hi⟩ := exists_slotOf (hhandle.resolve_left hbd).1 (hhandle.resolve_left hbd).2
    rw [hi]
    have hput := hs.putSlot i (h := none) (fun h' hh' => by cases hh')
    exact .ok ⟨hput.device, hput.handle, hput.sector, hput.decodes⟩

/-- `Getstat` of a path. -/
theorem Steady.statOnHost (path : Path) : (statOnHost P path s).2.Steady P Whole := by
  unfold Backend.statOnHost
  split
  · exact hs
  · rename_i resolved _
    have hfound : (s.getFileByPath resolved).2.Steady P Whole := by
      unfold getFileByPath
      split
      · exact hs
      · split
        · exact hs.touch _
        · exact hs
    generalize s.getFileByPath resolved = found at hfound ⊢
    obtain ⟨f, t⟩ := found
    simp only
    split
    · split <;> exact hfound
    · split <;> exact hfound

/-- `Getstat`. -/
theorem Steady.getstat (path : Path) :
    Returns (fun r => r.2.Steady P Whole) (getstat P path s) := by
  unfold Backend.getstat
  split
  · exact .ok hs
  · exact .ok (hs.statOnHost _)

/-- `Remove` and `Rmdir`. -/
theorem Steady.changeDir (op : Path → η → Option Error × η)
    (path : Path) : Returns (fun r => r.2.Steady P Whole) (changeDir P op path s) := by
  unfold Backend.changeDir
  refine .ite (fun _ => .ok hs) (fun _ => ?_)
  cases s.resolvePath P path with
  | none => exact .ok hs
  | some resolved => exact .ok (hs.setHost _)

/-- `Mkdir`. -/
theorem Steady.mkdir (path : Path) : Returns (fun r => r.2.Steady P Whole) (mkdir P path s) :=
  hs.changeDir _ path

/-! ### Opening -/

/-- An object gets its number. -/
theorem Steady.newObject : s.newObject.2.Steady P Whole :=
  hs.setWorld _

/-- A file that was opened gets a handle. -/
theorem Steady.addFile (hostPath : Path) {obj : FileObject φ ρ}
    (hobj : obj.Steady P Whole) (readOnly : Bool) :
    (s.addFile P hostPath obj readOnly).2.Steady P Whole := by
  unfold Backend.addFile newFileHandle
  simp only
  have halloc : (s.newObject.2.allocHandle P
      (.file ⟨s.newObject.1, hostPath, obj, .zero, readOnly⟩)).2.Steady P Whole :=
    hs.newObject.allocHandle hobj
  split_ifs
  · exact halloc.setWorld _
  · exact halloc

/-- A directory gets a handle. -/
theorem Steady.addDir (dirPath : Path) {entries : List Path}
    (hentries : ∀ name ∈ entries, name.length ≤ maxNameLength) :
    (s.addDir P dirPath entries).2.Steady P Whole :=
  hs.newObject.allocHandle hentries

omit hs in
/-- The end of `Open`. -/
theorem steady_finishOpen {stat : η → Except Error FileInfo} {added : ℤ × Backend η φ ρ}
    (hadded : added.2.Steady P Whole) (hstat : ∃ info, stat added.2.world.host = .ok info) :
    Returns (fun r => r.2.Steady P Whole) (finishOpen stat added) := by
  unfold finishOpen
  refine .ite (fun _ => .ok hadded) (fun _ => ?_)
  obtain ⟨info, hinfo⟩ := hstat
  rw [hinfo]
  exact .ok hadded

omit hs in
/-- A directory is still there when its handle is in the table. -/
theorem isDir_addDir (S : Sound P) {path : Path} (hdir : S.IsDir path s.world.host)
    (dirPath : Path) (entries : List Path) :
    S.IsDir path (s.addDir P dirPath entries).2.world.host := by
  unfold Backend.addDir Backend.allocHandle
  simp only
  split
  · exact hdir
  · unfold closeSlot
    simp only
    split
    · exact hdir
    · exact S.isDir_close _ hdir

/-- `Open` of a directory. -/
theorem Steady.openDir (S : Sound P) (fullPath : Path) :
    Returns (fun r => r.2.Steady P Whole) (s.openDir P fullPath) := by
  unfold Backend.openDir
  cases hread : P.os.readDir fullPath s.world.host with
  | error err => exact .ok hs
  | ok entries =>
    obtain ⟨hdir, hnames⟩ := S.readDir _ _ _ hread
    exact steady_finishOpen (hs.addDir fullPath hnames)
      (S.stat _ _ (isDir_addDir S hdir fullPath entries))

/-- `Open` of a file of the host. -/
theorem Steady.openPlain (S : Sound P) (fullPath : Path) (flag : OpenFlag) (present : Bool) :
    Returns (fun r => r.2.Steady P Whole) (s.openPlain P fullPath flag present) := by
  unfold Backend.openPlain
  refine .ite (fun _ => .ok hs) (fun _ => ?_)
  simp only
  split
  · exact .ok (hs.setHost _)
  · rename_i f h' _
    have hobj : (FileObject.osFile fullPath f : FileObject φ ρ).Steady P Whole := trivial
    exact steady_finishOpen ((hs.setHost h').addFile fullPath hobj _)
      (FileObject.exists_stat S _ _)

/-- `Open` of a file or an image. -/
theorem Steady.openRegular (S : Sound P) (fullPath : Path) (flag : OpenFlag) :
    Returns (fun r => r.2.Steady P Whole) (s.openRegular P fullPath flag) := by
  unfold Backend.openRegular
  simp only
  cases hpath : s.compressedPath P fullPath with
  | none => exact hs.openPlain S _ _ _
  | some path =>
    have henabled : s.enableCompression = true := by
      unfold compressedPath at hpath
      split_ifs at hpath with henabled
      simp only [Bool.and_eq_true] at henabled
      exact henabled.1.1
    refine ((hs.decodes henabled).openCompressed path _ _).bind ?_
    rintro ⟨wrapper, h'⟩ hwrapper
    cases wrapper with
    | none => exact (hs.setHost h').openPlain S _ _ _
    | some c =>
      have hobj : (FileObject.cachedReader c : FileObject φ ρ).Steady P Whole := hwrapper c rfl
      exact steady_finishOpen ((hs.setHost h').addFile path hobj true) ⟨_, rfl⟩

/-- `Open`. -/
theorem Steady.openFile (S : Sound P) (path : Path) (flag : OpenFlag)
    (isDir : Bool) : Returns (fun r => r.2.Steady P Whole) (openFile P path flag isDir s) := by
  unfold Backend.openFile
  cases s.resolvePath P path with
  | none => exact .ok hs
  | some fullPath =>
    simp only
    refine .ite (fun _ => .ok hs) (fun _ => .ite (fun _ => .ok hs) (fun _ => ?_))
    exact .ite (fun _ => hs.openDir S fullPath) (fun _ => hs.openRegular S fullPath flag)

end Backend

end Udpfsd.Fs
