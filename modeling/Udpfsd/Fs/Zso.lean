import Udpfsd.Fs.Container
import Udpfsd.Fs.Host
import Udpfsd.Fs.ReadAll

/-!
# ZSO and ZISO images

The blocks are compressed by LZ4 or stored as they are. There are two layouts with different
magic numbers. A ZISO file is laid out like a CSO file. A `ZSO\0` file has one entry for every
block, with offsets in bytes, and its last block ends with the file. The reader tells the
layouts apart, but it takes the flag in the top bit of an entry out of the offset in the ZISO
layout only.
-/

namespace Udpfsd.Fs

open Udprdma (Byte uint32 putUint32)
open Udpfs (Error Fault oRDONLY)
open Blocks (Placed)
open Container (entries)
open FileProgram

variable {η φ : Type}

/-- `zsoMagic`. -/
def zsoMagic : List Byte := Path.ascii ['Z', 'S', 'O', '\x00']

/-- `zisoMagic`. -/
def zisoMagic : List Byte := Path.ascii ['Z', 'I', 'S', 'O']

/-- The fields of `ZSO` that `parseHeader` fills in. -/
structure ZsoHeader where
  /-- What `Stat` reports. -/
  stat : CompressedInfo
  /-- The index. -/
  offsets : List (BitVec 32)
  /-- The block size. -/
  blockSize : ℤ
  /-- The number of blocks. -/
  numBlocks : ℤ
  /-- The size of the image. -/
  size : ℤ
  /-- The unit of the offsets, as a power of two. -/
  align : Byte
  /-- Whether the layout is ZISO. -/
  ziso : Bool

/-- `ZSO`. -/
structure Zso (φ : Type) extends ZsoHeader where
  /-- The file. -/
  f : φ

/-- `lz4.UncompressBlock` into a buffer of this length: the bytes decoded and what is left of
the buffer behind them. -/
abbrev UncompressBlock := List Byte → ℕ → Option (List Byte × List Byte)

namespace Zso

variable (os : OS η φ)

/-- What `parseHeader` takes from the first 24 bytes. -/
def layout : Layout ZsoHeader where
  known b := b.take 4 = zisoMagic || b.take 4 = zsoMagic
  position b := (uint32 (b.drop 4)).toNat
  ended b := b.take 4 = zisoMagic
  header b stat offsets blockSize numBlocks size :=
    let ziso : Bool := b.take 4 = zisoMagic
    ⟨stat, offsets, blockSize, numBlocks, size, if ziso then b.getD 21 0 else 0, ziso⟩

/-- `Open`, with `make` as a parameter. -/
def openImageWith (make : Make η φ) (path : Path) (h : η) :
    Except Fault (Except Error (Zso φ) × η) :=
  FileProgram.openImage os make layout (fun (f, header) => ⟨header, f⟩) path h

/-- `Open`. -/
def openImage (path : Path) (h : η) : Except Fault (Except Error (Zso φ) × η) :=
  openImageWith os makeAny path h

/-- The part of `ReadBlock` that finds a block: its offset in the file and its stored size. -/
def locate (z : ZsoHeader) (blockIdx : ℤ) (rawOffset : BitVec 32) : FileProgram η φ (ℤ × ℤ) :=
  if z.ziso then do
    let nextRaw ← entry z.offsets (blockIdx + 1)
    let offset := shifted rawOffset z.align
    return (offset, int64 (shifted nextRaw z.align - offset))
  else if blockIdx + 1 < z.numBlocks then do
    let nextRaw ← entry z.offsets (blockIdx + 1)
    return ((rawOffset.toNat : ℤ), ((nextRaw - rawOffset).toNat : ℤ))
  else do
    let info ← fstat os
    return ((rawOffset.toNat : ℤ), int64 (info.size - rawOffset.toNat))

/-- The loop of `ReadBlock` that takes bytes off the end until the block decodes, with `n`
bytes left. -/
def uncompress (lz4 : UncompressBlock) (blockSize : ℕ) (compressed : List Byte) : ℕ → Option Block
  | 0 => none
  | n + 1 =>
    match lz4 (compressed.take (n + 1)) blockSize with
    | some (out, spare) => some ⟨out, spare⟩
    | none => uncompress lz4 blockSize compressed n

/-- The end of `ReadBlock`. A block that is not compressed is copied into a buffer of the block
size. -/
def decode (lz4 : UncompressBlock) (blockSize : ℕ) (uncompressed : Bool) (compressed : List Byte) :
    FileProgram η φ Block :=
  if uncompressed then
    pure ⟨compressed.take blockSize ++ List.replicate (blockSize - compressed.length) 0, []⟩
  else
    match uncompress lz4 blockSize compressed compressed.length with
    | some b => pure b
    | none => Program.fail .other

/-- `ReadBlock`, with `make` as a parameter. -/
def readBlockWith (make : BitVec 32 → ℤ → FileProgram η φ ℕ) (lz4 : UncompressBlock)
    (z : ZsoHeader) (blockIdx : ℤ) : FileProgram η φ Block :=
  FileProgram.readBlock os make z.offsets z.numBlocks (locate os z blockIdx)
    (decode lz4 z.blockSize.toNat) blockIdx

/-- `ReadBlock`. -/
def readBlock (lz4 : UncompressBlock) (z : ZsoHeader) (blockIdx : ℤ) : FileProgram η φ Block :=
  readBlockWith os (fun _ => makeLen) lz4 z blockIdx

/-- The methods of `ZSO` as a `BlockReader`. -/
def reader (lz4 : UncompressBlock) : BlockReader η (Zso φ) where
  readBlock z blockIdx h := do
    let (r, f, h) ← readBlock os lz4 z.toZsoHeader blockIdx (z.f, h)
    return (r, { z with f := f }, h)
  blockSize z := z.blockSize
  numBlocks z := z.numBlocks
  uncompressedSize z := z.size
  close z h := os.close z.f h

/-- Package `zso`. -/
def format : Format η (Zso φ) where
  extensions := [Path.ascii ['.', 'z', 's', 'o'], Path.ascii ['.', 'z', 'i', 's', 'o']]
  openImage := openImage os
  getStat := getStatWith os [zisoMagic, zsoMagic]

/-- What all programs of the decoders have, `ReadBlock` has. -/
theorem closed_readBlock {os : OS η φ} {Has : ∀ α : Type, FileProgram η φ α → Prop}
    (hos : Closed os Has) (lz4 : UncompressBlock) (z : ZsoHeader) (idx : ℤ) :
    Has Block (readBlock os lz4 z idx) := by
  refine hos.readBlock idx (fun offset => ?_) (fun flag compressed => ?_)
  · exact Closed.cond (hos.bind (hos.entry _ _) fun _ => hos.pure _)
      (Closed.cond (hos.bind (hos.entry _ _) fun _ => hos.pure _)
        (hos.bind hos.fstat fun _ => hos.pure _))
  · refine Closed.cond (hos.pure _) ?_
    cases uncompress lz4 z.blockSize.toNat compressed compressed.length with
    | some b => exact hos.pure _
    | none => exact hos.fail _

/-! ### The layouts -/

/-- The file is an image in one of the two layouts. Every block is stored as it is or
compressed, behind the index, and ends before the next one. -/
structure Encodes (Compressed : List Byte → List Byte → Prop) (ziso : Bool) (headerSize : ℕ)
    (k : Container) : Prop extends k.Valid headerSize (entries ziso k) where
  /-- The magic number. -/
  magic : Placed k.file 0 (if ziso then zisoMagic else zsoMagic)
  /-- The header size is a 32-bit number. -/
  headerSize_lt : headerSize < 2 ^ 32
  /-- The header has its own size. -/
  headerField : Placed k.file 4 (putUint32 (BitVec.ofNat 32 headerSize))
  /-- The unit of the offsets in the ZISO layout. -/
  align_ziso : ziso = true → Placed k.file 21 [k.align]
  /-- Offsets are in bytes in the other layout. -/
  align_zso : ziso = false → k.align = 0
  /-- The other blocks are compressed. -/
  compressed : ∀ i < k.blocks, k.raw i = false → Compressed (k.stored i) (k.block i)
  /-- The blocks are behind the index. -/
  behind : ∀ i < k.blocks, headerSize + 4 * entries ziso k ≤ k.place i
  /-- A block ends before the next offset. -/
  apart : ∀ i, i + 1 < entries ziso k → k.place i + (k.stored i).length ≤ k.place (i + 1)
  /-- In the ZISO layout the end entry is in the file. -/
  last_ziso : ziso = true → k.place k.blocks ≤ k.file.length
  /-- In the other layout the last block ends with the file. -/
  last_zso : ziso = false → ∀ i, i + 1 = k.blocks →
    k.place i + (k.stored i).length = k.file.length

/-- The image can be read: its size leaves the rounding up to blocks without overflow, and all
its blocks are compressed unless the layout is ZISO. -/
def Readable (ziso : Bool) (k : Container) : Prop :=
  k.image.length + k.blockSize ≤ 2 ^ 63 ∧ (ziso = true ∨ ∀ i < k.blocks, k.raw i = false)

/-- What is assumed of `lz4.UncompressBlock`: it decodes a compressed block into a buffer that
is large enough, and it fails when bytes follow. A compressed block is not empty. -/
structure Decodes (lz4 : UncompressBlock) (Compressed : List Byte → List Byte → Prop) : Prop where
  /-- It decodes a compressed block. -/
  decode : ∀ stream data n, Compressed stream data → data.length ≤ n →
    ∃ spare, lz4 stream n = some (data, spare)
  /-- It fails on a compressed block with bytes behind it. -/
  padding : ∀ stream data rest n, Compressed stream data → rest ≠ [] →
    lz4 (stream ++ rest) n = none
  /-- A compressed block is not empty. -/
  nonempty : ∀ stream data, Compressed stream data → data ≠ [] → stream ≠ []

variable {os} {lz4 : UncompressBlock} {Compressed : List Byte → List Byte → Prop} {ziso : Bool}
  {headerSize : ℕ} {k : Container} {At : φ → ℕ → η → Prop} {f : φ} {pos : ℕ} {h : η}

/-- The bytes behind a compressed block are taken off until it decodes. -/
theorem uncompress_append (hlz4 : Decodes lz4 Compressed) {stream data : List Byte} {n : ℕ}
    (hstream : Compressed stream data) (hne : stream ≠ []) (hn : data.length ≤ n)
    (rest : List Byte) {j : ℕ} (hj : j ≤ rest.length) :
    ∃ spare, uncompress lz4 n (stream ++ rest) (stream.length + j) = some ⟨data, spare⟩ := by
  induction j with
  | zero =>
    obtain ⟨spare, hdecode⟩ := hlz4.decode stream data n hstream hn
    obtain ⟨m, hm⟩ : ∃ m, stream.length = m + 1 :=
      ⟨stream.length - 1, by have := List.length_pos_iff.mpr hne; omega⟩
    refine ⟨spare, ?_⟩
    rw [Nat.add_zero, hm, uncompress, ← hm, List.take_left, hdecode]
  | succ j ih =>
    have htake : (stream ++ rest).take (stream.length + j + 1) = stream ++ rest.take (j + 1) :=
      List.take_length_add_append (j + 1)
    have hrest : rest.take (j + 1) ≠ [] := by
      rw [← List.length_pos_iff, List.length_take]
      omega
    obtain ⟨spare, hdecode⟩ := ih (by omega)
    refine ⟨spare, ?_⟩
    rw [← Nat.add_assoc, uncompress, htake, hlz4.padding stream data _ n hstream hrest]
    exact hdecode

/-! ### Opening -/

section Magic

variable (hk : Encodes Compressed ziso headerSize k)
include hk

/-- The magic number is read back. -/
theorem Encodes.take_four : (k.file.take 24).take 4 = if ziso then zisoMagic else zsoMagic := by
  have htake := (placed_take hk.magic (by cases ziso <;> decide)).take
  cases ziso <;> exact htake

/-- It tells the layouts apart. -/
theorem Encodes.decide_ziso : decide ((k.file.take 24).take 4 = zisoMagic) = ziso := by
  rw [hk.take_four]
  cases ziso <;> decide

/-- The header is in the layout of `parseHeader`. -/
theorem Encodes.headed : Container.Headed layout ziso headerSize k where
  toValid := hk.toValid
  known := by
    simp only [layout, hk.take_four]
    cases ziso <;> decide
  position := by
    simp only [layout]
    rw [uint32_of_placed (placed_take hk.headerField (by simp [putUint32])), BitVec.toNat_ofNat,
      Nat.mod_eq_of_lt hk.headerSize_lt]
  ended_eq := hk.decide_ziso

end Magic

/-- What `parseHeader` finds in the file. -/
def headerOf (ziso : Bool) (k : Container) (stat : CompressedInfo) : ZsoHeader where
  stat := stat
  offsets := Container.indexOf ziso k
  blockSize := k.blockSize
  numBlocks := k.blocks
  size := k.image.length
  align := k.align
  ziso := ziso

/-- The decoder has the header of the file and the file open. -/
def Ready (ziso : Bool) (k : Container) (At : φ → ℕ → η → Prop) (z : Zso φ) (h : η) : Prop :=
  (∃ stat, z.toZsoHeader = headerOf ziso k stat) ∧ ∃ pos, At z.f pos h

/-- Its sizes are those of the image. -/
theorem Ready.fields {z : Zso φ} (hz : Ready ziso k At z h) :
    z.blockSize = k.blockSize ∧ z.numBlocks = k.blocks ∧ z.size = k.image.length := by
  obtain ⟨⟨stat, hheader⟩, -⟩ := hz
  simp only [hheader]
  exact ⟨rfl, rfl, rfl⟩

/-- The file of an image whose size does not overflow is opened. -/
theorem openImage_ok (hk : Encodes Compressed ziso headerSize k) (hos : Holds os k.file At)
    {path : Path} {h₀ : η} (hopen : os.openFile path oRDONLY h = (.ok f, h₀)) (hf : At f pos h₀)
    (hfits : k.image.length + k.blockSize ≤ 2 ^ 63) :
    ∃ z h', openImage os path h = .ok (.ok z, h') ∧ Ready ziso k At z h' := by
  obtain ⟨t, f', h', pos', hf', hok⟩ := hk.headed.openImage_ok hos hopen hf _ hfits
  refine ⟨_, h', hok, ⟨⟨t, path.base, k.image.length⟩, ?_⟩, pos', hf'⟩
  have halign : (if ziso then (k.file.take 24).getD 21 0 else 0) = k.align := by
    cases hz : ziso with
    | true => exact getD_of_placed (placed_take (hk.align_ziso hz) (by simp))
    | false => exact (hk.align_zso hz).symm
  simp only [layout, headerOf, hk.decide_ziso, halign]

/-- The size of an image that overflows is taken for a negative number, if the file is opened
at all. -/
theorem size_neg_of_overflow (hk : Encodes Compressed ziso headerSize k)
    (hos : Holds os k.file At) {path : Path} {h₀ h' : η} {z : Zso φ}
    (hopen : os.openFile path oRDONLY h = (.ok f, h₀)) (hf : At f pos h₀)
    (hover : 2 ^ 63 < k.image.length + k.blockSize)
    (hok : openImage os path h = .ok (.ok z, h')) : z.size < 0 := by
  obtain ⟨f', stat, offsets, numBlocks, size, hneg, rfl⟩ :=
    hk.headed.openImage_overflow hos hopen hf hover hok
  exact hneg

/-! ### Reading a block -/

theorem lt_entries {i : ℕ} (hi : i < k.blocks) : i < entries ziso k := by
  unfold entries
  split_ifs <;> omega

section Places

variable (hk : Encodes Compressed ziso headerSize k) (hlz4 : Decodes lz4 Compressed)
include hk hlz4

/-- A stored block is not empty. -/
theorem stored_ne_nil {i : ℕ} (hi : i < k.blocks) : k.stored i ≠ [] := by
  have hne := Container.block_ne_nil hk.blockSize_pos hi
  cases hraw : k.raw i with
  | true => rwa [hk.stored_raw i hi hraw]
  | false => exact hlz4.nonempty _ _ (hk.compressed i hi hraw) hne

/-- A stored block is within the file. -/
theorem place_add_length_le {i : ℕ} (hi : i < k.blocks) :
    k.place i + (k.stored i).length ≤ k.file.length :=
  (hk.placed i hi).le_length (stored_ne_nil hk hlz4 hi)

/-- Where the reader takes a block to end: at the next offset, or at the end of the file. -/
def stop (ziso : Bool) (k : Container) (i : ℕ) : ℕ :=
  if ziso = true ∨ i + 1 < k.blocks then k.place (i + 1) else k.file.length

/-- It ends behind its bytes, within the file. -/
theorem stop_le {i : ℕ} (hi : i < k.blocks) :
    k.place i + (k.stored i).length ≤ stop ziso k i ∧ stop ziso k i ≤ k.file.length := by
  unfold stop
  split_ifs with hnext
  · have hlt : i + 1 < entries ziso k := by
      rcases hnext with rfl | hnext
      · simpa [entries] using hi
      · exact lt_entries hnext
    refine ⟨hk.apart i hlt, ?_⟩
    rcases (show i + 1 ≤ k.blocks from hi).lt_or_eq with hbefore | heq
    · have hle := place_add_length_le hk hlz4 hbefore
      omega
    · rcases hnext with hziso | hnext
      · rw [heq]
        exact hk.last_ziso hziso
      · omega
  · exact ⟨place_add_length_le hk hlz4 hi, le_rfl⟩

end Places

/-- An entry of the index. -/
theorem entry_headerOf (ziso : Bool) (k : Container) (stat : CompressedInfo) {i : ℕ}
    (hi : i < entries ziso k) (s : φ × η) :
    entry (headerOf ziso k stat).offsets (i : ℤ) s =
      .ok (.ok (indexEntry (k.offset i) (k.raw i)), s) := by
  apply entry_natCast
  simp [headerOf, Container.indexOf, hi]

section Locate

variable {z : ZsoHeader} {i : ℕ} {e e' : BitVec 32} {s : φ × η}

/-- In the ZISO layout. -/
theorem locate_ziso (hziso : z.ziso = true)
    (hnext : entry z.offsets ((i + 1 : ℕ) : ℤ) s = .ok (.ok e', s)) :
    locate os z i e s =
      .ok (.ok (shifted e z.align, int64 (shifted e' z.align - shifted e z.align)), s) := by
  rw [locate, if_pos hziso]
  change (entry z.offsets ((i + 1 : ℕ) : ℤ) >>= _) s = _
  rw [Program.bind_of_ok hnext]
  rfl

/-- Before the last block. -/
theorem locate_next (hziso : z.ziso = false) (hlt : ((i + 1 : ℕ) : ℤ) < z.numBlocks)
    (hnext : entry z.offsets ((i + 1 : ℕ) : ℤ) s = .ok (.ok e', s)) :
    locate os z i e s = .ok (.ok ((e.toNat : ℤ), ((e' - e).toNat : ℤ)), s) := by
  rw [locate, if_neg (by simp [hziso]), if_pos (by simpa using hlt)]
  change (entry z.offsets ((i + 1 : ℕ) : ℤ) >>= _) s = _
  rw [Program.bind_of_ok hnext]
  rfl

/-- At the last block. -/
theorem locate_last {info : Udpfs.FileInfo} (hziso : z.ziso = false)
    (hlast : ¬ ((i + 1 : ℕ) : ℤ) < z.numBlocks) (hstat : fstat os s = .ok (.ok info, s)) :
    locate os z i e s = .ok (.ok ((e.toNat : ℤ), int64 (info.size - e.toNat)), s) := by
  rw [locate, if_neg (by simp [hziso]), if_neg (by simpa using hlast), Program.bind_of_ok hstat]
  rfl

end Locate

/-- The size of the file. -/
theorem fstat_run (hos : Holds os k.file At) (hf : At f pos h) :
    ∃ info, fstat os (f, h) = .ok (.ok info, f, h) ∧ info.size = k.file.length := by
  obtain ⟨info, hstat, hsize⟩ := hos.stat f pos h hf
  exact ⟨info, by rw [fstat, hstat], hsize⟩

/-- In the layout with byte offsets the place of a block is its offset. -/
theorem place_zso (hk : Encodes Compressed false headerSize k) (i : ℕ) :
    k.place i = k.offset i := by
  rw [Container.place, hk.align_zso rfl]
  simp

/-- A block of a ZISO file is found in its place. -/
theorem locate_of_ziso (hk : Encodes Compressed true headerSize k) (hlz4 : Decodes lz4 Compressed)
    (stat : CompressedInfo) {i : ℕ} (hi : i < k.blocks) (s : φ × η) :
    locate os (headerOf true k stat) i (indexEntry (k.offset i) (k.raw i)) s =
      .ok (.ok ((k.place i : ℤ), ((stop true k i - k.place i : ℕ) : ℤ)), s) := by
  have hfile := hk.file_lt
  have hnext : i + 1 < entries true k := by simpa [entries] using hi
  obtain ⟨hstop, hle⟩ := stop_le hk hlz4 hi
  simp only [stop, true_or, if_true] at hstop hle ⊢
  have hthis : shifted (indexEntry (k.offset i) (k.raw i)) k.align = k.place i :=
    shifted_indexEntry (hk.offset_lt i (lt_entries hi)) (by unfold Container.place at *; omega)
  have hthat : shifted (indexEntry (k.offset (i + 1)) (k.raw (i + 1))) k.align = k.place (i + 1) :=
    shifted_indexEntry (hk.offset_lt _ hnext) (by unfold Container.place at *; omega)
  have hlength : int64 ((k.place (i + 1) : ℤ) - k.place i) =
      (k.place (i + 1) - k.place i : ℕ) := by
    rw [int64_eq_self (by omega) (by omega)]
    omega
  rw [locate_ziso rfl (entry_headerOf true k stat hnext s)]
  change Except.ok (Except.ok
    (shifted _ k.align, int64 (shifted _ k.align - shifted _ k.align)), s) = _
  rw [hthis, hthat, hlength]

/-- A block of a file with only compressed blocks is found in its place. -/
theorem locate_of_zso (hk : Encodes Compressed false headerSize k) (hlz4 : Decodes lz4 Compressed)
    (hos : Holds os k.file At) (hf : At f pos h) (hraw : ∀ j < k.blocks, k.raw j = false)
    (stat : CompressedInfo) {i : ℕ} (hi : i < k.blocks) :
    locate os (headerOf false k stat) i (indexEntry (k.offset i) (k.raw i)) (f, h) =
      .ok (.ok ((k.place i : ℤ), ((stop false k i - k.place i : ℕ) : ℤ)), f, h) := by
  have hfile := hk.file_lt
  have hnat {j : ℕ} (hj : j < k.blocks) :
      (indexEntry (k.offset j) (k.raw j)).toNat = k.place j := by
    rw [toNat_indexEntry (hk.offset_lt j (lt_entries hj)), hraw j hj, place_zso hk]
    rfl
  obtain ⟨hstop, hle⟩ := stop_le hk hlz4 hi
  by_cases hnext : i + 1 < k.blocks
  · simp only [stop, Bool.false_eq_true, false_or, hnext, if_true] at hstop hle ⊢
    have hsub : (indexEntry (k.offset (i + 1)) (k.raw (i + 1)) -
        indexEntry (k.offset i) (k.raw i)).toNat = k.place (i + 1) - k.place i := by
      rw [BitVec.toNat_sub_of_le, hnat hnext, hnat hi]
      rw [BitVec.le_def, hnat hnext, hnat hi]
      omega
    rw [locate_next rfl (Int.ofNat_lt.mpr hnext)
      (entry_headerOf false k stat (lt_entries hnext) _), hsub, hnat hi]
  · simp only [stop, Bool.false_eq_true, false_or, hnext, if_false] at hstop hle ⊢
    obtain ⟨info, hstat, hsize⟩ := fstat_run hos hf
    have hlength : int64 ((k.file.length : ℤ) - k.place i) =
        (k.file.length - k.place i : ℕ) := by
      rw [int64_eq_self (by omega) (by omega)]
      omega
    rw [locate_last rfl (fun hlt => hnext (Int.ofNat_lt.mp hlt)) hstat, hsize, hnat hi, hlength]

section Blocks

variable (hk : Encodes Compressed ziso headerSize k)
include hk

/-- `ReadBlock` reads a block from where it is located. -/
theorem readBlock_headerOf (stat : CompressedInfo) {i : ℕ} {start size : ℤ} {s : φ × η}
    (hi : i < k.blocks)
    (hlocate : locate os (headerOf ziso k stat) i (indexEntry (k.offset i) (k.raw i)) s =
      .ok (.ok (start, size), s)) :
    readBlock os lz4 (headerOf ziso k stat) i s =
      (fetch os makeLen start size >>= decode lz4 k.blockSize (k.raw i)) s := by
  have hoffset : (headerOf ziso k stat).offsets[i]? = some (indexEntry (k.offset i) (k.raw i)) := by
    simp [headerOf, Container.indexOf, lt_entries hi]
  have hlt : (i : ℤ) < (headerOf ziso k stat).numBlocks := Int.ofNat_lt.mpr hi
  have hread := FileProgram.readBlock_eq os (fun _ => makeLen) (decode lz4 k.blockSize)
    (by omega) hlt hoffset hlocate
  rwa [topBit_indexEntry (hk.offset_lt i (lt_entries hi))] at hread

/-- `ReadBlock` of a readable image, up to the decoding. -/
theorem readBlock_eq (hlz4 : Decodes lz4 Compressed) (hos : Holds os k.file At) (hf : At f pos h)
    (hraw : ziso = true ∨ ∀ j < k.blocks, k.raw j = false) (stat : CompressedInfo) {i : ℕ}
    (hi : i < k.blocks) :
    ∃ f' h' pos', At f' pos' h' ∧
      readBlock os lz4 (headerOf ziso k stat) i (f, h) =
        decode lz4 k.blockSize (k.raw i)
          ((k.file.drop (k.place i)).take (stop ziso k i - k.place i)) (f', h') := by
  obtain ⟨hstop, hle⟩ := stop_le hk hlz4 hi
  have hlocate : locate os (headerOf ziso k stat) i (indexEntry (k.offset i) (k.raw i)) (f, h) =
      .ok (.ok ((k.place i : ℤ), ((stop ziso k i - k.place i : ℕ) : ℤ)), f, h) := by
    cases ziso with
    | true => exact locate_of_ziso hk hlz4 stat hi _
    | false => exact locate_of_zso hk hlz4 hos hf (hraw.resolve_left (by simp)) stat hi
  obtain ⟨f', h', hfetch, hf'⟩ := hos.fetch_ok hf (k.place i)
    (n := stop ziso k i - k.place i) (by omega)
  refine ⟨f', h', _, hf', ?_⟩
  rw [readBlock_headerOf hk stat hi hlocate, Program.bind_of_ok hfetch]

/-- The decoder delivers the blocks of a readable image. -/
theorem delivers (hlz4 : Decodes lz4 Compressed) (hos : Holds os k.file At)
    (hraw : ziso = true ∨ ∀ j < k.blocks, k.raw j = false) :
    Delivers (reader os lz4) k.image k.blockSize (Ready ziso k At) := by
  rintro ⟨header, f⟩ h i ⟨⟨stat, rfl⟩, pos, hf⟩ hlt
  have hi : i < k.blocks := (Container.lt_blocks hk.blockSize_pos).mpr hlt
  obtain ⟨hstop, hle⟩ := stop_le hk hlz4 hi
  obtain ⟨f', h', pos', hf', heq⟩ := readBlock_eq hk hlz4 hos hf hraw stat hi
  have hready : Ready ziso k At ⟨headerOf ziso k stat, f'⟩ h' := ⟨⟨stat, rfl⟩, pos', hf'⟩
  have hstored : k.stored i <+: (k.file.drop (k.place i)).take (stop ziso k i - k.place i) :=
    (hk.placed i hi).slice_start (by omega)
  obtain ⟨rest, hrest⟩ := hstored
  rw [← hrest] at heq
  have hdecode : ∃ b, decode lz4 k.blockSize (k.raw i) (k.stored i ++ rest) (f', h') =
      .ok (.ok b, f', h') ∧ k.block i <+: b.bytes := by
    cases hflag : k.raw i with
    | true =>
      refine ⟨⟨_, []⟩, rfl, ?_⟩
      rw [hk.stored_raw i hi hflag]
      refine List.IsPrefix.trans ?_ (List.prefix_append _ _)
      rw [List.prefix_take_iff]
      exact ⟨List.prefix_append _ _, k.length_block_le i⟩
    | false =>
      obtain ⟨spare, huncompress⟩ := uncompress_append hlz4 (hk.compressed i hi hflag)
        (stored_ne_nil hk hlz4 hi) (k.length_block_le i) rest le_rfl
      refine ⟨⟨k.block i, spare⟩, ?_, List.prefix_rfl⟩
      rw [decode, if_neg (by simp), List.length_append, huncompress]
      rfl
  obtain ⟨b, hdecode, hblock⟩ := hdecode
  refine ⟨b, ⟨headerOf ziso k stat, f'⟩, h', ?_, hready, hblock⟩
  change (readBlock os lz4 (headerOf ziso k stat) i (f, h) >>= _) = _
  rw [heq, hdecode]
  rfl

end Blocks

/-- Whatever is asked for, the file stays open. -/
theorem keeps_readBlock (hos : StaysOpen os At) (lz4 : UncompressBlock) (z : ZsoHeader)
    (idx : ℤ) : Keeps At (readBlock os lz4 z idx) :=
  closed_readBlock (Keeps.closed hos) lz4 z idx

section Flagged

variable (hk : Encodes Compressed false headerSize k) (hlz4 : Decodes lz4 Compressed)
  (hos : Holds os k.file At)
include hk hlz4 hos

/-- Without the ZISO layout the flag of an uncompressed block stays in its offset: the block is
looked for `2 ^ 31` bytes too far on, and its size is negative or not zero. -/
theorem locate_flagged (hf : At f pos h) (hfile : k.file.length ≤ 2 ^ 31) (stat : CompressedInfo)
    {i : ℕ} (hi : i < k.blocks) (hraw : k.raw i = true) :
    ∃ size : ℤ, size ≠ 0 ∧
      locate os (headerOf false k stat) i (indexEntry (k.offset i) (k.raw i)) (f, h) =
        .ok (.ok (((k.offset i + 2 ^ 31 : ℕ) : ℤ), size), f, h) := by
  have hlt := hk.offset_lt i (lt_entries hi)
  have hbehind := hk.behind i hi
  have hplace := place_zso hk
  have hlength := List.length_pos_iff.mpr (stored_ne_nil hk hlz4 hi)
  have hnat : (indexEntry (k.offset i) (k.raw i)).toNat = k.offset i + 2 ^ 31 := by
    rw [toNat_indexEntry hlt, hraw]
    rfl
  by_cases hnext : i + 1 < k.blocks
  · refine ⟨_, ?_, by rw [locate_next rfl (Int.ofNat_lt.mpr hnext)
      (entry_headerOf false k stat (lt_entries hnext) _), hnat]⟩
    have hapart := hk.apart i (lt_entries hnext)
    have hlt' := hk.offset_lt (i + 1) (lt_entries hnext)
    rw [hplace, hplace] at hapart
    rw [BitVec.toNat_sub, hnat, toNat_indexEntry hlt']
    split_ifs <;> omega
  · obtain ⟨info, hstat, hsize⟩ := fstat_run hos hf
    refine ⟨_, ?_, by rw [locate_last rfl (fun hlt => hnext (Int.ofNat_lt.mp hlt)) hstat, hnat]⟩
    have hentries : 0 < entries false k := by
      rw [entries, if_neg (by simp)]
      omega
    rw [hplace] at hbehind
    rw [hsize, int64_eq_self (by omega) (by omega)]
    omega

/-- An uncompressed block is not delivered without the ZISO layout. -/
theorem refuses (hfile : k.file.length ≤ 2 ^ 31) {i : ℕ} (hi : i < k.blocks)
    (hraw : k.raw i = true) : Refuses (reader os lz4) i (Ready false k At) := by
  rintro ⟨header, f⟩ h idx res r' h' ⟨⟨stat, rfl⟩, pos, hf⟩ hok
  obtain ⟨⟨res', f', h''⟩, hread, hok⟩ := Fallible.bind_eq_ok.mp hok
  cases hok
  refine ⟨⟨⟨stat, rfl⟩, keeps_readBlock hos.staysOpen lz4 _ idx f pos h _ _ _ hf hread⟩, ?_⟩
  rintro rfl
  have hlt := hk.offset_lt i (lt_entries hi)
  have hbehind := hk.behind i hi
  rw [place_zso hk] at hbehind
  obtain ⟨size, hsize, hlocate⟩ := locate_flagged hk hlz4 hos hf hfile stat hi hraw
  rw [readBlock_headerOf hk stat hi hlocate] at hread
  rcases lt_or_ge size 0 with hneg | hpos
  · obtain ⟨f₁, h₁, hseek, -⟩ := hos.seekStart hf (k.offset i + 2 ^ 31) (by omega)
    rw [fetch, Program.bind_assoc, Program.bind_of_ok hseek, makeLen, if_pos hneg] at hread
    cases hread
  · obtain ⟨n, rfl⟩ := Int.eq_ofNat_of_zero_le hpos
    obtain ⟨err, s, hshort⟩ := hos.fetch_short hf (k.offset i + 2 ^ 31) (n := n) (by omega)
      (by omega) (by omega)
    rw [Program.bind_of_error hshort] at hread
    cases hread
    exact ⟨err, rfl⟩

/-- An uncompressed block keeps the image from being read without the ZISO layout. -/
theorem not_readsAs {path : Path} {h₀ : η} {i : ℕ} {cacheSize : ℤ} {ns : List ℕ}
    (hopen : os.openFile path oRDONLY h = (.ok f, h₀)) (hf : At f 0 h₀)
    (hfits : k.image.length + k.blockSize ≤ 2 ^ 63) (hfile : k.file.length ≤ 2 ^ 31)
    (hi : i < k.blocks) (hraw : k.raw i = true) :
    ¬ ReadsAs (reader os lz4) (openImage os path h) cacheSize ns k.image := by
  intro hread
  obtain ⟨z, h₁, hok, hready⟩ := openImage_ok hk hos hopen hf hfits
  have hle := hread.length_le hok hready.fields.1 hready (refuses hk hlz4 hos hfile hi hraw)
  have hlt := (Container.lt_blocks hk.blockSize_pos).mp hi
  omega

end Flagged

/-- A ZSO or ZISO file decodes to its image, by reads with buffers of any sizes, if the size of
the image leaves the rounding up to blocks without overflow and, unless the layout is ZISO, all
blocks are compressed. The condition is necessary, too, unless a file without the ZISO layout
is longer than `2 ^ 31` bytes, where the bytes that an uncompressed block is taken from exist. -/
theorem zso_decodes_to_image (hlz4 : Decodes lz4 Compressed)
    (hk : Encodes Compressed ziso headerSize k) (hos : Holds os k.file At) {path : Path} {h₀ : η}
    (hopen : os.openFile path oRDONLY h = (.ok f, h₀)) (hf : At f 0 h₀) (cacheSize : ℤ)
    {ns : List ℕ} (hns : k.image.length ≤ ns.sum) :
    (Readable ziso k → ReadsAs (reader os lz4) (openImage os path h) cacheSize ns k.image) ∧
      ((ziso = false → k.file.length ≤ 2 ^ 31) →
        ReadsAs (reader os lz4) (openImage os path h) cacheSize ns k.image → Readable ziso k) := by
  constructor
  · rintro ⟨hfits, hraw⟩
    obtain ⟨z, h₁, hok, hready⟩ := openImage_ok hk hos hopen hf hfits
    obtain ⟨hsize, hblocks, hlength⟩ := hready.fields
    exact .of_delivers hok hk.blockSize_pos hsize hblocks hlength hready
      (delivers hk hlz4 hos hraw) hns
  · intro hfile hread
    have hfits : k.image.length + k.blockSize ≤ 2 ^ 63 := by
      by_contra hover
      have hnil := hread.eq_nil fun z h₁ hok =>
        size_neg_of_overflow hk hos hopen hf (by omega) hok
      have hblock := hk.blockSize_lt
      simp only [hnil, List.length_nil] at hover
      omega
    refine ⟨hfits, ?_⟩
    cases ziso with
    | true => exact Or.inl rfl
    | false =>
      refine Or.inr fun i hi => ?_
      by_contra hraw
      exact not_readsAs hk hlz4 hos hopen hf hfits (hfile rfl) hi (by simpa using hraw) hread

/-! ### Two small files -/

/-- A decoder of streams that start with the length of their data and end with them. -/
def countedLz4 : UncompressBlock
  | [], _ => none
  | n :: data, size =>
    if n.toNat = data.length ∧ data.length ≤ size then
      some (data, List.replicate (size - data.length) 0)
    else none

theorem decodes_countedLz4 : Decodes countedLz4 Counted where
  decode := by
    rintro stream data n ⟨hlt, rfl⟩ hle
    exact ⟨_, if_pos ⟨by rw [BitVec.toNat_ofNat, Nat.mod_eq_of_lt hlt], hle⟩⟩
  padding := by
    rintro stream data rest n ⟨hlt, rfl⟩ hrest
    have hpos := List.length_pos_iff.mpr hrest
    refine if_neg fun hlength => ?_
    have hmod : data.length % 2 ^ 8 = data.length := Nat.mod_eq_of_lt hlt
    change _ = (data ++ rest).length ∧ _ at hlength
    rw [BitVec.toNat_ofNat, hmod, List.length_append] at hlength
    omega
  nonempty := by
    rintro stream data ⟨-, rfl⟩ -
    simp

/-- Five bytes in blocks of four in the ZISO layout, of which the first is compressed and the
second is not, with padding up to multiples of four bytes. -/
def zisoFile : Container where
  image := [1, 2, 3, 4, 5]
  blockSize := 4
  align := 2
  raw i := i = 1
  offset i := if i = 0 then 9 else i + 10
  stored i := if i = 0 then [4, 1, 2, 3, 4] else [5]
  file := zisoMagic ++ putUint32 24 ++ putUint64 5 ++ putUint32 4 ++ [1, 2, 0, 0] ++
    putUint32 9 ++ putUint32 0x8000000B ++ putUint32 12 ++ [4, 1, 2, 3, 4, 0, 0, 0] ++ [5, 0, 0, 0]

/-- The same blocks in the other layout. -/
def zsoFile : Container where
  image := [1, 2, 3, 4, 5]
  blockSize := 4
  align := 0
  raw i := i = 1
  offset i := 32 + 5 * i
  stored i := if i = 0 then [4, 1, 2, 3, 4] else [5]
  file := zsoMagic ++ putUint32 24 ++ putUint64 5 ++ putUint32 4 ++ [1, 0, 0, 0] ++
    putUint32 32 ++ putUint32 0x80000025 ++ [4, 1, 2, 3, 4] ++ [5]

theorem encodes_zisoFile : Encodes Counted true 24 zisoFile where
  toValid := by constructor <;> decide
  magic := by decide
  headerSize_lt := by decide
  headerField := by decide
  align_ziso := by decide
  align_zso := by decide
  compressed := by decide
  behind := by decide
  apart := by
    intro i hi
    have hlt : i < 2 := Nat.lt_of_succ_lt_succ hi
    obtain rfl | rfl : i = 0 ∨ i = 1 := by omega
    · decide
    · decide
  last_ziso := by decide
  last_zso := by simp

theorem encodes_zsoFile : Encodes Counted false 24 zsoFile where
  toValid := by constructor <;> decide
  magic := by decide
  headerSize_lt := by decide
  headerField := by decide
  align_ziso := by decide
  align_zso := by decide
  compressed := by decide
  behind := by decide
  apart := by
    intro i hi
    obtain rfl : i = 0 := Nat.lt_one_iff.mp (Nat.lt_of_succ_lt_succ hi)
    decide
  last_ziso := by simp
  last_zso := by
    intro _ i hi
    obtain rfl : i = 1 := Nat.succ_injective hi
    decide

/-- Compressed and uncompressed blocks of a ZISO file are read, by reads of two, two and nine
bytes. -/
theorem zso_decodes_to_image_of_ziso :
    ReadsAs (reader Host.os countedLz4)
      (openImage Host.os (Path.ascii ['/', 'a']) (.ofFile zisoFile.file)) 1 [2, 2, 9]
      [1, 2, 3, 4, 5] :=
  (zso_decodes_to_image decodes_countedLz4 encodes_zisoFile (Host.holds 0 zisoFile.file) rfl
    ⟨rfl, rfl, rfl, rfl⟩ 1 (by decide)).1 ⟨by decide, Or.inl rfl⟩

/-- An uncompressed block of the other layout is looked for with its flag in the offset, so that
the read of the image fails. -/
theorem flagged_block_is_not_read :
    Encodes Counted false 24 zsoFile ∧
      ¬ ReadsAs (reader Host.os countedLz4)
        (openImage Host.os (Path.ascii ['/', 'a']) (.ofFile zsoFile.file)) 1 [5] zsoFile.image :=
  ⟨encodes_zsoFile, not_readsAs (i := 1) encodes_zsoFile decodes_countedLz4
    (Host.holds 0 zsoFile.file) rfl ⟨rfl, rfl, rfl, rfl⟩ (by decide) (by decide) (by decide)
    (by decide)⟩

end Zso

end Udpfsd.Fs
