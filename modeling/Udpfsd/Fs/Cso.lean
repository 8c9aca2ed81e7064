import Udpfsd.Fs.Container
import Udpfsd.Fs.Host
import Udpfsd.Fs.ReadAll

/-!
# CSO images

A CSO file stores every block either compressed by deflate or plain. The index has an entry
more than there are blocks, so that the stored length of a compressed block is known from the
next entry; a plain block is read at the full block size.
-/

namespace Udpfsd.Fs

open Udprdma (Byte uint32 putUint32)
open Udpfs (Error Fault oRDONLY)
open Blocks (Placed)
open FileProgram

variable {η φ : Type}

/-- `csoMagic`. -/
def csoMagic : List Byte := Path.ascii ['C', 'I', 'S', 'O']

/-- The fields of `CSO` that `parseHeader` fills in. -/
structure CsoHeader where
  /-- What `Stat` reports. -/
  stat : CompressedInfo
  /-- The index. -/
  offsets : List (BitVec 32)
  /-- The block size. -/
  blockSize : ℤ
  /-- The number of blocks. -/
  numBlocks : ℤ
  /-- The size of the image. -/
  size : ℤ
  /-- The unit of the offsets, as a power of two. -/
  align : Byte

/-- `CSO`. -/
structure Cso (φ : Type) extends CsoHeader where
  /-- The file. -/
  f : φ

/-- The output of a decompressor, padded to the block size. A longer output may have spare
capacity behind it, which no slice of a block reaches. -/
def padBlock (blockSize : ℤ) (out : List Byte) : Block :=
  ⟨out ++ List.replicate (blockSize.toNat - out.length) 0, []⟩

namespace Cso

variable (os : OS η φ)

/-- What `parseHeader` takes from the first 24 bytes. -/
def layout : Layout CsoHeader where
  known b := b.take 4 = csoMagic
  position _ := 24
  ended _ := true
  header b stat offsets blockSize numBlocks size :=
    ⟨stat, offsets, blockSize, numBlocks, size, b.getD 21 0⟩

/-- `Open`, with `make` as a parameter. -/
def openImageWith (make : Make η φ) (path : Path) (h : η) :
    Except Fault (Except Error (Cso φ) × η) :=
  FileProgram.openImage os make layout (fun (f, header) => ⟨header, f⟩) path h

/-- `Open`. -/
def openImage (path : Path) (h : η) : Except Fault (Except Error (Cso φ) × η) :=
  openImageWith os makeAny path h

/-- The part of `ReadBlock` that finds a block: its place in the file and the number of bytes to
read there. -/
def locate (c : CsoHeader) (blockIdx : ℤ) (offset : BitVec 32) : FileProgram η φ (ℤ × ℤ) :=
  if topBit offset then pure (shifted offset c.align, c.blockSize)
  else do
    let next ← entry c.offsets (blockIdx + 1)
    return (shifted offset c.align, int64 (shifted next c.align - shifted offset c.align))

/-- The end of `ReadBlock`: a compressed block is taken for raw deflate first, then for zlib,
of which `flate` and `zlib` are the decoders. -/
def decode (flate zlib : List Byte → Option (List Byte)) (blockSize : ℤ) (plain : Bool)
    (buf : List Byte) : FileProgram η φ Block :=
  if plain then pure ⟨buf, []⟩
  else
    match flate buf with
    | some out => pure (padBlock blockSize out)
    | none =>
      match zlib buf with
      | some out => pure (padBlock blockSize out)
      | none => Program.fail .other

/-- `ReadBlock`, with `make` as a parameter. -/
def readBlockWith (make : BitVec 32 → ℤ → FileProgram η φ ℕ)
    (flate zlib : List Byte → Option (List Byte)) (c : CsoHeader) (blockIdx : ℤ) :
    FileProgram η φ Block :=
  FileProgram.readBlock os make c.offsets c.numBlocks (locate c blockIdx)
    (decode flate zlib c.blockSize) blockIdx

/-- `ReadBlock`. -/
def readBlock (flate zlib : List Byte → Option (List Byte)) (c : CsoHeader) (blockIdx : ℤ) :
    FileProgram η φ Block :=
  readBlockWith os (fun _ => makeLen) flate zlib c blockIdx

/-- The methods of `CSO` as a `BlockReader`. -/
def reader (flate zlib : List Byte → Option (List Byte)) : BlockReader η (Cso φ) where
  readBlock c blockIdx h := do
    let (r, f, h) ← readBlock os flate zlib c.toCsoHeader blockIdx (c.f, h)
    return (r, { c with f := f }, h)
  blockSize c := c.blockSize
  numBlocks c := c.numBlocks
  uncompressedSize c := c.size
  close c h := os.close c.f h

/-- Package `cso`. -/
def format : Format η (Cso φ) where
  extensions := [Path.ascii ['.', 'c', 's', 'o'], Path.ascii ['.', 'c', 'i', 's', 'o']]
  openImage := openImage os
  getStat := getStatWith os [csoMagic]

/-- What all programs of the decoders have, `ReadBlock` has. -/
theorem closed_readBlock {os : OS η φ} {Has : ∀ α : Type, FileProgram η φ α → Prop}
    (hos : Closed os Has) (flate zlib : List Byte → Option (List Byte)) (c : CsoHeader) (idx : ℤ) :
    Has Block (readBlock os flate zlib c idx) := by
  refine hos.readBlock idx (fun offset => ?_) (fun plain buf => ?_)
  · exact Closed.cond (hos.pure _) (hos.bind (hos.entry _ _) fun _ => hos.pure _)
  · refine Closed.cond (hos.pure _) ?_
    cases flate buf with
    | some out => exact hos.pure _
    | none =>
      cases zlib buf with
      | some out => exact hos.pure _
      | none => exact hos.fail _

/-! ### The layout of a CSO file -/

/-- The file is a CSO image: every block is plain or deflated, at an aligned offset, with
padding up to the next offset, and the index has an end entry. -/
structure Encodes (Deflated : List Byte → List Byte → Prop) (k : Container) : Prop extends
    k.Valid 24 (k.blocks + 1) where
  /-- The magic number. -/
  magic : Placed k.file 0 csoMagic
  /-- The unit of the offsets. -/
  align : Placed k.file 21 [k.align]
  /-- The other blocks are deflated. -/
  deflated : ∀ i < k.blocks, k.raw i = false → Deflated (k.stored i) (k.block i)
  /-- A block ends before the next offset. -/
  apart : ∀ i < k.blocks, k.place i + (k.stored i).length ≤ k.place (i + 1)
  /-- The padding of the last block is in the file. -/
  last : k.place k.blocks ≤ k.file.length

/-- The image can be read: its size leaves the rounding up to blocks without overflow, and a
last block that is plain has as many bytes of the file behind its place as a whole block. -/
def Readable (k : Container) : Prop :=
  k.image.length + k.blockSize ≤ 2 ^ 63 ∧
    ∀ i, i + 1 = k.blocks → k.raw i = true → k.place i + k.blockSize ≤ k.file.length

/-! ### Opening -/

variable {os} {Deflated : List Byte → List Byte → Prop} {k : Container} {At : φ → ℕ → η → Prop}
  {f : φ} {pos : ℕ} {h : η}

/-- The header is in the layout of `parseHeader`. -/
theorem Encodes.headed (hk : Encodes Deflated k) : Container.Headed layout true 24 k where
  toValid := hk.toValid
  known := decide_eq_true (placed_take hk.magic (by decide)).take
  position := rfl
  ended_eq := rfl

/-- What `parseHeader` finds in the file. -/
def headerOf (k : Container) (stat : CompressedInfo) : CsoHeader where
  stat := stat
  offsets := Container.indexOf true k
  blockSize := k.blockSize
  numBlocks := k.blocks
  size := k.image.length
  align := k.align

/-- The decoder has the header of the file and the file open. -/
def Ready (k : Container) (At : φ → ℕ → η → Prop) (c : Cso φ) (h : η) : Prop :=
  (∃ stat, c.toCsoHeader = headerOf k stat) ∧ ∃ pos, At c.f pos h

/-- Its sizes are those of the image. -/
theorem Ready.fields {c : Cso φ} (hc : Ready k At c h) :
    c.blockSize = k.blockSize ∧ c.numBlocks = k.blocks ∧ c.size = k.image.length := by
  obtain ⟨⟨stat, hheader⟩, -⟩ := hc
  simp only [hheader]
  exact ⟨rfl, rfl, rfl⟩

/-- The file of an image whose size does not overflow is opened. -/
theorem openImage_ok (hk : Encodes Deflated k) (hos : Holds os k.file At) {path : Path} {h₀ : η}
    (hopen : os.openFile path oRDONLY h = (.ok f, h₀)) (hf : At f pos h₀)
    (hfits : k.image.length + k.blockSize ≤ 2 ^ 63) :
    ∃ c h', openImage os path h = .ok (.ok c, h') ∧ Ready k At c h' := by
  obtain ⟨t, f', h', pos', hf', hok⟩ := hk.headed.openImage_ok hos hopen hf _ hfits
  refine ⟨_, h', hok, ⟨⟨t, path.base, k.image.length⟩, ?_⟩, pos', hf'⟩
  simp only [layout, headerOf, getD_of_placed (placed_take hk.align (by simp))]

/-- The size of an image that overflows is taken for a negative number, if the file is opened
at all. -/
theorem size_neg_of_overflow (hk : Encodes Deflated k) (hos : Holds os k.file At) {path : Path}
    {h₀ h' : η} {c : Cso φ} (hopen : os.openFile path oRDONLY h = (.ok f, h₀)) (hf : At f pos h₀)
    (hover : 2 ^ 63 < k.image.length + k.blockSize)
    (hok : openImage os path h = .ok (.ok c, h')) : c.size < 0 := by
  obtain ⟨f', stat, offsets, numBlocks, size, hneg, rfl⟩ :=
    hk.headed.openImage_overflow hos hopen hf hover hok
  exact hneg

/-! ### Reading a block -/

/-- Every place up to the end entry is in the file. -/
theorem Encodes.place_le (hk : Encodes Deflated k) {i : ℕ} (hi : i ≤ k.blocks) :
    k.place i ≤ k.file.length := by
  obtain ⟨j, hj⟩ : ∃ j, i + j = k.blocks := ⟨k.blocks - i, by omega⟩
  induction j generalizing i with
  | zero =>
    obtain rfl : i = k.blocks := hj
    exact hk.last
  | succ j ih =>
    have hnext := ih (i := i + 1) (by omega) (by omega)
    have hapart := hk.apart i (by omega)
    omega

theorem Encodes.shifted_eq (hk : Encodes Deflated k) {i : ℕ} (hi : i ≤ k.blocks) :
    shifted (indexEntry (k.offset i) (k.raw i)) k.align = k.place i := by
  have hplace := hk.place_le hi
  have hfile := hk.file_lt
  exact shifted_indexEntry (hk.offset_lt i (by omega)) (by unfold Container.place at hplace; omega)

/-- The number of bytes that `ReadBlock` reads for a block of the image. -/
def blockLength (k : Container) (i : ℕ) : ℕ :=
  if k.raw i then k.blockSize else k.place (i + 1) - k.place i

/-- A block is found in its place. -/
theorem locate_headerOf (hk : Encodes Deflated k) (stat : CompressedInfo) {i : ℕ}
    (hi : i < k.blocks) (s : φ × η) :
    locate (headerOf k stat) i (indexEntry (k.offset i) (k.raw i)) s =
      .ok (.ok ((k.place i : ℤ), (blockLength k i : ℤ)), s) := by
  have hnext := hk.place_le (i := i + 1) hi
  have hapart := hk.apart i hi
  have hfile := hk.file_lt
  have hthis := hk.shifted_eq hi.le
  rw [locate, topBit_indexEntry (hk.offset_lt i (by omega)), blockLength]
  change (if k.raw i then pure (shifted _ k.align, _) else _ : FileProgram η φ (ℤ × ℤ)) s = _
  rw [hthis]
  cases hraw : k.raw i with
  | true => rfl
  | false =>
    have hentry : entry (headerOf k stat).offsets ((i + 1 : ℕ) : ℤ) s =
        .ok (.ok (indexEntry (k.offset (i + 1)) (k.raw (i + 1))), s) := by
      apply entry_natCast
      simp [headerOf, Container.indexOf, Container.entries, hi]
    have hlength : int64 ((k.place (i + 1) : ℤ) - k.place i) =
        (k.place (i + 1) - k.place i : ℕ) := by
      rw [int64_eq_self (by omega) (by omega)]
      omega
    rw [hraw] at hthis
    rw [if_neg (by simp), if_neg (by simp)]
    change (entry (headerOf k stat).offsets ((i + 1 : ℕ) : ℤ) >>= _) s = _
    rw [Program.bind_of_ok hentry, Program.pure_run]
    change Except.ok (Except.ok
      (shifted _ k.align, int64 (shifted _ k.align - shifted _ k.align)), s) = _
    rw [hk.shifted_eq hi, hthis, hlength]

variable (os) in
/-- `ReadBlock` reads a block from there. -/
theorem readBlock_headerOf (hk : Encodes Deflated k) (flate zlib : List Byte → Option (List Byte))
    (stat : CompressedInfo) {i : ℕ} (hi : i < k.blocks) (s : φ × η) :
    readBlock os flate zlib (headerOf k stat) i s =
      (fetch os makeLen (k.place i) (blockLength k i) >>=
        decode flate zlib k.blockSize (k.raw i)) s := by
  have hoffset : (headerOf k stat).offsets[i]? = some (indexEntry (k.offset i) (k.raw i)) := by
    simp [headerOf, Container.indexOf, Container.entries, Nat.lt_succ_of_lt hi]
  have hlt : (i : ℤ) < (headerOf k stat).numBlocks := Int.ofNat_lt.mpr hi
  have hread := FileProgram.readBlock_eq os (fun _ => makeLen) (decode flate zlib k.blockSize)
    (by omega) hlt hoffset (locate_headerOf hk stat hi s)
  rwa [topBit_indexEntry (hk.offset_lt i (by omega))] at hread

/-- Whatever is asked for, the file stays open. -/
theorem keeps_readBlock (hos : StaysOpen os At) (flate zlib : List Byte → Option (List Byte))
    (c : CsoHeader) (idx : ℤ) : Keeps At (readBlock os flate zlib c idx) :=
  closed_readBlock (Keeps.closed hos) flate zlib c idx

section Blocks

variable (hk : Encodes Deflated k) (hos : Holds os k.file At)
include hk hos

/-- The decoder delivers the blocks of a readable image. -/
theorem delivers {flate : List Byte → Option (List Byte)} (zlib : List Byte → Option (List Byte))
    (hflate : ∀ stream data rest, Deflated stream data → flate (stream ++ rest) = some data)
    (hlast : ∀ i, i + 1 = k.blocks → k.raw i = true → k.place i + k.blockSize ≤ k.file.length) :
    Delivers (reader os flate zlib) k.image k.blockSize (Ready k At) := by
  rintro ⟨header, f⟩ h i ⟨⟨stat, rfl⟩, pos, hf⟩ hlt
  have hpos := hk.blockSize_pos
  have hi : i < k.blocks := (Container.lt_blocks hpos).mpr hlt
  have hplace := hk.place_le hi.le
  have hnext := hk.place_le (i := i + 1) hi
  have hapart := hk.apart i hi
  have hend : k.place i + blockLength k i ≤ k.file.length := by
    rw [blockLength]
    split_ifs with hraw
    · rcases (Nat.succ_le_of_lt hi).lt_or_eq with hbefore | heq
      · rw [hk.stored_raw i hi hraw, Container.length_block hpos hbefore] at hapart
        omega
      · exact hlast i heq hraw
    · omega
  have hstored : k.stored i <+: (k.file.drop (k.place i)).take (blockLength k i) := by
    apply (hk.placed i hi).slice_start
    rw [blockLength]
    split_ifs with hraw
    · rw [hk.stored_raw i hi hraw]
      exact k.length_block_le i
    · omega
  obtain ⟨f', h', hfetch, hf'⟩ := hos.fetch_ok hf (k.place i) hend
  have hread := readBlock_headerOf os hk flate zlib stat hi (f, h)
  rw [Program.bind_of_ok hfetch] at hread
  have hready : Ready k At ⟨headerOf k stat, f'⟩ h' := ⟨⟨stat, rfl⟩, _, hf'⟩
  cases hraw : k.raw i with
  | true =>
    rw [hk.stored_raw i hi hraw] at hstored
    rw [hraw] at hread
    refine ⟨⟨_, []⟩, ⟨headerOf k stat, f'⟩, h', ?_, hready, hstored⟩
    change (readBlock os flate zlib (headerOf k stat) i (f, h) >>= _) = _
    rw [hread]
    rfl
  | false =>
    obtain ⟨rest, hrest⟩ := hstored
    rw [hraw, ← hrest, decode, if_neg (by simp),
      hflate _ _ rest (hk.deflated i hi hraw)] at hread
    refine ⟨padBlock k.blockSize (k.block i), ⟨headerOf k stat, f'⟩, h', ?_, hready,
      List.prefix_append _ _⟩
    change (readBlock os flate zlib (headerOf k stat) i (f, h) >>= _) = _
    rw [hread]
    rfl

/-- The decoder refuses a block that does not have all its bytes in the file. -/
theorem refuses (flate zlib : List Byte → Option (List Byte)) {i : ℕ} (hi : i < k.blocks)
    (hend : k.file.length < k.place i + blockLength k i) :
    Refuses (reader os flate zlib) i (Ready k At) := by
  rintro ⟨header, f⟩ h idx res r' h' ⟨⟨stat, rfl⟩, pos, hf⟩ hok
  obtain ⟨⟨res', f', h''⟩, hread, hok⟩ := Fallible.bind_eq_ok.mp hok
  cases hok
  refine ⟨⟨⟨stat, rfl⟩, keeps_readBlock hos.staysOpen flate zlib _ idx f pos h _ _ _ hf hread⟩, ?_⟩
  rintro rfl
  have hplace := hk.place_le hi.le
  obtain ⟨err, s, hshort⟩ := hos.fetch_short hf (k.place i) (.inl hplace) (by omega) hend
  rw [readBlock_headerOf os hk flate zlib stat hi, Program.bind_of_error hshort] at hread
  cases hread
  exact ⟨err, rfl⟩

/-- A block that does not have all its bytes in the file keeps the image from being read. -/
theorem not_readsAs (flate zlib : List Byte → Option (List Byte)) {path : Path} {h₀ : η} {i : ℕ}
    {cacheSize : ℤ} {ns : List ℕ} (hopen : os.openFile path oRDONLY h = (.ok f, h₀))
    (hf : At f 0 h₀) (hfits : k.image.length + k.blockSize ≤ 2 ^ 63) (hi : i < k.blocks)
    (hend : k.file.length < k.place i + blockLength k i) :
    ¬ ReadsAs (reader os flate zlib) (openImage os path h) cacheSize ns k.image := by
  intro hread
  obtain ⟨c, h₁, hok, hready⟩ := openImage_ok hk hos hopen hf hfits
  have hle := hread.length_le hok hready.fields.1 hready (refuses hk hos flate zlib hi hend)
  have hlt := (Container.lt_blocks hk.blockSize_pos).mp hi
  omega

end Blocks

/-- A CSO file decodes to its image, by reads with buffers of any sizes, if and only if the
size of the image leaves the rounding up to blocks without overflow and a last block that is
plain is followed by as many bytes as a whole block has. -/
theorem cso_decodes_to_image_iff {flate : List Byte → Option (List Byte)}
    (zlib : List Byte → Option (List Byte))
    (hflate : ∀ stream data rest, Deflated stream data → flate (stream ++ rest) = some data)
    (hk : Encodes Deflated k) (hos : Holds os k.file At) {path : Path} {h₀ : η}
    (hopen : os.openFile path oRDONLY h = (.ok f, h₀)) (hf : At f 0 h₀) (cacheSize : ℤ)
    {ns : List ℕ} (hns : k.image.length ≤ ns.sum) :
    ReadsAs (reader os flate zlib) (openImage os path h) cacheSize ns k.image ↔ Readable k := by
  constructor
  · intro hread
    have hfits : k.image.length + k.blockSize ≤ 2 ^ 63 := by
      by_contra hover
      have hnil := hread.eq_nil fun c h₁ hok =>
        size_neg_of_overflow hk hos hopen hf (by omega) hok
      have hblock := hk.blockSize_lt
      simp only [hnil, List.length_nil] at hover
      omega
    refine ⟨hfits, ?_⟩
    intro i hi hraw
    by_contra hshort
    have hlast : k.file.length < k.place i + blockLength k i := by
      rw [blockLength, if_pos hraw]
      omega
    exact not_readsAs hk hos flate zlib hopen hf hfits (by omega) hlast hread
  · rintro ⟨hfits, hlast⟩
    obtain ⟨c, h₁, hok, hready⟩ := openImage_ok hk hos hopen hf hfits
    obtain ⟨hsize, hblocks, hlength⟩ := hready.fields
    exact .of_delivers hok hk.blockSize_pos hsize hblocks hlength hready
      (delivers hk hos zlib hflate hlast) hns

/-! ### Two small files -/

/-- A decoder of streams that start with the length of their data. -/
def countedFlate : List Byte → Option (List Byte)
  | [] => none
  | n :: rest => if n.toNat ≤ rest.length then some (rest.take n.toNat) else none

theorem countedFlate_append (stream data rest : List Byte) (h : Counted stream data) :
    countedFlate (stream ++ rest) = some data := by
  obtain ⟨hlt, rfl⟩ := h
  have hlength : (BitVec.ofNat 8 data.length).toNat = data.length := by
    rw [BitVec.toNat_ofNat, Nat.mod_eq_of_lt hlt]
  simp [countedFlate, hlength]

/-- Five bytes in blocks of four, of which the first is deflated and the second is plain, with
padding up to multiples of four bytes. -/
def padded : Container where
  image := [1, 2, 3, 4, 5]
  blockSize := 4
  align := 2
  raw i := i = 1
  offset i := if i = 0 then 9 else i + 10
  stored i := if i = 0 then [4, 1, 2, 3, 4] else [5]
  file := csoMagic ++ putUint32 24 ++ putUint64 5 ++ putUint32 4 ++ [1, 2, 0, 0] ++
    putUint32 9 ++ putUint32 0x8000000B ++ putUint32 12 ++ [4, 1, 2, 3, 4, 0, 0, 0] ++ [5, 0, 0, 0]

/-- The same image with both blocks plain and no padding. -/
def unpadded : Container where
  image := [1, 2, 3, 4, 5]
  blockSize := 4
  align := 0
  raw i := i < 2
  offset i := 36 + if i = 2 then 5 else 4 * i
  stored i := if i = 0 then [1, 2, 3, 4] else [5]
  file := csoMagic ++ putUint32 24 ++ putUint64 5 ++ putUint32 4 ++ [1, 0, 0, 0] ++
    putUint32 0x80000024 ++ putUint32 0x80000028 ++ putUint32 41 ++ [1, 2, 3, 4] ++ [5]

theorem encodes_padded : Encodes Counted padded where
  toValid := by constructor <;> decide
  magic := by decide
  align := by decide
  deflated := by decide
  apart := by decide
  last := by decide

theorem encodes_unpadded : Encodes Counted unpadded where
  toValid := by constructor <;> decide
  magic := by decide
  align := by decide
  deflated := by decide
  apart := by decide
  last := by decide

/-- A last block that is padded to the full block size is read, by reads of two, two and nine
bytes. -/
theorem cso_decodes_to_image_of_padded :
    ReadsAs (reader Host.os countedFlate fun _ => none)
      (openImage Host.os (Path.ascii ['/', 'a']) (.ofFile padded.file)) 1 [2, 2, 9]
      [1, 2, 3, 4, 5] := by
  have hreadable : Readable padded := by
    refine ⟨by decide, ?_⟩
    intro i hi _
    obtain rfl : i = 1 := Nat.succ_injective hi
    decide
  exact (cso_decodes_to_image_iff (fun _ => none) countedFlate_append encodes_padded
    (Host.holds 0 padded.file) rfl ⟨rfl, rfl, rfl, rfl⟩ 1 (by decide)).mpr hreadable

/-- A last block that is plain and ends with the file is asked for at the full block size, so
that the read of the image fails. -/
theorem plain_last_block_is_not_read :
    Encodes Counted unpadded ∧
      ¬ ReadsAs (reader Host.os countedFlate fun _ => none)
        (openImage Host.os (Path.ascii ['/', 'a']) (.ofFile unpadded.file)) 1 [5] unpadded.image :=
  ⟨encodes_unpadded, not_readsAs (i := 1) encodes_unpadded (Host.holds 0 unpadded.file) _ _ rfl
    ⟨rfl, rfl, rfl, rfl⟩ (by decide) (by decide) (by decide)⟩

end Cso

end Udpfsd.Fs
