import Udpfsd.Base.Transition
import Udpfsd.Fs.FileProgram

/-!
# Container files

The CSO and ZSO formats store an image in blocks. A header gives the size of the image and
of a block, an index gives for every block its offset in the file and, in the top bit of the
entry, whether it is stored as it is. This is what the two packages have in common: the
arithmetic on the fields, the opening of a file, and what a file in such a format looks like.
-/

namespace Udpfsd.Fs

open Udprdma (Byte uint32 putUint32 uint32_putUint32 uint32_drop_take)
open Udpfs (Error Fault FileInfo oRDONLY)
open Blocks (Placed)

variable {η φ ρ : Type}

/-- `binary.LittleEndian.Uint64` of the first eight bytes. -/
def uint64 (b : List Byte) : BitVec 64 := uint32 (b.drop 4) ++ uint32 b

/-- `binary.LittleEndian.PutUint64`. -/
def putUint64 (v : BitVec 64) : List Byte :=
  putUint32 (v.setWidth 32) ++ putUint32 ((v >>> 32).setWidth 32)

theorem uint64_putUint64 (v : BitVec 64) (rest : List Byte) :
    uint64 (putUint64 v ++ rest) = v := by
  have hdrop : (putUint64 v ++ rest).drop 4 = putUint32 ((v >>> 32).setWidth 32) ++ rest := by
    simp [putUint64, putUint32]
  rw [uint64, hdrop, uint32_putUint32, putUint64, List.append_assoc, uint32_putUint32]
  ext i hi
  simp
  grind

/-- The number of blocks of an image. -/
def blockCount (size blockSize : ℤ) : ℤ := (int64 (size + blockSize - 1)).tdiv blockSize

/-- An image so large that the rounding up overflows has a negative number of blocks. -/
theorem blockCount_overflow (size : ℤ) {blockSize : ℤ} (hpos : 0 < blockSize)
    (hblock : blockSize < 2 ^ 32) (hsize : size < 2 ^ 63) (hover : 2 ^ 63 < size + blockSize) :
    blockCount size blockSize < -1 ∧ int64 (blockCount size blockSize + 1) < 0 := by
  have hwrap := int64_wrap (x := size + blockSize - 1) (by omega) (by omega)
  have hdiv := Int.mul_tdiv_add_tmod (int64 (size + blockSize - 1)) blockSize
  have hlt := Int.tmod_lt_of_pos (int64 (size + blockSize - 1)) hpos
  have hgt := Int.lt_tmod_of_pos (int64 (size + blockSize - 1)) hpos
  rw [hwrap] at hdiv hlt hgt
  rw [blockCount, hwrap]
  generalize (size + blockSize - 1 - 2 ^ 64).tdiv blockSize = q at hdiv ⊢
  have hq : q < -1 := by
    by_contra hge
    have hmul : blockSize * -1 ≤ blockSize * q := Int.mul_le_mul_of_nonneg_left (by omega) hpos.le
    omega
  have hlow : -2 ^ 63 ≤ q + 1 := by
    by_contra hless
    have hmul : blockSize * (q + 1) ≤ 1 * (q + 1) :=
      Int.mul_le_mul_of_nonpos_right (by omega) (by omega)
    rw [Int.mul_add] at hmul
    omega
  rw [int64_eq_self hlow (by omega)]
  exact ⟨hq, by omega⟩

/-- Whether the top bit of an index entry is set. -/
def topBit (offset : BitVec 32) : Bool := offset &&& 0x80000000 ≠ 0

/-- The offset of an index entry without its top bit, shifted as a signed 64-bit word. -/
def shifted (offset : BitVec 32) (align : Byte) : ℤ :=
  int64 ((offset &&& 0x7FFFFFFF).toNat * 2 ^ align.toNat)

/-- The number of entries of the index: one more than there are blocks, or one for each. -/
def entriesOf (ended : Bool) (numBlocks : ℤ) : ℤ :=
  if ended then int64 (numBlocks + 1) else numBlocks

/-- What the `parseHeader` functions take from the first 24 bytes in their own ways. -/
structure Layout (α : Type) where
  /-- Whether the magic number is known. -/
  known : List Byte → Bool
  /-- Where the index is. -/
  position : List Byte → ℤ
  /-- Whether the index has an entry more than there are blocks. -/
  ended : List Byte → Bool
  /-- The header that results, with the data for `Stat`, the index, the size of a block, the number
  of blocks and the size of the image. -/
  header : List Byte → CompressedInfo → List (BitVec 32) → ℤ → ℤ → ℤ → α

namespace FileProgram

variable {α : Type} (os : OS η φ)

/-- The part of the `parseHeader` functions that reads the index, of this number of entries. -/
def readIndex (make : Make η φ) (position entries : ℤ) : FileProgram η φ (List (BitVec 32)) := do
  seekStart os position
  let n ← make 1 (int64 (entries * 4))
  let offsetBytes ← readFull os n
  decodeOffsets make entries offsetBytes

/-- The end of the `parseHeader` functions, where the index and the modification time are read. -/
def finishHeader (make : Make η φ) (layout : Layout α) (name : Path) (b : List Byte)
    (size blockSize : ℤ) : FileProgram η φ α := do
  let numBlocks := blockCount size blockSize
  let offsets ← readIndex os make (layout.position b) (entriesOf (layout.ended b) numBlocks)
  let modTime ← modTime os
  return layout.header b ⟨modTime, name.base, size⟩ offsets blockSize numBlocks size

/-- The common form of the `parseHeader` functions. -/
def parseHeader (make : Make η φ) (layout : Layout α) (name : Path) : FileProgram η φ α := do
  seekStart os 0
  let b ← readFull os 24
  Program.check (layout.known b) .other
  let size := (uint64 (b.drop 8)).toInt
  let blockSize : ℤ := (uint32 (b.drop 16)).toNat
  Program.check (blockSize ≠ 0) .other
  finishHeader os make layout name b size blockSize

/-- The common form of the `Open` functions: a file whose header does not parse is closed
again. -/
def openWith (parseHeader : FileProgram η φ α) (path : Path) (h : η) :
    Except Fault (Except Error (φ × α) × η) :=
  match os.openFile path oRDONLY h with
  | (.error err, h) => .ok (.error err, h)
  | (.ok f, h) => do
    let (r, f, h) ← parseHeader (f, h)
    match r with
    | .error err => return (.error err, os.close f h)
    | .ok a => return (.ok (f, a), h)

/-- `Open` for a layout, of which the decoder is made of the file and the header. -/
def openImage (make : Make η φ) (layout : Layout α) (wrap : φ × α → ρ) (path : Path) (h : η) :
    Except Fault (Except Error ρ × η) := do
  let (r, h) ← openWith os (parseHeader os make layout path) path h
  return (r.map wrap, h)

/-- The part of the `ReadBlock` functions that reads a stored block. -/
def fetch (make : ℤ → FileProgram η φ ℕ) (offset size : ℤ) : FileProgram η φ (List Byte) := do
  seekStart os offset
  let n ← make size
  readFull os n

/-- The common form of the `ReadBlock` functions: `locate` finds the place and the length of a
stored block from its entry of the index, and `decode` is told whether the top bit of the entry is
set. The `make` of the buffer may look at the entry, too. -/
def readBlock (make : BitVec 32 → ℤ → FileProgram η φ ℕ) (offsets : List (BitVec 32))
    (numBlocks : ℤ) (locate : BitVec 32 → FileProgram η φ (ℤ × ℤ))
    (decode : Bool → List Byte → FileProgram η φ Block) (blockIdx : ℤ) :
    FileProgram η φ Block := do
  Program.check (0 ≤ blockIdx ∧ blockIdx < numBlocks) .other
  let offset ← entry offsets blockIdx
  let (start, size) ← locate offset
  let buf ← fetch os (make offset) start size
  decode (topBit offset) buf

/-- The common form of the `GetStat` functions: the image size is in the first 16 bytes,
behind one of these magic numbers. -/
def getStatWith (magics : List (List Byte)) (path : Path) (h : η) : Option CompressedInfo :=
  match os.openFile path oRDONLY h with
  | (.error _, _) => none
  | (.ok f, h) =>
    let program : FileProgram η φ CompressedInfo := do
      let b ← readFull os 16
      Program.check (b.take 4 ∈ magics) .other
      let modTime ← modTime os
      return ⟨modTime, path.base, (uint64 (b.drop 8)).toInt⟩
    match program (f, h) with
    | .ok (.ok info, _) => some info
    | _ => none

end FileProgram

namespace FileProgram.Closed

variable {os : OS η φ} {Has : ∀ α : Type, FileProgram η φ α → Prop} (hos : Closed os Has)
include hos

/-- The index. -/
theorem readIndex (position entries : ℤ) :
    Has (List (BitVec 32)) (FileProgram.readIndex os makeAny position entries) :=
  hos.bind (hos.seekStart position) fun _ => hos.bind (hos.makeLen _) fun n =>
    hos.bind (hos.readFull n) fun _ => hos.bind (hos.makeLen _) fun _ =>
    cond (hos.fault _) (hos.pure _)

/-- The header. -/
theorem parseHeader {α : Type} (layout : Layout α) (name : Path) :
    Has α (FileProgram.parseHeader os makeAny layout name) :=
  hos.bind (hos.seekStart 0) fun _ => hos.bind (hos.readFull 24) fun _ =>
    hos.bind (hos.check _ _) fun _ => hos.bind (hos.check _ _) fun _ =>
    hos.bind (hos.readIndex _ _) fun _ => hos.bind hos.modTime fun _ => hos.pure _

/-- A block. -/
theorem readBlock {offsets : List (BitVec 32)} {numBlocks : ℤ}
    {locate : BitVec 32 → FileProgram η φ (ℤ × ℤ)}
    {decode : Bool → List Byte → FileProgram η φ Block} (blockIdx : ℤ)
    (hlocate : ∀ offset, Has (ℤ × ℤ) (locate offset))
    (hdecode : ∀ flag buf, Has Block (decode flag buf)) :
    Has Block (FileProgram.readBlock os (fun _ => FileProgram.makeLen) offsets numBlocks locate
      decode blockIdx) :=
  hos.bind (hos.check _ _) fun _ => hos.bind (hos.entry _ _) fun offset =>
    hos.bind (hlocate offset) fun _ => hos.bind (hos.bind (hos.seekStart _) fun _ =>
      hos.bind (hos.makeLen _) fun n => hos.readFull n) fun _ => hdecode _ _

end FileProgram.Closed

/-! ### Index entries -/

/-- The index entry for an offset and a flag in the top bit. -/
def indexEntry (offset : ℕ) (flag : Bool) : BitVec 32 :=
  BitVec.ofNat 32 (offset + if flag then 2 ^ 31 else 0)

section IndexEntry

variable {offset : ℕ} {flag : Bool}

theorem toNat_indexEntry (hoffset : offset < 2 ^ 31) :
    (indexEntry offset flag).toNat = offset + if flag then 2 ^ 31 else 0 := by
  rw [indexEntry, BitVec.toNat_ofNat, Nat.mod_eq_of_lt]
  split_ifs <;> omega

theorem topBit_eq (e : BitVec 32) : topBit e = decide (2 ^ 31 ≤ e.toNat) := by
  have hbit : e.getLsbD 31 = decide (2 ^ 31 ≤ e.toNat) := by
    rw [show (31 : ℕ) = 32 - 1 from rfl, ← BitVec.msb_eq_getLsbD_last, BitVec.msb_eq_decide]
  rw [topBit, show (0x80000000 : BitVec 32) = BitVec.twoPow 32 31 from by decide,
    BitVec.and_twoPow, hbit]
  simp

theorem topBit_indexEntry (hoffset : offset < 2 ^ 31) : topBit (indexEntry offset flag) = flag := by
  rw [topBit_eq, toNat_indexEntry hoffset]
  cases flag with
  | false => simpa using hoffset
  | true => simp

/-- The top bit is not part of the offset. -/
theorem shifted_indexEntry (hoffset : offset < 2 ^ 31) {align : Byte}
    (hplace : offset * 2 ^ align.toNat < 2 ^ 63) :
    shifted (indexEntry offset flag) align = (offset * 2 ^ align.toNat : ℕ) := by
  have hmask : (indexEntry offset flag &&& 0x7FFFFFFF).toNat = offset := by
    have hmod : ((indexEntry offset flag).toNat &&& 0x7FFFFFFF) =
        (indexEntry offset flag).toNat % 2 ^ 31 :=
      Nat.and_two_pow_sub_one_eq_mod _ 31
    rw [BitVec.toNat_and]
    refine hmod.trans ?_
    rw [toNat_indexEntry hoffset]
    split_ifs <;> omega
  rw [shifted, hmask, ← int64_eq_self (x := (offset * 2 ^ align.toNat : ℕ)) (by omega)
    (by exact_mod_cast hplace)]
  simp

end IndexEntry

/-! ### The layout of a file -/

/-- An image and a file that stores it in blocks: how each block is stored and at which
offset, in units of `2 ^ align` bytes. -/
structure Container where
  /-- The image. -/
  image : List Byte
  /-- The size of a block. -/
  blockSize : ℕ
  /-- The unit of the offsets, as a power of two. -/
  align : Byte
  /-- The blocks that are stored as they are. -/
  raw : ℕ → Bool
  /-- The offsets of the blocks. -/
  offset : ℕ → ℕ
  /-- What is stored for a block. -/
  stored : ℕ → List Byte
  /-- The file. -/
  file : List Byte

namespace Container

variable (k : Container)

/-- The number of blocks. -/
def blocks : ℕ := (k.image.length + k.blockSize - 1) / k.blockSize

/-- The number of entries of the index. -/
def entries (ended : Bool) (k : Container) : ℕ := if ended then k.blocks + 1 else k.blocks

/-- A block of the image, of which the last may be short. -/
def block (i : ℕ) : List Byte := Blocks.block k.image k.blockSize i

/-- The position of a block in the file. -/
def place (i : ℕ) : ℕ := k.offset i * 2 ^ k.align.toNat

/-- The part of the layout that the formats share: the header has the size of the image and
of a block, there is an index of 31-bit offsets behind it, and the stored blocks are in their
places, those that are not compressed as they are. A file is shorter than `2 ^ 63` bytes. -/
structure Valid (headerSize entries : ℕ) : Prop where
  /-- There are blocks of some size. -/
  blockSize_pos : 0 < k.blockSize
  /-- The size of a block is a 32-bit number. -/
  blockSize_lt : k.blockSize < 2 ^ 32
  /-- The size of the image is a 64-bit number. -/
  image_lt : k.image.length < 2 ^ 64
  /-- The size of the file. -/
  file_lt : k.file.length < 2 ^ 63
  /-- There is a header. -/
  header : 24 ≤ k.file.length
  /-- There is an index behind it. -/
  index_le : headerSize + 4 * entries ≤ k.file.length
  /-- The header has the size of the image. -/
  size : Placed k.file 8 (putUint64 (BitVec.ofNat 64 k.image.length))
  /-- The header has the size of a block. -/
  blockSize : Placed k.file 16 (putUint32 (BitVec.ofNat 32 k.blockSize))
  /-- The index has the offsets. -/
  index : ∀ i < entries,
    Placed k.file (headerSize + 4 * i) (putUint32 (indexEntry (k.offset i) (k.raw i)))
  /-- The offsets fit the entries of the index. -/
  offset_lt : ∀ i < entries, k.offset i < 2 ^ 31
  /-- The blocks are in their places. -/
  placed : ∀ i < k.blocks, Placed k.file (k.place i) (k.stored i)
  /-- A block may be stored as it is. -/
  stored_raw : ∀ i < k.blocks, k.raw i = true → k.stored i = k.block i

variable {k}

theorem lt_blocks (hsize : 0 < k.blockSize) {i : ℕ} :
    i < k.blocks ↔ i * k.blockSize < k.image.length := by
  rw [blocks, ← Nat.succ_le_iff, Nat.le_div_iff_mul_le hsize, Nat.succ_mul]
  omega

theorem block_ne_nil (hsize : 0 < k.blockSize) {i : ℕ} (hi : i < k.blocks) : k.block i ≠ [] := by
  have hlt := (lt_blocks hsize).mp hi
  rw [← List.length_pos_iff, block, Blocks.length_block]
  omega

/-- Only the last block may be short. -/
theorem length_block (hsize : 0 < k.blockSize) {i : ℕ} (hi : i + 1 < k.blocks) :
    (k.block i).length = k.blockSize := by
  have hlt := (lt_blocks hsize).mp hi
  rw [block, Blocks.length_block]
  rw [Nat.succ_mul] at hlt
  omega

theorem length_block_le (i : ℕ) : (k.block i).length ≤ k.blockSize := by
  rw [block, Blocks.length_block]
  omega

/-- The number of blocks, as the decoders compute it, of an image of a size that leaves room
for the rounding. -/
theorem blockCount_eq (hsize : 0 < k.blockSize) (hfits : k.image.length + k.blockSize ≤ 2 ^ 63) :
    blockCount k.image.length k.blockSize = k.blocks := by
  have hcast : (k.image.length : ℤ) + k.blockSize - 1 = (k.image.length + k.blockSize - 1 : ℕ) := by
    omega
  rw [blockCount, int64_eq_self (by omega) (by omega), hcast, blocks, Int.ofNat_tdiv]

end Container

/-! ### Reading the header and the index -/

/-- The field for the size of the image. -/
def sizeField (file : List Byte) : BitVec 64 := uint64 (file.drop 8)

/-- The field for the size of a block. -/
def blockSizeField (file : List Byte) : BitVec 32 := uint32 (file.drop 16)

/-- The words of a file from a position on. -/
def indexAt (file : List Byte) (position n : ℕ) : List (BitVec 32) :=
  (List.range n).map fun i => uint32 (file.drop (position + 4 * i))

section Fields

variable {xs : List Byte} {pos : ℕ}

/-- A field of 32 bits. -/
theorem uint32_of_placed {v : BitVec 32} (h : Placed xs pos (putUint32 v)) :
    uint32 (xs.drop pos) = v := by
  obtain ⟨rest, hrest⟩ := h
  rw [← hrest, uint32_putUint32]

/-- A field of 64 bits. -/
theorem uint64_of_placed {v : BitVec 64} (h : Placed xs pos (putUint64 v)) :
    uint64 (xs.drop pos) = v := by
  obtain ⟨rest, hrest⟩ := h
  rw [← hrest, uint64_putUint64]

/-- A field of one byte. -/
theorem getD_of_placed {b : Byte} (h : Placed xs pos [b]) : xs.getD pos 0 = b := by
  obtain ⟨rest, hrest⟩ := h
  have hget := congrArg (fun l => l[0]?) hrest
  simp only [List.cons_append, List.getElem?_cons_zero, List.getElem?_drop, Nat.add_zero] at hget
  rw [List.getD_eq_getElem?_getD, ← hget]
  rfl

/-- A field of a header of 24 bytes. -/
theorem placed_take {part : List Byte} (hpart : Placed xs pos part) (hle : pos + part.length ≤ 24) :
    Placed (xs.take 24) pos part := by
  have hslice : Placed ((xs.drop 0).take 24) pos part := by
    apply Placed.slice _ hle
    rwa [Nat.zero_add]
  exact hslice

/-- The size of the image is in the first 24 bytes. -/
theorem uint64_drop_take (file : List Byte) : uint64 ((file.take 24).drop 8) = sizeField file := by
  rw [sizeField, uint64, uint64, List.drop_drop, List.drop_drop, uint32_drop_take (by decide),
    uint32_drop_take (by decide)]

/-- A block size that is not zero. -/
theorem toNat_pos {blockSize : BitVec 32} (hblock : blockSize ≠ 0) : 0 < blockSize.toNat := by
  apply Nat.pos_of_ne_zero
  intro hzero
  exact hblock (BitVec.eq_of_toNat_eq hzero)

end Fields

namespace FileProgram

/-- The lengths that are handed out. -/
def Grants (make : Make η φ) (bytes : ℕ) : Prop :=
  ∀ (width n : ℕ) (s : φ × η), n * width ≤ bytes → make width n s = .ok (.ok n, s)

/-- The decoders' `make` hands out any length. -/
theorem grants_makeAny (bytes : ℕ) : Grants (makeAny : Make η φ) bytes :=
  fun _ n s _ => makeLen_natCast n s

variable {α : Type} {os : OS η φ} {path : Path} {h h₀ h' : η} {f f' : φ}

/-- A file that could be opened and whose header could be parsed. -/
theorem openWith_eq_ok {p : FileProgram η φ α} {a : α}
    (hopen : os.openFile path oRDONLY h = (.ok f, h₀)) :
    openWith os p path h = .ok (.ok (f', a), h') ↔ p (f, h₀) = .ok (.ok a, f', h') := by
  rw [openWith, hopen]
  constructor
  · intro hok
    obtain ⟨⟨r, f₁, h₁⟩, hp, hok⟩ := Fallible.bind_eq_ok.mp hok
    cases r with
    | error err => cases hok
    | ok a' =>
      cases hok
      exact hp
  · intro hp
    change (p (f, h₀) >>= _) = _
    rw [hp]
    rfl

/-- A decoder is made when the header could be parsed. -/
theorem openImage_eq_ok {make : Make η φ} {layout : Layout α} {wrap : φ × α → ρ} {c : ρ}
    (hopen : os.openFile path oRDONLY h = (.ok f, h₀)) :
    openImage os make layout wrap path h = .ok (.ok c, h') ↔
      ∃ f' a, parseHeader os make layout path (f, h₀) = .ok (.ok a, f', h') ∧
        c = wrap (f', a) := by
  constructor
  · intro hok
    obtain ⟨⟨r, h₁⟩, hopened, hok⟩ := Fallible.bind_eq_ok.mp hok
    cases r with
    | error err => cases hok
    | ok opened =>
      cases hok
      exact ⟨opened.1, opened.2, (openWith_eq_ok hopen).mp hopened, rfl⟩
  · rintro ⟨f', a, hparse, rfl⟩
    rw [openImage, (openWith_eq_ok hopen).mpr hparse]
    rfl

/-- The index that is read has the entries that are asked for, and not a negative number of
them. -/
theorem length_of_readIndex {position entries : ℤ} {s t : φ × η} {offsets : List (BitVec 32)}
    (hok : readIndex os makeAny position entries s = .ok (.ok offsets, t)) :
    0 ≤ entries ∧ offsets.length = entries.toNat := by
  obtain ⟨-, s₁, -, hok⟩ := Program.bind_eq_ok.mp hok
  obtain ⟨n, s₂, -, hok⟩ := Program.bind_eq_ok.mp hok
  obtain ⟨offsetBytes, s₃, -, hok⟩ := Program.bind_eq_ok.mp hok
  obtain ⟨m, s₄, hmake, hok⟩ := Program.bind_eq_ok.mp hok
  rw [makeAny, makeLen] at hmake
  split_ifs at hmake hok with hneg
  · cases hmake
  · cases hmake
  · cases hok
  · cases hmake
    cases hok
    exact ⟨by omega, by rw [List.length_map, List.length_range]⟩

/-- What the end of `parseHeader` returns. -/
theorem of_finishHeader {layout : Layout α} {name : Path} {b : List Byte} {size blockSize : ℤ}
    {s t : φ × η} {a : α}
    (hok : finishHeader os makeAny layout name b size blockSize s = .ok (.ok a, t)) :
    ∃ stat offsets, a = layout.header b stat offsets blockSize (blockCount size blockSize) size ∧
      0 ≤ entriesOf (layout.ended b) (blockCount size blockSize) ∧
      offsets.length = (entriesOf (layout.ended b) (blockCount size blockSize)).toNat := by
  obtain ⟨offsets, s₁, hindex, hok⟩ := Program.bind_eq_ok.mp hok
  obtain ⟨t, s₂, -, hok⟩ := Program.bind_eq_ok.mp hok
  cases hok
  exact ⟨_, offsets, rfl, length_of_readIndex hindex⟩

/-- A block that there is and that is located is read from there. -/
theorem readBlock_eq (os : OS η φ) (make : BitVec 32 → ℤ → FileProgram η φ ℕ)
    (decode : Bool → List Byte → FileProgram η φ Block) {offsets : List (BitVec 32)}
    {numBlocks start size i : ℤ} {locate : BitVec 32 → FileProgram η φ (ℤ × ℤ)}
    {offset : BitVec 32} {s : φ × η}
    (hi : 0 ≤ i) (hlt : i < numBlocks) (hoffset : offsets[i.toNat]? = some offset)
    (hlocate : locate offset s = .ok (.ok (start, size), s)) :
    readBlock os make offsets numBlocks locate decode i s =
      (fetch os (make offset) start size >>= decode (topBit offset)) s := by
  have hentry : entry offsets i s = .ok (.ok offset, s) := by
    obtain ⟨j, rfl⟩ := Int.eq_ofNat_of_zero_le hi
    exact entry_natCast hoffset s
  rw [readBlock, Program.bind_of_ok (Program.check_run (by simpa using ⟨hi, hlt⟩)),
    Program.bind_of_ok hentry, Program.bind_of_ok hlocate]

end FileProgram

namespace Holds

open FileProgram

variable {α : Type} {os : OS η φ} {file : List Byte} {At : φ → ℕ → η → Prop} {f : φ} {pos n : ℕ}
  {h : η}

section OpenFile

variable (hos : Holds os file At) (hf : At f pos h)
include hos hf

/-- The modification time is had. -/
theorem modTime : ∃ t, FileProgram.modTime os (f, h) = .ok (.ok t, f, h) := by
  obtain ⟨info, hstat, -⟩ := hos.stat f pos h hf
  refine ⟨info.modTime, ?_⟩
  simp only [FileProgram.modTime, hstat]

/-- A stored block that is in the file. -/
theorem fetch_ok (place : ℕ) (hend : place + n ≤ file.length) :
    ∃ f' h', fetch os makeLen place n (f, h) = .ok (.ok ((file.drop place).take n), f', h') ∧
      At f' (place + n) h' := by
  obtain ⟨f₁, h₁, hseek, hf₁⟩ := hos.seekStart hf place (by omega)
  obtain ⟨f', h', hread, hf'⟩ := hos.readFull hf₁ hend
  refine ⟨f', h', ?_, hf'⟩
  rw [fetch, Program.bind_of_ok hseek, Program.bind_of_ok (makeLen_natCast _ _), hread]

/-- A stored block that is not. -/
theorem fetch_short (place : ℕ) (hplace : place ≤ file.length ∨ place < 2 ^ 32) (hn : 0 < n)
    (hend : file.length < place + n) :
    ∃ err s, fetch os makeLen place n (f, h) = .ok (.error err, s) := by
  obtain ⟨f₁, h₁, hseek, hf₁⟩ := hos.seekStart hf place hplace
  obtain ⟨err, f', h', -, hread, -⟩ := hos.readFull_short hf₁ hn hend
  refine ⟨err, (f', h'), ?_⟩
  rw [fetch, Program.bind_of_ok hseek, Program.bind_of_ok (makeLen_natCast _ _), hread]

/-- A header is looked at up to the index. -/
theorem parseHeader_eq {layout : Layout α} (name : Path) (hlength : 24 ≤ file.length)
    (hknown : layout.known (file.take 24) = true) (hblock : blockSizeField file ≠ 0) :
    ∃ f' h', At f' 24 h' ∧ ∀ make, parseHeader os make layout name (f, h) =
      finishHeader os make layout name (file.take 24) (sizeField file).toInt
        (blockSizeField file).toNat (f', h') := by
  obtain ⟨f₁, h₁, hseek, hf₁⟩ := hos.seekStart hf 0 (by omega)
  obtain ⟨f', h', hread, hf'⟩ := hos.readFull (n := 24) hf₁ (by omega)
  refine ⟨f', h', hf', fun make => ?_⟩
  have hpos := toNat_pos hblock
  have hfield : uint32 ((file.take 24).drop 16) = blockSizeField file :=
    uint32_drop_take (by decide) file
  change (FileProgram.seekStart os ((0 : ℕ) : ℤ) >>= _) (f, h) = _
  rw [Program.bind_of_ok hseek, Program.bind_of_ok hread, List.drop_zero, uint64_drop_take, hfield,
    Program.bind_of_ok (Program.check_run hknown),
    Program.bind_of_ok (Program.check_run (by simpa using hpos.ne'))]

/-- A header that is not ends in an error. -/
theorem parseHeader_refused {layout : Layout α} (name : Path)
    (hrefused : 24 ≤ file.length → layout.known (file.take 24) = true → blockSizeField file = 0) :
    ∃ err t, ∀ make, parseHeader os make layout name (f, h) = .ok (.error err, t) := by
  obtain ⟨f₁, h₁, hseek, hf₁⟩ := hos.seekStart hf 0 (by omega)
  rcases Nat.lt_or_ge file.length 24 with hshort | hlength
  · obtain ⟨err, f₂, h₂, -, hread, -⟩ := hos.readFull_short (n := 24) hf₁ (by omega) (by omega)
    refine ⟨err, (f₂, h₂), fun make => ?_⟩
    change (FileProgram.seekStart os ((0 : ℕ) : ℤ) >>= _) (f, h) = _
    rw [Program.bind_of_ok hseek, Program.bind_of_error hread]
  · obtain ⟨f₂, h₂, hread, -⟩ := hos.readFull (n := 24) hf₁ (by omega)
    refine ⟨.other, (f₂, h₂), fun make => ?_⟩
    have hfield : uint32 ((file.take 24).drop 16) = blockSizeField file :=
      uint32_drop_take (by decide) file
    change (FileProgram.seekStart os ((0 : ℕ) : ℤ) >>= _) (f, h) = _
    rw [Program.bind_of_ok hseek, Program.bind_of_ok hread, List.drop_zero, hfield]
    cases hknown : layout.known (file.take 24) with
    | true =>
      rw [Program.bind_of_ok (Program.check_run rfl), hrefused hlength hknown]
      exact Program.bind_of_error (Program.check_fail rfl)
    | false => exact Program.bind_of_error (Program.check_fail rfl)

end OpenFile

/-- `io.ReadFull` of no more bytes than there are behind a position, which may be behind the
end. -/
theorem readFull_of_le_sub (hos : Holds os file At) (hf : At f pos h)
    (hn : n ≤ file.length - pos) :
    ∃ f' h', FileProgram.readFull os n (f, h) = .ok (.ok ((file.drop pos).take n), f', h') ∧
      At f' (pos + n) h' := by
  rcases Nat.eq_zero_or_pos n with rfl | hpos
  · exact ⟨f, h, rfl, hf⟩
  · exact hos.readFull hf (by omega)

/-- An index that is in the file is read, when there is memory for it. -/
theorem readIndex (hos : Holds os file At) (hfile : file.length < 2 ^ 63) (hf : At f pos h)
    {position : ℕ} (hposition : position ≤ file.length ∨ position < 2 ^ 32)
    (hn : 4 * n ≤ file.length - position) :
    ∃ f' h' pos', At f' pos' h' ∧ ∀ make, Grants make (file.length - position) →
      FileProgram.readIndex os make position n (f, h) =
        .ok (.ok (indexAt file position n), f', h') := by
  obtain ⟨f₁, h₁, hseek, hf₁⟩ := hos.seekStart hf position hposition
  obtain ⟨f₂, h₂, hread, hf₂⟩ := hos.readFull_of_le_sub hf₁ hn
  refine ⟨f₂, h₂, _, hf₂, fun make hmake => ?_⟩
  have hbytes : int64 (n * 4) = (4 * n : ℕ) := by
    rw [int64_eq_self (by omega) (by omega)]
    omega
  have hlength : ((file.drop position).take (4 * n)).length = 4 * n := by
    rw [List.length_take, List.length_drop]
    omega
  have hwords : ((List.range n).map fun i =>
      uint32 (((file.drop position).take (4 * n)).drop (4 * i))) = indexAt file position n := by
    apply List.map_congr_left
    intro i hi
    rw [List.mem_range] at hi
    rw [uint32_drop_take (by omega), List.drop_drop]
  rw [FileProgram.readIndex, Program.bind_of_ok hseek, hbytes,
    Program.bind_of_ok (hmake 1 (4 * n) _ (by omega)), Program.bind_of_ok hread, decodeOffsets,
    Program.bind_of_ok (hmake 4 n _ (by omega)), if_neg (by omega), Program.pure_run, hwords]

/-- The end of `parseHeader` for such an index. -/
theorem finishHeader (hos : Holds os file At) (hfile : file.length < 2 ^ 63) (hf : At f pos h)
    {layout : Layout α} {b : List Byte} {size blockSize : ℤ} {position : ℕ} (name : Path)
    (hlayout : layout.position b = position)
    (hposition : position ≤ file.length ∨ position < 2 ^ 32)
    (hentries : entriesOf (layout.ended b) (blockCount size blockSize) = n)
    (hn : 4 * n ≤ file.length - position) :
    ∃ t f' h' pos', At f' pos' h' ∧ ∀ make, Grants make (file.length - position) →
      FileProgram.finishHeader os make layout name b size blockSize (f, h) =
        .ok (.ok (layout.header b ⟨t, name.base, size⟩ (indexAt file position n) blockSize
          (blockCount size blockSize) size), f', h') := by
  obtain ⟨f₁, h₁, pos₁, hf₁, hindex⟩ := hos.readIndex hfile hf hposition hn
  obtain ⟨t, htime⟩ := hos.modTime hf₁
  refine ⟨t, f₁, h₁, pos₁, hf₁, fun make hmake => ?_⟩
  rw [FileProgram.finishHeader, hlayout, hentries, Program.bind_of_ok (hindex make hmake),
    Program.bind_of_ok htime, Program.pure_run]

end Holds

namespace Container

open FileProgram

/-- The file has a header in this layout, with an index behind it. -/
structure Headed {α : Type} (layout : Layout α) (ended : Bool) (headerSize : ℕ) (k : Container) :
    Prop extends k.Valid headerSize (entries ended k) where
  /-- The magic number is known. -/
  known : layout.known (k.file.take 24) = true
  /-- The index is behind the header. -/
  position : layout.position (k.file.take 24) = headerSize
  /-- The index has an end entry, or not. -/
  ended_eq : layout.ended (k.file.take 24) = ended

/-- The index of the file. -/
def indexOf (ended : Bool) (k : Container) : List (BitVec 32) :=
  (List.range (entries ended k)).map fun i => indexEntry (k.offset i) (k.raw i)

variable {α : Type} {layout : Layout α} {ended : Bool} {headerSize n : ℕ} {k : Container}
  {os : OS η φ} {At : φ → ℕ → η → Prop} {f : φ} {pos : ℕ} {h h₀ h' : η} {path : Path}
  {wrap : φ × α → ρ}

/-- The field for the size of the image. -/
theorem Valid.sizeField_eq (hk : k.Valid headerSize n) :
    (sizeField k.file).toInt = int64 k.image.length := by
  rw [sizeField, uint64_of_placed hk.size, BitVec.toInt_ofNat']
  rfl

/-- The field for the size of a block. -/
theorem Valid.blockSizeField_eq (hk : k.Valid headerSize n) :
    (blockSizeField k.file).toNat = k.blockSize := by
  rw [blockSizeField, uint32_of_placed hk.blockSize, BitVec.toNat_ofNat,
    Nat.mod_eq_of_lt hk.blockSize_lt]

/-- The words behind the header are the index. -/
theorem Valid.indexAt_eq (hk : k.Valid headerSize (entries ended k)) :
    indexAt k.file headerSize (entries ended k) = indexOf ended k := by
  apply List.map_congr_left
  intro i hi
  exact uint32_of_placed (hk.index i (List.mem_range.mp hi))

section Opening

variable (hk : Headed layout ended headerSize k) (hos : Holds os k.file At)
include hk hos

/-- `parseHeader` up to the index. -/
theorem Headed.parseHeader_eq (hf : At f pos h) (name : Path) :
    ∃ f' h', At f' 24 h' ∧ ∀ make, parseHeader os make layout name (f, h) =
      finishHeader os make layout name (k.file.take 24) (int64 k.image.length) k.blockSize
        (f', h') := by
  have hblock : blockSizeField k.file ≠ 0 := by
    intro hzero
    have heq := hk.blockSizeField_eq
    rw [hzero] at heq
    exact absurd heq.symm hk.blockSize_pos.ne'
  rw [← hk.sizeField_eq, ← hk.blockSizeField_eq]
  exact hos.parseHeader_eq hf name hk.header hk.known hblock

/-- The file of an image whose size does not overflow is opened. -/
theorem Headed.openImage_ok (hopen : os.openFile path oRDONLY h = (.ok f, h₀)) (hf : At f pos h₀)
    (wrap : φ × α → ρ) (hfits : k.image.length + k.blockSize ≤ 2 ^ 63) :
    ∃ t f' h' pos', At f' pos' h' ∧ openImage os makeAny layout wrap path h =
      .ok (.ok (wrap (f', layout.header (k.file.take 24) ⟨t, path.base, k.image.length⟩
        (indexOf ended k) k.blockSize k.blocks k.image.length)), h') := by
  have hpos := hk.blockSize_pos
  have hfile := hk.file_lt
  have hle := hk.index_le
  obtain ⟨f₁, h₁, hf₁, hparse⟩ := hk.parseHeader_eq hos hf path
  rw [int64_eq_self (x := k.image.length) (by omega) (by omega)] at hparse
  have hcount := blockCount_eq hpos hfits
  have hentries : entriesOf (layout.ended (k.file.take 24))
      (blockCount k.image.length k.blockSize) = entries ended k := by
    rw [hcount, hk.ended_eq, entriesOf]
    unfold entries at hle ⊢
    cases ended with
    | true =>
      simp only [if_true] at hle ⊢
      rw [int64_eq_self (by omega) (by omega)]
      rfl
    | false => rfl
  obtain ⟨t, f', h', pos', hf', hfinish⟩ := hos.finishHeader hfile hf₁ path hk.position
    (by omega) hentries (by omega)
  refine ⟨t, f', h', pos', hf', (openImage_eq_ok hopen).mpr ⟨f', _, ?_, rfl⟩⟩
  rw [hparse, hfinish _ (grants_makeAny _), hcount, hk.indexAt_eq]

/-- The size of an image that overflows is taken for a negative number, if the file is opened
at all. -/
theorem Headed.openImage_overflow (hopen : os.openFile path oRDONLY h = (.ok f, h₀))
    (hf : At f pos h₀) (hover : 2 ^ 63 < k.image.length + k.blockSize) {c : ρ}
    (hok : openImage os makeAny layout wrap path h = .ok (.ok c, h')) :
    ∃ f' stat offsets numBlocks size, size < 0 ∧
      c = wrap (f', layout.header (k.file.take 24) stat offsets k.blockSize numBlocks size) := by
  obtain ⟨f', a, hparse, rfl⟩ := (openImage_eq_ok hopen).mp hok
  obtain ⟨f₁, h₁, -, heq⟩ := hk.parseHeader_eq hos hf path
  rw [heq] at hparse
  obtain ⟨stat, offsets, rfl, hentries, -⟩ := of_finishHeader hparse
  refine ⟨f', stat, offsets, _, _, ?_, rfl⟩
  have himage := hk.image_lt
  have hblock := hk.blockSize_lt
  have hpos := hk.blockSize_pos
  rcases Nat.lt_or_ge k.image.length (2 ^ 63) with hlt | hge
  · -- the number of entries would be negative
    rw [int64_eq_self (x := k.image.length) (by omega) (by omega), entriesOf] at hentries
    have hneg := blockCount_overflow k.image.length (Int.natCast_pos.mpr hpos)
      (by omega) (by omega) (by omega)
    split_ifs at hentries <;> omega
  · rw [int64_wrap (by omega) (by omega)]
    omega

end Opening

end Container

/-! ### A small code -/

/-- A stream that starts with the length of its data, for files that can be written out. -/
def Counted (stream data : List Byte) : Prop :=
  data.length < 256 ∧ stream = BitVec.ofNat 8 data.length :: data

instance (stream data : List Byte) : Decidable (Counted stream data) := by
  unfold Counted
  infer_instance

end Udpfsd.Fs
