import Udpfsd.Fs.Container
import Udpfsd.Fs.FlatFile
import Udpfsd.Fs.Host

/-!
# CHD images

A CHD file stores an image in hunks, which libchdr decompresses. In the CD format a hunk is a
row of frames of 2448 bytes: a sector of 2352 bytes and its subcode. Of a sector the client
sees 2048 bytes, which start behind a header whose length depends on the mode of the sector.
So a byte of the image is found by three translations, from the image to the hunk, to the
frame and to the user data, which here are composed.

libchdr numbers the hunks by 32 bits. The decoder counts them by 64, and an image of more than
`2 ^ 32` hunks is not what it seems.
-/

namespace Udpfsd.Fs

open Udprdma (Byte)
open Udpfs (Error Fault oRDONLY)
open FileProgram

variable {η φ χ : Type}

/-- `binary.BigEndian.Uint32` of the first four bytes. -/
def beUint32 (b : List Byte) : BitVec 32 :=
  (b.getD 3 0).setWidth 32 ||| (b.getD 2 0).setWidth 32 <<< 8 |||
    (b.getD 1 0).setWidth 32 <<< 16 ||| (b.getD 0 0).setWidth 32 <<< 24

/-- `binary.BigEndian.Uint64` of the first eight bytes. -/
def beUint64 (b : List Byte) : BitVec 64 := beUint32 b ++ beUint32 (b.drop 4)

/-- The functions of libchdr, with a state `χ` for its open files. -/
structure LibChdr (η χ : Type) where
  /-- `chd_open` for reading, none when it does not return zero. -/
  chdOpen (path : Path) : η → Option χ × η
  /-- `chd_read` of the hunk with this number: what it writes to the buffer, which is no more
  than there is room for, and whether it returns zero. -/
  chdRead (chd : χ) (hunknum : BitVec 32) : η → (List Byte × Bool) × χ × η
  /-- `chd_close`. -/
  chdClose (chd : χ) : η → η

/-- `cdFrameSize`: a sector of 2352 bytes and 96 bytes of subcode. -/
def cdFrameSize : ℕ := 2448

/-- `cdUserData`. -/
def cdUserData : ℕ := 2048

/-- `cdCodecs`: `cdlz`, `cdzl` and `cdfl`. -/
def cdCodecs : List (BitVec 32) := [0x63646c7a, 0x63647a6c, 0x6364666c]

/-- `cdSync`. -/
def cdSync : List Byte := 0x00 :: List.replicate 10 0xff ++ [0x00]

/-- The magic number of a CHD file. -/
def chdMagic : List Byte := Path.ascii ['M', 'C', 'o', 'm', 'p', 'r', 'H', 'D']

/-- `copy` to the start of a new buffer of `cdUserData` bytes. -/
def userBuffer (part : List Byte) : List Byte :=
  part ++ List.replicate (cdUserData - part.length) 0

/-- `extractUserData`. `bytesEqual` is the equality of slices. -/
def extractUserData (sector : List Byte) : List Byte :=
  if sector.length < cdUserData then userBuffer sector
  else
    let offset :=
      if 16 ≤ sector.length ∧ sector.take 12 = cdSync then
        if sector.getD 15 0 = 2 then 24 else 16
      else 0
    if sector.length < offset + cdUserData then userBuffer (sector.drop offset)
    else userBuffer ((sector.drop offset).take cdUserData)

/-- The fields of `CHD` that `parseHeader` fills in. -/
structure ChdHeader where
  /-- The size of a hunk. -/
  hunkSize : ℤ
  /-- The block size: the user data of a hunk. -/
  blockSize : ℤ
  /-- The number of blocks. -/
  numBlocks : ℤ
  /-- The size of the image. -/
  size : ℤ
  /-- Whether the hunks are rows of frames. -/
  isCDFormat : Bool
  /-- The number of frames in a hunk, in the CD format. -/
  framesPerHunk : ℤ
  /-- What `Stat` reports. -/
  stat : CompressedInfo

/-- `CHD`. -/
structure Chd (χ : Type) extends ChdHeader where
  /-- The file as libchdr has it open. -/
  chd : χ
  /-- The buffer for a hunk. -/
  hunkBuf : List Byte

namespace Chd

/-! ### The header -/

/-- The field `compressors`. -/
def compressors (header : List Byte) : List (BitVec 32) :=
  (List.range 4).map fun i => beUint32 (header.drop (16 + i * 4))

/-- The field `logicalBytes`. -/
def logicalBytes (header : List Byte) : BitVec 64 := beUint64 (header.drop 32)

/-- The field `hunkSize`. -/
def hunkBytes (header : List Byte) : BitVec 32 := beUint32 (header.drop 56)

/-- The field `unitSize`. -/
def unitSize (header : List Byte) : BitVec 32 := beUint32 (header.drop 60)

/-- `isCD`: the unit is a frame, or one of the compressors is for frames. -/
def isCD (header : List Byte) : Bool :=
  unitSize header = BitVec.ofNat 32 cdFrameSize ||
    (compressors header).any fun comp => comp ≠ 0 && comp ∈ cdCodecs

variable (os : OS η φ)

/-- The part of `parseHeader` and `GetStat` that reads and checks the header. -/
def readChecked : FileProgram η φ (List Byte) := do
  let header ← readFull os 124
  Program.check (header.length ≥ 64 ∧ header.take 8 = chdMagic) .other
  Program.check (beUint32 (header.drop 12) = 5) .other
  Program.check (hunkBytes header ≠ 0) .other
  return header

/-- What `parseHeader` computes from the header. -/
def fields (header : List Byte) (stat : ℤ → CompressedInfo) : ChdHeader :=
  let hunk := hunkBytes header
  let numBlocks :=
    ((logicalBytes header + hunk.setWidth 64 - 1) / hunk.setWidth 64).toInt
  let isCDFormat := isCD header && hunk % BitVec.ofNat 32 cdFrameSize = 0
  if isCDFormat then
    let framesPerHunk : ℤ := (hunk / BitVec.ofNat 32 cdFrameSize).toNat
    let totalFrames := int64 (numBlocks * framesPerHunk)
    let size := int64 (totalFrames * cdUserData)
    ⟨hunk.toNat, framesPerHunk * cdUserData, numBlocks, size, isCDFormat, framesPerHunk, stat size⟩
  else
    let size := (logicalBytes header).toInt
    ⟨hunk.toNat, hunk.toNat, numBlocks, size, isCDFormat, 0, stat size⟩

/-- `parseHeader` on the file that it opens. -/
def parseHeader (name : Path) : FileProgram η φ ChdHeader := do
  let header ← readChecked os
  let modTime ← modTime os
  return fields header fun size => ⟨modTime, name.base, size⟩

/-- The size as `GetStat` computes it from the header. -/
def statSize (header : List Byte) : ℤ :=
  let hunk := hunkBytes header
  let numBlocks :=
    ((logicalBytes header + hunk.setWidth 64 - 1) / hunk.setWidth 64).toInt
  if isCD header && hunk % BitVec.ofNat 32 cdFrameSize = 0 then
    int64 (int64 (numBlocks * (hunk / BitVec.ofNat 32 cdFrameSize).toNat) * cdUserData)
  else (logicalBytes header).toInt

/-- `GetStat`. -/
def getStat (path : Path) (h : η) : Option CompressedInfo :=
  match os.openFile path oRDONLY h with
  | (.error _, _) => none
  | (.ok f, h) =>
    let program : FileProgram η φ CompressedInfo := do
      let header ← readChecked os
      let modTime ← modTime os
      return ⟨modTime, path.base, statSize header⟩
    match program (f, h) with
    | .ok (.ok info, _) => some info
    | _ => none

/-! ### Opening and reading -/

variable (L : LibChdr η χ)

/-- `Open`. The file is opened once to see that it is there, and again for the header. -/
def openImage (path : Path) (h : η) : Except Fault (Except Error (Chd χ) × η) :=
  match os.openFile path oRDONLY h with
  | (.error err, h) => .ok (.error err, h)
  | (.ok f, h) =>
    match L.chdOpen path h with
    | (none, h) => .ok (.error .other, os.close f h)
    | (some chd, h) =>
      match os.openFile path oRDONLY h with
      | (.error err, h) => .ok (.error err, os.close f (L.chdClose chd h))
      | (.ok g, h) => do
        let (r, g, h) ← parseHeader os path (g, h)
        let h := os.close g h
        match r with
        | .error err => return (.error err, os.close f (L.chdClose chd h))
        | .ok header =>
          return (.ok ⟨header, chd, List.replicate header.hunkSize.toNat 0⟩, os.close f h)

/-- The loop of `ReadBlock` over the frames, with `n` left from frame `i` on and `out` before
them. -/
def extractFrames (hunkBuf : List Byte) : ℕ → ℕ → List Byte → Except Fault (List Byte)
  | 0, _, out => .ok out
  | n + 1, i, out =>
    let start := i * cdFrameSize
    if hunkBuf.length < start + 2352 then .error .sliceBounds
    else extractFrames hunkBuf n (i + 1)
      (out ++ extractUserData ((hunkBuf.drop start).take 2352))

/-- `ReadBlock`. The index is cut to the 32 bits of a hunk number. -/
def readBlock (c : Chd χ) (blockIdx : ℤ) (h : η) :
    Except Fault (Except Error Block × Chd χ × η) :=
  if blockIdx < 0 ∨ c.numBlocks ≤ blockIdx then .ok (.error .other, c, h)
  else if c.hunkBuf = [] then .error .indexOutOfRange
  else
    let ((written, zero), chd, h) := L.chdRead c.chd (BitVec.ofInt 32 blockIdx) h
    let hunkBuf := (written ++ c.hunkBuf.drop written.length).take c.hunkBuf.length
    let c := { c with chd := chd, hunkBuf := hunkBuf }
    if ¬ zero then .ok (.error .other, c, h)
    else if ¬ c.isCDFormat then
      let out := hunkBuf.take c.hunkSize.toNat
      .ok (.ok ⟨out ++ List.replicate (c.hunkSize.toNat - out.length) 0, []⟩, c, h)
    else do
      let out ← extractFrames hunkBuf c.framesPerHunk.toNat 0 []
      return (.ok ⟨out, []⟩, c, h)

/-- The methods of `CHD` as a `BlockReader`. -/
def reader : BlockReader η (Chd χ) where
  readBlock := readBlock L
  blockSize c := c.blockSize
  numBlocks c := c.numBlocks
  uncompressedSize c := c.size
  close c h := L.chdClose c.chd h

/-- Package `chd`. -/
def format : Format η (Chd χ) where
  extensions := [Path.ascii ['.', 'c', 'h', 'd']]
  openImage := openImage os L
  getStat := getStat os

/-! ### A disc of frames -/

/-- Frame `m` of a hunk. -/
def frameOf (hunk : List Byte) (m : ℕ) : List Byte :=
  (hunk.drop (m * cdFrameSize)).take cdFrameSize

/-- Frame `j` of the disc. -/
def frame (hunks : ℕ → List Byte) (framesPerHunk j : ℕ) : List Byte :=
  frameOf (hunks (j / framesPerHunk)) (j % framesPerHunk)

/-- Where the user data of a frame starts: the sync pattern is followed by a header, which is
longer in mode 2. -/
def userDataOffset (frame : List Byte) : ℕ :=
  if frame.take 12 = cdSync then if frame.getD 15 0 = 2 then 24 else 16 else 0

/-- Byte `r` of the user data of a frame. -/
def userByte (frame : List Byte) (r : ℕ) : Byte := frame.getD (userDataOffset frame + r) 0

/-- Byte `k` of the flat image. -/
def flatByte (hunks : ℕ → List Byte) (framesPerHunk k : ℕ) : Byte :=
  userByte (frame hunks framesPerHunk (k / cdUserData)) (k % cdUserData)

/-- The user data of a frame. -/
def userData (frame : List Byte) : List Byte :=
  (frame.drop (userDataOffset frame)).take cdUserData

section Frames

variable {hunk : List Byte} {hunks : ℕ → List Byte} {framesPerHunk count i j k m r : ℕ}

theorem userDataOffset_le (frame : List Byte) : userDataOffset frame ≤ 24 := by
  unfold userDataOffset
  split_ifs <;> omega

theorem length_userData {frame : List Byte} (hlength : frame.length = cdFrameSize) :
    (userData frame).length = cdUserData := by
  have hoffset := userDataOffset_le frame
  rw [userData, List.length_take, List.length_drop, hlength]
  simp only [cdFrameSize, cdUserData]
  omega

theorem getElem?_userData {frame : List Byte} (hlength : frame.length = cdFrameSize)
    (hr : r < cdUserData) : (userData frame)[r]? = some (userByte frame r) := by
  have hoffset := userDataOffset_le frame
  have hin : userDataOffset frame + r < frame.length := by
    rw [hlength]
    simp only [cdFrameSize, cdUserData] at hr ⊢
    omega
  rw [userData, List.getElem?_take_of_lt hr, List.getElem?_drop, userByte,
    List.getD_eq_getElem?_getD, List.getElem?_eq_getElem hin]
  rfl

/-- The sector of a frame has the whole user data. -/
theorem extractUserData_eq {frame : List Byte} (hlength : frame.length = cdFrameSize) :
    extractUserData (frame.take 2352) = userData frame := by
  have hoffset := userDataOffset_le frame
  have hsector : (frame.take 2352).length = 2352 := by
    rw [List.length_take, hlength, cdFrameSize]
    rfl
  have hsync : (frame.take 2352).take 12 = frame.take 12 := List.take_take
  have hmode : (frame.take 2352).getD 15 0 = frame.getD 15 0 := by
    rw [List.getD_eq_getElem?_getD, List.getElem?_take_of_lt (by omega),
      ← List.getD_eq_getElem?_getD]
  have hstart : (if 16 ≤ 2352 ∧ frame.take 12 = cdSync then
      if frame.getD 15 0 = 2 then 24 else 16 else 0) = userDataOffset frame := by
    rw [userDataOffset]
    simp only [Nat.reduceLeDiff, true_and]
  have hdata : ((frame.take 2352).drop (userDataOffset frame)).take cdUserData =
      userData frame := by
    rw [List.drop_take, List.take_take, userData, Nat.min_eq_left]
    simp only [cdUserData]
    omega
  simp only [extractUserData, hsector, hsync, hmode, hstart]
  rw [if_neg (by decide), if_neg (by simp only [cdUserData]; omega), hdata,
    userBuffer, length_userData hlength, Nat.sub_self, List.replicate_zero, List.append_nil]

theorem length_frameOf (hlength : hunk.length = framesPerHunk * cdFrameSize)
    (hm : m < framesPerHunk) : (frameOf hunk m).length = cdFrameSize := by
  have hnext : (m + 1) * cdFrameSize ≤ framesPerHunk * cdFrameSize := Nat.mul_le_mul_right _ hm
  rw [Nat.succ_mul] at hnext
  rw [frameOf, List.length_take, List.length_drop]
  omega

/-- The loop of `ReadBlock` puts the user data of the frames together. -/
theorem extractFrames_eq (hlength : hunk.length = framesPerHunk * cdFrameSize) {n : ℕ}
    (hn : i + n ≤ framesPerHunk) (out : List Byte) :
    extractFrames hunk n i out =
      .ok (out ++ (List.range' i n).flatMap fun m => userData (frameOf hunk m)) := by
  induction n generalizing i out with
  | zero => simp [extractFrames]
  | succ n ih =>
    have hframe := length_frameOf hlength (show i < framesPerHunk by omega)
    have hsector : (hunk.drop (i * cdFrameSize)).take 2352 = (frameOf hunk i).take 2352 := by
      rw [frameOf, List.take_take]
      rfl
    have hin : ¬ hunk.length < i * cdFrameSize + 2352 := by
      rw [frameOf, List.length_take, List.length_drop] at hframe
      simp only [cdFrameSize] at hframe ⊢
      omega
    simp only [extractFrames]
    rw [if_neg hin, hsector, extractUserData_eq hframe, ih (by omega), List.range'_succ,
      List.flatMap_cons, List.append_assoc]

/-- A byte of the image within a hunk. -/
theorem flatByte_hunk (hj : j < framesPerHunk * cdUserData) (i : ℕ) :
    flatByte hunks framesPerHunk (i * (framesPerHunk * cdUserData) + j) =
      userByte (frameOf (hunks i) (j / cdUserData)) (j % cdUserData) := by
  have hframe : j / cdUserData < framesPerHunk := (Nat.div_lt_iff_lt_mul (by decide)).mpr hj
  have hquot : (i * (framesPerHunk * cdUserData) + j) / cdUserData =
      j / cdUserData + i * framesPerHunk := by
    rw [← Nat.mul_assoc, Nat.add_comm, Nat.add_mul_div_right _ _ (by decide)]
  have hrem : (i * (framesPerHunk * cdUserData) + j) % cdUserData = j % cdUserData := by
    rw [← Nat.mul_assoc, Nat.add_comm, Nat.add_mul_mod_self_right]
  have hpos : 0 < framesPerHunk := Nat.zero_lt_of_lt hframe
  rw [flatByte, frame, hquot, hrem, Nat.add_mul_div_right _ _ hpos,
    Nat.div_eq_of_lt hframe, Nat.zero_add, Nat.add_mul_mod_self_right, Nat.mod_eq_of_lt hframe]

/-- The flat image. -/
def flatImage (hunks : ℕ → List Byte) (framesPerHunk count : ℕ) : List Byte :=
  (List.range (count * (framesPerHunk * cdUserData))).map (flatByte hunks framesPerHunk)

/-- The blocks of the flat image are the user data of the hunks. -/
theorem block_flatImage (hlength : (hunks i).length = framesPerHunk * cdFrameSize)
    (hi : i < count) :
    Blocks.block (flatImage hunks framesPerHunk count) (framesPerHunk * cdUserData) i =
      (List.range framesPerHunk).flatMap fun m => userData (frameOf (hunks i) m) := by
  have hnext : (i + 1) * (framesPerHunk * cdUserData) ≤ count * (framesPerHunk * cdUserData) :=
    Nat.mul_le_mul_right _ hi
  rw [Nat.succ_mul] at hnext
  have hframes : ∀ m < framesPerHunk, (userData (frameOf (hunks i) m)).length = cdUserData :=
    fun m hm => length_userData (length_frameOf hlength hm)
  apply List.ext_getElem?
  intro j
  rcases Nat.lt_or_ge j (framesPerHunk * cdUserData) with hj | hj
  · have hframe : j / cdUserData < framesPerHunk := (Nat.div_lt_iff_lt_mul (by decide)).mpr hj
    rw [Blocks.getElem?_block _ hj, Blocks.getElem?_flatMap_range hframes hj,
      getElem?_userData (length_frameOf hlength hframe) (Nat.mod_lt _ (by decide)), flatImage,
      List.getElem?_map, List.getElem?_range (by omega), Option.map_some, flatByte_hunk hj]
  · rw [List.getElem?_eq_none (by rw [Blocks.length_block]; omega),
      List.getElem?_eq_none (by rw [Blocks.length_flatMap_range hframes]; omega)]

/-- The hunks as they are found by the 32 bits of a hunk number. -/
def numbered (hunks : ℕ → List Byte) (i : ℕ) : List Byte := hunks (i % 2 ^ 32)

/-- Every hunk whose number has more than 32 bits has the user data of the hunk with the low
32 bits of that number. Without such hunks this says nothing. -/
def Aliased (hunks : ℕ → List Byte) (framesPerHunk count : ℕ) : Prop :=
  ∀ i, 2 ^ 32 ≤ i → i < count → ∀ m < framesPerHunk, ∀ r < cdUserData,
    userByte (frameOf (hunks i) m) r = userByte (frameOf (hunks (i % 2 ^ 32)) m) r

theorem aliased_iff : Aliased hunks framesPerHunk count ↔
    ∀ k < count * (framesPerHunk * cdUserData),
      flatByte hunks framesPerHunk k = flatByte (numbered hunks) framesPerHunk k := by
  constructor
  · intro haliased k hk
    have hwidth : 0 < framesPerHunk * cdUserData := Nat.pos_of_ne_zero fun h => by
      rw [h, Nat.mul_zero] at hk
      omega
    -- the hunk of the byte, and its place there
    have hplace := Nat.div_add_mod' k (framesPerHunk * cdUserData)
    have hj := Nat.mod_lt k hwidth
    have hi : k / (framesPerHunk * cdUserData) < count := (Nat.div_lt_iff_lt_mul hwidth).mpr hk
    rw [← hplace, flatByte_hunk hj, flatByte_hunk hj, numbered]
    rcases Nat.lt_or_ge (k / (framesPerHunk * cdUserData)) (2 ^ 32) with hsmall | hlarge
    · rw [Nat.mod_eq_of_lt hsmall]
    · exact haliased _ hlarge hi _ ((Nat.div_lt_iff_lt_mul (by decide)).mpr hj) _
        (Nat.mod_lt _ (by decide))
  · intro hbytes i _ hi m hm r hr
    have hj : m * cdUserData + r < framesPerHunk * cdUserData := by
      have hnext : (m + 1) * cdUserData ≤ framesPerHunk * cdUserData := Nat.mul_le_mul_right _ hm
      rw [Nat.succ_mul] at hnext
      omega
    have hnext : (i + 1) * (framesPerHunk * cdUserData) ≤ count * (framesPerHunk * cdUserData) :=
      Nat.mul_le_mul_right _ hi
    rw [Nat.succ_mul] at hnext
    have hbyte := hbytes (i * (framesPerHunk * cdUserData) + (m * cdUserData + r)) (by omega)
    rw [flatByte_hunk hj, flatByte_hunk hj, Nat.add_comm, Nat.add_mul_div_right _ _ (by decide),
      Nat.div_eq_of_lt hr, Nat.zero_add, Nat.add_mul_mod_self_right, Nat.mod_eq_of_lt hr] at hbyte
    exact hbyte

end Frames

/-! ### Reading the hunks -/

end Chd

/-- libchdr has a file of these hunks open: `chd_read` fills the buffer with the hunk of the
number it is given, from any state that is ready, and stays ready. -/
structure LibChdr.Serves (L : LibChdr η χ) (hunks : ℕ → List Byte) (hunkSize count : ℕ)
    (Ready : χ → η → Prop) : Prop where
  /-- The size of the hunks. -/
  length : ∀ i, (hunks i).length = hunkSize
  /-- The reading of a hunk. -/
  read : ∀ chd h (hunknum : BitVec 32), Ready chd h → hunknum.toNat < count →
    ∃ chd' h', L.chdRead chd hunknum h = ((hunks hunknum.toNat, true), chd', h') ∧ Ready chd' h'

/-- The header describes this number of hunks of frames, and its sizes are exact. -/
structure ChdHeader.IsDisc (c : ChdHeader) (perHunk count : ℕ) : Prop where
  /-- The CD format. -/
  isCDFormat : c.isCDFormat = true
  /-- The frames of a hunk. -/
  framesPerHunk : c.framesPerHunk = perHunk
  /-- There is one. -/
  pos : 0 < perHunk
  /-- The size of a hunk. -/
  hunkSize : c.hunkSize = (perHunk * cdFrameSize : ℕ)
  /-- The size of its user data. -/
  blockSize : c.blockSize = (perHunk * cdUserData : ℕ)
  /-- The number of hunks. -/
  numBlocks : c.numBlocks = count
  /-- The size of the image. -/
  size : c.size = (count * (perHunk * cdUserData) : ℕ)

namespace Chd

section Reading

variable {L : LibChdr η χ} {hunks : ℕ → List Byte} {framesPerHunk count : ℕ}
  {Ready : χ → η → Prop} {c : Chd χ} {h : η}

/-- The decoder of a disc, with libchdr ready and a buffer for a hunk. -/
structure OnDisc (framesPerHunk count : ℕ) (Ready : χ → η → Prop) (c : Chd χ) (h : η) : Prop where
  /-- The header. -/
  disc : c.toChdHeader.IsDisc framesPerHunk count
  /-- The buffer. -/
  length : c.hunkBuf.length = framesPerHunk * cdFrameSize
  /-- libchdr. -/
  ready : Ready c.chd h

/-- `ReadBlock` returns the user data of the hunk with the low 32 bits of the index. -/
theorem OnDisc.readBlock (hc : OnDisc framesPerHunk count Ready c h)
    (hL : L.Serves hunks (framesPerHunk * cdFrameSize) count Ready) {i : ℕ} (hi : i < count) :
    ∃ c' h', Chd.readBlock L c i h =
        .ok (.ok ⟨(List.range framesPerHunk).flatMap fun m =>
          userData (frameOf (numbered hunks i) m), []⟩, c', h') ∧
      OnDisc framesPerHunk count Ready c' h' := by
  have hnumber : (BitVec.ofInt 32 (i : ℤ)).toNat = i % 2 ^ 32 := by
    rw [BitVec.ofInt_natCast, BitVec.toNat_ofNat]
  have hle : i % 2 ^ 32 ≤ i := Nat.mod_le _ _
  obtain ⟨chd', h', hread, hready⟩ := hL.read c.chd h (BitVec.ofInt 32 i) hc.ready (by omega)
  rw [hnumber] at hread
  have hlength := hL.length (i % 2 ^ 32)
  have hbuf : (hunks (i % 2 ^ 32) ++ c.hunkBuf.drop (hunks (i % 2 ^ 32)).length).take
      c.hunkBuf.length = hunks (i % 2 ^ 32) := by
    rw [hc.length, ← hlength, List.take_left]
  have hne : c.hunkBuf ≠ [] := by
    rw [← List.length_pos_iff, hc.length]
    exact Nat.mul_pos hc.disc.pos (by decide)
  have hrange : ¬ ((i : ℤ) < 0 ∨ c.numBlocks ≤ i) := by
    rw [hc.disc.numBlocks]
    omega
  refine ⟨{ c with chd := chd', hunkBuf := hunks (i % 2 ^ 32) }, h', ?_, hc.disc, hlength, hready⟩
  rw [Chd.readBlock, if_neg hrange, if_neg hne]
  simp only [hread, hbuf, hc.disc.isCDFormat, hc.disc.framesPerHunk, Int.toNat_natCast,
    not_true_eq_false, if_false]
  rw [extractFrames_eq hlength (by omega), List.nil_append, ← List.range_eq_range']
  rfl

section Hunks

variable (hL : L.Serves hunks (framesPerHunk * cdFrameSize) count Ready)
include hL

/-- The decoder delivers the blocks of the image of the hunks as they are numbered. -/
theorem delivers :
    Delivers (reader L) (flatImage (numbered hunks) framesPerHunk count)
      (framesPerHunk * cdUserData) (OnDisc framesPerHunk count Ready) := by
  intro c h i hc hi
  have hcount : i < count := by
    rw [flatImage, List.length_map, List.length_range] at hi
    exact Nat.lt_of_mul_lt_mul_right hi
  have hlength : (numbered hunks i).length = framesPerHunk * cdFrameSize := hL.length _
  obtain ⟨c', h', hread, hc'⟩ := hc.readBlock hL hcount
  exact ⟨_, c', h', hread, hc', (block_flatImage hlength hcount).symm ▸ List.prefix_rfl⟩

theorem readsFlat_numbered (hc : OnDisc framesPerHunk count Ready c h) :
    ReadsFlat (reader L) c h (count * (framesPerHunk * cdUserData))
      (flatByte (numbered hunks) framesPerHunk) := by
  have hwidth : 0 < framesPerHunk * cdUserData := Nat.mul_pos hc.disc.pos (by decide)
  refine (delivers hL).readsFlat hwidth hc.disc.blockSize ?_ hc.disc.size hc
  have hblocks : (count * (framesPerHunk * cdUserData) + framesPerHunk * cdUserData - 1) /
      (framesPerHunk * cdUserData) = count := by
    rw [Nat.add_sub_assoc hwidth, Nat.add_comm, Nat.add_mul_div_right _ _ hwidth,
      Nat.div_eq_of_lt (by omega), Nat.zero_add]
  rw [hblocks]
  exact hc.disc.numBlocks

/-- The image is read as the bytes of its frames when hunk numbers of 32 bits are enough to
tell the hunks apart. -/
theorem readsFlat_iff (hc : OnDisc framesPerHunk count Ready c h) :
    ReadsFlat (reader L) c h (count * (framesPerHunk * cdUserData))
      (flatByte hunks framesPerHunk) ↔ Aliased hunks framesPerHunk count := by
  have hnumbered := readsFlat_numbered hL hc
  rw [aliased_iff]
  constructor
  · intro hreads k hk
    exact hreads.unique hnumbered hk
  · intro hbytes cacheSize info before start n hstart
    obtain ⟨answers, c', h', hcalls⟩ := hnumbered cacheSize info before start n hstart
    refine ⟨answers, c', h', ?_⟩
    have hrange : ((List.range (min n (count * (framesPerHunk * cdUserData) - start))).map
        fun j => flatByte hunks framesPerHunk (start + j)) =
        (List.range (min n (count * (framesPerHunk * cdUserData) - start))).map
          fun j => flatByte (numbered hunks) framesPerHunk (start + j) := by
      apply List.map_congr_left
      intro j hj
      rw [List.mem_range] at hj
      exact hbytes _ (by omega)
    rw [hrange]
    exact hcalls

end Hunks

end Reading

/-! ### The sizes of a header -/

/-- The header passes the checks. -/
def Accepts (header : List Byte) : Prop :=
  (header.length ≥ 64 ∧ header.take 8 = chdMagic) ∧ beUint32 (header.drop 12) = 5 ∧
    hunkBytes header ≠ 0

instance (header : List Byte) : Decidable (Accepts header) :=
  inferInstanceAs (Decidable (_ ∧ _))

/-- The number of hunks of the image. -/
def hunkCount (header : List Byte) : ℕ :=
  ((logicalBytes header).toNat + (hunkBytes header).toNat - 1) / (hunkBytes header).toNat

/-- The number of frames in a hunk. -/
def frameCount (header : List Byte) : ℕ := (hunkBytes header).toNat / cdFrameSize

section Sizes

variable {header : List Byte}

section Fields

variable (header : List Byte) (stat : ℤ → CompressedInfo)

/-- `Open` and `GetStat` compute the same size. -/
theorem statSize_eq : statSize header = (fields header stat).size := by
  simp only [statSize, fields]
  split_ifs <;> rfl

theorem stat_fields : (fields header stat).stat = stat (fields header stat).size := by
  simp only [fields]
  split_ifs <;> rfl

theorem isCDFormat_fields :
    (fields header stat).isCDFormat =
      (isCD header && hunkBytes header % BitVec.ofNat 32 cdFrameSize = 0) := by
  simp only [fields]
  split_ifs <;> rfl

end Fields

/-- A size that does not overflow leaves room for the rounding up to hunks. -/
theorem logicalBytes_add_lt (hpos : 0 < (hunkBytes header).toNat)
    (hwhole : (hunkBytes header).toNat = frameCount header * cdFrameSize)
    (hfits : hunkCount header * (frameCount header * cdUserData) < 2 ^ 63) :
    (logicalBytes header).toNat + (hunkBytes header).toNat < 2 ^ 64 := by
  have hlt := (hunkBytes header).isLt
  -- the hunks cover the image
  have hcover : (logicalBytes header).toNat + (hunkBytes header).toNat - 1 <
      (hunkCount header + 1) * (hunkBytes header).toNat := by
    rw [← Nat.div_lt_iff_lt_mul hpos]
    exact Nat.lt_succ_self _
  have hframes : hunkCount header * (hunkBytes header).toNat =
      hunkCount header * frameCount header * cdFrameSize := by
    rw [Nat.mul_assoc, ← hwhole]
  rw [← Nat.mul_assoc] at hfits
  rw [Nat.succ_mul, hframes] at hcover
  simp only [cdFrameSize, cdUserData] at hfits hcover
  omega

theorem numBlocks_eq (hpos : 0 < (hunkBytes header).toNat)
    (hsum : (logicalBytes header).toNat + (hunkBytes header).toNat < 2 ^ 64)
    (hcount : hunkCount header < 2 ^ 63) :
    ((logicalBytes header + (hunkBytes header).setWidth 64 - 1) /
      (hunkBytes header).setWidth 64).toInt = hunkCount header := by
  have hhunk : ((hunkBytes header).setWidth 64).toNat = (hunkBytes header).toNat := by
    have hlt := (hunkBytes header).isLt
    rw [BitVec.toNat_setWidth, Nat.mod_eq_of_lt (by omega)]
  have hrounded : (logicalBytes header + (hunkBytes header).setWidth 64 - 1).toNat =
      (logicalBytes header).toNat + (hunkBytes header).toNat - 1 := by
    have hone : (1 : BitVec 64).toNat = 1 := rfl
    rw [BitVec.toNat_sub, BitVec.toNat_add, hhunk, Nat.mod_eq_of_lt hsum, hone]
    omega
  have hquot : ((logicalBytes header + (hunkBytes header).setWidth 64 - 1) /
      (hunkBytes header).setWidth 64).toNat = hunkCount header := by
    rw [BitVec.toNat_udiv, hrounded, hhunk, hunkCount]
  rw [BitVec.toInt_eq_toNat_of_lt (by omega), hquot]

/-- A header of the CD format whose size does not overflow has exact sizes. -/
theorem isDisc_fields {stat : ℤ → CompressedInfo} (hcd : (fields header stat).isCDFormat = true)
    (hnonzero : hunkBytes header ≠ 0)
    (hfits : hunkCount header * (frameCount header * cdUserData) < 2 ^ 63) :
    (fields header stat).IsDisc (frameCount header) (hunkCount header) := by
  have hformat : (isCD header && hunkBytes header % BitVec.ofNat 32 cdFrameSize = 0) = true := by
    rwa [isCDFormat_fields] at hcd
  have hpos : 0 < (hunkBytes header).toNat := by
    rw [Nat.pos_iff_ne_zero]
    exact fun h => hnonzero (BitVec.eq_of_toNat_eq h)
  have hsize : (BitVec.ofNat 32 cdFrameSize).toNat = cdFrameSize := by decide
  have hmod : (hunkBytes header).toNat % cdFrameSize = 0 := by
    rw [Bool.and_eq_true, decide_eq_true_eq] at hformat
    have htoNat := congrArg BitVec.toNat hformat.2
    rwa [BitVec.toNat_umod, hsize] at htoNat
  have hwhole : (hunkBytes header).toNat = frameCount header * cdFrameSize := by
    rw [frameCount, Nat.div_mul_cancel (Nat.dvd_of_mod_eq_zero hmod)]
  have hframes : 0 < frameCount header := by
    rw [hwhole] at hpos
    exact Nat.pos_of_mul_pos_right hpos
  have hdiv : (hunkBytes header / BitVec.ofNat 32 cdFrameSize).toNat = frameCount header := by
    rw [BitVec.toNat_udiv, hsize, frameCount]
  have hproduct : hunkCount header * frameCount header ≤
      hunkCount header * (frameCount header * cdUserData) :=
    Nat.mul_le_mul_left _ (Nat.le_mul_of_pos_right _ (by decide))
  have hcount : hunkCount header ≤ hunkCount header * frameCount header :=
    Nat.le_mul_of_pos_right _ hframes
  have hblocks := numBlocks_eq hpos (logicalBytes_add_lt hpos hwhole hfits) (by omega)
  have htotal : int64 (hunkCount header * frameCount header) =
      (hunkCount header * frameCount header : ℕ) := by
    rw [← Int.natCast_mul, int64_eq_self (by omega) (by omega)]
  have hbytes : int64 ((hunkCount header * frameCount header : ℕ) * cdUserData) =
      (hunkCount header * (frameCount header * cdUserData) : ℕ) := by
    rw [← Int.natCast_mul, Nat.mul_assoc, int64_eq_self (by omega) (by omega)]
  simp only [fields, if_pos hformat, hblocks, hdiv, htotal, hbytes]
  exact ⟨hformat, rfl, hframes, by rw [hwhole], rfl, rfl, rfl⟩

end Sizes

/-! ### Opening -/

section Opening

variable {os : OS η φ} {L : LibChdr η χ} {file header : List Byte} {At : φ → ℕ → η → Prop}
  {f f' : φ} {h h' : η} {path : Path} {c : Chd χ}

/-- The header of a file is read if it passes the checks. -/
theorem readChecked_run (hos : Holds os file At) (hf : At f 0 h) (hlength : 124 ≤ file.length)
    (haccepts : Accepts (file.take 124)) :
    ∃ f' h', readChecked os (f, h) = .ok (.ok (file.take 124), f', h') ∧ At f' 124 h' := by
  obtain ⟨f', h', hread, hf'⟩ := hos.readFull hf (show 0 + 124 ≤ file.length by omega)
  refine ⟨f', h', ?_, hf'⟩
  obtain ⟨hmagic, hversion, hnonzero⟩ := haccepts
  rw [readChecked, Program.bind_of_ok hread, List.drop_zero,
    Program.bind_of_ok (Program.check_run (by simpa using hmagic)),
    Program.bind_of_ok (Program.check_run (by simpa using hversion)),
    Program.bind_of_ok (Program.check_run (by simpa using hnonzero))]
  rfl

/-- What is read is the header of the file, which passes the checks. -/
theorem readChecked_eq_ok (hos : Holds os file At) (hf : At f 0 h)
    (hok : readChecked os (f, h) = .ok (.ok header, f', h')) :
    124 ≤ file.length ∧ header = file.take 124 ∧ Accepts header := by
  obtain ⟨b, ⟨f₁, h₁⟩, hread, hrest⟩ := Program.bind_eq_ok.mp hok
  rcases Nat.lt_or_ge file.length 124 with hshort | hlength
  · obtain ⟨err, f₂, h₂, pos₂, hfail, -⟩ :=
      hos.readFull_short hf (show 0 < 124 by omega) (by omega)
    cases hread.symm.trans hfail
  · obtain ⟨f₂, h₂, hread₂, -⟩ := hos.readFull hf (show 0 + 124 ≤ file.length by omega)
    cases hread.symm.trans hread₂
    obtain ⟨_, s₁, hmagic, hrest⟩ := Program.bind_eq_ok.mp hrest
    obtain ⟨_, s₂, hversion, hrest⟩ := Program.bind_eq_ok.mp hrest
    obtain ⟨_, s₃, hnonzero, hrest⟩ := Program.bind_eq_ok.mp hrest
    cases hrest
    exact ⟨hlength, rfl, by simpa using (Program.check_eq_ok hmagic).1,
      by simpa using (Program.check_eq_ok hversion).1,
      by simpa using (Program.check_eq_ok hnonzero).1⟩

/-- `GetStat` of a file whose header passes the checks. -/
theorem getStat_run (hos : Holds os file At)
    (hopen : os.openFile path oRDONLY h = (.ok f, h')) (hf : At f 0 h')
    (hlength : 124 ≤ file.length) (haccepts : Accepts (file.take 124)) :
    ∃ info, getStat os path h = some info ∧ info.size = statSize (file.take 124) := by
  obtain ⟨f₁, h₁, hread, hf₁⟩ := readChecked_run hos hf hlength haccepts
  obtain ⟨t, htime⟩ := hos.modTime hf₁
  refine ⟨⟨t, path.base, statSize (file.take 124)⟩, ?_, rfl⟩
  simp only [getStat, hopen]
  rw [Program.bind_of_ok hread, Program.bind_of_ok htime]
  rfl

/-- A file whose header passes the checks is opened if libchdr opens it. -/
theorem openImage_run {g : φ} {chd : χ} {h₁ h₂ h₃ : η} (hos : Holds os file At)
    (hopen : os.openFile path oRDONLY h = (.ok f, h₁)) (hchd : L.chdOpen path h₁ = (some chd, h₂))
    (hagain : os.openFile path oRDONLY h₂ = (.ok g, h₃)) (hg : At g 0 h₃)
    (hlength : 124 ≤ file.length) (haccepts : Accepts (file.take 124)) :
    ∃ c h', openImage os L path h = .ok (.ok c, h') := by
  obtain ⟨g₁, h₄, hread, hg₁⟩ := readChecked_run hos hg hlength haccepts
  obtain ⟨t, htime⟩ := hos.modTime hg₁
  have hparse : parseHeader os path (g, h₃) =
      .ok (.ok (fields (file.take 124) fun size => ⟨t, path.base, size⟩), g₁, h₄) := by
    rw [parseHeader, Program.bind_of_ok hread, Program.bind_of_ok htime]
    rfl
  simp only [openImage, hopen, hchd, hagain, hparse]
  exact ⟨_, _, rfl⟩

/-- What `Open` goes through when it succeeds. -/
theorem openImage_eq_ok (hok : openImage os L path h = .ok (.ok c, h')) :
    ∃ f h₁ chd h₂ g h₃ g' h₄, os.openFile path oRDONLY h = (.ok f, h₁) ∧
      L.chdOpen path h₁ = (some chd, h₂) ∧ os.openFile path oRDONLY h₂ = (.ok g, h₃) ∧
      parseHeader os path (g, h₃) = .ok (.ok c.toChdHeader, g', h₄) ∧
      c.hunkBuf.length = c.hunkSize.toNat := by
  unfold openImage at hok
  split at hok
  · cases hok
  · rename_i f h₁ hopen
    split at hok
    · cases hok
    · rename_i chd h₂ hchd
      split at hok
      · cases hok
      · rename_i g h₃ hagain
        obtain ⟨⟨r, g', h₄⟩, hparse, hrest⟩ := Fallible.bind_eq_ok.mp hok
        cases r with
        | error err => cases hrest
        | ok header =>
          cases hrest
          exact ⟨f, h₁, chd, h₂, g, h₃, g', h₄, hopen, hchd, hagain, hparse, by simp⟩

/-- The path names a file while `Present` holds of the host: whoever opens it has the file at
its start, and neither that nor libchdr's opening of it takes the file away. -/
structure Stored (os : OS η φ) (L : LibChdr η χ) (path : Path) (At : φ → ℕ → η → Prop)
    (Present : η → Prop) : Prop where
  /-- `os.Open`. -/
  openFile : ∀ h f h', Present h → os.openFile path oRDONLY h = (.ok f, h') → At f 0 h' ∧ Present h'
  /-- `chd_open`. -/
  chdOpen : ∀ h chd h', Present h → L.chdOpen path h = (chd, h') → Present h'

/-- The sizes that are reported: by the decoder, by its `Stat` and by `GetStat` at any time. -/
def ReportsSize (os : OS η φ) (path : Path) (Present : η → Prop) (c : Chd χ) : Prop :=
  c.size = c.numBlocks * c.framesPerHunk * cdUserData ∧ c.stat.size = c.size ∧
    ∀ h f h', Present h → os.openFile path oRDONLY h = (.ok f, h') →
      ∃ info, getStat os path h = some info ∧ info.size = c.size

variable {Present : η → Prop}

/-- An accepted header is the one in the file. -/
theorem openImage_header (hos : Holds os file At) (hstored : Stored os L path At Present)
    (hpresent : Present h) (hok : openImage os L path h = .ok (.ok c, h')) :
    124 ≤ file.length ∧ Accepts (file.take 124) ∧
      (∃ t, c.toChdHeader = fields (file.take 124) fun size => ⟨t, path.base, size⟩) ∧
      c.hunkBuf.length = c.hunkSize.toNat := by
  obtain ⟨f, h₁, chd, h₂, g, h₃, g', h₄, hopen, hchd, hagain, hparse, hbuf⟩ := openImage_eq_ok hok
  have hpresent₁ := (hstored.openFile h f h₁ hpresent hopen).2
  have hpresent₂ := hstored.chdOpen h₁ _ h₂ hpresent₁ hchd
  have hg := (hstored.openFile h₂ g h₃ hpresent₂ hagain).1
  obtain ⟨header, ⟨g₁, h₅⟩, hread, hrest⟩ := Program.bind_eq_ok.mp hparse
  obtain ⟨hlength, rfl, haccepts⟩ := readChecked_eq_ok hos hg hread
  obtain ⟨t, s, htime, hrest⟩ := Program.bind_eq_ok.mp hrest
  have hheader := congrArg Prod.fst (Except.ok.inj hrest)
  exact ⟨hlength, haccepts, ⟨t, (Except.ok.inj hheader).symm⟩, hbuf⟩

/-- An image of the CD format whose size does not overflow is, byte for byte and through a
cache of any size, the user data of its frames one after the other, and all report its size;
but only as far as its hunks have numbers of 32 bits, or look the same as those that have. -/
theorem cd_image_is_flat_iff {hunks : ℕ → List Byte} {Ready : χ → η → Prop}
    (hos : Holds os file At) (hstored : Stored os L path At Present) (hpresent : Present h)
    (hok : openImage os L path h = .ok (.ok c, h')) (hcd : c.isCDFormat = true)
    (hfits : hunkCount (file.take 124) * (frameCount (file.take 124) * cdUserData) < 2 ^ 63)
    (hL : L.Serves hunks (hunkBytes (file.take 124)).toNat (hunkCount (file.take 124)) Ready)
    (hready : Ready c.chd h') :
    (ReadsFlat (reader L) c h'
        (hunkCount (file.take 124) * (frameCount (file.take 124) * cdUserData))
        (flatByte hunks (frameCount (file.take 124))) ∧
      ReportsSize os path Present c ∧
      c.numBlocks = hunkCount (file.take 124) ∧ c.framesPerHunk = frameCount (file.take 124)) ↔
    Aliased hunks (frameCount (file.take 124)) (hunkCount (file.take 124)) := by
  obtain ⟨hlength, haccepts, ⟨t, hheader⟩, hbuf⟩ := openImage_header hos hstored hpresent hok
  have hdisc : c.toChdHeader.IsDisc (frameCount (file.take 124)) (hunkCount (file.take 124)) := by
    rw [hheader] at hcd ⊢
    exact isDisc_fields hcd haccepts.2.2 hfits
  have hhunk : (hunkBytes (file.take 124)).toNat = frameCount (file.take 124) * cdFrameSize := by
    have hsize : c.hunkSize = (hunkBytes (file.take 124)).toNat := by
      rw [hheader, fields]
      simp only
      split_ifs <;> rfl
    have hframes := hdisc.hunkSize
    omega
  have hc : OnDisc (frameCount (file.take 124)) (hunkCount (file.take 124)) Ready c h' :=
    ⟨hdisc, by rw [hbuf, hdisc.hunkSize, Int.toNat_natCast], hready⟩
  rw [hhunk] at hL
  have hreports : ReportsSize os path Present c := by
    refine ⟨?_, ?_, ?_⟩
    · rw [hdisc.size, hdisc.numBlocks, hdisc.framesPerHunk, ← Nat.mul_assoc]
      simp only [Int.natCast_mul]
    · rw [hheader, stat_fields]
    · intro h₂ f h₃ hpresent₂ hopen
      obtain ⟨info, hstat, hsize⟩ :=
        getStat_run hos hopen (hstored.openFile h₂ f h₃ hpresent₂ hopen).1 hlength haccepts
      exact ⟨info, hstat, by rw [hsize, hheader, statSize_eq]⟩
  rw [← readsFlat_iff hL hc]
  exact ⟨fun h => h.1, fun hreads => ⟨hreads, hreports, hdisc.numBlocks, hdisc.framesPerHunk⟩⟩

end Opening

/-! ### Two discs -/

/-- The header of a disc with a frame in every hunk and this field `logicalBytes`. -/
def frameHeader (logicalBytes : List Byte) : List Byte :=
  chdMagic ++ List.replicate 4 0 ++ [0, 0, 0, 5] ++ List.replicate 16 0 ++ logicalBytes ++
    List.replicate 16 0 ++ [0, 0, 0x09, 0x90] ++ [0, 0, 0x09, 0x90] ++ List.replicate 60 0

/-- Hunks of one frame: the first of zeros, the others of ones. -/
def labelled (i : ℕ) : List Byte := List.replicate cdFrameSize (if i = 0 then 0 else 1)

theorem userByte_labelled (i : ℕ) :
    userByte (frameOf (labelled i) 0) 0 = if i = 0 then 0 else 1 := by
  have hframe : frameOf (labelled i) 0 = labelled i := by
    rw [frameOf, labelled, Nat.zero_mul, List.drop_zero, List.take_of_length_le]
    rw [List.length_replicate]
  have hin : userDataOffset (labelled i) + 0 < cdFrameSize :=
    Nat.lt_of_le_of_lt (userDataOffset_le _) (by decide)
  rw [hframe, userByte, List.getD_eq_getElem?_getD]
  rw [labelled] at hin ⊢
  rw [List.getElem?_replicate, if_pos hin]
  rfl

/-- libchdr with these hunks. -/
def ofHunks (hunks : ℕ → List Byte) : LibChdr Host Unit where
  chdOpen _ h := (some (), h)
  chdRead _ hunknum h := ((hunks hunknum.toNat, true), (), h)
  chdClose _ h := h

theorem serves_labelled (count : ℕ) :
    (ofHunks labelled).Serves labelled cdFrameSize count (fun _ _ => True) where
  length i := by rw [labelled, List.length_replicate]
  read chd h hunknum _ _ := ⟨(), h, rfl, trivial⟩

theorem stored_ofFile (hunks : ℕ → List Byte) (file : List Byte) :
    Stored Host.os (ofHunks hunks) (Path.ascii ['/', 'a'])
      (fun f pos h => f.ino = some 0 ∧ f.readable = true ∧ f.pos = pos ∧ h.contents 0 = file)
      (· = Host.ofFile file) where
  openFile h f h' hpresent hopen := by
    subst hpresent
    cases hopen
    exact ⟨⟨rfl, rfl, rfl, rfl⟩, rfl⟩
  chdOpen h chd h' hpresent hopen := by
    cases hopen
    exact hpresent

theorem openImage_ofFile {file : List Byte} (hlength : 124 ≤ file.length)
    (haccepts : Accepts (file.take 124)) (hunks : ℕ → List Byte) :
    ∃ c h', openImage Host.os (ofHunks hunks) (Path.ascii ['/', 'a']) (.ofFile file) =
      .ok (.ok c, h') :=
  openImage_run (Host.holds 0 file) rfl rfl rfl ⟨rfl, rfl, rfl, rfl⟩ hlength haccepts

/-- The header of two hunks. -/
def twoHunks : List Byte := frameHeader [0, 0, 0, 0, 0, 0, 0x13, 0x20]

/-- A disc of two hunks, of which the first has zeros and the second ones, is read as it is
in the frames. -/
theorem cd_image_is_flat_of_two_hunks :
    ∃ c h', openImage Host.os (ofHunks labelled) (Path.ascii ['/', 'a']) (.ofFile twoHunks) =
        .ok (.ok c, h') ∧
      ReadsFlat (reader (ofHunks labelled)) c h' 4096 (flatByte labelled 1) ∧
      ReportsSize Host.os (Path.ascii ['/', 'a']) (· = Host.ofFile twoHunks) c := by
  have hcount : hunkCount (twoHunks.take 124) = 2 := by decide
  have hframes : frameCount (twoHunks.take 124) = 1 := by decide
  have hhunk : (hunkBytes (twoHunks.take 124)).toNat = cdFrameSize := by decide
  have hlength : 124 ≤ twoHunks.length := by decide +kernel
  have haccepts : Accepts (twoHunks.take 124) := by decide +kernel
  obtain ⟨c, h', hok⟩ := openImage_ofFile hlength haccepts labelled
  obtain ⟨-, -, ⟨t, hheader⟩, -⟩ :=
    openImage_header (Host.holds 0 twoHunks) (stored_ofFile labelled twoHunks) rfl hok
  have hcd : c.isCDFormat = true := by
    rw [hheader, isCDFormat_fields]
    decide
  obtain ⟨hreads, hreports, -⟩ := (cd_image_is_flat_iff (Host.holds 0 twoHunks)
    (stored_ofFile labelled twoHunks) rfl hok hcd (by rw [hcount, hframes]; decide)
    (by rw [hhunk]; exact serves_labelled _) trivial).mpr (fun i hlo hhi => by omega)
  rw [hcount, hframes] at hreads
  exact ⟨c, h', hok, hreads, hreports⟩

/-- The header of `2 ^ 32 + 1` hunks. -/
def manyHunks : List Byte := frameHeader [0, 0, 0x09, 0x90, 0, 0, 0x09, 0x90]

/-- A disc of `2 ^ 32 + 1` hunks is opened and no size overflows. The last hunk has ones, but
its first byte is read as zero, from the first hunk. -/
theorem cd_image_of_many_hunks_is_not_flat :
    ∃ c h', openImage Host.os (ofHunks labelled) (Path.ascii ['/', 'a']) (.ofFile manyHunks) =
        .ok (.ok c, h') ∧
      c.isCDFormat = true ∧ c.size = ((2 ^ 32 + 1) * 2048 : ℕ) ∧
      (∃ answers c' h'', (newCachedReader (reader (ofHunks labelled)) c 32 .zero).calls
          (reader (ofHunks labelled)) h' [.seek (2 ^ 43 : ℕ) 0, .read 1] =
        .ok (answers ++ [.seek (2 ^ 43 : ℕ) none, .read [0] none], c', h'')) ∧
      flatByte labelled 1 (2 ^ 43) = 1 := by
  have hcount : hunkCount (manyHunks.take 124) = 2 ^ 32 + 1 := by decide
  have hframes : frameCount (manyHunks.take 124) = 1 := by decide
  have hlength : 124 ≤ manyHunks.length := by decide +kernel
  have haccepts : Accepts (manyHunks.take 124) := by decide +kernel
  obtain ⟨c, h', hok⟩ := openImage_ofFile hlength haccepts labelled
  obtain ⟨-, -, ⟨t, hheader⟩, hbuf⟩ :=
    openImage_header (Host.holds 0 manyHunks) (stored_ofFile labelled manyHunks) rfl hok
  have hcd : c.isCDFormat = true := by
    rw [hheader, isCDFormat_fields]
    decide
  have hdisc : c.toChdHeader.IsDisc 1 (2 ^ 32 + 1) := by
    rw [hheader] at hcd ⊢
    have hdisc := isDisc_fields hcd haccepts.2.2 (by rw [hcount, hframes]; decide)
    rwa [hcount, hframes] at hdisc
  have hc : OnDisc 1 (2 ^ 32 + 1) (fun _ _ => True) c h' :=
    ⟨hdisc, by rw [hbuf, hdisc.hunkSize, Int.toNat_natCast], trivial⟩
  obtain ⟨answers, c', h'', hcalls⟩ :=
    readsFlat_numbered (serves_labelled (2 ^ 32 + 1)) hc 32 .zero [] (2 ^ 43) 1 (by decide)
  have hfirst (hunks : ℕ → List Byte) :
      flatByte hunks 1 (2 ^ 43) = userByte (frameOf (hunks (2 ^ 32)) 0) 0 := by
    have hplace : 2 ^ 43 = 2 ^ 32 * (1 * cdUserData) + 0 := by decide
    rw [hplace, flatByte_hunk (show 0 < 1 * cdUserData by decide), Nat.zero_div, Nat.zero_mod]
  have hread : flatByte (numbered labelled) 1 (2 ^ 43) = 0 := by
    rw [hfirst, numbered, Nat.mod_self, userByte_labelled]
    rfl
  have hbytes : ((List.range (min 1 ((2 ^ 32 + 1) * (1 * cdUserData) - 2 ^ 43))).map
      fun j => flatByte (numbered labelled) 1 (2 ^ 43 + j)) = [0] := by
    have hone : min 1 ((2 ^ 32 + 1) * (1 * cdUserData) - 2 ^ 43) = 1 := by decide
    rw [hone, List.range_one, List.map_singleton, Nat.add_zero, hread]
  rw [hbytes] at hcalls
  refine ⟨c, h', hok, hcd, ?_, ⟨answers, c', h'', hcalls⟩, ?_⟩
  · rw [hdisc.size, Nat.one_mul, cdUserData]
  · rw [hfirst, userByte_labelled]
    rfl

end Chd

end Udpfsd.Fs
