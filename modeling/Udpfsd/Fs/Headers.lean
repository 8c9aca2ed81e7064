import Udpfsd.Fs.Cso
import Udpfsd.Fs.Zso

/-!
# The headers of container files

A CSO or ZSO header gives the size of the image in 64 bits and the size of a block in 32 bits.
`parseHeader` takes the first for a signed number, rounds up to blocks and makes room for the
index before it reads it. Which headers go through this without an overflow, and which make it
ask for memory that the file does not fill, depends on the two fields and on the size of the
file alone. To tell what is asked for, `make` is a parameter here: as the decoders use it only
a negative length is refused, and a stricter one does not hand out more bytes than the file has
for the index. The buffer for the header itself, of 24 bytes, is not counted.
-/

namespace Udpfsd.Fs

open Udprdma (Byte uint32 putUint32 uint32_drop_take)
open Udpfs (Error Fault Time oRDONLY)
open FileProgram

variable {η φ α ρ : Type}

/-! ### Memory -/

namespace FileProgram

/-- `make` that does not hand out more than a number of bytes. -/
def makeWithin (bytes : ℕ) : Make η φ := fun width n =>
  if n < 0 ∨ (bytes : ℤ) < n * width then Program.fault .negativeLength else pure n.toNat

/-- It hands out as many. -/
theorem grants_makeWithin (bytes : ℕ) : Grants (makeWithin bytes : Make η φ) bytes := by
  intro width n s hle
  have hcast : ((n * width : ℕ) : ℤ) ≤ bytes := Int.ofNat_le.mpr hle
  rw [Nat.cast_mul] at hcast
  rw [makeWithin, if_neg (by omega)]
  rfl

end FileProgram

/-- Where the end of `parseHeader` is not refused memory, no more was asked for. -/
theorem Holds.of_finishHeader_makeWithin {os : OS η φ} {file : List Byte} {At : φ → ℕ → η → Prop}
    {f : φ} {pos : ℕ} {h : η} (hos : Holds os file At) (hf : At f pos h) {layout : Layout α}
    {name : Path} {b : List Byte} {size blockSize : ℤ} {position bytes : ℕ}
    (hlayout : layout.position b = position) (hposition : position < 2 ^ 32)
    {r : Except Error α × φ × η}
    (hrun : FileProgram.finishHeader os (makeWithin bytes) layout name b size blockSize (f, h) =
      .ok r) :
    int64 (entriesOf (layout.ended b) (blockCount size blockSize) * 4) ≤ bytes := by
  obtain ⟨f₁, h₁, hseek, hf₁⟩ := hos.seekStart hf position (.inr hposition)
  by_contra hless
  have hfault : FileProgram.finishHeader os (makeWithin bytes) layout name b size blockSize
      (f, h) = .error .negativeLength := by
    rw [FileProgram.finishHeader, hlayout]
    apply Program.bind_of_fault
    rw [FileProgram.readIndex, Program.bind_of_ok hseek]
    apply Program.bind_of_fault
    rw [makeWithin, if_pos (by omega)]
    rfl
  cases hfault.symm.trans hrun

/-! ### Arithmetic -/

/-- Nothing wraps in what `parseHeader` computes from the two sizes: the conversion of the size
of the image, and unless there is an error because of the block size the sum that is rounded,
the number of entries and their number of bytes. -/
structure Exact (ended : Bool) (size : BitVec 64) (blockSize : BitVec 32) : Prop where
  /-- The conversion. -/
  signed : size.toInt = size.toNat
  /-- The sum. -/
  sum : blockSize ≠ 0 → int64 (size.toInt + blockSize.toNat) = size.toInt + blockSize.toNat
  /-- The number of entries. -/
  next : blockSize ≠ 0 → int64 (blockCount size.toInt blockSize.toNat + 1) =
    blockCount size.toInt blockSize.toNat + 1
  /-- The number of bytes. -/
  bytes : blockSize ≠ 0 → int64 (entriesOf ended (blockCount size.toInt blockSize.toNat) * 4) =
    entriesOf ended (blockCount size.toInt blockSize.toNat) * 4

/-- The number of blocks, rounded up. -/
def blocksOf (size : BitVec 64) (blockSize : BitVec 32) : ℕ :=
  (size.toNat + blockSize.toNat - 1) / blockSize.toNat

/-- The sizes are small enough, and there is room for the index. -/
def Fits (ended : Bool) (size : BitVec 64) (blockSize : BitVec 32) (room : ℕ) : Prop :=
  size.toNat < 2 ^ 63 ∧ (blockSize ≠ 0 → size.toNat + blockSize.toNat < 2 ^ 63 ∧
    4 * (blocksOf size blockSize + if ended then 1 else 0) ≤ room)

section Arithmetic

variable {ended : Bool} {size : BitVec 64} {blockSize : BitVec 32} {room : ℕ}

/-- The sizes that the conversion keeps. -/
theorem toInt_eq_toNat_iff : size.toInt = size.toNat ↔ size.toNat < 2 ^ 63 := by
  have hlt := size.isLt
  rw [BitVec.toInt_eq_toNat_cond]
  split_ifs <;> omega

/-- The number of blocks that is computed is the right one. -/
theorem blockCount_eq_blocksOf (hsize : size.toInt = size.toNat) (hblock : blockSize ≠ 0)
    (hsum : size.toNat + blockSize.toNat < 2 ^ 63) :
    blockCount size.toInt blockSize.toNat = blocksOf size blockSize := by
  have hpos := toNat_pos hblock
  have hcast : (size.toNat : ℤ) + blockSize.toNat - 1 =
      (size.toNat + blockSize.toNat - 1 : ℕ) := by omega
  rw [blockCount, hsize, int64_eq_self (by omega) (by omega), hcast, blocksOf, Int.ofNat_tdiv]

/-- Rounding up. -/
theorem le_blocksOf_mul (size : BitVec 64) (hblock : blockSize ≠ 0) :
    size.toNat ≤ blocksOf size blockSize * blockSize.toNat ∧
      blocksOf size blockSize * blockSize.toNat < size.toNat + blockSize.toNat := by
  have hpos := toNat_pos hblock
  have hmod := Nat.mod_lt (size.toNat + blockSize.toNat - 1) hpos
  have hdiv := Nat.div_add_mod' (size.toNat + blockSize.toNat - 1) blockSize.toNat
  rw [blocksOf]
  omega

/-- So is the number of entries. -/
theorem entriesOf_blocksOf (hroom : 4 * (blocksOf size blockSize + if ended then 1 else 0) ≤ room)
    (hlt : room < 2 ^ 63) :
    entriesOf ended (blocksOf size blockSize) =
      (blocksOf size blockSize + if ended then 1 else 0 : ℕ) := by
  cases ended with
  | false => rfl
  | true =>
    rw [if_pos rfl] at hroom
    rw [entriesOf, if_pos rfl, int64_eq_self (by omega) (by omega)]
    rfl

/-- Sizes that fit are computed with exactly. -/
theorem Fits.exact (hfits : Fits ended size blockSize room) (hroom : room < 2 ^ 63) :
    Exact ended size blockSize := by
  obtain ⟨hsize, hindex⟩ := hfits
  rw [← toInt_eq_toNat_iff] at hsize
  refine ⟨hsize, fun hblock => ?_, fun hblock => ?_, fun hblock => ?_⟩
  all_goals
    obtain ⟨hsum, hle⟩ := hindex hblock
  · rw [hsize, int64_eq_self (by omega) (by omega)]
  · rw [blockCount_eq_blocksOf hsize hblock hsum, int64_eq_self (by omega) (by omega)]
  · rw [blockCount_eq_blocksOf hsize hblock hsum, entriesOf_blocksOf hle (by omega),
      int64_eq_self (by omega) (by omega)]

/-- Exact sizes fit when there is room for what is asked for. -/
theorem Exact.fits (hexact : Exact ended size blockSize)
    (hroom : blockSize ≠ 0 →
      int64 (entriesOf ended (blockCount size.toInt blockSize.toNat) * 4) ≤ room) :
    Fits ended size blockSize room := by
  refine ⟨toInt_eq_toNat_iff.mp hexact.signed, fun hblock => ?_⟩
  have hsum : size.toNat + blockSize.toNat < 2 ^ 63 := by
    have hwrap := hexact.sum hblock
    rw [hexact.signed] at hwrap
    simp only [int64, Int.bmod] at hwrap
    omega
  refine ⟨hsum, ?_⟩
  have hle := hroom hblock
  have hnext := hexact.next hblock
  rw [hexact.bytes hblock] at hle
  rw [blockCount_eq_blocksOf hexact.signed hblock hsum] at hle hnext
  cases ended with
  | false =>
    rw [entriesOf, if_neg (by simp)] at hle
    rw [if_neg (by simp)]
    omega
  | true =>
    rw [entriesOf, if_pos rfl, hnext] at hle
    rw [if_pos rfl]
    omega

end Arithmetic

/-! ### What is accepted -/

/-- What the decoders rely on: there are blocks of some size, their number is that of the image
rounded up, and the entries of the index are words of the file. -/
structure SoundIndex (file : List Byte) (position entries : ℕ) (size blockSize numBlocks : ℤ)
    (offsets : List (BitVec 32)) : Prop where
  /-- The size of a block. -/
  blockSize_pos : 0 < blockSize
  /-- The size of the image. -/
  size_nonneg : 0 ≤ size
  /-- The number of blocks. -/
  numBlocks_eq : size ≤ numBlocks * blockSize ∧ numBlocks * blockSize < size + blockSize
  /-- The index. -/
  offsets_eq : ∀ i < entries, position + 4 * i + 4 ≤ file.length ∧
    offsets[i]? = some (uint32 (file.drop (position + 4 * i)))

/-- Such an index is read from a file that has the room. -/
theorem soundIndex_indexAt (file : List Byte) (position n : ℕ) {size : BitVec 64}
    {blockSize : BitVec 32} (hsize : size.toInt = size.toNat) (hblock : blockSize ≠ 0)
    (hn : 4 * n ≤ file.length - position) :
    SoundIndex file position n size.toInt blockSize.toNat (blocksOf size blockSize)
      (indexAt file position n) := by
  have hpos := toNat_pos hblock
  obtain ⟨hle, hlt⟩ := le_blocksOf_mul size hblock
  refine ⟨by omega, by omega, ⟨?_, ?_⟩, fun i hi => ⟨by omega, ?_⟩⟩
  · rw [hsize]
    exact_mod_cast hle
  · rw [hsize]
    exact_mod_cast hlt
  · rw [indexAt, List.getElem?_map, List.getElem?_range hi]
    rfl

section Opening

variable {os : OS η φ} {file : List Byte} {At : φ → ℕ → η → Prop} {f : φ} {pos : ℕ} {path : Path}
  {h h₀ : η} {layout : Layout α} {position : ℕ} (wrap : φ × α → ρ)

/-- A file whose header does not parse is closed again. -/
theorem openImage_of_error {make : Make η φ} {err : Error} {f' : φ} {h' : η}
    (hopen : os.openFile path oRDONLY h = (.ok f, h₀))
    (hrun : parseHeader os make layout path (f, h₀) = .ok (.error err, f', h')) :
    openImage os make layout wrap path h = .ok (.error err, os.close f' h') := by
  rw [openImage, openWith, hopen]
  change ((parseHeader os make layout path (f, h₀) >>= _) >>= _) = _
  rw [hrun]
  rfl

/-- The header, if there is one, is looked at. -/
def Looked (layout : Layout α) (file : List Byte) : Prop :=
  24 ≤ file.length ∧ layout.known (file.take 24) = true

/-- A file is opened soundly if and only if its sizes fit: limiting the memory to the part of the
file behind the header makes no difference, and what is accepted is sound. -/
theorem Holds.opensSoundly_iff (hos : Holds os file At) (hfile : file.length < 2 ^ 63)
    (hopen : os.openFile path oRDONLY h = (.ok f, h₀)) (hf : At f pos h₀)
    (hposition : layout.position (file.take 24) = position) (hlt : position < 2 ^ 32)
    (sound : ρ → Prop)
    (hsound : ∀ f stat offsets blockSize numBlocks size,
      SoundIndex file position
        (numBlocks.toNat + if layout.ended (file.take 24) then 1 else 0) size blockSize numBlocks
        offsets →
      sound (wrap (f, layout.header (file.take 24) stat offsets blockSize numBlocks size))) :
    ((Looked layout file →
        Exact (layout.ended (file.take 24)) (sizeField file) (blockSizeField file)) ∧
      ∃ r h', openImage os (makeWithin (file.length - position)) layout wrap path h =
          .ok (r, h') ∧
        openImage os makeAny layout wrap path h = .ok (r, h') ∧ ∀ c, r = .ok c → sound c) ↔
      (Looked layout file → Fits (layout.ended (file.take 24)) (sizeField file)
        (blockSizeField file) (file.length - position)) := by
  constructor
  · rintro ⟨hexact, r, h', hwithin, -⟩ hlooked
    refine (hexact hlooked).fits fun hblock => ?_
    obtain ⟨f', h', hf', hparse⟩ := hos.parseHeader_eq hf path hlooked.1 hlooked.2 hblock
    obtain ⟨y, hrun, -⟩ := Fallible.bind_eq_ok.mp hwithin
    rw [openWith, hopen] at hrun
    obtain ⟨x, hrun, -⟩ := Fallible.bind_eq_ok.mp hrun
    rw [hparse] at hrun
    exact hos.of_finishHeader_makeWithin hf' hposition hlt hrun
  · intro hsized
    refine ⟨fun hlooked => (hsized hlooked).exact (by omega), ?_⟩
    by_cases hrefused : 24 ≤ file.length → layout.known (file.take 24) = true →
        blockSizeField file = 0
    · obtain ⟨err, ⟨f', h'⟩, hparse⟩ := hos.parseHeader_refused hf path hrefused
      exact ⟨_, _, openImage_of_error wrap hopen (hparse _),
        openImage_of_error wrap hopen (hparse _), fun c hc => by cases hc⟩
    · simp only [Classical.not_imp] at hrefused
      obtain ⟨hlength, hknown, hblock⟩ := hrefused
      obtain ⟨hsize, hindex⟩ := hsized ⟨hlength, hknown⟩
      obtain ⟨hsum, hle⟩ := hindex hblock
      rw [← toInt_eq_toNat_iff] at hsize
      have hcount := blockCount_eq_blocksOf hsize hblock hsum
      obtain ⟨f₁, h₁, hf₁, hparse⟩ := hos.parseHeader_eq hf path hlength hknown hblock
      obtain ⟨t, f', h', -, -, hfinish⟩ := hos.finishHeader hfile hf₁ path hposition (.inr hlt)
        (by rw [hcount, entriesOf_blocksOf hle (by omega)]) hle
      have hrun (make : Make η φ) (hmake : Grants make (file.length - position)) :=
        (hparse make).trans (hfinish make hmake)
      refine ⟨_, _, (openImage_eq_ok hopen).mpr ⟨f', _, hrun _ (grants_makeWithin _), rfl⟩,
        (openImage_eq_ok hopen).mpr ⟨f', _, hrun _ (grants_makeAny _), rfl⟩, fun c hc => ?_⟩
      cases hc
      apply hsound
      rw [hcount, Int.toNat_natCast]
      exact soundIndex_indexAt file _ _ hsize hblock hle

end Opening

namespace Cso

variable (os : OS η φ)

/-- The file is opened soundly: when the header is looked at nothing wraps in the arithmetic,
limiting the memory to the part of the file behind the header makes no difference, and a header
that is accepted has a sound index. -/
def OpensSoundly (file : List Byte) (path : Path) (h : η) : Prop :=
  (24 ≤ file.length → file.take 4 = csoMagic →
    Exact true (sizeField file) (blockSizeField file)) ∧
  ∃ r h', openImageWith os (makeWithin (file.length - 24)) path h = .ok (r, h') ∧
    openImage os path h = .ok (r, h') ∧
    ∀ c, r = .ok c → SoundIndex file 24 (c.numBlocks.toNat + 1) c.size c.blockSize c.numBlocks
      c.offsets

/-- The sizes in the header of the file, if there is one, fit. -/
def WellSized (file : List Byte) : Prop :=
  24 ≤ file.length → file.take 4 = csoMagic →
    Fits true (sizeField file) (blockSizeField file) (file.length - 24)

variable {os} {file : List Byte} {At : φ → ℕ → η → Prop} {f : φ} {pos : ℕ} {h : η}

/-- A CSO file is opened soundly if and only if its sizes fit. -/
theorem opensSoundly_iff (hos : Holds os file At) (hfile : file.length < 2 ^ 63) {path : Path}
    {h₀ : η} (hopen : os.openFile path oRDONLY h = (.ok f, h₀)) (hf : At f pos h₀) :
    OpensSoundly os file path h ↔ WellSized file := by
  have hlooked : Looked layout file ↔ 24 ≤ file.length ∧ file.take 4 = csoMagic := by
    simp [Looked, layout, List.take_take]
  have hposition : layout.position (file.take 24) = (24 : ℕ) := rfl
  have hsound := hos.opensSoundly_iff (fun x => (⟨x.2, x.1⟩ : Cso φ)) hfile hopen hf hposition
    (by decide)
    (fun c => SoundIndex file 24 (c.numBlocks.toNat + 1) c.size c.blockSize c.numBlocks c.offsets)
    fun _ _ _ _ _ _ hindex => hindex
  simp only [hlooked, and_imp] at hsound
  exact hsound

end Cso

namespace Zso

variable (os : OS η φ)

/-- The field for the size of the header. -/
def headerSizeField (file : List Byte) : BitVec 32 := uint32 (file.drop 4)

/-- The magic number of a layout. -/
def magicOf (ziso : Bool) : List Byte := if ziso then zisoMagic else zsoMagic

/-- The file is opened soundly, in the same sense. The index is where the header says. -/
def OpensSoundly (file : List Byte) (path : Path) (h : η) : Prop :=
  (∀ ziso, 24 ≤ file.length → file.take 4 = magicOf ziso →
    Exact ziso (sizeField file) (blockSizeField file)) ∧
  ∃ r h', openImageWith os (makeWithin (file.length - (headerSizeField file).toNat)) path h =
      .ok (r, h') ∧
    openImage os path h = .ok (r, h') ∧
    ∀ c, r = .ok c → SoundIndex file (headerSizeField file).toNat
      (c.numBlocks.toNat + if c.ziso then 1 else 0) c.size c.blockSize c.numBlocks c.offsets

/-- The sizes in the header of the file, if there is one, fit. -/
def WellSized (file : List Byte) : Prop :=
  ∀ ziso, 24 ≤ file.length → file.take 4 = magicOf ziso →
    Fits ziso (sizeField file) (blockSizeField file)
      (file.length - (headerSizeField file).toNat)

variable {os} {file : List Byte} {At : φ → ℕ → η → Prop} {f : φ} {pos : ℕ} {h : η}

/-- A known magic number. -/
theorem looked_iff {Q : Bool → Prop} : (Looked layout file → Q (layout.ended (file.take 24))) ↔
    ∀ ziso, 24 ≤ file.length → file.take 4 = magicOf ziso → Q ziso := by
  have hended : layout.ended (file.take 24) = decide (file.take 4 = zisoMagic) := by
    simp [layout, List.take_take]
  have hknown : layout.known (file.take 24) = true ↔
      file.take 4 = zisoMagic ∨ file.take 4 = zsoMagic := by
    simp [layout, List.take_take]
  rw [Looked, hended, hknown]
  constructor
  · intro hlooked ziso hlength hmagic
    cases ziso with
    | true => simpa [hmagic, magicOf] using hlooked ⟨hlength, .inl hmagic⟩
    | false =>
      have hzso : zsoMagic ≠ zisoMagic := by decide
      simpa [hmagic, magicOf, hzso] using hlooked ⟨hlength, .inr hmagic⟩
  · rintro hmagic ⟨hlength, hziso | hzso⟩
    · rw [decide_eq_true hziso]
      exact hmagic true hlength hziso
    · have hne : file.take 4 ≠ zisoMagic := by
        rw [hzso]
        decide
      rw [decide_eq_false hne]
      exact hmagic false hlength hzso

/-- A ZSO or ZISO file is opened soundly if and only if its sizes fit. -/
theorem opensSoundly_iff (hos : Holds os file At) (hfile : file.length < 2 ^ 63) {path : Path}
    {h₀ : η} (hopen : os.openFile path oRDONLY h = (.ok f, h₀)) (hf : At f pos h₀) :
    OpensSoundly os file path h ↔ WellSized file := by
  have hposition : layout.position (file.take 24) = (headerSizeField file).toNat :=
    congrArg (fun w => (w.toNat : ℤ)) (uint32_drop_take (by decide) file)
  have hsound := hos.opensSoundly_iff (fun x => (⟨x.2, x.1⟩ : Zso φ)) hfile hopen hf hposition
    (headerSizeField file).isLt
    (fun z => SoundIndex file (headerSizeField file).toNat
      (z.numBlocks.toNat + if z.ziso then 1 else 0) z.size z.blockSize z.numBlocks z.offsets)
    fun _ _ _ _ _ _ hindex => hindex
  rw [looked_iff (Q := fun ziso => Exact ziso _ _), looked_iff (Q := fun ziso => Fits ziso _ _ _)]
    at hsound
  exact hsound

end Zso

/-- Both decoders open a file soundly, whatever its bytes are, if and only if the sizes in its
header fit. -/
theorem open_is_sound_iff {os : OS η φ} {file : List Byte} {At : φ → ℕ → η → Prop} {f : φ}
    {pos : ℕ} {h h₀ : η} {path : Path} (hos : Holds os file At) (hfile : file.length < 2 ^ 63)
    (hopen : os.openFile path oRDONLY h = (.ok f, h₀)) (hf : At f pos h₀) :
    (Cso.OpensSoundly os file path h ↔ Cso.WellSized file) ∧
      (Zso.OpensSoundly os file path h ↔ Zso.WellSized file) :=
  ⟨Cso.opensSoundly_iff hos hfile hopen hf, Zso.opensSoundly_iff hos hfile hopen hf⟩

/-- A CSO file and a ZISO file of five bytes. -/
theorem open_is_sound_of_two_blocks :
    Cso.OpensSoundly Host.os Cso.padded.file (Path.ascii ['/', 'a']) (.ofFile Cso.padded.file) ∧
      Zso.OpensSoundly Host.os Zso.zisoFile.file (Path.ascii ['/', 'a'])
        (.ofFile Zso.zisoFile.file) := by
  constructor
  · refine (open_is_sound_iff (Host.holds 0 Cso.padded.file) (by decide) rfl
      ⟨rfl, rfl, rfl, rfl⟩).1.mpr fun _ _ => ⟨by decide, fun _ => ⟨by decide, by decide⟩⟩
  · refine (open_is_sound_iff (Host.holds 0 Zso.zisoFile.file) (by decide) rfl
      ⟨rfl, rfl, rfl, rfl⟩).2.mpr fun ziso _ hmagic => ?_
    cases ziso with
    | false => exact absurd hmagic (by decide)
    | true => exact ⟨by decide, fun _ => ⟨by decide, by decide⟩⟩

/-- A header without an index. -/
def bareHeader (magic : List Byte) (size : BitVec 64) (blockSize : BitVec 32) : List Byte :=
  magic ++ putUint32 24 ++ putUint64 size ++ putUint32 blockSize ++ [1, 0, 0, 0]

/-- An image of `2 ^ 63 - 1` bytes in blocks of four bytes makes the server panic; one of `2 ^ 32`
bytes in blocks of one byte makes it ask for 16 gigabytes, and the file has 24 bytes; and one of
`2 ^ 64 - 1` bytes is accepted with the size `-1`. -/
theorem open_of_bare_header_is_unsound :
    Cso.openImage Host.os (Path.ascii ['/', 'a'])
        (.ofFile (bareHeader csoMagic 0x7FFFFFFFFFFFFFFF 4)) = .error .negativeLength ∧
      ¬ Cso.OpensSoundly Host.os (bareHeader csoMagic 0x7FFFFFFFFFFFFFFF 4)
        (Path.ascii ['/', 'a']) (.ofFile (bareHeader csoMagic 0x7FFFFFFFFFFFFFFF 4)) ∧
      ¬ Cso.OpensSoundly Host.os (bareHeader csoMagic 0x100000000 1)
        (Path.ascii ['/', 'a']) (.ofFile (bareHeader csoMagic 0x100000000 1)) ∧
      (∃ c h', Zso.openImage Host.os (Path.ascii ['/', 'a'])
        (.ofFile (bareHeader zsoMagic 0xFFFFFFFFFFFFFFFF 2)) = .ok (.ok c, h') ∧ c.size = -1) ∧
      ¬ Zso.OpensSoundly Host.os (bareHeader zsoMagic 0xFFFFFFFFFFFFFFFF 2)
        (Path.ascii ['/', 'a']) (.ofFile (bareHeader zsoMagic 0xFFFFFFFFFFFFFFFF 2)) := by
  refine ⟨rfl, ?_, ?_, ⟨_, _, rfl, rfl⟩, ?_⟩
  · rintro ⟨-, r, h', -, hok, -⟩
    cases hok
  · rintro ⟨-, r, h', hwithin, -⟩
    cases hwithin
  · rintro ⟨hexact, -⟩
    exact absurd (hexact false (by decide) (by decide)).signed (by decide)

end Udpfsd.Fs
