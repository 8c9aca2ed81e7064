import Mathlib.Tactic.IntervalCases
import Udpfsd.Fs.Headers

/-!
# Blocks of malformed container files

Nothing is known of the index of a file that was opened: its entries may decrease, be equal or
point out of the file. `ReadBlock` takes the difference of two of them for a length, makes a
buffer of it and fills it from the file, and what is decoded may be shorter than the block. As
for the headers, `make` is a parameter, so that a buffer can be refused that is larger than the
part of the file it is made for. Which blocks are read cleanly is then a matter of the region
that their entries give, and for LZ4 of the length of what is decoded.
-/

namespace Udpfsd.Fs

open Udprdma (Byte uint32 putUint32)
open Udpfs (Error Fault Time oRDONLY)
open FileProgram

variable {η φ α ρ : Type}

/-! ### Regions of a file -/

/-- The part of a file from an offset on up to another. -/
structure Region where
  /-- The first offset. -/
  start : ℤ
  /-- The offset behind the last. -/
  stop : ℤ

namespace Region

/-- The number of bytes that the file has there. -/
def length (file : List Byte) (region : Region) : ℕ :=
  if 0 ≤ region.start then (min region.stop file.length - region.start).toNat else 0

/-- There are no bytes, or the file has them all. -/
def InFile (file : List Byte) (region : Region) : Prop :=
  region.start = region.stop ∨
    (0 ≤ region.start ∧ region.start ≤ region.stop ∧ region.stop ≤ file.length)

/-- The bytes. -/
def bytes (file : List Byte) (region : Region) : List Byte :=
  (file.drop region.start.toNat).take (region.stop - region.start).toNat

variable {file : List Byte} {region : Region}

/-- A length that is computed from the two offsets, and is right when they are in order, is one
that the file has if and only if the region is in it. -/
theorem le_length_iff {size : ℤ} (hzero : size = 0 ↔ region.start = region.stop)
    (hexact : 0 ≤ region.start → region.start ≤ region.stop →
      size = region.stop - region.start) :
    (0 ≤ size ∧ size ≤ region.length file) ↔ region.InFile file := by
  unfold length InFile
  by_cases hstart : 0 ≤ region.start
  · rw [if_pos hstart]
    by_cases hle : region.start ≤ region.stop
    · have hsize := hexact hstart hle
      omega
    · omega
  · rw [if_neg hstart]
    omega

/-- The length is then the right one. -/
theorem InFile.size_eq {size : ℤ} (hregion : region.InFile file)
    (hzero : size = 0 ↔ region.start = region.stop)
    (hexact : 0 ≤ region.start → region.start ≤ region.stop →
      size = region.stop - region.start) : size = region.stop - region.start := by
  rcases hregion with heq | ⟨hstart, hle, -⟩
  · have hnone := hzero.mpr heq
    omega
  · exact hexact hstart hle

/-- As many bytes are there. -/
theorem InFile.length_take {size : ℤ} (hregion : region.InFile file)
    (hsize : size = region.stop - region.start) :
    (((file.drop region.start.toNat).take size.toNat).length : ℤ) = size := by
  unfold InFile at hregion
  rw [List.length_take, List.length_drop]
  omega

end Region

/-- A signed word. -/
theorem int64_bounds (x : ℤ) : -2 ^ 63 ≤ int64 x ∧ int64 x < 2 ^ 63 := by
  simp only [int64, Int.bmod]
  omega

/-- An offset is one. -/
theorem shifted_bounds (offset : BitVec 32) (align : Byte) :
    -2 ^ 63 ≤ shifted offset align ∧ shifted offset align < 2 ^ 63 :=
  int64_bounds _

/-- The difference of two signed words, as a signed word. -/
theorem int64_sub_eq {a b : ℤ} (ha : -2 ^ 63 ≤ a ∧ a < 2 ^ 63) (hb : -2 ^ 63 ≤ b ∧ b < 2 ^ 63) :
    (int64 (b - a) = 0 ↔ a = b) ∧ (0 ≤ a → a ≤ b → int64 (b - a) = b - a) := by
  simp only [int64, Int.bmod]
  omega

/-- `make` that does not hand out more bytes than the file has in the region. -/
def FileProgram.makeForFile (file : List Byte) (region : Region) (n : ℤ) : FileProgram η φ ℕ :=
  if n < 0 ∨ (region.length file : ℤ) < n then Program.fault .negativeLength else pure n.toNat

/-- Whether a seek is refused. -/
def RefusesSeek (os : OS η φ) (f : φ) (offset : ℤ) (h : η) : Prop :=
  (os.seek f offset 0 h).1.2 ≠ none

instance (os : OS η φ) (f : φ) (offset : ℤ) (h : η) : Decidable (RefusesSeek os f offset h) :=
  inferInstanceAs (Decidable (_ ≠ none))

/-- A negative length is a panic, once the offset is reached. -/
theorem fetch_of_neg {os : OS η φ} {f : φ} {h : η} {offset size : ℤ}
    (hseek : ¬ RefusesSeek os f offset h) (hsize : size < 0) :
    fetch os makeLen offset size (f, h) = .error .negativeLength := by
  have hnone : (os.seek f offset 0 h).1.2 = none := not_not.mp hseek
  have hrun : seekStart os offset (f, h) = .ok (.ok (), (os.seek f offset 0 h).2) := by
    simp only [seekStart, hnone]
  rw [fetch, Program.bind_of_ok hrun]
  apply Program.bind_of_fault
  rw [makeLen, if_pos hsize]
  rfl

namespace Holds

variable {os : OS η φ} {file : List Byte} {At : φ → ℕ → η → Prop} {f : φ} {pos : ℕ} {h : η}

/-- A stored block is not reached, or it is read as it is in the file, or a buffer is asked for
that the file does not fill. -/
theorem fetch_cases (hos : Holds os file At) (hf : At f pos h) (region : Region) (size : ℤ) :
    (RefusesSeek os f region.start h ∧
      ∃ err s, ∀ make, fetch os make region.start size (f, h) = .ok (.error err, s)) ∨
    (¬ RefusesSeek os f region.start h ∧ (0 ≤ size ∧ size ≤ region.length file) ∧
      ∃ s, fetch os (makeForFile file region) region.start size (f, h) =
          .ok (.ok ((file.drop region.start.toNat).take size.toNat), s) ∧
        fetch os makeLen region.start size (f, h) =
          .ok (.ok ((file.drop region.start.toNat).take size.toNat), s)) ∨
    (¬ RefusesSeek os f region.start h ∧ ¬ (0 ≤ size ∧ size ≤ region.length file) ∧
      fetch os (makeForFile file region) region.start size (f, h) = .error .negativeLength) := by
  obtain ⟨⟨⟨position, err⟩, f₁, h₁⟩, hseek⟩ : ∃ r, os.seek f region.start 0 h = r := ⟨_, rfl⟩
  unfold RefusesSeek
  rw [hseek]
  cases err with
  | some err =>
    have hrun : FileProgram.seekStart os region.start (f, h) = .ok (.error err, f₁, h₁) := by
      simp only [FileProgram.seekStart, hseek]
    exact .inl ⟨Option.some_ne_none err, err, (f₁, h₁), fun make => Program.bind_of_error hrun⟩
  | none =>
    right
    have hrun : FileProgram.seekStart os region.start (f, h) = .ok (.ok (), f₁, h₁) := by
      simp only [FileProgram.seekStart, hseek]
    by_cases hsize : 0 ≤ size ∧ size ≤ region.length file
    · left
      obtain ⟨n, rfl⟩ := Int.eq_ofNat_of_zero_le hsize.1
      obtain ⟨s, hread⟩ : ∃ s, FileProgram.readFull os n (f₁, h₁) =
          .ok (.ok ((file.drop region.start.toNat).take n), s) := by
        rcases Nat.eq_zero_or_pos n with rfl | hpos
        · exact ⟨(f₁, h₁), rfl⟩
        · -- the region is not empty, so its offset is in the file
          have hlength := hsize.2
          unfold Region.length at hlength
          split_ifs at hlength with hstart
          · obtain ⟨start, heq⟩ := Int.eq_ofNat_of_zero_le hstart
            rw [heq] at hlength hseek ⊢
            obtain ⟨f', h', hseek', hf'⟩ := hos.seek f pos h start hf (.inl (by omega))
            cases hseek.symm.trans hseek'
            obtain ⟨f₂, h₂, hread, -⟩ := hos.readFull hf' (n := n) (by omega)
            exact ⟨(f₂, h₂), hread⟩
          · omega
      refine ⟨fun h => h rfl, hsize, s, ?_, ?_⟩
      · rw [fetch, Program.bind_of_ok hrun]
        rw [makeForFile, if_neg (by omega)]
        exact hread
      · rw [fetch, Program.bind_of_ok hrun, Program.bind_of_ok (makeLen_natCast n _)]
        exact hread
    · right
      refine ⟨fun h => h rfl, hsize, ?_⟩
      rw [fetch, Program.bind_of_ok hrun]
      apply Program.bind_of_fault
      rw [makeForFile, if_pos (by omega)]
      rfl

/-- A stored block that is then worked on without the file. With and without the limit there is
the same result and it is as it should be, if and only if the block is not reached, or its
region is in the file and its bytes give such a result. -/
theorem fetch_clean_iff (hos : Holds os file At) (hf : At f pos h) {region : Region} {size : ℤ}
    (hzero : size = 0 ↔ region.start = region.stop)
    (hexact : 0 ≤ region.start → region.start ≤ region.stop → size = region.stop - region.start)
    {k : List Byte → FileProgram η φ α} (hk : ∀ buf, ∃ r, ∀ s, k buf s = .ok (r, s))
    (clean : α → Prop) :
    (∃ r t, (fetch os (makeForFile file region) region.start size >>= k) (f, h) = .ok (r, t) ∧
        (fetch os makeLen region.start size >>= k) (f, h) = .ok (r, t) ∧
        ∀ a, r = .ok a → clean a) ↔
      RefusesSeek os f region.start h ∨ (region.InFile file ∧
        ∀ a s, k (region.bytes file) s = .ok (.ok a, s) → clean a) := by
  rcases hos.fetch_cases hf region size with
    ⟨hrefuses, err, s, hfetch⟩ | ⟨hseek, hsize, s, hfile, hany⟩ | ⟨hseek, hsize, hfault⟩
  · rw [Program.bind_of_error (hfetch _), Program.bind_of_error (hfetch _)]
    exact ⟨fun _ => .inl hrefuses, fun _ => ⟨.error err, s, rfl, rfl, fun a ha => by cases ha⟩⟩
  · have hregion := (Region.le_length_iff hzero hexact).mp hsize
    rw [Program.bind_of_ok hfile, Program.bind_of_ok hany, hregion.size_eq hzero hexact]
    obtain ⟨r, hr⟩ := hk (region.bytes file)
    change (∃ r t, k (region.bytes file) s = .ok (r, t) ∧ k (region.bytes file) s = .ok (r, t) ∧
      ∀ a, r = .ok a → clean a) ↔ _
    simp only [hr]
    constructor
    · rintro ⟨r', t, hrun, -, hclean⟩
      cases hrun
      refine .inr ⟨hregion, fun a s' ha => ?_⟩
      cases ha
      exact hclean a rfl
    · rintro (hrefuses | ⟨-, hclean⟩)
      · exact absurd hrefuses hseek
      · refine ⟨r, s, rfl, rfl, fun a ha => ?_⟩
        rw [ha] at hclean
        exact hclean a s rfl
  · rw [Program.bind_of_fault hfault]
    refine ⟨?_, fun hor => ?_⟩
    · rintro ⟨r, t, hrun, -⟩
      cases hrun
    · rw [Region.le_length_iff hzero hexact] at hsize
      exact (hor.elim hseek fun hregion => hsize hregion.1).elim

/-- A block of which the index gives a region. It is read cleanly if and only if its region is in
the file and its bytes give a result as it should be, or the host refuses to go there. -/
theorem readBlock_clean_iff (hos : Holds os file At) (hf : At f pos h)
    {offsets : List (BitVec 32)} {numBlocks i : ℤ}
    {locate : BitVec 32 → FileProgram η φ (ℤ × ℤ)}
    {decode : Bool → List Byte → FileProgram η φ Block} {region : BitVec 32 → Region}
    {size : BitVec 32 → ℤ}
    (hlength : 0 ≤ i → i < numBlocks → i.toNat < offsets.length)
    (hlocate : 0 ≤ i → i < numBlocks → ∀ offset,
      locate offset (f, h) = .ok (.ok ((region offset).start, size offset), f, h))
    (hzero : ∀ offset, size offset = 0 ↔ (region offset).start = (region offset).stop)
    (hexact : ∀ offset, 0 ≤ (region offset).start → (region offset).start ≤ (region offset).stop →
      size offset = (region offset).stop - (region offset).start)
    (hdecode : ∀ flag buf, ∃ r, ∀ s, decode flag buf s = .ok (r, s)) (clean : Block → Prop) :
    (∃ r t, readBlock os (fun offset => makeForFile file (region offset)) offsets numBlocks locate
          decode i (f, h) = .ok (r, t) ∧
        readBlock os (fun _ => makeLen) offsets numBlocks locate decode i (f, h) = .ok (r, t) ∧
        ∀ b, r = .ok b → clean b) ↔
      (0 ≤ i → i < numBlocks → ∀ offset, offsets[i.toNat]? = some offset →
        RefusesSeek os f (region offset).start h ∨ ((region offset).InFile file ∧
          ∀ b s, decode (topBit offset) ((region offset).bytes file) s = .ok (.ok b, s) →
            clean b)) := by
  by_cases hrange : 0 ≤ i ∧ i < numBlocks
  · obtain ⟨hi, hlt⟩ := hrange
    obtain ⟨offset, hoffset⟩ : ∃ offset, offsets[i.toNat]? = some offset :=
      ⟨_, List.getElem?_eq_getElem (hlength hi hlt)⟩
    have hclean := hos.fetch_clean_iff hf (hzero offset) (hexact offset)
      (hdecode (topBit offset)) clean
    rw [readBlock_eq os _ decode hi hlt hoffset (hlocate hi hlt offset),
      readBlock_eq os _ decode hi hlt hoffset (hlocate hi hlt offset), hclean, hoffset]
    simp only [hi, hlt, Option.some.injEq, forall_true_left, forall_eq']
  · have hrefused (make : BitVec 32 → ℤ → FileProgram η φ ℕ) :
        readBlock os make offsets numBlocks locate decode i (f, h) = .ok (.error .other, f, h) :=
      Program.bind_of_error (Program.check_fail (by simpa using hrange))
    refine ⟨fun _ hi hlt => absurd ⟨hi, hlt⟩ hrange, fun _ => ?_⟩
    exact ⟨.error .other, (f, h), hrefused _, hrefused _, fun b hb => by cases hb⟩

end Holds

/-! ### What was accepted -/

/-- What is known of a header that was accepted. -/
structure Accepted (ended : Bool) (size blockSize numBlocks : ℤ) (offsets : List (BitVec 32)) :
    Prop where
  /-- The size of a block. -/
  blockSize_pos : 0 < blockSize
  /-- It is a 32-bit number. -/
  blockSize_lt : blockSize < 2 ^ 32
  /-- The size of the image is a signed 64-bit number. -/
  size_range : -2 ^ 63 ≤ size ∧ size < 2 ^ 63
  /-- The number of blocks. -/
  numBlocks_eq : numBlocks = blockCount size blockSize
  /-- The number of entries is not negative. -/
  entries_nonneg : 0 ≤ entriesOf ended numBlocks
  /-- The index has as many. -/
  length_offsets : offsets.length = (entriesOf ended numBlocks).toNat

namespace Accepted

variable {ended : Bool} {size blockSize numBlocks : ℤ} {offsets : List (BitVec 32)}

/-- What is known of a decoder that was made of a file. -/
theorem of_openImage {os : OS η φ} {file : List Byte} {At : φ → ℕ → η → Prop} {f : φ} {pos : ℕ}
    {h h₀ h₁ : η} {path : Path} {layout : Layout α} {wrap : φ × α → ρ} {c : ρ}
    (hos : Holds os file At) (hopen : os.openFile path oRDONLY h = (.ok f, h₀)) (hf : At f pos h₀)
    (hok : openImage os makeAny layout wrap path h = .ok (.ok c, h₁)) :
    ∃ f' stat offsets size blockSize numBlocks,
      c = wrap (f', layout.header (file.take 24) stat offsets blockSize numBlocks size) ∧
        Accepted (layout.ended (file.take 24)) size blockSize numBlocks offsets := by
  obtain ⟨f', a, hparse, rfl⟩ := (openImage_eq_ok hopen).mp hok
  by_cases hrefused : 24 ≤ file.length → layout.known (file.take 24) = true →
      blockSizeField file = 0
  · obtain ⟨err, t, herr⟩ := hos.parseHeader_refused hf path hrefused
    cases (herr _).symm.trans hparse
  · simp only [Classical.not_imp] at hrefused
    obtain ⟨hlength, hknown, hblock⟩ := hrefused
    obtain ⟨f₂, h₂, -, heq⟩ := hos.parseHeader_eq hf path hlength hknown hblock
    rw [heq] at hparse
    obtain ⟨stat, offsets, rfl, hnonneg, hoffsets⟩ := of_finishHeader hparse
    have hpos := toNat_pos hblock
    exact ⟨f', stat, offsets, _, _, _, rfl, by omega, by omega,
      ⟨(sizeField file).le_toInt, (sizeField file).toInt_lt⟩, rfl, hnonneg, hoffsets⟩

/-- If there are blocks, their number is exact. -/
theorem rounds (hc : Accepted ended size blockSize numBlocks offsets) (hblocks : 0 < numBlocks) :
    size ≤ numBlocks * blockSize ∧ numBlocks * blockSize < size + blockSize ∧
      numBlocks < 2 ^ 63 := by
  have hpos := hc.blockSize_pos
  have hlt := hc.blockSize_lt
  have hsize := hc.size_range
  have hdiv := Int.mul_tdiv_add_tmod (int64 (size + blockSize - 1)) blockSize
  have hmod := Int.tmod_lt_of_pos (int64 (size + blockSize - 1)) hpos
  have hmod' := Int.lt_tmod_of_pos (int64 (size + blockSize - 1)) hpos
  have hcount := hc.numBlocks_eq
  rw [blockCount] at hcount
  rw [← hcount] at hdiv
  have hmul : blockSize * 1 ≤ blockSize * numBlocks :=
    Int.mul_le_mul_of_nonneg_left (by omega) hpos.le
  have hnumber : 1 * numBlocks ≤ blockSize * numBlocks :=
    Int.mul_le_mul_of_nonneg_right (by omega) (by omega)
  have hpositive : 0 < int64 (size + blockSize - 1) := by omega
  have hsum : int64 (size + blockSize - 1) = size + blockSize - 1 := by
    rcases lt_or_ge (size + blockSize - 1) (2 ^ 63) with hsmall | hlarge
    · exact int64_eq_self (by omega) hsmall
    · have hwrap := int64_wrap hlarge (by omega)
      omega
  have hnonneg := Int.tmod_nonneg blockSize hpositive.le
  have hbound := (int64_bounds (size + blockSize - 1)).2
  rw [Int.mul_comm numBlocks blockSize]
  omega

/-- Both entries of a block are there, as far as they are used. -/
theorem lt_length (hc : Accepted ended size blockSize numBlocks offsets) {i : ℤ} (hi : 0 ≤ i)
    (hlt : i < numBlocks) : i.toNat < offsets.length ∧
      (ended = true ∨ i + 1 < numBlocks → (i + 1).toNat < offsets.length) := by
  obtain ⟨-, -, hbound⟩ := hc.rounds (by omega)
  have hnonneg := hc.entries_nonneg
  have hlength := hc.length_offsets
  have hwrap := int64_bounds (numBlocks + 1)
  cases ended with
  | false =>
    rw [entriesOf, if_neg (by simp)] at hnonneg hlength
    refine ⟨by omega, fun h => ?_⟩
    have hnext := h.resolve_left (by simp)
    omega
  | true =>
    rw [entriesOf, if_pos rfl] at hnonneg hlength
    have hexact : int64 (numBlocks + 1) = numBlocks + 1 := by
      rcases lt_or_ge (numBlocks + 1) (2 ^ 63) with hsmall | hlarge
      · exact int64_eq_self (by omega) hsmall
      · have hneg := int64_wrap hlarge (by omega)
        omega
    refine ⟨by omega, fun _ => by omega⟩

end Accepted

/-- The entry behind that of a block. -/
theorem entry_next {offsets : List (BitVec 32)} {i : ℤ} (hi : 0 ≤ i)
    (hlength : (i + 1).toNat < offsets.length) (s : φ × η) :
    entry offsets (i + 1) s = .ok (.ok (offsets.getD (i + 1).toNat 0), s) := by
  obtain ⟨j, rfl⟩ := Int.eq_ofNat_of_zero_le hi
  change entry offsets ((j + 1 : ℕ) : ℤ) s = .ok (.ok (offsets.getD (j + 1) 0), s)
  apply entry_natCast
  rw [List.getD_eq_getElem?_getD, List.getElem?_eq_getElem (by exact hlength)]
  rfl

/-- A block is clean: it has all the bytes of the image that it should, and the slices that
`Read` takes of it, at any position in it and for any number of bytes, are within its length. -/
structure CleanBlock (size blockSize numBlocks i : ℤ) (b : Block) : Prop where
  /-- The bytes of the image. -/
  length : min blockSize (size - i * blockSize) ≤ b.bytes.length
  /-- The slices. -/
  slices : ∀ {ρ : Type} (c : CachedReader ρ) (n : ℕ), c.blockSize = blockSize →
    c.numBlocks = numBlocks → c.size = size → 0 ≤ c.pos → c.pos < c.size →
    c.pos.tdiv c.blockSize = i →
    c.pos.tmod c.blockSize + min (n : ℤ) (c.lastBlockSize i - c.pos.tmod c.blockSize) ≤
      b.bytes.length

/-- `Read` computes the size of the last block as the part of the image that is left for it. -/
theorem Accepted.lastBlockSize_le {ρ : Type} {ended : Bool} {i : ℤ} {c : CachedReader ρ}
    {offsets : List (BitVec 32)}
    (hc : Accepted ended c.size c.blockSize c.numBlocks offsets) (hi : 0 ≤ i)
    (hlt : i < c.numBlocks) : c.lastBlockSize i ≤ min c.blockSize (c.size - i * c.blockSize) := by
  have hwidth := hc.blockSize_pos
  obtain ⟨hle, hround, -⟩ := hc.rounds (by omega)
  have hdiv := Int.tdiv_mul_add_tmod c.size c.blockSize
  have hmod := Int.tmod_lt_of_pos c.size hwidth
  have hstart : i * c.blockSize < c.size := by
    have hmul : i * c.blockSize ≤ (c.numBlocks - 1) * c.blockSize :=
      Int.mul_le_mul_of_nonneg_right (by omega) hwidth.le
    rw [Int.sub_mul] at hmul
    omega
  have hindex : i ≤ c.size.tdiv c.blockSize := by
    have hnext : i * c.blockSize < (c.size.tdiv c.blockSize + 1) * c.blockSize := by
      rw [Int.add_mul]
      omega
    have hless := Int.lt_of_mul_lt_mul_right hnext hwidth.le
    omega
  unfold CachedReader.lastBlockSize
  by_cases hshort : i = c.numBlocks - 1 ∧ c.size.tmod c.blockSize ≠ 0
  · rw [if_pos hshort]
    have hmul : i * c.blockSize ≤ c.size.tdiv c.blockSize * c.blockSize :=
      Int.mul_le_mul_of_nonneg_right hindex hwidth.le
    omega
  · rw [if_neg hshort]
    have hnext : (i + 1) * c.blockSize ≤ c.size := by
      by_cases hlast : i = c.numBlocks - 1
      · have hzero : c.size.tmod c.blockSize = 0 := by
          by_contra hne
          exact hshort ⟨hlast, hne⟩
        have hless : i < c.size.tdiv c.blockSize :=
          Int.lt_of_mul_lt_mul_right (by omega) hwidth.le
        have hmul : (i + 1) * c.blockSize ≤ c.size.tdiv c.blockSize * c.blockSize :=
          Int.mul_le_mul_of_nonneg_right (by omega) hwidth.le
        omega
      · have hmul : (i + 1) * c.blockSize ≤ (c.numBlocks - 1) * c.blockSize :=
          Int.mul_le_mul_of_nonneg_right (by omega) hwidth.le
        rw [Int.sub_mul] at hmul
        omega
    rw [Int.add_mul] at hnext
    omega

/-- A block is clean if and only if it has all its bytes. -/
theorem Accepted.cleanBlock_iff {ended : Bool} {size blockSize numBlocks i : ℤ}
    {offsets : List (BitVec 32)} {b : Block}
    (hc : Accepted ended size blockSize numBlocks offsets) (hlt : i < numBlocks) :
    CleanBlock size blockSize numBlocks i b ↔
      min blockSize (size - i * blockSize) ≤ b.bytes.length := by
  refine ⟨CleanBlock.length, fun hlength => ⟨hlength, ?_⟩⟩
  rintro ρ c n rfl rfl rfl hpos hend hindex
  have hwidth := hc.blockSize_pos
  have hdiv := Int.tdiv_mul_add_tmod c.pos c.blockSize
  have hmod := Int.tmod_lt_of_pos c.pos hwidth
  have hi : 0 ≤ i := hindex ▸ Int.tdiv_nonneg hpos hwidth.le
  have hlast := hc.lastBlockSize_le hi hlt
  rw [hindex] at hdiv
  omega

/-! ### CSO -/

namespace Cso

variable (os : OS η φ)

/-- The part of the file that `ReadBlock` reads for a block with this entry. -/
def claimed (c : CsoHeader) (blockIdx : ℤ) (offset : BitVec 32) : Region where
  start := shifted offset c.align
  stop :=
    if topBit offset then shifted offset c.align + c.blockSize
    else shifted (c.offsets.getD (blockIdx + 1).toNat 0) c.align

/-- The block is read cleanly: there is no fault and no difference when a buffer must not be
larger than the part of the file it is for, and a block that is returned is clean. -/
def ReadsCleanly (file : List Byte) (flate zlib : List Byte → Option (List Byte)) (c : CsoHeader)
    (i : ℤ) (s : φ × η) : Prop :=
  ∃ r t, readBlockWith os (fun offset => makeForFile file (claimed c i offset)) flate zlib c i s =
      .ok (r, t) ∧
    readBlock os flate zlib c i s = .ok (r, t) ∧
    ∀ b, r = .ok b → CleanBlock c.size c.blockSize c.numBlocks i b

/-- What the index gives for the block is in the file, or the host refuses to go there. -/
def Contained (file : List Byte) (c : CsoHeader) (i : ℤ) (f : φ) (h : η) : Prop :=
  0 ≤ i → i < c.numBlocks → ∀ offset, c.offsets[i.toNat]? = some offset →
    RefusesSeek os f (shifted offset c.align) h ∨ (claimed c i offset).InFile file

variable {os} {file : List Byte} {At : φ → ℕ → η → Prop} {f : φ} {pos : ℕ} {h : η}
  {c : CsoHeader} {i : ℤ} {offset : BitVec 32} (flate zlib : List Byte → Option (List Byte))

/-- It starts where the entry says. -/
theorem claimed_start (c : CsoHeader) (i : ℤ) (offset : BitVec 32) :
    (claimed c i offset).start = shifted offset c.align := by
  simp only [claimed]

/-- The length that is computed for a block. -/
def sizeOf (c : CsoHeader) (i : ℤ) (offset : BitVec 32) : ℤ :=
  if topBit offset then c.blockSize
  else int64 ((claimed c i offset).stop - (claimed c i offset).start)

/-- It is that of the region, when this is one. -/
theorem sizeOf_spec (i : ℤ) (offset : BitVec 32) (hpos : 0 < c.blockSize) :
    (sizeOf c i offset = 0 ↔ (claimed c i offset).start = (claimed c i offset).stop) ∧
      (0 ≤ (claimed c i offset).start → (claimed c i offset).start ≤ (claimed c i offset).stop →
        sizeOf c i offset = (claimed c i offset).stop - (claimed c i offset).start) := by
  unfold sizeOf
  cases htop : topBit offset with
  | true =>
    simp only [claimed, htop, if_true]
    omega
  | false =>
    simp only [claimed, htop, Bool.false_eq_true, if_false]
    exact int64_sub_eq (shifted_bounds _ _) (shifted_bounds _ _)

/-- The block is located. -/
theorem locate_eq (hc : Accepted true c.size c.blockSize c.numBlocks c.offsets) (hi : 0 ≤ i)
    (hlt : i < c.numBlocks) (offset : BitVec 32) (s : φ × η) :
    locate c i offset s = .ok (.ok ((claimed c i offset).start, sizeOf c i offset), s) := by
  unfold locate sizeOf
  cases htop : topBit offset with
  | true => rw [if_pos rfl, if_pos rfl, Program.pure_run, claimed]
  | false =>
    rw [if_neg (by simp), if_neg (by simp),
      Program.bind_of_ok (entry_next hi ((hc.lt_length hi hlt).2 (.inl rfl)) s), Program.pure_run]
    simp only [claimed, htop, Bool.false_eq_true, if_false]

/-- A block whose length comes out negative makes the server panic. -/
theorem readBlock_of_neg (hc : Accepted true c.size c.blockSize c.numBlocks c.offsets)
    (hi : 0 ≤ i) (hlt : i < c.numBlocks) (hoffset : c.offsets[i.toNat]? = some offset)
    (hseek : ¬ RefusesSeek os f (shifted offset c.align) h) (hsize : sizeOf c i offset < 0) :
    readBlock os flate zlib c i (f, h) = .error .negativeLength := by
  have hread := FileProgram.readBlock_eq os (fun _ => makeLen) (decode flate zlib c.blockSize) hi
    hlt hoffset (locate_eq hc hi hlt offset (f, h))
  refine hread.trans (Program.bind_of_fault (fetch_of_neg ?_ hsize))
  rwa [claimed_start]

/-- What is made of the bytes of a block has at least the block size, if they have it when the
block is plain. -/
theorem decode_spec (blockSize : ℤ) (plain : Bool) (buf : List Byte) :
    ∃ r, (∀ s : φ × η, decode flate zlib blockSize plain buf s = .ok (r, s)) ∧
      ∀ b, r = .ok b → (plain = true → buf.length = blockSize) →
        blockSize ≤ b.bytes.length := by
  have hpadded (out : List Byte) : blockSize ≤ (padBlock blockSize out).bytes.length := by
    rw [padBlock, List.length_append, List.length_replicate]
    omega
  unfold decode
  cases plain with
  | true =>
    refine ⟨.ok ⟨buf, []⟩, fun s => rfl, fun b hb hplain => ?_⟩
    cases hb
    exact (hplain rfl).ge
  | false =>
    rw [if_neg (by simp)]
    cases hflate : flate buf with
    | some out =>
      refine ⟨.ok (padBlock blockSize out), fun s => rfl, fun b hb _ => ?_⟩
      cases hb
      exact hpadded out
    | none =>
      cases hzlib : zlib buf with
      | some out =>
        refine ⟨.ok (padBlock blockSize out), fun s => rfl, fun b hb _ => ?_⟩
        cases hb
        exact hpadded out
      | none => exact ⟨.error .other, fun s => rfl, fun b hb => by cases hb⟩

/-- A block of an accepted CSO file is read cleanly if and only if its region is in the file. -/
theorem readsCleanly_iff (hc : Accepted true c.size c.blockSize c.numBlocks c.offsets)
    (hos : Holds os file At) (hf : At f pos h) :
    ReadsCleanly os file flate zlib c i (f, h) ↔ Contained os file c i f h := by
  have hspec (offset : BitVec 32) := sizeOf_spec i offset hc.blockSize_pos
  refine (hos.readBlock_clean_iff hf (fun hi hlt => (hc.lt_length hi hlt).1)
    (fun hi hlt offset => locate_eq hc hi hlt offset (f, h)) (fun offset => (hspec offset).1)
    (fun offset => (hspec offset).2)
    (fun plain buf => (decode_spec flate zlib c.blockSize plain buf).imp fun _ hr => hr.1)
    (CleanBlock c.size c.blockSize c.numBlocks i)).trans ?_
  simp only [claimed_start]
  refine forall_congr' fun hi => forall_congr' fun hlt => forall₂_congr fun offset hoffset =>
    or_congr_right (and_iff_left_of_imp fun hregion b s hb => ?_)
  obtain ⟨r, hrun, hlength⟩ :=
    decode_spec flate zlib c.blockSize (topBit offset) ((claimed c i offset).bytes file)
  cases (hrun s).symm.trans hb
  refine (hc.cleanBlock_iff hlt).mpr ((min_le_left _ _).trans (hlength b rfl fun htop => ?_))
  have hsize := hregion.size_eq (hspec offset).1 (hspec offset).2
  have hbytes := hregion.length_take hsize
  rw [hsize] at hbytes
  refine hbytes.trans (hsize.symm.trans ?_)
  rw [sizeOf, if_pos htop]

end Cso

/-! ### ZSO -/

namespace Zso

variable (os : OS η φ)

/-- The part of the file that `ReadBlock` reads for a block with this entry, in a file of this
size. -/
def claimed (fileSize : ℕ) (z : ZsoHeader) (blockIdx : ℤ) (rawOffset : BitVec 32) : Region :=
  if z.ziso then
    ⟨shifted rawOffset z.align, shifted (z.offsets.getD (blockIdx + 1).toNat 0) z.align⟩
  else
    ⟨rawOffset.toNat, if blockIdx + 1 < z.numBlocks then
      (z.offsets.getD (blockIdx + 1).toNat 0).toNat else fileSize⟩

/-- The block is read cleanly, in the same sense. -/
def ReadsCleanly (file : List Byte) (lz4 : UncompressBlock) (z : ZsoHeader) (i : ℤ)
    (s : φ × η) : Prop :=
  ∃ r t, readBlockWith os (fun offset => makeForFile file (claimed file.length z i offset)) lz4 z i
      s = .ok (r, t) ∧
    readBlock os lz4 z i s = .ok (r, t) ∧
    ∀ b, r = .ok b → CleanBlock z.size z.blockSize z.numBlocks i b

/-- The longest part of a stored block from its start on that decodes, if any does, gives this
many bytes. -/
def DecodesTo (lz4 : UncompressBlock) (blockSize : ℕ) (stored : List Byte) (needed : ℤ) : Prop :=
  ∀ n < stored.length, ∀ out spare, lz4 (stored.take (n + 1)) blockSize = some (out, spare) →
    (∀ m, n < m → m < stored.length → lz4 (stored.take (m + 1)) blockSize = none) →
    needed ≤ out.length

/-- What the index gives for the block is in the file, and if it is compressed it decodes to all
the bytes of the block or does not decode; or the host refuses to go there. -/
def Contained (file : List Byte) (lz4 : UncompressBlock) (z : ZsoHeader) (i : ℤ) (f : φ)
    (h : η) : Prop :=
  0 ≤ i → i < z.numBlocks → ∀ offset, z.offsets[i.toNat]? = some offset →
    RefusesSeek os f (claimed file.length z i offset).start h ∨
      (claimed file.length z i offset).InFile file ∧
        (topBit offset = false → DecodesTo lz4 z.blockSize.toNat
          ((claimed file.length z i offset).bytes file)
          (min z.blockSize (z.size - i * z.blockSize)))

variable {os} {file : List Byte} {At : φ → ℕ → η → Prop} {f : φ} {pos : ℕ} {h : η}
  {z : ZsoHeader} {i : ℤ} {offset : BitVec 32} {lz4 : UncompressBlock}

section Claimed

variable (fileSize : ℕ) (offset : BitVec 32)

theorem claimed_ziso (i : ℤ) (hziso : z.ziso = true) : claimed fileSize z i offset =
    ⟨shifted offset z.align, shifted (z.offsets.getD (i + 1).toNat 0) z.align⟩ :=
  if_pos hziso

theorem claimed_next (hziso : z.ziso = false) (hnext : i + 1 < z.numBlocks) :
    claimed fileSize z i offset = ⟨offset.toNat, (z.offsets.getD (i + 1).toNat 0).toNat⟩ := by
  rw [claimed, hziso, if_neg (by simp), if_pos hnext]

theorem claimed_last (hziso : z.ziso = false) (hlast : ¬ i + 1 < z.numBlocks) :
    claimed fileSize z i offset = ⟨offset.toNat, fileSize⟩ := by
  rw [claimed, hziso, if_neg (by simp), if_neg hlast]

end Claimed

/-- The length that is computed for a block. -/
def sizeOf (fileSize : ℕ) (z : ZsoHeader) (i : ℤ) (offset : BitVec 32) : ℤ :=
  if ¬ z.ziso ∧ i + 1 < z.numBlocks then ((z.offsets.getD (i + 1).toNat 0 - offset).toNat : ℤ)
  else int64 ((claimed fileSize z i offset).stop - (claimed fileSize z i offset).start)

/-- It is that of the region, when this is one. -/
theorem sizeOf_spec {fileSize : ℕ} (hsize : fileSize < 2 ^ 63) (z : ZsoHeader) (i : ℤ)
    (offset : BitVec 32) :
    (sizeOf fileSize z i offset = 0 ↔
      (claimed fileSize z i offset).start = (claimed fileSize z i offset).stop) ∧
    (0 ≤ (claimed fileSize z i offset).start →
      (claimed fileSize z i offset).start ≤ (claimed fileSize z i offset).stop →
      sizeOf fileSize z i offset =
        (claimed fileSize z i offset).stop - (claimed fileSize z i offset).start) := by
  have hoffset := offset.isLt
  unfold sizeOf
  cases hziso : z.ziso with
  | true =>
    rw [claimed_ziso _ _ _ hziso, if_neg (by simp)]
    dsimp only
    exact int64_sub_eq (shifted_bounds _ _) (shifted_bounds _ _)
  | false =>
    by_cases hlast : i + 1 < z.numBlocks
    · rw [claimed_next _ _ hziso hlast, if_pos ⟨by simp, hlast⟩]
      have hnext := (z.offsets.getD (i + 1).toNat 0).isLt
      simp only [BitVec.toNat_sub]
      omega
    · rw [claimed_last _ _ hziso hlast, if_neg (fun hnot => hlast hnot.2)]
      exact int64_sub_eq (by simp only; omega) (by simp only; omega)

/-- The block is located. -/
theorem locate_eq (hc : Accepted z.ziso z.size z.blockSize z.numBlocks z.offsets)
    (hos : Holds os file At) (hf : At f pos h) (hi : 0 ≤ i) (hlt : i < z.numBlocks)
    (offset : BitVec 32) :
    locate os z i offset (f, h) =
      .ok (.ok ((claimed file.length z i offset).start, sizeOf file.length z i offset), f, h) := by
  have hentry (hnext : z.ziso = true ∨ i + 1 < z.numBlocks) :=
    entry_next hi ((hc.lt_length hi hlt).2 hnext) (f, h)
  unfold locate sizeOf
  cases hziso : z.ziso with
  | true =>
    rw [claimed_ziso _ _ _ hziso, if_pos rfl, if_neg (by simp),
      Program.bind_of_ok (hentry (.inl hziso)), Program.pure_run]
  | false =>
    rw [if_neg (by simp)]
    by_cases hlast : i + 1 < z.numBlocks
    · rw [claimed_next _ _ hziso hlast, if_pos hlast, if_pos ⟨by simp, hlast⟩,
        Program.bind_of_ok (hentry (.inr hlast)), Program.pure_run]
    · obtain ⟨info, hstat, hinfo⟩ := hos.stat f pos h hf
      have hrun : fstat os (f, h) = .ok (.ok info, f, h) := by rw [fstat, hstat]
      rw [claimed_last _ _ hziso hlast, if_neg hlast, if_neg (fun hnot => hlast hnot.2),
        Program.bind_of_ok hrun, Program.pure_run, hinfo]

/-- The loop ends with the longest part that decodes. -/
theorem uncompress_eq_some_iff {blockSize : ℕ} {stored : List Byte} {b : Block} (k : ℕ) :
    uncompress lz4 blockSize stored k = some b ↔
      ∃ n < k, lz4 (stored.take (n + 1)) blockSize = some (b.bytes, b.spare) ∧
        ∀ m, n < m → m < k → lz4 (stored.take (m + 1)) blockSize = none := by
  induction k with
  | zero => simp [uncompress]
  | succ k ih =>
    unfold uncompress
    cases hlz4 : lz4 (stored.take (k + 1)) blockSize with
    | some decoded =>
      obtain ⟨out, spare⟩ := decoded
      constructor
      · intro hb
        cases hb
        exact ⟨k, Nat.lt_succ_self k, hlz4, fun m hm hlt => by omega⟩
      · rintro ⟨n, hn, hsome, hnone⟩
        rcases Nat.lt_succ_iff_lt_or_eq.mp hn with hlt | rfl
        · rw [hnone k hlt (Nat.lt_succ_self k)] at hlz4
          cases hlz4
        · rw [hlz4] at hsome
          cases hsome
          rfl
    | none =>
      simp only
      rw [ih]
      constructor
      · rintro ⟨n, hn, hsome, hnone⟩
        refine ⟨n, by omega, hsome, fun m hm hlt => ?_⟩
        rcases Nat.lt_succ_iff_lt_or_eq.mp hlt with hless | rfl
        · exact hnone m hm hless
        · exact hlz4
      · rintro ⟨n, hn, hsome, hnone⟩
        rcases Nat.lt_succ_iff_lt_or_eq.mp hn with hlt | rfl
        · exact ⟨n, hlt, hsome, fun m hm hless => hnone m hm (by omega)⟩
        · rw [hlz4] at hsome
          cases hsome

/-- What is made of the bytes of a block. -/
theorem decode_run (blockSize : ℕ) (uncompressed : Bool) (buf : List Byte) :
    ∃ r, ∀ s : φ × η, decode lz4 blockSize uncompressed buf s = .ok (r, s) := by
  unfold decode
  cases uncompressed with
  | true => exact ⟨.ok _, fun s => rfl⟩
  | false =>
    rw [if_neg (by simp)]
    cases uncompress lz4 blockSize buf buf.length with
    | some b => exact ⟨.ok b, fun s => rfl⟩
    | none => exact ⟨.error .other, fun s => rfl⟩

/-- It has enough bytes if and only if the block is not compressed or decodes to enough. -/
theorem decode_length_iff {blockSize : ℕ} {uncompressed : Bool} {buf : List Byte} {needed : ℤ}
    (hneeded : needed ≤ blockSize) (s₀ : φ × η) :
    (∀ b (s : φ × η), decode lz4 blockSize uncompressed buf s = .ok (.ok b, s) →
        needed ≤ b.bytes.length) ↔
      (uncompressed = false → DecodesTo lz4 blockSize buf needed) := by
  unfold decode
  cases uncompressed with
  | true =>
    refine ⟨fun _ h => Bool.noConfusion h, fun _ b s hb => ?_⟩
    cases hb
    rw [List.length_append, List.length_take, List.length_replicate]
    omega
  | false =>
    rw [if_neg (by simp)]
    constructor
    · intro hlength _ n hn out spare hsome hnone
      have hrun := (uncompress_eq_some_iff (b := ⟨out, spare⟩) buf.length).mpr
        ⟨n, hn, hsome, hnone⟩
      refine hlength ⟨out, spare⟩ s₀ ?_
      rw [hrun]
      rfl
    · intro hdecodes b s hb
      cases hrun : uncompress lz4 blockSize buf buf.length with
      | none =>
        rw [hrun] at hb
        cases hb
      | some b' =>
        rw [hrun] at hb
        cases hb
        obtain ⟨n, hn, hsome, hnone⟩ := (uncompress_eq_some_iff buf.length).mp hrun
        exact hdecodes rfl n hn b.bytes b.spare hsome hnone

/-- A block of an accepted ZSO or ZISO file is read cleanly if and only if its region is in the
file and, if it is compressed, decodes to enough bytes or not at all. -/
theorem readsCleanly_iff (hc : Accepted z.ziso z.size z.blockSize z.numBlocks z.offsets)
    (hos : Holds os file At) (hfile : file.length < 2 ^ 63) (hf : At f pos h) :
    ReadsCleanly os file lz4 z i (f, h) ↔ Contained os file lz4 z i f h := by
  have hspec (offset : BitVec 32) := sizeOf_spec hfile z i offset
  have hpos := hc.blockSize_pos
  have hneeded : min z.blockSize (z.size - i * z.blockSize) ≤ z.blockSize.toNat := by omega
  refine (hos.readBlock_clean_iff hf (fun hi hlt => (hc.lt_length hi hlt).1)
    (fun hi hlt offset => locate_eq hc hos hf hi hlt offset) (fun offset => (hspec offset).1)
    (fun offset => (hspec offset).2) (decode_run _)
    (CleanBlock z.size z.blockSize z.numBlocks i)).trans ?_
  refine forall_congr' fun hi => forall_congr' fun hlt => forall₂_congr fun offset hoffset =>
    or_congr_right (and_congr_right fun _ => ?_)
  rw [← decode_length_iff hneeded (f, h)]
  simp only [hc.cleanBlock_iff hlt]

end Zso

/-! ### Accepted files -/

section Accepted

variable {os : OS η φ} {file : List Byte} {At : φ → ℕ → η → Prop} {f : φ} {pos : ℕ} {h h₀ h₁ : η}
  {path : Path}

/-- What is known of a CSO file that was opened. -/
theorem Cso.accepted (hos : Holds os file At) (hopen : os.openFile path oRDONLY h = (.ok f, h₀))
    (hf : At f pos h₀) {c : Cso φ} (hok : Cso.openImage os path h = .ok (.ok c, h₁)) :
    Accepted true c.size c.blockSize c.numBlocks c.offsets := by
  obtain ⟨f', stat, offsets, size, blockSize, numBlocks, rfl, haccepted⟩ :=
    Accepted.of_openImage hos hopen hf hok
  exact haccepted

/-- What is known of a ZSO or ZISO file that was opened. -/
theorem Zso.accepted (hos : Holds os file At) (hopen : os.openFile path oRDONLY h = (.ok f, h₀))
    (hf : At f pos h₀) {z : Zso φ} (hok : Zso.openImage os path h = .ok (.ok z, h₁)) :
    Accepted z.ziso z.size z.blockSize z.numBlocks z.offsets := by
  obtain ⟨f', stat, offsets, size, blockSize, numBlocks, rfl, haccepted⟩ :=
    Accepted.of_openImage hos hopen hf hok
  exact haccepted

/-- Every block of a file that was opened, whatever its index says, is read cleanly if and only if
what the index gives for it is in the file and, for LZ4, decodes to enough bytes or not at all;
or the host refuses to go there. -/
theorem readBlock_is_clean_iff (hos : Holds os file At) (hfile : file.length < 2 ^ 63)
    (hopen : os.openFile path oRDONLY h = (.ok f, h₀)) (hf : At f pos h₀) :
    (∀ c h₁, Cso.openImage os path h = .ok (.ok c, h₁) → ∀ f' pos' h', At f' pos' h' →
      ∀ (flate zlib : List Byte → Option (List Byte)) (i : ℤ),
        Cso.ReadsCleanly os file flate zlib c.toCsoHeader i (f', h') ↔
          Cso.Contained os file c.toCsoHeader i f' h') ∧
    (∀ z h₁, Zso.openImage os path h = .ok (.ok z, h₁) → ∀ f' pos' h', At f' pos' h' →
      ∀ (lz4 : UncompressBlock) (i : ℤ),
        Zso.ReadsCleanly os file lz4 z.toZsoHeader i (f', h') ↔
          Zso.Contained os file lz4 z.toZsoHeader i f' h') := by
  constructor
  · intro c h₁ hok f' pos' h' hf' flate zlib i
    exact Cso.readsCleanly_iff flate zlib (Cso.accepted hos hopen hf hok) hos hf'
  · intro z h₁ hok f' pos' h' hf' lz4 i
    exact Zso.readsCleanly_iff (Zso.accepted hos hopen hf hok) hos hfile hf'

end Accepted

/-- The first block of the CSO file and of the ZISO file of five bytes. -/
theorem readBlock_is_clean_of_first_block :
    (∃ c h', Cso.openImage Host.os (Path.ascii ['/', 'a']) (.ofFile Cso.padded.file) =
        .ok (.ok c, h') ∧
      Cso.ReadsCleanly Host.os Cso.padded.file Cso.countedFlate (fun _ => none) c.toCsoHeader 0
        (c.f, h')) ∧
    ∃ z h', Zso.openImage Host.os (Path.ascii ['/', 'a']) (.ofFile Zso.zisoFile.file) =
        .ok (.ok z, h') ∧
      Zso.ReadsCleanly Host.os Zso.zisoFile.file Zso.countedLz4 z.toZsoHeader 0 (z.f, h') := by
  constructor
  · have hopen : Host.os.openFile (Path.ascii ['/', 'a']) oRDONLY (.ofFile Cso.padded.file) =
        (.ok (Host.opened (some 0) oRDONLY), .ofFile Cso.padded.file) := rfl
    obtain ⟨hclean, -⟩ := readBlock_is_clean_iff (Host.holds 0 Cso.padded.file) (by decide) hopen
      ⟨rfl, rfl, rfl, rfl⟩
    refine ⟨_, _, rfl, (hclean _ _ rfl _ _ _ ⟨rfl, rfl, rfl, rfl⟩ _ _ 0).mpr ?_⟩
    intro _ _ offset hoffset
    cases hoffset
    exact .inr (.inr ⟨by decide, by decide, by decide⟩)
  · have hopen : Host.os.openFile (Path.ascii ['/', 'a']) oRDONLY (.ofFile Zso.zisoFile.file) =
        (.ok (Host.opened (some 0) oRDONLY), .ofFile Zso.zisoFile.file) := rfl
    obtain ⟨-, hclean⟩ := readBlock_is_clean_iff (Host.holds 0 Zso.zisoFile.file) (by decide) hopen
      ⟨rfl, rfl, rfl, rfl⟩
    refine ⟨_, _, rfl, (hclean _ _ rfl _ _ _ ⟨rfl, rfl, rfl, rfl⟩ _ 0).mpr ?_⟩
    intro _ _ offset hoffset
    cases hoffset
    refine .inr ⟨.inr ⟨by decide, by decide, by decide⟩, fun _ n hn out spare hsome hnone => ?_⟩
    have hlt : n < 8 := hn
    interval_cases n <;> cases hsome
    decide

/-- A file with one block size, an index and what is stored. -/
def malformed (magic : List Byte) (size : BitVec 64) (index : List (BitVec 32))
    (stored : List Byte) : List Byte :=
  magic ++ putUint32 24 ++ putUint64 size ++ putUint32 4 ++ [1, 0, 0, 0] ++
    index.flatMap putUint32 ++ stored

/-- With decreasing entries the read of a CSO block panics, that of a ZSO block asks for four
gigabytes; and an LZ4 block may decode to one byte of the four it should have. -/
theorem readBlock_of_malformed_file :
    (∃ c h', Cso.openImage Host.os (Path.ascii ['/', 'a'])
        (.ofFile (malformed csoMagic 4 [32, 24] [])) = .ok (.ok c, h') ∧
      Cso.readBlock Host.os Cso.countedFlate (fun _ => none) c.toCsoHeader 0 (c.f, h') =
        .error .negativeLength) ∧
    (∃ z h', Zso.openImage Host.os (Path.ascii ['/', 'a'])
        (.ofFile (malformed zsoMagic 8 [32, 28] [])) = .ok (.ok z, h') ∧
      Zso.sizeOf 32 z.toZsoHeader 0 32 = 0xFFFFFFFC ∧
      ¬ Zso.ReadsCleanly Host.os (malformed zsoMagic 8 [32, 28] []) Zso.countedLz4 z.toZsoHeader 0
        (z.f, h')) ∧
    ∃ z h' b t, Zso.openImage Host.os (Path.ascii ['/', 'a'])
        (.ofFile (malformed zsoMagic 4 [28] [1, 7])) = .ok (.ok z, h') ∧
      Zso.readBlock Host.os Zso.countedLz4 z.toZsoHeader 0 (z.f, h') = .ok (.ok b, t) ∧
      b.bytes = [7] ∧ ¬ CleanBlock z.size z.blockSize z.numBlocks 0 b := by
  refine ⟨⟨_, _, rfl, ?_⟩, ⟨_, _, rfl, rfl, ?_⟩, _, _, _, _, rfl, rfl, rfl, fun hclean => ?_⟩
  · have hopen : Host.os.openFile (Path.ascii ['/', 'a']) oRDONLY
        (.ofFile (malformed csoMagic 4 [32, 24] [])) =
          (.ok (Host.opened (some 0) oRDONLY), .ofFile (malformed csoMagic 4 [32, 24] [])) := rfl
    have hc := Cso.accepted (Host.holds 0 (malformed csoMagic 4 [32, 24] [])) hopen
      ⟨rfl, rfl, rfl, rfl⟩ rfl
    exact Cso.readBlock_of_neg _ _ hc (by decide) (by decide) rfl (by decide) (by decide)
  · rintro ⟨r, t, hrun, -⟩
    cases hrun
  · exact absurd hclean.length (by decide)

end Udpfsd.Fs
