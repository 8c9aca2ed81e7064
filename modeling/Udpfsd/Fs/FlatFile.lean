import Udpfsd.Base.Blocks
import Udpfsd.Fs.Compression

/-!
# Decompressed images are flat files

To its client a decompressed image is a file: a read returns the bytes from the position
on, as many as were asked for or as there are left. Behind it the image comes in blocks,
of which some are in a cache. As long as the decoder delivers the blocks of one image,
`CachedReader` is such a flat file, whatever the size of the cache and whatever was read
before. A block that cannot be read ends a read in front of it.
-/

namespace Udpfsd.Fs

open Udprdma (Byte)
open Udpfs (Error Fault)

variable {η ρ : Type}

/-! ### Flat files -/

/-- A sequence of bytes with a position in it. -/
structure FlatFile where
  /-- The bytes. -/
  image : List Byte
  /-- The position. -/
  pos : ℕ
  /-- It is not behind the end. -/
  pos_le : pos ≤ image.length

/-- A call of `Read` with a buffer of `n` bytes, or of `Seek`. -/
inductive FileCall
  /-- `Read`. -/
  | read (n : ℕ)
  /-- `Seek`. -/
  | seek (offset whence : ℤ)

/-- What a call returns. -/
inductive FileAnswer
  /-- The bytes read and the error. -/
  | read (bytes : List Byte) (err : Option Error)
  /-- The new position and the error. -/
  | seek (pos : ℤ) (err : Option Error)
  deriving DecidableEq

namespace FlatFile

/-- The bytes that a read of `n` bytes returns. -/
def bytes (f : FlatFile) (n : ℕ) : List Byte := (f.image.drop f.pos).take n

/-- The file moved on by `n` bytes that are there. -/
def advance (f : FlatFile) (n : ℕ) (h : f.pos + n ≤ f.image.length) : FlatFile :=
  ⟨f.image, f.pos + n, h⟩

theorem pos_add_length_bytes_le (f : FlatFile) (n : ℕ) :
    f.pos + (f.bytes n).length ≤ f.image.length := by
  have := f.pos_le
  simp only [bytes, List.length_take, List.length_drop]
  omega

/-- A read in two parts. -/
theorem bytes_append (f : FlatFile) {k n : ℕ} (hle : k ≤ n) (hk : f.pos + k ≤ f.image.length) :
    f.bytes k ++ (f.advance k hk).bytes (n - k) = f.bytes n := by
  simp only [bytes, advance]
  rw [← List.drop_drop, ← List.take_add, Nat.add_sub_cancel' hle]

/-- A read returns the bytes from the position on and moves behind them; at the end it
returns the end-of-file error. -/
def read (f : FlatFile) (n : ℕ) : FileAnswer × FlatFile :=
  (.read (f.bytes n) (if f.image.length ≤ f.pos then some .eof else none),
    f.advance (f.bytes n).length (f.pos_add_length_bytes_le n))

/-- A read returns as much as there is. -/
theorem read_eq (f : FlatFile) {m n : ℕ} (hm : m = min n (f.image.length - f.pos))
    (hend : f.pos + m ≤ f.image.length) :
    f.read n = (.read (f.bytes m) (if f.image.length ≤ f.pos then some .eof else none),
      f.advance m hend) := by
  have hbytes : f.bytes n = f.bytes m := by
    rw [bytes, bytes, hm, List.take_eq_take_iff, List.length_drop]
    omega
  have hlength : (f.bytes m).length = m := by
    rw [bytes, List.length_take, List.length_drop]
    omega
  simp only [read, hbytes, advance, hlength]

/-- The position that a seek asks for, or none when it makes no sense. -/
def target (f : FlatFile) (offset whence : ℤ) : Option ℤ :=
  if whence = 0 then some offset
  else if whence = 1 then some (int64 (f.pos + offset))
  else if whence = 2 then some (int64 (f.image.length + offset))
  else none

/-- A seek moves to the nearest position in the file. -/
def seek (f : FlatFile) (offset whence : ℤ) : FileAnswer × FlatFile :=
  match f.target offset whence with
  | none => (.seek f.pos (some .other), f)
  | some pos =>
    let pos := min pos.toNat f.image.length
    (.seek pos none, ⟨f.image, pos, Nat.min_le_right _ _⟩)

/-- The answer to a call. -/
def call (f : FlatFile) : FileCall → FileAnswer × FlatFile
  | .read n => f.read n
  | .seek offset whence => f.seek offset whence

theorem image_call (f : FlatFile) (c : FileCall) : (f.call c).2.image = f.image := by
  cases c with
  | read n => rfl
  | seek offset whence =>
    simp only [call, seek]
    split <;> rfl

/-- The answers to some calls. -/
def calls (f : FlatFile) : List FileCall → List FileAnswer × FlatFile
  | [] => ([], f)
  | c :: rest => ((f.call c).1 :: ((f.call c).2.calls rest).1, ((f.call c).2.calls rest).2)

theorem image_calls (f : FlatFile) (cs : List FileCall) : (f.calls cs).2.image = f.image := by
  induction cs generalizing f with
  | nil => rfl
  | cons c rest ih => exact (ih _).trans (f.image_call c)

theorem calls_append (f : FlatFile) (cs ds : List FileCall) :
    (f.calls (cs ++ ds)).1 = (f.calls cs).1 ++ ((f.calls cs).2.calls ds).1 := by
  induction cs generalizing f with
  | nil => rfl
  | cons c rest ih => simp only [List.cons_append, calls, ih]

/-- A read behind a seek to a place in the file. -/
theorem calls_range (f : FlatFile) {start : ℕ} (hstart : start < f.image.length) (n : ℕ) :
    (f.calls [.seek start 0, .read n]).1 =
      [.seek start none, .read ((f.image.drop start).take n) none] := by
  have hseek : f.seek start 0 = (.seek start none, ⟨f.image, start, hstart.le⟩) := by
    simp only [seek, target, if_pos, Int.toNat_natCast, Nat.min_eq_left hstart.le]
  simp only [calls, call, hseek, read, bytes, if_neg (Nat.not_le.mpr hstart)]

end FlatFile

/-! ### The cache -/

namespace BlockCache

variable {G : ℤ → Block → Prop} {c : BlockCache} {idx : ℤ} {b : Block}

/-- Every cached block is good for its index. -/
def Holds (G : ℤ → Block → Prop) (c : BlockCache) : Prop :=
  ∀ idx b, c.data.lookup idx = some b → G idx b

theorem holds_new (G : ℤ → Block → Prop) (maxBlocks : ℤ) : Holds G (.new maxBlocks) := by
  intro idx b h
  cases h

theorem Holds.get (hc : Holds G c) (idx : ℤ) :
    Holds G (c.get idx).2 ∧ ∀ b, (c.get idx).1 = some b → G idx b := by
  unfold BlockCache.get
  cases hlookup : c.data.lookup idx with
  | none => exact ⟨hc, fun b h => by cases h⟩
  | some b =>
    constructor
    · simp only
      split_ifs <;> exact hc
    · intro b' h
      cases h
      exact hc idx b hlookup

/-- Eviction only loses blocks. -/
theorem lookup_evict {max : ℤ} {data : AList (fun _ : ℤ => Block)} {order : List ℤ}
    (h : (evict max data order).1.lookup idx = some b) : data.lookup idx = some b := by
  induction order generalizing data with
  | nil => exact h
  | cons first rest ih =>
    rw [evict] at h
    split_ifs at h
    · have hrest := ih h
      by_cases hne : idx = first
      · rw [hne, AList.lookup_erase] at hrest
        cases hrest
      · rwa [AList.lookup_erase_ne hne] at hrest
    · exact h

theorem Holds.put (hc : Holds G c) (hb : G idx b) : Holds G (c.put idx b) := by
  intro idx' b' h
  change ((evict c.max c.data c.order).1.insert idx b).lookup idx' = some b' at h
  by_cases hidx : idx' = idx
  · subst hidx
    rw [AList.lookup_insert] at h
    cases h
    exact hb
  · rw [AList.lookup_insert_ne hidx] at h
    exact hc idx' b' (lookup_evict h)

/-- The cache has gained at most the block with this index. -/
def Gains (c c' : BlockCache) (idx : ℤ) : Prop :=
  ∀ G : ℤ → Block → Prop, Holds G c → (∀ b, G idx b) → Holds G c'

end BlockCache

/-! ### The first bad block -/

/-- Block `j` is the first one that fails, with this error, among the blocks of `n` bytes from the
position on. -/
def FirstBad (fails : ℕ → Option Error) (width pos n j : ℕ) (e : Error) : Prop :=
  0 < n ∧ pos / width ≤ j ∧ j * width < pos + n ∧ fails j = some e ∧
    ∀ i, pos / width ≤ i → i < j → fails i = none

section FirstBad

variable {fails : ℕ → Option Error} {width pos n j k : ℕ} {e : Error}

theorem firstBad_at_pos (hn : 0 < n) (hbad : fails (pos / width) = some e) :
    FirstBad fails width pos n (pos / width) e := by
  have hle := Nat.div_mul_le_self pos width
  exact ⟨hn, le_rfl, by omega, hbad, fun i hlo hhi => by omega⟩

theorem FirstBad.unique {j' : ℕ} {e' : Error} (hbad : FirstBad fails width pos n j e)
    (hbad' : FirstBad fails width pos n j' e') : j = j' ∧ e = e' := by
  obtain ⟨-, hlo, -, hj, hfirst⟩ := hbad
  obtain ⟨-, hlo', -, hj', hfirst'⟩ := hbad'
  rcases lt_trichotomy j j' with hlt | rfl | hgt
  · cases (hfirst' j hlo hlt).symm.trans hj
  · exact ⟨rfl, Option.some.inj (hj.symm.trans hj')⟩
  · cases (hfirst j' hlo' hgt).symm.trans hj'

/-- Only the block of the position can be bad before a byte has been copied. -/
theorem FirstBad.sub_eq_zero_iff (hwidth : 0 < width) (hbad : FirstBad fails width pos n j e) :
    j * width - pos = 0 ↔ j = pos / width := by
  rw [Nat.sub_eq_zero_iff_le, ← Nat.le_div_iff_mul_le hwidth]
  exact ⟨fun hle => le_antisymm hle hbad.2.1, fun heq => heq.le⟩

/-- There is no bad block before the end of a block that is good. -/
theorem FirstBad.le_mul (hgood : fails (pos / width) = none)
    (hbad : FirstBad fails width pos n j e) : (pos / width + 1) * width ≤ j * width := by
  obtain ⟨-, hlo, -, hj, -⟩ := hbad
  apply Nat.mul_le_mul_right
  rcases Nat.lt_or_ge (pos / width) j with hlt | hge
  · exact hlt
  · rw [le_antisymm hge hlo, hgood] at hj
    cases hj

/-- The first bad block is the same for what is left after a part of a good block. -/
theorem firstBad_advance (hwidth : 0 < width) (hgood : fails (pos / width) = none) (hk : k ≤ n)
    (hend : pos + k ≤ (pos / width + 1) * width) :
    FirstBad fails width (pos + k) (n - k) j e ↔ FirstBad fails width pos n j e := by
  have hmono : pos / width ≤ (pos + k) / width := Nat.div_le_div_right (Nat.le_add_right _ _)
  have hnext : (pos + k) / width ≤ pos / width + 1 := by
    rw [← Nat.mul_div_cancel (pos / width + 1) hwidth]
    exact Nat.div_le_div_right hend
  constructor
  · rintro ⟨hn, hlo, hhi, hj, hfirst⟩
    refine ⟨by omega, by omega, by omega, hj, fun i hle hlt => ?_⟩
    rcases Nat.lt_or_ge i ((pos + k) / width) with hbefore | hafter
    · obtain rfl : i = pos / width := by omega
      exact hgood
    · exact hfirst i hafter hlt
  · intro hbad
    have hreach := hbad.le_mul hgood
    obtain ⟨hn, hlo, hhi, hj, hfirst⟩ := hbad
    have hnext' : pos / width + 1 ≤ j := Nat.le_of_mul_le_mul_right hreach hwidth
    exact ⟨by omega, by omega, by omega, hj, fun i hle hlt => hfirst i (by omega) hlt⟩

end FirstBad

/-! ### The reader -/

/-- The decoder delivers the blocks of an image, of `width` bytes each, from any state that
is ready, and stays ready. A block may be longer than the image goes. -/
def Delivers (R : BlockReader η ρ) (image : List Byte) (width : ℕ) (Ready : ρ → η → Prop) : Prop :=
  ∀ r h (i : ℕ), Ready r h → i * width < image.length →
    ∃ b r' h', R.readBlock r i h = .ok (.ok b, r', h') ∧ Ready r' h' ∧
      Blocks.block image width i <+: b.bytes

/-- The decoder delivers this block. -/
def DeliversBlock (R : BlockReader η ρ) (image : List Byte) (width : ℕ) (Ready : ρ → η → Prop)
    (i : ℕ) : Prop :=
  ∀ r h, Ready r h → ∃ b r' h', R.readBlock r i h = .ok (.ok b, r', h') ∧ Ready r' h' ∧
    Blocks.block image width i <+: b.bytes

/-- A block that can be cached under this index. -/
def IsBlock (image : List Byte) (width : ℕ) (idx : ℤ) (b : Block) : Prop :=
  ∀ i : ℕ, idx = i → Blocks.block image width i <+: b.bytes

/-- A cached reader stands for a flat file. -/
structure CachedReader.Represents (width : ℕ) (Ready : ρ → η → Prop) (c : CachedReader ρ)
    (h : η) (f : FlatFile) : Prop where
  /-- The block size. -/
  blockSize : c.blockSize = width
  /-- The number of blocks. -/
  numBlocks : c.numBlocks = ((f.image.length + width - 1) / width : ℕ)
  /-- The size of the image. -/
  size : c.size = f.image.length
  /-- The position. -/
  pos : c.pos = f.pos
  /-- The cached blocks are blocks of the image. -/
  cache : c.cache.Holds (IsBlock f.image width)
  /-- The decoder. -/
  ready : Ready c.br h

/-- The decoder delivers the blocks of an image that do not fail, and reports the error of those
that do. -/
structure Yields (R : BlockReader η ρ) (image : List Byte) (width : ℕ) (Ready : ρ → η → Prop)
    (fails : ℕ → Option Error) : Prop where
  /-- The blocks that do not fail. -/
  good : ∀ i, i * width < image.length → fails i = none → DeliversBlock R image width Ready i
  /-- The blocks that fail. -/
  bad : ∀ i e r h, i * width < image.length → fails i = some e → Ready r h →
    ∃ r' h', R.readBlock r i h = .ok (.error e, r', h') ∧ Ready r' h'

/-- No block that fails is in the cache. -/
def BlockCache.Sound (fails : ℕ → Option Error) (c : BlockCache) : Prop :=
  c.Holds fun idx _ => ∀ i : ℕ, idx = i → fails i = none

/-- A cached reader stands for a flat file with bad blocks. -/
structure CachedReader.Stands (width : ℕ) (Ready : ρ → η → Prop) (fails : ℕ → Option Error)
    (c : CachedReader ρ) (h : η) (f : FlatFile) : Prop extends
    c.Represents width Ready h f where
  /-- The cached blocks have not failed. -/
  sound : c.cache.Sound fails

theorem Delivers.yields {R : BlockReader η ρ} {image : List Byte} {width : ℕ}
    {Ready : ρ → η → Prop} (hR : Delivers R image width Ready) :
    Yields R image width Ready (fun _ => none) where
  good i hi _ r h hready := hR r h i hready hi
  bad _ _ _ _ _ hbad := by cases hbad

theorem CachedReader.Represents.stands {width : ℕ} {Ready : ρ → η → Prop} {c : CachedReader ρ}
    {h : η} {f : FlatFile} (hc : c.Represents width Ready h f) :
    c.Stands width Ready (fun _ => none) h f :=
  ⟨hc, fun _ _ _ _ _ => rfl⟩

namespace CachedReader

variable {R : BlockReader η ρ} {width pos n j k : ℕ} {Ready : ρ → η → Prop} {c : CachedReader ρ}
  {h : η} {f : FlatFile} {fails : ℕ → Option Error} {e : Error}

theorem Represents.getBlock {i : ℕ} (hR : DeliversBlock R f.image width Ready i)
    (hc : c.Represents width Ready h f) :
    ∃ b c' h', c.getBlock R i h = .ok (.ok b, c', h') ∧ c'.Represents width Ready h' f ∧
      c.cache.Gains c'.cache i ∧ Blocks.block f.image width i <+: b.bytes := by
  obtain ⟨hcache, hhit⟩ := hc.cache.get i
  unfold CachedReader.getBlock
  split
  · rename_i b cache heq
    rw [heq] at hcache hhit
    refine ⟨b, _, h, rfl, { hc with cache := hcache }, ?_, hhit b rfl i rfl⟩
    intro G hG _
    have hget := (hG.get i).1
    rwa [heq] at hget
  · rename_i cache heq
    rw [heq] at hcache
    obtain ⟨b, r', h', hread, hready, hblock⟩ := hR c.br h hc.ready
    have hput : (cache.put i b).Holds (IsBlock f.image width) := by
      apply hcache.put
      intro j hj
      rwa [← Int.ofNat_inj.mp hj]
    refine ⟨b, { c with br := r', cache := cache.put i b }, h', ?_,
      { hc with cache := hput, ready := hready }, ?_, hblock⟩
    · rw [hread]
      rfl
    · intro G hG hi
      have hget := (hG.get i).1
      rw [heq] at hget
      exact hget.put (hi b)

/-- The reader at a later position. -/
theorem Represents.advance (hc : c.Represents width Ready h f) (k : ℕ)
    (hk : f.pos + k ≤ f.image.length) :
    { c with pos := c.pos + k }.Represents width Ready h (f.advance k hk) := by
  have hpos : c.pos + k = (f.pos + k : ℕ) := by
    rw [hc.pos]
    rfl
  exact { hc with pos := hpos }

/-- A part of a block is copied. -/
theorem Represents.copyPart {i offset k : ℕ} (hR : DeliversBlock R f.image width Ready i)
    (hc : c.Represents width Ready h f) (hpos : f.pos = i * width + offset)
    (hk : offset + k ≤ (Blocks.block f.image width i).length)
    (hend : f.pos + k ≤ f.image.length) :
    ∃ c' h', c.copyPart R i offset k h = .ok (some (.ok (f.bytes k)), c', h') ∧
      c'.Represents width Ready h' (f.advance k hend) ∧ c.cache.Gains c'.cache i := by
  obtain ⟨b, c', h', hget, hc', hgains, rest, hblock⟩ := hc.getBlock hR
  refine ⟨_, h', ?_, hc'.advance k hend, hgains⟩
  have hlength : (Blocks.block f.image width i).length ≤ (b.bytes ++ b.spare).length := by
    rw [← hblock]
    simp
  have hpart : ((b.bytes ++ b.spare).drop offset).take k = f.bytes k := by
    rw [FlatFile.bytes, hpos, ← Blocks.part_block f.image hk, ← hblock, List.append_assoc,
      List.drop_append_of_le_length (by omega), List.take_append_of_le_length]
    rw [List.length_drop]
    omega
  unfold CachedReader.copyPart
  rw [hget]
  change (if (offset : ℤ) < 0 ∨ ((b.bytes ++ b.spare).length : ℤ) < offset + k then _ else _) = _
  rw [if_neg (by omega)]
  simp only [Int.toNat_natCast, hpart]
  rfl

/-- The size of the block at the position. -/
theorem Represents.lastBlockSize (hc : c.Represents width Ready h f) (hwidth : 0 < width)
    (hpos : f.pos < f.image.length) :
    c.lastBlockSize ((f.pos / width : ℕ) : ℤ) =
      (Blocks.block f.image width (f.pos / width)).length := by
  rw [Blocks.length_block, ← Blocks.size_block hwidth hpos, CachedReader.lastBlockSize,
    hc.numBlocks, hc.size, hc.blockSize, ← Int.ofNat_tmod]
  by_cases hlast : f.pos / width + 1 = (f.image.length + width - 1) / width ∧
      f.image.length % width ≠ 0
  · rw [if_pos hlast, if_pos (by omega)]
  · rw [if_neg hlast, if_neg (by omega)]

/-- A round of the loop of `Read` asks for the rest of a block, or for what is left to read. -/
theorem Represents.readRound_eq (R : BlockReader η ρ) (hc : c.Represents width Ready h f)
    (hwidth : 0 < width) (hn : 0 < n) (hend : f.pos + n ≤ f.image.length) :
    ∃ k, 0 < k ∧ k ≤ n ∧ f.pos + k ≤ (f.pos / width + 1) * width ∧
      f.pos % width + k ≤ (Blocks.block f.image width (f.pos / width)).length ∧
      c.readRound R n h = c.copyPart R (f.pos / width : ℕ) (f.pos % width : ℕ) k h := by
  have hpos : f.pos = f.pos / width * width + f.pos % width := (Nat.div_add_mod' _ _).symm
  have hmod : f.pos % width < width := Nat.mod_lt _ hwidth
  have hblock := hc.lastBlockSize hwidth (by omega)
  have hlength := Blocks.length_block f.image width (f.pos / width)
  obtain ⟨avail, havail⟩ : ∃ avail, (Blocks.block f.image width (f.pos / width)).length =
      f.pos % width + (avail + 1) := ⟨(Blocks.block f.image width (f.pos / width)).length -
        f.pos % width - 1, by omega⟩
  obtain ⟨k, hk⟩ : ∃ k, k = min n (avail + 1) := ⟨_, rfl⟩
  have hcount : min (n : ℤ) (avail + 1 : ℕ) = k := by omega
  have hblockEnd : f.pos + k ≤ (f.pos / width + 1) * width := by
    rw [add_mul, one_mul]
    omega
  refine ⟨k, by omega, by omega, hblockEnd, by omega, ?_⟩
  have hsize : ¬ (n = 0 ∨ c.size ≤ c.pos) := by
    rw [hc.size, hc.pos]
    omega
  have hzero : ¬ c.blockSize = 0 := by
    rw [hc.blockSize]
    omega
  have hrest : (Blocks.block f.image width (f.pos / width)).length - ((f.pos % width : ℕ) : ℤ) =
      (avail + 1 : ℕ) := by omega
  rw [CachedReader.readRound, if_neg hsize, if_neg hzero]
  simp only [hc.pos, hc.blockSize, ← Int.ofNat_tdiv, ← Int.ofNat_tmod, hblock, hrest, hcount]
  rw [if_neg (by omega)]

/-- A round copies what it asks for. -/
theorem Represents.readRound (hR : DeliversBlock R f.image width Ready (f.pos / width))
    (hc : c.Represents width Ready h f) (hwidth : 0 < width) (hn : 0 < n)
    (hend : f.pos + n ≤ f.image.length) :
    ∃ k c' h', ∃ hk : f.pos + k ≤ f.image.length, 0 < k ∧ k ≤ n ∧
      f.pos + k ≤ (f.pos / width + 1) * width ∧
      c.readRound R n h = .ok (some (.ok (f.bytes k)), c', h') ∧
      c'.Represents width Ready h' (f.advance k hk) ∧
      c.cache.Gains c'.cache (f.pos / width : ℕ) := by
  have hpos : f.pos = f.pos / width * width + f.pos % width := (Nat.div_add_mod' _ _).symm
  obtain ⟨k, hpositive, hle, hblockEnd, hblock, hround⟩ := hc.readRound_eq R hwidth hn hend
  obtain ⟨c', h', hcopy, hc', hgains⟩ := hc.copyPart hR hpos hblock (by omega)
  exact ⟨k, c', h', by omega, hpositive, hle, hblockEnd, hround.trans hcopy, hc', hgains⟩

/-- A block that fails is not in the cache, and reading it leaves everything as it is. -/
theorem Stands.getBlock_bad (hR : Yields R f.image width Ready fails)
    (hc : c.Stands width Ready fails h f) (hbad : fails j = some e)
    (hj : j * width < f.image.length) :
    ∃ c' h', c.getBlock R j h = .ok (.error e, c', h') ∧ c'.Stands width Ready fails h' f := by
  obtain ⟨hcache, -⟩ := hc.cache.get j
  obtain ⟨hsound, hmiss⟩ := BlockCache.Holds.get hc.sound j
  unfold CachedReader.getBlock
  split
  · rename_i b cache heq
    cases (hmiss b (by rw [heq]) j rfl).symm.trans hbad
  · rename_i cache heq
    rw [heq] at hcache hsound
    obtain ⟨r', h', hread, hready⟩ := hR.bad j e c.br h hj hbad hc.ready
    refine ⟨{ c with cache := cache, br := r' }, h', ?_,
      { hc with cache := hcache, ready := hready, sound := hsound }⟩
    rw [hread]
    rfl

/-- How the loop of `Read` ends after `m` of `n` bytes: with all of them, or before the first bad
block. -/
def Stops (fails : ℕ → Option Error) (width pos n m : ℕ) (err : Option Error) : Prop :=
  (err = none ∧ m = n ∧ ∀ j e, ¬ FirstBad fails width pos n j e) ∨
    ∃ j e, err = some e ∧ m = j * width - pos ∧ FirstBad fails width pos n j e

/-- The loop has copied nothing when it meets an error, unless this is taken for the end of the
file, if and only if the first bad block is the one at the position. -/
theorem Stops.forall_err_iff {m : ℕ} {err : Option Error} (hwidth : 0 < width)
    (hstops : Stops fails width pos n m err) :
    (∀ e, err = some e → (e = .closed ∨ e = .eof) ∨ m = 0) ↔
      ∀ j e, FirstBad fails width pos n j e → (e = .closed ∨ e = .eof) ∨ j = pos / width := by
  rcases hstops with ⟨rfl, -, hnone⟩ | ⟨j, e, rfl, rfl, hbad⟩
  · exact iff_of_true (fun e he => by cases he) fun j e hbad => absurd hbad (hnone j e)
  · constructor
    · intro herr j' e' hbad'
      obtain ⟨rfl, rfl⟩ := hbad.unique hbad'
      rw [← hbad.sub_eq_zero_iff hwidth]
      exact herr e rfl
    · rintro hfirst e' he
      cases he
      rw [hbad.sub_eq_zero_iff hwidth]
      exact hfirst j e hbad

/-- The loop goes on after a part of a good block. -/
theorem Stops.of_advance {m : ℕ} {err : Option Error} (hwidth : 0 < width)
    (hgood : fails (pos / width) = none) (hk : k ≤ n)
    (hend : pos + k ≤ (pos / width + 1) * width)
    (hstops : Stops fails width (pos + k) (n - k) m err) :
    Stops fails width pos n (k + m) err := by
  rcases hstops with ⟨herr, hm, hnone⟩ | ⟨j, e, herr, hm, hbad⟩
  · refine Or.inl ⟨herr, by omega, fun j e hbad => hnone j e ?_⟩
    exact (firstBad_advance hwidth hgood hk hend).mpr hbad
  · have hbad' := (firstBad_advance hwidth hgood hk hend).mp hbad
    have hreach := hbad'.le_mul hgood
    exact Or.inr ⟨j, e, herr, by omega, hbad'⟩

/-- The loop of `Read` copies the bytes up to the first bad block. -/
theorem Stands.readLoop {fuel : ℕ} (read : List Byte) (hR : Yields R f.image width Ready fails)
    (hc : c.Stands width Ready fails h f) (hwidth : 0 < width) (hfuel : n ≤ fuel)
    (hend : f.pos + n ≤ f.image.length) :
    ∃ m err c' h', ∃ hm : f.pos + m ≤ f.image.length,
      CachedReader.readLoop R fuel c n read h = .ok ((read ++ f.bytes m, err), c', h') ∧
      c'.Stands width Ready fails h' (f.advance m hm) ∧ Stops fails width f.pos n m err := by
  induction fuel generalizing c n read h f with
  | zero =>
    obtain rfl : n = 0 := by omega
    refine ⟨0, none, c, h, hend, ?_, hc, Or.inl ⟨rfl, rfl, fun j e hbad => ?_⟩⟩
    · rw [FlatFile.bytes, List.take_zero, List.append_nil]
      rfl
    · exact absurd hbad.1 (lt_irrefl 0)
  | succ fuel ih =>
    rcases Nat.eq_zero_or_pos n with rfl | hn
    · refine ⟨0, none, c, h, hend, ?_, hc, Or.inl ⟨rfl, rfl, fun j e hbad => ?_⟩⟩
      · rw [FlatFile.bytes, List.take_zero, List.append_nil, CachedReader.readLoop,
          CachedReader.readRound, if_pos (Or.inl rfl)]
        rfl
      · exact absurd hbad.1 (lt_irrefl 0)
    have hfirst : f.pos / width * width < f.image.length := by
      have hle := Nat.div_mul_le_self f.pos width
      omega
    cases hblock : fails (f.pos / width) with
    | some e =>
      -- the block at the position is bad, and nothing is copied
      obtain ⟨k, -, -, -, -, hround⟩ := hc.readRound_eq R hwidth hn hend
      obtain ⟨c', h', hget, hc'⟩ := hc.getBlock_bad hR hblock hfirst
      refine ⟨0, some e, c', h', f.pos_le, ?_, hc', Or.inr ⟨f.pos / width, e, rfl, ?_,
        firstBad_at_pos hn hblock⟩⟩
      · rw [CachedReader.readLoop, hround, CachedReader.copyPart, hget, FlatFile.bytes,
          List.take_zero, List.append_nil]
        rfl
      · rw [Nat.sub_eq_zero_of_le (Nat.div_mul_le_self f.pos width)]
    | none =>
      obtain ⟨k, c₁, h₁, hk, hpos, hle, hblockEnd, hround, hc₁, hgains⟩ :=
        hc.readRound (hR.good _ hfirst hblock) hwidth hn hend
      have hsound : c₁.cache.Sound fails := by
        refine hgains _ hc.sound fun b i hi => ?_
        rwa [← Int.ofNat_inj.mp hi]
      have hlength : (f.bytes k).length = k := by
        simp only [FlatFile.bytes, List.length_take, List.length_drop]
        omega
      have hrest : (f.advance k hk).pos + (n - k) ≤ (f.advance k hk).image.length := by
        simp only [FlatFile.advance]
        omega
      obtain ⟨m, err, c', h', hm, hloop, hc', hstops⟩ := ih (f := f.advance k hk) (n := n - k)
        (read ++ f.bytes k) hR ⟨hc₁, hsound⟩ (by omega) hrest
      have hm' : f.pos + (k + m) ≤ f.image.length := by
        rw [← Nat.add_assoc]
        exact hm
      refine ⟨k + m, err, c', h', hm', ?_, ?_, hstops.of_advance hwidth hblock hle hblockEnd⟩
      · have hbytes := f.bytes_append (Nat.le_add_right k m) hk
        rw [Nat.add_sub_cancel_left] at hbytes
        rw [CachedReader.readLoop, hround]
        change CachedReader.readLoop R fuel c₁ (n - (f.bytes k).length) (read ++ f.bytes k) h₁ = _
        rw [hlength, hloop, List.append_assoc, hbytes]
      · have hadvance : (f.advance k hk).advance m hm = f.advance (k + m) hm' := by
          simp only [FlatFile.advance, Nat.add_assoc]
        rwa [hadvance] at hc'

/-- A read of an image with bad blocks. -/
theorem Stands.read (hR : Yields R f.image width Ready fails)
    (hc : c.Stands width Ready fails h f) (hwidth : 0 < width) (n : ℕ) :
    ∃ m err c' h', ∃ hm : f.pos + m ≤ f.image.length, c.read R n h =
        .ok ((f.bytes m, err), c', h') ∧ c'.Stands width Ready fails h' (f.advance m hm) ∧
      ((err = some .eof ∧ f.image.length ≤ f.pos) ∨ f.pos < f.image.length ∧
        Stops fails width f.pos (min n (f.image.length - f.pos)) m err) := by
  have hle := f.pos_le
  by_cases heof : f.image.length ≤ f.pos
  · refine ⟨0, some .eof, c, h, hle, ?_, hc, Or.inl ⟨rfl, heof⟩⟩
    rw [CachedReader.read, if_pos (by rw [hc.size, hc.pos]; omega), FlatFile.bytes, List.take_zero]
  · have hcut : (if c.size - c.pos < n then (c.size - c.pos).toNat else n) =
        min n (f.image.length - f.pos) := by
      rw [hc.size, hc.pos]
      split_ifs <;> omega
    obtain ⟨m, err, c', h', hm, hloop, hc', hstops⟩ := hc.readLoop [] hR hwidth
      (le_refl (min n (f.image.length - f.pos))) (by omega)
    refine ⟨m, err, c', h', hm, ?_, hc', Or.inr ⟨by omega, hstops⟩⟩
    rw [CachedReader.read, if_neg (by rw [hc.size, hc.pos]; omega)]
    simp only [hcut, hloop, List.nil_append]

/-- Without bad blocks everything that is asked for is read. -/
theorem Represents.read (hR : Delivers R f.image width Ready) (hc : c.Represents width Ready h f)
    (hwidth : 0 < width) (n : ℕ) :
    ∃ bytes err c' h', c.read R n h = .ok ((bytes, err), c', h') ∧
      (f.read n).1 = .read bytes err ∧ c'.Represents width Ready h' (f.read n).2 := by
  obtain ⟨m, err, c', h', hm, hread, hc', hstops⟩ := hc.stands.read hR.yields hwidth n
  refine ⟨_, err, c', h', hread, ?_⟩
  rcases hstops with ⟨rfl, heof⟩ | ⟨hpos, ⟨rfl, hall, -⟩ | ⟨j, e, -, -, hbad⟩⟩
  · rw [f.read_eq (by omega) hm, if_pos heof]
    exact ⟨rfl, hc'.toRepresents⟩
  · rw [f.read_eq hall hm, if_neg (by omega)]
    exact ⟨rfl, hc'.toRepresents⟩
  · cases hbad.2.2.2.1

theorem Represents.clamp (hc : c.Represents width Ready h f) (pos : ℤ) :
    c.clamp pos = (min pos.toNat f.image.length : ℕ) := by
  simp only [CachedReader.clamp, hc.size]
  split_ifs <;> omega

theorem Represents.move (hc : c.Represents width Ready h f) (pos : ℤ) :
    { c with pos := c.clamp pos }.Represents width Ready h
      ⟨f.image, min pos.toNat f.image.length, Nat.min_le_right _ _⟩ :=
  { hc with pos := hc.clamp pos }

theorem Represents.seek (hc : c.Represents width Ready h f) (offset whence : ℤ) :
    ∃ pos err c', c.seek offset whence = ((pos, err), c') ∧
      (f.seek offset whence).1 = .seek pos err ∧
      c'.Represents width Ready h (f.seek offset whence).2 := by
  simp only [FlatFile.seek, FlatFile.target, CachedReader.seek, ← hc.pos, ← hc.size]
  split_ifs
  · exact ⟨_, _, _, rfl, by rw [hc.clamp], hc.move _⟩
  · exact ⟨_, _, _, rfl, by rw [hc.clamp], hc.move _⟩
  · exact ⟨_, _, _, rfl, by rw [hc.clamp], hc.move _⟩
  · exact ⟨_, _, _, rfl, rfl, hc⟩

/-- A call of the reader. -/
def call (R : BlockReader η ρ) (c : CachedReader ρ) (h : η) :
    FileCall → Except Fault (FileAnswer × CachedReader ρ × η)
  | .read n => do
    let ((bytes, err), c, h) ← c.read R n h
    return (.read bytes err, c, h)
  | .seek offset whence =>
    let ((pos, err), c) := c.seek offset whence
    .ok (.seek pos err, c, h)

/-- Some calls, one after the other. -/
def calls (R : BlockReader η ρ) (c : CachedReader ρ) (h : η) :
    List FileCall → Except Fault (List FileAnswer × CachedReader ρ × η)
  | [] => .ok ([], c, h)
  | first :: rest => do
    let (answer, c, h) ← c.call R h first
    let (answers, c, h) ← c.calls R h rest
    return (answer :: answers, c, h)

theorem Represents.call (hR : Delivers R f.image width Ready) (hc : c.Represents width Ready h f)
    (hwidth : 0 < width) (fc : FileCall) :
    ∃ c' h', c.call R h fc = .ok ((f.call fc).1, c', h') ∧
      c'.Represents width Ready h' (f.call fc).2 := by
  cases fc with
  | read n =>
    obtain ⟨bytes, err, c', h', hread, hanswer, hc'⟩ := hc.read hR hwidth n
    refine ⟨c', h', ?_, hc'⟩
    rw [FlatFile.call, hanswer, CachedReader.call, hread]
    rfl
  | seek offset whence =>
    obtain ⟨pos, err, c', hseek, hanswer, hc'⟩ := hc.seek offset whence
    refine ⟨c', h, ?_, hc'⟩
    rw [FlatFile.call, hanswer, CachedReader.call, hseek]

theorem Represents.calls (hR : Delivers R f.image width Ready) (hc : c.Represents width Ready h f)
    (hwidth : 0 < width) (fcs : List FileCall) :
    ∃ c' h', c.calls R h fcs = .ok ((f.calls fcs).1, c', h') ∧
      c'.Represents width Ready h' (f.calls fcs).2 := by
  induction fcs generalizing c h f with
  | nil => exact ⟨c, h, rfl, hc⟩
  | cons fc rest ih =>
    obtain ⟨c₁, h₁, hcall, hc₁⟩ := hc.call hR hwidth fc
    rw [← f.image_call fc] at hR
    obtain ⟨c', h', hcalls, hc'⟩ := ih hR hc₁
    refine ⟨c', h', ?_, hc'⟩
    rw [CachedReader.calls, hcall]
    change (CachedReader.calls R c₁ h₁ rest >>= _) = _
    rw [hcalls]
    rfl

/-- A new reader stands for the image at its start. -/
theorem Represents.new {image : List Byte} {br : ρ} (hsize : R.blockSize br = width)
    (hblocks : R.numBlocks br = ((image.length + width - 1) / width : ℕ))
    (hlength : R.uncompressedSize br = image.length) (hready : Ready br h) (cacheSize : ℤ)
    (info : CompressedInfo) :
    (newCachedReader R br cacheSize info).Represents width Ready h ⟨image, 0, Nat.zero_le _⟩ where
  blockSize := hsize
  numBlocks := hblocks
  size := hlength
  pos := rfl
  cache := BlockCache.holds_new _ _
  ready := hready

/-- Seeks and reads of an image behind a decoder are those of the image as a flat file, for
every size of the cache: no slice is out of range, and every read returns the bytes from
the position that the call before it left. -/
theorem decompressed_image_is_flat_file {image : List Byte} {br : ρ} (hwidth : 0 < width)
    (hsize : R.blockSize br = width)
    (hblocks : R.numBlocks br = ((image.length + width - 1) / width : ℕ))
    (hlength : R.uncompressedSize br = image.length) (hR : Delivers R image width Ready)
    (hready : Ready br h) (cacheSize : ℤ) (info : CompressedInfo) (fcs : List FileCall) :
    ∃ c h', (newCachedReader R br cacheSize info).calls R h fcs =
        .ok ((FlatFile.calls ⟨image, 0, Nat.zero_le _⟩ fcs).1, c, h') ∧
      c.pos = (FlatFile.calls ⟨image, 0, Nat.zero_le _⟩ fcs).2.pos := by
  have hnew := Represents.new hsize hblocks hlength hready cacheSize info
  obtain ⟨c, h', hcalls, hc⟩ := hnew.calls hR hwidth fcs
  exact ⟨c, h', hcalls, hc.pos⟩

end CachedReader

/-! ### Ranges of bytes -/

/-- Whatever was called before, a range that starts within the image is read as the bytes
that `byteAt` gives, cut at the end of the image. -/
def ReadsFlat (R : BlockReader η ρ) (br : ρ) (h : η) (size : ℕ) (byteAt : ℕ → Byte) : Prop :=
  ∀ (cacheSize : ℤ) (info : CompressedInfo) (before : List FileCall) (start n : ℕ), start < size →
    ∃ answers c h', (newCachedReader R br cacheSize info).calls R h
        (before ++ [.seek start 0, .read n]) =
      .ok (answers ++ [.seek start none,
        .read ((List.range (min n (size - start))).map fun j => byteAt (start + j)) none], c, h')

section Ranges

variable {R : BlockReader η ρ} {br : ρ} {h : η} {size width : ℕ} {byteAt byteAt' : ℕ → Byte}
  {Ready : ρ → η → Prop}

theorem take_drop_map_range (byteAt : ℕ → Byte) (size start n : ℕ) :
    (((List.range size).map byteAt).drop start).take n =
      (List.range (min n (size - start))).map fun j => byteAt (start + j) := by
  apply List.ext_getElem?
  intro j
  rw [List.getElem?_take, List.getElem?_drop, List.getElem?_map, List.getElem?_map]
  rcases Nat.lt_or_ge j (min n (size - start)) with hj | hj
  · rw [if_pos (by omega), List.getElem?_range (by omega), List.getElem?_range hj]
    rfl
  · rw [List.getElem?_eq_none (l := List.range (min n (size - start))) (by simpa using hj)]
    split_ifs
    · rw [List.getElem?_eq_none (by rw [List.length_range]; omega)]
      rfl
    · rfl

/-- A decoder that delivers the blocks of these bytes lets every range of them be read. -/
theorem Delivers.readsFlat (hR : Delivers R ((List.range size).map byteAt) width Ready)
    (hwidth : 0 < width) (hsize : R.blockSize br = width)
    (hblocks : R.numBlocks br = ((size + width - 1) / width : ℕ))
    (hlength : R.uncompressedSize br = size) (hready : Ready br h) :
    ReadsFlat R br h size byteAt := by
  intro cacheSize info before start n hstart
  have himage : ((List.range size).map byteAt).length = size := by simp
  have hnew : (newCachedReader R br cacheSize info).Represents width Ready h
      ⟨(List.range size).map byteAt, 0, Nat.zero_le _⟩ :=
    .new hsize (by rw [himage, hblocks]) (by rw [himage, hlength]) hready cacheSize info
  obtain ⟨c, h', hcalls, -⟩ := hnew.calls hR hwidth (before ++ [.seek start 0, .read n])
  obtain ⟨f, hf⟩ : ∃ f, f = (FlatFile.calls ⟨(List.range size).map byteAt, 0, Nat.zero_le _⟩
      before).2 := ⟨_, rfl⟩
  have hbytes : f.image = (List.range size).map byteAt := by
    rw [hf, FlatFile.image_calls]
  have hin : start < f.image.length := by rwa [hbytes, himage]
  rw [FlatFile.calls_append, ← hf, f.calls_range hin, hbytes, take_drop_map_range] at hcalls
  exact ⟨_, c, h', hcalls⟩

/-- What a range is read as is determined, byte by byte. -/
theorem ReadsFlat.unique (hreads : ReadsFlat R br h size byteAt)
    (hreads' : ReadsFlat R br h size byteAt') {k : ℕ} (hk : k < size) : byteAt k = byteAt' k := by
  obtain ⟨answers, c, h', hcalls⟩ := hreads 0 .zero [] k 1 hk
  obtain ⟨answers', c', h'', hcalls'⟩ := hreads' 0 .zero [] k 1 hk
  rw [hcalls, Nat.min_eq_left (by omega)] at hcalls'
  have hlast := congrArg List.getLast? (Prod.mk.inj (Except.ok.inj hcalls')).1
  simpa using hlast

end Ranges

/-- A decoder that has its image in memory. -/
def BlockReader.ofImage (image : List Byte) (width : ℕ) : BlockReader Unit Unit where
  readBlock _ blockIdx _ := .ok (.ok ⟨Blocks.block image width blockIdx.toNat, []⟩, (), ())
  blockSize _ := width
  numBlocks _ := ((image.length + width - 1) / width : ℕ)
  uncompressedSize _ := image.length
  close _ _ := ()

theorem delivers_ofImage (image : List Byte) (width : ℕ) :
    Delivers (.ofImage image width) image width (fun _ _ => True) := by
  intro r h i _ _
  exact ⟨_, r, h, rfl, trivial, by simp⟩

/-- Five bytes in blocks of two, with room for one block: reads across blocks and up to the
end, one behind it, and one of a block that is no longer cached. -/
theorem CachedReader.decompressed_image_is_flat_file_of_three_blocks :
    ∃ c, (newCachedReader (.ofImage [1, 2, 3, 4, 5] 2) () 1 .zero).calls
        (.ofImage [1, 2, 3, 4, 5] 2) ()
        [.seek 1 0, .read 3, .read 9, .read 1, .seek (-4) 2, .read 2] =
      .ok ([.seek 1 none, .read [2, 3, 4] none, .read [5] none, .read [] (some .eof),
        .seek 1 none, .read [2, 3] none], c, ()) ∧ c.pos = 3 := by
  obtain ⟨c, _, hcalls, hpos⟩ := decompressed_image_is_flat_file (Nat.succ_pos 1) rfl rfl rfl
    (delivers_ofImage [1, 2, 3, 4, 5] 2) trivial 1 .zero
    [.seek 1 0, .read 3, .read 9, .read 1, .seek (-4) 2, .read 2]
  exact ⟨c, hcalls, hpos⟩

end Udpfsd.Fs
