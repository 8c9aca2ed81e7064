import Udpfsd.Base.Transition
import Udpfsd.Fs.FlatFile

/-!
# Reading an image to the end

Reads with buffers of any sizes, until there is nothing left, return the image when the
decoder delivers its blocks. When the decoder never delivers one of them, no sequence of reads
gets past the start of that block.
-/

namespace Udpfsd.Fs

open Udprdma (Byte)
open Udpfs (Error Fault)

variable {η ρ : Type}

namespace CachedReader

/-- Reads with buffers of these sizes, up to the end of the file or to another error: the
bytes they return together. -/
def readAll (R : BlockReader η ρ) (c : CachedReader ρ) :
    List ℕ → η → Except Fault (Except Error (List Byte) × CachedReader ρ × η)
  | [], h => .ok (.ok [], c, h)
  | n :: ns, h => do
    let ((bytes, err), c, h) ← c.read R n h
    match err with
    | some err => return (if err = .eof then .ok bytes else .error err, c, h)
    | none => do
      let (r, c, h) ← readAll R c ns h
      return (r.map (bytes ++ ·), c, h)

end CachedReader

/-- An image that is opened is read as these bytes, through a cache of this size and with
buffers of these sizes. -/
def ReadsAs (R : BlockReader η ρ) (opened : Except Fault (Except Error ρ × η)) (cacheSize : ℤ)
    (ns : List ℕ) (image : List Byte) : Prop :=
  ∃ br h₁ c h₂, opened = .ok (.ok br, h₁) ∧
    (newCachedReader R br cacheSize .zero).readAll R ns h₁ = .ok (.ok image, c, h₂)

namespace CachedReader

variable {R : BlockReader η ρ} {width : ℕ} {Ready : ρ → η → Prop} {c : CachedReader ρ} {h : η}

/-- Nothing is read at the end of an image. -/
theorem readAll_of_size_le (hsize : c.size ≤ c.pos) (ns : List ℕ) :
    c.readAll R ns h = .ok (.ok [], c, h) := by
  cases ns with
  | nil => rfl
  | cons n ns =>
    rw [CachedReader.readAll, CachedReader.read, if_pos hsize]
    rfl

/-- A decoder that delivers all blocks lets the image be read. -/
theorem Represents.readAll {f : FlatFile} (hR : Delivers R f.image width Ready)
    (hc : c.Represents width Ready h f) (hwidth : 0 < width) {ns : List ℕ}
    (hns : f.image.length - f.pos ≤ ns.sum) :
    ∃ c' h', c.readAll R ns h = .ok (.ok (f.image.drop f.pos), c', h') := by
  induction ns generalizing c h f with
  | nil =>
    refine ⟨c, h, ?_⟩
    rw [List.drop_of_length_le (by simp only [List.sum_nil] at hns; omega)]
    rfl
  | cons n ns ih =>
    obtain ⟨bytes, err, c₁, h₁, hread, hanswer, hc₁⟩ := hc.read hR hwidth n
    simp only [FlatFile.read, FileAnswer.read.injEq] at hanswer
    obtain ⟨rfl, rfl⟩ := hanswer
    rw [CachedReader.readAll, hread]
    by_cases heof : f.image.length ≤ f.pos
    · have hdrop : f.image.drop f.pos = [] := List.drop_of_length_le heof
      refine ⟨c₁, h₁, ?_⟩
      rw [if_pos heof, FlatFile.bytes, hdrop, List.take_nil]
      rfl
    · rw [if_neg heof]
      obtain ⟨c', h', hrest⟩ := ih (f := (f.read n).2) hR hc₁ (by
        simp only [FlatFile.read, FlatFile.advance, FlatFile.bytes, List.length_take,
          List.length_drop, List.sum_cons] at hns ⊢
        omega)
      refine ⟨c', h', ?_⟩
      change (CachedReader.readAll R c₁ ns h₁ >>= _) = _
      rw [hrest]
      have hsplit : f.bytes n ++ (f.read n).2.image.drop (f.read n).2.pos = f.image.drop f.pos := by
        simp only [FlatFile.read, FlatFile.advance, ← List.drop_drop]
        exact List.prefix_iff_eq_append.mp (List.take_prefix n _)
      exact congrArg (fun bytes => Except.ok (Except.ok bytes, c', h')) hsplit

end CachedReader

/-! ### A block that cannot be had -/

/-- The decoder does not deliver block `i`, from any state it can be in. -/
def Refuses (R : BlockReader η ρ) (i : ℕ) (Ready : ρ → η → Prop) : Prop :=
  ∀ r h idx res r' h', Ready r h → R.readBlock r idx h = .ok (res, r', h') →
    Ready r' h' ∧ (idx = i → ∃ err, res = .error err)

/-- A reader that has not got past the start of block `i` and does not have it cached. -/
structure CachedReader.Before (i width : ℕ) (Ready : ρ → η → Prop) (c : CachedReader ρ) (h : η) :
    Prop where
  /-- The block size. -/
  blockSize : c.blockSize = width
  /-- The position is in the image. -/
  pos_nonneg : 0 ≤ c.pos
  /-- The position is not behind the start of the block. -/
  pos_le : c.pos ≤ i * width
  /-- The block is not cached. -/
  cache : c.cache.Holds (fun idx _ => idx ≠ i)
  /-- The decoder. -/
  ready : Ready c.br h

namespace CachedReader

variable {R : BlockReader η ρ} {i width : ℕ} {Ready : ρ → η → Prop} {c c' : CachedReader ρ}
  {h h' : η}

theorem Before.getBlock {idx : ℤ} {res : Except Error Block} (hR : Refuses R i Ready)
    (hc : c.Before i width Ready h) (hok : c.getBlock R idx h = .ok (res, c', h')) :
    c'.Before i width Ready h' ∧ c'.pos = c.pos ∧ (idx = i → ∃ err, res = .error err) := by
  obtain ⟨hcache, hhit⟩ := hc.cache.get idx
  unfold CachedReader.getBlock at hok
  split at hok
  · rename_i b cache heq
    rw [heq] at hcache hhit
    cases hok
    exact ⟨{ hc with cache := hcache }, rfl, fun hidx => absurd hidx (hhit b rfl)⟩
  · rename_i cache heq
    rw [heq] at hcache
    obtain ⟨⟨r, br, h₁⟩, hread, hok⟩ := Fallible.bind_eq_ok.mp hok
    obtain ⟨hready, hrefuse⟩ := hR _ _ _ _ _ _ hc.ready hread
    cases r with
    | error err =>
      cases hok
      exact ⟨{ hc with cache := hcache, ready := hready }, rfl, fun _ => ⟨err, rfl⟩⟩
    | ok b =>
      cases hok
      have hidx : idx ≠ i := by
        intro hidx
        obtain ⟨err, herr⟩ := hrefuse hidx
        cases herr
      exact ⟨{ hc with cache := hcache.put hidx, ready := hready }, rfl, fun h => absurd h hidx⟩

theorem lastBlockSize_le (c : CachedReader ρ) (hsize : 0 < c.blockSize) (idx : ℤ) :
    c.lastBlockSize idx ≤ c.blockSize := by
  have hlt := Int.tmod_lt_of_pos c.size hsize
  unfold CachedReader.lastBlockSize
  split_ifs <;> omega

/-- The number of bytes that a round of the loop of `Read` copies. -/
def copied : Option (Except Error (List Byte)) → ℕ
  | some (.ok part) => part.length
  | _ => 0

section Refusal

variable (hR : Refuses R i Ready) (hc : c.Before i width Ready h)
include hR hc

/-- A part that is copied moves the position by its length, and not past the block. -/
theorem Before.copyPart {idx offset toRead : ℤ} {r : Option (Except Error (List Byte))}
    (hpos : c.pos = idx * width + offset) (htoRead : 0 ≤ toRead) (hwithin : offset + toRead ≤ width)
    (hidx : idx ≤ i) (hok : c.copyPart R idx offset toRead h = .ok (r, c', h')) :
    c'.Before i width Ready h' ∧ c'.pos = c.pos + copied r := by
  unfold CachedReader.copyPart at hok
  obtain ⟨⟨res, c₁, h₁⟩, hget, hok⟩ := Fallible.bind_eq_ok.mp hok
  obtain ⟨hc₁, hpos₁, hrefuse⟩ := hc.getBlock hR hget
  cases res with
  | error err =>
    cases hok
    exact ⟨hc₁, by simp [copied, hpos₁]⟩
  | ok b =>
    simp only at hok
    split_ifs at hok with hbounds
    cases hok
    have hbefore : idx + 1 ≤ i := by
      rcases hidx.lt_or_eq with hlt | heq
      · omega
      · obtain ⟨err, herr⟩ := hrefuse heq
        cases herr
    have hend : (idx + 1) * width ≤ i * width :=
      Int.mul_le_mul_of_nonneg_right hbefore (Int.natCast_nonneg width)
    rw [add_mul, one_mul] at hend
    have hnonneg := hc₁.pos_nonneg
    refine ⟨{ hc₁ with pos_nonneg := ?_, pos_le := ?_ }, ?_⟩
    · simp only
      omega
    · simp only
      omega
    · simp only [copied, List.length_take, List.length_drop]
      omega

theorem Before.readRound {n : ℕ} {r : Option (Except Error (List Byte))}
    (hok : c.readRound R n h = .ok (r, c', h')) :
    c'.Before i width Ready h' ∧ c'.pos = c.pos + copied r := by
  unfold CachedReader.readRound at hok
  split_ifs at hok with hdone hzero
  · cases hok
    exact ⟨hc, by simp [copied]⟩
  simp only at hok
  split_ifs at hok with havail
  · cases hok
    exact ⟨hc, by simp [copied]⟩
  have hsize := hc.blockSize
  have hpos : 0 < c.blockSize := by omega
  have hdiv : c.pos = c.pos.tdiv c.blockSize * width + c.pos.tmod c.blockSize := by
    rw [← hsize, mul_comm, Int.mul_tdiv_add_tmod]
  have hlast := c.lastBlockSize_le hpos (c.pos.tdiv c.blockSize)
  have hle : c.pos.tdiv c.blockSize ≤ i := by
    rw [Int.tdiv_eq_ediv_of_nonneg hc.pos_nonneg]
    have hpos_le := hc.pos_le
    rw [← hsize] at hpos_le
    exact Int.ediv_le_of_le_mul hpos hpos_le
  exact hc.copyPart hR hdiv (by omega) (by omega) hle hok

theorem Before.readLoop {fuel n : ℕ} {read bytes : List Byte} {err : Option Error}
    (hok : CachedReader.readLoop R fuel c n read h = .ok ((bytes, err), c', h')) :
    c'.Before i width Ready h' ∧ c'.pos + read.length = c.pos + bytes.length := by
  induction fuel generalizing c n read h with
  | zero =>
    cases hok
    exact ⟨hc, rfl⟩
  | succ fuel ih =>
    rw [CachedReader.readLoop] at hok
    obtain ⟨⟨r, c₁, h₁⟩, hround, hok⟩ := Fallible.bind_eq_ok.mp hok
    obtain ⟨hc₁, hpos⟩ := hc.readRound hR hround
    rcases r with _ | (err | part)
    · cases hok
      exact ⟨hc₁, by simp [hpos, copied]⟩
    · cases hok
      exact ⟨hc₁, by simp [hpos, copied]⟩
    · obtain ⟨hc', hpos'⟩ := ih hc₁ hok
      refine ⟨hc', ?_⟩
      rw [List.length_append] at hpos'
      simp only [copied] at hpos
      omega

theorem Before.read {n : ℕ} {bytes : List Byte} {err : Option Error}
    (hok : c.read R n h = .ok ((bytes, err), c', h')) :
    c'.Before i width Ready h' ∧ c'.pos = c.pos + bytes.length := by
  unfold CachedReader.read at hok
  by_cases heof : c.size ≤ c.pos
  · rw [if_pos heof] at hok
    cases hok
    exact ⟨hc, by simp⟩
  · rw [if_neg heof] at hok
    obtain ⟨hc', hpos⟩ := hc.readLoop hR hok
    refine ⟨hc', ?_⟩
    simpa using hpos

/-- No sequence of reads gets past the start of a block that cannot be had. -/
theorem Before.readAll {ns : List ℕ} {bytes : List Byte}
    (hok : c.readAll R ns h = .ok (.ok bytes, c', h')) : c.pos + bytes.length ≤ i * width := by
  induction ns generalizing c h bytes with
  | nil =>
    cases hok
    simpa using hc.pos_le
  | cons n ns ih =>
    rw [CachedReader.readAll] at hok
    obtain ⟨⟨⟨part, err⟩, c₁, h₁⟩, hread, hok⟩ := Fallible.bind_eq_ok.mp hok
    obtain ⟨hc₁, hpos⟩ := hc.read hR hread
    cases err with
    | some err =>
      simp only at hok
      split_ifs at hok
      · cases hok
        rw [← hpos]
        exact hc₁.pos_le
      · cases hok
    | none =>
      obtain ⟨⟨r, c₂, h₂⟩, hrest, hok⟩ := Fallible.bind_eq_ok.mp hok
      cases r with
      | error err => cases hok
      | ok rest =>
        cases hok
        have hle := ih hc₁ hrest
        rw [List.length_append]
        omega

end Refusal

/-- A new reader has not got past any block. -/
theorem Before.new {br : ρ} (hsize : R.blockSize br = width) (hready : Ready br h)
    (cacheSize : ℤ) (info : CompressedInfo) :
    (newCachedReader R br cacheSize info).Before i width Ready h where
  blockSize := hsize
  pos_nonneg := le_rfl
  pos_le := by
    have := Int.natCast_nonneg (i * width)
    simpa [newCachedReader] using this
  cache := BlockCache.holds_new _ _
  ready := hready

end CachedReader

/-! ### Opened images -/

section Opened

variable {R : BlockReader η ρ} {opened : Except Fault (Except Error ρ × η)} {cacheSize : ℤ}
  {ns : List ℕ} {image : List Byte} {Ready : ρ → η → Prop} {width : ℕ} {br : ρ} {h : η}

/-- An image whose blocks are delivered is read. -/
theorem ReadsAs.of_delivers (hopened : opened = .ok (.ok br, h)) (hwidth : 0 < width)
    (hsize : R.blockSize br = width)
    (hblocks : R.numBlocks br = ((image.length + width - 1) / width : ℕ))
    (hlength : R.uncompressedSize br = image.length) (hready : Ready br h)
    (hR : Delivers R image width Ready) (hns : image.length ≤ ns.sum) :
    ReadsAs R opened cacheSize ns image := by
  have hnew := CachedReader.Represents.new hsize hblocks hlength hready cacheSize .zero
  obtain ⟨c, h₂, hread⟩ := hnew.readAll hR hwidth hns
  exact ⟨br, h, c, h₂, hopened, hread⟩

/-- An image is not read further than to a block that is refused. -/
theorem ReadsAs.length_le {i : ℕ} (hopened : opened = .ok (.ok br, h))
    (hsize : R.blockSize br = width) (hready : Ready br h) (hR : Refuses R i Ready)
    (hread : ReadsAs R opened cacheSize ns image) : image.length ≤ i * width := by
  obtain ⟨br', h₁, c, h₂, hopened', hread⟩ := hread
  cases hopened.symm.trans hopened'
  have hle := (CachedReader.Before.new hsize hready cacheSize .zero).readAll hR hread
  simp only [newCachedReader] at hle
  exact_mod_cast (Int.zero_add _ ▸ hle)

/-- An image of a negative size is read as empty. -/
theorem ReadsAs.eq_nil (hneg : ∀ br h, opened = .ok (.ok br, h) → R.uncompressedSize br < 0)
    (hread : ReadsAs R opened cacheSize ns image) : image = [] := by
  obtain ⟨br, h₁, c, h₂, hopened, hread⟩ := hread
  have hsize := hneg br h₁ hopened
  rw [CachedReader.readAll_of_size_le (show R.uncompressedSize br ≤ 0 by omega)] at hread
  cases hread
  rfl

end Opened

end Udpfsd.Fs
