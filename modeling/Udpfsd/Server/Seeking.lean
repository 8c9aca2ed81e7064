import Udpfsd.Fs.FailedRead
import Udpfsd.Server.Replies

/-!
# Seeking in a decompressed image

`Seek` adds the offset to its base in 64-bit words and then brings the sum back into the
image. The position stays in the image whatever is read and sought. It is the nearest one to
what was asked for as long as the sum does not overflow; if it does, the image is rewound.
-/

namespace Udpfsd.Udpfs

open Udprdma (Byte uint32 putUint32 uint32_putUint32)
open Fs (uint64 putUint64 uint64_putUint64)

/-! ### The messages -/

/-- An LSEEK request; its two reserved bytes and what follows it are not looked at. -/
def lseekRequest (handle : BitVec 32) (offset : BitVec 64) (whence x y : Byte)
    (rest : List Byte) : List Byte :=
  [MsgType.lseekReq.code, whence, x, y] ++ putUint32 handle ++ putUint64 offset ++ rest

variable (handle : BitVec 32) (offset : BitVec 64) (whence x y : Byte) (rest : List Byte)

theorem handleField_lseekRequest :
    handleField (lseekRequest handle offset whence x y rest) = handle.toInt := by
  have hdrop : (lseekRequest handle offset whence x y rest).drop 4 =
      putUint32 handle ++ (putUint64 offset ++ rest) := by
    simp [lseekRequest]
  rw [handleField, hdrop, uint32_putUint32]

theorem longField_lseekRequest :
    longField (lseekRequest handle offset whence x y rest) = offset.toInt := by
  have hdrop : (lseekRequest handle offset whence x y rest).drop 8 =
      putUint64 offset ++ rest := by
    simp [lseekRequest, putUint32]
  have hlong (payload : List Byte) : longField payload = (uint64 (payload.drop 8)).toInt := by
    rw [longField, uint64, List.drop_drop]
  rw [hlong, hdrop, uint64_putUint64]

/-- The position that a client reads from an LSEEK reply, a signed 64-bit number. -/
def lseekPosition (reply : List Byte) : ℤ := (uint64 (reply.drop 4)).toInt

/-- A position is read back from its reply. -/
theorem lseekPosition_packLseekReply {position : ℤ} (hlow : 0 ≤ position)
    (hhigh : position < 2 ^ 63) : lseekPosition (packLseekReply position) = position := by
  have hreply : packLseekReply position =
      [MsgType.lseekReply.code, 0, 0, 0] ++ putUint64 (BitVec.ofInt 64 position) := by
    have hlo : BitVec.ofInt 32 position = (BitVec.ofInt 64 position).setWidth 32 := by
      apply BitVec.eq_of_toNat_eq
      simp
      omega
    rw [packLseekReply, if_neg (by omega), putUint64, hlo, List.append_assoc]
  have hdrop : (packLseekReply position).drop 4 = putUint64 (BitVec.ofInt 64 position) ++ [] := by
    rw [hreply, List.append_nil]
    rfl
  rw [lseekPosition, hdrop, uint64_putUint64, BitVec.toInt_ofInt]
  exact Fs.int64_eq_self (by omega) hhigh

end Udpfsd.Udpfs

namespace Udpfsd.Fs

open Udprdma (Byte)
open Udpfs

variable {η φ ρ : Type}

namespace CachedReader

variable {R : BlockReader η ρ} {c c' : CachedReader ρ} {h h' : η}

/-! ### The position -/

/-- The position is in the image. -/
def InRange (c : CachedReader ρ) : Prop := 0 ≤ c.pos ∧ c.pos ≤ c.size

/-- One round of `Read` moves behind what it copies, which fits the buffer. -/
theorem readRound_spec {n : ℕ} {r : Option (Except Error (List Byte))}
    (hok : c.readRound R n h = .ok (r, c', h')) :
    c'.size = c.size ∧ ((∃ part, r = some (.ok part) ∧ part.length ≤ n ∧
        c'.pos = c.pos + part.length) ∨
      (∀ part, r ≠ some (.ok part)) ∧ c'.pos = c.pos) := by
  unfold readRound at hok
  by_cases hend : n = 0 ∨ c.size ≤ c.pos
  · rw [if_pos hend] at hok
    cases hok
    exact ⟨rfl, .inr ⟨by simp, rfl⟩⟩
  rw [if_neg hend] at hok
  by_cases hzero : c.blockSize = 0
  · rw [if_pos hzero] at hok
    cases hok
  rw [if_neg hzero] at hok
  simp only at hok
  split at hok
  · cases hok
    exact ⟨rfl, .inr ⟨by simp, rfl⟩⟩
  rename_i havail
  obtain ⟨⟨r', c₁, h₁⟩, hblock, hok⟩ := Fallible.bind_eq_ok.mp hok
  obtain ⟨cache, br, rfl⟩ := getBlock_eq hblock
  cases r' with
  | error err =>
    cases hok
    exact ⟨rfl, .inr ⟨by simp, rfl⟩⟩
  | ok b =>
    simp only at hok
    split_ifs at hok with hbounds
    cases hok
    refine ⟨rfl, .inl ⟨_, rfl, ?_, ?_⟩⟩
    · rw [List.length_take, List.length_drop]
      omega
    · simp only [List.length_take, List.length_drop]
      omega

theorem readLoop_inRange {fuel n : ℕ} {read : List Byte} {r : List Byte × Option Error}
    (hc : 0 ≤ c.pos ∧ c.pos + n ≤ c.size) (hok : readLoop R fuel c n read h = .ok (r, c', h')) :
    c'.size = c.size ∧ c'.InRange := by
  induction fuel generalizing c n read h with
  | zero =>
    cases hok
    exact ⟨rfl, by unfold InRange; omega⟩
  | succ fuel ih =>
    obtain ⟨⟨r', c₁, h₁⟩, hround, hok⟩ := Fallible.bind_eq_ok.mp hok
    obtain ⟨hsize, ⟨part, rfl, hpart, hpos⟩ | ⟨hnone, hpos⟩⟩ := readRound_spec hround
    · obtain ⟨hsize', hrange⟩ := ih (by omega) hok
      exact ⟨hsize'.trans hsize, hrange⟩
    · have hc₁ : c₁.size = c.size ∧ c₁.InRange := ⟨hsize, by unfold InRange; omega⟩
      cases r' with
      | none =>
        cases hok
        exact hc₁
      | some r' =>
        cases r' with
        | error err =>
          cases hok
          exact hc₁
        | ok part => exact absurd rfl (hnone part)

theorem read_inRange {n : ℕ} {r : List Byte × Option Error} (hc : c.InRange)
    (hok : c.read R n h = .ok (r, c', h')) : c'.size = c.size ∧ c'.InRange := by
  unfold CachedReader.read at hok
  split at hok
  · cases hok
    exact ⟨rfl, hc⟩
  · apply readLoop_inRange _ hok
    obtain ⟨hlow, hhigh⟩ := hc
    split_ifs <;> omega

theorem clamp_eq (hsize : 0 ≤ c.size) (pos : ℤ) : c.clamp pos = max 0 (min c.size pos) := by
  unfold clamp
  simp only
  split_ifs <;> omega

theorem seek_inRange (hc : c.InRange) (offset whence : ℤ) :
    (c.seek offset whence).2.size = c.size ∧ (c.seek offset whence).2.InRange := by
  have hmove (pos : ℤ) : InRange { c with pos := c.clamp pos } := by
    obtain ⟨hlow, hhigh⟩ := hc
    unfold InRange
    simp only [clamp_eq (hlow.trans hhigh)]
    omega
  unfold CachedReader.seek
  simp only
  split_ifs
  · exact ⟨rfl, hmove _⟩
  · exact ⟨rfl, hmove _⟩
  · exact ⟨rfl, hmove _⟩
  · exact ⟨rfl, hc⟩

/-- The position stays in the image, whatever is read and sought. -/
theorem calls_inRange {fcs : List FileCall} {answers : List FileAnswer} (hc : c.InRange)
    (hok : c.calls R h fcs = .ok (answers, c', h')) : c'.size = c.size ∧ c'.InRange := by
  induction fcs generalizing c h answers with
  | nil =>
    cases hok
    exact ⟨rfl, hc⟩
  | cons first rest ih =>
    obtain ⟨⟨answer, c₁, h₁⟩, hcall, hok⟩ := Fallible.bind_eq_ok.mp hok
    obtain ⟨⟨answers', c₂, h₂⟩, hrest, hok⟩ := Fallible.bind_eq_ok.mp hok
    cases hok
    have hfirst : c₁.size = c.size ∧ c₁.InRange := by
      cases first with
      | read n =>
        obtain ⟨⟨⟨bytes, err⟩, c₃, h₃⟩, hread, hcall⟩ := Fallible.bind_eq_ok.mp hcall
        cases hcall
        exact read_inRange hc hread
      | seek offset whence =>
        cases hcall
        exact seek_inRange hc offset whence
    obtain ⟨hsize, hrange⟩ := ih hfirst.2 hrest
    exact ⟨hsize.trans hfirst.1, hrange⟩

/-! ### The sum -/

/-- What the offset of a seek counts from. -/
def seekBase (c : CachedReader ρ) (whence : ℤ) : Option ℤ :=
  if whence = 0 then some 0
  else if whence = 1 then some c.pos
  else if whence = 2 then some c.size
  else none

/-- The sum of base and offset fits a signed 64-bit word. -/
def SumFits (c : CachedReader ρ) (offset whence : ℤ) : Prop :=
  ∀ base, c.seekBase whence = some base → base + offset < 2 ^ 63

/-- A sum that overflows becomes negative, so that it is brought back to the start and not to
the end. -/
theorem clamp_int64_iff {base offset : ℤ} (hsize : c.size < 2 ^ 63) (hlow : 0 ≤ base)
    (hhigh : base ≤ c.size) (hoffset : -2 ^ 63 ≤ offset) (hoffset' : offset < 2 ^ 63) :
    c.clamp (int64 (base + offset)) = max 0 (min c.size (base + offset)) ↔
      base + offset < 2 ^ 63 := by
  rw [clamp_eq (hlow.trans hhigh)]
  by_cases hfits : base + offset < 2 ^ 63
  · rw [int64_eq_self (by omega) hfits]
    exact iff_of_true rfl hfits
  · rw [int64_wrap (by omega) (by omega)]
    omega

/-- `Seek` moves to the position nearest to what was asked for if and only if the sum fits. -/
theorem seek_eq_iff {base offset whence : ℤ} (hc : c.InRange) (hsize : c.size < 2 ^ 63)
    (hoffset : -2 ^ 63 ≤ offset) (hoffset' : offset < 2 ^ 63)
    (hbase : c.seekBase whence = some base) :
    ∃ pos, c.seek offset whence = ((pos, none), { c with pos := pos }) ∧
      (pos = max 0 (min c.size (base + offset)) ↔ base + offset < 2 ^ 63) := by
  obtain ⟨hlow, hhigh⟩ := hc
  unfold seekBase at hbase
  unfold CachedReader.seek
  simp only
  split_ifs at hbase ⊢ with h₀ h₁ h₂
  · cases hbase
    refine ⟨_, rfl, ?_⟩
    rw [clamp_eq (hlow.trans hhigh), zero_add]
    exact iff_of_true rfl hoffset'
  · cases hbase
    exact ⟨_, rfl, clamp_int64_iff hsize hlow hhigh hoffset hoffset'⟩
  · cases hbase
    exact ⟨_, rfl, clamp_int64_iff hsize (hlow.trans hhigh) le_rfl hoffset hoffset'⟩

theorem seek_of_seekBase_eq_none {offset whence : ℤ} (hbase : c.seekBase whence = none) :
    c.seek offset whence = ((c.pos, some .other), c) := by
  unfold seekBase at hbase
  unfold CachedReader.seek
  simp only
  split_ifs at hbase ⊢
  rfl

end CachedReader

/-! ### The request -/

/-- What a client may expect from an LSEEK of the image behind a handle: the position nearest
to the base and the offset in the image, also in the reply; for a whence that makes no sense
an error, and the position as it was. -/
def SeeksExactly (c : CachedReader ρ) (handle offset whence : ℤ)
    (run : Except Fault (Outcome (Backend η φ ρ))) : Prop :=
  ∃ out g c', run = .ok out ∧ out.fs.fileAt handle = some g ∧ g.obj = .cachedReader c' ∧
    match c.seekBase whence with
    | some base => c' = { c with pos := max 0 (min c.size (base + offset)) } ∧
        lseekPosition out.reply.payload = max 0 (min c.size (base + offset))
    | none => out.reply.Failed ∧ c' = c

variable {s : Backend η φ ρ} {f : FileHandle φ ρ} {c : CachedReader ρ}

/-- The reply to an LSEEK with this position and error. -/
def seekReply (pos : ℤ) (err : Option Error) : Reply := .lseekReply (if err.isSome then -1 else pos)

section Request

variable (P : Platform η φ ρ) (conn : Connection) {handle : BitVec 32} (offset : BitVec 64)
  (whence x y : Byte) (rest : List Byte)

/-- An LSEEK of an image is a call of its `Seek`. -/
theorem handlePayload_lseek (hf : s.fileAt handle.toInt = some f) (hobj : f.obj = .cachedReader c) :
    ∃ out g, conn.handlePayload (Backend.fs P) s (lseekRequest handle offset whence x y rest) =
        .ok out ∧ out.fs.fileAt handle.toInt = some g ∧
      g.obj = .cachedReader (c.seek offset.toInt whence.toNat).2 ∧
      out.reply = seekReply (c.seek offset.toInt whence.toNat).1.1
        (c.seek offset.toInt whence.toNat).1.2 := by
  obtain ⟨⟨pos, err⟩, c', hseek⟩ :
      ∃ r c', c.seek offset.toInt whence.toNat = (r, c') := ⟨_, _, rfl⟩
  have hbody : f.seek P offset.toInt whence.toNat s.world = ((pos, err),
      { f with obj := .cachedReader c' },
      { s.world.access f.id .seek with host := s.world.host }) := by
    rw [FileHandle.seek, hobj, FileObject.seek, hseek]
  have hwith : ∃ t, Backend.lseek P handle.toInt offset.toInt whence.toNat s = .ok ((pos, err), t) ∧
      t.fileAt handle.toInt = some { f with obj := .cachedReader c' } ∧ t.world = _ :=
    Backend.withFile_of_fileAt hf (by rw [hbody])
  obtain ⟨t, hlseek, ht, -⟩ := hwith
  have hlength : 16 ≤ (lseekRequest handle offset whence x y rest).length := by
    simp [lseekRequest, Udprdma.putUint32, putUint64]
  have hrun : conn.handlePayload (Backend.fs P) s (lseekRequest handle offset whence x y rest) =
      .ok ⟨conn, t, seekReply pos err, if err.isSome then -1 else 0⟩ := by
    change conn.handleLseek (Backend.fs P) s (lseekRequest handle offset whence x y rest) = _
    rw [Connection.handleLseek, if_neg (by omega), handleField_lseekRequest,
      longField_lseekRequest]
    change (Backend.lseek P handle.toInt offset.toInt whence.toNat s >>= _) = _
    rw [hlseek]
    cases err <;> rfl
  rw [hseek]
  exact ⟨_, _, hrun, ht, rfl, rfl⟩

theorem seeksExactly_iff (hc : c.InRange) (hsize : c.size < 2 ^ 63)
    (hf : s.fileAt handle.toInt = some f) (hobj : f.obj = .cachedReader c) :
    SeeksExactly c handle.toInt offset.toInt whence.toNat
        (conn.handlePayload (Backend.fs P) s (lseekRequest handle offset whence x y rest)) ↔
      c.SumFits offset.toInt whence.toNat := by
  obtain ⟨out, g, hrun, hg, hobj', hreply⟩ :=
    handlePayload_lseek P conn offset whence x y rest hf hobj
  have hlow : -2 ^ 63 ≤ offset.toInt := offset.le_toInt
  have hhigh : offset.toInt < 2 ^ 63 := offset.toInt_lt
  unfold SeeksExactly CachedReader.SumFits
  cases hbase : c.seekBase whence.toNat with
  | none =>
    refine iff_of_true ⟨out, g, _, hrun, hg, hobj', ?_⟩ (by simp)
    rw [CachedReader.seek_of_seekBase_eq_none hbase] at hreply ⊢
    refine ⟨?_, rfl⟩
    rw [hreply]
    exact ⟨-1, rfl, by decide⟩
  | some base =>
    obtain ⟨pos, hseek, hpos⟩ := CachedReader.seek_eq_iff hc hsize hlow hhigh hbase
    rw [hseek] at hobj' hreply
    constructor
    · rintro ⟨out', g', c', hrun', hg', hc', hmoved, -⟩ base' hbase'
      cases hbase'
      cases hrun.symm.trans hrun'
      cases hg.symm.trans hg'
      cases hobj'.symm.trans hc'
      exact hpos.mp (congrArg CachedReader.pos hmoved)
    · intro hsum
      have hexact := hpos.mpr (hsum base rfl)
      obtain ⟨hstart, hend⟩ := hc
      have hbounds : 0 ≤ pos ∧ pos < 2 ^ 63 := by omega
      have hposition : lseekPosition out.reply.payload = pos := by
        rw [hreply]
        exact lseekPosition_packLseekReply hbounds.1 hbounds.2
      refine ⟨out, g, _, hrun, hg, hobj', ?_, hposition.trans hexact⟩
      rw [hexact]

end Request

/-- Which offsets overflow. -/
theorem CachedReader.sumFits_iff (offset : BitVec 64) (whence : Byte) :
    c.SumFits offset.toInt whence.toNat ↔
      (whence = 1 → c.pos + offset.toInt < 2 ^ 63) ∧
        (whence = 2 → c.size + offset.toInt < 2 ^ 63) := by
  have hhigh : offset.toInt < 2 ^ 63 := offset.toInt_lt
  have hcode (b : Byte) : ((whence.toNat : ℤ) = b.toNat) ↔ whence = b := by
    rw [← BitVec.toNat_inj]
    omega
  have h₀ : ((whence.toNat : ℤ) = 0) ↔ whence = 0 := hcode 0
  have h₁ : ((whence.toNat : ℤ) = 1) ↔ whence = 1 := hcode 1
  have h₂ : ((whence.toNat : ℤ) = 2) ↔ whence = 2 := hcode 2
  unfold SumFits seekBase
  simp only [h₀, h₁, h₂]
  by_cases hstart : whence = 0
  · subst hstart
    simpa using hhigh
  · by_cases hcurrent : whence = 1
    · subst hcurrent
      simp
    · by_cases hend : whence = 2
      · subst hend
        simp
      · simp only [if_neg hstart, if_neg hcurrent, if_neg hend]
        exact iff_of_true (fun _ hbase => by cases hbase)
          ⟨fun h => absurd h hcurrent, fun h => absurd h hend⟩

/-- Seeking in a decompressed image is exact if and only if the sum of base and offset fits a
signed 64-bit word; the position is in the image in any case. -/
theorem lseek_exact_iff (P : Platform η φ ρ) (br : ρ) (hsize : 0 ≤ P.reader.uncompressedSize br)
    (hfits : P.reader.uncompressedSize br < 2 ^ 63) (cacheSize : ℤ) (info : CompressedInfo)
    (h h' : η) (fcs : List FileCall) (answers : List FileAnswer) (c : CachedReader ρ)
    (hcalls : (newCachedReader P.reader br cacheSize info).calls P.reader h fcs =
      .ok (answers, c, h')) :
    (0 ≤ c.pos ∧ c.pos ≤ c.size) ∧
      ∀ (conn : Connection) (s : Backend η φ ρ) (f : FileHandle φ ρ) (handle : BitVec 32)
        (offset : BitVec 64) (whence x y : Byte) (rest : List Byte),
        s.fileAt handle.toInt = some f → f.obj = .cachedReader c →
        (SeeksExactly c handle.toInt offset.toInt whence.toNat
            (conn.handlePayload (Backend.fs P) s (lseekRequest handle offset whence x y rest)) ↔
          (whence = 1 → c.pos + offset.toInt < 2 ^ 63) ∧
            (whence = 2 → c.size + offset.toInt < 2 ^ 63)) := by
  obtain ⟨hsize', hrange⟩ := CachedReader.calls_inRange ⟨le_rfl, hsize⟩ hcalls
  refine ⟨hrange, ?_⟩
  intro conn s f handle offset whence x y rest hf hobj
  rw [seeksExactly_iff P conn offset whence x y rest hrange (hsize'.trans_lt hfits) hf hobj]
  exact CachedReader.sumFits_iff offset whence

/-- A seek to the last byte of an image of two bytes, and one from there to its end. -/
theorem lseek_exact_to_end :
    ∃ (s₀ : Backend Host OsFile (Decoder OsFile)) (out₁ out₂ out₃ : Outcome _)
      (c : CachedReader (Decoder OsFile)),
      Backend.newBackend Backend.hostPlatform Backend.serveShelf tornHost 0 = .ok (some s₀) ∧
      newConnection.handlePayload (Backend.fs Backend.hostPlatform) s₀ openTorn = .ok out₁ ∧
      newConnection.handlePayload (Backend.fs Backend.hostPlatform) out₁.fs
        (lseekRequest 1 (-1) 2 0 0 []) = .ok out₂ ∧ out₂.reply = .lseekReply 1 ∧
      newConnection.handlePayload (Backend.fs Backend.hostPlatform) out₂.fs
        (lseekRequest 1 1 1 0 0 []) = .ok out₃ ∧ out₃.reply = .lseekReply 2 ∧
      c.pos = 1 ∧ SeeksExactly c 1 1 1 (.ok out₃) := by
  have hrun : ∃ (s₀ : Backend Host OsFile (Decoder OsFile)) (out₁ out₂ out₃ : Outcome _)
      (f : FileHandle OsFile (Decoder OsFile)) (c : CachedReader (Decoder OsFile)),
      Backend.newBackend Backend.hostPlatform Backend.serveShelf tornHost 0 = .ok (some s₀) ∧
      newConnection.handlePayload (Backend.fs Backend.hostPlatform) s₀ openTorn = .ok out₁ ∧
      newConnection.handlePayload (Backend.fs Backend.hostPlatform) out₁.fs
        (lseekRequest 1 (-1) 2 0 0 []) = .ok out₂ ∧ out₂.reply = .lseekReply 1 ∧
      newConnection.handlePayload (Backend.fs Backend.hostPlatform) out₂.fs
        (lseekRequest 1 1 1 0 0 []) = .ok out₃ ∧ out₃.reply = .lseekReply 2 ∧
      out₂.fs.fileAt 1 = some f ∧ f.obj = .cachedReader c ∧ c.pos = 1 ∧
      (newCachedReader Backend.hostPlatform.reader (tornDecoder 36) 0 .zero).calls
        Backend.hostPlatform.reader tornHost [.seek (-1) 2] =
          .ok ([.seek 1 none], c, tornHost) :=
    ⟨_, _, _, _, _, _, rfl, rfl, rfl, rfl, rfl, rfl, rfl, rfl, rfl, rfl⟩
  obtain ⟨s₀, out₁, out₂, out₃, f, c, hnew, h₁, h₂, hlast, h₃, hend, hf, hobj, hpos, hcalls⟩ := hrun
  refine ⟨s₀, out₁, out₂, out₃, c, hnew, h₁, h₂, hlast, h₃, hend, hpos, ?_⟩
  rw [← h₃]
  refine ((lseek_exact_iff Backend.hostPlatform (tornDecoder 36) (by decide) (by decide) 0 .zero
    tornHost tornHost _ _ c hcalls).2 newConnection out₂.fs f 1 1 1 0 0 [] hf hobj).mpr ⟨?_, ?_⟩
  · rw [hpos]
    decide
  · intro h
    cases h

/-- A seek far behind the end of an image of two bytes goes to its start. -/
theorem lseek_past_end_rewinds :
    ∃ (s₀ : Backend Host OsFile (Decoder OsFile)) (out₁ out₂ : Outcome _)
      (f : FileHandle OsFile (Decoder OsFile)) (c : CachedReader (Decoder OsFile)),
      Backend.newBackend Backend.hostPlatform Backend.serveShelf tornHost 0 = .ok (some s₀) ∧
      newConnection.handlePayload (Backend.fs Backend.hostPlatform) s₀ openTorn = .ok out₁ ∧
      out₁.fs.fileAt 1 = some f ∧ f.obj = .cachedReader c ∧ c.size = 2 ∧ c.pos = 0 ∧
      newConnection.handlePayload (Backend.fs Backend.hostPlatform) out₁.fs
        (lseekRequest 1 (BitVec.ofNat 64 (2 ^ 63 - 1)) 2 0 0 []) = .ok out₂ ∧
      out₂.reply = .lseekReply 0 ∧ ¬ SeeksExactly c 1 (2 ^ 63 - 1) 2 (.ok out₂) := by
  refine ⟨_, _, _, _, _, rfl, rfl, rfl, rfl, rfl, rfl, rfl, rfl, ?_⟩
  rintro ⟨out, g, c', hrun, hg, hobj, -, hposition⟩
  cases hrun
  exact absurd hposition (by decide)

end Udpfsd.Fs
