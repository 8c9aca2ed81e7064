import Udpfsd.Fs.Listing
import Udpfsd.Fs.Reading

/-!
# Reads of an image with bad blocks

A READ of an image copies one block after the other and moves the position with every block.
When a block cannot be read, `Read` returns the error together with the bytes before it. The
backend drops the bytes and replies with the error, and the position stays where the loop has
left it.
-/

namespace Udpfsd.Fs

open Udprdma (Byte uint32)
open Udpfs

variable {η φ ρ : Type} {fails : ℕ → Option Error} {width : ℕ}

/-! ### READ -/

/-- When the request fails, the image behind the handle stands where it stood. -/
def KeepsPosition (x : Except Fault (Outcome (Backend η φ ρ))) (handle : ℤ) (pos : ℕ) : Prop :=
  ∀ out, x = .ok out → out.reply.Failed →
    ∃ g c, out.fs.fileAt handle = some g ∧ g.obj = .cachedReader c ∧ c.pos = pos

/-- A failed READ of an image leaves the position as it was if and only if the first bad block of
the request is the one at the position. An error that is taken for the end of the file is no
failure. -/
theorem failed_read_keeps_position_iff {P : Platform η φ ρ} {s : Backend η φ ρ} {c : Connection}
    {payload : List Byte} {handle : ℤ} {f : FileHandle φ ρ} {reader : CachedReader ρ}
    {Ready : ρ → η → Prop} {image : FlatFile} (hf : s.fileAt handle = some f)
    (hobj : f.obj = .cachedReader reader) (hwidth : 0 < width)
    (hR : Yields P.reader image.image width Ready fails)
    (hc : reader.Stands width Ready fails s.world.host image)
    (htype : msgType payload = some .readReq) (hhandle : namedHandle payload = some handle) :
    KeepsPosition (c.handlePayload (Backend.fs P) s payload) handle image.pos ↔
      dataBufferSize < (uint32 (payload.drop 8)).toNat ∨
        ∀ j e, FirstBad fails width image.pos
          (min (uint32 (payload.drop 8)).toNat (image.image.length - image.pos)) j e →
            (e = .closed ∨ e = .eof) ∨ j = image.pos / width := by
  obtain ⟨reply, hrun, hreply⟩ := handlePayload_read (P := P) (s := s) (c := c) htype hhandle
  rcases Nat.lt_or_ge dataBufferSize (uint32 (payload.drop 8)).toNat with hlarge | hfits
  · rw [Backend.read_of_large c.dataBuffer hf hlarge] at hrun
    refine iff_of_true ?_ (Or.inl hlarge)
    intro out hok
    cases hrun.symm.trans hok
  obtain ⟨m, err, reader', host, hm, hread, hc', hstops⟩ :=
    hc.read hR hwidth (uint32 (payload.drop 8)).toNat
  have hobjRead : f.obj.read P (uint32 (payload.drop 8)).toNat s.world.host =
      .ok (((image.bytes m).take (uint32 (payload.drop 8)).toNat, err), .cachedReader reader',
        host) := by
    rw [hobj, FileObject.read, hread]
    rfl
  obtain ⟨t, hbackend, ht, -⟩ := Backend.read_of_fileAt c.dataBuffer hf hfits hobjRead
  obtain ⟨out, hout, hfs, hreports⟩ :=
    exists_reports (fun err => err = .closed ∨ err = .eof) (fun _ => rfl) hreply c.dataBuffer
      ((image.bytes m).take (uint32 (payload.drop 8)).toNat) err t
  rw [hbackend] at hrun
  have hpos : reader'.pos = (image.pos + m : ℕ) := hc'.pos
  -- what matters is the error and how far the loop has come
  have hkeeps : KeepsPosition (c.handlePayload (Backend.fs P) s payload) handle image.pos ↔
      ∀ e, err = some e → (e = .closed ∨ e = .eof) ∨ m = 0 := by
    constructor
    · intro hkeeps e he
      rcases hreports with ⟨e', he', -, hfailed⟩ | ⟨hexpected, -⟩
      · obtain ⟨g, r, hg, hr, hpos'⟩ := hkeeps out (hrun.trans hout) hfailed
        rw [hfs] at hg
        cases ht.symm.trans hg
        cases hr
        exact Or.inr (by omega)
      · exact Or.inl (hexpected e he)
    · intro herr out' hok hfailed
      cases (hrun.trans hout).symm.trans hok
      rcases hreports with ⟨e, he, hunexpected, -⟩ | ⟨-, hresult, -⟩
      · have hzero := (herr e he).resolve_left hunexpected
        exact ⟨_, reader', hfs ▸ ht, rfl, by omega⟩
      · rw [hresult] at hfailed
        exact absurd hfailed (not_failed_readResult _ _)
  rw [hkeeps, or_iff_right (by omega)]
  rcases hstops with ⟨rfl, heof⟩ | ⟨-, hstops⟩
  · refine iff_of_true ?_ fun j e hbad => ?_
    · rintro e he
      cases he
      exact Or.inl (Or.inr rfl)
    · have := hbad.1
      omega
  · exact hstops.forall_err_iff hwidth

/-! ### A CSO file with a bad block -/

/-- A CSO image of two blocks of one byte. The first is plain, and the second is none that the
decoders of `hostPlatform` can decode. -/
def tornCso : List Byte :=
  csoMagic ++ [24, 0, 0, 0, 2, 0, 0, 0, 0, 0, 0, 0, 1, 0, 0, 0, 1, 0, 0, 0] ++
    [36, 0, 0, 0x80, 37, 0, 0, 0, 38, 0, 0, 0] ++ [7, 9]

/-- A host with a directory that holds the image. -/
def tornHost : Host :=
  ⟨[(Path.ascii ['/', 'r'], .dir), (Path.ascii ['/', 'r', '/', 'a', '.', 'c', 's', 'o'], .file 0)],
    fun _ => tornCso, 1⟩

/-- OPEN of the decompressed image. -/
def openTorn : List Byte :=
  [0x10, 0, 1, 0, 0, 0, 0, 0] ++ Path.ascii ['a', '.', 'c', 's', 'o', '.', 'i', 's', 'o'] ++ [0]

/-- READ of the first handle. -/
def readFirst (size : Byte) : List Byte := [0x14, 0, 0, 0, 1, 0, 0, 0, size, 0, 0, 0]

/-- LSEEK of the first handle from the start. -/
def seekFirst (offset : Byte) : List Byte :=
  [0x1A, 0, 0, 0, 1, 0, 0, 0, offset, 0, 0, 0, 0, 0, 0, 0]

/-- The decoder of the image, with its file behind the index or behind one of the blocks. -/
def tornDecoder (pos : ℕ) : Decoder OsFile :=
  .cso ⟨⟨⟨.zero, Path.ascii ['a', '.', 'c', 's', 'o'], 2⟩, [0x80000024, 37, 38], 1, 2, 2, 0⟩,
    ⟨some 0, pos, true, false, false⟩⟩

/-- The states that the decoder goes through. -/
def TornReady (r : Decoder OsFile) (h : Host) : Prop :=
  h = tornHost ∧ (r = tornDecoder 36 ∨ r = tornDecoder 37 ∨ r = tornDecoder 38)

/-- The second block of the image fails. -/
theorem yields_torn :
    Yields Backend.hostPlatform.reader [7, 0] 1 TornReady
      (fun i => if i = 0 then none else some .other) where
  good := by
    rintro i - hgood r h ⟨rfl, hr⟩
    obtain rfl : i = 0 := by simpa using hgood
    have hblock : Blocks.block [7, 0] 1 0 <+: (Block.mk [7] [] : Block).bytes := by decide
    rcases hr with rfl | rfl | rfl <;>
      exact ⟨_, _, _, rfl, ⟨rfl, Or.inr (Or.inl rfl)⟩, hblock⟩
  bad := by
    rintro i e r h hi hbad ⟨rfl, hr⟩
    obtain ⟨hne, rfl⟩ : i ≠ 0 ∧ .other = e := by simpa using hbad
    obtain rfl : i = 1 := by
      simp only [List.length_cons, List.length_nil] at hi
      omega
    rcases hr with rfl | rfl | rfl <;> exact ⟨_, _, rfl, rfl, Or.inr (Or.inr rfl)⟩

/-- After a seek to the second byte READ fails, and the image still stands there. -/
theorem failed_read_keeps_position_at_bad_block :
    ∃ (s₀ : Backend Host OsFile (Decoder OsFile)) (out₁ out₂ out₃ : Outcome _),
      Backend.newBackend Backend.hostPlatform Backend.serveShelf tornHost 0 = .ok (some s₀) ∧
      newConnection.handlePayload (Backend.fs Backend.hostPlatform) s₀ openTorn = .ok out₁ ∧
      newConnection.handlePayload (Backend.fs Backend.hostPlatform) out₁.fs (seekFirst 1) =
        .ok out₂ ∧
      newConnection.handlePayload (Backend.fs Backend.hostPlatform) out₂.fs (readFirst 1) =
        .ok out₃ ∧
      out₃.reply.Failed ∧ KeepsPosition (.ok out₃) 1 1 := by
  have hrun : ∃ (s₀ : Backend Host OsFile (Decoder OsFile)) (out₁ out₂ out₃ : Outcome _)
      (f : FileHandle OsFile (Decoder OsFile)) (c : CachedReader (Decoder OsFile)),
      Backend.newBackend Backend.hostPlatform Backend.serveShelf tornHost 0 = .ok (some s₀) ∧
      newConnection.handlePayload (Backend.fs Backend.hostPlatform) s₀ openTorn = .ok out₁ ∧
      newConnection.handlePayload (Backend.fs Backend.hostPlatform) out₁.fs (seekFirst 1) =
        .ok out₂ ∧
      newConnection.handlePayload (Backend.fs Backend.hostPlatform) out₂.fs (readFirst 1) =
        .ok out₃ ∧
      out₃.reply.Failed ∧ out₂.fs.fileAt 1 = some f ∧ f.obj = .cachedReader c ∧
      c.Stands 1 TornReady (fun i => if i = 0 then none else some .other) out₂.fs.world.host
        ⟨[7, 0], 1, by decide⟩ :=
    ⟨_, _, _, _, _, _, rfl, rfl, rfl, rfl, ⟨_, rfl, by decide⟩, rfl, rfl,
      ⟨⟨rfl, rfl, rfl, rfl, BlockCache.holds_new _ _, rfl, Or.inl rfl⟩,
        BlockCache.holds_new _ _⟩⟩
  obtain ⟨s₀, out₁, out₂, out₃, f, c, hnew, h₁, h₂, h₃, hfailed, hf, hobj, hc⟩ := hrun
  refine ⟨s₀, out₁, out₂, out₃, hnew, h₁, h₂, h₃, hfailed, ?_⟩
  rw [← h₃]
  refine (failed_read_keeps_position_iff hf hobj (by decide) yields_torn hc rfl rfl).mpr ?_
  refine Or.inr fun j e hbad => Or.inr ?_
  obtain ⟨-, hlo, hhi, -⟩ := hbad
  change 1 / 1 ≤ j at hlo
  change j * 1 < 1 + 1 at hhi
  change j = 1 / 1
  omega

/-- READ of both bytes fails at the second one, and the image stands behind the first. -/
theorem failed_read_moves_position :
    ∃ (s₀ : Backend Host OsFile (Decoder OsFile)) (out₁ out₂ : Outcome _)
      (f f' : FileHandle OsFile (Decoder OsFile)) (c c' : CachedReader (Decoder OsFile)),
      Backend.newBackend Backend.hostPlatform Backend.serveShelf tornHost 0 = .ok (some s₀) ∧
      newConnection.handlePayload (Backend.fs Backend.hostPlatform) s₀ openTorn = .ok out₁ ∧
      out₁.fs.fileAt 1 = some f ∧ f.obj = .cachedReader c ∧ c.size = 2 ∧ c.pos = 0 ∧
      newConnection.handlePayload (Backend.fs Backend.hostPlatform) out₁.fs (readFirst 2) =
        .ok out₂ ∧
      out₂.reply.Failed ∧ out₂.fs.fileAt 1 = some f' ∧ f'.obj = .cachedReader c' ∧ c'.pos = 1 ∧
      ¬ KeepsPosition (.ok out₂) 1 0 := by
  refine ⟨_, _, _, _, _, _, _, rfl, rfl, rfl, rfl, rfl, rfl, rfl, ⟨_, rfl, by decide⟩, rfl, rfl,
    rfl, fun hkeeps => ?_⟩
  obtain ⟨g, c, hg, hc, hpos⟩ := hkeeps _ rfl ⟨_, rfl, by decide⟩
  cases hg
  cases hc
  cases hpos

end Udpfsd.Fs
