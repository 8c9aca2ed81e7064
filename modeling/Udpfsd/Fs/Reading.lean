import Udpfsd.Fs.FlatFile
import Udpfsd.Fs.Host
import Udpfsd.Fs.Table
import Udpfsd.Udpfs.Handlers

/-!
# The size of a read

READ and BREAD read into the connection's data buffer of 128 KiB. Neither the handlers nor the
backend compare the size of a request with it: `readBuffer[:size]` is taken with the client's
number. As long as the slice exists, the reply carries the bytes of the file from the position
on.
-/

namespace Udpfsd.Fs

open Udprdma (Byte uint16 uint32)
open Udpfs

variable {η φ ρ : Type}

/-! ### What file objects hold -/

namespace Files

variable {P : Platform η φ ρ} (F : Files P)

/-- The file object shows its client this content and stands at this position. Behind an image
there is a decoder that delivers all its blocks, and the size of the image is a signed 64-bit
number. -/
def Shows (h : η) (content : List Byte) (pos : ℕ) : FileObject φ ρ → Prop
  | .osFile _ f => F.Live f h ∧ F.content f h = content ∧ F.position f = pos
  | .cachedReader c => ∃ (width : ℕ) (Ready : ρ → η → Prop) (f : FlatFile), 0 < width ∧
    Delivers P.reader f.image width Ready ∧ c.Represents width Ready h f ∧
    f.image.length < 2 ^ 63 ∧ f.image = content ∧ f.pos = pos

variable {F} {h : η} {content : List Byte} {pos : ℕ} {obj : FileObject φ ρ}

theorem Shows.length_lt (hobj : F.Shows h content pos obj) : content.length < 2 ^ 63 := by
  cases obj with
  | osFile name f =>
    obtain ⟨hlive, rfl, -⟩ := hobj
    exact F.length_lt f h hlive
  | cachedReader c =>
    obtain ⟨_, _, f, -, -, -, hlt, rfl, -⟩ := hobj
    exact hlt

/-- A read that does not fail returns what there is from the position on. -/
theorem Shows.read (hobj : F.Shows h content pos obj) (n : ℕ) :
    ∃ bytes err obj' h', obj.read P n h = .ok ((bytes, err), obj', h') ∧ err ≠ some .closed ∧
      (err = none ∨ err = some .eof → bytes = (content.drop pos).take n ∧
        F.Shows h' content (pos + bytes.length) obj') := by
  cases obj with
  | osFile name f =>
    obtain ⟨hlive, rfl, rfl⟩ := hobj
    obtain ⟨hopen, hfill⟩ := F.read f n h hlive
    refine ⟨_, _, _, _, rfl, hopen, fun herr => ?_⟩
    obtain ⟨hlive', hcontent, hbytes, hposition⟩ := hfill herr
    have htake : (P.os.read f n h).1.1.take n = (P.os.read f n h).1.1 := by
      rw [hbytes, List.take_take, Nat.min_self]
    rw [htake]
    exact ⟨hbytes, hlive', hcontent, hposition⟩
  | cachedReader c =>
    obtain ⟨width, Ready, f, hwidth, hR, hc, hlt, rfl, rfl⟩ := hobj
    obtain ⟨bytes, err, c', h', hread, hanswer, hc'⟩ := hc.read hR hwidth n
    simp only [FlatFile.read, FileAnswer.read.injEq] at hanswer
    obtain ⟨rfl, rfl⟩ := hanswer
    have htake : (f.bytes n).take n = f.bytes n := by
      rw [FlatFile.bytes, List.take_take, Nat.min_self]
    refine ⟨f.bytes n, if f.image.length ≤ f.pos then some .eof else none, .cachedReader c', h',
      ?_, ?_, fun _ => ?_⟩
    · rw [FileObject.read, hread]
      change Except.ok (((f.bytes n).take n, _), _, _) = _
      rw [htake]
    · split_ifs <;> simp
    · exact ⟨rfl, width, Ready, (f.read n).2, hwidth, hR, hc', hlt, rfl, rfl⟩

/-- A seek that succeeds goes to the offset, or to the end of an image. -/
theorem Shows.seek (hobj : F.Shows h content pos obj) {offset : ℤ}
    (hok : (obj.seek P offset 0 h).1.2 = none) :
    ∃ pos', F.Shows (obj.seek P offset 0 h).2.2 content pos' (obj.seek P offset 0 h).2.1 ∧
      (pos' = offset.toNat ∨ pos' = content.length ∧ content.length ≤ offset.toNat) := by
  cases obj with
  | osFile name f =>
    obtain ⟨hlive, rfl, rfl⟩ := hobj
    obtain ⟨hlive', hcontent, -, hposition⟩ := F.seek f offset h hlive
    exact ⟨offset.toNat, ⟨hlive', hcontent, (hposition hok).2⟩, Or.inl rfl⟩
  | cachedReader c =>
    obtain ⟨width, Ready, f, hwidth, hR, hc, hlt, rfl, rfl⟩ := hobj
    refine ⟨min offset.toNat f.image.length, ⟨width, Ready,
      ⟨f.image, min offset.toNat f.image.length, Nat.min_le_right _ _⟩, hwidth, hR,
      hc.move offset, hlt, rfl, rfl⟩, ?_⟩
    omega

end Files

namespace FileObject

variable (P : Platform η φ ρ) (obj : FileObject φ ρ)

/-- A seek from the start fails. -/
def RefusesSeek (offset : ℤ) (h : η) : Prop := (obj.seek P offset 0 h).1.2 ≠ none

/-- A read fails, with another error than the end of the file. -/
def RefusesRead (n : ℕ) (h : η) : Prop :=
  ∃ bytes e obj' h', obj.read P n h = .ok ((bytes, some e), obj', h') ∧ e ≠ .eof

variable {P obj} in
/-- A refused read has an error other than the end. -/
theorem refusesRead_iff {n : ℕ} {h h' : η} {bytes : List Byte} {err : Option Error}
    {obj' : FileObject φ ρ} (hread : obj.read P n h = .ok ((bytes, err), obj', h')) :
    obj.RefusesRead P n h ↔ ∃ e, err = some e ∧ ¬ e = .eof := by
  constructor
  · rintro ⟨bytes', e, obj'', h'', hread', he⟩
    cases hread.symm.trans hread'
    exact ⟨e, rfl, he⟩
  · rintro ⟨e, rfl, he⟩
    exact ⟨bytes, e, obj', h', hread, he⟩

end FileObject

/-! ### READ and BREAD of a file -/

namespace Backend

variable {P : Platform η φ ρ} {s : Backend η φ ρ} {handle : ℤ} {f : FileHandle φ ρ}
  {bytes : List Byte} {err : Option Error} {obj : FileObject φ ρ} {host : η}
  (readBuffer : Buffer Byte)

theorem fileRead_of_objRead {n : ℕ} {w : World η}
    (hread : f.obj.read P n w.host = .ok ((bytes, err), obj, host)) :
    f.read P n w =
      .ok ((bytes, err), { f with obj := obj }, { w.access f.id .read with host := host }) := by
  rw [FileHandle.read, hread]
  rfl

/-- The READ of a live file is one `Read` of its object. -/
theorem read_of_fileAt {size : BitVec 32} (hf : s.fileAt handle = some f)
    (hsize : size.toNat ≤ dataBufferSize)
    (hread : f.obj.read P size.toNat s.world.host = .ok ((bytes, err), obj, host)) :
    ∃ t, read P handle size readBuffer s =
        .ok (readReturns (fun err => err = .closed ∨ err = .eof) readBuffer bytes err, t) ∧
      t.fileAt handle = some { f with obj := obj } ∧
      t.world = { s.world.access f.id .read with host := host } := by
  refine withFile_of_fileAt hf ?_
  rw [if_neg (by omega), fileRead_of_objRead hread]
  rfl

/-- A READ of more than the buffer panics. -/
theorem read_of_large {size : BitVec 32} (hf : s.fileAt handle = some f)
    (hsize : dataBufferSize < size.toNat) :
    read P handle size readBuffer s = .error .sliceBounds :=
  withFile_of_error hf (if_pos hsize)

variable {sectorNr offset size : ℤ} {sectorCount : BitVec 16}

/-- A BREAD whose seek fails reads nothing. -/
theorem bread_of_seek_error {e : Error} (sectorCount : BitVec 16) (hf : s.fileAt handle = some f)
    (hoffset : int64 (sectorNr * s.sectorSizeOf handle) = offset)
    (hseek : (f.obj.seek P offset 0 s.world.host).1.2 = some e) :
    ∃ t, bread P handle sectorNr sectorCount readBuffer s =
        .ok ((⟨0, none, some e⟩, readBuffer), t) ∧
      t.fileAt handle = some (f.seek P offset 0 s.world).2.1 ∧
      t.world = (f.seek P offset 0 s.world).2.2 := by
  refine withFile_of_fileAt hf ?_
  have herr : (f.seek P offset 0 s.world).1.2 = some e := hseek
  simp only [breadBody, hoffset, herr]

/-- A BREAD of more than the buffer, or of a negative number of bytes, panics. -/
theorem bread_of_large (hf : s.fileAt handle = some f)
    (hoffset : int64 (sectorNr * s.sectorSizeOf handle) = offset)
    (hseek : (f.obj.seek P offset 0 s.world.host).1.2 = none)
    (hsize : int64 (sectorCount.toNat * s.sectorSizeOf handle) = size)
    (hlarge : size < 0 ∨ (dataBufferSize : ℤ) < size) :
    bread P handle sectorNr sectorCount readBuffer s = .error .sliceBounds := by
  refine withFile_of_error hf ?_
  have herr : (f.seek P offset 0 s.world).1.2 = none := hseek
  simp only [breadBody, hoffset, herr, hsize, if_pos hlarge]

/-- Any other BREAD is a seek and a `Read` of the object. -/
theorem bread_of_fileAt (hf : s.fileAt handle = some f)
    (hoffset : int64 (sectorNr * s.sectorSizeOf handle) = offset)
    (hseek : (f.obj.seek P offset 0 s.world.host).1.2 = none)
    (hsize : int64 (sectorCount.toNat * s.sectorSizeOf handle) = size)
    (hfits : 0 ≤ size ∧ size ≤ (dataBufferSize : ℤ))
    (hread : (f.obj.seek P offset 0 s.world.host).2.1.read P size.toNat
      (f.obj.seek P offset 0 s.world.host).2.2 = .ok ((bytes, err), obj, host)) :
    ∃ t, bread P handle sectorNr sectorCount readBuffer s =
        .ok (readReturns (fun err => err = .eof) readBuffer bytes err, t) ∧
      t.fileAt handle = some { f with obj := obj } ∧ t.world.host = host := by
  have hbody : breadBody P (s.sectorSizeOf handle) sectorNr sectorCount readBuffer f s.world =
      .ok (readReturns (fun err => err = .eof) readBuffer bytes err, { f with obj := obj },
        { (f.seek P offset 0 s.world).2.2.access f.id .read with host := host }) := by
    have herr : (f.seek P offset 0 s.world).1.2 = none := hseek
    have hfile := fileRead_of_objRead (f := (f.seek P offset 0 s.world).2.1)
      (w := (f.seek P offset 0 s.world).2.2) hread
    simp only [breadBody, hoffset, herr, hsize]
    rw [if_neg (by omega), hfile]
    rfl
  obtain ⟨t, hrun, hfile, hworld⟩ : ∃ t, bread P handle sectorNr sectorCount readBuffer s =
        .ok (readReturns (fun err => err = .eof) readBuffer bytes err, t) ∧
      t.fileAt handle = some { f with obj := obj } ∧
      t.world = { (f.seek P offset 0 s.world).2.2.access f.id .read with host := host } :=
    withFile_of_fileAt hf hbody
  exact ⟨t, hrun, hfile, by rw [hworld]⟩

end Backend

/-- The reply to a read of a live file. An error that is not expected fails the request;
otherwise the result is the number of bytes read, and they are at the front of the data
buffer. -/
def Reports (expected : Error → Prop) (bytes : List Byte) (err : Option Error)
    (out : Outcome (Backend η φ ρ)) : Prop :=
  (∃ e, err = some e ∧ ¬ expected e ∧ out.reply.Failed) ∨
    ((∀ e, err = some e → expected e) ∧
      out.reply = .readResult bytes.length (some bytes.length) ∧
      out.conn.dataBuffer.slice bytes.length = bytes)

/-- The reply that the two handlers make of what the backend returned. -/
def readReply (r : ReadResult) (result : ℤ) : Reply :=
  match r.err with
  | some err => .readResult (-errToErrno err) none
  | none => .readResult result r.data

/-- A handler that replies in this way reports what has been read. -/
theorem exists_reports (expected : Error → Prop) [DecidablePred expected]
    {reply : (ReadResult × Buffer Byte) × Backend η φ ρ → Except Fault (Outcome (Backend η φ ρ))}
    {result : ReadResult → ℤ} (hresult : ∀ n : ℕ, result ⟨n, some n, none⟩ = n)
    (hreply : ∀ r buffer t, ∃ out, reply ((r, buffer), t) = .ok out ∧ out.fs = t ∧
      out.conn.dataBuffer = buffer ∧ out.reply = readReply r (result r))
    (readBuffer : Buffer Byte) (bytes : List Byte) (err : Option Error) (t : Backend η φ ρ) :
    ∃ out, reply (Backend.readReturns expected readBuffer bytes err, t) = .ok out ∧ out.fs = t ∧
      Reports expected bytes err out := by
  have hfilled : ∃ out, reply (Backend.filled readBuffer bytes, t) = .ok out ∧ out.fs = t ∧
      out.reply = .readResult bytes.length (some bytes.length) ∧
      out.conn.dataBuffer.slice bytes.length = bytes := by
    obtain ⟨out, hok, hfs, hbuffer, hout⟩ :=
      hreply ⟨bytes.length, some bytes.length, none⟩ (readBuffer.copy 0 bytes) t
    refine ⟨out, hok, hfs, by rw [hout, hresult]; rfl, ?_⟩
    have hslice := readBuffer.slice_copy 0 bytes
    rwa [Nat.zero_add, ← hbuffer] at hslice
  cases err with
  | none =>
    obtain ⟨out, hok, hfs, hout⟩ := hfilled
    exact ⟨out, hok, hfs, Or.inr ⟨by simp, hout⟩⟩
  | some e =>
    rw [Backend.readReturns]
    split_ifs with hexpected
    · obtain ⟨out, hok, hfs, hout⟩ := hfilled
      refine ⟨out, hok, hfs, Or.inr ⟨?_, hout⟩⟩
      rintro e' he
      cases he
      exact hexpected
    · obtain ⟨out, hok, hfs, -, hout⟩ := hreply ⟨0, none, some e⟩ (readBuffer.copy 0 bytes) t
      have hfailed : out.reply.result = some (-errToErrno e) := by
        rw [hout]
        rfl
      exact ⟨out, hok, hfs, Or.inl ⟨e, rfl, hexpected, .of_err hfailed⟩⟩

theorem not_failed_readResult (k : ℕ) (data : Option ℕ) :
    ¬ (Reply.readResult k data).Failed := by
  rintro ⟨result, hresult, hneg⟩
  cases hresult
  omega

/-- The reply to a read of `n` bytes at an offset: the file refuses it, or the bytes that are there
are returned. -/
def Fills (refused : Prop) (content : List Byte) (offset n : ℕ) (out : Outcome (Backend η φ ρ)) :
    Prop :=
  (refused ∧ out.reply.Failed) ∨ (¬ refused ∧ ∃ k, k = min n (content.length - offset) ∧
    out.reply = .readResult k (some k) ∧
    out.conn.dataBuffer.slice k = (content.drop offset).take k)

/-- The reply has the bytes that were read. -/
theorem Reports.fills {expected : Error → Prop} {bytes content : List Byte} {err : Option Error}
    {out : Outcome (Backend η φ ρ)} {offset n : ℕ} (hreports : Reports expected bytes err out)
    (hbytes : (∀ e, err = some e → expected e) → bytes = (content.drop offset).take n) :
    Fills (∃ e, err = some e ∧ ¬ expected e) content offset n out := by
  rcases hreports with ⟨e, he, hunexpected, hfailed⟩ | ⟨hexpected, hreply, hslice⟩
  · exact Or.inl ⟨⟨e, he, hunexpected⟩, hfailed⟩
  · have hlength : bytes.length = min n (content.length - offset) := by
      rw [hbytes hexpected, List.length_take, List.length_drop]
    refine Or.inr ⟨?_, bytes.length, hlength, hreply, ?_⟩
    · rintro ⟨e, he, hunexpected⟩
      exact hunexpected (hexpected e he)
    · rw [hslice, hlength, ← List.length_drop, ← List.take_eq_take_min]
      exact hbytes hexpected

section Handlers

variable {P : Platform η φ ρ} {s t : Backend η φ ρ} {c : Connection} {payload : List Byte}
  {handle : ℤ} {bytes : List Byte} {err : Option Error}

/-- A request that is long enough is a call and a reply. -/
theorem handleReadOp_eq {size : ℕ} (hlong : ¬ payload.length < size)
    (op : Buffer Byte → Backend η φ ρ → Except Fault ((ReadResult × Buffer Byte) × Backend η φ ρ))
    (result : ReadResult → ℤ) :
    ∃ reply, c.handleReadOp s payload size op result = op c.dataBuffer s >>= reply ∧
      ∀ r buffer t, ∃ out, reply ((r, buffer), t) = .ok out ∧ out.fs = t ∧
        out.conn.dataBuffer = buffer ∧ out.reply = readReply r (result r) := by
  rw [Connection.handleReadOp, if_neg hlong]
  refine ⟨_, rfl, ?_⟩
  rintro ⟨n, data, err⟩ buffer t
  cases err with
  | none => exact ⟨_, rfl, rfl, rfl, rfl⟩
  | some err => exact ⟨_, rfl, rfl, rfl, rfl⟩

/-- READ is `Read` and a reply. -/
theorem handlePayload_read (htype : msgType payload = some .readReq)
    (hhandle : namedHandle payload = some handle) :
    ∃ reply, c.handlePayload (Backend.fs P) s payload =
        Backend.read P handle (uint32 (payload.drop 8)) c.dataBuffer s >>= reply ∧
      ∀ r buffer t, ∃ out, reply ((r, buffer), t) = .ok out ∧ out.fs = t ∧
        out.conn.dataBuffer = buffer ∧ out.reply = readReply r r.n := by
  obtain ⟨hlength, rfl⟩ : ¬ payload.length < 12 ∧ handleField payload = handle := by
    simpa [namedHandle, htype, MsgType.handleLength] using hhandle
  rw [Connection.handlePayload, htype]
  exact handleReadOp_eq hlength _ _

/-- BREAD is `Bread` and a reply. -/
theorem handlePayload_bread (htype : msgType payload = some .breadReq)
    (hhandle : namedHandle payload = some handle) :
    ∃ reply, c.handlePayload (Backend.fs P) s payload =
        Backend.bread P handle (longField payload) (uint16 (payload.drop 2)) c.dataBuffer s >>=
          reply ∧
      ∀ r buffer t, ∃ out, reply ((r, buffer), t) = .ok out ∧ out.fs = t ∧
        out.conn.dataBuffer = buffer ∧ out.reply = readReply r (r.data.getD 0) := by
  obtain ⟨hlength, rfl⟩ : ¬ payload.length < 16 ∧ handleField payload = handle := by
    simpa [namedHandle, htype, MsgType.handleLength] using hhandle
  rw [Connection.handlePayload, htype]
  exact handleReadOp_eq hlength _ _

variable {F : Files P} {f : FileHandle φ ρ} {content : List Byte} {pos : ℕ}

/-- What becomes of a BREAD at the offset and of the size that `Bread` computes: the file refuses
the seek, or the buffer has no room and there is a panic, or the file is read. -/
theorem handlePayload_bread_cases (hf : s.fileAt handle = some f)
    (hobj : F.Shows s.world.host content pos f.obj) (htype : msgType payload = some .breadReq)
    (hhandle : namedHandle payload = some handle) {offset size : ℤ}
    (hoffset : int64 (longField payload * s.sectorSizeOf handle) = offset)
    (hsize : int64 ((uint16 (payload.drop 2)).toNat * s.sectorSizeOf handle) = size) :
    (f.obj.RefusesSeek P offset s.world.host ∧
      ∃ out, c.handlePayload (Backend.fs P) s payload = .ok out ∧ out.reply.Failed) ∨
    (¬ f.obj.RefusesSeek P offset s.world.host ∧ (size < 0 ∨ (dataBufferSize : ℤ) < size) ∧
      c.handlePayload (Backend.fs P) s payload = .error .sliceBounds) ∨
    (¬ f.obj.RefusesSeek P offset s.world.host ∧ (0 ≤ size ∧ size ≤ (dataBufferSize : ℤ)) ∧
      ∃ out, c.handlePayload (Backend.fs P) s payload = .ok out ∧
        Fills ((f.obj.seek P offset 0 s.world.host).2.1.RefusesRead P size.toNat
          (f.obj.seek P offset 0 s.world.host).2.2) content offset.toNat size.toNat out) := by
  obtain ⟨reply, hrun, hreply⟩ := handlePayload_bread (P := P) (s := s) (c := c) htype hhandle
  unfold FileObject.RefusesSeek
  cases hseek : (f.obj.seek P offset 0 s.world.host).1.2 with
  | some e =>
    obtain ⟨t, hread, -⟩ :=
      Backend.bread_of_seek_error c.dataBuffer (uint16 (payload.drop 2)) hf hoffset hseek
    obtain ⟨out, hout, -, -, hresult⟩ := hreply ⟨0, none, some e⟩ c.dataBuffer t
    have hfailed : out.reply.result = some (-errToErrno e) := by
      rw [hresult]
      rfl
    rw [hread] at hrun
    exact Or.inl ⟨by simp, out, hrun.trans hout, .of_err hfailed⟩
  | none =>
    by_cases hfits : 0 ≤ size ∧ size ≤ (dataBufferSize : ℤ)
    · obtain ⟨pos', hmoved, hpos'⟩ := hobj.seek hseek
      have hdrop : content.drop pos' = content.drop offset.toNat := by
        rcases hpos' with rfl | ⟨rfl, hle⟩
        · rfl
        · rw [List.drop_length, List.drop_of_length_le hle]
      obtain ⟨bytes, err, obj, host, hread, -, hbytes⟩ := hmoved.read size.toNat
      obtain ⟨t, hbread, -⟩ :=
        Backend.bread_of_fileAt c.dataBuffer hf hoffset hseek hsize hfits hread
      obtain ⟨out, hout, -, hreports⟩ :=
        exists_reports (fun err => err = .eof) (fun _ => rfl) hreply c.dataBuffer bytes err t
      have hfill : (∀ e, err = some e → e = .eof) →
          bytes = (content.drop offset.toNat).take size.toNat := by
        intro hexpected
        rw [← hdrop]
        refine (hbytes ?_).1
        cases err with
        | none => exact Or.inl rfl
        | some e => exact Or.inr (congrArg some (hexpected e rfl))
      rw [hbread] at hrun
      rw [FileObject.refusesRead_iff hread]
      exact Or.inr (Or.inr ⟨by simp, hfits, out, hrun.trans hout, hreports.fills hfill⟩)
    · rw [Backend.bread_of_large c.dataBuffer hf hoffset hseek hsize (by omega)] at hrun
      exact Or.inr (Or.inl ⟨by simp, by omega, hrun⟩)

end Handlers

/-! ### Safe and exact reads -/

/-- The request is answered without a panic, and when it succeeds the result is the number of
bytes in the reply: those of the content from the requested position on, as many as are requested,
as the buffer has room for and as there are. -/
def ReadsExactly (x : Except Fault (Outcome (Backend η φ ρ))) (content : List Byte) (pos : ℤ)
    (requested : ℕ) : Prop :=
  ∃ out, x = .ok out ∧ (out.reply.Failed ∨
    ∃ k : ℕ, out.reply = .readResult k (some k) ∧ 0 ≤ pos ∧
      k = min requested (min dataBufferSize (content.length - pos.toNat)) ∧
      out.conn.dataBuffer.slice k = (content.drop pos.toNat).take k)

/-- A file of this length has as many bytes behind the offset, up to `n`, as it has behind the
requested position, up to the number of bytes requested and to the size of the buffer. -/
def AsksExactly (length offset n : ℕ) (pos : ℤ) (requested : ℕ) : Prop :=
  0 ≤ pos ∧ min n (length - offset) = min requested (min dataBufferSize (length - pos.toNat))

section Exact

variable {P : Platform η φ ρ} {F : Files P} {s : Backend η φ ρ} {c : Connection}
  {payload : List Byte} {handle : ℤ} {f : FileHandle φ ρ} {content : List Byte} {pos : ℕ}

/-- A read of `n` bytes at an offset is exact if and only if it fails or asks for the right
bytes. -/
theorem Fills.readsExactly_iff {out : Outcome (Backend η φ ρ)} {refused : Prop} {position : ℤ}
    {offset n : ℕ} (requested : ℕ) (hfills : Fills refused content offset n out)
    (hposition : 0 ≤ position → position.toNat = offset ∨ content.length ≤ position.toNat) :
    ReadsExactly (.ok out) content position requested ↔
      refused ∨ AsksExactly content.length offset n position requested := by
  unfold AsksExactly
  rcases hfills with ⟨hrefused, hfailed⟩ | ⟨haccepted, k, hk, hreply, hslice⟩
  · exact ⟨fun _ => Or.inl hrefused, fun _ => ⟨out, rfl, Or.inl hfailed⟩⟩
  · constructor
    · rintro ⟨out', hok, hfailed | ⟨k', hreply', hnonneg, hk', -⟩⟩
      · cases hok
        rw [hreply] at hfailed
        exact absurd hfailed (not_failed_readResult k (some k))
      · cases hok
        cases hreply.symm.trans hreply'
        exact Or.inr ⟨hnonneg, by omega⟩
    · rintro (hrefused | ⟨hnonneg, hasks⟩)
      · exact absurd hrefused haccepted
      · refine ⟨out, rfl, Or.inr ⟨k, hreply, hnonneg, by omega, ?_⟩⟩
        rcases hposition hnonneg with hoffset | hend
        · rw [hoffset, hslice]
        · -- behind the end nothing is asked for
          obtain rfl : k = 0 := by omega
          rw [hslice, List.take_zero, List.take_zero]

/-- A READ that fits the buffer returns the bytes from the position on, and the position moves
behind them, unless the file refuses it. -/
theorem handlePayload_read_of_le (hf : s.fileAt handle = some f)
    (hobj : F.Shows s.world.host content pos f.obj) (htype : msgType payload = some .readReq)
    (hhandle : namedHandle payload = some handle)
    (hfits : (uint32 (payload.drop 8)).toNat ≤ dataBufferSize) :
    ∃ (refused : Prop) (out : Outcome (Backend η φ ρ)),
      c.handlePayload (Backend.fs P) s payload = .ok out ∧
      Fills refused content pos (uint32 (payload.drop 8)).toNat out ∧
      (¬ refused → ∃ f', out.fs.fileAt handle = some f' ∧ F.Shows out.fs.world.host content
        (pos + min (uint32 (payload.drop 8)).toNat (content.length - pos)) f'.obj) := by
  obtain ⟨reply, hrun, hreply⟩ := handlePayload_read (P := P) (s := s) (c := c) htype hhandle
  obtain ⟨bytes, err, obj, host, hread, hclosed, hbytes⟩ :=
    hobj.read (uint32 (payload.drop 8)).toNat
  obtain ⟨t, hread, hfile, hworld⟩ := Backend.read_of_fileAt c.dataBuffer hf hfits hread
  obtain ⟨out, hout, rfl, hreports⟩ :=
    exists_reports (fun err => err = .closed ∨ err = .eof) (fun _ => rfl) hreply c.dataBuffer
      bytes err t
  have hend (hexpected : ∀ e, err = some e → e = .closed ∨ e = .eof) :
      err = none ∨ err = some .eof := by
    cases err with
    | none => exact Or.inl rfl
    | some e =>
      rcases hexpected e rfl with rfl | rfl
      · exact absurd rfl hclosed
      · exact Or.inr rfl
  rw [hread] at hrun
  refine ⟨_, out, hrun.trans hout, hreports.fills fun hexpected => (hbytes (hend hexpected)).1, ?_⟩
  intro haccepted
  obtain ⟨hfill, hshows⟩ := hbytes (hend fun e he => by_contra fun h => haccepted ⟨e, he, h⟩)
  refine ⟨_, hfile, ?_⟩
  rw [hworld, ← List.length_drop, ← List.length_take, ← hfill]
  exact hshows

/-- READ is safe and exact if and only if its size is that of the buffer at most. -/
theorem read_readsExactly_iff (hf : s.fileAt handle = some f)
    (hobj : F.Shows s.world.host content pos f.obj) (htype : msgType payload = some .readReq)
    (hhandle : namedHandle payload = some handle) :
    ReadsExactly (c.handlePayload (Backend.fs P) s payload) content pos
        (uint32 (payload.drop 8)).toNat ↔
      (uint32 (payload.drop 8)).toNat ≤ dataBufferSize := by
  rcases Nat.lt_or_ge dataBufferSize (uint32 (payload.drop 8)).toNat with hlarge | hfits
  · obtain ⟨reply, hrun, -⟩ := handlePayload_read (P := P) (s := s) (c := c) htype hhandle
    rw [Backend.read_of_large c.dataBuffer hf hlarge] at hrun
    refine iff_of_false ?_ (by omega)
    rintro ⟨out, hok, -⟩
    cases hrun.symm.trans hok
  · obtain ⟨refused, out, hrun, hfills, -⟩ :=
      handlePayload_read_of_le (c := c) hf hobj htype hhandle hfits
    rw [hrun, hfills.readsExactly_iff _ fun _ => Or.inl (Int.toNat_natCast pos)]
    refine iff_of_true (Or.inr ⟨by omega, ?_⟩) hfits
    rw [Int.toNat_natCast]
    omega

/-- The condition under which a BREAD is safe and exact. `Bread` computes the offset and the number
of bytes `size` in 64-bit arithmetic: the file refuses the seek, or the buffer has room for so many
bytes and the file refuses the read or has the right bytes there. -/
def BreadFits (P : Platform η φ ρ) (obj : FileObject φ ρ) (h : η) (length : ℕ)
    (offset size pos : ℤ) (requested : ℕ) : Prop :=
  obj.RefusesSeek P offset h ∨
    (0 ≤ size ∧ size ≤ (dataBufferSize : ℤ) ∧
      ((obj.seek P offset 0 h).2.1.RefusesRead P size.toNat (obj.seek P offset 0 h).2.2 ∨
        AsksExactly length offset.toNat size.toNat pos requested))

/-- Where the product in 64-bit arithmetic is another one, the file has already ended. -/
theorem toNat_int64_or_end (hlength : content.length < 2 ^ 63) {position : ℤ}
    (hnonneg : 0 ≤ position) :
    position.toNat = (int64 position).toNat ∨ content.length ≤ position.toNat := by
  rcases lt_or_ge position (2 ^ 63) with hlt | hge
  · rw [int64_eq_self (by omega) (by omega)]
    exact Or.inl rfl
  · exact Or.inr (by omega)

/-- Where no product leaves the range and the buffer has room, a BREAD fits. -/
theorem breadFits_of_le {obj : FileObject φ ρ} {h : η} (length : ℕ) {position size : ℤ}
    (hposition : 0 ≤ position ∧ position < 2 ^ 63)
    (hsize : 0 ≤ size ∧ size ≤ (dataBufferSize : ℤ)) :
    BreadFits P obj h length (int64 position) (int64 size) position size.toNat := by
  have hbuffer : (dataBufferSize : ℤ) < 2 ^ 63 := by decide
  rw [int64_eq_self (by omega) (by omega), int64_eq_self (by omega) (by omega)]
  refine Or.inr ⟨hsize.1, hsize.2, Or.inr ⟨hposition.1, ?_⟩⟩
  omega

/-- BREAD is safe and exact if and only if it fits. -/
theorem bread_readsExactly_iff (hf : s.fileAt handle = some f)
    (hobj : F.Shows s.world.host content pos f.obj) (htype : msgType payload = some .breadReq)
    (hhandle : namedHandle payload = some handle) :
    ReadsExactly (c.handlePayload (Backend.fs P) s payload) content
        (longField payload * s.sectorSizeOf handle)
        ((uint16 (payload.drop 2)).toNat * s.sectorSizeOf handle).toNat ↔
      BreadFits P f.obj s.world.host content.length
        (int64 (longField payload * s.sectorSizeOf handle))
        (int64 ((uint16 (payload.drop 2)).toNat * s.sectorSizeOf handle))
        (longField payload * s.sectorSizeOf handle)
        ((uint16 (payload.drop 2)).toNat * s.sectorSizeOf handle).toNat := by
  unfold BreadFits
  rcases handlePayload_bread_cases (c := c) hf hobj htype hhandle rfl rfl with
    ⟨hseek, out, hrun, hfailed⟩ | ⟨hseek, hlarge, hrun⟩ | ⟨hseek, hfits, out, hrun, hfills⟩
  · exact iff_of_true ⟨out, hrun, Or.inl hfailed⟩ (Or.inl hseek)
  · refine iff_of_false ?_ ?_
    · rintro ⟨out, hok, -⟩
      cases hrun.symm.trans hok
    · rintro (hrefused | ⟨hlo, hhi, -⟩)
      · exact hseek hrefused
      · omega
  · rw [hrun, hfills.readsExactly_iff _ (toNat_int64_or_end hobj.length_lt)]
    simp only [hseek, false_or, hfits.1, hfits.2, true_and]

/-- Reads of a file that shows some content are safe and exact exactly when they fit the buffer:
for READ when the size is that of the buffer at most, for BREAD when the number of bytes is. -/
theorem read_sizes_are_safe_and_exact_iff (hf : s.fileAt handle = some f)
    (hobj : F.Shows s.world.host content pos f.obj) (hhandle : namedHandle payload = some handle) :
    (msgType payload = some .readReq →
      (ReadsExactly (c.handlePayload (Backend.fs P) s payload) content pos
          (uint32 (payload.drop 8)).toNat ↔
        (uint32 (payload.drop 8)).toNat ≤ dataBufferSize)) ∧
    (msgType payload = some .breadReq →
      (ReadsExactly (c.handlePayload (Backend.fs P) s payload) content
          (longField payload * s.sectorSizeOf handle)
          ((uint16 (payload.drop 2)).toNat * s.sectorSizeOf handle).toNat ↔
        BreadFits P f.obj s.world.host content.length
          (int64 (longField payload * s.sectorSizeOf handle))
          (int64 ((uint16 (payload.drop 2)).toNat * s.sectorSizeOf handle))
          (longField payload * s.sectorSizeOf handle)
          ((uint16 (payload.drop 2)).toNat * s.sectorSizeOf handle).toNat)) :=
  ⟨fun htype => read_readsExactly_iff hf hobj htype hhandle,
    fun htype => bread_readsExactly_iff hf hobj htype hhandle⟩

end Exact

/-! ### The small host -/

namespace Host

/-- A read that does not fail fills its buffer up to the end of the file. -/
theorem read_spec (f : OsFile) (n : ℕ) (h : Host) :
    (read f n h).1.2 ≠ some .closed ∧
    ((read f n h).1.2 = none ∨ (read f n h).1.2 = some .eof →
      (read f n h).2.1.ino = f.ino ∧ (read f n h).2.2 = h ∧
      (read f n h).1.1 = ((content f h).drop f.pos).take n ∧
      (read f n h).2.1.pos = f.pos + (read f n h).1.1.length) := by
  unfold read content
  cases hino : f.ino with
  | none => simp
  | some ino =>
    simp only
    split_ifs with hreadable hend
    · simp
    · simp only [Bool.and_eq_true, decide_eq_true_eq] at hend
      simp [hino, hend.2]
    · simp

/-- Open files of the small host. -/
def files : Files platform where
  toOpenFiles := openFiles fun content => content.length < 2 ^ 63
  length_lt := fun _ _ hlive => hlive
  read := by
    intro f n h hlive
    obtain ⟨hopen, hfill⟩ := read_spec f n h
    refine ⟨hopen, fun herr => ?_⟩
    obtain ⟨hino, hhost, hbytes, hpos⟩ := hfill herr
    have hcontent : content (read f n h).2.1 (read f n h).2.2 = content f h := by
      simp only [content, hino, hhost]
    change (content (read f n h).2.1 (read f n h).2.2).length < 2 ^ 63 ∧
      content (read f n h).2.1 (read f n h).2.2 = content f h ∧ _
    rw [hcontent]
    exact ⟨hlive, rfl, hbytes, hpos⟩

/-- A host with a device of two sectors of four bytes. -/
def twoSectors : Host := ⟨[(Path.ascii ['/', 'd'], .file 0)], fun _ => [1, 1, 1, 1, 2, 2, 2, 2], 1⟩

/-- The device is served. -/
def serveTwoSectors : Options := ⟨[], Path.ascii ['/', 'd'], 4, false, false, 0⟩

/-- The served device shows the two sectors. -/
theorem exists_serveTwoSectors :
    ∃ (s : Backend Host OsFile Image) (f : FileHandle OsFile Image),
      Backend.newBackend platform serveTwoSectors twoSectors 0 = .ok (some s) ∧
      s.fileAt 0 = some f ∧ files.Shows s.world.host [1, 1, 1, 1, 2, 2, 2, 2] 0 f.obj ∧
      s.sectorSizeOf 0 = 4 :=
  ⟨_, _, rfl, rfl, ⟨(by decide : [1, 1, 1, 1, 2, 2, 2, 2].length < 2 ^ 63), rfl, rfl⟩, rfl⟩

end Host

/-- READ of the device. -/
def readDevice (size : List Byte) : List Byte := [0x14, 0, 0, 0, 0, 0, 0, 0] ++ size

/-- BREAD of the device. -/
def breadDevice (count sectorNr : List Byte) : List Byte :=
  [0x28, 0] ++ count ++ [0, 0, 0, 0] ++ sectorNr

/-- READ of six bytes and BREAD of the second sector. -/
theorem read_sizes_are_safe_and_exact_two_sectors :
    ∃ s : Backend Host OsFile Host.Image,
      Backend.newBackend Host.platform Host.serveTwoSectors Host.twoSectors 0 = .ok (some s) ∧
      ReadsExactly (newConnection.handlePayload (Backend.fs Host.platform) s
        (readDevice [6, 0, 0, 0])) [1, 1, 1, 1, 2, 2, 2, 2] 0 6 ∧
      ReadsExactly (newConnection.handlePayload (Backend.fs Host.platform) s
        (breadDevice [1, 0] [1, 0, 0, 0, 0, 0, 0, 0])) [1, 1, 1, 1, 2, 2, 2, 2] 4 4 := by
  obtain ⟨s, f, hnew, hf, hobj, hsize⟩ := Host.exists_serveTwoSectors
  refine ⟨s, hnew, ?_, ?_⟩
  · exact ((read_sizes_are_safe_and_exact_iff hf hobj rfl).1 rfl).mpr (by decide)
  · have hnumber : longField (breadDevice [1, 0] [1, 0, 0, 0, 0, 0, 0, 0]) = 1 := rfl
    have hcount : uint16 ((breadDevice [1, 0] [1, 0, 0, 0, 0, 0, 0, 0]).drop 2) = 1 := rfl
    have hiff := (read_sizes_are_safe_and_exact_iff (c := newConnection) hf hobj
      (rfl : namedHandle (breadDevice [1, 0] [1, 0, 0, 0, 0, 0, 0, 0]) = some 0)).2 rfl
    rw [hnumber, hcount, hsize] at hiff
    exact hiff.mpr (breadFits_of_le 8 (by decide) (by decide))

/-- READ of one byte more than the buffer has, and BREAD of `2 ^ 16 - 1` sectors, end in a panic. -/
theorem read_larger_than_buffer_panics :
    ∃ (s : Backend Host OsFile Host.Image) (f : FileHandle OsFile Host.Image),
      Backend.newBackend Host.platform Host.serveTwoSectors Host.twoSectors 0 = .ok (some s) ∧
      s.fileAt 0 = some f ∧
      Host.files.Shows s.world.host [1, 1, 1, 1, 2, 2, 2, 2] 0 f.obj ∧
      newConnection.handlePayload (Backend.fs Host.platform) s (readDevice [1, 0, 2, 0]) =
        .error .sliceBounds ∧
      newConnection.handlePayload (Backend.fs Host.platform) s
        (breadDevice [0xFF, 0xFF] [0, 0, 0, 0, 0, 0, 0, 0]) = .error .sliceBounds ∧
      ¬ ReadsExactly (newConnection.handlePayload (Backend.fs Host.platform) s
        (readDevice [1, 0, 2, 0])) [1, 1, 1, 1, 2, 2, 2, 2] 0 131073 := by
  refine ⟨_, _, rfl, rfl, ⟨(by decide : [1, 1, 1, 1, 2, 2, 2, 2].length < 2 ^ 63), rfl, rfl⟩,
    rfl, rfl, ?_⟩
  rintro ⟨out, hok, -⟩
  cases hok

end Udpfsd.Fs
