import Udpfsd.Fs.Confinement
import Udpfsd.Fs.FailedOpen
import Udpfsd.Fs.Reading
import Udpfsd.Fs.Reopen

/-!
# Listing, opening and stat

DREAD takes the size of a file from its directory entry, or from the header of an image, OPEN from
the file that it has opened, and GETSTAT from the path. An image is listed under a name that is not
there on the host. OPEN knows this name but replies with the size zero, and GETSTAT does not know
it. What is listed is what can be opened and asked for as long as the host has a file of the listed
size under the listed name, which is the case for every file that is no image.
-/

namespace Udpfsd.Fs

open Udprdma (Byte uint16 uint32)
open Udpfs

variable {η φ ρ : Type}

/-! ### Sizes -/

/-- Two replies report the same size and mode. -/
structure SameFile (a b : StatInfo) : Prop where
  /-- The mode. -/
  mode : a.mode = b.mode
  /-- The low word of the size. -/
  size : a.size = b.size
  /-- The high word of the size. -/
  hisize : a.hisize = b.hisize

/-- The size that a reply reports in two words. -/
def fileSize (st : StatInfo) : ℕ := st.hisize.toNat * 2 ^ 32 + st.size.toNat

theorem SameFile.fileSize_eq {a b : StatInfo} (h : SameFile a b) : fileSize a = fileSize b := by
  rw [fileSize, fileSize, h.size, h.hisize]

theorem SameFile.symm {a b : StatInfo} (h : SameFile a b) : SameFile b a :=
  ⟨h.mode.symm, h.size.symm, h.hisize.symm⟩

theorem SameFile.trans {a b c : StatInfo} (h : SameFile a b) (h' : SameFile b c) : SameFile a c :=
  ⟨h.mode.trans h'.mode, h.size.trans h'.size, h.hisize.trans h'.hisize⟩

theorem fileSize_statInfoFromFile {info : FileInfo} {n : ℕ} (hsize : info.size = n)
    (hlt : n < 2 ^ 64) : fileSize (statInfoFromFile info) = n := by
  simp only [fileSize, statInfoFromFile, hsize, BitVec.ofInt_natCast, BitVec.toNat_setWidth,
    BitVec.toNat_ushiftRight, BitVec.toNat_ofNat, Nat.shiftRight_eq_div_pow]
  omega

/-- Two descriptions of one file: of the same type and size. -/
def Alike (a b : FileInfo) : Prop := a.fileType = b.fileType ∧ a.size = b.size

theorem Alike.sameFile {a b : FileInfo} (h : Alike a b) :
    SameFile (statInfoFromFile a) (statInfoFromFile b) := by
  obtain ⟨htype, hsize⟩ := h
  constructor <;> simp only [statInfoFromFile, htype, hsize]

/-- The mode tells regular files from others. -/
theorem fileType_of_mode {info : FileInfo} (h : (statInfoFromFile info).mode = fioSIfreg) :
    info.fileType = .regular := by
  cases htype : info.fileType with
  | regular => rfl
  | dir => simp [statInfoFromFile, htype, fioSIfdir, fioSIfreg] at h
  | other => simp [statInfoFromFile, htype, fioSIfreg] at h

/-! ### Reading a file to its end -/

/-- A READ of the handle that fits the buffer. -/
structure ReadsThrough (handle : ℤ) (payload : List Byte) : Prop where
  /-- It is a READ. -/
  type : msgType payload = some .readReq
  /-- It names the handle. -/
  handle : namedHandle payload = some handle
  /-- It asks for no more than the buffer holds. -/
  fits : (uint32 (payload.drop 8)).toNat ≤ dataBufferSize

/-- The replies to READs, one after the other, up to the first that fails. -/
def serveReads (P : Platform η φ ρ) : Connection → Backend η φ ρ → List (List Byte) →
    Except Fault (List Reply)
  | _, _, [] => .ok []
  | c, s, payload :: rest => do
    let out ← c.handlePayload (Backend.fs P) s payload
    if out.reply.Failed then return [out.reply]
    else return out.reply :: (← serveReads P out.conn out.fs rest)

/-- The number of bytes that READs ask for. -/
def requested (payloads : List (List Byte)) : ℕ :=
  (payloads.map fun payload => (uint32 (payload.drop 8)).toNat).sum

/-- The number of bytes that replies carry. -/
def returned (replies : List Reply) : ℤ := (replies.filterMap Reply.result).sum

/-- READs of the handle return this many bytes in total: all that are asked for, up to this number.
The host may still fail to read the file. -/
def ReadsTotal (P : Platform η φ ρ) (c : Connection) (s : Backend η φ ρ) (handle : ℤ) (size : ℕ) :
    Prop :=
  ∀ payloads, (∀ payload ∈ payloads, ReadsThrough handle payload) →
    ∃ replies, serveReads P c s payloads = .ok replies ∧
      ((∃ reply ∈ replies, reply.Failed) ∨
        returned replies = (min (requested payloads) size : ℕ))

section Reads

variable {P : Platform η φ ρ} {F : Files P} {s : Backend η φ ρ} {c : Connection}
  {handle : ℤ} {f : FileHandle φ ρ} {content : List Byte} {pos : ℕ}

/-- A file at a position gives the bytes behind it. The induction is over the READs. -/
theorem readsTotal_of_shows (hf : s.fileAt handle = some f)
    (hobj : F.Shows s.world.host content pos f.obj) :
    ReadsTotal P c s handle (content.length - pos) := by
  intro payloads hreads
  induction payloads generalizing s c f pos with
  | nil => exact ⟨[], rfl, Or.inr (by simp [returned, requested])⟩
  | cons payload rest ih =>
    obtain ⟨htype, hhandle, hfits⟩ := hreads payload List.mem_cons_self
    obtain ⟨refused, out, hrun, hfills, hnext⟩ :=
      handlePayload_read_of_le (c := c) hf hobj htype hhandle hfits
    have hserve : serveReads P c s (payload :: rest) =
        if out.reply.Failed then .ok [out.reply]
        else (serveReads P out.conn out.fs rest).map (out.reply :: ·) := by
      rw [serveReads, hrun]
      change (if out.reply.Failed then _ else _) = _
      split_ifs
      · rfl
      · cases serveReads P out.conn out.fs rest <;> rfl
    rw [hserve]
    rcases hfills with ⟨-, hfailed⟩ | ⟨haccepted, k, hk, hreply, -⟩
    · exact ⟨[out.reply], if_pos hfailed, Or.inl ⟨out.reply, List.mem_cons_self, hfailed⟩⟩
    · have hok : ¬ out.reply.Failed := by
        rw [hreply]
        exact not_failed_readResult k (some k)
      obtain ⟨f', hf', hobj'⟩ := hnext haccepted
      rw [← hk] at hobj'
      obtain ⟨replies, hreplies, htotal⟩ :=
        ih hf' hobj' (fun payload hp => hreads payload (List.mem_cons_of_mem _ hp))
      refine ⟨out.reply :: replies, by rw [if_neg hok, hreplies]; rfl, ?_⟩
      rcases htotal with ⟨reply, hmem, hfailed⟩ | htotal
      · exact Or.inl ⟨reply, List.mem_cons_of_mem _ hmem, hfailed⟩
      · right
        have hsum : returned (out.reply :: replies) = k + returned replies := by
          rw [hreply]
          rfl
        have hrequested : requested (payload :: rest) =
            (uint32 (payload.drop 8)).toNat + requested rest := rfl
        rw [hsum, htotal, hrequested]
        omega

end Reads

/-! ### Regular files on the host -/

/-- What the host says about regular files, and what opening one for reading leads to. -/
structure RegularFiles (P : Platform η φ ρ) (h : η) extends Files P where
  /-- The decoder's file is open. -/
  LiveImage : ρ → η → Prop
  /-- Only a link is described in two ways. -/
  stat_of_lstat : ∀ path info, P.os.lstat path h = .ok info → info.fileType = .regular →
    P.os.stat path h = .ok info
  /-- The opened file is the one at the path, and its content has the size of the file. -/
  openFile : ∀ path info f h', P.os.stat path h = .ok info → info.fileType = .regular →
    P.os.openFile path oRDONLY h = (.ok f, h') →
      Live f h' ∧ position f = 0 ∧ ((content f h').length : ℤ) = info.size ∧
      ∃ info', P.os.fstat f h' = .ok info' ∧ Alike info' info
  /-- Closing a file that was open before leaves it alone. -/
  closeFile : ∀ path f h' g, P.os.openFile path oRDONLY h = (.ok f, h') → Live f h' →
    Live g h → Live f (P.os.close g h') ∧
      content f (P.os.close g h') = content f h' ∧
      P.os.fstat f (P.os.close g h') = P.os.fstat f h'
  /-- So does closing an image that was open before. -/
  closeImage : ∀ path f h' br, P.os.openFile path oRDONLY h = (.ok f, h') → Live f h' →
    LiveImage br h → Live f (P.reader.close br h') ∧
      content f (P.reader.close br h') = content f h' ∧
      P.os.fstat f (P.reader.close br h') = P.os.fstat f h'

namespace RegularFiles

variable {P : Platform η φ ρ} {h : η} (D : RegularFiles P h)

/-- The object is open. -/
def LiveObject : FileObject φ ρ → Prop
  | .osFile _ f => D.Live f h
  | .cachedReader c => D.LiveImage c.br h

variable {D}

theorem closeObject {path : Path} {f : φ} {h' : η} {obj : FileObject φ ρ}
    (hopen : P.os.openFile path oRDONLY h = (.ok f, h')) (hfile : D.Live f h')
    (hobj : D.LiveObject obj) :
    D.Live f (obj.close P h') ∧ D.content f (obj.close P h') = D.content f h' ∧
      P.os.fstat f (obj.close P h') = P.os.fstat f h' := by
  cases obj with
  | osFile name g => exact D.closeFile path f h' g hopen hfile hobj
  | cachedReader c => exact D.closeImage path f h' c.br hopen hfile hobj

end RegularFiles

namespace Backend

variable {P : Platform η φ ρ} {s t : Backend η φ ρ}

/-! ### Opening a regular file -/

/-- With a slot for it, a file is put there. The object that was in the slot is closed. -/
theorem addFile_of_some {i : Fin maxHandles} (hslot : s.allocSlot = some i) (hostPath : Path)
    (obj : FileObject φ ρ) (readOnly : Bool) :
    ∃ t f, s.addFile P hostPath obj readOnly = ((i : ℤ) + 1, t) ∧
      t.fileAt ((i : ℤ) + 1) = some f ∧ f.obj = obj ∧
      (t.world.host = s.world.host ∨ ∃ g, s.handles i = some (.file g) ∧
        t.world.host = g.obj.close P s.world.host) := by
  have hslot₁ : (s.newFileHandle hostPath obj readOnly).2.allocSlot = some i := hslot
  have hneg : ¬ ((i : ℤ) + 1 < 0) := by omega
  have hne : (i : ℤ) + 1 ≠ blockDeviceHandle := by
    unfold blockDeviceHandle
    omega
  have hadd : s.addFile P hostPath obj readOnly = ((i : ℤ) + 1,
      ((s.newFileHandle hostPath obj readOnly).2.allocHandle P
        (.file (s.newFileHandle hostPath obj readOnly).1)).2) := by
    simp only [addFile, allocHandle, hslot₁]
    exact if_neg hneg
  refine ⟨_, (s.newFileHandle hostPath obj readOnly).1, hadd, ?_, rfl, ?_⟩
  · simp [fileAt, getFile, allocHandle, hslot₁, hneg, hne, slotOf_eq_ok.mpr rfl, Bind.bind,
      Except.bind, Pure.pure, Except.pure]
  · simp only [allocHandle, hslot₁, closeSlot]
    have hhandles : (s.newFileHandle hostPath obj readOnly).2.handles = s.handles := rfl
    rw [hhandles]
    cases hold : s.handles i with
    | none => exact Or.inl rfl
    | some old =>
      cases old with
      | file g => exact Or.inr ⟨g, rfl, rfl⟩
      | dir d => exact Or.inl rfl

variable {path fullPath : Path} {info : FileInfo} {handle : ℤ} {st : StatInfo}

/-- The open files are open on the host. -/
def Live (D : RegularFiles P s.world.host) : Prop :=
  ∀ i f, s.handles i = some (.file f) → D.LiveObject f.obj

/-- A file that has just been opened is put into the table and is not touched by that. -/
theorem addFile_of_openFile (D : RegularFiles P s.world.host) (hlive : s.Live D) {f : φ} {h' : η}
    (hopen : P.os.openFile fullPath oRDONLY s.world.host = (.ok f, h')) (hfile : D.Live f h')
    {i : Fin maxHandles} (hslot : s.allocSlot = some i) :
    ∃ t g, (s.setHost h').addFile P fullPath (.osFile fullPath f) true = ((i : ℤ) + 1, t) ∧
      t.fileAt ((i : ℤ) + 1) = some g ∧ g.obj = .osFile fullPath f ∧ D.Live f t.world.host ∧
      D.content f t.world.host = D.content f h' ∧
      P.os.fstat f t.world.host = P.os.fstat f h' := by
  have hslot' : (s.setHost h').allocSlot = some i := hslot
  obtain ⟨t, g, hadd, hg, hobj, hhost⟩ :=
    addFile_of_some (P := P) hslot' fullPath (.osFile fullPath f) true
  refine ⟨t, g, hadd, hg, hobj, ?_⟩
  rcases hhost with hhost | ⟨old, hold, hhost⟩
  · rw [hhost]
    exact ⟨hfile, rfl, rfl⟩
  · rw [hhost]
    exact RegularFiles.closeObject hopen hfile (hlive i old hold)

/-- A file that the host has is opened, and OPEN tells its size. -/
theorem openFile_of_stat (D : RegularFiles P s.world.host) (hlive : s.Live D)
    (hresolved : s.resolvePath P path = some fullPath)
    (hstat : P.os.stat fullPath s.world.host = .ok info) (hregular : info.fileType = .regular)
    (hok : openFile P path oRDONLY false s = .ok ((handle, st, none), t)) (hhandle : 0 ≤ handle) :
    SameFile st (statInfoFromFile info) ∧ ∃ f content, t.fileAt handle = some f ∧
      D.Shows t.world.host content 0 f.obj ∧ (content.length : ℤ) = info.size := by
  have hexists : s.pathExists P fullPath = true := by
    rw [pathExists, hstat]
  have hcompressed : s.compressedPath P fullPath = none := by
    simp [compressedPath, hexists]
  have hplain : s.openPlain P fullPath oRDONLY true = .ok ((handle, st, none), t) := by
    simp only [openFile, hresolved] at hok
    split_ifs at hok with hwrite hshared hdir
    · cases hok
    · cases hok
    · exact hdir.elim
    · simpa only [openRegular, hcompressed, hexists] using hok
  obtain ⟨opened, h', hopen⟩ : ∃ opened h',
      P.os.openFile fullPath oRDONLY s.world.host = (opened, h') := ⟨_, _, rfl⟩
  have hopen' := hopen
  rw [← show plainHost P fullPath oRDONLY s.world.host = s.world.host from if_neg (by decide)]
    at hopen'
  cases opened with
  | error e =>
    rw [openPlain_of_error (Or.inl rfl) hopen'] at hplain
    cases hplain
  | ok f =>
    rw [openPlain_of_ok (Or.inl rfl) hopen'] at hplain
    obtain ⟨hfile, hpos, hlength, info', hfstat, halike⟩ :=
      D.openFile fullPath info f h' hstat hregular hopen
    cases hslot : s.allocSlot with
    | none =>
      have hslot' : (s.setHost h').allocSlot = none := hslot
      obtain ⟨u, hadd, -⟩ := addFile_of_none (P := P) hslot' fullPath (.osFile fullPath f) true
      rw [show (!wantWrite oRDONLY) = true from rfl, hadd, finishOpen, if_pos neg_emfile_neg]
        at hplain
      cases hplain
      exact absurd hhandle (not_le.mpr neg_emfile_neg)
    | some i =>
      obtain ⟨u, g, hadd, hg, hobj, hfile', hcontent, hfstat'⟩ :=
        addFile_of_openFile D hlive hopen hfile hslot
      have hneg : ¬ ((i : ℤ) + 1 < 0) := by omega
      rw [hfstat] at hfstat'
      rw [show (!wantWrite oRDONLY) = true from rfl, hadd, finishOpen, if_neg hneg] at hplain
      simp only [FileObject.stat, hfstat'] at hplain
      cases hplain
      refine ⟨halike.sameFile, g, D.content f t.world.host, hg, ?_, ?_⟩
      · rw [hobj]
        exact ⟨hfile', rfl, hpos⟩
      · rw [hcontent, hlength]

/-! ### GETSTAT -/

/-- The host has a file of this size and mode where the client's path leads. -/
def HostHas (P : Platform η φ ρ) (s : Backend η φ ρ) (path : Path) (st : StatInfo) : Prop :=
  ∃ fullPath info, s.resolvePath P path = some fullPath ∧
    P.os.stat fullPath s.world.host = .ok info ∧ SameFile (statInfoFromFile info) st

/-- A file that is open under the path is the one that the host has there. -/
def Current (P : Platform η φ ρ) (s : Backend η φ ρ) (path : Path) : Prop :=
  ∀ fullPath f, s.resolvePath P path = some fullPath →
    (s.getFileByPath fullPath).1 = some f →
      ∃ info info', f.obj.stat P s.world.host = .ok info ∧
        P.os.stat fullPath s.world.host = .ok info' ∧ Alike info info'

/-- GETSTAT finds what the host has under the path. -/
theorem statOnHost_iff (hcurrent : s.Current P path) :
    (∃ st', (statOnHost P path s).1 = (st', none) ∧ SameFile st' st) ↔ s.HostHas P path st := by
  unfold statOnHost HostHas
  cases hresolved : s.resolvePath P path with
  | none => simp
  | some fullPath =>
    obtain ⟨found, s₁, hfound⟩ : ∃ found s₁, s.getFileByPath fullPath = (found, s₁) :=
      ⟨_, _, rfl⟩
    have hworld : s₁.world = s.world := by
      rw [← (getFileByPath_frame s fullPath).2, hfound]
    simp only [hfound, Option.some.injEq, exists_and_left, exists_eq_left']
    cases found with
    | none =>
      simp only [hworld]
      cases P.os.stat fullPath s.world.host <;> simp
    | some f =>
      obtain ⟨info, info', hstat, hstat', halike⟩ :=
        hcurrent fullPath f hresolved (by rw [hfound])
      simp only [hworld, hstat, hstat', Prod.mk.injEq, and_true, Except.ok.injEq, exists_eq_left']
      exact ⟨fun h => halike.sameFile.symm.trans h, fun h => halike.sameFile.trans h⟩

end Backend

/-! ### The three requests -/

/-- DREAD has returned this name and these data for a regular file of a directory. -/
structure Lists (P : Platform η φ ρ) (c : Connection) (s : Backend η φ ρ) (payload : List Byte)
    (d : DirHandle) (entry name : Path) (st : StatInfo) : Prop where
  /-- It is a DREAD of the directory, ... -/
  reads : msgType payload = some .dreadReq ∧ ∃ i : Fin maxHandles,
    namedHandle payload = some ((i : ℤ) + 1) ∧ s.handles i = some (.dir d)
  /-- ... which comes to this entry. -/
  next : d.entries[d.index]? = some entry
  /-- The entry is a regular file. -/
  regular : ∃ info, P.os.lstat (d.dirPath.join entry) s.world.host = .ok info ∧
    info.fileType = .regular
  /-- The reply. -/
  reply : ∃ out, c.handlePayload (Backend.fs P) s payload = .ok out ∧
    out.reply = .dreadReply 1 name st

/-- An OPEN for reading and a GETSTAT of the same path. -/
structure Asks (openPayload statPayload : List Byte) (path : Path) : Prop where
  /-- The first is an OPEN of a file, ... -/
  opens : msgType openPayload = some .openReq ∧ 8 ≤ openPayload.length ∧
    openPayload.getD 1 0 = 0
  /-- ... for reading. -/
  reading : udpfsFlagsToOSFlags (uint16 (openPayload.drop 2)) = oRDONLY
  /-- The second is a GETSTAT. -/
  stats : msgType statPayload = some .getstatReq ∧ 4 ≤ statPayload.length
  /-- Both have the path. -/
  path : cString (openPayload.drop 8) = path ∧ cString (statPayload.drop 4) = path

/-- What is listed is what is opened and what GETSTAT finds. -/
structure Agrees (P : Platform η φ ρ) (c : Connection) (s : Backend η φ ρ)
    (openPayload statPayload : List Byte) (st : StatInfo) : Prop where
  /-- When OPEN succeeds it replies with the listed size and mode, and READs return as many bytes
  in total. -/
  opened : ∀ out handle st', c.handlePayload (Backend.fs P) s openPayload = .ok out →
    out.reply = .openReply handle st' → 0 ≤ handle →
      SameFile st' st ∧ ReadsTotal P out.conn out.fs handle (fileSize st)
  /-- GETSTAT succeeds with the listed size and mode. -/
  stat : ∃ out st', c.handlePayload (Backend.fs P) s statPayload = .ok out ∧
    out.reply = .getstatReply 0 st' ∧ SameFile st' st

/-- The client has no handle left of this path from before it was reset. -/
def NoneKept (c : Connection) (path : Path) : Prop :=
  ∀ handle, (c.lookupHandle path oRDONLY).1 = some handle → handle < 0

/-- The entry is not listed as an image, and a client can name it: its name has no backslash, which
would separate directories. -/
structure PlainEntry (P : Platform η φ ρ) (s : Backend η φ ρ) (entry : Path) : Prop where
  /-- It is not listed as an image. -/
  listed : (s.enableCompression &&
    (getSupportedExtensions P).any (fun ext => entry.ext = ext)) = false
  /-- It has a name. -/
  proper : Path.Proper entry
  /-- The name has no backslash. -/
  no_backslash : Path.backslash ∉ entry

section Requests

variable {P : Platform η φ ρ} {s t : Backend η φ ρ} {c c' : Connection}
  {payload openPayload statPayload : List Byte} {d : DirHandle} {dir entry name path : Path}
  {st : StatInfo}

section Lists

variable (h : Lists P c s payload d entry name st)
include h

theorem Lists.entryInfo : s.entryInfo P d.dirPath entry = some (name, st) := by
  obtain ⟨htype, i, hhandle, hd⟩ := h.reads
  obtain ⟨out, hok, hreply⟩ := h.reply
  obtain ⟨out', hok', hreply', -⟩ :=
    Backend.handlePayload_at_entry (P := P) (c := c) htype hhandle hd h.next
  cases hok.symm.trans hok'
  rw [hreply] at hreply'
  cases hinfo : s.entryInfo P d.dirPath entry with
  | none =>
    rw [hinfo] at hreply'
    cases hreply'
  | some info =>
    rw [hinfo] at hreply'
    cases hreply'
    rfl

/-- What is listed is the entry itself, or an image. -/
theorem Lists.cases :
    ((s.enableCompression && (getSupportedExtensions P).any (fun ext => entry.ext = ext)) = false ∧
        name = entry ∧ ∃ info, P.os.lstat (d.dirPath.join entry) s.world.host = .ok info ∧
          info.fileType = .regular ∧ st = statInfoFromFile info) ∨
      ((s.enableCompression && (getSupportedExtensions P).any (fun ext => entry.ext = ext)) = true ∧
        ∃ image : CompressedInfo, st = statInfoFromFile image.fileInfo) := by
  obtain ⟨info, hlstat, hregular⟩ := h.regular
  have hinfo := h.entryInfo
  unfold Backend.entryInfo at hinfo
  rw [hlstat] at hinfo
  simp only [Except.toOption, Option.bind_eq_bind, Option.bind_some] at hinfo
  split_ifs at hinfo with himage
  · obtain ⟨image, -, hinfo⟩ := Option.bind_eq_some_iff.mp hinfo
    cases hinfo
    exact Or.inr ⟨himage, image, rfl⟩
  · cases hinfo
    exact Or.inl ⟨Bool.eq_false_of_not_eq_true himage, rfl, info, hlstat, hregular, rfl⟩

theorem Lists.mode : st.mode = fioSIfreg := by
  rcases h.cases with ⟨-, -, info, -, hregular, rfl⟩ | ⟨-, image, rfl⟩
  · simp only [statInfoFromFile, hregular]
  · rfl

/-- A plain entry is there under its name. -/
theorem Lists.hostHas (hhost : t.world.host = s.world.host)
    (hcompression : t.enableCompression = s.enableCompression) (D : RegularFiles P t.world.host)
    (hroot : Backend.IsRoot t.fsRoot) (hdir : t.resolvePath P dir = some d.dirPath)
    (hplain : PlainEntry P t entry) : t.HostHas P (dir ++ Path.slash :: name) st := by
  rcases h.cases with ⟨-, rfl, info, hlstat, hregular, rfl⟩ | ⟨himage, -⟩
  · rw [← hhost] at hlstat
    exact ⟨d.dirPath.join name, info,
      Backend.resolvePath_child hroot hdir hplain.proper hplain.no_backslash,
      D.stat_of_lstat _ info hlstat hregular, rfl, rfl, rfl⟩
  · rw [← hcompression] at himage
    cases himage.symm.trans hplain.listed

end Lists

section Asks

variable (h : Asks openPayload statPayload path)
include h

/-- GETSTAT replies with what it has found. -/
theorem Asks.stat_iff (hne : path ≠ []) :
    (∃ out st', c.handlePayload (Backend.fs P) s statPayload = .ok out ∧
        out.reply = .getstatReply 0 st' ∧ SameFile st' st) ↔
      ∃ st', (Backend.statOnHost P path s).1 = (st', none) ∧ SameFile st' st := by
  obtain ⟨htype, hlength⟩ := h.stats
  have hgetstat : (Backend.fs P).getstat path s = .ok (Backend.statOnHost P path s) := by
    change Backend.getstat P path s = _
    unfold Backend.getstat
    cases path with
    | nil => exact absurd rfl hne
    | cons b bs => rfl
  rw [Connection.handlePayload, htype]
  simp only [Connection.handleGetstat, if_neg (not_lt.mpr hlength), h.path.2, hgetstat]
  obtain ⟨⟨st₁, err⟩, s₁, hstat⟩ : ∃ r s₁, Backend.statOnHost P path s = (r, s₁) := ⟨_, _, rfl⟩
  rw [hstat]
  cases err with
  | none =>
    constructor
    · rintro ⟨out, st', hok, hreply, hsame⟩
      cases hok
      cases hreply
      exact ⟨_, rfl, hsame⟩
    · rintro ⟨st', hst, hsame⟩
      cases hst
      exact ⟨_, _, rfl, rfl, hsame⟩
  | some err =>
    refine iff_of_false ?_ ?_
    · rintro ⟨out, st', hok, hreply, -⟩
      cases hok
      have hpos := errToErrno_pos err
      simp only [Reply.getstatReply.injEq] at hreply
      omega
    · rintro ⟨st', hst, -⟩
      cases hst

/-- An OPEN that succeeds without a kept handle is an `Open` of the path. -/
theorem Asks.openFile (hkept : NoneKept c path) {out : Outcome (Backend η φ ρ)} {handle : ℤ}
    {st' : StatInfo} (hok : c.handlePayload (Backend.fs P) s openPayload = .ok out)
    (hreply : out.reply = .openReply handle st') (hhandle : 0 ≤ handle) :
    Backend.openFile P path oRDONLY false s = .ok ((handle, st', none), out.fs) := by
  obtain ⟨htype, hlength, hfile⟩ := h.opens
  have hreading := h.reading
  have hpath := h.path.1
  cases hlookup : (c.lookupHandle path oRDONLY).1 with
  | some kept =>
    obtain ⟨c', hcached⟩ := Backend.handlePayload_of_lookupHandle (P := P) (s := s) (c := c) htype
      hlength hfile (by rw [hpath, hreading]; exact hlookup)
    cases hcached.symm.trans hok
    cases hreply
    have := hkept handle hlookup
    omega
  | none =>
    refine Backend.openNew_of_nonneg (c := (c.lookupHandle path oRDONLY).2) (F := Backend.fs P) ?_
      hreply hhandle
    rw [Connection.handlePayload, htype] at hok
    change c.handleOpen (Backend.fs P) s openPayload = _ at hok
    rw [Connection.handleOpen, if_neg (by omega)] at hok
    simp only [hfile, ne_eq, not_true_eq_false, decide_false, Bool.false_eq_true, if_false, hpath,
      hreading] at hok
    obtain ⟨c₁, hpair⟩ : ∃ c₁, c.lookupHandle path oRDONLY = (none, c₁) := ⟨_, Prod.ext hlookup rfl⟩
    rw [hpair] at hok ⊢
    exact hok

/-- What the host has under the path is what is opened and found. -/
theorem Asks.agrees (hne : path ≠ []) (D : RegularFiles P s.world.host) (hlive : s.Live D)
    (hcurrent : s.Current P path) (hmode : st.mode = fioSIfreg) (hkept : NoneKept c path)
    (hhas : s.HostHas P path st) : Agrees P c s openPayload statPayload st where
  opened := by
    intro out handle st' hok hreply hhandle
    obtain ⟨fullPath, info, hresolved, hstat, hsame⟩ := hhas
    have hregular := fileType_of_mode (hsame.mode.trans hmode)
    obtain ⟨hopened, f, content, hf, hshows, hlength⟩ := Backend.openFile_of_stat D hlive hresolved
      hstat hregular (h.openFile hkept hok hreply hhandle) hhandle
    refine ⟨hopened.trans hsame, ?_⟩
    have hsize : fileSize st = content.length := by
      rw [← hsame.fileSize_eq, fileSize_statInfoFromFile hlength.symm]
      have := hshows.length_lt
      omega
    rw [hsize]
    exact readsTotal_of_shows hf hshows
  stat := (h.stat_iff hne).mpr ((Backend.statOnHost_iff hcurrent).mpr hhas)

/-- OPEN through a kept handle replies with no size. -/
theorem Asks.noneKept (hmode : st.mode = fioSIfreg)
    (hagrees : Agrees P c s openPayload statPayload st) : NoneKept c path := by
  intro handle hlookup
  obtain ⟨htype, hlength, hfile⟩ := h.opens
  obtain ⟨c', hcached⟩ := Backend.handlePayload_of_lookupHandle (P := P) (s := s) (c := c) htype
    hlength hfile (by rw [h.path.1, h.reading]; exact hlookup)
  by_contra hnonneg
  have hsame := (hagrees.opened _ handle .empty hcached rfl (by omega)).1
  have hempty : (0 : BitVec 32) = fioSIfreg := hsame.mode.trans hmode
  exact absurd hempty (by decide)

end Asks

end Requests

/-- DREAD, OPEN and GETSTAT agree on a regular file of a directory if and only if the client has no
handle left of it from before it was reset, and the entry is not listed as an image or the host has
a file of the listed size under the listed name. -/
theorem listing_open_and_stat_agree_iff {P : Platform η φ ρ} {s t : Backend η φ ρ}
    {c c' : Connection} {payload openPayload statPayload : List Byte} {d : DirHandle}
    {dir entry name : Path} {st : StatInfo} (D : RegularFiles P t.world.host)
    (hlists : Lists P c s payload d entry name st) (hroot : Backend.IsRoot t.fsRoot)
    (hhost : t.world.host = s.world.host)
    (hcompression : t.enableCompression = s.enableCompression)
    (hdir : t.resolvePath P dir = some d.dirPath)
    (hasks : Asks openPayload statPayload (dir ++ Path.slash :: name))
    (hlive : t.Live D) (hcurrent : t.Current P (dir ++ Path.slash :: name)) :
    Agrees P c' t openPayload statPayload st ↔ NoneKept c' (dir ++ Path.slash :: name) ∧
      (PlainEntry P t entry ∨ t.HostHas P (dir ++ Path.slash :: name) st) := by
  have hne : dir ++ Path.slash :: name ≠ [] := by simp
  constructor
  · intro hagrees
    refine ⟨hasks.noneKept hlists.mode hagrees, Or.inr ?_⟩
    exact (Backend.statOnHost_iff hcurrent).mp ((hasks.stat_iff hne).mp hagrees.stat)
  · rintro ⟨hkept, hplain⟩
    have hhas : t.HostHas P (dir ++ Path.slash :: name) st :=
      hplain.elim (hlists.hostHas hhost hcompression D hroot hdir) id
    exact hasks.agrees hne D hlive hcurrent hlists.mode hkept hhas

/-! ### The small host -/

namespace Host

/-- Regular files of the small host, where their sizes are signed 64-bit numbers. -/
def regularFiles (h : Host) (hsized : ∀ ino, (h.contents ino).length < 2 ^ 63) :
    RegularFiles platform h where
  toFiles := files
  LiveImage := fun _ _ => True
  stat_of_lstat := fun _ _ hlstat _ => hlstat
  openFile := by
    intro path info f h' hstat hregular hopen
    change stat path h = .ok info at hstat
    change openFile path oRDONLY h = (.ok f, h') at hopen
    unfold stat at hstat
    unfold openFile at hopen
    cases hlookup : h.lookup path with
    | none =>
      rw [hlookup] at hstat
      cases hstat
    | some node =>
      rw [hlookup] at hstat hopen
      cases node with
      | dir =>
        cases hstat
        cases hregular
      | file ino =>
        cases hstat
        cases hopen
        exact ⟨hsized ino, rfl, rfl, _, rfl, rfl, rfl⟩
  closeFile := fun _ _ _ _ _ hfile _ => ⟨hfile, rfl, rfl⟩
  closeImage := fun _ _ _ _ _ hfile _ => ⟨hfile, rfl, rfl⟩

/-- A host with a directory `/r` and a file of three bytes in it. -/
def threeBytes : Host :=
  ⟨[(Path.ascii ['/', 'r'], .dir), (Path.ascii ['/', 'r', '/', 'a'], .file 0)], fun _ => [7, 8, 9],
    1⟩

end Host

/-- OPEN for reading. -/
def openForReading (path : Path) : List Byte := [0x10, 0, 1, 0, 0, 0, 0, 0] ++ path ++ [0]

/-- GETSTAT. -/
def getstatOf (path : Path) : List Byte := [0x1E, 0, 0, 0] ++ path ++ [0]

/-- A plain file is listed, opened and found with the same size. -/
theorem listing_open_and_stat_agree_on_three_bytes :
    ∃ (s₀ : Backend Host OsFile Host.Image) (out₀ out₁ : Outcome _) (st : StatInfo),
      Backend.newBackend Host.platform Backend.serveShelf Host.threeBytes 0 = .ok (some s₀) ∧
      newConnection.handlePayload (Backend.fs Host.platform) s₀ Backend.dopen = .ok out₀ ∧
      newConnection.handlePayload (Backend.fs Host.platform) out₀.fs Backend.dreadFirst =
        .ok out₁ ∧
      out₁.reply = .dreadReply 1 (Path.ascii ['a']) st ∧ fileSize st = 3 ∧
      Agrees Host.platform newConnection out₁.fs (openForReading (Path.ascii ['/', 'a']))
        (getstatOf (Path.ascii ['/', 'a'])) st := by
  have hrun : ∃ (s₀ : Backend Host OsFile Host.Image) (out₀ out₁ : Outcome _) (st : StatInfo)
      (d : DirHandle),
      Backend.newBackend Host.platform Backend.serveShelf Host.threeBytes 0 = .ok (some s₀) ∧
      newConnection.handlePayload (Backend.fs Host.platform) s₀ Backend.dopen = .ok out₀ ∧
      newConnection.handlePayload (Backend.fs Host.platform) out₀.fs Backend.dreadFirst =
        .ok out₁ ∧
      out₁.reply = .dreadReply 1 (Path.ascii ['a']) st ∧ fileSize st = 3 ∧
      out₀.fs.handles 0 = some (.dir d) ∧ d.entries[d.index]? = some (Path.ascii ['a']) ∧
      d.dirPath = Path.ascii ['/', 'r'] ∧ out₀.fs.world.host = Host.threeBytes ∧
      out₁.fs.world.host = Host.threeBytes ∧ out₁.fs.fsRoot = Path.ascii ['/', 'r'] ∧
      out₁.fs.enableCompression = out₀.fs.enableCompression ∧
      out₁.fs.resolvePath Host.platform [] = some d.dirPath ∧
      out₁.fs.handles = Function.update (Function.update (fun _ => none) 0 (some (.dir d))) 0
        (some (.dir { d with index := d.index + 1 })) :=
    ⟨_, _, _, _, _, rfl, rfl, rfl, rfl, rfl, rfl, rfl, rfl, rfl, rfl, rfl, rfl, rfl,
      rfl⟩
  obtain ⟨s₀, out₀, out₁, st, d, hnew, h₀, h₁, hreply, hsize, hd, hnext, hdirPath, hhost₀, hhost₁,
    hfsRoot, hcompression, hdir, hhandles⟩ := hrun
  have hnofile (i : Fin maxHandles) (f : FileHandle OsFile Host.Image) :
      out₁.fs.handles i ≠ some (.file f) := by
    rw [hhandles, Function.update_idem]
    by_cases hi : i = 0
    · simp [hi]
    · simp [Function.update_of_ne hi]
  have hroot : Backend.IsRoot out₁.fs.fsRoot := by
    rw [hfsRoot]
    exact ⟨rfl, by decide⟩
  have hsized (ino : ℕ) : (out₁.fs.world.host.contents ino).length < 2 ^ 63 := by
    rw [hhost₁]
    change 3 < 2 ^ 63
    decide
  have hlists : Lists Host.platform newConnection out₀.fs Backend.dreadFirst d (Path.ascii ['a'])
      (Path.ascii ['a']) st := by
    refine ⟨⟨rfl, 0, rfl, hd⟩, hnext, ?_, out₁, h₁, hreply⟩
    rw [hdirPath, hhost₀]
    exact ⟨_, rfl, rfl⟩
  have hasks : Asks (openForReading (Path.ascii ['/', 'a'])) (getstatOf (Path.ascii ['/', 'a']))
      ([] ++ Path.slash :: Path.ascii ['a']) :=
    ⟨⟨rfl, by decide, rfl⟩, rfl, ⟨rfl, by decide⟩, rfl, rfl⟩
  have hcurrent : out₁.fs.Current Host.platform ([] ++ Path.slash :: Path.ascii ['a']) := by
    intro fullPath f _ hfound
    unfold Backend.getFileByPath at hfound
    split at hfound
    · cases hfound
    · split at hfound
      · rename_i g hg
        exact absurd hg (hnofile _ g)
      · cases hfound
  have hplain : PlainEntry Host.platform out₁.fs (Path.ascii ['a']) := by
    refine ⟨?_, ⟨by decide, by decide, by decide, by decide⟩, by decide⟩
    rw [Bool.and_eq_false_iff]
    exact Or.inr rfl
  refine ⟨s₀, out₀, out₁, st, hnew, h₀, h₁, hreply, hsize, ?_⟩
  refine (listing_open_and_stat_agree_iff (Host.regularFiles _ hsized) hlists hroot
    (hhost₁.trans hhost₀.symm) hcompression hdir hasks (fun i f hf => absurd hf (hnofile i f))
    hcurrent).mpr ⟨?_, Or.inl hplain⟩
  rintro handle hlookup
  cases hlookup

/-! ### An image -/

/-- A CSO image of one block of two bytes, stored plain. -/
def plainCso : List Byte :=
  csoMagic ++ [24, 0, 0, 0, 2, 0, 0, 0, 0, 0, 0, 0, 2, 0, 0, 0, 1, 0, 0, 0] ++
    [32, 0, 0, 0x80, 34, 0, 0, 0x80] ++ [7, 9]

/-- A host with a directory `/r` that holds the image. -/
def plainCsoHost : Host :=
  ⟨[(Path.ascii ['/', 'r'], .dir), (Path.ascii ['/', 'r', '/', 'a', '.', 'c', 's', 'o'], .file 0)],
    fun _ => plainCso, 1⟩

/-- The name under which the image is listed. -/
def imageListed : Path := Path.ascii ['a', '.', 'c', 's', 'o', '.', 'i', 's', 'o']

/-- An image of two bytes is listed with its size, OPEN replies with the size zero, and GETSTAT
fails. -/
theorem image_is_opened_with_size_zero :
    ∃ (s₀ : Backend Host OsFile (Decoder OsFile)) (out₀ out₁ out₂ out₃ : Outcome _)
      (st st' : StatInfo),
      Backend.newBackend Backend.hostPlatform Backend.serveShelf plainCsoHost 0 = .ok (some s₀) ∧
      newConnection.handlePayload (Backend.fs Backend.hostPlatform) s₀ Backend.dopen =
        .ok out₀ ∧
      newConnection.handlePayload (Backend.fs Backend.hostPlatform) out₀.fs Backend.dreadFirst =
        .ok out₁ ∧
      out₁.reply = .dreadReply 1 imageListed st ∧ fileSize st = 2 ∧
      newConnection.handlePayload (Backend.fs Backend.hostPlatform) out₁.fs
        (openForReading imageListed) = .ok out₂ ∧
      out₂.reply = .openReply 2 st' ∧ fileSize st' = 0 ∧
      newConnection.handlePayload (Backend.fs Backend.hostPlatform) out₁.fs
        (getstatOf imageListed) = .ok out₃ ∧
      out₃.reply.Failed ∧
      ¬ Agrees Backend.hostPlatform newConnection out₁.fs (openForReading imageListed)
        (getstatOf imageListed) st := by
  refine ⟨_, _, _, _, _, _, _, rfl, rfl, rfl, rfl, rfl, rfl, rfl, rfl, rfl,
    ⟨_, rfl, by decide⟩, fun hagrees => ?_⟩
  obtain ⟨out, st, hok, hreply, -⟩ := hagrees.stat
  cases hok
  cases hreply

end Udpfsd.Fs
