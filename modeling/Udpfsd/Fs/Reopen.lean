import Udpfsd.Fs.Host
import Udpfsd.Fs.Table
import Udpfsd.Udpfs.Handlers

/-!
# Handles that are given out again

After a reset of its peer a connection answers an OPEN of a file it has in its handle cache
without opening anything: the client gets the old handle, with empty stat data. Here this is
compared with closing the old handle and opening the file again.
-/

namespace Udpfsd.Fs

open Udprdma (Byte uint16)
open Udpfs

variable {η φ ρ : Type}

namespace Backend

variable (P : Platform η φ ρ)

/-- The handle is closed and the path is opened afresh. -/
def reopen (c : Connection) (s : Backend η φ ρ) (handle : ℤ) (path : Path) (flag : OpenFlag) :
    Except Fault (Outcome (Backend η φ ρ)) := do
  let (_, s) ← close P handle s
  (c.removeHandle handle).openNew (fs P) s path flag false

/-- Two outcomes of an OPEN are the same to the client. `content` is what it can read. -/
structure SameOpen (content : FileObject φ ρ → η → List Byte)
    (a b : Outcome (Backend η φ ρ)) : Prop where
  /-- Both succeed or both fail, with the same mode, size and times. -/
  reply : ∃ h h' st, a.reply = .openReply h st ∧ b.reply = .openReply h' st ∧ (h < 0 ↔ h' < 0)
  /-- The handle is one of a file, at its start. -/
  start : ∀ h st, a.reply = .openReply h st → 0 ≤ h →
    ∃ f, a.fs.fileAt h = some f ∧ (f.seek P 0 1 a.fs.world).1 = (0, none)
  /-- The files have the same content. -/
  content : ∀ h h' st st', a.reply = .openReply h st → b.reply = .openReply h' st' → 0 ≤ h →
    (a.fs.fileAt h).map (fun f => content f.obj a.fs.world.host) =
      (b.fs.fileAt h').map (fun f => content f.obj b.fs.world.host)

/-! ### The stat data of a fresh open -/

variable {P} {s t : Backend η φ ρ} {path fullPath : Path} {flag : OpenFlag} {handle : ℤ}
  {st : StatInfo}

/-- The modification time of a file is a date. -/
def Dated (info : FileInfo) : Prop := 1 ≤ info.modTime.day ∧ info.modTime.day ≤ 31

theorem statInfoFromFile_ne_empty {info : FileInfo} (hinfo : Dated info) :
    statInfoFromFile info ≠ .empty := by
  intro heq
  have hmtime : encodeTime info.modTime = Vector.replicate 8 0 := congrArg StatInfo.mtime heq
  have hday : BitVec.ofNat 8 info.modTime.day = 0 := by
    have := congrArg (fun v => v.get 4) hmtime
    exact this
  have hmod := congrArg BitVec.toNat hday
  rw [BitVec.toNat_ofNat] at hmod
  obtain ⟨hlo, hhi⟩ := hinfo
  simp only [BitVec.ofNat_eq_ofNat, BitVec.toNat_zero] at hmod
  omega

theorem finishOpen_stat {stat : η → Except Error FileInfo} {added : ℤ × Backend η φ ρ}
    (hok : finishOpen stat added = .ok ((handle, st, none), t)) (hhandle : 0 ≤ handle) :
    ∃ h info, stat h = .ok info ∧ st = statInfoFromFile info := by
  unfold finishOpen at hok
  split_ifs at hok with hneg
  · cases hok
    omega
  · split at hok
    · cases hok
    · rename_i info hstat
      cases hok
      exact ⟨_, info, hstat, rfl⟩

section Stats

variable (hdated : ∀ f h info, P.os.fstat f h = .ok info → Dated info)
include hdated

/-- Where the times of files are dates, so are those of the reply. -/
theorem openPlain_stat {present : Bool}
    (hok : s.openPlain P fullPath flag present = .ok ((handle, st, none), t))
    (hhandle : 0 ≤ handle) : ∃ info, Dated info ∧ st = statInfoFromFile info := by
  unfold openPlain at hok
  split at hok
  · cases hok
  simp only at hok
  split at hok
  · cases hok
  · obtain ⟨h, info, hstat, hst⟩ := finishOpen_stat hok hhandle
    exact ⟨info, hdated _ h info hstat, hst⟩

theorem openRegular_stat (hok : s.openRegular P fullPath flag = .ok ((handle, st, none), t))
    (hhandle : 0 ≤ handle) : ∃ info, Dated info ∧ st = statInfoFromFile info := by
  unfold openRegular at hok
  simp only at hok
  split at hok
  · exact openPlain_stat hdated hok hhandle
  · obtain ⟨⟨wrapper, host⟩, hopen, hok⟩ := Fallible.bind_eq_ok.mp hok
    cases wrapper with
    | none => exact openPlain_stat hdated hok hhandle
    | some c =>
      obtain ⟨h, info, hstat, hst⟩ := finishOpen_stat hok hhandle
      cases hstat
      refine ⟨_, ?_, hst⟩
      rw [openCompressed_info hopen]
      exact ⟨by decide, by decide⟩

/-- An OPEN that succeeds tells the times of the file, which are not all zero. -/
theorem openFile_stat_ne_empty (hok : openFile P path flag false s = .ok ((handle, st, none), t))
    (hhandle : 0 ≤ handle) : st ≠ .empty := by
  unfold openFile at hok
  split at hok
  · cases hok
  · simp only [Bool.false_eq_true, if_false] at hok
    split_ifs at hok
    · cases hok
    · cases hok
    · obtain ⟨info, hinfo, rfl⟩ := openRegular_stat hdated hok hhandle
      exact statInfoFromFile_ne_empty hinfo

end Stats

/-! ### The two outcomes -/

variable {c : Connection} {payload : List Byte}

/-- A file OPEN that finds a handle in the cache. -/
theorem handlePayload_of_lookupHandle (htype : msgType payload = some .openReq)
    (hlength : 8 ≤ payload.length) (hfile : payload.getD 1 0 = 0)
    (hlookup : (c.lookupHandle (cString (payload.drop 8))
      (udpfsFlagsToOSFlags (uint16 (payload.drop 2)))).1 = some handle) :
    ∃ c', c.handlePayload (fs P) s payload = .ok ⟨c', s, .openReply handle .empty, 0⟩ := by
  obtain ⟨c', hlookup⟩ : ∃ c', c.lookupHandle (cString (payload.drop 8))
      (udpfsFlagsToOSFlags (uint16 (payload.drop 2))) = (some handle, c') :=
    ⟨_, Prod.ext hlookup rfl⟩
  refine ⟨c', ?_⟩
  rw [Connection.handlePayload, htype]
  change c.handleOpen (fs P) s payload = _
  rw [Connection.handleOpen, if_neg (by omega)]
  simp only [hfile, ne_eq, not_true_eq_false, decide_false, Bool.false_eq_true, if_false, hlookup]

/-- A new file is opened and the reply has a handle: this is what `Open` returned. -/
theorem openNew_of_nonneg {σ : Type*} {F : FS σ} {x : σ} {isDir : Bool} {out : Outcome σ}
    (hok : c.openNew F x path flag isDir = .ok out) (hreply : out.reply = .openReply handle st)
    (hhandle : 0 ≤ handle) : F.openFile path flag isDir x = .ok ((handle, st, none), out.fs) := by
  obtain ⟨⟨⟨h, st', err⟩, t⟩, hopen, hok⟩ := Fallible.bind_eq_ok.mp hok
  cases err with
  | some err =>
    cases hok
    cases hreply
    have := errToErrno_pos err
    omega
  | none =>
    simp only at hok
    split_ifs at hok <;> cases hok <;> cases hreply <;> exact hopen

/-- A fresh open that succeeds does not reply with empty stat data. -/
theorem reopen_reply_ne {out : Outcome (Backend η φ ρ)}
    (hdated : ∀ f h info, P.os.fstat f h = .ok info → Dated info)
    (hok : reopen P c s handle path flag = .ok out) {h' : ℤ} (hreply : out.reply = .openReply h' st)
    (hh' : 0 ≤ h') : st ≠ .empty := by
  obtain ⟨⟨err, s₁⟩, hclose, hok⟩ := Fallible.bind_eq_ok.mp hok
  exact openFile_stat_ne_empty hdated (openNew_of_nonneg hok hreply hh') hh'

/-- For no OPEN is the handle from the cache the same as a fresh open. -/
theorem reuse_is_no_fresh_open (hdated : ∀ f h info, P.os.fstat f h = .ok info → Dated info)
    (htype : msgType payload = some .openReq) (hlength : 8 ≤ payload.length)
    (hfile : payload.getD 1 0 = 0) (path : Path) (flag : OpenFlag)
    (hpath : cString (payload.drop 8) = path)
    (hflag : udpfsFlagsToOSFlags (uint16 (payload.drop 2)) = flag)
    (hlookup : (c.lookupHandle path flag).1 = some handle) (hhandle : 0 < handle)
    (content : FileObject φ ρ → η → List Byte) :
    ¬ ∃ out out', c.handlePayload (fs P) s payload = .ok out ∧
      reopen P c s handle path flag = .ok out' ∧ SameOpen P content out out' := by
  rintro ⟨out, out', hok, hok', hsame⟩
  subst hpath hflag
  obtain ⟨c', hcached⟩ :=
    handlePayload_of_lookupHandle (P := P) (s := s) htype hlength hfile hlookup
  cases hcached.symm.trans hok
  obtain ⟨h, h', st, hreply, hreply', hsign⟩ := hsame.reply
  cases hreply
  exact reopen_reply_ne hdated hok' hreply' (by omega) rfl

/-- A host with a file `/r/a` of one byte. -/
def oneByteHost : Host :=
  ⟨[(Path.ascii ['/', 'r'], .dir), (Path.ascii ['/', 'r', '/', 'a'], .file 0)], fun _ => [7], 1⟩

/-- The directory is served. -/
def serveOneByte : Options := ⟨Path.ascii ['/', 'r'], [], 0, false, false, 0⟩

/-- OPEN of the file for reading. -/
def openOneByte : List Byte := [0x10, 0, 1, 0, 0, 0, 0, 0] ++ Path.ascii ['a'] ++ [0]

/-- The times of the small host are dates. -/
theorem dated_fstat (f : OsFile) (h : Host) (info : FileInfo)
    (hstat : Host.platform.os.fstat f h = .ok info) : Dated info := by
  change Host.fstat f h = .ok info at hstat
  unfold Host.fstat at hstat
  split at hstat
  · cases hstat
    exact (by decide : 1 ≤ Time.zero.day ∧ Time.zero.day ≤ 31)
  · cases hstat
    exact (by decide : 1 ≤ Time.zero.day ∧ Time.zero.day ≤ 31)

/-- A client opens the file, is reset and opens it again. -/
theorem reuse_is_no_fresh_open_after_reset :
    ∃ (s₀ s : Backend Host OsFile Host.Image) (out₀ : Outcome _) (c : Connection),
      newBackend Host.platform serveOneByte oneByteHost 0 = .ok (some s₀) ∧
      newConnection.handlePayload (fs Host.platform) s₀ openOneByte = .ok out₀ ∧
      out₀.conn.resetPeer (fs Host.platform) out₀.fs = .ok (c, s) ∧
      ∀ content, ¬ ∃ out out', c.handlePayload (fs Host.platform) s openOneByte = .ok out ∧
        reopen Host.platform c s 1 (Path.ascii ['a']) oRDONLY = .ok out' ∧
        SameOpen Host.platform content out out' := by
  have hrun : ∃ (s₀ s : Backend Host OsFile Host.Image) (out₀ : Outcome _) (c : Connection),
      newBackend Host.platform serveOneByte oneByteHost 0 = .ok (some s₀) ∧
      newConnection.handlePayload (fs Host.platform) s₀ openOneByte = .ok out₀ ∧
      out₀.conn.resetPeer (fs Host.platform) out₀.fs = .ok (c, s) ∧
      (c.lookupHandle (Path.ascii ['a']) oRDONLY).1 = some 1 := ⟨_, _, _, _, rfl, rfl, rfl, rfl⟩
  obtain ⟨s₀, s, out₀, c, hnew, hopen, hreset, hlookup⟩ := hrun
  refine ⟨s₀, s, out₀, c, hnew, hopen, hreset, fun content => ?_⟩
  exact reuse_is_no_fresh_open dated_fstat rfl (by decide) rfl (Path.ascii ['a']) oRDONLY rfl rfl
    hlookup (by decide) content

/-- The second OPEN is answered with the size 0 and the mode 0. A fresh open would have been
answered with the size 1 of a regular file. -/
theorem reused_handle_has_no_stat :
    ∃ (s₀ s : Backend Host OsFile Host.Image) (out₀ out out' : Outcome _) (c : Connection)
      (st : StatInfo),
      newBackend Host.platform serveOneByte oneByteHost 0 = .ok (some s₀) ∧
      newConnection.handlePayload (fs Host.platform) s₀ openOneByte = .ok out₀ ∧
      out₀.conn.resetPeer (fs Host.platform) out₀.fs = .ok (c, s) ∧
      c.handlePayload (fs Host.platform) s openOneByte = .ok out ∧
      reopen Host.platform c s 1 (Path.ascii ['a']) oRDONLY = .ok out' ∧
      out.reply = .openReply 1 .empty ∧
      out'.reply = .openReply 1 st ∧ st.mode = fioSIfreg ∧ st.size = 1 ∧
      ∀ content, ¬ SameOpen Host.platform content out out' := by
  refine ⟨_, _, _, _, _, _, _, rfl, rfl, rfl, rfl, rfl, rfl, rfl, rfl, rfl, fun content hsame => ?_⟩
  obtain ⟨h, h', st, hreply, hreply', -⟩ := hsame.reply
  cases hreply
  cases congrArg StatInfo.mode (Reply.openReply.inj hreply').2

end Backend

end Udpfsd.Fs
