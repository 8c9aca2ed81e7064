import Udpfsd.Base.Transition
import Udpfsd.Udpfs.Handlers

/-!
# What the handlers do

A request is refused before anything is called, or its handler calls one method of the
filesystem, or those of a write, and answers by what they return. This is said once here, for
any filesystem; what requests keep or leave alone is read off the cases.
-/

namespace Udpfsd.Udpfs

open Udprdma (Byte)

namespace Connection

variable {σ : Type*}

/-- The request works through a handle, without closing it. -/
structure WorksOn (c : Connection) (payload : List Byte) (handle : ℤ) : Prop where
  /-- It is no OPEN. -/
  opens : msgType payload ≠ some .openReq
  /-- It is no CLOSE. -/
  closes : msgType payload ≠ some .closeReq
  /-- The handle. -/
  target : c.target payload = some handle

/-- The start of a write to a file or of sectors. -/
def Starts (F : FS σ) (handle : ℤ) (s : σ) (err : Option Error) (t : σ) : Prop :=
  F.writeStart handle s = .ok (err, t) ∨
    ∃ sectorNr sectorCount, F.bwriteStart handle sectorNr sectorCount s = .ok (err, t)

/-- What becomes of a chunk of a write. -/
inductive Chunked (F : FS σ) (c : Connection) (s : σ) (handle : ℤ) : Outcome σ → Prop
  /-- It is not accepted, and the write is over. -/
  | failed {nr size total data done err t}
      (hcall : F.writeChunk handle nr size total data s = .ok ((done, some err), t)) :
      Chunked F c s handle (c.sendWriteDone t (-errToErrno err) (-errToErrno err))
  /-- There are more to come. -/
  | more {nr size total data t status}
      (hcall : F.writeChunk handle nr size total data s = .ok ((false, none), t)) :
      Chunked F c s handle ⟨c, t, .ack, status⟩
  /-- It is the last one, and the write is over. -/
  | last {nr size total data t r u result status}
      (hcall : F.writeChunk handle nr size total data s = .ok ((true, none), t))
      (hcomplete : F.completeWrite handle t = .ok (r, u)) :
      Chunked F c s handle (c.sendWriteDone u result status)

/-- What `HandlePayload` does. -/
inductive Responds (F : FS σ) (c : Connection) (s : σ) (payload : List Byte) : Outcome σ → Prop
  /-- Nothing is called. -/
  | refused {reply status}
      (htarget : ∀ handle, c.target payload = some handle → handle = blockDeviceHandle)
      (hopen : msgType payload = some .openReq → reply.Failed)
      (hread : reply.isRead = true →
        msgType payload = some .readReq ∨ msgType payload = some .breadReq) :
      Responds F c s payload ⟨c, s, reply, status⟩
  /-- An OPEN gives out a handle of the cache again. -/
  | reused {handle entry} (htype : msgType payload = some .openReq)
      (hmem : handle ∈ c.usedHandles.keys) :
      Responds F c s payload
        ⟨{ c with usedHandles := c.usedHandles.insert handle entry }, s,
          .openReply handle .empty, 0⟩
  /-- `Open` fails. -/
  | openFailed {path flags isDir handle stat err t result}
      (htype : msgType payload = some .openReq)
      (hcall : F.openFile path (udpfsFlagsToOSFlags flags) isDir s = .ok ((handle, stat, err), t))
      (hfailed : err ≠ none ∨ handle < 0) (hresult : result < 0) :
      Responds F c s payload ⟨c, t, .openReply result stat, result⟩
  /-- `Open` returns a handle, which is entered in the cache. -/
  | opened {path flags isDir handle stat t} (htype : msgType payload = some .openReq)
      (hcall : F.openFile path (udpfsFlagsToOSFlags flags) isDir s = .ok ((handle, stat, none), t))
      (hhandle : 0 ≤ handle) :
      Responds F c s payload ⟨c.addHandle handle path (udpfsFlagsToOSFlags flags) isDir, t,
        .openReply handle stat, 0⟩
  /-- `Close` fails. -/
  | closeFailed {handle err t} (htype : msgType payload = some .closeReq)
      (hcall : F.close handle s = .ok (some err, t)) :
      Responds F c s payload ⟨c, t, .closeReply (-errToErrno err), -errToErrno err⟩
  /-- `Close` removes a handle from the cache. -/
  | closed {handle t} (htype : msgType payload = some .closeReq)
      (htarget : c.target payload = some handle) (hne : handle ≠ blockDeviceHandle)
      (hcall : F.close handle s = .ok (none, t)) :
      Responds F c s payload ⟨c.removeHandle handle, t, .closeReply 0, 0⟩
  /-- `Read` into the data buffer. -/
  | read {handle size r buf t result data} (htype : msgType payload = some .readReq)
      (hworks : c.WorksOn payload handle)
      (hcall : F.read handle size c.dataBuffer s = .ok ((r, buf), t))
      (herr : r.err ≠ none → result < 0) :
      Responds F c s payload ⟨{ c with dataBuffer := buf }, t, .readResult result data, result⟩
  /-- `Bread` into the data buffer. -/
  | bread {handle sectorNr sectorCount r buf t result data}
      (htype : msgType payload = some .breadReq) (hworks : c.WorksOn payload handle)
      (hcall : F.bread handle sectorNr sectorCount c.dataBuffer s = .ok ((r, buf), t))
      (herr : r.err ≠ none → result < 0) :
      Responds F c s payload ⟨{ c with dataBuffer := buf }, t, .readResult result data, result⟩
  /-- `Lseek`. -/
  | lseek {handle offset whence r t position status} (hworks : c.WorksOn payload handle)
      (hcall : F.lseek handle offset whence s = .ok (r, t))
      (hposition : position = -1 ∨ position = r.1) (herr : r.2 ≠ none → position = -1) :
      Responds F c s payload ⟨c, t, .lseekReply position, status⟩
  /-- `Dread`. -/
  | dread {handle ok name stat err t result name' stat' status} (hworks : c.WorksOn payload handle)
      (hcall : F.dread handle s = .ok ((ok, name, stat, err), t)) (herr : err ≠ none → result < 0) :
      Responds F c s payload ⟨c, t, .dreadReply result name' stat', status⟩
  /-- `Getstat`. -/
  | getstat {path r t result stat} (htype : msgType payload = some .getstatReq)
      (hcall : F.getstat path s = .ok (r, t)) :
      Responds F c s payload ⟨c, t, .getstatReply result stat, result⟩
  /-- `Mkdir`. -/
  | mkdir {path r t result} (htype : msgType payload = some .mkdirReq)
      (hcall : F.mkdir path s = .ok (r, t)) :
      Responds F c s payload ⟨c, t, .resultReply result, result⟩
  /-- `Remove`. -/
  | remove {path r t result} (htype : msgType payload = some .removeReq)
      (hcall : F.remove path s = .ok (r, t)) :
      Responds F c s payload ⟨c, t, .resultReply result, result⟩
  /-- `Rmdir`. -/
  | rmdir {path r t result} (htype : msgType payload = some .rmdirReq)
      (hcall : F.rmdir path s = .ok (r, t)) :
      Responds F c s payload ⟨c, t, .resultReply result, result⟩
  /-- A write is not started. -/
  | startFailed {handle err t} (hworks : c.WorksOn payload handle)
      (hcall : Starts F handle s (some err) t) :
      Responds F c s payload (c.sendWriteDone t (-errToErrno err) (-errToErrno err))
  /-- A write is started without a chunk. -/
  | started {handle t} (hworks : c.WorksOn payload handle) (hcall : Starts F handle s none t) :
      Responds F c s payload ⟨c.setWriteHandle handle, t, .ack, 0⟩
  /-- A write is started with its first chunk. -/
  | startedChunk {handle t out} (hworks : c.WorksOn payload handle)
      (hcall : Starts F handle s none t)
      (hchunk : Chunked F (c.setWriteHandle handle) t handle out) : Responds F c s payload out
  /-- Another chunk of the write in progress. -/
  | chunk {out} (hworks : c.WorksOn payload c.activeWriteHandle)
      (hactive : c.activeWriteHandle ≠ -1) (hchunk : Chunked F c s c.activeWriteHandle out) :
      Responds F c s payload out

variable {F : FS σ} {c : Connection} {s t : σ} {payload : List Byte} {out : Outcome σ}
  {m : MsgType} {n : ℕ}

/-- The target of a request other than the data of a write. -/
theorem target_of_msgType (htype : msgType payload = some m) (hdata : m ≠ .writeData) :
    c.target payload = m.handleLength.bind
      (fun n => if payload.length < n then none else some (handleField payload)) := by
  have hne : ¬ msgType payload = some .writeData := by
    rw [htype]
    exact fun h => hdata (Option.some.inj h)
  rw [Connection.target, if_neg hne, namedHandle, htype]
  rfl

/-- A request that is too short, or of a type without a handle, has no target. -/
theorem Responds.of_short {reply : Reply} {status : ℤ} (htype : msgType payload = some m)
    (hdata : m ≠ .writeData) (hshort : ∀ n, m.handleLength = some n → payload.length < n)
    (hopen : m = .openReq → reply.Failed)
    (hread : reply.isRead = true → m = .readReq ∨ m = .breadReq) :
    Responds F c s payload ⟨c, s, reply, status⟩ := by
  have htarget := target_of_msgType (c := c) htype hdata
  refine .refused ?_ (fun h => hopen (Option.some.inj (htype.symm.trans h))) (by simpa [htype])
  intro handle hhandle
  cases hlength : m.handleLength with
  | none => simp [htarget, hlength] at hhandle
  | some n => simp [htarget, hlength, hshort n hlength] at hhandle

/-- A handler of requests with a handle refuses those that are too short. -/
theorem Responds.of_handle {k : Except Fault (Outcome σ)} {reply : Reply} {status : ℤ}
    (htype : msgType payload = some m) (hlength : m.handleLength = some n)
    (hm : m ≠ .openReq ∧ m ≠ .closeReq ∧ m ≠ .writeData)
    (hread : reply.isRead = true → m = .readReq ∨ m = .breadReq)
    (hok : (if payload.length < n then .ok ⟨c, s, reply, status⟩ else k) = .ok out)
    (hlong : c.WorksOn payload (handleField payload) → k = .ok out → Responds F c s payload out) :
    Responds F c s payload out := by
  split_ifs at hok with hshort
  · cases hok
    exact .of_short htype hm.2.2 (by simpa [hlength]) (absurd · hm.1) hread
  · refine hlong ⟨by simpa [htype] using hm.1, by simpa [htype] using hm.2.1, ?_⟩ hok
    simp [target_of_msgType htype hm.2.2, hlength, hshort]

theorem neg_errToErrno_neg (err : Error) : -errToErrno err < 0 := by
  have := errToErrno_pos err
  omega

/-- A lookup in the handle cache finds nothing, or one of its handles. -/
theorem lookupHandle_cases (c : Connection) (path : Path) (flag : OpenFlag) :
    c.lookupHandle path flag = (none, c) ∨
      ∃ h e, h ∈ c.usedHandles.keys ∧ c.lookupHandle path flag =
        (some h, { c with usedHandles := c.usedHandles.insert h e }) := by
  unfold Connection.lookupHandle
  split
  · rename_i h e hfind
    have hmem := List.mem_of_find?_eq_some hfind
    exact Or.inr ⟨h, _, List.mem_keys_of_mem hmem, rfl⟩
  · exact Or.inl rfl

theorem responds_openNew {path : Path} {flags : BitVec 16} {isDir : Bool}
    (htype : msgType payload = some .openReq)
    (hok : c.openNew F s path (udpfsFlagsToOSFlags flags) isDir = .ok out) :
    Responds F c s payload out := by
  obtain ⟨⟨⟨handle, stat, err⟩, t⟩, hcall, hok⟩ := Fallible.bind_eq_ok.mp hok
  cases err with
  | some err =>
    cases hok
    exact .openFailed htype hcall (.inl (Option.some_ne_none err)) (neg_errToErrno_neg err)
  | none =>
    simp only at hok
    split_ifs at hok with hneg <;> cases hok
    · exact .openFailed htype hcall (.inr hneg) hneg
    · exact .opened htype hcall (Int.not_lt.mp hneg)

theorem responds_handleOpen (htype : msgType payload = some .openReq)
    (hok : c.handleOpen F s payload = .ok out) : Responds F c s payload out := by
  unfold handleOpen at hok
  split at hok
  · cases hok
    exact .of_short htype (by decide) (by simp [MsgType.handleLength])
      (fun _ => ⟨_, rfl, by decide⟩) (by simp [Reply.isRead])
  simp only at hok
  split at hok
  · exact responds_openNew htype hok
  rcases c.lookupHandle_cases (cString (payload.drop 8))
    (udpfsFlagsToOSFlags (Udprdma.uint16 (payload.drop 2))) with hnone | ⟨h, e, hmem, hsome⟩
  · rw [hnone] at hok
    exact responds_openNew htype hok
  · rw [hsome] at hok
    cases hok
    exact .reused htype hmem

theorem responds_handleClose (htype : msgType payload = some .closeReq)
    (hok : c.handleClose F s payload = .ok out) : Responds F c s payload out := by
  unfold handleClose at hok
  split at hok
  · rename_i hshort
    cases hok
    exact .of_short htype (by decide) (by simpa [MsgType.handleLength]) (by simp)
      (by simp [Reply.isRead])
  rename_i hlong
  have htarget : c.target payload = some (handleField payload) := by
    simp [target_of_msgType htype, MsgType.handleLength, hlong]
  simp only at hok
  split_ifs at hok with hbd
  · cases hok
    refine .refused ?_ (by simp [htype]) (by simp [Reply.isRead])
    intro handle hhandle
    rw [htarget] at hhandle
    exact (Option.some.inj hhandle).symm.trans hbd
  · obtain ⟨⟨err, t⟩, hcall, hok⟩ := Fallible.bind_eq_ok.mp hok
    cases err <;> cases hok
    · exact .closed htype htarget hbd hcall
    · exact .closeFailed htype hcall

/-- READ and BREAD. -/
theorem responds_handleReadOp
    {op : Buffer Byte → σ → Except Fault ((ReadResult × Buffer Byte) × σ)}
    {f : ReadResult → ℤ} (htype : msgType payload = some m) (hlength : m.handleLength = some n)
    (hm : m = .readReq ∨ m = .breadReq)
    (hop : ∀ {r buf t result data}, c.WorksOn payload (handleField payload) →
      op c.dataBuffer s = .ok ((r, buf), t) → (r.err ≠ none → result < 0) →
      Responds F c s payload ⟨{ c with dataBuffer := buf }, t, .readResult result data, result⟩)
    (hok : c.handleReadOp s payload n op f = .ok out) : Responds F c s payload out := by
  refine .of_handle htype hlength (by rcases hm with rfl | rfl <;> decide) (fun _ => hm) hok
    fun hworks hok => ?_
  obtain ⟨⟨⟨⟨n, data, err⟩, buf⟩, t⟩, hcall, hok⟩ := Fallible.bind_eq_ok.mp hok
  cases err <;> cases hok
  · exact hop hworks hcall (by simp)
  · exact hop hworks hcall (fun _ => neg_errToErrno_neg _)

theorem chunked_handleChunk {handle : ℤ} {chunk : List Byte}
    (hok : c.handleChunk F s payload handle chunk = .ok out) : Chunked F c s handle out := by
  obtain ⟨⟨⟨done, err⟩, t⟩, hcall, hok⟩ := Fallible.bind_eq_ok.mp hok
  cases err with
  | some err =>
    cases hok
    exact .failed hcall
  | none =>
    cases done with
    | false =>
      cases hok
      exact .more hcall
    | true =>
      obtain ⟨⟨⟨n, err⟩, u⟩, hcomplete, hok⟩ := Fallible.bind_eq_ok.mp hok
      cases err <;> cases hok <;> exact .last hcall hcomplete

theorem responds_handleFirstChunk {handle : ℤ} {err : Option Error} {size : ℕ}
    (hworks : c.WorksOn payload handle) (hcall : Starts F handle s err t)
    (hok : c.handleFirstChunk F t payload handle err size = .ok out) :
    Responds F c s payload out := by
  cases err with
  | some err =>
    cases hok
    exact .startFailed hworks hcall
  | none =>
    simp only [handleFirstChunk] at hok
    split at hok
    · cases hok
      exact .started hworks hcall
    · exact .startedChunk hworks hcall (chunked_handleChunk hok)

theorem responds_handleWriteReq (htype : msgType payload = some .writeReq)
    (hok : c.handleWriteReq F s payload = .ok out) : Responds F c s payload out := by
  refine .of_handle htype rfl (by decide) (by simp [Reply.isRead]) hok fun hworks hok => ?_
  obtain ⟨⟨err, t⟩, hcall, hok⟩ := Fallible.bind_eq_ok.mp hok
  exact responds_handleFirstChunk hworks (.inl hcall) hok

theorem responds_handleBwriteReq (htype : msgType payload = some .bwriteReq)
    (hok : c.handleBwriteReq F s payload = .ok out) : Responds F c s payload out := by
  refine .of_handle htype rfl (by decide) (by simp [Reply.isRead]) hok fun hworks hok => ?_
  obtain ⟨⟨err, t⟩, hcall, hok⟩ := Fallible.bind_eq_ok.mp hok
  exact responds_handleFirstChunk hworks (.inr ⟨_, _, hcall⟩) hok

theorem responds_handleWriteData (htype : msgType payload = some .writeData)
    (hok : c.handleWriteData F s payload = .ok out) : Responds F c s payload out := by
  have htarget : c.target payload = if payload.length < 8 ∨ c.activeWriteHandle = -1 then none
      else some c.activeWriteHandle := by
    rw [Connection.target, if_pos htype]
  unfold handleWriteData at hok
  split_ifs at hok with hshort hidle
  · cases hok
    exact .refused (by simp [htarget, hshort]) (by simp [htype]) (by simp [Reply.isRead])
  · cases hok
    exact .refused (by simp [htarget, hidle]) (by simp [htype]) (by simp [Reply.isRead])
  · rw [if_neg (not_or.mpr ⟨hshort, hidle⟩)] at htarget
    exact .chunk ⟨by simp [htype], by simp [htype], htarget⟩ hidle (chunked_handleChunk hok)

theorem responds_handleLseek (htype : msgType payload = some .lseekReq)
    (hok : c.handleLseek F s payload = .ok out) : Responds F c s payload out := by
  refine .of_handle htype rfl (by decide) (by simp [Reply.isRead]) hok fun hworks hok => ?_
  obtain ⟨⟨⟨position, err⟩, t⟩, hcall, hok⟩ := Fallible.bind_eq_ok.mp hok
  cases err <;> cases hok
  · exact .lseek hworks hcall (.inr rfl) (by simp)
  · exact .lseek hworks hcall (.inl rfl) (fun _ => rfl)

theorem responds_handleDread (htype : msgType payload = some .dreadReq)
    (hok : c.handleDread F s payload = .ok out) : Responds F c s payload out := by
  refine .of_handle htype rfl (by decide) (by simp [Reply.isRead]) hok fun hworks hok => ?_
  obtain ⟨⟨⟨ok, name, stat, err⟩, t⟩, hcall, hok⟩ := Fallible.bind_eq_ok.mp hok
  cases err with
  | some err =>
    cases hok
    exact .dread hworks hcall (fun _ => neg_errToErrno_neg err)
  | none => cases ok <;> cases hok <;> exact .dread hworks hcall (by simp)

theorem responds_handleGetstat (htype : msgType payload = some .getstatReq)
    (hok : c.handleGetstat F s payload = .ok out) : Responds F c s payload out := by
  unfold handleGetstat at hok
  split at hok
  · cases hok
    exact .of_short htype (by decide) (by simp [MsgType.handleLength]) (by simp)
      (by simp [Reply.isRead])
  · obtain ⟨⟨⟨stat, err⟩, t⟩, hcall, hok⟩ := Fallible.bind_eq_ok.mp hok
    cases err <;> cases hok <;> exact .getstat htype hcall

/-- MKDIR, REMOVE and RMDIR. -/
theorem responds_handlePathOp {op : Path → σ → Except Fault (Option Error × σ)}
    (htype : msgType payload = some m)
    (hm : m ≠ .writeData ∧ m ≠ .openReq ∧ m.handleLength = none)
    (hop : ∀ {path r t result}, op path s = .ok (r, t) →
      Responds F c s payload ⟨c, t, .resultReply result, result⟩)
    (hok : c.handlePathOp s payload op = .ok out) : Responds F c s payload out := by
  unfold handlePathOp at hok
  split at hok
  · cases hok
    exact .of_short htype hm.1 (by simp [hm.2.2]) (absurd · hm.2.1) (by simp [Reply.isRead])
  · obtain ⟨⟨err, t⟩, hcall, hok⟩ := Fallible.bind_eq_ok.mp hok
    cases err <;> cases hok <;> exact hop hcall

/-- What a request that is answered has led to. -/
theorem responds (hok : c.handlePayload F s payload = .ok out) : Responds F c s payload out := by
  unfold handlePayload at hok
  cases htype : msgType payload with
  | none =>
    rw [htype] at hok
    cases hok
    exact .refused (by simp [target, namedHandle, htype]) (by simp [htype]) (by simp [Reply.isRead])
  | some m =>
    rw [htype] at hok
    cases m with
    | openReq => exact responds_handleOpen htype hok
    | closeReq => exact responds_handleClose htype hok
    | readReq => exact responds_handleReadOp htype rfl (.inl rfl) (.read htype) hok
    | writeReq => exact responds_handleWriteReq htype hok
    | writeData => exact responds_handleWriteData htype hok
    | lseekReq => exact responds_handleLseek htype hok
    | dreadReq => exact responds_handleDread htype hok
    | getstatReq => exact responds_handleGetstat htype hok
    | mkdirReq => exact responds_handlePathOp htype (by decide) (.mkdir htype) hok
    | removeReq => exact responds_handlePathOp htype (by decide) (.remove htype) hok
    | rmdirReq => exact responds_handlePathOp htype (by decide) (.rmdir htype) hok
    | breadReq => exact responds_handleReadOp htype rfl (.inr rfl) (.bread htype) hok
    | bwriteReq => exact responds_handleBwriteReq htype hok
    | openReply | closeReply | writeDone | lseekReply | dreadReply | getstatReply | resultReply =>
      cases hok
      exact .of_short htype (by decide) (by simp [MsgType.handleLength]) (by simp)
        (by simp [Reply.isRead])

end Connection

end Udpfsd.Udpfs
