import Mathlib.Data.List.AList
import Udpfsd.Udpfs.FS

/-!
# The state of a connection

A connection remembers the handles its client has opened, so that it can close them
when the client disappears and give them out again when the client restarts, and the
handle of the write in progress. Its data buffer holds the data of the latest READ or
BREAD. What a handler sends back is a `Reply`.
-/

namespace Udpfsd.Udpfs

open Udprdma (Byte)

/-- `cachedHandle`. -/
structure CachedHandle where
  /-- The path of the OPEN_REQ. -/
  path : Path
  /-- Its flags, as `os` flags. -/
  flag : OpenFlag
  /-- Set by a reset of the peer, cleared when the handle is given out again. -/
  reset : Bool
  /-- Whether the handle was opened as a directory. -/
  isDir : Bool
  deriving DecidableEq

/-- The fields of `Connection` that the handlers use, the session excepted. -/
structure Connection where
  /-- The handle cache. A loop over it runs in the order of the entries. -/
  usedHandles : AList (fun _ : ℤ => CachedHandle)
  /-- The handle of the write in progress, or -1. -/
  activeWriteHandle : ℤ
  /-- The read buffer. -/
  dataBuffer : Buffer Byte

/-- `NewConnection`. -/
def newConnection : Connection := ⟨∅, -1, fun _ => 0⟩

/-- A message of the server. -/
inductive Reply
  /-- `SendACK` with the ACK flag. -/
  | ack
  /-- `SendOpenReply`. -/
  | openReply (handle : ℤ) (st : StatInfo)
  /-- `SendCloseReply`. -/
  | closeReply (result : ℤ)
  /-- `SendReadResult`; the data is the front of the data buffer, or nil. -/
  | readResult (result : ℤ) (data : Option ℕ)
  /-- `SendWriteDone`. -/
  | writeDone (result : ℤ)
  /-- `SendLseekReply`. -/
  | lseekReply (position : ℤ)
  /-- `SendDreadReply`. -/
  | dreadReply (result : ℤ) (name : Path) (st : StatInfo)
  /-- `SendGetstatReply`. -/
  | getstatReply (result : ℤ) (st : StatInfo)
  /-- `SendResultReplyOnly`. -/
  | resultReply (result : ℤ)
  deriving DecidableEq

/-- The result a reply carries. -/
def Reply.result : Reply → Option ℤ
  | .ack => none
  | .openReply handle _ => some handle
  | .closeReply result => some result
  | .readResult result _ => some result
  | .writeDone result => some result
  | .lseekReply position => some position
  | .dreadReply result _ _ => some result
  | .getstatReply result _ => some result
  | .resultReply result => some result

/-- Whether a reply tells the client that its request failed. -/
def Reply.Failed (r : Reply) : Prop := ∃ result, r.result = some result ∧ result < 0

instance (r : Reply) : Decidable r.Failed :=
  match h : r.result with
  | none => isFalse (by simp [Reply.Failed, h])
  | some result =>
    if hneg : result < 0 then isTrue ⟨result, h, hneg⟩
    else isFalse (by simpa [Reply.Failed, h] using hneg)

/-- Whether a reply is the one to a READ or BREAD. -/
def Reply.isRead : Reply → Bool
  | .readResult _ _ => true
  | _ => false

namespace Connection

/-- `lookupHandle`. -/
def lookupHandle (c : Connection) (path : Path) (flag : OpenFlag) : Option ℤ × Connection :=
  match c.usedHandles.entries.find? (fun e => e.2.reset && e.2.path = path && e.2.flag = flag) with
  | some ⟨fsHandle, h⟩ =>
    (some fsHandle,
      { c with usedHandles := c.usedHandles.insert fsHandle { h with reset := false } })
  | none => (none, c)

/-- `addHandle`. -/
def addHandle (c : Connection) (handle : ℤ) (path : Path) (flag : OpenFlag) (isDir : Bool) :
    Connection :=
  { c with usedHandles := c.usedHandles.insert handle ⟨path, flag, false, isDir⟩ }

/-- `clearWriteHandle`. -/
def clearWriteHandle (c : Connection) : Connection := { c with activeWriteHandle := -1 }

/-- `setWriteHandle`. -/
def setWriteHandle (c : Connection) (handle : ℤ) : Connection :=
  { c with activeWriteHandle := handle }

/-- `removeHandle`. -/
def removeHandle (c : Connection) (handle : ℤ) : Connection :=
  let c := { c with usedHandles := c.usedHandles.erase handle }
  if c.activeWriteHandle = handle then c.clearWriteHandle else c

/-- A cached handle after a reset of the peer. -/
def resetEntry (e : Sigma fun _ : ℤ => CachedHandle) : Sigma fun _ : ℤ => CachedHandle :=
  ⟨e.1, { e.2 with reset := true }⟩

theorem keys_map_resetEntry (l : List (Sigma fun _ : ℤ => CachedHandle)) :
    (l.map resetEntry).keys = l.keys := by
  simp [List.keys, resetEntry, Function.comp_def]

theorem nodupKeys_map_resetEntry (used : AList fun _ : ℤ => CachedHandle) :
    (used.entries.map resetEntry).NodupKeys := by
  rw [List.NodupKeys, keys_map_resetEntry]
  exact used.nodupKeys

/-- The handle cache after a reset of the peer. -/
def markReset (used : AList fun _ : ℤ => CachedHandle) : AList fun _ : ℤ => CachedHandle :=
  ⟨used.entries.map resetEntry, nodupKeys_map_resetEntry used⟩

@[simp] theorem keys_markReset (used : AList fun _ : ℤ => CachedHandle) :
    (markReset used).keys = used.keys :=
  keys_map_resetEntry used.entries

variable {σ : Type*} (fs : FS σ)

/-- The loop of `ResetPeer` over the handle cache, as far as the filesystem goes. -/
def rewindAll : List ℤ → σ → Except Fault σ
  | [], s => .ok s
  | fsHandle :: rest, s => do
    let (_, s) ← fs.lseek fsHandle 0 0 s
    rewindAll rest s

/-- `ResetPeer`. -/
def resetPeer (c : Connection) (s : σ) : Except Fault (Connection × σ) := do
  let s ← rewindAll fs c.usedHandles.keys s
  return ({ c with usedHandles := markReset c.usedHandles }, s)

/-- The loop of `Close` over the handle cache. -/
def closeAll : List ℤ → σ → Except Fault σ
  | [], s => .ok s
  | fsHandle :: rest, s => do
    let (_, s) ← fs.close fsHandle s
    closeAll rest s

/-- `Close`, up to the closing of the session. -/
def close (c : Connection) (s : σ) : Except Fault (Connection × σ) := do
  let s ← closeAll fs c.usedHandles.keys s
  return ({ c with usedHandles := ∅ }, s)

end Connection

end Udpfsd.Udpfs
