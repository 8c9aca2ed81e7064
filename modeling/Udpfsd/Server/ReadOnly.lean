import Udpfsd.Fs.Requests
import Udpfsd.Fs.Volume
import Udpfsd.Server.Peers

/-!
# A read-only server changes nothing

The checks that keep a read-only server from writing are spread out. The translation of
the open flags lets only the modes for writing create or truncate, `Open` refuses these
modes, what it opens is marked read-only, the operations on directories are refused, and
a write starts only through a handle that is not read-only. The two methods that go on
with a write check nothing; they are reached only on a connection with a write in
progress, and there is none. So the whole is an invariant of every run: the backend stays
sealed, no connection has a write in progress, and the volume is as it was at the start.
-/

namespace Udpfsd

open Udprdma (Byte)
open Udpfs Fs

variable {κ η φ ρ : Type}

/-- The modes for writing are seen as such whatever they are combined with. -/
theorem wantWrite_or {mode : OpenFlag} (hmode : mode = oWRONLY ∨ mode = oRDWR) (flag : OpenFlag) :
    Backend.wantWrite (mode ||| flag) = true := by
  apply decide_eq_true
  intro hzero
  rcases hmode with rfl | rfl
  · have hbit := congrArg (fun x => x.getLsbD 0) hzero
    simp [oWRONLY, oRDWR] at hbit
  · have hbit := congrArg (fun x => x.getLsbD 1) hzero
    simp [oWRONLY, oRDWR] at hbit

/-- Flags from a request that do not ask for writing ask for nothing but reading. -/
theorem udpfsFlagsToOSFlags_eq_oRDONLY {flags : BitVec 16}
    (h : Backend.wantWrite (udpfsFlagsToOSFlags flags) = false) :
    udpfsFlagsToOSFlags flags = oRDONLY := by
  unfold udpfsFlagsToOSFlags at h ⊢
  split_ifs at h ⊢
  · rfl
  · rw [wantWrite_or (Or.inl rfl)] at h
    cases h
  · rw [wantWrite_or (Or.inr rfl)] at h
    cases h
  · rfl

section Handlers

variable {P : Platform η φ ρ} {V : Volume P} {c : Connection} {s : Backend η φ ρ}
  {payload : List Byte} {out : Outcome (Backend η φ ρ)}

/-- A request has spared the volume, and its connection has no write in progress. -/
structure Harmless (V : Volume P) (s : Backend η φ ρ) (out : Outcome (Backend η φ ρ)) : Prop where
  /-- The volume. -/
  spares : V.Spares s out.fs
  /-- The connection. -/
  idle : out.conn.activeWriteHandle = -1

variable {t : Backend η φ ρ}

/-- A sealed backend starts no write. -/
theorem starts_refused {handle : ℤ} {err : Option Error} (hs : s.Sealed)
    (hcall : Connection.Starts (Backend.fs P) handle s err t) : err ≠ none ∧ V.Spares s t := by
  rcases hcall with hcall | ⟨_, _, hcall⟩
  · exact Volume.start_refused (fun wr => { wr with
      blockWrite := false, dataBuffer := [], totalChunks := 0, receivedChunks := 0 }) hs hcall
  · exact Volume.start_refused (fun _ => ⟨[], _, _, 0, 0, true⟩) hs hcall

/-- No request to a sealed backend does harm. -/
theorem harmless_handlePayload (hs : s.Sealed) (hidle : c.activeWriteHandle = -1)
    (hok : c.handlePayload (Backend.fs P) s payload = .ok out) : Harmless V s out := by
  cases Connection.responds hok with
  | refused => exact ⟨.refl s, hidle⟩
  | reused => exact ⟨.refl s, hidle⟩
  | openFailed _ hcall | opened _ hcall =>
    exact ⟨.openFile hs udpfsFlagsToOSFlags_eq_oRDONLY hcall, hidle⟩
  | closeFailed _ hcall => exact ⟨.close hcall, hidle⟩
  | closed _ _ _ hcall =>
    refine ⟨.close hcall, ?_⟩
    unfold Connection.removeHandle
    simp only
    split
    · rfl
    · exact hidle
  | read _ _ hcall => exact ⟨.read hcall, hidle⟩
  | bread _ _ hcall => exact ⟨.bread hcall, hidle⟩
  | lseek _ hcall => exact ⟨.lseek hcall, hidle⟩
  | dread _ hcall => exact ⟨.dread hcall, hidle⟩
  | getstat _ hcall => exact ⟨.getstat hcall, hidle⟩
  | mkdir _ hcall => exact ⟨.mkdir hs hcall, hidle⟩
  | remove _ hcall | rmdir _ hcall => exact ⟨.changeDir hs hcall, hidle⟩
  | startFailed _ hcall => exact ⟨(starts_refused hs hcall).2, rfl⟩
  | started _ hcall | startedChunk _ hcall =>
    exact absurd rfl (starts_refused (V := V) hs hcall).1
  -- without a write in progress, data for one is only acknowledged
  | chunk _ hactive => exact absurd hidle hactive

theorem spares_rewindAll {handles : List ℤ}
    (hok : Connection.rewindAll (Backend.fs P) handles s = .ok t) : V.Spares s t := by
  induction handles generalizing s with
  | nil =>
    cases hok
    exact .refl _
  | cons h rest ih =>
    obtain ⟨⟨r, u⟩, hseek, hok⟩ := Fallible.bind_eq_ok.mp hok
    have hfirst : V.Spares s u := .lseek hseek
    exact hfirst.trans (ih hok)

theorem spares_closeAll {handles : List ℤ}
    (hok : Connection.closeAll (Backend.fs P) handles s = .ok t) : V.Spares s t := by
  induction handles generalizing s with
  | nil =>
    cases hok
    exact .refl _
  | cons h rest ih =>
    obtain ⟨⟨r, u⟩, hclose, hok⟩ := Fallible.bind_eq_ok.mp hok
    have hfirst : V.Spares s u := .close hclose
    exact hfirst.trans (ih hok)

end Handlers

namespace Server

/-- The states that a server reaches by any events after `NewBackend` with these options on
this host. -/
def ReachableFrom [DecidableEq κ] (P : Platform η φ ρ) (o : Options) (host : η) :
    Server κ η φ ρ → Prop :=
  Transition.Reachable
    (fun y => ∃ now fs peerTimeout, Backend.newBackend P o host now = .ok (some fs) ∧
      y = .new fs peerTimeout)
    (fun y y' => ∃ event reply, y.step P event = .ok (reply, y'))

/-- The backend is sealed, no connection has a write in progress, and the volume is as it was
on this host. -/
structure Untouched {P : Platform η φ ρ} (V : Volume P) (host : η) (y : Server κ η φ ρ) : Prop where
  /-- The backend. -/
  fs : y.fs.Sealed
  /-- The connections. -/
  idle : ∀ addr p, y.cMap addr = some p → p.conn.activeWriteHandle = -1
  /-- The volume. -/
  entry : V.entry y.fs.world.host = V.entry host

variable {P : Platform η φ ρ} {V : Volume P} {host : η} {y y' : Server κ η φ ρ} {addr : κ}

theorem Untouched.seen (hy : Untouched V host y) (addr : κ) :
    (y.seen addr).conn.activeWriteHandle = -1 := by
  unfold Server.seen
  split
  · rfl
  · rename_i p hp
    exact hy.idle addr p hp

variable [DecidableEq κ]

section Steps

variable (hy : Untouched V host y)
include hy

theorem Untouched.update {conn : Connection} {fs : Backend η φ ρ}
    (hidle : conn.activeWriteHandle = -1) (hspares : V.Spares y.fs fs) :
    Untouched V host (y.update addr conn fs) := by
  refine ⟨hspares.stays hy.fs, ?_, hspares.entry.trans hy.entry⟩
  intro a p hp
  by_cases ha : a = addr
  · subst ha
    simp only [Server.update, Function.update_self, Option.some.injEq] at hp
    rw [← hp]
    exact hidle
  · simp only [Server.update, Function.update_of_ne ha] at hp
    exact hy.idle a p hp

theorem Untouched.request {payload : List Byte} {order : MapOrder} {reply : Option Reply}
    (hok : y.request P addr payload order = .ok (reply, y')) : Untouched V host y' := by
  unfold Server.request at hok
  split at hok
  · cases hok
    exact hy.update (hy.seen addr) (.refl _)
  obtain ⟨out, hhandle, hok⟩ := Fallible.bind_eq_ok.mp hok
  cases hok
  have hidle : (order.apply (y.seen addr).conn).activeWriteHandle = -1 := hy.seen addr
  have hharmless : Harmless V y.fs out := harmless_handlePayload hy.fs hidle hhandle
  exact hy.update hharmless.idle hharmless.spares

theorem Untouched.reset {order : MapOrder} (hok : y.reset P addr order = .ok y') :
    Untouched V host y' := by
  obtain ⟨⟨conn, fs⟩, hreset, hok⟩ := Fallible.bind_eq_ok.mp hok
  cases hok
  obtain ⟨fs', hrewind, hreset⟩ := Fallible.bind_eq_ok.mp hreset
  cases hreset
  exact hy.update (hy.seen addr) (spares_rewindAll hrewind)

theorem Untouched.cleanup {order : MapOrder} (hok : y.cleanup P addr order = .ok y') :
    Untouched V host y' := by
  unfold Server.cleanup at hok
  split at hok
  · cases hok
    exact hy
  split at hok
  · obtain ⟨⟨conn, fs⟩, hclose, hok⟩ := Fallible.bind_eq_ok.mp hok
    cases hok
    obtain ⟨fs', hcloseAll, hclose⟩ := Fallible.bind_eq_ok.mp hclose
    cases hclose
    have hspares : V.Spares y.fs fs := spares_closeAll hcloseAll
    refine ⟨hspares.stays hy.fs, ?_, hspares.entry.trans hy.entry⟩
    intro a p hp
    by_cases ha : a = addr
    · subst ha
      simp at hp
    · simp only [Function.update_of_ne ha] at hp
      exact hy.idle a p hp
  · cases hok
    exact hy

theorem Untouched.step {event : Event κ} {reply : Option Reply}
    (hok : y.step P event = .ok (reply, y')) : Untouched V host y' := by
  cases event with
  | request addr payload order => exact hy.request hok
  | reset addr order =>
    obtain ⟨t, hreset, hok⟩ := Fallible.bind_eq_ok.mp hok
    cases hok
    exact hy.reset hreset
  | cleanup addr order =>
    obtain ⟨t, hcleanup, hok⟩ := Fallible.bind_eq_ok.mp hok
    cases hok
    exact hy.cleanup hcleanup
  | wait d =>
    cases hok
    exact ⟨⟨hy.fs.readOnly, hy.fs.file, hy.fs.device⟩, hy.idle, hy.entry⟩

end Steps

/-- In every run of a server made for reading only, with any messages of any clients, every
path has what it had before the start: no file or directory has come or gone, and no file
and no device has other bytes. -/
theorem read_only_changes_nothing (V : Volume P) {o : Options} (ho : o.readOnly = true)
    (h : ReachableFrom P o host y) : V.entry y.fs.world.host = V.entry host := by
  have hy : Untouched V host y := by
    refine Transition.Reachable.invariant (P := Untouched V host) ?_ ?_ h
    · rintro y ⟨now, fs, peerTimeout, hnew, rfl⟩
      obtain ⟨hsealed, hentry⟩ := Volume.sealed_newBackend V ho hnew
      refine ⟨hsealed, ?_, hentry⟩
      intro addr p hp
      cases hp
    · rintro y y' - hy ⟨event, reply, hok⟩
      exact hy.step hok
  exact hy.entry

end Server

/-- A host with a directory `/r`, a file `/r/a` in it and a device `/d`. -/
def archiveHost : Host :=
  ⟨[(Path.ascii ['/', 'r'], .dir), (Path.ascii ['/', 'r', '/', 'a'], .file 0),
    (Path.ascii ['/', 'd'], .file 1)], fun i => if i = 0 then [7] else [0, 0, 0, 0], 2⟩

/-- Both are served for reading only. -/
def serveArchive : Options :=
  ⟨Path.ascii ['/', 'r'], Path.ascii ['/', 'd'], 4, true, false, 0⟩

/-- A client opens the file to truncate it. -/
def openToTruncate : Event Bool :=
  .request true ([0x10, 0, 0x03, 0x04, 0, 0, 0, 0] ++ Path.ascii ['a'] ++ [0]) .stored

/-- Another client writes a sector of the device. -/
def writeSector : Event Bool :=
  .request false ([0x2A, 0, 1, 0, 0, 0, 0, 0, 0, 0, 0, 0, 0, 0, 0, 0] ++
    [0, 0, 0, 0, 4, 0, 1, 0, 1, 1, 1, 1]) .stored

namespace Server

/-- Two clients try to write, and are refused. -/
theorem read_only_changes_nothing_for_two_clients :
    ∃ y y' y'' : Server Bool Host OsFile (Decoder OsFile),
      ReachableFrom Backend.hostPlatform serveArchive archiveHost y ∧
      y.step Backend.hostPlatform openToTruncate = .ok (some (.openReply (-eacces) .empty), y') ∧
      y'.step Backend.hostPlatform writeSector = .ok (some (.writeDone (-eacces)), y'') ∧
      Host.tree.entry y''.fs.world.host = Host.tree.entry archiveHost := by
  have hrun : ∃ (fs : Backend Host OsFile (Decoder OsFile))
      (y' y'' : Server Bool Host OsFile (Decoder OsFile)),
      Backend.newBackend Backend.hostPlatform serveArchive archiveHost 0 = .ok (some fs) ∧
      (Server.new fs 0).step Backend.hostPlatform openToTruncate =
        .ok (some (.openReply (-eacces) .empty), y') ∧
      y'.step Backend.hostPlatform writeSector = .ok (some (.writeDone (-eacces)), y'') :=
    ⟨_, _, _, rfl, rfl, rfl⟩
  obtain ⟨fs, y', y'', hnew, hopen, hwrite⟩ := hrun
  have hstart : ReachableFrom Backend.hostPlatform serveArchive archiveHost
      (.new fs 0 : Server Bool Host OsFile (Decoder OsFile)) := .start ⟨0, fs, 0, hnew, rfl⟩
  refine ⟨_, y', y'', hstart, hopen, hwrite, ?_⟩
  exact read_only_changes_nothing (Decoder.volume Host.tree _ _ _) rfl
    (.next (.next hstart ⟨_, _, hopen⟩) ⟨_, _, hwrite⟩)

end Server

end Udpfsd
