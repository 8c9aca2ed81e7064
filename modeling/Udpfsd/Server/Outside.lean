import Udpfsd.Fs.Compartments
import Udpfsd.Fs.Decoders
import Udpfsd.Fs.Mirrored
import Udpfsd.Server.Daemon

/-!
# What is outside does not matter

The daemon is run twice, on hosts that have the same files below the root and the same block
device, and may have anything else outside. No symbolic link below the root leads out of it; what
one that does leads to is not protected. Whatever datagrams arrive, the two runs are the same: the
same datagrams are written, the same handles are open, and if one panics, so does the other. So no
request, however its path is made up, tells a client anything of what is outside; and nothing
outside is changed.
-/

namespace Udpfsd

open Udprdma Udpfs Fs
open Lockstep (Same)

variable {κ η φ ρ : Type}

/-! ### A datagram is received -/

namespace Endpoint

variable {σ τ : Type}

/-- Connections that differ in their filesystems only. -/
structure Mirrors (Q : σ → τ → Prop) (e : Endpoint σ) (e' : Endpoint τ) : Prop where
  /-- The session. -/
  sess : e'.sess = e.sess
  /-- The connection. -/
  conn : e'.conn = e.conn
  /-- The filesystem. -/
  fs : Q e.fs e'.fs
  /-- The slice of the data buffer. -/
  shared : e'.shared = e.shared
  /-- What is being done. -/
  phase : e'.phase = e.phase

end Endpoint

namespace Link

variable {P : Platform η φ ρ} {Q : Backend η φ ρ → Backend η φ ρ → Prop} {s t : Backend η φ ρ}

/-- A datagram is received. -/
theorem mirrors_receive (hF : (Backend.fs P).Mirrors (Backend.fs P) Q) (hst : Q s t) (l : Link)
    (data : List Byte) (order : MapOrder) :
    Lockstep (Endpoint.Mirrors Q) (l.receive P s data order) (l.receive P t data order) := by
  unfold receive
  cases liftPanic (l.sess.processDataPacket data) with
  | error e => exact .fault e
  | ok received =>
    obtain ⟨sess, r⟩ := received
    have hreset : Lockstep (Same Q) (l.onReset P s order sess) (l.onReset P t order sess) :=
      .ite (fun _ => .done ⟨rfl, hst⟩) (fun _ => hF.resetPeer hst)
    refine hreset.bind_same ?_
    intro conn s' t' hst'
    rcases r with err | payload
    · exact .done ⟨rfl, rfl, hst', rfl, rfl⟩
    · cases payload with
      | none => exact .done ⟨rfl, rfl, hst', rfl, rfl⟩
      | some payload => exact .done ⟨rfl, rfl, hst', rfl, rfl⟩

end Link

/-! ### The daemon -/

namespace Daemon

variable [DecidableEq κ] {P : Platform η φ ρ} {Q : Backend η φ ρ → Backend η φ ρ → Prop}

/-- Daemons that differ in their filesystems only. -/
structure Mirrors (Q : Backend η φ ρ → Backend η φ ρ → Prop) (d d' : Daemon κ η φ ρ) : Prop where
  /-- The filesystem. -/
  fs : Q d.fs d'.fs
  /-- The peers. -/
  links : d'.links = d.links
  /-- The peer timeout. -/
  peerTimeout : d'.peerTimeout = d.peerTimeout
  /-- The address whose datagram is being handled, and how far. -/
  busy : d'.busy = d.busy
  /-- The peers that have been removed. -/
  removed : d'.removed = d.removed

variable {d d' : Daemon κ η φ ρ}

omit [DecidableEq κ] in
/-- The same datagram is being handled. -/
theorem Mirrors.current (h : Mirrors Q d d') : d'.current = d.current := by
  unfold Daemon.current
  rw [h.busy, h.links]

/-- A peer changes in both. -/
theorem Mirrors.setLink (h : Mirrors Q d d') (addr : κ) (l : Link) :
    Mirrors Q (d.setLink addr l) (d'.setLink addr l) :=
  ⟨h.fs, by simp only [Daemon.setLink, h.links], h.peerTimeout, h.busy, h.removed⟩

/-- A peer is let go in both. -/
theorem Mirrors.retire (h : Mirrors Q d d') (addr : κ) (l : Link) :
    Mirrors Q (d.retire addr l) (d'.retire addr l) :=
  ⟨h.fs, by simp only [Daemon.retire, h.links], h.peerTimeout, h.busy,
    by simp only [Daemon.retire, h.removed]⟩

omit [DecidableEq κ] in
/-- `handleData` goes on alike. -/
theorem Mirrors.turn (h : Mirrors Q d d') (busy : Option (κ × Stage)) :
    Mirrors Q { d with busy := busy } { d' with busy := busy } :=
  ⟨h.fs, h.links, h.peerTimeout, rfl, h.removed⟩

omit [DecidableEq κ] in
/-- The filesystems change alike. -/
theorem Mirrors.withFs {s t : Backend η φ ρ} (h : Mirrors Q d d') (hst : Q s t) :
    Mirrors Q { d with fs := s } { d' with fs := t } :=
  ⟨hst, h.links, h.peerTimeout, h.busy, h.removed⟩

/-- A step of the goroutine that handles data ends alike. -/
theorem Mirrors.settle (h : Mirrors Q d d') (addr : κ) (l : Link) (stage : Stage) :
    Mirrors Q (d.settle addr l stage) (d'.settle addr l stage) := by
  unfold Daemon.settle
  split_ifs
  · exact (h.retire addr l).turn none
  · exact (h.setLink addr l).turn none
  · exact (h.setLink addr l).turn _

/-- A peer is removed from both. -/
theorem Mirrors.remove (h : Mirrors Q d d') (addr : κ) (l : Link) :
    Mirrors Q (d.remove addr l) (d'.remove addr l) := by
  unfold Daemon.remove
  rw [h.busy]
  split_ifs
  · exact h.setLink addr l
  · exact h.retire addr l

omit [DecidableEq κ] in
theorem Mirrors.onRemoved (h : Mirrors Q d d') (j : ℕ) (f : Session → Session) :
    Mirrors Q (d.onRemoved j f) (d'.onRemoved j f) := by
  refine ⟨h.fs, h.links, h.peerTimeout, h.busy, ?_⟩
  simp only [Daemon.onRemoved, h.removed]

/-- A datagram arrives. -/
theorem Mirrors.datagram (hnow : d'.fs.world.now = d.fs.world.now) (h : Mirrors Q d d') (addr : κ)
    (data : List Byte) : Lockstep (Mirrors Q) (d.step P (.datagram addr data))
      (d'.step P (.datagram addr data)) := by
  have hseen : d'.seen addr = d.seen addr := by
    unfold Daemon.seen
    rw [h.links, hnow]
  simp only [Daemon.step, h.busy, hseen]
  exact .ite (fun _ => .done h) (fun _ => .done ((h.setLink addr _).turn _))

omit [DecidableEq κ] in
theorem Mirrors.fetch (h : Mirrors Q d d') : Lockstep (Mirrors Q) d.fetch d'.fetch := by
  unfold Daemon.fetch
  rw [h.current]
  split
  · exact .ite (fun _ => .fault _) (fun _ => .done (h.turn _))
  · exact .done h

/-- It is processed. -/
theorem Mirrors.process (hF : (Backend.fs P).Mirrors (Backend.fs P) Q) (h : Mirrors Q d d')
    (order : MapOrder) : Lockstep (Mirrors Q) (d.process P order) (d'.process P order) := by
  unfold Daemon.process
  rw [h.current]
  split
  · rename_i addr data l hcurrent
    refine (Link.mirrors_receive hF h.fs l data order).bind ?_
    rintro ⟨sess, conn, s, shared, phase⟩ ⟨sess', conn', t, shared', phase'⟩ ⟨hs, hc, hst, hh, hp⟩
    cases hs
    cases hc
    cases hh
    cases hp
    exact .done ((h.withFs hst).settle addr _ _)
  · exact .done h

omit [DecidableEq κ] in
theorem Mirrors.call (h : Mirrors Q d d') : Lockstep (Mirrors Q) d.call d'.call := by
  unfold Daemon.call
  rw [h.current]
  split
  · exact .ite (fun _ => .fault _) (fun _ => .done (h.turn _))
  · exact .done h

/-- A payload is handled. -/
theorem Mirrors.handle (hF : (Backend.fs P).Mirrors (Backend.fs P) Q) (h : Mirrors Q d d')
    (order : MapOrder) : Lockstep (Mirrors Q) (d.handle P order) (d'.handle P order) := by
  unfold Daemon.handle
  rw [h.current]
  split
  · rename_i addr l hcurrent
    split
    · rename_i payload hphase
      refine (hF.handlePayload h.fs).bind ?_
      rintro ⟨c, s, reply, status⟩ ⟨c', t, reply', status'⟩ ⟨hc, hst, hreply, -⟩
      cases hc
      cases hreply
      exact .done ((h.withFs hst).settle addr _ _)
    · exact .done h
  · exact .done h

/-- A reply is sent. -/
theorem Mirrors.send (h : Mirrors Q d d') : Lockstep (Mirrors Q) d.send d'.send := by
  unfold Daemon.send
  rw [h.current]
  split
  · rename_i addr l hcurrent
    split
    · rename_i reply hphase
      cases liftPanic (reply.send l.conn.dataBuffer l.sess) with
      | error e => exact .fault e
      | ok sess => exact .done (h.settle addr _ _)
    · exact .done h
  · exact .done h

theorem Mirrors.tick (h : Mirrors Q d d') (addr : κ) (e : Tick) :
    Lockstep (Mirrors Q) (d.step P (.tick addr e)) (d'.step P (.tick addr e)) := by
  simp only [Daemon.step, h.links]
  split
  · exact .done h
  · exact .done (h.setLink addr _)

section Runs

variable (hF : (Backend.fs P).Mirrors (Backend.fs P) Q)
include hF

/-- A peer is removed. -/
theorem Mirrors.cleanup (hnow : d'.fs.world.now = d.fs.world.now) (h : Mirrors Q d d') (addr : κ)
    (order : MapOrder) :
    Lockstep (Mirrors Q) (d.cleanup P addr order) (d'.cleanup P addr order) := by
  have hcMap : d'.cMap addr = d.cMap addr := by
    unfold Daemon.cMap
    rw [h.links]
  unfold Daemon.cleanup
  rw [hcMap, h.peerTimeout, hnow]
  split
  · exact .done h
  · rename_i l hl
    refine .ite (fun _ => ?_) (fun _ => .done h)
    refine (hF.close_connection h.fs).bind_same ?_
    intro conn s t hst
    have hremove := (h.withFs hst).remove addr (l.closed conn)
    rw [h.peerTimeout] at hremove
    exact .done hremove

/-- The daemons take each step together, when related filesystems have the same time. -/
theorem Mirrors.step (hnow : ∀ s t, Q s t → t.world.now = s.world.now)
    (hwait : ∀ s t, Q s t → ∀ k, Q (s.wait k) (t.wait k)) (h : Mirrors Q d d') (event : Event κ) :
    Lockstep (Mirrors Q) (d.step P event) (d'.step P event) := by
  cases event with
  | datagram addr data => exact h.datagram (hnow _ _ h.fs) addr data
  | fetch => exact h.fetch
  | process order => exact h.process hF order
  | call => exact h.call
  | handle order => exact h.handle hF order
  | send => exact h.send
  | tick addr e => exact h.tick addr e
  | tickRemoved j e => exact .done (h.onRemoved j _)
  | cleanup addr order => exact h.cleanup hF (hnow _ _ h.fs) addr order
  | wait k => exact .done (h.withFs (hwait _ _ h.fs k))

/-- Whole runs. -/
theorem Mirrors.run (hnow : ∀ s t, Q s t → t.world.now = s.world.now)
    (hwait : ∀ s t, Q s t → ∀ k, Q (s.wait k) (t.wait k)) (h : Mirrors Q d d')
    (events : List (Event κ)) :
    Lockstep (Mirrors Q) (events.foldlM (Daemon.step P) d) (events.foldlM (Daemon.step P) d') := by
  induction events generalizing d d' with
  | nil => exact .done h
  | cons event rest ih =>
    rw [List.foldlM_cons, List.foldlM_cons]
    exact (h.step hF hnow hwait event).bind fun _ _ h' => ih h'

end Runs

/-! ### The two runs -/

variable (P) in
/-- The daemon after `NewBackend` on a host and some events, unless the backend cannot be made. -/
def serve (o : Options) (host : η) (now peerTimeout : ℕ) (events : List (Event κ)) :
    Except Fault (Option (Daemon κ η φ ρ)) := do
  match ← Backend.newBackend P o host now with
  | none => return none
  | some fs => return some (← events.foldlM (step P) (new fs peerTimeout))

end Daemon

/-- All of a backend but its host. -/
def Fs.Backend.withoutHost (s : Backend η φ ρ) : Backend Unit φ ρ where
  lastUsed := s.lastUsed
  handles := s.handles
  bdHandle := s.bdHandle
  fsRoot := s.fsRoot
  sectorSize := s.sectorSize
  compressionCacheSize := s.compressionCacheSize
  readOnly := s.readOnly
  enableCompression := s.enableCompression
  world := ⟨(), s.world.now, s.world.objects, s.world.accesses⟩

/-- All of a daemon but its host: its peers with all that their sessions have written, and the
handles. -/
def Daemon.withoutHost (d : Daemon κ η φ ρ) : Daemon κ Unit φ ρ :=
  ⟨d.fs.withoutHost, d.links, d.peerTimeout, d.busy, d.removed⟩

namespace Daemon

variable {os : OS η φ} {inside : Path → Prop}

/-- Outside the host nothing differs. -/
theorem withoutHost_eq {P : Platform η φ ρ} {E : Enclosure P inside} {root : Path}
    {h₀ : η} {d d' : Daemon κ η φ ρ}
    (h : Mirrors (Mirrored E root h₀) d d') : d'.withoutHost = d.withoutHost := by
  have hfs : d'.fs.withoutHost = d.fs.withoutHost := by
    rw [h.fs.eq]
    simp only [Backend.withoutHost]
    rw [h.fs.world.1]
  simp only [withoutHost, hfs, h.links, h.peerTimeout, h.busy, h.removed]

/-- On hosts that have the same inside, with no link that leads out of it, the daemon does the
same, whatever datagrams arrive: the two runs panic alike, fail to start alike, or end in states
that differ in the host only. What is outside is as it was. -/
theorem outside_is_invisible [DecidableEq κ] (E : Enclosed os inside)
    (flate zlib : List Byte → Option (List Byte)) (lz4 : UncompressBlock) {o : Options}
    {root : Path} (hin : Encloses inside root)
    (hdevice : o.blockDevice ≠ [] → inside o.blockDevice) {h k : η} (hagree : E.Agree h k)
    (hroot : Backend.rootOf (Decoder.platform os flate zlib lz4) o.fsRoot h = some root)
    (now peerTimeout : ℕ) (events : List (Event κ)) :
    (serve (Decoder.platform os flate zlib lz4) o k now peerTimeout events).map
        (Option.map withoutHost) =
      (serve (Decoder.platform os flate zlib lz4) o h now peerTimeout events).map
        (Option.map withoutHost) ∧
    ∀ d, serve (Decoder.platform os flate zlib lz4) o h now peerTimeout events = .ok (some d) →
      E.Kept h d.fs.world.host := by
  obtain ⟨E', hE⟩ : ∃ E', E' = Decoder.enclosure E flate zlib lz4 := ⟨_, rfl⟩
  have hagree' : E'.Agree h k := hE ▸ hagree
  have hserve : Lockstep (Option.Rel (Mirrors (κ := κ) (Mirrored E' root h)))
      (serve (Decoder.platform os flate zlib lz4) o h now peerTimeout events)
      (serve (Decoder.platform os flate zlib lz4) o k now peerTimeout events) := by
    refine (Mirrored.newBackend E' hin hdevice hagree' hroot now).bind ?_
    intro s t hst
    cases hst with
    | none => exact .done .none
    | some hst =>
      have hnew : Mirrors (κ := κ) (Mirrored E' root h) (new _ peerTimeout) (new _ peerTimeout) :=
        ⟨hst, rfl, rfl, rfl, rfl⟩
      exact (hnew.run (Mirrored.mirrors E' hin h) (fun _ _ hst => hst.now_eq)
        (fun _ _ hst k => hst.wait k) events).bind fun _ _ h' => .done (.some h')
  generalize serve (κ := κ) (Decoder.platform os flate zlib lz4) o h now peerTimeout events = x
    at hserve ⊢
  generalize serve (κ := κ) (Decoder.platform os flate zlib lz4) o k now peerTimeout events = y
    at hserve ⊢
  cases hserve with
  | fault e => exact ⟨rfl, fun d hd => by cases hd⟩
  | done hst =>
    cases hst with
    | none => exact ⟨rfl, fun d hd => by cases hd⟩
    | some hst =>
      refine ⟨congrArg (fun d => Except.ok (some d)) (withoutHost_eq hst), ?_⟩
      intro d hd
      cases hd
      have hkept := hst.fs.world.2.2
      rw [hE] at hkept
      exact hkept

/-- A root `/r` with one file, and a secret `/s` beside it. -/
def secretHost (secret : List Byte) : Host × Host :=
  (⟨[(Path.ascii ['/', 'r'], .dir), (Path.ascii ['/', 'r', '/', 'a'], .file 0)],
      fun _ => [1, 2], 1⟩,
    ⟨[(Path.ascii ['/'], .dir), (Path.ascii ['/', 's'], .file 0)], fun _ => secret, 1⟩)

/-- What is inside the root `/r`. -/
def secretInside : Path → Bool := Backend.underRoot (Path.ascii ['/', 'r'])

/-- The platform of the two compartments, without decompressors. -/
abbrev secretPlatform : Platform (Host × Host) (Bool × OsFile) (Decoder (Bool × OsFile)) :=
  Decoder.platform (Compartments.os secretInside) (fun _ => none) (fun _ => none)
    (fun _ _ => none)

/-- A client opens `../s` and then `a`. -/
def climb : List (Event Bool) :=
  request true (dataPacket 0 0xFFF true []
      ([0x10, 0, 0x01, 0, 0, 0, 0, 0] ++ Path.ascii ['.', '.', '/', 's'] ++ [0, 0, 0])) ++
    request true (dataPacket 1 0 true []
      ([0x10, 0, 0x01, 0, 0, 0, 0, 0] ++ Path.ascii ['a'] ++ [0, 0, 0]))

/-- The options that serve the root `/r`. -/
def secretOptions : Options := ⟨Path.ascii ['/', 'r'], [], 512, false, true, 0⟩

/-- The results in the `OPEN` replies that a daemon has written to a client. -/
def openResults (addr : κ) (d : Daemon κ η φ ρ) : Option (List (List Byte)) :=
  (d.links addr).map (fun l => (datagrams l.sess.trace).map (fun b => (b.drop 10).take 4))

/-- Both runs answer the first request with an error and the second one with a handle. -/
theorem outside_is_invisible_of_secret :
    (serve secretPlatform secretOptions (secretHost [7]) 0 5 climb).map (Option.map withoutHost) =
      (serve secretPlatform secretOptions (secretHost []) 0 5 climb).map
        (Option.map withoutHost) ∧
    (serve secretPlatform secretOptions (secretHost []) 0 5 climb).toOption.map
        (Option.map (openResults true)) =
      some (some (some [[], [0xFE, 0xFF, 0xFF, 0xFF], [], [1, 0, 0, 0]])) := by
  have hin : Encloses (fun path => secretInside path = true) (Path.ascii ['/', 'r']) :=
    ⟨by decide, fun _ h => h, by decide⟩
  have hagree : (Compartments.enclosed secretInside).Agree (secretHost []) (secretHost [7]) := rfl
  have hroot : Backend.rootOf secretPlatform secretOptions.fsRoot (secretHost []) =
      some (Path.ascii ['/', 'r']) := by decide +kernel
  refine ⟨?_, by decide +kernel⟩
  exact (outside_is_invisible (Compartments.enclosed secretInside) _ _ _ hin
    (fun hne => absurd rfl hne) hagree hroot 0 5 climb).1

end Daemon

end Udpfsd
