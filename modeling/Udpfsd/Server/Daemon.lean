import Mathlib.Data.List.Infix
import Udpfsd.Server.ReadOnly
import Udpfsd.Server.Replies
import Udpfsd.Udprdma.GiveUp

/-!
# The daemon

The whole server is put together here, from the datagrams of any addresses down to the
filesystem. One goroutine takes the datagrams in turn: it finds or makes the peer, lets its
session process the datagram, calls the handler of the payload if there is one and hands the
reply to the session. Beside it the acknowledgement timers of all sessions run, also those of
sessions that have been closed, and so do the clock and the cleanup loop. These run between any
two steps of the goroutine: a peer may be removed while its own datagram is being handled, if
that takes as long as the peer timeout. What the handler does with the filesystem is one step,
and so is the removal of a peer.

Each peer is served as if it were alone with a filesystem that changes by itself.
-/

namespace Udpfsd

open Udprdma Udpfs Fs

variable {κ η φ ρ : Type}

/-- A peer as the goroutine that handles data holds it, with the session of its connection. -/
structure Link where
  /-- The session. -/
  sess : Session
  /-- The connection. -/
  conn : Connection
  /-- The length of the slice of the data buffer that the session's transfer is, if it is one. -/
  shared : Option ℕ
  /-- What is being done for the peer. -/
  phase : Phase
  /-- The time of its latest datagram. -/
  lastSeen : ℕ
  /-- Whether the cleanup loop has removed the peer: its `Connection` is nil. -/
  removed : Bool

/-- Whether nothing is being done. -/
def Phase.isIdle : Phase → Bool
  | .idle => true
  | _ => false

theorem Phase.isIdle_iff {phase : Phase} : phase.isIdle = true ↔ phase = .idle := by
  cases phase <;> simp [Phase.isIdle]

namespace Link

/-- A new peer. -/
def new (now : ℕ) : Link := ⟨newSession.setResetCallback, newConnection, none, .idle, now, false⟩

/-- The peer without its session. -/
def peer (l : Link) : Peer := ⟨l.conn, l.lastSeen⟩

/-- The peer with the filesystem. -/
def endpoint (l : Link) (fs : Backend η φ ρ) : Endpoint (Backend η φ ρ) :=
  ⟨l.sess, l.conn, fs, l.shared, l.phase⟩

/-- The peer after its connection has come to a new state. -/
def became (l : Link) (e : Endpoint (Backend η φ ρ)) : Link :=
  ⟨e.sess, e.conn, e.shared, e.phase, l.lastSeen, l.removed⟩

/-- The peer whose next loop over the handle cache runs in this order. -/
def reorder (l : Link) (order : MapOrder) : Link := { l with conn := order.apply l.conn }

/-- The reset callback, which is called within `ProcessDataPacket`. -/
def onReset (P : Platform η φ ρ) (l : Link) (fs : Backend η φ ρ) (order : MapOrder)
    (sess : Session) : Except Fault (Connection × Backend η φ ρ) :=
  if sess.metrics.peerResets = l.sess.metrics.peerResets then .ok (l.conn, fs)
  else (order.apply l.conn).resetPeer (Backend.fs P) fs

/-- `ProcessDataPacket`, and whether `handleData` goes on with a payload. -/
def receive (P : Platform η φ ρ) (l : Link) (fs : Backend η φ ρ) (data : List Byte)
    (order : MapOrder) : Except Fault (Endpoint (Backend η φ ρ)) := do
  let (sess, r) ← liftPanic (l.sess.processDataPacket data)
  let (conn, fs) ← l.onReset P fs order sess
  match r with
  | .ok (some payload) => return ⟨sess, conn, fs, l.shared, .received payload⟩
  | _ => return ⟨sess, conn, fs, l.shared, .idle⟩

/-- The peer whose handler is about to send its reply. The pending transfer shows what the
handler has written to the data buffer. -/
def handled (l : Link) (out : Outcome (Backend η φ ρ)) : Link :=
  { l with
    sess := refill l.sess l.shared out.conn.dataBuffer
    conn := out.conn
    phase := .handled out.reply }

/-- The peer whose reply has been handed to the session. -/
def sent (l : Link) (reply : Reply) (sess : Session) : Link :=
  { l with sess := sess, shared := reply.sharing l.shared, phase := .idle }

/-- The peer after the cleanup loop has closed its connection. -/
def closed (l : Link) (conn : Connection) : Link :=
  { l with sess := l.sess.close, conn := conn, removed := true }

end Link

/-- How far `handleData` has come with a datagram. -/
inductive Stage
  /-- The peer has been found or made. -/
  | found (data : List Byte)
  /-- Its session has been taken from its connection. -/
  | fetched (data : List Byte)
  /-- `ProcessDataPacket` has returned a payload. -/
  | returned
  /-- `HandlePayload` has been called. -/
  | called

/-- The server with the sessions of its peers. -/
structure Daemon (κ η φ ρ : Type) where
  /-- The filesystem. -/
  fs : Backend η φ ρ
  /-- The peers by address: the known ones, and the one whose datagram is being handled if it has
  been removed meanwhile. -/
  links : κ → Option Link
  /-- The peer timeout in nanoseconds. -/
  peerTimeout : ℕ
  /-- The address whose datagram is being handled, and how far. -/
  busy : Option (κ × Stage)
  /-- The peers that have been removed, by address, with their closed sessions. -/
  removed : List (κ × Session)

/-- What can happen next to the daemon. -/
inductive Daemon.Event (κ : Type)
  /-- A datagram of an address arrives, and its peer is found or made. -/
  | datagram (addr : κ) (data : List Byte)
  /-- `GetUDPRDMASession` returns the session of the peer. -/
  | fetch
  /-- `ProcessDataPacket` processes the datagram. -/
  | process (order : MapOrder)
  /-- `HandlePayload` is called. -/
  | call
  /-- The payload is handled, up to the reply. -/
  | handle (order : MapOrder)
  /-- The reply is handed to the session. -/
  | send
  /-- The timer of a peer expires, or a callback of it gets the session's lock. -/
  | tick (addr : κ) (e : Tick)
  /-- The same for a removed peer. -/
  | tickRemoved (j : ℕ) (e : Tick)
  /-- The cleanup loop looks at an address. -/
  | cleanup (addr : κ) (order : MapOrder)
  /-- Nanoseconds pass. -/
  | wait (d : ℕ)

namespace Daemon

/-- `New`, with a backend. -/
def new (fs : Backend η φ ρ) (peerTimeout : ℕ) : Daemon κ η φ ρ :=
  ⟨fs, fun _ => none, peerTimeout, none, []⟩

/-- The known peers, which have not been removed. -/
def cMap (d : Daemon κ η φ ρ) (addr : κ) : Option Link := (d.links addr).filter (!·.removed)

/-- The peer that `handleData` finds or makes for a datagram of an address. -/
def seen (d : Daemon κ η φ ρ) (addr : κ) : Link :=
  match d.links addr with
  | none => .new d.fs.world.now
  | some l => { l with lastSeen := d.fs.world.now }

/-- The datagram that is being handled: its address, how far `handleData` has come, and its
peer. -/
def current (d : Daemon κ η φ ρ) : Option (κ × Stage × Link) :=
  d.busy.bind (fun b => (d.links b.1).map (fun l => (b.1, b.2, l)))

theorem current_eq_some {d : Daemon κ η φ ρ} {addr : κ} {stage : Stage} {l : Link} :
    d.current = some (addr, stage, l) ↔ d.busy = some (addr, stage) ∧ d.links addr = some l := by
  unfold current
  constructor
  · intro h
    obtain ⟨⟨a, s⟩, hbusy, h⟩ := Option.bind_eq_some_iff.mp h
    obtain ⟨l', hl, h⟩ := Option.map_eq_some_iff.mp h
    cases h
    exact ⟨hbusy, hl⟩
  · rintro ⟨hbusy, hl⟩
    simp [hbusy, hl]

/-- The daemon after something has happened to the session of a removed peer. -/
def onRemoved (d : Daemon κ η φ ρ) (j : ℕ) (f : Session → Session) : Daemon κ η φ ρ :=
  { d with removed := d.removed.modify j (Prod.map id f) }

variable [DecidableEq κ]

/-- The daemon after a peer has changed. -/
def setLink (d : Daemon κ η φ ρ) (addr : κ) (l : Link) : Daemon κ η φ ρ :=
  { d with links := Function.update d.links addr (some l) }

/-- The daemon without a peer that has been removed. -/
def retire (d : Daemon κ η φ ρ) (addr : κ) (l : Link) : Daemon κ η φ ρ :=
  { d with
    links := Function.update d.links addr none
    removed := d.removed ++ [(addr, l.sess)] }

/-- The daemon after a peer has been removed from `cMap`. `handleData` keeps the one whose datagram
it is handling. -/
def remove (d : Daemon κ η φ ρ) (addr : κ) (l : Link) : Daemon κ η φ ρ :=
  if d.busy.map Prod.fst = some addr then d.setLink addr l else d.retire addr l

/-- The daemon after a step of the goroutine that handles data. It goes on at this stage, or waits
for the next datagram and lets go of the peer. -/
def settle (d : Daemon κ η φ ρ) (addr : κ) (l : Link) (stage : Stage) : Daemon κ η φ ρ :=
  if l.phase.isIdle then
    { (if l.removed then d.retire addr l else d.setLink addr l) with busy := none }
  else { d.setLink addr l with busy := some (addr, stage) }

variable (P : Platform η φ ρ)

/-- `handleData` calls `GetUDPRDMASession`, which needs a connection. -/
def fetch (d : Daemon κ η φ ρ) : Except Fault (Daemon κ η φ ρ) :=
  match d.current with
  | some (addr, .found data, l) =>
    if l.removed then .error .nilPointer else .ok { d with busy := some (addr, .fetched data) }
  | _ => .ok d

/-- `ProcessDataPacket`, also of a session that has been closed meanwhile. -/
def process (d : Daemon κ η φ ρ) (order : MapOrder) : Except Fault (Daemon κ η φ ρ) :=
  match d.current with
  | some (addr, .fetched data, l) => do
    let e ← l.receive P d.fs data order
    return { d with fs := e.fs }.settle addr (l.became e) .returned
  | _ => .ok d

/-- `handleData` calls `HandlePayload`. With no connection, every handler ends in a panic. -/
def call (d : Daemon κ η φ ρ) : Except Fault (Daemon κ η φ ρ) :=
  match d.current with
  | some (addr, .returned, l) =>
    if l.removed then .error .nilPointer else .ok { d with busy := some (addr, .called) }
  | _ => .ok d

/-- `HandlePayload` up to the reply. -/
def handle (d : Daemon κ η φ ρ) (order : MapOrder) : Except Fault (Daemon κ η φ ρ) :=
  match d.current with
  | some (addr, .called, l) =>
    match l.phase with
    | .received payload => do
      let out ← (order.apply l.conn).handlePayload (Backend.fs P) d.fs payload
      return { d with fs := out.fs }.settle addr (l.handled out) .called
    | _ => .ok d
  | _ => .ok d

/-- The handler sends its reply, also when the session has been closed. -/
def send (d : Daemon κ η φ ρ) : Except Fault (Daemon κ η φ ρ) :=
  match d.current with
  | some (addr, .called, l) =>
    match l.phase with
    | .handled reply => do
      let sess ← liftPanic (reply.send l.conn.dataBuffer l.sess)
      return d.settle addr (l.sent reply sess) .called
    | _ => .ok d
  | _ => .ok d

/-- The loop body of `cleanup`. -/
def cleanup (d : Daemon κ η φ ρ) (addr : κ) (order : MapOrder) :
    Except Fault (Daemon κ η φ ρ) :=
  match d.cMap addr with
  | none => .ok d
  | some l =>
    if d.peerTimeout ≤ d.fs.world.now - l.lastSeen then do
      let (conn, fs) ← (order.apply l.conn).close (Backend.fs P) d.fs
      return { d with fs := fs }.remove addr (l.closed conn)
    else .ok d

/-- The daemon after an event. Datagrams wait while one is handled; the clock does not. -/
def step (d : Daemon κ η φ ρ) : Event κ → Except Fault (Daemon κ η φ ρ)
  | .datagram addr data =>
    if d.busy.isSome ∨ data.length < headerSize + dataHeaderSize then .ok d
    else .ok { d.setLink addr (d.seen addr) with busy := some (addr, .found data) }
  | .fetch => d.fetch
  | .process order => d.process P order
  | .call => d.call
  | .handle order => d.handle P order
  | .send => d.send
  | .tick addr e =>
    match d.links addr with
    | none => .ok d
    | some l => .ok (d.setLink addr { l with sess := l.sess.tick e })
  | .tickRemoved j e => .ok (d.onRemoved j (fun s => s.tick e))
  | .cleanup addr order => d.cleanup P addr order
  | .wait k => .ok { d with fs := d.fs.wait k }

/-- The states that a daemon reaches after `NewBackend` with these options on this host. The
option for the peer timeout takes positive values only. -/
def Reachable (o : Options) (host : η) : Daemon κ η φ ρ → Prop :=
  Transition.Reachable
    (fun d => ∃ now fs peerTimeout, 0 < peerTimeout ∧
      Backend.newBackend P o host now = .ok (some fs) ∧ d = .new fs peerTimeout)
    (fun d d' => ∃ event, d.step P event = .ok d')

end Daemon

/-! ### What a step does -/

namespace Daemon

variable [DecidableEq κ] {P : Platform η φ ρ} {d d' : Daemon κ η φ ρ}

/-- What an event has done. -/
inductive Took (P : Platform η φ ρ) (d : Daemon κ η φ ρ) : Event κ → Daemon κ η φ ρ → Prop
  /-- It was not its turn, or there was nothing to do. -/
  | nothing (event : Event κ) : Took P d event d
  /-- A datagram has found its peer. -/
  | found {addr : κ} {data : List Byte} (hfree : d.busy = none)
      (hlong : headerSize + dataHeaderSize ≤ data.length) :
      Took P d (.datagram addr data)
        { d.setLink addr (d.seen addr) with busy := some (addr, .found data) }
  /-- The session of the peer has been taken. -/
  | fetched {addr : κ} {data : List Byte} {l : Link} (hbusy : d.busy = some (addr, .found data))
      (hl : d.links addr = some l) (hknown : l.removed = false) :
      Took P d .fetch { d with busy := some (addr, .fetched data) }
  /-- The datagram has been processed. -/
  | processed {addr : κ} {data : List Byte} {l : Link} {order : MapOrder}
      {e : Endpoint (Backend η φ ρ)} (hbusy : d.busy = some (addr, .fetched data))
      (hl : d.links addr = some l)
      (hreceive : l.receive P d.fs data order = .ok e) :
      Took P d (.process order) ({ d with fs := e.fs }.settle addr (l.became e) .returned)
  /-- The handler has been called. -/
  | called {addr : κ} {l : Link} (hbusy : d.busy = some (addr, .returned))
      (hl : d.links addr = some l) (hknown : l.removed = false) :
      Took P d .call { d with busy := some (addr, .called) }
  /-- The payload has been handled. -/
  | handled {addr : κ} {l : Link} {payload : List Byte} {order : MapOrder}
      {out : Outcome (Backend η φ ρ)} (hbusy : d.busy = some (addr, .called))
      (hl : d.links addr = some l) (hphase : l.phase = .received payload)
      (hhandle : (order.apply l.conn).handlePayload (Backend.fs P) d.fs payload = .ok out) :
      Took P d (.handle order) ({ d with fs := out.fs }.settle addr (l.handled out) .called)
  /-- The reply has been sent. -/
  | sent {addr : κ} {l : Link} {reply : Reply} {sess : Session}
      (hbusy : d.busy = some (addr, .called)) (hl : d.links addr = some l)
      (hphase : l.phase = .handled reply)
      (hsend : reply.send l.conn.dataBuffer l.sess = .ok sess) :
      Took P d .send (d.settle addr (l.sent reply sess) .called)
  /-- The timer of a peer has run. -/
  | ticked {addr : κ} {l : Link} (e : Tick) (hl : d.links addr = some l) :
      Took P d (.tick addr e) (d.setLink addr { l with sess := l.sess.tick e })
  /-- The timer of a removed peer has run. -/
  | tickedRemoved (j : ℕ) (e : Tick) :
      Took P d (.tickRemoved j e) (d.onRemoved j (fun s => s.tick e))
  /-- A silent peer has been removed while its datagram is being handled. -/
  | removedBusy {addr : κ} {stage : Stage} {l : Link} {order : MapOrder} {conn : Connection}
      {fs : Backend η φ ρ} (hbusy : d.busy = some (addr, stage)) (hl : d.links addr = some l)
      (hknown : l.removed = false) (hsilent : d.peerTimeout ≤ d.fs.world.now - l.lastSeen)
      (hclose : (order.apply l.conn).close (Backend.fs P) d.fs = .ok (conn, fs)) :
      Took P d (.cleanup addr order) ({ d with fs := fs }.setLink addr (l.closed conn))
  /-- Another silent peer has been removed. -/
  | removed {addr : κ} {l : Link} {order : MapOrder} {conn : Connection} {fs : Backend η φ ρ}
      (hfree : ∀ stage, d.busy ≠ some (addr, stage)) (hl : d.links addr = some l)
      (hknown : l.removed = false) (hsilent : d.peerTimeout ≤ d.fs.world.now - l.lastSeen)
      (hclose : (order.apply l.conn).close (Backend.fs P) d.fs = .ok (conn, fs)) :
      Took P d (.cleanup addr order) ({ d with fs := fs }.retire addr (l.closed conn))
  /-- Time has passed. -/
  | waited (k : ℕ) : Took P d (.wait k) { d with fs := d.fs.wait k }

/-- A datagram is fetched. -/
theorem took_fetch (hok : d.fetch = .ok d') : Took P d .fetch d' := by
  unfold fetch at hok
  split at hok
  · rename_i addr data l hcurrent
    obtain ⟨hbusy, hl⟩ := current_eq_some.mp hcurrent
    split_ifs at hok with hremoved
    cases hok
    exact .fetched hbusy hl (Bool.not_eq_true _ ▸ hremoved)
  · cases hok
    exact .nothing _

/-- A fetched datagram is processed. -/
theorem took_process {order : MapOrder} (hok : d.process P order = .ok d') :
    Took P d (.process order) d' := by
  unfold process at hok
  split at hok
  · rename_i addr data l hcurrent
    obtain ⟨hbusy, hl⟩ := current_eq_some.mp hcurrent
    obtain ⟨e, hreceive, hok⟩ := Fallible.bind_eq_ok.mp hok
    cases hok
    exact .processed hbusy hl hreceive
  · cases hok
    exact .nothing _

/-- A handler is called. -/
theorem took_call (hok : d.call = .ok d') : Took P d .call d' := by
  unfold call at hok
  split at hok
  · rename_i addr l hcurrent
    obtain ⟨hbusy, hl⟩ := current_eq_some.mp hcurrent
    split_ifs at hok with hremoved
    cases hok
    exact .called hbusy hl (Bool.not_eq_true _ ▸ hremoved)
  · cases hok
    exact .nothing _

/-- A handler returns. -/
theorem took_handle {order : MapOrder} (hok : d.handle P order = .ok d') :
    Took P d (.handle order) d' := by
  unfold handle at hok
  split at hok
  · rename_i addr l hcurrent
    obtain ⟨hbusy, hl⟩ := current_eq_some.mp hcurrent
    split at hok
    · rename_i payload hphase
      obtain ⟨out, hhandle, hok⟩ := Fallible.bind_eq_ok.mp hok
      cases hok
      exact .handled hbusy hl hphase hhandle
    · cases hok
      exact .nothing _
  · cases hok
    exact .nothing _

/-- A reply is sent. -/
theorem took_send (hok : d.send = .ok d') : Took P d .send d' := by
  unfold send at hok
  split at hok
  · rename_i addr l hcurrent
    obtain ⟨hbusy, hl⟩ := current_eq_some.mp hcurrent
    split at hok
    · rename_i reply hphase
      obtain ⟨sess, hsend, hok⟩ := Fallible.bind_eq_ok.mp hok
      cases hok
      exact .sent hbusy hl hphase (liftPanic_eq_ok.mp hsend)
    · cases hok
      exact .nothing _
  · cases hok
    exact .nothing _

omit [DecidableEq κ] in
theorem cMap_eq_some {addr : κ} {l : Link} :
    d.cMap addr = some l ↔ d.links addr = some l ∧ l.removed = false := by
  simp [cMap, Option.filter_eq_some_iff]

/-- A quiet peer is removed. -/
theorem took_cleanup {addr : κ} {order : MapOrder} (hok : d.cleanup P addr order = .ok d') :
    Took P d (.cleanup addr order) d' := by
  unfold cleanup at hok
  split at hok
  · cases hok
    exact .nothing _
  rename_i l hl
  obtain ⟨hl, hknown⟩ := cMap_eq_some.mp hl
  split_ifs at hok with hsilent
  · obtain ⟨⟨conn, fs⟩, hclose, hok⟩ := Fallible.bind_eq_ok.mp hok
    cases hok
    unfold remove
    split_ifs with hbusy
    · obtain ⟨⟨a, stage⟩, hstage, rfl⟩ := Option.map_eq_some_iff.mp hbusy
      exact .removedBusy hstage hl hknown hsilent hclose
    · refine .removed ?_ hl hknown hsilent hclose
      intro stage h
      exact hbusy (congrArg (Option.map Prod.fst) h)
  · cases hok
    exact .nothing _

/-- Where a step of the goroutine that handles data ends. -/
theorem settle_cases (d : Daemon κ η φ ρ) (addr : κ) (l : Link) (stage : Stage) :
    (l.phase = .idle ∧ l.removed = true ∧
      d.settle addr l stage = { d.retire addr l with busy := none }) ∨
    (l.phase = .idle ∧ l.removed = false ∧
      d.settle addr l stage = { d.setLink addr l with busy := none }) ∨
    (l.phase ≠ .idle ∧
      d.settle addr l stage = { d.setLink addr l with busy := some (addr, stage) }) := by
  unfold settle
  split_ifs with hphase hremoved
  · exact Or.inl ⟨Phase.isIdle_iff.mp hphase, hremoved, rfl⟩
  · exact Or.inr (Or.inl ⟨Phase.isIdle_iff.mp hphase, Bool.not_eq_true _ ▸ hremoved, rfl⟩)
  · exact Or.inr (Or.inr ⟨fun h => hphase (Phase.isIdle_iff.mpr h), rfl⟩)

/-- What a step that does not panic has done. -/
theorem took_step {event : Event κ} (hok : d.step P event = .ok d') : Took P d event d' := by
  cases event with
  | datagram addr data =>
    simp only [step] at hok
    split_ifs at hok with hskip
    · cases hok
      exact .nothing _
    · cases hok
      rw [not_or, Bool.not_eq_true, Option.isSome_eq_false_iff, Option.isNone_iff_eq_none,
        Nat.not_lt] at hskip
      exact .found hskip.1 hskip.2
  | fetch => exact took_fetch hok
  | process order => exact took_process hok
  | call => exact took_call hok
  | handle order => exact took_handle hok
  | send => exact took_send hok
  | tick addr e =>
    simp only [step] at hok
    split at hok
    · cases hok
      exact .nothing _
    · rename_i l hl
      cases hok
      exact .ticked e hl
  | tickRemoved j e =>
    cases hok
    exact .tickedRemoved j e
  | cleanup addr order => exact took_cleanup hok
  | wait k =>
    cases hok
    exact .waited k

end Daemon

/-! ### A peer alone -/

namespace Observed

variable {σ : Type}

/-- A connection whose next loop over the handle cache runs in this order. -/
def reorder (x : Observed σ) (order : MapOrder) : Observed σ :=
  { x with endpoint.conn := order.apply x.endpoint.conn }

/-- A connection that the cleanup loop has closed. -/
def close (x : Observed σ) (conn : Connection) (fs : σ) : Observed σ :=
  { x with
    endpoint.sess := x.endpoint.sess.close
    endpoint.conn := conn
    endpoint.fs := fs }

/-- The states that a connection reaches, for any filesystem and with loops over the handle
cache in any order. It may be closed at any time. -/
def Served (F : FS σ) : Observed σ → Prop :=
  Transition.Reachable (fun x => ∃ fs, x = new fs)
    (fun x y => (∃ event, x.step F event = .ok y) ∨ (∃ order, y = x.reorder order) ∨
      ∃ conn fs, x.endpoint.conn.close F x.endpoint.fs = .ok (conn, fs) ∧ y = x.close conn fs)

variable {F : FS σ} {x y : Observed σ}

/-- Reordering the handles is a step. -/
theorem Served.reorder (h : Served F x) (order : MapOrder) : Served F (x.reorder order) :=
  .next h (Or.inr (Or.inl ⟨order, rfl⟩))

/-- Closing is a step. -/
theorem Served.close {conn : Connection} {fs : σ} (h : Served F x)
    (hclose : x.endpoint.conn.close F x.endpoint.fs = .ok (conn, fs)) :
    Served F (x.close conn fs) :=
  .next h (Or.inr (Or.inr ⟨conn, fs, hclose, rfl⟩))

/-- An event of the connection. -/
theorem Served.step {event : Endpoint.Event σ} {t : Endpoint σ} (h : Served F x)
    (hok : x.endpoint.step F event = .ok t) : ∃ y, Served F y ∧ y.endpoint = t := by
  refine ⟨x.record t (x.nextAnswer F event t.phase) (x.nextCurrent event),
    .next h (Or.inl ⟨event, ?_⟩), rfl⟩
  exact Fallible.bind_eq_ok.mpr ⟨t, hok, rfl⟩

/-- Closing a connection writes nothing and leaves its transfer alone. -/
theorem Faithful.close {conn : Connection} {fs : σ} (hx : x.Faithful)
    (hclose : x.endpoint.conn.close F x.endpoint.fs = .ok (conn, fs)) :
    (x.close conn fs).Faithful := by
  obtain ⟨fs', -, hconn⟩ := Fallible.bind_eq_ok.mp hclose
  cases hconn
  have hsess : ∃ closed ack, x.endpoint.sess.close =
      { x.endpoint.sess with closed := closed, ack := ack } := by
    unfold Session.close
    split_ifs
    · exact ⟨_, _, rfl⟩
    · exact ⟨_, _, rfl⟩
  obtain ⟨closed, ack, hsess⟩ := hsess
  unfold Observed.close
  rw [hsess]
  exact ⟨hx.log, hx.belongs, hx.kept.quiet (fun _ => id) rfl, hx.pending, hx.shared, hx.handled⟩

/-- The order of the cache and the end of a connection do not matter to what has been sent and is
being sent. -/
theorem Served.faithful (h : Served F x) : x.Faithful := by
  refine Transition.Reachable.invariant ?_ ?_ h
  · rintro x ⟨fs, rfl⟩
    exact faithful_new fs
  · rintro x y - hx (⟨event, hstep⟩ | ⟨order, rfl⟩ | ⟨conn, fs, hclose, rfl⟩)
    · exact hx.step hstep
    · exact ⟨hx.log, hx.belongs, hx.kept, hx.pending, hx.shared, hx.handled⟩
    · exact hx.close hclose

end Observed

namespace Link

variable {P : Platform η φ ρ} {l : Link} {fs : Backend η φ ρ} {data : List Byte}
  {order : MapOrder} {e : Endpoint (Backend η φ ρ)}

/-- What the receipt of a datagram does: it is the session's affair but for a reset of the
peer, and a payload that is handled next is not empty. -/
structure Received (P : Platform η φ ρ) (l : Link) (fs : Backend η φ ρ) (data : List Byte)
    (order : MapOrder) (e : Endpoint (Backend η φ ρ)) : Prop where
  /-- The session. -/
  sess : ∃ r, l.sess.processDataPacket data = .ok (e.sess, r)
  /-- The connection and the filesystem. -/
  peer : (e.conn = l.conn ∧ e.fs = fs) ∨
    (order.apply l.conn).resetPeer (Backend.fs P) fs = .ok (e.conn, e.fs)
  /-- The peer by itself, with its handle cache in some order. -/
  alone : ∃ order', ((l.reorder order').endpoint fs).receive (Backend.fs P) data = .ok e
  /-- What is done next. -/
  phase : e.phase = .idle ∨ ∃ payload, payload ≠ [] ∧ e.phase = .received payload

/-- A payload that `ProcessDataPacket` returns is not empty. -/
theorem payload_ne_nil {s t : Session} {payload : List Byte}
    (h : s.processDataPacket data = .ok (t, .ok (some payload))) : payload ≠ [] := by
  rcases Session.processDataPacket_cases h with ⟨err, hr, -⟩ | ⟨p, r, -, hp, hr⟩
  · cases hr
  cases hr
  have haccept (u : Session) (hu : u.acceptPacket p = .ok (t, some payload)) :
      payload = p.payload := by
    obtain ⟨v, -, hv⟩ := Fallible.bind_eq_ok.mp hu
    cases hv
    rfl
  unfold Session.processPacket at hp
  by_cases hempty : p.payload = []
  · rw [if_pos hempty] at hp
    split_ifs at hp
    · obtain ⟨v, -, hv⟩ := Fallible.bind_eq_ok.mp hp
      cases hv
    · cases hp
  rw [if_neg hempty] at hp
  split_ifs at hp
  · obtain ⟨v, -, hv⟩ := Fallible.bind_eq_ok.mp hp
    cases hv
  · exact haccept _ hp ▸ hempty
  · obtain ⟨v, -, hv⟩ := Fallible.bind_eq_ok.mp hp
    cases hv
  · exact haccept _ hp ▸ hempty

/-- What receiving comes to. -/
theorem received (hok : l.receive P fs data order = .ok e) : Received P l fs data order e := by
  obtain ⟨⟨sess, r⟩, hsess, hok⟩ := Fallible.bind_eq_ok.mp hok
  obtain ⟨⟨conn, fs'⟩, hreset, hok⟩ := Fallible.bind_eq_ok.mp hok
  -- the same steps of the peer alone
  have halone (order' : MapOrder)
      (hsame : ((l.reorder order').endpoint fs).onReset (Backend.fs P) sess = .ok (conn, fs')) :
      ((l.reorder order').endpoint fs).receive (Backend.fs P) data = .ok e :=
    Fallible.bind_eq_ok.mpr ⟨(sess, r), hsess, Fallible.bind_eq_ok.mpr ⟨(conn, fs'), hsame, hok⟩⟩
  have hend : e.sess = sess ∧ e.conn = conn ∧ e.fs = fs' ∧
      (e.phase = .idle ∨ ∃ payload, payload ≠ [] ∧ e.phase = .received payload) := by
    simp only at hok
    split at hok
    · cases hok
      exact ⟨rfl, rfl, rfl, Or.inr ⟨_, payload_ne_nil (liftPanic_eq_ok.mp hsess), rfl⟩⟩
    · cases hok
      exact ⟨rfl, rfl, rfl, Or.inl rfl⟩
  obtain ⟨rfl, hconn, hfs, hphase⟩ := hend
  have hprocessed : ∃ r, l.sess.processDataPacket data = .ok (e.sess, r) :=
    ⟨r, liftPanic_eq_ok.mp hsess⟩
  unfold onReset at hreset
  split_ifs at hreset with hresets
  · cases hreset
    refine ⟨hprocessed, Or.inl ⟨hconn, hfs⟩, ⟨.stored, halone .stored ?_⟩, hphase⟩
    exact if_pos hresets
  · refine ⟨hprocessed, Or.inr (hconn ▸ hfs ▸ hreset), ⟨order, halone order ?_⟩, hphase⟩
    exact (if_neg hresets).trans hreset

end Link

namespace Daemon

variable {P : Platform η φ ρ} {o : Options} {host : η} {d d' : Daemon κ η φ ρ} {addr : κ}
  {l : Link} {fs : Backend η φ ρ}

/-- A peer is served as if it were alone. -/
def ServedAlone (P : Platform η φ ρ) (l : Link) (fs : Backend η φ ρ) : Prop :=
  ∃ x : Observed (Backend η φ ρ), Observed.Served (Backend.fs P) x ∧ x.endpoint = l.endpoint fs

variable {fs' : Backend η φ ρ}

/-- Others change the filesystem. -/
theorem ServedAlone.elsewhere (h : ServedAlone P l fs) :
    ServedAlone P l fs' := by
  obtain ⟨x, hx, hendpoint⟩ := h
  have hstep : x.endpoint.step (Backend.fs P) (.elsewhere fs') = .ok (l.endpoint fs') := by
    rw [hendpoint]
    rfl
  exact hx.step hstep

/-- A new peer. -/
theorem ServedAlone.new (P : Platform η φ ρ) (now : ℕ) (fs : Backend η φ ρ) :
    ServedAlone P (.new now) fs :=
  ⟨.new fs, .start ⟨fs, rfl⟩, rfl⟩

section Alone

variable (h : ServedAlone P l fs)
include h

/-- The loops over the handle cache run in another order. -/
theorem ServedAlone.reorder (order : MapOrder) : ServedAlone P (l.reorder order) fs := by
  obtain ⟨x, hx, hendpoint⟩ := h
  refine ⟨x.reorder order, hx.reorder order, ?_⟩
  simp [Observed.reorder, hendpoint, Link.endpoint, Link.reorder]

/-- The peer takes a step. -/
theorem ServedAlone.step {l' : Link} (event : Endpoint.Event (Backend η φ ρ))
    (hok : (l.endpoint fs).step (Backend.fs P) event = .ok (l'.endpoint fs')) :
    ServedAlone P l' fs' := by
  obtain ⟨x, hx, hendpoint⟩ := h
  rw [← hendpoint] at hok
  exact hx.step hok

/-- The datagram of a peer is processed. -/
theorem ServedAlone.received {data : List Byte} {order : MapOrder} {e : Endpoint (Backend η φ ρ)}
    (hphase : l.phase = .idle) (hlong : headerSize + dataHeaderSize ≤ data.length)
    (hreceived : Link.Received P l fs data order e) : ServedAlone P (l.became e) e.fs := by
  obtain ⟨order', halone⟩ := hreceived.alone
  refine (h.reorder order').step (.packet data) ?_
  have hphase' : ((l.reorder order').endpoint fs).phase = .idle := hphase
  rw [Endpoint.step, hphase']
  exact (if_neg (Nat.not_lt.mpr hlong)).trans halone

/-- The payload of a peer is handled. -/
theorem ServedAlone.handled {payload : List Byte} {order : MapOrder} {out : Outcome (Backend η φ ρ)}
    (hphase : l.phase = .received payload)
    (hhandle : (order.apply l.conn).handlePayload (Backend.fs P) fs payload = .ok out) :
    ServedAlone P (l.handled out) out.fs := by
  refine (h.reorder order).step .handle ?_
  have hphase' : ((l.reorder order).endpoint fs).phase = .received payload := hphase
  rw [Endpoint.step, hphase']
  exact Fallible.bind_eq_ok.mpr ⟨out, hhandle, rfl⟩

/-- The reply to a peer is sent. -/
theorem ServedAlone.sent {reply : Reply} {sess : Session} (hphase : l.phase = .handled reply)
    (hsend : reply.send l.conn.dataBuffer l.sess = .ok sess) :
    ServedAlone P (l.sent reply sess) fs := by
  refine h.step .send ?_
  have hphase' : (l.endpoint fs).phase = .handled reply := hphase
  rw [Endpoint.step, hphase']
  exact Fallible.bind_eq_ok.mpr ⟨sess, liftPanic_eq_ok.mpr hsend, rfl⟩

/-- The timer of a peer runs. -/
theorem ServedAlone.tick (e : Tick) : ServedAlone P { l with sess := l.sess.tick e } fs := by
  cases e with
  | expire => exact h.step .expire rfl
  | callback i => exact h.step (.callback i) rfl

/-- The connection of a peer is closed. -/
theorem ServedAlone.closed {order : MapOrder} {conn : Connection}
    (hclose : (order.apply l.conn).close (Backend.fs P) fs = .ok (conn, fs')) :
    ServedAlone P (l.closed conn) fs' := by
  obtain ⟨x, hx, hendpoint⟩ := h.reorder order
  refine ⟨x.close conn fs', hx.close ?_, ?_⟩
  · rw [hendpoint]
    exact hclose
  · simp [Observed.close, hendpoint, Link.endpoint, Link.closed, Link.reorder]

end Alone

end Daemon

/-! ### What holds of every peer -/

/-- What is being done for a peer fits how far `handleData` has come with its datagram, if it is
handling one. -/
def Link.Fits (l : Link) : Option Stage → Prop
  | none => l.phase = .idle ∧ l.removed = false
  | some (.found data) => l.phase = .idle ∧ headerSize + dataHeaderSize ≤ data.length
  | some (.fetched data) => l.phase = .idle ∧ headerSize + dataHeaderSize ≤ data.length
  | some .returned => ∃ payload, payload ≠ [] ∧ l.phase = .received payload
  | some .called => (∃ payload, payload ≠ [] ∧ l.phase = .received payload) ∨
      ∃ reply, l.phase = .handled reply

namespace Daemon

variable [DecidableEq κ] {P : Platform η φ ρ} {o : Options} {host : η} {d d' : Daemon κ η φ ρ}
  {addr : κ} {l : Link} {s : Stage} {Q : Option Stage → Link → Prop}

/-- How far `handleData` has come with a datagram of an address. -/
def stage (d : Daemon κ η φ ρ) (addr : κ) : Option Stage :=
  d.busy.bind (fun b => if b.1 = addr then some b.2 else none)

theorem stage_of_busy (h : d.busy = some (addr, s)) : d.stage addr = some s := by
  simp [Daemon.stage, h]

variable {a : κ} {s' : Stage}

theorem stage_of_ne (h : d.busy = some (a, s)) (hne : addr ≠ a) :
    d.stage addr = none := by
  simp [Daemon.stage, h, hne.symm]

theorem stage_of_idle (h : d.busy = none) (addr : κ) : d.stage addr = none := by
  simp [Daemon.stage, h]

/-- A property holds of every peer that is held, at its stage. -/
def Links (Q : Option Stage → Link → Prop) (d : Daemon κ η φ ρ) : Prop :=
  ∀ addr l, d.links addr = some l → Q (d.stage addr) l

/-- One peer changes, and so may how far `handleData` has come with its datagram. -/
theorem Links.change {c : κ} (hd : d.Links Q)
    (hother : ∀ a, a ≠ c → d'.links a = d.links a ∧ d'.stage a = d.stage a)
    (hc : ∀ l, d'.links c = some l → Q (d'.stage c) l) : d'.Links Q := by
  intro a l hl
  by_cases ha : a = c
  · subst ha
    exact hc l hl
  · obtain ⟨hlinks, hstage⟩ := hother a ha
    rw [hstage]
    exact hd a l (hlinks ▸ hl)

theorem links_setLink_self (d : Daemon κ η φ ρ) (addr : κ) (l : Link) :
    (d.setLink addr l).links addr = some l :=
  Function.update_self _ _ _

theorem links_setLink_of_ne (ha : a ≠ addr) (d : Daemon κ η φ ρ) (l : Link) :
    (d.setLink addr l).links a = d.links a :=
  Function.update_of_ne ha _ _

theorem links_retire_self (d : Daemon κ η φ ρ) (addr : κ) (l : Link) :
    (d.retire addr l).links addr = none :=
  Function.update_self _ _ _

theorem links_retire_of_ne (ha : a ≠ addr) (d : Daemon κ η φ ρ) (l : Link) :
    (d.retire addr l).links a = d.links a :=
  Function.update_of_ne ha _ _

/-- A link is replaced. -/
theorem Links.setLink (hd : d.Links Q) (h : Q (d.stage addr) l) : (d.setLink addr l).Links Q := by
  refine hd.change (c := addr) (fun a ha => ⟨links_setLink_of_ne ha d l, rfl⟩) ?_
  intro l' hl'
  rw [links_setLink_self] at hl'
  cases hl'
  exact h

/-- A link is retired. -/
theorem Links.retire (hd : d.Links Q) (addr : κ) (l : Link) : (d.retire addr l).Links Q := by
  refine hd.change (c := addr) (fun a ha => ⟨links_retire_of_ne ha d l, rfl⟩) ?_
  intro l' hl'
  rw [links_retire_self] at hl'
  cases hl'

/-- `handleData` turns to a datagram of an address, or goes on with it. -/
theorem Links.go (hd : d.Links Q) (hbusy : ∀ a, a ≠ addr → d.stage a = none)
    (hother : ∀ a, a ≠ addr → d'.links a = d.links a) (hgo : d'.busy = some (addr, s))
    (haddr : ∀ l, d'.links addr = some l → Q (some s) l) : d'.Links Q := by
  refine hd.change (fun a ha => ⟨hother a ha, ?_⟩) ?_
  · rw [stage_of_ne hgo ha, hbusy a ha]
  · intro l hl
    rw [stage_of_busy hgo]
    exact haddr l hl

/-- `handleData` is done with a datagram of an address. -/
theorem Links.done (hd : d.Links Q) (hbusy : ∀ a, a ≠ addr → d.stage a = none)
    (hother : ∀ a, a ≠ addr → d'.links a = d.links a) (hfree : d'.busy = none)
    (haddr : ∀ l, d'.links addr = some l → Q none l) : d'.Links Q := by
  refine hd.change (fun a ha => ⟨hother a ha, ?_⟩) ?_
  · rw [stage_of_idle hfree, hbusy a ha]
  · intro l hl
    rw [stage_of_idle hfree]
    exact haddr l hl

/-- A request ends. -/
theorem Links.settle (hd : d.Links Q) (hbusy : d.busy = some (addr, s))
    (hidle : l.phase = .idle → l.removed = false → Q none l)
    (hgo : l.phase ≠ .idle → Q (some s') l) : (d.settle addr l s').Links Q := by
  have hother (a : κ) (ha : a ≠ addr) : d.stage a = none := stage_of_ne hbusy ha
  rcases settle_cases d addr l s' with ⟨-, -, heq⟩ | ⟨hphase, hknown, heq⟩ | ⟨hphase, heq⟩
  · rw [heq]
    refine hd.done hother (fun a ha => links_retire_of_ne ha d l) rfl ?_
    intro l' hl'
    cases (links_retire_self d addr l).symm.trans hl'
  · rw [heq]
    refine hd.done hother (fun a ha => links_setLink_of_ne ha d l) rfl ?_
    intro l' hl'
    cases (links_setLink_self d addr l).symm.trans hl'
    exact hidle hphase hknown
  · rw [heq]
    refine hd.go hother (fun a ha => links_setLink_of_ne ha d l) rfl ?_
    intro l' hl'
    cases (links_setLink_self d addr l).symm.trans hl'
    exact hgo hphase

/-- What holds of a peer that is held: it is served as if it were alone, it is closed once it has
been removed, and what is being done for it fits. -/
structure InHand (P : Platform η φ ρ) (fs : Backend η φ ρ) (stage : Option Stage) (l : Link) :
    Prop where
  /-- It is served as if it were alone. -/
  alone : ServedAlone P l fs
  /-- A removed peer is closed. -/
  closed : l.removed = true → l.sess.closed = true
  /-- What is being done for it. -/
  fits : l.Fits stage

/-- What holds of a daemon. -/
structure Inv (P : Platform η φ ρ) (d : Daemon κ η φ ρ) : Prop where
  /-- The peers that are held. -/
  links : d.Links (InHand P d.fs)
  /-- The peer whose datagram is being handled is held. -/
  held : ∀ b, d.busy = some b → d.links b.1 ≠ none
  /-- Removed peers are closed. -/
  removed : ∀ r ∈ d.removed, r.2.closed = true

section Keeping

variable (hd : Inv P d)
include hd

/-- What holds of the peer whose datagram is being handled. -/
theorem Inv.inHand (hbusy : d.busy = some (addr, s)) (hl : d.links addr = some l) :
    InHand P d.fs (some s) l :=
  stage_of_busy hbusy ▸ hd.links addr l hl

/-- The filesystem changes. -/
theorem Inv.withFs (fs : Backend η φ ρ) : Inv P { d with fs := fs } := by
  refine ⟨fun a l hl => ?_, hd.held, hd.removed⟩
  have hlink := hd.links a l hl
  exact ⟨hlink.alone.elsewhere, hlink.closed, hlink.fits⟩

/-- A peer changes, but not what is being done for it. -/
theorem Inv.setLink (h : InHand P d.fs (d.stage addr) l) : Inv P (d.setLink addr l) := by
  refine ⟨hd.links.setLink h, fun b hb => ?_, hd.removed⟩
  by_cases ha : b.1 = addr
  · rw [ha, links_setLink_self]
    exact Option.some_ne_none l
  · rw [links_setLink_of_ne ha]
    exact hd.held b hb

/-- A removed peer that is closed joins the others. -/
theorem removed_retire (hclosed : l.sess.closed = true) :
    ∀ r ∈ (d.retire addr l).removed, r.2.closed = true := by
  intro r hr
  rcases List.mem_append.mp hr with hr | hr
  · exact hd.removed r hr
  · rw [List.mem_singleton.mp hr]
    exact hclosed

/-- A peer of which no datagram is being handled is let go. -/
theorem Inv.retire (hfree : ∀ s, d.busy ≠ some (addr, s)) (hclosed : l.sess.closed = true) :
    Inv P (d.retire addr l) := by
  refine ⟨hd.links.retire addr l, fun b hb => ?_, removed_retire hd hclosed⟩
  have ha : b.1 ≠ addr := by
    rintro rfl
    exact hfree b.2 hb
  rw [links_retire_of_ne ha]
  exact hd.held b hb

/-- `handleData` goes on with the same peer. -/
theorem Inv.turn (hbusy : d.busy = some (addr, s)) (hl : d.links addr = some l)
    (hfits : l.Fits (some s')) : Inv P { d with busy := some (addr, s') } := by
  refine ⟨hd.links.go (fun a ha => stage_of_ne hbusy ha) (fun _ _ => rfl) rfl ?_, ?_, hd.removed⟩
  · intro l' hl'
    cases hl.symm.trans hl'
    have hlink := hd.inHand hbusy hl
    exact ⟨hlink.alone, hlink.closed, hfits⟩
  · intro b hb
    cases hb
    exact hl ▸ Option.some_ne_none l

/-- A step of the goroutine that handles data. -/
theorem Inv.settle (hbusy : d.busy = some (addr, s)) (halone : ServedAlone P l d.fs)
    (hclosed : l.removed = true → l.sess.closed = true)
    (hfits : l.phase ≠ .idle → l.Fits (some s')) : Inv P (d.settle addr l s') := by
  have hlinks : (d.settle addr l s').Links (InHand P d.fs) :=
    hd.links.settle hbusy (fun hphase hknown => ⟨halone, hclosed, hphase, hknown⟩)
      (fun hphase => ⟨halone, hclosed, hfits hphase⟩)
  rcases settle_cases d addr l s' with ⟨-, hremoved, heq⟩ | ⟨-, -, heq⟩ | ⟨-, heq⟩
  · rw [heq] at hlinks ⊢
    exact ⟨hlinks, nofun, removed_retire hd (hclosed hremoved)⟩
  · rw [heq] at hlinks ⊢
    exact ⟨hlinks, nofun, hd.removed⟩
  · rw [heq] at hlinks ⊢
    refine ⟨hlinks, ?_, hd.removed⟩
    intro b hb
    cases hb
    exact (links_setLink_self d addr l).symm ▸ Option.some_ne_none l

/-- A datagram finds its peer. -/
theorem Inv.found (hfree : d.busy = none) {data : List Byte}
    (hlong : headerSize + dataHeaderSize ≤ data.length) :
    Inv P { d.setLink addr (d.seen addr) with busy := some (addr, .found data) } := by
  have hseen : InHand P d.fs (some (.found data)) (d.seen addr) := by
    unfold Daemon.seen
    cases hl : d.links addr with
    | none => exact ⟨.new P _ _, nofun, rfl, hlong⟩
    | some l =>
      have hlink := hd.links addr l hl
      rw [stage_of_idle hfree] at hlink
      exact ⟨hlink.alone, hlink.closed, hlink.fits.1, hlong⟩
  refine ⟨?_, ?_, hd.removed⟩
  · refine hd.links.go (fun a _ => stage_of_idle hfree a)
      (fun a ha => links_setLink_of_ne ha d _) rfl ?_
    intro l hl
    cases (links_setLink_self d addr _).symm.trans hl
    exact hseen
  · intro b hb
    cases hb
    exact (links_setLink_self d addr _).symm ▸ Option.some_ne_none _

end Keeping

/-- A session that is closed stays closed when it processes a datagram. -/
theorem closed_processDataPacket {s t : Session} {data : List Byte}
    {r : Except String (Option (List Byte))} (hs : s.closed = true)
    (hlong : headerSize + dataHeaderSize ≤ data.length)
    (h : s.processDataPacket data = .ok (t, r)) : t.closed = true := by
  refine Session.closed_lasting.step (e := .packet data) rfl hs ?_
  simp [Session.step, h, Nat.not_lt.mpr hlong]

/-- Sending a reply does not open a closed session. -/
theorem closed_send {reply : Reply} {buf : Buffer Byte} {s t : Session}
    (h : reply.send buf s = .ok t) : t.closed = s.closed := by
  cases reply with
  | ack =>
    cases h
    rfl
  | _ =>
    have hsent := Session.closed_handleTransfer h
    exact hsent

theorem closed_refill (s : Session) (shared : Option ℕ) (buf : Buffer Byte) :
    (refill s shared buf).closed = s.closed := by
  cases shared <;> rfl

theorem closed_close (s : Session) : s.close.closed = true := by
  unfold Session.close
  split_ifs with hclosed
  · exact hclosed
  · rfl

/-- The timers of removed peers do not open their sessions. -/
theorem Inv.onRemoved (hd : Inv P d) (j : ℕ) (e : Tick) :
    Inv P (d.onRemoved j (fun s => s.tick e)) := by
  refine ⟨hd.links, hd.held, fun r hr => ?_⟩
  obtain ⟨k, hk, rfl⟩ := List.mem_iff_getElem.mp hr
  simp only [Daemon.onRemoved, List.getElem_modify]
  simp only [Daemon.onRemoved, List.length_modify] at hk
  have hclosed := hd.removed d.removed[k] (List.getElem_mem hk)
  split_ifs
  · exact (Session.tick_frame _ e).2.2.1.trans hclosed
  · exact hclosed

/-- Every step keeps what holds of a daemon. -/
theorem Inv.step {event : Event κ} (hd : Inv P d) (hok : d.step P event = .ok d') : Inv P d' := by
  cases took_step hok with
  | nothing => exact hd
  | found hfree hlong => exact hd.found hfree hlong
  | fetched hbusy hl hknown => exact hd.turn hbusy hl (hd.inHand hbusy hl).fits
  | @processed addr data l order e hbusy hl hreceive =>
    have hlink := hd.inHand hbusy hl
    have hreceived := Link.received hreceive
    obtain ⟨r, hr⟩ := hreceived.sess
    refine (hd.withFs e.fs).settle hbusy ?_ (fun hremoved => ?_) (fun hphase => ?_)
    · exact hlink.alone.received hlink.fits.1 hlink.fits.2 hreceived
    · exact closed_processDataPacket (hlink.closed hremoved) hlink.fits.2 hr
    · exact hreceived.phase.resolve_left hphase
  | called hbusy hl hknown => exact hd.turn hbusy hl (Or.inl (hd.inHand hbusy hl).fits)
  | @handled addr l payload order out hbusy hl hphase hhandle =>
    have hlink := hd.inHand hbusy hl
    refine (hd.withFs out.fs).settle hbusy ?_ (fun hremoved => ?_) (fun _ => ?_)
    · exact hlink.alone.handled hphase hhandle
    · exact (closed_refill _ _ _).trans (hlink.closed hremoved)
    · exact Or.inr ⟨out.reply, rfl⟩
  | sent hbusy hl hphase hsend =>
    have hlink := hd.inHand hbusy hl
    refine hd.settle hbusy ?_ (fun hremoved => ?_) (fun hphase => absurd rfl hphase)
    · exact hlink.alone.sent hphase hsend
    · exact (closed_send hsend).trans (hlink.closed hremoved)
  | ticked e hl =>
    have hlink := hd.links _ _ hl
    refine hd.setLink ⟨hlink.alone.tick e, fun hremoved => ?_, ?_⟩
    · exact (Session.tick_frame _ e).2.2.1.trans (hlink.closed hremoved)
    · exact hlink.fits
  | tickedRemoved j e => exact hd.onRemoved j e
  | @removedBusy addr s l order conn fs hbusy hl hknown hsilent hclose =>
    have hlink := hd.links addr l hl
    rw [stage_of_busy hbusy] at hlink
    refine (hd.withFs fs).setLink ⟨hlink.alone.closed hclose, fun _ => closed_close _, ?_⟩
    have hstage : Daemon.stage { d with fs := fs } addr = some s := stage_of_busy hbusy
    rw [hstage]
    cases s <;> exact hlink.fits
  | removed hfree hl hknown hsilent hclose =>
    exact (hd.withFs _).retire hfree (closed_close _)
  | waited k => exact hd.withFs _

/-- A new daemon. -/
theorem Inv.new (P : Platform η φ ρ) (fs : Backend η φ ρ) (peerTimeout : ℕ) :
    Inv P (.new fs peerTimeout : Daemon κ η φ ρ) where
  links := fun _ _ h => by cases h
  held := fun _ h => by cases h
  removed := fun _ h => by cases h

/-- What holds of a daemon holds in every run. -/
theorem Reachable.inv (h : Reachable P o host d) : Inv P d := by
  refine Transition.Reachable.invariant ?_ ?_ h
  · rintro d ⟨now, fs, peerTimeout, -, -, rfl⟩
    exact .new P fs peerTimeout
  · rintro d d' - hd ⟨event, hok⟩
    exact hd.step hok

/-! ### What peers are sent -/

/-- What the removed peers have been sent. -/
def farewells (d : Daemon κ η φ ρ) : List (κ × List (List Byte)) :=
  d.removed.map (fun r => (r.1, datagrams r.2.trace))

/-- The timer of a closed session writes nothing. -/
theorem trace_tick_closed {s : Session} (hs : s.closed = true) (e : Tick) :
    (s.tick e).trace = s.trace := by
  cases e with
  | expire => rfl
  | callback i =>
    change (s.runCallback i).trace = s.trace
    rw [Session.runCallback_closed hs]

/-- The timers of removed peers write nothing. -/
theorem Inv.farewells_onRemoved (hd : Inv P d) (j : ℕ) (e : Tick) :
    (d.onRemoved j (fun s => s.tick e)).farewells = d.farewells := by
  unfold farewells Daemon.onRemoved
  apply List.ext_getElem
  · simp
  · intro k hk hk'
    simp only [List.getElem_map, List.getElem_modify]
    split_ifs
    · rw [Prod.map_fst, Prod.map_snd, trace_tick_closed (hd.removed _ (List.getElem_mem _))]
      rfl
    · rfl

theorem removed_settle {rs : List (κ × Session)} (hrs : d.removed = rs) :
    rs <+: (d.settle addr l s).removed := by
  subst hrs
  rcases settle_cases d addr l s with ⟨-, -, heq⟩ | ⟨-, -, heq⟩ | ⟨-, heq⟩
  · rw [heq]
    exact List.prefix_append _ _
  · rw [heq]
    exact List.prefix_rfl
  · rw [heq]
    exact List.prefix_rfl

/-- What the removed peers have been sent stays the same. -/
theorem Inv.farewells {event : Event κ} (hd : Inv P d) (hok : d.step P event = .ok d') :
    d.farewells <+: d'.farewells := by
  have hmore {d₁ : Daemon κ η φ ρ} (h : d.removed <+: d₁.removed) :
      d.farewells <+: d₁.farewells := h.map _
  cases took_step hok with
  | processed => exact hmore (removed_settle rfl)
  | handled => exact hmore (removed_settle rfl)
  | sent => exact hmore (removed_settle rfl)
  | removed => exact hmore (List.prefix_append _ _)
  | tickedRemoved j e => exact (hd.farewells_onRemoved j e).symm ▸ List.prefix_rfl
  | _ => exact hmore List.prefix_rfl

theorem links_settle_of_ne (ha : a ≠ addr) (d : Daemon κ η φ ρ) (l : Link) (s : Stage) :
    (d.settle addr l s).links a = d.links a := by
  rcases settle_cases d addr l s with ⟨-, -, heq⟩ | ⟨-, -, heq⟩ | ⟨-, heq⟩
  · rw [heq]
    exact links_retire_of_ne ha d l
  · rw [heq]
    exact links_setLink_of_ne ha d l
  · rw [heq]
    exact links_setLink_of_ne ha d l

theorem links_settle_self {l' : Link} (h : (d.settle addr l s).links addr = some l') :
    l' = l := by
  rcases settle_cases d addr l s with ⟨-, -, heq⟩ | ⟨-, -, heq⟩ | ⟨-, heq⟩
  · rw [heq] at h
    cases (links_retire_self d addr l).symm.trans h
  · rw [heq] at h
    exact Option.some.inj (h.symm.trans (links_setLink_self d addr l))
  · rw [heq] at h
    exact Option.some.inj (h.symm.trans (links_setLink_self d addr l))

theorem trace_refill (s : Session) (shared : Option ℕ) (buf : Buffer Byte) :
    (refill s shared buf).trace = s.trace := by
  cases shared <;> rfl

/-- Whether a step of the handling of a datagram may write to its peer. -/
def Event.writes : Event κ → Bool
  | .process _ => true
  | .send => true
  | _ => false

/-- To a removed peer whose datagram is still being handled only `handleData` writes. -/
theorem Inv.in_hand {event : Event κ} {l' : Link} (hd : Inv P d) (hl : d.links addr = some l)
    (hremoved : l.removed = true) (hquiet : event.writes = false)
    (hok : d.step P event = .ok d') (hl' : d'.links addr = some l') :
    l'.sess.trace = l.sess.trace := by
  have hsame (h : d'.links addr = d.links addr) : l'.sess.trace = l.sess.trace := by
    cases hl.symm.trans (h.symm.trans hl')
    rfl
  cases took_step hok with
  | nothing => exact hsame rfl
  | found hfree hlong =>
    -- nobody is removed while nothing is being handled
    have hfits := (hd.links addr l hl).fits
    rw [stage_of_idle hfree] at hfits
    cases hremoved.symm.trans hfits.2
  | fetched => exact hsame rfl
  | processed => cases hquiet
  | called => exact hsame rfl
  | @handled a l₀ payload order out hbusy hl₀ hphase hhandle =>
    by_cases ha : addr = a
    · subst ha
      cases hl.symm.trans hl₀
      cases links_settle_self hl'
      exact trace_refill _ _ _
    · exact hsame (links_settle_of_ne ha _ _ _)
  | sent => cases hquiet
  | @ticked a l₀ e hl₀ =>
    by_cases ha : addr = a
    · subst ha
      cases hl.symm.trans hl₀
      cases (links_setLink_self _ _ _).symm.trans hl'
      exact trace_tick_closed ((hd.links addr l hl).closed hremoved) e
    · exact hsame (links_setLink_of_ne ha _ _)
  | tickedRemoved => exact hsame rfl
  | @removedBusy a s l₀ order conn fs hbusy hl₀ hknown hsilent hclose =>
    by_cases ha : addr = a
    · subst ha
      cases hl.symm.trans hl₀
      cases hremoved.symm.trans hknown
    · exact hsame (links_setLink_of_ne ha _ _)
  | @removed a l₀ order conn fs hfree hl₀ hknown hsilent hclose =>
    by_cases ha : addr = a
    · subst ha
      cases (links_retire_self _ _ _).symm.trans hl'
    · exact hsame (links_retire_of_ne ha _ _)
  | waited => exact hsame rfl

end Daemon

/-- The steps of a request up to its reply. -/
def request (addr : Bool) (data : List Byte) : List (Daemon.Event Bool) :=
  [.datagram addr data, .fetch, .process .stored, .call, .handle .stored, .send]

/-- A datagram of an address asks for a sector, and it is handled up to the call of the
handler. -/
def askForSector (addr : Bool) : List (Daemon.Event Bool) :=
  [.datagram addr (dataPacket 0 0xFFF true []
      [0x28, 0, 1, 0, 0, 0, 0, 0, 1, 0, 0, 0, 0, 0, 0, 0]),
    .fetch, .process .stored, .call]

/-- One address reads a sector. The timer expires between the handling and the reply, another
address is heard of, and the first one is removed; its timer runs once more. -/
def readAndLeave : List (Daemon.Event Bool) :=
  askForSector true ++ [.handle .stored, .tick true .expire, .tick true (.callback 0), .send,
    .wait 5, .datagram false (controlPacket 0 0 true), .fetch, .process .stored,
    .tick true .expire, .cleanup true .stored, .tickRemoved 0 (.callback 0)]

/-- Then the other one reads a sector, but the handler takes so long that the peer is removed
meanwhile. -/
def leaveAndLinger : List (Daemon.Event Bool) :=
  readAndLeave ++ askForSector false ++ [.wait 5, .cleanup false .stored, .handle .stored]

/-- The reply is sent all the same. -/
def lingerAndReply : List (Daemon.Event Bool) := leaveAndLinger ++ [.send]

namespace Daemon

/-- What is seen of the daemon after a run on a served host, if it gets to the end. -/
def viewAfter {α ε : Type} (P : Platform Host OsFile Host.Image)
    (view : Daemon Bool Host OsFile Host.Image → α)
    (step : Daemon Bool Host OsFile Host.Image → Event Bool →
      Except ε (Daemon Bool Host OsFile Host.Image))
    (o : Options) (host : Host) (events : List (Event Bool)) : Option α :=
  Backend.observe P o host (new · 5) step events .ok (fun _ => view)

variable {P : Platform Host OsFile Host.Image}

/-- A run whose end is seen. -/
theorem exists_viewAfter {α ε : Type} {view : Daemon Bool Host OsFile Host.Image → α}
    {step : Daemon Bool Host OsFile Host.Image → Event Bool →
      Except ε (Daemon Bool Host OsFile Host.Image)}
    {o : Options} {host : Host} {events : List (Event Bool)} {v : α}
    (h : viewAfter P view step o host events = some v) : ∃ fs d,
      Backend.newBackend P o host 0 = .ok (some fs) ∧
        events.foldlM step (new fs 5) = .ok d ∧ view d = v := by
  obtain ⟨fs, d, _, hnew, hrun, ⟨⟩, hview⟩ := Backend.observe_eq_some h
  exact ⟨fs, d, hnew, hrun, hview⟩

/-- The end of a run is reachable. -/
theorem exists_reachable {α : Type} {view : Daemon Bool Host OsFile Host.Image → α} {o : Options}
    {host : Host} {events : List (Event Bool)} {v : α}
    (h : viewAfter P view (step P) o host events = some v) :
    ∃ d, Reachable P o host d ∧ view d = v := by
  obtain ⟨fs, d, hnew, hrun, hview⟩ := exists_viewAfter h
  refine ⟨d, ?_, hview⟩
  exact Transition.Reachable.foldlM (fun e _ _ _ hstep => ⟨e, hstep⟩)
    (.start ⟨0, fs, 5, by decide, hnew, rfl⟩) hrun

/-- What has been written to the removed peers and, if it is removed but still in hand, to the
peer of an address. -/
def removedView (d : Daemon Bool η φ ρ) :
    List (Bool × List (List Byte)) × Option (List (List Byte)) :=
  (d.farewells, ((d.links false).filter Link.removed).map (fun l => datagrams l.sess.trace))

/-- The reply to the read, with its acknowledgement. -/
def sectorReply : List (List Byte) :=
  [controlPacket 0 0 true, dataPacket 0 0 true (packResultReply 4) [2, 2, 2, 2]]

-- the reply is sent after the removal
example : viewAfter Host.platform removedView (step Host.platform) serveDevice numberedHost
    lingerAndReply = some ([(true, sectorReply), (false, sectorReply)], none) := by
  decide +kernel

end Daemon

end Udpfsd
