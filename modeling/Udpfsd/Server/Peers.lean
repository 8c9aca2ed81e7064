import Mathlib.Logic.Function.Basic
import Udpfsd.Fs.Fileops
import Udpfsd.Udpfs.Handlers

/-!
# The server's peers

The server keeps a connection for every address it has heard from, all of them on one
backend. A datagram of an address makes a connection or renews its time stamp before
the payload it carries is handled; a connection that has been silent for the peer
timeout is closed and forgotten. A run is a list of events: requests, resets of a peer,
rounds of the cleanup loop, and passing time.
-/

namespace Udpfsd

open Udprdma (Byte)
open Udpfs Fs

variable {κ η φ ρ : Type}

/-- An order in which a loop runs over the handle cache. The language leaves it open. -/
structure MapOrder where
  /-- The cache with its entries in the order of the loop. -/
  run : AList (fun _ : ℤ => CachedHandle) → AList (fun _ : ℤ => CachedHandle)
  /-- It has the same entries. -/
  perm : ∀ used, (run used).entries.Perm used.entries

/-- The order in which the handles were added last. -/
def MapOrder.stored : MapOrder := ⟨id, fun _ => .refl _⟩

/-- The connection whose next loop over the handle cache runs in this order. -/
def MapOrder.apply (order : MapOrder) (c : Connection) : Connection :=
  { c with usedHandles := order.run c.usedHandles }

theorem MapOrder.mem_keys_apply (order : MapOrder) (c : Connection) (h : ℤ) :
    h ∈ (order.apply c).usedHandles.keys ↔ h ∈ c.usedHandles.keys :=
  ((order.perm c.usedHandles).map Sigma.fst).mem_iff

/-- `defaultPeerTimeout` in nanoseconds. -/
def defaultPeerTimeout : ℕ := 3600 * 10 ^ 9

/-- `peer`. -/
structure Peer where
  /-- The connection. -/
  conn : Connection
  /-- The time of its latest datagram. -/
  lastSeen : ℕ

/-- The fields of `Server` that the handling of data and the cleanup use. -/
structure Server (κ η φ ρ : Type) where
  /-- The filesystem. -/
  fs : Backend η φ ρ
  /-- The known peers by address. -/
  cMap : κ → Option Peer
  /-- The peer timeout in nanoseconds. -/
  peerTimeout : ℕ

/-- What can happen next. -/
inductive Event (κ : Type)
  /-- A datagram of an address delivers a payload. -/
  | request (addr : κ) (payload : List Byte) (order : MapOrder)
  /-- A datagram of an address resets its session. -/
  | reset (addr : κ) (order : MapOrder)
  /-- The cleanup loop looks at an address. -/
  | cleanup (addr : κ) (order : MapOrder)
  /-- Nanoseconds pass. -/
  | wait (d : ℕ)

namespace Server

/-- `New`, with a backend. -/
def new (fs : Backend η φ ρ) (peerTimeout : ℕ) : Server κ η φ ρ := ⟨fs, fun _ => none, peerTimeout⟩

/-- The peer that `handleData` finds or makes for a datagram of an address. -/
def seen (s : Server κ η φ ρ) (addr : κ) : Peer :=
  match s.cMap addr with
  | none => ⟨newConnection, s.fs.world.now⟩
  | some p => { p with lastSeen := s.fs.world.now }

variable [DecidableEq κ] (P : Platform η φ ρ)

/-- The server after a peer's connection and the filesystem have changed. -/
def update (s : Server κ η φ ρ) (addr : κ) (conn : Connection) (fs : Backend η φ ρ) :
    Server κ η φ ρ :=
  { s with fs := fs, cMap := Function.update s.cMap addr (some { s.seen addr with conn := conn }) }

/-- A connection changes only for its own address. -/
theorem conn_seen_update (s : Server κ η φ ρ) (addr a : κ) (conn : Connection)
    (fs : Backend η φ ρ) : ((s.update addr conn fs).seen a).conn =
      if a = addr then conn else (s.seen a).conn := by
  by_cases ha : a = addr
  · subst ha
    simp [update, seen]
  · rw [if_neg ha]
    simp only [update, seen, Function.update_of_ne ha]
    cases s.cMap a <;> rfl

/-- `handleData` for a datagram that delivers a payload. -/
def request (s : Server κ η φ ρ) (addr : κ) (payload : List Byte) (order : MapOrder) :
    Except Fault (Option Reply × Server κ η φ ρ) :=
  if payload = [] then .ok (none, s.update addr (s.seen addr).conn s.fs)
  else do
    let out ← (order.apply (s.seen addr).conn).handlePayload (Backend.fs P) s.fs payload
    return (some out.reply, s.update addr out.conn out.fs)

/-- `handleData` for a datagram that resets the session. -/
def reset (s : Server κ η φ ρ) (addr : κ) (order : MapOrder) :
    Except Fault (Server κ η φ ρ) := do
  let (conn, fs) ← (order.apply (s.seen addr).conn).resetPeer (Backend.fs P) s.fs
  return s.update addr conn fs

/-- The loop body of `cleanup`. -/
def cleanup (s : Server κ η φ ρ) (addr : κ) (order : MapOrder) :
    Except Fault (Server κ η φ ρ) :=
  match s.cMap addr with
  | none => .ok s
  | some p =>
    if s.peerTimeout ≤ s.fs.world.now - p.lastSeen then do
      let (_, fs) ← (order.apply p.conn).close (Backend.fs P) s.fs
      return { s with fs := fs, cMap := Function.update s.cMap addr none }
    else .ok s

/-- The server after an event, with the reply to a request. -/
def step (s : Server κ η φ ρ) : Event κ → Except Fault (Option Reply × Server κ η φ ρ)
  | .request addr payload order => s.request P addr payload order
  | .reset addr order => do
    let s ← s.reset P addr order
    return (none, s)
  | .cleanup addr order => do
    let s ← s.cleanup P addr order
    return (none, s)
  | .wait d => .ok (none, { s with fs := s.fs.wait d })

end Server

end Udpfsd
