import Udpfsd.Fs.Host
import Udpfsd.Fs.Requests
import Udpfsd.Server.Peers

/-!
# Block writes of several clients

A client writes to the block device with a BWRITE_REQ and the WRITE_DATA messages that
follow it. Each connection remembers that it is in the middle of a write, but the chunks
are collected in one place, the write state of the device's file handle. So the chunks
of two writes at the same time are mixed, and the mixture is acknowledged to the wrong
client. As long as the chunks of a client come while the latest BWRITE_REQ is its own,
every acknowledged write has stored what its client sent, and the device holds what the
acknowledged writes store one after the other, unless a write that failed has left a part of its
data on the device.
-/

namespace Udpfsd

open Udprdma (Byte uint16)
open Udpfs Fs

variable {κ η φ ρ : Type}

/-- The write that a BWRITE_REQ starts, with the first chunk if it carries one. -/
def Fs.Write.start (payload : List Byte) : Write where
  sectorNr := longField payload
  sectorCount := uint16 (payload.drop 2)
  chunks :=
    if payload.length < 24 then [] else [(parseChunk (payload.drop 16)).chunkData]

section Handlers

variable {P : Platform η φ ρ} {D : Disk P} {c : Connection} {s : Backend η φ ρ}
  {payload chunk : List Byte} {out : Outcome (Backend η φ ρ)} {sectorSize : ℤ}
  {content : List Byte} {w : Write}

/-- The state of a write after one of its messages. -/
inductive Progressed (D : Disk P) (c : Connection) (sectorSize : ℤ) (content : List Byte)
    (w : Write) (out : Outcome (Backend η φ ρ)) : Prop
  /-- More chunks are to come. -/
  | collecting (hreply : out.reply = .ack) (hconn : out.conn = c)
      (hholds : D.Holds out.fs sectorSize content) (hw : out.fs.Collecting w)
  /-- The write has been completed or has failed. -/
  | done {result : ℤ} (hreply : out.reply = .writeDone result)
      (hconn : out.conn = c.clearWriteHandle)
      {content' : List Byte} (hholds : D.Holds out.fs sectorSize content')
      (hstored : result = 0 → content' = w.store sectorSize content)

/-- A write that fails. -/
theorem Progressed.failed {err : Error} (hreply : out.reply = .writeDone (-errToErrno err))
    (hconn : out.conn = c.clearWriteHandle) {content' : List Byte}
    (hholds : D.Holds out.fs sectorSize content') : Progressed D c sectorSize content w out := by
  have hne : -errToErrno err ≠ 0 := by
    have := errToErrno_pos err
    omega
  exact .done hreply hconn hholds fun hzero => absurd hzero hne

theorem handleChunk_device (hs : D.Holds s sectorSize content) (hw : s.Collecting w)
    (hfits : w.Fits sectorSize)
    (hturn : (parseChunk chunk).chunkNr = BitVec.ofNat 16 w.chunks.length)
    (hok : c.handleChunk (Backend.fs P) s payload blockDeviceHandle chunk = .ok out) :
    Progressed D c sectorSize content (w.add (parseChunk chunk).chunkData) out := by
  obtain ⟨⟨⟨done, err⟩, t⟩, hchunk, hok⟩ := Fallible.bind_eq_ok.mp hok
  obtain ⟨herr, ht, hwt⟩ := writeChunk_device (parseChunk chunk).chunkSize hs hw hturn hchunk
  simp only at herr
  subst herr
  cases done with
  | false =>
    cases hok
    exact .collecting rfl rfl ht hwt
  | true =>
    obtain ⟨⟨⟨n, err⟩, u⟩, hcomplete, hok⟩ := Fallible.bind_eq_ok.mp hok
    obtain ⟨hn, content', hu, hstored⟩ := completeWrite_device ht hwt hfits hcomplete
    cases err with
    | some err =>
      cases hok
      exact .failed rfl rfl hu
    | none =>
      cases hok
      simp only at hn
      subst hn
      exact .done rfl rfl hu fun _ => hstored rfl

theorem handleBwriteReq_device (hs : D.Holds s sectorSize content) (hlength : 16 ≤ payload.length)
    (hhandle : handleField payload = blockDeviceHandle)
    (hfits : (Write.start payload).Fits sectorSize)
    (hfirst : 24 ≤ payload.length → (parseChunk (payload.drop 16)).chunkNr = 0)
    (hok : c.handleBwriteReq (Backend.fs P) s payload = .ok out) :
    Progressed D (c.setWriteHandle blockDeviceHandle) sectorSize content (Write.start payload)
      out := by
  rw [Connection.handleBwriteReq, if_neg (by omega)] at hok
  obtain ⟨⟨err, t⟩, hstart, hok⟩ := Fallible.bind_eq_ok.mp hok
  simp only [hhandle] at hstart hok
  obtain ⟨ht, hcollecting⟩ := bwriteStart_device hs hstart
  cases err with
  | some err =>
    cases hok
    exact .failed rfl rfl ht
  | none =>
    simp only [Connection.handleFirstChunk] at hok
    by_cases hshort : payload.length < 24
    · rw [if_pos hshort] at hok
      cases hok
      refine .collecting rfl rfl ht ?_
      have hw := hcollecting rfl
      rwa [Write.start, if_pos hshort]
    · rw [if_neg hshort] at hok
      have hprogress := handleChunk_device ht (hcollecting rfl) hfits
        (hfirst (by omega)) hok
      rwa [Write.start, if_neg hshort]

/-- A message that comes when its connection has no write, or that is too short to be
one, is only acknowledged. -/
theorem handleWriteData_idle (hidle : payload.length < 8 ∨ c.activeWriteHandle = -1)
    (hok : c.handleWriteData (Backend.fs P) s payload = .ok out) :
    out.conn = c ∧ out.fs = s ∧ out.reply = .ack := by
  unfold Connection.handleWriteData at hok
  split_ifs at hok with hshort hnone
  · cases hok
    exact ⟨rfl, rfl, rfl⟩
  · cases hok
    exact ⟨rfl, rfl, rfl⟩
  · exact absurd hidle (by tauto)

theorem handleWriteData_device (hs : D.Holds s sectorSize content) (hw : s.Collecting w)
    (hfits : w.Fits sectorSize) (hlength : 8 ≤ payload.length)
    (hactive : c.activeWriteHandle = blockDeviceHandle)
    (hturn : (parseChunk payload).chunkNr = BitVec.ofNat 16 w.chunks.length)
    (hok : c.handleWriteData (Backend.fs P) s payload = .ok out) :
    Progressed D c sectorSize content (w.add (parseChunk payload).chunkData) out := by
  have hne : c.activeWriteHandle ≠ -1 := by
    rw [hactive]
    decide
  rw [Connection.handleWriteData, if_neg (by omega), if_neg hne, hactive] at hok
  exact handleChunk_device hs hw hfits hturn hok

end Handlers

/-- What the clients have sent and what they have been told. -/
structure BlockLedger (κ : Type) where
  /-- The content of the device at the start. -/
  initial : List Byte
  /-- The write that a client is in the middle of. -/
  current : κ → Option Write
  /-- The client that sent the latest BWRITE_REQ. -/
  latest : Option κ
  /-- The writes that were answered with WRITE_DONE and the result 0, in this order. -/
  acknowledged : List Write

namespace BlockLedger

/-- A client's write with what a message of the client adds to it. -/
def sent (L : BlockLedger κ) (addr : κ) (payload : List Byte) : Option Write :=
  match msgType payload with
  | some .bwriteReq =>
    if payload.length < 16 then L.current addr else some (.start payload)
  | some .writeData =>
    if payload.length < 8 then L.current addr
    else (L.current addr).map (fun w => w.add (parseChunk payload).chunkData)
  | _ => L.current addr

/-- The content of the device after the acknowledged writes, one after the other. -/
def content (L : BlockLedger κ) (sectorSize : ℤ) : List Byte :=
  L.acknowledged.foldl (Write.store sectorSize) L.initial

/-- The client that sent the latest BWRITE_REQ after a message. -/
def latestAfter (L : BlockLedger κ) (addr : κ) (payload : List Byte) : Option κ :=
  if msgType payload = some .bwriteReq ∧ 16 ≤ payload.length then some addr else L.latest

variable [DecidableEq κ]

/-- The ledger after a message and its reply. -/
def record (L : BlockLedger κ) (addr : κ) (payload : List Byte) (reply : Option Reply) :
    BlockLedger κ :=
  match reply with
  | some (.writeDone result) =>
    { L with
      current := Function.update L.current addr none
      latest := L.latestAfter addr payload
      acknowledged :=
        if result = 0 then L.acknowledged ++ (L.sent addr payload).toList else L.acknowledged }
  | _ =>
    { L with
      current := Function.update L.current addr (L.sent addr payload)
      latest := L.latestAfter addr payload }

end BlockLedger

/-- A message of a client, with the order of a loop over the handle cache. -/
structure Message (κ : Type) where
  /-- The client. -/
  addr : κ
  /-- The payload. -/
  payload : List Byte
  /-- The order, which no block message looks at. -/
  order : MapOrder

/-- The server with the ledger of the block writes. -/
structure BlockSystem (κ η φ ρ : Type) where
  /-- The server. -/
  server : Server κ η φ ρ
  /-- The ledger. -/
  ledger : BlockLedger κ

namespace BlockSystem

/-- A message of a write to the block device, in its turn. -/
structure InOrder (y : BlockSystem κ η φ ρ) (m : Message κ) : Prop where
  /-- It is a message of a write to the block device. -/
  block : msgType m.payload = some .writeData ∨ msgType m.payload = some .bwriteReq ∧
    ∀ h, namedHandle m.payload = some h → h = blockDeviceHandle
  /-- The chunk of a BWRITE_REQ is the first. -/
  first : msgType m.payload = some .bwriteReq → 24 ≤ m.payload.length →
    (parseChunk (m.payload.drop 16)).chunkNr = 0
  /-- The chunk of a WRITE_DATA is the next of its client's write. -/
  next : msgType m.payload = some .writeData → 8 ≤ m.payload.length →
    ∀ w, y.ledger.current m.addr = some w →
      (parseChunk m.payload).chunkNr = BitVec.ofNat 16 w.chunks.length

variable [DecidableEq κ]

/-- The system after a message. -/
def step (P : Platform η φ ρ) (y : BlockSystem κ η φ ρ) (m : Message κ) :
    Except Fault (Option Reply × BlockSystem κ η φ ρ) := do
  let (reply, server) ← y.server.request P m.addr m.payload m.order
  return (reply, ⟨server, y.ledger.record m.addr m.payload reply⟩)

/-- A WRITE_DATA comes while the latest BWRITE_REQ is of the same client, the position and length of
a BWRITE_REQ are 64-bit numbers, and a write that fails has stored nothing. -/
structure Undisturbed {P : Platform η φ ρ} (D : Disk P) (y : BlockSystem κ η φ ρ) (m : Message κ) :
    Prop where
  /-- No other client has started a write since. -/
  latest : msgType m.payload = some .writeData → y.ledger.current m.addr ≠ none →
    y.ledger.latest = some m.addr
  /-- The position and the length do not overflow. -/
  fits : msgType m.payload = some .bwriteReq → 16 ≤ m.payload.length →
    (Write.start m.payload).Fits y.server.fs.sectorSize
  /-- The host has not stored a part of what it was to write. -/
  whole : ∀ result y', y.step P m = .ok (some (.writeDone result), y') → result ≠ 0 →
    D.deviceContent y'.server.fs = D.deviceContent y.server.fs

/-- A new server, before any message. -/
def start {P : Platform η φ ρ} (D : Disk P) (fs : Backend η φ ρ) (peerTimeout : ℕ) :
    BlockSystem κ η φ ρ :=
  ⟨.new fs peerTimeout, ⟨D.deviceContent fs, fun _ => none, none, []⟩⟩

/-- The states that a server reaches by block messages in order that satisfy `guard`. -/
def Reachable {P : Platform η φ ρ} (D : Disk P)
    (guard : BlockSystem κ η φ ρ → Message κ → Prop) : BlockSystem κ η φ ρ → Prop :=
  Transition.Reachable
    (fun y => ∃ o host now fs peerTimeout, Backend.newBackend P o host now = .ok (some fs) ∧
      y = start D fs peerTimeout)
    (fun y y' => ∃ m reply, y.InOrder m ∧ guard y m ∧ y.step P m = .ok (reply, y'))

/-- The state of one client's write. -/
inductive Underway (y : BlockSystem κ η φ ρ) (addr : κ) : Prop
  /-- There is none. -/
  | idle (hcurrent : y.ledger.current addr = none)
      (hactive : (y.server.seen addr).conn.activeWriteHandle = -1)
  /-- There is one, and the device collects its chunks unless another client has started
  one since. -/
  | writing {w : Write} (hcurrent : y.ledger.current addr = some w)
      (hactive : (y.server.seen addr).conn.activeWriteHandle = blockDeviceHandle)
      (hfits : w.Fits y.server.fs.sectorSize)
      (hcollecting : y.ledger.latest = some addr → y.server.fs.Collecting w)

/-- The device holds what the acknowledged writes store one after the other, and the
clients' writes are as their connections remember. -/
structure Serial {P : Platform η φ ρ} (D : Disk P) (y : BlockSystem κ η φ ρ) : Prop where
  /-- The device. -/
  holds : D.Holds y.server.fs y.server.fs.sectorSize (y.ledger.content y.server.fs.sectorSize)
  /-- The writes. -/
  underway : ∀ addr, Underway y addr

variable {P : Platform η φ ρ} {D : Disk P} {y y' : BlockSystem κ η φ ρ} {addr : κ}
  {m : Message κ} {reply : Option Reply}

/-- A step on behalf of one client. -/
theorem Serial.update {conn : Connection} {fs : Backend η φ ρ} {L : BlockLedger κ}
    (hy : Serial D y)
    (hholds : D.Holds fs y.server.fs.sectorSize (L.content y.server.fs.sectorSize))
    (hself : Underway ⟨y.server.update addr conn fs, L⟩ addr)
    (hcurrent : ∀ a, a ≠ addr → L.current a = y.ledger.current a)
    (hlatest : ∀ a, a ≠ addr → L.latest = some a → y.ledger.latest = some a ∧ fs = y.server.fs) :
    Serial D ⟨y.server.update addr conn fs, L⟩ := by
  have hsize : fs.sectorSize = y.server.fs.sectorSize := hholds.sectorSize
  constructor
  · change D.Holds fs fs.sectorSize (L.content fs.sectorSize)
    rwa [hsize]
  · intro a
    by_cases ha : a = addr
    · exact ha ▸ hself
    have hconn : ((y.server.update addr conn fs).seen a).conn = (y.server.seen a).conn := by
      rw [Server.conn_seen_update, if_neg ha]
    cases hy.underway a with
    | idle hnone hactive => exact .idle ((hcurrent a ha).trans hnone) (by rwa [hconn])
    | writing hsome hactive hfits hcollecting =>
      refine .writing ((hcurrent a ha).trans hsome) (by rwa [hconn]) ?_ ?_
      · change Write.Fits fs.sectorSize _
        rwa [hsize]
      · intro hl
        obtain ⟨hl', rfl⟩ := hlatest a ha hl
        exact hcollecting hl'

/-- A message that is only acknowledged changes nothing. -/
theorem Serial.unchanged {c : Connection} {payload : List Byte} (hy : Serial D y)
    (hactive : c.activeWriteHandle = (y.server.seen addr).conn.activeWriteHandle)
    (hsent : y.ledger.sent addr payload = y.ledger.current addr)
    (hlatest : y.ledger.latestAfter addr payload = y.ledger.latest) :
    Serial D ⟨y.server.update addr c y.server.fs, y.ledger.record addr payload (some .ack)⟩ := by
  have hledger : y.ledger.record addr payload (some .ack) = y.ledger := by
    simp [BlockLedger.record, hsent, hlatest]
  rw [hledger]
  refine hy.update hy.holds ?_ (fun _ _ => rfl) (fun _ _ h => ⟨h, rfl⟩)
  have hconn : ((y.server.update addr c y.server.fs).seen addr).conn = c := by
    rw [Server.conn_seen_update, if_pos rfl]
  cases hy.underway addr with
  | idle hnone hidle => exact .idle hnone (by rw [hconn, hactive, hidle])
  | writing hsome hwriting hfits hcollecting =>
    exact .writing hsome (by rw [hconn, hactive, hwriting]) hfits hcollecting

/-- The system after a message with this outcome. -/
def handled (y : BlockSystem κ η φ ρ) (m : Message κ) (out : Outcome (Backend η φ ρ)) :
    BlockSystem κ η φ ρ :=
  ⟨y.server.update m.addr out.conn out.fs, y.ledger.record m.addr m.payload (some out.reply)⟩

/-- A write that is acknowledged is the latest of the ledger and on the device. -/
def Stores (D : Disk P) (y : BlockSystem κ η φ ρ) (m : Message κ) (reply : Option Reply)
    (y' : BlockSystem κ η φ ρ) : Prop :=
  reply = some (.writeDone 0) → ∃ w, y.ledger.sent m.addr m.payload = some w ∧
    y'.ledger.acknowledged = y.ledger.acknowledged ++ [w] ∧
    D.deviceContent y'.server.fs = w.store y.server.fs.sectorSize (D.deviceContent y.server.fs)

variable {out : Outcome (Backend η φ ρ)}

/-- A message of a write that no other client's write has come into. -/
theorem Serial.progressed {c : Connection} {w : Write} (hy : Serial D y)
    (hsent : y.ledger.sent m.addr m.payload = some w)
    (hlatest : y.ledger.latestAfter m.addr m.payload = some m.addr)
    (hactive : c.activeWriteHandle = blockDeviceHandle) (hfits : w.Fits y.server.fs.sectorSize)
    (hprogress : Progressed D c y.server.fs.sectorSize
      (y.ledger.content y.server.fs.sectorSize) w out)
    (hwhole : ∀ result, out.reply = .writeDone result → result ≠ 0 →
      D.deviceContent out.fs = D.deviceContent y.server.fs) :
    Serial D (y.handled m out) ∧ Stores D y m (some out.reply) (y.handled m out) := by
  have hconn : ((y.server.update m.addr out.conn out.fs).seen m.addr).conn = out.conn := by
    rw [Server.conn_seen_update, if_pos rfl]
  have hothers (a : κ) (ha : a ≠ m.addr) (L : BlockLedger κ) (hL : L.latest = some m.addr)
      (hl : L.latest = some a) : y.ledger.latest = some a ∧ out.fs = y.server.fs :=
    absurd (Option.some.inj (hl.symm.trans hL)) ha
  unfold handled
  cases hprogress with
  | collecting hreply hc hholds hw =>
    rw [hreply]
    refine ⟨hy.update hholds ?_ ?_ (fun a ha => hothers a ha _ hlatest), by simp [Stores]⟩
    · refine .writing (w := w) ?_ ?_ ?_ (fun _ => hw)
      · simp [BlockLedger.record, hsent]
      · rw [hconn, hc, hactive]
      · exact hholds.sectorSize.symm ▸ hfits
    · exact fun a ha => Function.update_of_ne ha _ _
  | @done result hreply hc content' hholds hstored =>
    have hkept (hne : result ≠ 0) : content' = y.ledger.content y.server.fs.sectorSize := by
      rw [← hholds.content, hwhole result hreply hne, hy.holds.content]
    rw [hreply]
    have hcontent : (y.ledger.record m.addr m.payload (some (.writeDone result))).content
        y.server.fs.sectorSize = content' := by
      by_cases hzero : result = 0
      · simp [BlockLedger.record, BlockLedger.content, hsent, hzero, hstored hzero]
      · simp [BlockLedger.record, BlockLedger.content, hzero, hkept hzero]
    refine ⟨hy.update (hcontent ▸ hholds) ?_ ?_ (fun a ha => hothers a ha _ hlatest), ?_⟩
    · exact .idle (by simp [BlockLedger.record]) (by rw [hconn, hc]; rfl)
    · exact fun a ha => Function.update_of_ne ha _ _
    · intro hzero
      cases hzero
      refine ⟨w, hsent, by simp [BlockLedger.record, hsent], ?_⟩
      change D.deviceContent out.fs = _
      rw [hholds.content, hy.holds.content, hstored rfl]

section Steps

variable (hy : Serial D y) (horder : y.InOrder m) (hundisturbed : y.Undisturbed D m)
include hy horder hundisturbed

/-- A BWRITE_REQ. -/
theorem bwriteReq_spec (htype : msgType m.payload = some .bwriteReq)
    (hwhole : ∀ result, out.reply = .writeDone result → result ≠ 0 →
      D.deviceContent out.fs = D.deviceContent y.server.fs)
    (hok : (m.order.apply (y.server.seen m.addr).conn).handleBwriteReq (Backend.fs P) y.server.fs
      m.payload = .ok out) :
    Serial D (y.handled m out) ∧ Stores D y m (some out.reply) (y.handled m out) := by
  by_cases hshort : m.payload.length < 16
  · rw [Connection.handleBwriteReq, if_pos hshort] at hok
    cases hok
    refine ⟨hy.unchanged rfl ?_ ?_, by simp [Stores]⟩
    · simp [BlockLedger.sent, htype, hshort]
    · rw [BlockLedger.latestAfter, if_neg (by omega)]
  · have hsent : y.ledger.sent m.addr m.payload = some (.start m.payload) := by
      simp [BlockLedger.sent, htype, hshort]
    have hfits := hundisturbed.fits htype (by omega)
    have hhandle : handleField m.payload = blockDeviceHandle := by
      rcases horder.block with hdata | ⟨-, hnamed⟩
      · simp [htype] at hdata
      · apply hnamed
        simp [namedHandle, htype, MsgType.handleLength, hshort]
    have hprogress := handleBwriteReq_device hy.holds (by omega) hhandle hfits
      (horder.first htype) hok
    exact hy.progressed hsent (by rw [BlockLedger.latestAfter, if_pos ⟨htype, by omega⟩]) rfl hfits
      hprogress hwhole

/-- A WRITE_DATA. -/
theorem writeData_spec (htype : msgType m.payload = some .writeData)
    (hwhole : ∀ result, out.reply = .writeDone result → result ≠ 0 →
      D.deviceContent out.fs = D.deviceContent y.server.fs)
    (hok : (m.order.apply (y.server.seen m.addr).conn).handleWriteData (Backend.fs P) y.server.fs
      m.payload = .ok out) :
    Serial D (y.handled m out) ∧ Stores D y m (some out.reply) (y.handled m out) := by
  have hlatest : y.ledger.latestAfter m.addr m.payload = y.ledger.latest := by
    rw [BlockLedger.latestAfter, if_neg (by simp [htype])]
  have hidle (hidle : m.payload.length < 8 ∨
      (m.order.apply (y.server.seen m.addr).conn).activeWriteHandle = -1)
      (hsent : y.ledger.sent m.addr m.payload = y.ledger.current m.addr) :
      Serial D (y.handled m out) ∧ Stores D y m (some out.reply) (y.handled m out) := by
    obtain ⟨hconn, hfs, hreply⟩ := handleWriteData_idle hidle hok
    rw [handled, hconn, hfs, hreply]
    exact ⟨hy.unchanged rfl hsent hlatest, by simp [Stores]⟩
  by_cases hshort : m.payload.length < 8
  · exact hidle (Or.inl hshort) (by simp [BlockLedger.sent, htype, hshort])
  cases hy.underway m.addr with
  | idle hcurrent hactive =>
    exact hidle (Or.inr hactive) (by simp [BlockLedger.sent, htype, hcurrent])
  | @writing w hcurrent hactive hfits hcollecting =>
    have hown := hundisturbed.latest htype (by simp [hcurrent])
    have hsent : y.ledger.sent m.addr m.payload =
        some (w.add (parseChunk m.payload).chunkData) := by
      simp [BlockLedger.sent, htype, hshort, hcurrent]
    have hactive' : (m.order.apply (y.server.seen m.addr).conn).activeWriteHandle =
        blockDeviceHandle := hactive
    have hprogress := handleWriteData_device hy.holds (hcollecting hown) hfits (by omega) hactive'
      (horder.next htype (by omega) w hcurrent) hok
    exact hy.progressed hsent (hlatest.trans hown) hactive' hfits hprogress hwhole

/-- Every message in order. -/
theorem step_spec (hok : y.step P m = .ok (reply, y')) : Serial D y' ∧ Stores D y m reply y' := by
  have hwhole := hundisturbed.whole
  rw [hok] at hwhole
  obtain ⟨⟨r, server⟩, hserver, hok⟩ := Fallible.bind_eq_ok.mp hok
  cases hok
  simp only [Server.request] at hserver
  split_ifs at hserver with hempty
  · -- an empty payload is no block message
    rcases horder.block with htype | ⟨htype, -⟩ <;> rw [hempty] at htype <;> cases htype
  obtain ⟨out, hhandle, hserver⟩ := Fallible.bind_eq_ok.mp hserver
  cases hserver
  replace hwhole (result : ℤ) (hreply : out.reply = .writeDone result) (hne : result ≠ 0) :
      D.deviceContent out.fs = D.deviceContent y.server.fs :=
    hwhole result _ (by rw [hreply]) hne
  unfold Connection.handlePayload at hhandle
  rcases horder.block with htype | ⟨htype, -⟩
  · rw [htype] at hhandle
    exact writeData_spec hy horder hundisturbed htype hwhole hhandle
  · rw [htype] at hhandle
    exact bwriteReq_spec hy horder hundisturbed htype hwhole hhandle

end Steps

/-- The system after a message whose reply is dropped. -/
def advance (P : Platform η φ ρ) (y : BlockSystem κ η φ ρ) (m : Message κ) :
    Except Fault (BlockSystem κ η φ ρ) :=
  Prod.snd <$> y.step P m

/-- What is seen of the last message of a run. -/
def after {β : Type} (D : Disk P) (o : Options) (host : η) (messages : List (Message κ))
    (last : Message κ) (view : BlockSystem κ η φ ρ → Option Reply → BlockSystem κ η φ ρ → β) :
    Option β :=
  Backend.observe P o host (start D · defaultPeerTimeout) (advance P) messages
    (fun y => y.step P last) (fun y r => view y r.1 r.2)

end BlockSystem

/-- A host with a device of three sectors of four bytes. -/
def deviceHost : Host := ⟨[(Path.ascii ['/', 'd'], .file 0)], fun _ => List.replicate 12 0, 1⟩

/-- The device is served. -/
def serveDevice : Options := ⟨[], Path.ascii ['/', 'd'], 4, false, false, 0⟩

/-- A client starts a write of one sector in two chunks of two bytes. -/
def startWrite (addr : Bool) (sectorNr byte : Byte) : Message Bool :=
  ⟨addr, [0x2A, 0, 1, 0, 0, 0, 0, 0, sectorNr, 0, 0, 0, 0, 0, 0, 0] ++
    [0, 0, 0, 0, 2, 0, 2, 0, byte, byte], .stored⟩

/-- A client sends its second chunk. -/
def secondChunk (addr : Bool) (byte : Byte) : Message Bool :=
  ⟨addr, [0x17, 0, 1, 0, 2, 0, 2, 0, byte, byte], .stored⟩

/-- A client writes four bytes to sector `2 ^ 62`. -/
def farWrite : Message Bool :=
  ⟨true, [0x2A, 0, 1, 0, 0, 0, 0, 0, 0, 0, 0, 0, 0, 0, 0, 0x40] ++
    [0, 0, 0, 0, 4, 0, 1, 0, 1, 1, 1, 1], .stored⟩

/-- A client writes two sectors from the last one on. -/
def longWrite : Message Bool :=
  ⟨true, [0x2A, 0, 2, 0, 0, 0, 0, 0, 2, 0, 0, 0, 0, 0, 0, 0] ++
    [0, 0, 0, 0, 8, 0, 1, 0, 1, 1, 1, 1, 1, 1, 1, 1], .stored⟩

namespace BlockSystem

variable {P : Platform η φ ρ} {D : Disk P}

/-- The write of the first client before the last message, the reply to that message,
the sector size, the content of the device, and the ledger's view of it. -/
def glimpse (D : Disk P) (y : BlockSystem Bool η φ ρ) (reply : Option Reply)
    (y' : BlockSystem Bool η φ ρ) :
    Option Write × Option Reply × ℤ × List Byte × List Byte × List Write :=
  (y.ledger.current true, reply, y'.server.fs.sectorSize, D.deviceContent y'.server.fs,
    y'.ledger.initial, y'.ledger.acknowledged)

/-- A complete BWRITE_REQ to the block device, whose chunk is the first. -/
def Starts (m : Message κ) : Prop :=
  msgType m.payload = some .bwriteReq ∧ namedHandle m.payload = some blockDeviceHandle ∧
    (parseChunk (m.payload.drop 16)).chunkNr = 0

instance (m : Message κ) : Decidable (Starts m) := by
  unfold Starts
  infer_instance

theorem InOrder.of_starts {m : Message κ} (h : Starts m) (y : BlockSystem κ η φ ρ) :
    y.InOrder m := by
  obtain ⟨htype, hnamed, hfirst⟩ := h
  refine ⟨Or.inr ⟨htype, ?_⟩, fun _ _ => hfirst, ?_⟩
  · intro k hk
    cases hnamed.symm.trans hk
    rfl
  · intro hdata
    rw [htype] at hdata
    cases hdata

variable {y : BlockSystem Bool η φ ρ}

theorem secondChunk_inOrder {addr : Bool} {w : Write} (byte : Byte)
    (hcurrent : y.ledger.current addr = some w) (hlength : w.chunks.length = 1) :
    y.InOrder (secondChunk addr byte) := by
  refine ⟨Or.inl rfl, (fun htype => by cases htype), ?_⟩
  intro _ _ w' hw'
  cases hcurrent.symm.trans hw'
  rw [hlength]
  change (1 : Byte).setWidth 16 ||| (0 : Byte).setWidth 16 <<< 8 = 1
  decide

/-- A BWRITE_REQ that is not answered with a failure. -/
theorem Undisturbed.of_startWrite {y' : BlockSystem Bool η φ ρ} {addr : Bool} {sectorNr byte : Byte}
    (hfits : (Write.start (startWrite addr sectorNr byte).payload).Fits y.server.fs.sectorSize)
    (hok : y.step P (startWrite addr sectorNr byte) = .ok (some .ack, y')) :
    y.Undisturbed D (startWrite addr sectorNr byte) := by
  refine ⟨(fun htype => by cases htype), fun _ _ => hfits, ?_⟩
  intro result y'' hok'
  cases hok.symm.trans hok'

/-- A second chunk after its first that is not answered with a failure. -/
theorem Undisturbed.of_secondChunk {y' : BlockSystem Bool η φ ρ} {addr : Bool} {byte : Byte}
    (hlatest : y.ledger.latest = some addr)
    (hok : y.step P (secondChunk addr byte) = .ok (some (.writeDone 0), y')) :
    y.Undisturbed D (secondChunk addr byte) := by
  refine ⟨fun _ _ => hlatest, (fun htype => by cases htype), ?_⟩
  intro result y'' hok' hne
  cases hok.symm.trans hok'
  exact absurd rfl hne

/-- A run of BWRITE_REQs. -/
theorem reachable_of_starts {o : Options} {host : η} {fs : Backend η φ ρ}
    {messages : List (Message Bool)} (hstarts : ∀ m ∈ messages, Starts m)
    (hnew : Backend.newBackend P o host 0 = .ok (some fs))
    (hrun : messages.foldlM (advance P) (start D fs defaultPeerTimeout) = .ok y) :
    Reachable D (fun _ _ => True) y := by
  refine Transition.Reachable.foldlM ?_
    (.start ⟨_, _, _, fs, defaultPeerTimeout, hnew, rfl⟩) hrun
  intro m hm y y' hstep
  obtain ⟨r, hstep⟩ := Fallible.map_snd_eq_ok.mp hstep
  exact ⟨m, r, .of_starts (hstarts m hm) y, trivial, hstep⟩

end BlockSystem

end Udpfsd
