import Udpfsd.Base.LossyFifo
import Udpfsd.Udprdma.Progress
import Udpfsd.Udprdma.Ring

/-!
# Requests of a stop-and-wait peer

The peer numbers its payload packets from zero modulo 4096 and repeats the current one
until it is acknowledged. Both directions are lossy queues that may also repeat
datagrams. The payloads returned by the session are those of the peer, each once and in
order, however often the numbers wrap around.
-/

namespace Udpfsd.Udprdma

open LossyFifo

/-- The number acknowledged by a datagram that is nothing but the two headers, as
`sendACK` writes it. -/
def ackOf (datagram : List Byte) : Option SeqNr :=
  match parsePacket datagram with
  | .ok (.ok p) =>
    if datagram.length = headerSize + dataHeaderSize ∧ p.isAck then some p.header.seqNrAck else none
  | _ => none

/-- The number of a payload packet. -/
def numberOf (datagram : List Byte) : Option SeqNr :=
  match parsePacket datagram with
  | .ok (.ok p) => if p.payload = [] then none else some p.hdr.seqNr
  | _ => none

theorem ackOf_controlPacket (seq q : SeqNr) (ack : Bool) :
    ackOf (controlPacket seq q ack) = if ack then some q else none := by
  have hparse := parsePacket_pack seq ⟨q, if ack then dataFlagACK else 0, 0, 0⟩ []
  rw [List.append_nil] at hparse
  unfold ackOf controlPacket
  rw [hparse]
  cases ack <;> simp [Packet.isAck, dataFlagACK]

theorem length_dataPacket (seq seqAck : SeqNr) (fin : Bool) (header data : List Byte) :
    (dataPacket seq seqAck fin header data).length =
      headerSize + dataHeaderSize + header.length + (data.length + 3) / 4 * 4 := by
  simp only [dataPacket, List.length_append, Header.length_pack, DataHeader.length_pack,
    List.length_replicate]
  omega

/-- A chunk is never empty. -/
theorem Transfer.nextChunk_nonempty {t : Transfer} {data : List Byte} {c : Chunk}
    (h : t.nextChunk data = some c) (hoffset : 0 ≤ t.offset)
    (hmax : data = [] ∨ 0 < t.maxChunk) : 0 < c.header.length + c.body.length := by
  have hpos : 0 < data.length → 0 < t.maxChunk := by
    intro hlen
    rcases hmax with rfl | hmax
    · simp at hlen
    · exact hmax
  unfold Transfer.nextChunk at h
  split_ifs at h <;> cases h <;>
    simp only [List.length_take, List.length_drop, List.length_nil] <;> omega

namespace Session

theorem Cutting.long_slot {s : Session} {data : List Byte} {c : Chunk} {slot : TxPacket}
    (h : s.Cutting) (hpack : Packs s data c slot) :
    headerSize + dataHeaderSize < slot.bytes.length := by
  obtain ⟨-, hmax, hwhere⟩ := h data hpack.pending
  have hoffset : 0 ≤ s.transfer.offset := by
    rcases hwhere with ⟨h0, -⟩ | ⟨hpos, -⟩ <;> omega
  have hnonempty := Transfer.nextChunk_nonempty hpack.next hoffset hmax
  rw [hpack.bytes, length_dataPacket]
  omega

/-- Since the trace was `base`, the session has expected the number `rx` and acknowledged
nothing but the number before it; its packets in the ring are no acknowledgements. -/
structure Speaks (base : List Write) (rx : SeqNr) (resets : ℕ) (s : Session) : Prop where
  /-- What has been written since. -/
  wrote : ∃ ws, s.trace = base ++ ws ∧ Single (rx - 1) ((datagrams ws).map ackOf)
  /-- The expected number. -/
  expected : s.rxSeqExpected = rx
  /-- The number of resets. -/
  resets : s.metrics.peerResets = resets
  /-- Packets of the ring carry more than the two headers. -/
  long : ∀ p ∈ s.ring, headerSize + dataHeaderSize < p.bytes.length
  /-- The session is between two events. -/
  rest : s.Resting

variable {packets : List (List Byte)} {rx : SeqNr}

theorem single_of_long {n : SeqNr} (h : ∀ b ∈ packets, headerSize + dataHeaderSize < b.length) :
    Single n (packets.map ackOf) := by
  intro k hk
  obtain ⟨b, hb, rfl⟩ := List.mem_map.mp hk
  have hlong := h b hb
  left
  unfold ackOf
  split
  · rw [if_neg (by omega)]
  · rfl

/-- Writing packets longer than the headers acknowledges nothing. -/
theorem Speaks.batch {base : List Write} {resets : ℕ} {s : Session} (h : Speaks base rx resets s)
    (hlong : ∀ b ∈ packets, headerSize + dataHeaderSize < b.length) :
    ∃ ws, s.trace ++ batchWrites packets = base ++ ws ∧
      Single (rx - 1) ((datagrams ws).map ackOf) := by
  obtain ⟨ws, htrace, hsingle⟩ := h.wrote
  refine ⟨ws ++ batchWrites packets, by rw [htrace, List.append_assoc], ?_⟩
  rw [datagrams_append, datagrams_batchWrites, List.map_append]
  exact hsingle.append (single_of_long hlong)

/-- Packets of the ring have been written again. -/
theorem Speaks.repeats {base : List Write} {resets : ℕ} {s t : Session}
    (h : Speaks base rx resets s) (ht : s.Repeats t) (hrest : t.Resting) :
    Speaks base rx resets t where
  wrote := by
    obtain ⟨batch, htrace, hbatch⟩ := ht.trace
    rw [htrace]
    refine h.batch ?_
    intro b hb
    obtain ⟨p, hp, rfl⟩ := hbatch b hb
    exact h.long p hp
  expected := ht.rxSeqExpected.trans h.expected
  resets := ht.peerResets.trans h.resets
  long := by
    rw [ht.ring]
    exact h.long
  rest := hrest

/-- A transfer is continued, or a new one started, without anything else having been
written. -/
theorem Speaks.handleTransfer {base : List Write} {resets : ℕ} {s u t : Session}
    (h : Speaks base rx resets s) (hcut : u.Cutting) (htimer : u.closed = false → u.ack.Ok)
    (hlong : ∀ p ∈ u.ring, headerSize + dataHeaderSize < p.bytes.length)
    (htrace : u.trace = s.trace) (hexpected : u.rxSeqExpected = s.rxSeqExpected)
    (hresets : u.metrics.peerResets = s.metrics.peerResets) (ht : u.handleTransfer = .ok t) :
    Speaks base rx resets t := by
  have hrest := Resting.handleTransfer hcut htimer ht
  obtain ⟨v, batch, ⟨-, hlong, hbatch, htrace, hexpected, hresets⟩, -, rfl⟩ :=
    handleTransfer_invariant
      (P := fun v batch => v.Cutting ∧
        (∀ p ∈ v.ring, headerSize + dataHeaderSize < p.bytes.length) ∧
        (∀ b ∈ batch, headerSize + dataHeaderSize < b.length) ∧ v.trace = s.trace ∧
        v.rxSeqExpected = s.rxSeqExpected ∧ v.metrics.peerResets = s.metrics.peerResets)
      (by
        rintro v batch data c slot hpack ⟨hcut, hlong, hbatch, hframe⟩
        have hslot := hcut.long_slot hpack
        refine ⟨hcut.sent hpack, ?_, ?_, by rw [sent_eq]; exact hframe⟩
        · intro p hp
          rw [ring_sent slot c hpack.room] at hp
          rcases List.mem_append.mp hp with hp | hp
          · exact hlong p hp
          · rw [List.mem_singleton.mp hp]
            exact hslot
        · intro b hb
          rcases List.mem_append.mp hb with hb | hb
          · exact hbatch b hb
          · rw [List.mem_singleton.mp hb]
            exact hslot)
      (fun v batch data _ _ _ hv => ⟨by simp [Cutting, clearTransfer], hv.2⟩)
      ht ⟨hcut, hlong, by simp, htrace, hexpected, hresets⟩
  rw [updateAckTimer_eq] at hrest ⊢
  refine ⟨?_, hexpected.trans h.expected, hresets.trans h.resets, hlong, hrest⟩
  simp only [htrace]
  exact h.batch hbatch

theorem Speaks.onPeerAck {base : List Write} {resets : ℕ} {s t : Session}
    (h : Speaks base rx resets s) {q : SeqNr} (ht : s.onPeerAck q = .ok t) :
    Speaks base rx resets t := by
  have hrest := h.rest.onPeerAck ht
  obtain ⟨hcut, htimer⟩ := h.rest.onAck q
  have hlong : ∀ p ∈ (s.onAck q).ring, headerSize + dataHeaderSize < p.bytes.length :=
    fun p hp => h.long p ((ring_onAck s q).mem hp)
  rcases onPeerAck_cases ht with ⟨-, ht⟩ | ⟨-, rfl⟩
  · exact h.handleTransfer hcut htimer hlong (trace_onAck s q) (rxSeqExpected_onAck s q)
      (peerResets_onAck s q) ht
  · refine ⟨?_, (rxSeqExpected_onAck s q).trans h.expected,
      (peerResets_onAck s q).trans h.resets, hlong, hrest⟩
    rw [trace_onAck]
    exact h.wrote

theorem Speaks.stable (base : List Write) (rx : SeqNr) (resets : ℕ) :
    Stable (Speaks base rx resets) (fun _ => True) where
  counters := fun s m hm h => ⟨h.wrote, h.expected, hm.trans h.resets, h.long,
    resting_invariant.counters s m hm h.rest⟩
  sendACK := fun s ack h => by
    obtain ⟨ws, htrace, hsingle⟩ := h.wrote
    obtain ⟨m, hm, heq⟩ := sendACK_eq s ack
    have hrest := resting_invariant.sendACK s ack h.rest
    rw [heq] at hrest ⊢
    refine ⟨?_, h.expected, hm.trans h.resets, h.long, hrest⟩
    refine ⟨_, by rw [htrace, List.append_assoc], ?_⟩
    rw [datagrams_append, List.map_append]
    refine hsingle.append ?_
    rintro k hk
    obtain rfl : k = ackOf (controlPacket s.txSeqNr
      (if ack then s.rxSeqExpected - 1 else s.rxSeqExpected) ack) := by
      simpa [datagrams] using hk
    rw [ackOf_controlPacket, ← h.expected]
    cases ack <;> simp
  onPeerAck := fun s t q _ h ht => h.onPeerAck ht
  onPeerNack := fun s q h => h.repeats (repeats_onPeerNack s q) (h.rest.onPeerNack q)
  expire := fun s h => ⟨h.wrote, h.expected, h.resets, h.long, resting_invariant.expire s h.rest⟩
  callback := fun s i h => h.repeats (repeats_runCallback s i) (h.rest.runCallback i)

/-- A new transfer acknowledges nothing either. -/
theorem Speaks.start_transfer {base : List Write} {resets : ℕ} {s t : Session}
    (h : Speaks base rx resets s) {transfer : Transfer} (hoffset : transfer.offset = 0)
    (hmax : transfer.maxChunk = maxDataPayload ∨
      (transfer.header = [] ∧ transfer.maxChunk = (transfer.data.getD []).length))
    (ht : { s.resetSendState with transfer := transfer }.handleTransfer = .ok t) :
    Speaks base rx resets t := by
  have hempty : { s.resetSendState with transfer := transfer }.ring = [] :=
    ring_eq_nil_iff.mpr rfl
  exact h.handleTransfer (Cutting.start_transfer hoffset hmax) (fun _ => AckTimer.Ok.stop _)
    (by simp [hempty]) rfl rfl rfl ht

/-- The server's own events acknowledge nothing but the number before the expected one. -/
theorem Speaks.step_isLocal {base : List Write} {resets : ℕ} {s t : Session} {e : Event}
    (h : Speaks base rx resets s) (he : e.isLocal) (ht : s.step e = .ok t) :
    Speaks base rx resets t := by
  cases e with
  | packet data => cases he
  | reset => cases he
  | sendData payload => exact h.start_transfer rfl (Or.inr ⟨rfl, rfl⟩) ht
  | sendRawDataWithHeader header data =>
    exact h.start_transfer rfl (Or.inl (optimalChunkSize_eq _)) ht
  | sendACK ack =>
    cases ht
    exact (Speaks.stable base rx resets).sendACK s ack h
  | expire =>
    cases ht
    exact (Speaks.stable base rx resets).expire s h
  | callback i =>
    cases ht
    exact (Speaks.stable base rx resets).callback s i h
  | setResetCallback =>
    cases ht
    exact ⟨h.wrote, h.expected, h.resets, h.long, resting_invariant.setResetCallback s h.rest⟩
  | close =>
    cases ht
    have hrest := resting_invariant.close s h.rest
    revert hrest
    unfold Session.close
    split_ifs
    · exact fun _ => h
    · exact fun hrest => ⟨h.wrote, h.expected, h.resets, h.long, hrest⟩

/-- A packet that is expected, repeated or without payload does not reset the session. -/
theorem processPacket_cases {s t : Session} {p : Packet} {r : Option (List Byte)}
    (h : s.Speaks s.trace rx 0) (hp : s.processPacket p = .ok (t, r))
    (hnumber : p.payload = [] ∨ p.hdr.seqNr = rx ∨ p.hdr.seqNr = rx - 1) :
    (p.payload ≠ [] ∧ p.hdr.seqNr = rx ∧ r = some p.payload ∧ t.Speaks s.trace (rx + 1) 0) ∨
    ((p.payload = [] ∨ p.hdr.seqNr ≠ rx) ∧ r = none ∧ t.Speaks s.trace rx 0) := by
  by_cases hexpected : p.payload ≠ [] ∧ p.hdr.seqNr = rx
  · obtain ⟨hpayload, hnext⟩ := hexpected
    have hmoved : Session.Speaks s.trace (rx + 1) 0
        { s with rxSeqExpected := s.rxSeqExpected + 1 } :=
      ⟨⟨[], by simp, Single.nil⟩, by rw [h.expected], h.resets, h.long,
        resting_invariant.received s _ h.rest⟩
    obtain ⟨ht, hr⟩ := (Speaks.stable s.trace (rx + 1) 0).processPacket_expected
      (fun _ => trivial) hpayload (hnext.trans h.expected.symm) hmoved hp
    exact Or.inl ⟨hpayload, hnext, hr, ht⟩
  · have hother : p.payload = [] ∨ p.hdr.seqNr ≠ rx := by
      by_cases hpayload : p.payload = []
      · exact Or.inl hpayload
      · exact Or.inr (fun hnext => hexpected ⟨hpayload, hnext⟩)
    have hreset : ¬ s.isPeerReset p := by
      rintro ⟨hpayload, hnext, hrepeat, -⟩
      rw [h.expected] at hnext hrepeat
      rcases hnumber with hnone | hnumber | hnumber
      · exact hpayload hnone
      · exact hnext hnumber
      · exact hrepeat hnumber
    obtain ⟨ht, hr⟩ := (Speaks.stable s.trace rx 0).processPacket_unexpected
      (fun _ => trivial) (by rwa [h.expected]) hreset h hp
    exact Or.inr ⟨hother, hr, ht⟩

theorem Speaks.rebase {base : List Write} {resets : ℕ} {s : Session}
    (h : s.Speaks base rx resets) : s.Speaks s.trace rx resets :=
  ⟨⟨[], by simp, Single.nil⟩, h.expected, h.resets, h.long, h.rest⟩

/-- The acknowledgements written since the trace was `base`. -/
theorem Speaks.news {base : List Write} {resets : ℕ} {s : Session} (h : s.Speaks base rx resets) :
    Single (rx - 1) ((datagrams (s.trace.drop base.length)).map ackOf) := by
  obtain ⟨ws, htrace, hsingle⟩ := h.wrote
  rw [htrace, List.drop_left]
  exact hsingle

end Session

/-- The peer, the two queues between it and the session, and the payloads the session has
returned to its caller. -/
structure System where
  /-- The server's session. -/
  session : Session
  /-- The payloads returned by `ProcessDataPacket`, in order. -/
  returned : List (List Byte)
  /-- The index of the payload the peer is sending. -/
  current : ℕ
  /-- Datagrams on the way to the server. -/
  toServer : List (List Byte)
  /-- Datagrams on the way to the peer. -/
  toPeer : List (List Byte)

namespace System

open Session

/-- A new session, and a peer that has sent nothing. -/
def start : System := ⟨newSession, [], 0, [], []⟩

/-- The session has changed; what it wrote is on its way to the peer. -/
def served (s : System) (t : Session) : System :=
  { s with
    session := t
    toPeer := s.toPeer ++ datagrams (t.trace.drop s.session.trace.length) }

/-- The steps of the system. The payloads of the peer are not empty. -/
inductive Step (payloads : ℕ → { payload : List Byte // payload ≠ [] }) : System → System → Prop
  /-- The peer sends the current payload packet, for the first time or again. -/
  | request {s : System} {datagram : List Byte} {p : Packet} :
      parsePacket datagram = .ok (.ok p) → p.hdr.seqNr = (s.current : SeqNr) →
      p.payload = payloads s.current →
      Step payloads s { s with toServer := s.toServer ++ [datagram] }
  /-- The peer sends a datagram without payload. -/
  | control {s : System} {datagram : List Byte} :
      (∀ p, parsePacket datagram = .ok (.ok p) → p.payload = []) →
      Step payloads s { s with toServer := s.toServer ++ [datagram] }
  /-- The server drops a datagram too short to have both headers. -/
  | short {s : System} {datagram : List Byte} {rest : List (List Byte)} :
      s.toServer = datagram :: rest → datagram.length < headerSize + dataHeaderSize →
      Step payloads s { s with toServer := rest }
  /-- A datagram reaches `ProcessDataPacket`, which returns a payload or not. -/
  | receive {s : System} {datagram : List Byte} {rest : List (List Byte)} {t : Session}
      {result : Except String (Option (List Byte))} :
      s.toServer = datagram :: rest → headerSize + dataHeaderSize ≤ datagram.length →
      s.session.processDataPacket datagram = .ok (t, result) →
      Step payloads s { s.served t with
        toServer := rest
        returned := s.returned ++ (match result with | .ok (some payload) => [payload] | _ => []) }
  /-- The server sends, or its timer runs. -/
  | server {s : System} {e : Event} {t : Session} :
      e.isLocal → s.session.step e = .ok t → Step payloads s (s.served t)
  /-- The peer receives the acknowledgement of its current packet. -/
  | acknowledged {s : System} {datagram : List Byte} {rest : List (List Byte)} :
      s.toPeer = datagram :: rest → ackOf datagram = some (s.current : SeqNr) →
      Step payloads s { s with toPeer := rest, current := s.current + 1 }
  /-- The peer receives another datagram. -/
  | other {s : System} {datagram : List Byte} {rest : List (List Byte)} :
      s.toPeer = datagram :: rest → ackOf datagram ≠ some (s.current : SeqNr) →
      Step payloads s { s with toPeer := rest }
  /-- The network loses or repeats a datagram on the way to the server. -/
  | disturbToServer {s : System} {queue : List (List Byte)} :
      Disturbed s.toServer queue → Step payloads s { s with toServer := queue }
  /-- The network loses or repeats a datagram on the way to the peer. -/
  | disturbToPeer {s : System} {queue : List (List Byte)} :
      Disturbed s.toPeer queue → Step payloads s { s with toPeer := queue }

variable {payloads : ℕ → { payload : List Byte // payload ≠ [] }}

/-- The number before `c` and the number `c`, as they stand in packets. -/
theorem pred_ne (c : ℕ) : (c : SeqNr) - 1 ≠ (c : SeqNr) := by
  simp only [BitVec.natCast_eq_ofNat]
  bv_omega

/-- Which generations of packets and acknowledgements are under way: before the server
has the current payload, and from then on until the peer learns of it. -/
inductive Phase (s : System) : Prop
  | waiting : s.returned.length = s.current →
      Generations ((s.current : SeqNr) - 1) (s.current : SeqNr) (s.toServer.map numberOf) →
      Single ((s.current : SeqNr) - 1) (s.toPeer.map ackOf) → Phase s
  | answered : s.returned.length = s.current + 1 →
      Single (s.current : SeqNr) (s.toServer.map numberOf) →
      Generations ((s.current : SeqNr) - 1) (s.current : SeqNr) (s.toPeer.map ackOf) → Phase s

/-- The invariant of the system. -/
structure Inv (payloads : ℕ → { payload : List Byte // payload ≠ [] }) (s : System) : Prop where
  /-- The payloads returned so far are the first ones of the peer. -/
  returned : s.returned = (List.range s.returned.length).map (fun k => (payloads k).val)
  /-- The session expects the next one, has not been reset, and is at rest. -/
  speaks : s.session.Speaks s.session.trace (s.returned.length : SeqNr) 0
  /-- Payload packets under way are the current one or the one before. -/
  underway : ∀ datagram ∈ s.toServer, ∀ p, parsePacket datagram = .ok (.ok p) → p.payload ≠ [] →
    ∃ k, (k = s.current ∨ k + 1 = s.current) ∧ p.hdr.seqNr = (k : SeqNr) ∧ p.payload = payloads k
  /-- The generations under way. -/
  phase : s.Phase

theorem numberOf_eq {datagram : List Byte} {p : Packet}
    (hparse : parsePacket datagram = .ok (.ok p)) (hpayload : p.payload ≠ []) :
    numberOf datagram = some p.hdr.seqNr := by
  simp [numberOf, hparse, hpayload]

theorem inv_start : start.Inv payloads where
  returned := rfl
  speaks := ⟨⟨[], rfl, Single.nil⟩, rfl, rfl, by simp [start, Session.ring, newSession],
    resting_invariant.start⟩
  underway := by simp [start]
  phase := .waiting rfl ⟨by simp [start], by simp [start]⟩ Single.nil

variable {t : Session}

/-- The session writes acknowledgements of the last payload it has returned. -/
theorem Phase.served {s : System} (h : s.Phase)
    (ht : t.Speaks s.session.trace (s.returned.length : SeqNr) 0) : (s.served t).Phase := by
  have hnews := ht.news
  cases h with
  | waiting hlength hserver hpeer =>
    rw [hlength] at hnews
    refine .waiting hlength hserver ?_
    rw [System.served, List.map_append]
    exact hpeer.append hnews
  | answered hlength hserver hpeer =>
    rw [hlength] at hnews
    refine .answered hlength hserver ?_
    rw [System.served, List.map_append]
    refine hpeer.append (pred_ne _) ?_
    simpa using hnews

theorem Inv.served {s : System} (h : s.Inv payloads)
    (ht : t.Speaks s.session.trace (s.returned.length : SeqNr) 0) : (s.served t).Inv payloads :=
  ⟨h.returned, ht.rebase, h.underway, h.phase.served ht⟩

/-- The peer sends a datagram that carries the current payload or none. -/
theorem Inv.enqueue {s : System} {datagram : List Byte} (h : s.Inv payloads)
    (hnew : ∀ p, parsePacket datagram = .ok (.ok p) → p.payload ≠ [] →
      p.hdr.seqNr = (s.current : SeqNr) ∧ p.payload = payloads s.current) :
    { s with toServer := s.toServer ++ [datagram] }.Inv payloads := by
  have hsingle : Single (s.current : SeqNr) [numberOf datagram] := by
    intro k hk
    rw [List.mem_singleton.mp hk]
    unfold numberOf
    split
    · rename_i p hparse
      split_ifs with hpayload
      · exact Or.inl rfl
      · exact Or.inr (by rw [(hnew p hparse hpayload).1])
    · exact Or.inl rfl
  refine ⟨h.returned, h.speaks, ?_, ?_⟩
  · intro d hd p hparse hpayload
    rcases List.mem_append.mp hd with hd | hd
    · exact h.underway d hd p hparse hpayload
    · rw [List.mem_singleton.mp hd] at hparse
      exact ⟨s.current, Or.inl rfl, hnew p hparse hpayload⟩
  · cases h.phase with
    | waiting hlength hserver hpeer =>
      refine .waiting hlength ?_ hpeer
      rw [List.map_append]
      exact hserver.append (pred_ne _) hsingle
    | answered hlength hserver hpeer =>
      refine .answered hlength ?_ hpeer
      rw [List.map_append]
      exact hserver.append hsingle

/-- The oldest datagram on the way to the server is gone. -/
theorem Inv.tail {s : System} {datagram : List Byte} {rest : List (List Byte)}
    (h : s.Inv payloads) (hqueue : s.toServer = datagram :: rest) :
    { s with toServer := rest }.Inv payloads := by
  refine ⟨h.returned, h.speaks, ?_, ?_⟩
  · intro d hd
    exact h.underway d (by rw [hqueue]; exact List.mem_cons_of_mem _ hd)
  · cases h.phase with
    | waiting hlength hserver hpeer =>
      rw [hqueue] at hserver
      exact .waiting hlength hserver.tail hpeer
    | answered hlength hserver hpeer =>
      rw [hqueue] at hserver
      exact .answered hlength hserver.tail hpeer

/-- A payload packet under way has the expected number or the one before. -/
theorem Inv.number_cases {s : System} {datagram : List Byte} {p : Packet} (h : s.Inv payloads)
    (hmem : datagram ∈ s.toServer) (hparse : parsePacket datagram = .ok (.ok p)) :
    p.payload = [] ∨ p.hdr.seqNr = (s.returned.length : SeqNr) ∨
      p.hdr.seqNr = (s.returned.length : SeqNr) - 1 := by
  by_cases hpayload : p.payload = []
  · exact Or.inl hpayload
  have hnumber := numberOf_eq hparse hpayload
  right
  cases h.phase with
  | waiting hlength hserver _ =>
    rw [hlength]
    rcases hserver.member _ (List.mem_map_of_mem hmem) with hnone | hold | hnew
    · rw [hnumber] at hnone
      cases hnone
    · exact Or.inr (Option.some.inj (hnumber.symm.trans hold))
    · exact Or.inl (Option.some.inj (hnumber.symm.trans hnew))
  | answered hlength hserver _ =>
    rw [hlength]
    rcases hserver _ (List.mem_map_of_mem hmem) with hnone | hnew
    · rw [hnumber] at hnone
      cases hnone
    · right
      rw [Option.some.inj (hnumber.symm.trans hnew)]
      simp

/-- The expected packet is the current one, and the server answers it. -/
theorem Inv.accepted {s : System} {datagram : List Byte} {rest : List (List Byte)} {p : Packet}
    (h : s.Inv payloads) (hqueue : s.toServer = datagram :: rest)
    (hparse : parsePacket datagram = .ok (.ok p)) (hpayload : p.payload ≠ [])
    (hnext : p.hdr.seqNr = (s.returned.length : SeqNr))
    (ht : t.Speaks s.session.trace ((s.returned.length : SeqNr) + 1) 0) :
    { s.served t with toServer := rest, returned := s.returned ++ [p.payload] }.Inv payloads := by
  have hnumber := numberOf_eq hparse hpayload
  have hmem : datagram ∈ s.toServer := by simp [hqueue]
  cases h.phase with
  | answered hlength hserver _ =>
    rcases hserver _ (List.mem_map_of_mem hmem) with hnone | hnew
    · rw [hnumber] at hnone
      cases hnone
    · have heq := Option.some.inj (hnumber.symm.trans hnew)
      rw [hnext, hlength] at heq
      exact absurd heq.symm (by simp)
  | waiting hlength hserver hpeer =>
    obtain ⟨k, hk, hseq, hpay⟩ := h.underway datagram hmem p hparse hpayload
    have hcurrent : k = s.current := by
      rcases hk with rfl | hk
      · rfl
      · rw [hnext, hlength, ← hk] at hseq
        exact absurd hseq.symm (by simp)
    subst hcurrent
    rw [hlength] at hnext ht
    have hnews := ht.news
    rw [hqueue, List.map_cons, hnumber, hnext] at hserver
    refine ⟨?_, ?_, ?_, ?_⟩
    · rw [List.length_append, List.length_singleton, List.range_succ, List.map_append,
        ← h.returned, hlength, hpay]
      rfl
    · have hcast : ((s.returned ++ [p.payload]).length : SeqNr) = (s.current : SeqNr) + 1 := by
        simp [hlength]
      rw [hcast]
      exact ht.rebase
    · intro d hd
      exact h.underway d (by rw [hqueue]; exact List.mem_cons_of_mem _ hd)
    · refine .answered (by simp [System.served, hlength]) hserver.single ?_
      rw [System.served, List.map_append]
      refine (hpeer.generations (pred_ne _)).append (pred_ne _) ?_
      simpa using hnews

theorem Inv.receive {s : System} {datagram : List Byte} {rest : List (List Byte)}
    {result : Except String (Option (List Byte))} (h : s.Inv payloads)
    (hqueue : s.toServer = datagram :: rest)
    (ht : s.session.processDataPacket datagram = .ok (t, result)) :
    { s.served t with
      toServer := rest
      returned := s.returned ++
        (match result with | .ok (some payload) => [payload] | _ => []) }.Inv payloads := by
  have hsame : ∀ u : Session, u.Speaks s.session.trace (s.returned.length : SeqNr) 0 →
      { s.served u with toServer := rest, returned := s.returned ++ [] }.Inv payloads := by
    intro u hu
    rw [List.append_nil]
    exact (h.served hu).tail hqueue
  rcases processDataPacket_cases ht with ⟨err, rfl, rfl⟩ | ⟨p, payload, hparse, hp, rfl⟩
  · exact hsame _ h.speaks
  · have hnumber := h.number_cases (by simp [hqueue]) hparse
    rcases processPacket_cases h.speaks hp hnumber with
      ⟨hpayload, hnext, rfl, hu⟩ | ⟨-, rfl, hu⟩
    · exact h.accepted hqueue hparse hpayload hnext hu
    · exact hsame _ hu

/-- Every step keeps the invariant. -/
theorem Inv.step {s t : System} (h : s.Inv payloads) (hstep : Step payloads s t) :
    t.Inv payloads := by
  cases hstep with
  | request hparse hseq hpayload =>
    refine h.enqueue ?_
    intro p' hparse' _
    rw [hparse] at hparse'
    cases hparse'
    exact ⟨hseq, hpayload⟩
  | control hnone => exact h.enqueue (fun p hparse hpayload => absurd (hnone p hparse) hpayload)
  | short hqueue _ => exact h.tail hqueue
  | receive hqueue _ ht => exact h.receive hqueue ht
  | server he ht => exact h.served (h.speaks.step_isLocal he ht)
  | @acknowledged datagram rest hqueue hack =>
    -- only an answered packet is acknowledged, and then everything under way is old
    cases h.phase with
    | waiting hlength _ hpeer =>
      have hmem : datagram ∈ s.toPeer := by simp [hqueue]
      rcases hpeer _ (List.mem_map_of_mem hmem) with hnone | hold
      · rw [hack] at hnone
        cases hnone
      · exact absurd (Option.some.inj (hack.symm.trans hold)).symm (pred_ne _)
    | answered hlength hserver hpeer =>
      rw [hqueue, List.map_cons, hack] at hpeer
      have hcast : ((s.current + 1 : ℕ) : SeqNr) - 1 = (s.current : SeqNr) := by simp
      refine ⟨h.returned, h.speaks, ?_, .waiting hlength ?_ ?_⟩
      · intro d hd p hparse hpayload
        obtain ⟨k, hk, hseq, hpay⟩ := h.underway d hd p hparse hpayload
        rcases hk with rfl | hk
        · exact ⟨s.current, Or.inr rfl, hseq, hpay⟩
        · have hnumber := numberOf_eq hparse hpayload
          rcases hserver _ (List.mem_map_of_mem hd) with hnone | hnew
          · rw [hnumber] at hnone
            cases hnone
          · have heq := Option.some.inj (hnumber.symm.trans hnew)
            rw [hseq, ← hk] at heq
            exact absurd heq (by simp)
      · refine Single.generations ?_ ?_
        · exact pred_ne _
        · rw [hcast]
          exact hserver
      · rw [hcast]
        exact hpeer.single
  | @other datagram rest hqueue hack =>
    refine ⟨h.returned, h.speaks, h.underway, ?_⟩
    cases h.phase with
    | waiting hlength hserver hpeer =>
      rw [hqueue] at hpeer
      exact .waiting hlength hserver hpeer.tail
    | answered hlength hserver hpeer =>
      rw [hqueue] at hpeer
      exact .answered hlength hserver hpeer.tail
  | disturbToServer hqueue =>
    refine ⟨h.returned, h.speaks, fun d hd => h.underway d (hqueue.mem hd), ?_⟩
    cases h.phase with
    | waiting hlength hserver hpeer =>
      exact .waiting hlength (hserver.disturbed (pred_ne _) (hqueue.map _)) hpeer
    | answered hlength hserver hpeer =>
      exact .answered hlength (hserver.disturbed (hqueue.map _)) hpeer
  | disturbToPeer hqueue =>
    refine ⟨h.returned, h.speaks, h.underway, ?_⟩
    cases h.phase with
    | waiting hlength hserver hpeer =>
      exact .waiting hlength hserver (hpeer.disturbed (hqueue.map _))
    | answered hlength hserver hpeer =>
      exact .answered hlength hserver (hpeer.disturbed (pred_ne _) (hqueue.map _))

/-- The states reached from a new session and a peer that has sent nothing. -/
def Reachable (payloads : ℕ → { payload : List Byte // payload ≠ [] }) : System → Prop :=
  Transition.Reachable (· = start) (Step payloads)

/-- In every reachable state the payloads returned by the session are the first payloads
of the peer, each once and in order, and the session has never been reset. -/
theorem returned_exactly_once {s : System} (hs : Reachable payloads s) :
    s.returned = (List.range s.returned.length).map (fun k => (payloads k).val) ∧
      (s.returned.length = s.current ∨ s.returned.length = s.current + 1) ∧
      s.session.metrics.peerResets = 0 := by
  have hinv : s.Inv payloads := by
    refine Transition.Reachable.invariant ?_ ?_ hs
    · rintro s rfl
      exact inv_start
    · intro s t _ h hstep
      exact h.step hstep
  refine ⟨hinv.returned, ?_, hinv.speaks.resets⟩
  cases hinv.phase with
  | waiting hlength _ _ => exact Or.inl hlength
  | answered hlength _ _ => exact Or.inr hlength

/-- The first of two requests arrives twice. -/
theorem returned_exactly_once_of_two_requests :
    ∃ s : System, Reachable (fun k => ⟨[1, 2, 3, k], by simp⟩) s ∧ s.current = 1 ∧
      s.returned = [[1, 2, 3, 0], [1, 2, 3, 1]] ∧ s.session.metrics.peerResets = 0 := by
  have hrun : ∃ s : System, Reachable (fun k => ⟨[1, 2, 3, k], by simp⟩) s ∧ s.current = 1 ∧
      s.returned.length = 2 := by
    have hsent : Reachable (fun k => ⟨[1, 2, 3, k], by simp⟩) _ := .next (.start rfl)
      (.request (parsePacket_pack 0 ⟨0, 0, 1, 0⟩ [1, 2, 3, 0]) rfl rfl)
    have hagain := hsent.next (.request (parsePacket_pack 0 ⟨0, 0, 1, 0⟩ [1, 2, 3, 0]) rfl rfl)
    have htwice := (hagain.next (.receive rfl (by decide) rfl)).next (.receive rfl (by decide) rfl)
    have hnext := (htwice.next (.acknowledged rfl (by decide))).next
      (.request (parsePacket_pack 1 ⟨0, 0, 1, 0⟩ [1, 2, 3, 1]) rfl rfl)
    exact ⟨_, hnext.next (.receive rfl (by decide) rfl), rfl, rfl⟩
  obtain ⟨s, hs, hcurrent, hlength⟩ := hrun
  obtain ⟨hreturned, -, hresets⟩ := returned_exactly_once hs
  rw [hlength] at hreturned
  exact ⟨s, hs, hcurrent, hreturned, hresets⟩

end System

end Udpfsd.Udprdma
