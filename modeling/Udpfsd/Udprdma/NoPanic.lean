import Udpfsd.Udprdma.Progress
import Udpfsd.Udprdma.Ring

/-!
# A session does not panic

The ring always has room, so that only a packet too large for its slot could make the session
panic. No such packet is cut while transfers have short headers and chunks not longer than a
packet's payload, whatever the data that is cut: it may be written to meanwhile.
-/

namespace Udpfsd.Udprdma

/-- The length of the longest application header: a packet counts its words in four bits. -/
def maxHeaderSize : ℕ := 60

/-- The chunks of the transfer fit into a slot. -/
def Transfer.Sized (t : Transfer) : Prop :=
  t.maxChunk ≤ maxDataPayload ∧ t.header.length ≤ maxHeaderSize

theorem Transfer.Sized.nextChunk {t : Transfer} (h : t.Sized) {data : List Byte} {c : Chunk}
    (hnext : t.nextChunk data = some c) :
    c.header.length + (c.body.length + 3) / 4 * 4 + 6 ≤ txPacketCapacity := by
  obtain ⟨hchunk, hheader⟩ := h
  have hfirst : t.firstDataMax ≤ t.maxChunk := by
    unfold firstDataMax
    split_ifs <;> omega
  unfold Transfer.nextChunk at hnext
  simp only [maxDataPayload, maxHeaderSize, txPacketCapacity] at *
  split_ifs at hnext <;> cases hnext <;>
    simp only [List.length_take, List.length_drop, List.length_nil] <;> omega

namespace Session

variable {s t : Session}

/-- Neither the ring nor the pending transfer can make the session panic. -/
structure Calm (s : Session) : Prop where
  /-- The ring is in order. -/
  ring : s.RingInv []
  /-- The transfer. -/
  sized : s.transfer.Sized

theorem sized_sent {data : List Byte} {c : Chunk} {slot : TxPacket} (h : s.transfer.Sized)
    (_hpack : Packs s data c slot) : (s.sent slot c).transfer.Sized := by
  rw [sent_eq]
  cases c.fin with
  | true => exact ⟨h.1, Nat.zero_le _⟩
  | false => exact h

theorem sized_clearTransfer (h : s.transfer.Sized) : s.clearTransfer.transfer.Sized :=
  ⟨h.1, Nat.zero_le _⟩

theorem Calm.handleTransfer (h : s.Calm) (ht : s.handleTransfer = .ok t) : t.Calm := by
  refine ⟨h.ring.handleTransfer ht, ?_⟩
  obtain ⟨u, batch, hu, -, rfl⟩ := handleTransfer_invariant (P := fun s _ => s.transfer.Sized)
    (fun s batch data c slot hpack hs => sized_sent hs hpack)
    (fun s batch data _ _ _ hs => sized_clearTransfer hs) ht h.sized
  rw [updateAckTimer_eq]
  exact hu

/-- Every packet of the transfer has room in the ring and in its slot. -/
theorem Calm.handleTransfer_isOk (h : s.Calm) : ∃ t, s.handleTransfer = .ok t := by
  cases hres : s.handleTransfer with
  | ok t => exact ⟨t, rfl⟩
  | error e =>
    exfalso
    rcases Fallible.bind_eq_error.mp hres with hloop | ⟨r, -, hr⟩
    · obtain ⟨u, sofar, data, c, ⟨hring, hsized⟩, -, hnext, hpack⟩ := transferLoop_error
        (P := fun s batch => s.RingInv batch ∧ s.transfer.Sized)
        (fun s batch data c slot hpack hs => ⟨hs.1.sent hpack, sized_sent hs.2 hpack⟩)
        hloop ⟨h.ring, h.sized⟩
      have hroom : u.txWriteIndex + 1 ≠ u.txReadIndex := by
        have hlength := hring.length_le
        simp only [Session.ring, CircularBuffer.length_contents, sendWindow] at hlength
        omega
      obtain ⟨v, pkt, hok⟩ := packDataPacket_isOk c.fin (hsized.nextChunk hnext) hroom
      rw [hok] at hpack
      cases hpack
    · cases hr

theorem Calm.onAck (h : s.Calm) (q : SeqNr) : (s.onAck q).Calm := by
  refine ⟨h.ring.onAck q, ?_⟩
  rw [transfer_onAck]
  exact h.sized

theorem Calm.onPeerAck (h : s.Calm) {q : SeqNr} (ht : s.onPeerAck q = .ok t) : t.Calm := by
  rcases onPeerAck_cases ht with ⟨-, ht⟩ | ⟨-, rfl⟩
  · exact (h.onAck q).handleTransfer ht
  · exact h.onAck q

theorem Calm.onPeerAck_isOk (h : s.Calm) (q : SeqNr) : ∃ t, s.onPeerAck q = .ok t := by
  unfold Session.onPeerAck
  simp only
  split_ifs
  · exact (h.onAck q).handleTransfer_isOk
  · exact ⟨_, rfl⟩

theorem sized_handleAckTimeout (h : s.transfer.Sized) : s.handleAckTimeout.transfer.Sized := by
  rcases handleAckTimeout_cases s with ⟨-, -, heq⟩ | ⟨-, m, -, hrounds⟩
  · rw [heq]
    exact h
  · rcases hrounds with ⟨-, heq⟩ | ⟨-, -, heq⟩ | ⟨-, -, heq⟩
    · rw [heq]
      exact h
    · rw [heq]
      exact h
    · rw [heq]
      exact sized_clearTransfer h

/-- Kept by everything but the start of a transfer. -/
theorem calm_lasting : Lasting Calm where
  counters := fun s m hm h => ⟨ringInv_invariant.counters s m hm h.ring, h.sized⟩
  sendACK := fun s ack h => ⟨ringInv_invariant.sendACK s ack h.ring, h.sized⟩
  onPeerAck := fun s t q _ h ht => h.onPeerAck ht
  onPeerNack := fun s q h => by
    refine ⟨ringInv_invariant.onPeerNack s q h.ring, ?_⟩
    obtain ⟨m, -, heq⟩ := onPeerNack_eq s q
    rw [heq, updateAckTimer_eq]
    exact h.sized
  expire := fun s h => ⟨ringInv_invariant.expire s h.ring, h.sized⟩
  callback := fun s i h => by
    refine ⟨ringInv_invariant.callback s i h.ring, ?_⟩
    rw [runCallback_eq]
    split_ifs
    · exact sized_handleAckTimeout h.sized
    · exact h.sized
  received := fun s n h => ⟨ringInv_invariant.received s n h.ring, h.sized⟩
  resetSession := fun s h => by
    refine ⟨RingInv.resetSession s, ?_⟩
    obtain ⟨ws, -, heq⟩ := resetSession_eq s
    rw [heq]
    exact ⟨h.sized.1, Nat.zero_le _⟩
  setResetCallback := fun s h => ⟨ringInv_invariant.setResetCallback s h.ring, h.sized⟩
  close := fun s h => by
    refine ⟨ringInv_invariant.close s h.ring, ?_⟩
    unfold Session.close
    split_ifs
    · exact h.sized
    · exact h.sized

/-- A datagram with both headers is processed, whatever is in it. -/
theorem Calm.processDataPacket_isOk (h : s.Calm) {data : List Byte}
    (hlength : headerSize + dataHeaderSize ≤ data.length) :
    ∃ t r, s.processDataPacket data = .ok (t, r) ∧ t.Calm := by
  cases hres : s.processDataPacket data with
  | ok out =>
    obtain ⟨t, r⟩ := out
    refine ⟨t, r, rfl, ?_⟩
    rcases processDataPacket_cases hres with ⟨err, -, rfl⟩ | ⟨p, payload, -, hp, -⟩
    · exact h
    · exact calm_lasting.processPacket (fun _ => trivial) calm_lasting.received
        (fun _ => calm_lasting.resetSession) h hp
  | error e =>
    exfalso
    rcases Fallible.bind_eq_error.mp hres with hparse | ⟨parsed, -, hrest⟩
    · unfold parsePacket at hparse
      split at hparse
      · cases hparse
      · rw [if_neg (Nat.not_lt.mpr hlength)] at hparse
        split_ifs at hparse
        split at hparse <;> cases hparse
    · cases parsed with
      | error err => cases hrest
      | ok p =>
        rcases Fallible.bind_eq_error.mp hrest with hp | ⟨v, -, hv⟩
        · obtain ⟨u, hu, herr⟩ := calm_lasting.processPacket_error calm_lasting.received
            (fun _ => calm_lasting.resetSession) h hp
          obtain ⟨v, hv⟩ := hu.onPeerAck_isOk p.header.seqNrAck
          rw [hv] at herr
          cases herr
        · cases hv

/-- A transfer that is sized starts without a panic. -/
theorem start_isOk (s : Session) {transfer : Transfer} (h : transfer.Sized) :
    ∃ t, { s.resetSendState with transfer := transfer }.handleTransfer = .ok t ∧ t.Calm := by
  have hcalm : { s.resetSendState with transfer := transfer }.Calm :=
    ⟨RingInv.start_transfer transfer, h⟩
  obtain ⟨t, ht⟩ := hcalm.handleTransfer_isOk
  exact ⟨t, ht, hcalm.handleTransfer ht⟩

end Session

end Udpfsd.Udprdma
