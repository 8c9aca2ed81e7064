import Udpfsd.Udprdma.Progress
import Udpfsd.Udprdma.Ring

/-!
# Negative acknowledgements

A payload packet beyond the expected one is answered by a NACK with the expected number,
and a NACK of the peer asks for packets of the ring again. Both are stated against what
the two sides of the protocol rely on.
-/

namespace Udpfsd.Udprdma

open SeqSpace

namespace Session

/-- In a ring that is in order, a transfer behind its first packet is packed without a
panic. -/
theorem onPeerAck_isOk {s : Session} (hring : s.RingInv []) (hrest : s.Resting) (q : SeqNr) :
    ∃ t, s.onPeerAck q = .ok t := by
  cases hres : s.onPeerAck q with
  | ok t => exact ⟨t, rfl⟩
  | error e =>
    exfalso
    unfold onPeerAck at hres
    simp only at hres
    split_ifs at hres with hdata
    rcases Fallible.bind_eq_error.mp hres with hloop | ⟨r, -, hr⟩
    · -- the loop keeps the ring in order and the offset positive
      have hcut := (hrest.onAck q).1
      have hpos : ∀ data, (s.onAck q).transfer.data = some data →
          0 < (s.onAck q).transfer.offset := by
        intro data hdata
        rw [transfer_onAck] at hdata ⊢
        exact (hrest.pending data hdata).2.1
      obtain ⟨t, sofar, data, c, ⟨hheld, hcut, hpos⟩, hdata, hnext, hpack⟩ := transferLoop_error
        (P := fun s batch => s.RingInv batch ∧ s.Cutting ∧
          ∀ data, s.transfer.data = some data → 0 < s.transfer.offset)
        (by
          rintro s batch data c slot hpack ⟨hheld, hcut, -⟩
          refine ⟨hheld.sent hpack, hcut.sent hpack, ?_⟩
          intro data' hdata'
          rcases hcut.sent hpack data' hdata' with ⟨-, -, ⟨-, hempty, -⟩ | ⟨hpos, -⟩⟩
          · rw [ring_sent slot c hpack.room] at hempty
            simp at hempty
          · exact hpos)
        hloop ⟨hring.onAck q, hcut, hpos⟩
      obtain ⟨hheader, hbody⟩ := Transfer.nextChunk_later hnext (hpos data hdata)
      obtain ⟨-, -, hwhere⟩ := hcut data hdata
      have hsmall : t.transfer.maxChunk ≤ maxDataPayload := by
        have hoffset := hpos data hdata
        rcases hwhere with ⟨hzero, -⟩ | ⟨-, -, hsmall⟩
        · omega
        · exact hsmall
      have hfits : c.header.length + (c.body.length + 3) / 4 * 4 + 6 ≤ txPacketCapacity := by
        simp only [hheader, List.length_nil, txPacketCapacity, maxDataPayload] at hsmall ⊢
        omega
      have hroom : t.txWriteIndex + 1 ≠ t.txReadIndex := by
        have hlength := hheld.length_le
        simp only [ring, CircularBuffer.length_contents, sendWindow] at hlength
        omega
      obtain ⟨t', pkt, hok⟩ := packDataPacket_isOk c.fin hfits hroom
      rw [hok] at hpack
      cases hpack
    · cases hr

/-- In every reachable state a parsed packet is processed without a panic. -/
theorem processPacket_isOk {s : Session} (hs : s.Reachable) (p : Packet) :
    ∃ t r, s.processPacket p = .ok (t, r) := by
  have hinv := ringInv_invariant.and resting_invariant
  cases hres : s.processPacket p with
  | ok r => exact ⟨r.1, r.2, rfl⟩
  | error e =>
    obtain ⟨u, ⟨hring, hrest⟩, herr⟩ := hinv.processPacket_error
      hinv.received (fun _ => hinv.resetSession) (hinv.reachable hs) hres
    obtain ⟨t, ht⟩ := onPeerAck_isOk hring hrest p.header.seqNrAck
    rw [ht] at herr
    cases herr

/-- A gap packet is answered by a NACK, whatever else its acknowledgement does. -/
theorem processPacket_gap {s t : Session} {p : Packet} {r : Option (List Byte)}
    (hpayload : p.payload ≠ []) (hnext : p.hdr.seqNr ≠ s.rxSeqExpected)
    (hrepeat : p.hdr.seqNr ≠ s.rxSeqExpected - 1) (hzero : p.hdr.seqNr ≠ 0)
    (h : s.processPacket p = .ok (t, r)) :
    r = none ∧ t.rxSeqExpected = s.rxSeqExpected ∧
      t.metrics.peerResets = s.metrics.peerResets ∧
      ∃ batch, t.trace = s.trace ++
          [.writeTo (controlPacket s.txSeqNr s.rxSeqExpected false)] ++ batchWrites batch ∧
        (p.isAck = false ∨ s.transfer.data = none → batch = [] ∧ t.txSeqNr = s.txSeqNr) := by
  unfold processPacket at h
  rw [if_neg hpayload, if_pos hnext, if_neg hrepeat, if_neg hzero] at h
  obtain ⟨u, hu, hr⟩ := Fallible.bind_eq_ok.mp h
  cases hr
  refine ⟨rfl, ?_⟩
  unfold onPiggybackedAck at hu
  by_cases hflag : p.isAck = true
  · rw [if_pos hflag] at hu
    obtain ⟨hrx, hresets, -, batch, htrace, hquiet⟩ := onPeerAck_frame hu
    refine ⟨hrx, hresets, batch, htrace, ?_⟩
    rintro (hnot | hnone)
    · simp [hflag] at hnot
    · exact hquiet hnone
  · rw [if_neg hflag] at hu
    cases hu
    exact ⟨rfl, rfl, [], by simp [sendACK, batchWrites], fun _ => ⟨rfl, rfl⟩⟩

/-- A payload packet up to a window beyond the expected one, other than a packet with
number zero, is not accepted: the expected number stays, the peer is not taken for
restarted, and a NACK with the expected number is written before anything else. New
packets are sent only if the packet carries an acknowledgement and a transfer is pending. -/
theorem gap_is_nacked {s : Session} (hs : s.Reachable) {data : List Byte} {p : Packet}
    (hparse : parsePacket data = .ok (.ok p)) (hpayload : p.payload ≠ []) {d : ℕ}
    (hpos : 1 ≤ d) (hwindow : d < sendWindow)
    (hseq : p.hdr.seqNr = s.rxSeqExpected + (d : SeqNr))
    (hzero : s.rxSeqExpected + (d : SeqNr) ≠ 0) :
    ∃ t batch, s.processDataPacket data = .ok (t, .ok none) ∧
      t.rxSeqExpected = s.rxSeqExpected ∧ t.metrics.peerResets = s.metrics.peerResets ∧
      t.trace = s.trace ++ [.writeTo (controlPacket s.txSeqNr s.rxSeqExpected false)] ++
        batchWrites batch ∧
      (p.isAck = false ∨ s.transfer.data = none → batch = [] ∧ t.txSeqNr = s.txSeqNr) := by
  have hnext : p.hdr.seqNr ≠ s.rxSeqExpected := by
    rw [hseq]
    simp only [BitVec.natCast_eq_ofNat, sendWindow] at hwindow ⊢
    bv_omega
  have hrepeat : p.hdr.seqNr ≠ s.rxSeqExpected - 1 := by
    rw [hseq]
    simp only [BitVec.natCast_eq_ofNat, sendWindow] at hwindow ⊢
    bv_omega
  obtain ⟨t, r, ht⟩ := processPacket_isOk hs p
  obtain ⟨rfl, hrx, hresets, batch, htrace, hquiet⟩ :=
    processPacket_gap hpayload hnext hrepeat (by rwa [hseq]) ht
  exact ⟨t, batch, processDataPacket_eq hparse ht, hrx, hresets, htrace, hquiet⟩

/-- A request of four bytes as a peer sends it, without an acknowledgement. -/
def requestPacket (seq : SeqNr) : List Byte :=
  Header.pack ⟨packetData, seq⟩ ++ (DataHeader.pack ⟨0, 0, 1, 0⟩ ++ [1, 2, 3, 4])

theorem parsePacket_requestPacket (seq : SeqNr) :
    parsePacket (requestPacket seq) =
      .ok (.ok ⟨⟨packetData, seq⟩, ⟨0, 0, 1, 0⟩, [1, 2, 3, 4]⟩) :=
  parsePacket_pack seq ⟨0, 0, 1, 0⟩ [1, 2, 3, 4]

theorem gap_is_nacked_at_three :
    ∃ t batch, newSession.processDataPacket (requestPacket 3) = .ok (t, .ok none) ∧
      t.trace = [.writeTo (controlPacket 0 0 false)] ++ batchWrites batch := by
  obtain ⟨t, batch, ht, -, -, htrace, -⟩ := gap_is_nacked (.start rfl)
    (parsePacket_requestPacket 3) (by simp) (show 1 ≤ 3 by omega) (by decide) (by decide)
    (by decide)
  exact ⟨t, batch, ht, htrace⟩

theorem acceptPacket_of_not_isAck {s : Session} {p : Packet} (h : p.isAck = false) :
    s.acceptPacket p =
      .ok ({ s with rxSeqExpected := p.hdr.seqNr + 1 }.sendACK true, some p.payload) := by
  simp only [acceptPacket, onPiggybackedAck, h, Bool.false_eq_true, if_false]
  rfl

/-- The requests of a peer move the expected number to any value. -/
theorem exists_reachable_expecting (n : ℕ) : ∃ s : Session, s.Reachable ∧ s.rxSeqExpected = n := by
  induction n with
  | zero => exact ⟨newSession, .start rfl, rfl⟩
  | succ n ih =>
    obtain ⟨s, hs, hrx⟩ := ih
    have hstep : ∃ t r, s.processPacket ⟨⟨packetData, n⟩, ⟨0, 0, 1, 0⟩, [1, 2, 3, 4]⟩ = .ok (t, r) ∧
        t.rxSeqExpected = n + 1 := by
      unfold processPacket
      rw [if_neg (by simp), if_neg (fun hne => hne hrx.symm)]
      rw [acceptPacket_of_not_isAck (by simp [Packet.isAck])]
      exact ⟨_, _, rfl, rfl⟩
    obtain ⟨t, r, ht, hrx'⟩ := hstep
    exact ⟨t, .next hs ⟨_, step_packet_eq (parsePacket_requestPacket n) ht⟩,
      by rw [hrx']; push_cast; rfl⟩

set_option maxRecDepth 10000 in
/-- Number zero is taken for a restart of the peer also when the numbers have wrapped
around: the packet behind the lost packet 4095 is accepted, and the session reset. And a
gap packet with an acknowledgement continues a pending transfer. -/
theorem gap_at_wrap_resets_and_gap_ack_sends :
    (∃ s t : Session, s.Reachable ∧ s.rxSeqExpected = 4095 ∧
      (0 : SeqNr) = s.rxSeqExpected + 1 ∧
      s.processDataPacket (requestPacket 0) = .ok (t, .ok (some [1, 2, 3, 4])) ∧
      t.metrics.peerResets = s.metrics.peerResets + 1) ∧
    ∃ s t : Session, s.Reachable ∧ s.rxSeqExpected = 0 ∧
      s.processDataPacket (Header.pack ⟨packetData, 1⟩ ++
        (DataHeader.pack ⟨7, dataFlagACK, 1, 0⟩ ++ [1, 2, 3, 4])) = .ok (t, .ok none) ∧
      t.txSeqNr = s.txSeqNr + 1 := by
  constructor
  · obtain ⟨s, hs, hrx⟩ := exists_reachable_expecting 4095
    have hrx : s.rxSeqExpected = 4095 := hrx
    have hstep : ∃ t, s.processPacket ⟨⟨packetData, 0⟩, ⟨0, 0, 1, 0⟩, [1, 2, 3, 4]⟩ =
        .ok (t, some [1, 2, 3, 4]) ∧ t.metrics.peerResets = s.metrics.peerResets + 1 := by
      unfold processPacket
      rw [if_neg (by simp), if_pos (by simp [hrx]), if_neg (by simp [hrx]), if_pos rfl,
        acceptPacket_of_not_isAck (by decide)]
      refine ⟨_, rfl, ?_⟩
      obtain ⟨ws, -, heq⟩ := resetSession_eq
        { s with metrics.packetsRx := s.metrics.packetsRx + 1 }
      rw [heq]
      rfl
    obtain ⟨t, ht, hresets⟩ := hstep
    exact ⟨s, t, hs, hrx, by rw [hrx]; rfl,
      processDataPacket_eq (parsePacket_requestPacket 0) ht, hresets⟩
  · have hrun : ∃ s t, (List.replicate 7 (Event.sendData (some [1])) ++
        [Event.sendRawDataWithHeader [0, 0, 0, 0] (some (List.replicate 1405 0))]).foldlM step
          newSession = .ok s ∧ s.rxSeqExpected = 0 ∧
        s.processPacket ⟨⟨packetData, 1⟩, ⟨7, dataFlagACK, 1, 0⟩, [1, 2, 3, 4]⟩ = .ok (t, none) ∧
        t.txSeqNr = s.txSeqNr + 1 :=
      ⟨_, _, rfl, rfl, rfl, rfl⟩
    obtain ⟨s, t, hs, hrx, ht, hseq⟩ := hrun
    exact ⟨s, t, .foldlM (.start rfl) _ hs, hrx,
      processDataPacket_eq (parsePacket_pack 1 ⟨7, dataFlagACK, 1, 0⟩ [1, 2, 3, 4]) ht, hseq⟩

/-- What a peer expects of a NACK with number `q`: the packets from `q` up to the last one
are written once more, in order and as they were sent, and nothing else changes. -/
structure GoesBackTo (s : Session) (q : SeqNr) : Prop where
  /-- The packets written. -/
  written : ∃ batch, (s.onPeerNack q).trace = s.trace ++ [.writeBatch batch] ∧
    batch.map some = (List.range (s.txSeqNr - q).toNat).map
      (fun k : ℕ => lastSent s.trace (q + (k : SeqNr)))
  /-- The acknowledged number stays. -/
  acked : (s.onPeerNack q).txSeqNrAcked = s.txSeqNrAcked
  /-- The ring stays. -/
  ring : (s.onPeerNack q).ring = s.ring
  /-- The transfer stays. -/
  transfer : (s.onPeerNack q).transfer = s.transfer

theorem retransmitLoop_eq_map {q : SeqNr} {ring : List TxPacket}
    (h : ∀ p ∈ ring, (p.seq - q).toNat < 2048) :
    retransmitLoop q ring = ring.map TxPacket.bytes := by
  induction ring with
  | nil => rfl
  | cons p ps ih =>
    have hp := h p (by simp)
    have hskip : p.seq ≠ q - 1 := by bv_omega
    unfold retransmitLoop
    rw [if_neg (Nat.not_le.mpr hp), if_pos hskip, ih (fun p' hp' => h p' (by simp [hp']))]
    rfl

/-- The trace and the frame of `onPeerNack`. -/
theorem onPeerNack_trace (s : Session) (q : SeqNr) :
    (s.onPeerNack q).trace = s.trace ++ batchWrites (retransmitLoop q s.ring) ∧
      (s.onPeerNack q).txSeqNrAcked = s.txSeqNrAcked ∧ (s.onPeerNack q).ring = s.ring ∧
      (s.onPeerNack q).transfer = s.transfer := by
  obtain ⟨m, -, heq⟩ := onPeerNack_eq s q
  rw [heq, updateAckTimer_eq]
  exact ⟨rfl, rfl, rfl, rfl⟩

/-- In a ring that is in order, the packet at each place is the one last sent under the
number that lies as far behind the first one. -/
theorem RingInv.lastSent_getElem {s : Session} (h : s.RingInv []) {k : ℕ}
    (hk : k < s.ring.length) :
    lastSent s.trace (s.txSeqNr - (s.ring.length : SeqNr) + (k : SeqNr)) =
      some s.ring[k].bytes := by
  have hseq : s.ring[k].seq = s.txSeqNr - ((s.ring.length - k : ℕ) : SeqNr) := by
    have hget := h.consecutive.getElem (k := k) (by simpa using hk)
    simpa using hget
  have hnumber : s.txSeqNr - (s.ring.length : SeqNr) + (k : SeqNr) = s.ring[k].seq := by
    rw [hseq, Nat.cast_sub (Nat.le_of_lt hk)]
    abel
  have hwritten := h.written s.ring[k] (List.getElem_mem hk)
  rw [List.append_nil] at hwritten
  rw [hnumber]
  exact hwritten

/-- A NACK for the oldest packet of the ring has the whole ring written again. -/
theorem RingInv.goesBackTo_oldest {s : Session} (h : s.RingInv []) (hne : s.ring ≠ []) :
    s.GoesBackTo (s.txSeqNr - (s.ring.length : SeqNr)) := by
  have hlength := h.length_le
  obtain ⟨htrace, hacked, hring, htransfer⟩ :=
    onPeerNack_trace s (s.txSeqNr - (s.ring.length : SeqNr))
  have hall : retransmitLoop (s.txSeqNr - (s.ring.length : SeqNr)) s.ring =
      s.ring.map TxPacket.bytes := by
    apply retransmitLoop_eq_map
    intro p hp
    obtain ⟨k, hpos, hle, heq⟩ := h.consecutive.mem (List.mem_map_of_mem hp)
    simp only [List.length_map, sendWindow, BitVec.natCast_eq_ofNat] at hle hlength heq ⊢
    rw [heq]
    bv_omega
  have hcount : (s.txSeqNr - (s.txSeqNr - (s.ring.length : SeqNr))).toNat = s.ring.length := by
    simp only [sendWindow, BitVec.natCast_eq_ofNat] at hlength ⊢
    bv_omega
  refine ⟨⟨s.ring.map TxPacket.bytes, ?_, ?_⟩, hacked, hring, htransfer⟩
  · rw [htrace, hall]
    simp [batchWrites, hne]
  · rw [hcount]
    apply List.ext_getElem
    · simp
    · intro k h₁ h₂
      have hk : k < s.ring.length := by simpa using h₁
      simp only [List.getElem_map, List.getElem_range, h.lastSent_getElem hk]

/-- A NACK for a later packet of the ring has nothing written. -/
theorem RingInv.not_goesBackTo_later {s : Session} (h : s.RingInv []) {j : ℕ} (hpos : 0 < j)
    (hless : j < s.ring.length) : ¬ s.GoesBackTo (s.txSeqNr - (j : SeqNr)) := by
  rintro ⟨⟨batch, hwritten, -⟩, -⟩
  obtain ⟨htrace, -⟩ := onPeerNack_trace s (s.txSeqNr - (j : SeqNr))
  have hnothing : retransmitLoop (s.txSeqNr - (j : SeqNr)) s.ring = [] := by
    have hlength := h.length_le
    have hconsecutive := h.consecutive
    cases hring : s.ring with
    | nil => rfl
    | cons p ps =>
      rw [hring] at hconsecutive hlength hless
      have hseq := hconsecutive.1
      have hfar : 2048 ≤ (p.seq - (s.txSeqNr - (j : SeqNr))).toNat := by
        simp only [List.length_map, List.length_cons, sendWindow, BitVec.natCast_eq_ofNat]
          at hseq hlength hless ⊢
        rw [hseq]
        bv_omega
      unfold retransmitLoop
      rw [if_pos hfar]
  rw [hnothing, hwritten] at htrace
  simp [batchWrites] at htrace

/-- In every reachable state, a NACK for a packet of the ring is served exactly when that
packet is the oldest one held, the one at `txReadIndex`. -/
theorem goesBackTo_iff_oldest {s : Session} (hs : s.Reachable) {q : SeqNr}
    (hq : q ∈ s.ring.map TxPacket.seq) :
    s.GoesBackTo q ↔ q = (s.txBuffer s.txReadIndex).seq := by
  have hinv := ringInv_invariant.reachable hs
  obtain ⟨j, hpos, hle, rfl⟩ := hinv.consecutive.mem hq
  rw [List.length_map] at hle
  have hne : s.txReadIndex ≠ s.txWriteIndex := by
    intro heq
    rw [ring_eq_nil_iff.mpr heq] at hle
    simp only [List.length_nil] at hle
    omega
  have holdest : (s.txBuffer s.txReadIndex).seq = s.txSeqNr - (s.ring.length : SeqNr) := by
    have hconsecutive := hinv.consecutive
    have hcons : s.ring = s.txBuffer s.txReadIndex ::
        CircularBuffer.contents s.txBuffer (s.txReadIndex + 1) s.txWriteIndex :=
      CircularBuffer.contents_cons hne
    rw [hcons] at hconsecutive
    rw [hcons, List.length_cons]
    simpa using hconsecutive.1
  rw [holdest]
  constructor
  · intro hgoes
    by_cases hall : j = s.ring.length
    · rw [hall]
    · exact absurd hgoes (hinv.not_goesBackTo_later hpos (by omega))
  · intro heq
    rw [heq]
    exact hinv.goesBackTo_oldest (fun hnil => hne (ring_eq_nil_iff.mp hnil))

set_option maxRecDepth 10000 in
theorem goesBackTo_iff_oldest_of_two_packets :
    ∃ s, newSession.step (.sendRawDataWithHeader [0, 0, 0, 0] (some (List.replicate 1405 0))) =
      .ok s ∧ s.ring.map TxPacket.seq = [0, 1] ∧ s.GoesBackTo 0 := by
  have hrun : ∃ s, newSession.step
      (.sendRawDataWithHeader [0, 0, 0, 0] (some (List.replicate 1405 0))) = .ok s ∧
      s.ring.map TxPacket.seq = [0, 1] ∧ (0 : SeqNr) = (s.txBuffer s.txReadIndex).seq :=
    ⟨_, rfl, rfl, rfl⟩
  obtain ⟨s, hs, hring, holdest⟩ := hrun
  exact ⟨s, hs, hring,
    (goesBackTo_iff_oldest (.next (.start rfl) ⟨_, hs⟩) (by simp [hring])).mpr holdest⟩

set_option maxRecDepth 10000 in
/-- With packets 0 and 1 in the ring, a NACK for packet 1 has nothing written. -/
theorem nack_behind_oldest_ignored :
    ∃ s : Session, s.Reachable ∧ s.ring.map TxPacket.seq = [0, 1] ∧
      (s.onPeerNack 1).trace = s.trace ∧ ¬ s.GoesBackTo 1 := by
  have hrun : ∃ s, newSession.step
      (.sendRawDataWithHeader [0, 0, 0, 0] (some (List.replicate 1405 0))) = .ok s ∧
      s.ring.map TxPacket.seq = [0, 1] ∧ (s.onPeerNack 1).trace = s.trace :=
    ⟨_, rfl, rfl, rfl⟩
  obtain ⟨s, hs, hring, htrace⟩ := hrun
  refine ⟨s, .next (.start rfl) ⟨_, hs⟩, hring, htrace, ?_⟩
  rintro ⟨⟨batch, hwritten, -⟩, -⟩
  rw [htrace] at hwritten
  simp at hwritten

end Session

end Udpfsd.Udprdma
