import Udpfsd.Udprdma.GiveUp

/-!
# How much a session writes

A datagram of the peer can make the session write its acknowledgement, packets of the
pending transfer and packets of the ring once more; a timer can write packets of the ring
again, a few times. The rounds that the timer can still make are a reserve, filled up by
datagrams and by new transfers and used up by its callbacks, so that the datagrams written
are bounded by those received and the transfers started.
-/

namespace Udpfsd.Udprdma.Session

variable {s t : Session}

/-- The number of datagrams written. -/
def written (s : Session) : ℕ := (datagrams s.trace).length

/-- The packets that one pass over a transfer or over the ring can write. -/
def passLength : ℕ := sendWindow + 1

/-- The number of datagrams that the timer can still write by itself. -/
def reserve (s : Session) : ℕ := passLength * s.budget

/-- The ring is in order, and the attempts have not reached their limit. -/
def Bounded (s : Session) : Prop := s.RingInv [] ∧ s.retransmitAttempts < maxRetransmits

theorem bounded_invariant : Invariant Bounded := ringInv_invariant.and fewAttempts_invariant

theorem length_retransmitLoop_le (h : s.Bounded) (q : SeqNr) :
    (retransmitLoop q s.ring).length ≤ passLength := by
  have hsub := (retransmitLoop_sublist q s.ring).length_le
  rw [List.length_map] at hsub
  exact hsub.trans h.1.length_le

/-! ### One operation -/

theorem written_handleTransfer (h : s.handleTransfer = .ok t) :
    t.written ≤ s.written + passLength := by
  obtain ⟨u, batch, ⟨htrace, hlength⟩, -, rfl⟩ := handleTransfer_invariant
    (P := fun u batch => u.trace = s.trace ∧ batch.length + u.windowRoom ≤ s.windowRoom)
    (fun u batch _ c slot hpack hu => by
      have hroom := windowRoom_sent hpack
      refine ⟨by rw [sent_eq]; exact hu.1, ?_⟩
      rw [List.length_append, List.length_singleton]
      omega)
    (fun u batch _ _ _ _ hu => hu) h ⟨rfl, by simp⟩
  have hroom : s.windowRoom ≤ passLength := by
    unfold windowRoom passLength
    split_ifs <;> omega
  rw [updateAckTimer_eq]
  simp only [written, datagrams_append, datagrams_batchWrites, List.length_append, htrace]
  omega

theorem written_onPeerAck {q : SeqNr} (h : s.onPeerAck q = .ok t) :
    t.written ≤ s.written + passLength := by
  have hack : (s.onAck q).written = s.written := by
    unfold written
    rw [trace_onAck]
  rcases onPeerAck_cases h with ⟨-, ht⟩ | ⟨-, rfl⟩
  · exact hack ▸ written_handleTransfer ht
  · omega

theorem written_onPiggybackedAck {p : Packet} (h : s.onPiggybackedAck p = .ok t) :
    t.written ≤ s.written + passLength := by
  unfold onPiggybackedAck at h
  split_ifs at h
  · exact written_onPeerAck h
  · cases h
    omega

theorem written_onPeerNack (h : s.Bounded) (q : SeqNr) :
    (s.onPeerNack q).written ≤ s.written + passLength := by
  obtain ⟨m, -, heq⟩ := onPeerNack_eq s q
  have hlength := length_retransmitLoop_le h q
  rw [heq, updateAckTimer_eq]
  simp only [written, datagrams_append, datagrams_batchWrites, List.length_append]
  omega

theorem written_sendACK (s : Session) (ack : Bool) : (s.sendACK ack).written = s.written + 1 := by
  obtain ⟨m, -, heq⟩ := sendACK_eq s ack
  rw [heq]
  simp [written, datagrams]

/-- A reset writes nothing. -/
theorem written_resetSession (s : Session) : s.resetSession.written = s.written := by
  obtain ⟨ws, hws, heq⟩ := resetSession_eq s
  rw [heq]
  simp [written, hws]

theorem written_acceptPacket {p : Packet} {r : Option (List Byte)}
    (h : s.acceptPacket p = .ok (t, r)) : t.written ≤ s.written + 1 + passLength := by
  obtain ⟨u, hu, hr⟩ := Fallible.bind_eq_ok.mp h
  cases hr
  have hack := written_onPiggybackedAck hu
  rw [written_sendACK] at hack
  exact hack

/-- The most that a datagram makes the session write at once: the acknowledgement, packets of
the transfer, and the ring. -/
def receiptLength : ℕ := 1 + passLength + passLength

/-- A DATA packet is processed. -/
theorem written_processPacket {p : Packet} {r : Option (List Byte)} (hs : s.Bounded)
    (h : s.processPacket p = .ok (t, r)) : t.written ≤ s.written + receiptLength := by
  have hcount : Bounded { s with metrics.packetsRx := s.metrics.packetsRx + 1 } :=
    bounded_invariant.counters s _ (by rfl) hs
  unfold processPacket at h
  unfold receiptLength
  by_cases hpayload : p.payload = []
  · rw [if_pos hpayload] at h
    by_cases hflag : p.isAck = true
    · rw [if_pos hflag] at h
      obtain ⟨u, hu, hr⟩ := Fallible.bind_eq_ok.mp h
      cases hr
      have hwritten : t.written ≤ s.written + passLength := (written_onPeerAck hu :)
      omega
    · rw [if_neg hflag] at h
      cases h
      have hwritten := written_onPeerNack (bounded_invariant.counters _
        { s.metrics with packetsRx := s.metrics.packetsRx + 1,
                         peerNACKs := s.metrics.peerNACKs + 1 } (by rfl) hs) p.header.seqNrAck
      exact hwritten.trans (by simp only [written]; omega)
  rw [if_neg hpayload] at h
  by_cases hnext : p.hdr.seqNr = s.rxSeqExpected
  · rw [if_neg (fun hne => hne hnext)] at h
    have hwritten : t.written ≤ s.written + 1 + passLength := (written_acceptPacket h :)
    omega
  rw [if_pos hnext] at h
  by_cases hrepeat : p.hdr.seqNr = s.rxSeqExpected - 1
  · -- a repeated packet: acknowledged, and the ring is written again
    rw [if_pos hrepeat] at h
    obtain ⟨u, hu, hr⟩ := Fallible.bind_eq_ok.mp h
    cases hr
    have hbounded : u.Bounded := by
      refine bounded_invariant.onPiggybackedAck (fun _ => trivial) ?_ hu
      exact bounded_invariant.sendACK _ true (bounded_invariant.counters _ _ (by rfl) hcount)
    have hwritten : u.written ≤ s.written + 1 + passLength := by
      have hack := written_onPiggybackedAck hu
      rw [written_sendACK] at hack
      exact hack
    split_ifs
    · have hnack := written_onPeerNack hbounded (s.txSeqNrAcked + 1)
      exact hnack.trans (by omega)
    · omega
  rw [if_neg hrepeat] at h
  by_cases hzero : p.hdr.seqNr = 0
  · rw [if_pos hzero] at h
    have hwritten := written_acceptPacket h
    rw [written_resetSession] at hwritten
    exact hwritten.trans (by simp only [written]; omega)
  · rw [if_neg hzero] at h
    obtain ⟨u, hu, hr⟩ := Fallible.bind_eq_ok.mp h
    cases hr
    have hwritten : t.written ≤ s.written + 1 + passLength := by
      have hack := written_onPiggybackedAck hu
      rw [written_sendACK] at hack
      exact hack
    omega

theorem written_processDataPacket {data : List Byte} {r : Except String (Option (List Byte))}
    (hs : s.Bounded) (h : s.processDataPacket data = .ok (t, r)) :
    t.Bounded ∧ t.written ≤ s.written + receiptLength := by
  rcases processDataPacket_cases h with ⟨err, -, rfl⟩ | ⟨p, payload, -, hp, -⟩
  · exact ⟨hs, Nat.le_add_right _ _⟩
  · exact ⟨bounded_invariant.toStable.processPacket (fun _ => trivial) bounded_invariant.received
      (fun _ => bounded_invariant.resetSession) hs hp, written_processPacket hs hp⟩

/-! ### With the timer -/

/-- What has been written and what the timer can still write by itself. -/
def charged (s : Session) : ℕ := s.written + s.reserve

/-- A callback of the timer writes from the reserve. -/
theorem charged_tick (h : s.Bounded) (e : Tick) : (s.tick e).charged ≤ s.charged := by
  obtain ⟨hbudget, -⟩ := budget_tick h.2 e
  have hwritten : (s.tick e).written = s.written + ((s.round e).toList.flatten).length := by
    unfold written
    rw [(tick_frame s e).2.2.2, List.length_append]
  have hround : ((s.round e).toList.flatten).length ≤
      passLength * (s.round e).toList.length := by
    rcases tick_cases s e with ⟨hnone, -⟩ | ⟨hsome, -⟩
    · simp [hnone]
    · simpa [hsome] using length_retransmitLoop_le h (s.txSeqNrAcked + 1)
  have hreserve := Nat.mul_le_mul_left passLength hbudget
  rw [Nat.mul_add] at hreserve
  unfold charged reserve
  omega

/-- What an operation costs that may fill up the reserve. -/
theorem charged_le {n : ℕ} (h : t.written ≤ s.written + n) :
    t.charged ≤ s.charged + (n + passLength * maxRetransmits) := by
  have hreserve : t.reserve ≤ passLength * maxRetransmits := by
    unfold reserve budget
    split_ifs
    · exact Nat.zero_le _
    · exact Nat.mul_le_mul_left _ (Nat.sub_le _ _)
  unfold charged
  omega

/-- The cost of a datagram. -/
def receiptCost : ℕ := receiptLength + passLength * maxRetransmits

/-- The cost of a transfer. -/
def transferCost : ℕ := passLength + passLength * maxRetransmits

theorem charged_processDataPacket {data : List Byte} {r : Except String (Option (List Byte))}
    (hs : s.Bounded) (h : s.processDataPacket data = .ok (t, r)) :
    t.Bounded ∧ t.charged ≤ s.charged + receiptCost := by
  obtain ⟨hbounded, hwritten⟩ := written_processDataPacket hs h
  exact ⟨hbounded, charged_le hwritten⟩

theorem charged_sendData {payload : Option (List Byte)} (hs : s.Bounded)
    (h : s.sendData payload = .ok t) : t.Bounded ∧ t.charged ≤ s.charged + transferCost := by
  refine ⟨bounded_invariant.sendData s t payload hs h, charged_le ?_⟩
  unfold sendData at h
  exact (written_handleTransfer h :)

theorem charged_sendRawDataWithHeader {header : List Byte} {data : Option (List Byte)}
    (hs : s.Bounded) (h : s.sendRawDataWithHeader header data = .ok t) :
    t.Bounded ∧ t.charged ≤ s.charged + transferCost := by
  refine ⟨bounded_invariant.sendRawDataWithHeader s t header data hs h, charged_le ?_⟩
  unfold sendRawDataWithHeader at h
  exact (written_handleTransfer h :)

theorem charged_sendACK (hs : s.Bounded) (ack : Bool) :
    (s.sendACK ack).Bounded ∧ (s.sendACK ack).charged ≤ s.charged + transferCost := by
  refine ⟨bounded_invariant.sendACK s ack hs, ?_⟩
  have hreserve : (s.sendACK ack).reserve = s.reserve := rfl
  unfold charged
  rw [written_sendACK, hreserve]
  unfold transferCost passLength
  omega

/-- A closed session writes no more by itself. -/
theorem charged_close (hs : s.Bounded) : s.close.Bounded ∧ s.close.charged ≤ s.charged := by
  refine ⟨bounded_invariant.close s hs, ?_⟩
  unfold close
  split_ifs
  · exact Nat.le_refl _
  · have hwritten : Session.written { s with closed := true }.stopAckTimer = s.written := rfl
    have hreserve : Session.reserve { s with closed := true }.stopAckTimer = 0 := rfl
    rw [charged, hwritten, hreserve]
    exact Nat.le_add_right _ _

end Udpfsd.Udprdma.Session
