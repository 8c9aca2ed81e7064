import Udpfsd.Udprdma.Receive

/-!
# What each session operation changes

For every operation of the sending side one lemma lists the fields it may change and
what it writes. Invariants are proved from these lemmas and never unfold an operation.
-/

namespace Udpfsd.Udprdma

/-- The effect of `writeBatch`: an empty batch is not written. -/
def batchWrites (batch : List (List Byte)) : List Write :=
  if batch = [] then [] else [.writeBatch batch]

@[simp] theorem datagrams_append (ws vs : List Write) :
    datagrams (ws ++ vs) = datagrams ws ++ datagrams vs := by
  induction ws with
  | nil => rfl
  | cons w ws ih => cases w <;> simp [datagrams, ih]

@[simp] theorem datagrams_batchWrites (batch : List (List Byte)) :
    datagrams (batchWrites batch) = batch := by
  unfold batchWrites
  by_cases hbatch : batch = []
  · simp [hbatch, datagrams]
  · simp [hbatch, datagrams]

/-- Only packets of the ring are sent again. -/
theorem retransmitLoop_subset {q : SeqNr} {ring : List TxPacket} :
    ∀ b ∈ retransmitLoop q ring, ∃ p ∈ ring, p.bytes = b := by
  induction ring with
  | nil => simp [retransmitLoop]
  | cons p ps ih =>
    intro b hb
    unfold retransmitLoop at hb
    split_ifs at hb with hfar hskip
    · cases hb
    · rcases List.mem_cons.mp hb with rfl | hb
      · exact ⟨p, by simp, rfl⟩
      · obtain ⟨p', hp', heq⟩ := ih b hb
        exact ⟨p', by simp [hp'], heq⟩
    · obtain ⟨p', hp', heq⟩ := ih b hb
      exact ⟨p', by simp [hp'], heq⟩

namespace Session

theorem writeBatch_eq (s : Session) (batch : List (List Byte)) :
    s.writeBatch batch = { s with trace := s.trace ++ batchWrites batch } := by
  unfold writeBatch batchWrites
  by_cases hbatch : batch = []
  · simp [hbatch]
  · simp [hbatch]

/-- Updating the timer changes nothing else. -/
theorem updateAckTimer_eq (s : Session) :
    s.updateAckTimer = { s with ack := s.updateAckTimer.ack } := by
  unfold updateAckTimer
  split_ifs <;> rfl

/-- Updating the timer stops or arms it. -/
theorem ack_updateAckTimer (s : Session) :
    s.updateAckTimer.ack = s.ack.stop ∨ s.updateAckTimer.ack = s.ack.arm s.finPending := by
  unfold updateAckTimer
  split_ifs
  · exact Or.inl rfl
  · exact Or.inr rfl
  · exact Or.inl rfl

/-- The raw distance from the last acknowledged to the last sent packet, which is what
`InFlight` reports while the ring holds a packet. -/
def unacked (s : Session) : ℕ := (s.txSeqNr - s.txSeqNrAcked - 1).toNat

theorem ring_eq_nil_iff {s : Session} : s.ring = [] ↔ s.txReadIndex = s.txWriteIndex :=
  CircularBuffer.contents_eq_nil_iff

/-- `InFlight` in terms of the ring. -/
theorem inFlight_eq (s : Session) : s.inFlight = if s.ring = [] then 0 else s.unacked := by
  unfold inFlight unacked
  by_cases hring : s.txReadIndex = s.txWriteIndex
  · rw [if_pos hring, if_pos (ring_eq_nil_iff.mpr hring)]
  · rw [if_neg hring, if_neg (fun h => hring (ring_eq_nil_iff.mp h))]

private theorem layout_slice (b : Buffer Byte) (h d header data : List Byte) (k : ℕ)
    (hh : h.length = headerSize) (hd : d.length = dataHeaderSize) :
    let off := headerSize + dataHeaderSize
    let pkt := (((b.copy 0 h).copy headerSize d).copy off header).copy (off + header.length) data
    let pkt := if data.length + k ≠ data.length then
      pkt.fill (off + header.length + data.length) (off + header.length + (data.length + k)) 0
      else pkt
    pkt.slice (header.length + (data.length + k) + headerSize + dataHeaderSize) =
      h ++ (d ++ (header ++ (data ++ List.replicate k 0))) := by
  intro off pkt₀ pkt
  have h₁ : (b.copy 0 h).slice headerSize = h := by
    have hslice := Buffer.slice_copy b 0 h
    simpa [hh, Buffer.slice] using hslice
  have h₂ : ((b.copy 0 h).copy headerSize d).slice off = h ++ d := by
    have hslice := Buffer.slice_copy (b.copy 0 h) headerSize d
    rwa [hd, h₁] at hslice
  have h₃ : (((b.copy 0 h).copy headerSize d).copy off header).slice (off + header.length) =
      h ++ d ++ header := by
    rw [Buffer.slice_copy, h₂]
  have h₄ : pkt₀.slice (off + header.length + data.length) = h ++ d ++ header ++ data := by
    rw [Buffer.slice_copy, h₃]
  have h₅ : pkt.slice (off + header.length + data.length + k) =
      h ++ d ++ header ++ data ++ List.replicate k 0 := by
    by_cases hk : k = 0
    · subst hk
      simpa [pkt] using h₄
    · have hne : data.length + k ≠ data.length := by omega
      simp only [pkt, if_pos hne]
      rw [← Nat.add_assoc, Buffer.slice_fill, h₄]
  have hsize : header.length + (data.length + k) + headerSize + dataHeaderSize =
      off + header.length + data.length + k := by
    simp only [off]
    omega
  rw [hsize, h₅]
  simp only [List.append_assoc]

/-- The session after a packet has been placed into the slot at the write index. -/
def packed (s : Session) (slot : TxPacket) (fin : Bool) : Session :=
  { s with
    txBuffer := Function.update s.txBuffer s.txWriteIndex slot
    txWriteIndex := s.txWriteIndex + 1
    txSeqNr := s.txSeqNr + 1
    metrics.packetsTx := s.metrics.packetsTx + 1
    finPending := fin || s.finPending
    retransmitAttempts := if fin then 0 else s.retransmitAttempts }

/-- A successful `packDataPacket` fills one slot with the packet it returns, whatever
the slot held before, and advances the write index without meeting the read index. -/
theorem packDataPacket_ok {s s' : Session} {header data pkt : List Byte} {fin : Bool}
    (h : s.packDataPacket header data fin = .ok (s', pkt)) :
    header.length + (data.length + 3) / 4 * 4 + 6 ≤ txPacketCapacity ∧
      s.txWriteIndex + 1 ≠ s.txReadIndex ∧
      pkt = dataPacket s.txSeqNr (s.rxSeqExpected - 1) fin header data ∧
      ∃ slot : TxPacket, slot.seq = s.txSeqNr ∧ slot.bytes = pkt ∧ s' = s.packed slot fin := by
  unfold packDataPacket at h
  obtain ⟨k, hk⟩ : ∃ k, (data.length + 3) / 4 * 4 = data.length + k :=
    ⟨(data.length + 3) / 4 * 4 - data.length, by omega⟩
  simp only [hk] at h
  split at h
  · cases h
  · rename_i hsize
    split at h
    · cases h
    · rename_i hroom
      have hcap : header.length + (data.length + 3) / 4 * 4 + 6 ≤ txPacketCapacity := by
        simp only [headerSize, dataHeaderSize] at hsize
        omega
      simp only [Except.ok.injEq, Prod.mk.injEq] at h
      obtain ⟨hs, hpkt⟩ := h
      refine ⟨hcap, hroom, ?_, _, rfl, hpkt, ?_⟩
      · rw [← hpkt, TxPacket.bytes]
        have hlay := layout_slice (s.txBuffer s.txWriteIndex).data
          (Header.pack ⟨packetData, s.txSeqNr⟩)
          (DataHeader.pack ⟨s.rxSeqExpected - 1,
            if fin then dataFlagACK ||| dataFlagFIN else dataFlagACK,
            BitVec.ofNat 4 (header.length / 4), BitVec.ofNat 14 (data.length + k)⟩)
          header data k rfl rfl
        simp only [dataPacket, hk, Nat.add_sub_cancel_left]
        exact hlay
      · rw [← hs]
        cases fin <;> rfl

/-- A packet whose application header and padded data fit into a slot, in a ring with
room, is packed. -/
theorem packDataPacket_isOk {s : Session} {header data : List Byte} (fin : Bool)
    (hsize : header.length + (data.length + 3) / 4 * 4 + 6 ≤ txPacketCapacity)
    (hroom : s.txWriteIndex + 1 ≠ s.txReadIndex) :
    ∃ s' pkt, s.packDataPacket header data fin = .ok (s', pkt) := by
  have hfit : ¬ txPacketCapacity < header.length + (data.length + 3) / 4 * 4 + headerSize +
      dataHeaderSize := by
    simp only [headerSize, dataHeaderSize]
    omega
  unfold packDataPacket
  rw [if_neg hfit, if_neg hroom]
  exact ⟨_, _, rfl⟩

/-- A packet that does not fit into a slot. -/
theorem packDataPacket_oversized {s : Session} {header data : List Byte} (fin : Bool)
    (hsize : ¬ header.length + (data.length + 3) / 4 * 4 + 6 ≤ txPacketCapacity) :
    s.packDataPacket header data fin = .error .sliceBounds := by
  have hbig : txPacketCapacity < header.length + (data.length + 3) / 4 * 4 + headerSize +
      dataHeaderSize := by
    simp only [headerSize, dataHeaderSize]
    omega
  unfold packDataPacket
  rw [if_pos hbig]

/-- A packet for a ring without room. -/
theorem packDataPacket_full {s : Session} {header data : List Byte} (fin : Bool)
    (hsize : header.length + (data.length + 3) / 4 * 4 + 6 ≤ txPacketCapacity)
    (hfull : s.txWriteIndex + 1 = s.txReadIndex) :
    s.packDataPacket header data fin = .error .ringFull := by
  have hfit : ¬ txPacketCapacity < header.length + (data.length + 3) / 4 * 4 + headerSize +
      dataHeaderSize := by
    simp only [headerSize, dataHeaderSize]
    omega
  unfold packDataPacket
  rw [if_neg hfit, if_pos hfull]

/-- The only panic of `packDataPacket` besides an oversized packet is a full ring. -/
theorem packDataPacket_ringFull {s : Session} {header data : List Byte} {fin : Bool}
    (h : s.packDataPacket header data fin = .error .ringFull) :
    s.txWriteIndex + 1 = s.txReadIndex := by
  by_contra hroom
  by_cases hsize : header.length + (data.length + 3) / 4 * 4 + 6 ≤ txPacketCapacity
  · obtain ⟨s', pkt, hok⟩ := packDataPacket_isOk fin hsize hroom
    rw [hok] at h
    cases h
  · rw [packDataPacket_oversized fin hsize] at h
    cases h

private theorem contents_pruneLoop (slots : Fin 2048 → TxPacket) (q : SeqNr) (write : Fin 2048)
    (ps : List TxPacket) (read : Fin 2048) (hps : CircularBuffer.contents slots read write = ps) :
    CircularBuffer.contents slots (pruneLoop q ps read) write =
      ps.dropWhile (fun p => 2048 ≤ (p.seq - q - 1).toNat) := by
  induction ps generalizing read with
  | nil => simpa [pruneLoop] using hps
  | cons p ps ih =>
    have hne : read ≠ write := by
      intro heq
      rw [CircularBuffer.contents_eq_nil_iff.mpr heq] at hps
      cases hps
    have hcons := hps
    rw [CircularBuffer.contents_cons hne] at hcons
    have hrest := (List.cons.inj hcons).2
    unfold pruneLoop
    by_cases hkeep : (p.seq - q - 1).toNat < 2048
    · rw [if_pos hkeep, hps, List.dropWhile_cons_of_neg (by simpa using hkeep)]
    · rw [if_neg hkeep, List.dropWhile_cons_of_pos (by simpa using hkeep)]
      exact ih (read + 1) hrest

section Acks

variable (s : Session) (q : SeqNr)

/-- `pruneAcked` discards packets from the front of the ring. -/
theorem ring_pruneAcked :
    (s.pruneAcked q).ring = s.ring.dropWhile (fun p => 2048 ≤ (p.seq - q - 1).toNat) :=
  contents_pruneLoop s.txBuffer q s.txWriteIndex s.ring s.txReadIndex rfl

/-- `retransmitFrom` writes what its scan of the ring collects. -/
theorem retransmitFrom_eq :
    ∃ m, m.peerResets = s.metrics.peerResets ∧ (s.retransmitFrom q).1 =
      { s with metrics := m, trace := s.trace ++ batchWrites (retransmitLoop q s.ring) } := by
  simp only [retransmitFrom, writeBatch_eq]
  refine ⟨_, ?_, rfl⟩
  rfl

/-- `onPeerNack` writes what the scan of the ring collects and touches neither the ring,
the sequence numbers nor the transfer. -/
theorem onPeerNack_eq :
    ∃ m, m.peerResets = s.metrics.peerResets ∧ s.onPeerNack q =
      { s with
        retransmitAttempts := 0
        metrics := m
        trace := s.trace ++ batchWrites (retransmitLoop q s.ring) }.updateAckTimer := by
  obtain ⟨m, hresets, hm⟩ := retransmitFrom_eq { s with retransmitAttempts := 0 } q
  have hnack : s.onPeerNack q =
      ({ s with retransmitAttempts := 0 }.retransmitFrom q).1.updateAckTimer := rfl
  rw [hnack, hm]
  exact ⟨m, hresets, rfl⟩

/-- `onAck` ignores an acknowledgement outside the range of sent packets, and otherwise
records it and prunes the ring. -/
theorem onAck_cases :
    s.onAck q = s ∨
    (s.ring ≠ [] ∧ seqBetween s.txSeqNrAcked q (s.txSeqNr - 1) = true ∧
      ∃ a, (a = s.ack.stop ∨ a = s.ack.arm s.finPending) ∧ s.onAck q =
        { s with
          txSeqNrAcked := q
          txReadIndex := pruneLoop q s.ring s.txReadIndex
          retransmitAttempts := 0
          finPending := if q = s.txSeqNr - 1 then false else s.finPending
          ack := a }) := by
  unfold onAck
  by_cases hempty : s.txReadIndex = s.txWriteIndex
  · left
    rw [if_pos hempty]
  by_cases hbetween : seqBetween s.txSeqNrAcked q (s.txSeqNr - 1) = true
  · right
    refine ⟨fun h => hempty (ring_eq_nil_iff.mp h), hbetween, ?_⟩
    by_cases hlast : q = s.txSeqNr - 1
    · refine ⟨s.ack.stop, Or.inl rfl, ?_⟩
      simp only [if_neg hempty, hbetween, Bool.not_true, Bool.false_eq_true, if_false, if_pos hlast]
      rfl
    · simp only [if_neg hempty, hbetween, Bool.not_true, Bool.false_eq_true, if_false, if_neg hlast]
      refine ⟨_, ?_, updateAckTimer_eq _⟩
      exact ack_updateAckTimer _
  · left
    simp only [if_neg hempty, hbetween, Bool.not_false, if_true]

@[simp] theorem rxSeqExpected_onAck : (s.onAck q).rxSeqExpected = s.rxSeqExpected := by
  rcases onAck_cases s q with heq | ⟨-, -, a, -, heq⟩ <;> rw [heq]

@[simp] theorem peerResets_onAck : (s.onAck q).metrics.peerResets = s.metrics.peerResets := by
  rcases onAck_cases s q with heq | ⟨-, -, a, -, heq⟩ <;> rw [heq]

@[simp] theorem resetCallback_onAck : (s.onAck q).resetCallback = s.resetCallback := by
  rcases onAck_cases s q with heq | ⟨-, -, a, -, heq⟩ <;> rw [heq]

@[simp] theorem closed_onAck : (s.onAck q).closed = s.closed := by
  rcases onAck_cases s q with heq | ⟨-, -, a, -, heq⟩ <;> rw [heq]

@[simp] theorem transfer_onAck : (s.onAck q).transfer = s.transfer := by
  rcases onAck_cases s q with heq | ⟨-, -, a, -, heq⟩ <;> rw [heq]

@[simp] theorem txSeqNr_onAck : (s.onAck q).txSeqNr = s.txSeqNr := by
  rcases onAck_cases s q with heq | ⟨-, -, a, -, heq⟩ <;> rw [heq]

@[simp] theorem trace_onAck : (s.onAck q).trace = s.trace := by
  rcases onAck_cases s q with heq | ⟨-, -, a, -, heq⟩ <;> rw [heq]

/-- Acknowledged packets leave the front. -/
theorem ring_onAck : (s.onAck q).ring <:+ s.ring := by
  rcases onAck_cases s q with heq | ⟨-, -, a, -, heq⟩
  · simp [heq]
  · have hprune : (s.onAck q).ring = s.ring.dropWhile (fun p => 2048 ≤ (p.seq - q - 1).toNat) := by
      rw [heq, ← ring_pruneAcked]
      rfl
    rw [hprune]
    exact List.dropWhile_suffix _

end Acks

/-- An acknowledgement in the range of sent packets is not further from the last one than
the acknowledgement before it. -/
theorem toNat_sub_le_of_seqBetween {start seq stop : SeqNr} (h : seqBetween start seq stop = true) :
    (stop - seq).toNat ≤ (stop - start).toNat := by
  unfold seqBetween at h
  split_ifs at h with hle
  · simp only [Bool.and_eq_true, decide_eq_true_eq] at h
    bv_omega
  · simp only [Bool.or_eq_true, decide_eq_true_eq] at h
    bv_omega

variable {q : SeqNr} {P : Session → List (List Byte) → Prop}

/-- An acknowledgement that leaves packets unacknowledged updates the timer. -/
theorem onAck_eq_updateAckTimer {s : Session} (hring : s.ring ≠ [])
    (hbetween : seqBetween s.txSeqNrAcked q (s.txSeqNr - 1) = true) (hlast : q ≠ s.txSeqNr - 1) :
    s.onAck q = { s with
      txSeqNrAcked := q
      txReadIndex := pruneLoop q s.ring s.txReadIndex
      retransmitAttempts := 0 }.updateAckTimer := by
  have hempty : s.txReadIndex ≠ s.txWriteIndex := fun h => hring (ring_eq_nil_iff.mpr h)
  unfold onAck
  simp only [if_neg hempty, hbetween, Bool.not_true, Bool.false_eq_true, if_false, if_neg hlast]
  rfl

/-- The acknowledgement of the last packet stops the timer. -/
theorem onAck_last {s : Session} (hring : s.ring ≠ [])
    (hbetween : seqBetween s.txSeqNrAcked (s.txSeqNr - 1) (s.txSeqNr - 1) = true) :
    s.onAck (s.txSeqNr - 1) = { s with
      txSeqNrAcked := s.txSeqNr - 1
      txReadIndex := pruneLoop (s.txSeqNr - 1) s.ring s.txReadIndex
      retransmitAttempts := 0
      finPending := false
      ack := s.ack.stop } := by
  have hempty : s.txReadIndex ≠ s.txWriteIndex := fun h => hring (ring_eq_nil_iff.mpr h)
  unfold onAck
  simp only [if_neg hempty, hbetween, Bool.not_true, Bool.false_eq_true, if_false]
  rfl

/-- `onPeerAck` goes on with the pending transfer, if there is one. -/
theorem onPeerAck_cases {s t : Session} (h : s.onPeerAck q = .ok t) :
    ((s.onAck q).transfer.data.isSome ∧ (s.onAck q).handleTransfer = .ok t) ∨
      ((s.onAck q).transfer.data = none ∧ t = s.onAck q) := by
  unfold onPeerAck at h
  simp only at h
  split_ifs at h with hdata
  · exact Or.inl ⟨hdata, h⟩
  · cases h
    exact Or.inr ⟨Option.not_isSome_iff_eq_none.mp hdata, rfl⟩

/-- `handleAckTimeout` only stops the timer unless a FIN or a full window is waited for.
Otherwise it writes packets of the ring again and, after the last round, gives up the
FIN or the transfer. -/
theorem handleAckTimeout_cases (s : Session) :
    (s.finPending = false ∧ (s.transfer.data = none ∨ s.inFlight < sendWindow) ∧
      s.handleAckTimeout = s.stopAckTimer) ∨
    ((s.finPending = true ∨ (s.transfer.data.isSome ∧ sendWindow ≤ s.inFlight)) ∧
      ∃ m, m.peerResets = s.metrics.peerResets ∧ let t := { s with
          metrics := m
          trace := s.trace ++ batchWrites (retransmitLoop (s.txSeqNrAcked + 1) s.ring) }
        (s.retransmitAttempts + 1 < maxRetransmits ∧ s.handleAckTimeout =
          { t with retransmitAttempts := s.retransmitAttempts + 1 }.armAckTimer) ∨
        (maxRetransmits ≤ s.retransmitAttempts + 1 ∧ s.finPending = true ∧ s.handleAckTimeout =
          { t with retransmitAttempts := 0, finPending := false, ack := s.ack.stop }) ∨
        (maxRetransmits ≤ s.retransmitAttempts + 1 ∧ s.finPending = false ∧ s.handleAckTimeout =
          { t with retransmitAttempts := 0, ack := s.ack.stop }.clearTransfer)) := by
  by_cases hwait : s.finPending = true ∨ (s.transfer.data.isSome ∧ sendWindow ≤ s.inFlight)
  · right
    refine ⟨hwait, ?_⟩
    obtain ⟨m, hresets, hm⟩ := retransmitFrom_eq
      { s with retransmitAttempts := s.retransmitAttempts + 1 } (s.txSeqNrAcked + 1)
    refine ⟨m, hresets, ?_⟩
    have hguard : (!s.finPending &&
        !(!s.finPending && s.transfer.data.isSome &&
          decide (sendWindow ≤ s.inFlight))) = false := by
      rcases hwait with hfin | ⟨hdata, hwindow⟩
      · simp [hfin]
      · cases s.finPending <;> simp [hdata, hwindow]
    intro t
    unfold handleAckTimeout
    simp only [hguard, Bool.false_eq_true, if_false, hm]
    by_cases hmore : s.retransmitAttempts + 1 < maxRetransmits
    · left
      rw [if_pos hmore]
      exact ⟨hmore, rfl⟩
    · right
      rw [if_neg hmore]
      cases hfin : s.finPending with
      | true => exact Or.inl ⟨by omega, rfl, rfl⟩
      | false => exact Or.inr ⟨by omega, rfl, rfl⟩
  · left
    have hfin : s.finPending = false := by
      cases hf : s.finPending with
      | true => exact absurd (Or.inl hf) hwait
      | false => rfl
    have hwindow : s.transfer.data = none ∨ s.inFlight < sendWindow := by
      by_contra h
      push Not at h
      exact hwait (Or.inr ⟨Option.isSome_iff_ne_none.mpr h.1, h.2⟩)
    refine ⟨hfin, hwindow, ?_⟩
    have hguard : (s.transfer.data.isSome && decide (sendWindow ≤ s.inFlight)) = false := by
      rcases hwindow with hnone | hlt
      · simp [hnone]
      · simp [Nat.not_le.mpr hlt]
    unfold handleAckTimeout
    simp [hfin, hguard]

/-- The callback at this position passes the checks of `ackTimerFunc`. -/
def Responds (s : Session) (i : ℕ) : Prop :=
  i < s.ack.ackTimer.started.length ∧ s.closed = false ∧ s.ack.ackWaitMode ≠ .none ∧
    s.ack.ackTimerExpectSeq = s.ack.ackTimerSeq

instance (s : Session) (i : ℕ) : Decidable (s.Responds i) :=
  inferInstanceAs (Decidable (_ ∧ _ ∧ _ ∧ _))

/-- The session in which the callback at this position handles a timeout. -/
def called (s : Session) (i : ℕ) : Session :=
  { s with ack := { s.ack with
    ackTimer.started := s.ack.ackTimer.started.eraseIdx i
    ackWaitMode := .none } }

/-- A callback handles a timeout, or it ends without doing anything. -/
theorem runCallback_eq (s : Session) (i : ℕ) :
    s.runCallback i = if s.Responds i then (s.called i).handleAckTimeout
      else { s with ack.ackTimer.started := s.ack.ackTimer.started.eraseIdx i } := by
  unfold runCallback ackTimerFunc
  by_cases h : s.Responds i
  · obtain ⟨hstarted, hopen, hmode, hseq⟩ := id h
    rw [if_pos h, if_pos hstarted, if_neg (by simp [hopen, hmode, hseq])]
    rfl
  · rw [if_neg h]
    by_cases hstarted : i < s.ack.ackTimer.started.length
    · rw [if_pos hstarted, if_pos]
      by_contra hvoid
      push Not at hvoid
      exact h ⟨hstarted, by simpa using hvoid⟩
    · rw [if_neg hstarted, List.eraseIdx_of_length_le (Nat.le_of_not_lt hstarted)]

/-- What a NACK and a timeout have in common: packets of the ring are written again, and
the transfer goes on or is given up. -/
structure Repeats (s t : Session) : Prop where
  /-- The ring. -/
  ring : t.ring = s.ring
  /-- The next sequence number. -/
  txSeqNr : t.txSeqNr = s.txSeqNr
  /-- The last one acknowledged. -/
  txSeqNrAcked : t.txSeqNrAcked = s.txSeqNrAcked
  /-- The one expected from the peer. -/
  rxSeqExpected : t.rxSeqExpected = s.rxSeqExpected
  /-- The resets counted. -/
  peerResets : t.metrics.peerResets = s.metrics.peerResets
  /-- The transfer. -/
  transfer : t.transfer = s.transfer ∨ t.transfer.data = none
  /-- What is written. -/
  trace : ∃ batch, t.trace = s.trace ++ batchWrites batch ∧ ∀ b ∈ batch, ∃ p ∈ s.ring, p.bytes = b

theorem Repeats.unacked {s t : Session} (h : s.Repeats t) : t.unacked = s.unacked := by
  unfold Session.unacked
  rw [h.txSeqNr, h.txSeqNrAcked]

/-- `onPeerNack`. -/
theorem repeats_onPeerNack (s : Session) (q : SeqNr) : s.Repeats (s.onPeerNack q) := by
  obtain ⟨m, hm, heq⟩ := onPeerNack_eq s q
  rw [heq, updateAckTimer_eq]
  exact ⟨rfl, rfl, rfl, rfl, hm, Or.inl rfl, _, rfl, retransmitLoop_subset⟩

/-- `handleAckTimeout`. -/
theorem repeats_handleAckTimeout (s : Session) : s.Repeats s.handleAckTimeout := by
  rcases handleAckTimeout_cases s with ⟨-, -, heq⟩ | ⟨-, m, hm, hrounds⟩
  · rw [heq]
    exact ⟨rfl, rfl, rfl, rfl, rfl, Or.inl rfl, [], (List.append_nil _).symm, by simp⟩
  · rcases hrounds with ⟨-, heq⟩ | ⟨-, -, heq⟩ | ⟨-, -, heq⟩
    · rw [heq]
      exact ⟨rfl, rfl, rfl, rfl, hm, Or.inl rfl, _, rfl, retransmitLoop_subset⟩
    · rw [heq]
      exact ⟨rfl, rfl, rfl, rfl, hm, Or.inl rfl, _, rfl, retransmitLoop_subset⟩
    · rw [heq]
      exact ⟨rfl, rfl, rfl, rfl, hm, Or.inr rfl, _, rfl, retransmitLoop_subset⟩

/-- A callback of the timer. -/
theorem repeats_runCallback (s : Session) (i : ℕ) : s.Repeats (s.runCallback i) := by
  rw [runCallback_eq]
  split_ifs
  · exact { repeats_handleAckTimeout (s.called i) with }
  · exact ⟨rfl, rfl, rfl, rfl, rfl, Or.inl rfl, [], (List.append_nil _).symm, by simp⟩

/-- `sendACK` writes one control packet. -/
theorem sendACK_eq (s : Session) (ack : Bool) :
    ∃ m, m.peerResets = s.metrics.peerResets ∧ s.sendACK ack =
      { s with
        metrics := m
        trace := s.trace ++ [.writeTo (controlPacket s.txSeqNr
          (if ack then s.rxSeqExpected - 1 else s.rxSeqExpected) ack)] } := by
  refine ⟨(s.sendACK ack).metrics, ?_, rfl⟩
  cases ack <;> rfl

/-- `ResetSession` empties the ring and the transfer, and writes nothing. -/
theorem resetSession_eq (s : Session) :
    ∃ ws, datagrams ws = [] ∧ s.resetSession =
      { s with
        txSeqNr := 0
        txSeqNrAcked := 0xFFF
        txReadIndex := 0
        txWriteIndex := 0
        rxSeqExpected := 0
        ack := s.ack.stop
        retransmitAttempts := 0
        finPending := false
        metrics.peerResets := s.metrics.peerResets + 1
        transfer := { s.transfer with header := [], data := none, offset := -1 }
        trace := s.trace ++ ws } := by
  cases hcb : s.resetCallback with
  | true => exact ⟨[.resetCallback], rfl, by simp [resetSession, hcb, stopAckTimer, clearTransfer]⟩
  | false => exact ⟨[], rfl, by simp [resetSession, hcb, stopAckTimer, clearTransfer]⟩

/-- The session after the packet of a chunk has been placed into the ring. -/
def sent (s : Session) (slot : TxPacket) (c : Chunk) : Session := (s.packed slot c.fin).advance c

/-- Sending a chunk, field by field. -/
theorem sent_eq (s : Session) (slot : TxPacket) (c : Chunk) :
    s.sent slot c =
      { s with
        txBuffer := Function.update s.txBuffer s.txWriteIndex slot
        txWriteIndex := s.txWriteIndex + 1
        txSeqNr := s.txSeqNr + 1
        metrics.packetsTx := s.metrics.packetsTx + 1
        finPending := c.fin || s.finPending
        retransmitAttempts := if c.fin then 0 else s.retransmitAttempts
        transfer := if c.fin then { s.transfer with header := [], data := none, offset := -1 }
          else { s.transfer with offset := c.offset } } := by
  cases hfin : c.fin <;> simp [sent, packed, advance, clearTransfer, hfin]

/-- A transfer that is pending behind a packet is the one before it, moved on. -/
theorem transfer_sent {s : Session} {slot : TxPacket} {c : Chunk} {data : List Byte}
    (h : (s.sent slot c).transfer.data = some data) :
    c.fin = false ∧ (s.sent slot c).transfer = { s.transfer with offset := c.offset } := by
  rw [sent_eq] at h ⊢
  cases hfin : c.fin with
  | true => simp [hfin] at h
  | false => exact ⟨rfl, by simp⟩

/-- A packed packet joins the ring. -/
theorem ring_sent {s : Session} (slot : TxPacket) (c : Chunk)
    (hroom : s.txWriteIndex + 1 ≠ s.txReadIndex) : (s.sent slot c).ring = s.ring ++ [slot] := by
  rw [sent_eq]
  exact CircularBuffer.contents_push slot hroom

/-- What holds when the loop of `handleTransfer` packs a chunk into a slot. -/
structure Packs (s : Session) (data : List Byte) (c : Chunk) (slot : TxPacket) : Prop where
  /-- A transfer is pending. -/
  pending : s.transfer.data = some data
  /-- The window is open. -/
  window : s.inFlight < sendWindow
  /-- The chunk is the next one of the transfer. -/
  next : s.transfer.nextChunk data = some c
  /-- The ring has room. -/
  room : s.txWriteIndex + 1 ≠ s.txReadIndex
  /-- The packet fits into the slot. -/
  fits : c.header.length + (c.body.length + 3) / 4 * 4 + 6 ≤ txPacketCapacity
  /-- The slot gets the next sequence number. -/
  seq : slot.seq = s.txSeqNr
  /-- The slot gets the packet of the chunk. -/
  bytes : slot.bytes = dataPacket s.txSeqNr (s.rxSeqExpected - 1) c.fin c.header c.body

/-- What a round of the loop of `handleTransfer` makes of the rest of it. -/
inductive Round (fuel : ℕ) (s : Session) (batch : List (List Byte)) :
    Except Panic (Session × List (List Byte)) → Prop
  /-- Nothing is pending. -/
  | idle : s.transfer.data = none → Round fuel s batch (.ok (s, batch))
  /-- The window is full. -/
  | full : sendWindow ≤ s.inFlight → Round fuel s batch (.ok (s, batch))
  /-- The transfer has ended. -/
  | cleared {data : List Byte} : s.transfer.data = some data → s.inFlight < sendWindow →
    s.transfer.nextChunk data = none → Round fuel s batch (.ok (s.clearTransfer, batch))
  /-- The next chunk cannot be packed. -/
  | failed {data : List Byte} {c : Chunk} {e : Panic} : s.transfer.data = some data →
    s.transfer.nextChunk data = some c → s.packDataPacket c.header c.body c.fin = .error e →
    Round fuel s batch (.error e)
  /-- It is packed. -/
  | packed {data : List Byte} {c : Chunk} {slot : TxPacket}
    {r : Except Panic (Session × List (List Byte))} : Packs s data c slot →
    (s.sent slot c).transferLoop fuel (batch ++ [slot.bytes]) = r → Round fuel s batch r

/-- What a round of the loop does. -/
theorem round_transferLoop (fuel : ℕ) (s : Session) (batch : List (List Byte)) :
    Round fuel s batch (s.transferLoop (fuel + 1) batch) := by
  unfold transferLoop
  cases hdata : s.transfer.data with
  | none => exact .idle hdata
  | some data =>
    simp only
    by_cases hwindow : sendWindow ≤ s.inFlight
    · rw [if_pos hwindow]
      exact .full hwindow
    · rw [if_neg hwindow]
      cases hnext : s.transfer.nextChunk data with
      | none => exact .cleared hdata (Nat.lt_of_not_le hwindow) hnext
      | some c =>
        simp only
        cases hpkt : s.packDataPacket c.header c.body c.fin with
        | error e => exact .failed hdata hnext hpkt
        | ok packed =>
          obtain ⟨t, pkt⟩ := packed
          obtain ⟨hfits, hroom, hbytes, slot, hseq, rfl, rfl⟩ := packDataPacket_ok hpkt
          exact .packed ⟨hdata, Nat.lt_of_not_le hwindow, hnext, hroom, hfits, hseq, hbytes⟩ rfl

/-- How many more packets the loop of `handleTransfer` can pack: the first packet of an
empty ring is sent whatever has been acknowledged before. -/
def windowRoom (s : Session) : ℕ := if s.ring = [] then sendWindow + 1 else sendWindow - s.unacked

/-- Packing a packet uses up room. -/
theorem windowRoom_sent {s : Session} {data : List Byte} {c : Chunk} {slot : TxPacket}
    (h : Packs s data c slot) : (s.sent slot c).windowRoom < s.windowRoom := by
  have hring := ring_sent slot c h.room
  have hunacked : (s.sent slot c).unacked = (s.txSeqNr + 1 - s.txSeqNrAcked - 1).toNat := by
    rw [sent_eq]
    rfl
  have hwindow := h.window
  rw [inFlight_eq] at hwindow
  unfold windowRoom
  rw [hring, if_neg (by simp)]
  by_cases hempty : s.ring = []
  · rw [if_pos hempty]
    omega
  · rw [if_neg hempty] at hwindow ⊢
    have hstep : (s.txSeqNr + 1 - s.txSeqNrAcked - 1).toNat = s.unacked + 1 := by
      simp only [unacked, sendWindow] at hwindow ⊢
      bv_omega
    omega

/-- With more fuel than room the loop stops only because nothing is pending any more or
the window is full. -/
theorem transferLoop_exit {fuel : ℕ} {s s' : Session} {batch batch' : List (List Byte)}
    (hfuel : s.windowRoom < fuel) (hloop : s.transferLoop fuel batch = .ok (s', batch')) :
    s'.transfer.data = none ∨ sendWindow ≤ s'.inFlight := by
  induction fuel generalizing s batch with
  | zero => omega
  | succ fuel ih =>
    have hround := round_transferLoop fuel s batch
    rw [hloop] at hround
    cases hround with
    | idle hdata => exact Or.inl hdata
    | full hwindow => exact Or.inr hwindow
    | cleared => exact Or.inl rfl
    | packed h hrest =>
      exact ih (Nat.lt_of_lt_of_le (windowRoom_sent h) (Nat.le_of_lt_succ hfuel)) hrest

section Rules

variable (hpack : ∀ s batch data c slot, Packs s data c slot → P s batch →
  P (s.sent slot c) (batch ++ [slot.bytes]))
include hpack

/-- A panic of the loop is one of `packDataPacket` in a state with the loop's invariant. -/
theorem transferLoop_error {fuel : ℕ} {s : Session} {batch : List (List Byte)} {e : Panic}
    (hloop : s.transferLoop fuel batch = .error e) (hP : P s batch) :
    ∃ t sofar data c, P t sofar ∧ t.transfer.data = some data ∧
      t.transfer.nextChunk data = some c ∧
      t.packDataPacket c.header c.body c.fin = .error e := by
  induction fuel generalizing s batch with
  | zero => cases hloop
  | succ fuel ih =>
    have hround := round_transferLoop fuel s batch
    rw [hloop] at hround
    cases hround with
    | failed hdata hnext herr => exact ⟨s, batch, _, _, hP, hdata, hnext, herr⟩
    | packed h hrest => exact ih hrest (hpack _ _ _ _ _ h hP)

variable (hclear : ∀ s batch data, s.transfer.data = some data → s.inFlight < sendWindow →
  s.transfer.nextChunk data = none → P s batch → P s.clearTransfer batch)
include hclear

/-- The invariant rule for the loop of `handleTransfer`. -/
theorem transferLoop_invariant {fuel : ℕ} {s s' : Session} {batch batch' : List (List Byte)}
    (hloop : s.transferLoop fuel batch = .ok (s', batch')) (hP : P s batch) : P s' batch' := by
  induction fuel generalizing s batch with
  | zero =>
    cases hloop
    exact hP
  | succ fuel ih =>
    have hround := round_transferLoop fuel s batch
    rw [hloop] at hround
    cases hround with
    | idle => exact hP
    | full => exact hP
    | cleared hdata hwindow hnext => exact hclear _ _ _ hdata hwindow hnext hP
    | packed h hrest => exact ih hrest (hpack _ _ _ _ _ h hP)

/-- The invariant rule for `handleTransfer`: it writes the packets the loop has packed,
and the loop has run until the transfer ends or the window is full. -/
theorem handleTransfer_invariant {s s' : Session} (h : s.handleTransfer = .ok s') (hP : P s []) :
    ∃ t batch, P t batch ∧ (t.transfer.data = none ∨ sendWindow ≤ t.inFlight) ∧
      s' = { t with trace := t.trace ++ batchWrites batch }.updateAckTimer := by
  obtain ⟨⟨t, batch⟩, hloop, hrest⟩ := Fallible.bind_eq_ok.mp h
  cases hrest
  have hfuel : s.windowRoom < sendWindow + 2 := by
    unfold windowRoom
    split_ifs <;> omega
  refine ⟨t, batch, transferLoop_invariant hpack hclear hloop hP,
    transferLoop_exit hfuel hloop, ?_⟩
  rw [← writeBatch_eq]

end Rules

/-- What `onPeerAck` does not touch; it writes one batch at most, and sends nothing new
unless a transfer is pending. -/
theorem onPeerAck_frame {s t : Session} (h : s.onPeerAck q = .ok t) :
    t.rxSeqExpected = s.rxSeqExpected ∧ t.metrics.peerResets = s.metrics.peerResets ∧
      t.resetCallback = s.resetCallback ∧
      ∃ batch, t.trace = s.trace ++ batchWrites batch ∧
        (s.transfer.data = none → batch = [] ∧ t.txSeqNr = s.txSeqNr) := by
  rcases onPeerAck_cases h with ⟨hdata, h⟩ | ⟨-, rfl⟩
  · obtain ⟨u, batch, ⟨hrx, hresets, hcallback, htrace⟩, -, rfl⟩ := handleTransfer_invariant
      (P := fun u _ => u.rxSeqExpected = s.rxSeqExpected ∧
        u.metrics.peerResets = s.metrics.peerResets ∧ u.resetCallback = s.resetCallback ∧
        u.trace = s.trace)
      (fun u _ _ _ _ _ hu => by rw [sent_eq]; exact hu)
      (fun u _ _ _ _ _ hu => hu) h (by simp)
    rw [updateAckTimer_eq]
    refine ⟨hrx, hresets, hcallback, batch, by rw [← htrace], ?_⟩
    intro hnone
    simp [hnone] at hdata
  · exact ⟨by simp, by simp, by simp, [], by simp [batchWrites], fun _ => ⟨rfl, by simp⟩⟩

end Session

end Udpfsd.Udprdma
