import Udpfsd.Udprdma.Runs

/-!
# Sessions that respond alike

What a session writes and returns depends on the packets in its ring, on the pending
transfer, on the three sequence numbers and on the state of the timer, but not on where in
the ring the packets lie, on what the free slots hold, on the counters or on how often the
timer has been armed. Two sessions that agree in the former respond to every event with the
same datagrams and agree again afterwards.
-/

namespace Udpfsd.Udprdma

open Fallible

/-- What the session reads of a slot in use. -/
def TxPacket.shown (p : TxPacket) : SeqNr × List Byte := (p.seq, p.bytes)

theorem retransmitLoop_congr {ps qs : List TxPacket}
    (h : ps.map TxPacket.shown = qs.map TxPacket.shown) (q : SeqNr) :
    retransmitLoop q ps = retransmitLoop q qs := by
  induction ps generalizing qs with
  | nil =>
    cases qs with
    | nil => rfl
    | cons p' qs => cases h
  | cons p ps ih =>
    cases qs with
    | nil => cases h
    | cons p' qs =>
      obtain ⟨hshown, hrest⟩ := List.cons.inj h
      obtain ⟨hseq, hbytes⟩ := Prod.mk.inj hshown
      simp only [retransmitLoop, hseq, hbytes, ih hrest]

/-- The timers of two sessions agree. The first one has `m` more callbacks that have started
and wait for the lock, ahead of those of the second. -/
structure AckTimer.Alike (m : ℕ) (a b : AckTimer) : Prop where
  /-- What is waited for. -/
  mode : a.ackWaitMode = b.ackWaitMode
  /-- The pending arming. -/
  active : a.ackTimer.active = b.ackTimer.active
  /-- A callback is let through whenever something is waited for. -/
  valid : a.ackWaitMode ≠ .none →
    a.ackTimerExpectSeq = a.ackTimerSeq ∧ b.ackTimerExpectSeq = b.ackTimerSeq
  /-- The callbacks that have started. -/
  started : a.ackTimer.started.length = m + b.ackTimer.started.length

namespace AckTimer

variable {m : ℕ} {a b : AckTimer}

theorem Alike.stop (h : a.Alike m b) : a.stop.Alike m b.stop where
  mode := rfl
  active := rfl
  valid := fun hmode => absurd rfl hmode
  started := h.started

theorem Alike.arm (h : a.Alike m b) (finPending : Bool) :
    (a.arm finPending).Alike m (b.arm finPending) := by
  unfold AckTimer.arm
  by_cases hmode : b.ackWaitMode = if finPending then .fin else .window
  · simp only [h.mode, if_pos hmode]
    exact h
  · simp only [h.mode, if_neg hmode]
    exact ⟨rfl, rfl, fun _ => ⟨rfl, rfl⟩, h.started⟩

theorem Alike.expire (h : a.Alike m b) :
    Alike m { a with ackTimer := a.ackTimer.expire } { b with ackTimer := b.ackTimer.expire } := by
  unfold Timer.expire
  rw [h.active]
  cases b.ackTimer.active with
  | none => exact h
  | some d =>
    refine ⟨h.mode, rfl, h.valid, ?_⟩
    have hstarted := h.started
    simp only [List.length_append, List.length_singleton]
    omega

end AckTimer

namespace Session

/-- The two sessions agree in everything that shows, and have written the same datagrams
since their traces were `base` and `base'`. -/
structure Alike (m : ℕ) (base base' : List Write) (s u : Session) : Prop where
  /-- The packets in the ring. -/
  held : s.ring.map TxPacket.shown = u.ring.map TxPacket.shown
  /-- The pending transfer. -/
  transfer : s.transfer = u.transfer ∨ (s.transfer.data = none ∧ u.transfer.data = none)
  /-- The number of the next packet. -/
  txSeqNr : s.txSeqNr = u.txSeqNr
  /-- The last number acknowledged. -/
  txSeqNrAcked : s.txSeqNrAcked = u.txSeqNrAcked
  /-- The number expected. -/
  rxSeqExpected : s.rxSeqExpected = u.rxSeqExpected
  /-- The timer. -/
  timer : s.ack.Alike m u.ack
  /-- The retransmission rounds. -/
  attempts : s.retransmitAttempts = u.retransmitAttempts
  /-- Whether a FIN is unacknowledged. -/
  fin : s.finPending = u.finPending
  /-- Whether the session is closed. -/
  closed : s.closed = u.closed
  /-- The datagrams written. -/
  wrote : ∃ ws ws', s.trace = base ++ ws ∧ u.trace = base' ++ ws' ∧ datagrams ws = datagrams ws'

variable {m : ℕ} {base base' : List Write} {s u : Session}
variable (h : s.Alike m base base' u)
include h

/-- The data that are sent agree. -/
theorem Alike.data : s.transfer.data = u.transfer.data := by
  rcases h.transfer with heq | ⟨hs, hu⟩
  · rw [heq]
  · rw [hs, hu]

theorem Alike.ring_eq_nil : s.ring = [] ↔ u.ring = [] := by
  rw [← List.map_eq_nil_iff (f := TxPacket.shown), h.held, List.map_eq_nil_iff]

/-- So does what is in flight. -/
theorem Alike.inFlight : s.inFlight = u.inFlight := by
  simp only [Session.inFlight_eq, unacked, h.ring_eq_nil, h.txSeqNr, h.txSeqNrAcked]

/-- Room in the ring is there for both. -/
theorem Alike.room : s.txWriteIndex + 1 ≠ s.txReadIndex ↔ u.txWriteIndex + 1 ≠ u.txReadIndex := by
  have hlength := congrArg List.length h.held
  simp only [List.length_map] at hlength
  have hs : s.txWriteIndex + 1 ≠ s.txReadIndex ↔ s.ring.length + 1 < 2048 := CircularBuffer.room_iff
  have hu : u.txWriteIndex + 1 ≠ u.txReadIndex ↔ u.ring.length + 1 < 2048 := CircularBuffer.room_iff
  rw [hs, hu, hlength]

/-- Both have written the same datagrams. -/
theorem Alike.append {ws ws' : List Write} (hws : datagrams ws = datagrams ws') :
    ∃ vs vs', s.trace ++ ws = base ++ vs ∧ u.trace ++ ws' = base' ++ vs' ∧
      datagrams vs = datagrams vs' := by
  obtain ⟨vs, vs', hs, hu, heq⟩ := h.wrote
  refine ⟨vs ++ ws, vs' ++ ws', ?_, ?_, ?_⟩
  · rw [hs, List.append_assoc]
  · rw [hu, List.append_assoc]
  · rw [datagrams_append, datagrams_append, heq, hws]

theorem Alike.stopAckTimer : s.stopAckTimer.Alike m base base' u.stopAckTimer :=
  { h with timer := h.timer.stop }

theorem Alike.armAckTimer : s.armAckTimer.Alike m base base' u.armAckTimer := by
  have htimer := h.timer.arm u.finPending
  refine { h with timer := ?_ }
  unfold Session.armAckTimer
  rwa [h.fin]

theorem Alike.updateAckTimer : s.updateAckTimer.Alike m base base' u.updateAckTimer := by
  unfold Session.updateAckTimer
  simp only [h.inFlight, h.fin, h.data]
  split_ifs
  · exact h.stopAckTimer
  · exact h.armAckTimer
  · exact h.stopAckTimer

theorem Alike.clearTransfer : s.clearTransfer.Alike m base base' u.clearTransfer :=
  { h with transfer := Or.inr ⟨rfl, rfl⟩ }

theorem Alike.sendACK (ack : Bool) : (s.sendACK ack).Alike m base base' (u.sendACK ack) :=
  { h with wrote := h.append (by rw [h.txSeqNr, h.rxSeqExpected]) }

/-- Both send the packet of the same chunk. -/
theorem Alike.sent {data : List Byte} {c : Chunk}
    {slot slot' : TxPacket} (hs : Packs s data c slot) (hu : Packs u data c slot') :
    (s.sent slot c).Alike m base base' (u.sent slot' c) where
  held := by
    rw [ring_sent slot c hs.room, ring_sent slot' c hu.room, List.map_append, List.map_append,
      h.held]
    simp only [List.map_cons, List.map_nil, TxPacket.shown, hs.seq, hu.seq, hs.bytes, hu.bytes,
      h.txSeqNr, h.rxSeqExpected]
  transfer := by
    have htransfer : s.transfer = u.transfer := by
      refine h.transfer.resolve_right ?_
      rintro ⟨hnone, -⟩
      rw [hs.pending] at hnone
      cases hnone
    left
    simp only [sent_eq, htransfer]
  txSeqNr := by simp only [sent_eq, h.txSeqNr]
  txSeqNrAcked := by simp only [sent_eq, h.txSeqNrAcked]
  rxSeqExpected := by simp only [sent_eq, h.rxSeqExpected]
  timer := by
    simp only [sent_eq]
    exact h.timer
  attempts := by simp only [sent_eq, h.attempts]
  fin := by simp only [sent_eq, h.fin]
  closed := by simp only [sent_eq, h.closed]
  wrote := by
    simp only [sent_eq]
    exact h.wrote

/-- Both pack the same packet, or neither does. -/
theorem Alike.packDataPacket {data : List Byte} {c : Chunk}
    (hdata : u.transfer.data = some data) (hwindow : u.inFlight < sendWindow)
    (hnext : s.transfer.nextChunk data = some c) (hnext' : u.transfer.nextChunk data = some c) :
    Related (fun x y => (x.1.advance c).Alike m base base' (y.1.advance c) ∧ x.2 = y.2)
      (s.packDataPacket c.header c.body c.fin) (u.packDataPacket c.header c.body c.fin) := by
  by_cases hfits : c.header.length + (c.body.length + 3) / 4 * 4 + 6 ≤ txPacketCapacity
  · by_cases hroom : u.txWriteIndex + 1 ≠ u.txReadIndex
    · obtain ⟨t, pkt, hs⟩ := packDataPacket_isOk c.fin hfits (h.room.mpr hroom)
      obtain ⟨t', pkt', hu⟩ := packDataPacket_isOk c.fin hfits hroom
      rw [hs, hu]
      obtain ⟨-, -, hbytes, slot, hseq, rfl, rfl⟩ := packDataPacket_ok hs
      obtain ⟨-, -, hbytes', slot', hseq', rfl, rfl⟩ := packDataPacket_ok hu
      have hpack : Packs s data c slot := ⟨h.data.trans hdata, h.inFlight ▸ hwindow, hnext,
        h.room.mpr hroom, hfits, hseq, hbytes⟩
      refine ⟨h.sent hpack ⟨hdata, hwindow, hnext', hroom, hfits, hseq', hbytes'⟩, ?_⟩
      simp only [hbytes, hbytes', h.txSeqNr, h.rxSeqExpected]
    · rw [packDataPacket_full c.fin hfits (not_not.mp hroom),
        packDataPacket_full c.fin hfits (not_not.mp (mt h.room.mp hroom))]
      rfl
  · rw [packDataPacket_oversized c.fin hfits, packDataPacket_oversized c.fin hfits]
    rfl

/-- The loop of `handleTransfer`. -/
theorem Alike.transferLoop (fuel : ℕ) (batch : List (List Byte)) :
    Related (fun x y => x.1.Alike m base base' y.1 ∧ x.2 = y.2)
      (s.transferLoop fuel batch) (u.transferLoop fuel batch) := by
  induction fuel generalizing s u batch with
  | zero => exact ⟨h, rfl⟩
  | succ fuel ih =>
    unfold Session.transferLoop
    rw [h.data]
    cases hdata : u.transfer.data with
    | none => exact ⟨h, rfl⟩
    | some data =>
      have htransfer : s.transfer = u.transfer := by
        refine h.transfer.resolve_right ?_
        rintro ⟨-, hnone⟩
        rw [hdata] at hnone
        cases hnone
      simp only [h.inFlight, htransfer]
      split_ifs with hwindow
      · exact ⟨h, rfl⟩
      · cases hnext : u.transfer.nextChunk data with
        | none => exact ⟨h.clearTransfer, rfl⟩
        | some c =>
          have hpack := h.packDataPacket hdata (Nat.lt_of_not_le hwindow) (htransfer ▸ hnext) hnext
          refine hpack.bind ?_
          rintro ⟨t, pkt⟩ ⟨t', pkt'⟩ ⟨ht, rfl⟩
          exact ih ht _

/-- `handleTransfer`. -/
theorem Alike.handleTransfer : Related (Alike m base base') s.handleTransfer u.handleTransfer := by
  refine (h.transferLoop (sendWindow + 2) []).bind ?_
  rintro ⟨t, batch⟩ ⟨t', batch'⟩ ⟨ht, rfl⟩
  refine Alike.updateAckTimer ?_
  rw [writeBatch_eq, writeBatch_eq]
  exact { ht with wrote := ht.append rfl }

/-- Both start the same transfer. -/
theorem Alike.start_transfer (transfer : Transfer) :
    Related (Alike m base base') { s.resetSendState with transfer := transfer }.handleTransfer
      { u.resetSendState with transfer := transfer }.handleTransfer := by
  refine Alike.handleTransfer { h with
    held := ?_, transfer := Or.inl rfl, timer := h.timer.stop, attempts := rfl, fin := rfl }
  rw [ring_eq_nil_iff.mpr rfl, ring_eq_nil_iff.mpr rfl]

/-- `retransmitFrom`. -/
theorem Alike.retransmitFrom {q q' : SeqNr} (hq : q = q') :
    (s.retransmitFrom q).1.Alike m base base' (u.retransmitFrom q').1 := by
  subst hq
  obtain ⟨n, -, hs⟩ := retransmitFrom_eq s q
  obtain ⟨n', -, hu⟩ := retransmitFrom_eq u q
  rw [hs, hu, retransmitLoop_congr h.held]
  exact { h with wrote := h.append rfl }

/-- `onPeerNack`. -/
theorem Alike.onPeerNack {q q' : SeqNr} (hq : q = q') :
    (s.onPeerNack q).Alike m base base' (u.onPeerNack q') := by
  refine Alike.updateAckTimer (Alike.retransmitFrom ?_ hq)
  exact { h with attempts := rfl }

theorem Alike.pruneAcked (q : SeqNr) : (s.pruneAcked q).Alike m base base' (u.pruneAcked q) := by
  have hheld :
      (s.pruneAcked q).ring.map TxPacket.shown = (u.pruneAcked q).ring.map TxPacket.shown := by
    have hdrop : ∀ ps : List TxPacket,
        (ps.dropWhile (fun p => 2048 ≤ (p.seq - q - 1).toNat)).map TxPacket.shown =
          (ps.map TxPacket.shown).dropWhile (fun p => 2048 ≤ (p.1 - q - 1).toNat) := by
      intro ps
      rw [List.dropWhile_map]
      rfl
    rw [ring_pruneAcked, ring_pruneAcked, hdrop, hdrop, h.held]
  exact { h with held := hheld }

/-- `onAck`. -/
theorem Alike.onAck (q : SeqNr) : (s.onAck q).Alike m base base' (u.onAck q) := by
  have hempty : s.txReadIndex = s.txWriteIndex ↔ u.txReadIndex = u.txWriteIndex := by
    rw [← ring_eq_nil_iff, ← ring_eq_nil_iff, h.ring_eq_nil]
  have hmoved : Alike m base base' { s with txSeqNrAcked := q } { u with txSeqNrAcked := q } :=
    { h with txSeqNrAcked := rfl }
  have hpruned : Alike m base base'
      { { s with txSeqNrAcked := q }.pruneAcked q with retransmitAttempts := 0 }
      { { u with txSeqNrAcked := q }.pruneAcked q with retransmitAttempts := 0 } :=
    { hmoved.pruneAcked q with attempts := rfl }
  have hrange : (!seqBetween s.txSeqNrAcked q (s.txSeqNr - 1)) =
      !seqBetween u.txSeqNrAcked q (u.txSeqNr - 1) := by rw [h.txSeqNrAcked, h.txSeqNr]
  unfold Session.onAck
  by_cases hnone : u.txReadIndex = u.txWriteIndex
  · rw [if_pos (hempty.mpr hnone), if_pos hnone]
    exact h
  rw [if_neg (mt hempty.mp hnone), if_neg hnone]
  by_cases hout : (!seqBetween u.txSeqNrAcked q (u.txSeqNr - 1)) = true
  · rw [if_pos (hrange.trans hout), if_pos hout]
    exact h
  rw [if_neg (hrange ▸ hout), if_neg hout]
  by_cases hlast : q = u.txSeqNr - 1
  · rw [if_pos (h.txSeqNr ▸ hlast), if_pos hlast]
    exact { hpruned.stopAckTimer with fin := rfl }
  · rw [if_neg (h.txSeqNr ▸ hlast), if_neg hlast]
    exact hpruned.updateAckTimer

/-- `onPeerAck`. -/
theorem Alike.onPeerAck (q : SeqNr) :
    Related (Alike m base base') (s.onPeerAck q) (u.onPeerAck q) := by
  have hack := h.onAck q
  unfold Session.onPeerAck
  simp only [hack.data]
  split_ifs
  · exact hack.handleTransfer
  · exact hack

theorem Alike.onPiggybackedAck (p : Packet) :
    Related (Alike m base base') (s.onPiggybackedAck p) (u.onPiggybackedAck p) := by
  unfold Session.onPiggybackedAck
  split_ifs
  · exact h.onPeerAck _
  · exact h

/-- Both go on after a retransmission round: they wait again or give up. -/
theorem Alike.goOn {waitingFin waitingFin' : Bool} (hfin : waitingFin = waitingFin') :
    Alike m base base'
      (if s.retransmitAttempts < maxRetransmits then s.armAckTimer
      else { (if waitingFin then { s with finPending := false }
          else s.clearTransfer).stopAckTimer with
        retransmitAttempts := 0 })
      (if u.retransmitAttempts < maxRetransmits then u.armAckTimer
      else { (if waitingFin' then { u with finPending := false }
          else u.clearTransfer).stopAckTimer with
        retransmitAttempts := 0 }) := by
  subst hfin
  by_cases hmore : u.retransmitAttempts < maxRetransmits
  · rw [if_pos (h.attempts ▸ hmore), if_pos hmore]
    exact h.armAckTimer
  rw [if_neg (h.attempts ▸ hmore), if_neg hmore]
  split_ifs
  · exact { h.stopAckTimer with attempts := rfl, fin := rfl }
  · exact { h.clearTransfer.stopAckTimer with attempts := rfl }

/-- `handleAckTimeout`. -/
theorem Alike.handleAckTimeout : s.handleAckTimeout.Alike m base base' u.handleAckTimeout := by
  have hguard : (!s.finPending &&
      !(!s.finPending && s.transfer.data.isSome && decide (sendWindow ≤ s.inFlight))) =
      (!u.finPending &&
        !(!u.finPending && u.transfer.data.isSome && decide (sendWindow ≤ u.inFlight))) := by
    rw [h.fin, h.data, h.inFlight]
  have hcounted : Alike m base base' { s with retransmitAttempts := s.retransmitAttempts + 1 }
      { u with retransmitAttempts := u.retransmitAttempts + 1 } :=
    { h with attempts := congrArg (· + 1) h.attempts }
  unfold Session.handleAckTimeout
  by_cases hidle : (!u.finPending &&
      !(!u.finPending && u.transfer.data.isSome && decide (sendWindow ≤ u.inFlight))) = true
  · rw [if_pos (hguard.trans hidle), if_pos hidle]
    exact h.stopAckTimer
  rw [if_neg (hguard ▸ hidle), if_neg hidle]
  exact (hcounted.retransmitFrom (congrArg (· + 1) h.txSeqNrAcked)).goOn h.fin

/-- The callbacks of the second session are those behind the first `m` of the first one. -/
theorem Alike.runCallback (i : ℕ) :
    (s.runCallback (m + i)).Alike m base base' (u.runCallback i) := by
  have hstarted := h.timer.started
  have hresponds : s.Responds (m + i) ↔ u.Responds i := by
    unfold Responds
    rw [h.closed, hstarted, Nat.add_lt_add_iff_left]
    refine and_congr_right (fun _ => and_congr_right (fun _ => ?_))
    rw [← h.timer.mode]
    refine and_congr_right (fun hmode => ?_)
    obtain ⟨hs, hu⟩ := h.timer.valid hmode
    exact ⟨fun _ => hu, fun _ => hs⟩
  have herased : (s.ack.ackTimer.started.eraseIdx (m + i)).length =
      m + (u.ack.ackTimer.started.eraseIdx i).length := by
    rw [List.length_eraseIdx, List.length_eraseIdx]
    split_ifs <;> omega
  rw [runCallback_eq, runCallback_eq]
  by_cases hu : u.Responds i
  · rw [if_pos hu, if_pos (hresponds.mpr hu)]
    refine Alike.handleAckTimeout ?_
    exact { h with timer := ⟨rfl, h.timer.active, fun hmode => absurd rfl hmode, herased⟩ }
  · rw [if_neg hu, if_neg (mt hresponds.mp hu)]
    exact { h with timer := ⟨h.timer.mode, h.timer.active, h.timer.valid, herased⟩ }

/-- `ResetSession`. -/
theorem Alike.resetSession : s.resetSession.Alike m base base' u.resetSession := by
  obtain ⟨ws, hws, hs⟩ := resetSession_eq s
  obtain ⟨ws', hws', hu⟩ := resetSession_eq u
  rw [hs, hu]
  exact {
    held := by rw [ring_eq_nil_iff.mpr rfl, ring_eq_nil_iff.mpr rfl]
    transfer := Or.inr ⟨rfl, rfl⟩
    txSeqNr := rfl
    txSeqNrAcked := rfl
    rxSeqExpected := rfl
    timer := h.timer.stop
    attempts := rfl
    fin := rfl
    closed := h.closed
    wrote := h.append (hws.trans hws'.symm) }

/-- An accepted packet. -/
theorem Alike.acceptPacket (p : Packet) :
    Related (fun x y => x.1.Alike m base base' y.1 ∧ x.2 = y.2) (s.acceptPacket p)
      (u.acceptPacket p) := by
  have hmoved : Alike m base base' { s with rxSeqExpected := p.hdr.seqNr + 1 }
      { u with rxSeqExpected := p.hdr.seqNr + 1 } := { h with rxSeqExpected := rfl }
  refine ((hmoved.sendACK true).onPiggybackedAck p).bind ?_
  intro t t' ht
  exact ⟨ht, rfl⟩

/-- Any packet. -/
theorem Alike.processPacket (p : Packet) :
    Related (fun x y => x.1.Alike m base base' y.1 ∧ x.2 = y.2) (s.processPacket p)
      (u.processPacket p) := by
  have hcount : ∀ n n', Alike m base base' { s with metrics := n } { u with metrics := n' } :=
    fun n n' => { h with }
  unfold Session.processPacket
  by_cases hpayload : p.payload = []
  · rw [if_pos hpayload, if_pos hpayload]
    split_ifs
    · refine ((hcount _ _).onPeerAck p.header.seqNrAck).bind ?_
      intro t t' ht
      exact ⟨ht, rfl⟩
    · exact ⟨(hcount _ _).onPeerNack rfl, rfl⟩
  rw [if_neg hpayload, if_neg hpayload]
  by_cases hnext : p.hdr.seqNr ≠ u.rxSeqExpected
  · rw [if_pos (h.rxSeqExpected ▸ hnext), if_pos hnext]
    by_cases hrepeat : p.hdr.seqNr = u.rxSeqExpected - 1
    · rw [if_pos (h.rxSeqExpected ▸ hrepeat), if_pos hrepeat]
      refine (((hcount _ _).sendACK true).onPiggybackedAck p).bind ?_
      intro t t' ht
      refine ⟨?_, rfl⟩
      simp only [h.data]
      split_ifs
      · exact ht.onPeerNack (congrArg (· + 1) h.txSeqNrAcked)
      · exact ht
    rw [if_neg (h.rxSeqExpected ▸ hrepeat), if_neg hrepeat]
    split_ifs
    · exact (hcount _ _).resetSession.acceptPacket p
    · refine (((hcount _ _).sendACK false).onPiggybackedAck p).bind ?_
      intro t t' ht
      exact ⟨ht, rfl⟩
  · rw [if_neg (h.rxSeqExpected ▸ hnext), if_neg hnext]
    exact (hcount _ _).acceptPacket p

/-- `ProcessDataPacket`. -/
theorem Alike.processDataPacket (data : List Byte) :
    Related (fun x y => x.1.Alike m base base' y.1 ∧ x.2 = y.2) (s.processDataPacket data)
      (u.processDataPacket data) := by
  unfold Session.processDataPacket
  cases parsePacket data with
  | error e => exact rfl
  | ok parsed =>
    cases parsed with
    | error err => exact ⟨h, rfl⟩
    | ok p =>
      refine (h.processPacket p).bind ?_
      rintro ⟨t, payload⟩ ⟨t', payload'⟩ ⟨ht, rfl⟩
      exact ⟨ht, rfl⟩

end Session

/-- The event for a session with `m` more callbacks waiting for the lock. -/
def Event.shift (m : ℕ) : Event → Event
  | .callback i => .callback (m + i)
  | e => e

@[simp] theorem Event.shift_packet (m : ℕ) (data : List Byte) :
    (Event.packet data).shift m = .packet data := rfl

namespace Session

variable {m : ℕ} {base base' : List Write} {s u : Session}

/-- Every event is answered with the same datagrams. -/
theorem Alike.step (h : s.Alike m base base' u) (e : Event) :
    Related (Alike m base base') (s.step (e.shift m)) (u.step e) := by
  cases e with
  | sendData payload => exact h.start_transfer _
  | sendRawDataWithHeader header data => exact h.start_transfer _
  | sendACK ack => exact h.sendACK ack
  | packet data =>
    simp only [Event.shift, Session.step]
    split_ifs
    · exact h
    · refine (h.processDataPacket data).bind ?_
      rintro ⟨t, r⟩ ⟨t', r'⟩ ⟨ht, -⟩
      exact ht
  | expire => exact { h with timer := h.timer.expire }
  | callback i => exact h.runCallback i
  | reset => exact h.resetSession
  | setResetCallback => exact { h with }
  | close =>
    simp only [Event.shift, Session.step, Session.close]
    by_cases hclosed : u.closed = true
    · rw [if_pos (h.closed.trans hclosed), if_pos hclosed]
      exact h
    · rw [if_neg (h.closed ▸ hclosed), if_neg hclosed]
      exact { h with timer := h.timer.stop, closed := rfl }

end Session

/-- What an event brings about: the datagrams written and what `ProcessDataPacket` returns. -/
structure Response where
  /-- The datagrams written. -/
  written : List (List Byte)
  /-- The result for the caller, `none` for events other than datagrams. -/
  result : Except String (Option (List Byte))

namespace Session

/-- What `ProcessDataPacket` returns in an event. -/
def result (s : Session) : Event → Except String (Option (List Byte))
  | .packet data =>
    if data.length < headerSize + dataHeaderSize then .ok none
    else
      match s.processDataPacket data with
      | .ok (_, r) => r
      | .error _ => .ok none
  | _ => .ok none

/-- One event and the response to it. -/
def respond (s : Session) (e : Event) : Except Panic (Session × Response) := do
  let t ← s.step e
  return (t, ⟨datagrams (t.trace.drop s.trace.length), s.result e⟩)

/-- The responses to events one after the other, up to a panic. -/
def responses : Session → List Event → List (Except Panic Response)
  | _, [] => []
  | s, e :: es =>
    match s.respond e with
    | .error panic => [.error panic]
    | .ok (t, r) => .ok r :: t.responses es

variable {m : ℕ} {base base' : List Write} {s t u : Session}

/-- What was written before does not matter. -/
theorem Alike.rebase (h : s.Alike m base base' u) : s.Alike m s.trace u.trace u :=
  { h with wrote := ⟨[], [], by simp, by simp, rfl⟩ }

/-- The answer of a step. -/
theorem respond_ok {e : Event} {r : Response} (h : s.respond e = .ok (t, r)) :
    s.step e = .ok t ∧ r = ⟨datagrams (t.trace.drop s.trace.length), s.result e⟩ := by
  obtain ⟨u, hu, hr⟩ := Fallible.bind_eq_ok.mp h
  cases hr
  exact ⟨hu, rfl⟩

theorem responses_cons_ok {e : Event} {es : List Event} {r : Response}
    (h : s.respond e = .ok (t, r)) : s.responses (e :: es) = .ok r :: t.responses es := by
  simp only [responses, h]

/-- A response in the list of responses is given by a step. -/
theorem exists_respond {e : Event} {es : List Event} {r : Response}
    {rs : List (Except Panic Response)} (h : s.responses (e :: es) = .ok r :: rs) :
    ∃ t, s.respond e = .ok (t, r) ∧ t.responses es = rs := by
  unfold responses at h
  cases hrespond : s.respond e with
  | error panic =>
    rw [hrespond] at h
    cases h
  | ok x =>
    rw [hrespond] at h
    obtain ⟨hr, hrest⟩ := List.cons.inj h
    cases hr
    exact ⟨x.1, rfl, hrest⟩

theorem Alike.result (h : s.Alike m base base' u) (e : Event) :
    s.result (e.shift m) = u.result e := by
  cases e with
  | packet data =>
    have hrelated := h.processDataPacket data
    simp only [Event.shift, Session.result]
    split_ifs
    · rfl
    · cases hs : s.processDataPacket data with
      | error panic =>
        cases hu : u.processDataPacket data with
        | error panic' => rfl
        | ok y =>
          rw [hs, hu] at hrelated
          exact hrelated.elim
      | ok x =>
        cases hu : u.processDataPacket data with
        | error panic' =>
          rw [hs, hu] at hrelated
          exact hrelated.elim
        | ok y =>
          rw [hs, hu] at hrelated
          exact hrelated.2
  | _ => rfl

/-- Sessions that are alike respond alike, and stay so. -/
theorem Alike.respond (h : s.Alike m base base' u) (e : Event) :
    Fallible.Related (fun x y => x.1.Alike m x.1.trace y.1.trace y.1 ∧ x.2 = y.2)
      (s.respond (e.shift m)) (u.respond e) := by
  refine (h.rebase.step e).bind ?_
  intro t t' ht
  refine ⟨ht.rebase, ?_⟩
  obtain ⟨ws, ws', hs, hu, heq⟩ := ht.wrote
  simp only [hs, hu, List.drop_left, heq, h.result]

/-- Sessions that are alike answer alike. -/
theorem Alike.responses (h : s.Alike m base base' u) (es : List Event) :
    s.responses (es.map (Event.shift m)) = u.responses es := by
  induction es generalizing s u base base' with
  | nil => rfl
  | cons e es ih =>
    have hrelated := h.respond e
    simp only [List.map_cons, Session.responses]
    cases hs : s.respond (e.shift m) with
    | error panic =>
      cases hu : u.respond e with
      | error panic' =>
        rw [hs, hu] at hrelated
        cases hrelated
        rfl
      | ok y =>
        rw [hs, hu] at hrelated
        exact hrelated.elim
    | ok x =>
      cases hu : u.respond e with
      | error panic' =>
        rw [hs, hu] at hrelated
        exact hrelated.elim
      | ok y =>
        rw [hs, hu] at hrelated
        obtain ⟨halike, hr⟩ := hrelated
        simp only [hr, ih halike]

theorem respond_packet {data : List Byte} {p : Packet} {r : Option (List Byte)}
    (hparse : parsePacket data = .ok (.ok p)) (hp : s.processPacket p = .ok (t, r)) :
    s.respond (.packet data) = .ok (t, ⟨datagrams (t.trace.drop s.trace.length), .ok r⟩) := by
  have hresult : s.result (.packet data) = .ok r := by
    simp only [Session.result, if_neg (Nat.not_lt.mpr (length_of_parsePacket hparse)),
      processDataPacket_eq hparse hp]
  unfold respond
  rw [step_packet_eq hparse hp, hresult]
  rfl

end Session

end Udpfsd.Udprdma
