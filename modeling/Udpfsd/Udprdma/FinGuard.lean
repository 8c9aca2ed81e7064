import Udpfsd.Udprdma.Content
import Udpfsd.Udprdma.Progress

/-!
# The FIN of the latest transfer

A transfer ends with a packet that has the FIN flag. Until it is acknowledged or given up,
this packet is the last one sent, it is held in the ring, and the timer waits for it. The
session compares 12-bit numbers by half ranges and keeps the last acknowledged number when
a new transfer takes the place of an unacknowledged one, so that all this holds as long as
a transfer is started with fewer than 2048 packets unacknowledged.
-/

namespace Udpfsd.Udprdma

/-- The packet carries the FIN of an answer, with the end of its data. -/
def Answer.Finishes (a : Answer) (packet : List Byte) : Prop :=
  ∃ seq seqAck header offset,
    packet = dataPacket seq seqAck true header (a.data.drop offset) ∧
      (header = a.header ∧ offset = 0 ∨ header = [])

/-- A chunk with the FIN flag has the end of the data. -/
theorem Transfer.finishes_nextChunk {t : Transfer} {data : List Byte} {c : Chunk}
    (h : t.nextChunk data = some c) (hfin : c.fin = true) (seq seqAck : SeqNr) :
    Answer.Finishes ⟨t.header, data⟩ (dataPacket seq seqAck c.fin c.header c.body) := by
  rw [hfin]
  unfold Transfer.nextChunk at h
  by_cases hfirst : t.offset = 0 ∧ 0 < t.header.length
  · rw [if_pos hfirst] at h
    rw [← Option.some.inj h] at hfin ⊢
    simp only [decide_eq_true_eq] at hfin
    refine ⟨seq, seqAck, t.header, 0, ?_, Or.inl ⟨rfl, rfl⟩⟩
    rw [List.take_of_length_le hfin, List.drop_zero]
  · rw [if_neg hfirst] at h
    by_cases hend : (data.length : ℤ) ≤ t.offset
    · rw [if_pos hend] at h
      cases h
    · rw [if_neg hend] at h
      rw [← Option.some.inj h] at hfin ⊢
      simp only [decide_eq_true_eq] at hfin
      refine ⟨seq, seqAck, [], t.offset.toNat, ?_, Or.inr rfl⟩
      rw [List.take_of_length_le]
      rw [List.length_drop]
      omega

/-- What the latest event that started a transfer was to send. -/
def Event.latest (e : Event) (latest : Option Answer) : Option Answer :=
  match e with
  | .sendData payload => payload.map (⟨[], ·⟩)
  | .sendRawDataWithHeader header data => data.map (⟨header, ·⟩)
  | _ => latest

theorem Event.latest_of_not_isSend {e : Event} (h : e.isSend = false) (latest : Option Answer) :
    e.latest latest = latest := by
  cases e <;> first | rfl | cases h

/-- A session with a record of the latest transfer. -/
structure Sender where
  /-- The session. -/
  sess : Session
  /-- The latest transfer. -/
  latest : Option Answer

/-- The states reached by events that meet the guard. -/
def Sender.Reachable (guard : Session → Event → Prop) : Sender → Prop :=
  Transition.Reachable (· = ⟨newSession, none⟩) (fun x y =>
    ∃ e, guard x.sess e ∧ x.sess.step e = .ok y.sess ∧ y.latest = e.latest x.latest)

/-- The last element is not dropped if the test fails for it. -/
theorem getLast?_dropWhile {α : Type*} {test : α → Bool} {l : List α} {a : α}
    (h : l.getLast? = some a) (ha : test a = false) : (l.dropWhile test).getLast? = some a := by
  induction l with
  | nil => cases h
  | cons x xs ih =>
    by_cases hx : test x = true
    · rw [List.dropWhile_cons_of_pos hx]
      cases xs with
      | nil =>
        cases h
        exact absurd (ha.symm.trans hx) Bool.false_ne_true
      | cons y ys => exact ih (by rwa [List.getLast?_cons_cons] at h)
    · rwa [List.dropWhile_cons_of_neg hx]

namespace Session

/-- A transfer is started only while fewer than 2048 packets are unacknowledged. -/
def Timely (s : Session) (e : Event) : Prop := e.isSend = true → s.unacked < 2048

/-- The pending FIN is the last packet sent and held in the ring; a pending transfer is the
latest one. -/
structure Marked (latest : Option Answer) (s : Session) : Prop where
  /-- No acknowledgement lags behind by more than half the range of numbers. -/
  distance : s.unacked ≤ 2048
  /-- The pending transfer. -/
  pending : ∀ data, s.transfer.data = some data → latest = some ⟨s.transfer.header, data⟩
  /-- The FIN. -/
  fin : s.finPending = true → s.unacked ≠ 0 ∧
    ∃ p a, s.ring.getLast? = some p ∧ latest = some a ∧ a.Finishes p.bytes

/-- Besides, the timer of an open session waits for it. -/
structure Guarded (latest : Option Answer) (s : Session) : Prop extends Marked latest s where
  /-- The timer. -/
  waits : s.closed = false → s.finPending = true → s.ack.ackWaitMode = .fin

variable {latest : Option Answer} {s t : Session}

theorem ackWaitMode_updateAckTimer_fin (hfin : s.finPending = true) (hflight : s.inFlight ≠ 0) :
    s.updateAckTimer.ack.ackWaitMode = .fin := by
  unfold updateAckTimer
  rw [if_neg hflight, if_pos (Or.inl hfin)]
  simp [armAckTimer, AckTimer.ackWaitMode_arm, hfin]

/-- Updating the timer guards a marked session. -/
theorem Marked.updateAckTimer (h : Marked latest s) : Guarded latest s.updateAckTimer := by
  have hmode : s.finPending = true → s.updateAckTimer.ack.ackWaitMode = .fin := by
    intro hfin
    obtain ⟨hunacked, p, a, hp, -⟩ := h.fin hfin
    have hring : s.ring ≠ [] := by
      intro hempty
      rw [hempty] at hp
      cases hp
    apply ackWaitMode_updateAckTimer_fin hfin
    rwa [inFlight_eq, if_neg hring]
  rw [updateAckTimer_eq]
  exact ⟨⟨h.distance, h.pending, h.fin⟩, fun _ => hmode⟩

/-- Packing a chunk marks the session if it is the last one. -/
theorem Marked.sent {data : List Byte} {c : Chunk} {slot : TxPacket} (h : Marked latest s)
    (hroom : s.ring = [] → s.unacked < 2048) (hnofin : s.finPending = false)
    (hpack : Packs s data c slot) : Marked latest (s.sent slot c) := by
  have hcount : (s.sent slot c).unacked ≤ 2048 ∧ (s.sent slot c).unacked ≠ 0 := by
    rcases unacked_sent hpack with hempty | ⟨hwindow, hnext⟩
    · have hless := hroom hempty
      rw [sent_eq]
      simp only [unacked] at hless ⊢
      bv_omega
    · simp only [sendWindow] at hwindow
      omega
  have hanswer := h.pending data hpack.pending
  refine ⟨hcount.1, ?_, ?_⟩
  · intro data' hdata'
    obtain ⟨-, htransfer⟩ := transfer_sent hdata'
    rw [htransfer] at hdata' ⊢
    exact h.pending data' hdata'
  · intro hfin
    have hlast : c.fin = true := by
      rw [sent_eq] at hfin
      simpa [hnofin] using hfin
    refine ⟨hcount.2, slot, _, ?_, hanswer, ?_⟩
    · rw [ring_sent slot c hpack.room, List.getLast?_append, List.getLast?_singleton]
      rfl
    · rw [hpack.bytes]
      exact Transfer.finishes_nextChunk hpack.next hlast _ _

theorem Marked.handleTransfer (h : Marked latest s) (hroom : s.ring = [] → s.unacked < 2048)
    (hcut : s.Cutting) (ht : s.handleTransfer = .ok t) : Guarded latest t := by
  obtain ⟨u, batch, ⟨hu, -, -⟩, -, rfl⟩ := handleTransfer_invariant
    (P := fun u _ => Marked latest u ∧ (u.ring = [] → u.unacked < 2048) ∧ u.Cutting)
    (fun u batch data c slot hpack hu => ⟨hu.1.sent hu.2.1 (hu.2.2 data hpack.pending).1 hpack,
      by simp [ring_sent slot c hpack.room], hu.2.2.sent hpack⟩)
    (fun u batch data _ _ _ hu => ⟨⟨hu.1.distance, (fun data hdata => by cases hdata), hu.1.fin⟩,
      hu.2.1, by simp [Cutting, clearTransfer]⟩)
    ht ⟨h, hroom, hcut⟩
  exact Marked.updateAckTimer ⟨hu.distance, hu.pending, hu.fin⟩

/-- The last packet of the ring survives an acknowledgement of an earlier one, if that is
not too far behind. -/
theorem getLast?_onAck {p : TxPacket} {q : SeqNr} (hp : s.ring.getLast? = some p)
    (hseq : p.seq = s.txSeqNr - 1) (hdistance : s.unacked ≤ 2048)
    (hbetween : seqBetween s.txSeqNrAcked q (s.txSeqNr - 1) = true) (hlast : q ≠ s.txSeqNr - 1) :
    (s.ring.dropWhile (fun p => 2048 ≤ (p.seq - q - 1).toNat)).getLast? = some p := by
  have hle := toNat_sub_le_of_seqBetween hbetween
  refine getLast?_dropWhile hp ?_
  simp only [unacked] at hdistance
  simp only [hseq, decide_eq_false_iff_not]
  bv_omega

/-- An acknowledgement that is not ignored leaves the session guarded, and frees all of the
ring only if it acknowledges everything. -/
theorem Guarded.onAck (h : Guarded latest s) (hring : s.RingInv []) (q : SeqNr) :
    s.onAck q = s ∨
      (Guarded latest (s.onAck q) ∧ ((s.onAck q).ring = [] → (s.onAck q).unacked < 2048)) := by
  rcases onAck_cases s q with heq | ⟨hne, hbetween, a, -, heq⟩
  · exact Or.inl heq
  right
  have hle := toNat_sub_le_of_seqBetween hbetween
  have hdistance := h.distance
  by_cases hlast : q = s.txSeqNr - 1
  · have hzero : (s.onAck q).unacked = 0 := by
      rw [heq, hlast]
      simp only [unacked]
      bv_omega
    have hnofin : (s.onAck q).finPending = false := by
      rw [heq]
      simp [hlast]
    refine ⟨⟨⟨by omega, ?_, ?_⟩, ?_⟩, by omega⟩
    · rw [heq]
      exact h.pending
    · simp [hnofin]
    · simp [hnofin]
  · have hprune : (s.onAck q).ring =
        s.ring.dropWhile (fun p => 2048 ≤ (p.seq - q - 1).toNat) := by
      rw [heq, ← ring_pruneAcked]
      rfl
    obtain ⟨p, hp, hseq⟩ := hring.getLast? hne
    have hkept := getLast?_onAck hp hseq hdistance hbetween hlast
    have hmarked : Marked latest { s with
        txSeqNrAcked := q
        txReadIndex := pruneLoop q s.ring s.txReadIndex
        retransmitAttempts := 0 } := by
      refine ⟨?_, h.pending, ?_⟩
      · simp only [unacked] at hdistance ⊢
        bv_omega
      · intro hfin
        obtain ⟨-, p', a, hp', ha, hfinishes⟩ := h.fin hfin
        cases hp.symm.trans hp'
        refine ⟨?_, p, a, ?_, ha, hfinishes⟩
        · simp only [unacked]
          bv_omega
        · rw [← hkept, ← ring_pruneAcked]
          rfl
    refine ⟨?_, ?_⟩
    · rw [onAck_eq_updateAckTimer hne hbetween hlast]
      exact hmarked.updateAckTimer
    · intro hempty
      rw [← hprune, hempty] at hkept
      cases hkept

/-- What is known of every open or closed session besides. -/
theorem rest_invariant : Invariant (fun s => s.Resting ∧ s.RingInv []) :=
  resting_invariant.and ringInv_invariant

theorem Guarded.onPeerAck (h : Guarded latest s) (hrest : s.Resting) (hring : s.RingInv [])
    {q : SeqNr} (ht : s.onPeerAck q = .ok t) : Guarded latest t := by
  rcases onPeerAck_cases ht with ⟨hdata, ht⟩ | ⟨-, rfl⟩
  · have hcut := (hrest.onAck q).1
    rcases h.onAck hring q with heq | ⟨hguarded, hroom⟩
    · rw [heq] at hdata ht hcut
      refine h.toMarked.handleTransfer ?_ hcut ht
      intro hempty
      obtain ⟨data, hdata⟩ := Option.isSome_iff_exists.mp hdata
      obtain ⟨-, -, -, -, -, hwindow⟩ := hrest.pending data hdata
      rw [inFlight_eq, if_pos hempty] at hwindow
      simp [sendWindow] at hwindow
    · exact hguarded.toMarked.handleTransfer hroom hcut ht
  · rcases h.onAck hring q with heq | ⟨hguarded, -⟩
    · rwa [heq]
    · exact hguarded

theorem Guarded.onPeerNack (h : Guarded latest s) (q : SeqNr) :
    Guarded latest (s.onPeerNack q) := by
  obtain ⟨m, -, heq⟩ := onPeerNack_eq s q
  rw [heq]
  exact Marked.updateAckTimer ⟨h.distance, h.pending, h.fin⟩

/-- A timeout repeats the FIN and waits again, or gives it up. -/
theorem Marked.handleAckTimeout (h : Marked latest s) : Guarded latest s.handleAckTimeout := by
  rcases handleAckTimeout_cases s with ⟨hnofin, -, heq⟩ | ⟨-, m, -, hrounds⟩
  · rw [heq]
    refine ⟨⟨h.distance, h.pending, h.fin⟩, ?_⟩
    intro _ hfin
    exact absurd (hnofin.symm.trans hfin) Bool.false_ne_true
  · rcases hrounds with ⟨-, heq⟩ | ⟨-, -, heq⟩ | ⟨-, hnofin, heq⟩
    · rw [heq]
      refine ⟨⟨h.distance, h.pending, h.fin⟩, ?_⟩
      intro _ hfin
      have hfin : s.finPending = true := hfin
      simp [armAckTimer, AckTimer.ackWaitMode_arm, hfin]
    · rw [heq]
      exact ⟨⟨h.distance, h.pending, (fun hfin => by cases hfin)⟩, (fun _ hfin => by cases hfin)⟩
    · rw [heq]
      refine ⟨⟨h.distance, (fun data hdata => by cases hdata), h.fin⟩, ?_⟩
      intro _ hfin
      exact absurd (hnofin.symm.trans hfin) Bool.false_ne_true

theorem Guarded.runCallback (h : Guarded latest s) (i : ℕ) : Guarded latest (s.runCallback i) := by
  rw [runCallback_eq]
  split_ifs
  · exact Marked.handleAckTimeout ⟨h.distance, h.pending, h.fin⟩
  · exact ⟨⟨h.distance, h.pending, h.fin⟩, h.waits⟩

theorem Guarded.resetSession (s : Session) : Guarded latest s.resetSession := by
  obtain ⟨ws, -, heq⟩ := resetSession_eq s
  rw [heq]
  refine ⟨⟨?_, (fun data hdata => by cases hdata), (fun hfin => by cases hfin)⟩,
    (fun _ hfin => by cases hfin)⟩
  show ((0 : SeqNr) - 0xFFF - 1).toNat ≤ 2048
  decide

/-- Whatever the peer sends, the FIN stays guarded. -/
theorem guarded_lasting (latest : Option Answer) :
    Lasting (fun s => (s.Resting ∧ s.RingInv []) ∧ Guarded latest s) where
  counters := fun s m hm h => ⟨rest_invariant.counters s m hm h.1,
    ⟨h.2.distance, h.2.pending, h.2.fin⟩, h.2.waits⟩
  received := fun s n h => ⟨rest_invariant.received s n h.1,
    ⟨h.2.distance, h.2.pending, h.2.fin⟩, h.2.waits⟩
  sendACK := fun s ack h => ⟨rest_invariant.sendACK s ack h.1,
    ⟨h.2.distance, h.2.pending, h.2.fin⟩, h.2.waits⟩
  onPeerAck := fun s t q hq h ht => ⟨rest_invariant.onPeerAck s t q hq h.1 ht,
    h.2.onPeerAck h.1.1 h.1.2 ht⟩
  onPeerNack := fun s q h => ⟨rest_invariant.onPeerNack s q h.1, h.2.onPeerNack q⟩
  expire := fun s h => ⟨rest_invariant.expire s h.1,
    ⟨h.2.distance, h.2.pending, h.2.fin⟩, h.2.waits⟩
  callback := fun s i h => ⟨rest_invariant.callback s i h.1, h.2.runCallback i⟩
  resetSession := fun s h => ⟨rest_invariant.resetSession s h.1, Guarded.resetSession s⟩
  setResetCallback := fun s h => ⟨rest_invariant.setResetCallback s h.1,
    ⟨h.2.distance, h.2.pending, h.2.fin⟩, h.2.waits⟩
  close := fun s h => by
    refine ⟨rest_invariant.close s h.1, ?_⟩
    unfold Session.close
    split_ifs
    · exact h.2
    · exact ⟨⟨h.2.distance, h.2.pending, h.2.fin⟩,
        fun hopen => absurd hopen (by simp [stopAckTimer])⟩

/-- A transfer that is started in time is guarded. -/
theorem Guarded.start {transfer : Transfer} (hdistance : s.unacked < 2048)
    (hlatest : ∀ data, transfer.data = some data → latest = some ⟨transfer.header, data⟩)
    (hcut : { s.resetSendState with transfer := transfer }.Cutting)
    (ht : { s.resetSendState with transfer := transfer }.handleTransfer = .ok t) :
    Guarded latest t := by
  refine Marked.handleTransfer ⟨?_, hlatest, (fun hfin => by cases hfin)⟩ (fun _ => ?_) hcut ht
  · exact Nat.le_of_lt hdistance
  · exact hdistance

/-- Every timely event keeps the FIN guarded. -/
theorem Guarded.step {e : Event} (hrest : s.Resting ∧ s.RingInv []) (h : Guarded latest s)
    (htimely : s.Timely e) (ht : s.step e = .ok t) : Guarded (e.latest latest) t := by
  cases hsend : e.isSend with
  | false =>
    rw [Event.latest_of_not_isSend hsend]
    exact ((guarded_lasting latest).step hsend ⟨hrest, h⟩ ht).2
  | true =>
    cases e with
    | sendData payload =>
      refine Guarded.start (htimely rfl) ?_ (Cutting.start_transfer rfl (Or.inr ⟨rfl, rfl⟩)) ht
      rintro data ⟨⟩
      rfl
    | sendRawDataWithHeader header data =>
      refine Guarded.start (htimely rfl) ?_
        (Cutting.start_transfer rfl (Or.inl (optimalChunkSize_eq _))) ht
      rintro data ⟨⟩
      rfl
    | _ => cases hsend

end Session

/-- In every run in which transfers are started with fewer than 2048 packets unacknowledged,
whatever the peer does: while a FIN is pending in an open session, the last packet sent is
the FIN packet of the latest transfer, it is in the ring, and the timer is armed for it. -/
theorem Sender.fin_is_protected {x : Sender} (hx : x.Reachable Session.Timely)
    (hopen : x.sess.closed = false) (hfin : x.sess.finPending = true) :
    (∃ p ∈ x.sess.ring, p.seq = x.sess.txSeqNr - 1 ∧
      ∃ a, x.latest = some a ∧ a.Finishes p.bytes) ∧
    x.sess.ack.ackWaitMode = .fin ∧ x.sess.ack.ackTimerExpectSeq = x.sess.ack.ackTimerSeq ∧
    (x.sess.ack.ackTimer.active.isSome ∨ x.sess.ack.ackTimer.started ≠ []) := by
  have hinv : (x.sess.Resting ∧ x.sess.RingInv []) ∧ x.sess.Guarded x.latest := by
    refine Transition.Reachable.invariant
      (P := fun x => (x.sess.Resting ∧ x.sess.RingInv []) ∧ x.sess.Guarded x.latest) ?_ ?_ hx
    · rintro x rfl
      exact ⟨Session.rest_invariant.start, ⟨by decide,
        (fun data hdata => by cases hdata), (fun hfin => by cases hfin)⟩,
        (fun _ hfin => by cases hfin)⟩
    · rintro x y - ⟨hrest, hguarded⟩ ⟨e, htimely, hstep, hlatest⟩
      rw [hlatest]
      exact ⟨Session.rest_invariant.step hrest hstep, hguarded.step hrest htimely hstep⟩
  obtain ⟨⟨hrest, hring⟩, hguarded⟩ := hinv
  obtain ⟨-, p, a, hp, ha, hfinishes⟩ := hguarded.fin hfin
  have hne : x.sess.ring ≠ [] := by
    intro hempty
    rw [hempty] at hp
    cases hp
  obtain ⟨p', hp', hseq⟩ := hring.getLast? hne
  cases hp.symm.trans hp'
  have hmode := hguarded.waits hopen hfin
  obtain ⟨hexpect, htimer⟩ := hrest.timer hopen (by simp [hmode])
  exact ⟨⟨p, List.mem_of_getLast? hp, hseq, a, ha, hfinishes⟩, hmode, hexpect, htimer⟩

theorem Sender.fin_is_protected_after_sendData :
    ∃ s, newSession.step (.sendData (some [1])) = .ok s ∧ s.finPending = true ∧
      s.ack.ackWaitMode = .fin ∧ ∃ p ∈ s.ring, Answer.Finishes ⟨[], [1]⟩ p.bytes := by
  have hrun : ∃ s, newSession.step (.sendData (some [1])) = .ok s ∧ s.finPending = true ∧
      s.closed = false := ⟨_, rfl, rfl, rfl⟩
  obtain ⟨s, hstep, hfin, hopen⟩ := hrun
  have hreach : Sender.Reachable Session.Timely ⟨s, some ⟨[], [1]⟩⟩ :=
    .next (.start rfl) ⟨.sendData (some [1]), fun _ => by decide, hstep, rfl⟩
  obtain ⟨⟨p, hp, -, a, ha, hfinishes⟩, hmode, -⟩ := fin_is_protected hreach hopen hfin
  cases ha
  exact ⟨s, hstep, hfin, hmode, p, hp, hfinishes⟩

/-! ### Too many unacknowledged transfers -/

namespace Session

/-- A transfer of one byte takes one packet. -/
theorem handleTransfer_one {s : Session} (htransfer : s.transfer = ⟨[], some [1], 0, 1⟩)
    (hread : s.txReadIndex = 0) (hwrite : s.txWriteIndex = 0) :
    ∃ (u : Session) (slot : TxPacket), s.handleTransfer = .ok u.updateAckTimer ∧
      u.txSeqNr = s.txSeqNr + 1 ∧
      u.txSeqNrAcked = s.txSeqNrAcked ∧ u.closed = s.closed ∧ u.finPending = true ∧
      u.transfer.data = none ∧ u.ring = [slot] ∧ slot.seq = s.txSeqNr := by
  have hroom : s.txWriteIndex + 1 ≠ s.txReadIndex := by
    rw [hread, hwrite]
    decide
  have hempty : s.ring = [] := ring_eq_nil_iff.mpr (hread.trans hwrite.symm)
  have hflight : ¬ sendWindow ≤ s.inFlight := by
    simp [inFlight_eq, hempty, sendWindow]
  obtain ⟨t, pkt, hpack⟩ : ∃ t pkt, s.packDataPacket [] [1] true = .ok (t, pkt) :=
    packDataPacket_isOk true (by decide) hroom
  obtain ⟨-, -, -, slot, hseq, -, rfl⟩ := packDataPacket_ok hpack
  have hnext : s.transfer.nextChunk [1] = some ⟨[], [1], true, 1⟩ := by
    rw [htransfer]
    rfl
  have hloop : s.transferLoop (sendWindow + 2) [] =
      .ok (s.sent slot ⟨[], [1], true, 1⟩, [pkt]) := by
    rw [transferLoop]
    simp only [show s.transfer.data = some [1] by rw [htransfer], if_neg hflight, hnext]
    exact Fallible.bind_eq_ok.mpr ⟨_, hpack, rfl⟩
  refine ⟨{ s.sent slot ⟨[], [1], true, 1⟩ with
    trace := (s.sent slot ⟨[], [1], true, 1⟩).trace ++ batchWrites [pkt] }, slot, ?_, ?_⟩
  · rw [← writeBatch_eq]
    exact Fallible.bind_eq_ok.mpr ⟨_, hloop, rfl⟩
  · have hring : (s.sent slot ⟨[], [1], true, 1⟩).ring = [slot] := by
      rw [ring_sent slot _ hroom, hempty, List.nil_append]
    rw [sent_eq] at hring ⊢
    exact ⟨rfl, rfl, rfl, rfl, rfl, hring, hseq⟩

/-- The peer can leave any number of transfers unacknowledged. -/
theorem exists_unacknowledged (n : ℕ) :
    ∃ (u : Session) (slot : TxPacket), u.updateAckTimer.Reachable ∧
      u.txSeqNr = BitVec.ofNat 12 (n + 1) ∧ u.txSeqNrAcked = 0xFFF ∧ u.closed = false ∧
      u.finPending = true ∧ u.transfer.data = none ∧
      u.ring = [slot] ∧ slot.seq = BitVec.ofNat 12 n := by
  induction n with
  | zero =>
    obtain ⟨u, slot, hok, hseq, hacked, hclosed, hfin, hdata, hring, hslot⟩ := handleTransfer_one
      (s := { newSession.resetSendState with transfer := ⟨[], some [1], 0, 1⟩ }) rfl rfl rfl
    exact ⟨u, slot, .next (.start rfl) ⟨.sendData (some [1]), hok⟩, hseq, hacked, hclosed, hfin,
      hdata, hring, hslot⟩
  | succ n ih =>
    obtain ⟨v, -, hreach, hseq', hacked', hclosed', -⟩ := ih
    obtain ⟨u, slot, hok, hseq, hacked, hclosed, hfin, hdata, hring, hslot⟩ := handleTransfer_one
      (s := { v.updateAckTimer.resetSendState with transfer := ⟨[], some [1], 0, 1⟩ }) rfl rfl rfl
    rw [updateAckTimer_eq] at hseq hacked hclosed hslot
    refine ⟨u, slot, .next hreach ⟨.sendData (some [1]), hok⟩, ?_, hacked.trans hacked',
      hclosed.trans hclosed', hfin, hdata, hring, hslot.trans hseq'⟩
    have hnext : u.txSeqNr = v.txSeqNr + 1 := hseq
    rw [hnext, hseq']
    exact (BitVec.ofNat_add (n + 1) 1).symm

/-- An acknowledgement far behind the only packet of the ring removes that packet. -/
theorem onPeerAck_far {s : Session} {slot : TxPacket} {q : SeqNr} (hring : s.ring = [slot])
    (hdata : s.transfer.data = none)
    (hbetween : seqBetween s.txSeqNrAcked q (s.txSeqNr - 1) = true) (hlast : q ≠ s.txSeqNr - 1)
    (hfar : 2048 ≤ (slot.seq - q - 1).toNat) :
    ∃ t, s.onPeerAck q = .ok t ∧ t.closed = s.closed ∧ t.finPending = s.finPending ∧
      t.ring = [] ∧ t.ack.ackWaitMode = .none := by
  have hack := onAck_eq_updateAckTimer (by simp [hring]) hbetween hlast
  have hempty : { s with
      txSeqNrAcked := q
      txReadIndex := pruneLoop q s.ring s.txReadIndex
      retransmitAttempts := 0 }.ring = [] := by
    have hprune := ring_pruneAcked s q
    rwa [hring, List.dropWhile_cons_of_pos (by simpa using hfar), List.dropWhile_nil] at hprune
  have hstop : s.onAck q = { s with
      txSeqNrAcked := q
      txReadIndex := pruneLoop q s.ring s.txReadIndex
      retransmitAttempts := 0 }.stopAckTimer := by
    rw [hack, updateAckTimer, if_pos (by rw [inFlight_eq, if_pos hempty])]
  refine ⟨s.onAck q, ?_, ?_⟩
  · unfold onPeerAck
    rw [if_neg]
    rw [hstop]
    simp [stopAckTimer, hdata]
  · rw [hstop]
    exact ⟨rfl, rfl, hempty, rfl⟩

/-- With 4096 transfers unacknowledged the session takes its FIN for acknowledged and stops
the timer; with 2050 of them an acknowledgement of the first one removes the FIN from the
ring. -/
theorem fin_lost_after_unacked_transfers :
    (∃ s : Session, s.Reachable ∧ s.closed = false ∧ s.finPending = true ∧ s.ring ≠ [] ∧
      s.ack.ackWaitMode = .none) ∧
    ∃ s t : Session, s.Reachable ∧ s.step (.packet (controlPacket 0 0 true)) = .ok t ∧
      t.closed = false ∧ t.finPending = true ∧ t.ring = [] ∧ t.ack.ackWaitMode = .none := by
  constructor
  · obtain ⟨u, slot, hreach, hseq, hacked, hclosed, hfin, -, hring, -⟩ := exists_unacknowledged 4095
    refine ⟨u.updateAckTimer, hreach, ?_⟩
    have hflight : u.inFlight = 0 := by
      rw [inFlight_eq, hring, if_neg (by simp), unacked, hseq, hacked]
      decide
    have hstop : u.updateAckTimer = u.stopAckTimer := by
      rw [updateAckTimer, if_pos hflight]
    rw [hstop]
    refine ⟨hclosed, hfin, ?_, rfl⟩
    rw [show u.stopAckTimer.ring = [slot] from hring]
    simp
  · obtain ⟨u, slot, hreach, hseq, hacked, hclosed, hfin, hdata, hring, hslot⟩ :=
      exists_unacknowledged 2049
    have hparse := parsePacket_pack 0 ⟨0, dataFlagACK, 0, 0⟩ []
    rw [List.append_nil] at hparse
    have hnews : u.updateAckTimer.ring = [slot] := by
      rw [updateAckTimer_eq]
      exact hring
    rw [updateAckTimer_eq] at hreach hnews
    obtain ⟨t, ht, hclosed', hfin', hempty, hmode⟩ := onPeerAck_far (q := 0)
      (s := { u with ack := u.updateAckTimer.ack, metrics.packetsRx := u.metrics.packetsRx + 1 })
      hnews hdata (by simp only [hseq, hacked]; decide) (by simp only [hseq]; decide)
      (by rw [hslot]; decide)
    refine ⟨_, t, hreach, ?_, hclosed'.trans hclosed, hfin'.trans hfin, hempty, hmode⟩
    exact step_packet_eq (r := none) hparse (Fallible.bind_eq_ok.mpr ⟨t, ht, rfl⟩)

end Session

end Udpfsd.Udprdma
