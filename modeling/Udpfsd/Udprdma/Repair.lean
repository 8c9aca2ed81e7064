import Udpfsd.Udprdma.Delivery
import Udpfsd.Udprdma.Nack
import Udpfsd.Udprdma.Window

/-!
# Lost packets are sent again

However many datagrams of a transfer have been lost, the receiver gets the rest of it as long
as the session has not given up. It acknowledges what it has and asks for what it misses; the
acknowledgement discards from the ring what it has and opens the window, and the NACK, now for
the oldest packet held, has the whole ring written again. If nothing is lost in one such
exchange, the receiver is at least a window further, or has everything.
-/

namespace Udpfsd.Udprdma

open SeqSpace

/-- An acknowledgement of a receiver that expects this number, sent not too long ago. -/
def Fresh (expected q : SeqNr) : Prop := (expected - 1 - q).toNat + (sendWindow + 1) < 2048

/-- Writing more reaches at least as far. -/
theorem reached_le_append (start : SeqNr) (log news : List (List Byte)) :
    reached start log ≤ reached start (log ++ news) := by
  have hmono := (foldl_nextPacket_bounds start (reached start log) news).1
  rwa [reached, reached, List.foldl_append] at *

namespace Session

/-- The session can serve a receiver that expects this number: what the receiver misses of the
packets sent is in the ring, and is counted as unacknowledged. -/
structure Serves (expected : SeqNr) (s : Session) : Prop where
  /-- What is missing is held. -/
  held : (s.txSeqNr - expected).toNat ≤ s.ring.length
  /-- What is missing is counted. -/
  counted : (s.txSeqNr - expected).toNat ≤ s.unacked
  /-- The count is far from wrapping around. -/
  unacked_le : s.unacked ≤ 2048
  /-- With an empty ring one more packet is sent whatever the count is. -/
  unacked_lt : s.ring = [] → s.unacked < 2048

variable {s t : Session} {expected : SeqNr}

theorem Serves.of_eq (h : s.Serves expected) (hring : t.ring = s.ring)
    (hseq : t.txSeqNr = s.txSeqNr) (hunacked : t.unacked = s.unacked) : t.Serves expected := by
  refine ⟨?_, ?_, ?_, ?_⟩
  · rw [hseq, hring]
    exact h.held
  · rw [hseq, hunacked]
    exact h.counted
  · rw [hunacked]
    exact h.unacked_le
  · rw [hring, hunacked]
    exact h.unacked_lt

/-- One more packet is counted, if the count does not wrap around. -/
theorem unacked_sent_of_le {slot : TxPacket} {c : Chunk} (h : s.unacked ≤ 2048) :
    (s.sent slot c).unacked = s.unacked + 1 := by
  rw [sent_eq]
  simp only [unacked] at h ⊢
  bv_omega

/-- A packet is packed. -/
theorem Serves.sent {batch : List (List Byte)} {data : List Byte} {c : Chunk} {slot : TxPacket}
    (h : s.Serves expected) (hring : s.RingInv batch) (hpack : Packs s data c slot) :
    (s.sent slot c).Serves expected := by
  have hunacked : (s.sent slot c).unacked = s.unacked + 1 := unacked_sent_of_le h.unacked_le
  have hlength : (s.sent slot c).ring.length = s.ring.length + 1 := by
    rw [ring_sent slot c hpack.room, List.length_append, List.length_singleton]
  have hmissing : ((s.sent slot c).txSeqNr - expected).toNat =
      (s.txSeqNr - expected).toNat + 1 := by
    have hheld := h.held
    have hle := hring.length_le
    have hseq : (s.sent slot c).txSeqNr = s.txSeqNr + 1 := by
      rw [sent_eq]
    rw [hseq]
    simp only [sendWindow] at hle
    bv_omega
  have hheld := h.held
  have hcounted := h.counted
  refine ⟨by omega, by omega, ?_, ?_⟩
  · rw [hunacked]
    rcases unacked_sent hpack with hempty | ⟨hwindow, -⟩
    · have hlt := h.unacked_lt hempty
      omega
    · simp only [sendWindow] at hwindow
      omega
  · intro hempty
    rw [hempty] at hlength
    cases hlength

/-- `handleTransfer`. -/
theorem Serves.handleTransfer (h : s.Serves expected) (hring : s.RingInv [])
    (ht : s.handleTransfer = .ok t) : t.Serves expected := by
  obtain ⟨u, batch, ⟨hu, -⟩, -, rfl⟩ := handleTransfer_invariant
    (P := fun u batch => u.Serves expected ∧ u.RingInv batch)
    (fun u batch data c slot hpack hu => ⟨hu.1.sent hu.2 hpack, hu.2.sent hpack⟩)
    (fun u batch data _ _ _ hu => ⟨hu.1.of_eq rfl rfl rfl, hu.2⟩) ht ⟨h, hring⟩
  rw [updateAckTimer_eq]
  exact hu.of_eq rfl rfl rfl

/-- What the ring holds after an acknowledgement that is taken. -/
theorem onAck_taken {q : SeqNr} (hring : s.ring ≠ [])
    (hbetween : seqBetween s.txSeqNrAcked q (s.txSeqNr - 1) = true) :
    (s.onAck q).txSeqNrAcked = q ∧ (s.onAck q).unacked = (s.txSeqNr - q - 1).toNat ∧
      (s.onAck q).ring = s.ring.dropWhile (fun p => 2048 ≤ (p.seq - q - 1).toNat) := by
  have hindex : s.txReadIndex ≠ s.txWriteIndex := fun heq => hring (ring_eq_nil_iff.mpr heq)
  have hpruned : ({ s with txSeqNrAcked := q }.pruneAcked q).ring =
      s.ring.dropWhile (fun p => 2048 ≤ (p.seq - q - 1).toNat) := ring_pruneAcked _ q
  unfold onAck
  simp only [if_neg hindex, hbetween, Bool.not_true, Bool.false_eq_true, if_false]
  split_ifs
  · exact ⟨rfl, rfl, hpruned⟩
  · rw [updateAckTimer_eq]
    exact ⟨rfl, rfl, hpruned⟩

/-- `onAck` of a fresh number. -/
theorem Serves.onAck (h : s.Serves expected) (hring : s.RingInv []) {q : SeqNr}
    (hq : Fresh expected q) : (s.onAck q).Serves expected := by
  rcases onAck_cases s q with heq | ⟨hne, hbetween, -⟩
  · rw [heq]
    exact h
  obtain ⟨-, hunacked, hprune⟩ := onAck_taken hne hbetween
  have hheld := h.held
  have hle := hring.length_le
  have hkept := length_dropWhile_ge expected (s.txSeqNr - expected).toNat hring.consecutive hle
    (by
      simp only [BitVec.natCast_eq_ofNat]
      bv_omega)
    hheld hq
  have hcount : (s.txSeqNr - q - 1).toNat =
      (s.txSeqNr - expected).toNat + (expected - 1 - q).toNat := by
    simp only [Fresh, sendWindow] at hq hle
    bv_omega
  simp only [Fresh] at hq
  refine ⟨?_, ?_, ?_, ?_⟩
  · rw [txSeqNr_onAck, hprune]
    exact hkept
  · rw [txSeqNr_onAck, hunacked]
    omega
  · rw [hunacked]
    omega
  · intro
    rw [hunacked]
    omega

/-- What a session keeps until the transfer is replaced, for a receiver that expects this
number. -/
theorem serves_stable (expected : SeqNr) :
    Stable (fun s => s.RingInv [] ∧ s.Serves expected) (Fresh expected) where
  counters := fun s m hm h => ⟨ringInv_invariant.counters s m hm h.1, h.2.of_eq rfl rfl rfl⟩
  sendACK := fun s ack h => ⟨ringInv_invariant.sendACK s ack h.1, h.2.of_eq rfl rfl rfl⟩
  onPeerAck := fun s t q hq h ht => by
    refine ⟨h.1.onPeerAck ht, ?_⟩
    rcases onPeerAck_cases ht with ⟨-, ht⟩ | ⟨-, rfl⟩
    · exact (h.2.onAck h.1 hq).handleTransfer (h.1.onAck q) ht
    · exact h.2.onAck h.1 hq
  onPeerNack := fun s q h => by
    have hrepeats := repeats_onPeerNack s q
    exact ⟨h.1.repeats hrepeats, h.2.of_eq hrepeats.ring hrepeats.txSeqNr hrepeats.unacked⟩
  expire := fun s h => ⟨ringInv_invariant.expire s h.1, h.2.of_eq rfl rfl rfl⟩
  callback := fun s i h => by
    have hrepeats := repeats_runCallback s i
    exact ⟨h.1.repeats hrepeats, h.2.of_eq hrepeats.ring hrepeats.txSeqNr hrepeats.unacked⟩

/-- The receiver takes a packet. -/
theorem Serves.taken (h : s.Serves expected) (hmissing : s.txSeqNr ≠ expected) :
    s.Serves (expected + 1) := by
  have hless : (s.txSeqNr - (expected + 1)).toNat + 1 = (s.txSeqNr - expected).toNat := by
    bv_omega
  have hheld := h.held
  have hcounted := h.counted
  exact ⟨by omega, by omega, h.unacked_le, h.unacked_lt⟩

/-- The acknowledgement of everything before the expected packet leaves in the ring what is
missing. -/
theorem Serves.onAck_expected (h : s.Serves expected) (hring : s.RingInv []) :
    (s.onAck (expected - 1)).ring.length = (s.txSeqNr - expected).toNat ∧
      (s.ring ≠ [] → (s.onAck (expected - 1)).unacked = (s.txSeqNr - expected).toNat) := by
  have hheld := h.held
  by_cases hempty : s.ring = []
  · have hsame : s.onAck (expected - 1) = s := by
      rcases onAck_cases s (expected - 1) with heq | ⟨hne, -⟩
      · exact heq
      · exact absurd hempty hne
    rw [hempty, List.length_nil] at hheld
    rw [hsame, hempty]
    exact ⟨by rw [List.length_nil]; omega, fun hne => absurd rfl hne⟩
  · have hbetween : seqBetween s.txSeqNrAcked (expected - 1) (s.txSeqNr - 1) = true := by
      have hcounted := h.counted
      have hle := h.unacked_le
      simp only [unacked] at hcounted hle
      unfold seqBetween
      split_ifs with hle'
      · simp only [Bool.and_eq_true, decide_eq_true_eq]
        bv_omega
      · simp only [Bool.or_eq_true, decide_eq_true_eq]
        bv_omega
    obtain ⟨-, hunacked, hprune⟩ := onAck_taken hempty hbetween
    have hnumber : (s.txSeqNr - (expected - 1) - 1).toNat = (s.txSeqNr - expected).toNat := by
      bv_omega
    have hle := hring.length_le
    have hkept := length_dropWhile_acked hring.consecutive
      (by simp only [sendWindow] at hle; omega) (by rw [hnumber]; exact hheld)
    rw [hnumber] at hunacked hkept
    exact ⟨by rw [hprune, hkept], fun _ => hunacked⟩

/-- The transfer has not been given up: it goes on, or all its packets have been written. -/
def Open (plan : Plan) (start : SeqNr) (log : List (List Byte)) (s : Session) : Prop :=
  s.transfer.data.isSome ∨ reached start log = plan.count

variable {plan : Plan} {start : SeqNr} {r : ℕ} {base log : List (List Byte)}

/-- The number of packets that are missing. -/
theorem Sending.missing (h : Sending plan start r log s)
    (hlength : s.ring.length ≤ sendWindow + 1) (hr : r ≤ reached start log) :
    (s.txSeqNr - (start + (r : SeqNr))).toNat = reached start log - r := by
  have hsplit : (reached start log : SeqNr) =
      (r : SeqNr) + ((reached start log - r : ℕ) : SeqNr) := by
    rw [← Nat.cast_add, Nat.add_sub_cancel' hr]
  have hnear : reached start log - r < 4096 := by
    have hle := h.le_count
    simp only [sendWindow] at hlength
    rcases h.behind with hsmall | hbehind <;> omega
  rw [h.seq, hsplit]
  simp only [BitVec.natCast_eq_ofNat]
  bv_omega

theorem Sending.reached_sent {data : List Byte} {c : Chunk} {slot : TxPacket}
    (h : Sending plan start r log s) (hpack : Packs s data c slot) :
    reached start (log ++ [slot.bytes]) = reached start log + 1 := by
  have hseq := (h.sent hpack).seq
  rw [sent_eq] at hseq
  rw [reached_append_singleton] at hseq ⊢
  rcases nextPacket_cases start (reached start log) slot.bytes with hsame | hnext
  · rw [hsame] at hseq
    simp only [h.seq] at hseq
    bv_omega
  · exact hnext

/-- The last packet ends the transfer. -/
theorem Open.sent {data : List Byte} {c : Chunk} {slot : TxPacket}
    (h : Sending plan start r log s) (hpack : Packs s data c slot) :
    (s.sent slot c).Open plan start (log ++ [slot.bytes]) := by
  obtain ⟨rfl, hat⟩ := h.pending data hpack.pending
  have hchunk := Option.some.inj (hpack.next.symm.trans hat.nextChunk_eq)
  cases hfin : c.fin with
  | false =>
    refine Or.inl ?_
    rw [sent_eq]
    simp [hfin, hpack.pending]
  | true =>
    have hlast : plan.isLast (reached start log) = true := by
      rw [← hfin, hchunk]
    have hle := (h.sent hpack).le_count
    rw [Plan.isLast, decide_eq_true_eq] at hlast
    rw [h.reached_sent hpack] at hle
    exact Or.inr (by rw [h.reached_sent hpack]; omega)

/-- The window fills up again behind the `r` packets that the receiver has, and the packets of
`batch` are still to be written. -/
structure Refills (plan : Plan) (start : SeqNr) (r : ℕ) (base log : List (List Byte)) (u : Session)
    (batch : List (List Byte)) : Prop where
  /-- The plan is being sent. -/
  sending : Sending plan start r (log ++ batch) u
  /-- What has been written. -/
  trace : datagrams u.trace = base ++ log
  /-- The ring. -/
  ringInv : u.RingInv batch
  /-- The ring holds what is unacknowledged. -/
  counted : u.ring.length = u.unacked
  /-- The ring holds what the receiver misses. -/
  missing : u.ring.length = (u.txSeqNr - (start + (r : SeqNr))).toNat
  /-- The transfer has not been given up. -/
  isOpen : u.Open plan start (log ++ batch)

variable {u : Session} {batch : List (List Byte)}

/-- One more packet is added. -/
theorem Refills.sent {data : List Byte} {c : Chunk} {slot : TxPacket}
    (h : Refills plan start r base log u batch) (hpack : Packs u data c slot) :
    Refills plan start r base log (u.sent slot c) (batch ++ [slot.bytes]) := by
  have hsmall := h.ringInv.length_le
  have hcounted := h.counted
  have hmissing := h.missing
  have hring := ring_sent slot c hpack.room
  simp only [sendWindow] at hsmall
  refine ⟨?_, by rw [sent_eq]; exact h.trace, h.ringInv.sent hpack, ?_, ?_, ?_⟩
  · rw [← List.append_assoc]
    exact h.sending.sent hpack
  · rw [unacked_sent_of_le (by omega), hring, List.length_append, List.length_singleton]
    omega
  · rw [hring, List.length_append, List.length_singleton, sent_eq]
    simp only
    bv_omega
  · rw [← List.append_assoc]
    exact Open.sent h.sending hpack

/-- When nothing can be added, the window is full or everything has been sent. -/
theorem Refills.full (h : Refills plan start r base log u batch) (hr : r ≤ reached start log)
    (hexit : u.transfer.data = none ∨ sendWindow ≤ u.inFlight) :
    min plan.count (r + sendWindow) ≤ reached start (log ++ batch) := by
  rcases hexit with hnone | hwindow
  · rcases h.isOpen with hsome | hall
    · rw [hnone] at hsome
      cases hsome
    · omega
  · have hcounted := h.counted
    have hmissing := h.sending.missing h.ringInv.length_le
      (hr.trans (reached_le_append start log batch))
    rw [← h.missing] at hmissing
    rw [inFlight_eq] at hwindow
    split_ifs at hwindow
    · simp [sendWindow] at hwindow
    · simp only [sendWindow] at hwindow ⊢
      omega

/-- Once the receiver has acknowledged what it has, the ring holds what it misses, and the
window is full again or everything has been sent. -/
theorem Sending.acknowledged (h : Sending plan start r log s) (hring : s.RingInv [])
    (hrest : s.Resting) (hserves : s.Serves (start + (r : SeqNr)))
    (hopen : s.Open plan start log) (hr : r ≤ reached start log)
    (htrace : datagrams s.trace = base ++ log) :
    ∃ t news, s.onPeerAck (start + (r : SeqNr) - 1) = .ok t ∧
      datagrams t.trace = base ++ (log ++ news) ∧ Sending plan start r (log ++ news) t ∧
      t.Open plan start (log ++ news) ∧
      t.ring.length = (t.txSeqNr - (start + (r : SeqNr))).toNat ∧
      min plan.count (r + sendWindow) ≤ reached start (log ++ news) := by
  have hfresh : Fresh (start + (r : SeqNr)) (start + (r : SeqNr) - 1) := by
    unfold Fresh
    rw [sub_self]
    decide
  have hack := h.onAck hring (Or.inr hfresh)
  obtain ⟨hlength, hunacked⟩ := hserves.onAck_expected hring
  obtain ⟨t, ht⟩ := onPeerAck_isOk hring hrest (start + (r : SeqNr) - 1)
  rcases onPeerAck_cases ht with ⟨hpending, hsent⟩ | ⟨hdone, rfl⟩
  · -- the transfer goes on
    rw [transfer_onAck] at hpending
    have hne : s.ring ≠ [] := by
      obtain ⟨data, hdata⟩ := Option.isSome_iff_exists.mp hpending
      obtain ⟨-, -, -, -, -, hwindow⟩ := hrest.pending data hdata
      intro hempty
      rw [inFlight_eq, if_pos hempty] at hwindow
      simp [sendWindow] at hwindow
    have hstart : Refills plan start r base log (s.onAck (start + (r : SeqNr) - 1)) [] :=
      ⟨by rwa [List.append_nil], by rwa [trace_onAck], hring.onAck _, by rw [hlength, hunacked hne],
        by rw [hlength, txSeqNr_onAck],
        by rw [List.append_nil]; exact Or.inl (by rwa [transfer_onAck])⟩
    obtain ⟨u, batch, hu, hexit, rfl⟩ := handleTransfer_invariant
      (P := Refills plan start r base log) (fun u batch data c slot hpack hu => hu.sent hpack)
      (by
        rintro u batch data hdata - hnone hu
        obtain ⟨rfl, hat⟩ := hu.sending.pending data hdata
        rw [hat.nextChunk_eq] at hnone
        cases hnone)
      hsent hstart
    refine ⟨_, batch, ht, ?_⟩
    rw [updateAckTimer_eq]
    exact ⟨by simp [hu.trace], hu.sending.of_eq rfl rfl (Or.inl rfl), hu.isOpen, hu.missing,
      hu.full hr hexit⟩
  · -- everything has been sent before
    rw [transfer_onAck] at hdone
    have hall : reached start log = plan.count := by
      rcases hopen with hsome | hall
      · rw [hdone] at hsome
        cases hsome
      · exact hall
    refine ⟨_, [], ht, by rwa [List.append_nil, trace_onAck], by rwa [List.append_nil], ?_, ?_, ?_⟩
    · rw [List.append_nil]
      exact Or.inr hall
    · rw [hlength, txSeqNr_onAck]
    · rw [List.append_nil]
      omega

/-- A NACK for what is missing has the whole ring written again. -/
theorem RingInv.retransmitLoop_oldest (h : s.RingInv [])
    (hlength : s.ring.length = (s.txSeqNr - expected).toNat) :
    retransmitLoop expected s.ring = s.ring.map TxPacket.bytes := by
  have hle := h.length_le
  apply retransmitLoop_eq_map
  intro p hp
  obtain ⟨k, hpos, hk, heq⟩ := h.consecutive.mem (List.mem_map_of_mem hp)
  simp only [List.length_map, sendWindow, BitVec.natCast_eq_ofNat] at hk hle heq
  rw [heq]
  bv_omega

/-- An acknowledgement is processed. -/
theorem processPacket_ack {p : Packet} {m : MetricContainer} (hpayload : p.payload = [])
    (hack : p.isAck = true)
    (hm : m = { s.metrics with packetsRx := s.metrics.packetsRx + 1 })
    (ht : { s with metrics := m }.onPeerAck p.header.seqNrAck = .ok t) :
    s.processPacket p = .ok (t, none) := by
  subst hm
  unfold processPacket
  rw [if_pos hpayload, if_pos hack]
  exact Fallible.bind_eq_ok.mpr ⟨t, ht, rfl⟩

/-- A negative one is processed. -/
theorem processPacket_nack {p : Packet} (hpayload : p.payload = []) (hack : p.isAck = false) :
    ∃ m, m.peerResets = s.metrics.peerResets ∧
      s.processPacket p = .ok ({ s with metrics := m }.onPeerNack p.header.seqNrAck, none) := by
  unfold processPacket
  rw [if_pos hpayload, if_neg (by simp [hack])]
  exact ⟨_, by rfl, rfl⟩

end Session

/-- The packets of the ring, by their place in it. -/
theorem Recent.getElem {plan : Plan} {start : SeqNr} {n : ℕ} {bs : List (List Byte)}
    (h : Recent plan start n bs) {k : ℕ} (hk : k < bs.length) :
    plan.IsPacket start (n - bs.length + k) bs[k] := by
  induction bs generalizing k with
  | nil => cases hk
  | cons b bs ih =>
    obtain ⟨hlt, hb, hrest⟩ := h
    cases k with
    | zero =>
      rw [List.getElem_cons_zero, List.length_cons]
      rwa [show n - (bs.length + 1) + 0 = n - 1 - bs.length by omega]
    | succ k =>
      rw [List.length_cons] at hk ⊢
      rw [List.getElem_cons_succ]
      have hpacket := ih hrest (Nat.lt_of_succ_lt_succ hk)
      rwa [show n - (bs.length + 1) + (k + 1) = n - bs.length + k by omega]

namespace Delivery

/-- The steps of a receiver that acknowledges only what it has, and not too late. -/
inductive FairStep : Delivery → Delivery → Prop
  /-- The session sends an acknowledgement, or its timer runs. -/
  | timer {d : Delivery} {e : Event} {t : Session} :
      e.isQuiet → d.session.step e = .ok t → FairStep d { d with session := t }
  /-- A packet of the peer arrives: an ACK, a NACK, or a request. -/
  | packet {d : Delivery} {p : Packet} {t : Session} {r : Option (List Byte)} :
      ¬ d.session.isPeerReset p → (p.isAck → Fresh d.expected p.header.seqNrAck) →
      d.session.processPacket p = .ok (t, r) → FairStep d { d with session := t }
  /-- The network delivers one of the datagrams written. -/
  | deliver {d : Delivery} {i : ℕ} (hi : i < d.log.length) :
      d.delivered ≤ i + 2048 →
      FairStep d { d.receive d.log[i] with delivered := max d.delivered (i + 1) }

/-- The transfer has just been started, in a session that has not been left alone with too
many packets, and the receiver expects its first packet. -/
def FairStart (o : Outgoing) (d : Delivery) : Prop :=
  ∃ s : Session, s.Reachable ∧ s.unacked < 2048 ∧ o.send s = .ok d.session ∧
    d.before = datagrams s.trace ∧ d.delivered = 0 ∧ d.expected = s.txSeqNr ∧ d.accepted = []

/-- The states reached from the start of a transfer. -/
def FairReachable (o : Outgoing) : Delivery → Prop :=
  Transition.Reachable (FairStart o) FairStep

variable {o : Outgoing} {start : SeqNr} {d d' : Delivery}

/-- A fair step is a step. -/
theorem FairStep.step (h : FairStep d d') : Step o d d' := by
  cases h with
  | timer he ht => exact .timer he ht
  | packet hreset hack ht => exact .packet hreset (fun hflag => Or.inr (hack hflag)) ht
  | deliver hi hreorder => exact .deliver hi hreorder

/-- What holds in the runs of such a receiver. -/
structure Fair (o : Outgoing) (start : SeqNr) (d : Delivery) : Prop where
  /-- The receiver has the first packets. -/
  inv : d.Inv o start
  /-- The session can serve it. -/
  serves : d.session.Serves d.expected
  /-- A pending transfer waits for the window to open. -/
  resting : d.session.Resting

/-- The ring is in order. -/
theorem Fair.ringInv (h : d.Fair o start) : d.session.RingInv [] := h.inv.underway.ringInv

/-- What the receiver has taken has been sent. -/
theorem Inv.accepted_le (h : d.Inv o start) : d.accepted.length ≤ reached start d.log := by
  obtain ⟨-, -, hdelivered, hr⟩ := h.log_spec
  have hmono := (reached_take_bounds start d.log hdelivered).1
  rw [List.take_length] at hmono
  exact hr.trans hmono

/-- What the receiver has or has not taken. -/
theorem receive_cases (d : Delivery) (datagram : List Byte) :
    d.receive datagram = d ∨
      ∃ p, d.receive datagram =
        { d with expected := d.expected + 1, accepted := d.accepted ++ [p] } := by
  unfold receive
  split
  · split_ifs
    · exact Or.inr ⟨_, rfl⟩
    · exact Or.inl rfl
  · exact Or.inl rfl

/-- A fair step keeps it fair. -/
theorem Fair.step (h : d.Fair o start) (hstep : FairStep d d') : d'.Fair o start := by
  have hinv := h.inv.step hstep.step
  have hserves := Session.serves_stable d.expected
  have hboth := And.intro h.ringInv h.serves
  cases hstep with
  | @timer e t he ht =>
    refine ⟨hinv, ?_, Session.resting_invariant.step h.resting ht⟩
    cases e with
    | sendACK ack =>
      cases ht
      exact (hserves.sendACK _ ack hboth).2
    | expire =>
      cases ht
      exact (hserves.expire _ hboth).2
    | callback i =>
      cases ht
      exact (hserves.callback _ i hboth).2
    | sendData _ => cases he
    | sendRawDataWithHeader _ _ => cases he
    | packet _ => cases he
    | reset => cases he
    | setResetCallback => cases he
    | close => cases he
  | packet hreset hack ht =>
    refine ⟨hinv, ?_, ?_⟩
    · exact (hserves.processPacket hack
        (fun u n hu => ⟨Session.ringInv_invariant.received u n hu.1, hu.2.of_eq rfl rfl rfl⟩)
        (fun hpeer => absurd hpeer hreset) hboth ht).2
    · exact Session.resting_invariant.processPacket (fun _ => trivial)
        Session.resting_invariant.received (fun _ => Session.resting_invariant.resetSession)
        h.resting ht
  | @deliver i hi hreorder =>
    rcases receive_cases d d.log[i] with hsame | ⟨p, htaken⟩
    · refine ⟨hinv, ?_, ?_⟩
      · rw [hsame]
        exact h.serves
      · rw [hsame]
        exact h.resting
    · rw [htaken] at hinv ⊢
      refine ⟨hinv, ?_, h.resting⟩
      refine h.serves.taken ?_
      intro hnone
      obtain ⟨hsending, hlength, -⟩ := h.inv.log_spec
      have hmissing := hsending.missing hlength h.inv.accepted_le
      have hle := hinv.accepted_le
      rw [List.length_append, List.length_singleton] at hle
      rw [← h.inv.expected, hnone, sub_self] at hmissing
      have hlog : Delivery.log { d with
          expected := d.expected + 1, accepted := d.accepted ++ [p],
          delivered := max d.delivered (i + 1) } = d.log := rfl
      rw [hlog] at hle
      have hzero : (0 : SeqNr).toNat = 0 := rfl
      omega

/-- It starts fair. -/
theorem FairStart.fair (h : d.FairStart o) : ∃ start, d.Fair o start := by
  obtain ⟨s, hs, hunacked, hsend, hbefore, hdelivered, hexpected, haccepted⟩ := h
  obtain ⟨start, hinv⟩ := inv_of_start ⟨s, hsend, hbefore, hdelivered, hexpected, haccepted⟩
  refine ⟨start, hinv, ?_, ?_⟩
  · rw [hexpected]
    have hstart (transfer : Transfer)
        (ht : { s.resetSendState with transfer := transfer }.handleTransfer = .ok d.session) :
        d.session.Serves s.txSeqNr := by
      refine Session.Serves.handleTransfer ?_ (Session.RingInv.start_transfer _) ht
      refine ⟨?_, ?_, Nat.le_of_lt hunacked, fun _ => hunacked⟩
      · have hnone : (s.txSeqNr - s.txSeqNr).toNat = 0 := by rw [sub_self]; rfl
        exact hnone ▸ Nat.zero_le _
      · have hnone : (s.txSeqNr - s.txSeqNr).toNat = 0 := by rw [sub_self]; rfl
        exact hnone ▸ Nat.zero_le _
    cases o with
    | sendData payload nonempty fits => exact hstart _ hsend
    | sendRawDataWithHeader header data words pos le length_eq => exact hstart _ hsend
  · have hresting := Session.resting_invariant.reachable hs
    cases o with
    | sendData payload nonempty fits =>
      exact Session.resting_invariant.sendData _ _ _ hresting hsend
    | sendRawDataWithHeader header data words pos le length_eq =>
      exact Session.resting_invariant.sendRawDataWithHeader _ _ _ _ hresting hsend

/-- It stays fair. -/
theorem FairReachable.fair (h : FairReachable o d) : ∃ start, d.Fair o start := by
  refine Transition.Reachable.invariant (P := fun d => ∃ start, d.Fair o start) ?_ ?_ h
  · exact fun d hd => hd.fair
  · rintro d d' - ⟨start, hd⟩ hstep
    exact ⟨start, hd.step hstep⟩

/-! ### An exchange without loss -/

/-- The network delivers the datagram at this position. -/
def arrive (d : Delivery) (i : ℕ) : Delivery :=
  match d.log[i]? with
  | some datagram => { d.receive datagram with delivered := max d.delivered (i + 1) }
  | none => d

/-- The receiver acknowledges what it has and asks for the next packet, and gets all that is
written in response. -/
def exchange (seq : SeqNr) (d : Delivery) : Except Panic Delivery := do
  let (s, _) ← d.session.processDataPacket (controlPacket seq (d.expected - 1) true)
  let (s, _) ← s.processDataPacket (controlPacket seq d.expected false)
  let answered := { d with session := s }
  return (List.range' d.log.length (answered.log.length - d.log.length)).foldl arrive answered

theorem arrive_eq {i : ℕ} (hi : i < d.log.length) :
    d.arrive i = { d.receive d.log[i] with delivered := max d.delivered (i + 1) } := by
  unfold arrive
  rw [List.getElem?_eq_getElem hi]

/-- Receiving does not change the sender. -/
theorem arrive_frame (d : Delivery) (i : ℕ) :
    (d.arrive i).session = d.session ∧ (d.arrive i).before = d.before := by
  unfold arrive
  split
  · rename_i datagram hget
    rcases receive_cases d datagram with hsame | ⟨p, htaken⟩
    · rw [hsame]
      exact ⟨rfl, rfl⟩
    · rw [htaken]
      exact ⟨rfl, rfl⟩
  · exact ⟨rfl, rfl⟩

theorem log_arrive (d : Delivery) (i : ℕ) : (d.arrive i).log = d.log := by
  obtain ⟨hsession, hbefore⟩ := arrive_frame d i
  unfold Delivery.log
  rw [hsession, hbefore]

/-- A packet that is the next one, or an earlier one, has been taken after it arrived. -/
theorem Inv.arrive_taken (h : d.Inv o start) {i j : ℕ} (hi : i < d.log.length)
    (hpacket : o.plan.IsPacket start j d.log[i]) (hj : j < o.plan.count)
    (hle : j ≤ d.accepted.length) : j + 1 ≤ (d.arrive i).accepted.length := by
  obtain ⟨p, hparse, hseq, hpayload, -⟩ := hpacket.parse hj
  rw [arrive_eq hi]
  unfold receive
  rw [hparse]
  simp only
  split_ifs with htake
  · simp only [List.length_append, List.length_singleton]
    omega
  · have hother : j ≠ d.accepted.length := by
      intro heq
      refine htake ⟨?_, ?_⟩
      · rw [hpayload]
        exact o.plan.payload_ne_nil hj
      · rw [hseq, h.expected, heq]
    exact Nat.lt_of_le_of_ne hle hother

/-- Nothing accepted is lost. -/
theorem arrive_mono (d : Delivery) (i : ℕ) : d.accepted.length ≤ (d.arrive i).accepted.length := by
  unfold arrive
  split
  · rename_i datagram hget
    rcases receive_cases d datagram with hsame | ⟨p, htaken⟩
    · rw [hsame]
    · rw [htaken]
      simp
  · exact Nat.le_refl _

/-- What the receiver has after datagrams have arrived one after the other. -/
structure Arrived (d : Delivery) (a n : ℕ) (x : Delivery) : Prop where
  /-- Each of them is a step. -/
  steps : Relation.ReflTransGen FairStep d x
  session : x.session = d.session
  before : x.before = d.before
  delivered : x.delivered ≤ a + n
  /-- Nothing is forgotten. -/
  mono : d.accepted.length ≤ x.accepted.length

theorem Arrived.log {a n : ℕ} (h : Arrived d a n d') : d'.log = d.log := by
  unfold Delivery.log
  rw [h.session, h.before]

/-- Datagrams arrive one after another. -/
theorem arrived {a n : ℕ} (hdelivered : d.delivered ≤ a) (hlength : a + n ≤ d.log.length) :
    Arrived d a n ((List.range' a n).foldl arrive d) := by
  induction n generalizing a d with
  | zero => exact ⟨.refl, rfl, rfl, hdelivered, Nat.le_refl _⟩
  | succ n ih =>
    have hi : a < d.log.length := by omega
    obtain ⟨hsession, hbefore⟩ := arrive_frame d a
    have hstep : FairStep d (d.arrive a) := by
      rw [arrive_eq hi]
      exact .deliver hi (by omega)
    have hnext : (d.arrive a).delivered ≤ a + 1 := by
      rw [arrive_eq hi]
      simp only
      omega
    obtain ⟨hsteps, hsession', hbefore', hdelivered', hmono⟩ :=
      ih hnext (by rw [log_arrive]; omega)
    rw [List.range'_succ, List.foldl_cons]
    exact ⟨.head hstep hsteps, hsession'.trans hsession, hbefore'.trans hbefore, by omega,
      (arrive_mono d a).trans hmono⟩

/-- So do fair steps. -/
theorem Fair.steps (h : d.Fair o start) (hsteps : Relation.ReflTransGen FairStep d d') :
    d'.Fair o start := by
  induction hsteps with
  | refl => exact h
  | tail _ hstep ih => exact ih.step hstep

/-- Consecutive packets that arrive in order are all taken. -/
theorem Fair.arrived_taken {a n r : ℕ} (h : d.Fair o start) (hdelivered : d.delivered ≤ a)
    (hlength : a + n ≤ d.log.length) (hr : r ≤ d.accepted.length) (hcount : r + n ≤ o.plan.count)
    (hpackets : ∀ k (hk : k < n), o.plan.IsPacket start (r + k) d.log[a + k]) :
    r + n ≤ ((List.range' a n).foldl arrive d).accepted.length := by
  induction n generalizing a r d with
  | zero => exact hr
  | succ n ih =>
    have hi : a < d.log.length := by omega
    have htaken := h.inv.arrive_taken hi (hpackets 0 (Nat.succ_pos n)) (by omega) hr
    have hstep : FairStep d (d.arrive a) := by
      rw [arrive_eq hi]
      exact .deliver hi (by omega)
    have hnext : (d.arrive a).delivered ≤ a + 1 := by
      rw [arrive_eq hi]
      simp only
      omega
    have hlog := log_arrive d a
    have hrest := ih (h.step hstep) hnext (by rw [hlog]; omega) htaken (by omega) (by
      intro k hk
      have hpacket := hpackets (k + 1) (Nat.succ_lt_succ hk)
      simp only [hlog]
      simpa only [Nat.add_assoc, Nat.add_comm 1 k] using hpacket)
    rw [List.range'_succ, List.foldl_cons]
    omega

/-- The acknowledgement and the NACK of an exchange, as the session parses them. -/
def control (seq q : SeqNr) (ack : Bool) : Packet :=
  ⟨⟨packetData, seq⟩, ⟨q, if ack then dataFlagACK else 0, 0, 0⟩, []⟩

theorem parsePacket_control (seq q : SeqNr) (ack : Bool) :
    parsePacket (controlPacket seq q ack) = .ok (.ok (control seq q ack)) := by
  have hparse := parsePacket_pack seq ⟨q, if ack then dataFlagACK else 0, 0, 0⟩ []
  rw [List.append_nil] at hparse
  exact hparse

theorem isAck_control (seq q : SeqNr) (ack : Bool) : (control seq q ack).isAck = ack := by
  cases ack <;> simp [control, Packet.isAck, dataFlagACK]

/-- The acknowledgement of what the receiver has leaves in the ring what it misses. -/
theorem Fair.acked (h : d.Fair o start) (hopen : d.session.Open o.plan start d.log) (seq : SeqNr) :
    ∃ t news, d.session.processPacket (control seq (d.expected - 1) true) = .ok (t, none) ∧
      FairStep d { d with session := t } ∧ datagrams t.trace = d.before ++ (d.log ++ news) ∧
      t.Sending o.plan start d.accepted.length (d.log ++ news) ∧
      t.Open o.plan start (d.log ++ news) ∧ t.ring.length = (t.txSeqNr - d.expected).toNat ∧
      min o.plan.count (d.accepted.length + sendWindow) ≤ reached start (d.log ++ news) := by
  obtain ⟨hsending, -⟩ := h.inv.log_spec
  have htrace : datagrams d.session.trace = d.before ++ d.log := by
    obtain ⟨log, hlog, -⟩ := h.inv.underway
    rw [Delivery.log, hlog, List.drop_left]
  obtain ⟨m, hm⟩ : ∃ m, m = { d.session.metrics with
    packetsRx := d.session.metrics.packetsRx + 1 } := ⟨_, rfl⟩
  have hcounted : m.peerResets = d.session.metrics.peerResets := by rw [hm]
  have hserves : Session.Serves (start + (d.accepted.length : SeqNr))
      { d.session with metrics := m } := by
    rw [← h.inv.expected]
    exact h.serves.of_eq rfl rfl rfl
  obtain ⟨t, news, ht, htrace', hsent, hopen', hring, hmin⟩ := Session.Sending.acknowledged
    (s := { d.session with metrics := m }) (hsending.of_eq rfl rfl (Or.inl rfl))
    (Session.ringInv_invariant.counters _ m hcounted h.ringInv)
    (Session.resting_invariant.counters _ m hcounted h.resting) hserves hopen h.inv.accepted_le
    htrace
  rw [← h.inv.expected] at ht hring
  have hack : d.session.processPacket (control seq (d.expected - 1) true) = .ok (t, none) :=
    Session.processPacket_ack rfl (isAck_control _ _ _) hm ht
  refine ⟨t, news, hack, .packet (fun hreset => hreset.1 rfl) ?_ hack, htrace', hsent, hopen',
    hring, hmin⟩
  intro
  have hzero : d.expected - 1 - (d.expected - 1) = 0 := sub_self _
  unfold Fresh control
  rw [hzero]
  decide

/-- The NACK for the packet that is expected has the ring written again. -/
theorem Fair.nacked {log : List (List Byte)} (h : d.Fair o start)
    (htrace : datagrams d.session.trace = d.before ++ log)
    (hring : d.session.ring.length = (d.session.txSeqNr - d.expected).toNat) (seq : SeqNr) :
    ∃ w, d.session.processPacket (control seq d.expected false) = .ok (w, none) ∧
      FairStep d { d with session := w } ∧
      Delivery.log { d with session := w } = log ++ d.session.ring.map TxPacket.bytes ∧
      w.transfer = d.session.transfer := by
  obtain ⟨m, hresets, hnack⟩ := Session.processPacket_nack (s := d.session)
    (p := control seq d.expected false) rfl (isAck_control _ _ _)
  obtain ⟨hwritten, -, -, htransfer⟩ :=
    Session.onPeerNack_trace { d.session with metrics := m } d.expected
  have hagain : retransmitLoop d.expected d.session.ring = d.session.ring.map TxPacket.bytes :=
    h.ringInv.retransmitLoop_oldest hring
  refine ⟨{ d.session with metrics := m }.onPeerNack d.expected, hnack,
    .packet (fun hreset => hreset.1 rfl) ?_ hnack, ?_, htransfer⟩
  · intro hflag
    rw [isAck_control] at hflag
    cases hflag
  · have hall : datagrams ({ d.session with metrics := m }.onPeerNack d.expected).trace =
        d.before ++ (log ++ d.session.ring.map TxPacket.bytes) := by
      rw [hwritten, datagrams_append, datagrams_batchWrites, ← List.append_assoc, ← htrace,
        ← hagain]
      rfl
    simp only [Delivery.log, hall, List.drop_left]

section Exchange

variable (h : d.Fair o start) (hopen : d.session.Open o.plan start d.log)
include h hopen

/-- The receiver acknowledges what it has and asks for the next packet. -/
theorem Fair.answered (seq : SeqNr) :
    ∃ (t w : Session) (news : List (List Byte)) (ring : List (List Byte)),
      d.session.processPacket (control seq (d.expected - 1) true) = .ok (t, none) ∧
      t.processPacket (control seq d.expected false) = .ok (w, none) ∧
      FairStep d { d with session := t } ∧
      FairStep { d with session := t } { d with session := w } ∧
      Delivery.log { d with session := w } = d.log ++ (news ++ ring) ∧
      w.Open o.plan start (d.log ++ (news ++ ring)) ∧
      d.accepted.length + ring.length ≤ o.plan.count ∧
      min o.plan.count (d.accepted.length + sendWindow) ≤ d.accepted.length + ring.length ∧
      ∀ k (hk : k < ring.length), o.plan.IsPacket start (d.accepted.length + k) ring[k] := by
  obtain ⟨t, news, hack, hfirst, htrace, hsent, hopen', hring, hmin⟩ := h.acked hopen seq
  have hfair := h.step hfirst
  obtain ⟨w, hnack, hsecond, hlog, htransfer⟩ := hfair.nacked htrace hring seq
  simp only [List.append_assoc] at hlog
  have hr := h.inv.accepted_le.trans (reached_le_append start d.log news)
  have hmissing : t.ring.length = reached start (d.log ++ news) - d.accepted.length := by
    rw [hring, h.inv.expected]
    exact hsent.missing hfair.ringInv.length_le hr
  have hcount := hsent.le_count
  refine ⟨t, w, news, t.ring.map TxPacket.bytes, hack, hnack, hfirst, hsecond, hlog, ?_, ?_, ?_, ?_⟩
  · have hle := (hfair.step hsecond).inv.log_spec.1.le_count
    rw [hlog] at hle
    rcases hopen' with hpending | hall
    · refine Or.inl ?_
      rw [htransfer]
      exact hpending
    · have hmono := reached_le_append start (d.log ++ news) (t.ring.map TxPacket.bytes)
      rw [List.append_assoc] at hmono
      exact Or.inr (by omega)
  · rw [List.length_map]
    omega
  · rw [List.length_map]
    omega
  · intro k hk
    have hpacket := hsent.recent.getElem hk
    rw [List.length_map] at hpacket
    rwa [show reached start (d.log ++ news) - t.ring.length = d.accepted.length by omega]
      at hpacket

/-- An exchange brings the receiver at least a window further. -/
theorem Fair.exchange (seq : SeqNr) :
    ∃ d', d.exchange seq = .ok d' ∧ Relation.ReflTransGen FairStep d d' ∧
      d'.session.Open o.plan start d'.log ∧
      min o.plan.count (d.accepted.length + sendWindow) ≤ d'.accepted.length := by
  obtain ⟨t, w, news, ring, hack, hnack, hfirst, hsecond, hlog, hopen', hcount, hmin, hpackets⟩ :=
    h.answered hopen seq
  have hanswered := (h.step hfirst).step hsecond
  obtain ⟨-, -, hdelivered, -⟩ := h.inv.log_spec
  obtain ⟨x, hx⟩ : ∃ x, x = (List.range' d.log.length news.length).foldl arrive
    { d with session := w } := ⟨_, rfl⟩
  obtain ⟨y, hy⟩ : ∃ y, y = (List.range' (d.log.length + news.length) ring.length).foldl arrive x :=
    ⟨_, rfl⟩
  -- what the acknowledgement released arrives first, then the ring
  have hnews : Arrived { d with session := w } d.log.length news.length x := by
    rw [hx]
    refine arrived hdelivered ?_
    rw [hlog, List.length_append, List.length_append]
    omega
  have hlogx : x.log = d.log ++ (news ++ ring) := hnews.log.trans hlog
  have hlengthx : d.log.length + news.length + ring.length ≤ x.log.length := by
    rw [hlogx, List.length_append, List.length_append]
    omega
  have hring : Arrived x (d.log.length + news.length) ring.length y := by
    rw [hy]
    exact arrived hnews.delivered hlengthx
  have htaken : d.accepted.length + ring.length ≤ y.accepted.length := by
    rw [hy]
    refine (hanswered.steps hnews.steps).arrived_taken hnews.delivered hlengthx hnews.mono hcount ?_
    intro k hk
    have hget : x.log[d.log.length + news.length + k] = ring[k] := by
      simp only [hlogx, Nat.add_assoc]
      rw [List.getElem_append_right (Nat.le_add_right _ _)]
      simp
    rw [hget]
    exact hpackets k hk
  refine ⟨y, ?_, ?_, ?_, by omega⟩
  · have hrange : List.range' d.log.length
        ((Delivery.log { d with session := w }).length - d.log.length) =
          List.range' d.log.length news.length ++
            List.range' (d.log.length + news.length) ring.length := by
      rw [hlog, List.length_append, List.length_append, Nat.add_sub_cancel_left,
        List.range'_append_1]
    have hack' := Session.processDataPacket_eq (parsePacket_control _ _ _) hack
    have hnack' := Session.processDataPacket_eq (parsePacket_control _ _ _) hnack
    refine Fallible.bind_eq_ok.mpr ⟨(t, .ok none), hack', ?_⟩
    refine Fallible.bind_eq_ok.mpr ⟨(w, .ok none), hnack', ?_⟩
    simp only [hrange, List.foldl_append, ← hx, ← hy]
    rfl
  · exact ((Relation.ReflTransGen.single hfirst).tail hsecond).trans (hnews.steps.trans hring.steps)
  · rw [hring.log, hring.session, hnews.session, hlogx]
    exact hopen'

/-- Exchanges one after the other, each with its own number in the packets of the receiver. -/
theorem Fair.exchanges (seqs : List SeqNr) :
    ∃ d', seqs.foldlM (fun d seq => d.exchange seq) d = .ok d' ∧
      Relation.ReflTransGen FairStep d d' ∧
      min o.plan.count (d.accepted.length + sendWindow * seqs.length) ≤ d'.accepted.length := by
  induction seqs generalizing d with
  | nil =>
    refine ⟨d, rfl, .refl, ?_⟩
    rw [List.length_nil]
    omega
  | cons seq seqs ih =>
    obtain ⟨x, hx, hsteps, hopen', hless⟩ := h.exchange hopen seq
    obtain ⟨d', hd', hsteps', hless'⟩ := ih (h.steps hsteps) hopen'
    refine ⟨d', ?_, hsteps.trans hsteps', ?_⟩
    · rw [List.foldlM_cons]
      exact Fallible.bind_eq_ok.mpr ⟨x, hx, hd'⟩
    · rw [List.length_cons, Nat.mul_succ]
      omega

end Exchange

/-- Once a packet with the FIN flag has been written, all packets have been. -/
theorem Inv.reached_of_fin (h : d.Inv o start) {datagram : List Byte} {p : Packet}
    (hmem : datagram ∈ d.log) (hparse : parsePacket datagram = .ok (.ok p))
    (hfin : p.isFin = true) : reached start d.log = o.plan.count := by
  obtain ⟨hsending, -⟩ := h.log_spec
  obtain ⟨i, hi, rfl⟩ := List.mem_iff_getElem.mp hmem
  rcases hsending.logged i hi with ⟨seq, seqAck, ack, hcontrol⟩ | ⟨j, hpacket, hj, hle, hge⟩
  · rw [hcontrol, parsePacket_control] at hparse
    cases hparse
    cases ack <;> simp [control, Packet.isFin, dataFlagACK, dataFlagFIN] at hfin
  · obtain ⟨p', hparse', -, -, hlast⟩ := hpacket.parse hj
    cases hparse.symm.trans hparse'
    rw [hlast, Plan.isLast, decide_eq_true_eq] at hfin
    have hstep := nextPacket_isPacket hpacket hj hle hge
    rw [← reached_append_singleton, List.take_concat_get' d.log i hi] at hstep
    have hnext : i + 1 ≤ d.log.length := hi
    have hmono := (reached_take_bounds start d.log hnext).1
    rw [List.take_length] at hmono
    have hcount := hsending.le_count
    split_ifs at hstep <;> omega

/-- At every moment of a transfer, whatever has been lost, repeated or reordered so far and
however often the timer has run, unless the session has given up a transfer that it had not
written to the end: each exchange in which the receiver acknowledges what it has, asks for the
next packet and gets what is written in response, brings it at least `SendWindow` packets
further, or to the end. After enough of them it holds all of header and data. -/
theorem lost_packets_are_sent_again (h : FairReachable o d)
    (hopen : d.session.transfer.data.isSome ∨
      ∃ datagram ∈ d.log, ∃ p, parsePacket datagram = .ok (.ok p) ∧ p.isFin = true)
    (seqs : List SeqNr) :
    ∃ d', seqs.foldlM (fun d seq => d.exchange seq) d = .ok d' ∧ FairReachable o d' ∧
      min o.plan.count (d.accepted.length + sendWindow * seqs.length) ≤ d'.accepted.length ∧
      (o.plan.count ≤ d.accepted.length + sendWindow * seqs.length →
        d'.accepted.flatMap Packet.payload = o.content ++ List.replicate o.plan.padding 0) := by
  obtain ⟨start, hfair⟩ := h.fair
  have hopen' : d.session.Open o.plan start d.log := by
    rcases hopen with hpending | ⟨datagram, hmem, p, hparse, hfin⟩
    · exact Or.inl hpending
    · exact Or.inr (hfair.inv.reached_of_fin hmem hparse hfin)
  obtain ⟨d', hd', hsteps, hless⟩ := hfair.exchanges hopen' seqs
  have hreach : FairReachable o d' := by
    clear hd' hless
    induction hsteps with
    | refl => exact h
    | tail _ hstep ih => exact ih.next hstep
  refine ⟨d', hd', hreach, hless, ?_⟩
  intro henough
  have hinv := (hfair.steps hsteps).inv
  have hle := hinv.le_count
  exact hinv.whole_content (by omega)

/-- The only packet of a transfer is lost, and one exchange brings it. -/
theorem lost_packets_are_sent_again_after_one_loss :
    ∃ (o : Outgoing) (d d' : Delivery), FairReachable o d ∧ d.accepted = [] ∧
      [(0 : SeqNr)].foldlM (fun d seq => d.exchange seq) d = .ok d' ∧
      d'.accepted.flatMap Packet.payload = [1, 2, 3, 4, 5, 6, 7, 0] := by
  obtain ⟨t, ht, hlog⟩ : ∃ t,
      newSession.sendRawDataWithHeader [1, 2, 3, 4] (some [5, 6, 7]) = .ok t ∧
      datagrams t.trace = [dataPacket 0 4095 true [1, 2, 3, 4] [5, 6, 7]] := ⟨_, rfl, rfl⟩
  obtain ⟨o, ho⟩ : ∃ o : Outgoing, o = .sendRawDataWithHeader [1, 2, 3, 4] (some [5, 6, 7]) 1
    (by decide) (by decide) rfl := ⟨_, rfl⟩
  have hd : FairReachable o ⟨t, [], 0, 0, []⟩ := by
    refine .start ⟨newSession, .start rfl, by decide, ?_, rfl, rfl, rfl, rfl⟩
    rw [ho]
    exact ht
  have hlog' : (⟨t, [], 0, 0, []⟩ : Delivery).log =
      [dataPacket 0 4095 true [1, 2, 3, 4] [5, 6, 7]] := hlog
  obtain ⟨p, hparse, hfin⟩ : ∃ p, parsePacket (dataPacket 0 4095 true [1, 2, 3, 4] [5, 6, 7]) =
      .ok (.ok p) ∧ p.isFin = true := ⟨_, rfl, rfl⟩
  obtain ⟨d', hexchange, -, -, hwhole⟩ := lost_packets_are_sent_again hd
    (Or.inr ⟨_, by rw [hlog']; exact List.mem_singleton_self _, p, hparse, hfin⟩) [0]
  have hcount : o.plan.count ≤ sendWindow := by
    rw [ho]
    decide
  refine ⟨o, _, d', hd, rfl, hexchange, ?_⟩
  rw [hwhole (by simpa using hcount), ho]
  rfl

end Delivery

end Udpfsd.Udprdma
