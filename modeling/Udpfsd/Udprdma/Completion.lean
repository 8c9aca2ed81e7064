import Udpfsd.Udprdma.Content
import Udpfsd.Udprdma.Delivery

/-!
# When a transfer is complete

A receiver that has all packets of a transfer can be sent the next one. The session then has
nothing left to send, its next number is the one the receiver expects, and what is still
under way of the old transfer, repeated or late, has one of the numbers right before it, so
that none of it is taken for a packet of the new one. Before the first transfer the same
holds, since then there are control packets only.
-/

namespace Udpfsd.Udprdma

open Session

/-- The plan of a single packet has one packet. -/
theorem Plan.count_single {payload : List Byte} (nonempty : payload ≠ [])
    (fits : payload.length ≤ maxDataPayload) : (Plan.single payload nonempty fits).count = 1 := by
  have hpos := List.length_pos_iff.mpr nonempty
  have hfirst : (Plan.single payload nonempty fits).first = payload.length := rfl
  have hdata : (Plan.single payload nonempty fits).data = payload := rfl
  have hmax : (Plan.single payload nonempty fits).maxChunk = payload.length := rfl
  rw [Plan.count, hfirst, hdata, hmax, Nat.div_eq_of_lt (by omega)]

/-- The number of packets behind a header is bounded by that of full packets. -/
theorem Plan.count_withHeader_le {header data : List Byte} {words : ℕ} (pos : 0 < words)
    (le : words ≤ 15) (length_eq : header.length = 4 * words) :
    (Plan.withHeader header data pos le length_eq).count ≤ data.length / maxDataPayload + 2 := by
  have hdata : (Plan.withHeader header data pos le length_eq).data = data := rfl
  have hmax : (Plan.withHeader header data pos le length_eq).maxChunk = maxDataPayload := rfl
  rw [Plan.count, hdata, hmax]
  simp only [maxDataPayload]
  omega

/-- A property kept for some acknowledgements is kept for fewer. -/
theorem Session.Stable.mono {P : Session → Prop} {Ack Ack' : SeqNr → Prop} (h : Stable P Ack)
    (hack : ∀ q, Ack' q → Ack q) : Stable P Ack' :=
  ⟨h.counters, h.sendACK, fun s t q hq => h.onPeerAck s t q (hack q hq), h.onPeerNack, h.expire,
    h.callback⟩

/-- Everything received packets and the timer make the session do, short of a reset, keeps
what a session keeps that it does in any order. -/
def Session.Leads (s t : Session) : Prop :=
  ∀ P : Session → Prop, Stable P (fun _ => True) →
    (∀ u n, P u → P { u with rxSeqExpected := n }) → P s → P t

theorem Session.Leads.refl (s : Session) : s.Leads s := fun _ _ _ hs => hs

/-- A datagram that does not reset the session. -/
theorem Session.Leads.processPacket {s t : Session} {p : Packet} {r : Option (List Byte)}
    (hreset : ¬ s.isPeerReset p) (h : s.processPacket p = .ok (t, r)) : s.Leads t :=
  fun _ hP hreceived hs =>
    hP.processPacket (fun _ => trivial) hreceived (fun hpeer => absurd hpeer hreset) hs h

/-- Nothing has been sent yet but control packets. -/
structure Session.Unsent (s : Session) : Prop extends Session.Answering none [] s where
  /-- The next number is the first one. -/
  first : s.txSeqNr = 0

namespace Session.Unsent

variable {s t : Session}

theorem transfer_none (h : s.Unsent) : s.transfer.data = none := by
  cases hdata : s.transfer.data with
  | none => rfl
  | some data => cases h.pending data hdata

theorem onPeerAck (h : s.Unsent) {q : SeqNr} (ht : s.onPeerAck q = .ok t) : t.Unsent := by
  refine ⟨h.toAnswering.onPeerAck ht, ?_⟩
  have hseq : (s.onAck q).txSeqNr = 0 := by
    rcases onAck_cases s q with heq | ⟨-, -, a, -, heq⟩
    · rw [heq]
      exact h.first
    · rw [heq]
      exact h.first
  rcases onPeerAck_cases ht with ⟨hpending, -⟩ | ⟨-, rfl⟩
  · rw [transfer_onAck, h.transfer_none] at hpending
    cases hpending
  · exact hseq

theorem repeats (h : s.Unsent) (ht : s.Repeats t) : t.Unsent :=
  ⟨h.toAnswering.repeats ht, ht.txSeqNr.trans h.first⟩

theorem stable : Stable Unsent (fun _ => True) where
  counters := fun s m hm h => ⟨(Answering.stable none []).counters s m hm h.toAnswering, h.first⟩
  sendACK := fun s ack h => ⟨(Answering.stable none []).sendACK s ack h.toAnswering, h.first⟩
  onPeerAck := fun _ _ _ _ h ht => h.onPeerAck ht
  onPeerNack := fun s q h => h.repeats (repeats_onPeerNack s q)
  expire := fun s h => ⟨(Answering.stable none []).expire s h.toAnswering, h.first⟩
  callback := fun s i h => h.repeats (repeats_runCallback s i)

theorem received (h : s.Unsent) (n : SeqNr) : Session.Unsent { s with rxSeqExpected := n } :=
  ⟨h.toAnswering.received n, h.first⟩

end Session.Unsent

/-- The datagram is not taken by a receiver that expects this number. -/
def Stale (expected : SeqNr) (datagram : List Byte) : Prop :=
  ∀ p, parsePacket datagram = .ok (.ok p) → p.payload ≠ [] → p.hdr.seqNr ≠ expected

/-- A control packet has no payload. -/
theorem IsControl.payload_eq {datagram : List Byte} {p : Packet} (h : IsControl datagram)
    (hparse : parsePacket datagram = .ok (.ok p)) : p.payload = [] := by
  obtain ⟨seq, seqAck, ack, rfl⟩ := h
  have hcontent := parsePacket_pack seq ⟨seqAck, if ack then dataFlagACK else 0, 0, 0⟩ []
  rw [List.append_nil] at hcontent
  rw [controlPacket, hcontent] at hparse
  cases hparse
  rfl

theorem IsControl.stale {datagram : List Byte} (h : IsControl datagram) (expected : SeqNr) :
    Stale expected datagram :=
  fun _ hparse hpayload => absurd (h.payload_eq hparse) hpayload

namespace Delivery

variable {o : Outgoing} {start : SeqNr} {d : Delivery}

/-- Once the receiver has everything, the session has nothing more to send. -/
theorem Inv.complete (h : d.Inv o start) (hall : d.accepted.length = o.plan.count) :
    d.session.transfer.data = none ∧ d.session.txSeqNr = d.expected ∧
      reached start (d.log.take d.delivered) = o.plan.count := by
  obtain ⟨hsending, -, hdelivered, hr⟩ := h.log_spec
  have hmono := (reached_take_bounds start d.log hdelivered).1
  rw [List.take_length] at hmono
  have hle := hsending.le_count
  have hreached : reached start d.log = o.plan.count := by omega
  refine ⟨?_, ?_, by omega⟩
  · cases hdata : d.session.transfer.data with
    | none => rfl
    | some data =>
      have hinside := (hsending.pending data hdata).2.inside
      omega
  · rw [hsending.seq, h.expected, hall, hreached]

/-- Once the receiver has everything, what is still under way is not taken. -/
theorem Inv.stale (h : d.Inv o start) (hall : d.accepted.length = o.plan.count) {i : ℕ}
    {datagram : List Byte} (hget : d.log[i]? = some datagram) (hi : d.delivered ≤ i + 1) :
    Stale d.expected datagram := by
  obtain ⟨hsending, -⟩ := h.log_spec
  obtain ⟨-, -, hreached⟩ := h.complete hall
  obtain ⟨hlt, rfl⟩ := List.getElem?_eq_some_iff.mp hget
  rcases hsending.logged i hlt with hcontrol | ⟨j, hpacket, hj, -, hge⟩
  · exact IsControl.stale hcontrol _
  intro p hparse hpayload hnumber
  obtain ⟨p', hparse', hseq, -⟩ := hpacket.parse hj
  cases hparse.symm.trans hparse'
  have hmono := (reached_take_bounds start d.log hi).1
  have hstep := (reached_take_bounds start d.log (Nat.le_add_right i 1)).2
  rw [hseq, h.expected, hall] at hnumber
  simp only [sendWindow] at hge
  have heq := eq_of_number_eq (by omega) (by omega) hnumber
  omega

/-- What has been written since the transfer was started, after more has been written. -/
theorem Inv.log_session (h : d.Inv o start) {t : Session} {ws : List Write}
    (htrace : t.trace = d.session.trace ++ ws) :
    Delivery.log { d with session := t } = d.log ++ datagrams ws := by
  obtain ⟨log, hlog, -⟩ := h.underway
  have hle : d.before.length ≤ (datagrams d.session.trace).length := by
    rw [hlog, List.length_append]
    omega
  simp only [Delivery.log, htrace, datagrams_append]
  exact List.drop_append_of_le_length hle

end Delivery

end Udpfsd.Udprdma
