import Udpfsd.Udprdma.Sending

/-!
# Delivery of a transfer

A receiver that takes a packet only under the number it expects takes the packets of the
plan one after the other, although the numbers wrap around, as long as datagrams are not
reordered too far. What it holds is at every moment a first part of header and data.
-/

namespace Udpfsd.Udprdma

/-- A transfer as the application starts it: a single packet, or a header of up to fifteen
words with any data, where `none` is the nil slice. -/
inductive Outgoing
  /-- `SendData`. -/
  | sendData (payload : List Byte) (nonempty : payload ≠ [])
      (fits : payload.length ≤ maxDataPayload)
  /-- `SendRawDataWithHeader`. -/
  | sendRawDataWithHeader (header : List Byte) (data : Option (List Byte)) (words : ℕ)
      (pos : 0 < words) (le : words ≤ 15) (length_eq : header.length = 4 * words)

namespace Outgoing

/-- Start the transfer. -/
def send (s : Session) : Outgoing → Except Panic Session
  | sendData payload _ _ => s.sendData (some payload)
  | sendRawDataWithHeader header data _ _ _ _ => s.sendRawDataWithHeader header data

/-- What the transfer is to deliver. -/
def content : Outgoing → List Byte
  | sendData payload _ _ => payload
  | sendRawDataWithHeader header data _ _ _ _ => header ++ data.getD []

/-- The packets of the transfer. -/
def plan : Outgoing → Plan
  | sendData payload nonempty fits => .single payload nonempty fits
  | sendRawDataWithHeader header data _ pos le length_eq =>
    .withHeader header (data.getD []) pos le length_eq

theorem content_eq (o : Outgoing) : o.content = o.plan.header ++ o.plan.data := by
  cases o <;> rfl

/-- A started transfer sends its plan, from the next number on. -/
theorem underway {o : Outgoing} {s t : Session} (h : o.send s = .ok t) :
    t.Underway o.plan s.txSeqNr (datagrams s.trace) 0 0 := by
  have hstart : ∀ transfer : Transfer,
      (∀ data, transfer.data = some data → data = o.plan.data ∧ o.plan.At transfer 0) →
      { s.resetSendState with transfer := transfer }.handleTransfer = .ok t →
      t.Underway o.plan s.txSeqNr (datagrams s.trace) 0 0 := by
    intro transfer hpending ht
    have hempty : { s.resetSendState with transfer := transfer }.ring = [] :=
      Session.ring_eq_nil_iff.mpr rfl
    have hsending : Session.Sending o.plan s.txSeqNr 0 []
        { s.resetSendState with transfer := transfer } := by
      refine ⟨Logged.nil, ?_, Nat.zero_le _, ?_, hpending, Or.inr (Nat.zero_le _)⟩
      · simp [reached, Session.resetSendState, Session.stopAckTimer]
      · rw [hempty]
        trivial
    obtain ⟨news, htrace, hsent⟩ := hsending.handleTransfer (datagrams s.trace)
      (by simp [Session.resetSendState, Session.stopAckTimer]) ht
    exact Session.Underway.of_append news htrace hsent
      ((Session.RingInv.start_transfer _).handleTransfer ht) (Nat.zero_le _) (Nat.zero_le _)
  cases o with
  | sendData payload nonempty fits =>
    refine hstart _ ?_ h
    intro data hdata
    cases hdata
    exact ⟨rfl, rfl, rfl, rfl, Plan.count_pos _⟩
  | sendRawDataWithHeader header data words pos le length_eq =>
    refine hstart _ ?_ h
    intro data hdata
    cases hdata
    exact ⟨rfl, rfl, optimalChunkSize_eq _, rfl, Plan.count_pos _⟩

end Outgoing

/-- A session that has started a transfer, the network behind it and a receiver that takes
payload packets in the order of their numbers only. -/
structure Delivery where
  /-- The sending session. -/
  session : Session
  /-- The datagrams written before the transfer was started. -/
  before : List (List Byte)
  /-- One more than the latest position, among the datagrams written since, of a datagram
  that has been delivered. -/
  delivered : ℕ
  /-- The number the receiver expects. -/
  expected : SeqNr
  /-- The packets the receiver has taken. -/
  accepted : List Packet

namespace Delivery

/-- The datagrams written since the transfer was started. -/
def log (d : Delivery) : List (List Byte) := (datagrams d.session.trace).drop d.before.length

/-- The receiver gets a datagram. -/
def receive (d : Delivery) (datagram : List Byte) : Delivery :=
  match parsePacket datagram with
  | .ok (.ok p) =>
    if p.payload ≠ [] ∧ p.hdr.seqNr = d.expected then
      { d with expected := d.expected + 1, accepted := d.accepted ++ [p] }
    else d
  | _ => d

/-- The transfer has just been started, in any state of the session, and the receiver
expects its first packet. -/
def Start (o : Outgoing) (d : Delivery) : Prop :=
  ∃ s, o.send s = .ok d.session ∧ d.before = datagrams s.trace ∧ d.delivered = 0 ∧
    d.expected = s.txSeqNr ∧ d.accepted = []

/-- The steps until the transfer is replaced or the peer restarts. Datagrams may be lost,
repeated, and overtaken by fewer than 2048 later ones. If packets of the transfer share
numbers, acknowledgements are those of the receiver, less than half the numbers old. -/
inductive Step (o : Outgoing) : Delivery → Delivery → Prop
  /-- The session sends an acknowledgement, or its timer runs. -/
  | timer {d : Delivery} {e : Event} {t : Session} :
      e.isQuiet → d.session.step e = .ok t → Step o d { d with session := t }
  /-- A packet of the peer arrives: an ACK, a NACK, or a request. -/
  | packet {d : Delivery} {p : Packet} {t : Session} {r : Option (List Byte)} :
      ¬ d.session.isPeerReset p →
      (p.isAck → o.plan.count < 4096 ∨
        (d.expected - 1 - p.header.seqNrAck).toNat + (sendWindow + 1) < 2048) →
      d.session.processPacket p = .ok (t, r) → Step o d { d with session := t }
  /-- The network delivers one of the datagrams written. -/
  | deliver {d : Delivery} {i : ℕ} (hi : i < d.log.length) :
      d.delivered ≤ i + 2048 →
      Step o d { d.receive d.log[i] with delivered := max d.delivered (i + 1) }

/-- The states reached from the start of a transfer. -/
def Reachable (o : Outgoing) : Delivery → Prop :=
  Transition.Reachable (Start o) (Step o)

/-- The receiver has taken the first packets of the plan. -/
structure Inv (o : Outgoing) (start : SeqNr) (d : Delivery) : Prop where
  /-- The session is sending the plan. -/
  underway : d.session.Underway o.plan start d.before d.delivered d.accepted.length
  /-- The receiver expects the next packet. -/
  expected : d.expected = start + (d.accepted.length : SeqNr)
  /-- Its packets are those of the plan. -/
  taken : ∀ i (hi : i < d.accepted.length), d.accepted[i].payload = o.plan.payload i ∧
    d.accepted[i].isFin = o.plan.isLast i
  /-- There are no packets behind the last one. -/
  le_count : d.accepted.length ≤ o.plan.count

variable {o : Outgoing} {d : Delivery}

theorem inv_of_start (h : d.Start o) : ∃ start, d.Inv o start := by
  obtain ⟨s, hsend, hbefore, hdelivered, hexpected, haccepted⟩ := h
  refine ⟨s.txSeqNr, ?_, ?_, ?_, ?_⟩
  · rw [hbefore, hdelivered, haccepted]
    exact Outgoing.underway hsend
  · rw [hexpected, haccepted]
    simp
  · simp [haccepted]
  · simp [haccepted]

/-- The log of a transfer that is under way. -/
theorem Inv.log_spec {start : SeqNr} (h : d.Inv o start) :
    Session.Sending o.plan start d.accepted.length d.log d.session ∧
      d.session.ring.length ≤ sendWindow + 1 ∧ d.delivered ≤ d.log.length ∧
      d.accepted.length ≤ reached start (d.log.take d.delivered) := by
  obtain ⟨log, htrace, hsending, hring, hdelivered, hr⟩ := h.underway
  have hlog : d.log = log := by rw [Delivery.log, htrace, List.drop_left]
  rw [hlog]
  exact ⟨hsending, hring.length_le, hdelivered, hr⟩

/-- The session did something; nothing was delivered. -/
theorem Inv.session {start : SeqNr} {t : Session} (h : d.Inv o start)
    (ht : t.Underway o.plan start d.before d.delivered d.accepted.length) :
    { d with session := t }.Inv o start :=
  ⟨ht, h.expected, h.taken, h.le_count⟩

/-- A control packet is not taken. -/
theorem receive_controlPacket (d : Delivery) (seq seqAck : SeqNr) (ack : Bool) :
    d.receive (controlPacket seq seqAck ack) = d := by
  have hparse := parsePacket_pack seq ⟨seqAck, if ack then dataFlagACK else 0, 0, 0⟩ []
  rw [List.append_nil] at hparse
  unfold receive controlPacket
  rw [hparse]
  simp

/-- Two packets less than 4096 apart have different numbers. -/
theorem eq_of_number_eq {start : SeqNr} {i j : ℕ} (hij : i < j + 4096) (hji : j < i + 4096)
    (h : start + (i : SeqNr) = start + (j : SeqNr)) : i = j := by
  simp only [BitVec.natCast_eq_ofNat] at h
  bv_omega

/-- The packet taken by the receiver can only be the next one of the plan. -/
theorem Inv.index_eq {start : SeqNr} {i j : ℕ} (h : d.Inv o start)
    (hreorder : d.delivered ≤ i + 2048) (hj : j < o.plan.count)
    (hle : j ≤ reached start (d.log.take i))
    (hge : reached start (d.log.take i) ≤ j + (sendWindow + 1)) (hi : i < d.log.length)
    (hnumber : start + (j : SeqNr) = d.expected) : j = d.accepted.length := by
  obtain ⟨hsending, hring, hdelivered, hr⟩ := h.log_spec
  have hcount := h.le_count
  have hfar : d.accepted.length < j + 4096 := by
    have hbound : d.accepted.length ≤ reached start (d.log.take i) + 2048 := by
      by_cases horder : i ≤ d.delivered
      · have hsteps := (reached_take_bounds start d.log horder).2
        omega
      · have hsteps := (reached_take_bounds start d.log (Nat.le_of_not_le horder)).1
        omega
    simp only [sendWindow] at hge
    omega
  have hnear : j < d.accepted.length + 4096 := by
    have hall := (reached_take_bounds start d.log (Nat.le_of_lt hi)).1
    rw [List.take_length] at hall
    rcases hsending.behind with hsmall | hbehind
    · omega
    · simp only [sendWindow] at hring
      omega
  rw [h.expected] at hnumber
  exact eq_of_number_eq hnear hfar hnumber

/-- Delivering a datagram lets the receiver take the next packet, or none. -/
theorem Inv.deliver {start : SeqNr} {i : ℕ} (h : d.Inv o start) (hi : i < d.log.length)
    (hreorder : d.delivered ≤ i + 2048) :
    { d.receive d.log[i] with delivered := max d.delivered (i + 1) }.Inv o start := by
  obtain ⟨hsending, -, hdelivered, hr⟩ := h.log_spec
  obtain ⟨log, htrace, hsending', hring, -, -⟩ := h.underway
  have hlog : d.log = log := by rw [Delivery.log, htrace, List.drop_left]
  subst hlog
  have hmax : max d.delivered (i + 1) ≤ d.log.length := by omega
  have hmono : reached start (d.log.take d.delivered) ≤
      reached start (d.log.take (max d.delivered (i + 1))) :=
    (reached_take_bounds start d.log (by omega)).1
  -- delivering without taking anything
  have hskip : { d with delivered := max d.delivered (i + 1) }.Inv o start :=
    ⟨⟨d.log, htrace, hsending', hring, hmax, Nat.le_trans hr hmono⟩, h.expected, h.taken,
      h.le_count⟩
  rcases hsending.logged i hi with ⟨seq, seqAck, ack, hcontrol⟩ | ⟨j, hpacket, hj, hle, hge⟩
  · rw [hcontrol, receive_controlPacket]
    exact hskip
  obtain ⟨p, hparse, hseq, hpayload, hfin⟩ := hpacket.parse hj
  unfold receive
  rw [hparse]
  simp only
  split_ifs with htake
  · have hindex := h.index_eq hreorder hj hle hge hi (by rw [← hseq, htake.2])
    subst hindex
    have hnext : d.accepted.length < reached start (d.log.take (i + 1)) := by
      have hstep := nextPacket_isPacket hpacket hj hle hge
      rw [← reached_append_singleton, List.take_concat_get' d.log i hi] at hstep
      rw [hstep]
      split_ifs <;> omega
    have hnext' := (reached_take_bounds start d.log (Nat.le_max_right d.delivered (i + 1))).1
    refine ⟨⟨d.log, htrace, ?_, hring, hmax, ?_⟩, ?_, ?_, ?_⟩
    · refine ⟨hsending'.logged, hsending'.seq, hsending'.le_count, hsending'.recent,
        hsending'.pending, hsending'.behind.imp_right ?_⟩
      simp only [List.length_append]
      omega
    · simp only [List.length_append, List.length_singleton]
      omega
    · simp only [List.length_append, List.length_singleton, h.expected]
      push_cast
      rw [add_assoc]
    · intro k hk
      rw [List.length_append, List.length_singleton] at hk
      by_cases hlast : k < d.accepted.length
      · rw [List.getElem_append_left hlast]
        exact h.taken k hlast
      · obtain rfl : k = d.accepted.length := by omega
        rw [List.getElem_concat_length rfl]
        exact ⟨hpayload, hfin⟩
    · rw [List.length_append, List.length_singleton]
      omega
  · exact hskip

/-- Every step keeps the invariant. -/
theorem Inv.step {start : SeqNr} {d' : Delivery} (h : d.Inv o start)
    (hstep : Step o d d') : d'.Inv o start := by
  have hstable := Session.Underway.stable o.plan start d.before d.delivered d.accepted.length
  cases hstep with
  | @timer e t he ht =>
    refine h.session ?_
    cases e with
    | sendACK ack =>
      cases ht
      exact hstable.sendACK _ ack h.underway
    | expire =>
      cases ht
      exact hstable.expire _ h.underway
    | callback i =>
      cases ht
      exact hstable.callback _ i h.underway
    | sendData _ => cases he
    | sendRawDataWithHeader _ _ => cases he
    | packet _ => cases he
    | reset => cases he
    | setResetCallback => cases he
    | close => cases he
  | packet hreset hack ht =>
    refine h.session (hstable.processPacket ?_ ?_ (fun hpeer => absurd hpeer hreset) h.underway ht)
    · intro hflag
      have hguard := hack hflag
      rwa [h.expected] at hguard
    · intro u n hu
      exact hu.quiet hu.ringInv rfl rfl rfl rfl
  | deliver hi hreorder => exact h.deliver hi hreorder

theorem Reachable.inv (h : Reachable o d) :
    ∃ start, d.Inv o start := by
  refine Transition.Reachable.invariant (P := fun d => ∃ start, d.Inv o start) ?_ ?_ h
  · exact fun d hd => inv_of_start hd
  · rintro d d' - ⟨start, hd⟩ hstep
    exact ⟨start, hd.step hstep⟩

/-- What the receiver holds. -/
theorem Inv.flatMap_payload {start : SeqNr} (h : d.Inv o start) :
    d.accepted.flatMap Packet.payload =
      (List.range d.accepted.length).flatMap o.plan.payload := by
  have hmap : d.accepted.map Packet.payload =
      (List.range d.accepted.length).map o.plan.payload := by
    apply List.ext_getElem
    · simp
    · intro i h₁ h₂
      rw [List.length_map] at h₁
      simpa using (h.taken i h₁).1
  rw [List.flatMap_def, List.flatMap_def, hmap]

/-- Before the last packet the receiver holds a first part of the content only. -/
theorem Inv.first_part {start : SeqNr} (h : d.Inv o start)
    (hless : d.accepted.length < o.plan.count) :
    d.accepted.flatMap Packet.payload <+: o.content ∧
      (d.accepted.flatMap Packet.payload).length < o.content.length := by
  rw [h.flatMap_payload, o.content_eq]
  by_cases hzero : d.accepted.length = 0
  · rw [hzero]
    refine ⟨List.nil_prefix, ?_⟩
    rw [List.range_zero, List.flatMap_nil, List.length_nil, List.length_append]
    obtain ⟨-, hdata, -⟩ | ⟨hheader, -⟩ := o.plan.sizes
    · have hlen := List.length_pos_iff.mpr hdata
      omega
    · have hlen := List.length_pos_iff.mpr hheader
      omega
  · have hpos := Nat.pos_of_ne_zero hzero
    have hoffset := (o.plan.offset_lt hpos hless).1
    rw [o.plan.flatMap_payload hpos (Nat.le_of_lt hless), if_neg (Nat.ne_of_lt hless)]
    simp only [List.replicate_zero, List.append_nil]
    refine ⟨(List.prefix_append_right_inj _).mpr (List.take_prefix _ _), ?_⟩
    simp only [List.length_append, List.length_take]
    omega

/-- With the last packet the receiver holds the content and the padding. -/
theorem Inv.whole_content {start : SeqNr} (h : d.Inv o start)
    (hall : d.accepted.length = o.plan.count) :
    d.accepted.flatMap Packet.payload = o.content ++ List.replicate o.plan.padding 0 := by
  have hpos := o.plan.count_pos
  have hend : o.plan.data.length ≤ o.plan.offset o.plan.count := by
    obtain ⟨i, hi⟩ : ∃ i, o.plan.count = i + 1 := ⟨o.plan.count - 1, by omega⟩
    rw [hi, o.plan.length_le_offset_iff]
    omega
  rw [h.flatMap_payload, hall, o.plan.flatMap_payload hpos (Nat.le_refl _), if_pos rfl,
    List.take_of_length_le hend, o.content_eq, List.append_assoc]

theorem Inv.isFin_iff {start : SeqNr} (h : d.Inv o start) {i : ℕ}
    (hi : i < d.accepted.length) : d.accepted[i].isFin = true ↔ i + 1 = o.plan.count := by
  have hle := h.le_count
  rw [(h.taken i hi).2, Plan.isLast, decide_eq_true_eq]
  omega

/-- However the network treats the datagrams of a transfer, the receiver holds a first part
of the content and its padding of fewer than four zero bytes. Payload packets are those of
the plan, with the FIN flag on exactly the last one, and the receiver holds all of the
content exactly when it has taken a packet with the FIN flag. No datagram exceeds the
headers and the maximal payload. -/
theorem received_in_order {o : Outgoing} {d : Delivery} (hd : Reachable o d) :
    d.accepted.flatMap Packet.payload <+: o.content ++ List.replicate o.plan.padding 0 ∧
      o.plan.padding < 4 ∧
      (∀ datagram ∈ d.log, ∀ p, parsePacket datagram = .ok (.ok p) → p.payload ≠ [] →
        ∃ i < o.plan.count, p.payload = o.plan.payload i ∧
          (p.isFin = true ↔ i + 1 = o.plan.count)) ∧
      (∀ i (hi : i < d.accepted.length), d.accepted[i].isFin = true ↔ i + 1 = o.plan.count) ∧
      (o.content <+: d.accepted.flatMap Packet.payload ↔ ∃ p ∈ d.accepted, p.isFin = true) ∧
      ∀ datagram ∈ d.log, datagram.length ≤ headerSize + dataHeaderSize + maxDataPayload := by
  obtain ⟨start, h⟩ := hd.inv
  obtain ⟨hsending, -⟩ := h.log_spec
  refine ⟨?_, o.plan.padding_lt, ?_, fun i hi => h.isFin_iff hi, ?_, ?_⟩
  · rcases Nat.lt_or_eq_of_le h.le_count with hless | hall
    · exact (h.first_part hless).1.trans (List.prefix_append _ _)
    · rw [h.whole_content hall]
  · intro datagram hmem p hparse hpayload
    obtain ⟨i, hi, rfl⟩ := List.mem_iff_getElem.mp hmem
    rcases hsending.logged i hi with ⟨seq, seqAck, ack, hcontrol⟩ | ⟨j, hpacket, hj, -, -⟩
    · have hcontent := parsePacket_pack seq ⟨seqAck, if ack then dataFlagACK else 0, 0, 0⟩ []
      rw [List.append_nil] at hcontent
      rw [hcontrol, controlPacket, hcontent] at hparse
      cases hparse
      exact absurd rfl hpayload
    · obtain ⟨p', hparse', -, hpayload', hfin⟩ := hpacket.parse hj
      rw [hparse] at hparse'
      cases hparse'
      refine ⟨j, hj, hpayload', ?_⟩
      rw [hfin, Plan.isLast, decide_eq_true_eq]
      omega
  · constructor
    · intro hwhole
      rcases Nat.lt_or_eq_of_le h.le_count with hless | hall
      · have hshort := (h.first_part hless).2
        exact absurd hwhole.length_le (Nat.not_le.mpr hshort)
      · have hpos := o.plan.count_pos
        have hlast : d.accepted.length - 1 < d.accepted.length := by omega
        exact ⟨d.accepted[d.accepted.length - 1], List.getElem_mem hlast,
          (h.isFin_iff hlast).mpr (by omega)⟩
    · rintro ⟨p, hp, hfin⟩
      obtain ⟨i, hi, rfl⟩ := List.mem_iff_getElem.mp hp
      have hall : d.accepted.length = o.plan.count := by
        have hlast := (h.isFin_iff hi).mp hfin
        have hle := h.le_count
        omega
      rw [h.whole_content hall]
      exact List.prefix_append _ _
  · intro datagram hmem
    obtain ⟨i, hi, rfl⟩ := List.mem_iff_getElem.mp hmem
    rcases hsending.logged i hi with ⟨seq, seqAck, ack, hcontrol⟩ | ⟨j, hpacket, hj, -, -⟩
    · rw [hcontrol]
      exact Nat.le_add_right _ _
    · exact hpacket.length_le hj

/-- The datagrams at these positions are delivered. -/
def deliver (d : Delivery) (order : List ℕ) : Option Delivery :=
  order.foldlM (fun d i =>
    if d.log.length ≤ i ∨ i + 2048 < d.delivered then none
    else some { d.receive (d.log.getD i []) with delivered := max d.delivered (i + 1) }) d

theorem Reachable.deliver {order : List ℕ} {d₀ : Delivery} (hd : Reachable o d₀)
    (h : d₀.deliver order = some d) : Reachable o d := by
  induction order generalizing d₀ with
  | nil =>
    cases h
    exact hd
  | cons i rest ih =>
    obtain ⟨d₁, hone, hrest⟩ := Option.bind_eq_some_iff.mp h
    obtain ⟨hout, hone⟩ := Option.ite_none_left_eq_some.mp hone
    cases hone
    refine ih ?_ hrest
    have hi : i < d₀.log.length := by omega
    rw [← List.getElem_eq_getD (h := hi)]
    exact hd.next (.deliver hi (by omega))

/-- A transfer of two packets. -/
def twoPackets : Outgoing :=
  .sendRawDataWithHeader [1, 2, 3, 4] (some (List.replicate 1405 5)) 1 (by decide) (by decide) rfl

/-- The second of two packets overtakes the first, and both come twice. -/
theorem received_in_order_of_two_packets :
    ∃ d : Delivery, Reachable twoPackets d ∧ d.accepted.length = 2 ∧
      twoPackets.content <+: d.accepted.flatMap Packet.payload := by
  have hrun : ((twoPackets.send newSession).toOption.bind fun t =>
      (deliver ⟨t, [], 0, 0, []⟩ [1, 0, 0, 1]).map fun d => d.accepted.length) = some 2 := by
    decide +kernel
  obtain ⟨t, ht, hmap⟩ := Option.bind_eq_some_iff.mp hrun
  obtain ⟨d, hdeliver, hlength⟩ := Option.map_eq_some_iff.mp hmap
  have hsend : twoPackets.send newSession = .ok t := by
    cases hok : twoPackets.send newSession <;> rw [hok] at ht <;> cases ht
    rfl
  have hd : Reachable twoPackets d :=
    Reachable.deliver (.start ⟨newSession, hsend, rfl, rfl, rfl, rfl⟩) hdeliver
  obtain ⟨-, -, -, hfin, hwhole, -⟩ := received_in_order hd
  refine ⟨d, hd, hlength, hwhole.mpr ?_⟩
  exact ⟨d.accepted[1], List.getElem_mem _, (hfin 1 (by omega)).mpr (by decide +kernel)⟩

end Delivery

end Udpfsd.Udprdma
