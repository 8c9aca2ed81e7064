import Udpfsd.Udprdma.Nack
import Udpfsd.Udprdma.StopAndWait

/-!
# Acknowledgements and returned payloads

A payload packet is answered by an acknowledgement of its number when it is accepted, and
when it looks like the packet before the expected one. The second test has a value before
anything has been received: a session that expects packet 0 acknowledges packet 4095 and
drops its payload. There is no other acknowledgement without a returned payload.
-/

namespace Udpfsd.Udprdma

/-- The number acknowledged by a datagram, whether or not it carries data. -/
def seqNrAckOf (datagram : List Byte) : Option SeqNr :=
  match parsePacket datagram with
  | .ok (.ok p) => if p.isAck then some p.header.seqNrAck else none
  | _ => none

theorem seqNrAckOf_controlPacket (seq q : SeqNr) (ack : Bool) :
    seqNrAckOf (controlPacket seq q ack) = if ack then some q else none := by
  have hparse := parsePacket_pack seq ⟨q, if ack then dataFlagACK else 0, 0, 0⟩ []
  rw [List.append_nil] at hparse
  unfold seqNrAckOf controlPacket
  rw [hparse]
  cases ack <;> simp [Packet.isAck, dataFlagACK]

theorem seqNrAckOf_dataPacket (seq q : SeqNr) (fin : Bool) (header data : List Byte) :
    seqNrAckOf (dataPacket seq q fin header data) = some q := by
  unfold seqNrAckOf dataPacket
  simp only [parsePacket_pack]
  cases fin <;> simp [Packet.isAck, dataFlagACK, dataFlagFIN]

namespace Session

/-- Since the trace was `base`, the expected number has been `rx`. -/
structure Expects (base : List Write) (rx : SeqNr) (s : Session) : Prop where
  /-- What was written before is still there. -/
  wrote : base <+: s.trace
  /-- The expected number. -/
  expected : s.rxSeqExpected = rx

variable {base : List Write} {rx : SeqNr} {s t : Session}

theorem Expects.refl (s : Session) : s.Expects s.trace s.rxSeqExpected := ⟨List.prefix_rfl, rfl⟩

/-- More has been written. -/
theorem Expects.append (h : s.Expects base rx) {ws : List Write} (htrace : t.trace = s.trace ++ ws)
    (hexpected : t.rxSeqExpected = s.rxSeqExpected) : t.Expects base rx := by
  refine ⟨?_, hexpected.trans h.expected⟩
  rw [htrace]
  exact h.wrote.trans (List.prefix_append _ _)

theorem Expects.handleTransfer (h : s.Expects base rx) (ht : s.handleTransfer = .ok t) :
    t.Expects base rx := by
  obtain ⟨u, batch, hu, -, rfl⟩ := handleTransfer_invariant (P := fun u _ => u.Expects base rx)
    (fun u _ _ _ _ _ hu => by rw [sent_eq]; exact ⟨hu.wrote, hu.expected⟩)
    (fun u _ _ _ _ _ hu => ⟨hu.wrote, hu.expected⟩) ht h
  rw [updateAckTimer_eq]
  exact hu.append rfl rfl

theorem Expects.start_transfer (h : s.Expects base rx) {transfer : Transfer}
    (ht : { s.resetSendState with transfer := transfer }.handleTransfer = .ok t) :
    t.Expects base rx :=
  Expects.handleTransfer (s := { s.resetSendState with transfer := transfer })
    ⟨h.wrote, h.expected⟩ ht

theorem Expects.repeats (h : s.Expects base rx) (ht : s.Repeats t) : t.Expects base rx := by
  obtain ⟨batch, htrace, -⟩ := ht.trace
  exact h.append htrace ht.rxSeqExpected

theorem Expects.stable (base : List Write) (rx : SeqNr) :
    Stable (Expects base rx) (fun _ => True) where
  counters := fun s m _ h => ⟨h.wrote, h.expected⟩
  sendACK := fun s ack h => by
    obtain ⟨m, -, heq⟩ := sendACK_eq s ack
    rw [heq]
    exact h.append rfl rfl
  onPeerAck := fun s t q _ h ht => by
    obtain ⟨hexpected, -, -, batch, htrace, -⟩ := onPeerAck_frame ht
    exact h.append htrace hexpected
  onPeerNack := fun s q h => h.repeats (repeats_onPeerNack s q)
  expire := fun s h => ⟨h.wrote, h.expected⟩
  callback := fun s i h => h.repeats (repeats_runCallback s i)

/-- The server's own events do not move the expected number. -/
theorem Expects.step_isLocal {e : Event} (h : s.Expects base rx) (he : e.isLocal)
    (ht : s.step e = .ok t) : t.Expects base rx := by
  cases e with
  | packet data => cases he
  | reset => cases he
  | sendData payload => exact h.start_transfer ht
  | sendRawDataWithHeader header data => exact h.start_transfer ht
  | sendACK ack =>
    cases ht
    exact (Expects.stable base rx).sendACK s ack h
  | expire =>
    cases ht
    exact ⟨h.wrote, h.expected⟩
  | callback i =>
    cases ht
    exact h.repeats (repeats_runCallback s i)
  | setResetCallback =>
    cases ht
    exact ⟨h.wrote, h.expected⟩
  | close =>
    cases ht
    unfold Session.close
    split_ifs
    · exact h
    · exact ⟨h.wrote, h.expected⟩

/-- The packets sent on an acknowledgement acknowledge the packet before the expected one. -/
theorem onPeerAck_batch {q : SeqNr} (h : s.onPeerAck q = .ok t) :
    ∃ batch, t.trace = s.trace ++ batchWrites batch ∧
      ∀ b ∈ batch, seqNrAckOf b = some (s.rxSeqExpected - 1) := by
  rcases onPeerAck_cases h with ⟨-, h⟩ | ⟨-, rfl⟩
  · obtain ⟨u, batch, ⟨⟨htrace, -⟩, hbatch⟩, -, rfl⟩ := handleTransfer_invariant
      (P := fun u batch => (u.trace = s.trace ∧ u.rxSeqExpected = s.rxSeqExpected) ∧
        ∀ b ∈ batch, seqNrAckOf b = some (s.rxSeqExpected - 1))
      (by
        rintro u batch data c slot hpack ⟨hframe, hbatch⟩
        refine ⟨by rw [sent_eq]; exact hframe, ?_⟩
        intro b hb
        rcases List.mem_append.mp hb with hb | hb
        · exact hbatch b hb
        · rw [List.mem_singleton.mp hb, hpack.bytes, seqNrAckOf_dataPacket, hframe.2])
      (fun u _ _ _ _ _ hu => hu) h ⟨⟨trace_onAck s q, rxSeqExpected_onAck s q⟩, by simp⟩
    rw [updateAckTimer_eq]
    exact ⟨batch, by rw [← htrace], hbatch⟩
  · exact ⟨[], by simp [batchWrites], by simp⟩

/-- What becomes of a payload packet: it is accepted and returned, or it repeats the packet
before the expected one and is acknowledged, or nothing acknowledges it. -/
theorem processPacket_payload {p : Packet} {r : Option (List Byte)} (hpayload : p.payload ≠ [])
    (h : s.processPacket p = .ok (t, r)) :
    (r = some p.payload ∧ (p.hdr.seqNr = s.rxSeqExpected ∨ s.isPeerReset p) ∧
      t.rxSeqExpected = p.hdr.seqNr + 1) ∨
    (r = none ∧ p.hdr.seqNr = s.rxSeqExpected - 1 ∧ t.Expects
      (s.trace ++ [.writeTo (controlPacket s.txSeqNr p.hdr.seqNr true)]) s.rxSeqExpected) ∨
    (r = none ∧ p.hdr.seqNr ≠ s.rxSeqExpected - 1 ∧ t.rxSeqExpected = s.rxSeqExpected ∧
      ∃ ws, t.trace = s.trace ++ ws ∧ ∀ d ∈ datagrams ws, seqNrAckOf d ≠ some p.hdr.seqNr) := by
  have haccept : ∀ u : Session, u.acceptPacket p = .ok (t, r) →
      r = some p.payload ∧ t.rxSeqExpected = p.hdr.seqNr + 1 := by
    intro u hu
    have hmoved : Expects u.trace (p.hdr.seqNr + 1) { u with rxSeqExpected := p.hdr.seqNr + 1 } :=
      ⟨List.prefix_rfl, rfl⟩
    obtain ⟨ht, hr⟩ := (Expects.stable _ _).acceptPacket (fun _ => trivial) hmoved hu
    exact ⟨hr, ht.expected⟩
  unfold processPacket at h
  rw [if_neg hpayload] at h
  by_cases hnext : p.hdr.seqNr = s.rxSeqExpected
  · rw [if_neg (fun hne => hne hnext)] at h
    obtain ⟨hr, hmoved⟩ := haccept _ h
    exact Or.inl ⟨hr, Or.inl hnext, hmoved⟩
  rw [if_pos hnext] at h
  by_cases hrepeat : p.hdr.seqNr = s.rxSeqExpected - 1
  · right; left
    rw [if_pos hrepeat] at h
    obtain ⟨u, hu, hr⟩ := Fallible.bind_eq_ok.mp h
    cases hr
    have hstable := Expects.stable
      (s.trace ++ [.writeTo (controlPacket s.txSeqNr p.hdr.seqNr true)]) s.rxSeqExpected
    have hu' : u.Expects
        (s.trace ++ [.writeTo (controlPacket s.txSeqNr p.hdr.seqNr true)]) s.rxSeqExpected := by
      refine hstable.onPiggybackedAck (fun _ => trivial) ?_ hu
      refine ⟨?_, rfl⟩
      rw [hrepeat]
      exact List.prefix_rfl
    refine ⟨rfl, hrepeat, ?_⟩
    split_ifs
    · exact hstable.onPeerNack _ _ hu'
    · exact hu'
  rw [if_neg hrepeat] at h
  by_cases hzero : p.hdr.seqNr = 0
  · rw [if_pos hzero] at h
    obtain ⟨hr, hmoved⟩ := haccept _ h
    exact Or.inl ⟨hr, Or.inr ⟨hpayload, hnext, hrepeat, hzero⟩, hmoved⟩
  · right; right
    rw [if_neg hzero] at h
    obtain ⟨u, hu, hr⟩ := Fallible.bind_eq_ok.mp h
    cases hr
    have hnack : seqNrAckOf (controlPacket s.txSeqNr s.rxSeqExpected false) ≠ some p.hdr.seqNr := by
      simp [seqNrAckOf_controlPacket]
    unfold onPiggybackedAck at hu
    split_ifs at hu
    · obtain ⟨hexpected, -⟩ := onPeerAck_frame hu
      obtain ⟨batch, htrace, hbatch⟩ := onPeerAck_batch hu
      refine ⟨rfl, hrepeat, hexpected,
        [.writeTo (controlPacket s.txSeqNr s.rxSeqExpected false)] ++ batchWrites batch, ?_, ?_⟩
      · rw [htrace, ← List.append_assoc]
        rfl
      · intro d hd
        rw [datagrams_append, datagrams_batchWrites] at hd
        rcases List.mem_append.mp hd with hd | hd
        · rwa [List.mem_singleton.mp hd]
        · rw [hbatch d hd]
          exact fun heq => hrepeat (Option.some.inj heq).symm
    · cases hu
      refine ⟨rfl, hrepeat, rfl, [.writeTo (controlPacket s.txSeqNr s.rxSeqExpected false)], rfl,
        ?_⟩
      intro d hd
      rwa [List.mem_singleton.mp hd]

/-- The number of the payload packet returned by `ProcessDataPacket` in an event. -/
def returns (s : Session) : Event → List SeqNr
  | .packet data =>
    match s.processDataPacket data with
    | .ok (_, .ok (some _)) => (numberOf data).toList
    | _ => []
  | _ => []

end Session

/-- A session with the numbers of the payload packets it has returned. -/
structure Receiver where
  /-- The session. -/
  sess : Session
  /-- The numbers returned so far. -/
  returned : List SeqNr

namespace Receiver

open Session

/-- The session takes an event. -/
def Step (x y : Receiver) : Prop :=
  ∃ e, x.sess.step e = .ok y.sess ∧ y.returned = x.returned ++ x.sess.returns e

/-- The states reached from `NewSession`. -/
def Reachable : Receiver → Prop := Transition.Reachable (· = ⟨newSession, []⟩) Step

/-- The number before the expected one has been returned, unless it is the one of a session
that has received nothing. -/
def Inv (x : Receiver) : Prop :=
  x.sess.rxSeqExpected = 0 ∨ x.sess.rxSeqExpected - 1 ∈ x.returned

theorem Inv.of_expected {x y : Receiver} (h : x.Inv)
    (hexpected : y.sess.rxSeqExpected = x.sess.rxSeqExpected)
    (hreturned : x.returned ⊆ y.returned) : y.Inv := by
  unfold Inv
  rw [hexpected]
  exact h.imp id (fun hmem => hreturned hmem)

theorem Inv.step_packet {x y : Receiver} {data : List Byte} (h : x.Inv)
    (hstep : x.sess.step (.packet data) = .ok y.sess)
    (hreturned : y.returned = x.returned ++ x.sess.returns (.packet data)) : y.Inv := by
  have hsub : x.returned ⊆ y.returned := by
    rw [hreturned]
    exact List.subset_append_left _ _
  rcases step_packet_cases hstep with heq | ⟨p, r, hparse, hp⟩
  · exact h.of_expected (by rw [heq]) hsub
  by_cases hpayload : p.payload = []
  · have hkept := ((Expects.stable _ _).processPacket_unexpected (fun _ => trivial)
      (Or.inl hpayload) (fun hreset => hreset.1 hpayload) (Expects.refl x.sess) hp).1
    exact h.of_expected hkept.expected hsub
  rcases processPacket_payload hpayload hp with ⟨rfl, -, hmoved⟩ | ⟨-, -, hkept⟩ | ⟨-, -, hkept, -⟩
  · right
    have hnumber : x.sess.returns (.packet data) = [p.hdr.seqNr] := by
      simp only [Session.returns, processDataPacket_eq hparse hp, numberOf, hparse, if_neg hpayload]
      rfl
    rw [hreturned, hnumber, hmoved, add_sub_cancel_right]
    exact List.mem_append_right _ (List.mem_singleton.mpr rfl)
  · exact h.of_expected hkept.expected hsub
  · exact h.of_expected hkept hsub

theorem inv_of_reachable {x : Receiver} (hx : x.Reachable) : x.Inv := by
  refine Transition.Reachable.invariant (P := Inv) ?_ ?_ hx
  · rintro x rfl
    exact Or.inl rfl
  · rintro x y - h ⟨e, hstep, hreturned⟩
    have hlocal : e.isLocal → y.Inv := fun he =>
      h.of_expected ((Expects.refl x.sess).step_isLocal he hstep).expected
        (by rw [hreturned]; exact List.subset_append_left _ _)
    cases e with
    | packet data => exact h.step_packet hstep hreturned
    | reset =>
      left
      obtain ⟨ws, -, heq⟩ := resetSession_eq x.sess
      rw [← Except.ok.inj hstep, heq]
    | _ => exact hlocal rfl

/-- An acknowledgement of a payload packet means that this call or an earlier one has returned
a payload with its number, for every packet but one: number 4095, when packet 0 is expected
and no packet 4095 has been returned. -/
theorem acknowledged_only_if_returned_iff {x : Receiver} (hx : x.Reachable) {data : List Byte}
    {p : Packet} (hparse : parsePacket data = .ok (.ok p)) (hpayload : p.payload ≠ [])
    {t : Session} {r : Except String (Option (List Byte))}
    (hcall : x.sess.processDataPacket data = .ok (t, r)) :
    ((∃ ws, t.trace = x.sess.trace ++ ws ∧ ∃ d ∈ datagrams ws, seqNrAckOf d = some p.hdr.seqNr) →
      r = .ok (some p.payload) ∨ p.hdr.seqNr ∈ x.returned) ↔
    ¬ (p.hdr.seqNr = 0xFFF ∧ x.sess.rxSeqExpected = 0 ∧ p.hdr.seqNr ∉ x.returned) := by
  obtain ⟨payload, hp, rfl⟩ := processPacket_of_processDataPacket hparse hcall
  constructor
  · rintro himp ⟨hnumber, hexpected, hnew⟩
    -- the packet is taken for a repetition of the packet before packet 0
    rcases processPacket_payload hpayload hp with
      ⟨-, haccepted, -⟩ | ⟨rfl, -, hkept⟩ | ⟨-, hother, -⟩
    · rcases haccepted with hnext | ⟨-, -, -, hzero⟩
      · rw [hnumber, hexpected] at hnext
        cases hnext
      · rw [hnumber] at hzero
        cases hzero
    · obtain ⟨ws, htrace⟩ := hkept.wrote
      rw [List.append_assoc] at htrace
      have hack : p.hdr.seqNr ∈ x.returned := by
        refine (himp ⟨_, htrace.symm, _, List.mem_cons_self, ?_⟩).resolve_left (fun h => by cases h)
        rw [seqNrAckOf_controlPacket, if_pos rfl]
      exact hnew hack
    · exact hother (by rw [hnumber, hexpected]; decide)
  · rintro hcond ⟨ws, htrace, d, hd, hack⟩
    rcases processPacket_payload hpayload hp with
      ⟨rfl, -⟩ | ⟨-, hrepeat, -⟩ | ⟨-, -, -, ws', htrace', hnone⟩
    · exact Or.inl rfl
    · right
      by_contra hnew
      rcases inv_of_reachable hx with hzero | hmem
      · refine hcond ⟨?_, hzero, hnew⟩
        rw [hrepeat, hzero]
        decide
      · exact hnew (hrepeat ▸ hmem)
    · cases List.append_cancel_left (htrace.symm.trans htrace')
      exact absurd hack (hnone d hd)

/-- A session that has returned packet 0 may acknowledge its repetition. -/
theorem acknowledged_only_if_returned_of_repetition :
    ∃ s t : Session, newSession.step (.packet (requestPacket 0)) = .ok s ∧
      s.processDataPacket (requestPacket 0) = .ok (t, .ok none) ∧
      ((∃ ws, t.trace = s.trace ++ ws ∧ ∃ d ∈ datagrams ws, seqNrAckOf d = some 0) →
        (.ok none : Except String (Option (List Byte))) = .ok (some [1, 2, 3, 4]) ∨
          0 ∈ [(0 : SeqNr)]) := by
  have hrun : ∃ s t : Session, newSession.step (.packet (requestPacket 0)) = .ok s ∧
      s.processDataPacket (requestPacket 0) = .ok (t, .ok none) ∧ s.rxSeqExpected = 1 :=
    ⟨_, _, rfl, rfl, rfl⟩
  obtain ⟨s, t, hstep, hcall, hexpected⟩ := hrun
  refine ⟨s, t, hstep, hcall, ?_⟩
  have hreach : Reachable ⟨s, [0]⟩ := .next (.start rfl) ⟨_, hstep, rfl⟩
  refine (acknowledged_only_if_returned_iff hreach (parsePacket_requestPacket 0)
    (List.cons_ne_nil _ _) hcall).mpr ?_
  rintro ⟨hnumber, -⟩
  cases hnumber

/-- A new session acknowledges packet 4095 and returns nothing. -/
theorem packet_before_first_is_acknowledged :
    Reachable ⟨newSession, []⟩ ∧
    ∃ t, newSession.processDataPacket (requestPacket 0xFFF) = .ok (t, .ok none) ∧
      ∃ d ∈ datagrams t.trace, seqNrAckOf d = some 0xFFF :=
  ⟨.start rfl, _, rfl, _, List.mem_cons_self, by rfl⟩

end Receiver

end Udpfsd.Udprdma
