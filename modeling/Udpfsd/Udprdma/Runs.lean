import Udpfsd.Udprdma.Effects

/-!
# The invariant rule for runs of a session

`processDataPacket` and the events of a session are put together from a few operations.
A property that these operations keep is kept by every event, and so holds in every
reachable state. The case analysis over packets is made here once.
-/

namespace Udpfsd.Udprdma.Session

/-- The packet is taken for the first one of a restarted peer, and `ResetSession` is
called. -/
def isPeerReset (s : Session) (p : Packet) : Prop :=
  p.payload ≠ [] ∧ p.hdr.seqNr ≠ s.rxSeqExpected ∧ p.hdr.seqNr ≠ s.rxSeqExpected - 1 ∧
    p.hdr.seqNr = 0

/-- The property is kept by everything that received packets and the timer make the
session do, short of a reset and of moving the expected number, for acknowledged numbers
satisfying `Ack`. -/
structure Stable (P : Session → Prop) (Ack : SeqNr → Prop) : Prop where
  /-- Kept by counting. -/
  counters : ∀ s m, m.peerResets = s.metrics.peerResets → P s → P { s with metrics := m }
  /-- Kept by `sendACK`. -/
  sendACK : ∀ s ack, P s → P (s.sendACK ack)
  /-- Kept by `onPeerAck`. -/
  onPeerAck : ∀ s t q, Ack q → P s → s.onPeerAck q = .ok t → P t
  /-- Kept by `onPeerNack`. -/
  onPeerNack : ∀ s q, P s → P (s.onPeerNack q)
  /-- Kept when the timer expires. -/
  expire : ∀ s, P s → P { s with ack.ackTimer := s.ack.ackTimer.expire }
  /-- Kept by a callback of the timer. -/
  callback : ∀ s i, P s → P (s.runCallback i)

section

variable {P : Session → Prop} {Ack : SeqNr → Prop}

section Packets

variable (hP : Stable P Ack)
include hP

theorem Stable.onPiggybackedAck {s t : Session} {p : Packet}
    (hack : p.isAck = true → Ack p.header.seqNrAck) (hs : P s) (h : s.onPiggybackedAck p = .ok t) :
    P t := by
  unfold Session.onPiggybackedAck at h
  by_cases hflag : p.isAck = true
  · rw [if_pos hflag] at h
    exact hP.onPeerAck s t _ (hack hflag) hs h
  · rw [if_neg hflag] at h
    cases h
    exact hs

/-- Kept by accepting a packet, once the expected number has been moved. -/
theorem Stable.acceptPacket {s t : Session} {p : Packet} {r : Option (List Byte)}
    (hack : p.isAck = true → Ack p.header.seqNrAck)
    (hs : P { s with rxSeqExpected := p.hdr.seqNr + 1 }) (h : s.acceptPacket p = .ok (t, r)) :
    P t ∧ r = some p.payload := by
  obtain ⟨u, hu, hr⟩ := Fallible.bind_eq_ok.mp h
  cases hr
  exact ⟨hP.onPiggybackedAck hack (hP.sendACK _ true hs) hu, rfl⟩

/-- Kept by the expected payload packet, which is returned. -/
theorem Stable.processPacket_expected {s t : Session} {p : Packet} {r : Option (List Byte)}
    (hack : p.isAck = true → Ack p.header.seqNrAck) (hpayload : p.payload ≠ [])
    (hnext : p.hdr.seqNr = s.rxSeqExpected) (hs : P { s with rxSeqExpected := s.rxSeqExpected + 1 })
    (h : s.processPacket p = .ok (t, r)) : P t ∧ r = some p.payload := by
  unfold Session.processPacket at h
  rw [if_neg hpayload, if_neg (fun hne => hne hnext)] at h
  refine hP.acceptPacket hack ?_ h
  rw [hnext]
  exact hP.counters { s with rxSeqExpected := s.rxSeqExpected + 1 } _ (by rfl) hs

/-- Kept by every other packet that does not reset the session; nothing is returned. -/
theorem Stable.processPacket_unexpected {s t : Session} {p : Packet} {r : Option (List Byte)}
    (hack : p.isAck = true → Ack p.header.seqNrAck)
    (hother : p.payload = [] ∨ p.hdr.seqNr ≠ s.rxSeqExpected) (hreset : ¬ s.isPeerReset p)
    (hs : P s) (h : s.processPacket p = .ok (t, r)) : P t ∧ r = none := by
  have hcount : P { s with metrics.packetsRx := s.metrics.packetsRx + 1 } :=
    hP.counters s _ (by rfl) hs
  unfold Session.processPacket at h
  by_cases hpayload : p.payload = []
  · rw [if_pos hpayload] at h
    by_cases hflag : p.isAck = true
    · rw [if_pos hflag] at h
      obtain ⟨u, hu, hr⟩ := Fallible.bind_eq_ok.mp h
      cases hr
      exact ⟨hP.onPeerAck _ _ _ (hack hflag) hcount hu, rfl⟩
    · rw [if_neg hflag] at h
      cases h
      exact ⟨hP.onPeerNack _ _ (hP.counters _ _ (by rfl) hcount), rfl⟩
  have hnext := hother.resolve_left hpayload
  rw [if_neg hpayload, if_pos hnext] at h
  by_cases hrepeat : p.hdr.seqNr = s.rxSeqExpected - 1
  · rw [if_pos hrepeat] at h
    obtain ⟨u, hu, hr⟩ := Fallible.bind_eq_ok.mp h
    cases hr
    have hPu := hP.onPiggybackedAck hack (hP.sendACK _ true (hP.counters _ _ (by rfl) hcount)) hu
    refine ⟨?_, rfl⟩
    split_ifs
    · exact hP.onPeerNack _ _ hPu
    · exact hPu
  have hzero : p.hdr.seqNr ≠ 0 := fun hzero => hreset ⟨hpayload, hnext, hrepeat, hzero⟩
  rw [if_neg hrepeat, if_neg hzero] at h
  obtain ⟨u, hu, hr⟩ := Fallible.bind_eq_ok.mp h
  cases hr
  exact ⟨hP.onPiggybackedAck hack (hP.sendACK _ false (hP.counters _ _ (by rfl) hcount)) hu, rfl⟩

/-- Kept by every packet, if it is kept when the expected number moves and by the reset
the packet may cause. -/
theorem Stable.processPacket {s t : Session} {p : Packet} {r : Option (List Byte)}
    (hack : p.isAck = true → Ack p.header.seqNrAck)
    (hreceived : ∀ u n, P u → P { u with rxSeqExpected := n })
    (hreset : s.isPeerReset p → ∀ u, P u → P u.resetSession) (hs : P s)
    (h : s.processPacket p = .ok (t, r)) : P t := by
  by_cases hexpected : p.payload ≠ [] ∧ p.hdr.seqNr = s.rxSeqExpected
  · exact (hP.processPacket_expected hack hexpected.1 hexpected.2 (hreceived s _ hs) h).1
  by_cases hrestart : s.isPeerReset p
  · obtain ⟨hpayload, hnext, hrepeat, hzero⟩ := id hrestart
    unfold Session.processPacket at h
    rw [if_neg hpayload, if_pos hnext, if_neg hrepeat, if_pos hzero] at h
    exact (hP.acceptPacket hack
      (hreceived _ _ (hreset hrestart _ (hP.counters s _ (by rfl) hs))) h).1
  · have hother : p.payload = [] ∨ p.hdr.seqNr ≠ s.rxSeqExpected := by
      by_cases hpayload : p.payload = []
      · exact Or.inl hpayload
      · exact Or.inr (fun hnext => hexpected ⟨hpayload, hnext⟩)
    exact (hP.processPacket_unexpected hack hother hrestart hs h).1

/-- A panic while a packet is processed is one of `onPeerAck`, in a state that has the
property. -/
theorem Stable.processPacket_error {s : Session} {p : Packet} {e : Panic}
    (hreceived : ∀ u n, P u → P { u with rxSeqExpected := n })
    (hreset : s.isPeerReset p → ∀ u, P u → P u.resetSession) (hs : P s)
    (h : s.processPacket p = .error e) : ∃ u, P u ∧ u.onPeerAck p.header.seqNrAck = .error e := by
  have hcount : P { s with metrics.packetsRx := s.metrics.packetsRx + 1 } :=
    hP.counters s _ (by rfl) hs
  have hpiggy : ∀ u, P u → u.onPiggybackedAck p = .error e →
      ∃ u, P u ∧ u.onPeerAck p.header.seqNrAck = .error e := by
    intro u hu herr
    unfold Session.onPiggybackedAck at herr
    by_cases hflag : p.isAck = true
    · rw [if_pos hflag] at herr
      exact ⟨u, hu, herr⟩
    · rw [if_neg hflag] at herr
      cases herr
  have haccept : ∀ u, P u → u.acceptPacket p = .error e →
      ∃ u, P u ∧ u.onPeerAck p.header.seqNrAck = .error e := by
    intro u hu herr
    rcases Fallible.bind_eq_error.mp herr with herr | ⟨v, -, herr⟩
    · exact hpiggy _ (hP.sendACK _ true (hreceived u _ hu)) herr
    · cases herr
  unfold Session.processPacket at h
  by_cases hpayload : p.payload = []
  · rw [if_pos hpayload] at h
    by_cases hflag : p.isAck = true
    · rw [if_pos hflag] at h
      rcases Fallible.bind_eq_error.mp h with herr | ⟨v, -, herr⟩
      · exact ⟨_, hcount, herr⟩
      · cases herr
    · rw [if_neg hflag] at h
      cases h
  rw [if_neg hpayload] at h
  by_cases hnext : p.hdr.seqNr = s.rxSeqExpected
  · rw [if_neg (fun hne => hne hnext)] at h
    exact haccept _ hcount h
  rw [if_pos hnext] at h
  by_cases hrepeat : p.hdr.seqNr = s.rxSeqExpected - 1
  · rw [if_pos hrepeat] at h
    rcases Fallible.bind_eq_error.mp h with herr | ⟨v, -, herr⟩
    · exact hpiggy _ (hP.sendACK _ true (hP.counters _ _ (by rfl) hcount)) herr
    · cases herr
  rw [if_neg hrepeat] at h
  by_cases hzero : p.hdr.seqNr = 0
  · rw [if_pos hzero] at h
    exact haccept _ (hreset ⟨hpayload, hnext, hrepeat, hzero⟩ _ hcount) h
  · rw [if_neg hzero] at h
    rcases Fallible.bind_eq_error.mp h with herr | ⟨v, -, herr⟩
    · exact hpiggy _ (hP.sendACK _ false (hP.counters _ _ (by rfl) hcount)) herr
    · cases herr

end Packets

end

/-- The result of `ProcessDataPacket`: a datagram that is no DATA packet changes nothing. -/
theorem processDataPacket_cases {s t : Session} {data : List Byte}
    {r : Except String (Option (List Byte))} (h : s.processDataPacket data = .ok (t, r)) :
    (∃ err, r = .error err ∧ t = s) ∨
    ∃ p payload, parsePacket data = .ok (.ok p) ∧ s.processPacket p = .ok (t, payload) ∧
      r = .ok payload := by
  obtain ⟨parsed, hparse, hrest⟩ := Fallible.bind_eq_ok.mp h
  cases parsed with
  | error err =>
    cases hrest
    exact Or.inl ⟨err, rfl, rfl⟩
  | ok p =>
    obtain ⟨⟨u, payload⟩, hp, hr⟩ := Fallible.bind_eq_ok.mp hrest
    cases hr
    exact Or.inr ⟨p, payload, hparse, hp, rfl⟩

/-- `ProcessDataPacket` on a DATA packet. -/
theorem processDataPacket_eq {s t : Session} {data : List Byte} {p : Packet}
    {r : Option (List Byte)} (hparse : parsePacket data = .ok (.ok p))
    (h : s.processPacket p = .ok (t, r)) : s.processDataPacket data = .ok (t, .ok r) := by
  simp [processDataPacket, hparse, h, Bind.bind, Except.bind, Pure.pure, Except.pure]

/-- What `ProcessDataPacket` did with a DATA packet. -/
theorem processPacket_of_processDataPacket {s t : Session} {data : List Byte} {p : Packet}
    {r : Except String (Option (List Byte))} (hparse : parsePacket data = .ok (.ok p))
    (h : s.processDataPacket data = .ok (t, r)) :
    ∃ payload, s.processPacket p = .ok (t, payload) ∧ r = .ok payload := by
  obtain ⟨parsed, hparsed, hrest⟩ := Fallible.bind_eq_ok.mp h
  cases hparse.symm.trans hparsed
  obtain ⟨⟨u, payload⟩, hp, hr⟩ := Fallible.bind_eq_ok.mp hrest
  cases hr
  exact ⟨payload, hp, rfl⟩

/-- What is parsed as a DATA packet has both headers. -/
theorem length_of_parsePacket {data : List Byte} {p : Packet}
    (hparse : parsePacket data = .ok (.ok p)) : headerSize + dataHeaderSize ≤ data.length := by
  by_contra hshort
  unfold parsePacket at hparse
  split at hparse
  · cases hparse
  · rw [if_pos (Nat.not_le.mp hshort)] at hparse
    split at hparse <;> cases hparse

/-- An event that processes a DATA packet. -/
theorem step_packet_eq {s t : Session} {data : List Byte} {p : Packet}
    {r : Option (List Byte)} (hparse : parsePacket data = .ok (.ok p))
    (h : s.processPacket p = .ok (t, r)) : s.step (.packet data) = .ok t := by
  have hlen := Nat.not_lt.mpr (length_of_parsePacket hparse)
  simp only [step, if_neg hlen, processDataPacket_eq hparse h]
  rfl

/-- What an event did with a DATA packet. -/
theorem processPacket_of_step {s t : Session} {data : List Byte} {p : Packet}
    (hparse : parsePacket data = .ok (.ok p)) (h : s.step (.packet data) = .ok t) :
    ∃ r, s.processPacket p = .ok (t, r) := by
  have hlen := Nat.not_lt.mpr (length_of_parsePacket hparse)
  simp only [step, if_neg hlen] at h
  obtain ⟨⟨u, r⟩, hu, hr⟩ := Fallible.bind_eq_ok.mp h
  cases hr
  obtain ⟨payload, hp, -⟩ := processPacket_of_processDataPacket hparse hu
  exact ⟨payload, hp⟩

/-- Parsing a datagram does not touch the ring. -/
theorem parsePacket_ne_ringFull (data : List Byte) : parsePacket data ≠ .error .ringFull := by
  unfold parsePacket
  split
  · simp
  · split_ifs
    · simp
    · simp
    · split <;> simp

/-- A step on a datagram either changes nothing or processes a DATA packet. -/
theorem step_packet_cases {s t : Session} {data : List Byte}
    (h : s.step (.packet data) = .ok t) :
    t = s ∨ ∃ p r, parsePacket data = .ok (.ok p) ∧ s.processPacket p = .ok (t, r) := by
  unfold step at h
  simp only at h
  split at h
  · cases h
    exact Or.inl rfl
  · obtain ⟨⟨u, r⟩, hu, hr⟩ := Fallible.bind_eq_ok.mp h
    cases hr
    rcases processDataPacket_cases hu with ⟨err, -, rfl⟩ | ⟨p, payload, hparse, hp, -⟩
    · exact Or.inl rfl
    · exact Or.inr ⟨p, payload, hparse, hp⟩

/-- The property is kept by every event that starts no transfer. -/
structure Lasting (P : Session → Prop) : Prop extends Stable P (fun _ => True) where
  /-- Kept when the expected number moves. -/
  received : ∀ s n, P s → P { s with rxSeqExpected := n }
  /-- Kept by `ResetSession`. -/
  resetSession : ∀ s, P s → P s.resetSession
  /-- Kept by `SetResetCallback`. -/
  setResetCallback : ∀ s, P s → P s.setResetCallback
  /-- Kept by `Close`. -/
  close : ∀ s, P s → P s.close

theorem Lasting.step {P : Session → Prop} (hP : Lasting P) {s t : Session} {e : Event}
    (hsend : e.isSend = false) (hs : P s) (h : s.step e = .ok t) : P t := by
  cases e with
  | sendData payload => cases hsend
  | sendRawDataWithHeader header data => cases hsend
  | sendACK ack =>
    cases h
    exact hP.sendACK s ack hs
  | packet data =>
    rcases step_packet_cases h with rfl | ⟨p, r, -, hp⟩
    · exact hs
    · exact hP.processPacket (fun _ => trivial) hP.received (fun _ => hP.resetSession) hs hp
  | expire =>
    cases h
    exact hP.expire s hs
  | callback i =>
    cases h
    exact hP.callback s i hs
  | reset =>
    cases h
    exact hP.resetSession s hs
  | setResetCallback =>
    cases h
    exact hP.setResetCallback s hs
  | close =>
    cases h
    exact hP.close s hs

/-- The property is kept by every event. -/
structure Invariant (P : Session → Prop) : Prop extends Stable P (fun _ => True) where
  /-- Holds of a new session. -/
  start : P newSession
  /-- Kept when the expected number moves. -/
  received : ∀ s n, P s → P { s with rxSeqExpected := n }
  /-- Kept by `ResetSession`. -/
  resetSession : ∀ s, P s → P s.resetSession
  /-- Kept by `SendData`. -/
  sendData : ∀ s t payload, P s → s.sendData payload = .ok t → P t
  /-- Kept by `SendRawDataWithHeader`. -/
  sendRawDataWithHeader : ∀ s t header data, P s →
    s.sendRawDataWithHeader header data = .ok t → P t
  /-- Kept by `SetResetCallback`. -/
  setResetCallback : ∀ s, P s → P s.setResetCallback
  /-- Kept by `Close`. -/
  close : ∀ s, P s → P s.close

/-- Two invariants hold together. -/
theorem Invariant.and {P Q : Session → Prop} (hP : Invariant P) (hQ : Invariant Q) :
    Invariant (fun s => P s ∧ Q s) where
  start := ⟨hP.start, hQ.start⟩
  counters := fun s m hm h => ⟨hP.counters s m hm h.1, hQ.counters s m hm h.2⟩
  received := fun s n h => ⟨hP.received s n h.1, hQ.received s n h.2⟩
  sendACK := fun s ack h => ⟨hP.sendACK s ack h.1, hQ.sendACK s ack h.2⟩
  onPeerAck := fun s t q hq h ht => ⟨hP.onPeerAck s t q hq h.1 ht, hQ.onPeerAck s t q hq h.2 ht⟩
  onPeerNack := fun s q h => ⟨hP.onPeerNack s q h.1, hQ.onPeerNack s q h.2⟩
  expire := fun s h => ⟨hP.expire s h.1, hQ.expire s h.2⟩
  callback := fun s i h => ⟨hP.callback s i h.1, hQ.callback s i h.2⟩
  resetSession := fun s h => ⟨hP.resetSession s h.1, hQ.resetSession s h.2⟩
  sendData := fun s t payload h ht =>
    ⟨hP.sendData s t payload h.1 ht, hQ.sendData s t payload h.2 ht⟩
  sendRawDataWithHeader := fun s t header data h ht =>
    ⟨hP.sendRawDataWithHeader s t header data h.1 ht,
      hQ.sendRawDataWithHeader s t header data h.2 ht⟩
  setResetCallback := fun s h => ⟨hP.setResetCallback s h.1, hQ.setResetCallback s h.2⟩
  close := fun s h => ⟨hP.close s h.1, hQ.close s h.2⟩

theorem Invariant.lasting {P : Session → Prop} (hP : Invariant P) : Lasting P :=
  ⟨hP.toStable, hP.received, hP.resetSession, hP.setResetCallback, hP.close⟩

/-- Every event keeps an invariant. -/
theorem Invariant.step {P : Session → Prop} (hP : Invariant P) {s t : Session} {e : Event}
    (hs : P s) (h : s.step e = .ok t) : P t := by
  cases hsend : e.isSend with
  | false => exact hP.lasting.step hsend hs h
  | true =>
    cases e with
    | sendData payload => exact hP.sendData s t payload hs h
    | sendRawDataWithHeader header data => exact hP.sendRawDataWithHeader s t header data hs h
    | _ => cases hsend

/-- An invariant holds in every reachable state. -/
theorem Invariant.reachable {P : Session → Prop} (hP : Invariant P) {s : Session}
    (hs : s.Reachable) : P s := by
  refine Transition.Reachable.invariant ?_ ?_ hs
  · rintro s rfl
    exact hP.start
  · rintro s t - hPs ⟨e, he⟩
    exact hP.step hPs he

/-- The states reached from `NewSession` by events that meet the guard. -/
def ReachableWhen (guard : Session → Event → Prop) : Session → Prop :=
  Transition.Reachable (· = newSession) (fun s t => ∃ e, guard s e ∧ s.step e = .ok t)

theorem ReachableWhen.reachable {guard : Session → Event → Prop} {s : Session}
    (hs : s.ReachableWhen guard) : s.Reachable := by
  induction hs with
  | start h => exact .start h
  | next _ hstep ih =>
    obtain ⟨e, -, he⟩ := hstep
    exact .next ih ⟨e, he⟩

/-- Performing events one after the other leads to reachable states. -/
theorem Reachable.foldlM {s t : Session} (hs : s.Reachable) (events : List Event)
    (h : events.foldlM step s = .ok t) : t.Reachable :=
  Transition.Reachable.foldlM (fun e _ _ _ hstep => ⟨e, hstep⟩) hs h

/-- Sending does not close a session. -/
theorem closed_handleTransfer {s t : Session} (h : s.handleTransfer = .ok t) :
    t.closed = s.closed := by
  obtain ⟨u, batch, hu, -, rfl⟩ := handleTransfer_invariant (P := fun u _ => u.closed = s.closed)
    (fun u _ _ _ _ _ hu => by rw [sent_eq]; exact hu) (fun u _ _ _ _ _ hu => hu) h rfl
  rw [updateAckTimer_eq]
  exact hu

/-- A callback of a closed session does nothing. -/
theorem runCallback_closed {s : Session} (h : s.closed = true) (i : ℕ) :
    s.runCallback i = { s with ack.ackTimer.started := s.ack.ackTimer.started.eraseIdx i } := by
  rw [runCallback_eq, if_neg]
  rintro ⟨-, hopen, -⟩
  rw [h] at hopen
  cases hopen

/-- Nothing opens a closed session again. -/
theorem closed_lasting : Lasting (fun s => s.closed = true) where
  counters := fun s m _ h => h
  received := fun s n h => h
  sendACK := fun s ack h => h
  onPeerAck := fun s t q _ h ht => by
    have hack : (s.onAck q).closed = true := by
      rwa [closed_onAck]
    rcases onPeerAck_cases ht with ⟨-, ht⟩ | ⟨-, rfl⟩
    · exact (closed_handleTransfer ht).trans hack
    · exact hack
  onPeerNack := fun s q h => by
    obtain ⟨m, -, heq⟩ := onPeerNack_eq s q
    rw [heq, updateAckTimer_eq]
    exact h
  expire := fun s h => h
  callback := fun s i h => by
    rw [runCallback_closed h]
    exact h
  resetSession := fun s h => by
    obtain ⟨ws, -, heq⟩ := resetSession_eq s
    rw [heq]
    exact h
  setResetCallback := fun s h => h
  close := fun s h => by
    unfold Session.close
    rwa [if_pos h]

end Udpfsd.Udprdma.Session
