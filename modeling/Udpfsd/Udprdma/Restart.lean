import Udpfsd.Udprdma.Alike
import Udpfsd.Udprdma.Receipts

/-!
# Restart of the peer

A peer that restarts numbers its packets from zero again. Packet 0 resets a session that
expects any number but 0 and 1, and from then on the session responds like a new one. A
session that expects packet 1 takes packet 0 for a repetition, and one that expects packet 0
keeps the state of its sending side. A callback of the timer that had started before the
restart is not stopped by the reset: it acts for the first arming that follows.
-/

namespace Udpfsd.Udprdma

namespace Session

/-- The timer and the FIN of a session with an empty ring. -/
structure Cleared (s : Session) : Prop where
  /-- A timer that is not waited for is stopped. -/
  stopped : s.ack.ackWaitMode = .none → s.ack.ackTimer.active = none
  /-- Nothing is waited for. -/
  mode : s.ring = [] → s.ack.ackWaitMode = .none
  /-- There has been no retransmission. -/
  attempts : s.ring = [] → s.retransmitAttempts = 0
  /-- With everything acknowledged no FIN is pending. -/
  fin : s.ring = [] → s.unacked = 0 → s.finPending = false

variable {s t : Session}

/-- `updateAckTimer`. -/
theorem Cleared.updateAckTimer (hattempts : s.ring = [] → s.retransmitAttempts = 0)
    (hfin : s.ring = [] → s.unacked = 0 → s.finPending = false) : s.updateAckTimer.Cleared where
  stopped := by
    rcases ack_updateAckTimer s with heq | heq
    · rw [heq]
      exact fun _ => rfl
    · rw [heq, AckTimer.ackWaitMode_arm]
      intro hmode
      split_ifs at hmode
  mode := by
    intro hring
    have hempty : s.ring = [] := by
      rw [updateAckTimer_eq] at hring
      exact hring
    unfold Session.updateAckTimer
    rw [if_pos (by rw [inFlight_eq, if_pos hempty])]
    rfl
  attempts := by
    rw [updateAckTimer_eq]
    exact hattempts
  fin := by
    rw [updateAckTimer_eq]
    exact hfin

/-- `handleTransfer`. -/
theorem Cleared.handleTransfer (h : s.Cleared) (ht : s.handleTransfer = .ok t) : t.Cleared := by
  obtain ⟨u, batch, hu, -, rfl⟩ := handleTransfer_invariant (P := fun u _ =>
      (u.ring = [] → u.retransmitAttempts = 0) ∧
        (u.ring = [] → u.unacked = 0 → u.finPending = false))
    (by
      rintro u batch data c slot hpack -
      have hne : (u.sent slot c).ring ≠ [] := by simp [ring_sent slot c hpack.room]
      exact ⟨fun h => absurd h hne, fun h => absurd h hne⟩)
    (fun u _ _ _ _ _ hu => hu) ht ⟨h.attempts, h.fin⟩
  exact Cleared.updateAckTimer hu.1 hu.2

/-- `onAck`. -/
theorem Cleared.onAck (h : s.Cleared) (q : SeqNr) : (s.onAck q).Cleared := by
  rcases onAck_cases s q with heq | ⟨hring, hbetween, a, -, heq⟩
  · rwa [heq]
  by_cases hlast : q = s.txSeqNr - 1
  · subst hlast
    rw [onAck_last hring hbetween]
    exact ⟨fun _ => rfl, fun _ => rfl, fun _ => rfl, fun _ _ => rfl⟩
  · rw [onAck_eq_updateAckTimer hring hbetween hlast]
    refine Cleared.updateAckTimer (fun _ => rfl) (fun _ hzero => ?_)
    exfalso
    simp only [unacked] at hzero
    bv_omega

/-- `onPeerAck`. -/
theorem Cleared.onPeerAck (h : s.Cleared) {q : SeqNr} (ht : s.onPeerAck q = .ok t) : t.Cleared := by
  rcases onPeerAck_cases ht with ⟨-, ht⟩ | ⟨-, rfl⟩
  · exact (h.onAck q).handleTransfer ht
  · exact h.onAck q

/-- A callback of the timer. -/
theorem Cleared.runCallback (h : s.Cleared) (i : ℕ) : (s.runCallback i).Cleared := by
  rw [runCallback_eq]
  split_ifs with hresponds
  · have hring : s.ring ≠ [] := fun hempty => hresponds.2.2.1 (h.mode hempty)
    rcases handleAckTimeout_cases (s.called i) with ⟨-, -, heq⟩ | ⟨-, m, -, hrounds⟩
    · rw [heq]
      exact ⟨fun _ => rfl, fun _ => rfl, fun hempty => absurd hempty hring,
        fun hempty => absurd hempty hring⟩
    · rcases hrounds with ⟨-, heq⟩ | ⟨-, -, heq⟩ | ⟨-, -, heq⟩
      · rw [heq]
        refine ⟨?_, fun hempty => absurd hempty hring, fun hempty => absurd hempty hring,
          fun hempty => absurd hempty hring⟩
        simp only [Session.armAckTimer, AckTimer.ackWaitMode_arm]
        intro hmode
        split_ifs at hmode
      · rw [heq]
        exact ⟨fun _ => rfl, fun _ => rfl, fun _ => rfl, fun _ _ => rfl⟩
      · rw [heq]
        exact ⟨fun _ => rfl, fun _ => rfl, fun _ => rfl, fun hempty => absurd hempty hring⟩
  · exact ⟨h.stopped, h.mode, h.attempts, h.fin⟩

/-- A new transfer. -/
theorem Cleared.start_transfer {transfer : Transfer}
    (ht : { s.resetSendState with transfer := transfer }.handleTransfer = .ok t) : t.Cleared := by
  refine Cleared.handleTransfer (s := { s.resetSendState with transfer := transfer }) ?_ ht
  exact ⟨fun _ => rfl, fun _ => rfl, fun _ => rfl, fun _ _ => rfl⟩

/-- Every step keeps it. -/
theorem cleared_invariant : Invariant Cleared where
  start := ⟨fun _ => rfl, fun _ => rfl, fun _ => rfl, fun _ _ => rfl⟩
  counters := fun s m _ h => ⟨h.stopped, h.mode, h.attempts, h.fin⟩
  received := fun s n h => ⟨h.stopped, h.mode, h.attempts, h.fin⟩
  sendACK := fun s ack h => ⟨h.stopped, h.mode, h.attempts, h.fin⟩
  onPeerAck := fun s t q _ h ht => h.onPeerAck ht
  onPeerNack := fun s q h => by
    obtain ⟨m, -, heq⟩ := onPeerNack_eq s q
    rw [heq]
    exact Cleared.updateAckTimer (fun _ => rfl) h.fin
  expire := fun s h =>
    ⟨fun hmode => by simp [Timer.expire, h.stopped hmode], h.mode, h.attempts, h.fin⟩
  callback := fun s i h => h.runCallback i
  resetSession := fun s h => by
    obtain ⟨ws, -, heq⟩ := resetSession_eq s
    rw [heq]
    exact ⟨fun _ => rfl, fun _ => rfl, fun _ => rfl, fun _ _ => rfl⟩
  sendData := fun s t payload _ ht => Cleared.start_transfer ht
  sendRawDataWithHeader := fun s t header data _ ht => Cleared.start_transfer ht
  setResetCallback := fun s h => ⟨h.stopped, h.mode, h.attempts, h.fin⟩
  close := fun s h => by
    unfold Session.close
    split_ifs
    · exact h
    · exact ⟨fun _ => rfl, fun _ => rfl, h.attempts, h.fin⟩

end Session

/-- The number of the payload packet that arrives. -/
def Event.number : Event → Option SeqNr
  | .packet data => numberOf data
  | _ => none

/-- The payload packets among the events are numbered from `n` on, and nobody else resets
the session. -/
def InOrder : SeqNr → List Event → Prop
  | _, [] => True
  | n, e :: es =>
    match e.number with
    | some k => k = n ∧ InOrder (n + 1) es
    | none => e ≠ .reset ∧ InOrder n es

/-- The response to a payload packet returns its payload. -/
def Event.Returned (e : Event) (r : Except Panic Response) : Prop :=
  ∀ data p, e = .packet data → parsePacket data = .ok (.ok p) → p.payload ≠ [] →
    ∃ written, r = .ok ⟨written, .ok (some p.payload)⟩

namespace Session

/-- The callbacks of the timer that have started. -/
def waitingCallbacks (s : Session) : ℕ := s.ack.ackTimer.started.length

end Session

/-- What happens after a restart of the peer. -/
inductive Happening
  /-- An event. -/
  | event (e : Event)
  /-- A callback that had started before the restart gets the lock. -/
  | leftover (i : ℕ)

/-- The event, if it is one. -/
def Happening.event? : Happening → Option Event
  | .event e => some e
  | .leftover _ => none

namespace Session

/-- The responses of a session with `m` callbacks that had started before the restart. A
session without them does nothing where another one runs such a callback. -/
def responsesAmid : ℕ → Session → List Happening → List (Except Panic Response)
  | _, _, [] => []
  | m, s, .event e :: xs =>
    match s.respond (e.shift m) with
    | .error panic => [.error panic]
    | .ok (t, r) => .ok r :: t.responsesAmid m xs
  | m, s, .leftover i :: xs =>
    if i < m then
      match s.respond (.callback i) with
      | .error panic => [.error panic]
      | .ok (t, r) => .ok r :: t.responsesAmid (m - 1) xs
    else .ok ⟨[], .ok none⟩ :: s.responsesAmid m xs

/-- Whatever happens once packet 0 of the restarted peer arrives, the session responds as a
new one does and returns every payload, also while callbacks that had started before get the
lock at any moment. -/
def RestartsAfresh (s : Session) : Prop :=
  ∀ data p xs, parsePacket data = .ok (.ok p) → p.payload ≠ [] →
    InOrder 0 (.packet data :: xs.filterMap Happening.event?) →
    s.responsesAmid s.waitingCallbacks (.event (.packet data) :: xs) =
      newSession.responsesAmid 0 (.event (.packet data) :: xs) ∧
    ∀ e r, (.event e, r) ∈ (.event (.packet data) :: xs).zip
        (s.responsesAmid s.waitingCallbacks (.event (.packet data) :: xs)) → e.Returned r

/-- The sending side is as that of a new session. -/
def Unused (s : Session) : Prop := s.txSeqNr = 0 ∧ s.txSeqNrAcked = 0xFFF ∧ s.ring = []

variable {s t : Session}

theorem shift_zero : Event.shift 0 = id := by
  funext e
  cases e with
  | callback i => exact congrArg Event.callback (Nat.zero_add i)
  | _ => rfl

/-- Without callbacks from before the restart the responses are those to the events. -/
theorem responsesAmid_events (m : ℕ) (s : Session) (es : List Event) :
    s.responsesAmid m (es.map .event) = s.responses (es.map (Event.shift m)) := by
  induction es generalizing s with
  | nil => rfl
  | cons e es ih =>
    simp only [List.map_cons, responsesAmid, responses]
    cases s.respond (e.shift m) with
    | error panic => rfl
    | ok x => exact congrArg _ (ih x.1)

variable {xs : List Happening} {es : List Event}

/-- Sessions without callbacks from before the restart respond alike if they respond alike to
the events. -/
theorem responsesAmid_congr
    (h : s.responses (xs.filterMap Happening.event?) =
      t.responses (xs.filterMap Happening.event?)) :
    s.responsesAmid 0 xs = t.responsesAmid 0 xs := by
  induction xs generalizing s t with
  | nil => rfl
  | cons x xs ih =>
    cases x with
    | leftover i => exact congrArg _ (ih h)
    | event e =>
      simp only [List.filterMap_cons, Happening.event?, responses] at h
      simp only [responsesAmid, shift_zero, id]
      cases hs : s.respond e with
      | error panic =>
        cases ht : t.respond e with
        | error panic' => simpa [hs, ht] using h
        | ok y => simp [hs, ht] at h
      | ok x =>
        cases ht : t.respond e with
        | error panic' => simp [hs, ht] at h
        | ok y =>
          simp only [hs, ht, List.cons.injEq, Except.ok.injEq] at h
          simp only [h.1, ih h.2]

/-- The payloads returned are those returned in response to the events. -/
theorem returned_amid
    (h : ∀ x ∈ (xs.filterMap Happening.event?).zip (s.responses (xs.filterMap Happening.event?)),
      x.1.Returned x.2)
    {e : Event} {r : Except Panic Response} (hmem : (.event e, r) ∈ xs.zip (s.responsesAmid 0 xs)) :
    e.Returned r := by
  induction xs generalizing s with
  | nil => cases hmem
  | cons x xs ih =>
    cases x with
    | leftover i =>
      rcases List.mem_cons.mp hmem with heq | hmem
      · cases heq
      · exact ih h hmem
    | event e' =>
      simp only [List.filterMap_cons, Happening.event?, responses] at h
      simp only [responsesAmid, shift_zero, id] at hmem
      cases hs : s.respond e' with
      | error panic =>
        simp only [hs, List.zip_cons_cons, List.zip_nil_right, List.mem_singleton] at h hmem
        cases hmem
        exact h _ rfl
      | ok y =>
        simp only [hs, List.zip_cons_cons] at h hmem
        rcases List.mem_cons.mp hmem with heq | hmem
        · cases heq
          exact h _ List.mem_cons_self
        · exact ih (fun x hx => h x (List.mem_cons_of_mem _ hx)) hmem

/-- What a restart is for the events alone. -/
theorem RestartsAfresh.events (h : s.RestartsAfresh) {data : List Byte} {p : Packet}
    (hparse : parsePacket data = .ok (.ok p)) (hpayload : p.payload ≠ [])
    (horder : InOrder 0 (.packet data :: es)) :
    s.responses ((.packet data :: es).map (Event.shift s.waitingCallbacks)) =
      newSession.responses (.packet data :: es) ∧
    ∀ x ∈ (.packet data :: es).zip
        (s.responses ((.packet data :: es).map (Event.shift s.waitingCallbacks))),
      x.1.Returned x.2 := by
  have hevents : (es.map Happening.event).filterMap Happening.event? = es := by
    simp [List.filterMap_map, Function.comp_def, Happening.event?]
  obtain ⟨hsame, hreturned⟩ := h data p (es.map .event) hparse hpayload (by rwa [hevents])
  rw [← List.map_cons, responsesAmid_events] at hsame hreturned
  rw [responsesAmid_events] at hsame
  rw [shift_zero, List.map_id] at hsame
  refine ⟨hsame, ?_⟩
  rintro ⟨e, r⟩ hmem
  refine hreturned e r ?_
  rw [List.zip_map_left]
  exact List.mem_map.mpr ⟨(e, r), hmem, rfl⟩

/-- Packet 0 of a restarted peer makes the session like a new one that has received it. -/
theorem alike_restart (hs : s.Reachable) (hopen : s.closed = false)
    (hrx : (s.rxSeqExpected ≠ 0 ∧ s.rxSeqExpected ≠ 1) ∨ (s.rxSeqExpected = 0 ∧ s.Unused))
    {p : Packet} (hpayload : p.payload ≠ []) (hzero : p.hdr.seqNr = 0) :
    Fallible.Related
      (fun x y => x.1.Alike s.waitingCallbacks s.trace newSession.trace y.1 ∧ x.2 = y.2)
      (s.processPacket p) (newSession.processPacket p) := by
  rcases hrx with ⟨hnext, hrepeat⟩ | ⟨hrx, hseq, hacked, hring⟩
  · have hreset : ∀ n n', Alike s.waitingCallbacks s.trace newSession.trace
        { s with metrics := n }.resetSession { newSession with metrics := n' } := by
      intro n n'
      obtain ⟨ws, hws, heq⟩ := resetSession_eq { s with metrics := n }
      rw [heq]
      exact {
        held := by rw [ring_eq_nil_iff.mpr rfl, ring_eq_nil_iff.mpr rfl]
        transfer := Or.inr ⟨rfl, rfl⟩
        txSeqNr := rfl
        txSeqNrAcked := rfl
        rxSeqExpected := rfl
        timer := ⟨rfl, rfl, fun hmode => absurd rfl hmode, rfl⟩
        attempts := rfl
        fin := rfl
        closed := hopen
        wrote := ⟨ws, [], rfl, rfl, hws⟩ }
    unfold processPacket
    rw [if_neg hpayload, if_neg hpayload, if_pos (by rw [hzero]; exact hnext.symm), if_neg,
      if_pos hzero, if_neg (by rw [hzero]; exact fun h => h rfl)]
    · exact (hreset _ _).acceptPacket p
    · rw [hzero]
      intro heq
      apply hrepeat
      simp only at heq
      bv_omega
  · refine Alike.processPacket ?_ p
    have hcleared := cleared_invariant.reachable hs
    have hunacked : s.unacked = 0 := by
      simp only [unacked, hseq, hacked]
      decide
    have hmode := hcleared.mode hring
    have hidle : s.transfer.data = none := by
      by_contra hdata
      obtain ⟨data, hdata⟩ := Option.ne_none_iff_exists'.mp hdata
      obtain ⟨-, -, -, -, -, hwindow⟩ := (resting_invariant.reachable hs).pending data hdata
      rw [inFlight_eq, if_pos hring] at hwindow
      cases hwindow
    exact {
      held := by rw [hring]; rfl
      transfer := Or.inr ⟨hidle, rfl⟩
      txSeqNr := hseq
      txSeqNrAcked := hacked
      rxSeqExpected := hrx
      timer := ⟨hmode, hcleared.stopped hmode, fun h => absurd hmode h, rfl⟩
      attempts := hcleared.attempts hring
      fin := hcleared.fin hring hunacked
      closed := hopen
      wrote := ⟨[], [], by simp, rfl, rfl⟩ }

theorem numberOf_eq_some {data : List Byte} {k : SeqNr} (h : numberOf data = some k) :
    ∃ p, parsePacket data = .ok (.ok p) ∧ p.payload ≠ [] ∧ p.hdr.seqNr = k := by
  unfold numberOf at h
  split at h
  · rename_i p hparse
    split_ifs at h with hpayload
    exact ⟨p, hparse, hpayload, Option.some.inj h⟩
  · cases h

/-- A packet with a payload has a number. -/
theorem numberOf_payload {data : List Byte} {p : Packet} (hparse : parsePacket data = .ok (.ok p))
    (hpayload : p.payload ≠ []) : numberOf data = some p.hdr.seqNr := by
  simp only [numberOf, hparse, if_neg hpayload]

/-- The expected number follows the peer's packets. -/
theorem expected_of_inOrder {n : SeqNr} {e : Event} (hrx : s.rxSeqExpected = n)
    (h : InOrder n (e :: es)) (hstep : s.step e = .ok t) : InOrder t.rxSeqExpected es := by
  have hlocal : e.isLocal → e.number = none → InOrder t.rxSeqExpected es := by
    intro he hnone
    rw [((Expects.refl s).step_isLocal he hstep).expected, hrx]
    simp only [InOrder, hnone] at h
    exact h.2
  cases e with
  | packet data =>
    cases hnumber : numberOf data with
    | some k =>
      obtain ⟨p, hparse, hpayload, rfl⟩ := numberOf_eq_some hnumber
      simp only [InOrder, Event.number, hnumber] at h
      obtain ⟨hnext, hrest⟩ := h
      obtain ⟨r, hp⟩ := processPacket_of_step hparse hstep
      obtain ⟨hmoved, -⟩ := (Expects.stable s.trace (s.rxSeqExpected + 1)).processPacket_expected
        (fun _ => trivial) hpayload (hnext.trans hrx.symm) ⟨List.prefix_rfl, rfl⟩ hp
      rwa [hmoved.expected, hrx]
    | none =>
      simp only [InOrder, Event.number, hnumber] at h
      rcases step_packet_cases hstep with rfl | ⟨p, r, hparse, hp⟩
      · rw [hrx]
        exact h.2
      · have hpayload : p.payload = [] := by
          by_contra hpayload
          rw [numberOf_payload hparse hpayload] at hnumber
          cases hnumber
        have hkept := ((Expects.stable _ _).processPacket_unexpected (fun _ => trivial)
          (Or.inl hpayload) (fun hreset => hreset.1 hpayload) (Expects.refl s) hp).1
        rw [hkept.expected, hrx]
        exact h.2
  | reset =>
    simp only [InOrder, Event.number] at h
    exact absurd rfl h.1
  | _ => exact hlocal rfl rfl

/-- Payload packets that arrive in order are returned. -/
theorem returned_of_inOrder {n : SeqNr} (hs : s.Reachable) (hrx : s.rxSeqExpected = n)
    (h : InOrder n es) :
    ∀ x ∈ es.zip (s.responses es), x.1.Returned x.2 := by
  induction es generalizing s n with
  | nil => simp
  | cons e es ih =>
    have hhead : ∀ data p, e = .packet data → parsePacket data = .ok (.ok p) → p.payload ≠ [] →
        ∃ t written, s.respond e = .ok (t, ⟨written, .ok (some p.payload)⟩) := by
      rintro data p rfl hparse hpayload
      simp only [InOrder, Event.number, numberOf_payload hparse hpayload] at h
      obtain ⟨t, r, hp⟩ := processPacket_isOk hs p
      obtain ⟨-, rfl⟩ := (Expects.stable s.trace (s.rxSeqExpected + 1)).processPacket_expected
        (fun _ => trivial) hpayload (h.1.trans hrx.symm) ⟨List.prefix_rfl, rfl⟩ hp
      exact ⟨t, _, respond_packet hparse hp⟩
    unfold responses
    cases hrespond : s.respond e with
    | error panic =>
      intro x hx
      rw [List.zip_cons_cons, List.zip_nil_right, List.mem_singleton] at hx
      subst hx
      intro data p he hparse hpayload
      obtain ⟨t, written, heq⟩ := hhead data p he hparse hpayload
      rw [hrespond] at heq
      cases heq
    | ok y =>
      obtain ⟨t, r⟩ := y
      intro x hx
      rcases List.mem_cons.mp hx with rfl | hx
      · intro data p he hparse hpayload
        obtain ⟨t', written, heq⟩ := hhead data p he hparse hpayload
        rw [hrespond] at heq
        cases heq
        exact ⟨written, rfl⟩
      · have hstep := (respond_ok hrespond).1
        exact ih (.next hs ⟨e, hstep⟩) rfl (expected_of_inOrder hrx h hstep) x hx

/-- A session that recognises the restart and has no callback waiting responds as a new one. -/
theorem restartsAfresh_of (hs : s.Reachable) (hopen : s.closed = false)
    (hwaiting : s.waitingCallbacks = 0)
    (hrx : (s.rxSeqExpected ≠ 0 ∧ s.rxSeqExpected ≠ 1) ∨ (s.rxSeqExpected = 0 ∧ s.Unused)) :
    s.RestartsAfresh := by
  intro data p xs hparse hpayload horder
  generalize hes : xs.filterMap Happening.event? = es at horder
  have hzero : p.hdr.seqNr = 0 := by
    simp only [InOrder, Event.number, numberOf_payload hparse hpayload] at horder
    exact horder.1
  obtain ⟨t, r, ht⟩ := processPacket_isOk hs p
  obtain ⟨t', r', ht'⟩ := processPacket_isOk (.start rfl) p
  have hrelated := alike_restart hs hopen hrx hpayload hzero
  rw [ht, ht'] at hrelated
  obtain ⟨halike, hr⟩ := hrelated
  have hsame : s.responses ((.packet data :: es).map (Event.shift s.waitingCallbacks)) =
      newSession.responses (.packet data :: es) := by
    obtain ⟨ws, ws', hws, hws', hdatagrams⟩ := halike.wrote
    simp only at hws hws' hr
    rw [List.map_cons, Event.shift_packet, responses_cons_ok (respond_packet hparse ht),
      responses_cons_ok (respond_packet hparse ht'), halike.responses es, hr, hws, hws',
      List.drop_left, List.drop_left, hdatagrams]
  have hevents : (Happening.event (.packet data) :: xs).filterMap Happening.event? =
      .packet data :: es := by
    rw [List.filterMap_cons, hes]
    rfl
  have hamid : s.responsesAmid s.waitingCallbacks (.event (.packet data) :: xs) =
      newSession.responsesAmid 0 (.event (.packet data) :: xs) := by
    rw [hwaiting] at hsame ⊢
    rw [shift_zero, List.map_id] at hsame
    exact responsesAmid_congr (by rwa [hevents])
  refine ⟨hamid, ?_⟩
  rw [hamid]
  intro e r hmem
  refine returned_amid ?_ hmem
  rw [hevents]
  exact returned_of_inOrder (.start rfl) rfl horder

theorem parsePacket_nack (n q : SeqNr) : parsePacket (controlPacket n q false) =
    .ok (.ok ⟨⟨packetData, n⟩, ⟨q, 0, 0, 0⟩, []⟩) := by
  have hparse := parsePacket_pack n ⟨q, 0, 0, 0⟩ []
  rwa [List.append_nil] at hparse

/-- A NACK is answered with packets of the ring. -/
theorem respond_nack (s : Session) (n q : SeqNr) :
    ∃ t, s.respond (.packet (controlPacket n q false)) =
      .ok (t, ⟨retransmitLoop q s.ring, .ok none⟩) := by
  obtain ⟨t, ht, htrace⟩ : ∃ t,
      s.processPacket ⟨⟨packetData, n⟩, ⟨q, 0, 0, 0⟩, []⟩ = .ok (t, none) ∧
      t.trace = s.trace ++ batchWrites (retransmitLoop q s.ring) := by
    unfold processPacket
    rw [if_pos rfl, if_neg (by simp [Packet.isAck])]
    refine ⟨_, rfl, ?_⟩
    obtain ⟨m, -, heq⟩ := onPeerNack_eq { s with metrics := { s.metrics with
      packetsRx := s.metrics.packetsRx + 1, peerNACKs := s.metrics.peerNACKs + 1 } } q
    rw [heq, updateAckTimer_eq]
    rfl
  refine ⟨t, ?_⟩
  rw [respond_packet (parsePacket_nack n q) ht, htrace, List.drop_left, datagrams_batchWrites]

end Session

/-- The chunks of a transfer without application header. -/
theorem Transfer.nextChunk_bare {t : Transfer} {data : List Byte} {c : Chunk}
    (hheader : t.header = []) (hoffset : 0 ≤ t.offset) (h : t.nextChunk data = some c) :
    c.header = [] ∧ c.body.length ≤ t.maxChunk ∧
      (c.fin = true → data.length ≤ t.offset + t.maxChunk) ∧
      (c.fin = false → c.offset = t.offset + t.maxChunk) := by
  unfold Transfer.nextChunk at h
  rw [if_neg (by simp [hheader])] at h
  split_ifs at h
  · cases h
    refine ⟨rfl, ?_, fun _ => by omega, fun hfin => ?_⟩
    · simp only [List.length_take, List.length_drop]
      omega
    · simp only [decide_eq_false_iff_not] at hfin
      omega
  · cases h
    refine ⟨rfl, ?_, fun hfin => ?_, fun _ => rfl⟩
    · simp only [List.length_take, List.length_drop]
      omega
    · simpa only [decide_eq_true_eq] using hfin

/-- Without a chunk to send, all data have been sent. -/
theorem Transfer.le_of_nextChunk_bare {t : Transfer} {data : List Byte} (hheader : t.header = [])
    (h : t.nextChunk data = none) : data.length ≤ t.offset := by
  unfold Transfer.nextChunk at h
  rw [if_neg (by simp [hheader])] at h
  split_ifs at h with hend
  exact hend

namespace Session

variable {s t : Session}

/-- A transfer without application header is sent without a panic. -/
theorem sendRawDataWithHeader_isOk (hs : s.Reachable) (data : List Byte) :
    ∃ t, s.sendRawDataWithHeader [] (some data) = .ok t := by
  cases hres : s.sendRawDataWithHeader [] (some data) with
  | ok t => exact ⟨t, rfl⟩
  | error e =>
    exfalso
    rcases Fallible.bind_eq_error.mp hres with hloop | ⟨r, -, hr⟩
    · obtain ⟨u, sofar, data', c, ⟨hheader, hmax, hoffset⟩, hdata, hnext, hpack⟩ :=
        transferLoop_error
        (P := fun u _ => u.transfer.header = [] ∧ u.transfer.maxChunk = maxDataPayload ∧
          (u.transfer.data.isSome → 0 ≤ u.transfer.offset))
        (by
          rintro u batch data c slot hpack ⟨hheader, hmax, hoffset⟩
          have hpos := hoffset (by rw [hpack.pending]; rfl)
          obtain ⟨-, -, -, hlater⟩ := Transfer.nextChunk_bare hheader hpos hpack.next
          rw [sent_eq]
          cases hfin : c.fin with
          | true => exact ⟨rfl, hmax, by simp⟩
          | false =>
            refine ⟨hheader, hmax, fun _ => ?_⟩
            simp only [Bool.false_eq_true, if_false]
            rw [hlater hfin]
            omega)
        hloop ⟨rfl, optimalChunkSize_eq _, fun _ => le_rfl⟩
      obtain ⟨hbare, hbody, -⟩ :=
        Transfer.nextChunk_bare hheader (hoffset (by rw [hdata]; rfl)) hnext
      have hfits : c.header.length + (c.body.length + 3) / 4 * 4 + 6 ≤ txPacketCapacity := by
        simp only [hbare, hmax, List.length_nil, txPacketCapacity, maxDataPayload] at hbody ⊢
        omega
      have hfull : u.txWriteIndex + 1 = u.txReadIndex := by
        by_contra hroom
        obtain ⟨v, pkt, hok⟩ := packDataPacket_isOk c.fin hfits hroom
        rw [hok] at hpack
        cases hpack
      rw [packDataPacket_full c.fin hfits hfull] at hpack
      cases hpack
      exact (ringInv_invariant.reachable hs).step_ne_ringFull
        (.sendRawDataWithHeader [] (some data)) hres
    · cases hr

/-- The packets packed so far of a transfer without application header, and what is known of
the window before each of them. -/
structure Sofar (s : Session) (data : List Byte) (u : Session) (batch : List (List Byte)) : Prop
    where
  /-- Nothing has been written yet. -/
  trace : u.trace = s.trace
  /-- The packets are numbered on. -/
  txSeqNr : u.txSeqNr = s.txSeqNr + BitVec.ofNat 12 batch.length
  /-- Nothing has been acknowledged. -/
  txSeqNrAcked : u.txSeqNrAcked = s.txSeqNrAcked
  /-- The ring holds the packets. -/
  length : u.ring.length = batch.length
  /-- The window was open. -/
  window : ∀ k, 0 < k → k < batch.length →
    (s.txSeqNr + BitVec.ofNat 12 k - s.txSeqNrAcked - 1).toNat < sendWindow
  /-- How far the transfer has come. -/
  transfer : u.transfer = ⟨[], some data, (maxDataPayload * batch.length : ℕ), maxDataPayload⟩ ∨
    (u.transfer.data = none ∧ data.length ≤ maxDataPayload * batch.length)

/-- The window in terms of the packets packed. -/
theorem Sofar.inFlight {data : List Byte} {u : Session} {batch : List (List Byte)}
    (h : Sofar s data u batch) (hpos : 0 < batch.length) :
    u.inFlight = (s.txSeqNr + BitVec.ofNat 12 batch.length - s.txSeqNrAcked - 1).toNat := by
  have hne : u.ring ≠ [] := by
    rw [← List.length_pos_iff, h.length]
    exact hpos
  rw [inFlight_eq, if_neg hne, unacked, h.txSeqNr, h.txSeqNrAcked]

/-- A packet is packed. -/
theorem Sofar.sent {data data' : List Byte} {u : Session} {batch : List (List Byte)} {c : Chunk}
    {slot : TxPacket} (h : Sofar s data u batch) (hpack : Packs u data' c slot) :
    Sofar s data (u.sent slot c) (batch ++ [slot.bytes]) := by
  have htransfer := h.transfer.resolve_right (fun hnone => by
    rw [hpack.pending] at hnone
    cases hnone.1)
  obtain rfl : data = data' := by
    have hpending := hpack.pending
    rw [htransfer] at hpending
    exact Option.some.inj hpending
  obtain ⟨-, -, hlast, hlater⟩ := Transfer.nextChunk_bare (by rw [htransfer])
    (by rw [htransfer]; exact Int.natCast_nonneg _) hpack.next
  rw [htransfer] at hlast hlater
  simp only [maxDataPayload] at hlast hlater
  refine ⟨?_, ?_, ?_, ?_, ?_, ?_⟩
  · rw [sent_eq]
    exact h.trace
  · rw [sent_eq, List.length_append, List.length_singleton, BitVec.ofNat_add, ← add_assoc,
      ← h.txSeqNr]
    rfl
  · rw [sent_eq]
    exact h.txSeqNrAcked
  · rw [ring_sent slot c hpack.room, List.length_append, List.length_append, h.length]
    rfl
  · intro k hk hlt
    rw [List.length_append, List.length_singleton] at hlt
    rcases Nat.lt_or_eq_of_le (Nat.le_of_lt_succ hlt) with hlt | rfl
    · exact h.window k hk hlt
    · rw [← h.inFlight hk]
      exact hpack.window
  · rw [sent_eq]
    simp only [List.length_append, List.length_singleton, maxDataPayload]
    cases hfin : c.fin with
    | true =>
      refine Or.inr ⟨rfl, ?_⟩
      have hle := hlast hfin
      omega
    | false =>
      left
      simp only [Bool.false_eq_true, if_false, htransfer, hlater hfin, maxDataPayload,
        Transfer.mk.injEq, true_and, and_true]
      omega

/-- The first packets of a long transfer: the window is open before each of them but the
first, and closed behind the last. -/
theorem first_packets {data : List Byte} (hlong : 9 * maxDataPayload < data.length)
    (ht : s.sendRawDataWithHeader [] (some data) = .ok t) :
    ∃ batch, t.trace = s.trace ++ batchWrites batch ∧
      (∀ k, 0 < k → k < batch.length →
        (s.txSeqNr + BitVec.ofNat 12 k - s.txSeqNrAcked - 1).toNat < sendWindow) ∧
      (batch.length ≤ 9 → sendWindow ≤
        (s.txSeqNr + BitVec.ofNat 12 batch.length - s.txSeqNrAcked - 1).toNat) := by
  have hstart : Sofar s data { s.resetSendState with
      transfer := ⟨[], some data, 0, optimalChunkSize data.length⟩ } [] := by
    refine ⟨rfl, (add_zero s.txSeqNr).symm, rfl, ?_, fun k _ hk => absurd hk (Nat.not_lt_zero k),
      Or.inl ?_⟩
    · rw [ring_eq_nil_iff.mpr rfl]
      rfl
    · rw [optimalChunkSize_eq]
      rfl
  obtain ⟨u, batch, hu, hexit, rfl⟩ := handleTransfer_invariant (P := Sofar s data)
    (fun u batch data' c slot hpack hu => hu.sent hpack)
    (fun u batch data' hpending _ hnone hu => by
      have htransfer := hu.transfer.resolve_right (fun h => by
        rw [hpending] at h
        cases h.1)
      obtain rfl : data = data' := by
        rw [htransfer] at hpending
        exact Option.some.inj hpending
      have hend := Transfer.le_of_nextChunk_bare (by rw [htransfer]) hnone
      rw [htransfer] at hend
      exact ⟨hu.trace, hu.txSeqNr, hu.txSeqNrAcked, hu.length, hu.window,
        Or.inr ⟨rfl, Int.ofNat_le.mp hend⟩⟩)
    ht hstart
  rw [updateAckTimer_eq]
  refine ⟨batch, by rw [← hu.trace], hu.window, ?_⟩
  intro hfew
  have hwindow : sendWindow ≤ u.inFlight := by
    refine hexit.resolve_left (fun hnone => ?_)
    rcases hu.transfer with htransfer | ⟨-, hend⟩
    · rw [htransfer] at hnone
      cases hnone
    · simp only [maxDataPayload] at hlong hend
      omega
  have hpos : 0 < batch.length := by
    rw [← hu.length, List.length_pos_iff]
    intro hempty
    rw [inFlight_eq, if_pos hempty] at hwindow
    cases hwindow
  rwa [hu.inFlight hpos] at hwindow

/-- The first packet of the restarted peer, for a session that expects it. -/
theorem processPacket_request (hrx : s.rxSeqExpected = 0) :
    ∃ t,
      s.processPacket ⟨⟨packetData, 0⟩, ⟨0, 0, 1, 0⟩, [1, 2, 3, 4]⟩ = .ok (t, some [1, 2, 3, 4]) ∧
      t.trace = s.trace ++ [.writeTo (controlPacket s.txSeqNr 0 true)] ∧ t.ring = s.ring ∧
      t.txSeqNr = s.txSeqNr ∧ t.txSeqNrAcked = s.txSeqNrAcked := by
  unfold processPacket
  rw [if_neg (List.cons_ne_nil _ _), if_neg (fun h => h hrx.symm),
    acceptPacket_of_not_isAck (by simp [Packet.isAck])]
  refine ⟨_, rfl, ?_, rfl, rfl, rfl⟩
  show s.trace ++ [.writeTo (controlPacket s.txSeqNr ((0 : SeqNr) + 1 - 1) true)] = _
  rw [add_sub_cancel_right]

/-- A request comes first. -/
theorem inOrder_request (es : List Event) (h : InOrder 1 es) :
    InOrder 0 (.packet (requestPacket 0) :: es) := by
  have hnumber : numberOf (requestPacket 0) = some 0 :=
    numberOf_payload (parsePacket_requestPacket 0) (List.cons_ne_nil _ _)
  have hrest : InOrder (0 + 1) es := h
  simpa only [InOrder, Event.number, hnumber, true_and] using hrest

/-- A negative acknowledgement has no number. -/
theorem inOrder_nack (n k q : SeqNr) : InOrder n [.packet (controlPacket k q false)] := by
  have hnumber : numberOf (controlPacket k q false) = none := by
    simp only [numberOf, parsePacket_nack, if_true]
  simp [InOrder, Event.number, hnumber]

/-- A closed session is told from a new one by the callbacks of its timer. -/
theorem RestartsAfresh.not_closed (h : s.RestartsAfresh) : s.closed = false := by
  by_contra hclosed
  rw [Bool.not_eq_false] at hclosed
  have hnew : ∃ r₀ r₁ r₂ d ds, newSession.responses
      [.packet (requestPacket 0), .sendData (some [1]), .expire, .callback 0] =
      [.ok r₀, .ok r₁, .ok r₂, .ok ⟨d :: ds, .ok none⟩] := ⟨_, _, _, _, _, rfl⟩
  obtain ⟨r₀, r₁, r₂, d, ds, hnew⟩ := hnew
  have horder : InOrder 0
      [.packet (requestPacket 0), .sendData (some [1]), .expire, .callback 0] :=
    inOrder_request _ ⟨by simp, by simp, by simp, trivial⟩
  have hsame := (h.events (parsePacket_requestPacket 0) (List.cons_ne_nil _ _) horder).1
  rw [hnew] at hsame
  obtain ⟨t₁, h₁, hsame⟩ := exists_respond hsame
  obtain ⟨t₂, h₂, hsame⟩ := exists_respond hsame
  obtain ⟨t₃, h₃, hsame⟩ := exists_respond hsame
  obtain ⟨t₄, h₄, -⟩ := exists_respond hsame
  have hc₁ := closed_lasting.step rfl hclosed (respond_ok h₁).1
  have hc₂ : t₂.closed = true := (closed_handleTransfer (respond_ok h₂).1).trans hc₁
  have hc₃ := closed_lasting.step rfl hc₂ (respond_ok h₃).1
  obtain ⟨hstep, hr⟩ := respond_ok h₄
  cases hstep
  have hwritten := congrArg Response.written hr
  rw [runCallback_closed hc₃] at hwritten
  simp [datagrams] at hwritten

/-- A session that expects packet 0 is told from a new one by its number, its ring or its
window, unless its sending side is unused. -/
theorem RestartsAfresh.unused (h : s.RestartsAfresh) (hrx : s.rxSeqExpected = 0) : s.Unused := by
  obtain ⟨t, hp, htrace, hring, hseq, hacked⟩ := processPacket_request hrx
  obtain ⟨t', hp', htrace', hring', hseq', hacked'⟩ := processPacket_request (s := newSession) rfl
  have hrespond := respond_packet (parsePacket_requestPacket 0) hp
  have hrespond' := respond_packet (parsePacket_requestPacket 0) hp'
  have hsame : ∀ es, InOrder 1 es →
      datagrams (t.trace.drop s.trace.length) = datagrams (t'.trace.drop newSession.trace.length) ∧
      t.responses (es.map (Event.shift s.waitingCallbacks)) = t'.responses es := by
    intro es hes
    have heq := (h.events (parsePacket_requestPacket 0) (List.cons_ne_nil _ _)
      (inOrder_request es hes)).1
    rw [List.map_cons, Event.shift_packet, responses_cons_ok hrespond,
      responses_cons_ok hrespond'] at heq
    obtain ⟨hfirst, hrest⟩ := List.cons.inj heq
    exact ⟨congrArg Response.written (Except.ok.inj hfirst), hrest⟩
  have hzero : s.txSeqNr = 0 := by
    have hfirst := (hsame [] trivial).1
    rw [htrace, htrace', List.drop_left, List.drop_left] at hfirst
    have hnumber := congrArg (List.map seqNrOf) hfirst
    simpa [datagrams, seqNrOf, controlPacket, newSession] using hnumber
  have hempty : s.ring = [] := by
    cases hslots : s.ring with
    | nil => rfl
    | cons slot slots =>
      exfalso
      obtain ⟨v, hv⟩ := respond_nack t 0 slot.seq
      obtain ⟨v', hv'⟩ := respond_nack t' 0 slot.seq
      have hnack := (hsame [.packet (controlPacket 0 slot.seq false)] (inOrder_nack 1 0 _)).2
      rw [List.map_cons, Event.shift_packet, responses_cons_ok hv, responses_cons_ok hv', hring,
        hring', hslots] at hnack
      have hwritten := congrArg Response.written (Except.ok.inj (List.cons.inj hnack).1)
      have hfirst : retransmitLoop slot.seq (slot :: slots) =
          slot.bytes :: retransmitLoop slot.seq slots := by
        rw [retransmitLoop, if_neg (by rw [sub_self]; decide), if_pos (by bv_omega)]
      have hnone : newSession.ring = [] := ring_eq_nil_iff.mpr rfl
      rw [hfirst, hnone] at hwritten
      cases hwritten
  refine ⟨hzero, ?_, hempty⟩
  obtain ⟨data, hlong⟩ : ∃ data : List Byte, 9 * maxDataPayload < data.length := by
    refine ⟨List.replicate (9 * maxDataPayload + 1) 0, ?_⟩
    rw [List.length_replicate]
    exact Nat.lt_succ_self _
  have hreach' : t'.Reachable :=
    .next (.start rfl) ⟨_, step_packet_eq (parsePacket_requestPacket 0) hp'⟩
  obtain ⟨v', hv'⟩ := sendRawDataWithHeader_isOk hreach' data
  have hsend := (hsame [.sendRawDataWithHeader [] (some data)] ⟨(fun h => by cases h), trivial⟩).2
  have hrespond' : t'.respond (.sendRawDataWithHeader [] (some data)) =
      .ok (v', ⟨datagrams (v'.trace.drop t'.trace.length), .ok none⟩) :=
    Fallible.bind_eq_ok.mpr ⟨v', hv', rfl⟩
  rw [responses_cons_ok hrespond'] at hsend
  obtain ⟨v, hv, -⟩ := exists_respond hsend
  obtain ⟨hstep, hwritten⟩ := respond_ok hv
  obtain ⟨batch, hbatch, hopen, hfull⟩ := first_packets hlong hstep
  obtain ⟨batch', hbatch', hopen', hfull'⟩ := first_packets hlong hv'
  have hlength : batch'.length = batch.length := by
    have heq := congrArg Response.written hwritten
    simp only [hbatch, hbatch', List.drop_left, datagrams_batchWrites] at heq
    rw [heq]
  rw [hseq, hacked, hzero] at hopen hfull
  rw [hseq', hacked', hlength] at hopen' hfull'
  -- eight packets of the new session fill the window
  have height : batch.length = 8 := by
    have hle : batch.length ≤ 8 := by
      by_contra hmore
      have heighth := hopen' 8 (by decide) (by omega)
      exact absurd heighth (by decide)
    have hge := hfull' (by omega)
    simp only [sendWindow, newSession] at hge
    bv_omega
  have hseventh := hopen 7 (by decide) (by omega)
  have heighth := hfull (by omega)
  rw [height] at heighth
  simp only [sendWindow] at hseventh heighth
  bv_omega

/-- A session that expects packet 1 acknowledges packet 0 and drops its payload. -/
theorem RestartsAfresh.ne_one (h : s.RestartsAfresh) (hs : s.Reachable) : s.rxSeqExpected ≠ 1 := by
  intro hone
  obtain ⟨t, r, hp⟩ := processPacket_isOk hs ⟨⟨packetData, 0⟩, ⟨0, 0, 1, 0⟩, [1, 2, 3, 4]⟩
  have hreturned := (h.events (parsePacket_requestPacket 0) (List.cons_ne_nil _ _)
    (inOrder_request [] trivial)).2
  rw [List.map_cons, Event.shift_packet,
    responses_cons_ok (respond_packet (parsePacket_requestPacket 0) hp)] at hreturned
  obtain ⟨written, hr⟩ := hreturned _ List.mem_cons_self _ _ rfl (parsePacket_requestPacket 0)
    (List.cons_ne_nil _ _)
  obtain rfl : r = some [1, 2, 3, 4] := by
    have hresult := congrArg Response.result (Except.ok.inj hr)
    exact Except.ok.inj hresult
  rcases processPacket_payload (List.cons_ne_nil _ _) hp with
    ⟨-, hnext | ⟨-, -, hrepeat, -⟩, -⟩ | ⟨hnone, -⟩ | ⟨hnone, -⟩
  · rw [hone] at hnext
    cases hnext
  · exact hrepeat (by rw [hone]; rfl)
  · cases hnone
  · cases hnone

/-- What packet 0 finds in a session that restarts afresh. -/
theorem RestartsAfresh.expected (h : s.RestartsAfresh) (hs : s.Reachable) :
    (s.rxSeqExpected ≠ 0 ∧ s.rxSeqExpected ≠ 1) ∨ (s.rxSeqExpected = 0 ∧ s.Unused) := by
  by_cases hzero : s.rxSeqExpected = 0
  · exact Or.inr ⟨hzero, h.unused hzero⟩
  · exact Or.inl ⟨hzero, h.ne_one hs⟩

/-- A callback that passes the checks while a FIN is pending repeats the packets of the ring. -/
theorem Responds.written {i : ℕ} (h : s.Responds i) (hfin : s.finPending = true) :
    datagrams ((s.runCallback i).trace.drop s.trace.length) =
      retransmitLoop (s.txSeqNrAcked + 1) s.ring := by
  have htrace : (s.runCallback i).trace =
      s.trace ++ batchWrites (retransmitLoop (s.txSeqNrAcked + 1) s.ring) := by
    rw [runCallback_eq, if_pos h]
    rcases handleAckTimeout_cases (s.called i) with ⟨hnone, -⟩ | ⟨-, m, -, hrounds⟩
    · exact absurd (hfin.symm.trans hnone) (by simp)
    · rcases hrounds with ⟨-, heq⟩ | ⟨-, -, heq⟩ | ⟨-, -, heq⟩ <;> rw [heq] <;> rfl
  rw [htrace, List.drop_left, datagrams_batchWrites]

/-- A callback that had started before is told from the silence of a new session by what it
repeats after the next send. -/
theorem RestartsAfresh.none_waiting (h : s.RestartsAfresh) (hs : s.Reachable) :
    s.waitingCallbacks = 0 := by
  by_contra hwaiting
  have hsame := (h _ _ [.event (.sendData (some [1])), .leftover 0] (parsePacket_requestPacket 0)
    (List.cons_ne_nil _ _) (inOrder_request [.sendData (some [1])] ⟨by simp, trivial⟩)).1
  -- the new session sends the packet and then nothing
  obtain ⟨t₁, r₁, t₂, r₂, hnew₁, hnew₂, hfin, hmode, hopen, hrepeats⟩ :
      ∃ t₁ r₁ t₂ r₂, newSession.respond (.packet (requestPacket 0)) = .ok (t₁, r₁) ∧
        t₁.respond (.sendData (some [1])) = .ok (t₂, r₂) ∧ t₂.finPending = true ∧
        t₂.ack.ackWaitMode = .fin ∧ t₂.closed = false ∧
        retransmitLoop (t₂.txSeqNrAcked + 1) t₂.ring ≠ [] :=
    ⟨_, _, _, _, rfl, rfl, rfl, rfl, rfl, by decide +kernel⟩
  obtain ⟨u, r, hp⟩ := processPacket_isOk hs ⟨⟨packetData, 0⟩, ⟨0, 0, 1, 0⟩, [1, 2, 3, 4]⟩
  obtain ⟨u', r', hp'⟩ := processPacket_isOk (.start rfl)
    ⟨⟨packetData, 0⟩, ⟨0, 0, 1, 0⟩, [1, 2, 3, 4]⟩
  have halike := alike_restart hs h.not_closed (h.expected hs) (List.cons_ne_nil _ _)
    (p := ⟨⟨packetData, 0⟩, ⟨0, 0, 1, 0⟩, [1, 2, 3, 4]⟩) rfl
  rw [hp, hp'] at halike
  cases (respond_packet (parsePacket_requestPacket 0) hp').symm.trans hnew₁
  have hsend := halike.1.respond (.sendData (some [1]))
  rw [hnew₂] at hsend
  cases hsent : u.respond ((Event.sendData (some [1])).shift s.waitingCallbacks) with
  | error panic =>
    rw [hsent] at hsend
    exact hsend.elim
  | ok x =>
    obtain ⟨v, rv⟩ := x
    rw [hsent] at hsend
    obtain ⟨hv, -⟩ := hsend
    have hresponds : v.Responds 0 := by
      have hstarted := hv.timer.started
      have harmed : v.ack.ackWaitMode ≠ .none := by
        rw [hv.timer.mode, hmode]
        decide
      refine ⟨?_, hv.closed.trans hopen, harmed, (hv.timer.valid harmed).1⟩
      simp only at hstarted
      omega
    have hcall : v.respond (.callback 0) = .ok (v.runCallback 0,
        ⟨datagrams ((v.runCallback 0).trace.drop v.trace.length), .ok none⟩) := rfl
    simp only [responsesAmid, Event.shift_packet, respond_packet (parsePacket_requestPacket 0) hp,
      hsent, hnew₁, shift_zero, id, hnew₂, hcall, Nat.pos_of_ne_zero hwaiting, if_true,
      Nat.lt_irrefl, if_false, List.cons.injEq, Except.ok.injEq] at hsame
    have hwritten := congrArg Response.written hsame.2.2.1
    rw [hresponds.written (hv.fin.trans hfin), hv.txSeqNrAcked,
      retransmitLoop_congr hv.held] at hwritten
    exact hrepeats hwritten

/-- A session responds to a restarted peer as a new session, if and only if it is open, no
callback of its timer is waiting for the lock, and it either expects a number other than 0 and
1, so that packet 0 resets it, or expects packet 0 and has an unused sending side. -/
theorem restarts_afresh_iff (hs : s.Reachable) :
    s.RestartsAfresh ↔ s.closed = false ∧ s.waitingCallbacks = 0 ∧
      ((s.rxSeqExpected ≠ 0 ∧ s.rxSeqExpected ≠ 1) ∨ (s.rxSeqExpected = 0 ∧ s.Unused)) := by
  constructor
  · intro h
    exact ⟨h.not_closed, h.none_waiting hs, h.expected hs⟩
  · rintro ⟨hopen, hwaiting, hrx⟩
    exact restartsAfresh_of hs hopen hwaiting hrx

/-- A session that has received two packets recognises the restart. -/
theorem restarts_afresh_after_two_packets :
    ∃ s, [.packet (requestPacket 0), .packet (requestPacket 1)].foldlM step newSession = .ok s ∧
      s.RestartsAfresh := by
  have hrun : ∃ s : Session, [Event.packet (requestPacket 0), .packet (requestPacket 1)].foldlM step
      newSession = .ok s ∧ s.closed = false ∧ s.waitingCallbacks = 0 ∧ s.rxSeqExpected = 2 :=
    ⟨_, rfl, rfl, rfl, rfl⟩
  obtain ⟨s, hs, hopen, hwaiting, hrx⟩ := hrun
  refine ⟨s, hs, (restarts_afresh_iff (.foldlM (.start rfl) _ hs)).mpr
    ⟨hopen, hwaiting, Or.inl ?_⟩⟩
  rw [hrx]
  decide

/-- After a single packet a restart is taken for its repetition and the payload is not
returned; a session that has sent before its peer restarts with the expected number goes on
with its own numbers; and a callback that had started before the restart repeats the first
packet sent after it at once. -/
theorem restart_is_missed :
    (∃ s t : Session, s.Reachable ∧ s.closed = false ∧
      s.processDataPacket (requestPacket 0) = .ok (t, .ok none) ∧ ¬ s.RestartsAfresh) ∧
    (∃ s t : Session, s.Reachable ∧ s.closed = false ∧
      s.processDataPacket (requestPacket 0) = .ok (t, .ok (some [1, 2, 3, 4])) ∧
      t.trace = s.trace ++ [.writeTo (controlPacket 1 0 true)] ∧ ¬ s.RestartsAfresh) ∧
    ∃ s t : Session, s.Reachable ∧ s.closed = false ∧ s.rxSeqExpected = 2 ∧
      [Event.packet (requestPacket 0), .sendData (some [2])].foldlM step s = .ok t ∧
      datagrams (t.runCallback 0).trace = datagrams t.trace ++ [dataPacket 0 0 true [] [2]] ∧
      ¬ s.RestartsAfresh := by
  refine ⟨?_, ?_, ?_⟩
  · have hrun : ∃ s t : Session, newSession.step (.packet (requestPacket 0)) = .ok s ∧
        s.closed = false ∧ s.processDataPacket (requestPacket 0) = .ok (t, .ok none) ∧
        s.rxSeqExpected = 1 := ⟨_, _, rfl, rfl, rfl, rfl⟩
    obtain ⟨s, t, hs, hopen, hcall, hone⟩ := hrun
    have hreach : s.Reachable := .next (.start rfl) ⟨_, hs⟩
    exact ⟨s, t, hreach, hopen, hcall, fun h => h.ne_one hreach hone⟩
  · have hrun : ∃ s t : Session, newSession.step (.sendData (some [1])) = .ok s ∧
        s.closed = false ∧
        s.processDataPacket (requestPacket 0) = .ok (t, .ok (some [1, 2, 3, 4])) ∧
        t.trace = s.trace ++ [.writeTo (controlPacket 1 0 true)] ∧ s.rxSeqExpected = 0 ∧
        s.txSeqNr = 1 := ⟨_, _, rfl, rfl, rfl, rfl, rfl, rfl⟩
    obtain ⟨s, t, hs, hopen, hcall, htrace, hzero, hone⟩ := hrun
    refine ⟨s, t, .next (.start rfl) ⟨_, hs⟩, hopen, hcall, htrace, fun h => ?_⟩
    have hunused := (h.unused hzero).1
    rw [hone] at hunused
    cases hunused
  · have hrun : ∃ s t : Session, [Event.packet (requestPacket 0), .packet (requestPacket 1),
          .sendData (some [1]), .expire].foldlM step newSession = .ok s ∧
        s.closed = false ∧ s.rxSeqExpected = 2 ∧
        [Event.packet (requestPacket 0), .sendData (some [2])].foldlM step s = .ok t ∧
        datagrams (t.runCallback 0).trace = datagrams t.trace ++ [dataPacket 0 0 true [] [2]] ∧
        s.waitingCallbacks = 1 := ⟨_, _, rfl, rfl, rfl, rfl, by rfl, rfl⟩
    obtain ⟨s, t, hs, hopen, hrx, hcall, htrace, hwaiting⟩ := hrun
    have hreach : s.Reachable := .foldlM (.start rfl) _ hs
    refine ⟨s, t, hreach, hopen, hrx, hcall, htrace, fun h => ?_⟩
    have hnone := h.none_waiting hreach
    rw [hwaiting] at hnone
    cases hnone

end Session

end Udpfsd.Udprdma
