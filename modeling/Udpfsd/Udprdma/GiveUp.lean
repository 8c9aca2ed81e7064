import Udpfsd.Udprdma.Progress
import Udpfsd.Udprdma.Ring

/-!
# Giving up on a silent peer

While nothing is heard of the peer and nothing new is sent, only the acknowledgement timer
expires and its callbacks run. Each round of retransmissions uses up one of the attempts,
and the last one disarms the timer, so that a silent period ends with nothing pending.
-/

namespace Udpfsd.Udprdma

/-- What can happen in a silent period. -/
inductive Tick
  /-- The acknowledgement timer expires. -/
  | expire
  /-- A started callback gets the lock. -/
  | callback (i : ℕ)

/-- A tick as an event of the session. -/
def Tick.event : Tick → Event
  | .expire => .expire
  | .callback i => .callback i

/-- A scan of the ring collects packets of it in order. -/
theorem retransmitLoop_sublist (q : SeqNr) (ring : List TxPacket) :
    (retransmitLoop q ring).Sublist (ring.map TxPacket.bytes) := by
  induction ring with
  | nil => exact List.Sublist.slnil
  | cons p ps ih =>
    unfold retransmitLoop
    split_ifs
    · exact List.nil_sublist _
    · exact ih.cons_cons _
    · exact ih.cons _

namespace Session

/-- A FIN or a full window is waited for. -/
def Waits (s : Session) : Prop :=
  s.finPending = true ∨ (s.transfer.data.isSome ∧ sendWindow ≤ s.inFlight)

instance (s : Session) : Decidable s.Waits := inferInstanceAs (Decidable (_ ∨ _ ∧ _))

/-- The effect of a tick. -/
def tick (s : Session) : Tick → Session
  | .expire => { s with ack.ackTimer := s.ack.ackTimer.expire }
  | .callback i => s.runCallback i

/-- The retransmission round that a tick may be: what it writes. -/
def round (s : Session) : Tick → Option (List (List Byte))
  | .expire => none
  | .callback i =>
    if s.Responds i ∧ s.Waits then some (retransmitLoop (s.txSeqNrAcked + 1) s.ring) else none

/-- The retransmission rounds of a silent period. -/
def rounds (s : Session) : List Tick → List (List (List Byte))
  | [] => []
  | e :: es => (s.round e).toList ++ (s.tick e).rounds es

/-- The timer is not armed and no callback is left. -/
def Spent (s : Session) : Prop := s.ack.ackTimer.active = none ∧ s.ack.ackTimer.started = []

/-- A tick is an event of the session. -/
theorem step_tick (s : Session) (e : Tick) : s.step e.event = .ok (s.tick e) := by
  cases e <;> rfl

/-- What a tick does. A round counts an attempt and arms the timer again, or is the last one
and gives up what was waited for. -/
theorem tick_cases (s : Session) (e : Tick) :
    (s.round e = none ∧ ∃ a, s.tick e = { s with ack := a } ∧
      (a.ackWaitMode = s.ack.ackWaitMode ∨ (a.ackWaitMode = .none ∧ s.finPending = false))) ∨
    (s.round e = some (retransmitLoop (s.txSeqNrAcked + 1) s.ring) ∧ s.ack.ackWaitMode ≠ .none ∧
      ∃ m a, let t := { s with
          metrics := m
          trace := s.trace ++ batchWrites (retransmitLoop (s.txSeqNrAcked + 1) s.ring)
          ack := a }
        (s.retransmitAttempts + 1 < maxRetransmits ∧ a.ackWaitMode ≠ .none ∧
          s.tick e = { t with retransmitAttempts := s.retransmitAttempts + 1 }) ∨
        (a.ackWaitMode = .none ∧ s.tick e =
          { t with retransmitAttempts := 0, finPending := false }) ∨
        (a.ackWaitMode = .none ∧ s.finPending = false ∧ s.tick e =
          { t with retransmitAttempts := 0 }.clearTransfer)) := by
  cases e with
  | expire => exact Or.inl ⟨rfl, _, rfl, Or.inl rfl⟩
  | callback i =>
    have htick : s.tick (.callback i) = s.runCallback i := rfl
    rw [runCallback_eq] at htick
    by_cases hresponds : s.Responds i
    · rw [if_pos hresponds] at htick
      rw [htick]
      rcases handleAckTimeout_cases (s.called i) with ⟨hfin, hopen, heq⟩ | ⟨hwaits, m, -, hrounds⟩
      · left
        have hwaits : ¬ s.Waits := by
          rintro (hfin' | ⟨hdata, hwindow⟩)
          · exact absurd (hfin.symm.trans hfin') Bool.false_ne_true
          · rcases hopen with hnone | hless
            · exact absurd hnone (Option.isSome_iff_ne_none.mp hdata)
            · exact absurd hwindow (Nat.not_le.mpr hless)
        refine ⟨if_neg (fun h => hwaits h.2), _, heq, Or.inr ⟨rfl, hfin⟩⟩
      · right
        refine ⟨if_pos ⟨hresponds, hwaits⟩, hresponds.2.2.1, m, ?_⟩
        rcases hrounds with ⟨hmore, heq⟩ | ⟨-, -, heq⟩ | ⟨-, hfin, heq⟩
        · refine ⟨(s.called i).ack.arm s.finPending, Or.inl ⟨hmore, ?_, heq⟩⟩
          rw [AckTimer.ackWaitMode_arm]
          split_ifs <;> simp
        · exact ⟨(s.called i).ack.stop, Or.inr (Or.inl ⟨rfl, heq⟩)⟩
        · exact ⟨(s.called i).ack.stop, Or.inr (Or.inr ⟨rfl, hfin, heq⟩)⟩
    · rw [if_neg hresponds] at htick
      exact Or.inl ⟨if_neg (fun h => hresponds h.1), _, htick, Or.inl rfl⟩

/-- A tick leaves the ring and what is acknowledged alone, and writes its round. -/
theorem tick_frame (s : Session) (e : Tick) :
    (s.tick e).ring = s.ring ∧ (s.tick e).txSeqNrAcked = s.txSeqNrAcked ∧
      (s.tick e).closed = s.closed ∧
      datagrams (s.tick e).trace = datagrams s.trace ++ (s.round e).toList.flatten := by
  rcases tick_cases s e with ⟨hnone, a, heq, -⟩ | ⟨hround, -, m, a, hrounds⟩
  · rw [heq, hnone]
    exact ⟨rfl, rfl, rfl, by simp⟩
  · rw [hround]
    rcases hrounds with ⟨-, -, heq⟩ | ⟨-, heq⟩ | ⟨-, -, heq⟩
    · rw [heq]
      exact ⟨rfl, rfl, rfl, by simp⟩
    · rw [heq]
      exact ⟨rfl, rfl, rfl, by simp⟩
    · rw [heq]
      exact ⟨rfl, rfl, rfl, by simp [clearTransfer]⟩

theorem closed_ticks (s : Session) (ticks : List Tick) :
    (ticks.foldl tick s).closed = s.closed := by
  induction ticks generalizing s with
  | nil => rfl
  | cons e es ih => exact (ih (s.tick e)).trans (tick_frame s e).2.2.1

/-- A silent period writes its rounds and nothing else. -/
theorem datagrams_ticks (s : Session) (ticks : List Tick) :
    datagrams (ticks.foldl tick s).trace = datagrams s.trace ++ (s.rounds ticks).flatten := by
  induction ticks generalizing s with
  | nil => simp [rounds]
  | cons e es ih =>
    rw [List.foldl_cons, ih, (tick_frame s e).2.2.2]
    simp [rounds]

/-- Every round writes packets of the ring, in order and each at most once. -/
theorem sublist_of_mem_rounds {s : Session} {ticks : List Tick} {batch : List (List Byte)}
    (h : batch ∈ s.rounds ticks) : batch.Sublist (s.ring.map TxPacket.bytes) := by
  induction ticks generalizing s with
  | nil => cases h
  | cons e es ih =>
    rcases List.mem_append.mp h with hfirst | hlater
    · rcases tick_cases s e with ⟨hnone, -⟩ | ⟨hround, -⟩
      · simp [hnone] at hfirst
      · rw [hround] at hfirst
        rw [List.mem_singleton.mp hfirst]
        exact retransmitLoop_sublist _ _
    · have hring := (tick_frame s e).1
      rw [← hring]
      exact ih hlater

/-- How many rounds the timer can still make. -/
def budget (s : Session) : ℕ :=
  if s.ack.ackWaitMode = .none then 0 else maxRetransmits - s.retransmitAttempts

/-- A round uses up one attempt. -/
theorem budget_tick {s : Session} (h : s.retransmitAttempts < maxRetransmits) (e : Tick) :
    (s.round e).toList.length + (s.tick e).budget ≤ s.budget ∧
      (s.tick e).retransmitAttempts < maxRetransmits := by
  rcases tick_cases s e with ⟨hnone, a, heq, hmode⟩ | ⟨hround, hmode, m, a, hrounds⟩
  · rw [hnone, heq]
    refine ⟨?_, h⟩
    rcases hmode with hsame | ⟨hstopped, -⟩
    · simp [budget, hsame]
    · simp [budget, hstopped]
  · rw [hround]
    simp only [budget, if_neg hmode]
    rcases hrounds with ⟨hmore, harmed, heq⟩ | ⟨hstopped, heq⟩ | ⟨hstopped, -, heq⟩
    · rw [heq]
      simp only [if_neg harmed, Option.toList_some, List.length_singleton]
      omega
    · rw [heq]
      simp only [hstopped, if_true, Option.toList_some, List.length_singleton,
        maxRetransmits] at h ⊢
      omega
    · rw [heq]
      simp only [clearTransfer, hstopped, if_true, Option.toList_some, List.length_singleton,
        maxRetransmits] at h ⊢
      omega

theorem length_rounds_le {s : Session} (h : s.retransmitAttempts < maxRetransmits)
    (ticks : List Tick) : (s.rounds ticks).length ≤ s.budget := by
  induction ticks generalizing s with
  | nil => exact Nat.zero_le _
  | cons e es ih =>
    obtain ⟨hbudget, hless⟩ := budget_tick h e
    have hrest := ih hless
    rw [rounds, List.length_append]
    omega

/-- A FIN that the timer waits for is given up before the timer is disarmed. -/
theorem armed_ticks {s : Session} (ticks : List Tick)
    (h : s.finPending = true → s.ack.ackWaitMode ≠ .none) :
    (ticks.foldl tick s).finPending = true → (ticks.foldl tick s).ack.ackWaitMode ≠ .none := by
  induction ticks generalizing s with
  | nil => exact h
  | cons e es ih =>
    refine ih ?_
    rcases tick_cases s e with ⟨-, a, heq, hmode⟩ | ⟨-, -, m, a, hrounds⟩
    · rw [heq]
      intro hfin
      rcases hmode with hsame | ⟨-, hnofin⟩
      · exact fun hnone => h hfin (hsame.symm.trans hnone)
      · exact absurd (hnofin.symm.trans hfin) Bool.false_ne_true
    · rcases hrounds with ⟨-, harmed, heq⟩ | ⟨-, heq⟩ | ⟨-, hnofin, heq⟩
      · rw [heq]
        exact fun _ => harmed
      · rw [heq]
        exact fun hfin => absurd hfin Bool.false_ne_true
      · rw [heq]
        exact fun hfin => absurd (hnofin.symm.trans hfin) Bool.false_ne_true

/-- A spent timer does nothing. -/
theorem tick_of_spent {s : Session} (h : s.Spent) (e : Tick) : s.tick e = s := by
  obtain ⟨hactive, hstarted⟩ := h
  cases e with
  | expire => simp [tick, Timer.expire, hactive]
  | callback i => simp [tick, runCallback, hstarted]

theorem ticks_of_spent {s : Session} (h : s.Spent) (ticks : List Tick) :
    ticks.foldl tick s = s := by
  induction ticks with
  | nil => rfl
  | cons e es ih => rwa [List.foldl_cons, tick_of_spent h e]

/-- A callback leaves the started ones, and arms the timer only in a round. -/
theorem ackTimer_callback {s : Session} (hactive : s.ack.ackTimer.active = none) (i : ℕ) :
    (s.tick (.callback i)).ack.ackTimer.started = s.ack.ackTimer.started.eraseIdx i ∧
      ((s.tick (.callback i)).ack.ackTimer.active = none ∨ s.round (.callback i) ≠ none) := by
  have htick : s.tick (.callback i) = s.runCallback i := rfl
  rw [runCallback_eq] at htick
  by_cases hresponds : s.Responds i
  · rw [if_pos hresponds] at htick
    rw [htick]
    rcases handleAckTimeout_cases (s.called i) with ⟨-, -, heq⟩ | ⟨hwaits, m, -, hrounds⟩
    · rw [heq]
      exact ⟨rfl, Or.inl rfl⟩
    · have hround : s.round (.callback i) ≠ none := by
        rw [round, if_pos ⟨hresponds, hwaits⟩]
        simp
      rcases hrounds with ⟨-, heq⟩ | ⟨-, -, heq⟩ | ⟨-, -, heq⟩
      · rw [heq]
        refine ⟨?_, Or.inr hround⟩
        simp only [armAckTimer, AckTimer.arm]
        split_ifs <;> rfl
      · rw [heq]
        exact ⟨rfl, Or.inl rfl⟩
      · rw [heq]
        exact ⟨rfl, Or.inl rfl⟩
  · rw [if_neg hresponds] at htick
    rw [htick]
    exact ⟨rfl, Or.inl hactive⟩

/-- What the timer has still to do. -/
def load (s : Session) : ℕ :=
  3 * s.budget + (if s.ack.ackTimer.active = none then 0 else 2) + s.ack.ackTimer.started.length

/-- The timer of a silent session has something to do less after each tick that is due. -/
theorem exists_tick_less {s : Session} (h : s.retransmitAttempts < maxRetransmits)
    (hspent : ¬ s.Spent) : ∃ e, (s.tick e).load < s.load := by
  by_cases hactive : s.ack.ackTimer.active = none
  · refine ⟨.callback 0, ?_⟩
    have hstarted : s.ack.ackTimer.started ≠ [] := fun hnil => hspent ⟨hactive, hnil⟩
    have hlength := List.length_pos_iff.mpr hstarted
    obtain ⟨hbudget, -⟩ := budget_tick h (.callback 0)
    obtain ⟨herase, harmed⟩ := ackTimer_callback hactive 0
    have herased :
        (s.ack.ackTimer.started.eraseIdx 0).length + 1 = s.ack.ackTimer.started.length := by
      rw [List.length_eraseIdx_of_lt hlength]
      omega
    unfold load
    rw [herase, if_pos hactive]
    rcases harmed with hnone | hround
    · rw [if_pos hnone]
      omega
    · have hone : (s.round (.callback 0)).toList.length = 1 := by
        obtain ⟨batch, hbatch⟩ := Option.ne_none_iff_exists'.mp hround
        simp [hbatch]
      split_ifs <;> omega
  · refine ⟨.expire, ?_⟩
    obtain ⟨d, hd⟩ := Option.ne_none_iff_exists'.mp hactive
    have hbudget : (s.tick .expire).budget = s.budget := rfl
    unfold load
    rw [hbudget]
    simp only [tick, Timer.expire, hd, List.length_append, List.length_singleton, if_true,
      reduceCtorEq, if_false]
    omega

/-- A silent period comes to an end. -/
theorem exists_spent {s : Session} (h : s.retransmitAttempts < maxRetransmits) :
    ∃ ticks : List Tick, (ticks.foldl tick s).Spent := by
  induction hn : s.load using Nat.strong_induction_on generalizing s with
  | _ n ih =>
    by_cases hspent : s.Spent
    · exact ⟨[], hspent⟩
    · obtain ⟨e, hless⟩ := exists_tick_less h hspent
      obtain ⟨ticks, hticks⟩ := ih _ (hn ▸ hless) (budget_tick h e).2 rfl
      exact ⟨e :: ticks, hticks⟩

theorem maxRetransmits_pos : 0 < maxRetransmits := by decide

theorem fewAttempts_handleTransfer {s t : Session} (h : s.retransmitAttempts < maxRetransmits)
    (ht : s.handleTransfer = .ok t) : t.retransmitAttempts < maxRetransmits := by
  obtain ⟨u, batch, hu, -, rfl⟩ := handleTransfer_invariant
    (P := fun u _ => u.retransmitAttempts < maxRetransmits)
    (fun u _ _ c _ _ hu => by
      rw [sent_eq]
      by_cases hfin : c.fin = true
      · simp [hfin, maxRetransmits]
      · simpa [hfin] using hu)
    (fun u _ _ _ _ _ hu => hu) ht h
  rw [updateAckTimer_eq]
  exact hu

/-- The attempts never reach their limit between two events. -/
theorem fewAttempts_invariant : Invariant (fun s => s.retransmitAttempts < maxRetransmits) where
  start := maxRetransmits_pos
  counters := fun s m _ h => h
  received := fun s n h => h
  sendACK := fun s ack h => h
  onPeerAck := fun s t q _ h ht => by
    have hack : (s.onAck q).retransmitAttempts < maxRetransmits := by
      rcases onAck_cases s q with heq | ⟨-, -, a, -, heq⟩
      · rwa [heq]
      · rw [heq]
        exact maxRetransmits_pos
    rcases onPeerAck_cases ht with ⟨-, ht⟩ | ⟨-, rfl⟩
    · exact fewAttempts_handleTransfer hack ht
    · exact hack
  onPeerNack := fun s q h => by
    obtain ⟨m, -, heq⟩ := onPeerNack_eq s q
    rw [heq, updateAckTimer_eq]
    exact maxRetransmits_pos
  expire := fun s h => h
  callback := fun s i h => (budget_tick h (.callback i)).2
  resetSession := fun s h => by
    obtain ⟨ws, -, heq⟩ := resetSession_eq s
    rw [heq]
    exact maxRetransmits_pos
  sendData := fun s t payload _ ht => fewAttempts_handleTransfer maxRetransmits_pos ht
  sendRawDataWithHeader := fun s t header data _ ht =>
    fewAttempts_handleTransfer maxRetransmits_pos ht
  setResetCallback := fun s h => h
  close := fun s h => by
    unfold Session.close
    split_ifs <;> exact h

/-- A silent period keeps every invariant. -/
theorem Invariant.ticks {P : Session → Prop} (hP : Invariant P) {s : Session} (hs : P s)
    (ticks : List Tick) : P (ticks.foldl tick s) := by
  induction ticks generalizing s with
  | nil => exact hs
  | cons e es ih => exact ih (hP.step hs (step_tick s e))

/-- From every reachable state, as long as nothing but the timer acts: there are at most
`MaxRetransmits` rounds of retransmissions, each of which writes packets of the ring in order
and each at most once, and nothing else is written. The period can always be brought to its
end, and from there nothing is written any more. At its end an open session has no transfer
pending and the timer is disarmed, and if it was armed at the beginning no FIN is pending. In
every reachable state there have been fewer than `MaxRetransmits` attempts. -/
theorem silent_peer_is_given_up {s : Session} (hs : s.Reachable) (ticks : List Tick) :
    s.retransmitAttempts < maxRetransmits ∧
    (s.rounds ticks).length ≤ maxRetransmits ∧
    (∀ batch ∈ s.rounds ticks, batch.Sublist (s.ring.map TxPacket.bytes)) ∧
    datagrams (ticks.foldl tick s).trace = datagrams s.trace ++ (s.rounds ticks).flatten ∧
    (∃ more : List Tick, ((ticks ++ more).foldl tick s).Spent) ∧
    ((ticks.foldl tick s).Spent →
      ∀ more : List Tick, datagrams ((ticks ++ more).foldl tick s).trace =
        datagrams (ticks.foldl tick s).trace) ∧
    (s.closed = false → (ticks.foldl tick s).Spent →
      (ticks.foldl tick s).transfer.data = none ∧
      (ticks.foldl tick s).ack.ackWaitMode = .none ∧
      (s.ack.ackWaitMode ≠ .none → (ticks.foldl tick s).finPending = false)) := by
  have hfew := fewAttempts_invariant.reachable hs
  have hrest := resting_invariant.ticks (resting_invariant.reachable hs) ticks
  refine ⟨hfew, ?_, fun batch => sublist_of_mem_rounds, datagrams_ticks s ticks, ?_, ?_, ?_⟩
  · refine (length_rounds_le hfew ticks).trans ?_
    unfold budget
    split_ifs <;> omega
  · obtain ⟨more, hmore⟩ := exists_spent (fewAttempts_invariant.ticks hfew ticks)
    exact ⟨more, by rwa [List.foldl_append]⟩
  · intro hspent more
    rw [List.foldl_append, ticks_of_spent hspent]
  · intro hopen hspent
    have hopen' : (ticks.foldl tick s).closed = false := (closed_ticks s ticks).trans hopen
    have hmode : (ticks.foldl tick s).ack.ackWaitMode = .none := by
      by_contra hmode
      rcases (hrest.timer hopen' hmode).2 with hactive | hstarted
      · simp [hspent.1] at hactive
      · exact hstarted hspent.2
    refine ⟨?_, hmode, ?_⟩
    · by_contra hdata
      have hwindow := hrest.waiting hopen' (Option.isSome_iff_ne_none.mpr hdata)
      rw [hmode] at hwindow
      cases hwindow
    · intro harmed
      by_contra hfin
      exact armed_ticks ticks (fun _ => harmed) (by simpa using hfin) hmode

/-- A FIN is repeated four times and then given up. -/
theorem silent_peer_is_given_up_after_sendData :
    ∃ s : Session, newSession.step (.sendData (some [1])) = .ok s ∧ s.ack.ackWaitMode = .fin ∧
      ∃ ticks : List Tick, (s.rounds ticks).length = maxRetransmits ∧
        (ticks.foldl tick s).finPending = false ∧
        ∀ more : List Tick, datagrams ((ticks ++ more).foldl tick s).trace =
          datagrams (ticks.foldl tick s).trace := by
  have hrun : ∃ s : Session, newSession.step (.sendData (some [1])) = .ok s ∧
      s.ack.ackWaitMode = .fin ∧ s.closed = false ∧
      (s.rounds (List.flatten (List.replicate 4 [.expire, .callback 0]))).length = 4 ∧
      ((List.flatten (List.replicate 4 [.expire, .callback 0])).foldl tick s).Spent :=
    ⟨_, rfl, rfl, rfl, rfl, rfl, rfl⟩
  obtain ⟨s, hstep, hmode, hopen, hrounds, hspent⟩ := hrun
  obtain ⟨-, -, -, -, -, hquiet, hend⟩ := silent_peer_is_given_up
    (.next (.start rfl) ⟨_, hstep⟩) (List.flatten (List.replicate 4 [.expire, .callback 0]))
  obtain ⟨-, -, hfin⟩ := hend hopen hspent
  exact ⟨s, hstep, hmode, _, hrounds, hfin (by simp [hmode]), hquiet hspent⟩

set_option maxRecDepth 10000 in
/-- A session that is closed keeps a pending transfer, and its timer has nothing left to do. -/
theorem closed_session_keeps_transfer :
    ∃ s : Session, s.Reachable ∧ s.Spent ∧ s.transfer.data.isSome ∧
      ∀ ticks : List Tick, (ticks.foldl tick s).transfer.data.isSome := by
  have hrun : ∃ s : Session, (List.replicate 7 (Event.sendData (some [1])) ++
      [Event.sendRawDataWithHeader [0, 0, 0, 0] (some (List.replicate 1405 0)), .close]).foldlM step
        newSession = .ok s ∧ s.Spent ∧ s.transfer.data.isSome :=
    ⟨_, rfl, ⟨rfl, rfl⟩, rfl⟩
  obtain ⟨s, hs, hspent, hdata⟩ := hrun
  refine ⟨s, .foldlM (.start rfl) _ hs, hspent, hdata, ?_⟩
  intro ticks
  rwa [ticks_of_spent hspent]

end Session

end Udpfsd.Udprdma
