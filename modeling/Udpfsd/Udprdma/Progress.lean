import Udpfsd.Udprdma.Runs

/-!
# A pending transfer is never left behind

Between two events a transfer is pending only because the window is full, and then the
acknowledgement timer is running. Without any sign of life of the peer the timer ends the
transfer after the allowed number of retransmissions.
-/

namespace Udpfsd.Udprdma

/-- The search for a better chunk size never finds one. -/
theorem optimalChunkSize_eq (totalBytes : ℕ) : optimalChunkSize totalBytes = 1408 := by
  have h₁ : ¬ (totalBytes + 1024 - 1) / 1024 < (totalBytes + 1408 - 1) / 1408 := by omega
  have h₂ : ¬ (totalBytes + 1280 - 1) / 1280 < (totalBytes + 1408 - 1) / 1408 := by omega
  simp only [optimalChunkSize, List.foldl_cons, List.foldl_nil, if_neg h₁, if_neg h₂]
  split_ifs <;> rfl

variable {t : Transfer}

/-- A chunk that does not end the transfer leaves the offset inside the data. -/
theorem Transfer.nextChunk_offset {data : List Byte} {c : Chunk} (h : t.nextChunk data = some c)
    (hoffset : 0 ≤ t.offset) (hmax : data = [] ∨ 0 < t.maxChunk) (hfin : c.fin = false) :
    0 < c.offset ∧ c.offset < data.length := by
  have hpos : 0 < data.length → 0 < t.maxChunk ∧ 0 < t.firstDataMax := by
    intro hlen
    rcases hmax with rfl | hmax
    · simp at hlen
    · refine ⟨hmax, ?_⟩
      unfold Transfer.firstDataMax
      split_ifs <;> omega
  unfold Transfer.nextChunk at h
  split_ifs at h <;> cases h <;> simp only [decide_eq_false_iff_not] at hfin ⊢ <;> omega

/-- A chunk behind the first one carries no header and at most `maxChunk` bytes. -/
theorem Transfer.nextChunk_later {data : List Byte} {c : Chunk} (h : t.nextChunk data = some c)
    (hoffset : 0 < t.offset) :
    c.header = [] ∧ c.body.length ≤ t.maxChunk := by
  unfold Transfer.nextChunk at h
  rw [if_neg (by omega)] at h
  split_ifs at h <;> cases h <;> refine ⟨rfl, ?_⟩ <;>
    simp only [List.length_take, List.length_drop] <;> omega

/-- A transfer without header that fits into one chunk is sent as one packet. -/
theorem Transfer.nextChunk_single {data : List Byte} {c : Chunk} (h : t.nextChunk data = some c)
    (hoffset : t.offset = 0) (hheader : t.header = [])
    (hlen : data.length ≤ t.maxChunk) : c.fin = true := by
  unfold Transfer.nextChunk at h
  rw [if_neg (by simp [hheader])] at h
  split_ifs at h <;> cases h <;> simp only [decide_eq_true_eq] <;> omega

/-- The timer is either idle or going to call back for its last arming. -/
def AckTimer.Ok (a : AckTimer) : Prop :=
  a.ackWaitMode ≠ .none →
    a.ackTimerExpectSeq = a.ackTimerSeq ∧ (a.ackTimer.active.isSome ∨ a.ackTimer.started ≠ [])

namespace AckTimer

theorem Ok.stop (a : AckTimer) : a.stop.Ok := fun h => absurd rfl h

variable {a : AckTimer}

theorem Ok.arm (h : a.Ok) (finPending : Bool) : (a.arm finPending).Ok := by
  unfold AckTimer.arm
  by_cases hmode : a.ackWaitMode = if finPending then .fin else .window
  · simpa only [if_pos hmode] using h
  · simp only [if_neg hmode]
    exact fun _ => ⟨rfl, Or.inl rfl⟩

theorem ackWaitMode_arm (a : AckTimer) (finPending : Bool) :
    (a.arm finPending).ackWaitMode = if finPending then .fin else .window := by
  unfold AckTimer.arm
  simp only
  split_ifs with hmode <;> simp_all

theorem Ok.expire (h : a.Ok) : { a with ackTimer := a.ackTimer.expire }.Ok := by
  intro hmode
  obtain ⟨hseq, htimer⟩ := h hmode
  refine ⟨hseq, ?_⟩
  unfold Timer.expire
  cases hactive : a.ackTimer.active with
  | none => simpa [hactive] using htimer
  | some d => simp

end AckTimer

namespace Session

/-- The state inside `handleTransfer`: a pending transfer is at its first packet with an
empty ring, or inside its data, and in the latter case its chunks fit into a slot. -/
def Cutting (s : Session) : Prop :=
  ∀ data, s.transfer.data = some data →
    s.finPending = false ∧ (data = [] ∨ 0 < s.transfer.maxChunk) ∧
    ((s.transfer.offset = 0 ∧ s.ring = [] ∧
        (s.transfer.maxChunk ≤ maxDataPayload ∨
          (s.transfer.header = [] ∧ data.length ≤ s.transfer.maxChunk))) ∨
      (0 < s.transfer.offset ∧ s.transfer.offset < data.length ∧
        s.transfer.maxChunk ≤ maxDataPayload))

theorem Cutting.sent {s : Session} {data : List Byte} {c : Chunk} {slot : TxPacket}
    (h : s.Cutting) (hpack : Packs s data c slot) : (s.sent slot c).Cutting := by
  intro data' hdata'
  obtain ⟨hfin, htransfer⟩ := transfer_sent hdata'
  rw [htransfer] at hdata' ⊢
  have hsame : data = data' := Option.some.inj (hpack.pending.symm.trans hdata')
  subst hsame
  obtain ⟨hnofin, hmax, hwhere⟩ := h data hpack.pending
  have hoffset : 0 ≤ s.transfer.offset := by
    rcases hwhere with ⟨h0, -⟩ | ⟨hpos, -⟩ <;> omega
  obtain ⟨hpos, hlt⟩ := Transfer.nextChunk_offset hpack.next hoffset hmax hfin
  refine ⟨?_, hmax, Or.inr ⟨hpos, hlt, ?_⟩⟩
  · rw [sent_eq]
    simp [hfin, hnofin]
  · rcases hwhere with ⟨h0, -, hsmall | ⟨hheader, hone⟩⟩ | ⟨-, -, hsmall⟩
    · exact hsmall
    · rw [Transfer.nextChunk_single hpack.next h0 hheader hone] at hfin
      cases hfin
    · exact hsmall

/-- A pending transfer is inside its data and waits for the window to open. -/
def Waiting (s : Session) : Prop :=
  ∀ data, s.transfer.data = some data →
    s.finPending = false ∧ 0 < s.transfer.offset ∧ s.transfer.offset < data.length ∧
    0 < s.transfer.maxChunk ∧ s.transfer.maxChunk ≤ maxDataPayload ∧ sendWindow ≤ s.inFlight

/-- The state between two events. -/
structure Resting (s : Session) : Prop where
  /-- A pending transfer waits for the window to open. -/
  pending : s.Waiting
  /-- While the session is open, the timer runs for a pending transfer. -/
  waiting : s.closed = false → s.transfer.data.isSome → s.ack.ackWaitMode = .window
  /-- While the session is open, a timer that is waited for calls back. -/
  timer : s.closed = false → s.ack.Ok

/-- Nothing is pending, and the timer is in order. -/
theorem Resting.idle {s : Session} (hdata : s.transfer.data = none)
    (htimer : s.closed = false → s.ack.Ok) : s.Resting where
  pending := by simp [Waiting, hdata]
  waiting := by simp [hdata]
  timer := htimer

theorem ok_updateAckTimer {s : Session} (h : s.ack.Ok) : s.updateAckTimer.ack.Ok := by
  rcases ack_updateAckTimer s with heq | heq
  · rw [heq]
    exact AckTimer.Ok.stop _
  · rw [heq]
    exact h.arm _

theorem ackWaitMode_updateAckTimer {s : Session} (hdata : s.transfer.data.isSome)
    (hfin : s.finPending = false) (hwindow : sendWindow ≤ s.inFlight) :
    s.updateAckTimer.ack.ackWaitMode = .window := by
  have hsome : ¬ s.inFlight = 0 := by
    simp only [sendWindow] at hwindow
    omega
  unfold updateAckTimer
  rw [if_neg hsome, if_pos (Or.inr ⟨hdata, hwindow⟩)]
  simp [armAckTimer, AckTimer.ackWaitMode_arm, hfin]

/-- Updating the timer completes the state between two events. -/
theorem Resting.updateAckTimer {s : Session} (hpending : s.Waiting)
    (htimer : s.closed = false → s.ack.Ok) : s.updateAckTimer.Resting := by
  have hack := fun hclosed => ok_updateAckTimer (htimer hclosed)
  have hmode := @ackWaitMode_updateAckTimer s
  rw [updateAckTimer_eq]
  refine ⟨hpending, ?_, hack⟩
  intro _ hdata
  obtain ⟨data, hdata'⟩ := Option.isSome_iff_exists.mp hdata
  obtain ⟨hfin, -, -, -, -, hwindow⟩ := hpending data hdata'
  exact hmode hdata hfin hwindow

theorem Resting.handleTransfer {s t : Session} (hcut : s.Cutting)
    (htimer : s.closed = false → s.ack.Ok) (h : s.handleTransfer = .ok t) : t.Resting := by
  obtain ⟨u, batch, ⟨hcut, htimer⟩, hexit, rfl⟩ := handleTransfer_invariant
    (P := fun s _ => s.Cutting ∧ (s.closed = false → s.ack.Ok))
    (fun s batch data c slot hpack hs => ⟨hs.1.sent hpack, by rw [sent_eq]; exact hs.2⟩)
    (fun s batch data _ _ _ hs => ⟨by simp [Cutting, clearTransfer], hs.2⟩) h ⟨hcut, htimer⟩
  refine Resting.updateAckTimer ?_ htimer
  intro data hdata
  obtain ⟨hfin, hmax, hwhere⟩ := hcut data hdata
  have hwindow : sendWindow ≤ u.inFlight := by
    rcases hexit with hnone | hwindow
    · rw [hnone] at hdata
      cases hdata
    · exact hwindow
  rcases hwhere with ⟨-, hempty, -⟩ | ⟨hpos, hlt, hsmall⟩
  · rw [inFlight_eq, if_pos hempty] at hwindow
    simp [sendWindow] at hwindow
  · refine ⟨hfin, hpos, hlt, ?_, hsmall, hwindow⟩
    rcases hmax with rfl | hmax
    · simp only [List.length_nil] at hlt
      omega
    · exact hmax

theorem Resting.cutting {s : Session} (h : s.Resting) : s.Cutting := by
  intro data hdata
  obtain ⟨hfin, hpos, hlt, hmax, hsmall, -⟩ := h.pending data hdata
  exact ⟨hfin, Or.inr hmax, Or.inr ⟨hpos, hlt, hsmall⟩⟩

/-- An acknowledgement may open the window, but leaves the transfer where it is. -/
theorem Resting.onAck {s : Session} (h : s.Resting) (q : SeqNr) :
    (s.onAck q).Cutting ∧ ((s.onAck q).closed = false → (s.onAck q).ack.Ok) := by
  rcases onAck_cases s q with heq | ⟨-, -, a, ha, heq⟩
  · rw [heq]
    exact ⟨h.cutting, h.timer⟩
  · rw [heq]
    constructor
    · intro data hdata
      obtain ⟨hfin, hpos, hlt, hmax, hsmall, -⟩ := h.pending data hdata
      exact ⟨by simp [hfin], Or.inr hmax, Or.inr ⟨hpos, hlt, hsmall⟩⟩
    · intro hclosed
      rcases ha with rfl | rfl
      · exact AckTimer.Ok.stop _
      · exact (h.timer hclosed).arm _

theorem Resting.onPeerAck {s t : Session} (h : s.Resting) {q : SeqNr}
    (ht : s.onPeerAck q = .ok t) : t.Resting := by
  obtain ⟨hcut, htimer⟩ := h.onAck q
  rcases onPeerAck_cases ht with ⟨-, ht⟩ | ⟨hnone, rfl⟩
  · exact Resting.handleTransfer hcut htimer ht
  · exact Resting.idle hnone htimer

theorem Resting.onPeerNack {s : Session} (h : s.Resting) (q : SeqNr) :
    (s.onPeerNack q).Resting := by
  obtain ⟨m, -, heq⟩ := onPeerNack_eq s q
  rw [heq]
  exact Resting.updateAckTimer h.pending h.timer

/-- A timeout ends the transfer or arms the timer again. -/
theorem Resting.handleAckTimeout {s : Session} (hpending : s.Waiting)
    (hmode : s.ack.ackWaitMode = .none) : s.handleAckTimeout.Resting := by
  rcases handleAckTimeout_cases s with ⟨-, hidle, heq⟩ | ⟨-, m, -, hrounds⟩
  · rw [heq]
    refine Resting.idle ?_ (fun _ => AckTimer.Ok.stop _)
    rcases hidle with hnone | hopen
    · exact hnone
    · by_contra hdata
      obtain ⟨data, hdata⟩ := Option.ne_none_iff_exists'.mp hdata
      obtain ⟨-, -, -, -, -, hwindow⟩ := hpending data hdata
      omega
  · rcases hrounds with ⟨-, heq⟩ | ⟨-, hfin, heq⟩ | ⟨-, -, heq⟩
    · rw [heq]
      refine ⟨hpending, ?_, fun _ => AckTimer.Ok.arm (fun h => absurd hmode h) _⟩
      intro _ hdata
      obtain ⟨data, hdata⟩ := Option.isSome_iff_exists.mp hdata
      obtain ⟨hfin, -⟩ := hpending data hdata
      simp [armAckTimer, AckTimer.ackWaitMode_arm, hfin]
    · rw [heq]
      refine Resting.idle ?_ (fun _ => AckTimer.Ok.stop _)
      by_contra hdata
      obtain ⟨data, hdata⟩ := Option.ne_none_iff_exists'.mp hdata
      obtain ⟨hnofin, -⟩ := hpending data hdata
      simp [hnofin] at hfin
    · rw [heq]
      exact Resting.idle rfl (fun _ => AckTimer.Ok.stop _)

theorem Resting.runCallback {s : Session} (h : s.Resting) (i : ℕ) : (s.runCallback i).Resting := by
  rw [runCallback_eq]
  split_ifs with hresponds
  · exact Resting.handleAckTimeout h.pending rfl
  · refine ⟨h.pending, h.waiting, ?_⟩
    intro hclosed hmode
    -- a callback that is there and does not respond has no timer to wait for
    have hnone : s.ack.ackTimer.started.length ≤ i := by
      by_contra hstarted
      exact hresponds ⟨Nat.lt_of_not_le hstarted, hclosed, hmode, (h.timer hclosed hmode).1⟩
    simp only [List.eraseIdx_of_length_le hnone]
    exact h.timer hclosed hmode

/-- A transfer starts at its first packet with an empty ring. -/
theorem Cutting.start_transfer {s : Session} {transfer : Transfer}
    (hoffset : transfer.offset = 0)
    (hmax : transfer.maxChunk = maxDataPayload ∨
      (transfer.header = [] ∧ transfer.maxChunk = (transfer.data.getD []).length)) :
    { s.resetSendState with transfer := transfer }.Cutting := by
  intro data hdata
  have hempty : { s.resetSendState with transfer := transfer }.ring = [] :=
    ring_eq_nil_iff.mpr rfl
  have hdata : transfer.data = some data := hdata
  refine ⟨rfl, ?_, Or.inl ⟨hoffset, hempty, ?_⟩⟩
  · rcases hmax with hmax | ⟨-, hmax⟩
    · exact Or.inr (by simp [hmax, maxDataPayload])
    · cases data with
      | nil => exact Or.inl rfl
      | cons b bs => exact Or.inr (by simp [hmax, hdata])
  · rcases hmax with hmax | ⟨hheader, hmax⟩
    · exact Or.inl (Nat.le_of_eq hmax)
    · exact Or.inr ⟨hheader, by simp [hmax, hdata]⟩

/-- Between two events every session is at rest. -/
theorem resting_invariant : Invariant Resting where
  start := Resting.idle rfl (fun _ h => absurd rfl h)
  counters := fun s m _ h => ⟨h.pending, h.waiting, h.timer⟩
  received := fun s n h => ⟨h.pending, h.waiting, h.timer⟩
  sendACK := fun s ack h => ⟨h.pending, h.waiting, h.timer⟩
  onPeerAck := fun s t q _ h ht => h.onPeerAck ht
  onPeerNack := fun s q h => h.onPeerNack q
  expire := fun s h => ⟨h.pending, h.waiting, fun hclosed => (h.timer hclosed).expire⟩
  callback := fun s i h => h.runCallback i
  resetSession := fun s h => by
    obtain ⟨ws, -, heq⟩ := resetSession_eq s
    rw [heq]
    exact Resting.idle rfl (fun _ => AckTimer.Ok.stop _)
  sendData := fun s t payload _ ht => Resting.handleTransfer
    (Cutting.start_transfer rfl (Or.inr ⟨rfl, rfl⟩)) (fun _ => AckTimer.Ok.stop _) ht
  sendRawDataWithHeader := fun s t header data _ ht => Resting.handleTransfer
    (Cutting.start_transfer rfl (Or.inl (optimalChunkSize_eq _))) (fun _ => AckTimer.Ok.stop _) ht
  setResetCallback := fun s h => ⟨h.pending, h.waiting, h.timer⟩
  close := fun s h => by
    unfold Session.close
    split_ifs with hclosed
    · exact h
    · exact ⟨h.pending, fun hopen => absurd hopen (by simp [stopAckTimer]),
        fun hopen => absurd hopen (by simp [stopAckTimer])⟩

/-- The acknowledgement timer expires and the first of the started callbacks runs. -/
def timerRound (s : Session) : Session :=
  { s with ack.ackTimer := s.ack.ackTimer.expire }.runCallback 0

/-- One round of the timer ends a pending transfer or counts one more attempt. -/
theorem timerRound_cases {s : Session} (h : s.Resting) (hopen : s.closed = false)
    (hdata : s.transfer.data.isSome) :
    s.timerRound.transfer.data = none ∨
      (s.timerRound.closed = false ∧ s.timerRound.transfer.data.isSome ∧
        s.timerRound.retransmitAttempts = s.retransmitAttempts + 1 ∧
        s.retransmitAttempts + 1 < maxRetransmits) := by
  have hmode := h.waiting hopen hdata
  obtain ⟨hseq, -⟩ := h.timer hopen (by simp [hmode])
  have hstarted : 0 < s.ack.ackTimer.expire.started.length := by
    have hexpired := (h.timer hopen).expire (by simp [hmode])
    have hnone : s.ack.ackTimer.expire.active = none := by
      unfold Timer.expire
      split <;> simp_all
    rcases hexpired.2 with hactive | hstarted
    · simp [hnone] at hactive
    · exact List.length_pos_iff.mpr hstarted
  obtain ⟨data, hdata'⟩ := Option.isSome_iff_exists.mp hdata
  obtain ⟨hfin, -, -, -, -, hwindow⟩ := h.pending data hdata'
  unfold timerRound Session.runCallback ackTimerFunc
  rw [if_pos hstarted, if_neg (by simp [hopen, hmode, hseq])]
  rcases handleAckTimeout_cases { s with
      ack.ackTimer := { s.ack.ackTimer.expire with
        started := s.ack.ackTimer.expire.started.eraseIdx 0 }
      ack.ackWaitMode := .none } with ⟨-, hidle, -⟩ | ⟨-, m, -, hrounds⟩
  · rcases hidle with hnone | hless
    · exact absurd hnone (by simp [hdata'])
    · exact absurd hless (Nat.not_lt.mpr hwindow)
  · rcases hrounds with ⟨hmore, heq⟩ | ⟨-, hfin', -⟩ | ⟨-, -, heq⟩
    · right
      rw [heq]
      exact ⟨hopen, hdata, rfl, hmore⟩
    · simp [hfin] at hfin'
    · left
      rw [heq]
      rfl

/-- Left to the timer alone, a pending transfer ends. -/
theorem timerRound_ends {s : Session} (h : s.Resting) (hopen : s.closed = false) (k : ℕ)
    (hattempts : maxRetransmits ≤ s.retransmitAttempts + (k + 1)) :
    ∃ n ≤ k + 1, (timerRound^[n] s).transfer.data = none := by
  induction k generalizing s with
  | zero =>
    by_cases hdata : s.transfer.data.isSome
    · refine ⟨1, Nat.le_refl 1, ?_⟩
      rcases timerRound_cases h hopen hdata with hend | ⟨-, -, -, hless⟩
      · exact hend
      · omega
    · exact ⟨0, by omega, Option.not_isSome_iff_eq_none.mp hdata⟩
  | succ k ih =>
    by_cases hdata : s.transfer.data.isSome
    · rcases timerRound_cases h hopen hdata with hend | ⟨hopen', -, hcount, -⟩
      · exact ⟨1, by omega, hend⟩
      · obtain ⟨n, hn, hend⟩ := ih (resting_invariant.callback _ 0 (resting_invariant.expire s h))
          hopen' (by unfold timerRound at hcount; omega)
        exact ⟨n + 1, by omega, hend⟩
    · exact ⟨0, by omega, Option.not_isSome_iff_eq_none.mp hdata⟩

/-- In every reachable state of an open session a pending transfer is inside its data, the
window is full, no FIN is pending and the timer is running in window mode for it; the
timer alone ends the transfer after at most `MaxRetransmits` rounds. -/
theorem pending_transfer_waits {s : Session} (hs : s.Reachable) (hopen : s.closed = false)
    {data : List Byte} (hdata : s.transfer.data = some data) :
    s.finPending = false ∧ 0 < s.transfer.offset ∧ s.transfer.offset < data.length ∧
      sendWindow ≤ s.inFlight ∧ s.ring ≠ [] ∧
      s.ack.ackWaitMode = .window ∧ s.ack.ackTimerExpectSeq = s.ack.ackTimerSeq ∧
      (s.ack.ackTimer.active.isSome ∨ s.ack.ackTimer.started ≠ []) ∧
      ∃ n ≤ maxRetransmits, (timerRound^[n] s).transfer.data = none := by
  have hrest := resting_invariant.reachable hs
  obtain ⟨hfin, hpos, hlt, -, -, hwindow⟩ := hrest.pending data hdata
  have hmode := hrest.waiting hopen (by simp [hdata])
  obtain ⟨hseq, htimer⟩ := hrest.timer hopen (by simp [hmode])
  have hring : s.ring ≠ [] := by
    intro hempty
    rw [inFlight_eq, if_pos hempty] at hwindow
    simp [sendWindow] at hwindow
  exact ⟨hfin, hpos, hlt, hwindow, hring, hmode, hseq, htimer,
    timerRound_ends hrest hopen 3 (by simp only [maxRetransmits]; omega)⟩

set_option maxRecDepth 10000 in
theorem pending_transfer_waits_after_unacked_sends :
    ∃ s, (List.replicate 7 (Event.sendData (some [1])) ++ [Event.sendRawDataWithHeader [0, 0, 0, 0]
        (some (List.replicate 1405 0))]).foldlM step newSession = .ok s ∧
      s.transfer.data.isSome ∧ s.ack.ackWaitMode = .window := by
  have hrun : ∃ s, (List.replicate 7 (Event.sendData (some [1])) ++
      [Event.sendRawDataWithHeader [0, 0, 0, 0] (some (List.replicate 1405 0))]).foldlM step
        newSession = .ok s ∧ s.closed = false ∧ s.transfer.data = some (List.replicate 1405 0) :=
    ⟨_, rfl, rfl, rfl⟩
  obtain ⟨s, hs, hopen, hdata⟩ := hrun
  obtain ⟨-, -, -, -, -, hmode, -⟩ :=
    pending_transfer_waits (.foldlM (.start rfl) _ hs) hopen hdata
  exact ⟨s, hs, by simp [hdata], hmode⟩

end Session

end Udpfsd.Udprdma
