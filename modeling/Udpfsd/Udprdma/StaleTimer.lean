import Udpfsd.Udprdma.GiveUp

/-!
# Callbacks of the timer that come too late

A callback that has been started is not cancelled by stopping or resetting the timer. When
it gets the lock it looks whether the session is waiting at all and whether the timer was
stopped since the last arming, but not whether that arming is its own. So a callback of an
earlier arming does nothing while no arming is in force, and acts for the arming in force
otherwise.
-/

namespace Udpfsd.Udprdma.Session

/-- The callback at this position was started by an arming that is not in force any more: the
timer was stopped, or armed again. -/
def Stale (s : Session) (i : ℕ) : Prop :=
  ∃ k, s.ack.ackTimer.started[i]? = some k ∧
    (s.ack.ackWaitMode = .none ∨ k ≠ s.ack.ackTimer.resets)

/-- The callback retransmits nothing, neither counts an attempt nor touches the timer's mode,
and aborts no transfer. -/
structure Void (s : Session) (i : ℕ) : Prop where
  /-- Nothing is written. -/
  trace : datagrams (s.runCallback i).trace = datagrams s.trace
  /-- The attempts. -/
  attempts : (s.runCallback i).retransmitAttempts = s.retransmitAttempts
  /-- The mode. -/
  mode : (s.runCallback i).ack.ackWaitMode = s.ack.ackWaitMode
  /-- The transfer. -/
  transfer : (s.runCallback i).transfer = s.transfer

/-- A callback that is let through counts an attempt or disarms the timer. -/
theorem Responds.not_void {s : Session} {i : ℕ} (h : s.Responds i) : ¬ s.Void i := by
  intro hvoid
  have hattempts := hvoid.attempts
  have hmode := hvoid.mode
  rw [runCallback_eq, if_pos h] at hattempts hmode
  have harmed := h.2.2.1
  rcases handleAckTimeout_cases (s.called i) with ⟨-, -, heq⟩ | ⟨-, m, -, hrounds⟩
  · rw [heq] at hmode
    exact harmed hmode.symm
  · rcases hrounds with ⟨-, heq⟩ | ⟨-, -, heq⟩ | ⟨-, -, heq⟩
    · rw [heq] at hattempts
      exact Nat.succ_ne_self _ hattempts
    · rw [heq] at hmode
      exact harmed hmode.symm
    · rw [heq] at hmode
      exact harmed hmode.symm

/-- In every reachable state a stale callback is void if and only if the session is closed or
no arming is in force; and then it does nothing but end. -/
theorem stale_callback_void_iff {s : Session} (hs : s.Reachable) {i : ℕ} (hstale : s.Stale i) :
    (s.Void i ↔ s.closed = true ∨ s.ack.ackWaitMode = .none) ∧
      (s.closed = true ∨ s.ack.ackWaitMode = .none →
        s.runCallback i =
          { s with ack.ackTimer.started := s.ack.ackTimer.started.eraseIdx i }) := by
  have hquiet : s.closed = true ∨ s.ack.ackWaitMode = .none → s.runCallback i =
      { s with ack.ackTimer.started := s.ack.ackTimer.started.eraseIdx i } := by
    intro hidle
    rw [runCallback_eq, if_neg]
    rintro ⟨-, hopen, hmode, -⟩
    rcases hidle with hclosed | hnone
    · exact absurd (hopen.symm.trans hclosed) Bool.false_ne_true
    · exact hmode hnone
  refine ⟨⟨?_, ?_⟩, hquiet⟩
  · intro hvoid
    by_contra hbusy
    push Not at hbusy
    have hopen : s.closed = false := by simpa using hbusy.1
    obtain ⟨k, hk, -⟩ := hstale
    obtain ⟨hstarted, -⟩ := List.getElem?_eq_some_iff.mp hk
    have hseq := ((resting_invariant.reachable hs).timer hopen hbusy.2).1
    exact Responds.not_void ⟨hstarted, hopen, hbusy.2, hseq⟩ hvoid
  · intro hidle
    have heq := hquiet hidle
    exact ⟨by rw [heq], by rw [heq], by rw [heq], by rw [heq]⟩

/-- The timer expires while a packet is unacknowledged, and the acknowledgement comes before
the callback. -/
def lateCallback : List Event :=
  [.sendData (some [1]), .expire, .packet (controlPacket 0 0 true)]

theorem stale_callback_void_after_ack :
    ∃ s : Session, lateCallback.foldlM step newSession = .ok s ∧ s.Stale 0 ∧ s.Void 0 := by
  have hrun : ∃ s : Session, lateCallback.foldlM step newSession = .ok s ∧
      s.ack.ackTimer.started[0]? = some 1 ∧ s.ack.ackWaitMode = .none := ⟨_, rfl, rfl, rfl⟩
  obtain ⟨s, hs, hstarted, hmode⟩ := hrun
  have hstale : s.Stale 0 := ⟨1, hstarted, Or.inl hmode⟩
  exact ⟨s, hs, hstale, (stale_callback_void_iff (.foldlM (.start rfl) _ hs) hstale).1.mpr
    (Or.inr hmode)⟩

/-- If the next transfer is sent before the callback, the callback repeats its packet at once
and counts an attempt. -/
theorem stale_callback_retransmits :
    ∃ s : Session, (lateCallback ++ [Event.sendData (some [2])]).foldlM step newSession = .ok s ∧
      s.Reachable ∧ s.Stale 0 ∧ s.retransmitAttempts = 0 ∧
      (s.runCallback 0).retransmitAttempts = 1 ∧
      datagrams (s.runCallback 0).trace =
        datagrams s.trace ++ [dataPacket 1 0xFFF true [] [2]] := by
  have hrun : ∃ s : Session,
      (lateCallback ++ [Event.sendData (some [2])]).foldlM step newSession = .ok s ∧
      s.ack.ackTimer.started[0]? = some 1 ∧ s.ack.ackTimer.resets = 2 ∧ s.retransmitAttempts = 0 ∧
      (s.runCallback 0).retransmitAttempts = 1 ∧
      datagrams (s.runCallback 0).trace = datagrams s.trace ++ [dataPacket 1 0xFFF true [] [2]] :=
    ⟨_, rfl, rfl, rfl, rfl, rfl, by rfl⟩
  obtain ⟨s, hs, hstarted, hresets, hrest⟩ := hrun
  exact ⟨s, hs, .foldlM (.start rfl) _ hs, ⟨1, hstarted, Or.inr (by simp [hresets])⟩, hrest⟩

end Udpfsd.Udprdma.Session
