import Udpfsd.Udprdma.Progress
import Udpfsd.Udprdma.Ring

/-!
# The send window and the ring

The window is kept as the distance of two counters, and the packets that fill it are held in
the ring. A transfer that is started while packets of the one before are unacknowledged
empties the ring and leaves the counters, so that the window counts packets that nobody can
ask for any more. As long as every transfer is started with everything acknowledged, the two
agree.
-/

namespace Udpfsd.Udprdma

open SeqSpace

/-- Of consecutive packets up to the last one sent, an acknowledgement in their range leaves
those behind it. -/
theorem length_dropWhile_acked {ring : List TxPacket} {next q : SeqNr}
    (h : Consecutive next (ring.map TxPacket.seq)) (hshort : ring.length ≤ 2048)
    (hrange : (next - q - 1).toNat ≤ ring.length) :
    (ring.dropWhile (fun p => 2048 ≤ (p.seq - q - 1).toNat)).length = (next - q - 1).toNat := by
  induction ring with
  | nil =>
    simp only [List.length_nil] at hrange
    simp only [List.dropWhile_nil, List.length_nil]
    omega
  | cons p ps ih =>
    obtain ⟨hseq, hrest⟩ := h
    simp only [List.length_cons, List.length_map, BitVec.natCast_eq_ofNat] at hshort hrange hseq
    by_cases hkept : (next - q - 1).toNat = ps.length + 1
    · have hfirst : (p.seq - q - 1).toNat = 0 := by
        rw [hseq]
        bv_omega
      rw [List.dropWhile_cons_of_neg (by rw [hfirst]; decide), List.length_cons, hkept]
    · have hfirst : 2048 ≤ (p.seq - q - 1).toNat := by
        rw [hseq]
        bv_omega
      rw [List.dropWhile_cons_of_pos (by simpa using hfirst)]
      exact ih hrest (by omega) (by omega)

namespace Session

/-- A transfer is started only with everything acknowledged. -/
def Settled (s : Session) (e : Event) : Prop := e.isSend = true → s.unacked = 0

/-- The ring holds the packets that are counted, and no more than the window allows. -/
structure Accounted (s : Session) : Prop where
  /-- The packets counted. -/
  length_eq : s.ring.length = s.unacked
  /-- The window. -/
  length_le : s.ring.length ≤ sendWindow

variable {s t : Session}

section Accounted

variable (h : s.Accounted)
include h

theorem Accounted.inFlight_eq : s.inFlight = s.ring.length := by
  rw [Session.inFlight_eq]
  split_ifs with hempty
  · simp [hempty]
  · exact h.length_eq.symm

theorem Accounted.sent {data : List Byte} {c : Chunk} {slot : TxPacket}
    (hpack : Packs s data c slot) : (s.sent slot c).Accounted := by
  have hflight := hpack.window
  rw [h.inFlight_eq] at hflight
  have hcount : (s.sent slot c).unacked = s.unacked + 1 := by
    have hlength := h.length_eq
    rw [sent_eq]
    simp only [unacked, sendWindow] at hflight hlength ⊢
    bv_omega
  refine ⟨?_, ?_⟩
  · rw [ring_sent slot c hpack.room, hcount, ← h.length_eq, List.length_append,
      List.length_singleton]
  · rw [ring_sent slot c hpack.room, List.length_append, List.length_singleton]
    omega

theorem Accounted.handleTransfer (ht : s.handleTransfer = .ok t) : t.Accounted := by
  obtain ⟨u, batch, hu, -, rfl⟩ := handleTransfer_invariant (P := fun u _ => u.Accounted)
    (fun u _ _ _ _ hpack hu => hu.sent hpack) (fun u _ _ _ _ _ hu => ⟨hu.length_eq, hu.length_le⟩)
    ht h
  rw [updateAckTimer_eq]
  exact ⟨hu.length_eq, hu.length_le⟩

/-- An acknowledgement frees the packets it acknowledges. -/
theorem Accounted.onAck (hring : s.RingInv []) (q : SeqNr) : (s.onAck q).Accounted := by
  rcases onAck_cases s q with heq | ⟨-, hbetween, a, -, heq⟩
  · rwa [heq]
  · have hle := toNat_sub_le_of_seqBetween hbetween
    have hwindow := h.length_le
    have hlength := h.length_eq
    have hkept := length_dropWhile_acked (q := q) hring.consecutive
      (by simp only [sendWindow] at hwindow; omega)
      (by simp only [unacked] at hlength; bv_omega)
    have hunacked : (s.onAck q).unacked = (s.txSeqNr - q - 1).toNat := by
      rw [heq]
      rfl
    have hprune : (s.onAck q).ring = s.ring.dropWhile (fun p => 2048 ≤ (p.seq - q - 1).toNat) := by
      rw [heq, ← ring_pruneAcked]
      rfl
    refine ⟨?_, ?_⟩
    · rw [hprune, hunacked, hkept]
    · rw [hprune]
      exact (List.dropWhile_sublist _).length_le.trans hwindow

theorem Accounted.onPeerAck (hring : s.RingInv []) {q : SeqNr} (ht : s.onPeerAck q = .ok t) :
    t.Accounted := by
  rcases onPeerAck_cases ht with ⟨-, ht⟩ | ⟨-, rfl⟩
  · exact (h.onAck hring q).handleTransfer ht
  · exact h.onAck hring q

theorem Accounted.repeats (ht : s.Repeats t) : t.Accounted := by
  refine ⟨?_, ?_⟩
  · rw [ht.ring, ht.unacked]
    exact h.length_eq
  · rw [ht.ring]
    exact h.length_le

end Accounted

theorem Accounted.empty (hempty : s.ring = []) (hunacked : s.unacked = 0) : s.Accounted :=
  ⟨by rw [hempty, hunacked, List.length_nil], by rw [hempty]; exact Nat.zero_le _⟩

theorem Accounted.resetSession (s : Session) : s.resetSession.Accounted := by
  obtain ⟨ws, -, heq⟩ := resetSession_eq s
  rw [heq]
  refine Accounted.empty (ring_eq_nil_iff.mpr rfl) ?_
  show ((0 : SeqNr) - 0xFFF - 1).toNat = 0
  decide

/-- Whatever the peer does, counters and ring agree until the next transfer. -/
theorem accounted_lasting : Lasting (fun s => s.RingInv [] ∧ s.Accounted) where
  counters := fun s m hm h => ⟨ringInv_invariant.counters s m hm h.1, h.2.length_eq, h.2.length_le⟩
  received := fun s n h => ⟨ringInv_invariant.received s n h.1, h.2.length_eq, h.2.length_le⟩
  sendACK := fun s ack h => ⟨ringInv_invariant.sendACK s ack h.1, h.2.length_eq, h.2.length_le⟩
  onPeerAck := fun s t q hq h ht =>
    ⟨ringInv_invariant.onPeerAck s t q hq h.1 ht, h.2.onPeerAck h.1 ht⟩
  onPeerNack := fun s q h =>
    ⟨ringInv_invariant.onPeerNack s q h.1, h.2.repeats (repeats_onPeerNack s q)⟩
  expire := fun s h => ⟨ringInv_invariant.expire s h.1, h.2.length_eq, h.2.length_le⟩
  callback := fun s i h =>
    ⟨ringInv_invariant.callback s i h.1, h.2.repeats (repeats_runCallback s i)⟩
  resetSession := fun s h => ⟨ringInv_invariant.resetSession s h.1, Accounted.resetSession s⟩
  setResetCallback := fun s h =>
    ⟨ringInv_invariant.setResetCallback s h.1, h.2.length_eq, h.2.length_le⟩
  close := fun s h => by
    refine ⟨ringInv_invariant.close s h.1, ?_⟩
    unfold Session.close
    split_ifs
    · exact h.2
    · exact ⟨h.2.length_eq, h.2.length_le⟩

/-- A transfer that is started with everything acknowledged has the whole window. -/
theorem Accounted.start {transfer : Transfer} (hunacked : s.unacked = 0)
    (ht : { s.resetSendState with transfer := transfer }.handleTransfer = .ok t) : t.Accounted := by
  refine Accounted.handleTransfer ?_ ht
  exact Accounted.empty (ring_eq_nil_iff.mpr rfl) hunacked

theorem Accounted.step {e : Event} (hring : s.RingInv []) (h : s.Accounted) (hsettled : s.Settled e)
    (ht : s.step e = .ok t) : t.Accounted := by
  cases hsend : e.isSend with
  | false => exact (accounted_lasting.step hsend ⟨hring, h⟩ ht).2
  | true =>
    cases e with
    | sendData payload => exact Accounted.start (hsettled rfl) ht
    | sendRawDataWithHeader header data => exact Accounted.start (hsettled rfl) ht
    | _ => cases hsend

/-- In every run in which transfers are started with everything acknowledged, `InFlight` is
the number of packets in the ring, the ring holds all packets behind the last acknowledged
one, and a new transfer waits only with `SendWindow` packets in flight. -/
theorem window_agrees_with_ring (hs : s.ReachableWhen Settled) :
    s.inFlight = s.ring.length ∧
    s.ring.map TxPacket.seq =
      (List.range s.inFlight).map (fun k => s.txSeqNrAcked + 1 + BitVec.ofNat 12 k) ∧
    ∀ e t, e.isSend = true → s.Settled e → s.step e = .ok t → t.transfer.data.isSome →
      t.ring.length = sendWindow := by
  have hinv : s.RingInv [] ∧ s.Accounted := by
    refine Transition.Reachable.invariant (P := fun s => s.RingInv [] ∧ s.Accounted) ?_ ?_ hs
    · rintro s rfl
      exact ⟨ringInv_invariant.start, Accounted.empty (ring_eq_nil_iff.mpr rfl) (by decide)⟩
    · rintro s t - ⟨hring, h⟩ ⟨e, hsettled, hstep⟩
      exact ⟨ringInv_invariant.step hring hstep, h.step hring hsettled hstep⟩
  obtain ⟨hring, h⟩ := hinv
  refine ⟨h.inFlight_eq, ?_, ?_⟩
  · have hseqs := hring.consecutive.eq_map_range
    rw [List.length_map] at hseqs
    rw [hseqs, h.inFlight_eq]
    apply List.map_congr_left
    intro k hk
    have hlt := List.mem_range.mp hk
    have hlength := h.length_eq
    simp only [unacked] at hlength
    rw [BitVec.natCast_eq_ofNat]
    bv_omega
  · intro e t hsend hsettled hstep hdata
    have ht := h.step hring hsettled hstep
    have hrest := (resting_invariant.step (resting_invariant.reachable hs.reachable) hstep)
    obtain ⟨data, hdata⟩ := Option.isSome_iff_exists.mp hdata
    obtain ⟨-, -, -, -, -, hwindow⟩ := hrest.pending data hdata
    rw [ht.inFlight_eq] at hwindow
    exact Nat.le_antisymm ht.length_le hwindow

/-- A transfer after the acknowledgement of the one before. -/
theorem window_agrees_with_ring_after_ack :
    ∃ s, [.sendData (some [1]), .packet (controlPacket 0 0 true), .sendData (some [2])].foldlM step
        newSession = .ok s ∧ s.inFlight = s.ring.length ∧ s.ring.map TxPacket.seq = [1] := by
  have hrun : ∃ s₁ s₂ s₃, newSession.step (.sendData (some [1])) = .ok s₁ ∧
      s₁.step (.packet (controlPacket 0 0 true)) = .ok s₂ ∧
      s₂.step (.sendData (some [2])) = .ok s₃ ∧
      s₂.unacked = 0 ∧ s₃.ring.map TxPacket.seq = [1] := ⟨_, _, _, rfl, rfl, rfl, by rfl, by rfl⟩
  obtain ⟨s₁, s₂, s₃, h₁, h₂, h₃, hunacked, hseqs⟩ := hrun
  have hreach : s₃.ReachableWhen Settled :=
    .next (.next (.next (.start rfl) ⟨_, fun _ => by decide, h₁⟩)
      ⟨_, (fun hsend => by cases hsend), h₂⟩) ⟨_, fun _ => hunacked, h₃⟩
  refine ⟨s₃, ?_, (window_agrees_with_ring hreach).1, hseqs⟩
  exact Fallible.bind_eq_ok.mpr ⟨s₁, h₁, Fallible.bind_eq_ok.mpr ⟨s₂, h₂,
    Fallible.bind_eq_ok.mpr ⟨s₃, h₃, rfl⟩⟩⟩

set_option maxRecDepth 10000 in
/-- After two transfers of one packet without an acknowledgement the window counts two packets
and the ring holds one; after seven of them the next transfer waits with its first packet. -/
theorem superseded_packets_are_counted :
    (∃ s : Session, s.Reachable ∧ s.inFlight = 2 ∧ s.ring.length = 1) ∧
    ∃ s t : Session, s.Reachable ∧
      s.step (.sendRawDataWithHeader [0, 0, 0, 0] (some (List.replicate 1405 0))) = .ok t ∧
      t.transfer.data.isSome ∧ t.ring.length = 1 := by
  constructor
  · have hrun : ∃ s : Session,
        (List.replicate 2 (Event.sendData (some [1]))).foldlM step newSession = .ok s ∧
        s.inFlight = 2 ∧ s.ring.length = 1 := ⟨_, rfl, rfl, rfl⟩
    obtain ⟨s, hs, hrest⟩ := hrun
    exact ⟨s, .foldlM (.start rfl) _ hs, hrest⟩
  · have hrun : ∃ s t : Session,
        (List.replicate 7 (Event.sendData (some [1]))).foldlM step newSession = .ok s ∧
        s.step (.sendRawDataWithHeader [0, 0, 0, 0] (some (List.replicate 1405 0))) = .ok t ∧
        t.transfer.data.isSome ∧ t.ring.length = 1 := ⟨_, _, rfl, rfl, rfl, rfl⟩
    obtain ⟨s, t, hs, hrest⟩ := hrun
    exact ⟨s, t, .foldlM (.start rfl) _ hs, hrest⟩

end Session

end Udpfsd.Udprdma
