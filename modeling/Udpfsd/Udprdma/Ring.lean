import Mathlib.Data.BitVec
import Udpfsd.Base.Consecutive
import Udpfsd.Base.Journal
import Udpfsd.Udprdma.Runs

/-!
# The retransmission ring

In every reachable state the ring holds the latest packets sent, consecutively numbered
up to the last one, and each slot still has the bytes that were written under its
number. It never holds more than one packet beyond the window.
-/

namespace Udpfsd.Udprdma

open SeqSpace

/-- The sequence number in the base header of a datagram. -/
def seqNrOf (packet : List Byte) : Option SeqNr :=
  match unpackHeader packet with
  | .ok hdr => some hdr.seqNr
  | .error _ => none

@[simp] theorem seqNrOf_dataPacket (seq seqAck : SeqNr) (fin : Bool) (header data : List Byte) :
    seqNrOf (dataPacket seq seqAck fin header data) = some seq := by
  simp [seqNrOf, dataPacket]

/-- The packets written by `writeBatch` so far, which are the DATA packets of transfers. -/
def batched : List Write → List (List Byte)
  | [] => []
  | .writeBatch packets :: ws => packets ++ batched ws
  | .writeTo _ :: ws => batched ws
  | .resetCallback :: ws => batched ws

@[simp] theorem batched_append (ws vs : List Write) :
    batched (ws ++ vs) = batched ws ++ batched vs := by
  induction ws with
  | nil => rfl
  | cons w ws ih => cases w <;> simp [batched, ih]

@[simp] theorem batched_batchWrites (batch : List (List Byte)) :
    batched (batchWrites batch) = batch := by
  unfold batchWrites
  by_cases hbatch : batch = []
  · simp [hbatch, batched]
  · simp [hbatch, batched]

/-- The packet last sent under a sequence number. -/
def lastSent (trace : List Write) (seq : SeqNr) : Option (List Byte) :=
  Journal.latest seqNrOf (batched trace) (some seq)

/-- The ring is in order: `next` is the number of the next packet, `unacked` the raw
distance from the last acknowledged to the last sent packet, and `sent` the packets
sent so far. -/
structure Held (ring : List TxPacket) (next : SeqNr) (unacked : ℕ) (sent : List (List Byte)) :
    Prop where
  /-- The numbers run up to the last one sent. -/
  consecutive : Consecutive next (ring.map TxPacket.seq)
  /-- At most one packet is held beyond the window. -/
  length_le : ring.length ≤ sendWindow + 1
  /-- At most one acknowledged packet is held, up to aliasing of the counters. -/
  length_le_unacked : ring.length ≤ unacked + 1
  /-- Each slot has the bytes last sent under its number. -/
  written : ∀ p ∈ ring, Journal.latest seqNrOf sent (some p.seq) = some p.bytes

namespace Held

variable {ring : List TxPacket} {next : SeqNr} {unacked : ℕ} {sent : List (List Byte)}

theorem nil : Held [] next unacked sent :=
  ⟨trivial, by simp, by simp, by simp⟩

section Held

variable (h : Held ring next unacked sent)
include h

/-- Numbers of held packets are not used for the next packet. -/
theorem seq_ne_next {p : TxPacket} (hp : p ∈ ring) : p.seq ≠ next := by
  obtain ⟨k, hpos, hle, heq⟩ := h.consecutive.mem (List.mem_map_of_mem hp)
  have hlength := h.length_le
  simp only [List.length_map, sendWindow, BitVec.natCast_eq_ofNat] at hle hlength heq
  rw [heq]
  bv_omega

/-- A packet is packed while the window is open or the ring is empty. -/
theorem push {slot : TxPacket} {seqAck : SeqNr} {fin : Bool} {header data : List Byte}
    {unacked' : ℕ} (hopen : ring = [] ∨ (unacked < sendWindow ∧ unacked' = unacked + 1))
    (hseq : slot.seq = next) (hbytes : slot.bytes = dataPacket next seqAck fin header data) :
    Held (ring ++ [slot]) (next + 1) unacked' (sent ++ [slot.bytes]) := by
  have hlength := h.length_le_unacked
  refine ⟨?_, ?_, ?_, ?_⟩
  · simpa [hseq] using h.consecutive.append_singleton
  · rcases hopen with rfl | ⟨hlt, -⟩
    · simp
    · rw [List.length_append, List.length_singleton]
      omega
  · rcases hopen with rfl | ⟨-, heq⟩
    · simp
    · rw [List.length_append, List.length_singleton]
      omega
  · intro p hp
    rw [Journal.latest_append_singleton, hbytes, seqNrOf_dataPacket]
    rcases List.mem_append.mp hp with hp | hp
    · rw [if_neg (fun heq => h.seq_ne_next hp (Option.some.inj heq).symm)]
      exact h.written p hp
    · rw [List.mem_singleton.mp hp, if_pos (by rw [hseq]), hbytes]

/-- Packets of the ring are sent again. -/
theorem again {packets : List (List Byte)} (hpackets : ∀ b ∈ packets, ∃ p ∈ ring, p.bytes = b) :
    Held ring next unacked (sent ++ packets) := by
  refine ⟨h.consecutive, h.length_le, h.length_le_unacked, fun p hp => ?_⟩
  refine Journal.latest_append_of_repeat ?_ (h.written p hp)
  intro b hb hkey
  obtain ⟨p', hp', rfl⟩ := hpackets b hb
  have hsame : some p'.seq = some p.seq :=
    (Journal.key_of_latest (h.written p' hp')).symm.trans hkey
  have hlatest := h.written p' hp'
  rw [hsame, h.written p hp] at hlatest
  exact (Option.some.inj hlatest).symm

/-- An acknowledgement discards a first part of the ring. -/
theorem prune (q : SeqNr) :
    Held (ring.dropWhile (fun p => 2048 ≤ (p.seq - q - 1).toNat)) next (next - q - 1).toNat
      sent := by
  obtain ⟨k, hdrop⟩ : ∃ k, ring.dropWhile (fun p => 2048 ≤ (p.seq - q - 1).toNat) = ring.drop k :=
    ⟨_, List.suffix_iff_eq_drop.mp (List.dropWhile_suffix _)⟩
  have hconsecutive : Consecutive next ((ring.drop k).map TxPacket.seq) := by
    rw [List.map_drop]
    exact h.consecutive.drop k
  have hlength : (ring.drop k).length ≤ sendWindow + 1 := by
    have hle := h.length_le
    rw [List.length_drop]
    omega
  rw [hdrop]
  refine ⟨hconsecutive, hlength, ?_, fun p hp => h.written p (List.mem_of_mem_drop hp)⟩
  cases hrest : ring.drop k with
  | nil => simp
  | cons p ps =>
    have hkept : (p.seq - q - 1).toNat < 2048 := by
      have hnot := List.head?_dropWhile_not (fun p : TxPacket => 2048 ≤ (p.seq - q - 1).toNat) ring
      rw [hdrop, hrest] at hnot
      simpa using hnot
    rw [hrest] at hconsecutive hlength
    have hseq := hconsecutive.1
    simp only [List.length_map, List.length_cons, sendWindow,
      BitVec.natCast_eq_ofNat] at hseq hlength ⊢
    rw [hseq] at hkept
    bv_omega

end Held

end Held

namespace Session

/-- The ring of the session is in order, with the packets of `unsent` packed and not yet
written. -/
def RingInv (s : Session) (unsent : List (List Byte)) : Prop :=
  Held s.ring s.txSeqNr s.unacked (batched s.trace ++ unsent)

/-- The invariant reads nothing but the ring, the two numbers and what has been packed. -/
theorem RingInv.of_eq {s t : Session} {unsent unsent' : List (List Byte)} (h : s.RingInv unsent)
    (hring : t.ring = s.ring) (hseq : t.txSeqNr = s.txSeqNr) (hunacked : t.unacked = s.unacked)
    (hsent : batched t.trace ++ unsent' = batched s.trace ++ unsent) : t.RingInv unsent' := by
  unfold RingInv
  rw [hring, hseq, hunacked, hsent]
  exact h

/-- The last packet of the ring is the last one sent. -/
theorem RingInv.getLast? {s : Session} {unsent : List (List Byte)} (h : s.RingInv unsent)
    (hne : s.ring ≠ []) : ∃ p, s.ring.getLast? = some p ∧ p.seq = s.txSeqNr - 1 := by
  have hlast := h.consecutive.getLast? (by simpa using hne)
  rw [List.getLast?_map, Option.map_eq_some_iff] at hlast
  exact hlast

/-- While the ring holds a packet, another one is packed only with the window open. -/
theorem unacked_sent {s : Session} {data : List Byte} {c : Chunk} {slot : TxPacket}
    (h : Packs s data c slot) :
    s.ring = [] ∨ (s.unacked < sendWindow ∧ (s.sent slot c).unacked = s.unacked + 1) := by
  by_cases hempty : s.ring = []
  · exact Or.inl hempty
  · right
    have hwindow := h.window
    rw [inFlight_eq, if_neg hempty] at hwindow
    refine ⟨hwindow, ?_⟩
    rw [sent_eq]
    simp only [unacked, sendWindow] at hwindow ⊢
    bv_omega

theorem RingInv.sent {s : Session} {batch : List (List Byte)} {data : List Byte} {c : Chunk}
    {slot : TxPacket} (h : s.RingInv batch) (hpack : Packs s data c slot) :
    (s.sent slot c).RingInv (batch ++ [slot.bytes]) := by
  have hpush := Held.push h (unacked_sent hpack) hpack.seq hpack.bytes
  unfold RingInv
  rw [ring_sent slot c hpack.room, ← List.append_assoc]
  rw [sent_eq] at hpush ⊢
  exact hpush

theorem RingInv.handleTransfer {s t : Session} (h : s.RingInv [])
    (ht : s.handleTransfer = .ok t) : t.RingInv [] := by
  obtain ⟨u, batch, hu, -, rfl⟩ := handleTransfer_invariant
    (P := fun s batch => s.RingInv batch) (fun s batch data c slot hpack hs => hs.sent hpack)
    (fun s batch data _ _ _ hs => hs) ht h
  rw [updateAckTimer_eq]
  exact hu.of_eq rfl rfl rfl (by simp)

theorem RingInv.onAck {s : Session} (h : s.RingInv []) (q : SeqNr) : (s.onAck q).RingInv [] := by
  rcases onAck_cases s q with heq | ⟨-, -, a, -, heq⟩
  · rw [heq]
    exact h
  · rw [heq]
    have hprune := h.prune q
    rw [← ring_pruneAcked] at hprune
    exact hprune

theorem RingInv.onPeerAck {s t : Session} (h : s.RingInv []) {q : SeqNr}
    (ht : s.onPeerAck q = .ok t) : t.RingInv [] := by
  rcases onPeerAck_cases ht with ⟨-, ht⟩ | ⟨-, rfl⟩
  · exact (h.onAck q).handleTransfer ht
  · exact h.onAck q

/-- Packets of the ring have been written again. -/
theorem RingInv.repeats {s t : Session} (h : s.RingInv []) (ht : s.Repeats t) : t.RingInv [] := by
  obtain ⟨batch, htrace, hbatch⟩ := ht.trace
  have hagain : s.RingInv batch := by
    have hagain := Held.again h hbatch
    rwa [List.append_nil] at hagain
  exact hagain.of_eq ht.ring ht.txSeqNr ht.unacked (by simp [htrace])

theorem RingInv.start_transfer {s : Session} (transfer : Transfer) :
    { s.resetSendState with transfer := transfer }.RingInv [] := by
  have hempty : { s.resetSendState with transfer := transfer }.ring = [] :=
    ring_eq_nil_iff.mpr rfl
  unfold RingInv
  rw [hempty]
  exact Held.nil

theorem RingInv.resetSession (s : Session) : s.resetSession.RingInv [] := by
  obtain ⟨ws, -, heq⟩ := resetSession_eq s
  have hempty : s.resetSession.ring = [] := by
    rw [heq]
    exact ring_eq_nil_iff.mpr rfl
  unfold RingInv
  rw [hempty]
  exact Held.nil

/-- The ring is in order throughout every run. -/
theorem ringInv_invariant : Invariant (fun s => s.RingInv []) where
  start := Held.nil
  counters := fun s m _ h => h
  received := fun s n h => h
  sendACK := fun s ack h => by
    obtain ⟨m, -, heq⟩ := sendACK_eq s ack
    rw [heq]
    exact h.of_eq rfl rfl rfl (by simp [batched])
  onPeerAck := fun s t q _ h ht => h.onPeerAck ht
  onPeerNack := fun s q h => h.repeats (repeats_onPeerNack s q)
  expire := fun s h => h
  callback := fun s i h => h.repeats (repeats_runCallback s i)
  resetSession := fun s _ => RingInv.resetSession s
  sendData := fun s t payload _ ht => (RingInv.start_transfer _).handleTransfer ht
  sendRawDataWithHeader := fun s t header data _ ht => (RingInv.start_transfer _).handleTransfer ht
  setResetCallback := fun s h => h
  close := fun s h => by
    unfold Session.close
    split_ifs
    · exact h
    · exact h

theorem RingInv.handleTransfer_ne_ringFull {s : Session} (h : s.RingInv []) :
    s.handleTransfer ≠ .error .ringFull := by
  intro herr
  rcases Fallible.bind_eq_error.mp herr with hloop | ⟨r, -, hrest⟩
  · obtain ⟨t, sofar, data, c, ht, -, -, hpack⟩ := transferLoop_error
      (P := fun s batch => s.RingInv batch) (fun s batch data c slot hpack hs => hs.sent hpack)
      hloop h
    have hfull := packDataPacket_ringFull hpack
    have hlength := ht.length_le
    simp only [ring, CircularBuffer.length_contents, sendWindow] at hlength
    omega
  · cases hrest

theorem RingInv.onPeerAck_ne_ringFull {s : Session} (h : s.RingInv []) (q : SeqNr) :
    s.onPeerAck q ≠ .error .ringFull := by
  unfold Session.onPeerAck
  simp only
  split_ifs
  · exact (h.onAck q).handleTransfer_ne_ringFull
  · simp

/-- No event finds the ring full. -/
theorem RingInv.step_ne_ringFull {s : Session} (h : s.RingInv []) (e : Event) :
    s.step e ≠ .error .ringFull := by
  cases e with
  | sendData payload => exact (RingInv.start_transfer _).handleTransfer_ne_ringFull
  | sendRawDataWithHeader header data =>
    exact (RingInv.start_transfer _).handleTransfer_ne_ringFull
  | packet data =>
    intro herr
    unfold Session.step at herr
    simp only at herr
    split_ifs at herr with hshort
    rcases Fallible.bind_eq_error.mp herr with hpacket | ⟨r, -, hrest⟩
    · rcases Fallible.bind_eq_error.mp hpacket with hparse | ⟨parsed, -, hrest⟩
      · exact parsePacket_ne_ringFull data hparse
      · cases parsed with
        | error err => cases hrest
        | ok p =>
          rcases Fallible.bind_eq_error.mp hrest with hp | ⟨r, -, hr⟩
          · obtain ⟨u, hu, hack⟩ := ringInv_invariant.processPacket_error
              ringInv_invariant.received (fun _ => ringInv_invariant.resetSession) h hp
            exact hu.onPeerAck_ne_ringFull _ hack
          · cases hr
    · cases hrest
  | sendACK ack => simp [Session.step]
  | expire => simp [Session.step]
  | callback i => simp [Session.step]
  | reset => simp [Session.step]
  | setResetCallback => simp [Session.step]
  | close => simp [Session.step]

/-- In every reachable state the ring holds the last packets sent, numbered consecutively
up to `txSeqNr - 1`, each with the bytes last sent under its number; it holds at most one
packet more than the window, and no event finds it full. -/
theorem ring_holds_last_sent {s : Session} (hs : s.Reachable) :
    s.ring.map TxPacket.seq = (List.range s.ring.length).map
        (fun k => s.txSeqNr - ((s.ring.length - k : ℕ) : SeqNr)) ∧
      (∀ p ∈ s.ring, lastSent s.trace p.seq = some p.bytes) ∧
      s.ring.length ≤ sendWindow + 1 ∧
      ∀ e, s.step e ≠ .error .ringFull := by
  have hinv := ringInv_invariant.reachable hs
  refine ⟨?_, ?_, hinv.length_le, hinv.step_ne_ringFull⟩
  · have hrange := hinv.consecutive.eq_map_range
    rwa [List.length_map] at hrange
  · intro p hp
    have hwritten := hinv.written p hp
    rwa [List.append_nil] at hwritten

theorem ring_holds_last_sent_after_sendData :
    ∃ s, newSession.step (.sendData (some [1, 2, 3])) = .ok s ∧ s.ring.length = 1 ∧
      ∀ p ∈ s.ring, lastSent s.trace p.seq = some p.bytes := by
  refine ⟨_, rfl, by rfl, ?_⟩
  exact (ring_holds_last_sent (.next (.start rfl) ⟨.sendData (some [1, 2, 3]), rfl⟩)).2.1

end Session

end Udpfsd.Udprdma
