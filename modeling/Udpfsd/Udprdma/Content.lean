import Udpfsd.Udprdma.Ring

/-!
# What the packets of an answer carry

From the moment an answer is handed to the session until the next one, every datagram is
a control packet or carries a part of this answer. Whether packets come in order or twice
and whether the peer restarts does not matter here. A new packet is cut from the pending
transfer, and a repeated one is copied from the ring; a callback of the timer only
repeats packets, and so does not depend on the transfer at all.
-/

namespace Udpfsd.Udprdma

/-- What one call of `SendData` or `SendRawDataWithHeader` sends. -/
structure Answer where
  /-- The application header. -/
  header : List Byte
  /-- The data. -/
  data : List Byte
  deriving DecidableEq

/-- The packet carries a part of the answer's data, behind its header or none. -/
def Answer.Carried (a : Answer) (packet : List Byte) : Prop :=
  ∃ seq seqAck fin header offset length,
    packet = dataPacket seq seqAck fin header ((a.data.drop offset).take length) ∧
      (header = a.header ∧ offset = 0 ∨ header = [])

/-- The datagram is one that `sendACK` writes. -/
def IsControl (datagram : List Byte) : Prop :=
  ∃ seq seqAck ack, datagram = controlPacket seq seqAck ack

/-- The datagram is a control packet or carries a part of the answer, if there is one. -/
def BelongsTo (answer : Option Answer) (datagram : List Byte) : Prop :=
  IsControl datagram ∨ ∃ a, answer = some a ∧ a.Carried datagram

/-- A chunk cut from a transfer is a part of its data. -/
theorem Transfer.carried_nextChunk {t : Transfer} {data : List Byte} {c : Chunk}
    (h : t.nextChunk data = some c) (seq seqAck : SeqNr) :
    Answer.Carried ⟨t.header, data⟩ (dataPacket seq seqAck c.fin c.header c.body) := by
  unfold Transfer.nextChunk at h
  by_cases hfirst : t.offset = 0 ∧ 0 < t.header.length
  · rw [if_pos hfirst] at h
    rw [← Option.some.inj h]
    exact ⟨seq, seqAck, _, t.header, 0, _, rfl, Or.inl ⟨rfl, rfl⟩⟩
  · rw [if_neg hfirst] at h
    by_cases hend : (data.length : ℤ) ≤ t.offset
    · rw [if_pos hend] at h
      cases h
    · rw [if_neg hend] at h
      rw [← Option.some.inj h]
      exact ⟨seq, seqAck, _, [], _, _, rfl, Or.inr rfl⟩

namespace Session

/-- The ring holds packets of the answer, and since `base` only such packets and control
packets have been written. -/
structure Kept (answer : Option Answer) (base : List (List Byte)) (s : Session) : Prop where
  /-- The packets in the ring. -/
  ring : ∀ p ∈ s.ring, ∃ a, answer = some a ∧ a.Carried p.bytes
  /-- What has been written. -/
  wrote : ∃ log, datagrams s.trace = base ++ log ∧ ∀ b ∈ log, BelongsTo answer b

/-- Besides, the pending transfer is the answer. -/
structure Answering (answer : Option Answer) (base : List (List Byte)) (s : Session) : Prop
    extends Kept answer base s where
  /-- The pending transfer. -/
  pending : ∀ data, s.transfer.data = some data → answer = some ⟨s.transfer.header, data⟩

variable {answer : Option Answer} {base : List (List Byte)} {s t : Session}

/-- Writing datagrams of the answer. -/
theorem Kept.write (h : Kept answer base s) (hring : ∀ p ∈ t.ring, p ∈ s.ring)
    (news : List (List Byte)) (htrace : datagrams t.trace = datagrams s.trace ++ news)
    (hnews : ∀ b ∈ news, BelongsTo answer b) : Kept answer base t := by
  obtain ⟨log, hlog, hbelongs⟩ := h.wrote
  refine ⟨fun p hp => h.ring p (hring p hp), log ++ news, ?_, ?_⟩
  · rw [htrace, hlog, List.append_assoc]
  · intro b hb
    rcases List.mem_append.mp hb with hb | hb
    · exact hbelongs b hb
    · exact hnews b hb

theorem Kept.quiet (h : Kept answer base s) (hring : ∀ p ∈ t.ring, p ∈ s.ring)
    (htrace : datagrams t.trace = datagrams s.trace) : Kept answer base t :=
  h.write hring [] (by rw [htrace, List.append_nil]) (by simp)

theorem Kept.control (h : Kept answer base s) (hring : t.ring = s.ring) {seq seqAck : SeqNr}
    {ack : Bool} (htrace : t.trace = s.trace ++ [.writeTo (controlPacket seq seqAck ack)]) :
    Kept answer base t := by
  refine h.write (by simp [hring]) [controlPacket seq seqAck ack] (by simp [htrace, datagrams]) ?_
  intro b hb
  rw [List.mem_singleton.mp hb]
  exact Or.inl ⟨_, _, _, rfl⟩

/-- Packets of the ring are repeated, whatever the transfer is. -/
theorem Kept.repeats (h : Kept answer base s) (ht : s.Repeats t) : Kept answer base t := by
  obtain ⟨batch, htrace, hbatch⟩ := ht.trace
  refine h.write (by simp [ht.ring]) batch (by simp [htrace]) ?_
  intro b hb
  obtain ⟨p, hp, rfl⟩ := hbatch b hb
  exact Or.inr (h.ring p hp)

section Answering

variable (h : Answering answer base s)
include h

theorem Answering.of_kept (hkept : Kept answer base t)
    (htransfer : t.transfer = s.transfer ∨ t.transfer.data = none) : Answering answer base t := by
  refine ⟨hkept, ?_⟩
  intro data hdata
  rcases htransfer with htransfer | hnone
  · rw [htransfer] at hdata ⊢
    exact h.pending data hdata
  · rw [hnone] at hdata
    cases hdata

theorem Answering.repeats (ht : s.Repeats t) : Answering answer base t :=
  h.of_kept (h.toKept.repeats ht) ht.transfer

/-- Packing the next chunk, before the batch is written. -/
theorem Answering.sent {batch : List (List Byte)} {data : List Byte} {c : Chunk} {slot : TxPacket}
    (hbatch : ∀ b ∈ batch, BelongsTo answer b) (hpack : Packs s data c slot) :
    Answering answer base (s.sent slot c) ∧
      ∀ b ∈ batch ++ [slot.bytes], BelongsTo answer b := by
  have hanswer := h.pending data hpack.pending
  have hcarried : ∃ a, answer = some a ∧ a.Carried slot.bytes :=
    ⟨_, hanswer, hpack.bytes ▸ Transfer.carried_nextChunk hpack.next _ _⟩
  refine ⟨⟨⟨?_, ?_⟩, ?_⟩, ?_⟩
  · intro p hp
    rw [ring_sent slot c hpack.room] at hp
    rcases List.mem_append.mp hp with hp | hp
    · exact h.ring p hp
    · exact List.mem_singleton.mp hp ▸ hcarried
  · rw [sent_eq]
    exact h.wrote
  · intro data' hdata'
    obtain ⟨-, htransfer⟩ := transfer_sent hdata'
    rw [htransfer] at hdata' ⊢
    exact h.pending data' hdata'
  · intro b hb
    rcases List.mem_append.mp hb with hb | hb
    · exact hbatch b hb
    · exact Or.inr (List.mem_singleton.mp hb ▸ hcarried)

theorem Answering.handleTransfer (ht : s.handleTransfer = .ok t) : Answering answer base t := by
  obtain ⟨u, batch, ⟨hu, hbatch⟩, -, rfl⟩ := handleTransfer_invariant
    (P := fun u batch => Answering answer base u ∧ ∀ b ∈ batch, BelongsTo answer b)
    (fun u batch data c slot hpack hu => hu.1.sent hu.2 hpack)
    (fun u batch data _ _ _ hu =>
      ⟨hu.1.of_kept (hu.1.toKept.quiet (fun _ => id) rfl) (Or.inr rfl), hu.2⟩)
    ht ⟨h, by simp⟩
  rw [updateAckTimer_eq]
  refine hu.of_kept (hu.toKept.write (fun _ => id) batch ?_ hbatch) (Or.inl rfl)
  simp

theorem Answering.onPeerAck {q : SeqNr} (ht : s.onPeerAck q = .ok t) : Answering answer base t := by
  have hack : Answering answer base (s.onAck q) :=
    h.of_kept (h.toKept.quiet (fun p hp => (ring_onAck s q).mem hp) (by rw [trace_onAck]))
      (Or.inl (transfer_onAck s q))
  rcases onPeerAck_cases ht with ⟨-, ht⟩ | ⟨-, rfl⟩
  · exact hack.handleTransfer ht
  · exact hack

end Answering

/-- Whatever the peer sends and whenever the timer runs, the session keeps sending its
answer. -/
theorem Answering.stable (answer : Option Answer) (base : List (List Byte)) :
    Stable (Answering answer base) (fun _ => True) where
  counters := fun s m _ h => h.of_kept (h.toKept.quiet (fun _ => id) rfl) (Or.inl rfl)
  sendACK := fun s ack h => by
    obtain ⟨m, -, heq⟩ := sendACK_eq s ack
    rw [heq]
    exact h.of_kept (h.toKept.control rfl rfl) (Or.inl rfl)
  onPeerAck := fun s t q _ h ht => h.onPeerAck ht
  onPeerNack := fun s q h => h.repeats (repeats_onPeerNack s q)
  expire := fun s h => h.of_kept (h.toKept.quiet (fun _ => id) rfl) (Or.inl rfl)
  callback := fun s i h => h.repeats (repeats_runCallback s i)

theorem Answering.received (h : Answering answer base s) (n : SeqNr) :
    Answering answer base { s with rxSeqExpected := n } :=
  h.of_kept (h.toKept.quiet (fun _ => id) rfl) (Or.inl rfl)

theorem Answering.resetSession (h : Answering answer base s) :
    Answering answer base s.resetSession := by
  obtain ⟨ws, hws, heq⟩ := resetSession_eq s
  rw [heq]
  refine h.of_kept (h.toKept.quiet ?_ (by simp [hws])) (Or.inr rfl)
  intro p hp
  rw [show Session.ring _ = [] from ring_eq_nil_iff.mpr rfl] at hp
  cases hp

/-- A datagram leaves the session sending its answer. -/
theorem Answering.processDataPacket {data : List Byte} {r : Except String (Option (List Byte))}
    (h : Answering answer base s) (ht : s.processDataPacket data = .ok (t, r)) :
    Answering answer base t := by
  rcases processDataPacket_cases ht with ⟨err, -, rfl⟩ | ⟨p, payload, -, hp, -⟩
  · exact h
  · exact (Answering.stable answer base).processPacket (fun _ => trivial)
      (fun _ n hu => hu.received n) (fun _ _ hu => hu.resetSession) h hp

/-- A new answer takes the place of the old one. -/
theorem Answering.start {a : Answer} {maxChunk : ℕ}
    (ht : { s.resetSendState with
      transfer := ⟨a.header, some a.data, 0, maxChunk⟩ }.handleTransfer = .ok t) :
    Answering (some a) (datagrams s.trace) t := by
  refine Answering.handleTransfer ⟨⟨?_, [], by simp [resetSendState, stopAckTimer], by simp⟩, ?_⟩ ht
  · have hempty : { s.resetSendState with
        transfer := ⟨a.header, some a.data, 0, maxChunk⟩ }.ring = [] := ring_eq_nil_iff.mpr rfl
    simp [hempty]
  · intro data hdata
    cases hdata
    rfl

end Session

end Udpfsd.Udprdma
