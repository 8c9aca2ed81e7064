import Mathlib.Data.List.TakeWhile
import Udpfsd.Udprdma.Plan
import Udpfsd.Udprdma.Ring

/-!
# What a session writes during a transfer

From the start of a transfer on, the session writes control packets and packets of the
plan: the next one, or one of the last few again. This holds whatever packets arrive and
whenever the timer runs, until the transfer is replaced.
-/

namespace Udpfsd.Udprdma

open SeqSpace

/-- The packet of a transfer behind `n` packets, if the datagram is the next one. -/
def nextPacket (start : SeqNr) (n : ℕ) (datagram : List Byte) : ℕ :=
  if seqNrOf datagram = some (start + (n : SeqNr)) ∧
      headerSize + dataHeaderSize < datagram.length then n + 1 else n

/-- The number of different packets of the transfer among the datagrams. -/
def reached (start : SeqNr) (log : List (List Byte)) : ℕ := log.foldl (nextPacket start) 0

theorem reached_append_singleton (start : SeqNr) (log : List (List Byte)) (datagram : List Byte) :
    reached start (log ++ [datagram]) = nextPacket start (reached start log) datagram := by
  simp [reached]

theorem nextPacket_cases (start : SeqNr) (n : ℕ) (datagram : List Byte) :
    nextPacket start n datagram = n ∨ nextPacket start n datagram = n + 1 := by
  unfold nextPacket
  split_ifs
  · exact Or.inr rfl
  · exact Or.inl rfl

theorem foldl_nextPacket_bounds (start : SeqNr) (n : ℕ) (log : List (List Byte)) :
    n ≤ log.foldl (nextPacket start) n ∧ log.foldl (nextPacket start) n ≤ n + log.length := by
  induction log generalizing n with
  | nil => simp
  | cons b log ih =>
    obtain ⟨hle, hge⟩ := ih (nextPacket start n b)
    have hstep := nextPacket_cases start n b
    rw [List.foldl_cons, List.length_cons]
    omega

/-- Each datagram reaches at most one packet further. -/
theorem reached_take_bounds (start : SeqNr) (log : List (List Byte)) {i j : ℕ} (hij : i ≤ j) :
    reached start (log.take i) ≤ reached start (log.take j) ∧
      reached start (log.take j) ≤ reached start (log.take i) + (j - i) := by
  have hsplit : log.take j = log.take i ++ (log.drop i).take (j - i) := by
    rw [← List.take_add, Nat.add_sub_cancel' hij]
  have hbounds := foldl_nextPacket_bounds start (reached start (log.take i))
    ((log.drop i).take (j - i))
  have hlength : ((log.drop i).take (j - i)).length ≤ j - i := List.length_take_le _ _
  have hfold : reached start (log.take j) =
      ((log.drop i).take (j - i)).foldl (nextPacket start) (reached start (log.take i)) := by
    rw [hsplit, reached, List.foldl_append]
    rfl
  rw [hfold]
  omega

theorem nextPacket_controlPacket (start : SeqNr) (n : ℕ) (seq seqAck : SeqNr) (ack : Bool) :
    nextPacket start n (controlPacket seq seqAck ack) = n := by
  have hlength : (controlPacket seq seqAck ack).length = headerSize + dataHeaderSize := rfl
  unfold nextPacket
  rw [if_neg (by rw [hlength]; omega)]

section

variable (plan : Plan) (start : SeqNr)

/-- A datagram written when the packets before `n` have been sent: a control packet, the
next packet, or one of the last packets again. -/
def Entry (n : ℕ) (datagram : List Byte) : Prop :=
  (∃ seq seqAck ack, datagram = controlPacket seq seqAck ack) ∨
  ∃ i, plan.IsPacket start i datagram ∧ i < plan.count ∧ i ≤ n ∧ n ≤ i + (sendWindow + 1)

/-- The datagrams are those of the transfer. -/
def Logged (log : List (List Byte)) : Prop :=
  ∀ j (hj : j < log.length), Entry plan start (reached start (log.take j)) log[j]

/-- The packets are the last ones before the packet with index `n`, in order. -/
def Recent (n : ℕ) : List (List Byte) → Prop
  | [] => True
  | b :: bs => bs.length < n ∧ plan.IsPacket start (n - 1 - bs.length) b ∧ Recent n bs

end

variable {plan : Plan} {start : SeqNr} {n : ℕ}

variable {bs : List (List Byte)}

theorem Recent.append {b : List Byte} (h : Recent plan start n bs)
    (hb : plan.IsPacket start n b) : Recent plan start (n + 1) (bs ++ [b]) := by
  induction bs with
  | nil => exact ⟨Nat.succ_pos n, by simpa using hb, trivial⟩
  | cons a bs ih =>
    obtain ⟨hlt, ha, hbs⟩ := h
    rw [List.cons_append]
    refine ⟨by simpa using hlt, ?_, ih hbs⟩
    rw [List.length_append, List.length_singleton]
    rwa [show n + 1 - 1 - (bs.length + 1) = n - 1 - bs.length by omega]

theorem Recent.drop (h : Recent plan start n bs) (k : ℕ) :
    Recent plan start n (bs.drop k) := by
  induction bs generalizing k with
  | nil => simp [Recent]
  | cons a bs ih =>
    cases k with
    | zero => exact h
    | succ k => exact ih h.2.2 k

theorem Recent.mem {b : List Byte} (h : Recent plan start n bs)
    (hb : b ∈ bs) : ∃ i, i < n ∧ n ≤ i + bs.length ∧ plan.IsPacket start i b := by
  induction bs with
  | nil => cases hb
  | cons a bs ih =>
    obtain ⟨hlt, ha, hbs⟩ := h
    rcases List.mem_cons.mp hb with rfl | hb
    · exact ⟨n - 1 - bs.length, by omega, by rw [List.length_cons]; omega, ha⟩
    · obtain ⟨i, hi, hle, hpacket⟩ := ih hbs hb
      exact ⟨i, hi, by rw [List.length_cons]; omega, hpacket⟩

/-- A packet of the plan is longer than the two headers. -/
theorem Plan.IsPacket.long {i : ℕ} {packet : List Byte} (h : plan.IsPacket start i packet)
    (hi : i < plan.count) : headerSize + dataHeaderSize < packet.length := by
  have hpos := List.length_pos_iff.mpr (plan.payload_ne_nil hi)
  obtain ⟨seqAck, rfl⟩ := h
  simp only [Plan.payload, dataPacket, List.length_append, Header.length_pack,
    DataHeader.length_pack, List.length_replicate] at hpos ⊢
  omega

theorem Plan.IsPacket.seqNrOf_eq {i : ℕ} {packet : List Byte} (h : plan.IsPacket start i packet) :
    seqNrOf packet = some (start + (i : SeqNr)) := by
  obtain ⟨seqAck, rfl⟩ := h
  exact seqNrOf_dataPacket _ _ _ _ _

/-- Sending a packet reaches further exactly when it is the next one. -/
theorem nextPacket_isPacket {i : ℕ} {packet : List Byte} (h : plan.IsPacket start i packet)
    (hi : i < plan.count) (hle : i ≤ n) (hge : n ≤ i + (sendWindow + 1)) :
    nextPacket start n packet = if i = n then n + 1 else n := by
  have hlong := h.long hi
  unfold nextPacket
  rw [h.seqNrOf_eq]
  by_cases heq : i = n
  · rw [if_pos ⟨by rw [heq], hlong⟩, if_pos heq]
  · rw [if_neg ?_, if_neg heq]
    rintro ⟨hseq, -⟩
    have hseq := Option.some.inj hseq
    simp only [BitVec.natCast_eq_ofNat, sendWindow] at hseq hge
    bv_omega

theorem Logged.nil : Logged plan start [] := fun j hj => absurd hj (Nat.not_lt_zero j)

theorem Logged.append_singleton {log : List (List Byte)} {datagram : List Byte}
    (h : Logged plan start log) (hentry : Entry plan start (reached start log) datagram) :
    Logged plan start (log ++ [datagram]) := by
  intro j hj
  by_cases hlast : j < log.length
  · rw [List.take_append_of_le_length (Nat.le_of_lt hlast), List.getElem_append_left hlast]
    exact h j hlast
  · have heq : j = log.length := by
      rw [List.length_append, List.length_singleton] at hj
      omega
    subst heq
    rw [List.take_left, List.getElem_concat_length rfl]
    exact hentry

/-- An acknowledgement discards no packet behind the one it acknowledges. -/
theorem length_dropWhile_ge {ring : List TxPacket} {next q : SeqNr} (expected : SeqNr)
    (unsent : ℕ) (hconsecutive : Consecutive next (ring.map TxPacket.seq))
    (hlength : ring.length ≤ sendWindow + 1) (hnext : next = expected + (unsent : SeqNr))
    (hle : unsent ≤ ring.length) (hfresh : (expected - 1 - q).toNat + (sendWindow + 1) < 2048) :
    unsent ≤ (ring.dropWhile (fun p => 2048 ≤ (p.seq - q - 1).toNat)).length := by
  by_contra hshort
  obtain ⟨gone, rest, hgone, hrest⟩ : ∃ gone rest,
      gone = ring.takeWhile (fun p => 2048 ≤ (p.seq - q - 1).toNat) ∧
      rest = ring.dropWhile (fun p => 2048 ≤ (p.seq - q - 1).toNat) := ⟨_, _, rfl, rfl⟩
  have hsplit : gone ++ rest = ring := by
    rw [hgone, hrest]
    exact List.takeWhile_append_dropWhile
  rw [← hrest] at hshort
  rcases List.eq_nil_or_concat gone with hnil | ⟨init, p, hlast⟩
  · rw [hnil, List.nil_append] at hsplit
    rw [hsplit] at hshort
    exact hshort hle
  -- the last packet discarded would be one the receiver has not taken
  · have hdrop : 2048 ≤ (p.seq - q - 1).toNat := by
      have hmem : p ∈ ring.takeWhile (fun p => 2048 ≤ (p.seq - q - 1).toNat) := by
        rw [← hgone, hlast]
        simp
      simpa only [decide_eq_true_eq] using List.mem_takeWhile_imp hmem
    have hring : ring = init ++ p :: rest := by rw [← hsplit, hlast]; simp
    have htail := hconsecutive.drop init.length
    rw [hring, List.map_append, List.drop_left' (by simp)] at htail
    have hseq := htail.1
    have hlengths := congrArg List.length hring
    rw [List.length_append, List.length_cons] at hlengths
    rw [hseq, hnext] at hdrop
    simp only [List.length_map, BitVec.natCast_eq_ofNat, sendWindow] at hdrop hlength hfresh
    bv_omega

namespace Session

/-- The session is sending the plan, has written `log` for it, or is about to, and the
receiver has taken `r` packets. Unless the packets all have different numbers, the ring
still holds everything the receiver has not taken. -/
structure Sending (plan : Plan) (start : SeqNr) (r : ℕ) (log : List (List Byte)) (s : Session) :
    Prop where
  /-- What has been written. -/
  logged : Logged plan start log
  /-- The next number. -/
  seq : s.txSeqNr = start + (reached start log : SeqNr)
  /-- There are no packets behind the last one. -/
  le_count : reached start log ≤ plan.count
  /-- The ring holds the last packets sent. -/
  recent : Recent plan start (reached start log) (s.ring.map TxPacket.bytes)
  /-- While the transfer is pending, it continues with the next packet of the plan. -/
  pending : ∀ data, s.transfer.data = some data →
    data = plan.data ∧ plan.At s.transfer (reached start log)
  /-- The receiver is not further behind than the ring. -/
  behind : plan.count < 4096 ∨ reached start log ≤ r + s.ring.length

variable {plan : Plan} {start : SeqNr} {r : ℕ} {log : List (List Byte)}

/-- Packing the next chunk. -/
theorem Sending.sent {s : Session} {data : List Byte} {c : Chunk} {slot : TxPacket}
    (h : Sending plan start r log s) (hpack : Packs s data c slot) :
    Sending plan start r (log ++ [slot.bytes]) (s.sent slot c) := by
  obtain ⟨rfl, hat⟩ := h.pending data hpack.pending
  have hchunk : c = _ := Option.some.inj (hpack.next.symm.trans hat.nextChunk_eq)
  have hpacket : plan.IsPacket start (reached start log) slot.bytes := by
    refine ⟨s.rxSeqExpected - 1, ?_⟩
    rw [hpack.bytes, hchunk, h.seq]
  have hreached : reached start (log ++ [slot.bytes]) = reached start log + 1 := by
    rw [reached_append_singleton, nextPacket_isPacket hpacket hat.inside (Nat.le_refl _) (by omega),
      if_pos rfl]
  have hring := ring_sent slot c hpack.room
  refine ⟨?_, ?_, ?_, ?_, ?_, ?_⟩
  · exact h.logged.append_singleton
      (Or.inr ⟨_, hpacket, hat.inside, Nat.le_refl _, by omega⟩)
  · rw [hreached, sent_eq]
    simp only [h.seq]
    push_cast
    rw [add_assoc]
  · rw [hreached]
    exact hat.inside
  · rw [hreached, hring, List.map_append]
    exact h.recent.append hpacket
  · intro data' hdata'
    obtain ⟨hfin, htransfer⟩ := transfer_sent hdata'
    rw [htransfer] at hdata' ⊢
    have hsame := Option.some.inj (hpack.pending.symm.trans hdata')
    rw [hchunk] at hfin ⊢
    simp only [Plan.isLast, decide_eq_false_iff_not] at hfin
    exact ⟨hsame.symm, ⟨hat.header, hat.maxChunk, by rw [hreached], by rw [hreached]; omega⟩⟩
  · rw [hreached, hring, List.length_append, List.length_singleton]
    exact h.behind.imp_right (by omega)

/-- The invariant reads nothing but the ring, the next number and the transfer. -/
theorem Sending.of_eq {s t : Session} (h : Sending plan start r log s)
    (hring : t.ring = s.ring) (hseq : t.txSeqNr = s.txSeqNr)
    (htransfer : t.transfer = s.transfer ∨ t.transfer.data = none) :
    Sending plan start r log t := by
  refine ⟨h.logged, hseq.trans h.seq, h.le_count, by rw [hring]; exact h.recent, ?_,
    by rw [hring]; exact h.behind⟩
  intro data hdata
  rcases htransfer with htransfer | hnone
  · rw [htransfer] at hdata ⊢
    exact h.pending data hdata
  · rw [hnone] at hdata
    cases hdata

/-- Writing datagrams that are not the next packet. -/
theorem Sending.write {s t : Session} {datagram : List Byte} (h : Sending plan start r log s)
    (hentry : Entry plan start (reached start log) datagram)
    (hnext : nextPacket start (reached start log) datagram = reached start log)
    (hring : t.ring = s.ring) (hseq : t.txSeqNr = s.txSeqNr)
    (htransfer : t.transfer = s.transfer ∨ t.transfer.data = none) :
    Sending plan start r (log ++ [datagram]) t := by
  have ht := h.of_eq hring hseq htransfer
  have hreached : reached start (log ++ [datagram]) = reached start log := by
    rw [reached_append_singleton, hnext]
  refine ⟨h.logged.append_singleton hentry, ?_, ?_, ?_, ?_, ?_⟩
  · rw [hreached]
    exact ht.seq
  · rw [hreached]
    exact ht.le_count
  · rw [hreached]
    exact ht.recent
  · rw [hreached]
    exact ht.pending
  · rw [hreached]
    exact ht.behind

theorem Sending.control {s t : Session} (h : Sending plan start r log s) (seq seqAck : SeqNr)
    (ack : Bool) (hring : t.ring = s.ring) (hseq : t.txSeqNr = s.txSeqNr)
    (htransfer : t.transfer = s.transfer) :
    Sending plan start r (log ++ [controlPacket seq seqAck ack]) t :=
  h.write (Or.inl ⟨seq, seqAck, ack, rfl⟩) (nextPacket_controlPacket _ _ _ _ _) hring hseq
    (Or.inl htransfer)

/-- Packets of the ring are written again. -/
theorem Sending.again {s t : Session} (h : Sending plan start r log s)
    (hlength : s.ring.length ≤ sendWindow + 1) {packets : List (List Byte)}
    (hpackets : ∀ b ∈ packets, ∃ p ∈ s.ring, p.bytes = b)
    (hring : t.ring = s.ring) (hseq : t.txSeqNr = s.txSeqNr)
    (htransfer : t.transfer = s.transfer ∨ t.transfer.data = none) :
    Sending plan start r (log ++ packets) t := by
  induction packets using List.reverseRecOn with
  | nil =>
    rw [List.append_nil]
    exact h.of_eq hring hseq htransfer
  | append_singleton packets b ih =>
    have hrest := ih (fun b' hb' => hpackets b' (by simp [hb']))
    obtain ⟨p, hp, rfl⟩ := hpackets b (by simp)
    rw [← hring] at hp hlength
    obtain ⟨i, hi, hle, hpacket⟩ := hrest.recent.mem (List.mem_map_of_mem hp)
    rw [List.length_map] at hle
    have hcount : i < plan.count := Nat.lt_of_lt_of_le hi hrest.le_count
    rw [← List.append_assoc]
    refine hrest.write (Or.inr ⟨i, hpacket, hcount, Nat.le_of_lt hi, by omega⟩) ?_ rfl rfl
      (Or.inl rfl)
    rw [nextPacket_isPacket hpacket hcount (Nat.le_of_lt hi) (by omega), if_neg (by omega)]

/-- An acknowledgement the receiver can have sent by now: with different numbers for all
packets any one will do, otherwise it lags behind by less than half the numbers. -/
def Acknowledges (plan : Plan) (start : SeqNr) (r : ℕ) (q : SeqNr) : Prop :=
  plan.count < 4096 ∨ (start + (r : SeqNr) - 1 - q).toNat + (sendWindow + 1) < 2048

theorem Sending.onAck {s : Session} (h : Sending plan start r log s) (hring : s.RingInv [])
    {q : SeqNr} (hq : Acknowledges plan start r q) :
    Sending plan start r log (s.onAck q) := by
  rcases onAck_cases s q with heq | ⟨-, -, a, -, heq⟩
  · rw [heq]
    exact h
  · have hprune : (s.onAck q).ring = s.ring.dropWhile (fun p => 2048 ≤ (p.seq - q - 1).toNat) := by
      rw [heq, ← ring_pruneAcked]
      rfl
    have hsuffix := List.suffix_iff_eq_drop.mp (ring_onAck s q)
    refine ⟨h.logged, ?_, h.le_count, ?_, ?_, ?_⟩
    · rw [heq]
      exact h.seq
    · rw [hsuffix, List.map_drop]
      exact h.recent.drop _
    · rw [heq]
      exact h.pending
    · rcases hq with hsmall | hfresh
      · exact Or.inl hsmall
      · refine h.behind.imp_right ?_
        intro hbehind
        by_cases hahead : reached start log ≤ r
        · omega
        · have hkept := length_dropWhile_ge (start + (r : SeqNr)) (reached start log - r)
            hring.consecutive hring.length_le (by
              rw [h.seq, add_assoc, ← Nat.cast_add, Nat.add_sub_cancel' (by omega)])
            (by omega) hfresh
          rw [hprune]
          omega

theorem Sending.handleTransfer {s t : Session} (base : List (List Byte))
    (h : Sending plan start r log s) (htrace : datagrams s.trace = base ++ log)
    (ht : s.handleTransfer = .ok t) :
    ∃ news, datagrams t.trace = base ++ (log ++ news) ∧ Sending plan start r (log ++ news) t := by
  obtain ⟨u, batch, ⟨hu, htrace'⟩, -, rfl⟩ := handleTransfer_invariant
    (P := fun u batch => Sending plan start r (log ++ batch) u ∧ datagrams u.trace = base ++ log)
    (by
      rintro u batch data c slot hpack ⟨hu, htrace⟩
      refine ⟨?_, by rw [sent_eq]; exact htrace⟩
      rw [← List.append_assoc]
      exact hu.sent hpack)
    (by
      rintro u batch data - - - ⟨hu, htrace⟩
      exact ⟨hu.of_eq rfl rfl (Or.inr rfl), htrace⟩)
    ht ⟨by rwa [List.append_nil], htrace⟩
  refine ⟨batch, ?_, ?_⟩
  · rw [updateAckTimer_eq]
    simp [htrace']
  · rw [updateAckTimer_eq]
    exact hu.of_eq rfl rfl (Or.inl rfl)

/-- From the datagrams `base` on, the session has been sending the plan; of what it wrote
since, datagrams up to `delivered` have been delivered, and `r` packets taken. -/
def Underway (plan : Plan) (start : SeqNr) (base : List (List Byte)) (delivered r : ℕ)
    (s : Session) : Prop :=
  ∃ log, datagrams s.trace = base ++ log ∧ Sending plan start r log s ∧ s.RingInv [] ∧
    delivered ≤ log.length ∧ r ≤ reached start (log.take delivered)

variable {base : List (List Byte)} {delivered : ℕ}

/-- Writing more keeps what has been delivered. -/
theorem Underway.of_append {s : Session} (news : List (List Byte))
    (htrace : datagrams s.trace = base ++ (log ++ news))
    (hsending : Sending plan start r (log ++ news) s) (hring : s.RingInv [])
    (hdelivered : delivered ≤ log.length) (hr : r ≤ reached start (log.take delivered)) :
    Underway plan start base delivered r s := by
  refine ⟨log ++ news, htrace, hsending, hring, ?_, ?_⟩
  · rw [List.length_append]
    omega
  · rwa [List.take_append_of_le_length hdelivered]

theorem Underway.quiet {s t : Session} (h : Underway plan start base delivered r s)
    (hheld : t.RingInv []) (hring : t.ring = s.ring) (hseq : t.txSeqNr = s.txSeqNr)
    (htransfer : t.transfer = s.transfer) (htrace : t.trace = s.trace) :
    Underway plan start base delivered r t := by
  obtain ⟨log, hlog, hsending, -, hdelivered, hr⟩ := h
  exact ⟨log, by rwa [htrace], hsending.of_eq hring hseq (Or.inl htransfer), hheld, hdelivered, hr⟩

theorem Underway.ringInv {s : Session} (h : Underway plan start base delivered r s) :
    s.RingInv [] := by
  obtain ⟨log, -, -, hring, -⟩ := h
  exact hring

theorem Underway.onPeerAck {s t : Session} (h : Underway plan start base delivered r s)
    {q : SeqNr} (hq : Acknowledges plan start r q) (ht : s.onPeerAck q = .ok t) :
    Underway plan start base delivered r t := by
  have hheld := h.ringInv.onPeerAck ht
  obtain ⟨log, hlog, hsending, hring, hdelivered, hr⟩ := h
  have hsending' := hsending.onAck hring hq
  have hlog' : datagrams (s.onAck q).trace = base ++ log := by
    rwa [trace_onAck]
  rcases onPeerAck_cases ht with ⟨-, ht⟩ | ⟨-, rfl⟩
  · obtain ⟨news, htrace, hsent⟩ := hsending'.handleTransfer base hlog' ht
    exact Underway.of_append news htrace hsent hheld hdelivered hr
  · exact ⟨log, hlog', hsending', hheld, hdelivered, hr⟩

theorem Underway.repeats {s t : Session} (h : Underway plan start base delivered r s)
    (ht : s.Repeats t) : Underway plan start base delivered r t := by
  obtain ⟨log, hlog, hsending, hheld, hdelivered, hr⟩ := h
  obtain ⟨batch, htrace, hbatch⟩ := ht.trace
  refine Underway.of_append batch ?_ ?_ (hheld.repeats ht) hdelivered hr
  · simp [htrace, hlog]
  · exact hsending.again hheld.length_le hbatch ht.ring ht.txSeqNr ht.transfer

/-- Received packets and the timer keep the session sending its plan. -/
theorem Underway.stable (plan : Plan) (start : SeqNr) (base : List (List Byte))
    (delivered r : ℕ) :
    Stable (Underway plan start base delivered r) (Acknowledges plan start r) where
  counters := fun s m _ h => h.quiet h.ringInv rfl rfl rfl rfl
  sendACK := fun s ack h => by
    have hheld := ringInv_invariant.sendACK s ack h.ringInv
    obtain ⟨log, hlog, hsending, -, hdelivered, hr⟩ := h
    obtain ⟨m, -, heq⟩ := sendACK_eq s ack
    rw [heq] at hheld ⊢
    refine Underway.of_append _ ?_ (hsending.control s.txSeqNr
      (if ack then s.rxSeqExpected - 1 else s.rxSeqExpected) ack rfl rfl rfl) hheld hdelivered hr
    simp [hlog, datagrams]
  onPeerAck := fun s t q hq h ht => h.onPeerAck hq ht
  onPeerNack := fun s q h => h.repeats (repeats_onPeerNack s q)
  expire := fun s h => h.quiet h.ringInv rfl rfl rfl rfl
  callback := fun s i h => h.repeats (repeats_runCallback s i)

end Session

end Udpfsd.Udprdma
