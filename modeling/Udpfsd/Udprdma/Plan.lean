import Mathlib.Data.BitVec
import Udpfsd.Udprdma.Progress

/-!
# The packets of a transfer

A transfer is cut lazily, but which bytes its packets carry depends only on its header, its
data and its chunk size. A `Plan` fixes these; the chunk cut next by `handleTransfer` is
the next segment of the plan, and the payloads of the segments put one after the other
are the header, the data and at most three zero bytes.
-/

namespace Udpfsd.Udprdma

/-- What a transfer sends, in the cases the application uses: a header of whole words with
any data, or data that fits into one packet. -/
structure Plan where
  /-- The application header. -/
  header : List Byte
  /-- The data. -/
  data : List Byte
  /-- The chunk size. -/
  maxChunk : ℕ
  /-- The header consists of whole words. -/
  words : 4 ∣ header.length
  /-- Its size fits into the four bits for it. -/
  header_le : header.length ≤ 60
  maxChunk_pos : 0 < maxChunk
  /-- Either everything goes into one packet or chunks have the full size. -/
  sizes : (header = [] ∧ data ≠ [] ∧ data.length ≤ maxChunk ∧ maxChunk ≤ maxDataPayload) ∨
    (header ≠ [] ∧ maxChunk = maxDataPayload)

namespace Plan

theorem sizes_single {payload : List Byte} (nonempty : payload ≠ [])
    (fits : payload.length ≤ maxDataPayload) :
    (([] : List Byte) = [] ∧ payload ≠ [] ∧ payload.length ≤ payload.length ∧
        payload.length ≤ maxDataPayload) ∨
      (([] : List Byte) ≠ [] ∧ payload.length = maxDataPayload) :=
  Or.inl ⟨rfl, nonempty, Nat.le_refl _, fits⟩

/-- The plan of a payload that fits into one packet. -/
def single (payload : List Byte) (nonempty : payload ≠ [])
    (fits : payload.length ≤ maxDataPayload) : Plan :=
  ⟨[], payload, payload.length, dvd_zero 4, Nat.zero_le 60, List.length_pos_iff.mpr nonempty,
    sizes_single nonempty fits⟩

variable {header : List Byte} {words : ℕ}

theorem sizes_withHeader (data : List Byte) (pos : 0 < words)
    (length_eq : header.length = 4 * words) :
    (header = [] ∧ data ≠ [] ∧ data.length ≤ maxDataPayload ∧ maxDataPayload ≤ maxDataPayload) ∨
      (header ≠ [] ∧ maxDataPayload = maxDataPayload) := by
  refine Or.inr ⟨?_, rfl⟩
  rintro rfl
  rw [List.length_nil] at length_eq
  omega

/-- The plan of a header of up to fifteen words and any data. -/
def withHeader (header data : List Byte) {words : ℕ} (pos : 0 < words) (le : words ≤ 15)
    (length_eq : header.length = 4 * words) : Plan :=
  ⟨header, data, maxDataPayload, ⟨words, length_eq⟩, by omega, Nat.succ_pos 1407,
    sizes_withHeader data pos length_eq⟩

variable (plan : Plan)

/-- The number of data bytes in the first packet, if there are that many. -/
def first : ℕ := if plan.header = [] then plan.maxChunk else maxDataPayload - plan.header.length

/-- How much of the data has been sent after a number of packets. -/
def offset : ℕ → ℕ
  | 0 => 0
  | i + 1 => min plan.data.length (plan.first + i * plan.maxChunk)

/-- The number of packets. -/
def count : ℕ := (plan.data.length - plan.first + plan.maxChunk - 1) / plan.maxChunk + 1

/-- The header of a packet. -/
def segmentHeader (i : ℕ) : List Byte := if i = 0 then plan.header else []

/-- The data of a packet. -/
def body (i : ℕ) : List Byte := (plan.data.take (plan.offset (i + 1))).drop (plan.offset i)

/-- Whether a packet is the last one. -/
def isLast (i : ℕ) : Bool := plan.count ≤ i + 1

/-- The payload of a packet: its header, its data and padding to whole words. -/
def payload (i : ℕ) : List Byte :=
  plan.segmentHeader i ++ (plan.body i ++
    List.replicate (((plan.body i).length + 3) / 4 * 4 - (plan.body i).length) 0)

/-- The packet is the one with index `i` of the transfer whose first packet is numbered
`start`. The acknowledgement in it depends on when it was packed. -/
def IsPacket (start : SeqNr) (i : ℕ) (packet : List Byte) : Prop :=
  ∃ seqAck, packet = dataPacket (start + (i : SeqNr)) seqAck (plan.isLast i)
    (plan.segmentHeader i) (plan.body i)

theorem first_pos : 0 < plan.first := by
  have hmax := plan.maxChunk_pos
  have hheader := plan.header_le
  unfold first
  split_ifs
  · exact hmax
  · simp only [maxDataPayload]
    omega

theorem offset_zero : plan.offset 0 = 0 := rfl

theorem offset_one : plan.offset 1 = min plan.data.length plan.first := by
  simp [offset]

theorem length_le_offset_iff (i : ℕ) :
    plan.data.length ≤ plan.offset (i + 1) ↔ plan.count ≤ i + 1 := by
  have hpos := plan.maxChunk_pos
  have hdiv : (plan.data.length - plan.first + plan.maxChunk - 1) / plan.maxChunk ≤ i ↔
      plan.data.length - plan.first ≤ plan.maxChunk * i := by
    rw [Nat.div_le_iff_le_mul_add_pred hpos]
    omega
  rw [offset, count, Nat.add_le_add_iff_right, hdiv, Nat.mul_comm plan.maxChunk i]
  omega

theorem isLast_iff (i : ℕ) : plan.isLast i = true ↔ plan.data.length ≤ plan.offset (i + 1) := by
  rw [length_le_offset_iff, isLast, decide_eq_true_eq]

theorem count_pos : 0 < plan.count := Nat.succ_pos _

/-- Inside the transfer the offset has not reached the end of the data. -/
theorem offset_lt {n : ℕ} (hpos : 0 < n) (hn : n < plan.count) :
    plan.offset n < plan.data.length ∧
      plan.offset n = plan.first + (n - 1) * plan.maxChunk := by
  obtain ⟨i, rfl⟩ : ∃ i, n = i + 1 := ⟨n - 1, by omega⟩
  have hnot := (not_congr (plan.length_le_offset_iff i)).mpr (by omega)
  rw [offset] at hnot ⊢
  simp only [Nat.add_sub_cancel]
  omega

theorem offset_mono (i : ℕ) : plan.offset i ≤ plan.offset (i + 1) := by
  cases i with
  | zero => exact Nat.zero_le _
  | succ i =>
    have hmul : i * plan.maxChunk ≤ (i + 1) * plan.maxChunk :=
      Nat.mul_le_mul_right _ (Nat.le_succ i)
    simp only [offset]
    omega

theorem offset_le (i : ℕ) : plan.offset i ≤ plan.data.length := by
  cases i with
  | zero => exact Nat.zero_le _
  | succ i => exact Nat.min_le_left _ _

theorem length_body (i : ℕ) : (plan.body i).length = plan.offset (i + 1) - plan.offset i := by
  have hle := plan.offset_le (i + 1)
  rw [body, List.length_drop, List.length_take]
  omega

/-- The state of the transfer after `n` packets. -/
structure At (t : Transfer) (n : ℕ) : Prop where
  header : t.header = plan.header
  maxChunk : t.maxChunk = plan.maxChunk
  offset : t.offset = plan.offset n
  inside : n < plan.count

variable {plan}

/-- The chunk cut next is the next segment of the plan. -/
theorem At.nextChunk_eq {t : Transfer} {n : ℕ} (h : plan.At t n) :
    t.nextChunk plan.data =
      some ⟨plan.segmentHeader n, plan.body n, plan.isLast n, plan.offset (n + 1)⟩ := by
  have hfin : plan.isLast n = decide (plan.data.length ≤ plan.offset (n + 1)) := by
    rw [Bool.eq_iff_iff, isLast_iff, decide_eq_true_eq]
  have hbody : plan.body n = (plan.data.drop (plan.offset n)).take
      (plan.offset (n + 1) - plan.offset n) := by
    rw [body, List.drop_take]
  have hmono := plan.offset_mono n
  have hpos := plan.maxChunk_pos
  unfold Transfer.nextChunk
  by_cases hfirst : n = 0 ∧ plan.header ≠ []
  · -- the first packet carries the header
    obtain ⟨rfl, hheader⟩ := hfirst
    have hmax : t.firstDataMax = plan.first := by
      have hle := plan.header_le
      have hlen := List.length_pos_iff.mpr hheader
      obtain ⟨hnil, -⟩ | ⟨-, hmax⟩ := plan.sizes
      · exact absurd hnil hheader
      · unfold Transfer.firstDataMax first
        rw [h.header, h.maxChunk, if_neg hheader, hmax, if_pos]
        simp only [maxDataPayload]
        omega
    have hsize : (if plan.data.length < plan.first then plan.data.length else plan.first) =
        plan.offset 1 := by
      rw [offset_one]
      split_ifs <;> omega
    rw [if_pos ⟨h.offset, by rw [h.header]; exact List.length_pos_iff.mpr hheader⟩]
    simp only [hmax, hsize, hfin, hbody, h.header, segmentHeader, if_true, Plan.offset_zero,
      List.drop_zero, Nat.sub_zero, Nat.zero_add]
  · have hinside : plan.offset n < plan.data.length := by
      by_cases hzero : n = 0
      · obtain ⟨-, hdata, -⟩ | ⟨hheader, -⟩ := plan.sizes
        · simpa [hzero, Plan.offset] using List.length_pos_iff.mpr hdata
        · exact absurd ⟨hzero, hheader⟩ hfirst
      · exact (plan.offset_lt (Nat.pos_of_ne_zero hzero) h.inside).1
    have hnext : plan.offset (n + 1) = min plan.data.length (plan.offset n + plan.maxChunk) := by
      by_cases hzero : n = 0
      · have hheader : plan.header = [] := by
          by_contra hheader
          exact hfirst ⟨hzero, hheader⟩
        simp [hzero, Plan.offset_one, Plan.offset_zero, first, hheader]
      · rw [(plan.offset_lt (Nat.pos_of_ne_zero hzero) h.inside).2, Plan.offset]
        obtain ⟨i, rfl⟩ : ∃ i, n = i + 1 := ⟨n - 1, by omega⟩
        rw [Nat.add_sub_cancel, Nat.succ_mul, Nat.add_assoc]
    have hlater : ¬ (t.offset = 0 ∧ 0 < t.header.length) := by
      rintro ⟨hzero, hlen⟩
      rw [h.header, List.length_pos_iff] at hlen
      rw [h.offset] at hzero
      have hn : n ≠ 0 := fun hn => hfirst ⟨hn, hlen⟩
      have hoffset := (plan.offset_lt (Nat.pos_of_ne_zero hn) h.inside).2
      have hfirst := plan.first_pos
      omega
    have hheader : plan.segmentHeader n = [] := by
      unfold segmentHeader
      split_ifs with hzero
      · by_contra hheader
        exact hfirst ⟨hzero, hheader⟩
      · rfl
    rw [if_neg hlater, if_neg (by rw [h.offset]; omega), h.offset, h.maxChunk]
    have hsize : (if (plan.data.length : ℤ) < plan.offset n + plan.maxChunk then
        (plan.data.length : ℤ) - plan.offset n else plan.maxChunk) =
        ((plan.offset (n + 1) - plan.offset n : ℕ) : ℤ) := by
      split_ifs <;> omega
    have hend : (plan.offset n : ℤ) + ((plan.offset (n + 1) - plan.offset n : ℕ) : ℤ) =
        plan.offset (n + 1) := by omega
    simp only [hsize, hend, hheader, hbody, hfin, Int.toNat_natCast, Int.ofNat_le]

variable (plan)

/-- The number of zero bytes behind the data. -/
def padding : ℕ := (plan.data.length + 3) / 4 * 4 - plan.data.length

theorem padding_lt : plan.padding < 4 := by
  unfold padding
  omega

/-- A transfer of several packets has a header and chunks of full size. -/
theorem full_of_one_lt_count (h : 1 < plan.count) :
    plan.header ≠ [] ∧ plan.maxChunk = maxDataPayload := by
  obtain ⟨hheader, -, hone, -⟩ | hfull := plan.sizes
  · have hlast := (plan.length_le_offset_iff 0).mp (by
      rw [Nat.zero_add, offset_one, first, if_pos hheader]
      omega)
    omega
  · exact hfull

theorem four_dvd_offset {i : ℕ} (hi : i < plan.count) : 4 ∣ plan.offset i := by
  by_cases hzero : i = 0
  · simp [hzero, offset_zero]
  · obtain ⟨hheader, hmax⟩ := plan.full_of_one_lt_count (by omega)
    rw [(plan.offset_lt (Nat.pos_of_ne_zero hzero) hi).2, first, if_neg hheader, hmax]
    have hwords := plan.words
    have hle := plan.header_le
    simp only [maxDataPayload]
    omega

/-- Only the last packet is padded. -/
theorem padding_body {i : ℕ} (hi : i < plan.count) :
    ((plan.body i).length + 3) / 4 * 4 - (plan.body i).length =
      if plan.isLast i then plan.padding else 0 := by
  have hoffset := plan.four_dvd_offset hi
  have hmono := plan.offset_mono i
  rw [length_body]
  split_ifs with hlast
  · have hend : plan.offset (i + 1) = plan.data.length :=
      Nat.le_antisymm (plan.offset_le _) ((plan.isLast_iff i).mp hlast)
    rw [hend] at hmono ⊢
    unfold padding
    omega
  · have hnext : i + 1 < plan.count := by
      unfold isLast at hlast
      rw [decide_eq_true_eq] at hlast
      omega
    have hoffset' := plan.four_dvd_offset hnext
    omega

theorem take_offset_append_body (i : ℕ) :
    plan.data.take (plan.offset i) ++ plan.body i = plan.data.take (plan.offset (i + 1)) := by
  have hmono := plan.offset_mono i
  have htake : plan.data.take (plan.offset i) =
      (plan.data.take (plan.offset (i + 1))).take (plan.offset i) := by
    rw [List.take_take, Nat.min_eq_left hmono]
  rw [htake, body, List.take_append_drop]

/-- The payloads of the first packets are a first part of what is sent. -/
theorem flatMap_payload {r : ℕ} (hpos : 0 < r) (hr : r ≤ plan.count) :
    (List.range r).flatMap plan.payload =
      plan.header ++ (plan.data.take (plan.offset r) ++
        List.replicate (if r = plan.count then plan.padding else 0) 0) := by
  have hlast : ∀ i, i < plan.count → (plan.isLast i = true ↔ i + 1 = plan.count) := by
    intro i hi
    rw [isLast, decide_eq_true_eq]
    omega
  induction r with
  | zero => omega
  | succ r ih =>
    have hpay : plan.payload r = plan.segmentHeader r ++ (plan.body r ++
        List.replicate (if r + 1 = plan.count then plan.padding else 0) 0) := by
      rw [payload, plan.padding_body (by omega)]
      simp only [hlast r (by omega)]
    rw [List.range_succ, List.flatMap_append, List.flatMap_singleton, hpay]
    by_cases hzero : r = 0
    · subst hzero
      have hbody := plan.take_offset_append_body 0
      rw [offset_zero, List.take_zero, List.nil_append] at hbody
      simp [segmentHeader, hbody]
    · rw [ih (by omega) (by omega), if_neg (by omega : ¬ r = plan.count),
        ← plan.take_offset_append_body r]
      simp [segmentHeader, hzero]

theorem body_ne_nil {i : ℕ} (hpos : 0 < i) (hi : i < plan.count) : plan.body i ≠ [] := by
  obtain ⟨hlt, heq⟩ := plan.offset_lt hpos hi
  have hmax := plan.maxChunk_pos
  have hlen : 0 < (plan.body i).length := by
    obtain ⟨k, rfl⟩ : ∃ k, i = k + 1 := ⟨i - 1, by omega⟩
    rw [length_body, Plan.offset, Nat.succ_mul]
    rw [Nat.add_sub_cancel] at heq
    omega
  exact List.length_pos_iff.mp hlen

theorem payload_ne_nil {i : ℕ} (hi : i < plan.count) : plan.payload i ≠ [] := by
  by_cases hzero : i = 0
  · subst hzero
    obtain ⟨-, hdata, -⟩ | ⟨hheader, -⟩ := plan.sizes
    · have hbody : 0 < (plan.body 0).length := by
        have hlen := List.length_pos_iff.mpr hdata
        have hfirst := plan.first_pos
        rw [length_body, offset_one, offset_zero]
        omega
      simp [payload, List.length_pos_iff.mp hbody]
    · simp [payload, segmentHeader, hheader]
  · simp [payload, plan.body_ne_nil (Nat.pos_of_ne_zero hzero) hi]

/-- A packet fits into the maximal payload. -/
theorem length_payload_le {i : ℕ} (hi : i < plan.count) :
    (plan.segmentHeader i).length + ((plan.body i).length + 3) / 4 * 4 ≤ maxDataPayload := by
  have hwords := plan.words
  have hheader := plan.header_le
  have hmax : plan.maxChunk ≤ maxDataPayload := by
    obtain ⟨-, -, -, hle⟩ | ⟨-, heq⟩ := plan.sizes
    · exact hle
    · exact Nat.le_of_eq heq
  rw [length_body]
  by_cases hzero : i = 0
  · subst hzero
    have hfirst : (plan.segmentHeader 0).length + (plan.first + 3) / 4 * 4 ≤ maxDataPayload := by
      unfold segmentHeader first
      rw [if_pos rfl]
      split_ifs with hnil
      · simp only [hnil, List.length_nil, maxDataPayload] at hmax ⊢
        omega
      · simp only [maxDataPayload]
        omega
    rw [offset_zero, offset_one]
    omega
  · obtain ⟨k, rfl⟩ : ∃ k, i = k + 1 := ⟨i - 1, by omega⟩
    have hoffset : plan.offset (k + 1) = plan.first + k * plan.maxChunk :=
      (plan.offset_lt (Nat.succ_pos k) hi).2
    have hheader : (plan.segmentHeader (k + 1)).length = 0 := by simp [segmentHeader]
    have hnext : plan.offset (k + 1 + 1) ≤ plan.first + (k * plan.maxChunk + plan.maxChunk) := by
      rw [Plan.offset, Nat.succ_mul]
      exact Nat.min_le_right _ _
    rw [hheader]
    simp only [maxDataPayload] at hmax ⊢
    omega

variable {plan}

/-- A packet of the plan is parsed into its number, its payload and its FIN flag. -/
theorem IsPacket.parse {start : SeqNr} {i : ℕ} {packet : List Byte}
    (h : plan.IsPacket start i packet) (hi : i < plan.count) :
    ∃ p, parsePacket packet = .ok (.ok p) ∧ p.hdr.seqNr = start + (i : SeqNr) ∧
      p.payload = plan.payload i ∧ p.isFin = plan.isLast i := by
  obtain ⟨seqAck, rfl⟩ := h
  have hsize := plan.length_payload_le hi
  have hheader : (plan.segmentHeader i).length / 4 < 16 ∧ 4 ∣ (plan.segmentHeader i).length := by
    have hle := plan.header_le
    have hwords := plan.words
    unfold segmentHeader
    split_ifs
    · omega
    · simp
  have htake : (BitVec.ofNat 4 ((plan.segmentHeader i).length / 4)).toNat * 4 +
      (BitVec.ofNat 14 (((plan.body i).length + 3) / 4 * 4)).toNat = (plan.payload i).length := by
    simp only [maxDataPayload] at hsize
    rw [BitVec.toNat_ofNat, BitVec.toNat_ofNat, Nat.mod_eq_of_lt (by omega),
      Nat.mod_eq_of_lt (by omega)]
    simp only [payload, List.length_append, List.length_replicate]
    omega
  refine ⟨_, parsePacket_pack _ _ _, rfl, ?_, ?_⟩
  · simp only [htake]
    exact List.take_length
  · simp only [Packet.isFin]
    cases plan.isLast i <;> simp [dataFlagACK, dataFlagFIN]

theorem IsPacket.length_le {start : SeqNr} {i : ℕ} {packet : List Byte}
    (h : plan.IsPacket start i packet) (hi : i < plan.count) :
    packet.length ≤ headerSize + dataHeaderSize + maxDataPayload := by
  obtain ⟨seqAck, rfl⟩ := h
  have hsize := plan.length_payload_le hi
  simp only [dataPacket, List.length_append, Header.length_pack, DataHeader.length_pack,
    List.length_replicate]
  omega

end Plan

end Udpfsd.Udprdma
