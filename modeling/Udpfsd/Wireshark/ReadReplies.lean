import Udpfsd.Fs.Reading
import Udpfsd.Server.Replies
import Udpfsd.Wireshark.Dissector

/-!
# The dissector on the reply to a READ

The reply to a READ or BREAD is a header of eight bytes with the result, followed by the data,
in as many packets as it takes. A capture shows them in order, between frames of other flows
and frames without a payload. The dissector, which takes no packet to have a header, shows the
first one as a message exactly when it takes no read to be answered on the flow and there is
some data, and then the others as raw data.
-/

namespace Udpfsd

open Udprdma (Byte)
open Udpfs

variable {η φ ρ : Type}

/-! ### What is replied -/

/-- The result and the data of a reply to a READ or BREAD: the data with its length, or an
error without data. -/
def IsReadReply (result : ℤ) (data : List Byte) : Prop :=
  (result = data.length ∧ data.length ≤ dataBufferSize) ∨ (result < 0 ∧ data = [])

/-- What `Read` and `Bread` return without an error is a slice of the data buffer. -/
def Udpfs.ReadResult.Fits (r : ReadResult) : Prop :=
  r.err = none → ∃ k : ℕ, r.n = k ∧ r.data = some k ∧ k ≤ dataBufferSize

namespace Fs

variable {P : Platform η φ ρ} {s t : Backend η φ ρ} {f f' : FileHandle φ ρ} {w w' : World η}
  {bytes : List Byte} {err : Option Error} {n : ℕ}

theorem FileHandle.length_read_le (hread : f.read P n w = .ok ((bytes, err), f', w')) :
    bytes.length ≤ n := by
  unfold FileHandle.read at hread
  obtain ⟨⟨⟨bytes', err'⟩, obj, h⟩, hobj, hread⟩ := Fallible.bind_eq_ok.mp hread
  cases hread
  cases hf : f.obj with
  | osFile name file =>
    rw [hf] at hobj
    cases hobj
    exact List.length_take_le _ _
  | cachedReader c =>
    rw [hf] at hobj
    obtain ⟨⟨⟨bytes'', err''⟩, c', h'⟩, -, hobj⟩ := Fallible.bind_eq_ok.mp hobj
    cases hobj
    exact List.length_take_le _ _

namespace Backend

/-- What every body of a method returns holds of what the method returns. -/
theorem withFile_returns {α : Type} {handle : ℤ} {missing a : α} (Q : α → Prop)
    {body : FileHandle φ ρ → World η → Except Fault (α × FileHandle φ ρ × World η)}
    (hmissing : Q missing) (hbody : ∀ f w a f' w', body f w = .ok (a, f', w') → Q a)
    (hok : s.withFile handle missing body = .ok (a, t)) : Q a := by
  obtain ⟨⟨found, s₁⟩, -, hok⟩ := Fallible.bind_eq_ok.mp hok
  cases found with
  | none =>
    cases hok
    exact hmissing
  | some entry =>
    obtain ⟨⟨a', f', w'⟩, hrun, hok⟩ := Fallible.bind_eq_ok.mp hok
    cases hok
    exact hbody _ _ _ _ _ hrun

theorem fits_of_err (e : Error) : (⟨0, none, some e⟩ : ReadResult).Fits := by
  rintro ⟨⟩

theorem fits_readReturns {expected : Error → Prop} [DecidablePred expected]
    (readBuffer : Buffer Byte) (h : bytes.length ≤ dataBufferSize) (err : Option Error) :
    (readReturns expected readBuffer bytes err).1.Fits := by
  rcases readReturns_cases expected readBuffer bytes err with heq | ⟨e, buffer, heq⟩ <;> rw [heq]
  · exact fun _ => ⟨bytes.length, rfl, rfl, h⟩
  · exact fits_of_err e

variable {handle sectorNr : ℤ} {size : BitVec 32} {sectorCount : BitVec 16}
  {readBuffer buffer : Buffer Byte} {r : ReadResult}

theorem read_fits (hok : read P handle size readBuffer s = .ok ((r, buffer), t)) : r.Fits := by
  refine withFile_returns (fun a : ReadResult × Buffer Byte => a.1.Fits) (fits_of_err .invalid)
    ?_ hok
  intro f w a f' w' hrun
  split_ifs at hrun with hlarge
  obtain ⟨⟨⟨bytes, err⟩, f₁, w₁⟩, hread, hrun⟩ := Fallible.bind_eq_ok.mp hrun
  cases hrun
  exact fits_readReturns _ ((FileHandle.length_read_le hread).trans (Nat.le_of_not_lt hlarge)) _

theorem bread_fits (hok : bread P handle sectorNr sectorCount readBuffer s = .ok ((r, buffer), t)) :
    r.Fits := by
  refine withFile_returns (fun a : ReadResult × Buffer Byte => a.1.Fits) (fits_of_err .invalid)
    ?_ hok
  intro f w a f' w' hrun
  unfold breadBody at hrun
  obtain ⟨⟨⟨pos, err⟩, f₀, w₀⟩, hseek⟩ :
      ∃ r, f.seek P (int64 (sectorNr * s.sectorSizeOf handle)) 0 w = r := ⟨_, rfl⟩
  rw [hseek] at hrun
  cases err with
  | some e =>
    cases hrun
    exact fits_of_err e
  | none =>
    simp only at hrun
    split_ifs at hrun with hlarge
    obtain ⟨⟨⟨bytes, err⟩, f₁, w₁⟩, hread, hrun⟩ := Fallible.bind_eq_ok.mp hrun
    cases hrun
    exact fits_readReturns _ ((FileHandle.length_read_le hread).trans (by omega)) _

end Backend

end Fs

namespace Udpfs

open Fs

variable {P : Platform η φ ρ} {s : Backend η φ ρ} {c : Connection} {payload : List Byte}
  {out : Outcome (Backend η φ ρ)}

theorem isReadReply_of_errno {errno : ℤ} (hpos : 0 < errno) (dataBuffer : Buffer Byte) :
    IsReadReply (-errno) (sliceOf dataBuffer none) :=
  .inr ⟨by omega, rfl⟩

/-- The reply that a handler makes of a result that fits. -/
theorem ReadResult.Fits.isReadReply {r : ReadResult} (hfits : r.Fits) (herr : r.err = none)
    (dataBuffer : Buffer Byte) : IsReadReply r.n (sliceOf dataBuffer r.data) ∧
      IsReadReply (r.data.getD 0) (sliceOf dataBuffer r.data) := by
  obtain ⟨k, hn, hdata, hk⟩ := hfits herr
  have hreply : IsReadReply k (sliceOf dataBuffer (some k)) := by
    refine .inl ⟨?_, ?_⟩ <;> rw [sliceOf, Buffer.length_slice]
    exact hk
  rw [hn, hdata]
  exact ⟨hreply, hreply⟩

/-- READ and BREAD. -/
theorem handleReadOp_isReadReply {size : ℕ} {f : ReadResult → ℤ}
    {op : Buffer Byte → Backend η φ ρ → Except Fault ((ReadResult × Buffer Byte) × Backend η φ ρ)}
    (hop : ∀ r buf t, op c.dataBuffer s = .ok ((r, buf), t) → r.Fits)
    (hf : f = ReadResult.n ∨ f = fun r => r.data.getD 0)
    (hok : c.handleReadOp s payload size op f = .ok out) :
    ∃ result data, out.reply = .readResult result data ∧
      IsReadReply result (sliceOf out.conn.dataBuffer data) := by
  unfold Connection.handleReadOp at hok
  split_ifs at hok
  · cases hok
    exact ⟨_, _, rfl, isReadReply_of_errno (by decide) _⟩
  · obtain ⟨⟨⟨r, dataBuffer⟩, t⟩, hread, hok⟩ := Fallible.bind_eq_ok.mp hok
    cases herr : r.err with
    | some e =>
      simp only [herr] at hok
      cases hok
      exact ⟨_, _, rfl, isReadReply_of_errno (errToErrno_pos e) _⟩
    | none =>
      obtain ⟨hn, hlength⟩ := (hop r dataBuffer t hread).isReadReply herr dataBuffer
      simp only [herr] at hok
      cases hok
      rcases hf with rfl | rfl
      · exact ⟨_, _, rfl, hn⟩
      · exact ⟨_, _, rfl, hlength⟩

end Udpfs

namespace Udprdma.Plan

/-- The packets of a plan from one on, in order and each once. -/
def InOrder (plan : Plan) (start : SeqNr) : ℕ → List (List Byte) → Prop
  | i, [] => i = plan.count
  | i, packet :: rest =>
    i < plan.count ∧ plan.IsPacket start i packet ∧ plan.InOrder start (i + 1) rest

end Udprdma.Plan

namespace Wireshark

open Udprdma Fs

variable {κ : Type} [DecidableEq κ]

/-! ### The packets of a reply -/

/-- The packets of the reply to a READ or BREAD. -/
def replyPlan (result : ℤ) (data : List Byte) : Plan :=
  .withHeader (packResultReply result) data (by decide : 0 < 2) (by decide) rfl

/-- A packet is shown as a message. -/
def Shown.IsMessage (shown : Shown) : Prop := ∃ f payload, shown = .data f (.message payload)

/-- A packet is shown as raw data. -/
def Shown.IsRaw (shown : Shown) : Prop := ∃ f payload, shown = .data f (.raw payload)

/-- The first packet of a transfer is shown as a message, and the others as raw data. -/
def Classified : List Shown → Prop
  | [] => False
  | first :: later => first.IsMessage ∧ ∀ shown ∈ later, shown.IsRaw

theorem length_body_le {plan : Plan} {i : ℕ} (hi : i < plan.count) :
    (plan.body i).length ≤ 1408 := by
  have hle := plan.length_payload_le hi
  simp only [maxDataPayload] at hle
  omega

/-- A later packet of a transfer is shown as raw data while a read is being answered. -/
theorem dissect_later {plan : Plan} {start : SeqNr} {i : ℕ} {packet : List Byte} {flow : κ}
    {transferState : κ → Bool} (hpos : 0 < i) (hi : i < plan.count)
    (hpacket : plan.IsPacket start i packet) (hstate : transferState flow = true) :
    (dissect flow transferState packet).1.IsRaw ∧
      (dissect flow transferState packet).2 flow = !plan.isLast i := by
  obtain ⟨seqAck, rfl⟩ := hpacket
  obtain ⟨f, hshown, hnext⟩ := dissect_dataPacket (start + (i : SeqNr)) seqAck (plan.isLast i) flow
    transferState (plan.segmentHeader i) (length_body_le hi) (plan.body_ne_nil hpos hi)
  rw [hstate, if_pos rfl] at hshown
  rw [hstate, Bool.true_or, Bool.and_true] at hnext
  exact ⟨⟨f, _, hshown⟩, hnext⟩

/-- So are all the later packets, as the last one is the only one with a FIN. -/
theorem shownPayloads_later {plan : Plan} {start : SeqNr} {i : ℕ} {packets : List (List Byte)}
    {flow : κ} {transferState : κ → Bool} {capture : List (Frame κ)} (hpos : 0 < i)
    (hcapture : payloadsOf flow capture = packets) (hpackets : plan.InOrder start i packets)
    (hstate : packets ≠ [] → transferState flow = true) :
    ∀ shown ∈ shownPayloads flow transferState capture, shown.IsRaw := by
  induction packets generalizing i capture transferState with
  | nil =>
    rw [shownPayloads_eq_nil flow transferState hcapture]
    exact fun _ h => absurd h List.not_mem_nil
  | cons packet rest ih =>
    obtain ⟨transferState', capture', hsame, hrest, hshown⟩ :=
      shownPayloads_cons flow transferState hcapture
    obtain ⟨hi, hpacket, hlater⟩ := hpackets
    obtain ⟨hraw, hnext⟩ :=
      dissect_later hpos hi hpacket (hsame.trans (hstate (List.cons_ne_nil _ _)))
    rw [hshown, List.forall_mem_cons]
    refine ⟨hraw, ih (Nat.succ_pos i) hrest hlater fun hne => ?_⟩
    obtain ⟨packet', rest', rfl⟩ := List.exists_cons_of_ne_nil hne
    have hnot : plan.isLast i = false := decide_eq_false (Nat.not_le_of_lt hlater.1)
    rw [hnext, hnot]
    rfl

/-- A reply with data in it is seen to announce data, once eight bytes of it are read. -/
theorem announcesData_packResultReply {result : ℤ} (hpos : 0 < result) (hlt : result < 2 ^ 31)
    (rest : List Byte) {n : ℕ} (hn : 8 ≤ n) :
    announcesData ((packResultReply result ++ rest).take n) = true := by
  have htake : (packResultReply result ++ rest).take n =
      packResultReply result ++ rest.take (n - 8) := by
    rw [List.take_append, List.take_of_length_le (by exact hn)]
    rfl
  have hword : uint32 ((packResultReply result ++ rest.take (n - 8)).drop 4) =
      BitVec.ofInt 32 result := uint32_putUint32 _ _
  rw [htake]
  refine decide_eq_true ⟨rfl, ?_, ?_⟩
  · rw [List.length_append]
    exact Nat.le_add_right _ _
  · rw [hword, BitVec.toInt_ofInt, Int.bmod_eq_of_le (by omega) (by omega)]
    exact hpos

section

variable {result : ℤ} {data : List Byte} {start : SeqNr} {packet : List Byte} (flow : κ)
  (transferState : κ → Bool)

theorem length_body_zero :
    ((replyPlan result data).body 0).length = min data.length 1400 := by
  rw [Plan.length_body, Plan.offset_one, Plan.offset_zero]
  rfl

theorem body_zero_ne_nil (hdata : data ≠ []) : (replyPlan result data).body 0 ≠ [] := by
  have hlength := List.length_pos_iff.mpr hdata
  rw [← List.length_pos_iff, length_body_zero]
  omega

/-- When more packets follow, the first one is full. -/
theorem length_body_zero_of_one_lt_count (hmore : 1 < (replyPlan result data).count) :
    ((replyPlan result data).body 0).length = 1400 := by
  have hnot : ¬ (replyPlan result data).data.length ≤ (replyPlan result data).offset 1 :=
    fun hle => absurd (((replyPlan result data).length_le_offset_iff 0).mp hle) (by omega)
  rw [Plan.offset_one] at hnot
  change ¬ data.length ≤ min data.length 1400 at hnot
  rw [length_body_zero]
  omega

/-- The first packet of a reply with data is shown as a message unless a read is being answered,
and then one is if more packets follow. -/
theorem dissect_first (hreply : IsReadReply result data) (hdata : data ≠ [])
    (hpacket : (replyPlan result data).IsPacket start 0 packet) :
    ((dissect flow transferState packet).1.IsMessage ↔ transferState flow = false) ∧
      (1 < (replyPlan result data).count →
        (dissect flow transferState packet).2 flow = true) := by
  obtain ⟨seqAck, rfl⟩ := hpacket
  obtain ⟨f, hshown, hnext⟩ := dissect_dataPacket (start + ((0 : ℕ) : SeqNr)) seqAck
    ((replyPlan result data).isLast 0) flow transferState ((replyPlan result data).segmentHeader 0)
    (length_body_le (replyPlan result data).count_pos) (body_zero_ne_nil hdata)
  refine ⟨?_, fun hmore => ?_⟩
  · rw [hshown]
    cases transferState flow with
    | false => exact ⟨fun _ => rfl, fun _ => ⟨f, _, rfl⟩⟩
    | true =>
      refine ⟨?_, fun h => Bool.noConfusion h⟩
      rintro ⟨f', payload, h⟩
      cases h
  · have hnot : (replyPlan result data).isLast 0 = false :=
      decide_eq_false (Nat.not_le_of_lt hmore)
    obtain ⟨hresult, hle⟩ : result = data.length ∧ data.length ≤ dataBufferSize :=
      hreply.resolve_right fun h => hdata h.2
    have hpos := List.length_pos_iff.mpr hdata
    have hannounces : announcesData ((paddedPayload ((replyPlan result data).segmentHeader 0)
        ((replyPlan result data).body 0)).take
          ((((replyPlan result data).body 0).length + 3) / 4 * 4)) = true := by
      rw [length_body_zero_of_one_lt_count hmore]
      simp only [dataBufferSize] at hle
      exact announcesData_packResultReply (by omega) (by omega) _ (by decide)
    rw [hnext, hnot, hannounces, Bool.or_true]
    rfl

/-- The reply to a READ is classified as it should be if and only if the dissector takes no
read to be answered on the flow and there is data. -/
theorem classified_iff {capture : List (Frame κ)} (hreply : IsReadReply result data)
    (hcapture : (replyPlan result data).InOrder start 0 (payloadsOf flow capture)) :
    Classified (shownPayloads flow transferState capture) ↔
      transferState flow = false ∧ data ≠ [] := by
  obtain ⟨packets, hpackets⟩ : ∃ packets, payloadsOf flow capture = packets := ⟨_, rfl⟩
  rw [hpackets] at hcapture
  cases packets with
  | nil => exact absurd hcapture (Nat.ne_of_lt (replyPlan result data).count_pos)
  | cons packet rest =>
    obtain ⟨transferState', capture', hsame, hrest, hshown⟩ :=
      shownPayloads_cons flow transferState hpackets
    obtain ⟨-, hpacket, hlater⟩ := hcapture
    rw [hshown, ← hsame]
    by_cases hdata : data = []
    · -- Without data the packet is shown as an ACK.
      subst hdata
      obtain ⟨seqAck, rfl⟩ := hpacket
      obtain ⟨f, hcontrol⟩ := dissect_headerPacket (start + ((0 : ℕ) : SeqNr)) seqAck
        ((replyPlan result []).isLast 0) flow transferState' ((replyPlan result []).segmentHeader 0)
      have hbody : (replyPlan result []).body 0 = [] := rfl
      rw [hbody, hcontrol]
      refine ⟨?_, fun h => absurd rfl h.2⟩
      rintro ⟨⟨f', payload, h⟩, -⟩
      cases h
    · obtain ⟨hmessage, hmore⟩ := dissect_first flow transferState' hreply hdata hpacket
      have hraw : ∀ shown ∈ shownPayloads flow (dissect flow transferState' packet).2 capture',
          shown.IsRaw := by
        refine shownPayloads_later Nat.one_pos hrest hlater fun hne => hmore ?_
        obtain ⟨packet', rest', rfl⟩ := List.exists_cons_of_ne_nil hne
        exact hlater.1
      exact ⟨fun h => ⟨hmessage.mp h.1, hdata⟩, fun h => ⟨hmessage.mpr h.1, hraw⟩⟩

end

/-- The reply to every READ and BREAD, in this order of its packets. -/
theorem handlePayload_classified_iff {P : Platform η φ ρ} {s : Backend η φ ρ} {c : Connection}
    {payload : List Byte} {out : Outcome (Backend η φ ρ)}
    (htype : msgType payload = some .readReq ∨ msgType payload = some .breadReq)
    (hok : c.handlePayload (Backend.fs P) s payload = .ok out) :
    ∃ result data, out.reply = .readResult result data ∧
      ∀ (start : SeqNr) (flow : κ) (transferState : κ → Bool) (capture : List (Frame κ)),
        (replyPlan result (sliceOf out.conn.dataBuffer data)).InOrder start 0
          (payloadsOf flow capture) →
        (Classified (shownPayloads flow transferState capture) ↔
          transferState flow = false ∧ sliceOf out.conn.dataBuffer data ≠ []) := by
  obtain ⟨result, data, hreply, hshape⟩ : ∃ result data, out.reply = .readResult result data ∧
      IsReadReply result (sliceOf out.conn.dataBuffer data) := by
    unfold Connection.handlePayload at hok
    rcases htype with htype | htype <;> rw [htype] at hok
    · exact handleReadOp_isReadReply (fun _ _ _ => Backend.read_fits) (.inl rfl) hok
    · exact handleReadOp_isReadReply (fun _ _ _ => Backend.bread_fits) (.inr rfl) hok
  exact ⟨result, data, hreply, fun start flow transferState capture hcapture =>
    classified_iff flow transferState hshape hcapture⟩

/-- The numbers and the payload of a DATA packet are decoded right if and only if the four bits
for the words of the application header are zero; and the reply to a READ or BREAD is shown as
one message and raw data if and only if the dissector takes no read to be answered on its flow
and there is data in it. -/
theorem dissect_udprdma_decodes_iff (P : Platform η φ ρ) :
    (∀ (flow : κ) (transferState : κ → Bool) (d : List Byte), 6 ≤ d.length →
      (uint16 d).setWidth 4 = packetData →
      ∃ f content p, (dissect flow transferState d).1 = .data f content ∧
        parsePacket d = .ok (.ok p) ∧
        (Agrees f ((d.drop 6).take f.payloadLen) p ↔
          (uint32 (d.drop 2) >>> 14).setWidth 4 = 0#4)) ∧
    (∀ (s : Backend η φ ρ) (c : Connection) (payload : List Byte)
      (out : Outcome (Backend η φ ρ)),
      msgType payload = some .readReq ∨ msgType payload = some .breadReq →
      c.handlePayload (Backend.fs P) s payload = .ok out →
      ∃ result data, out.reply = .readResult result data ∧
        ∀ (start : SeqNr) (flow : κ) (transferState : κ → Bool) (capture : List (Frame κ)),
          (replyPlan result (sliceOf out.conn.dataBuffer data)).InOrder start 0
            (payloadsOf flow capture) →
          (Classified (shownPayloads flow transferState capture) ↔
            transferState flow = false ∧ sliceOf out.conn.dataBuffer data ≠ [])) := by
  refine ⟨?_, fun s c payload out htype hok => handlePayload_classified_iff htype hok⟩
  intro flow transferState d hlength htype
  have hparse := parsePacket_eq hlength htype
  refine ⟨_, _, _, congrArg Prod.fst (dissect_data flow transferState hlength htype), hparse, ?_⟩
  exact agrees_iff hlength hparse

/-- Four bytes of a device are read, and the reply is captured. -/
theorem dissect_udprdma_decodes_iff_four_bytes :
    ∃ (s : Backend Host OsFile Host.Image) (out : Outcome _),
      Backend.newBackend Host.platform Host.serveTwoSectors Host.twoSectors 0 = .ok (some s) ∧
      newConnection.handlePayload (Backend.fs Host.platform) s (readDevice [4, 0, 0, 0]) = .ok out ∧
      out.reply = .readResult 4 (some 4) ∧
      Classified (shownPayloads () (fun _ => false)
        [((), dataPacket 1 2 true (packResultReply 4) [1, 1, 1, 1])]) ∧
      ∃ f content p, (dissect () (fun _ => false) (dataPacket 1 2 true [] [1, 1, 1, 1])).1 =
          .data f content ∧
        parsePacket (dataPacket 1 2 true [] [1, 1, 1, 1]) = .ok (.ok p) ∧
        Agrees f (((dataPacket 1 2 true [] [1, 1, 1, 1]).drop 6).take f.payloadLen) p := by
  obtain ⟨hfields, hreplies⟩ := dissect_udprdma_decodes_iff (κ := Unit) Host.platform
  obtain ⟨s, out, hs, hok, hreply, hslice⟩ :
      ∃ (s : Backend Host OsFile Host.Image) (out : Outcome _),
        Backend.newBackend Host.platform Host.serveTwoSectors Host.twoSectors 0 = .ok (some s) ∧
        newConnection.handlePayload (Backend.fs Host.platform) s (readDevice [4, 0, 0, 0]) =
          .ok out ∧
        out.reply = .readResult 4 (some 4) ∧
        sliceOf out.conn.dataBuffer (some 4) = [1, 1, 1, 1] := ⟨_, _, rfl, rfl, rfl, rfl⟩
  refine ⟨s, out, hs, hok, hreply, ?_, ?_⟩
  · obtain ⟨result, data, hreply', hclassified⟩ := hreplies s newConnection _ out (.inl rfl) hok
    cases hreply.symm.trans hreply'
    rw [hslice] at hclassified
    have hcapture : (replyPlan 4 [1, 1, 1, 1]).InOrder 1 0 (payloadsOf ()
        [((), dataPacket 1 2 true (packResultReply 4) [1, 1, 1, 1])]) :=
      ⟨by decide, ⟨2, rfl⟩, rfl⟩
    exact (hclassified 1 () (fun _ => false) _ hcapture).mpr ⟨rfl, by decide⟩
  · obtain ⟨f, content, p, hshown, hparse, hagrees⟩ := hfields () (fun _ => false)
      (dataPacket 1 2 true [] [1, 1, 1, 1]) (by decide) (by decide)
    exact ⟨f, content, p, hshown, hparse, hagrees.mpr (by decide)⟩

/-- The first packet of the reply to a READ of four bytes has two words of header. The dissector
finds none, and takes the header for the whole payload but for the data; and it shows a reply
without data as an ACK. -/
theorem dissect_udprdma_misses_header :
    ∃ f content p, (dissect () (fun _ => false)
        (dataPacket 1 2 true (packResultReply 4) [1, 1, 1, 1])).1 = .data f content ∧
      parsePacket (dataPacket 1 2 true (packResultReply 4) [1, 1, 1, 1]) = .ok (.ok p) ∧
      f.hdrWords = 0 ∧ p.header.hdrWordCount = 2 ∧
      content = .message [0x26, 0, 0, 0] ∧ p.payload = [0x26, 0, 0, 0, 4, 0, 0, 0, 1, 1, 1, 1] ∧
      ¬ Agrees f (((dataPacket 1 2 true (packResultReply 4) [1, 1, 1, 1]).drop 6).take
        f.payloadLen) p ∧
      ¬ Classified (shownPayloads () (fun _ => false)
        [((), dataPacket 1 2 true (packResultReply 0) [])]) := by
  refine ⟨_, _, _, rfl, rfl, rfl, rfl, rfl, rfl, fun hagrees => ?_, ?_⟩
  · exact absurd hagrees.hdrWords (by decide)
  · rintro ⟨⟨f, payload, h⟩, -⟩
    cases h

end Wireshark

end Udpfsd
