import Udpfsd.Udpfs.FS
import Udpfsd.Udprdma.Plan
import Udpfsd.Udprdma.RoundTrip

/-!
# The dissector

The Lua dissector decodes the headers of a packet on its own, with masks and shifts, and keeps
for every flow whether a read is being answered. What it computes is compared here with what
the server encodes. Its mask for the number of header words does not reach the field, so that
this number is always zero: the header of a packet is taken for data, and whether a payload
starts with a message is known from the flow alone.
-/

namespace Udpfsd.Wireshark

open Udprdma

/-! ### The packet -/

/-- The numbers that `dissect_udprdma` computes for a DATA packet. -/
structure Fields where
  /-- `seq`. -/
  seq : BitVec 32
  /-- `seq_ack`. -/
  seqAck : BitVec 32
  /-- `flags`. -/
  flags : BitVec 32
  /-- `hdr_words`. -/
  hdrWords : BitVec 32
  /-- `data_len`. -/
  dataLen : BitVec 32

/-- `payload_len`. -/
def Fields.payloadLen (f : Fields) : ℕ := f.hdrWords.toNat * 4 + f.dataLen.toNat

/-- The masks and shifts of the data header. -/
def dataFields (seq dval : BitVec 32) : Fields where
  seq := seq
  seqAck := dval &&& 0xFFF
  flags := (dval &&& 0x3000) >>> 12
  hdrWords := (dval &&& 0x3C00) >>> 14
  dataLen := (dval >>> 18) &&& 0x3FFF

/-- What a payload is shown as. -/
inductive Content
  /-- There is none, the packet is an ACK or NACK. -/
  | control
  /-- It has been cut off. -/
  | truncated
  /-- A UDPFS message. -/
  | message (payload : List Byte)
  /-- Raw data. -/
  | raw (payload : List Byte)
  deriving DecidableEq

/-- What a packet is shown as. -/
inductive Shown
  /-- It is too short for a base header. -/
  | nothing
  /-- DISCOVERY or INFORM, with the service and the reserved word if it is long enough. -/
  | discovery (ptype seq : BitVec 32) (service : Option (BitVec 16 × BitVec 16))
  /-- DATA without a data header. -/
  | truncated (seq : BitVec 32)
  /-- DATA. -/
  | data (fields : Fields) (content : Content)
  /-- Any other type. -/
  | unknown (ptype seq : BitVec 32)

variable {κ : Type} [DecidableEq κ]

/-- The end of `dissect_udprdma`, with `pay_buf` and `transfer_state`. -/
def dissectPayload (flow : κ) (transferState : κ → Bool) (f : Fields) (payBuf : List Byte) :
    Content × (κ → Bool) :=
  if f.payloadLen = 0 then (.control, transferState)
  else if payBuf = [] then (.truncated, transferState)
  else
    let isUdpfsMessage : Bool := 0 < f.hdrWords.toNat || !transferState flow
    let transferState :=
      if isUdpfsMessage ∧ payBuf.getD 0 0 = 0x26 ∧ 8 ≤ payBuf.length ∧
          0 < (uint32 (payBuf.drop 4)).toInt then Function.update transferState flow true
      else transferState
    let transferState :=
      if f.flags &&& 2 ≠ 0 then Function.update transferState flow false else transferState
    (if isUdpfsMessage then .message payBuf else .raw payBuf, transferState)

/-- `dissect_udprdma`. -/
def dissect (flow : κ) (transferState : κ → Bool) (buf : List Byte) : Shown × (κ → Bool) :=
  if buf.length < 2 then (.nothing, transferState)
  else
    let baseVal : BitVec 32 := (uint16 buf).setWidth 32
    let ptype := baseVal &&& 0x0F
    let seq := baseVal >>> 4
    if ptype = 0 ∨ ptype = 1 then
      (.discovery ptype seq
        (if buf.length < 6 then none else some (uint16 (buf.drop 2), uint16 (buf.drop 4))),
        transferState)
    else if ptype = 2 then
      if buf.length < 6 then (.truncated seq, transferState)
      else
        let f := dataFields seq (uint32 (buf.drop 2))
        let (content, transferState) :=
          dissectPayload flow transferState f ((buf.drop 6).take f.payloadLen)
        (.data f content, transferState)
    else (.unknown ptype seq, transferState)

/-! ### The fields -/

theorem toNat_and_mask {w n : ℕ} (v : BitVec w) (h : n ≤ w) :
    (v &&& BitVec.ofNat w (2 ^ n - 1)).toNat = (v.setWidth n).toNat := by
  rw [BitVec.toNat_and, BitVec.toNat_ofNat, BitVec.toNat_setWidth, Nat.mod_eq_of_lt]
  · exact Nat.and_two_pow_sub_one_eq_mod _ _
  · have : 2 ^ n ≤ 2 ^ w := Nat.pow_le_pow_right (by omega) h
    have : 0 < 2 ^ n := Nat.two_pow_pos n
    omega

section DataFields

variable (seq dval : BitVec 32)

/-- The mask of the header words does not reach them. -/
theorem hdrWords_dataFields : (dataFields seq dval).hdrWords = 0 := by
  have hmask : (0x3C00 : BitVec 32) >>> 14 = 0 := by decide
  change (dval &&& 0x3C00) >>> 14 = 0
  rw [BitVec.ushiftRight_and_distrib, hmask]
  exact BitVec.and_zero

theorem seqAck_dataFields : (dataFields seq dval).seqAck.toNat = (dval.setWidth 12).toNat :=
  toNat_and_mask (n := 12) dval (by decide)

theorem flags_dataFields :
    (dataFields seq dval).flags.toNat = ((dval >>> 12).setWidth 2).toNat := by
  have hmask : (0x3000 : BitVec 32) >>> 12 = 3 := by decide
  change ((dval &&& 0x3000) >>> 12).toNat = _
  rw [BitVec.ushiftRight_and_distrib, hmask]
  exact toNat_and_mask (n := 2) _ (by decide)

theorem dataLen_dataFields :
    (dataFields seq dval).dataLen.toNat = ((dval >>> 18).setWidth 14).toNat :=
  toNat_and_mask (n := 14) _ (by decide)

/-- The length of the payload is that of the data. -/
theorem payloadLen_dataFields :
    (dataFields seq dval).payloadLen = ((dval >>> 18).setWidth 14).toNat := by
  unfold Fields.payloadLen
  rw [hdrWords_dataFields, dataLen_dataFields]
  exact Nat.zero_add _

end DataFields

/-! ### What the server reads -/

variable {d : List Byte} {p : Packet}

/-- The data header of a packet, from its word. -/
def dataHeaderOf (dval : BitVec 32) : DataHeader :=
  ⟨dval.setWidth 12, (dval >>> 12).setWidth 2, (dval >>> 14).setWidth 4, (dval >>> 18).setWidth 14⟩

/-- What `ProcessDataPacket` reads from a datagram. -/
theorem parsePacket_eq (hlength : 6 ≤ d.length) (htype : (uint16 d).setWidth 4 = packetData) :
    parsePacket d = .ok (.ok ⟨⟨packetData, (uint16 d >>> 4).setWidth 12⟩,
      dataHeaderOf (uint32 (d.drop 2)),
      (d.drop 6).take ((dataHeaderOf (uint32 (d.drop 2))).hdrWordCount.toNat * 4 +
        (dataHeaderOf (uint32 (d.drop 2))).dataByteCount.toNat)⟩) := by
  have hhdr : unpackHeader d = .ok ⟨packetData, (uint16 d >>> 4).setWidth 12⟩ := by
    unfold unpackHeader
    rw [if_neg (by omega), uint16_take]
    simp only [htype]
  have hdata : unpackDataHeader ((d.drop headerSize).take dataHeaderSize) =
      .ok (dataHeaderOf (uint32 (d.drop 2))) := by
    have hfour : ((d.drop headerSize).take dataHeaderSize).length = 4 := by
      simp only [List.length_take, List.length_drop, headerSize, dataHeaderSize]
      omega
    unfold unpackDataHeader
    rw [if_neg (by omega), List.take_of_length_le (by omega)]
    change (.ok (dataHeaderOf (uint32 ((d.drop 2).take 4))) : Except String DataHeader) = _
    rw [uint32_take]
  unfold parsePacket
  rw [hhdr]
  simp only [ne_eq, not_true_eq_false, if_false]
  rw [if_neg (by simp only [headerSize, dataHeaderSize]; omega), hdata]
  rfl

/-- A packet that is parsed is a DATA packet with both headers. -/
theorem of_parsePacket (hparse : parsePacket d = .ok (.ok p)) :
    6 ≤ d.length ∧ (uint16 d).setWidth 4 = packetData := by
  unfold parsePacket at hparse
  cases hhdr : unpackHeader d with
  | error err =>
    rw [hhdr] at hparse
    cases hparse
  | ok hdr =>
    rw [hhdr] at hparse
    simp only at hparse
    by_cases htype : hdr.packetType = packetData
    · rw [if_neg (by simpa using htype)] at hparse
      by_cases hlength : d.length < headerSize + dataHeaderSize
      · rw [if_pos hlength] at hparse
        cases hparse
      · simp only [headerSize, dataHeaderSize] at hlength
        refine ⟨by omega, ?_⟩
        unfold unpackHeader at hhdr
        rw [if_neg (by omega), uint16_take] at hhdr
        cases hhdr
        exact htype
    · rw [if_pos htype] at hparse
      cases hparse

/-- The type that the dissector reads is that of the base header. -/
theorem ptype_eq (d : List Byte) :
    ((uint16 d).setWidth 32 &&& 0x0F : BitVec 32).toNat = ((uint16 d).setWidth 4).toNat := by
  have hmask := toNat_and_mask (n := 4) ((uint16 d).setWidth 32) (by decide)
  rw [BitVec.setWidth_setWidth_of_le _ (by decide)] at hmask
  exact hmask

/-! ### The agreement of the headers -/

/-- The numbers that the dissector computes for a datagram of type DATA. -/
def fieldsOf (d : List Byte) : Fields :=
  dataFields ((uint16 d).setWidth 32 >>> 4) (uint32 (d.drop 2))

/-- The payload that it cuts out. -/
def payBufOf (d : List Byte) : List Byte := (d.drop 6).take (fieldsOf d).payloadLen

/-- What the dissector shows of a DATA packet and what it keeps. -/
theorem dissect_data (flow : κ) (transferState : κ → Bool) (hlength : 6 ≤ d.length)
    (htype : (uint16 d).setWidth 4 = packetData) :
    dissect flow transferState d =
      (.data (fieldsOf d) (dissectPayload flow transferState (fieldsOf d) (payBufOf d)).1,
        (dissectPayload flow transferState (fieldsOf d) (payBufOf d)).2) := by
  have htwo : ((uint16 d).setWidth 32 &&& 0x0F : BitVec 32) = 2 := by
    apply BitVec.eq_of_toNat_eq
    rw [ptype_eq, htype]
    rfl
  unfold dissect
  rw [if_neg (by omega)]
  simp only [htwo]
  rw [if_neg (by decide), if_pos trivial, if_neg (by omega)]
  rfl

/-- The numbers that the dissector computes and the payload it cuts out are those of the
packet that `ProcessDataPacket` reads. -/
structure Agrees (f : Fields) (payBuf : List Byte) (p : Packet) : Prop where
  /-- The sequence number. -/
  seq : f.seq.toNat = p.hdr.seqNr.toNat
  /-- The acknowledged number. -/
  seqAck : f.seqAck.toNat = p.header.seqNrAck.toNat
  /-- The flags. -/
  flags : f.flags.toNat = p.header.flags.toNat
  /-- The words of the application header. -/
  hdrWords : f.hdrWords.toNat = p.header.hdrWordCount.toNat
  /-- The bytes of the data. -/
  dataLen : f.dataLen.toNat = p.header.dataByteCount.toNat
  /-- The payload. -/
  payload : payBuf = p.payload

theorem payloadLen_fieldsOf (d : List Byte) :
    (fieldsOf d).payloadLen = (dataHeaderOf (uint32 (d.drop 2))).dataByteCount.toNat :=
  payloadLen_dataFields _ _

/-- The dissector agrees with `ProcessDataPacket` if and only if the packet has no application
header. -/
theorem agrees_iff (hlength : 6 ≤ d.length) (hparse : parsePacket d = .ok (.ok p)) :
    Agrees (fieldsOf d) (payBufOf d) p ↔ p.header.hdrWordCount = 0 := by
  obtain ⟨-, htype⟩ := of_parsePacket hparse
  cases (parsePacket_eq hlength htype).symm.trans hparse
  have hwords : (fieldsOf d).hdrWords.toNat = 0 := by
    rw [fieldsOf, hdrWords_dataFields]
    rfl
  constructor
  · intro hagrees
    apply BitVec.eq_of_toNat_eq
    exact hagrees.hdrWords.symm.trans hwords
  · intro hzero
    have hzero' : (dataHeaderOf (uint32 (d.drop 2))).hdrWordCount.toNat = 0 :=
      congrArg BitVec.toNat hzero
    refine ⟨?_, seqAck_dataFields _ _, flags_dataFields _ _, hwords.trans hzero'.symm,
      dataLen_dataFields _ _, ?_⟩
    · change ((uint16 d).setWidth 32 >>> 4).toNat = ((uint16 d >>> 4).setWidth 12).toNat
      have hword := (uint16 d).isLt
      simp only [BitVec.toNat_ushiftRight, BitVec.toNat_setWidth, Nat.shiftRight_eq_div_pow]
      omega
    · rw [payBufOf, payloadLen_fieldsOf]
      simp only [hzero', Nat.zero_mul, Nat.zero_add]

/-! ### The flow -/

/-- Only the payload of a DATA packet changes what is known of a flow. -/
theorem dissect_of_not_data (flow : κ) (transferState : κ → Bool)
    (hd : ¬ (6 ≤ d.length ∧ (uint16 d).setWidth 4 = packetData)) :
    (dissect flow transferState d).2 = transferState := by
  unfold dissect
  by_cases hshort : d.length < 2
  · rw [if_pos hshort]
  rw [if_neg hshort]
  simp only
  by_cases hdiscovery : (uint16 d).setWidth 32 &&& 0x0F = (0 : BitVec 32) ∨
      (uint16 d).setWidth 32 &&& 0x0F = (1 : BitVec 32)
  · rw [if_pos hdiscovery]
  rw [if_neg hdiscovery]
  by_cases hdata : (uint16 d).setWidth 32 &&& 0x0F = (2 : BitVec 32)
  · have htype : (uint16 d).setWidth 4 = packetData := by
      apply BitVec.eq_of_toNat_eq
      rw [← ptype_eq, hdata]
      rfl
    rw [if_pos hdata, if_pos (Nat.lt_of_not_le fun hlength => hd ⟨hlength, htype⟩)]
  · rw [if_neg hdata]

/-- What is known of a flow does not depend on the others. -/
theorem dissect_of_ne {flow flow' : κ} (hne : flow ≠ flow') (transferState : κ → Bool)
    (d : List Byte) : (dissect flow' transferState d).2 flow = transferState flow := by
  by_cases hd : 6 ≤ d.length ∧ (uint16 d).setWidth 4 = packetData
  · rw [dissect_data flow' transferState hd.1 hd.2]
    unfold dissectPayload
    simp only
    split_ifs <;> simp [Function.update_of_ne hne]
  · rw [dissect_of_not_data flow' transferState hd]

/-- Whether a datagram carries a payload, as `ProcessDataPacket` reads it. -/
def carriesPayload (d : List Byte) : Bool :=
  match parsePacket d with
  | .ok (.ok p) => p.payload ≠ []
  | _ => false

/-- A datagram without a payload leaves the flow as it is. -/
theorem dissect_of_not_carriesPayload (flow : κ) (transferState : κ → Bool)
    (hd : ¬ carriesPayload d = true) : (dissect flow transferState d).2 = transferState := by
  by_cases hdata : 6 ≤ d.length ∧ (uint16 d).setWidth 4 = packetData
  · have hparse := parsePacket_eq hdata.1 hdata.2
    simp only [carriesPayload, hparse, decide_eq_true_eq, not_not] at hd
    have hnil : payBufOf d = [] := by
      rw [payBufOf, payloadLen_fieldsOf, List.take_eq_nil_iff]
      rcases List.take_eq_nil_iff.mp hd with hzero | hend
      · exact .inl (by omega)
      · exact .inr hend
    rw [dissect_data flow transferState hdata.1 hdata.2, hnil]
    unfold dissectPayload
    by_cases hzero : (fieldsOf d).payloadLen = 0
    · rw [if_pos hzero]
    · rw [if_neg hzero, if_pos rfl]
  · exact dissect_of_not_data flow transferState hdata

/-- A frame of a capture: the flow and the datagram. -/
abbrev Frame (κ : Type) := κ × List Byte

/-- A frame of this flow that carries a payload. -/
def Frame.isPayloadOf (flow : κ) (frame : Frame κ) : Bool := frame.1 = flow ∧ carriesPayload frame.2

/-- The payload-carrying datagrams of a flow in a capture. -/
def payloadsOf (flow : κ) (capture : List (Frame κ)) : List (List Byte) :=
  (capture.filter (Frame.isPayloadOf flow)).map Prod.snd

/-- What they are shown as when the capture is dissected in frame order. -/
def shownPayloads (flow : κ) : (κ → Bool) → List (Frame κ) → List Shown
  | _, [] => []
  | transferState, frame :: rest =>
    let r := dissect frame.1 transferState frame.2
    if frame.isPayloadOf flow then r.1 :: shownPayloads flow r.2 rest
    else shownPayloads flow r.2 rest

theorem shownPayloads_of_isPayloadOf {flow : κ} {frame : Frame κ}
    (h : frame.isPayloadOf flow = true) (transferState : κ → Bool) (rest : List (Frame κ)) :
    shownPayloads flow transferState (frame :: rest) =
      (dissect frame.1 transferState frame.2).1 ::
        shownPayloads flow (dissect frame.1 transferState frame.2).2 rest :=
  if_pos h

theorem shownPayloads_of_not_isPayloadOf {flow : κ} {frame : Frame κ}
    (h : ¬ frame.isPayloadOf flow = true) (transferState : κ → Bool) (rest : List (Frame κ)) :
    shownPayloads flow transferState (frame :: rest) =
      shownPayloads flow (dissect frame.1 transferState frame.2).2 rest :=
  if_neg h

/-- A frame of another flow, or without a payload, does not change what is known of a flow. -/
theorem dissect_of_not_isPayloadOf {flow : κ} {frame : Frame κ}
    (h : ¬ frame.isPayloadOf flow = true) (transferState : κ → Bool) :
    (dissect frame.1 transferState frame.2).2 flow = transferState flow := by
  by_cases hflow : frame.1 = flow
  · rw [dissect_of_not_carriesPayload]
    intro hcarries
    exact h (by simp [Frame.isPayloadOf, hflow, hcarries])
  · exact dissect_of_ne (Ne.symm hflow) _ _

variable {capture : List (Frame κ)}

theorem shownPayloads_eq_nil (flow : κ) (transferState : κ → Bool)
    (h : payloadsOf flow capture = []) : shownPayloads flow transferState capture = [] := by
  induction capture generalizing transferState with
  | nil => rfl
  | cons frame rest ih =>
    unfold payloadsOf at h
    rw [List.filter_cons] at h
    split_ifs at h with hframe
    · cases h
    · rw [shownPayloads_of_not_isPayloadOf hframe]
      exact ih _ h

/-- The frames before the next payload of the flow leave what is known of it as it is. -/
theorem shownPayloads_cons (flow : κ) (transferState : κ → Bool) {packets : List (List Byte)}
    (h : payloadsOf flow capture = d :: packets) :
    ∃ transferState' rest, transferState' flow = transferState flow ∧
      payloadsOf flow rest = packets ∧
      shownPayloads flow transferState capture =
        (dissect flow transferState' d).1 ::
          shownPayloads flow (dissect flow transferState' d).2 rest := by
  induction capture generalizing transferState with
  | nil => cases h
  | cons frame rest ih =>
    unfold payloadsOf at h
    rw [List.filter_cons] at h
    split_ifs at h with hframe
    · rw [shownPayloads_of_isPayloadOf hframe]
      cases h
      have hflow : frame.1 = flow := by
        unfold Frame.isPayloadOf at hframe
        exact (of_decide_eq_true hframe).1
      rw [hflow]
      exact ⟨transferState, rest, rfl, rfl, rfl⟩
    · rw [shownPayloads_of_not_isPayloadOf hframe]
      obtain ⟨transferState', rest', hstate, hrest, hshown⟩ := ih _ h
      exact ⟨transferState', rest', hstate.trans (dissect_of_not_isPayloadOf hframe _), hrest,
        hshown⟩

/-! ### The packets of the server -/

section Packets

variable (seq seqAck : SeqNr) (fin : Bool) (flow : κ) (transferState : κ → Bool)
  (header : List Byte) {data : List Byte}

/-- What the dissector finds in a packet of the server: no header words, the length of the
padded data, the FIN flag, and as payload that many bytes from the header on. -/
theorem fieldsOf_dataPacket (hdata : data.length ≤ 1408) :
    6 ≤ (dataPacket seq seqAck fin header data).length ∧
      (uint16 (dataPacket seq seqAck fin header data)).setWidth 4 = packetData ∧
      (fieldsOf (dataPacket seq seqAck fin header data)).hdrWords = 0 ∧
      (fieldsOf (dataPacket seq seqAck fin header data)).payloadLen = (data.length + 3) / 4 * 4 ∧
      ((fieldsOf (dataPacket seq seqAck fin header data)).flags &&& 2 ≠ 0 ↔ fin = true) ∧
      payBufOf (dataPacket seq seqAck fin header data) =
        (paddedPayload header data).take ((data.length + 3) / 4 * 4) := by
  have hparse := parsePacket_pack seq ⟨seqAck, if fin then dataFlagACK ||| dataFlagFIN
    else dataFlagACK, BitVec.ofNat 4 (header.length / 4),
    BitVec.ofNat 14 ((data.length + 3) / 4 * 4)⟩ (paddedPayload header data)
  change parsePacket (dataPacket seq seqAck fin header data) = _ at hparse
  have hdrop : (dataPacket seq seqAck fin header data).drop 6 = paddedPayload header data := rfl
  obtain ⟨d, hd⟩ : ∃ d, dataPacket seq seqAck fin header data = d := ⟨_, rfl⟩
  rw [hd] at hparse hdrop ⊢
  obtain ⟨hlength, htype⟩ := of_parsePacket hparse
  have hpacket := (parsePacket_eq hlength htype).symm.trans hparse
  simp only [Except.ok.injEq, Packet.mk.injEq] at hpacket
  obtain ⟨-, hdh, -⟩ := hpacket
  have hlen : (fieldsOf d).payloadLen = (data.length + 3) / 4 * 4 := by
    rw [payloadLen_fieldsOf, hdh]
    simp only [BitVec.toNat_ofNat]
    omega
  have hflags : (fieldsOf d).flags = if fin then 3 else 1 := by
    apply BitVec.eq_of_toNat_eq
    have hword : (fieldsOf d).flags.toNat = (dataHeaderOf (uint32 (d.drop 2))).flags.toNat :=
      flags_dataFields _ _
    rw [hword, hdh]
    cases fin <;> rfl
  refine ⟨hlength, htype, hdrWords_dataFields _ _, hlen, ?_, ?_⟩
  · rw [hflags]
    cases fin <;> decide
  · rw [payBufOf, hdrop, hlen]

/-- Whether a payload that is taken for a message is seen to announce data. -/
def announcesData (payBuf : List Byte) : Bool :=
  payBuf.getD 0 0 = 0x26 ∧ 8 ≤ payBuf.length ∧ 0 < (uint32 (payBuf.drop 4)).toInt

/-- Without header words, a payload is shown as raw data while a read is being answered. -/
theorem dissectPayload_of_hdrWords {f : Fields} {payBuf : List Byte} (hwords : f.hdrWords = 0)
    (hlen : f.payloadLen ≠ 0) (hbuf : payBuf ≠ []) (hfin : f.flags &&& 2 ≠ 0 ↔ fin = true) :
    (dissectPayload flow transferState f payBuf).1 =
        (if transferState flow then .raw payBuf else .message payBuf) ∧
      (dissectPayload flow transferState f payBuf).2 flow =
        (!fin && (transferState flow || announcesData payBuf)) := by
  unfold dissectPayload announcesData
  rw [if_neg hlen, if_neg hbuf]
  simp only [hwords, hfin]
  cases hstate : transferState flow <;> cases fin <;> simp [hstate]
  split_ifs <;> simp_all

theorem take_paddedPayload_ne_nil (hne : data ≠ []) :
    (paddedPayload header data).take ((data.length + 3) / 4 * 4) ≠ [] := by
  have hpos := List.length_pos_iff.mpr hne
  rw [← List.length_pos_iff, List.length_take]
  simp only [paddedPayload, List.length_append]
  omega

/-- A packet of the server with data is shown as raw data while a read is being answered, and
as a message otherwise. -/
theorem dissect_dataPacket (hdata : data.length ≤ 1408) (hne : data ≠ []) :
    ∃ f, (dissect flow transferState (dataPacket seq seqAck fin header data)).1 = .data f
        (if transferState flow then
          .raw ((paddedPayload header data).take ((data.length + 3) / 4 * 4))
        else .message ((paddedPayload header data).take ((data.length + 3) / 4 * 4))) ∧
      (dissect flow transferState (dataPacket seq seqAck fin header data)).2 flow =
        (!fin && (transferState flow ||
          announcesData ((paddedPayload header data).take ((data.length + 3) / 4 * 4)))) := by
  obtain ⟨hlength, htype, hwords, hlen, hfin, hbuf⟩ :=
    fieldsOf_dataPacket seq seqAck fin header hdata
  have hpos := List.length_pos_iff.mpr hne
  have hnonzero : (fieldsOf (dataPacket seq seqAck fin header data)).payloadLen ≠ 0 := by omega
  have hnonempty := take_paddedPayload_ne_nil header hne
  rw [← hbuf] at hnonempty ⊢
  obtain ⟨hshown, hstate⟩ := dissectPayload_of_hdrWords fin flow transferState hwords
    hnonzero hnonempty hfin
  rw [dissect_data flow transferState hlength htype]
  exact ⟨_, congrArg _ hshown, hstate⟩

/-- A packet of the server without data is shown as an ACK. -/
theorem dissect_headerPacket :
    ∃ f, (dissect flow transferState (dataPacket seq seqAck fin header [])).1 =
      .data f .control := by
  have hnil : ([] : List Byte).length ≤ 1408 := Nat.zero_le _
  obtain ⟨hlength, htype, -, hlen, -⟩ := fieldsOf_dataPacket seq seqAck fin header hnil
  rw [dissect_data flow transferState hlength htype]
  have hzero : (fieldsOf (dataPacket seq seqAck fin header [])).payloadLen = 0 := hlen
  refine ⟨fieldsOf (dataPacket seq seqAck fin header []), congrArg (Shown.data _) ?_⟩
  unfold dissectPayload
  rw [if_pos hzero]

end Packets

end Udpfsd.Wireshark
