import Udpfsd.Udprdma.Nack

/-!
# Decoding undoes encoding

The headers of a packet are words of bit fields, and every word is one of them. A packet that
`packDataPacket` lays out over an old one is read back by `ProcessDataPacket`: the payload
with its padding and nothing of the old packet, the flags and the acknowledged number.
-/

namespace Udpfsd.Udprdma

/-! ### The words -/

/-- Every sixteen-bit word is a base header. -/
theorem unpackHeader_putUint16 (w : BitVec 16) :
    ∃ h, unpackHeader (putUint16 w) = .ok h ∧ h.pack = putUint16 w := by
  have hword : uint16 ((putUint16 w).take 2) = w := uint16_putUint16 w []
  refine ⟨⟨w.setWidth 4, (w >>> 4).setWidth 12⟩, ?_, ?_⟩
  · unfold unpackHeader
    rw [if_neg (by simp [putUint16]), hword]
  · unfold Header.pack
    congr 1
    ext i hi
    simp
    grind

/-- Every thirty-two-bit word is a data header. -/
theorem unpackDataHeader_putUint32 (w : BitVec 32) :
    ∃ d, unpackDataHeader (putUint32 w) = .ok d ∧ d.pack = putUint32 w := by
  have hword : uint32 ((putUint32 w).take 4) = w := uint32_putUint32 w []
  refine ⟨⟨w.setWidth 12, (w >>> 12).setWidth 2, (w >>> 14).setWidth 4, (w >>> 18).setWidth 14⟩,
    ?_, ?_⟩
  · unfold unpackDataHeader
    rw [if_neg (by simp [putUint32]), hword]
  · unfold DataHeader.pack
    congr 1
    ext i hi
    simp
    grind

/-! ### The packets -/

/-- The payload that a packet carries: the application header, the data and the padding. -/
def paddedPayload (header data : List Byte) : List Byte :=
  header ++ (data ++ List.replicate ((data.length + 3) / 4 * 4 - data.length) 0)

/-- A packet of these sizes is parsed into what it was laid out from. -/
theorem parsePacket_dataPacket (seq seqAck : SeqNr) (fin : Bool) {header data : List Byte} {k : ℕ}
    (hheader : header.length = 4 * k) (hk : k ≤ 15) (hdata : data.length ≤ 1408) :
    ∃ p, parsePacket (dataPacket seq seqAck fin header data) = .ok (.ok p) ∧
      p.hdr = ⟨packetData, seq⟩ ∧ p.header.seqNrAck = seqAck ∧ p.isAck = true ∧ p.isFin = fin ∧
      p.payload = paddedPayload header data := by
  have hwords : (BitVec.ofNat 4 (header.length / 4)).toNat = k := by
    rw [BitVec.toNat_ofNat]
    omega
  have hbytes : (BitVec.ofNat 14 ((data.length + 3) / 4 * 4)).toNat =
      (data.length + 3) / 4 * 4 := by
    rw [BitVec.toNat_ofNat]
    omega
  refine ⟨_, parsePacket_pack _ _ _, rfl, rfl, ?_, ?_, ?_⟩
  · cases fin <;> simp [Packet.isAck, dataFlagACK, dataFlagFIN]
  · cases fin <;> simp [Packet.isFin, dataFlagACK, dataFlagFIN]
  · rw [hwords, hbytes]
    apply List.take_of_length_le
    simp only [List.length_append, List.length_replicate]
    omega

namespace Session

/-- The packet a session expects is accepted, if it is processed at all. -/
theorem processPacket_expected {r r' : Session} {p : Packet} {payload : Option (List Byte)}
    (hpayload : p.payload ≠ []) (hseq : p.hdr.seqNr = r.rxSeqExpected)
    (h : r.processPacket p = .ok (r', payload)) : payload = some p.payload := by
  unfold processPacket at h
  simp only at h
  rw [if_neg hpayload, if_neg (by simpa using hseq)] at h
  obtain ⟨r₁, -, h⟩ := Fallible.bind_eq_ok.mp h
  cases h
  rfl

/-- Decoding a packet undoes encoding it, whatever the slot of the ring held before. A packet is
built as long as the ring has room. A session that expects it returns its payload; one that
has been reached from `NewSession` does return. Every word is read and written back. -/
theorem packet_decode_undoes_encode (s : Session) (header data : List Byte) (fin : Bool) (k : ℕ)
    (hheader : header.length = 4 * k) (hk : k ≤ 15) (hlow : 1 ≤ header.length + data.length)
    (hhigh : header.length + data.length ≤ 1408) :
    ((∃ s' datagram, s.packDataPacket header data fin = .ok (s', datagram)) ↔
      s.txWriteIndex + 1 ≠ s.txReadIndex) ∧
    (∀ s' datagram, s.packDataPacket header data fin = .ok (s', datagram) →
      (∃ p, parsePacket datagram = .ok (.ok p) ∧ p.isAck = true ∧ p.isFin = fin ∧
        p.header.seqNrAck = s.rxSeqExpected - 1) ∧
      ∀ r : Session, r.rxSeqExpected = s.txSeqNr →
        (∀ r' result, r.processDataPacket datagram = .ok (r', result) →
          result = .ok (some (paddedPayload header data))) ∧
        (r.Reachable →
          ∃ r', r.processDataPacket datagram = .ok (r', .ok (some (paddedPayload header data))))) ∧
    (∀ w : BitVec 32, ∃ d, unpackDataHeader (putUint32 w) = .ok d ∧ d.pack = putUint32 w) ∧
    ∀ w : BitVec 16, ∃ h, unpackHeader (putUint16 w) = .ok h ∧ h.pack = putUint16 w := by
  have hfits : header.length + (data.length + 3) / 4 * 4 + 6 ≤ txPacketCapacity := by
    unfold txPacketCapacity
    omega
  refine ⟨?_, ?_, unpackDataHeader_putUint32, unpackHeader_putUint16⟩
  · constructor
    · rintro ⟨s', datagram, hpack⟩
      exact (packDataPacket_ok hpack).2.1
    · exact packDataPacket_isOk fin hfits
  · intro s' datagram hpack
    obtain ⟨-, -, rfl, -⟩ := packDataPacket_ok hpack
    have hdata : data.length ≤ 1408 := by omega
    obtain ⟨p, hparse, hhdr, hack, hisAck, hisFin, hpayload⟩ :=
      parsePacket_dataPacket s.txSeqNr (s.rxSeqExpected - 1) fin hheader hk hdata
    have hne : p.payload ≠ [] := by
      rw [hpayload, ← List.length_pos_iff]
      simp only [paddedPayload, List.length_append]
      omega
    refine ⟨⟨p, hparse, hisAck, hisFin, hack⟩, ?_⟩
    intro r hseq
    have hexpected : p.hdr.seqNr = r.rxSeqExpected := by rw [hhdr, hseq]
    constructor
    · intro r' result hprocess
      obtain ⟨payload, hpacket, rfl⟩ := processPacket_of_processDataPacket hparse hprocess
      rw [processPacket_expected hne hexpected hpacket, hpayload]
    · intro hr
      obtain ⟨r', payload, hprocess⟩ := processPacket_isOk hr p
      rw [processPacket_expected hne hexpected hprocess, hpayload] at hprocess
      exact ⟨r', processDataPacket_eq hparse hprocess⟩

/-- One byte, sent by a new session to a new session. -/
theorem packet_decode_undoes_encode_of_one_byte :
    ∃ s' datagram r', newSession.packDataPacket [] [7] true = .ok (s', datagram) ∧
      newSession.processDataPacket datagram = .ok (r', .ok (some [7, 0, 0, 0])) := by
  obtain ⟨hbuilt, hread, -⟩ := packet_decode_undoes_encode newSession [] [7] true 0 rfl
    (by decide) (by decide) (by decide)
  obtain ⟨s', datagram, hpack⟩ := hbuilt.mpr (by decide)
  obtain ⟨r', hprocess⟩ := ((hread s' datagram hpack).2 newSession rfl).2 (.start rfl)
  exact ⟨s', datagram, r', hpack, hprocess⟩

end Session

end Udpfsd.Udprdma
