import Mathlib.Data.Nat.Notation

/-!
# UDPRDMA packet headers

A DATA packet starts with a two-byte base header (packet type and sequence number)
and a four-byte data header (acknowledged number, flags, application header size and
data size). The fields have 4, 12, 12, 2, 4 and 14 bits; the source masks each of
them to that width wherever it is packed or unpacked, so they are words of it here.
-/

namespace Udpfsd.Udprdma

/-- A byte of a datagram. -/
abbrev Byte := BitVec 8

/-- A twelve-bit sequence number. The source keeps it in a `uint16` and masks the
result of every operation with `0xFFF`. -/
abbrev SeqNr := BitVec 12

/-- `SendWindow`: the number of unacknowledged packets that may be in flight. -/
def sendWindow : ℕ := 8

/-- `MaxDataPayload`: the largest payload of one packet. -/
def maxDataPayload : ℕ := 1408

/-- `FinAckTimeout`, in milliseconds. -/
def finAckTimeout : ℕ := 500

/-- `WindowAckTimeout`, in milliseconds. -/
def windowAckTimeout : ℕ := 100

/-- `MaxRetransmits`: the number of retransmission rounds before giving up. -/
def maxRetransmits : ℕ := 4

/-- `PacketData`, the type of a DATA packet. -/
def packetData : BitVec 4 := 2

/-- `DataFlagACK`. -/
def dataFlagACK : BitVec 2 := 1

/-- `DataFlagFIN`. -/
def dataFlagFIN : BitVec 2 := 2

/-- `headerSize`: the size of the base header. -/
def headerSize : ℕ := 2

/-- `dataHeaderSize`: the size of the data header. -/
def dataHeaderSize : ℕ := 4

/-- `binary.LittleEndian.PutUint16`. -/
def putUint16 (v : BitVec 16) : List Byte := [v.setWidth 8, (v >>> 8).setWidth 8]

/-- `binary.LittleEndian.PutUint32`. -/
def putUint32 (v : BitVec 32) : List Byte :=
  [v.setWidth 8, (v >>> 8).setWidth 8, (v >>> 16).setWidth 8, (v >>> 24).setWidth 8]

/-- `binary.LittleEndian.Uint16` of the first two bytes. -/
def uint16 (b : List Byte) : BitVec 16 :=
  (b.getD 0 0).setWidth 16 ||| (b.getD 1 0).setWidth 16 <<< 8

/-- `binary.LittleEndian.Uint32` of the first four bytes. -/
def uint32 (b : List Byte) : BitVec 32 :=
  (b.getD 0 0).setWidth 32 ||| (b.getD 1 0).setWidth 32 <<< 8 |||
    (b.getD 2 0).setWidth 32 <<< 16 ||| (b.getD 3 0).setWidth 32 <<< 24

/-- The base header. -/
structure Header where
  /-- Discovery, inform or data. -/
  packetType : BitVec 4
  /-- The packet's sequence number. -/
  seqNr : SeqNr
  deriving DecidableEq

/-- `Header.Pack`. -/
def Header.pack (h : Header) : List Byte :=
  putUint16 (h.packetType.setWidth 16 ||| h.seqNr.setWidth 16 <<< 4)

/-- `UnpackHeader`. -/
def unpackHeader (data : List Byte) : Except String Header :=
  if data.length < 2 then .error "header too short"
  else
    let val := uint16 (data.take 2)
    .ok ⟨val.setWidth 4, (val >>> 4).setWidth 12⟩

/-- The data header. -/
structure DataHeader where
  /-- The acknowledged number, or the number asked for by a NACK. -/
  seqNrAck : SeqNr
  /-- The ACK and FIN flags. -/
  flags : BitVec 2
  /-- The size of the application header in four-byte words. -/
  hdrWordCount : BitVec 4
  /-- The size of the data after the application header. -/
  dataByteCount : BitVec 14
  deriving DecidableEq

/-- `DataHeader.Pack`. -/
def DataHeader.pack (d : DataHeader) : List Byte :=
  putUint32 (d.seqNrAck.setWidth 32 ||| d.flags.setWidth 32 <<< 12 |||
    d.hdrWordCount.setWidth 32 <<< 14 ||| d.dataByteCount.setWidth 32 <<< 18)

/-- `UnpackDataHeader`. -/
def unpackDataHeader (data : List Byte) : Except String DataHeader :=
  if data.length < 4 then .error "data header too short"
  else
    let val := uint32 (data.take 4)
    .ok ⟨val.setWidth 12, (val >>> 12).setWidth 2, (val >>> 14).setWidth 4,
      (val >>> 18).setWidth 14⟩

@[simp] theorem Header.length_pack (h : Header) : h.pack.length = headerSize := rfl

@[simp] theorem DataHeader.length_pack (d : DataHeader) : d.pack.length = dataHeaderSize := rfl

/-- Reading back a sixteen-bit word written in little-endian order. -/
theorem uint16_putUint16 (v : BitVec 16) (rest : List Byte) :
    uint16 (putUint16 v ++ rest) = v := by
  ext i hi
  simp [uint16, putUint16]
  grind

/-- Reading back a thirty-two-bit word written in little-endian order. -/
theorem uint32_putUint32 (v : BitVec 32) (rest : List Byte) :
    uint32 (putUint32 v ++ rest) = v := by
  ext i hi
  simp [uint32, putUint32]
  grind

theorem uint16_take (d : List Byte) : uint16 (d.take 2) = uint16 d := by
  simp [uint16, List.getD_eq_getElem?_getD]

theorem uint32_take (d : List Byte) : uint32 (d.take 4) = uint32 d := by
  simp [uint32, List.getD_eq_getElem?_getD]

/-- A word within the first bytes of a list. -/
theorem uint32_drop_take {i n : ℕ} (h : i + 4 ≤ n) (d : List Byte) :
    uint32 ((d.take n).drop i) = uint32 (d.drop i) := by
  rw [List.drop_take, ← uint32_take, List.take_take, Nat.min_eq_left (by omega), uint32_take]

/-- A packed base header is read back unchanged. -/
@[simp] theorem unpackHeader_pack (h : Header) (rest : List Byte) :
    unpackHeader (h.pack ++ rest) = .ok h := by
  have htake : (h.pack ++ rest).take 2 = h.pack ++ [] := by simp [Header.pack, putUint16]
  have hlen : ¬ (h.pack ++ rest).length < 2 := by
    rw [List.length_append, Header.length_pack]
    simp only [headerSize]
    omega
  unfold unpackHeader
  rw [if_neg hlen, htake]
  obtain ⟨packetType, seqNr⟩ := h
  simp only [Header.pack, uint16_putUint16, Except.ok.injEq, Header.mk.injEq]
  constructor
  · ext i hi
    simp
  · ext i hi
    simp
    grind

/-- A packed data header is read back unchanged. -/
@[simp] theorem unpackDataHeader_pack (d : DataHeader) (rest : List Byte) :
    unpackDataHeader (d.pack ++ rest) = .ok d := by
  have htake : (d.pack ++ rest).take 4 = d.pack ++ [] := by simp [DataHeader.pack, putUint32]
  have hlen : ¬ (d.pack ++ rest).length < 4 := by
    rw [List.length_append, DataHeader.length_pack]
    simp only [dataHeaderSize]
    omega
  unfold unpackDataHeader
  rw [if_neg hlen, htake]
  obtain ⟨seqNrAck, flags, hdrWordCount, dataByteCount⟩ := d
  simp only [DataHeader.pack, uint32_putUint32, Except.ok.injEq, DataHeader.mk.injEq]
  refine ⟨?_, ?_, ?_, ?_⟩
  · ext i hi
    simp
  · ext i hi
    simp
    grind
  · ext i hi
    simp
    grind
  · ext i hi
    simp
    grind

end Udpfsd.Udprdma
