import Udpfsd.Udprdma.Session

/-!
# The sending side of a session

Packets are cut lazily from the pending transfer: `handleTransfer` packs chunks into
the ring while the window is open, an acknowledgement discards packets from the ring
and continues the transfer, and a NACK or a timeout writes packets of the ring again.
-/

namespace Udpfsd.Udprdma

/-- The DATA packet `packDataPacket` lays out: both headers, the application header,
the data and zero padding up to a multiple of four bytes. -/
def dataPacket (seq seqAck : SeqNr) (fin : Bool) (header data : List Byte) : List Byte :=
  let padded := (data.length + 3) / 4 * 4
  let flags := if fin then dataFlagACK ||| dataFlagFIN else dataFlagACK
  Header.pack ⟨packetData, seq⟩ ++
    (DataHeader.pack ⟨seqAck, flags, BitVec.ofNat 4 (header.length / 4), BitVec.ofNat 14 padded⟩ ++
      (header ++ (data ++ List.replicate (padded - data.length) 0)))

/-- The packet written by `sendACK`. -/
def controlPacket (seq seqAck : SeqNr) (ack : Bool) : List Byte :=
  Header.pack ⟨packetData, seq⟩ ++
    DataHeader.pack ⟨seqAck, if ack then dataFlagACK else 0, 0, 0⟩

/-- One iteration of the loop of `handleTransfer`: what is packed next, and the offset
of the transfer after it. -/
structure Chunk where
  /-- The application header, on the first packet only. -/
  header : List Byte
  /-- The data bytes of the packet. -/
  body : List Byte
  /-- Whether this is the last packet. -/
  fin : Bool
  /-- The offset behind the chunk. -/
  offset : ℤ

/-- `firstDataMax`: the room for data next to the application header. -/
def Transfer.firstDataMax (t : Transfer) : ℕ :=
  if t.header.length < maxDataPayload ∧ maxDataPayload - t.header.length < t.maxChunk then
    maxDataPayload - t.header.length
  else t.maxChunk

/-- The two branches of the loop body of `handleTransfer` that cut a chunk. `none`
stands for the branch that finds the data exhausted. -/
def Transfer.nextChunk (t : Transfer) (data : List Byte) : Option Chunk :=
  if t.offset = 0 ∧ 0 < t.header.length then
    -- the first packet may carry the header only
    let chunkSize := if data.length < t.firstDataMax then data.length else t.firstDataMax
    some ⟨t.header, data.take chunkSize, data.length ≤ chunkSize, chunkSize⟩
  else if (data.length : ℤ) ≤ t.offset then none
  else
    let chunkSize : ℤ :=
      if (data.length : ℤ) < t.offset + t.maxChunk then data.length - t.offset else t.maxChunk
    some ⟨[], (data.drop t.offset.toNat).take chunkSize.toNat,
      (data.length : ℤ) ≤ t.offset + chunkSize, t.offset + chunkSize⟩

/-- `optimalChunkSize`. The packet counts are quotients rounded up. -/
def optimalChunkSize (totalBytes : ℕ) : ℕ :=
  let packets (maxChunk : ℕ) := (totalBytes + maxChunk - 1) / maxChunk
  ([1024, 1280, 1408].foldl (fun (bestChunk, bestPackets) maxChunk =>
    if packets maxChunk < bestPackets then (maxChunk, packets maxChunk)
    else (bestChunk, bestPackets)) (1408, packets 1408)).1

/-- The loop of `pruneAcked` over the slots in use: the read index after it. -/
def pruneLoop (seqNrAck : SeqNr) : List TxPacket → Fin 2048 → Fin 2048
  | [], i => i
  | p :: ps, i => if (p.seq - seqNrAck - 1).toNat < 2048 then i else pruneLoop seqNrAck ps (i + 1)

/-- The loop of `retransmitFrom` over the slots in use: the batch it collects. -/
def retransmitLoop (fromSeq : SeqNr) : List TxPacket → List (List Byte)
  | [] => []
  | p :: ps =>
    if 2048 ≤ (p.seq - fromSeq).toNat then []
    else if p.seq ≠ fromSeq - 1 then p.bytes :: retransmitLoop fromSeq ps
    else retransmitLoop fromSeq ps

namespace Session

/-- `sendACK`. -/
def sendACK (s : Session) (ack : Bool) : Session :=
  let seqAck := if ack then s.rxSeqExpected - 1 else s.rxSeqExpected
  { s with
    trace := s.trace ++ [.writeTo (controlPacket s.txSeqNr seqAck ack)]
    metrics := { s.metrics with
      packetsTx := s.metrics.packetsTx + 1
      nacks := if ack then s.metrics.nacks else s.metrics.nacks + 1 } }

/-- `writeBatch`, called only with a nonempty batch. -/
def writeBatch (s : Session) (batch : List (List Byte)) : Session :=
  if batch = [] then s else { s with trace := s.trace ++ [.writeBatch batch] }

/-- `packDataPacket`: the packet is laid out over the previous contents of the slot. -/
def packDataPacket (s : Session) (header data : List Byte) (fin : Bool) :
    Except Panic (Session × List Byte) :=
  let hdrSize := header.length
  let dataSize := data.length
  let padded := (dataSize + 3) / 4 * 4
  let flags := if fin then dataFlagACK ||| dataFlagFIN else dataFlagACK
  let size := hdrSize + padded + headerSize + dataHeaderSize
  if txPacketCapacity < size then .error .sliceBounds
  else
    let off := headerSize + dataHeaderSize
    let pkt := (s.txBuffer s.txWriteIndex).data
    let pkt := pkt.copy 0 (Header.pack ⟨packetData, s.txSeqNr⟩)
    let pkt := pkt.copy headerSize (DataHeader.pack
      ⟨s.rxSeqExpected - 1, flags, BitVec.ofNat 4 (hdrSize / 4), BitVec.ofNat 14 padded⟩)
    let pkt := pkt.copy off header
    let pkt := pkt.copy (off + hdrSize) data
    let pkt := if padded ≠ dataSize then
      pkt.fill (off + hdrSize + dataSize) (off + hdrSize + padded) 0 else pkt
    let slot : TxPacket := ⟨pkt, size, s.txSeqNr⟩
    let s := { s with
      txBuffer := Function.update s.txBuffer s.txWriteIndex slot
      txWriteIndex := s.txWriteIndex + 1 }
    if s.txWriteIndex = s.txReadIndex then .error .ringFull
    else
      let s := { s with
        txSeqNr := s.txSeqNr + 1
        metrics.packetsTx := s.metrics.packetsTx + 1 }
      let s := if fin then { s with finPending := true, retransmitAttempts := 0 } else s
      .ok (s, slot.bytes)

/-- The transfer after a chunk has been packed. -/
def advance (s : Session) (c : Chunk) : Session :=
  let s := { s with transfer.offset := c.offset }
  if c.fin then s.clearTransfer else s

/-- The loop of `handleTransfer`. It is entered with more fuel than it can use. -/
def transferLoop : ℕ → Session → List (List Byte) → Except Panic (Session × List (List Byte))
  | 0, s, batch => .ok (s, batch)
  | fuel + 1, s, batch =>
    match s.transfer.data with
    | none => .ok (s, batch)
    | some data =>
      if sendWindow ≤ s.inFlight then .ok (s, batch)
      else
        match s.transfer.nextChunk data with
        | none => .ok (s.clearTransfer, batch)
        | some c => do
          let (s, pkt) ← s.packDataPacket c.header c.body c.fin
          transferLoop fuel (s.advance c) (batch ++ [pkt])

/-- `handleTransfer`. -/
def handleTransfer (s : Session) : Except Panic Session := do
  let (s, batch) ← s.transferLoop (sendWindow + 2) []
  return (s.writeBatch batch).updateAckTimer

/-- `SendData`. -/
def sendData (s : Session) (payload : Option (List Byte)) : Except Panic Session :=
  { s.resetSendState with
    transfer := ⟨[], payload, 0, (payload.getD []).length⟩ }.handleTransfer

/-- `SendRawDataWithHeader`. -/
def sendRawDataWithHeader (s : Session) (header : List Byte) (data : Option (List Byte)) :
    Except Panic Session :=
  { s.resetSendState with
    transfer := ⟨header, data, 0, optimalChunkSize (data.getD []).length⟩ }.handleTransfer

/-- `pruneAcked`. -/
def pruneAcked (s : Session) (seqNrAck : SeqNr) : Session :=
  { s with txReadIndex := pruneLoop seqNrAck s.ring s.txReadIndex }

/-- `retransmitFrom`; also returns the number of packets written. -/
def retransmitFrom (s : Session) (fromSeq : SeqNr) : Session × ℕ :=
  let batch := retransmitLoop fromSeq s.ring
  let s := { s with metrics := { s.metrics with
    packetsTx := s.metrics.packetsTx + batch.length
    retransmits := s.metrics.retransmits + batch.length } }
  (s.writeBatch batch, batch.length)

/-- `onAck`. -/
def onAck (s : Session) (seqNrAck : SeqNr) : Session :=
  if s.txReadIndex = s.txWriteIndex then s
  else
    let lastSent := s.txSeqNr - 1
    if !seqBetween s.txSeqNrAcked seqNrAck lastSent then s
    else
      let s := { s with txSeqNrAcked := seqNrAck }.pruneAcked seqNrAck
      let s := { s with retransmitAttempts := 0 }
      if seqNrAck = lastSent then { s.stopAckTimer with finPending := false }
      else s.updateAckTimer

/-- `onPeerAck`. -/
def onPeerAck (s : Session) (seq : SeqNr) : Except Panic Session :=
  let s := s.onAck seq
  if s.transfer.data.isSome then s.handleTransfer else .ok s

/-- `onPeerNack`. -/
def onPeerNack (s : Session) (seq : SeqNr) : Session :=
  let s := { s with retransmitAttempts := 0 }
  (s.retransmitFrom seq).1.updateAckTimer

/-- `handleAckTimeout`. -/
def handleAckTimeout (s : Session) : Session :=
  let waitingFin := s.finPending
  let waitingWindow := !s.finPending && s.transfer.data.isSome && sendWindow ≤ s.inFlight
  if !waitingFin && !waitingWindow then s.stopAckTimer
  else
    let s := { s with retransmitAttempts := s.retransmitAttempts + 1 }
    let s := (s.retransmitFrom (s.txSeqNrAcked + 1)).1
    if s.retransmitAttempts < maxRetransmits then s.armAckTimer
    else
      let s := if waitingFin then { s with finPending := false } else s.clearTransfer
      { s.stopAckTimer with retransmitAttempts := 0 }

/-- `ackTimerFunc`. -/
def ackTimerFunc (s : Session) : Session :=
  if s.closed ∨ s.ack.ackWaitMode = .none ∨ s.ack.ackTimerExpectSeq ≠ s.ack.ackTimerSeq then s
  else { s with ack.ackWaitMode := .none }.handleAckTimeout

end Session

end Udpfsd.Udprdma
