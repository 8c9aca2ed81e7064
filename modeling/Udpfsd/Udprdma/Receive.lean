import Udpfsd.Base.Transition
import Udpfsd.Udprdma.Transmit

/-!
# The receiving side of a session and its runs

`processDataPacket` parses a datagram and decides from its sequence number whether it
is the next payload, a repetition, a restart of the peer or out of order. The events
of a session are its public operations and the acknowledgement timer.
-/

namespace Udpfsd.Udprdma

/-- A parsed DATA packet: its headers and the payload its sizes announce, cut off at
the end of the datagram. -/
structure Packet where
  /-- The base header. -/
  hdr : Header
  /-- The data header. -/
  header : DataHeader
  /-- The application header and data. -/
  payload : List Byte

/-- Whether the ACK flag is set. -/
def Packet.isAck (p : Packet) : Bool := p.header.flags &&& dataFlagACK ≠ 0

/-- Whether the FIN flag is set. -/
def Packet.isFin (p : Packet) : Bool := p.header.flags &&& dataFlagFIN ≠ 0

/-- The part of `ProcessDataPacket` before the session is touched. The inner error is
the one returned to the caller; slicing a datagram of fewer than six bytes panics. -/
def parsePacket (data : List Byte) : Except Panic (Except String Packet) :=
  match unpackHeader data with
  | .error err => .ok (.error ("invalid header: " ++ err))
  | .ok hdr =>
    if hdr.packetType ≠ packetData then .ok (.error "invalid header: <nil>")
    else if data.length < headerSize + dataHeaderSize then .error .sliceBounds
    else
      match unpackDataHeader ((data.drop headerSize).take dataHeaderSize) with
      | .error err => .ok (.error ("invalid data header: " ++ err))
      | .ok header =>
        let payload := data.drop (headerSize + dataHeaderSize)
        let hdrSize := header.hdrWordCount.toNat * 4
        let payloadSize := hdrSize + header.dataByteCount.toNat
        .ok (.ok ⟨hdr, header, payload.take payloadSize⟩)

/-- A datagram laid out with both headers is parsed back into them. -/
theorem parsePacket_pack (seq : SeqNr) (d : DataHeader) (rest : List Byte) :
    parsePacket (Header.pack ⟨packetData, seq⟩ ++ (d.pack ++ rest)) =
      .ok (.ok ⟨⟨packetData, seq⟩, d,
        rest.take (d.hdrWordCount.toNat * 4 + d.dataByteCount.toNat)⟩) := by
  have hlen : ¬ (Header.pack ⟨packetData, seq⟩ ++ (d.pack ++ rest)).length <
      headerSize + dataHeaderSize := by
    simp only [List.length_append, Header.length_pack, DataHeader.length_pack]
    omega
  have hsecond : ((Header.pack ⟨packetData, seq⟩ ++ (d.pack ++ rest)).drop headerSize).take
      dataHeaderSize = d.pack ++ [] := by
    rw [List.drop_left' (Header.length_pack _), List.take_left' (DataHeader.length_pack _),
      List.append_nil]
  have hrest : (Header.pack ⟨packetData, seq⟩ ++ (d.pack ++ rest)).drop
      (headerSize + dataHeaderSize) = rest := by
    rw [← List.drop_drop, List.drop_left' (Header.length_pack _),
      List.drop_left' (DataHeader.length_pack _)]
  unfold parsePacket
  rw [unpackHeader_pack]
  simp only [ne_eq, not_true_eq_false, if_false]
  rw [if_neg hlen, hsecond, unpackDataHeader_pack, hrest]

namespace Session

/-- Handling of the acknowledged number carried by a packet: `onPeerAck` when the ACK
flag is set. -/
def onPiggybackedAck (s : Session) (p : Packet) : Except Panic Session :=
  if p.isAck then s.onPeerAck p.header.seqNrAck else .ok s

/-- The end of `ProcessDataPacket`, reached by the expected packet and by a restart of
the peer: the payload is acknowledged and returned. -/
def acceptPacket (s : Session) (p : Packet) : Except Panic (Session × Option (List Byte)) := do
  let s := { s with rxSeqExpected := p.hdr.seqNr + 1 }.sendACK true
  let s ← s.onPiggybackedAck p
  return (s, some p.payload)

/-- The part of `ProcessDataPacket` after a DATA packet has been parsed. -/
def processPacket (s : Session) (p : Packet) : Except Panic (Session × Option (List Byte)) :=
  let s := { s with metrics.packetsRx := s.metrics.packetsRx + 1 }
  if p.payload = [] then
    -- control packets: a peer ACK or NACK only
    if p.isAck then do
      let s ← s.onPeerAck p.header.seqNrAck
      return (s, none)
    else
      let s := { s with metrics.peerNACKs := s.metrics.peerNACKs + 1 }
      return (s.onPeerNack p.header.seqNrAck, none)
  else if p.hdr.seqNr ≠ s.rxSeqExpected then
    if p.hdr.seqNr = s.rxSeqExpected - 1 then do
      let s := { s with metrics.unexpectedSeqNrs := s.metrics.unexpectedSeqNrs + 1 }
      let retransmit := s.transfer.data.isSome
      let retransmitFrom := s.txSeqNrAcked + 1
      let s ← (s.sendACK true).onPiggybackedAck p
      return (if retransmit then s.onPeerNack retransmitFrom else s, none)
    else if p.hdr.seqNr = 0 then s.resetSession.acceptPacket p
    else do
      let s := { s with metrics.unexpectedSeqNrs := s.metrics.unexpectedSeqNrs + 1 }
      let s ← (s.sendACK false).onPiggybackedAck p
      return (s, none)
  else s.acceptPacket p

/-- `ProcessDataPacket`: the session after it and what it returns, an error, no
payload or the payload of the packet. -/
def processDataPacket (s : Session) (data : List Byte) :
    Except Panic (Session × Except String (Option (List Byte))) := do
  match ← parsePacket data with
  | .error err => return (s, .error err)
  | .ok p =>
    let (s, payload) ← s.processPacket p
    return (s, .ok payload)

end Session

/-- What can happen to a session. -/
inductive Event
  /-- A call of `SendData`. -/
  | sendData (payload : Option (List Byte))
  /-- A call of `SendRawDataWithHeader`. -/
  | sendRawDataWithHeader (header : List Byte) (data : Option (List Byte))
  /-- A call of `SendACK`. -/
  | sendACK (ack : Bool)
  /-- A datagram of at least six bytes arrives and `ProcessDataPacket` is called. -/
  | packet (data : List Byte)
  /-- The acknowledgement timer expires and its callback is started. -/
  | expire
  /-- The callback at this position among the started ones gets the lock. -/
  | callback (i : ℕ)
  /-- A call of `ResetSession`. -/
  | reset
  /-- A call of `SetResetCallback`. -/
  | setResetCallback
  /-- A call of `Close`. -/
  | close

/-- The events of the server itself: all but the arrival of a datagram and a reset. -/
def Event.isLocal : Event → Bool
  | .packet _ => false
  | .reset => false
  | _ => true

/-- The events that start a transfer. -/
def Event.isSend : Event → Bool
  | .sendData _ => true
  | .sendRawDataWithHeader _ _ => true
  | _ => false

/-- The events that neither process a packet nor start, replace or abandon a transfer. -/
def Event.isQuiet : Event → Bool
  | .sendACK _ => true
  | .expire => true
  | .callback _ => true
  | _ => false

namespace Session

/-- A started callback of the acknowledgement timer gets the lock and runs. -/
def runCallback (s : Session) (i : ℕ) : Session :=
  if i < s.ack.ackTimer.started.length then
    { s with ack.ackTimer.started := s.ack.ackTimer.started.eraseIdx i }.ackTimerFunc
  else s

/-- The effect of one event. The server drops datagrams of fewer than six bytes. -/
def step (s : Session) : Event → Except Panic Session
  | .sendData payload => s.sendData payload
  | .sendRawDataWithHeader header data => s.sendRawDataWithHeader header data
  | .sendACK ack => .ok (s.sendACK ack)
  | .packet data =>
    if data.length < headerSize + dataHeaderSize then .ok s
    else do
      let (s, _) ← s.processDataPacket data
      return s
  | .expire => .ok { s with ack.ackTimer := s.ack.ackTimer.expire }
  | .callback i => .ok (s.runCallback i)
  | .reset => .ok s.resetSession
  | .setResetCallback => .ok s.setResetCallback
  | .close => .ok s.close

/-- The states a session reaches from `NewSession`. -/
def Reachable : Session → Prop :=
  Transition.Reachable (· = newSession) (fun s t => ∃ e, s.step e = .ok t)

end Session

end Udpfsd.Udprdma
