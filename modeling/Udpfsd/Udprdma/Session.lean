import Udpfsd.Base.Buffer
import Udpfsd.Base.CircularBuffer
import Udpfsd.Udprdma.Protocol

/-!
# The state of a UDPRDMA session

A session owns a ring of sent packets for retransmission, at most one outgoing
transfer, three sequence numbers and one acknowledgement timer. What the session
hands to its `writeTo` and `writeBatch` functions, and each call of the reset
callback, is recorded in `trace` in order.
-/

namespace Udpfsd.Udprdma

/-- `ackWaitMode`: what the acknowledgement timer is waiting for. -/
inductive AckWaitMode
  /-- `ackWaitNone`. -/
  | none
  /-- `ackWaitWindow`. -/
  | window
  /-- `ackWaitFin`. -/
  | fin
  deriving DecidableEq

/-- A `time.Timer` made by `time.AfterFunc`. Each call of `Reset` is an arming of
the timer; when an arming expires its callback is started, and a callback that has
started is not cancelled by `Stop` or `Reset`. -/
structure Timer where
  /-- The duration in milliseconds of the pending arming, if there is one. -/
  active : Option ℕ
  /-- The number of armings so far, which numbers the pending one. -/
  resets : ℕ
  /-- The armings whose callback has started and has not yet run. -/
  started : List ℕ

/-- `Timer.Stop`. -/
def Timer.stop (t : Timer) : Timer := { t with active := none }

/-- `Timer.Reset`. -/
def Timer.reset (t : Timer) (d : ℕ) : Timer :=
  { t with active := some d, resets := t.resets + 1 }

/-- The pending arming expires and its callback is started. -/
def Timer.expire (t : Timer) : Timer :=
  match t.active with
  | none => t
  | some _ => { t with active := none, started := t.started ++ [t.resets] }

/-- The fields of `Session` that track the acknowledgement timer. -/
structure AckTimer where
  /-- The single reusable timer. -/
  ackTimer : Timer
  /-- The value of `ackTimerSeq` at the last arming. -/
  ackTimerExpectSeq : BitVec 16
  /-- Incremented on every arming and stopping. -/
  ackTimerSeq : BitVec 16
  /-- What is being waited for. -/
  ackWaitMode : AckWaitMode

/-- `armAckTimer`, which reads nothing of the session but `finPending`. Waiting
already in the wanted mode leaves the timer running. -/
def AckTimer.arm (a : AckTimer) (finPending : Bool) : AckTimer :=
  let d := if finPending then finAckTimeout else windowAckTimeout
  let mode := if finPending then AckWaitMode.fin else AckWaitMode.window
  if a.ackWaitMode = mode then a
  else
    { ackTimer := a.ackTimer.stop.reset d
      ackTimerSeq := a.ackTimerSeq + 1
      ackTimerExpectSeq := a.ackTimerSeq + 1
      ackWaitMode := mode }

/-- `stopAckTimer`. -/
def AckTimer.stop (a : AckTimer) : AckTimer :=
  { a with
    ackTimerSeq := a.ackTimerSeq + 1
    ackWaitMode := .none
    ackTimer := a.ackTimer.stop }

/-- `metricContainer`. -/
structure MetricContainer where
  /-- Datagrams written. -/
  packetsTx : ℕ
  /-- DATA packets received. -/
  packetsRx : ℕ
  /-- Packets written again. -/
  retransmits : ℕ
  /-- NACKs written. -/
  nacks : ℕ
  /-- Payload packets received out of sequence, peer resets excepted. -/
  unexpectedSeqNrs : ℕ
  /-- NACKs received. -/
  peerNACKs : ℕ
  /-- Calls of `ResetSession`. -/
  peerResets : ℕ

/-- `txPacket`: a slot of the ring. Its buffer of 1500 bytes is allocated once;
`size` is the length to which it was last sliced. -/
structure TxPacket where
  /-- The slot's memory. -/
  data : Buffer Byte
  /-- The length of the packet in it. -/
  size : ℕ
  /-- The packet's sequence number. -/
  seq : SeqNr

/-- The packet held by a slot. -/
def TxPacket.bytes (p : TxPacket) : List Byte := p.data.slice p.size

/-- The capacity of a slot's buffer. -/
def txPacketCapacity : ℕ := 1500

/-- The ring has slots. -/
instance ringSize_neZero : NeZero 2048 := ⟨Nat.succ_ne_zero 2047⟩

/-- `transfer`: the outgoing multi-packet send. -/
structure Transfer where
  /-- The application header, sent in the first packet. -/
  header : List Byte
  /-- The data, or `none` for the nil slice when no transfer is pending. -/
  data : Option (List Byte)
  /-- How much of the data has been packed. -/
  offset : ℤ
  /-- The largest number of data bytes of one packet. -/
  maxChunk : ℕ

/-- What a session does to the outside. -/
inductive Write
  /-- One datagram, through `writeTo`. -/
  | writeTo (packet : List Byte)
  /-- Several datagrams, through `writeBatch`. -/
  | writeBatch (packets : List (List Byte))
  /-- A call of the reset callback. -/
  | resetCallback
  deriving DecidableEq

/-- The datagrams written by a sequence of effects, in order. -/
def datagrams : List Write → List (List Byte)
  | [] => []
  | .writeTo packet :: ws => packet :: datagrams ws
  | .writeBatch packets :: ws => packets ++ datagrams ws
  | .resetCallback :: ws => datagrams ws

/-- The ways in which a session operation can panic. -/
inductive Panic
  /-- A slice expression is out of range. -/
  | sliceBounds
  /-- `udprdma: ring buffer is full`. -/
  | ringFull
  deriving DecidableEq

/-- `Session`. -/
structure Session where
  /-- The ring of sent packets. -/
  txBuffer : Fin 2048 → TxPacket
  /-- The slot the next packet is packed into. -/
  txWriteIndex : Fin 2048
  /-- The slot of the oldest packet held. -/
  txReadIndex : Fin 2048
  /-- The single outstanding transfer. -/
  transfer : Transfer
  /-- The embedded counters. -/
  metrics : MetricContainer
  /-- The number of the next packet to send. -/
  txSeqNr : SeqNr
  /-- The last number acknowledged by the peer. -/
  txSeqNrAcked : SeqNr
  /-- The number of the next payload packet of the peer. -/
  rxSeqExpected : SeqNr
  /-- The acknowledgement timer. -/
  ack : AckTimer
  /-- Retransmission rounds since the last sign of life. -/
  retransmitAttempts : ℕ
  /-- Set from sending a FIN until it is acknowledged or given up. -/
  finPending : Bool
  /-- Set by `Close`. -/
  closed : Bool
  /-- Whether a reset callback is set. -/
  resetCallback : Bool
  /-- The effects so far. -/
  trace : List Write

/-- `NewSession`. -/
def newSession : Session where
  txBuffer := fun _ => ⟨fun _ => 0, 1500, 0⟩
  txWriteIndex := 0
  txReadIndex := 0
  transfer := ⟨[], none, 0, 0⟩
  metrics := ⟨0, 0, 0, 0, 0, 0, 0⟩
  txSeqNr := 0
  txSeqNrAcked := 0xFFF
  rxSeqExpected := 0
  ack := ⟨⟨none, 0, []⟩, 0, 0, .none⟩
  retransmitAttempts := 0
  finPending := false
  closed := false
  resetCallback := false
  trace := []

namespace Session

/-- The packets held in the ring, from `txReadIndex` up to `txWriteIndex`. -/
def ring (s : Session) : List TxPacket :=
  CircularBuffer.contents s.txBuffer s.txReadIndex s.txWriteIndex

/-- `armAckTimer`. -/
def armAckTimer (s : Session) : Session := { s with ack := s.ack.arm s.finPending }

/-- `stopAckTimer`. -/
def stopAckTimer (s : Session) : Session := { s with ack := s.ack.stop }

/-- `Close`. -/
def close (s : Session) : Session :=
  if s.closed then s else { s with closed := true }.stopAckTimer

/-- `SetResetCallback`. -/
def setResetCallback (s : Session) : Session := { s with resetCallback := true }

/-- `clearTransfer`. -/
def clearTransfer (s : Session) : Session :=
  { s with transfer := { s.transfer with header := [], data := none, offset := -1 } }

/-- `ResetSession`. -/
def resetSession (s : Session) : Session :=
  let s := { s with
    txSeqNr := 0
    txSeqNrAcked := 0xFFF
    txReadIndex := 0
    txWriteIndex := 0
    rxSeqExpected := 0 }.stopAckTimer
  let s := { s with
    retransmitAttempts := 0
    finPending := false
    metrics.peerResets := s.metrics.peerResets + 1 }.clearTransfer
  if s.resetCallback then { s with trace := s.trace ++ [.resetCallback] } else s

/-- `InFlight`. -/
def inFlight (s : Session) : ℕ :=
  if s.txReadIndex = s.txWriteIndex then 0 else (s.txSeqNr - s.txSeqNrAcked - 1).toNat

/-- `resetSendState`. -/
def resetSendState (s : Session) : Session :=
  let s := { s with txReadIndex := 0, txWriteIndex := 0 }.stopAckTimer
  { s with retransmitAttempts := 0, finPending := false }

/-- `updateAckTimer`. -/
def updateAckTimer (s : Session) : Session :=
  if s.inFlight = 0 then s.stopAckTimer
  else if s.finPending ∨ (s.transfer.data.isSome ∧ sendWindow ≤ s.inFlight) then s.armAckTimer
  else s.stopAckTimer

end Session

/-- `seqBetween`: whether `seq` lies in the cyclic range from `start` to `stop`. -/
def seqBetween (start seq stop : SeqNr) : Bool :=
  if start ≤ stop then start ≤ seq && seq ≤ stop else start ≤ seq || seq ≤ stop

end Udpfsd.Udprdma
