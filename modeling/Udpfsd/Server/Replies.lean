import Udpfsd.Server.BlockWrites
import Udpfsd.Udprdma.Content

/-!
# Replies from a shared buffer

The data of a READ or BREAD is not copied when it is handed to the session: the pending
transfer is a slice of the connection's data buffer, which the next READ or BREAD writes
over. That goes well for two reasons. A handler that has written to the buffer hands a
new transfer to the session in any case, also when the read has failed. And in between,
while the old transfer's slice shows the new bytes, only callbacks of the timer can run,
which look at the ring and not at the transfer.
-/

namespace Udpfsd.Udpfs

open Udprdma

/-! ### What is sent -/

/-- The message that a `Send` method packs. -/
def Reply.payload : Reply → List Byte
  | .ack => []
  | .openReply handle st => packOpenReply handle st
  | .closeReply result => packCloseReply result
  | .readResult result _ => packResultReply result
  | .writeDone result => packWriteDone result
  | .lseekReply position => packLseekReply position
  | .dreadReply result name st => packDreadReply result name st
  | .getstatReply result st => packGetstatReply result st
  | .resultReply result => packResultReply result

/-- The bytes that `SendReadResult` is given; nil is replaced by an empty slice. -/
def sliceOf (dataBuffer : Buffer Byte) (data : Option ℕ) : List Byte :=
  match data with
  | none => []
  | some n => dataBuffer.slice n

/-- The `Send` methods of a connection. -/
def Reply.send (r : Reply) (dataBuffer : Buffer Byte) (s : Session) : Except Panic Session :=
  match r with
  | .ack => .ok (s.sendACK true)
  | .readResult result data =>
    s.sendRawDataWithHeader (packResultReply result) (some (sliceOf dataBuffer data))
  | r => s.sendData (some r.payload)

/-- What a reply sends, with the data of a READ or BREAD. An ACK replaces no transfer. -/
def Reply.answer (r : Reply) (data : List Byte) : Option Answer :=
  match r with
  | .ack => none
  | .readResult result _ => some ⟨packResultReply result, data⟩
  | r => some ⟨[], r.payload⟩

/-- The slice of the data buffer that a reply refers to. -/
def Reply.data : Reply → Option ℕ
  | .readResult _ data => data
  | _ => none

/-- What the pending transfer is a slice of after a reply. -/
def Reply.sharing (r : Reply) (shared : Option ℕ) : Option ℕ :=
  match r with
  | .ack => shared
  | r => r.data

/-- The data of an answer matters for a READ or BREAD only. -/
theorem Reply.answer_congr {r : Reply} (h : r.isRead = false) (data data' : List Byte) :
    r.answer data = r.answer data' := by
  cases r <;> first | rfl | cases h

/-- The bytes that `Read` or `Bread` returns; with an error it returns nil. -/
def ReadResult.bytes (r : ReadResult) (dataBuffer : Buffer Byte) : List Byte :=
  match r.err with
  | some _ => []
  | none => sliceOf dataBuffer r.data

/-! ### The handlers and the data buffer -/

/-- A handler that is not one of a READ or BREAD: it leaves the data buffer alone. -/
structure Outcome.LeavesBuffer {σ : Type*} (out : Outcome σ) (c : Connection) : Prop where
  /-- The data buffer. -/
  dataBuffer : out.conn.dataBuffer = c.dataBuffer
  /-- The reply. -/
  reply : out.reply.isRead = false

namespace Connection

variable {σ : Type*} (fs : FS σ) (c : Connection) (s : σ) (payload : List Byte)

/-- The bytes that a call for a request of `size` bytes returns. -/
def returnedBy (size : ℕ) (op : Buffer Byte → σ → Except Fault ((ReadResult × Buffer Byte) × σ)) :
    List Byte :=
  if payload.length < size then []
  else
    match op c.dataBuffer s with
    | .ok ((r, dataBuffer), _) => r.bytes dataBuffer
    | .error _ => []

/-- The bytes that the request's own call of `Read` or `Bread` returns. -/
def returned : List Byte :=
  match msgType payload with
  | some .readReq =>
    c.returnedBy s payload 12 (fs.read (handleField payload) (uint32 (payload.drop 8)))
  | some .breadReq =>
    c.returnedBy s payload 16
      (fs.bread (handleField payload) (longField payload) (uint16 (payload.drop 2)))
  | _ => []

variable {fs c s payload} {out : Outcome σ}

theorem Chunked.leavesBuffer {handle : ℤ} (hchunk : c.Chunked fs s handle out) :
    out.LeavesBuffer c := by
  cases hchunk <;> exact ⟨rfl, rfl⟩

/-- The reply to a READ or BREAD is the data of its own call, as the buffer has it. -/
theorem handleReadOp_returned {size : ℕ} {result : ReadResult → ℤ}
    {op : Buffer Byte → σ → Except Fault ((ReadResult × Buffer Byte) × σ)}
    (hok : c.handleReadOp s payload size op result = .ok out) : ∃ result data,
      out.reply = .readResult result data ∧
        sliceOf out.conn.dataBuffer data = c.returnedBy s payload size op := by
  unfold handleReadOp at hok
  unfold returnedBy
  split_ifs at hok ⊢
  · cases hok
    exact ⟨_, _, rfl, rfl⟩
  · obtain ⟨⟨⟨⟨n, data, err⟩, dataBuffer⟩, t⟩, hread, hok⟩ := Fallible.bind_eq_ok.mp hok
    rw [hread]
    cases err <;> cases hok <;> exact ⟨_, _, rfl, rfl⟩

/-- Only a READ or BREAD writes to the data buffer, and its reply is what it returned. -/
theorem handlePayload_buffer (hok : c.handlePayload fs s payload = .ok out) :
    out.LeavesBuffer c ∨ ∃ result data, out.reply = .readResult result data ∧
      sliceOf out.conn.dataBuffer data = c.returned fs s payload := by
  by_cases hread : msgType payload = some .readReq
  · rw [handlePayload, hread] at hok
    rw [returned, hread]
    exact Or.inr (handleReadOp_returned hok)
  by_cases hbread : msgType payload = some .breadReq
  · rw [handlePayload, hbread] at hok
    rw [returned, hbread]
    exact Or.inr (handleReadOp_returned hok)
  left
  cases responds hok with
  | refused _ _ hreply => exact ⟨rfl, by simpa [hread, hbread] using hreply⟩
  | read htype => exact absurd htype hread
  | bread htype => exact absurd htype hbread
  | closed =>
    refine ⟨?_, rfl⟩
    unfold removeHandle
    simp only
    split_ifs <;> rfl
  | startedChunk _ _ hchunk => exact ⟨hchunk.leavesBuffer.dataBuffer, hchunk.leavesBuffer.reply⟩
  | chunk _ _ hchunk => exact hchunk.leavesBuffer
  | _ => exact ⟨rfl, rfl⟩

end Connection

end Udpfsd.Udpfs

namespace Udpfsd

open Udprdma Udpfs Fs

/-! ### A connection at work -/

/-- Where the goroutine that handles data stands. The timer runs beside it. -/
inductive Phase
  /-- It waits for a datagram. -/
  | idle
  /-- The session has returned a payload. -/
  | received (payload : List Byte)
  /-- The handler is about to send its reply. -/
  | handled (reply : Reply)

/-- The reply about to be sent is one to a READ or BREAD. -/
def Phase.isRead : Phase → Bool
  | .handled reply => reply.isRead
  | _ => false

/-- A connection with its session. -/
structure Endpoint (σ : Type) where
  /-- The session. -/
  sess : Session
  /-- The connection. -/
  conn : Connection
  /-- The filesystem. -/
  fs : σ
  /-- The length of the slice of the data buffer that was handed to the session last, if
  its transfer is such a slice. -/
  shared : Option ℕ
  /-- What is being done. -/
  phase : Phase

/-- What can happen next to a connection. -/
inductive Endpoint.Event (σ : Type)
  /-- A datagram arrives. -/
  | packet (data : List Byte)
  /-- The payload is handled, up to the reply. -/
  | handle
  /-- The reply is handed to the session. -/
  | send
  /-- The acknowledgement timer expires. -/
  | expire
  /-- A callback of the timer gets the session's lock. -/
  | callback (i : ℕ)
  /-- Other connections change the filesystem. -/
  | elsewhere (fs : σ)

/-- A panic of the session as one of the connection. -/
def liftPanic {α : Type} : Except Panic α → Except Fault α
  | .ok a => .ok a
  | .error panic => .error (.session panic)

theorem liftPanic_eq_ok {α : Type} {x : Except Panic α} {a : α} :
    liftPanic x = .ok a ↔ x = .ok a := by
  cases x <;> simp [liftPanic]

/-- The session after its connection has written to the data buffer: the pending transfer
shows the new bytes if it is a slice of the buffer. -/
def refill (s : Session) (shared : Option ℕ) (dataBuffer : Buffer Byte) : Session :=
  match shared with
  | none => s
  | some n => { s with transfer.data := s.transfer.data.map (fun _ => dataBuffer.slice n) }

namespace Endpoint

variable {σ : Type}

/-- A new connection. -/
def new (fs : σ) : Endpoint σ := ⟨newSession.setResetCallback, newConnection, fs, none, .idle⟩

/-- The reset callback, which is called within `ProcessDataPacket`. -/
def onReset (F : FS σ) (e : Endpoint σ) (sess : Session) : Except Fault (Connection × σ) :=
  if sess.metrics.peerResets = e.sess.metrics.peerResets then .ok (e.conn, e.fs)
  else e.conn.resetPeer F e.fs

/-- `handleData` up to the handling of the payload. -/
def receive (F : FS σ) (e : Endpoint σ) (data : List Byte) : Except Fault (Endpoint σ) := do
  let (sess, r) ← liftPanic (e.sess.processDataPacket data)
  let (conn, fs) ← e.onReset F sess
  match r with
  | .ok (some payload) => return ⟨sess, conn, fs, e.shared, .received payload⟩
  | _ => return ⟨sess, conn, fs, e.shared, .idle⟩

/-- The effect of one event. What the goroutine does not stand at changes nothing. -/
def step (F : FS σ) (e : Endpoint σ) : Event σ → Except Fault (Endpoint σ)
  | .packet data =>
    match e.phase with
    | .idle => if data.length < headerSize + dataHeaderSize then .ok e else e.receive F data
    | _ => .ok e
  | .handle =>
    match e.phase with
    | .received payload => do
      let out ← e.conn.handlePayload F e.fs payload
      return ⟨refill e.sess e.shared out.conn.dataBuffer, out.conn, out.fs, e.shared,
        .handled out.reply⟩
    | _ => .ok e
  | .send =>
    match e.phase with
    | .handled reply => do
      let sess ← liftPanic (reply.send e.conn.dataBuffer e.sess)
      return { e with sess := sess, shared := reply.sharing e.shared, phase := .idle }
    | _ => .ok e
  | .expire => .ok { e with sess.ack.ackTimer := e.sess.ack.ackTimer.expire }
  | .callback i => .ok { e with sess := e.sess.runCallback i }
  | .elsewhere fs => .ok { e with fs := fs }

/-- Receiving a datagram is the session's affair, a reset of the peer apart. -/
theorem receive_spec {F : FS σ} {e t : Endpoint σ} {data : List Byte}
    (hok : e.receive F data = .ok t) :
    (∃ r, e.sess.processDataPacket data = .ok (t.sess, r)) ∧
      t.conn.dataBuffer = e.conn.dataBuffer ∧ t.shared = e.shared ∧
      ∀ reply, t.phase ≠ .handled reply := by
  obtain ⟨⟨sess, r⟩, hsess, hok⟩ := Fallible.bind_eq_ok.mp hok
  obtain ⟨⟨conn, fs⟩, hconn, hok⟩ := Fallible.bind_eq_ok.mp hok
  have hbuffer : conn.dataBuffer = e.conn.dataBuffer := by
    unfold onReset at hconn
    split_ifs at hconn
    · cases hconn
      rfl
    · obtain ⟨fs', -, hconn⟩ := Fallible.bind_eq_ok.mp hconn
      cases hconn
      rfl
  refine ⟨⟨r, ?_⟩, ?_⟩
  · simp only at hok
    split at hok <;> cases hok <;> exact liftPanic_eq_ok.mp hsess
  · simp only at hok
    split at hok <;> cases hok <;> exact ⟨hbuffer, rfl, fun reply hphase => by cases hphase⟩

end Endpoint

/-- A connection with a record of what it has been asked for. -/
structure Observed (σ : Type) where
  /-- The connection. -/
  endpoint : Endpoint σ
  /-- The answer to the request that was handled last, with the bytes that its own call
  returned; none if it is only acknowledged. -/
  answer : Option Answer
  /-- The answer that was handed to the session last. -/
  current : Option Answer
  /-- The datagrams written, each with the answer that was the last one then. -/
  log : List (Option Answer × List Byte)

namespace Observed

variable {σ : Type}

/-- A new connection. -/
def new (fs : σ) : Observed σ := ⟨.new fs, none, none, []⟩

/-- The answer to the request that is handled by an event leading to this phase. -/
def nextAnswer (F : FS σ) (x : Observed σ) (event : Endpoint.Event σ) (phase : Phase) :
    Option Answer :=
  match event, x.endpoint.phase, phase with
  | .handle, .received payload, .handled reply =>
    reply.answer (x.endpoint.conn.returned F x.endpoint.fs payload)
  | _, _, _ => x.answer

/-- The last answer handed to the session after an event. -/
def nextCurrent (x : Observed σ) (event : Endpoint.Event σ) : Option Answer :=
  match event, x.endpoint.phase with
  | .send, .handled _ => x.answer <|> x.current
  | _, _ => x.current

/-- The record after the connection has come to a new state. -/
def record (x : Observed σ) (t : Endpoint σ) (answer current : Option Answer) : Observed σ :=
  ⟨t, answer, current, x.log ++
    ((datagrams t.sess.trace).drop (datagrams x.endpoint.sess.trace).length).map (current, ·)⟩

/-- The effect of one event, and its record. -/
def step (F : FS σ) (x : Observed σ) (event : Endpoint.Event σ) : Except Fault (Observed σ) := do
  let t ← x.endpoint.step F event
  return x.record t (x.nextAnswer F event t.phase) (x.nextCurrent event)

/-- The states a connection reaches, for any filesystem. -/
def Reachable (F : FS σ) : Observed σ → Prop :=
  Transition.Reachable (fun x => ∃ fs, x = new fs) (fun x y => ∃ event, x.step F event = .ok y)

/-- The invariant. Between handling a READ or BREAD and sending its reply the pending
transfer may show the wrong bytes; the ring does not. -/
structure Faithful (x : Observed σ) : Prop where
  /-- The record has all datagrams. -/
  log : x.log.map Prod.snd = datagrams x.endpoint.sess.trace
  /-- Every datagram is part of the answer of its time. -/
  belongs : ∀ entry ∈ x.log, BelongsTo entry.1 entry.2
  /-- The ring holds packets of the last answer. -/
  kept : Session.Kept x.current (datagrams x.endpoint.sess.trace) x.endpoint.sess
  /-- The pending transfer is the last answer. -/
  pending : x.endpoint.phase.isRead = false → ∀ data, x.endpoint.sess.transfer.data = some data →
    x.current = some ⟨x.endpoint.sess.transfer.header, data⟩
  /-- The data of the last answer is still in the buffer. -/
  shared : x.endpoint.phase.isRead = false → ∀ n a, x.endpoint.shared = some n →
    x.current = some a → a.data = x.endpoint.conn.dataBuffer.slice n
  /-- The reply about to be sent has the data of its own call. -/
  handled : ∀ reply, x.endpoint.phase = .handled reply →
    x.answer = reply.answer (sliceOf x.endpoint.conn.dataBuffer reply.data)

variable {F : FS σ} {x y : Observed σ}

theorem Faithful.answering (h : x.Faithful) (hphase : x.endpoint.phase.isRead = false) :
    Session.Answering x.current (datagrams x.endpoint.sess.trace) x.endpoint.sess :=
  ⟨h.kept, h.pending hphase⟩

variable {t : Endpoint σ}

section Faithful

variable (h : x.Faithful)
include h

/-- What has to be shown of a step. -/
theorem Faithful.record {answer current : Option Answer}
    (hkept : Session.Kept current (datagrams x.endpoint.sess.trace) t.sess)
    (hpending : t.phase.isRead = false → ∀ data, t.sess.transfer.data = some data →
      current = some ⟨t.sess.transfer.header, data⟩)
    (hshared : t.phase.isRead = false → ∀ n a, t.shared = some n → current = some a →
      a.data = t.conn.dataBuffer.slice n) (hhandled : ∀ reply, t.phase = .handled reply →
      answer = reply.answer (sliceOf t.conn.dataBuffer reply.data)) :
    (x.record t answer current).Faithful := by
  obtain ⟨news, htrace, hnews⟩ := hkept.wrote
  have hdrop : (datagrams t.sess.trace).drop (datagrams x.endpoint.sess.trace).length = news := by
    rw [htrace, List.drop_left]
  refine ⟨?_, ?_, ⟨hkept.ring, [], by simp [Observed.record], by simp⟩, hpending, hshared, hhandled⟩
  · simp only [Observed.record, hdrop, List.map_append, h.log, List.map_map]
    rw [htrace]
    exact congrArg _ (List.map_id news)
  · intro entry hentry
    simp only [Observed.record, hdrop] at hentry
    rcases List.mem_append.mp hentry with hold | hnew
    · exact h.belongs entry hold
    · obtain ⟨b, hb, rfl⟩ := List.mem_map.mp hnew
      exact hnews b hb

/-- An event that is none of the connection's own: only the session, or only the filesystem,
has changed. -/
theorem Faithful.beside (hkept : Session.Kept x.current (datagrams x.endpoint.sess.trace) t.sess)
    (htransfer : t.sess.transfer = x.endpoint.sess.transfer ∨ t.sess.transfer.data = none)
    (hconn : t.conn = x.endpoint.conn) (hshared : t.shared = x.endpoint.shared)
    (hphase : t.phase = x.endpoint.phase) : (x.record t x.answer x.current).Faithful := by
  refine h.record hkept ?_ ?_ ?_
  · intro hread data hdata
    rw [hphase] at hread
    rcases htransfer with heq | hnone
    · rw [heq] at hdata ⊢
      exact h.pending hread data hdata
    · rw [hnone] at hdata
      cases hdata
  · rw [hphase, hshared, hconn]
    exact h.shared
  · rw [hphase, hconn]
    exact h.handled

/-- A datagram is received. -/
theorem Faithful.receive {data : List Byte} (hphase : x.endpoint.phase = .idle)
    (hok : x.endpoint.receive F data = .ok t) : (x.record t x.answer x.current).Faithful := by
  obtain ⟨⟨r, hsess⟩, hbuffer, hshared, hnone⟩ := Endpoint.receive_spec hok
  have hidle : x.endpoint.phase.isRead = false := by rw [hphase]; rfl
  have hanswering := (h.answering hidle).processDataPacket hsess
  refine h.record hanswering.toKept (fun _ => hanswering.pending) ?_ ?_
  · intro _ n a hn ha
    rw [hshared] at hn
    rw [hbuffer]
    exact h.shared hidle n a hn ha
  · intro reply hreply
    exact absurd hreply (hnone reply)

/-- Writing to the buffer does not change the ring or what has been written. -/
theorem Faithful.kept_refill (shared : Option ℕ) (dataBuffer : Buffer Byte) :
    Session.Kept x.current (datagrams x.endpoint.sess.trace)
      (refill x.endpoint.sess shared dataBuffer) := by
  cases shared with
  | none => exact h.kept
  | some n => exact h.kept.quiet (fun _ => id) rfl

/-- A buffer that has not changed shows the same bytes. -/
theorem Faithful.refill_eq (hphase : x.endpoint.phase.isRead = false) :
    refill x.endpoint.sess x.endpoint.shared x.endpoint.conn.dataBuffer = x.endpoint.sess := by
  cases hshared : x.endpoint.shared with
  | none => rfl
  | some n =>
    have hsame : x.endpoint.sess.transfer.data.map
        (fun _ => x.endpoint.conn.dataBuffer.slice n) = x.endpoint.sess.transfer.data := by
      cases hdata : x.endpoint.sess.transfer.data with
      | none => rfl
      | some data =>
        have hslice := h.shared hphase n _ hshared (h.pending hphase data hdata)
        rw [Option.map_some, ← hslice]
    simp only [refill, hsame]

/-- A payload is handled. -/
theorem Faithful.handle {payload : List Byte} {out : Outcome σ}
    (hphase : x.endpoint.phase = .received payload)
    (hok : x.endpoint.conn.handlePayload F x.endpoint.fs payload = .ok out) :
    (x.record ⟨refill x.endpoint.sess x.endpoint.shared out.conn.dataBuffer, out.conn, out.fs,
      x.endpoint.shared, .handled out.reply⟩
      (out.reply.answer (x.endpoint.conn.returned F x.endpoint.fs payload))
        x.current).Faithful := by
  have hidle : x.endpoint.phase.isRead = false := by rw [hphase]; rfl
  refine h.record (h.kept_refill _ _) ?_ ?_ ?_
  all_goals rcases Connection.handlePayload_buffer hok with hleaves | ⟨result, data, hreply, hslice⟩
  · intro _ data hdata
    simp only [hleaves.dataBuffer, h.refill_eq hidle] at hdata ⊢
    exact h.pending hidle data hdata
  · intro hread
    simp only [Phase.isRead, hreply, Reply.isRead] at hread
    cases hread
  · intro _ n a hn ha
    simp only [hleaves.dataBuffer]
    exact h.shared hidle n a hn ha
  · intro hread
    simp only [Phase.isRead, hreply, Reply.isRead] at hread
    cases hread
  · rintro reply ⟨⟩
    exact Reply.answer_congr hleaves.reply _ _
  · rintro reply ⟨⟩
    simp only [hreply, Reply.answer, Reply.data, hslice]

end Faithful

/-- The answer of a reply is what the session is given. -/
theorem answering_send {reply : Reply} {dataBuffer : Buffer Byte} {s t : Session} {a : Answer}
    (ha : reply.answer (sliceOf dataBuffer reply.data) = some a)
    (hok : reply.send dataBuffer s = .ok t) :
    Session.Answering (some a) (datagrams s.trace) t := by
  cases reply <;> cases ha <;> exact Session.Answering.start hok

/-- A reply is handed to the session. -/
theorem Faithful.send (h : x.Faithful) {reply : Reply} {sess : Session}
    (hphase : x.endpoint.phase = .handled reply)
    (hok : reply.send x.endpoint.conn.dataBuffer x.endpoint.sess = .ok sess) :
    (x.record { x.endpoint with
        sess := sess, shared := reply.sharing x.endpoint.shared, phase := .idle }
      x.answer (x.answer <|> x.current)).Faithful := by
  have hanswer := h.handled reply hphase
  cases ha : x.answer with
  | none =>
    -- only an ACK has no answer: the last transfer stays
    have hack : reply = .ack := by
      rw [ha] at hanswer
      cases reply <;> first | rfl | cases hanswer
    subst hack
    cases hok
    have hread : x.endpoint.phase.isRead = false := by rw [hphase]; rfl
    have hsent := (Session.Answering.stable _ _).sendACK _ true (h.answering hread)
    exact h.record hsent.toKept (fun _ => hsent.pending) (fun _ => h.shared hread)
      (fun reply hreply => by cases hreply)
  | some a =>
    rw [ha] at hanswer
    have hsent := answering_send hanswer.symm hok
    refine h.record hsent.toKept (fun _ => hsent.pending) ?_ (fun reply hreply => by cases hreply)
    rintro - n b hn ⟨⟩
    have hdata : a.data = sliceOf x.endpoint.conn.dataBuffer (reply.sharing x.endpoint.shared) := by
      cases reply <;> cases hanswer <;> first | rfl | cases hn
    rw [hdata, show reply.sharing x.endpoint.shared = some n from hn]
    rfl

/-- Every event keeps the invariant. -/
theorem Faithful.step (h : x.Faithful) {event : Endpoint.Event σ}
    (hok : x.step F event = .ok y) : y.Faithful := by
  obtain ⟨t, hstep, hy⟩ := Fallible.bind_eq_ok.mp hok
  cases hy
  have hstay : (x.record x.endpoint x.answer x.current).Faithful :=
    h.beside h.kept (Or.inl rfl) rfl rfl rfl
  unfold Endpoint.step at hstep
  unfold nextAnswer nextCurrent
  cases event with
  | packet data =>
    cases hphase : x.endpoint.phase with
    | idle =>
      simp only [hphase] at hstep
      split_ifs at hstep
      · cases hstep
        exact hstay
      · exact h.receive hphase hstep
    | _ =>
      simp only [hphase] at hstep
      cases hstep
      exact hstay
  | handle =>
    cases hphase : x.endpoint.phase with
    | received payload =>
      simp only [hphase] at hstep
      obtain ⟨out, hout, ht⟩ := Fallible.bind_eq_ok.mp hstep
      cases ht
      exact h.handle hphase hout
    | _ =>
      simp only [hphase] at hstep
      cases hstep
      exact hstay
  | send =>
    cases hphase : x.endpoint.phase with
    | handled reply =>
      simp only [hphase] at hstep
      obtain ⟨sess, hsess, ht⟩ := Fallible.bind_eq_ok.mp hstep
      cases ht
      exact h.send hphase (liftPanic_eq_ok.mp hsess)
    | _ =>
      simp only [hphase] at hstep
      cases hstep
      exact hstay
  | expire =>
    cases hstep
    exact h.beside (h.kept.quiet (fun _ => id) rfl) (Or.inl rfl) rfl rfl rfl
  | callback i =>
    cases hstep
    have hrepeats := Session.repeats_runCallback x.endpoint.sess i
    exact h.beside (h.kept.repeats hrepeats) hrepeats.transfer rfl rfl rfl
  | elsewhere fs =>
    cases hstep
    exact h.beside h.kept (Or.inl rfl) rfl rfl rfl

/-- A new endpoint. -/
theorem faithful_new (fs : σ) : (new fs).Faithful where
  log := rfl
  belongs := by simp [new]
  kept := by
    refine ⟨?_, [], rfl, by simp⟩
    have hempty : (new fs).endpoint.sess.ring = [] := Session.ring_eq_nil_iff.mpr rfl
    simp [hempty]
  pending := fun _ _ hdata => by cases hdata
  shared := fun _ _ _ hn => by cases hn
  handled := fun _ hreply => by cases hreply

/-- Every datagram of a connection is a control packet or carries a part of the answer that
was handed to the session last; and for a READ or BREAD that answer consists of the bytes
which the request's own call returned. -/
theorem replies_carry_own_data (h : Reachable F x) :
    x.log.map Prod.snd = datagrams x.endpoint.sess.trace ∧
      ∀ entry ∈ x.log, BelongsTo entry.1 entry.2 := by
  have hfaithful : x.Faithful := by
    refine Transition.Reachable.invariant ?_ ?_ h
    · rintro x ⟨fs, rfl⟩
      exact faithful_new fs
    · rintro x y - hx ⟨event, hstep⟩
      exact hx.step hstep
  exact ⟨hfaithful.log, hfaithful.belongs⟩

end Observed

/-- A host with a device of three sectors that hold different bytes. -/
def numberedHost : Host :=
  ⟨[(Path.ascii ['/', 'd'], .file 0)], fun _ => [1, 1, 1, 1, 2, 2, 2, 2, 3, 3, 3, 3], 1⟩

/-- The client reads a sector and acknowledges nothing. -/
def readSector {σ : Type} (seq : SeqNr) (sectorNr : Byte) : Endpoint.Event σ :=
  .packet (dataPacket seq 0xFFF true []
    [0x28, 0, 1, 0, 0, 0, 0, 0, sectorNr, 0, 0, 0, 0, 0, 0, 0])

/-- Two sectors are read. The timer expires and repeats the first reply when the second
sector is in the buffer already. -/
def readTwoSectors {σ : Type} : List (Endpoint.Event σ) :=
  [readSector 0 0, .handle, .send, readSector 1 1, .handle, .expire, .callback 0, .send]

namespace Observed

/-- The answers of the datagrams that a served host writes in a run. -/
def answersAfter (o : Options) (host : Host)
    (events : List (Endpoint.Event (Backend Host OsFile Host.Image))) :
    Option (List (Option Answer)) :=
  Backend.observe Host.platform o host new (step (Backend.fs Host.platform)) events
    .ok (fun _ x => x.log.map Prod.fst)

/-- The repeated reply carries the first sector. -/
theorem replies_carry_own_data_of_two_reads :
    ∃ x : Observed (Backend Host OsFile Host.Image), Reachable (Backend.fs Host.platform) x ∧
      x.log.map Prod.fst = [none, some ⟨packResultReply 4, [1, 1, 1, 1]⟩,
        some ⟨packResultReply 4, [1, 1, 1, 1]⟩, some ⟨packResultReply 4, [1, 1, 1, 1]⟩,
        some ⟨packResultReply 4, [2, 2, 2, 2]⟩] ∧
      ∀ entry ∈ x.log, BelongsTo entry.1 entry.2 := by
  have hview : answersAfter serveDevice numberedHost readTwoSectors =
      some [none, some ⟨packResultReply 4, [1, 1, 1, 1]⟩,
        some ⟨packResultReply 4, [1, 1, 1, 1]⟩, some ⟨packResultReply 4, [1, 1, 1, 1]⟩,
        some ⟨packResultReply 4, [2, 2, 2, 2]⟩] := by rfl
  obtain ⟨fs, x, _, -, hrun, ⟨⟩, hlog⟩ := Backend.observe_eq_some hview
  have hreach : Reachable (Backend.fs Host.platform) x :=
    Transition.Reachable.foldlM (fun e _ _ _ hstep => ⟨e, hstep⟩) (.start ⟨fs, rfl⟩) hrun
  exact ⟨x, hreach, hlog, (replies_carry_own_data hreach).2⟩

end Observed

end Udpfsd
