import Udpfsd.Server.Transfers
import Udpfsd.Udprdma.StopAndWait

/-!
# Calls over a lossy network

A client makes one call after the other: it repeats a request until it is acknowledged,
puts the packets of the reply together, and goes on when it has all of them. Datagrams may
be lost and repeated in both directions, the server's timer runs whenever it likes, and
other clients change the filesystem in between. To the client this is as if it called the
handlers itself: every request is handled once and in order, and what arrives for it is the
answer of its handler, byte for byte.

The two halves of the protocol meet here. The numbers of the requests are those of a
stop-and-wait peer, and a reply is a transfer to a receiver that takes packets in order. A
reply replaces the one before it, which is safe because the client has all of that one; what
is still under way of it is not taken, as its numbers lie right before the new ones.
-/

namespace Udpfsd

open Udprdma Udpfs LossyFifo

variable {σ : Type}

/-! ### Calls without a network -/

/-- What a connection and its filesystem get to see. -/
inductive Input (σ : Type)
  /-- A request of the client. -/
  | request (payload : List Byte)
  /-- Other clients change the filesystem. -/
  | elsewhere (fs : σ)

/-- The request, if the input is one. -/
def Input.payload? : Input σ → Option (List Byte)
  | .request payload => some payload
  | .elsewhere _ => none

/-- The requests among the inputs. -/
def Input.requests (inputs : List (Input σ)) : List (List Byte) := inputs.filterMap payload?

/-- A connection whose client calls the handlers itself, and the answers it has got. -/
structure Local (σ : Type) where
  /-- The connection. -/
  conn : Connection
  /-- The filesystem. -/
  fs : σ
  /-- The answers of the handlers, in order. -/
  answers : List Answer

namespace Local

/-- A new connection. -/
def new (fs : σ) : Local σ := ⟨newConnection, fs, []⟩

/-- A request is handled, or others change the filesystem. -/
def step (F : FS σ) (l : Local σ) : Input σ → Except Fault (Local σ)
  | .request payload => do
    let out ← l.conn.handlePayload F l.fs payload
    return ⟨out.conn, out.fs,
      l.answers ++ (out.reply.answer (l.conn.returned F l.fs payload)).toList⟩
  | .elsewhere fs => .ok { l with fs := fs }

/-- The connection after some inputs. -/
def run (F : FS σ) (l : Local σ) (inputs : List (Input σ)) : Except Fault (Local σ) :=
  inputs.foldlM (step F) l

/-- One more input. -/
theorem run_append {F : FS σ} {l m n : Local σ} {inputs : List (Input σ)} {input : Input σ}
    (hrun : l.run F inputs = .ok m) (hstep : m.step F input = .ok n) :
    l.run F (inputs ++ [input]) = .ok n := by
  unfold run at hrun ⊢
  rw [List.foldlM_append]
  refine Fallible.bind_eq_ok.mpr ⟨m, hrun, ?_⟩
  rw [List.foldlM_cons]
  exact Fallible.bind_eq_ok.mpr ⟨n, hstep, rfl⟩

end Local

/-- An answer with its data padded to whole words, as its packets carry it. -/
def padded (a : Answer) : List Byte :=
  a.header ++ a.data ++ List.replicate ((a.data.length + 3) / 4 * 4 - a.data.length) 0

/-! ### The client -/

/-- The payload that waits for its handler. -/
def Phase.waiting : Phase → List (List Byte)
  | .received payload => [payload]
  | _ => []

/-- The reply that waits to be sent, if there is one, fits. -/
def Phase.Fits : Phase → Prop
  | .handled reply => reply.Fits
  | _ => True

instance (phase : Phase) : Decidable phase.Fits := by
  cases phase <;> unfold Phase.Fits <;> infer_instance

/-- The answer that waits to be sent. -/
def Endpoint.pending (e : Endpoint σ) : Option Answer :=
  match e.phase with
  | .handled reply => reply.answer (sliceOf e.conn.dataBuffer reply.data)
  | _ => none

/-- A client, the two queues between it and its connection, and a record of what the
connection has seen and sent. -/
structure Caller (σ : Type) where
  /-- The connection with its session. -/
  endpoint : Endpoint σ
  /-- What the connection and the filesystem have seen. -/
  inputs : List (Input σ)
  /-- The answers that were handed to the session. -/
  sent : List Answer
  /-- The index of the request that the client is making. -/
  current : ℕ
  /-- Whether this request has been acknowledged. -/
  acked : Bool
  /-- The number of the packet that the client expects. -/
  expected : SeqNr
  /-- The packets that it has of a reply which is not complete. -/
  taken : List Packet
  /-- The complete replies. -/
  results : List (List Byte)
  /-- Datagrams on the way to the server. -/
  toServer : List (List Byte)
  /-- Datagrams on the way to the client. -/
  toClient : List (List Byte)

namespace Caller

/-- A new connection, and a client that has sent nothing. -/
def start (fs : σ) : Caller σ := ⟨.new fs, [], [], 0, false, 0, [], [], [], []⟩

/-- The connection has changed; what its session wrote is on its way to the client. -/
def served (c : Caller σ) (t : Endpoint σ) : Caller σ :=
  { c with
    endpoint := t
    toClient := c.toClient ++ datagrams (t.sess.trace.drop c.endpoint.sess.trace.length) }

/-- What the connection has seen after an event. -/
def nextInputs (c : Caller σ) : Endpoint.Event σ → List (Input σ)
  | .handle => c.inputs ++ c.endpoint.phase.waiting.map .request
  | .elsewhere fs => c.inputs ++ [.elsewhere fs]
  | _ => c.inputs

/-- What was handed to the session after an event. -/
def nextSent (c : Caller σ) : Endpoint.Event σ → List Answer
  | .send => c.sent ++ c.endpoint.pending.toList
  | _ => c.sent

/-- The client puts a payload packet of the expected number to the reply. -/
def accept (c : Caller σ) (datagram : List Byte) : Caller σ :=
  match parsePacket datagram with
  | .ok (.ok p) =>
    if p.payload ≠ [] ∧ p.hdr.seqNr = c.expected then
      if p.isFin then
        { c with
          expected := c.expected + 1
          taken := []
          results := c.results ++ [(c.taken ++ [p]).flatMap Packet.payload] }
      else { c with expected := c.expected + 1, taken := c.taken ++ [p] }
    else c
  | _ => c

/-- The client gets a datagram. -/
def take (c : Caller σ) (datagram : List Byte) (rest : List (List Byte)) : Caller σ :=
  { c.accept datagram with
    toClient := rest
    acked := c.acked || decide (ackOf datagram = some (c.current : SeqNr)) }

/-- The client has all replies that were sent. -/
def Settled (c : Caller σ) : Prop := c.results.length = c.sent.length

/-- The steps. The requests are not empty. The client makes the next one when the last one
is acknowledged, its handler is done and the reply, if there is one, is complete. -/
inductive Step (F : FS σ) (payloads : ℕ → { payload : List Byte // payload ≠ [] }) :
    Caller σ → Caller σ → Prop
  /-- The client sends its request, for the first time or again. -/
  | request {c : Caller σ} {datagram : List Byte} {p : Packet} :
      c.acked = false → parsePacket datagram = .ok (.ok p) →
      p.hdr.seqNr = (c.current : SeqNr) → p.payload = payloads c.current →
      Step F payloads c { c with toServer := c.toServer ++ [datagram] }
  /-- The client sends an ACK, a NACK, or anything else without a payload. -/
  | control {c : Caller σ} {datagram : List Byte} :
      (∀ p, parsePacket datagram = .ok (.ok p) → p.payload = []) →
      Step F payloads c { c with toServer := c.toServer ++ [datagram] }
  /-- A datagram reaches the server. -/
  | receive {c : Caller σ} {datagram : List Byte} {rest : List (List Byte)} {t : Endpoint σ} :
      c.endpoint.phase = .idle → c.toServer = datagram :: rest →
      c.endpoint.step F (.packet datagram) = .ok t →
      Step F payloads c { c.served t with toServer := rest }
  /-- The server works, its timer runs, or the filesystem is changed by others. -/
  | server {c : Caller σ} {event : Endpoint.Event σ} {t : Endpoint σ} :
      (∀ data, event ≠ .packet data) →
      c.endpoint.phase.Fits → c.endpoint.step F event = .ok t →
      Step F payloads c { c.served t with
        inputs := c.nextInputs event
        sent := c.nextSent event }
  /-- A datagram reaches the client. -/
  | take {c : Caller σ} {datagram : List Byte} {rest : List (List Byte)} :
      c.toClient = datagram :: rest → Step F payloads c (c.take datagram rest)
  /-- The client goes on to the next request. -/
  | next {c : Caller σ} :
      c.acked = true → c.endpoint.phase = .idle → c.Settled →
      Step F payloads c { c with current := c.current + 1, acked := false }
  /-- The network loses or repeats a datagram on the way to the server. -/
  | disturbToServer {c : Caller σ} {queue : List (List Byte)} :
      Disturbed c.toServer queue → Step F payloads c { c with toServer := queue }
  /-- The network loses or repeats a datagram on the way to the client. -/
  | disturbToClient {c : Caller σ} {queue : List (List Byte)} :
      Disturbed c.toClient queue → Step F payloads c { c with toClient := queue }

/-- The states reached from a new connection. -/
def Reachable (F : FS σ) (fs : σ) (payloads : ℕ → { payload : List Byte // payload ≠ [] }) :
    Caller σ → Prop :=
  Transition.Reachable (· = start fs) (Step F payloads)

/-! ### The reply under way -/

/-- The last answer is being sent to the client, or the client has it. -/
structure Replying (c : Caller σ) (o : Outgoing) (start : SeqNr) (d : Delivery)
    (earlier : List Answer) (a : Answer) : Prop where
  /-- The session is the one of the connection. -/
  session : d.session = c.endpoint.sess
  /-- The receiver is the client. -/
  expected : d.expected = c.expected
  /-- The answers. -/
  sent : c.sent = earlier ++ [a]
  /-- The transfer is the last answer. -/
  header : o.plan.header = a.header
  /-- Its data. -/
  data : o.plan.data = a.data
  /-- Its packets have different numbers. -/
  count_lt : o.plan.count < 4000
  /-- The transfer. -/
  delivery : d.Inv o start
  /-- What is under way. -/
  queue : Drawn (Stale start) d.log d.delivered c.toClient
  /-- What the client has. -/
  progress :
    (d.accepted.length < o.plan.count ∧ c.taken = d.accepted ∧
      c.results = earlier.map padded) ∨
    (d.accepted.length = o.plan.count ∧ c.taken = [] ∧ c.results = (earlier ++ [a]).map padded)

/-- Either nothing has been sent yet, or a last answer. -/
inductive Conversation (c : Caller σ) : Prop
  | silent : c.endpoint.sess.Unsent → c.sent = [] → c.expected = 0 → c.taken = [] →
      c.results = [] → (∀ b ∈ c.toClient, IsControl b) → Conversation c
  | replying {o : Outgoing} {start : SeqNr} {d : Delivery} {earlier : List Answer} {a : Answer} :
      c.Replying o start d earlier a → Conversation c

variable {c : Caller σ}

/-- Nothing else matters. -/
theorem Conversation.of_eq {c' : Caller σ} (h : c.Conversation)
    (hsess : c'.endpoint.sess = c.endpoint.sess) (hsent : c'.sent = c.sent)
    (hexpected : c'.expected = c.expected) (htaken : c'.taken = c.taken)
    (hresults : c'.results = c.results) (hqueue : c'.toClient = c.toClient) :
    c'.Conversation := by
  cases h with
  | silent h₁ h₂ h₃ h₄ h₅ h₆ =>
    exact .silent (hsess ▸ h₁) (hsent.trans h₂) (hexpected.trans h₃) (htaken.trans h₄)
      (hresults.trans h₅) (by rwa [hqueue])
  | replying h =>
    exact .replying ⟨h.session.trans hsess.symm, h.expected.trans hexpected.symm,
      hsent.trans h.sent, h.header, h.data, h.count_lt, h.delivery, by rw [hqueue]; exact h.queue,
      by rw [htaken, hresults]; exact h.progress⟩

variable {d : Delivery} {o : Outgoing} {a : Answer} {earlier : List Answer} {t : Endpoint σ}
  {ws : List Write}

theorem Replying.accepted_eq {start : SeqNr} (h : c.Replying o start d earlier a) (hc : c.Settled) :
    d.accepted.length = o.plan.count ∧ c.taken = [] ∧ c.results = (earlier ++ [a]).map padded := by
  rcases h.progress with ⟨-, -, hresults⟩ | hall
  · have hlen := hc
    rw [Settled, hresults, h.sent] at hlen
    simp at hlen
  · exact hall

/-- When the client has all replies, the session has nothing left to send, and nothing under
way is taken by the client. -/
theorem Conversation.settled (h : c.Conversation) (hc : c.Settled) :
    c.endpoint.sess.transfer.data = none ∧ c.endpoint.sess.txSeqNr = c.expected ∧
      c.taken = [] ∧ c.results = c.sent.map padded ∧ ∀ b ∈ c.toClient, Stale c.expected b := by
  cases h with
  | silent hunsent hsent hexpected htaken hresults hqueue =>
    refine ⟨hunsent.transfer_none, hunsent.first.trans hexpected.symm, htaken, ?_,
      fun b hb => (hqueue b hb).stale _⟩
    rw [hresults, hsent]
    rfl
  | @replying o start d earlier a h =>
    obtain ⟨hall, htaken, hresults⟩ := h.accepted_eq hc
    obtain ⟨hnone, hseq, -⟩ := h.delivery.complete hall
    rw [h.session] at hnone hseq
    refine ⟨hnone, hseq.trans h.expected, htaken, by rw [hresults, h.sent], ?_⟩
    intro b hb
    rcases h.queue.mem hb with ⟨hzero, -⟩ | ⟨i, hget, hi⟩
    · -- the client has packets of the reply, so something of it has arrived
      obtain ⟨-, -, -, hr⟩ := h.delivery.log_spec
      have hpos := o.plan.count_pos
      rw [hzero, List.take_zero] at hr
      simp only [reached, List.foldl_nil] at hr
      omega
    · rw [← h.expected]
      exact h.delivery.stale hall hget hi

/-- The session has done something that starts no transfer. -/
theorem Conversation.served (h : c.Conversation)
    (htrace : t.sess.trace = c.endpoint.sess.trace ++ ws)
    (hleads : c.endpoint.sess.Leads t.sess) : (c.served t).Conversation := by
  have hnews : datagrams (t.sess.trace.drop c.endpoint.sess.trace.length) = datagrams ws := by
    rw [htrace, List.drop_left]
  cases h with
  | silent hunsent hsent hexpected htaken hresults hqueue =>
    have hunsent' := hleads _ Session.Unsent.stable (fun u n hu => hu.received n) hunsent
    refine .silent hunsent' hsent hexpected htaken hresults ?_
    intro b hb
    obtain ⟨log, hlog, hcontrol⟩ := hunsent'.wrote
    rcases List.mem_append.mp hb with hb | hb
    · exact hqueue b hb
    · rw [hnews] at hb
      have hmem : b ∈ datagrams t.sess.trace := by
        rw [htrace, datagrams_append]
        exact List.mem_append_right _ hb
      rw [hlog, List.nil_append] at hmem
      rcases hcontrol b hmem with hb | ⟨a, ha, -⟩
      · exact hb
      · cases ha
  | @replying o start d earlier a h =>
    have hstable : Session.Stable
        (Session.Underway o.plan start d.before d.delivered d.accepted.length)
        (fun _ => True) :=
      (Session.Underway.stable o.plan start d.before d.delivered d.accepted.length).mono
        (fun _ _ => Or.inl (Nat.lt_trans h.count_lt (by decide)))
    have hunderway := hleads _ hstable (fun u n hu => hu.quiet hu.ringInv rfl rfl rfl rfl)
      (h.session ▸ h.delivery.underway)
    have hlog := h.delivery.log_session (h.session ▸ htrace)
    refine .replying (d := { d with session := t.sess }) ⟨rfl, h.expected, h.sent, h.header,
      h.data, h.count_lt, h.delivery.session hunderway, ?_, h.progress⟩
    rw [hlog]
    obtain ⟨-, -, hdelivered, -⟩ := h.delivery.log_spec
    have hdrawn := h.queue.append hdelivered (datagrams ws)
    simpa only [Caller.served, hnews] using hdrawn

/-- A datagram that is not taken. -/
theorem accept_of_stale {datagram : List Byte} (h : Stale c.expected datagram) :
    c.accept datagram = c := by
  unfold accept
  split
  · rename_i p hparse
    exact if_neg (fun htake => h p hparse htake.1 htake.2)
  · rfl

theorem receive_of_stale {datagram : List Byte} (h : Stale d.expected datagram) :
    d.receive datagram = d := by
  unfold Delivery.receive
  split
  · rename_i p hparse
    exact if_neg (fun htake => h p hparse htake.1 htake.2)
  · rfl

/-- A datagram is taken or it is not. -/
theorem stale_or_taken (expected : SeqNr) (datagram : List Byte) :
    Stale expected datagram ∨
      ∃ p, parsePacket datagram = .ok (.ok p) ∧ p.payload ≠ [] ∧ p.hdr.seqNr = expected := by
  by_cases h : Stale expected datagram
  · exact Or.inl h
  · unfold Stale at h
    push Not at h
    exact Or.inr h

theorem accept_of_taken {datagram : List Byte} {p : Packet}
    (hparse : parsePacket datagram = .ok (.ok p)) (hpayload : p.payload ≠ [])
    (hnumber : p.hdr.seqNr = c.expected) :
    c.accept datagram = if p.isFin then
        { c with
          expected := c.expected + 1
          taken := []
          results := c.results ++ [(c.taken ++ [p]).flatMap Packet.payload] }
      else { c with expected := c.expected + 1, taken := c.taken ++ [p] } := by
  unfold accept
  rw [hparse]
  exact if_pos ⟨hpayload, hnumber⟩

theorem receive_of_taken {datagram : List Byte} {p : Packet}
    (hparse : parsePacket datagram = .ok (.ok p)) (hpayload : p.payload ≠ [])
    (hnumber : p.hdr.seqNr = d.expected) :
    d.receive datagram =
      { d with expected := d.expected + 1, accepted := d.accepted ++ [p] } := by
  unfold Delivery.receive
  rw [hparse]
  exact if_pos ⟨hpayload, hnumber⟩

/-- A datagram of the transfer reaches the client. -/
theorem Replying.deliver {start : SeqNr} {datagram : List Byte} {rest : List (List Byte)} {i : ℕ}
    {acked : Bool} (h : c.Replying o start d earlier a) (hget : d.log[i]? = some datagram)
    (hi : d.delivered ≤ i + 1) (hrest : Drawn (Stale start) d.log (i + 1) rest) :
    Conversation { c.accept datagram with toClient := rest, acked := acked } := by
  obtain ⟨hlt, rfl⟩ := List.getElem?_eq_some_iff.mp hget
  have hinv := h.delivery.deliver hlt (by omega)
  rw [Nat.max_eq_right hi] at hinv
  rcases stale_or_taken d.expected d.log[i] with hstale | ⟨p, hparse, hpayload, hnumber⟩
  · rw [receive_of_stale hstale] at hinv
    rw [accept_of_stale (h.expected ▸ hstale)]
    exact .replying (d := { d with delivered := i + 1 }) ⟨h.session, h.expected, h.sent, h.header,
      h.data, h.count_lt, hinv, hrest, h.progress⟩
  · rw [receive_of_taken hparse hpayload hnumber] at hinv
    have hle := hinv.le_count
    have hfin := hinv.isFin_iff (i := d.accepted.length) (by simp)
    simp only [List.length_append, List.length_singleton] at hle hfin
    rw [List.getElem_concat_length rfl] at hfin
    obtain ⟨hless, htaken, hresults⟩ : d.accepted.length < o.plan.count ∧ c.taken = d.accepted ∧
        c.results = earlier.map padded := by
      rcases h.progress with hless | ⟨hall, -⟩
      · exact hless
      · omega
    rw [accept_of_taken hparse hpayload (hnumber.trans h.expected)]
    have hexpected : d.expected + 1 = c.expected + 1 := by rw [h.expected]
    by_cases hlast : p.isFin = true
    · -- the last packet completes the reply
      rw [if_pos hlast]
      have hall := hfin.mp hlast
      have hwhole := hinv.whole_content (by simpa using hall)
      refine .replying (d := { d with
        expected := d.expected + 1, accepted := d.accepted ++ [p], delivered := i + 1 })
        ⟨h.session, hexpected, h.sent, h.header, h.data, h.count_lt, hinv, hrest, Or.inr ?_⟩
      refine ⟨by simpa using hall, rfl, ?_⟩
      simp only at hwhole
      rw [htaken, hresults, hwhole, o.content_eq, Plan.padding, h.header, h.data]
      simp [padded]
    · rw [if_neg hlast]
      have hmore : d.accepted.length + 1 ≠ o.plan.count := fun heq => hlast (hfin.mpr heq)
      refine .replying (d := { d with
        expected := d.expected + 1, accepted := d.accepted ++ [p], delivered := i + 1 })
        ⟨h.session, hexpected, h.sent, h.header, h.data, h.count_lt, hinv, hrest, Or.inl ?_⟩
      refine ⟨?_, by rw [htaken], hresults⟩
      simp only [List.length_append, List.length_singleton]
      omega

/-- A datagram reaches the client. -/
theorem Conversation.take (h : c.Conversation) {datagram : List Byte} {rest : List (List Byte)}
    (hqueue : c.toClient = datagram :: rest) : (c.take datagram rest).Conversation := by
  cases h with
  | silent hunsent hsent hexpected htaken hresults hcontrol =>
    have hstale := (hcontrol datagram (by simp [hqueue])).stale c.expected
    rw [Caller.take, accept_of_stale hstale]
    exact .silent hunsent hsent hexpected htaken hresults
      (fun b hb => hcontrol b (by rw [hqueue]; exact List.mem_cons_of_mem _ hb))
  | @replying o start d earlier a h =>
    have hdrawn := h.queue
    rw [hqueue] at hdrawn
    rcases hdrawn.head with ⟨hzero, hstale, hrest⟩ | ⟨i, hget, hi, hrest⟩
    · -- a datagram from before the reply: the client still expects the first packet
      obtain ⟨-, -, -, hr⟩ := h.delivery.log_spec
      rw [hzero, List.take_zero] at hr
      have hnone : d.accepted.length = 0 := Nat.le_zero.mp hr
      have hfirst : c.expected = start := by
        rw [← h.expected, h.delivery.expected, hnone]
        simp
      rw [Caller.take, accept_of_stale (hfirst ▸ hstale)]
      exact .replying (d := d) ⟨h.session, h.expected, h.sent, h.header, h.data, h.count_lt,
        h.delivery, hrest, h.progress⟩
    · exact h.deliver hget hi hrest

/-- A new answer is handed to the session when the client has all the others. -/
theorem Conversation.send (h : c.Conversation) (hc : c.Settled)
    (hsend : o.send c.endpoint.sess = .ok t.sess) (hheader : o.plan.header = a.header)
    (hdata : o.plan.data = a.data) (hcount : o.plan.count < 4000)
    (htrace : t.sess.trace = c.endpoint.sess.trace ++ ws) :
    Conversation { c.served t with sent := c.sent ++ [a] } := by
  obtain ⟨-, hseq, htaken, hresults, hstale⟩ := h.settled hc
  have hnews : datagrams (t.sess.trace.drop c.endpoint.sess.trace.length) = datagrams ws := by
    rw [htrace, List.drop_left]
  have hlog : Delivery.log ⟨t.sess, datagrams c.endpoint.sess.trace, 0, c.expected, []⟩ =
      [] ++ datagrams ws := by
    rw [Delivery.log, htrace, datagrams_append, List.drop_left, List.nil_append]
  refine .replying (d := ⟨t.sess, datagrams c.endpoint.sess.trace, 0, c.expected, []⟩)
    ⟨rfl, rfl, rfl, hheader, hdata, hcount, ⟨Outgoing.underway hsend, ?_, ?_, Nat.zero_le _⟩, ?_,
      Or.inl ⟨o.plan.count_pos, htaken, hresults⟩⟩
  · rw [hseq]
    simp
  · intro i hi
    cases hi
  · rw [hlog, hseq]
    have hold : Drawn (Stale c.expected) [] 0 c.toClient := .of_old hstale
    have hdrawn := hold.append (Nat.zero_le _) (datagrams ws)
    simpa only [Caller.served, hnews] using hdrawn

end Caller

end Udpfsd
