import Udpfsd.Server.Calls

/-!
# Remote calls are local calls

The invariant behind the calls of a client. The requests under way are those of a
stop-and-wait peer; the one that the client is making reaches the server only after the
client has all replies to the others; and what the connection has seen, put through the
handlers without a network, leads to the same connection, the same filesystem and the same
answers.
-/

namespace Udpfsd

open Udprdma Udpfs LossyFifo

variable {σ : Type}

namespace Caller

variable {c : Caller σ}

/-! ### The invariant -/

/-- The payloads that the session has returned. -/
def returned (c : Caller σ) : List (List Byte) :=
  Input.requests c.inputs ++ c.endpoint.phase.waiting

/-- The client as a stop-and-wait peer of the session. An acknowledged request is behind it. -/
def system (c : Caller σ) : Udprdma.System :=
  ⟨c.endpoint.sess, c.returned, c.current + c.acked.toNat, c.toServer, c.toClient⟩

/-- The invariant. -/
structure Inv (F : FS σ) (fs : σ) (payloads : ℕ → { payload : List Byte // payload ≠ [] })
    (c : Caller σ) : Prop where
  /-- The requests are those of a stop-and-wait peer. -/
  peer : c.system.Inv payloads
  /-- A request that is acknowledged has been returned, and the next one is not under way. -/
  acked : c.acked = true → c.returned.length = c.current + 1 ∧
    ∀ b ∈ c.toServer, numberOf b ≠ some ((c.current + 1 : ℕ) : SeqNr)
  /-- Before the server has the request, it is idle and the client has all replies. -/
  waiting : c.returned.length = c.current → c.endpoint.phase = .idle ∧ c.Settled
  /-- The same holds until a reply is sent. -/
  busy : c.endpoint.phase ≠ .idle → c.Settled
  /-- The connection is where its inputs lead without a network. -/
  here : ∃ l, (Local.new fs).run F c.inputs = .ok l ∧ l.conn = c.endpoint.conn ∧
    l.fs = c.endpoint.fs ∧ l.answers = c.sent ++ c.endpoint.pending.toList
  /-- The replies. -/
  conversation : c.Conversation

section Steps

variable {F : FS σ} {fs : σ} {payloads : ℕ → { payload : List Byte // payload ≠ [] }}

/-- It holds at the start. -/
theorem inv_start (fs : σ) : (start fs).Inv F fs payloads where
  peer := by
    have hnew : Udprdma.System.start.Inv payloads := Udprdma.System.inv_start
    exact ⟨rfl, (hnew.speaks.step_isLocal (e := .setResetCallback) rfl rfl).rebase, hnew.underway,
      .waiting rfl ⟨by simp [system, start], by simp [system, start]⟩ Single.nil⟩
  acked := fun h => by cases h
  waiting := fun _ => ⟨rfl, rfl⟩
  busy := fun h => absurd rfl h
  here := ⟨_, rfl, rfl, rfl, rfl⟩
  conversation := by
    refine .silent ⟨⟨⟨?_, [], rfl, by simp⟩, fun _ hdata => by cases hdata⟩, rfl⟩ rfl rfl rfl rfl
      (by simp [start])
    have hempty : (start fs).endpoint.sess.ring = [] := Session.ring_eq_nil_iff.mpr rfl
    simp [hempty]

/-- The client sends a datagram that carries its request or nothing. -/
theorem Inv.enqueue (h : c.Inv F fs payloads) {datagram : List Byte}
    (hnew : ∀ p, parsePacket datagram = .ok (.ok p) → p.payload ≠ [] →
      c.acked = false ∧ p.hdr.seqNr = (c.current : SeqNr) ∧ p.payload = payloads c.current) :
    Inv F fs payloads { c with toServer := c.toServer ++ [datagram] } := by
  refine ⟨?_, ?_, h.waiting, h.busy, h.here, ?_⟩
  · refine h.peer.enqueue ?_
    intro p hparse hpayload
    obtain ⟨hacked, hrequest⟩ := hnew p hparse hpayload
    simpa only [system, hacked, Bool.toNat_false, Nat.add_zero] using hrequest
  · intro hacked
    obtain ⟨hlength, hold⟩ := h.acked hacked
    refine ⟨hlength, ?_⟩
    intro b hb
    rcases List.mem_append.mp hb with hb | hb
    · exact hold b hb
    · rw [List.mem_singleton.mp hb]
      unfold numberOf
      split
      · rename_i p hparse
        split_ifs with hpayload
        · simp
        · exact absurd (hacked.symm.trans (hnew p hparse hpayload).1) (by decide)
      · simp
  · exact h.conversation.of_eq rfl rfl rfl rfl rfl rfl

/-- A datagram on the way to the server is gone. -/
theorem Inv.tail (h : c.Inv F fs payloads) {datagram : List Byte} {rest : List (List Byte)}
    (hqueue : c.toServer = datagram :: rest) : Inv F fs payloads { c with toServer := rest } := by
  refine ⟨h.peer.tail hqueue, ?_, h.waiting, h.busy, h.here,
    h.conversation.of_eq rfl rfl rfl rfl rfl rfl⟩
  intro hacked
  obtain ⟨hlength, hold⟩ := h.acked hacked
  exact ⟨hlength, fun b hb => hold b (by rw [hqueue]; exact List.mem_cons_of_mem _ hb)⟩

variable {t : Endpoint σ} {c' : Caller σ}

section Receiving

variable (h : c.Inv F fs payloads)
include h

/-- The session has done something on its own, or a control packet or an old request has
arrived. -/
theorem Inv.beside (hspeaks : t.sess.Speaks c.endpoint.sess.trace (c.returned.length : SeqNr) 0)
    (hleads : c.endpoint.sess.Leads t.sess) (hconn : t.conn = c.endpoint.conn)
    (hfs : t.fs = c.endpoint.fs) (hphase : t.phase = c.endpoint.phase) :
    (c.served t).Inv F fs payloads := by
  have hreturned : (c.served t).returned = c.returned := by
    simp only [returned, Caller.served, hphase]
  have hpending : t.pending = c.endpoint.pending := by
    simp only [Endpoint.pending, hphase, hconn]
  have hsystem : (c.served t).system = c.system.served t.sess := by
    simp only [system, hreturned]
    rfl
  obtain ⟨ws, htrace, -⟩ := hspeaks.wrote
  refine ⟨?_, ?_, ?_, ?_, ?_, h.conversation.served htrace hleads⟩
  · rw [hsystem]
    exact h.peer.served hspeaks
  · rw [hreturned]
    exact h.acked
  · rw [hreturned]
    exact fun hlength => ⟨hphase.trans (h.waiting hlength).1, (h.waiting hlength).2⟩
  · exact fun hbusy => h.busy (hphase ▸ hbusy)
  · obtain ⟨l, hrun, hl, hlfs, hanswers⟩ := h.here
    exact ⟨l, hrun, hl.trans hconn.symm, hlfs.trans hfs.symm, by
      rw [hanswers]; simp only [Caller.served, hpending]⟩

/-- A session that has not been reset leaves connection and filesystem alone. -/
theorem onReset_eq {sess : Session} {base : List Write} {rx : SeqNr}
    (hspeaks : sess.Speaks base rx 0) :
    c.endpoint.onReset F sess = .ok (c.endpoint.conn, c.endpoint.fs) :=
  if_pos (hspeaks.resets.trans h.peer.speaks.resets.symm)

/-- The server returns a request of the client: it is the one that the client is making, and
the client has all replies. -/
theorem Inv.expected_request {datagram : List Byte} {p : Packet} (hmem : datagram ∈ c.toServer)
    (hparse : parsePacket datagram = .ok (.ok p)) (hpayload : p.payload ≠ [])
    (hnext : p.hdr.seqNr = (c.returned.length : SeqNr)) :
    c.acked = false ∧ c.returned.length = c.current := by
  have hnumber := Udprdma.System.numberOf_eq hparse hpayload
  have hacked : c.acked = false := by
    by_contra hacked
    obtain ⟨hlength, hold⟩ := h.acked (by simpa using hacked)
    exact hold datagram hmem (by rw [hnumber, hnext, hlength])
  refine ⟨hacked, ?_⟩
  cases h.peer.phase with
  | waiting hlength _ _ => simpa [system, hacked] using hlength
  | answered hlength hserver _ =>
    have hlength' : c.returned.length = c.current + 1 := by simpa [system, hacked] using hlength
    rcases hserver _ (List.mem_map_of_mem hmem) with hnone | hnew
    · rw [hnumber] at hnone
      cases hnone
    · have heq := Option.some.inj (hnumber.symm.trans hnew)
      rw [hnext, hlength'] at heq
      exact absurd heq (by simp [system, hacked])

/-- The request that the client is making reaches the server. -/
theorem Inv.accepted {datagram : List Byte} {rest : List (List Byte)} {p : Packet} {sess : Session}
    (hphase : c.endpoint.phase = .idle) (hqueue : c.toServer = datagram :: rest)
    (hparse : parsePacket datagram = .ok (.ok p)) (hpayload : p.payload ≠ [])
    (hnext : p.hdr.seqNr = (c.returned.length : SeqNr))
    (hspeaks : sess.Speaks c.endpoint.sess.trace ((c.returned.length : SeqNr) + 1) 0)
    (hleads : c.endpoint.sess.Leads sess) :
    Inv F fs payloads { c.served ⟨sess, c.endpoint.conn, c.endpoint.fs, c.endpoint.shared,
      .received p.payload⟩ with toServer := rest } := by
  obtain ⟨hacked, hlength⟩ := h.expected_request (by simp [hqueue]) hparse hpayload hnext
  have hidle : c.returned = Input.requests c.inputs := by
    simp [returned, hphase, Phase.waiting]
  have hsettled := (h.waiting hlength).2
  obtain ⟨ws, htrace, -⟩ := hspeaks.wrote
  have hpeer := h.peer.accepted hqueue hparse hpayload hnext hspeaks
  refine ⟨?_, ?_, ?_, fun _ => hsettled, ?_, ?_⟩
  · simp only [system, hidle] at hpeer
    exact hpeer
  · intro htrue
    exact absurd (htrue.symm.trans hacked) (by decide)
  · intro hshort
    rw [hidle] at hlength
    simp only [returned, Caller.served, Phase.waiting, List.length_append,
      List.length_singleton] at hshort
    omega
  · obtain ⟨l, hrun, hl, hlfs, hanswers⟩ := h.here
    refine ⟨l, hrun, hl, hlfs, ?_⟩
    rw [hanswers]
    simp [Endpoint.pending, hphase, Caller.served]
  · have hconversation := h.conversation.served
      (t := ⟨sess, c.endpoint.conn, c.endpoint.fs, c.endpoint.shared, .received p.payload⟩)
      htrace hleads
    exact hconversation.of_eq rfl rfl rfl rfl rfl rfl

/-- A datagram reaches the server. -/
theorem Inv.receive {datagram : List Byte} {rest : List (List Byte)}
    (hphase : c.endpoint.phase = .idle) (hqueue : c.toServer = datagram :: rest)
    (hok : c.endpoint.step F (.packet datagram) = .ok t) :
    Inv F fs payloads { c.served t with toServer := rest } := by
  have hsame (u : Session)
      (hspeaks : u.Speaks c.endpoint.sess.trace (c.returned.length : SeqNr) 0)
      (hleads : c.endpoint.sess.Leads u) : Inv F fs payloads { c.served ⟨u, c.endpoint.conn,
        c.endpoint.fs, c.endpoint.shared, .idle⟩ with toServer := rest } :=
    (h.beside (t := ⟨u, c.endpoint.conn, c.endpoint.fs, c.endpoint.shared, .idle⟩) hspeaks hleads
      rfl rfl hphase.symm).tail hqueue
  simp only [Endpoint.step, hphase] at hok
  split_ifs at hok
  · cases hok
    have hstay := hsame c.endpoint.sess h.peer.speaks (.refl _)
    rwa [← hphase] at hstay
  obtain ⟨⟨sess, r⟩, hsess, hok⟩ := Fallible.bind_eq_ok.mp hok
  obtain ⟨⟨conn, fs'⟩, hreset, hok⟩ := Fallible.bind_eq_ok.mp hok
  rcases Session.processDataPacket_cases (liftPanic_eq_ok.mp hsess) with
    ⟨err, rfl, rfl⟩ | ⟨p, payload, hparse, hp, rfl⟩
  · cases (onReset_eq h h.peer.speaks).symm.trans hreset
    cases hok
    exact hsame _ h.peer.speaks (.refl _)
  · have hnumber := h.peer.number_cases (by simp [system, hqueue]) hparse
    have hleads : c.endpoint.sess.Leads sess := by
      refine .processPacket ?_ hp
      rintro ⟨hpayload, hnext, hrepeat, -⟩
      rw [show c.endpoint.sess.rxSeqExpected = _ from h.peer.speaks.expected] at hnext hrepeat
      rcases hnumber with hnone | hnumber | hnumber
      · exact hpayload hnone
      · exact hnext hnumber
      · exact hrepeat hnumber
    rcases Session.processPacket_cases h.peer.speaks hp hnumber with
      ⟨hpayload, hnext, rfl, hspeaks⟩ | ⟨-, rfl, hspeaks⟩
    · cases (onReset_eq h hspeaks).symm.trans hreset
      cases hok
      exact h.accepted hphase hqueue hparse hpayload hnext hspeaks hleads
    · cases (onReset_eq h hspeaks).symm.trans hreset
      cases hok
      exact hsame _ hspeaks hleads

end Receiving

/-- Nothing is pending, so the buffer of the connection is not shared. -/
theorem refill_of_none {s : Session} (h : s.transfer.data = none) (shared : Option ℕ)
    (dataBuffer : Buffer Byte) : refill s shared dataBuffer = s := by
  cases shared with
  | none => rfl
  | some n =>
    have hsame : s.transfer.data.map (fun _ => dataBuffer.slice n) = s.transfer.data := by
      rw [h]
      rfl
    simp only [refill, hsame]

/-- The server has gone on with a request. -/
theorem Inv.work (h : c.Inv F fs payloads) (hphase : c.endpoint.phase ≠ .idle)
    (hreturned : c'.returned = c.returned) (hcurrent : c'.current = c.current)
    (hacked : c'.acked = c.acked) (hserver : c'.toServer = c.toServer)
    (hclient : c'.toClient = (c.served c'.endpoint).toClient)
    (hspeaks : c'.endpoint.sess.Speaks c.endpoint.sess.trace (c.returned.length : SeqNr) 0)
    (hbusy : c'.endpoint.phase ≠ .idle → c'.Settled)
    (hhere : ∃ l, (Local.new fs).run F c'.inputs = .ok l ∧ l.conn = c'.endpoint.conn ∧
      l.fs = c'.endpoint.fs ∧ l.answers = c'.sent ++ c'.endpoint.pending.toList)
    (hconversation : c'.Conversation) : c'.Inv F fs payloads := by
  have hsystem : c'.system = c.system.served c'.endpoint.sess := by
    simp only [system, hreturned, hcurrent, hacked, hserver, hclient]
    rfl
  refine ⟨?_, ?_, ?_, hbusy, hhere, hconversation⟩
  · rw [hsystem]
    exact h.peer.served hspeaks
  · rw [hreturned, hcurrent, hacked, hserver]
    exact h.acked
  · rw [hreturned, hcurrent]
    exact fun hlength => absurd (h.waiting hlength).1 hphase

/-- The request is handled. -/
theorem Inv.handle (h : c.Inv F fs payloads) {payload : List Byte} {out : Outcome σ}
    (hphase : c.endpoint.phase = .received payload)
    (hout : c.endpoint.conn.handlePayload F c.endpoint.fs payload = .ok out) :
    Inv F fs payloads { c.served ⟨refill c.endpoint.sess c.endpoint.shared out.conn.dataBuffer,
      out.conn, out.fs, c.endpoint.shared, .handled out.reply⟩ with
        inputs := c.inputs ++ [.request payload] } := by
  have hne : c.endpoint.phase ≠ .idle := by
    rw [hphase]
    exact Phase.noConfusion
  obtain ⟨hnone, -⟩ := h.conversation.settled (h.busy hne)
  rw [refill_of_none hnone]
  refine h.work hne ?_ rfl rfl rfl rfl h.peer.speaks (fun _ => h.busy hne) ?_ ?_
  · simp [Input.requests, returned, hphase, Phase.waiting, Input.payload?, Caller.served]
  · obtain ⟨l, hrun, hl, hlfs, hanswers⟩ := h.here
    have hwas : c.endpoint.pending = none := by simp [Endpoint.pending, hphase]
    have hstep : l.step F (.request payload) = .ok ⟨out.conn, out.fs,
        c.sent ++ (out.reply.answer (sliceOf out.conn.dataBuffer out.reply.data)).toList⟩ := by
      refine Fallible.bind_eq_ok.mpr ⟨out, by rw [hl, hlfs]; exact hout, ?_⟩
      rw [hl, hlfs, Connection.answer_eq hout, hanswers, hwas, Option.toList_none,
        List.append_nil]
      rfl
    exact ⟨_, Local.run_append hrun hstep, rfl, rfl, rfl⟩
  · exact h.conversation.of_eq rfl rfl rfl rfl rfl (by simp [Caller.served, datagrams])

/-- A reply without an answer is an acknowledgement. -/
theorem eq_ack_of_answer_eq_none {reply : Reply} {data : List Byte}
    (h : reply.answer data = none) : reply = .ack := by
  cases reply <;> first | rfl | cases h

/-- A reply is a local event of the session. -/
theorem send_eq_step (reply : Reply) (dataBuffer : Buffer Byte) :
    ∃ e : Udprdma.Event, e.isLocal = true ∧
      ∀ s : Session, reply.send dataBuffer s = s.step e := by
  cases reply with
  | ack => exact ⟨.sendACK true, rfl, fun _ => rfl⟩
  | readResult result data =>
    exact ⟨.sendRawDataWithHeader (packResultReply result) (some (sliceOf dataBuffer data)), rfl,
      fun _ => rfl⟩
  | _ => exact ⟨.sendData (some _), rfl, fun _ => rfl⟩

/-- The reply is handed to the session. -/
theorem Inv.send (h : c.Inv F fs payloads) {reply : Reply} {sess : Session}
    (hphase : c.endpoint.phase = .handled reply) (hfits : reply.Fits)
    (hok : reply.send c.endpoint.conn.dataBuffer c.endpoint.sess = .ok sess) :
    Inv F fs payloads { c.served { c.endpoint with
        sess := sess
        shared := reply.sharing c.endpoint.shared
        phase := .idle } with sent := c.sent ++ c.endpoint.pending.toList } := by
  have hne : c.endpoint.phase ≠ .idle := by
    rw [hphase]
    exact Phase.noConfusion
  have hspeaks : sess.Speaks c.endpoint.sess.trace (c.returned.length : SeqNr) 0 := by
    obtain ⟨e, hlocal, hsend⟩ := send_eq_step reply c.endpoint.conn.dataBuffer
    exact h.peer.speaks.step_isLocal hlocal (hsend _ ▸ hok)
  obtain ⟨ws, htrace, -⟩ := hspeaks.wrote
  have hpending : c.endpoint.pending =
      reply.answer (sliceOf c.endpoint.conn.dataBuffer reply.data) := by
    simp only [Endpoint.pending, hphase]
  refine h.work hne ?_ rfl rfl rfl rfl hspeaks (fun hidle => absurd rfl hidle) ?_ ?_
  · simp [returned, hphase, Phase.waiting, Caller.served]
  · obtain ⟨l, hrun, hl, hlfs, hanswers⟩ := h.here
    exact ⟨l, hrun, hl, hlfs, by rw [hanswers]; simp [Endpoint.pending, Caller.served]⟩
  · cases ha : c.endpoint.pending with
    | none =>
      obtain rfl := eq_ack_of_answer_eq_none (hpending.symm.trans ha)
      cases hok
      have hsent := h.conversation.served (t := { c.endpoint with
        sess := c.endpoint.sess.sendACK true
        shared := Reply.ack.sharing c.endpoint.shared
        phase := .idle }) htrace (fun P hP _ hs => hP.sendACK _ true hs)
      exact hsent.of_eq rfl (by simp [Caller.served]) rfl rfl rfl rfl
    | some a =>
      obtain ⟨o, hsend, hheader, hdata, hcount⟩ := hfits.outgoing (hpending.symm.trans ha)
      have hnew := h.conversation.send (h.busy hne) (t := { c.endpoint with
        sess := sess
        shared := reply.sharing c.endpoint.shared
        phase := .idle }) ((hsend _).symm.trans hok) hheader hdata hcount htrace
      exact hnew.of_eq rfl rfl rfl rfl rfl rfl

/-- The server works, its timer runs, or others change the filesystem. -/
theorem Inv.server (h : c.Inv F fs payloads) {event : Endpoint.Event σ}
    (hevent : ∀ data, event ≠ .packet data) (hfits : c.endpoint.phase.Fits)
    (hok : c.endpoint.step F event = .ok t) :
    Inv F fs payloads { c.served t with
      inputs := c.nextInputs event
      sent := c.nextSent event } := by
  have hstay (inputs : List (Input σ)) (sent : List Answer) (hi : inputs = c.inputs)
      (hs : sent = c.sent) :
      Inv F fs payloads { c.served c.endpoint with inputs := inputs, sent := sent } := by
    simpa [Caller.served, datagrams, hi, hs] using h
  unfold Endpoint.step at hok
  cases event with
  | packet data => exact absurd rfl (hevent data)
  | handle =>
    cases hphase : c.endpoint.phase with
    | received payload =>
      simp only [hphase] at hok
      obtain ⟨out, hout, ht⟩ := Fallible.bind_eq_ok.mp hok
      cases ht
      simp only [nextInputs, hphase]
      exact h.handle hphase hout
    | _ =>
      simp only [hphase] at hok
      cases hok
      exact hstay _ _ (by simp [nextInputs, hphase, Phase.waiting]) rfl
  | send =>
    cases hphase : c.endpoint.phase with
    | handled reply =>
      simp only [hphase] at hok
      obtain ⟨sess, hsess, ht⟩ := Fallible.bind_eq_ok.mp hok
      cases ht
      rw [hphase] at hfits
      exact h.send hphase hfits (liftPanic_eq_ok.mp hsess)
    | _ =>
      simp only [hphase] at hok
      cases hok
      exact hstay _ _ rfl (by simp [nextSent, Endpoint.pending, hphase])
  | expire =>
    cases hok
    exact h.beside (h.peer.speaks.step_isLocal (e := .expire) rfl rfl)
      (fun P hP _ hs => hP.expire _ hs) rfl rfl rfl
  | callback i =>
    cases hok
    exact h.beside (h.peer.speaks.step_isLocal (e := .callback i) rfl rfl)
      (fun P hP _ hs => hP.callback _ i hs) rfl rfl rfl
  | elsewhere fs' =>
    cases hok
    have hrequests : Input.requests (c.inputs ++ [.elsewhere fs']) = Input.requests c.inputs := by
      simp [Input.requests, Input.payload?]
    have hqueue : c.toClient ++ datagrams
        (c.endpoint.sess.trace.drop c.endpoint.sess.trace.length) = c.toClient := by
      simp [datagrams]
    refine ⟨?_, ?_, ?_, h.busy, ?_, h.conversation.of_eq rfl rfl rfl rfl rfl hqueue⟩
    · simp only [system, returned, nextInputs, Caller.served, hrequests, hqueue]
      exact h.peer
    · simp only [returned, nextInputs, Caller.served, hrequests]
      exact h.acked
    · simp only [returned, nextInputs, Caller.served, hrequests]
      exact h.waiting
    · obtain ⟨l, hrun, hl, hlfs, hanswers⟩ := h.here
      exact ⟨{ l with fs := fs' }, Local.run_append hrun rfl, hl, rfl, hanswers⟩

/-- The client leaves the server's side alone. -/
theorem accept_frame (c : Caller σ) (datagram : List Byte) :
    (c.accept datagram).endpoint = c.endpoint ∧ (c.accept datagram).inputs = c.inputs ∧
      (c.accept datagram).sent = c.sent ∧ (c.accept datagram).current = c.current ∧
      (c.accept datagram).toServer = c.toServer := by
  unfold accept
  split
  · split_ifs <;> exact ⟨rfl, rfl, rfl, rfl, rfl⟩
  · exact ⟨rfl, rfl, rfl, rfl, rfl⟩

/-- The client, acknowledged or not, has lost a datagram from its queue. -/
theorem system_take (c : Caller σ) (datagram : List Byte) (rest : List (List Byte)) :
    (c.take datagram rest).system = { c.system with
      current := c.current + (c.take datagram rest).acked.toNat
      toPeer := rest } := by
  obtain ⟨hendpoint, hinputs, -, hcurrent, hserver⟩ := c.accept_frame datagram
  simp only [system, returned, Caller.take, hendpoint, hinputs, hcurrent, hserver]

/-- Of a request that has been acknowledged no further acknowledgement matters. -/
theorem Inv.ackOf_ne (h : c.Inv F fs payloads) (hacked : c.acked = true) {datagram : List Byte}
    (hmem : datagram ∈ c.toClient) : ackOf datagram ≠ some ((c.current + 1 : ℕ) : SeqNr) := by
  obtain ⟨hlength, -⟩ := h.acked hacked
  intro hack
  cases h.peer.phase with
  | waiting _ _ hpeer =>
    rcases hpeer _ (List.mem_map_of_mem hmem) with hnone | hold
    · rw [hack] at hnone
      cases hnone
    · have heq := Option.some.inj (hack.symm.trans hold)
      simp only [system, hacked, Bool.toNat_true] at heq
      exact Udprdma.System.pred_ne _ heq.symm
  | answered hlength' _ _ =>
    simp only [system, hacked, Bool.toNat_true] at hlength'
    omega

/-- The request is acknowledged. -/
theorem Inv.answered (h : c.Inv F fs payloads) (hacked : c.acked = false) {datagram : List Byte}
    (hmem : datagram ∈ c.toClient) (hack : ackOf datagram = some (c.current : SeqNr)) :
    c.returned.length = c.current + 1 ∧
      ∀ b ∈ c.toServer, numberOf b ≠ some ((c.current + 1 : ℕ) : SeqNr) := by
  have hcurrent : c.system.current = c.current := by simp [system, hacked]
  cases h.peer.phase with
  | waiting _ _ hpeer =>
    rcases hpeer _ (List.mem_map_of_mem hmem) with hnone | hold
    · rw [hack] at hnone
      cases hnone
    · rw [hcurrent] at hold
      exact absurd (Option.some.inj (hack.symm.trans hold)).symm (Udprdma.System.pred_ne _)
  | answered hlength hserver _ =>
    rw [hcurrent] at hlength hserver
    refine ⟨hlength, ?_⟩
    intro b hb hnext
    rcases hserver _ (List.mem_map_of_mem hb) with hnone | hnew
    · rw [hnext] at hnone
      cases hnone
    · have heq := Option.some.inj (hnext.symm.trans hnew)
      exact absurd heq (by simp)

/-- A datagram reaches the client. -/
theorem Inv.take (h : c.Inv F fs payloads) {datagram : List Byte} {rest : List (List Byte)}
    (hqueue : c.toClient = datagram :: rest) : (c.take datagram rest).Inv F fs payloads := by
  obtain ⟨hendpoint, hinputs, hsent, hcurrent, hserver⟩ := c.accept_frame datagram
  have hmem : datagram ∈ c.toClient := by simp [hqueue]
  have hreturned : (c.take datagram rest).returned = c.returned := by
    simp only [returned, Caller.take, hendpoint, hinputs]
  -- a client that has everything takes nothing
  have hsettled : c.Settled → (c.take datagram rest).Settled := by
    intro hc
    obtain ⟨-, -, -, -, hstale⟩ := h.conversation.settled hc
    rw [Caller.take, accept_of_stale (hstale datagram hmem)]
    exact hc
  refine ⟨?_, ?_, ?_, ?_, ?_, h.conversation.take hqueue⟩
  · rw [system_take]
    cases hacked : c.acked with
    | true =>
      have hstep := h.peer.step (.other hqueue (by
        simpa only [system, hacked, Bool.toNat_true] using h.ackOf_ne hacked hmem))
      simpa only [system, Caller.take, hacked, Bool.true_or] using hstep
    | false =>
      by_cases hack : ackOf datagram = some (c.current : SeqNr)
      · have hstep := h.peer.step (.acknowledged hqueue (by simpa [system, hacked] using hack))
        simpa only [system, Caller.take, hacked, hack, Bool.false_or, decide_true,
          Bool.toNat_true, Bool.toNat_false, Nat.add_zero] using hstep
      · have hstep := h.peer.step (.other hqueue (by simpa [system, hacked] using hack))
        simpa only [system, Caller.take, hacked, hack, Bool.false_or, decide_false] using hstep
  · intro hacked'
    rw [hreturned]
    simp only [Caller.take, hcurrent, hserver]
    simp only [Caller.take, Bool.or_eq_true, decide_eq_true_eq] at hacked'
    cases hacked : c.acked with
    | true => exact h.acked hacked
    | false => exact h.answered hacked hmem (hacked'.resolve_left (by simp [hacked]))
  · rw [hreturned]
    simp only [Caller.take, hcurrent, hendpoint]
    exact fun hlength => ⟨(h.waiting hlength).1, hsettled (h.waiting hlength).2⟩
  · simp only [Caller.take, hendpoint]
    exact fun hbusy => hsettled (h.busy hbusy)
  · simp only [Caller.take, hendpoint, hinputs, hsent]
    exact h.here

/-- Every step keeps the invariant. -/
theorem Inv.step (h : c.Inv F fs payloads) (hstep : Step F payloads c c') :
    c'.Inv F fs payloads := by
  cases hstep with
  | request hacked hparse hseq hpayload =>
    refine h.enqueue ?_
    intro p' hparse' _
    cases hparse.symm.trans hparse'
    exact ⟨hacked, hseq, hpayload⟩
  | control hnone =>
    exact h.enqueue (fun p hparse hpayload => absurd (hnone p hparse) hpayload)
  | receive hphase hqueue hok => exact h.receive hphase hqueue hok
  | server hevent hfits hok => exact h.server hevent hfits hok
  | take hqueue => exact h.take hqueue
  | next hacked hphase hsettled =>
    obtain ⟨hlength, -⟩ := h.acked hacked
    refine ⟨?_, ?_, fun _ => ⟨hphase, hsettled⟩, h.busy, h.here,
      h.conversation.of_eq rfl rfl rfl rfl rfl rfl⟩
    · have hpeer := h.peer
      simp only [system, hacked, Bool.toNat_true] at hpeer
      exact hpeer
    · intro hfalse
      cases hfalse
  | disturbToServer hqueue =>
    refine ⟨h.peer.step (.disturbToServer hqueue), ?_, h.waiting, h.busy, h.here,
      h.conversation.of_eq rfl rfl rfl rfl rfl rfl⟩
    exact fun hacked => ⟨(h.acked hacked).1, fun b hb => (h.acked hacked).2 b (hqueue.mem hb)⟩
  | disturbToClient hqueue =>
    refine ⟨h.peer.step (.disturbToPeer hqueue), h.acked, h.waiting, h.busy, h.here, ?_⟩
    cases h.conversation with
    | silent h₁ h₂ h₃ h₄ h₅ h₆ => exact .silent h₁ h₂ h₃ h₄ h₅ (fun b hb => h₆ b (hqueue.mem hb))
    | replying h =>
      exact .replying ⟨h.session, h.expected, h.sent, h.header, h.data, h.count_lt, h.delivery,
        h.queue.disturbed hqueue, h.progress⟩

/-- It holds throughout. -/
theorem Reachable.inv (h : Reachable F fs payloads c) : c.Inv F fs payloads := by
  refine Transition.Reachable.invariant ?_ ?_ h
  · rintro c rfl
    exact inv_start fs
  · intro c c' _ hc hstep
    exact hc.step hstep

/-- What the client has of replies is a first part of the answers: all that are sent, or all
but a last one, of which it has a first part. -/
theorem Conversation.results (h : c.Conversation) :
    (c.results = c.sent.map padded ∧ c.taken = []) ∨
      ∃ earlier a, c.sent = earlier ++ [a] ∧ c.results = earlier.map padded ∧
        c.taken.flatMap Packet.payload <+: padded a := by
  cases h with
  | silent _ hsent _ htaken hresults _ => exact Or.inl ⟨by rw [hresults, hsent]; rfl, htaken⟩
  | @replying o start d earlier a h =>
    rcases h.progress with ⟨hless, htaken, hresults⟩ | ⟨-, htaken, hresults⟩
    · refine Or.inr ⟨earlier, a, h.sent, hresults, ?_⟩
      have hfirst := (h.delivery.first_part hless).1
      rw [htaken]
      refine hfirst.trans ?_
      rw [o.content_eq, h.header, h.data, padded]
      exact List.prefix_append _ _
    · exact Or.inl ⟨by rw [hresults, h.sent], htaken⟩

/-- The requests that were handled are the first ones of the client. -/
theorem Inv.requests (h : c.Inv F fs payloads) :
    (∃ n, (n = c.current ∨ n = c.current + 1) ∧
      Input.requests c.inputs = (List.range n).map (fun k => (payloads k).val)) ∧
    (c.acked = true → c.endpoint.phase = .idle →
      (Input.requests c.inputs).length = c.current + 1) := by
  have hreturned : c.returned =
      (List.range c.returned.length).map (fun k => (payloads k).val) := h.peer.returned
  have hlength : c.returned.length = c.current ∨ c.returned.length = c.current + 1 := by
    cases hacked : c.acked with
    | true => exact Or.inr (h.acked hacked).1
    | false =>
      cases h.peer.phase with
      | waiting hlength _ _ => exact Or.inl (by simpa [system, hacked] using hlength)
      | answered hlength _ _ => exact Or.inr (by simpa [system, hacked] using hlength)
  cases hphase : c.endpoint.phase with
  | received payload =>
    -- the last payload returned still waits for its handler
    have hnot : c.returned.length ≠ c.current := by
      intro heq
      have hidle := (h.waiting heq).1
      rw [hphase] at hidle
      cases hidle
    have hsplit : c.returned = Input.requests c.inputs ++ [payload] := by
      simp only [returned, hphase, Phase.waiting]
    rw [hlength.resolve_left hnot, hsplit, List.range_succ, List.map_append] at hreturned
    refine ⟨⟨c.current, Or.inl rfl, (List.append_inj' hreturned rfl).1⟩, ?_⟩
    exact fun _ hidle => by cases hidle
  | _ =>
    have hsplit : c.returned = Input.requests c.inputs := by
      simp only [returned, hphase, Phase.waiting, List.append_nil]
    refine ⟨⟨c.returned.length, hlength, hsplit ▸ hreturned⟩, fun hacked _ => ?_⟩
    rw [← hsplit]
    exact (h.acked hacked).1

/-- Calls over the network are calls of the handlers. In every reachable state the requests
that were handled are the first ones of the client, each once and in order, up to the one it
is making; the connection and the filesystem are where these requests, and what other
clients did in between, lead without a network; and the replies that the client has are the
answers of the handlers to them, in order, and a first part of the next answer. -/
theorem remote_calls_are_local (h : Reachable F fs payloads c) :
    (∃ n, (n = c.current ∨ n = c.current + 1) ∧
      Input.requests c.inputs = (List.range n).map (fun k => (payloads k).val)) ∧
    (c.acked = true → c.endpoint.phase = .idle →
      (Input.requests c.inputs).length = c.current + 1) ∧
    ∃ l, (Local.new fs).run F c.inputs = .ok l ∧ l.conn = c.endpoint.conn ∧
      l.fs = c.endpoint.fs ∧
      c.results = (l.answers.take c.results.length).map padded ∧
      l.answers.length ≤ c.results.length + 1 ∧
      c.taken.flatMap Packet.payload <+:
        (l.answers.drop c.results.length).flatMap padded := by
  have hinv := h.inv
  obtain ⟨l, hrun, hl, hlfs, hanswers⟩ := hinv.here
  refine ⟨hinv.requests.1, hinv.requests.2, l, hrun, hl, hlfs, ?_⟩
  rcases hinv.conversation.results with ⟨hresults, htaken⟩ | ⟨earlier, a, hsent, hresults, htaken⟩
  · have hone : c.endpoint.pending.toList.length ≤ 1 := by
      cases c.endpoint.pending <;> simp
    have hlength : c.results.length = c.sent.length := by rw [hresults, List.length_map]
    refine ⟨?_, ?_, by simp [htaken]⟩
    · rw [hanswers, hlength, List.take_left, hresults]
    · rw [hanswers, hlength, List.length_append]
      omega
  · -- a reply that is not complete has been sent, so no other one is at work
    have hidle : c.endpoint.phase = .idle := by
      by_contra hbusy
      have hsettled := hinv.busy hbusy
      rw [Settled, hresults, hsent] at hsettled
      simp at hsettled
    have hall : l.answers = earlier ++ [a] := by
      rw [hanswers, hsent]
      simp [Endpoint.pending, hidle]
    have hlength : c.results.length = earlier.length := by rw [hresults, List.length_map]
    refine ⟨?_, ?_, ?_⟩
    · rw [hall, hlength, List.take_left, hresults]
    · rw [hall, hlength, List.length_append, List.length_singleton]
    · rw [hall, hlength, List.drop_left]
      simpa using htaken

/-! ### A call -/

/-- A request for the first sector of the device. -/
def firstSector : List Byte := [0x28, 0, 1, 0, 0, 0, 0, 0, 0, 0, 0, 0, 0, 0, 0, 0]

/-- The server does its next step, if the reply fits. -/
def serve (F : FS σ) (c : Caller σ) (event : Endpoint.Event σ) : Except Fault (Caller σ) := do
  let t ← c.endpoint.step F event
  return if c.endpoint.phase.Fits then
    { c.served t with inputs := c.nextInputs event, sent := c.nextSent event } else c

/-- The request arrives, is handled and answered; one datagram after the other reaches the
client. -/
def oneCall (F : FS σ) (fs : σ) : Except Fault (Caller σ) := do
  let datagram := dataPacket 0 0xFFF true [] firstSector
  let t ← (start fs).endpoint.step F (.packet datagram)
  let c := (start fs).served t
  let c ← c.serve F .handle
  let c ← c.serve F .send
  return c.toClient.foldl (fun c b => c.take b c.toClient.tail) c

theorem Reachable.serve (h : Reachable F fs payloads c) {event : Endpoint.Event σ}
    (hevent : ∀ data, event ≠ .packet data)
    (hok : c.serve F event = .ok c') : Reachable F fs payloads c' := by
  obtain ⟨t, ht, hok⟩ := Fallible.bind_eq_ok.mp hok
  cases hok
  split_ifs with hfits
  · exact h.next (.server hevent hfits ht)
  · exact h

/-- The caller takes what has arrived. -/
theorem Reachable.take_all (h : Reachable F fs payloads c) (queue : List (List Byte))
    (hqueue : c.toClient = queue) :
    Reachable F fs payloads (queue.foldl (fun c b => c.take b c.toClient.tail) c) := by
  induction queue generalizing c with
  | nil => exact h
  | cons b queue ih =>
    have htail : c.toClient.tail = queue := by rw [hqueue, List.tail_cons]
    rw [List.foldl_cons, htail]
    exact ih (h.next (.take hqueue)) rfl

theorem oneCall_reachable (hok : oneCall F fs = .ok c) :
    Reachable F fs (fun _ => ⟨firstSector, by decide⟩) c := by
  obtain ⟨t, ht, hok⟩ := Fallible.bind_eq_ok.mp hok
  obtain ⟨c₁, hc₁, hok⟩ := Fallible.bind_eq_ok.mp hok
  obtain ⟨c₂, hc₂, hok⟩ := Fallible.bind_eq_ok.mp hok
  cases hok
  have hasked : Reachable F fs (fun _ => ⟨firstSector, by decide⟩)
      { start fs with toServer := [dataPacket 0 0xFFF true [] firstSector] } :=
    .next (.start rfl) (.request rfl rfl rfl rfl)
  have hreceived : Reachable F fs (fun _ => ⟨firstSector, by decide⟩) ((start fs).served t) :=
    hasked.next (.receive rfl rfl ht)
  exact ((hreceived.serve (by simp) hc₁).serve (by simp) hc₂).take_all _ rfl

end Steps

/-- What a client of a served host has after one call. -/
def resultsAfter (o : Fs.Options) (host : Fs.Host) : Option (Bool × List (List Byte)) :=
  Fs.Backend.observe Fs.Host.platform o host id (fun fs (_ : Unit) => .ok fs) []
    (oneCall (Fs.Backend.fs Fs.Host.platform)) (fun _ c => (c.acked, c.results))

/-- The client has the first sector, and the call is acknowledged. -/
theorem remote_calls_are_local_of_one_read :
    ∃ (fs : Fs.Backend Fs.Host Fs.OsFile Fs.Host.Image)
      (c : Caller (Fs.Backend Fs.Host Fs.OsFile Fs.Host.Image)),
      Reachable (Fs.Backend.fs Fs.Host.platform) fs (fun _ => ⟨firstSector, by decide⟩) c ∧
      c.acked = true ∧ c.results = [packResultReply 4 ++ [1, 1, 1, 1]] ∧
      ∃ l, (Local.new fs).run (Fs.Backend.fs Fs.Host.platform) c.inputs = .ok l ∧
        c.results = (l.answers.take c.results.length).map padded := by
  have hview : resultsAfter serveDevice numberedHost =
      some (true, [packResultReply 4 ++ [1, 1, 1, 1]]) := by decide +kernel
  obtain ⟨fs, _, c, -, ⟨⟩, hrun, hseen⟩ := Fs.Backend.observe_eq_some hview
  obtain ⟨hacked, hresult⟩ := Prod.mk.inj hseen
  have hreach := oneCall_reachable hrun
  obtain ⟨-, -, l, hl, -, -, hresults, -⟩ := remote_calls_are_local hreach
  exact ⟨fs, c, hreach, hacked, hresult, l, hl, hresults⟩

end Caller

end Udpfsd
