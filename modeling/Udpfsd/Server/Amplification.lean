import Udpfsd.Server.Daemon
import Udpfsd.Udprdma.Output

/-!
# The server does not amplify

Anyone can send a datagram in someone else's name, and the answers go to the address it
names. So what matters is how many datagrams an address can be sent for one that seems to
come from it, with the repetitions that nobody acknowledges. Each datagram received pays for
its own acknowledgement, for the packets it lets through, for one reply, and for all rounds
of the timer; nothing else makes the server write.
-/

namespace Udpfsd

open Udprdma Udpfs Fs

variable {κ η φ ρ : Type}

/-- The cost of a datagram and of its reply. -/
def datagramCost : ℕ := Session.receiptCost + Session.transferCost

/-- What is still to be paid for the datagram that is being handled. -/
def Stage.owed : Option Stage → ℕ
  | none => 0
  | some (.found _) => datagramCost
  | some (.fetched _) => datagramCost
  | some .returned => Session.transferCost
  | some .called => Session.transferCost

/-- A reply is paid for. -/
theorem charged_send {reply : Reply} {dataBuffer : Buffer Byte} {s t : Session} (hs : s.Bounded)
    (hok : reply.send dataBuffer s = .ok t) :
    t.Bounded ∧ t.charged ≤ s.charged + Session.transferCost := by
  cases reply with
  | ack =>
    cases hok
    exact Session.charged_sendACK hs true
  | readResult result data => exact Session.charged_sendRawDataWithHeader hs hok
  | _ => exact Session.charged_sendData hs hok

/-- Writing to the data buffer writes no datagram. -/
theorem charged_refill {s : Session} (hs : s.Bounded) (shared : Option ℕ)
    (dataBuffer : Buffer Byte) :
    (refill s shared dataBuffer).Bounded ∧ (refill s shared dataBuffer).charged = s.charged := by
  cases shared with
  | none => exact ⟨hs, rfl⟩
  | some n => exact ⟨⟨hs.1, hs.2⟩, rfl⟩

namespace Daemon

/-- A datagram of this address that is long enough to be handled. -/
def Event.isFrom [DecidableEq κ] (addr : κ) : Event κ → Bool
  | .datagram a data => a = addr && headerSize + dataHeaderSize ≤ data.length
  | _ => false

/-- The cost of an event for an address. -/
def Event.cost [DecidableEq κ] (e : Event κ) (addr : κ) : ℕ :=
  if e.isFrom addr then datagramCost else 0

variable [DecidableEq κ] {P : Platform η φ ρ} {o : Options} {host : η} {d d' : Daemon κ η φ ρ}
  {addr a : κ} {l : Link} {s s' : Stage}

/-- The number of datagrams written to an address by sessions of peers that have been let go. -/
def gone (d : Daemon κ η φ ρ) (addr : κ) : ℕ :=
  ((d.removed.filter (fun r => r.1 = addr)).map (fun r => r.2.written)).sum

/-- The number of datagrams written to an address. -/
def written (d : Daemon κ η φ ρ) (addr : κ) : ℕ :=
  ((d.links addr).map (fun l => l.sess.written)).getD 0 + d.gone addr

/-- What the session of an address has written and can write by itself. -/
def held (d : Daemon κ η φ ρ) (addr : κ) : ℕ :=
  ((d.links addr).map (fun l => l.sess.charged)).getD 0

/-- What has been written to an address and what can be written without another datagram
of it. -/
def charged (d : Daemon κ η φ ρ) (addr : κ) : ℕ :=
  d.held addr + Stage.owed (d.stage addr) + d.gone addr

theorem written_le_charged (d : Daemon κ η φ ρ) (addr : κ) : d.written addr ≤ d.charged addr := by
  unfold written charged held
  cases d.links addr with
  | none =>
    simp only [Option.map_none, Option.getD_none]
    omega
  | some l =>
    simp only [Option.map_some, Option.getD_some, Session.charged]
    omega

omit [DecidableEq κ] in
theorem held_of_link (hl : d.links addr = some l) : d.held addr = l.sess.charged := by
  simp [held, hl]

omit [DecidableEq κ] in
theorem held_of_none (hl : d.links addr = none) : d.held addr = 0 := by
  simp [held, hl]

theorem charged_eq {n k : ℕ} {g : Option Stage} (hheld : d.held addr = n)
    (hstage : d.stage addr = g) (hgone : d.gone addr = k) :
    d.charged addr = n + Stage.owed g + k := by
  rw [charged, hheld, hstage, hgone]

/-- A peer that is let go has written what it has written. -/
theorem gone_retire (d : Daemon κ η φ ρ) (addr : κ) (l : Link) (a : κ) :
    (d.retire addr l).gone a = d.gone a + if addr = a then l.sess.written else 0 := by
  unfold gone Daemon.retire
  by_cases ha : addr = a <;> simp [List.filter_append, ha]

/-- The sessions of all peers that are held are in order. -/
def Bounded (d : Daemon κ η φ ρ) : Prop := d.Links (fun _ l => l.sess.Bounded)

/-- The daemon after an event, with the cost of the event for each address. -/
structure Pays (d d' : Daemon κ η φ ρ) (cost : κ → ℕ) : Prop where
  /-- The sessions stay in order. -/
  bounded : d'.Bounded
  /-- The cost. -/
  charged : ∀ addr, d'.charged addr ≤ d.charged addr + cost addr

theorem Pays.refl (h : d.Bounded) (cost : κ → ℕ) : Pays d d cost :=
  ⟨h, fun _ => Nat.le_add_right _ _⟩

/-- The filesystem does not matter. -/
theorem Pays.withFs {cost : κ → ℕ} (fs : Backend η φ ρ) (h : Pays { d with fs := fs } d' cost) :
    Pays d d' cost :=
  ⟨h.bounded, h.charged⟩

/-- Only one peer changes. -/
theorem Pays.change {c : κ} {cost : κ → ℕ} (hbounded : d'.Bounded)
    (hother : ∀ a, a ≠ c →
      d'.links a = d.links a ∧ d'.stage a = d.stage a ∧ d'.gone a = d.gone a)
    (hc : d'.charged c ≤ d.charged c + cost c) : Pays d d' cost := by
  refine ⟨hbounded, fun a => ?_⟩
  by_cases ha : a = c
  · subst ha
    exact hc
  · obtain ⟨hlinks, hstage, hgone⟩ := hother a ha
    unfold Daemon.charged held
    rw [hlinks, hstage, hgone]
    exact Nat.le_add_right _ _

/-- The session of a peer changes. -/
theorem Pays.setLink (h : d.Bounded) (hbounded : l.sess.Bounded)
    (hcharged : l.sess.charged ≤ d.held addr) (cost : κ → ℕ) :
    Pays d (d.setLink addr l) cost := by
  refine .change (h.setLink hbounded) (fun a ha => ⟨links_setLink_of_ne ha d l, rfl, rfl⟩) ?_
  have hheld := held_of_link (links_setLink_self d addr l)
  have hrest : Stage.owed ((d.setLink addr l).stage addr) + (d.setLink addr l).gone addr =
      Stage.owed (d.stage addr) + d.gone addr := rfl
  unfold Daemon.charged
  omega

/-- A peer is let go. -/
theorem Pays.retire (h : d.Bounded) (hcharged : l.sess.charged ≤ d.held addr) (cost : κ → ℕ) :
    Pays d (d.retire addr l) cost := by
  refine .change (h.retire addr l) (fun a ha => ⟨links_retire_of_ne ha d l, rfl, ?_⟩) ?_
  · simp [gone_retire, Ne.symm ha]
  · have hheld : (d.retire addr l).held addr = 0 := by
      simp [held, links_retire_self]
    have hgone := gone_retire d addr l addr
    have hstage : (d.retire addr l).stage addr = d.stage addr := rfl
    rw [if_pos rfl] at hgone
    unfold Daemon.charged
    unfold Session.charged at hcharged
    rw [hstage]
    omega

/-- A step of the goroutine that handles data. -/
theorem Pays.settle (h : d.Bounded) (hbusy : d.busy = some (addr, s)) (hbounded : l.sess.Bounded)
    (hidle : l.sess.charged ≤ d.held addr + Stage.owed (some s))
    (hgo : l.phase ≠ .idle →
      l.sess.charged + Stage.owed (some s') ≤ d.held addr + Stage.owed (some s))
    (cost : κ → ℕ) : Pays d (d.settle addr l s') cost := by
  have hlinks : (d.settle addr l s').Bounded :=
    Links.settle h hbusy (fun _ _ => hbounded) (fun _ => hbounded)
  have hbefore := charged_eq rfl (stage_of_busy hbusy) rfl
  have hother (a : κ) (ha : a ≠ addr) : d.stage a = none := stage_of_ne hbusy ha
  have hwritten : l.sess.written ≤ l.sess.charged := Nat.le_add_right _ _
  rcases settle_cases d addr l s' with ⟨-, -, heq⟩ | ⟨-, -, heq⟩ | ⟨hphase, heq⟩
  · rw [heq] at hlinks ⊢
    refine .change hlinks (fun a ha => ⟨links_retire_of_ne ha d l, ?_, ?_⟩) ?_
    · rw [stage_of_idle rfl, hother a ha]
    · exact (gone_retire d addr l a).trans (by simp [Ne.symm ha])
    · have hafter := charged_eq (d := { d.retire addr l with busy := none })
        (held_of_none (links_retire_self d addr l)) (stage_of_idle rfl addr)
        (gone_retire d addr l addr)
      rw [if_pos rfl, Stage.owed] at hafter
      omega
  · rw [heq] at hlinks ⊢
    refine .change hlinks (fun a ha => ⟨links_setLink_of_ne ha d l, ?_, rfl⟩) ?_
    · rw [stage_of_idle rfl, hother a ha]
    · have hafter := charged_eq (d := { d.setLink addr l with busy := none })
        (held_of_link (links_setLink_self d addr l)) (stage_of_idle rfl addr) rfl
      have hgone : Daemon.gone { d.setLink addr l with busy := none } addr = d.gone addr := rfl
      rw [Stage.owed, hgone] at hafter
      omega
  · rw [heq] at hlinks ⊢
    refine .change hlinks (fun a ha => ⟨links_setLink_of_ne ha d l, ?_, rfl⟩) ?_
    · rw [stage_of_ne rfl ha, hother a ha]
    · have hafter := charged_eq (d := { d.setLink addr l with busy := some (addr, s') })
        (held_of_link (links_setLink_self d addr l)) (stage_of_busy rfl) rfl
      have hgone : Daemon.gone { d.setLink addr l with busy := some (addr, s') } addr =
        d.gone addr := rfl
      have hcharged := hgo hphase
      rw [hgone] at hafter
      omega

/-- `handleData` goes on with the same peer. -/
theorem Pays.turn (h : d.Bounded) (hbusy : d.busy = some (addr, s)) (s' : Stage)
    (howed : Stage.owed (some s') = Stage.owed (some s)) (cost : κ → ℕ) :
    Pays d { d with busy := some (addr, s') } cost := by
  have hother (a : κ) (ha : a ≠ addr) : d.stage a = none := stage_of_ne hbusy ha
  refine .change (c := addr) ?_ (fun a ha => ⟨rfl, ?_, rfl⟩) ?_
  · exact Links.go h hother (fun _ _ => rfl) rfl (fun l hl => h addr l hl)
  · rw [stage_of_ne rfl ha, hother a ha]
  · have hbefore := charged_eq rfl (stage_of_busy hbusy) rfl
    have hafter := charged_eq (d := { d with busy := some (addr, s') }) rfl (stage_of_busy rfl) rfl
    rw [howed] at hafter
    exact (hafter.trans hbefore.symm).le.trans (Nat.le_add_right _ _)

/-- The timer of a removed peer. -/
theorem Pays.onRemoved (hd : Inv P d) (h : d.Bounded) (j : ℕ) (e : Tick) (cost : κ → ℕ) :
    Pays d (d.onRemoved j (fun s => s.tick e)) cost := by
  refine ⟨h, fun a => ?_⟩
  have hgone (d : Daemon κ η φ ρ) : d.gone a =
      ((d.farewells.filter (fun r => r.1 = a)).map (fun r => r.2.length)).sum := by
    unfold gone farewells
    rw [List.filter_map, List.map_map]
    rfl
  have hsame : (d.onRemoved j (fun s => s.tick e)).gone a = d.gone a := by
    rw [hgone, hgone, hd.farewells_onRemoved]
  unfold Daemon.charged
  rw [hsame]
  exact Nat.le_add_right _ _

/-- A datagram finds its peer, and is charged for. -/
theorem Pays.found (h : d.Bounded) (hfree : d.busy = none) {data : List Byte}
    (hlong : headerSize + dataHeaderSize ≤ data.length) :
    Pays d { d.setLink addr (d.seen addr) with busy := some (addr, .found data) }
      (Event.cost (.datagram addr data)) := by
  have hseen : (d.seen addr).sess.Bounded ∧ (d.seen addr).sess.charged = d.held addr := by
    unfold Daemon.seen held
    cases hl : d.links addr with
    | none =>
      exact ⟨Session.bounded_invariant.setResetCallback _ Session.bounded_invariant.start, by rfl⟩
    | some l => exact ⟨h addr l hl, rfl⟩
  refine .change ?_ (fun a ha => ⟨links_setLink_of_ne ha d _, ?_, rfl⟩) ?_
  · refine Links.go h (fun a _ => stage_of_idle hfree a)
      (fun a ha => links_setLink_of_ne ha d _) rfl ?_
    intro l hl
    cases (links_setLink_self d addr _).symm.trans hl
    exact hseen.1
  · rw [stage_of_ne rfl ha, stage_of_idle hfree]
  · have hbefore := charged_eq rfl (stage_of_idle hfree addr) rfl
    have hafter := charged_eq
      (d := { d.setLink addr (d.seen addr) with busy := some (addr, .found data) })
      ((held_of_link (links_setLink_self d addr _)).trans hseen.2) (stage_of_busy rfl) rfl
    have hgone : Daemon.gone { d.setLink addr (d.seen addr) with busy := some (addr, .found data) }
      addr = d.gone addr := rfl
    have hcost : Event.cost (.datagram addr data) addr = datagramCost := by
      simp [Event.cost, Event.isFrom, hlong]
    rw [Stage.owed] at hbefore
    rw [Stage.owed, hgone] at hafter
    omega

/-- What an event costs. -/
theorem Pays.step {event : Event κ} (hd : Inv P d) (h : d.Bounded)
    (hok : d.step P event = .ok d') : Pays d d' event.cost := by
  cases took_step hok with
  | nothing => exact .refl h _
  | found hfree hlong => exact .found h hfree hlong
  | fetched hbusy => exact .turn h hbusy (.fetched _) rfl _
  | @processed addr data l order e hbusy hl hreceive =>
    obtain ⟨r, hr⟩ := (Link.received hreceive).sess
    obtain ⟨hbounded, hcost⟩ := Session.charged_processDataPacket (h addr l hl) hr
    have hheld : Daemon.held { d with fs := e.fs } addr = l.sess.charged := held_of_link hl
    have hsame : Daemon.Bounded { d with fs := e.fs } := h
    refine .withFs e.fs (.settle (l := l.became e) hsame hbusy hbounded ?_ (fun _ => ?_) _)
    · rw [hheld]
      exact hcost.trans (Nat.add_le_add_left (Nat.le_add_right _ _) _)
    · rw [hheld, Stage.owed, Stage.owed, datagramCost, ← Nat.add_assoc]
      exact Nat.add_le_add_right hcost _
  | called hbusy => exact .turn h hbusy .called rfl _
  | @handled addr l payload order out hbusy hl =>
    obtain ⟨hbounded, hcharged⟩ := charged_refill (h addr l hl) l.shared out.conn.dataBuffer
    have hheld : Daemon.held { d with fs := out.fs } addr = l.sess.charged := held_of_link hl
    have hsame : Daemon.Bounded { d with fs := out.fs } := h
    refine .withFs out.fs (.settle (l := l.handled out) hsame hbusy hbounded ?_ (fun _ => ?_) _)
    · rw [hheld]
      exact hcharged.le.trans (Nat.le_add_right _ _)
    · rw [hheld]
      exact Nat.add_le_add_right hcharged.le _
  | @sent addr l reply sess hbusy hl hphase hsend =>
    obtain ⟨hbounded, hcharged⟩ := charged_send (h addr l hl) hsend
    refine .settle (l := l.sent reply sess) h hbusy hbounded ?_ (fun hphase => absurd rfl hphase) _
    rw [held_of_link hl]
    exact hcharged
  | @ticked addr l e hl =>
    refine .setLink h ?_ ?_ _
    · exact Session.bounded_invariant.step (h addr l hl) (Session.step_tick l.sess e)
    · exact (Session.charged_tick (h addr l hl) e).trans (held_of_link hl).ge
  | tickedRemoved j e => exact .onRemoved hd h j e _
  | @removedBusy addr s l order conn fs hbusy hl =>
    obtain ⟨hbounded, hcharged⟩ := Session.charged_close (h addr l hl)
    have hheld : Daemon.held { d with fs := fs } addr = l.sess.charged := held_of_link hl
    have hsame : Daemon.Bounded { d with fs := fs } := h
    exact .withFs fs (.setLink (l := l.closed conn) hsame hbounded (hcharged.trans hheld.ge) _)
  | @removed addr l order conn fs hfree hl =>
    obtain ⟨-, hcharged⟩ := Session.charged_close (h addr l hl)
    have hheld : Daemon.held { d with fs := fs } addr = l.sess.charged := held_of_link hl
    have hsame : Daemon.Bounded { d with fs := fs } := h
    exact .withFs fs (.retire (l := l.closed conn) hsame (hcharged.trans hheld.ge) _)
  | waited k => exact ⟨h, fun _ => Nat.le_add_right _ _⟩

/-- The cost of a run. -/
theorem charged_run {events : List (Event κ)} (hd : Inv P d) (h : d.Bounded)
    (hrun : events.foldlM (step P) d = .ok d') (addr : κ) :
    d'.charged addr ≤ d.charged addr + datagramCost * events.countP (Event.isFrom addr) := by
  induction events generalizing d with
  | nil =>
    cases hrun
    exact Nat.le_add_right _ _
  | cons e events ih =>
    rw [List.foldlM_cons] at hrun
    obtain ⟨t, ht, hrest⟩ := Fallible.bind_eq_ok.mp hrun
    have hpays := Pays.step hd h ht
    have hfirst := hpays.charged addr
    have hlater := ih (hd.step ht) hpays.bounded hrest
    rw [List.countP_cons, Nat.mul_add]
    unfold Event.cost at hfirst
    split_ifs at hfirst ⊢ <;> omega

/-- In every run of the daemon, whatever datagrams of whatever addresses arrive and however the
timers run, an address is sent at most a hundred datagrams for each one received from it, all
repetitions included; and nothing is sent to an address that nothing was received from. -/
theorem answers_are_bounded {peerTimeout : ℕ} {fs : Backend η φ ρ} {events : List (Event κ)}
    (hrun : events.foldlM (step P) (new fs peerTimeout) = .ok d) (addr : κ) :
    d.written addr ≤ 100 * events.countP (Event.isFrom addr) := by
  have hcharged := charged_run (Inv.new P fs peerTimeout) (fun _ _ h => by cases h) hrun addr
  have hzero : (new fs peerTimeout : Daemon κ η φ ρ).charged addr = 0 := rfl
  have hcost : datagramCost = 100 := rfl
  rw [hzero, Nat.zero_add, hcost] at hcharged
  exact (d.written_le_charged addr).trans hcharged

/-- Two datagrams have been received and the peers were removed, one of them while its request was
being handled; two datagrams have been written to each. -/
theorem answers_are_bounded_of_two_peers : ∃ (fs : Backend Host OsFile Host.Image)
    (d : Daemon Bool Host OsFile Host.Image),
    lingerAndReply.foldlM (step Host.platform) (new fs 5) = .ok d ∧
      d.farewells = [(true, sectorReply), (false, sectorReply)] ∧
      d.written true ≤ 100 * lingerAndReply.countP (Event.isFrom true) := by
  have hview : viewAfter Host.platform farewells (step Host.platform) serveDevice numberedHost
      lingerAndReply = some [(true, sectorReply), (false, sectorReply)] := by
    decide +kernel
  obtain ⟨fs, d, -, hrun, hfarewells⟩ := exists_viewAfter hview
  exact ⟨fs, d, hrun, hfarewells, answers_are_bounded hrun true⟩

end Daemon

end Udpfsd
