import Udpfsd.Server.Daemon
import Udpfsd.Server.Leaks

/-!
# When the daemon is prompt

The server of whole messages handles a message in one step. The daemon takes several, and the
clock runs between them. As long as no datagram takes the peer timeout, the connections and the
filesystem are those of the server of whole messages, but for the time stamp of a peer, which is
that of the receipt. In particular no handle is left behind then. Otherwise one may be: the handle
that is opened for a peer that has been removed meanwhile is in no cache of a known peer.
-/

namespace Udpfsd

open Udprdma Udpfs Fs

variable {κ η φ ρ : Type}

namespace Server

variable [DecidableEq κ] {P : Platform η φ ρ} {o : Options} {host : η} {y y' : Server κ η φ ρ}

/-- The server that has heard of an address at another time. -/
def restamp (y : Server κ η φ ρ) (addr : κ) (t : ℕ) : Server κ η φ ρ :=
  { y with
    cMap := Function.update y.cMap addr ((y.cMap addr).map (fun p => { p with lastSeen := t })) }

/-- An event of the server, which may leave the time stamp of a peer as it was. -/
def Follows (P : Platform η φ ρ) (y y' : Server κ η φ ρ) : Prop :=
  ∃ event reply y₁, y.step P event = .ok (reply, y₁) ∧
    (y' = y₁ ∨ ∃ addr p, y.cMap addr = some p ∧ y' = y₁.restamp addr p.lastSeen)

/-- The states that a server reaches after `NewBackend` with these options on this host, if its
events need not renew the time stamps. -/
def Serves (P : Platform η φ ρ) (o : Options) (host : η) : Server κ η φ ρ → Prop :=
  Transition.Reachable
    (fun y => ∃ now fs peerTimeout, Backend.newBackend P o host now = .ok (some fs) ∧
      y = .new fs peerTimeout)
    (Follows P)

/-- The handle caches do not depend on the time stamps. -/
theorem Tracked.restamp (hy : Tracked y) (addr : κ) (t : ℕ) : Tracked (y.restamp addr t) := by
  have hsame (a : κ) : ((y.restamp addr t).cMap a).map Peer.conn = (y.cMap a).map Peer.conn := by
    by_cases ha : a = addr
    · subst ha
      simp [Server.restamp, Function.comp_def]
    · simp [Server.restamp, Function.update_of_ne ha]
  constructor
  · intro i hi
    obtain ⟨a, p, hp, hmem⟩ := hy.slot i hi
    have hconn := hsame a
    rw [hp] at hconn
    obtain ⟨q, hq, hqp⟩ := Option.map_eq_some_iff.mp hconn
    exact ⟨a, q, hq, hqp ▸ hmem⟩
  · intro a q hq
    have hconn := hsame a
    rw [hq] at hconn
    obtain ⟨p, hp, hpq⟩ := Option.map_eq_some_iff.mp hconn.symm
    exact hpq ▸ hy.cached a p hp

/-- The handles of a server are tracked. -/
theorem Serves.tracked (h : Serves P o host y) : Tracked y := by
  refine Transition.Reachable.invariant (P := Tracked) ?_ ?_ h
  · rintro y ⟨now, fs, peerTimeout, hnew, rfl⟩
    exact .new hnew
  · rintro y y' - hy ⟨event, reply, y₁, hok, rfl | ⟨addr, p, -, rfl⟩⟩
    · exact hy.step hok
    · exact (hy.step hok).restamp addr p.lastSeen

end Server

namespace Daemon

variable [DecidableEq κ] {P : Platform η φ ρ} {o : Options} {host : η} {d d' : Daemon κ η φ ρ}
  {addr : κ} {l : Link}

/-- The server without the sessions of its peers. -/
def server (d : Daemon κ η φ ρ) : Server κ η φ ρ :=
  ⟨d.fs, fun addr => (d.cMap addr).map Link.peer, d.peerTimeout⟩

/-- The datagram that is being handled was received less than the peer timeout ago. -/
def Prompt (d : Daemon κ η φ ρ) : Prop :=
  ∀ c, d.current = some c → d.fs.world.now - c.2.2.lastSeen < d.peerTimeout

instance (d : Daemon κ η φ ρ) : Decidable d.Prompt :=
  decidable_of_iff ((d.current.all (fun c =>
    decide (d.fs.world.now - c.2.2.lastSeen < d.peerTimeout))) = true)
    (by unfold Prompt; cases d.current <;> simp)

/-- The states that a daemon reaches after `NewBackend` with these options on this host, if no
datagram takes as long as the peer timeout. -/
def PromptlyReachable (P : Platform η φ ρ) (o : Options) (host : η) : Daemon κ η φ ρ → Prop :=
  Transition.Reachable
    (fun d => ∃ now fs peerTimeout, 0 < peerTimeout ∧
      Backend.newBackend P o host now = .ok (some fs) ∧ d = .new fs peerTimeout)
    (fun d d' => ∃ event, d.step P event = .ok d' ∧ d'.Prompt)

omit [DecidableEq κ] in
/-- The peer that is served is not quiet. -/
theorem Prompt.busy {s : Stage} (hd : d.Prompt) (hbusy : d.busy = some (addr, s))
    (hl : d.links addr = some l) : d.fs.world.now - l.lastSeen < d.peerTimeout :=
  hd _ (current_eq_some.mpr ⟨hbusy, hl⟩)

/-- A prompt run is a run. -/
theorem PromptlyReachable.reachable (h : PromptlyReachable P o host d) : Reachable P o host d := by
  induction h with
  | start h => exact .start h
  | next _ hstep ih =>
    obtain ⟨event, hok, -⟩ := hstep
    exact .next ih ⟨event, hok⟩

/-- It stays prompt. -/
theorem PromptlyReachable.prompt (h : PromptlyReachable P o host d) : d.Prompt := by
  cases h with
  | start h =>
    obtain ⟨now, fs, peerTimeout, -, -, rfl⟩ := h
    intro c hc
    cases hc
  | next _ hstep =>
    obtain ⟨event, -, hprompt⟩ := hstep
    exact hprompt

/-- Every peer that is held is known. -/
def AllKnown (d : Daemon κ η φ ρ) : Prop := d.Links (fun _ l => l.removed = false)

/-- Every peer is in the map. -/
theorem AllKnown.cMap (hd : d.AllKnown) (addr : κ) : d.cMap addr = d.links addr := by
  unfold Daemon.cMap
  cases hl : d.links addr with
  | none => rfl
  | some l => simp [hd addr l hl]

theorem AllKnown.seen (hd : d.AllKnown) (addr : κ) : (d.seen addr).removed = false := by
  unfold Daemon.seen
  cases hl : d.links addr with
  | none => rfl
  | some l => exact hd addr l hl

/-- A known peer changes. -/
theorem server_setLink (hknown : l.removed = false) : (d.setLink addr l).server =
    { d.server with cMap := Function.update d.server.cMap addr (some l.peer) } := by
  unfold server
  simp only [Server.mk.injEq]
  refine ⟨rfl, ?_, rfl⟩
  funext a
  by_cases ha : a = addr
  · subst ha
    simp [Daemon.cMap, links_setLink_self, hknown]
  · simp [Daemon.cMap, links_setLink_of_ne ha, Function.update_of_ne ha]

/-- A step of the goroutine that handles data, for a known peer. -/
theorem server_settle {s : Stage} (hknown : l.removed = false) : (d.settle addr l s).server =
    { d.server with cMap := Function.update d.server.cMap addr (some l.peer) } := by
  rw [← server_setLink hknown]
  rcases settle_cases d addr l s with ⟨-, hremoved, -⟩ | ⟨-, -, heq⟩ | ⟨-, heq⟩
  · cases hknown.symm.trans hremoved
  · rw [heq]
    rfl
  · rw [heq]
    rfl

/-- A peer is let go. -/
theorem server_retire (d : Daemon κ η φ ρ) (addr : κ) (l : Link) : (d.retire addr l).server =
    { d.server with cMap := Function.update d.server.cMap addr none } := by
  unfold server
  simp only [Server.mk.injEq]
  refine ⟨rfl, ?_, rfl⟩
  funext a
  by_cases ha : a = addr
  · subst ha
    simp [Daemon.cMap, links_retire_self]
  · simp [Daemon.cMap, links_retire_of_ne ha, Function.update_of_ne ha]

omit [DecidableEq κ] in
/-- A known peer as the server has it. -/
theorem cMap_server (hl : d.links addr = some l) (hknown : l.removed = false) :
    d.server.cMap addr = some l.peer := by
  simp [server, cMap_eq_some.mpr ⟨hl, hknown⟩]

omit [DecidableEq κ] in
/-- The connection of a known peer as the server has it. -/
theorem conn_seen_server (hl : d.links addr = some l) (hknown : l.removed = false) :
    (d.server.seen addr).conn = l.conn := by
  unfold Server.seen
  rw [cMap_server hl hknown]
  rfl

/-- The server does not see what changes in the session of a peer. -/
theorem server_same {l' : Link} (hl : d.links addr = some l) (hknown : l.removed = false)
    (hpeer : l'.peer = l.peer) :
    { d.server with cMap := Function.update d.server.cMap addr (some l'.peer) } = d.server := by
  rw [hpeer, ← cMap_server hl hknown, Function.update_eq_self]

/-- The peer that is found or made for a datagram, as the server has it. -/
theorem peer_seen (hd : d.AllKnown) (addr : κ) : (d.seen addr).peer = d.server.seen addr := by
  unfold Daemon.seen Server.seen server
  simp only [hd.cMap]
  cases d.links addr <;> rfl

/-- The loop body of the cleanup on the server, for a silent peer. -/
theorem cleanup_server {order : MapOrder} {conn : Connection} {fs : Backend η φ ρ}
    (hl : d.links addr = some l) (hknown : l.removed = false)
    (hsilent : d.peerTimeout ≤ d.fs.world.now - l.lastSeen)
    (hclose : (order.apply l.conn).close (Backend.fs P) d.fs = .ok (conn, fs)) :
    d.server.cleanup P addr order =
      .ok { d.server with fs := fs, cMap := Function.update d.server.cMap addr none } := by
  unfold Server.cleanup
  rw [cMap_server hl hknown]
  refine (if_pos hsilent).trans ?_
  exact Fallible.bind_eq_ok.mpr ⟨(conn, fs), hclose, rfl⟩

/-- As long as the daemon is prompt, every step leaves all peers that are held known. -/
theorem AllKnown.step {event : Event κ} (hknown : d.AllKnown) (hprompt : d.Prompt)
    (hok : d.step P event = .ok d') : d'.AllKnown := by
  cases took_step hok with
  | @found addr data hfree hlong =>
    refine hknown.go (fun a _ => stage_of_idle hfree a)
      (fun a ha => links_setLink_of_ne ha d _) rfl ?_
    intro l hl
    cases (links_setLink_self d addr _).symm.trans hl
    exact hknown.seen addr
  | @processed addr data l order e hbusy hl =>
    have hsame : Links (fun _ l => l.removed = false) { d with fs := e.fs } := hknown
    exact hsame.settle hbusy (fun _ h => h) (fun _ => hknown addr l hl)
  | @handled addr l payload order out hbusy hl =>
    have hsame : Links (fun _ l => l.removed = false) { d with fs := out.fs } := hknown
    exact hsame.settle hbusy (fun _ h => h) (fun _ => hknown addr l hl)
  | @sent addr l reply sess hbusy hl =>
    exact Links.settle hknown hbusy (fun _ h => h) (fun _ => hknown addr l hl)
  | @ticked addr l e hl => exact Links.setLink hknown (hknown addr l hl)
  | removedBusy hbusy hl _ hsilent => exact absurd hsilent (Nat.not_le.mpr (hprompt.busy hbusy hl))
  | @removed addr l order conn fs =>
    have hsame : Links (fun _ l => l.removed = false) { d with fs := fs } := hknown
    exact hsame.retire addr (l.closed conn)
  | _ => exact hknown

/-- A peer changes together with the filesystem, and keeps its time stamp. -/
theorem follows_restamp {event : Udpfsd.Event κ} {reply : Option Reply} {conn : Connection}
    {fs : Backend η φ ρ} {l' : Link} (hl : d.links addr = some l) (hknown : l.removed = false)
    (hstep : d.server.step P event = .ok (reply, d.server.update addr conn fs))
    (hpeer : l'.peer = ⟨conn, l.lastSeen⟩) : Server.Follows P d.server
      { d.server with fs := fs, cMap := Function.update d.server.cMap addr (some l'.peer) } := by
  refine ⟨event, reply, _, hstep, Or.inr ⟨addr, l.peer, cMap_server hl hknown, ?_⟩⟩
  rw [hpeer]
  simp [Server.restamp, Server.update, Link.peer]

/-- A step of a prompt daemon is a step of the server of whole messages, or none. -/
theorem Took.follows {event : Event κ} (htook : Took P d event d') (hd : Inv P d)
    (hknown : d.AllKnown) (hprompt : d.Prompt) :
    Server.Follows P d.server d'.server ∨ d'.server = d.server := by
  cases htook with
  | nothing => exact Or.inr rfl
  | @found addr data hfree hlong =>
    left
    have hrequest : d.server.step P (.request addr [] .stored) =
        .ok (none, d.server.update addr (d.server.seen addr).conn d.server.fs) := rfl
    refine ⟨_, _, _, hrequest, Or.inl ?_⟩
    have hserver : (d.setLink addr (d.seen addr)).server =
        { d.server with cMap := Function.update d.server.cMap addr (some (d.seen addr).peer) } :=
      server_setLink (hknown.seen addr)
    rw [peer_seen hknown] at hserver
    exact hserver
  | fetched => exact Or.inr rfl
  | @processed addr data l order e hbusy hl hreceive =>
    have hl' := hknown addr l hl
    rw [server_settle (show (l.became e).removed = false from hl')]
    rcases (Link.received hreceive).peer with ⟨hconn, hfs⟩ | hreset
    · right
      rw [hfs]
      exact server_same hl hl' (by simp [Link.peer, Link.became, hconn])
    · left
      have hstep : d.server.step P (.reset addr order) =
          .ok (none, d.server.update addr e.conn e.fs) := by
        have hserver : d.server.reset P addr order = .ok (d.server.update addr e.conn e.fs) := by
          unfold Server.reset
          rw [conn_seen_server hl hl']
          exact Fallible.bind_eq_ok.mpr ⟨_, hreset, rfl⟩
        exact Fallible.bind_eq_ok.mpr ⟨_, hserver, rfl⟩
      exact follows_restamp hl hl' hstep rfl
  | called => exact Or.inr rfl
  | @handled addr l payload order out hbusy hl hphase hhandle =>
    left
    have hl' := hknown addr l hl
    rw [server_settle (show (l.handled out).removed = false from hl')]
    have hpayload : payload ≠ [] := by
      rcases (hd.inHand hbusy hl).fits with ⟨payload', hne, hphase'⟩ | ⟨reply, hphase'⟩
      · cases hphase.symm.trans hphase'
        exact hne
      · cases hphase.symm.trans hphase'
    have hstep : d.server.step P (.request addr payload order) =
        .ok (some out.reply, d.server.update addr out.conn out.fs) := by
      change d.server.request P addr payload order = _
      unfold Server.request
      rw [if_neg hpayload, conn_seen_server hl hl']
      exact Fallible.bind_eq_ok.mpr ⟨out, hhandle, rfl⟩
    exact follows_restamp hl hl' hstep rfl
  | @sent addr l reply sess hbusy hl =>
    have hl' := hknown addr l hl
    rw [server_settle (show (l.sent reply sess).removed = false from hl')]
    exact Or.inr (server_same hl hl' rfl)
  | @ticked addr l e hl =>
    have hl' := hknown addr l hl
    rw [server_setLink (show Link.removed { l with sess := l.sess.tick e } = false from hl')]
    exact Or.inr (server_same hl hl' rfl)
  | tickedRemoved => exact Or.inr rfl
  | removedBusy hbusy hl _ hsilent => exact absurd hsilent (Nat.not_le.mpr (hprompt.busy hbusy hl))
  | @removed addr l order conn fs hfree hl hl' hsilent hclose =>
    left
    refine ⟨.cleanup addr order, none, _, ?_, Or.inl (server_retire _ addr _)⟩
    exact Fallible.bind_eq_ok.mpr ⟨_, cleanup_server hl hl' hsilent hclose, rfl⟩
  | waited k => exact Or.inl ⟨.wait k, none, _, rfl, Or.inl rfl⟩

/-- No link outlives its peer. -/
theorem PromptlyReachable.allKnown (h : PromptlyReachable P o host d) : d.AllKnown := by
  induction h with
  | start h =>
    obtain ⟨now, fs, peerTimeout, -, -, rfl⟩ := h
    intro addr l hl
    cases hl
  | next hreach hstep ih =>
    obtain ⟨event, hok, -⟩ := hstep
    exact ih.step (PromptlyReachable.prompt hreach) hok

/-- A prompt daemon serves as the server does. -/
theorem PromptlyReachable.serves (h : PromptlyReachable P o host d) :
    Server.Serves P o host d.server := by
  induction h with
  | start h =>
    obtain ⟨now, fs, peerTimeout, -, hnew, rfl⟩ := h
    exact .start ⟨now, fs, peerTimeout, hnew, rfl⟩
  | next hreach hstep ih =>
    obtain ⟨event, hok, -⟩ := hstep
    have hprev : PromptlyReachable P o host _ := hreach
    rcases (took_step hok).follows hprev.reachable.inv hprev.allKnown hprev.prompt with
      hfollows | hsame
    · exact .next ih hfollows
    · exact hsame ▸ ih

/-- A round of `cleanup`: the loop over the known peers. -/
def cleanupRound (P : Platform η φ ρ) (d : Daemon κ η φ ρ) (round : List (κ × MapOrder)) :
    Except Fault (Daemon κ η φ ρ) :=
  round.foldlM (fun d peer => d.cleanup P peer.1 peer.2) d

/-- A peer is removed. -/
theorem server_remove (hremoved : l.removed = true) : (d.remove addr l).server =
    { d.server with cMap := Function.update d.server.cMap addr none } := by
  rw [← server_retire d addr l]
  unfold remove
  split_ifs
  · unfold server
    simp only [Server.mk.injEq]
    refine ⟨rfl, ?_, rfl⟩
    funext a
    by_cases ha : a = addr
    · subst ha
      simp [Daemon.cMap, links_setLink_self, links_retire_self, hremoved]
    · simp [Daemon.cMap, links_setLink_of_ne ha, links_retire_of_ne ha]
  · rfl

/-- What the cleanup does to the server, it does to the daemon. -/
theorem exists_cleanup {order : MapOrder} {y : Server κ η φ ρ}
    (hok : d.server.cleanup P addr order = .ok y) :
    ∃ d', d.cleanup P addr order = .ok d' ∧ d'.server = y := by
  unfold Daemon.cleanup
  cases hl : d.cMap addr with
  | none =>
    have hnone : d.server.cMap addr = none := by
      simp [server, hl]
    unfold Server.cleanup at hok
    rw [hnone] at hok
    cases hok
    exact ⟨d, rfl, rfl⟩
  | some l =>
    obtain ⟨hlink, hknown⟩ := cMap_eq_some.mp hl
    unfold Server.cleanup at hok
    rw [cMap_server hlink hknown] at hok
    by_cases hsilent : d.peerTimeout ≤ d.fs.world.now - l.lastSeen
    · have hok := (if_pos hsilent).symm.trans hok
      obtain ⟨⟨conn, fs⟩, hclose, hok⟩ := Fallible.bind_eq_ok.mp hok
      cases hok
      refine ⟨_, (if_pos hsilent).trans (Fallible.bind_eq_ok.mpr ⟨(conn, fs), hclose, rfl⟩), ?_⟩
      exact server_remove rfl
    · cases (if_neg hsilent).symm.trans hok
      exact ⟨d, if_neg hsilent, rfl⟩

/-- The daemon takes the rounds of the server. -/
theorem exists_cleanupRound {round : List (κ × MapOrder)} {y : Server κ η φ ρ}
    (hok : d.server.cleanupRound P round = .ok y) :
    ∃ d', d.cleanupRound P round = .ok d' ∧ d'.server = y := by
  induction round generalizing d with
  | nil =>
    cases hok
    exact ⟨d, rfl, rfl⟩
  | cons peer rest ih =>
    obtain ⟨y₁, hfirst, hrest⟩ := Fallible.bind_eq_ok.mp hok
    obtain ⟨d₁, hcleanup, rfl⟩ := exists_cleanup hfirst
    obtain ⟨d', hround, hserver⟩ := ih hrest
    exact ⟨d', Fallible.bind_eq_ok.mpr ⟨d₁, hcleanup, hround⟩, hserver⟩

/-- In every run of the daemon in which no datagram takes as long as the peer timeout, with any
messages of any clients, each occupied slot of the handle table is in the handle cache of a known
peer. So when all known peers have been silent for the peer timeout, a round of the cleanup loop
over them, in any order, does not fail, forgets them and empties the table, and it closes each
object that was in the table once and calls nothing else. -/
theorem no_handle_is_left_behind (h : PromptlyReachable P o host d) :
    (∀ i : Fin maxHandles, d.fs.handles i ≠ none →
      ∃ addr l, d.cMap addr = some l ∧ (i : ℤ) + 1 ∈ l.conn.usedHandles.keys) ∧
    ∀ round : List (κ × MapOrder),
      (∀ addr l, d.cMap addr = some l → d.peerTimeout ≤ d.fs.world.now - l.lastSeen) →
      (∀ addr, d.cMap addr ≠ none → addr ∈ round.map Prod.fst) →
      ∃ d', d.cleanupRound P round = .ok d' ∧ (∀ addr, d'.cMap addr = none) ∧
        (∀ i, d'.fs.handles i = none) ∧
        ∃ calls : List Access, d'.fs.world.accesses = d.fs.world.accesses ++ calls ∧
          (calls : Multiset Access) = d.fs.table.pending := by
  have htracked := h.serves.tracked
  constructor
  · intro i hi
    have hslot : d.server.fs.table.slots i ≠ none := by
      simpa [server, Backend.table] using hi
    obtain ⟨addr, p, hp, hmem⟩ := htracked.slot i hslot
    obtain ⟨l, hl, rfl⟩ := Option.map_eq_some_iff.mp hp
    exact ⟨addr, l, hl, hmem⟩
  · intro round hsilent hall
    have hsilent' : d.server.AllSilent := by
      intro addr p hp
      obtain ⟨l, hl, rfl⟩ := Option.map_eq_some_iff.mp hp
      exact hsilent addr l hl
    obtain ⟨y, hround, hpeers, hslots, hcalls⟩ := htracked.exists_emptied P hsilent' round
      (fun addr haddr => hall addr (fun hnone => haddr (by simp [server, hnone])))
    obtain ⟨d', hround', rfl⟩ := exists_cleanupRound hround
    refine ⟨d', hround', fun addr => ?_, hslots, hcalls⟩
    exact Option.map_eq_none_iff.mp (hpeers addr)

end Daemon

/-- A client asks for a file to be opened for reading, and the request is handled up to the call of
the handler, which takes some time. -/
def askToOpen (addr : Bool) : List (Daemon.Event Bool) :=
  [.datagram addr (dataPacket 0 0xFFF true []
      ([0x10, 0, 0x01, 0, 0, 0, 0, 0] ++ Path.ascii ['a'] ++ [0])),
    .fetch, .process .stored, .wait 2, .call, .wait 2]

/-- One client opens the file, and then another one is about to. -/
def openAndAsk : List (Daemon.Event Bool) :=
  askToOpen true ++ [.handle .stored, .send] ++ askToOpen false

/-- Both have opened the file, and are not heard of again. -/
def openAndFallSilent : List (Daemon.Event Bool) :=
  openAndAsk ++ [.handle .stored, .send, .wait 5]

/-- The handler takes as long as the peer timeout. -/
def lingerAndOpen : List (Daemon.Event Bool) :=
  askToOpen true ++ [.wait 1, .cleanup true .stored, .handle .stored, .send]

namespace Daemon

/-- An event after which the daemon is prompt. -/
def stepPromptly [DecidableEq κ] (P : Platform η φ ρ) (d : Daemon κ η φ ρ) (event : Event κ) :
    Except Unit (Daemon κ η φ ρ) :=
  match d.step P event with
  | .ok d' => if d'.Prompt then .ok d' else .error ()
  | .error _ => .error ()

/-- The end of a prompt run is promptly reachable. -/
theorem exists_promptlyReachable {α : Type} {view : Daemon Bool Host OsFile Host.Image → α}
    {o : Options} {host : Host} {events : List (Event Bool)} {v : α}
    (h : viewAfter Host.platform view (stepPromptly Host.platform) o host events = some v) :
    ∃ d, PromptlyReachable Host.platform o host d ∧ view d = v := by
  obtain ⟨fs, d, hnew, hrun, hview⟩ := exists_viewAfter h
  refine ⟨d, ?_, hview⟩
  refine Transition.Reachable.foldlM ?_ (.start ⟨0, fs, 5, by decide, hnew, rfl⟩) hrun
  intro e _ d d' hstep
  unfold stepPromptly at hstep
  split at hstep
  · rename_i d₁ hok
    split_ifs at hstep with hprompt
    cases hstep
    exact ⟨e, hok, hprompt⟩
  · cases hstep

/-- Two clients have opened the file and are not heard of again. -/
theorem no_handle_is_left_behind_by_two_clients :
    ∃ d d' : Daemon Bool Host OsFile Host.Image,
      PromptlyReachable Host.platform serveArchive archiveHost d ∧
      d.fs.handles 0 ≠ none ∧ d.fs.handles 1 ≠ none ∧
      d.cleanupRound Host.platform [(false, .stored), (true, .stored)] = .ok d' ∧
      d'.fs.handles 0 = none ∧ d'.fs.handles 1 = none ∧ ∃ calls : List Access,
        d'.fs.world.accesses = d.fs.world.accesses ++ calls ∧
          (calls : Multiset Access) = d.fs.table.pending := by
  have hview : viewAfter Host.platform (fun d => ((d.fs.handles 0).isSome, (d.fs.handles 1).isSome,
      (d.cMap true).all (fun l => decide (d.peerTimeout ≤ d.fs.world.now - l.lastSeen)),
      (d.cMap false).all (fun l => decide (d.peerTimeout ≤ d.fs.world.now - l.lastSeen))))
      (stepPromptly Host.platform) serveArchive archiveHost openAndFallSilent =
        some (true, true, true, true) := by decide +kernel
  obtain ⟨d, hreach, hview⟩ := exists_promptlyReachable hview
  simp only [Prod.mk.injEq, Option.isSome_iff_ne_none, Option.all_eq_true,
    decide_eq_true_eq] at hview
  obtain ⟨hfirst, hsecond, htrue, hfalse⟩ := hview
  have hsilent (addr : Bool) (l : Link) (hl : d.cMap addr = some l) :
      d.peerTimeout ≤ d.fs.world.now - l.lastSeen := by
    cases addr with
    | false => exact hfalse l hl
    | true => exact htrue l hl
  obtain ⟨d', hround, -, hslots, hcalls⟩ := (no_handle_is_left_behind hreach).2
    [(false, .stored), (true, .stored)] hsilent (by simp)
  exact ⟨d, d', hreach, hfirst, hsecond, hround, hslots 0, hslots 1, hcalls⟩

-- a handle that is opened for a removed peer is left behind
example : viewAfter Host.platform (fun d => ((d.fs.handles 0).isSome, (d.links true).isSome,
    (d.links false).isSome)) (step Host.platform) serveArchive archiveHost lingerAndOpen =
      some (true, false, false) := by decide +kernel

end Daemon

end Udpfsd
