import Udpfsd.Fs.Host
import Udpfsd.Server.Ledger

/-!
# Whose object a handle names

A handle is a slot of a table that all clients share, and the server takes a slot back
without telling its client: when the table is full and the slot has been idle for an
hour, and when the client has been silent for the peer timeout. So an object opened by
one client can turn up behind a handle that another client still uses. As long as no
OPEN is given a slot that another client still holds, a request acts on the object that
its own client opened.
-/

namespace Udpfsd

open Udprdma (Byte)
open Udpfs Fs

variable {κ η φ ρ : Type}

/-- An event that names no handle. -/
def Event.Nameless : Event κ → Prop
  | .request _ payload _ => namedHandle payload = none
  | _ => True

instance (event : Event κ) : Decidable event.Nameless := by
  cases event <;> unfold Event.Nameless <;> infer_instance

/-- The server with the ledger. -/
structure System (κ η φ ρ : Type) where
  /-- The server. -/
  server : Server κ η φ ρ
  /-- The ledger. -/
  ledger : Ledger κ

namespace System

variable [DecidableEq κ]

/-- The handle table. -/
def table (y : System κ η φ ρ) : Table := y.server.fs.table

/-- The system after an event. -/
def step (P : Platform η φ ρ) (y : System κ η φ ρ) (event : Event κ) :
    Except Fault (Option Reply × System κ η φ ρ) := do
  let (reply, server) ← y.server.step P event
  return (reply, ⟨server,
    y.ledger.record event reply y.server.fs.world.objects server.fs.world.objects⟩)

/-- A client uses only handles that it has been given and has not closed since. -/
def Disciplined (y : System κ η φ ρ) : Event κ → Prop
  | .request addr payload _ => ∀ h, namedHandle payload = some h → h ≠ blockDeviceHandle →
      y.ledger.held addr h ≠ none
  | _ => True

/-- An OPEN comes when the slot that `allocHandle` has for it is held by no other client,
and a CLOSE comes while the slot of its handle is occupied. -/
def Apart (y : System κ η φ ρ) : Event κ → Prop
  | .request addr payload _ =>
    (msgType payload = some .openReq → ∀ i, y.server.fs.allocSlot = some i →
      ∀ other, other ≠ addr → y.ledger.held other ((i : ℤ) + 1) = none) ∧
    (msgType payload = some .closeReq → ∀ h, namedHandle payload = some h →
      h ≠ blockDeviceHandle → y.table.objectAt h ≠ none)
  | _ => True

instance (y : System κ η φ ρ) : DecidablePred y.Disciplined
  | .request addr payload _ => inferInstanceAs (Decidable (∀ h ∈ namedHandle payload,
      h ≠ blockDeviceHandle → y.ledger.held addr h ≠ none))
  | .reset _ _ | .cleanup _ _ | .wait _ => isTrue trivial

instance (y : System Bool η φ ρ) : DecidablePred y.Apart
  | .request addr payload _ => inferInstanceAs (Decidable
      ((msgType payload = some .openReq → ∀ i ∈ y.server.fs.allocSlot,
        ∀ other, other ≠ addr → y.ledger.held other ((i : ℤ) + 1) = none) ∧
      (msgType payload = some .closeReq → ∀ h ∈ namedHandle payload,
        h ≠ blockDeviceHandle → y.table.objectAt h ≠ none)))
  | .reset _ _ | .cleanup _ _ | .wait _ => isTrue trivial

/-- The states that a server reaches, with clients that keep to their handles and events
that satisfy `guard`. -/
def Reachable (P : Platform η φ ρ) (guard : System κ η φ ρ → Event κ → Prop) :
    System κ η φ ρ → Prop :=
  Transition.Reachable
    (fun y => ∃ o host now fs peerTimeout, Backend.newBackend P o host now = .ok (some fs) ∧
      y = ⟨.new fs peerTimeout, .empty⟩)
    (fun y y' => ∃ event reply, y.Disciplined event ∧ guard y event ∧
      y.step P event = .ok (reply, y'))

/-- The calls of methods of objects between two states. -/
def calls (y y' : System κ η φ ρ) : List Access :=
  y'.table.accesses.drop y.table.accesses.length

/-- A request through a handle other than the block device's acts on the object that its
client's latest OPEN of the handle has opened, or it does nothing and fails; a reset and
a cleanup act on such objects only; and no event acts on an object that another client
opened. -/
def Agrees (y : System κ η φ ρ) (reply : Option Reply) (y' : System κ η φ ρ) : Event κ → Prop
  | .request addr payload _ =>
    (∀ h, (y.server.seen addr).conn.target payload = some h → h ≠ blockDeviceHandle →
      ∃ o, y.ledger.held addr h = some o ∧ y.ledger.opener o = some addr ∧
        ((y.table.objectAt h = some o ∧ ∀ a ∈ y.calls y', a.object = o) ∨
          (y.calls y' = [] ∧ ∃ r, reply = some r ∧ r.Failed))) ∧
    ∀ a ∈ y.calls y', ∀ other, y'.ledger.opener a.object = some other → other = addr
  | .reset addr _ | .cleanup addr _ =>
    ∀ a ∈ y.calls y', y.ledger.opener a.object = some addr ∧
      ∃ h, y.table.objectAt h = some a.object ∧ y.ledger.held addr h = some a.object
  | .wait _ => y.calls y' = []

end System

/-- The answer to a client's request keeps the ledger right, and the request has acted
on the client's own objects only. -/
structure Answered (L : Ledger κ) (addr : κ) (c : Connection) (s : Backend η φ ρ)
    (payload : List Byte) (out : Outcome (Backend η φ ρ)) (L' : Ledger κ) : Prop where
  /-- The ledger agrees with the table. -/
  owned : Owned out.fs.table L'
  /-- The connection knows only handles that its client holds. -/
  knows : Knows L' addr out.conn
  /-- The other clients hold what they held. -/
  others : ∀ other, other ≠ addr → L'.held other = L.held other
  /-- What the request has acted on. -/
  calls : ∃ new, out.fs.table.accesses = s.table.accesses ++ new ∧
    (∀ h, c.target payload = some h → h ≠ blockDeviceHandle →
      ∃ o, L.held addr h = some o ∧ L.opener o = some addr ∧
        ((s.table.objectAt h = some o ∧ ∀ a ∈ new, a.object = o) ∨
          (new = [] ∧ out.reply.Failed))) ∧
    ∀ a ∈ new, ∀ other, L'.opener a.object = some other → other = addr

section Requests

variable [DecidableEq κ] {L : Ledger κ} {addr : κ} {c : Connection} {s : Backend η φ ρ}
  {payload : List Byte} {out : Outcome (Backend η φ ρ)}

/-- The ledger after the reply to a request. -/
def Ledger.afterReply (L : Ledger κ) (addr : κ) (payload : List Byte) (s : Backend η φ ρ)
    (out : Outcome (Backend η φ ρ)) : Ledger κ :=
  (L.credit addr s.table.objects out.fs.table.objects).note addr payload out.reply
    s.table.objects out.fs.table.objects

/-- A request that made no object and was no OPEN and no CLOSE leaves the ledger alone. -/
theorem Ledger.afterReply_of_ne (hobjects : out.fs.table.objects = s.table.objects)
    (hopen : msgType payload ≠ some .openReq)
    (hclose : msgType payload = some .closeReq →
      ∀ h, namedHandle payload = some h → h = blockDeviceHandle) :
    L.afterReply addr payload s out = L := by
  rw [Ledger.afterReply, hobjects, Ledger.credit_self]
  unfold Ledger.note
  split
  · rename_i htype _
    exact absurd htype hopen
  · rename_i htype _
    split
    · rename_i h hh
      have := hclose htype h hh
      split_ifs <;> simp_all
    · rfl
  · rfl

section Held

variable (hs : Owned s.table L) (hc : Knows L addr c)
include hs hc

/-- A request works on the object of the peer's handle. -/
theorem answered_of_works {h : ℤ}
    (hdisciplined : ∀ h, namedHandle payload = some h → h ≠ blockDeviceHandle →
      L.held addr h ≠ none)
    (hopen : msgType payload ≠ some .openReq) (hclose : msgType payload ≠ some .closeReq)
    (htarget : c.target payload = some h) (hworks : Works c s h out) :
    Answered L addr c s payload out (L.afterReply addr payload s out) := by
  have huses := hworks.uses
  rw [Ledger.afterReply_of_ne huses.objects hopen (fun hc => absurd hc hclose)]
  obtain ⟨new, hnew, hobject⟩ := huses.accesses
  refine ⟨hs.empties (.of_uses huses), ⟨?_, ?_⟩, fun _ _ => rfl, new, hnew, ?_, ?_⟩
  · intro k hk
    exact hc.cache k (hworks.cache ▸ hk)
  · rcases hworks.active with hactive | hactive | hactive
    · exact hactive ▸ hc.active
    · exact Or.inl hactive
    · rw [hactive]
      by_cases hne : h = blockDeviceHandle
      · exact Or.inr (Or.inl hne)
      · obtain ⟨o, ho⟩ := hc.held_of_target hdisciplined htarget hne
        exact Or.inr (Or.inr (by simp [ho]))
  · intro k hk hne
    cases htarget.symm.trans hk
    obtain ⟨o, ho⟩ := hc.held_of_target hdisciplined htarget hne
    refine ⟨o, ho, (hs.held addr h o ho).1, ?_⟩
    cases hat : s.table.objectAt h with
    | none =>
      refine Or.inr ⟨List.eq_nil_iff_forall_not_mem.mpr ?_, hworks.failed hat⟩
      intro a ha
      cases hat.symm.trans (hobject a ha)
    | some o' =>
      cases hs.objectAt_eq ho hat
      refine Or.inl ⟨rfl, fun a ha => ?_⟩
      exact Option.some.inj ((hobject a ha).symm.trans hat)
  · intro a ha other hother
    by_cases hne : h = blockDeviceHandle
    · have hdevice : s.table.device = some a.object := by
        simpa [hne, Table.objectAt] using hobject a ha
      rw [(hs.device _ hdevice).2] at hother
      cases hother
    · obtain ⟨o, ho⟩ := hc.held_of_target hdisciplined htarget hne
      rw [hs.objectAt_eq ho (hobject a ha), (hs.held addr h o ho).1] at hother
      exact (Option.some.inj hother).symm

/-- A request leaves the table alone. -/
theorem answered_of_leaves (hopen : msgType payload ≠ some .openReq)
    (htarget : ∀ h, c.target payload = some h → h = blockDeviceHandle) (hleaves : Leaves c s out) :
    Answered L addr c s payload out (L.afterReply addr payload s out) := by
  have hclose : msgType payload = some .closeReq →
      ∀ h, namedHandle payload = some h → h = blockDeviceHandle := by
    intro htype h hh
    refine htarget h ?_
    rw [Connection.target, if_neg (by simp [htype]), hh]
  rw [Ledger.afterReply_of_ne (by rw [hleaves.table]) hopen hclose]
  refine ⟨by rwa [hleaves.table], hc.mono ?_ hleaves.active (fun _ => id), fun _ _ => rfl, [],
    by simp [hleaves.table], ?_, by simp⟩
  · intro h hh
    rwa [hleaves.cache] at hh
  · intro h hh hne
    exact absurd (htarget h hh) hne

/-- A CLOSE frees the slot of the peer's handle. -/
theorem answered_of_closed {h : ℤ}
    (hdisciplined : ∀ h, namedHandle payload = some h → h ≠ blockDeviceHandle →
      L.held addr h ≠ none)
    (hoccupied : ∀ h, namedHandle payload = some h → h ≠ blockDeviceHandle →
      s.table.objectAt h ≠ none)
    (htype : msgType payload = some .closeReq) (htarget : c.target payload = some h)
    (hne : h ≠ blockDeviceHandle) (hclosed : Closed c s h out) :
    Answered L addr c s payload out (L.afterReply addr payload s out) := by
  obtain ⟨i, hslot, htable⟩ := hclosed.table
  have hnamed : namedHandle payload = some h := by
    rwa [Connection.target, if_neg (by simp [htype])] at htarget
  have hledger : L.afterReply addr payload s out = L.set addr h none := by
    have hobjects : out.fs.table.objects = s.table.objects := by rw [htable]; rfl
    simp [Ledger.afterReply, hobjects, Ledger.note, htype, hclosed.reply, hnamed, hne]
  obtain ⟨o, ho⟩ := hc.held_of_target hdisciplined htarget hne
  have hat : s.table.objectAt h = some o := by
    obtain ⟨o', ho'⟩ := Option.ne_none_iff_exists'.mp (hoccupied h hnamed hne)
    rw [ho', hs.objectAt_eq ho ho']
  have hempties := Table.Empties.free s.table hslot
  obtain ⟨new, hnew, hown⟩ := hempties.accesses
  have hobject (a : Access) (ha : a ∈ new) : a.object = o :=
    Option.some.inj ((hown a ha).symm.trans hat)
  rw [hledger]
  refine ⟨htable ▸ hs.free hslot, ?_, ?_, new, htable ▸ hnew, ?_, ?_⟩
  · rw [hclosed.conn]
    exact hc.removeHandle h
  · intro other hother
    funext k
    exact L.held_set_of_ne none (Or.inl hother)
  · intro k hk _
    cases htarget.symm.trans hk
    exact ⟨o, ho, (hs.held addr h o ho).1, Or.inl ⟨hat, hobject⟩⟩
  · intro a ha other hother
    rw [Ledger.opener_set, hobject a ha, (hs.held addr h o ho).1] at hother
    exact (Option.some.inj hother).symm

end Held

/-- An OPEN works through no handle. -/
theorem no_target_of_openReq (htype : msgType payload = some .openReq) (Q : ℤ → Prop) :
    ∀ h, c.target payload = some h → h ≠ blockDeviceHandle → Q h := by
  have hnone : c.target payload = none := Connection.target_of_msgType htype (by decide)
  intro h hh
  rw [hnone] at hh
  cases hh

section Answered

variable (hs : Owned s.table L) (hc : Knows L addr c)
include hs hc

/-- An OPEN fails. -/
theorem answered_of_rejects (htype : msgType payload = some .openReq)
    (hrejects : s.table.Rejects out.fs.table) (hconn : out.conn = c) (hreply : out.reply.Failed) :
    Answered L addr c s payload out (L.afterReply addr payload s out) := by
  have hledger : L.afterReply addr payload s out =
      L.credit addr s.table.objects out.fs.table.objects := by
    obtain ⟨result, hresult, hneg⟩ := hreply
    unfold Ledger.afterReply Ledger.note
    rw [htype]
    cases hout : out.reply with
    | openReply h st =>
      rw [hout] at hresult
      cases hresult
      have hnot : ¬ (0 < result ∧ s.table.objects < out.fs.table.objects) := by omega
      simp only [if_neg hnot]
    | _ => rfl
  obtain ⟨new, hnew, hown⟩ := hrejects.accesses
  rw [hledger]
  refine ⟨hs.rejects hrejects, ?_, fun _ _ => rfl, new, hnew, no_target_of_openReq htype _, ?_⟩
  · rw [hconn]
    exact hc.mono (fun _ => id) rfl (fun _ => id)
  · intro a ha other hother
    have hge := hown a ha
    simp only [Ledger.credit] at hother
    split_ifs at hother with hnew
    · exact (Option.some.inj hother).symm
    · have := hs.opener _ _ hother
      omega

/-- An OPEN fills a slot. -/
theorem answered_of_put {i : Fin maxHandles} {tag : Tag} {path : Path} {flag : OpenFlag}
    {isDir : Bool} {st : StatInfo}
    (hapart : ∀ other, other ≠ addr → L.held other ((i : ℤ) + 1) = none)
    (htype : msgType payload = some .openReq) (htable : out.fs.table = s.table.put i tag)
    (hid : tag.id = s.table.objects) (hconn : out.conn = c.addHandle (i + 1) path flag isDir)
    (hreply : out.reply = .openReply (i + 1) st) :
    Answered L addr c s payload out (L.afterReply addr payload s out) := by
  have hobjects : out.fs.table.objects = s.table.objects + 1 := by
    rw [htable]
    rfl
  have hledger : L.afterReply addr payload s out =
      (L.credit addr s.table.objects (s.table.objects + 1)).set addr ((i : ℤ) + 1)
        (some s.table.objects) := by
    have hpos : 0 < (i : ℤ) + 1 := by omega
    simp [Ledger.afterReply, Ledger.note, htype, hreply, hobjects, hpos]
  rw [hledger]
  have hheld (h : ℤ) (hh : h = (i : ℤ) + 1 ∨ L.held addr h ≠ none) :
      ((L.credit addr s.table.objects (s.table.objects + 1)).set addr ((i : ℤ) + 1)
        (some s.table.objects)).held addr h ≠ none := by
    by_cases hsame : h = (i : ℤ) + 1
    · rw [hsame, Ledger.held_set_same]
      exact Option.some_ne_none _
    · rw [Ledger.held_set_of_ne _ _ (Or.inr hsame)]
      exact hh.resolve_left hsame
  refine ⟨htable ▸ hs.put hid hapart, ⟨?_, ?_⟩, ?_, Table.closing (s.table.slots i),
    by rw [htable]; rfl, no_target_of_openReq htype _, ?_⟩
  · intro h hh
    rw [hconn, Connection.addHandle, ← AList.mem_keys, AList.mem_insert] at hh
    exact hheld h (hh.imp_right (fun hh => hc.cache h (AList.mem_keys.mp hh)))
  · rw [hconn]
    exact hc.active.imp_right (Or.imp_right (fun h => hheld _ (Or.inr h)))
  · intro other hother
    funext k
    exact Ledger.held_set_of_ne _ _ (Or.inl hother)
  · -- what is evicted is an object of the client itself
    intro a ha other hother
    cases htag : s.table.slots i with
    | none => simp [htag, Table.closing] at ha
    | some old =>
      simp only [htag, Table.closing, List.mem_singleton] at ha
      obtain ⟨owner, howner⟩ := hs.slot i old htag
      have hopener := (hs.held owner _ _ howner).1
      rw [ha, Ledger.opener_set, L.opener_credit_of_lt (hs.opener _ _ hopener), hopener] at hother
      cases hother
      by_contra hne
      rw [hapart other hne] at howner
      cases howner

/-- What the answer to a request does. -/
theorem answered
    (hdisciplined : ∀ h, namedHandle payload = some h → h ≠ blockDeviceHandle →
      L.held addr h ≠ none)
    (hapart : msgType payload = some .openReq → ∀ i, s.allocSlot = some i →
      ∀ other, other ≠ addr → L.held other ((i : ℤ) + 1) = none)
    (hoccupied : msgType payload = some .closeReq → ∀ h, namedHandle payload = some h →
      h ≠ blockDeviceHandle → s.table.objectAt h ≠ none)
    (hhandled : Handled c s payload out) :
    Answered L addr c s payload out (L.afterReply addr payload s out) := by
  cases hhandled with
  | opened htype hopened =>
    cases hopened with
    | @reused h st hmem hfs hkeys hactive hreply =>
      have hledger : L.afterReply addr payload s out = L := by
        simp [Ledger.afterReply, hfs, Ledger.note, htype, hreply]
      rw [hledger]
      exact ⟨hfs ▸ hs, hc.mono (fun k hk => (hkeys k).mp hk) hactive (fun _ => id),
        fun _ _ => rfl, [], by simp [hfs], no_target_of_openReq htype _, by simp⟩
    | failed hrejects hconn hreply => exact answered_of_rejects hs hc htype hrejects hconn hreply
    | opened hslot htable hid hconn hreply =>
      exact answered_of_put hs hc (hapart htype _ hslot) htype htable hid hconn hreply
  | closed htype htarget hne hclosed =>
    exact answered_of_closed hs hc hdisciplined (hoccupied htype) htype htarget hne hclosed
  | worked hopen hclose htarget hworks =>
    exact answered_of_works hs hc hdisciplined hopen hclose htarget hworks
  | left hopen htarget hleaves => exact answered_of_leaves hs hc hopen htarget hleaves

end Answered

end Requests

namespace System

variable {P : Platform η φ ρ} {y y' : System κ η φ ρ} {reply : Option Reply} {addr : κ}

/-- The ledger agrees with the handle table and with the connections. -/
structure Consistent (y : System κ η φ ρ) : Prop where
  /-- The handle table. -/
  owned : Owned y.table y.ledger
  /-- The connections. -/
  peers : ∀ addr p, y.server.cMap addr = some p → Knows y.ledger addr p.conn

theorem Consistent.seen (hy : Consistent y) (addr : κ) :
    Knows y.ledger addr (y.server.seen addr).conn := by
  unfold Server.seen
  split
  · exact .newConnection _ _
  · rename_i p hp
    exact hy.peers addr p hp

theorem calls_eq {new : List Access} (h : y'.table.accesses = y.table.accesses ++ new) :
    y.calls y' = new := by
  simp [calls, h]

/-- A loop over the handle cache meets only objects of its client. -/
theorem Consistent.among (hy : Consistent y) {c : Connection} (hc : Knows y.ledger addr c) {o : ℕ}
    (ho : y.table.Among c.usedHandles.keys o) : y.ledger.opener o = some addr ∧
      ∃ h, y.table.objectAt h = some o ∧ y.ledger.held addr h = some o := by
  obtain ⟨h, hh, hat⟩ := ho
  obtain ⟨o', ho'⟩ := Option.ne_none_iff_exists'.mp (hc.cache h hh)
  cases hy.owned.objectAt_eq ho' hat
  exact ⟨(hy.owned.held addr h o ho').1, h, hat, ho'⟩

/-- An event that names no handle asks nothing of its client. -/
theorem Disciplined.of_nameless {event : Event κ} (h : event.Nameless) (y : System κ η φ ρ) :
    y.Disciplined event := by
  cases event with
  | request addr payload order =>
    intro k hk
    rw [Event.Nameless] at h
    rw [h] at hk
    cases hk
  | _ => trivial

variable [DecidableEq κ]

/-- A step on behalf of one client. -/
theorem Consistent.update {conn : Connection} {fs : Backend η φ ρ} {L : Ledger κ}
    (hy : Consistent y) (howned : Owned fs.table L) (hknows : Knows L addr conn)
    (hothers : ∀ other, other ≠ addr → L.held other = y.ledger.held other) :
    Consistent ⟨y.server.update addr conn fs, L⟩ := by
  refine ⟨howned, ?_⟩
  intro a p hp
  by_cases ha : a = addr
  · subst ha
    simp only [Server.update, Function.update_self, Option.some.injEq] at hp
    rw [← hp]
    exact hknows
  · simp only [Server.update, Function.update_of_ne ha] at hp
    exact (hy.peers a p hp).mono (fun _ => id) rfl (by simp [hothers a ha])

/-- A request. -/
theorem request_spec {payload : List Byte} {order : MapOrder} (hy : Consistent y)
    (hdisciplined : y.Disciplined (.request addr payload order))
    (hapart : y.Apart (.request addr payload order))
    (hok : y.step P (.request addr payload order) = .ok (reply, y')) :
    Consistent y' ∧ y.Agrees reply y' (.request addr payload order) := by
  obtain ⟨⟨r, server⟩, hserver, hok⟩ := Fallible.bind_eq_ok.mp hok
  cases hok
  simp only [Server.step, Server.request] at hserver
  split_ifs at hserver with hempty
  · cases hserver
    have hcalls :
        y.calls ⟨y.server.update addr (y.server.seen addr).conn y.server.fs, y.ledger⟩ = [] :=
      calls_eq (by simp [table, Server.update])
    refine ⟨hy.update hy.owned (hy.seen addr) (fun _ _ => rfl), ?_, ?_⟩
    · intro h hh
      subst hempty
      cases hh
    · intro a ha
      simp [Ledger.record, hcalls] at ha
  · obtain ⟨out, hhandle, hserver⟩ := Fallible.bind_eq_ok.mp hserver
    cases hserver
    have hanswered := answered hy.owned ((hy.seen addr).apply order) hdisciplined hapart.1
      hapart.2 (handlePayload_spec hhandle)
    obtain ⟨new, hnew, htarget, hforeign⟩ := hanswered.calls
    refine ⟨hy.update hanswered.owned hanswered.knows hanswered.others, ?_⟩
    simp only [Agrees, calls, table, Server.update]
    rw [hnew, List.drop_left]
    refine ⟨?_, hforeign⟩
    intro h hh hne
    obtain ⟨o, ho, hopener, hcase⟩ := htarget h hh hne
    exact ⟨o, ho, hopener, hcase.imp_right (fun hcase => ⟨hcase.1, out.reply, rfl, hcase.2⟩)⟩

/-- A restart of a peer. -/
theorem reset_spec {order : MapOrder} (hy : Consistent y)
    (hok : y.step P (.reset addr order) = .ok (reply, y')) :
    Consistent y' ∧ y.Agrees reply y' (.reset addr order) := by
  obtain ⟨⟨r, server⟩, hserver, hok⟩ := Fallible.bind_eq_ok.mp hok
  cases hok
  obtain ⟨server', hreset, hserver⟩ := Fallible.bind_eq_ok.mp hserver
  cases hserver
  obtain ⟨⟨conn, fs⟩, hpeer, hreset⟩ := Fallible.bind_eq_ok.mp hreset
  cases hreset
  obtain ⟨fs', hrewind, hpeer⟩ := Fallible.bind_eq_ok.mp hpeer
  cases hpeer
  have hc := (hy.seen addr).apply order
  have huses := rewindAll_spec hrewind
  obtain ⟨new, hnew, hown⟩ := huses.accesses
  refine ⟨hy.update (hy.owned.empties (.of_uses huses)) ?_ (fun _ _ => rfl), ?_⟩
  · exact hc.mono (by simp) rfl (fun _ => id)
  · simp only [Agrees, calls, table, Server.update]
    rw [hnew, List.drop_left]
    exact fun a ha => hy.among hc (hown a ha)

/-- The removal of a peer. -/
theorem cleanup_spec {order : MapOrder} (hy : Consistent y)
    (hok : y.step P (.cleanup addr order) = .ok (reply, y')) :
    Consistent y' ∧ y.Agrees reply y' (.cleanup addr order) := by
  obtain ⟨⟨r, server⟩, hserver, hok⟩ := Fallible.bind_eq_ok.mp hok
  cases hok
  obtain ⟨server', hcleanup, hserver⟩ := Fallible.bind_eq_ok.mp hserver
  cases hserver
  unfold Server.cleanup at hcleanup
  have hidle : Consistent y ∧ y.Agrees none y (.cleanup addr order) := by
    refine ⟨hy, ?_⟩
    rw [Agrees, calls_eq (List.append_nil _).symm]
    simp
  split at hcleanup
  · cases hcleanup
    exact hidle
  rename_i p hp
  split_ifs at hcleanup
  · obtain ⟨⟨conn, fs⟩, hclose, hcleanup⟩ := Fallible.bind_eq_ok.mp hcleanup
    cases hcleanup
    obtain ⟨fs', hall, hclose⟩ := Fallible.bind_eq_ok.mp hclose
    cases hclose
    have hc := (hy.peers addr p hp).apply order
    have hempties := closeAll_spec hall
    obtain ⟨new, hnew, hown⟩ := hempties.accesses
    refine ⟨⟨hy.owned.empties hempties, ?_⟩, ?_⟩
    · intro a q hq
      by_cases ha : a = addr
      · subst ha
        simp at hq
      · simp only [Function.update_of_ne ha] at hq
        exact hy.peers a q hq
    · simp only [Agrees, calls, table]
      rw [hnew, List.drop_left]
      exact fun a ha => hy.among hc (hown a ha)
  · cases hcleanup
    exact hidle

/-- A step of a disciplined client keeps the ledger right and acts on own objects. -/
theorem step_spec {event : Event κ} (hy : Consistent y) (hdisciplined : y.Disciplined event)
    (hapart : y.Apart event) (hok : y.step P event = .ok (reply, y')) :
    Consistent y' ∧ y.Agrees reply y' event := by
  cases event with
  | request addr payload order => exact request_spec hy hdisciplined hapart hok
  | reset addr order => exact reset_spec hy hok
  | cleanup addr order => exact cleanup_spec hy hok
  | wait d =>
    cases hok
    exact ⟨⟨hy.owned, hy.peers⟩, calls_eq (List.append_nil _).symm⟩

/-- In every run in which no OPEN is given a slot that another client still holds and a
CLOSE finds its slot occupied, every event acts on objects of its own client only, and a
request on the one that its handle stands for. -/
theorem handles_agree {event : Event κ} (h : Reachable P Apart y)
    (hdisciplined : y.Disciplined event) (hapart : y.Apart event)
    (hok : y.step P event = .ok (reply, y')) : y.Agrees reply y' event := by
  have hy : Consistent y := by
    refine Transition.Reachable.invariant (P := Consistent) ?_ ?_ h
    · rintro y ⟨o, host, now, fs, peerTimeout, hnew, rfl⟩
      refine ⟨⟨?_, ?_, ?_, ?_⟩, ?_⟩
      · intro addr h o ho
        cases ho
      · intro i tag htag
        simp [table, Server.new, Backend.table, Backend.handles_newBackend hnew] at htag
      · intro o addr ho
        cases ho
      · exact fun o ho => ⟨Backend.device_newBackend hnew ho, rfl⟩
      · intro addr p hp
        cases hp
    · rintro y y' - hy ⟨event, reply, hdisciplined, hapart, hok⟩
      exact (step_spec hy hdisciplined hapart hok).1
  exact (step_spec hy hdisciplined hapart hok).2

/-- The system after an event whose reply is dropped. -/
def advance (P : Platform η φ ρ) (y : System κ η φ ρ) (event : Event κ) :
    Except Fault (System κ η φ ρ) :=
  Prod.snd <$> y.step P event

/-- What is seen of the last event of a run. -/
def after {β : Type} (P : Platform η φ ρ) (o : Options) (host : η) (events : List (Event κ))
    (last : Event κ) (view : System κ η φ ρ → System κ η φ ρ → β) : Option β :=
  Backend.observe P o host (fun fs => ⟨.new fs defaultPeerTimeout, .empty⟩) (advance P) events
    (fun y => y.step P last) (fun y r => view y r.2)

end System

/-- A host with a directory `/r` that holds two files. -/
def twoFiles : Host :=
  ⟨[(Path.ascii ['/', 'r'], .dir), (Path.ascii ['/', 'r', '/', 'a'], .file 0),
    (Path.ascii ['/', 'r', '/', 'b'], .file 1)], fun i => if i = 0 then [1, 1] else [2, 2], 2⟩

/-- The directory is served. -/
def serveFiles : Options := ⟨Path.ascii ['/', 'r'], [], 0, false, false, 0⟩

/-- A client opens a file for reading. -/
def openByName (addr : Bool) (name : Char) : Event Bool :=
  .request addr ([0x10, 0, 1, 0, 0, 0, 0, 0] ++ Path.ascii [name] ++ [0]) .stored

/-- The first client reads two bytes through handle 1. -/
def readFirstHandle : Event Bool :=
  .request true [0x14, 0, 0, 0, 1, 0, 0, 0, 2, 0, 0, 0] .stored

/-- The second client closes handle 2. -/
def closeSecondHandle : Event Bool := .request false [0x12, 0, 0, 0, 2, 0, 0, 0] .stored

/-- Two clients open a file each, and the second closes it and opens the other one. -/
def runOfTwoClients : List (Event Bool) :=
  [openByName true 'a', openByName false 'b', readFirstHandle, closeSecondHandle,
    openByName false 'a']

/-- The first client is forgotten, and the second is given its handle. -/
def runWithCleanup : List (Event Bool) :=
  [openByName true 'a', .wait defaultPeerTimeout, .cleanup true .stored, openByName false 'b']

/-- The second client fills the table and, an hour later, opens one file more. -/
def runWithEviction : List (Event Bool) :=
  openByName true 'a' :: List.replicate 63 (openByName false 'a') ++
    [.wait handleMaxLastUsed, openByName false 'b']

namespace System

/-- The object that the first client holds as handle 1, the opener of another one, and
the calls of the last event. -/
def glimpse (object : ℕ) (y y' : System Bool Host OsFile Host.Image) :
    Option ℕ × Option Bool × List Access :=
  (y.ledger.held true 1, y.ledger.opener object, y.calls y')

/-- While another client opens and closes files, a client reads the object that it has opened. -/
theorem handles_agree_of_two_clients :
    ∃ (y y' : System Bool Host OsFile Host.Image) (reply : Option Reply),
      y.glimpse 2 y' = (some 0, some false, [⟨0, .read⟩]) ∧ y.Agrees reply y' readFirstHandle := by
  have hview : Backend.observe Host.platform serveFiles twoFiles
      (fun fs => (⟨.new fs defaultPeerTimeout, .empty⟩ : System Bool _ _ _))
      (fun y e => Fallible.guarded (y.Disciplined e ∧ y.Apart e) (y.advance Host.platform e))
      runOfTwoClients
      (fun y => Fallible.guarded (y.Disciplined readFirstHandle ∧ y.Apart readFirstHandle)
        (y.step Host.platform readFirstHandle))
      (fun y r => y.glimpse 2 r.2) = some (some 0, some false, [⟨0, .read⟩]) := by decide +kernel
  obtain ⟨fs, y, ⟨reply, y'⟩, hnew, hrun, hlast, hglimpse⟩ := Backend.observe_eq_some hview
  obtain ⟨⟨hdisciplined, hapart⟩, hlast⟩ := Fallible.guarded_eq_ok.mp hlast
  refine ⟨y, y', reply, hglimpse, handles_agree ?_ hdisciplined hapart hlast⟩
  refine Transition.Reachable.foldlM ?_ (.start ⟨_, _, _, fs, defaultPeerTimeout, hnew, rfl⟩) hrun
  intro e _ y y' hstep
  obtain ⟨⟨hdisciplined, hapart⟩, hstep⟩ := Fallible.guarded_eq_ok.mp hstep
  obtain ⟨r, hstep⟩ := Fallible.map_snd_eq_ok.mp hstep
  exact ⟨e, r, hdisciplined, hapart, hstep⟩

theorem after_runWithEviction :
    after Host.platform serveFiles twoFiles runWithEviction readFirstHandle (glimpse 64) =
      some (some 0, some false, [⟨64, .read⟩]) := by decide +kernel

/-- A client can read through its handle what another client has opened: after the peer
timeout, and after an eviction from a full table. -/
theorem handle_of_another_client :
    (∃ (y y' : System Bool Host OsFile Host.Image) (reply : Option Reply),
      Reachable Host.platform (fun _ _ => True) y ∧ y.Disciplined readFirstHandle ∧
      y.step Host.platform readFirstHandle = .ok (reply, y') ∧
      y.glimpse 1 y' = (some 0, some false, [⟨1, .read⟩]) ∧
      ¬ y.Agrees reply y' readFirstHandle) ∧
    ∃ (y y' : System Bool Host OsFile Host.Image) (reply : Option Reply),
      Reachable Host.platform (fun _ _ => True) y ∧ y.Disciplined readFirstHandle ∧
      y.step Host.platform readFirstHandle = .ok (reply, y') ∧
      y.glimpse 64 y' = (some 0, some false, [⟨64, .read⟩]) ∧
      ¬ y.Agrees reply y' readFirstHandle := by
  have hreach {fs : Backend Host OsFile Host.Image} {y : System Bool Host OsFile Host.Image}
      {events : List (Event Bool)} (hnameless : ∀ e ∈ events, e.Nameless)
      (hnew : Backend.newBackend Host.platform serveFiles twoFiles 0 = .ok (some fs))
      (hrun : events.foldlM (advance Host.platform)
        ⟨.new fs defaultPeerTimeout, .empty⟩ = .ok y) :
      Reachable Host.platform (fun _ _ => True) y := by
    refine Transition.Reachable.foldlM ?_
      (.start ⟨_, _, _, fs, defaultPeerTimeout, hnew, rfl⟩) hrun
    intro e he y y' hstep
    obtain ⟨r, hstep⟩ := Fallible.map_snd_eq_ok.mp hstep
    exact ⟨e, r, Disciplined.of_nameless (hnameless e he) y, trivial, hstep⟩
  have hdisciplined {object : ℕ} {y y' : System Bool Host OsFile Host.Image}
      {opener : Option Bool} {calls : List Access}
      (hglimpse : y.glimpse object y' = (some 0, opener, calls)) :
      y.Disciplined readFirstHandle := by
    intro h hh _
    cases hh
    have hheld : y.ledger.held true 1 = some 0 := congrArg Prod.fst hglimpse
    exact hheld ▸ Option.some_ne_none 0
  have hdisagree {object : ℕ} {y y' : System Bool Host OsFile Host.Image}
      {reply : Option Reply} {opener : Option Bool} (hne : object ≠ 0)
      (hglimpse : y.glimpse object y' = (some 0, opener, [⟨object, .read⟩])) :
      ¬ y.Agrees reply y' readFirstHandle := by
    intro hagrees
    have hheld : y.ledger.held true 1 = some 0 := congrArg Prod.fst hglimpse
    have hcalls : y.calls y' = [⟨object, .read⟩] := congrArg (fun g => g.2.2) hglimpse
    obtain ⟨o, ho, -, ⟨-, hobject⟩ | ⟨hnone, -⟩⟩ := hagrees.1 1 rfl (by decide)
    · cases hheld.symm.trans ho
      exact hne (hobject ⟨object, .read⟩ (by simp [hcalls]))
    · rw [hcalls] at hnone
      cases hnone
  constructor
  · have hview : after Host.platform serveFiles twoFiles runWithCleanup readFirstHandle
        (glimpse 1) = some (some 0, some false, [⟨1, .read⟩]) := by rfl
    obtain ⟨fs, y, ⟨reply, y'⟩, hnew, hrun, hlast, hglimpse⟩ := Backend.observe_eq_some hview
    exact ⟨y, y', reply, hreach (by decide) hnew hrun, hdisciplined hglimpse, hlast, hglimpse,
      hdisagree (by decide) hglimpse⟩
  · obtain ⟨fs, y, ⟨reply, y'⟩, hnew, hrun, hlast, hglimpse⟩ :=
      Backend.observe_eq_some after_runWithEviction
    exact ⟨y, y', reply, hreach (by decide) hnew hrun, hdisciplined hglimpse, hlast, hglimpse,
      hdisagree (by decide) hglimpse⟩

end System

end Udpfsd
