import Mathlib.Algebra.BigOperators.Fin
import Mathlib.Algebra.Order.Group.Multiset
import Udpfsd.Fs.Eviction
import Udpfsd.Server.ReadOnly

/-!
# No handle is left behind

A client does not say goodbye. What it still has open is closed when it has been silent
for the peer timeout, and then through the handle cache of its connection: a slot that no
cache knows would stay occupied, and its file open, as long as the server runs. Slots are
filled by `Open` and entered in the cache by the handler afterwards, they are emptied by any
client that names them, and the cache gives handles out again after a reset. So that every
occupied slot is known to a known peer is an invariant of whole runs; with it, a round of
the cleanup loop over silent peers closes everything they had open, each object once.
-/

namespace Udpfsd

open Udprdma (Byte)
open Udpfs Fs

variable {κ η φ ρ : Type}

/-! ### Closing what a cache knows -/

namespace Fs

/-- One Close for each object in the table. -/
def Table.pending (T : Table) : Multiset Access :=
  ∑ i, (closing (T.slots i) : Multiset Access)

/-- The Close of an object that leaves the table is no longer pending. -/
theorem Table.pending_free (T : Table) (i : Fin maxHandles) :
    (closing (T.slots i) : Multiset Access) + (T.free i).pending = T.pending := by
  have hslots : (fun j => (closing ((T.free i).slots j) : Multiset Access)) =
      Function.update (fun j => (closing (T.slots j) : Multiset Access)) i 0 := by
    funext j
    by_cases hj : j = i
    · subst hj
      rw [slots_free_self, Function.update_self]
      rfl
    · rw [slots_free_of_ne T hj, Function.update_of_ne hj]
  unfold pending
  rw [hslots, Finset.sum_update_of_mem (Finset.mem_univ i), zero_add]
  exact (Finset.sum_eq_add_sum_sdiff_singleton_of_mem (Finset.mem_univ i)
    (fun j => (closing (T.slots j) : Multiset Access))).symm

/-- The slots of these handles are emptied, and each object in them is closed once. -/
structure Returned (handles : List ℤ) (s t : Backend η φ ρ) : Prop where
  /-- The slots. -/
  slots : ∀ i : Fin maxHandles, t.table.slots i =
    if (i : ℤ) + 1 ∈ handles then none else s.table.slots i
  /-- The calls. -/
  calls : ∃ new : List Access, t.table.accesses = s.table.accesses ++ new ∧
    (new : Multiset Access) + t.table.pending = s.table.pending
  /-- Time does not pass. -/
  now : t.world.now = s.world.now

theorem Returned.nil (s : Backend η φ ρ) : Returned [] s s :=
  ⟨fun _ => rfl, ⟨[], (List.append_nil _).symm, zero_add _⟩, rfl⟩

/-- One handle is returned, and then others. -/
theorem Returned.cons {h : ℤ} {handles : List ℤ} {i : Fin maxHandles} {s t u : Backend η φ ρ}
    (hi : h = (i : ℤ) + 1) (htable : t.table = s.table.free i) (hnow : t.world.now = s.world.now)
    (hrest : Returned handles t u) : Returned (h :: handles) s u := by
  constructor
  · intro j
    rw [hrest.slots, htable]
    by_cases hj : j = i
    · subst hj
      have hmem : (j : ℤ) + 1 ∈ h :: handles := hi ▸ List.mem_cons_self
      rw [if_pos hmem, Table.slots_free_self, ite_self]
    · have hne : ¬ (j : ℤ) + 1 = h := by
        intro heq
        apply hj
        apply Fin.ext
        omega
      rw [Table.slots_free_of_ne _ hj]
      simp only [List.mem_cons, hne, false_or]
  · obtain ⟨new, hnew, hpending⟩ := hrest.calls
    refine ⟨Table.closing (s.table.slots i) ++ new, ?_, ?_⟩
    · rw [hnew, htable, ← List.append_assoc]
      rfl
    · rw [← Multiset.coe_add, add_assoc, hpending, htable, Table.pending_free]
  · exact hrest.now.trans hnow

/-- A handle that names a slot. -/
def IsSlotHandle (h : ℤ) : Prop := ∃ i : Fin maxHandles, h = (i : ℤ) + 1

/-- Closing handles of slots does not fail. -/
theorem exists_closeAll (P : Platform η φ ρ) {handles : List ℤ} (s : Backend η φ ρ)
    (hslots : ∀ h ∈ handles, IsSlotHandle h) :
    ∃ t, Connection.closeAll (Backend.fs P) handles s = .ok t ∧ Returned handles s t := by
  induction handles generalizing s with
  | nil => exact ⟨s, rfl, .nil s⟩
  | cons h rest ih =>
    obtain ⟨i, hi⟩ := hslots h List.mem_cons_self
    have hbd : h ≠ blockDeviceHandle := by
      rw [hi]
      unfold blockDeviceHandle
      omega
    obtain ⟨t, hclose⟩ : ∃ t, Backend.close P h s = .ok (none, t) ∧
        t.world.now = s.world.now := by
      simp only [Backend.close, Backend.freeHandle, if_neg hbd, Backend.slotOf_eq_ok.mpr hi]
      exact ⟨_, rfl, Backend.now_closeSlot s i⟩
    obtain ⟨u, hrest, hreturned⟩ := ih t (fun k hk => hslots k (List.mem_cons_of_mem h hk))
    refine ⟨u, ?_, ?_⟩
    · rw [Connection.closeAll]
      exact Fallible.bind_eq_ok.mpr ⟨_, hclose.1, hrest⟩
    · rcases (Backend.close_spec hclose.1).2 with ⟨hbd', -⟩ | ⟨j, hj, htable⟩
      · exact absurd hbd' hbd
      · cases hj.symm.trans (Backend.slotOf_eq_ok.mpr hi)
        exact .cons hi htable hclose.2 hreturned

/-- What a step on behalf of a connection may do to the slots and to the cache: a slot that is
occupied afterwards is in the cache, or was occupied before and has not been dropped from it. -/
structure Tracks (c : Connection) (s : Backend η φ ρ) (c' : Connection) (s' : Backend η φ ρ) :
    Prop where
  /-- The occupied slots. -/
  slot : ∀ i : Fin maxHandles, s'.table.slots i ≠ none → (i : ℤ) + 1 ∈ c'.usedHandles.keys ∨
    s.table.slots i ≠ none ∧
      ((i : ℤ) + 1 ∈ c.usedHandles.keys → (i : ℤ) + 1 ∈ c'.usedHandles.keys)
  /-- The cache. -/
  cached : ∀ h ∈ c'.usedHandles.keys, h ∈ c.usedHandles.keys ∨ IsSlotHandle h

section Handlers

variable {c c' : Connection} {s s' : Backend η φ ρ} {payload : List Byte}
  {out : Outcome (Backend η φ ρ)}

theorem Tracks.of_same (hslots : s'.table.slots = s.table.slots)
    (hkeys : ∀ h, h ∈ c'.usedHandles.keys ↔ h ∈ c.usedHandles.keys) : Tracks c s c' s' := by
  constructor
  · intro i hi
    rw [hslots] at hi
    exact Or.inr ⟨hi, (hkeys _).mpr⟩
  · intro h hh
    exact Or.inl ((hkeys h).mp hh)

/-- An OPEN. -/
theorem Opened.tracks (hopened : Opened c s out) : Tracks c s out.conn out.fs := by
  cases hopened with
  | reused hmem hfs hkeys hactive hreply => exact .of_same (by rw [hfs]) hkeys
  | failed hrejects hconn hreply => exact .of_same hrejects.slots (by simp [hconn])
  | @opened i tag path flag isDir st hslot htable hid hconn hreply =>
    have hmem (h : ℤ) : h ∈ out.conn.usedHandles.keys ↔
        h = (i : ℤ) + 1 ∨ h ∈ c.usedHandles.keys := by
      rw [hconn, Connection.addHandle, ← AList.mem_keys, AList.mem_insert, AList.mem_keys]
    constructor
    · intro j hj
      by_cases hji : j = i
      · subst hji
        exact Or.inl ((hmem _).mpr (Or.inl rfl))
      · have hsame : out.fs.table.slots j = s.table.slots j := by
          rw [htable]
          exact Function.update_of_ne hji _ _
        rw [hsame] at hj
        exact Or.inr ⟨hj, fun hcached => (hmem _).mpr (Or.inr hcached)⟩
    · intro h hh
      rcases (hmem h).mp hh with rfl | hold
      · exact Or.inr ⟨i, rfl⟩
      · exact Or.inl hold

theorem keys_removeHandle (c : Connection) (h k : ℤ) :
    k ∈ (c.removeHandle h).usedHandles.keys ↔ k ≠ h ∧ k ∈ c.usedHandles.keys := by
  have hused : (c.removeHandle h).usedHandles = c.usedHandles.erase h := by
    simp only [Connection.removeHandle]
    split_ifs <;> rfl
  rw [hused, ← AList.mem_keys, AList.mem_erase, AList.mem_keys]

/-- A CLOSE. -/
theorem Closed.tracks {h : ℤ} (hclosed : Closed c s h out) : Tracks c s out.conn out.fs := by
  obtain ⟨i, hi, htable⟩ := hclosed.table
  have hh := Backend.slotOf_eq_ok.mp hi
  rw [hclosed.conn]
  constructor
  · intro j hj
    rw [htable] at hj
    have hji : j ≠ i := by
      rintro rfl
      exact hj (Table.slots_free_self _ _)
    rw [Table.slots_free_of_ne _ hji] at hj
    refine Or.inr ⟨hj, fun hcached => (keys_removeHandle c h _).mpr ⟨?_, hcached⟩⟩
    intro heq
    apply hji
    apply Fin.ext
    omega
  · intro k hk
    exact Or.inl ((keys_removeHandle c h k).mp hk).2

/-- Any request. -/
theorem Handled.tracks (hhandled : Handled c s payload out) : Tracks c s out.conn out.fs := by
  cases hhandled with
  | opened htype hopened => exact hopened.tracks
  | closed htype htarget hne hclosed => exact hclosed.tracks
  | worked htype hclose htarget hworks => exact .of_same hworks.uses.slots (by simp [hworks.cache])
  | left htype htarget hleaves => exact .of_same (by rw [hleaves.table]) (by simp [hleaves.cache])

end Handlers

end Fs

/-! ### Runs of the server -/

namespace Server

variable {P : Platform η φ ρ} {y y' : Server κ η φ ρ} {addr : κ}

/-- Each occupied slot is in the cache of a known peer, and a cache holds slots only. -/
structure Tracked (y : Server κ η φ ρ) : Prop where
  /-- The occupied slots. -/
  slot : ∀ i : Fin maxHandles, y.fs.table.slots i ≠ none →
    ∃ addr p, y.cMap addr = some p ∧ (i : ℤ) + 1 ∈ p.conn.usedHandles.keys
  /-- The caches. -/
  cached : ∀ addr p, y.cMap addr = some p → ∀ h ∈ p.conn.usedHandles.keys, IsSlotHandle h

/-- The cache of a peer that is known or new. -/
theorem Tracked.seen (hy : Tracked y) (addr : κ) :
    ∀ h ∈ (y.seen addr).conn.usedHandles.keys, IsSlotHandle h := by
  unfold Server.seen
  split
  · intro h hh
    cases hh
  · rename_i p hp
    exact hy.cached addr p hp

variable [DecidableEq κ]

/-- A step on behalf of a peer. -/
theorem Tracked.update {c conn : Connection} {fs : Backend η φ ρ} (hy : Tracked y)
    (hc : ∀ h, h ∈ c.usedHandles.keys ↔ h ∈ (y.seen addr).conn.usedHandles.keys)
    (htracks : Tracks c y.fs conn fs) : Tracked (y.update addr conn fs) := by
  constructor
  · intro i hi
    rcases htracks.slot i hi with hcached | ⟨hold, hkept⟩
    · exact ⟨addr, _, Function.update_self _ _ _, hcached⟩
    · obtain ⟨a, p, hp, hmem⟩ := hy.slot i hold
      by_cases ha : a = addr
      · subst ha
        refine ⟨a, _, Function.update_self _ _ _, hkept ((hc _).mpr ?_)⟩
        simpa [Server.seen, hp] using hmem
      · exact ⟨a, p, (Function.update_of_ne ha _ _).trans hp, hmem⟩
  · intro a p hp h hh
    by_cases ha : a = addr
    · subst ha
      cases (Function.update_self (f := y.cMap) a _).symm.trans hp
      rcases htracks.cached h hh with hold | hslot
      · exact hy.seen a h ((hc h).mp hold)
      · exact hslot
    · exact hy.cached a p ((Function.update_of_ne ha _ _).symm.trans hp) h hh

/-- A request. -/
theorem Tracked.request {payload : List Byte} {order : MapOrder} {reply : Option Reply}
    (hy : Tracked y) (hok : y.request P addr payload order = .ok (reply, y')) : Tracked y' := by
  unfold Server.request at hok
  split_ifs at hok
  · cases hok
    exact hy.update (fun _ => Iff.rfl) (.of_same rfl (fun _ => Iff.rfl))
  · obtain ⟨out, hhandle, hok⟩ := Fallible.bind_eq_ok.mp hok
    cases hok
    exact hy.update (order.mem_keys_apply _) (handlePayload_spec hhandle).tracks

/-- A restart of a peer. -/
theorem Tracked.reset {order : MapOrder} (hy : Tracked y)
    (hok : y.reset P addr order = .ok y') : Tracked y' := by
  obtain ⟨⟨conn, fs⟩, hpeer, hok⟩ := Fallible.bind_eq_ok.mp hok
  cases hok
  obtain ⟨fs', hrewind, hpeer⟩ := Fallible.bind_eq_ok.mp hpeer
  cases hpeer
  refine hy.update (order.mem_keys_apply _) (.of_same (rewindAll_spec hrewind).slots ?_)
  simp

/-- What the cleanup of an address does: a peer that has been silent long enough loses
everything it knows, and nothing else happens. -/
inductive CleanedUp (y : Server κ η φ ρ) (addr : κ) (y' : Server κ η φ ρ) : Prop
  /-- There is no such peer, or it has been heard of. -/
  | kept (hsame : y' = y) (hpeer : ∀ p, y.cMap addr = some p →
      ¬ y.peerTimeout ≤ y.fs.world.now - p.lastSeen)
  /-- The peer is removed. -/
  | removed {p : Peer} {fs : Backend η φ ρ} {handles : List ℤ} (hp : y.cMap addr = some p)
      (hhandles : ∀ h, h ∈ handles ↔ h ∈ p.conn.usedHandles.keys)
      (hreturned : Returned handles y.fs fs)
      (hsame : y' = { y with fs := fs, cMap := Function.update y.cMap addr none })

/-- The loop body of the cleanup does not fail. -/
theorem Tracked.exists_cleanup (P : Platform η φ ρ) (hy : Tracked y) (addr : κ)
    (order : MapOrder) : ∃ y', y.cleanup P addr order = .ok y' ∧ CleanedUp y addr y' := by
  unfold Server.cleanup
  cases hp : y.cMap addr with
  | none => exact ⟨y, rfl, .kept rfl (by simp [hp])⟩
  | some p =>
    simp only
    split_ifs with hsilent
    · have hmem := order.mem_keys_apply p.conn
      obtain ⟨fs, hall, hreturned⟩ := exists_closeAll P y.fs
        (fun h hh => hy.cached addr p hp h ((hmem h).mp hh))
      have hclose : (order.apply p.conn).close (Backend.fs P) y.fs =
          .ok ({ order.apply p.conn with usedHandles := ∅ }, fs) :=
        Fallible.bind_eq_ok.mpr ⟨fs, hall, rfl⟩
      rw [hclose]
      exact ⟨_, rfl, .removed hp hmem hreturned rfl⟩
    · refine ⟨y, rfl, .kept rfl ?_⟩
      intro q hq
      cases hp.symm.trans hq
      exact hsilent

theorem CleanedUp.tracked (hcleaned : CleanedUp y addr y') (hy : Tracked y) : Tracked y' := by
  cases hcleaned with
  | kept hsame hpeer => exact hsame ▸ hy
  | @removed p fs handles hp hhandles hreturned hsame =>
    subst hsame
    constructor
    · intro i hi
      rw [hreturned.slots] at hi
      -- a slot that is still occupied was not in the cache of the peer
      have hnot : (i : ℤ) + 1 ∉ handles := by
        intro hmem
        rw [if_pos hmem] at hi
        exact hi rfl
      rw [if_neg hnot] at hi
      obtain ⟨a, q, hq, hmem⟩ := hy.slot i hi
      have ha : a ≠ addr := by
        rintro rfl
        cases hp.symm.trans hq
        exact hnot ((hhandles _).mpr hmem)
      exact ⟨a, q, (Function.update_of_ne ha _ _).trans hq, hmem⟩
    · intro a q hq
      by_cases ha : a = addr
      · subst ha
        cases (Function.update_self (f := y.cMap) a _).symm.trans hq
      · exact hy.cached a q ((Function.update_of_ne ha _ _).symm.trans hq)

/-- The removal of a peer. -/
theorem Tracked.cleanup {order : MapOrder} (hy : Tracked y)
    (hok : y.cleanup P addr order = .ok y') : Tracked y' := by
  obtain ⟨t, ht, hcleaned⟩ := hy.exists_cleanup P addr order
  cases ht.symm.trans hok
  exact hcleaned.tracked hy

/-- Any step. -/
theorem Tracked.step {event : Event κ} {reply : Option Reply} (hy : Tracked y)
    (hok : y.step P event = .ok (reply, y')) : Tracked y' := by
  cases event with
  | request addr payload order => exact hy.request hok
  | reset addr order =>
    obtain ⟨t, hreset, hok⟩ := Fallible.bind_eq_ok.mp hok
    cases hok
    exact hy.reset hreset
  | cleanup addr order =>
    obtain ⟨t, hcleanup, hok⟩ := Fallible.bind_eq_ok.mp hok
    cases hok
    exact hy.cleanup hcleanup
  | wait d =>
    cases hok
    exact ⟨hy.slot, hy.cached⟩

omit [DecidableEq κ] in
/-- A new server. -/
theorem Tracked.new {o : Options} {host : η} {now peerTimeout : ℕ} {fs : Backend η φ ρ}
    (hnew : Backend.newBackend P o host now = .ok (some fs)) :
    Tracked (.new fs peerTimeout : Server κ η φ ρ) := by
  constructor
  · intro i hi
    simp [Server.new, Backend.table, Backend.handles_newBackend hnew] at hi
  · intro addr p hp
    cases hp

/-! ### Rounds of the cleanup loop -/

/-- A round of `cleanup`: the loop over the known peers. -/
def cleanupRound (P : Platform η φ ρ) (y : Server κ η φ ρ) (round : List (κ × MapOrder)) :
    Except Fault (Server κ η φ ρ) :=
  round.foldlM (fun y peer => y.cleanup P peer.1 peer.2) y

/-- A round over silent peers: they are forgotten, and what has left the table has been closed
once. -/
structure Swept (y : Server κ η φ ρ) (addrs : List κ) (y' : Server κ η φ ρ) : Prop where
  /-- The known peers. -/
  peers : ∀ a p, y'.cMap a = some p → a ∉ addrs ∧ y.cMap a = some p
  /-- The calls. -/
  calls : ∃ new : List Access, y'.fs.table.accesses = y.fs.table.accesses ++ new ∧
    (new : Multiset Access) + y'.fs.table.pending = y.fs.table.pending

/-- Every known peer has been silent for the peer timeout. -/
def AllSilent (y : Server κ η φ ρ) : Prop :=
  ∀ addr p, y.cMap addr = some p → y.peerTimeout ≤ y.fs.world.now - p.lastSeen

/-- The cleanup of one address, if all are silent. -/
theorem CleanedUp.swept (hcleaned : CleanedUp y addr y') (hsilent : AllSilent y) :
    Swept y [addr] y' ∧ AllSilent y' := by
  cases hcleaned with
  | kept hsame hpeer =>
    subst hsame
    have hnone : y'.cMap addr = none := by
      cases hp : y'.cMap addr with
      | none => rfl
      | some p => exact absurd (hsilent addr p hp) (hpeer p hp)
    refine ⟨⟨?_, [], (List.append_nil _).symm, zero_add _⟩, hsilent⟩
    intro a p hp
    refine ⟨?_, hp⟩
    intro ha
    rw [List.mem_singleton.mp ha, hnone] at hp
    cases hp
  | @removed p fs handles hp hhandles hreturned hsame =>
    subst hsame
    have hothers (a : κ) (q : Peer) (hq : Function.update y.cMap addr none a = some q) :
        a ≠ addr ∧ y.cMap a = some q := by
      by_cases ha : a = addr
      · rw [ha, Function.update_self] at hq
        cases hq
      · exact ⟨ha, (Function.update_of_ne ha _ _).symm.trans hq⟩
    refine ⟨⟨?_, hreturned.calls⟩, ?_⟩
    · intro a q hq
      obtain ⟨ha, hq⟩ := hothers a q hq
      exact ⟨fun hmem => ha (List.mem_singleton.mp hmem), hq⟩
    · intro a q hq
      have hold := hsilent a q (hothers a q hq).2
      simpa only [hreturned.now] using hold

omit [DecidableEq κ] in
/-- One address more is swept. -/
theorem Swept.trans {y'' : Server κ η φ ρ} {addrs : List κ} (h : Swept y [addr] y')
    (h' : Swept y' addrs y'') : Swept y (addr :: addrs) y'' := by
  obtain ⟨new, hnew, hpending⟩ := h.calls
  obtain ⟨new', hnew', hpending'⟩ := h'.calls
  refine ⟨?_, new ++ new', ?_, ?_⟩
  · intro a p hp
    obtain ⟨hrest, hp⟩ := h'.peers a p hp
    obtain ⟨hfirst, hp⟩ := h.peers a p hp
    refine ⟨?_, hp⟩
    rintro (_ | ⟨_, hmem⟩)
    · exact hfirst List.mem_cons_self
    · exact hrest hmem
  · rw [hnew', hnew, List.append_assoc]
  · rw [← Multiset.coe_add, add_assoc, hpending', hpending]

/-- A round over silent peers does not fail. -/
theorem Tracked.exists_cleanupRound (P : Platform η φ ρ) (hy : Tracked y) (hsilent : AllSilent y)
    (round : List (κ × MapOrder)) : ∃ y', y.cleanupRound P round = .ok y' ∧ Tracked y' ∧
      Swept y (round.map Prod.fst) y' := by
  induction round generalizing y with
  | nil =>
    exact ⟨y, rfl, hy, fun _ _ hp => ⟨List.not_mem_nil, hp⟩, [], (List.append_nil _).symm,
      zero_add _⟩
  | cons peer rest ih =>
    obtain ⟨t, hcleanup, hcleaned⟩ := hy.exists_cleanup P peer.1 peer.2
    obtain ⟨hswept, hsilent'⟩ := hcleaned.swept hsilent
    obtain ⟨y', hrest, hy', hswept'⟩ := ih (hcleaned.tracked hy) hsilent'
    refine ⟨y', ?_, hy', hswept.trans hswept'⟩
    unfold cleanupRound at hrest ⊢
    rw [List.foldlM_cons]
    exact Fallible.bind_eq_ok.mpr ⟨t, hcleanup, hrest⟩

/-- A round over all known peers, which are silent, does not fail, forgets them and empties the
table; it closes each object that was in the table once and calls nothing else. -/
theorem Tracked.exists_emptied (P : Platform η φ ρ) (hy : Tracked y) (hsilent : AllSilent y)
    (round : List (κ × MapOrder)) (hall : ∀ addr, y.cMap addr ≠ none → addr ∈ round.map Prod.fst) :
    ∃ y', y.cleanupRound P round = .ok y' ∧ (∀ addr, y'.cMap addr = none) ∧
      (∀ i, y'.fs.handles i = none) ∧
      ∃ calls : List Access, y'.fs.world.accesses = y.fs.world.accesses ++ calls ∧
        (calls : Multiset Access) = y.fs.table.pending := by
  obtain ⟨y', hround, hy', hswept⟩ := hy.exists_cleanupRound P hsilent round
  have hpeers (addr : κ) : y'.cMap addr = none := by
    cases hp : y'.cMap addr with
    | none => rfl
    | some p =>
      obtain ⟨hnot, hold⟩ := hswept.peers addr p hp
      exact absurd (hall addr (by simp [hold])) hnot
  have hslots (i : Fin maxHandles) : y'.fs.table.slots i = none := by
    by_contra hsome
    obtain ⟨addr, p, hp, -⟩ := hy'.slot i hsome
    cases (hpeers addr).symm.trans hp
  have hpending : y'.fs.table.pending = 0 := by
    unfold Table.pending
    simp [hslots, Table.closing]
  obtain ⟨calls, hcalls, hsum⟩ := hswept.calls
  rw [hpending, add_zero] at hsum
  exact ⟨y', hround, hpeers, fun i => by simpa [Backend.table] using hslots i, calls, hcalls, hsum⟩

end Server

end Udpfsd
