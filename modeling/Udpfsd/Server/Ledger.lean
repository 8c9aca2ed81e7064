import Udpfsd.Fs.Requests
import Udpfsd.Server.Peers

/-!
# What the clients have been told

A client may use a handle that one of its OPENs was answered with until it closes it.
The ledger records, beside the server, which handles each client holds in this sense,
which object the OPEN has made, and whose request made an object. It agrees with the
handle table when behind a held handle there is the object that its client opened, or
nothing; it agrees with a connection when the connection knows only held handles.
-/

namespace Udpfsd

open Udprdma (Byte)
open Udpfs Fs

variable {κ η φ ρ : Type}

/-- What the clients have been told, and who opened which object. -/
structure Ledger (κ : Type) where
  /-- The object that a client's latest OPEN answered with this handle has opened, until
  a CLOSE of the handle succeeds. -/
  held : κ → ℤ → Option ℕ
  /-- The client whose request made an object. -/
  opener : ℕ → Option κ

namespace Ledger

/-- Nothing has been opened. -/
def empty : Ledger κ := ⟨fun _ _ => none, fun _ => none⟩

/-- The objects made between two counts are a client's. -/
def credit (L : Ledger κ) (addr : κ) (before after : ℕ) : Ledger κ :=
  { L with opener := fun o => if before ≤ o ∧ o < after then some addr else L.opener o }

@[simp] theorem credit_self (L : Ledger κ) (addr : κ) (n : ℕ) : L.credit addr n n = L := by
  have hnone (o : ℕ) : ¬ (n ≤ o ∧ o < n) := by omega
  simp [credit, hnone]

@[simp] theorem held_credit (L : Ledger κ) (addr : κ) (before after : ℕ) :
    (L.credit addr before after).held = L.held := rfl

/-- Earlier objects keep their opener. -/
theorem opener_credit_of_lt (L : Ledger κ) {addr : κ} {before after o : ℕ} (ho : o < before) :
    (L.credit addr before after).opener o = L.opener o := by
  have hnot : ¬ (before ≤ o ∧ o < after) := by omega
  simp [credit, hnot]

variable [DecidableEq κ]

/-- A client's handle is entered or struck out. -/
def set (L : Ledger κ) (addr : κ) (handle : ℤ) (object : Option ℕ) : Ledger κ :=
  { L with held := fun a h => if a = addr ∧ h = handle then object else L.held a h }

/-- The handles after the reply to a request. -/
def note (L : Ledger κ) (addr : κ) (payload : List Byte) (reply : Reply) (before after : ℕ) :
    Ledger κ :=
  match msgType payload, reply with
  | some .openReq, .openReply handle _ =>
    -- a handle that is given out again keeps the object it has
    if 0 < handle ∧ before < after then L.set addr handle (some before) else L
  | some .closeReq, .closeReply result =>
    match namedHandle payload with
    | some handle =>
      if result = 0 ∧ handle ≠ blockDeviceHandle then L.set addr handle none else L
    | none => L
  | _, _ => L

/-- The ledger after an event, with the number of objects made before and after it. -/
def record (L : Ledger κ) (event : Event κ) (reply : Option Reply) (before after : ℕ) :
    Ledger κ :=
  match event, reply with
  | .request addr payload _, some reply =>
    (L.credit addr before after).note addr payload reply before after
  | _, _ => L

@[simp] theorem opener_set (L : Ledger κ) (addr : κ) (handle : ℤ) (object : Option ℕ) :
    (L.set addr handle object).opener = L.opener := rfl

theorem held_set_same (L : Ledger κ) (addr : κ) (handle : ℤ) (object : Option ℕ) :
    (L.set addr handle object).held addr handle = object := by
  simp [set]

theorem held_set_of_ne (L : Ledger κ) {addr a : κ} {handle h : ℤ} (object : Option ℕ)
    (hne : a ≠ addr ∨ h ≠ handle) : (L.set addr handle object).held a h = L.held a h := by
  have hnot : ¬ (a = addr ∧ h = handle) := by tauto
  simp [set, hnot]

end Ledger

/-- The ledger agrees with the handle table. -/
structure Owned (T : Table) (L : Ledger κ) : Prop where
  /-- Behind a handle that a client holds is the object it opened, or nothing. -/
  held : ∀ addr h o, L.held addr h = some o → L.opener o = some addr ∧
    ∃ i : Fin maxHandles, h = (i : ℤ) + 1 ∧ ∀ tag, T.slots i = some tag → tag.id = o
  /-- What is in a slot is held by a client. -/
  slot : ∀ i tag, T.slots i = some tag → ∃ addr, L.held addr ((i : ℤ) + 1) = some tag.id
  /-- Objects of clients have been made. -/
  opener : ∀ o addr, L.opener o = some addr → o < T.objects
  /-- The block device is no client's. -/
  device : ∀ o, T.device = some o → o < T.objects ∧ L.opener o = none

/-- A connection knows only handles that its client holds. -/
structure Knows (L : Ledger κ) (addr : κ) (c : Connection) : Prop where
  /-- The handle cache. -/
  cache : ∀ h ∈ c.usedHandles.keys, L.held addr h ≠ none
  /-- The write in progress. -/
  active : c.activeWriteHandle = -1 ∨ c.activeWriteHandle = blockDeviceHandle ∨
    L.held addr c.activeWriteHandle ≠ none

namespace Owned

variable {T T' : Table} {L : Ledger κ} {addr : κ} {h : ℤ} {o o' : ℕ}

/-- A held handle names its client's object, if it names one. -/
theorem objectAt_eq (hT : Owned T L) (hheld : L.held addr h = some o)
    (hobject : T.objectAt h = some o') : o' = o := by
  obtain ⟨-, i, rfl, hslot⟩ := hT.held addr h o hheld
  have hne : ¬ (i : ℤ) + 1 = blockDeviceHandle := by
    unfold blockDeviceHandle
    omega
  rw [Table.objectAt, if_neg hne, Backend.slotOf_eq_ok.mpr rfl] at hobject
  obtain ⟨tag, htag, rfl⟩ := Option.map_eq_some_iff.mp hobject
  exact hslot tag htag

/-- The loss of handles does not hurt. -/
theorem empties {own : ℕ → Prop} (hT : Owned T L) (he : T.Empties own T') : Owned T' L := by
  constructor
  · intro addr h o hheld
    obtain ⟨hopener, i, hi, hslot⟩ := hT.held addr h o hheld
    exact ⟨hopener, i, hi, fun tag htag => hslot tag (he.slots i tag htag)⟩
  · exact fun i tag htag => hT.slot i tag (he.slots i tag htag)
  · exact fun o addr ho => he.objects ▸ hT.opener o addr ho
  · exact fun o ho => he.objects ▸ hT.device o (he.device ▸ ho)

/-- Objects that are given up again are credited to their client. -/
theorem rejects (hT : Owned T L) (hr : T.Rejects T') :
    Owned T' (L.credit addr T.objects T'.objects) := by
  have hobjects := hr.objects
  constructor
  · intro a h o hheld
    obtain ⟨hopener, i, hi, hslot⟩ := hT.held a h o hheld
    refine ⟨?_, i, hi, fun tag htag => hslot tag (hr.slots ▸ htag)⟩
    rw [L.opener_credit_of_lt (hT.opener o a hopener), hopener]
  · exact fun i tag htag => hT.slot i tag (hr.slots ▸ htag)
  · intro o a ho
    by_cases hlt : o < T.objects
    · omega
    · simp only [Ledger.credit] at ho
      split_ifs at ho with hnew
      · exact hnew.2
      · exact absurd (hT.opener o a ho) hlt
  · intro o ho
    obtain ⟨hlt, hnone⟩ := hT.device o (hr.device ▸ ho)
    exact ⟨by omega, by rw [L.opener_credit_of_lt hlt, hnone]⟩

variable [DecidableEq κ]

/-- A client gets a slot that no other client holds. -/
theorem put {i : Fin maxHandles} {tag : Tag} (hT : Owned T L) (hid : tag.id = T.objects)
    (hapart : ∀ other, other ≠ addr → L.held other ((i : ℤ) + 1) = none) :
    Owned (T.put i tag) ((L.credit addr T.objects (T.objects + 1)).set addr ((i : ℤ) + 1)
      (some T.objects)) := by
  have hnew : (L.credit addr T.objects (T.objects + 1)).opener T.objects = some addr := by
    simp [Ledger.credit]
  constructor
  · intro a h o hheld
    by_cases hsame : a = addr ∧ h = (i : ℤ) + 1
    · obtain ⟨rfl, rfl⟩ := hsame
      rw [Ledger.held_set_same] at hheld
      cases hheld
      refine ⟨hnew, i, rfl, ?_⟩
      intro tag' htag'
      simp only [Table.put, Function.update_self, Option.some.injEq] at htag'
      rw [← htag', hid]
    · rw [Ledger.held_set_of_ne _ _ (by tauto)] at hheld
      obtain ⟨hopener, j, rfl, hslot⟩ := hT.held a h o hheld
      refine ⟨?_, j, rfl, ?_⟩
      · rw [Ledger.opener_set, L.opener_credit_of_lt (hT.opener o a hopener), hopener]
      · have hji : j ≠ i := by
          -- another client would hold the slot, and the client itself has just been given it
          rintro rfl
          by_cases ha : a = addr
          · exact hsame ⟨ha, rfl⟩
          · rw [Ledger.held_credit, hapart a ha] at hheld
            cases hheld
        intro tag' htag'
        simp only [Table.put, Function.update_of_ne hji] at htag'
        exact hslot tag' htag'
  · intro j tag' htag'
    by_cases hji : j = i
    · subst hji
      simp only [Table.put, Function.update_self, Option.some.injEq] at htag'
      exact ⟨addr, by rw [Ledger.held_set_same, ← htag', hid]⟩
    · simp only [Table.put, Function.update_of_ne hji] at htag'
      obtain ⟨a, ha⟩ := hT.slot j tag' htag'
      have hne : (j : ℤ) + 1 ≠ (i : ℤ) + 1 := by
        have := Fin.val_ne_of_ne hji
        omega
      exact ⟨a, by rw [Ledger.held_set_of_ne _ _ (Or.inr hne), Ledger.held_credit, ha]⟩
  · intro o a ho
    simp only [Ledger.opener_set, Ledger.credit] at ho
    split_ifs at ho with hlt
    · exact hlt.2
    · exact Nat.lt_succ_of_lt (hT.opener o a ho)
  · intro o ho
    obtain ⟨hlt, hnone⟩ := hT.device o ho
    exact ⟨Nat.lt_succ_of_lt hlt, by rw [Ledger.opener_set, L.opener_credit_of_lt hlt, hnone]⟩

/-- A client closes a handle. -/
theorem free {i : Fin maxHandles} (hT : Owned T L) (hslot : slotOf h = .ok i) :
    Owned (T.free i) (L.set addr h none) := by
  have hi := Backend.slotOf_eq_ok.mp hslot
  have hfree := hT.empties (.free T hslot)
  constructor
  · intro a k o hheld
    by_cases hsame : a = addr ∧ k = h
    · obtain ⟨rfl, rfl⟩ := hsame
      rw [Ledger.held_set_same] at hheld
      cases hheld
    · rw [Ledger.held_set_of_ne _ _ (by tauto)] at hheld
      exact hfree.held a k o hheld
  · intro j tag htag
    have hji : j ≠ i := by
      rintro rfl
      simp [Table.free] at htag
    obtain ⟨a, ha⟩ := hfree.slot j tag htag
    have hne : (j : ℤ) + 1 ≠ h := by
      have := Fin.val_ne_of_ne hji
      omega
    exact ⟨a, by rw [Ledger.held_set_of_ne _ _ (Or.inr hne), ha]⟩
  · exact hfree.opener
  · exact hfree.device

end Owned

namespace Knows

variable {L L' : Ledger κ} {addr : κ} {c c' : Connection}

theorem newConnection (L : Ledger κ) (addr : κ) : Knows L addr newConnection :=
  ⟨by simp [Udpfs.newConnection], Or.inl rfl⟩

/-- A connection may lose handles, and the client may gain some. -/
theorem mono (hc : Knows L addr c) (hkeys : ∀ h ∈ c'.usedHandles.keys, h ∈ c.usedHandles.keys)
    (hactive : c'.activeWriteHandle = c.activeWriteHandle)
    (hheld : ∀ h, L.held addr h ≠ none → L'.held addr h ≠ none) : Knows L' addr c' := by
  refine ⟨fun h hh => hheld h (hc.cache h (hkeys h hh)), ?_⟩
  rw [hactive]
  exact hc.active.imp_right (Or.imp_right (hheld _))

theorem apply (hc : Knows L addr c) (order : MapOrder) : Knows L addr (order.apply c) :=
  hc.mono (fun h hh => (order.mem_keys_apply c h).mp hh) rfl (fun _ => id)

/-- A handle that is closed is forgotten by both. -/
theorem removeHandle [DecidableEq κ] (hc : Knows L addr c) (handle : ℤ) :
    Knows (L.set addr handle none) addr (c.removeHandle handle) := by
  have hkeep (h : ℤ) (hne : h ≠ handle) (hheld : L.held addr h ≠ none) :
      (L.set addr handle none).held addr h ≠ none := by
    rwa [Ledger.held_set_of_ne _ _ (Or.inr hne)]
  have hkeys : ∀ h ∈ (c.usedHandles.erase handle).keys,
      (L.set addr handle none).held addr h ≠ none := by
    intro h hh
    rw [← AList.mem_keys, AList.mem_erase] at hh
    exact hkeep h hh.1 (hc.cache h (AList.mem_keys.mp hh.2))
  unfold Connection.removeHandle
  by_cases hactive : c.activeWriteHandle = handle
  · simp only [if_pos hactive]
    exact ⟨hkeys, Or.inl rfl⟩
  · simp only [if_neg hactive]
    exact ⟨hkeys, hc.active.imp_right (Or.imp_right (hkeep _ hactive))⟩

/-- A disciplined client's requests work through handles it holds. -/
theorem held_of_target {payload : List Byte} {h : ℤ} (hc : Knows L addr c)
    (hdisciplined : ∀ h, namedHandle payload = some h → h ≠ blockDeviceHandle →
      L.held addr h ≠ none)
    (htarget : c.target payload = some h) (hne : h ≠ blockDeviceHandle) :
    ∃ o, L.held addr h = some o := by
  rw [← Option.ne_none_iff_exists']
  unfold Connection.target at htarget
  split_ifs at htarget with hdata hidle
  · cases htarget
    rw [not_or] at hidle
    exact (hc.active.resolve_left hidle.2).resolve_left hne
  · exact hdisciplined h htarget hne

end Knows

end Udpfsd
