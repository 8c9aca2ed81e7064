import Udpfsd.Fs.Host
import Udpfsd.Fs.Table

/-!
# Allocation and eviction of handles

`allocHandle` looks for a free slot and for the slot used longest ago in one pass over the
table. The clock is read when the pass starts, again for the age of the oldest slot and once
more for the entry; here the readings may differ. What it does is stated for the tables that
any allocations, frees and uses leave behind, together with what becomes of the objects:
each is closed when it leaves the table, and only then.
-/

namespace Udpfsd.Fs

open Udpfs (Error Fault emfile)

variable {η φ ρ : Type}

namespace Backend

variable {P : Platform η φ ρ} {s s' : Backend η φ ρ} {i : Fin maxHandles}

/-! ### The pass over the table -/

section Scan

variable {handles : Fin maxHandles → Option (Handle φ ρ)} {lastUsed : Fin maxHandles → ℕ}
  {slots : List (Fin maxHandles)} {oldest oldest' : Fin maxHandles} {ts ts' : ℕ}

/-- A scan that stops has found the first free slot. -/
theorem allocScan_inl (hscan : allocScan handles lastUsed slots oldest ts = .inl i) :
    ∃ front rest, slots = front ++ i :: rest ∧ handles i = none ∧
      ∀ j ∈ front, handles j ≠ none := by
  induction slots generalizing oldest ts with
  | nil => cases hscan
  | cons first rest ih =>
    unfold allocScan at hscan
    cases hfirst : handles first with
    | none =>
      rw [hfirst] at hscan
      cases hscan
      exact ⟨[], rest, rfl, hfirst, by simp⟩
    | some h =>
      have hrest : ∃ o t, allocScan handles lastUsed rest o t = .inl i := by
        rw [hfirst] at hscan
        simp only at hscan
        split_ifs at hscan
        · exact ⟨_, _, hscan⟩
        · exact ⟨_, _, hscan⟩
      obtain ⟨o, t, hrest⟩ := hrest
      obtain ⟨front, back, rfl, hfree, hfront⟩ := ih hrest
      have hsome : handles first ≠ none := by
        rw [hfirst]
        exact Option.some_ne_none h
      exact ⟨first :: front, back, rfl, hfree, List.forall_mem_cons.mpr ⟨hsome, hfront⟩⟩

/-- In a table without a free slot the pass ends at the first of the slots used longest ago,
if one of them has been used before the time it started with. -/
theorem allocScan_inr (hscan : allocScan handles lastUsed slots oldest ts = .inr (oldest', ts')) :
    (∀ j ∈ slots, handles j ≠ none ∧ ts' ≤ lastUsed j) ∧
      ((oldest' = oldest ∧ ts' = ts) ∨
        ts' < ts ∧ ts' = lastUsed oldest' ∧
          ∃ front rest, slots = front ++ oldest' :: rest ∧ ∀ j ∈ front, ts' < lastUsed j) := by
  induction slots generalizing oldest ts with
  | nil =>
    cases hscan
    exact ⟨by simp, .inl ⟨rfl, rfl⟩⟩
  | cons first rest ih =>
    unfold allocScan at hscan
    cases hfirst : handles first with
    | none =>
      rw [hfirst] at hscan
      cases hscan
    | some h =>
      rw [hfirst] at hscan
      simp only at hscan
      have hsome : handles first ≠ none := by
        rw [hfirst]
        exact Option.some_ne_none h
      split_ifs at hscan with holder
      · -- the first slot is the oldest so far
        obtain ⟨hall, ⟨rfl, rfl⟩ | ⟨hlt, hts, front, back, rfl, hfront⟩⟩ := ih hscan
        · exact ⟨List.forall_mem_cons.mpr ⟨⟨hsome, le_refl _⟩, hall⟩,
            .inr ⟨holder, rfl, [], rest, rfl, by simp⟩⟩
        · exact ⟨List.forall_mem_cons.mpr ⟨⟨hsome, hlt.le⟩, hall⟩,
            .inr ⟨hlt.trans holder, hts, first :: front, back, rfl,
              List.forall_mem_cons.mpr ⟨hlt, hfront⟩⟩⟩
      · -- the first slot has been used no earlier than the oldest so far
        have hused : ts ≤ lastUsed first := Nat.le_of_not_lt holder
        obtain ⟨hall, ⟨rfl, rfl⟩ | ⟨hlt, hts, front, back, rfl, hfront⟩⟩ := ih hscan
        · exact ⟨List.forall_mem_cons.mpr ⟨⟨hsome, hused⟩, hall⟩, .inl ⟨rfl, rfl⟩⟩
        · have hlater := hlt.trans_le hused
          exact ⟨List.forall_mem_cons.mpr ⟨⟨hsome, hlater.le⟩, hall⟩,
            .inr ⟨hlt, hts, first :: front, back, rfl, List.forall_mem_cons.mpr ⟨hlater, hfront⟩⟩⟩

/-- The slots before one of them in the pass are those with a smaller index. -/
theorem mem_front {front rest : List (Fin maxHandles)} {j : Fin maxHandles}
    (hslots : List.finRange maxHandles = front ++ i :: rest) (hj : j < i) : j ∈ front := by
  have hmem : j ∈ front ++ i :: rest := hslots ▸ List.mem_finRange j
  have hsorted : (front ++ i :: rest).Pairwise (· < ·) :=
    hslots ▸ List.pairwise_lt_finRange maxHandles
  rw [List.pairwise_append, List.pairwise_cons] at hsorted
  rcases List.mem_append.mp hmem with hfront | hrest
  · exact hfront
  · rcases List.mem_cons.mp hrest with rfl | hrest
    · exact absurd hj (lt_irrefl _)
    · exact absurd (hsorted.2.1.1 j hrest) (lt_asymm hj)

end Scan

/-! ### Allocation -/

/-- A new object is put into a slot at some time, and what was there is closed. -/
def store (P : Platform η φ ρ) (s : Backend η φ ρ) (i : Fin maxHandles) (h : Handle φ ρ)
    (time : ℕ) : Backend η φ ρ :=
  { s with
    handles := Function.update s.handles i (some h)
    lastUsed := Function.update s.lastUsed i time
    world := { s.closeSlot P i with now := time } }

/-- `allocHandle` with its readings of the clock kept apart: the second is `d₁` after the
first, and the third `d₂` after the second. -/
def allocHandleReading (P : Platform η φ ρ) (s : Backend η φ ρ) (h : Handle φ ρ) (d₁ d₂ : ℕ) :
    ℤ × Backend η φ ρ :=
  match allocScan s.handles s.lastUsed (List.finRange maxHandles) 0 s.world.now with
  | .inl i => ((i : ℤ) + 1, s.store P i h (s.world.now + d₁ + d₂))
  | .inr (oldest, ts) =>
    if handleMaxLastUsed ≤ s.world.now + d₁ - ts then
      ((oldest : ℤ) + 1, s.store P oldest h (s.world.now + d₁ + d₂))
    else (-emfile, s.wait (d₁ + d₂))

theorem now_closeSlot (s : Backend η φ ρ) (i : Fin maxHandles) :
    (s.closeSlot P i).now = s.world.now := by
  unfold closeSlot
  cases s.handles i with
  | none => rfl
  | some h => cases h <;> rfl

/-- With one reading of the clock it is `allocHandle`. -/
theorem allocHandleReading_zero (s : Backend η φ ρ) (h : Handle φ ρ) :
    s.allocHandleReading P h 0 0 = s.allocHandle P h := by
  have hstore (i : Fin maxHandles) : s.store P i h s.world.now = { s with
      handles := Function.update s.handles i (some h)
      lastUsed := Function.update s.lastUsed i s.world.now
      world := s.closeSlot P i } := by
    unfold store
    rw [← now_closeSlot (P := P) s i]
  unfold allocHandleReading allocHandle allocSlot
  cases allocScan s.handles s.lastUsed (List.finRange maxHandles) 0 s.world.now with
  | inl i => simp only [Nat.add_zero, hstore]
  | inr r =>
    simp only [Nat.add_zero, hstore]
    split_ifs <;> rfl

/-- The lowest free slot. -/
def IsFirstFree (s : Backend η φ ρ) (i : Fin maxHandles) : Prop :=
  s.handles i = none ∧ ∀ j < i, s.handles j ≠ none

/-- No slot is free. -/
def IsFull (s : Backend η φ ρ) : Prop := ∀ i, s.handles i ≠ none

/-- The least recently used slot, the lowest one if there are several. -/
def IsOldest (s : Backend η φ ρ) (i : Fin maxHandles) : Prop :=
  (∀ j, s.lastUsed i ≤ s.lastUsed j) ∧ ∀ j < i, s.lastUsed i < s.lastUsed j

/-- No slot in use has been used in the future. -/
def IsPunctual (s : Backend η φ ρ) : Prop :=
  ∀ i, s.handles i ≠ none → s.lastUsed i ≤ s.world.now

/-- What the pass over the table ends with. -/
theorem allocScan_cases (hs : s.IsPunctual) :
    (∃ i, s.IsFirstFree i ∧
      allocScan s.handles s.lastUsed (List.finRange maxHandles) 0 s.world.now = .inl i) ∨
    (s.IsFull ∧ ∃ i, s.IsOldest i ∧
      allocScan s.handles s.lastUsed (List.finRange maxHandles) 0 s.world.now =
        .inr (i, s.lastUsed i)) := by
  cases hscan : allocScan s.handles s.lastUsed (List.finRange maxHandles) 0 s.world.now with
  | inl i =>
    obtain ⟨front, rest, hslots, hfree, hfront⟩ := allocScan_inl hscan
    exact .inl ⟨i, ⟨hfree, fun j hj => hfront j (mem_front hslots hj)⟩, rfl⟩
  | inr r =>
    obtain ⟨oldest, ts⟩ := r
    obtain ⟨hall, hend⟩ := allocScan_inr hscan
    have hfull : s.IsFull := fun j => (hall j (List.mem_finRange j)).1
    have hmin : ∀ j, ts ≤ s.lastUsed j := fun j => (hall j (List.mem_finRange j)).2
    right
    refine ⟨hfull, oldest, ?_⟩
    rcases hend with ⟨rfl, rfl⟩ | ⟨-, rfl, front, rest, hslots, hfront⟩
    · -- every slot has been used just now
      have hnow : s.lastUsed 0 = s.world.now := le_antisymm (hs 0 (hfull 0)) (hmin 0)
      rw [hnow]
      refine ⟨⟨fun j => hnow ▸ hmin j, fun j hj => ?_⟩, rfl⟩
      exact absurd hj (Fin.not_lt_zero j)
    · exact ⟨⟨hmin, fun j hj => hfront j (mem_front hslots hj)⟩, rfl⟩

/-- `allocHandle` takes the lowest free slot; in a full table it takes the least recently used
slot if some slot has not been used for an hour, and nothing otherwise. -/
structure AllocatesLru (P : Platform η φ ρ) (s : Backend η φ ρ) : Prop where
  /-- There is a free slot. -/
  free : ∀ h d₁ d₂ i, s.IsFirstFree i →
    s.allocHandleReading P h d₁ d₂ = ((i : ℤ) + 1, s.store P i h (s.world.now + d₁ + d₂))
  /-- There is none, but one that has not been used for an hour. -/
  evict : ∀ h d₁ d₂, s.IsFull → (∃ j, handleMaxLastUsed ≤ s.world.now + d₁ - s.lastUsed j) →
    ∃ i, s.IsOldest i ∧
      s.allocHandleReading P h d₁ d₂ = ((i : ℤ) + 1, s.store P i h (s.world.now + d₁ + d₂))
  /-- All have been used within the hour. -/
  reject : ∀ h d₁ d₂, s.IsFull → (∀ j, s.world.now + d₁ - s.lastUsed j < handleMaxLastUsed) →
    s.allocHandleReading P h d₁ d₂ = (-emfile, s.wait (d₁ + d₂))

/-- With a free slot the table is not full. -/
theorem IsFirstFree.not_isFull (hi : s.IsFirstFree i) : ¬ s.IsFull := fun hfull => hfull i hi.1

/-- Only one slot is the first free one. -/
theorem IsFirstFree.unique {j : Fin maxHandles} (hi : s.IsFirstFree i) (hj : s.IsFirstFree j) :
    i = j := by
  rcases lt_trichotomy i j with hlt | heq | hlt
  · exact absurd hi.1 (hj.2 i hlt)
  · exact heq
  · exact absurd hj.1 (hi.2 j hlt)

/-- `allocHandle` allocates as it should. -/
theorem allocatesLru (hs : s.IsPunctual) : s.AllocatesLru P := by
  rcases allocScan_cases hs with ⟨i, hfirst, hscan⟩ | ⟨hfull, i, holdest, hscan⟩
  · refine ⟨?_, fun _ _ _ hfull => absurd hfull hfirst.not_isFull,
      fun _ _ _ hfull => absurd hfull hfirst.not_isFull⟩
    intro h d₁ d₂ j hj
    obtain rfl := hfirst.unique hj
    unfold allocHandleReading
    rw [hscan]
  · refine ⟨fun _ _ _ j hj => absurd hfull hj.not_isFull, ?_, ?_⟩
    · rintro h d₁ d₂ - ⟨j, hj⟩
      have hmin := holdest.1 j
      refine ⟨i, holdest, ?_⟩
      unfold allocHandleReading
      rw [hscan]
      simp only
      rw [if_pos (by omega)]
    · intro h d₁ d₂ _ hyoung
      have hi := hyoung i
      unfold allocHandleReading
      rw [hscan]
      simp only
      rw [if_neg (by omega)]

/-- A handle is put into a slot that is free or has not been used for an hour, or is
rejected. -/
theorem allocHandleReading_cases (hs : s.IsPunctual) (h : Handle φ ρ) (d₁ d₂ : ℕ) :
    (∃ i, (s.handles i = none ∨ handleMaxLastUsed ≤ s.world.now + d₁ - s.lastUsed i) ∧
      s.allocHandleReading P h d₁ d₂ = ((i : ℤ) + 1, s.store P i h (s.world.now + d₁ + d₂))) ∨
    s.allocHandleReading P h d₁ d₂ = (-emfile, s.wait (d₁ + d₂)) := by
  unfold allocHandleReading
  rcases allocScan_cases hs with ⟨i, hfirst, hscan⟩ | ⟨hfull, i, holdest, hscan⟩
  · rw [hscan]
    exact .inl ⟨i, .inl hfirst.1, rfl⟩
  · rw [hscan]
    simp only
    split_ifs with hold
    · exact .inl ⟨i, .inr hold, rfl⟩
    · exact .inr rfl

/-! ### The objects in the table -/

end Backend

namespace Table

variable {T : Table} {i : Fin maxHandles} {o : ℕ} {tag : Tag} {stored : List ℕ}

/-- The object is in the table, in one slot. -/
def Has (T : Table) (o : ℕ) : Prop := ∃! i, (T.slots i).map Tag.id = some o

/-- The object is in no slot. -/
def Lacks (T : Table) (o : ℕ) : Prop := ∀ i, (T.slots i).map Tag.id ≠ some o

/-- How many times the object has been closed. -/
def closes (T : Table) (o : ℕ) : ℕ := T.accesses.count ⟨o, .close⟩

/-- Each of these objects is in the table and has not been closed, or has left it and has been
closed once. Nothing else is in the table. -/
structure Accounts (stored : List ℕ) (T : Table) : Prop where
  /-- Only objects that have been made are called. -/
  made : ∀ a ∈ T.accesses, a.object < T.objects
  /-- Only objects that have been made have been in the table. -/
  known : ∀ o ∈ stored, o < T.objects
  /-- Nothing else is in the table. -/
  only : ∀ i tag, T.slots i = some tag → tag.id ∈ stored
  /-- Each object is closed as often as it has left the table. -/
  once : ∀ o ∈ stored, (T.Has o ∧ T.closes o = 0) ∨ (T.Lacks o ∧ T.closes o = 1)

theorem closes_free_self (hi : T.slots i = some tag) :
    (T.free i).closes tag.id = T.closes tag.id + 1 := by
  unfold closes free
  rw [hi, closing, List.count_append, List.count_singleton_self]

theorem closes_free_of_ne (hi : (T.slots i).map Tag.id ≠ some o) :
    (T.free i).closes o = T.closes o := by
  unfold closes free
  cases hslot : T.slots i with
  | none => simp [closing]
  | some tag =>
    rw [hslot, Option.map_some, Ne, Option.some.injEq] at hi
    rw [closing, List.count_append, List.count_singleton, if_neg (by simpa using hi)]
    rfl

theorem free_eq_self (hi : T.slots i = none) : T.free i = T := by
  unfold free
  rw [hi, ← hi, Function.update_eq_self, hi, closing, List.append_nil]

theorem slots_free_self (T : Table) (i : Fin maxHandles) : (T.free i).slots i = none :=
  Function.update_self _ _ _

variable {j : Fin maxHandles}

theorem slots_free_of_ne (T : Table) (hj : j ≠ i) :
    (T.free i).slots j = T.slots j :=
  Function.update_of_ne hj _ _

/-- Freeing a slot takes its object out of the table and nothing else. -/
theorem id_slots_free :
    ((T.free i).slots j).map Tag.id = some o ↔ j ≠ i ∧ (T.slots j).map Tag.id = some o := by
  by_cases hj : j = i
  · subst hj
    simp [slots_free_self]
  · simp [slots_free_of_ne T hj, hj]

/-- Freeing a slot. -/
theorem Lacks.free (ho : T.Lacks o) (i : Fin maxHandles) : (T.free i).Lacks o :=
  fun j hj => ho j (id_slots_free.mp hj).2

/-- An object in another slot stays. -/
theorem Has.free (ho : T.Has o) (hi : (T.slots i).map Tag.id ≠ some o) : (T.free i).Has o := by
  obtain ⟨j, hj, huniq⟩ := ho
  have hne : j ≠ i := by
    rintro rfl
    exact hi hj
  exact ⟨j, id_slots_free.mpr ⟨hne, hj⟩, fun k hk => huniq k (id_slots_free.mp hk).2⟩

/-- The object in the slot leaves the table. -/
theorem Has.lacks_free (ho : T.Has o) (hi : (T.slots i).map Tag.id = some o) :
    (T.free i).Lacks o := by
  intro j hj
  obtain ⟨hne, hj⟩ := id_slots_free.mp hj
  exact hne (ho.unique hj hi)

/-- Calls of no method and objects that are not put into the table change nothing. -/
theorem Accounts.of_slots {T' : Table} (hT : T.Accounts stored) (hslots : T'.slots = T.slots)
    (haccesses : T'.accesses = T.accesses) (hobjects : T.objects ≤ T'.objects) :
    T'.Accounts stored where
  made a ha := (hT.made a (haccesses ▸ ha)).trans_le hobjects
  known o ho := (hT.known o ho).trans_le hobjects
  only i tag hi := hT.only i tag (hslots ▸ hi)
  once := by
    unfold Has Lacks closes
    rw [hslots, haccesses]
    exact hT.once

/-- Freeing a slot. -/
theorem Accounts.free (hT : T.Accounts stored) (i : Fin maxHandles) :
    (T.free i).Accounts stored := by
  cases hi : T.slots i with
  | none =>
    rw [free_eq_self hi]
    exact hT
  | some tag =>
    refine ⟨?_, hT.known, ?_, ?_⟩
    · intro a ha
      change a ∈ T.accesses ++ closing (T.slots i) at ha
      rw [hi, closing, List.mem_append, List.mem_singleton] at ha
      rcases ha with ha | rfl
      · exact hT.made a ha
      · exact hT.known _ (hT.only i tag hi)
    · intro j tag' hj
      have hid : ((T.free i).slots j).map Tag.id = some tag'.id := by rw [hj, Option.map_some]
      obtain ⟨hne, -⟩ := id_slots_free.mp hid
      rw [slots_free_of_ne T hne] at hj
      exact hT.only j tag' hj
    · intro o ho
      by_cases hio : (T.slots i).map Tag.id = some o
      · have hid : tag.id = o := by simpa [hi] using hio
        rcases hT.once o ho with ⟨hhas, hzero⟩ | ⟨hlacks, -⟩
        · refine .inr ⟨hhas.lacks_free hio, ?_⟩
          rw [← hid, closes_free_self hi, hid, hzero]
        · exact absurd hio (hlacks i)
      · rw [closes_free_of_ne hio]
        exact (hT.once o ho).imp (And.imp_left (·.free hio)) (And.imp_left (·.free i))

/-- A new object is put into a free slot. -/
def fill (T : Table) (i : Fin maxHandles) (tag : Tag) : Table :=
  { T with slots := Function.update T.slots i (some tag), objects := T.objects + 1 }

/-- Putting an object into a slot frees it first. -/
theorem put_eq_fill_free (T : Table) (i : Fin maxHandles) (tag : Tag) :
    T.put i tag = (T.free i).fill i tag := by
  simp [put, fill, free]

/-- Filling a free slot adds its object to the table. -/
theorem id_slots_fill (hi : T.slots i = none) :
    ((T.fill i tag).slots j).map Tag.id = some o ↔
      (j = i ∧ tag.id = o) ∨ (T.slots j).map Tag.id = some o := by
  by_cases hj : j = i
  · subst hj
    simp [fill, hi]
  · simp [fill, hj]

/-- An object that was in the table is still in one slot. -/
theorem Has.fill (ho : T.Has o) (hi : T.slots i = none) (hne : tag.id ≠ o) :
    (T.fill i tag).Has o := by
  obtain ⟨j, hj, huniq⟩ := ho
  refine ⟨j, (id_slots_fill hi).mpr (.inr hj), ?_⟩
  intro k hk
  rcases (id_slots_fill hi).mp hk with ⟨-, heq⟩ | hk
  · exact absurd heq hne
  · exact huniq k hk

/-- Filling a free slot. -/
theorem Lacks.fill (ho : T.Lacks o) (hi : T.slots i = none) (hne : tag.id ≠ o) :
    (T.fill i tag).Lacks o := by
  intro k hk
  rcases (id_slots_fill hi).mp hk with ⟨-, heq⟩ | hk
  · exact hne heq
  · exact ho k hk

/-- The new object is in this slot alone. -/
theorem Lacks.has_fill (hnew : T.Lacks tag.id) (hi : T.slots i = none) :
    (T.fill i tag).Has tag.id := by
  refine ⟨i, (id_slots_fill hi).mpr (.inl ⟨rfl, rfl⟩), ?_⟩
  intro k hk
  rcases (id_slots_fill hi).mp hk with ⟨hki, -⟩ | hk
  · exact hki
  · exact absurd hk (hnew k)

/-- Filling a free slot. -/
theorem Accounts.fill (hT : T.Accounts stored) (hi : T.slots i = none)
    (htag : tag.id = T.objects) : (T.fill i tag).Accounts (stored ++ [tag.id]) := by
  have hnew : T.Lacks tag.id := by
    intro j hj
    obtain ⟨tag', hslot, hid⟩ := Option.map_eq_some_iff.mp hj
    have hknown := hT.known _ (hT.only j tag' hslot)
    omega
  refine ⟨fun a ha => Nat.lt_succ_of_lt (hT.made a ha), ?_, ?_, ?_⟩
  · intro o ho
    rcases List.mem_append.mp ho with ho | ho
    · exact Nat.lt_succ_of_lt (hT.known o ho)
    · rw [List.mem_singleton.mp ho, htag]
      exact Nat.lt_succ_self _
  · intro j tag' hj
    have hid : ((T.fill i tag).slots j).map Tag.id = some tag'.id := by rw [hj, Option.map_some]
    rcases (id_slots_fill hi).mp hid with ⟨-, heq⟩ | hold
    · simp [heq]
    · obtain ⟨tag'', hslot, heq⟩ := Option.map_eq_some_iff.mp hold
      rw [← heq]
      exact List.mem_append_left _ (hT.only j tag'' hslot)
  · intro o ho
    rcases List.mem_append.mp ho with ho | ho
    · have hne : tag.id ≠ o := by
        have hknown := hT.known o ho
        omega
      exact (hT.once o ho).imp (And.imp_left (·.fill hi hne)) (And.imp_left (·.fill hi hne))
    · obtain rfl := List.mem_singleton.mp ho
      refine .inl ⟨hnew.has_fill hi, ?_⟩
      rw [htag, closes, List.count_eq_zero]
      exact fun hmem => absurd (hT.made _ hmem) (lt_irrefl _)

/-- Putting an object into a slot. -/
theorem Accounts.put (hT : T.Accounts stored) (i : Fin maxHandles) (htag : tag.id = T.objects) :
    (T.put i tag).Accounts (stored ++ [tag.id]) := by
  rw [put_eq_fill_free]
  exact (hT.free i).fill (slots_free_self T i) htag

end Table

/-! ### Runs of operations on the table -/

/-- An operation on the table, or what happens between two of them. -/
inductive HandleOp (η φ ρ : Type)
  /-- Time passes. -/
  | wait (d : ℕ)
  /-- `allocHandle` of a new object like this one, with its readings of the clock. -/
  | alloc (h : Handle φ ρ) (d₁ d₂ : ℕ)
  /-- `freeHandle` of the handle of a slot. -/
  | free (i : Fin maxHandles)
  /-- `getFile` of the handle of a slot. -/
  | getFile (i : Fin maxHandles)
  /-- `getDir` of the handle of a slot. -/
  | getDir (i : Fin maxHandles)
  /-- `getFileByPath`. -/
  | getFileByPath (hostPath : Path)
  /-- A caller works on the object in a slot, which becomes this one, and on the host. -/
  | work (i : Fin maxHandles) (h : Handle φ ρ) (host : η)

/-- The same object under another number. -/
def Handle.withId (id : ℕ) : Handle φ ρ → Handle φ ρ
  | file f => file { f with id := id }
  | dir d => dir { d with id := id }

namespace Backend

variable {P : Platform η φ ρ} {s s' s₁ s₂ : Backend η φ ρ} {i : Fin maxHandles} {r : ℤ}
  {op : HandleOp η φ ρ} {ops : List (HandleOp η φ ρ)} {stored known : List ℕ}

/-- An operation, with the handle that it returns or finds in use, and zero for none. -/
def perform (P : Platform η φ ρ) (s : Backend η φ ρ) :
    HandleOp η φ ρ → Except Fault (ℤ × Backend η φ ρ)
  | .wait d => .ok (0, s.wait d)
  | .alloc h d₁ d₂ =>
    let (id, s) := s.newObject
    .ok (s.allocHandleReading P (h.withId id) d₁ d₂)
  | .free i => do
    let (_, s) ← s.freeHandle P ((i : ℤ) + 1)
    return (0, s)
  | .getFile i => do
    let (found, s) ← s.getFile ((i : ℤ) + 1)
    return (if found.isSome then (i : ℤ) + 1 else 0, s)
  | .getDir i => do
    let (found, s) ← s.getDir ((i : ℤ) + 1)
    return (if found.isSome then (i : ℤ) + 1 else 0, s)
  | .getFileByPath hostPath =>
    .ok ((s.findByPath hostPath).elim 0 (fun i => (i : ℤ) + 1), (s.getFileByPath hostPath).2)
  | .work i h host =>
    .ok (0, if (s.handles i).map Handle.tag = some h.tag then
      { s with handles := Function.update s.handles i (some h), world.host := host } else s)

/-- The object that an operation with this result has put into the table. -/
def storedBy (s : Backend η φ ρ) (r : ℤ) : HandleOp η φ ρ → List ℕ
  | .alloc _ _ _ => if 0 < r then [s.world.objects] else []
  | _ => []

/-- Some operations, with the objects that they have put into the table. -/
def run (P : Platform η φ ρ) : Backend η φ ρ → List (HandleOp η φ ρ) →
    Except Fault (List ℕ × Backend η φ ρ)
  | s, [] => .ok ([], s)
  | s, op :: rest => do
    let (r, s') ← s.perform P op
    let (stored, s'') ← run P s' rest
    return (s.storedBy r op ++ stored, s'')

/-- What an operation can do. -/
inductive Effect (s : Backend η φ ρ) : HandleOp η φ ρ → ℤ → Backend η φ ρ → Prop
  /-- The table stays, and no slot is used. -/
  | idle {op : HandleOp η φ ρ} {r : ℤ} {s' : Backend η φ ρ} : r ≤ 0 → s.storedBy r op = [] →
      s'.table.slots = s.table.slots → s'.world.accesses = s.world.accesses →
      s.world.objects ≤ s'.world.objects → s'.lastUsed = s.lastUsed →
      s.world.now ≤ s'.world.now → Effect s op r s'
  /-- A slot is used. -/
  | used {op : HandleOp η φ ρ} (i : Fin maxHandles) : s.storedBy ((i : ℤ) + 1) op = [] →
      s.handles i ≠ none → Effect s op ((i : ℤ) + 1) (s.touch i)
  /-- A slot is freed. -/
  | emptied {s' : Backend η φ ρ} (i : Fin maxHandles) : s'.table = s.table.free i →
      s'.lastUsed = s.lastUsed → s'.world.now = s.world.now → Effect s (.free i) 0 s'
  /-- A new object is put into a slot that was free or has not been used for an hour. -/
  | filled {s' : Backend η φ ρ} (h : Handle φ ρ) (d₁ d₂ : ℕ) (i : Fin maxHandles) (tag : Tag) :
      s.handles i = none ∨ handleMaxLastUsed ≤ s'.world.now - s.lastUsed i →
      s'.table = s.table.put i tag → tag.id = s.table.objects →
      s'.lastUsed = Function.update s.lastUsed i s'.world.now →
      s.world.now ≤ s'.world.now → Effect s (.alloc h d₁ d₂) ((i : ℤ) + 1) s'

/-- `allocHandle`. -/
theorem effect_alloc (hs : s.IsPunctual) (h : Handle φ ρ) (d₁ d₂ : ℕ) :
    ∃ r s', s.perform P (.alloc h d₁ d₂) = .ok (r, s') ∧ Effect s (.alloc h d₁ d₂) r s' := by
  let s₁ : Backend η φ ρ := s.newObject.2
  let h₁ : Handle φ ρ := h.withId s.world.objects
  refine ⟨_, _, rfl, ?_⟩
  change Effect s _ (s₁.allocHandleReading P h₁ d₁ d₂).1 (s₁.allocHandleReading P h₁ d₁ d₂).2
  have hs₁ : s₁.IsPunctual := hs
  rcases allocHandleReading_cases (P := P) hs₁ h₁ d₁ d₂ with ⟨i, hold, halloc⟩ | halloc
  · rw [halloc]
    obtain ⟨haccesses, hobjects⟩ := closeSlot_spec (P := P) s₁ i
    refine .filled h d₁ d₂ i h₁.tag ?_ ?_ (by cases h <;> rfl) rfl ?_
    · refine hold.imp_right fun hage => ?_
      change handleMaxLastUsed ≤ s.world.now + d₁ + d₂ - s.lastUsed i
      change handleMaxLastUsed ≤ s.world.now + d₁ - s.lastUsed i at hage
      omega
    · simp only [table, Table.put, Table.mk.injEq] at haccesses ⊢
      exact ⟨slots_update s.handles i (some h₁), rfl, hobjects, haccesses⟩
    · change s.world.now ≤ s.world.now + d₁ + d₂
      omega
  · rw [halloc]
    refine .idle neg_emfile_neg.le ?_ rfl rfl (Nat.le_succ _) rfl (Nat.le_add_right _ _)
    unfold storedBy
    rw [if_neg (lt_asymm neg_emfile_neg)]

/-- `getFile` touches a slot that it finds. -/
theorem getFile_slot (s : Backend η φ ρ) (i : Fin maxHandles) :
    s.getFile ((i : ℤ) + 1) = .ok (none, s) ∨
      s.handles i ≠ none ∧ ∃ found, s.getFile ((i : ℤ) + 1) = .ok (some found, s.touch i) := by
  have hdevice : ¬ (i : ℤ) + 1 = Udpfs.blockDeviceHandle := by
    change ¬ (i : ℤ) + 1 = 0
    omega
  rw [Backend.getFile, if_neg (by omega), if_neg hdevice, slotOf_eq_ok.mpr rfl]
  dsimp only [bind, Except.bind]
  split
  · rename_i f hf
    exact .inr ⟨by rw [hf]; exact Option.some_ne_none _, _, rfl⟩
  · exact .inl rfl

/-- So does `getDir`. -/
theorem getDir_slot (s : Backend η φ ρ) (i : Fin maxHandles) :
    s.getDir ((i : ℤ) + 1) = .ok (none, s) ∨
      s.handles i ≠ none ∧ ∃ found, s.getDir ((i : ℤ) + 1) = .ok (some found, s.touch i) := by
  rw [Backend.getDir, slotOf_eq_ok.mpr rfl]
  dsimp only [bind, Except.bind]
  split
  · rename_i d hd
    exact .inr ⟨by rw [hd]; exact Option.some_ne_none _, _, rfl⟩
  · exact .inl rfl

theorem getFileByPath_slot (s : Backend η φ ρ) (hostPath : Path) :
    (s.findByPath hostPath = none ∧ (s.getFileByPath hostPath).2 = s) ∨
      ∃ i, s.handles i ≠ none ∧ s.findByPath hostPath = some i ∧
        (s.getFileByPath hostPath).2 = s.touch i := by
  unfold Backend.getFileByPath
  cases hfind : s.findByPath hostPath with
  | none => exact .inl ⟨rfl, rfl⟩
  | some i =>
    have hnamed : isNamed hostPath (s.handles i) = true :=
      List.find?_some (p := fun i => isNamed hostPath (s.handles i)) hfind
    cases hi : s.handles i with
    | none =>
      rw [hi] at hnamed
      cases hnamed
    | some h =>
      cases h with
      | dir d =>
        rw [hi] at hnamed
        cases hnamed
      | file f =>
        refine .inr ⟨i, ?_, rfl, by simp [hi]⟩
        rw [hi]
        exact Option.some_ne_none _

/-- A lookup uses the slot it finds. -/
theorem effect_lookup (hstored : ∀ r, s.storedBy r op = [])
    (hlookup : s.perform P op = .ok (0, s) ∨
      ∃ i : Fin maxHandles, s.handles i ≠ none ∧ s.perform P op = .ok ((i : ℤ) + 1, s.touch i)) :
    ∃ r s', s.perform P op = .ok (r, s') ∧ Effect s op r s' := by
  rcases hlookup with hnone | ⟨i, hi, hsome⟩
  · exact ⟨0, s, hnone, .idle le_rfl (hstored 0) rfl rfl le_rfl rfl le_rfl⟩
  · exact ⟨_, _, hsome, .used i (hstored _) hi⟩

/-- Every operation returns, with one of these effects. -/
theorem exists_effect (hs : s.IsPunctual) (op : HandleOp η φ ρ) :
    ∃ r s', s.perform P op = .ok (r, s') ∧ Effect s op r s' := by
  cases op with
  | wait d => exact ⟨_, _, rfl, .idle le_rfl rfl rfl rfl le_rfl rfl (Nat.le_add_right _ _)⟩
  | alloc h d₁ d₂ => exact effect_alloc hs h d₁ d₂
  | free i =>
    refine ⟨0, { s with handles := Function.update s.handles i none, world := s.closeSlot P i },
      ?_, .emptied i ?_ rfl (now_closeSlot s i)⟩
    · have hdevice : ¬ (i : ℤ) + 1 = Udpfs.blockDeviceHandle := by
        change ¬ (i : ℤ) + 1 = 0
        omega
      rw [perform, freeHandle, if_neg hdevice, slotOf_eq_ok.mpr rfl]
      rfl
    · obtain ⟨haccesses, hobjects⟩ := closeSlot_spec (P := P) s i
      simp only [table, Table.free, Table.mk.injEq] at haccesses ⊢
      exact ⟨slots_update s.handles i none, trivial, hobjects, haccesses⟩
  | getFile i =>
    refine effect_lookup (fun _ => rfl) ?_
    rcases s.getFile_slot i with hget | ⟨hi, found, hget⟩
    · exact .inl (by rw [perform, hget]; rfl)
    · exact .inr ⟨i, hi, by rw [perform, hget]; rfl⟩
  | getDir i =>
    refine effect_lookup (fun _ => rfl) ?_
    rcases s.getDir_slot i with hget | ⟨hi, found, hget⟩
    · exact .inl (by rw [perform, hget]; rfl)
    · exact .inr ⟨i, hi, by rw [perform, hget]; rfl⟩
  | getFileByPath hostPath =>
    refine effect_lookup (fun _ => rfl) ?_
    rcases s.getFileByPath_slot hostPath with ⟨hfind, hget⟩ | ⟨i, hi, hfind, hget⟩
    · exact .inl (by rw [perform, hfind, hget]; rfl)
    · exact .inr ⟨i, hi, by rw [perform, hfind, hget]; rfl⟩
  | work i h host =>
    refine ⟨_, _, rfl, ?_⟩
    split_ifs with htag
    · refine .idle le_rfl rfl ?_ rfl le_rfl rfl le_rfl
      exact slots_update_same (by rw [htag]; rfl)
    · exact .idle le_rfl rfl rfl rfl le_rfl rfl le_rfl

theorem slots_eq_none (s : Backend η φ ρ) (i : Fin maxHandles) :
    s.table.slots i = none ↔ s.handles i = none :=
  Option.map_eq_none_iff

/-! ### What the operations keep -/

section Effects

variable (he : Effect s op r s')
include he

/-- Time does not run backwards. -/
theorem Effect.now_le : s.world.now ≤ s'.world.now := by
  cases he with
  | idle _ _ _ _ _ _ hnow => exact hnow
  | used i _ _ => exact le_rfl
  | emptied i _ _ hnow => exact hnow.ge
  | filled _ _ _ _ _ _ _ _ _ hnow => exact hnow

/-- No slot was used in the future. -/
theorem Effect.isPunctual (hs : s.IsPunctual) : s'.IsPunctual := by
  have hnow := he.now_le
  intro j hj
  rw [Ne, ← slots_eq_none] at hj
  cases he with
  | idle _ _ hslots _ _ hused _ =>
    rw [hslots, slots_eq_none] at hj
    rw [hused]
    exact (hs j hj).trans hnow
  | used i _ hi =>
    change Function.update s.lastUsed i s.world.now j ≤ s.world.now
    by_cases hji : j = i
    · rw [hji, Function.update_self]
    · rw [Function.update_of_ne hji]
      exact hs j (mt (slots_eq_none s j).mpr hj)
  | emptied i htable hused _ =>
    by_cases hji : j = i
    · rw [htable, hji, Table.slots_free_self] at hj
      exact absurd rfl hj
    · rw [htable, Table.slots_free_of_ne _ hji, slots_eq_none] at hj
      rw [hused]
      exact (hs j hj).trans hnow
  | filled _ _ _ i tag _ htable _ hused _ =>
    rw [hused]
    by_cases hji : j = i
    · rw [hji, Function.update_self]
    · rw [htable] at hj
      rw [Function.update_of_ne hji]
      have hj' : s.handles j ≠ none := by
        rw [Ne, ← slots_eq_none]
        simpa [Table.put, Function.update_of_ne hji] using hj
      exact (hs j hj').trans hnow

/-- Every object is accounted for. -/
theorem Effect.accounts (hs : s.table.Accounts known) :
    s'.table.Accounts (known ++ s.storedBy r op) := by
  cases he with
  | idle _ hstored hslots haccesses hobjects _ _ =>
    rw [hstored, List.append_nil]
    exact hs.of_slots hslots haccesses hobjects
  | used i hstored _ =>
    rw [hstored, List.append_nil]
    exact hs
  | emptied i htable _ _ =>
    rw [htable]
    change (s.table.free i).Accounts (known ++ [])
    rw [List.append_nil]
    exact hs.free i
  | filled h d₁ d₂ i tag _ htable hid _ _ =>
    have hstored : s.storedBy ((i : ℤ) + 1) (.alloc h d₁ d₂) = [tag.id] := by
      unfold storedBy
      rw [if_pos (by omega), hid]
      rfl
    rw [hstored, htable]
    exact hs.put i hid

/-- A slot that has been used since `t` keeps its object until it is freed or an hour is over. -/
theorem Effect.keeps {tag : Tag} {t : ℕ} (hi : s.table.slots i = some tag) (ht : t ≤ s.lastUsed i)
    (hs : s.IsPunctual) (hop : op ≠ .free i) (hhour : s'.world.now < t + handleMaxLastUsed) :
    s'.table.slots i = some tag ∧ t ≤ s'.lastUsed i := by
  have hsome : s.handles i ≠ none := by
    rw [Ne, ← slots_eq_none, hi]
    exact Option.some_ne_none tag
  cases he with
  | idle _ _ hslots _ _ hused _ => exact ⟨hslots ▸ hi, hused ▸ ht⟩
  | used j _ _ =>
    refine ⟨hi, ?_⟩
    change t ≤ Function.update s.lastUsed j s.world.now i
    by_cases hij : i = j
    · rw [← hij, Function.update_self]
      exact ht.trans (hs i hsome)
    · rwa [Function.update_of_ne hij]
  | emptied j htable hused _ =>
    have hij : i ≠ j := by
      rintro rfl
      exact hop rfl
    rw [htable, hused, Table.slots_free_of_ne _ hij]
    exact ⟨hi, ht⟩
  | filled _ _ _ j tag' hold htable _ hused _ =>
    have hij : i ≠ j := by
      rintro rfl
      have hpast := hs i hsome
      rcases hold with hnone | hage
      · exact hsome hnone
      · omega
    rw [htable, hused, Function.update_of_ne hij]
    exact ⟨by simpa [Table.put, Function.update_of_ne hij] using hi, ht⟩

/-- The time of a slot is that of the last operation that returned or used it. -/
theorem Effect.lastUsed_eq (j : Fin maxHandles) :
    s'.lastUsed j = if r = (j : ℤ) + 1 then s'.world.now else s.lastUsed j := by
  cases he with
  | idle hnone _ _ _ _ hused _ => rw [if_neg (by omega), hused]
  | used i _ _ =>
    change Function.update s.lastUsed i s.world.now j = _
    rw [Function.update_apply]
    exact if_congr (by omega) rfl rfl
  | emptied i _ hused _ => rw [if_neg (by omega), hused]
  | filled _ _ _ i _ _ _ _ hused _ =>
    rw [hused, Function.update_apply]
    exact if_congr (by omega) rfl rfl

/-- The slot that an operation returns or uses holds an object and has been used just now. -/
theorem Effect.uses (hr : r = (i : ℤ) + 1) :
    ∃ tag, s'.table.slots i = some tag ∧ s'.lastUsed i = s'.world.now := by
  have htime := he.lastUsed_eq i
  rw [if_pos hr] at htime
  cases he with
  | idle hnone => omega
  | used j _ hj =>
    obtain rfl : j = i := by omega
    obtain ⟨h, hh⟩ := Option.ne_none_iff_exists'.mp hj
    exact ⟨h.tag, by simp [touch, table, hh], htime⟩
  | emptied j => omega
  | filled _ _ _ j tag _ htable _ _ _ =>
    obtain rfl : j = i := by omega
    rw [htable]
    exact ⟨tag, Function.update_self _ _ _, htime⟩

end Effects

/-- Any operations return, and keep the order of times and the account of the objects. -/
theorem run_spec (P : Platform η φ ρ) (hs : s.IsPunctual) (hT : s.table.Accounts known)
    (ops : List (HandleOp η φ ρ)) :
    ∃ stored s', s.run P ops = .ok (stored, s') ∧ s.world.now ≤ s'.world.now ∧ s'.IsPunctual ∧
      s'.table.Accounts (known ++ stored) := by
  induction ops generalizing s known with
  | nil => exact ⟨[], s, rfl, le_rfl, hs, by rwa [List.append_nil]⟩
  | cons op rest ih =>
    obtain ⟨r, s₁, hperform, he⟩ := exists_effect (P := P) hs op
    obtain ⟨stored, s', hrun, hnow, hs', hT'⟩ := ih (he.isPunctual hs) (he.accounts hT)
    refine ⟨s.storedBy r op ++ stored, s', ?_, he.now_le.trans hnow, hs', ?_⟩
    · rw [run, hperform]
      change (s₁.run P rest >>= _) = _
      rw [hrun]
      rfl
    · rwa [← List.append_assoc]

/-- The run lemma for a slot that has been used since `t`. -/
theorem run_keeps {tag : Tag} {t : ℕ} (hi : s.table.slots i = some tag) (ht : t ≤ s.lastUsed i)
    (hs : s.IsPunctual) (hT : s.table.Accounts known) (hrun : s.run P ops = .ok (stored, s'))
    (hops : .free i ∉ ops) (hhour : s'.world.now < t + handleMaxLastUsed) :
    s'.table.slots i = some tag := by
  induction ops generalizing s known stored with
  | nil =>
    cases hrun
    exact hi
  | cons op rest ih =>
    obtain ⟨r, s₁, hperform, he⟩ := exists_effect (P := P) hs op
    have hs₁ := he.isPunctual hs
    have hT₁ := he.accounts hT
    obtain ⟨⟨r', s₁'⟩, hperform', hrun⟩ := Fallible.bind_eq_ok.mp hrun
    cases hperform.symm.trans hperform'
    obtain ⟨⟨stored₁, s₂⟩, hrest, heq⟩ := Fallible.bind_eq_ok.mp hrun
    cases heq
    -- the clock does not go back during the rest of the run
    obtain ⟨_, _, hrest', hnow, -⟩ := run_spec P hs₁ hT₁ rest
    cases hrest.symm.trans hrest'
    obtain ⟨hop, hrestOps⟩ := not_or.mp (mt List.mem_cons.mpr hops)
    obtain ⟨hi₁, ht₁⟩ := he.keeps hi ht hs (Ne.symm hop) (hnow.trans_lt hhour)
    exact ih hi₁ ht₁ hs₁ hT₁ hrest hrestOps

/-- A table that has not been used yet. -/
structure IsUnused (s : Backend η φ ρ) : Prop where
  /-- All slots are free. -/
  free : ∀ i, s.handles i = none
  /-- Only objects that have been made have been called. -/
  made : ∀ a ∈ s.world.accesses, a.object < s.world.objects

theorem IsUnused.isPunctual (hs : s.IsUnused) : s.IsPunctual :=
  fun i hi => absurd (hs.free i) hi

theorem IsUnused.accounts (hs : s.IsUnused) : s.table.Accounts [] where
  made := hs.made
  known o ho := by cases ho
  only i tag hi := by
    rw [(slots_eq_none s i).mpr (hs.free i)] at hi
    cases hi
  once o ho := by cases ho

/-- A new backend has called nothing. -/
theorem accesses_newBackend {o : Options} {host : η} {now : ℕ}
    (hnew : newBackend P o host now = .ok (some s)) : s.world.accesses = [] := by
  unfold newBackend at hnew
  split at hnew
  · cases hnew
  unfold openBlockDevice at hnew
  split at hnew
  · cases hnew
    rfl
  simp only at hnew
  split at hnew
  · cases hnew
  · split at hnew <;> cases hnew
    rfl

/-- A backend starts with an unused table. -/
theorem isUnused_newBackend {o : Options} {host : η} {now : ℕ}
    (hnew : newBackend P o host now = .ok (some s)) : s.IsUnused := by
  refine ⟨fun i => congrFun (handles_newBackend hnew) i, ?_⟩
  rw [accesses_newBackend hnew]
  intro a ha
  cases ha

/-- Handles are allocated and evicted as they should be, whatever operations there have been:
`allocHandle` takes the lowest free slot, or in a full table the least recently used one if it
has not been used for an hour; it returns handles from 1 to 64. While the clock stands still it
is what the backend's model calls. The time of a slot is that of its last use. A slot that has
been used keeps its object for an hour unless it is freed, and an object is closed once, when it
leaves the table. -/
theorem handles_allocated_and_evicted (P : Platform η φ ρ) (s₀ : Backend η φ ρ)
    (hs₀ : s₀.IsUnused) (ops : List (HandleOp η φ ρ)) :
    ∃ stored s, s₀.run P ops = .ok (stored, s) ∧ s.AllocatesLru P ∧
      (∀ h d₁ d₂, (s.allocHandleReading P h d₁ d₂).1 = -emfile ∨
        1 ≤ (s.allocHandleReading P h d₁ d₂).1 ∧ (s.allocHandleReading P h d₁ d₂).1 ≤ 64) ∧
      (∀ h, s.allocHandleReading P h 0 0 = s.allocHandle P h) ∧
      (∀ op r s₁, s.perform P op = .ok (r, s₁) → ∀ j : Fin maxHandles,
        s₁.lastUsed j = if r = (j : ℤ) + 1 then s₁.world.now else s.lastUsed j) ∧
      (∀ op (i : Fin maxHandles) s₁ later stored' s₂, s.perform P op = .ok ((i : ℤ) + 1, s₁) →
        s₁.run P later = .ok (stored', s₂) → .free i ∉ later →
        s₂.world.now < s₁.world.now + handleMaxLastUsed →
        ∃ tag, s₁.table.slots i = some tag ∧ s₂.table.slots i = some tag) ∧
      (∀ o ∈ stored, (s.table.Has o ∧ s.table.closes o = 0) ∨
        (s.table.Lacks o ∧ s.table.closes o = 1)) := by
  obtain ⟨stored, s, hrun, -, hs, hT⟩ := run_spec P hs₀.isPunctual hs₀.accounts ops
  refine ⟨stored, s, hrun, allocatesLru hs, ?_, allocHandleReading_zero s, ?_, ?_, hT.once⟩
  · intro h d₁ d₂
    rcases allocHandleReading_cases (P := P) hs h d₁ d₂ with ⟨i, -, halloc⟩ | halloc
    · rw [halloc]
      have hi : i.val < 64 := i.isLt
      right
      simp only
      omega
    · rw [halloc]
      exact .inl rfl
  · intro op r s₁ hperform j
    obtain ⟨r', s₁', hperform', he⟩ := exists_effect (P := P) hs op
    cases hperform.symm.trans hperform'
    exact he.lastUsed_eq j
  · intro op i s₁ later stored' s₂ hperform hlater hfree hhour
    obtain ⟨r, s₁', hperform', he⟩ := exists_effect (P := P) hs op
    cases hperform.symm.trans hperform'
    obtain ⟨tag, htag, hused⟩ := he.uses rfl
    exact ⟨tag, htag,
      run_keeps htag hused.ge (he.isPunctual hs) (he.accounts hT) hlater hfree hhour⟩

/-- Directories fill the table. An hour later the first one is read, and one more is opened. -/
def fullTable : List (HandleOp Host OsFile Host.Image) :=
  List.replicate 64 (.alloc (.dir ⟨0, [], [], 0⟩) 1 0) ++
    [.wait handleMaxLastUsed, .getDir 0, .alloc (.dir ⟨0, [], [], 0⟩) 0 0]

/-- The last directory gets the slot of the second one, whose object has been closed. -/
theorem handles_allocated_and_evicted_of_full_table :
    ∃ s₀ s : Backend Host OsFile Host.Image,
      newBackend Host.platform ⟨[], [], 0, false, false, 0⟩ (.ofFile []) 0 = .ok (some s₀) ∧
      s₀.run Host.platform fullTable = .ok (List.range 65, s) ∧
      (s.table.slots 0).map Tag.id = some 0 ∧ (s.table.slots 1).map Tag.id = some 64 ∧
      s.AllocatesLru Host.platform ∧ s.table.Lacks 1 ∧ s.table.closes 1 = 1 := by
  have hview : observe Host.platform ⟨[], [], 0, false, false, 0⟩ (.ofFile []) id
      (fun s (_ : Unit) => .ok s) [] (fun s => s.run Host.platform fullTable) (fun _ r =>
        (r.1, (r.2.table.slots 0).map Tag.id, (r.2.table.slots 1).map Tag.id, r.2.table.closes 1)) =
      some (List.range 65, some 0, some 64, 1) := by decide +kernel
  obtain ⟨s₀, _, ⟨stored, s⟩, hnew, ⟨⟩, hrun, hseen⟩ := observe_eq_some hview
  obtain ⟨rfl, hfirst, hsecond, hcloses⟩ : stored = List.range 65 ∧ _ ∧ _ ∧ _ := by
    simpa only [Prod.mk.injEq] using hseen
  obtain ⟨_, s', hrun', hlru, -, -, -, -, honce⟩ :=
    handles_allocated_and_evicted Host.platform s₀ (isUnused_newBackend hnew) fullTable
  cases hrun.symm.trans hrun'
  refine ⟨s₀, s, hnew, hrun, hfirst, hsecond, hlru, ?_, hcloses⟩
  rcases honce 1 (by decide) with ⟨-, hzero⟩ | ⟨hlacks, -⟩
  · cases hcloses.symm.trans hzero
  · exact hlacks

end Backend

end Udpfsd.Fs
