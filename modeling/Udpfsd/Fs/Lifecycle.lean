import Mathlib.Data.List.Pairwise
import Udpfsd.Fs.Eviction
import Udpfsd.Udpfs.Keeps

/-!
# The life of an object

An object is made when a file or a directory is opened, is called by requests while it is in
the table, and leaves the table by being closed, on the request of a client, when its slot is
needed or when its client is gone. After that nothing calls it any more: there is no call
after a `Close`, so also no second `Close`.
-/

namespace Udpfsd.Fs

open Udprdma (Byte)
open Udpfs

variable {η φ ρ : Type}

/-- The second call may follow the first: the first does not close the object of the second. -/
def Access.MayPrecede (a b : Access) : Prop := a.method = .close → b.object ≠ a.object

namespace Table

/-- The object is in a slot, or is the block device. -/
def Live (T : Table) (o : ℕ) : Prop :=
  (∃ i tag, T.slots i = some tag ∧ tag.id = o) ∨ T.device = some o

/-- Objects in the table are different and have not been closed, and no call has followed a
`Close`. -/
structure Orderly (T : Table) : Prop where
  /-- Only objects that have been made have been called. -/
  made : ∀ a ∈ T.accesses, a.object < T.objects
  /-- Objects in the table have been made. -/
  live_lt : ∀ o, T.Live o → o < T.objects
  /-- They have not been closed. -/
  unclosed : ∀ o, T.Live o → ⟨o, .close⟩ ∉ T.accesses
  /-- Slots hold different objects. -/
  apart : ∀ i j tag tag', T.slots i = some tag → T.slots j = some tag' → tag.id = tag'.id → i = j
  /-- The block device is none of them. -/
  device_apart : ∀ i tag, T.slots i = some tag → T.device ≠ some tag.id
  /-- No call has followed a `Close`. -/
  ordered : T.accesses.Pairwise Access.MayPrecede

variable {T T' : Table} {i : Fin maxHandles} {tag : Tag}

/-- What a handle names is in the table. -/
theorem live_of_objectAt {handle : ℤ} {o : ℕ} (h : T.objectAt handle = some o) : T.Live o := by
  unfold objectAt at h
  split_ifs at h
  · exact Or.inr h
  · split at h
    · rename_i i _
      obtain ⟨tag, htag, hid⟩ := Option.map_eq_some_iff.mp h
      exact Or.inl ⟨i, tag, htag, hid⟩
    · cases h

/-- Calls of objects that have not been closed may follow. -/
theorem Orderly.ordered_append {new : List Access} (h : T.Orderly)
    (hlive : ∀ a ∈ new, ⟨a.object, .close⟩ ∉ T.accesses)
    (hnew : new.Pairwise Access.MayPrecede) :
    (T.accesses ++ new).Pairwise Access.MayPrecede := by
  refine List.pairwise_append.mpr ⟨h.ordered, hnew, ?_⟩
  intro a ha b hb hclose heq
  refine hlive b hb ?_
  rw [heq, ← hclose]
  exact ha

/-- Calls with the slots as they are. -/
theorem Orderly.append {new : List Access} (h : T.Orderly) (hslots : T'.slots = T.slots)
    (hdevice : T'.device = T.device) (hobjects : T.objects ≤ T'.objects)
    (hnew : T'.accesses = T.accesses ++ new) (hmade : ∀ a ∈ new, a.object < T'.objects)
    (hlive : ∀ o, T.Live o → ⟨o, .close⟩ ∉ new) (hopen : ∀ a ∈ new, ⟨a.object, .close⟩ ∉ T.accesses)
    (hordered : new.Pairwise Access.MayPrecede) : T'.Orderly := by
  have hsame (o : ℕ) (ho : T'.Live o) : T.Live o := by
    unfold Live at ho ⊢
    rwa [hslots, hdevice] at ho
  constructor
  · intro a ha
    rw [hnew, List.mem_append] at ha
    rcases ha with ha | ha
    · exact (h.made a ha).trans_le hobjects
    · exact hmade a ha
  · exact fun o ho => (h.live_lt o (hsame o ho)).trans_le hobjects
  · intro o ho hclosed
    rw [hnew, List.mem_append] at hclosed
    rcases hclosed with hclosed | hclosed
    · exact h.unclosed o (hsame o ho) hclosed
    · exact hlive o (hsame o ho) hclosed
  · rw [hslots]
    exact h.apart
  · rw [hslots, hdevice]
    exact h.device_apart
  · rw [hnew]
    exact h.ordered_append hopen hordered

/-- Calls of objects in the table, other than `Close`. -/
theorem Orderly.uses {own : ℕ → Prop} (h : T.Orderly) (huses : Uses own T T')
    (hown : ∀ o, own o → T.Live o) : T'.Orderly := by
  obtain ⟨new, hnew, hcalls⟩ := huses.calls
  refine h.append huses.slots huses.device huses.objects.ge hnew ?_ ?_ ?_ ?_
  · intro a ha
    rw [huses.objects]
    exact h.live_lt _ (hown _ (hcalls a ha).1)
  · exact fun o _ hclosed => (hcalls _ hclosed).2 rfl
  · exact fun a ha => h.unclosed _ (hown _ (hcalls a ha).1)
  · exact List.pairwise_of_forall_mem_list (fun a ha b _ hclose => absurd hclose (hcalls a ha).2)

/-- A new object does not get a slot, and may be closed at once. -/
theorem Orderly.reject (h : T.Orderly) (hr : T.Rejects T') : T'.Orderly := by
  obtain ⟨new, hnew, hclose⟩ := hr.calls
  refine h.append hr.slots hr.device hr.objects hnew ?_ ?_ ?_ ?_ <;>
    rcases hclose with rfl | ⟨rfl, hlt⟩
  · simp
  · simpa using hlt
  · simp
  · intro o ho hclosed
    cases List.mem_singleton.mp hclosed
    exact Nat.lt_irrefl _ (h.live_lt _ ho)
  · simp
  · intro a ha hclosed
    cases List.mem_singleton.mp ha
    exact Nat.lt_irrefl _ (h.made _ hclosed)
  · exact .nil
  · exact List.pairwise_singleton _ _

/-- What is left in the table when a slot is emptied. -/
theorem Orderly.live_of_free {o : ℕ} (h : T.Orderly) (ho : (T.free i).Live o) :
    T.Live o ∧ ⟨o, .close⟩ ∉ closing (T.slots i) := by
  have hother : T.Live o ∧ ∀ tag, T.slots i = some tag → tag.id ≠ o := by
    rcases ho with ⟨j, tag, hj, hid⟩ | hdevice
    · by_cases hji : j = i
      · subst hji
        simp [free] at hj
      · have hj' : T.slots j = some tag := by simpa [free, hji] using hj
        refine ⟨Or.inl ⟨j, tag, hj', hid⟩, ?_⟩
        intro tag' htag' hid'
        exact hji (h.apart j i tag tag' hj' htag' (hid.trans hid'.symm))
    · refine ⟨Or.inr hdevice, ?_⟩
      rintro tag htag rfl
      exact h.device_apart i tag htag hdevice
  refine ⟨hother.1, ?_⟩
  cases htag : T.slots i with
  | none => simp [closing]
  | some tag =>
    intro hmem
    simp only [closing, List.mem_singleton, Access.mk.injEq, and_true] at hmem
    exact hother.2 tag htag hmem.symm

/-- The calls made when a slot is emptied are of the object in it. -/
theorem live_of_closing {a : Access} (ha : a ∈ closing (T.slots i)) : T.Live a.object := by
  cases htag : T.slots i with
  | none =>
    rw [htag] at ha
    cases ha
  | some tag =>
    rw [htag] at ha
    rw [List.mem_singleton.mp ha]
    exact Or.inl ⟨i, tag, htag, rfl⟩

theorem pairwise_closing (slot : Option Tag) : (closing slot).Pairwise Access.MayPrecede := by
  cases slot with
  | none => exact .nil
  | some tag => exact List.pairwise_singleton _ _

theorem Orderly.free (h : T.Orderly) (i : Fin maxHandles) : (T.free i).Orderly := by
  have hslot (j : Fin maxHandles) (tag : Tag) (hj : (T.free i).slots j = some tag) :
      T.slots j = some tag := by
    by_cases hji : j = i
    · subst hji
      simp [Table.free] at hj
    · simpa [Table.free, hji] using hj
  constructor
  · intro a ha
    rcases List.mem_append.mp ha with ha | ha
    · exact h.made a ha
    · exact h.live_lt _ (live_of_closing ha)
  · exact fun o ho => h.live_lt o (h.live_of_free ho).1
  · intro o ho hclosed
    obtain ⟨hlive, hnot⟩ := h.live_of_free ho
    rcases List.mem_append.mp hclosed with hclosed | hclosed
    · exact h.unclosed o hlive hclosed
    · exact hnot hclosed
  · exact fun j k tag tag' hj hk => h.apart j k tag tag' (hslot j tag hj) (hslot k tag' hk)
  · exact fun j tag hj => h.device_apart j tag (hslot j tag hj)
  · exact h.ordered_append (fun a ha => h.unclosed _ (live_of_closing ha)) (pairwise_closing _)

/-- A new object takes the place of the one that is closed. -/
theorem Orderly.put (h : T.Orderly) (i : Fin maxHandles) (hid : tag.id = T.objects) :
    (T.put i tag).Orderly := by
  have hfree := h.free i
  have hslot (j : Fin maxHandles) (tag' : Tag) (hj : (T.put i tag).slots j = some tag') :
      (j = i ∧ tag' = tag) ∨ (T.free i).slots j = some tag' := by
    by_cases hji : j = i
    · subst hji
      refine Or.inl ⟨rfl, ?_⟩
      simpa [Table.put] using hj.symm
    · exact Or.inr (by simpa [Table.put, Table.free, hji] using hj)
  have hlive (o : ℕ) (ho : (T.put i tag).Live o) : o = T.objects ∨ (T.free i).Live o := by
    rcases ho with ⟨j, tag', hj, rfl⟩ | hdevice
    · rcases hslot j tag' hj with ⟨-, rfl⟩ | hj
      · exact Or.inl hid
      · exact Or.inr (Or.inl ⟨j, tag', hj, rfl⟩)
    · exact Or.inr (Or.inr hdevice)
  -- an object in another place is older than the new one
  have holder (j : Fin maxHandles) (tag' : Tag) (hj : (T.free i).slots j = some tag') :
      tag'.id ≠ tag.id := by
    rw [hid]
    exact Nat.ne_of_lt (hfree.live_lt _ (Or.inl ⟨j, tag', hj, rfl⟩))
  constructor
  · intro a ha
    exact (hfree.made a ha).trans_le (Nat.le_succ _)
  · intro o ho
    rcases hlive o ho with rfl | ho
    · exact Nat.lt_succ_self _
    · exact (hfree.live_lt o ho).trans_le (Nat.le_succ _)
  · intro o ho hclosed
    rcases hlive o ho with rfl | ho
    · exact absurd (hfree.made _ hclosed) (Nat.lt_irrefl _)
    · exact hfree.unclosed o ho hclosed
  · intro j k tag₁ tag₂ hj hk heq
    rcases hslot j tag₁ hj with ⟨hji, hnew⟩ | hold
    · rcases hslot k tag₂ hk with ⟨hki, -⟩ | hold'
      · exact hji.trans hki.symm
      · exact absurd (heq.symm.trans (congrArg Tag.id hnew)) (holder k tag₂ hold')
    · rcases hslot k tag₂ hk with ⟨-, hnew⟩ | hold'
      · exact absurd (heq.trans (congrArg Tag.id hnew)) (holder j tag₁ hold)
      · exact hfree.apart j k tag₁ tag₂ hold hold' heq
  · intro j tag' hj hdevice
    rcases hslot j tag' hj with ⟨-, rfl⟩ | hj
    · have hlt := hfree.live_lt _ (Or.inr hdevice)
      rw [hid] at hlt
      exact Nat.lt_irrefl _ hlt
    · exact hfree.device_apart j tag' hj hdevice
  · exact hfree.ordered

end Table

namespace Backend

variable {P : Platform η φ ρ} {s t : Backend η φ ρ}

/-- The life of objects after the calls of a method on a handle. -/
theorem orderly_of_uses {handle : ℤ} (huses : UsesHandle handle s t) (h : s.table.Orderly) :
    t.table.Orderly :=
  h.uses huses (fun _ ho => Table.live_of_objectAt ho)

theorem orderly_close {handle : ℤ} {r : Option Error} (hok : close P handle s = .ok (r, t))
    (h : s.table.Orderly) : t.table.Orderly := by
  rcases (close_spec hok).2 with ⟨-, rfl⟩ | ⟨i, -, htable⟩
  · exact h
  · rw [htable]
    exact h.free i

theorem orderly_openFile {path : Path} {flag : OpenFlag} {isDir : Bool} {r : OpenResult}
    (hok : openFile P path flag isDir s = .ok (r, t)) (h : s.table.Orderly) :
    t.table.Orderly := by
  rcases openFile_spec hok with ⟨-, hrejects⟩ | ⟨-, i, tag, -, -, htable, hid, -⟩
  · exact h.reject hrejects
  · rw [htable]
    exact h.put i hid

/-- Every method keeps the life of objects in order. -/
theorem keeps_orderly (P : Platform η φ ρ) :
    (fs P).Keeps (fun s t => s.table.Orderly → t.table.Orderly) where
  refl := fun _ h => h
  trans := fun h h' hs => h' (h hs)
  openFile := orderly_openFile
  close := orderly_close
  read := fun hok => orderly_of_uses (read_spec hok).1
  writeStart := fun hok => orderly_of_uses (writeStart_spec hok).1
  writeChunk := fun hok => orderly_of_uses (writeChunk_spec 0 hok).1
  completeWrite := fun hok => orderly_of_uses (completeWrite_spec hok).1
  lseek := fun hok => orderly_of_uses (lseek_spec hok).1
  dread := fun hok => orderly_of_uses (dread_spec hok).1
  getstat := fun hok h => (getstat_spec hok) ▸ h
  mkdir := fun hok h => (table_mkdir hok) ▸ h
  remove := fun hok h => (changeDir_spec hok) ▸ h
  rmdir := fun hok h => (changeDir_spec hok) ▸ h
  bread := fun hok => orderly_of_uses (bread_spec hok).1
  bwriteStart := fun hok => orderly_of_uses (bwriteStart_spec hok).1

/-- A new backend has at most the object of its block device, and has called nothing. -/
theorem orderly_newBackend {o : Options} {host : η} {now : ℕ}
    (hnew : newBackend P o host now = .ok (some s)) : s.table.Orderly := by
  have haccesses : s.table.accesses = [] := accesses_newBackend hnew
  have hslots (i : Fin maxHandles) (tag : Tag) : s.table.slots i ≠ some tag := by
    rw [(slots_eq_none s i).mpr (congrFun (handles_newBackend hnew) i)]
    exact Option.some_ne_none tag |>.symm
  constructor
  · rw [haccesses]
    intro a ha
    cases ha
  · rintro o (⟨i, tag, hi, -⟩ | hdevice)
    · exact absurd hi (hslots i tag)
    · exact device_newBackend hnew hdevice
  · rw [haccesses]
    intro o _ hmem
    cases hmem
  · exact fun i _ tag _ hi => absurd hi (hslots i tag)
  · exact fun i tag hi => absurd hi (hslots i tag)
  · rw [haccesses]
    exact .nil

end Backend

end Udpfsd.Fs
