import Udpfsd.Fs.Table
import Udpfsd.Udpfs.Responses

/-!
# What a request does to the handle table

Each handler is summed up by what it does to the table and to the connection's handle
cache: an OPEN fills a slot and enters it in the cache, a CLOSE empties a slot and
removes it from the cache, and every other request works through at most one handle, the
one it names or the one of the write in progress.
-/

namespace Udpfsd.Fs

open Udprdma (Byte)
open Udpfs

variable {η φ ρ : Type}

/-- A request worked through a handle: it called methods of the handle's object only,
and without one it failed. The write in progress may have become this handle's, or
ended. -/
structure Works (c : Connection) (s : Backend η φ ρ) (handle : ℤ)
    (out : Outcome (Backend η φ ρ)) : Prop where
  /-- Only methods of the handle's object were called. -/
  uses : Backend.UsesHandle handle s out.fs
  /-- Without an object the request failed. -/
  failed : s.table.objectAt handle = none → out.reply.Failed
  /-- The handle cache is as it was. -/
  cache : out.conn.usedHandles = c.usedHandles
  /-- The write in progress. -/
  active : out.conn.activeWriteHandle = c.activeWriteHandle ∨
    out.conn.activeWriteHandle = -1 ∨ out.conn.activeWriteHandle = handle

/-- A request left the table and the connection's handles alone. -/
structure Leaves (c : Connection) (s : Backend η φ ρ) (out : Outcome (Backend η φ ρ)) : Prop where
  /-- The table is as it was. -/
  table : out.fs.table = s.table
  /-- The handle cache is as it was. -/
  cache : out.conn.usedHandles = c.usedHandles
  /-- The write in progress is as it was. -/
  active : out.conn.activeWriteHandle = c.activeWriteHandle

/-- The outcomes of an OPEN. -/
inductive Opened (c : Connection) (s : Backend η φ ρ) (out : Outcome (Backend η φ ρ)) : Prop
  /-- A handle of the cache is given out again. -/
  | reused {h : ℤ} {st : StatInfo} (hmem : h ∈ c.usedHandles.keys) (hfs : out.fs = s)
      (hkeys : ∀ k, k ∈ out.conn.usedHandles.keys ↔ k ∈ c.usedHandles.keys)
      (hactive : out.conn.activeWriteHandle = c.activeWriteHandle)
      (hreply : out.reply = .openReply h st)
  /-- The request failed. -/
  | failed (hrejects : s.table.Rejects out.fs.table) (hconn : out.conn = c)
      (hreply : out.reply.Failed)
  /-- A new object is put into a slot. -/
  | opened {i : Fin maxHandles} {tag : Tag} {path : Path} {flag : OpenFlag} {isDir : Bool}
      {st : StatInfo} (hslot : s.allocSlot = some i) (htable : out.fs.table = s.table.put i tag)
      (hid : tag.id = s.table.objects) (hconn : out.conn = c.addHandle (i + 1) path flag isDir)
      (hreply : out.reply = .openReply (i + 1) st)

/-- A CLOSE emptied a slot. -/
structure Closed (c : Connection) (s : Backend η φ ρ) (handle : ℤ)
    (out : Outcome (Backend η φ ρ)) : Prop where
  /-- The slot is emptied. -/
  table : ∃ i, slotOf handle = .ok i ∧ out.fs.table = s.table.free i
  /-- The handle is removed from the cache. -/
  conn : out.conn = c.removeHandle handle
  /-- The request succeeded. -/
  reply : out.reply = .closeReply 0

variable {P : Platform η φ ρ} {c : Connection} {s : Backend η φ ρ} {payload : List Byte}
  {out : Outcome (Backend η φ ρ)}

/-- A handle of the cache is given out again. -/
theorem Opened.of_reused {h : ℤ} {e : CachedHandle} {st : StatInfo} {status : ℤ}
    (hmem : h ∈ c.usedHandles.keys) :
    Opened c s
      ⟨{ c with usedHandles := c.usedHandles.insert h e }, s, .openReply h st, status⟩ := by
  refine .reused hmem rfl ?_ rfl rfl
  intro k
  rw [← AList.mem_keys] at hmem ⊢
  rw [← AList.mem_keys, AList.mem_insert]
  constructor
  · rintro (rfl | hk)
    · exact hmem
    · exact hk
  · exact Or.inr

/-- A chunk goes to the handle, and the write may end. -/
theorem Works.of_chunked {handle : ℤ} (hchunk : c.Chunked (Backend.fs P) s handle out) :
    Works c s handle out := by
  cases hchunk with
  | failed hcall =>
    exact ⟨(Backend.writeChunk_spec 0 hcall).1, fun _ => .of_err rfl, rfl, .inr (.inl rfl)⟩
  | more hcall =>
    obtain ⟨huses, hmissing⟩ := Backend.writeChunk_spec 0 hcall
    exact ⟨huses, fun hnone => (by cases hmissing hnone), rfl, .inl rfl⟩
  | last hcall hcomplete =>
    obtain ⟨huses, hmissing⟩ := Backend.writeChunk_spec 0 hcall
    have huses' := (Backend.completeWrite_spec hcomplete).1
    simp only [Backend.UsesHandle, huses.objectAt] at huses'
    exact ⟨huses.trans huses', fun hnone => (by cases hmissing hnone), rfl, .inr (.inl rfl)⟩

variable {t : Backend η φ ρ}

/-- The start of a write. -/
theorem starts_spec {handle : ℤ} {err : Option Error}
    (hcall : Connection.Starts (Backend.fs P) handle s err t) : Backend.UsesHandle handle s t ∧
      (s.table.objectAt handle = none → err = some .invalid) := by
  rcases hcall with hcall | ⟨_, _, hcall⟩
  · exact Backend.writeStart_spec hcall
  · exact Backend.bwriteStart_spec hcall

/-- The first chunk comes with the start of the write. -/
theorem Works.of_startedChunk {handle : ℤ}
    (hcall : Connection.Starts (Backend.fs P) handle s none t)
    (hchunk : (c.setWriteHandle handle).Chunked (Backend.fs P) t handle out) :
    Works c s handle out := by
  obtain ⟨huses, hmissing⟩ := starts_spec hcall
  have hworks := Works.of_chunked hchunk
  have huses' := hworks.uses
  simp only [Backend.UsesHandle, huses.objectAt] at huses'
  refine ⟨huses.trans huses', fun hnone => (by cases hmissing hnone), hworks.cache, ?_⟩
  rcases hworks.active with hactive | hactive
  · exact .inr (.inr hactive)
  · exact .inr hactive

/-- What a request does, by its type. -/
inductive Handled (c : Connection) (s : Backend η φ ρ) (payload : List Byte)
    (out : Outcome (Backend η φ ρ)) : Prop
  /-- An OPEN. -/
  | opened (htype : msgType payload = some .openReq) (hopened : Opened c s out)
  /-- A CLOSE of a slot. -/
  | closed {h : ℤ} (htype : msgType payload = some .closeReq)
      (htarget : c.target payload = some h) (hne : h ≠ blockDeviceHandle)
      (hclosed : Closed c s h out)
  /-- A request that works through a handle. -/
  | worked {h : ℤ} (htype : msgType payload ≠ some .openReq)
      (hclose : msgType payload ≠ some .closeReq) (htarget : c.target payload = some h)
      (hworks : Works c s h out)
  /-- A request that does not, among them the CLOSE of the block device. -/
  | left (htype : msgType payload ≠ some .openReq)
      (htarget : ∀ h, c.target payload = some h → h = blockDeviceHandle)
      (hleaves : Leaves c s out)

theorem Handled.of_worksOn {h : ℤ} (hon : c.WorksOn payload h) (hworks : Works c s h out) :
    Handled c s payload out :=
  .worked hon.opens hon.closes hon.target hworks

/-- A request on a path. -/
theorem Handled.of_path {m : MsgType} {reply : Reply} {status : ℤ}
    (htype : msgType payload = some m) (hm : m ≠ .openReq ∧ m ≠ .writeData ∧ m.handleLength = none)
    (htable : t.table = s.table) :
    Handled c s payload ⟨c, t, reply, status⟩ := by
  have htarget : c.target payload = none := by
    simp [Connection.target_of_msgType htype hm.2.1, hm.2.2]
  exact .left (by simpa [htype] using hm.1) (by simp [htarget]) ⟨htable, rfl, rfl⟩

/-- What `HandlePayload` does. -/
theorem handlePayload_spec (hok : c.handlePayload (Backend.fs P) s payload = .ok out) :
    Handled c s payload out := by
  cases Connection.responds hok with
  | refused htarget hopen _ =>
    by_cases htype : msgType payload = some .openReq
    · exact .opened htype (.failed (.refl _) rfl (hopen htype))
    · exact .left htype htarget ⟨rfl, rfl, rfl⟩
  | reused htype hmem => exact .opened htype (.of_reused hmem)
  | openFailed htype hcall hfailed hresult =>
    refine .opened htype (.failed ?_ rfl ⟨_, rfl, hresult⟩)
    rcases Backend.openFile_spec hcall with ⟨-, hrejects⟩ | ⟨hnone, i, -, -, hhandle, -⟩
    · exact hrejects
    · rcases hfailed with herr | hneg
      · exact absurd hnone herr
      · simp only at hhandle
        omega
  | opened htype hcall hhandle =>
    rcases Backend.openFile_spec hcall with ⟨herr | hneg, -⟩ | ⟨-, i, tag, hslot, heq, hput, hid, -⟩
    · exact absurd rfl herr
    · exact absurd hhandle (Int.not_le.mpr hneg)
    · obtain rfl := heq
      exact .opened htype (.opened hslot hput hid rfl rfl)
  | closeFailed _ hcall => cases (Backend.close_spec hcall).1
  | closed htype htarget hne hcall =>
    have hfree := (Backend.close_spec hcall).2.resolve_left (fun h => hne h.1)
    exact .closed htype htarget hne ⟨hfree, rfl, rfl⟩
  | read _ hon hcall herr =>
    obtain ⟨huses, hmissing⟩ := Backend.read_spec hcall
    refine .of_worksOn hon ⟨huses, fun hnone => ⟨_, rfl, herr ?_⟩, rfl, .inl rfl⟩
    cases hmissing hnone
    exact Option.some_ne_none _
  | bread _ hon hcall herr =>
    obtain ⟨huses, hmissing⟩ := Backend.bread_spec hcall
    refine .of_worksOn hon ⟨huses, fun hnone => ⟨_, rfl, herr ?_⟩, rfl, .inl rfl⟩
    cases hmissing hnone
    exact Option.some_ne_none _
  | lseek hon hcall hposition _ =>
    obtain ⟨huses, hmissing⟩ := Backend.lseek_spec hcall
    refine .of_worksOn hon ⟨huses, fun hnone => ⟨_, rfl, ?_⟩, rfl, .inl rfl⟩
    rw [hmissing hnone, or_self] at hposition
    rw [hposition]
    decide
  | dread hon hcall herr =>
    obtain ⟨huses, hmissing⟩ := Backend.dread_spec hcall
    refine .of_worksOn hon ⟨huses, fun hnone => ⟨_, rfl, herr ?_⟩, rfl, .inl rfl⟩
    cases hmissing hnone
    exact Option.some_ne_none _
  | getstat htype hcall => exact .of_path htype (by decide) (Backend.getstat_spec hcall)
  | mkdir htype hcall => exact .of_path htype (by decide) (Backend.table_mkdir hcall)
  | remove htype hcall | rmdir htype hcall =>
    exact .of_path htype (by decide) (Backend.changeDir_spec hcall)
  | startFailed hon hcall =>
    exact .of_worksOn hon ⟨(starts_spec hcall).1, fun _ => .of_err rfl, rfl, .inr (.inl rfl)⟩
  | started hon hcall =>
    obtain ⟨huses, hmissing⟩ := starts_spec hcall
    exact .of_worksOn hon ⟨huses, fun hnone => (by cases hmissing hnone), rfl, .inr (.inr rfl)⟩
  | startedChunk hon hcall hchunk => exact .of_worksOn hon (.of_startedChunk hcall hchunk)
  | chunk hon _ hchunk => exact .of_worksOn hon (.of_chunked hchunk)

/-! ### Loops over the handle cache -/

/-- The object of one of these handles. -/
def Table.Among (T : Table) (handles : List ℤ) (o : ℕ) : Prop :=
  ∃ h ∈ handles, T.objectAt h = some o

theorem rewindAll_spec {handles : List ℤ}
    (hok : Connection.rewindAll (Backend.fs P) handles s = .ok t) :
    Table.Uses (s.table.Among handles) s.table t.table := by
  induction handles generalizing s with
  | nil =>
    cases hok
    exact .refl _ _
  | cons h rest ih =>
    obtain ⟨⟨r, u⟩, hseek, hok⟩ := Fallible.bind_eq_ok.mp hok
    obtain ⟨huses, -⟩ := Backend.lseek_spec hseek
    refine (huses.mono ?_).trans ((ih hok).mono ?_)
    · intro o ho
      exact ⟨h, List.mem_cons_self, ho⟩
    · rintro o ⟨k, hk, ho⟩
      rw [huses.objectAt] at ho
      exact ⟨k, List.mem_cons_of_mem h hk, ho⟩

/-- Slots are emptied, and only objects in `own` are closed. -/
structure Table.Empties (own : ℕ → Prop) (T T' : Table) : Prop where
  /-- What is left was there before. -/
  slots : ∀ i tag, T'.slots i = some tag → T.slots i = some tag
  /-- The block device is as it was. -/
  device : T'.device = T.device
  /-- No object is made. -/
  objects : T'.objects = T.objects
  /-- The new calls are of methods of these objects. -/
  accesses : ∃ new, T'.accesses = T.accesses ++ new ∧ ∀ a ∈ new, own a.object

theorem Table.Empties.objectAt {own : ℕ → Prop} {T T' : Table} (h : T.Empties own T')
    {handle : ℤ} {o : ℕ} (ho : T'.objectAt handle = some o) : T.objectAt handle = some o := by
  unfold Table.objectAt at ho ⊢
  split_ifs at ho ⊢ with hbd
  · rwa [h.device] at ho
  · split at ho
    · rename_i i _
      obtain ⟨tag, htag, rfl⟩ := Option.map_eq_some_iff.mp ho
      rw [h.slots i tag htag]
      rfl
    · cases ho

/-- Nothing need be lost. -/
theorem Table.Empties.of_uses {own : ℕ → Prop} {T T' : Table} (h : T.Uses own T') :
    T.Empties own T' :=
  ⟨fun i tag hi => by rwa [h.slots] at hi, h.device, h.objects, h.accesses⟩

theorem Table.Empties.free (T : Table) {handle : ℤ} {i : Fin maxHandles}
    (hslot : slotOf handle = .ok i) :
    T.Empties (fun o => T.objectAt handle = some o) (T.free i) := by
  refine ⟨?_, rfl, rfl, Table.closing (T.slots i), rfl, ?_⟩
  · intro j tag hj
    by_cases hji : j = i
    · subst hji
      simp [Table.free] at hj
    · simpa [Table.free, hji] using hj
  · intro a ha
    have hne : handle ≠ blockDeviceHandle := by
      rw [Backend.slotOf_eq_ok.mp hslot]
      unfold blockDeviceHandle
      omega
    cases htag : T.slots i with
    | none => simp [htag, Table.closing] at ha
    | some tag =>
      simp only [htag, Table.closing, List.mem_singleton] at ha
      simp [Table.objectAt, hne, hslot, htag, ha]

theorem closeAll_spec {handles : List ℤ}
    (hok : Connection.closeAll (Backend.fs P) handles s = .ok t) :
    s.table.Empties (s.table.Among handles) t.table := by
  induction handles generalizing s with
  | nil =>
    cases hok
    exact ⟨fun _ _ h => h, rfl, rfl, [], by simp, by simp⟩
  | cons h rest ih =>
    obtain ⟨⟨r, u⟩, hclose, hok⟩ := Fallible.bind_eq_ok.mp hok
    have hrest := ih hok
    obtain ⟨new', hnew', hown'⟩ := hrest.accesses
    have hfirst : s.table.Empties (fun o => s.table.objectAt h = some o) u.table := by
      rcases (Backend.close_spec hclose).2 with ⟨-, rfl⟩ | ⟨i, hi, htable⟩
      · exact ⟨fun _ _ h => h, rfl, rfl, [], by simp, by simp⟩
      · rw [htable]
        exact .free _ hi
    obtain ⟨new, hnew, hown⟩ := hfirst.accesses
    refine ⟨fun i tag hi => hfirst.slots i tag (hrest.slots i tag hi),
      hrest.device.trans hfirst.device, hrest.objects.trans hfirst.objects, new ++ new', ?_, ?_⟩
    · rw [hnew', hnew, List.append_assoc]
    · intro a ha
      rcases List.mem_append.mp ha with ha | ha
      · exact ⟨h, List.mem_cons_self, hown a ha⟩
      · obtain ⟨k, hk, ho⟩ := hown' a ha
        exact ⟨k, List.mem_cons_of_mem h hk, hfirst.objectAt ho⟩

end Udpfsd.Fs
