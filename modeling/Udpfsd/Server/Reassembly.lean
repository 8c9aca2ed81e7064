import Mathlib.Algebra.Order.BigOperators.Group.List
import Mathlib.Algebra.Order.Ring.Nat
import Udpfsd.Base.Subsequence
import Udpfsd.Fs.Host
import Udpfsd.Fs.Requests

/-!
# Reassembly of a chunked write

A client writes to a file with a WRITE_REQ, which may carry the first chunk, and
WRITE_DATA messages, each with its number, the number of chunks and one chunk. The backend
takes a chunk when its number is the one of the next chunk and drops it otherwise, so that
messages may be repeated and come in any order: the write is made when the numbers of all
chunks have occurred in their order.
-/

namespace Udpfsd

open Udprdma (Byte)
open Udpfs Fs

variable {η φ ρ : Type}

namespace Fs.Backend

variable {P : Platform η φ ρ} {s : Backend η φ ρ} {handle : ℤ} {f f' : FileHandle φ ρ}

/-! ### The methods of a write -/

/-- The file is in the middle of a write that `f₀` had none of: `k` chunks have been taken. -/
structure Gathers (f₀ f : FileHandle φ ρ) (data : List Byte) (k : ℕ) : Prop where
  /-- It is the same file. -/
  id : f.id = f₀.id
  /-- Nothing has been done to it. -/
  obj : f.obj = f₀.obj
  /-- The write is not a block write. -/
  blockWrite : f.wr.blockWrite = false
  /-- The data of the chunks. -/
  dataBuffer : f.wr.dataBuffer = data
  /-- Their number. -/
  receivedChunks : f.wr.receivedChunks.toNat = k

theorem writeStart_of_fileAt (hf : s.fileAt handle = some f) (hwritable : f.readOnly = false) :
    ∃ t g, writeStart handle s = .ok (none, t) ∧ t.fileAt handle = some g ∧ Gathers f g [] 0 ∧
      t.world = s.world := by
  obtain ⟨t, hrun, hg, hworld⟩ : ∃ t, writeStart handle s = .ok (none, t) ∧
      t.fileAt handle = some { f with wr := { f.wr with
        blockWrite := false, dataBuffer := [], totalChunks := 0, receivedChunks := 0 } } ∧
      t.world = s.world :=
    withFile_of_fileAt hf (if_neg (by simp [hwritable]))
  exact ⟨t, _, hrun, hg, ⟨rfl, rfl, rfl, rfl, rfl⟩, hworld⟩

/-- A chunk out of turn is dropped. -/
theorem writeChunk_skips {chunkNr chunkSize totalChunks : BitVec 16} {chunk : List Byte}
    (hf : s.fileAt handle = some f) (hturn : chunkNr ≠ f.wr.receivedChunks) :
    ∃ t, writeChunk handle chunkNr chunkSize totalChunks chunk s = .ok ((false, none), t) ∧
      t.fileAt handle = some f ∧ t.world = s.world :=
  withFile_of_fileAt hf (if_pos hturn)

/-- A chunk in turn is taken. -/
theorem writeChunk_takes {chunkNr chunkSize totalChunks : BitVec 16} {chunk data : List Byte}
    {k : ℕ} (hf : s.fileAt handle = some f') (hg : Gathers f f' data k)
    (hturn : chunkNr.toNat = k) (hk : k + 1 < 2 ^ 16) :
    ∃ t g, writeChunk handle chunkNr chunkSize totalChunks chunk s =
        .ok ((decide (totalChunks.toNat ≤ k + 1), none), t) ∧
      t.fileAt handle = some g ∧ Gathers f g (data ++ chunk) (k + 1) ∧ t.world = s.world := by
  have hcount : (f'.wr.receivedChunks + 1).toNat = k + 1 := by
    rw [BitVec.toNat_add, hg.receivedChunks]
    exact Nat.mod_eq_of_lt hk
  have hturn' : ¬ chunkNr ≠ f'.wr.receivedChunks := by
    rw [not_not, ← BitVec.toNat_inj, hturn, hg.receivedChunks]
  obtain ⟨t, hrun, hg', hworld⟩ : ∃ t, writeChunk handle chunkNr chunkSize totalChunks chunk s =
        .ok ((decide (totalChunks ≤ f'.wr.receivedChunks + 1), none), t) ∧
      t.fileAt handle = some { f' with wr := { f'.wr with
        dataBuffer := f'.wr.dataBuffer ++ chunk
        totalChunks := totalChunks
        receivedChunks := f'.wr.receivedChunks + 1 } } ∧ t.world = s.world :=
    withFile_of_fileAt hf (if_neg hturn')
  refine ⟨t, _, ?_, hg', ⟨hg.id, hg.obj, hg.blockWrite, ?_, hcount⟩, hworld⟩
  · rw [← hcount]
    exact hrun
  · rw [← hg.dataBuffer]

/-- What `CompleteWrite` returns, given what `Write` has returned. -/
def completed (r : ℤ × Option Error) : ℤ × Option Error :=
  match r.2 with
  | some err => (0, some err)
  | none => (int32 r.1, none)

theorem completeBody_regular {sectorSize : ℤ} {w : World η} (hblock : f.wr.blockWrite = false) :
    completeBody P sectorSize f w = .ok (completed (f.write P f.wr.dataBuffer w).1,
      (f.write P f.wr.dataBuffer w).2.1, (f.write P f.wr.dataBuffer w).2.2) := by
  rw [completeBody, if_neg (by simp [hblock])]
  simp only [completed]
  cases (f.write P f.wr.dataBuffer w).1.2 <;> rfl

/-- A completed write is one `Write` of the data. -/
theorem completeWrite_of_fileAt {data : List Byte} {k : ℕ} (hf : s.fileAt handle = some f')
    (hg : Gathers f f' data k) :
    ∃ t g, completeWrite P handle s = .ok (completed (f.obj.write P data s.world.host).1, t) ∧
      t.fileAt handle = some g ∧ g.obj = (f.obj.write P data s.world.host).2.1 ∧
      t.world = { s.world.access f.id .write with
        host := (f.obj.write P data s.world.host).2.2 } := by
  obtain ⟨t, hrun, hfile, hworld⟩ : ∃ t, completeWrite P handle s =
        .ok (completed (f'.write P f'.wr.dataBuffer s.world).1, t) ∧
      t.fileAt handle = some (f'.write P f'.wr.dataBuffer s.world).2.1 ∧
      t.world = (f'.write P f'.wr.dataBuffer s.world).2.2 :=
    withFile_of_fileAt hf (completeBody_regular hg.blockWrite)
  rw [← hg.obj, ← hg.id, ← hg.dataBuffer]
  exact ⟨t, _, hrun, hfile, rfl, hworld⟩

end Fs.Backend

namespace Reassembly

/-! ### Messages of a write -/

/-- A chunk of a write with its header: its number, the number of chunks, its size, and
behind its data arbitrary padding. -/
structure Carries (chunks : List (List Byte)) (i : ℕ) (b : List Byte) : Prop where
  /-- The header is complete. -/
  length : 8 ≤ b.length
  /-- The number. -/
  chunkNr : (parseChunk b).chunkNr.toNat = i
  /-- The number of chunks. -/
  totalChunks : (parseChunk b).totalChunks.toNat = chunks.length
  /-- The size and the data. -/
  data : ∃ chunk, chunks[i]? = some chunk ∧ (parseChunk b).chunkSize.toNat = chunk.length ∧
    chunk <+: b.drop 8

/-- The padding is cut off. -/
theorem Carries.chunkData {chunks : List (List Byte)} {i : ℕ} {b : List Byte}
    (h : Carries chunks i b) : chunks[i]? = some (parseChunk b).chunkData := by
  obtain ⟨chunk, hi, hsize, padding, hdata⟩ := h.data
  have hparse : (parseChunk b).chunkData = (b.drop 8).take (parseChunk b).chunkSize.toNat := rfl
  rw [hi, hparse, hsize, ← hdata, List.take_left]

/-- A message of a write. -/
structure WriteMessage where
  /-- The payload. -/
  payload : List Byte
  /-- The number of the chunk that it carries, if any. -/
  chunkNr : Option ℕ

namespace WriteMessage

/-- A WRITE_REQ for this handle, with or without the first chunk. -/
structure IsRequest (chunks : List (List Byte)) (handle : ℤ) (m : WriteMessage) : Prop where
  /-- The type. -/
  type : msgType m.payload = some .writeReq
  /-- The request is complete. -/
  length : 12 ≤ m.payload.length
  /-- The handle. -/
  handle : handleField m.payload = handle
  /-- The chunk. -/
  chunk : (m.chunkNr = none ∧ m.payload.length < 20) ∨
    (m.chunkNr = some 0 ∧ Carries chunks 0 (m.payload.drop 12))

/-- A WRITE_DATA with a chunk. -/
structure IsData (chunks : List (List Byte)) (m : WriteMessage) : Prop where
  /-- The type. -/
  type : msgType m.payload = some .writeData
  /-- The chunk. -/
  chunk : ∃ i, m.chunkNr = some i ∧ Carries chunks i m.payload

end WriteMessage

/-- The numbers of the chunks that messages carry. -/
def arrived (messages : List WriteMessage) : List ℕ := messages.filterMap WriteMessage.chunkNr

/-- All chunks have occurred in their order. -/
def Arrived (chunks : List (List Byte)) (messages : List WriteMessage) : Prop :=
  (List.range chunks.length).Sublist (arrived messages)

instance (chunks : List (List Byte)) (messages : List WriteMessage) :
    Decidable (Arrived chunks messages) :=
  inferInstanceAs (Decidable (List.Sublist _ _))

variable {P : Platform η φ ρ} {chunks : List (List Byte)} {handle : ℤ} {f : FileHandle φ ρ}
  {s₀ s : Backend η φ ρ} {c : Connection} {out : Outcome (Backend η φ ρ)} {k i : ℕ}
  {payload b : List Byte}

/-- The result of WRITE_DONE, given what `Write` has returned. -/
def doneResult (r : ℤ × Option Error) : ℤ :=
  match r.2 with
  | some err => -errToErrno err
  | none => int32 r.1

/-- The write is made: `Write` has been called once, with all data, on the file as it was
found. -/
structure Stored (P : Platform η φ ρ) (handle : ℤ) (f : FileHandle φ ρ) (s₀ : Backend η φ ρ)
    (data : List Byte) (out : Outcome (Backend η φ ρ)) : Prop where
  /-- WRITE_DONE is sent. -/
  reply : out.reply = .writeDone (doneResult (f.obj.write P data s₀.world.host).1)
  /-- The connection has no write in progress any more. -/
  active : out.conn.activeWriteHandle = -1
  /-- The one call. -/
  world : out.fs.world = { s₀.world.access f.id .write with
    host := (f.obj.write P data s₀.world.host).2.2 }
  /-- The file after it. -/
  file : ∃ g, out.fs.fileAt handle = some g ∧ g.obj = (f.obj.write P data s₀.world.host).2.1

/-- The first `k` chunks have been taken, and nothing else has happened. -/
structure Gathering (chunks : List (List Byte)) (handle : ℤ) (f : FileHandle φ ρ)
    (s₀ : Backend η φ ρ) (k : ℕ) (c : Connection) (s : Backend η φ ρ) : Prop where
  /-- The write in progress. -/
  active : c.activeWriteHandle = handle
  /-- The world is as it was. -/
  world : s.world = s₀.world
  /-- The file. -/
  file : ∃ g, s.fileAt handle = some g ∧ Backend.Gathers f g (chunks.take k).flatten k

/-- What `WriteChunk` does with the chunk of a message. -/
abbrev takeChunk (handle : ℤ) (b : List Byte) (s : Backend η φ ρ) :
    Except Fault ((Bool × Option Error) × Backend η φ ρ) :=
  Backend.writeChunk handle (parseChunk b).chunkNr (parseChunk b).chunkSize
    (parseChunk b).totalChunks (parseChunk b).chunkData s

/-- A chunk out of turn is dropped. -/
theorem handleChunk_skips (hs : Gathering chunks handle f s₀ k c s) (hb : Carries chunks i b)
    (hturn : i ≠ k) :
    ∃ out, c.handleChunk (Backend.fs P) s payload handle b = .ok out ∧ out.reply = .ack ∧
      out.fs.world = s.world ∧ Gathering chunks handle f s₀ k out.conn out.fs := by
  obtain ⟨g, hg, hgathers⟩ := hs.file
  have hne : (parseChunk b).chunkNr ≠ g.wr.receivedChunks := by
    rw [ne_eq, ← BitVec.toNat_inj, hb.chunkNr, hgathers.receivedChunks]
    exact hturn
  obtain ⟨t, hrun, ht, hworld⟩ : ∃ t, takeChunk handle b s = .ok ((false, none), t) ∧
      t.fileAt handle = some g ∧ t.world = s.world := Backend.writeChunk_skips hg hne
  refine ⟨⟨c, t, .ack, payload.length⟩, ?_, rfl, hworld, hs.active, hworld.trans hs.world, g, ht,
    hgathers⟩
  change (takeChunk handle b s >>= _) = _
  rw [hrun]
  rfl

/-- The next chunk is taken. -/
theorem takeChunk_next (hfew : chunks.length < 2 ^ 16) (hs : Gathering chunks handle f s₀ k c s)
    (hb : Carries chunks k b) :
    ∃ t g, takeChunk handle b s = .ok ((decide (chunks.length ≤ k + 1), none), t) ∧
      t.fileAt handle = some g ∧ Backend.Gathers f g (chunks.take (k + 1)).flatten (k + 1) ∧
      t.world = s.world := by
  obtain ⟨g, hg, hgathers⟩ := hs.file
  have hchunk := hb.chunkData
  have hk : k < chunks.length := (List.getElem?_eq_some_iff.mp hchunk).1
  obtain ⟨t, g', hrun, hg', hgathers', hworld⟩ : ∃ t g', takeChunk handle b s =
        .ok ((decide ((parseChunk b).totalChunks.toNat ≤ k + 1), none), t) ∧
      t.fileAt handle = some g' ∧ Backend.Gathers f g'
        ((chunks.take k).flatten ++ (parseChunk b).chunkData) (k + 1) ∧ t.world = s.world :=
    Backend.writeChunk_takes hg hgathers hb.chunkNr (by omega)
  refine ⟨t, g', ?_, hg', ?_, hworld⟩
  · rw [← hb.totalChunks]
    exact hrun
  · rw [List.take_add_one, hchunk]
    simpa using hgathers'

theorem handleChunk_takes (hfew : chunks.length < 2 ^ 16) (hk : k + 1 < chunks.length)
    (hs : Gathering chunks handle f s₀ k c s) (hb : Carries chunks k b) :
    ∃ out, c.handleChunk (Backend.fs P) s payload handle b = .ok out ∧ out.reply = .ack ∧
      out.fs.world = s.world ∧ Gathering chunks handle f s₀ (k + 1) out.conn out.fs := by
  obtain ⟨t, g, hrun, hg, hgathers, hworld⟩ := takeChunk_next hfew hs hb
  refine ⟨⟨c, t, .ack, payload.length⟩, ?_, rfl, hworld, hs.active, hworld.trans hs.world, g, hg,
    hgathers⟩
  rw [decide_eq_false (by omega)] at hrun
  change (takeChunk handle b s >>= _) = _
  rw [hrun]
  rfl

/-- With the last chunk the write is made. -/
theorem handleChunk_completes (hfew : chunks.length < 2 ^ 16) (hk : k + 1 = chunks.length)
    (hs : Gathering chunks handle f s₀ k c s) (hb : Carries chunks k b) :
    ∃ out, c.handleChunk (Backend.fs P) s payload handle b = .ok out ∧
      Stored P handle f s₀ chunks.flatten out := by
  obtain ⟨t, g, hrun, hg, hgathers, hworld⟩ := takeChunk_next hfew hs hb
  rw [decide_eq_true (by omega)] at hrun
  rw [hk, List.take_length] at hgathers
  obtain ⟨u, g', hcomplete, hg', hobj, hworld'⟩ :=
    Backend.completeWrite_of_fileAt (P := P) hg hgathers
  rw [hworld, hs.world] at hcomplete hobj hworld'
  have hdone : ∃ status, c.handleChunk (Backend.fs P) s payload handle b = .ok
      (c.sendWriteDone u (doneResult (f.obj.write P chunks.flatten s₀.world.host).1) status) := by
    change ∃ status, (takeChunk handle b s >>= _) = _
    rw [hrun]
    change ∃ status, (Backend.completeWrite P handle t >>= _) = _
    rw [hcomplete]
    unfold doneResult Backend.completed
    cases (f.obj.write P chunks.flatten s₀.world.host).1.2 with
    | some err => exact ⟨_, rfl⟩
    | none => exact ⟨_, rfl⟩
  obtain ⟨status, hdone⟩ := hdone
  exact ⟨_, hdone, rfl, rfl, hworld', g', hg', hobj⟩

/-! ### The run -/

/-- How far the write has come after some messages. -/
inductive Stage (chunks : List (List Byte)) (handle : ℤ) (f : FileHandle φ ρ) (s₀ : Backend η φ ρ)
    (messages : List WriteMessage) (c : Connection) (s : Backend η φ ρ) : Prop
  /-- Chunks are missing. -/
  | gathering {k m : ℕ} (hlength : chunks.length = k + (m + 1))
      (htoCome : Subsequence.toCome (List.range chunks.length) (arrived messages) =
        List.range' k (m + 1))
      (hs : Gathering chunks handle f s₀ k c s)
  /-- The write has been made. -/
  | finished (htoCome : Subsequence.toCome (List.range chunks.length) (arrived messages) = [])
      (hidle : c.activeWriteHandle = -1)

/-- What becomes of a message after some others: with the one that completes the chunks the
write is made; any other is acknowledged and changes nothing. -/
def Reacts (P : Platform η φ ρ) (chunks : List (List Byte)) (handle : ℤ) (f : FileHandle φ ρ)
    (s₀ : Backend η φ ρ) (messages : List WriteMessage) (m : WriteMessage) (s : Backend η φ ρ)
    (out : Outcome (Backend η φ ρ)) : Prop :=
  if Arrived chunks (messages ++ [m]) ∧ ¬ Arrived chunks messages then
    Stored P handle f s₀ chunks.flatten out
  else out.reply = .ack ∧ out.fs.world = s.world

variable {messages : List WriteMessage}

theorem handleChunk_stage {m : WriteMessage} (hfew : chunks.length < 2 ^ 16) {j : ℕ}
    (hlength : chunks.length = k + (j + 1))
    (htoCome : Subsequence.toCome (List.range chunks.length) (arrived messages) =
      List.range' k (j + 1))
    (hs : Gathering chunks handle f s₀ k c s) (hm : m.chunkNr = some i) (hb : Carries chunks i b) :
    ∃ out, c.handleChunk (Backend.fs P) s payload handle b = .ok out ∧
      Stage chunks handle f s₀ (messages ++ [m]) out.conn out.fs ∧
      Reacts P chunks handle f s₀ messages m s out := by
  have harrived : arrived (messages ++ [m]) = arrived messages ++ [i] := by
    simp [arrived, hm]
  have hnext := Subsequence.toCome_append_singleton (List.range chunks.length) (arrived messages) i
  rw [htoCome, Subsequence.advance_range', ← harrived] at hnext
  have hmissing : ¬ Arrived chunks messages := by
    rw [Arrived, ← Subsequence.toCome_eq_nil, htoCome]
    simp
  have hmore {k' j' : ℕ} {out : Outcome (Backend η φ ρ)} (h : Subsequence.toCome
      (List.range chunks.length) (arrived (messages ++ [m])) = List.range' k' (j' + 1))
      (hack : out.reply = .ack ∧ out.fs.world = s.world) :
      Reacts P chunks handle f s₀ messages m s out := by
    have hnot : ¬ Arrived chunks (messages ++ [m]) := by
      rw [Arrived, ← Subsequence.toCome_eq_nil, h]
      simp
    rwa [Reacts, if_neg (fun hall => hnot hall.1)]
  by_cases hturn : i = k
  · subst hturn
    rw [if_pos rfl] at hnext
    cases j with
    | zero =>
      obtain ⟨out, hok, hstored⟩ := handleChunk_completes (P := P) hfew hlength.symm hs hb
      refine ⟨out, hok, .finished hnext hstored.active, ?_⟩
      have hall : Arrived chunks (messages ++ [m]) := Subsequence.toCome_eq_nil.mp hnext
      rwa [Reacts, if_pos ⟨hall, hmissing⟩]
    | succ j =>
      obtain ⟨out, hok, hack, hworld, hs'⟩ :=
        handleChunk_takes (P := P) hfew (by omega) hs hb
      exact ⟨out, hok, .gathering (by omega) hnext hs', hmore hnext ⟨hack, hworld⟩⟩
  · rw [if_neg hturn] at hnext
    obtain ⟨out, hok, hack, hworld, hs'⟩ := handleChunk_skips (P := P) hs hb hturn
    exact ⟨out, hok, .gathering hlength hnext hs', hmore hnext ⟨hack, hworld⟩⟩

/-- A WRITE_DATA. -/
theorem handlePayload_data {m : WriteMessage} (hfew : chunks.length < 2 ^ 16) (hm : m.IsData chunks)
    (hstage : Stage chunks handle f s₀ messages c s) :
    ∃ out, c.handlePayload (Backend.fs P) s m.payload = .ok out ∧
      Stage chunks handle f s₀ (messages ++ [m]) out.conn out.fs ∧
      Reacts P chunks handle f s₀ messages m s out := by
  obtain ⟨i, hnr, hcarries⟩ := hm.chunk
  have hlong : ¬ m.payload.length < 8 := Nat.not_lt.mpr hcarries.length
  simp only [Connection.handlePayload, hm.type, Connection.handleWriteData, if_neg hlong]
  cases hstage with
  | gathering hlength htoCome hs =>
    obtain ⟨g, hg, -⟩ := hs.file
    have hactive : c.activeWriteHandle ≠ -1 := by
      have := Backend.nonneg_of_fileAt hg
      rw [hs.active]
      omega
    rw [if_neg hactive, hs.active]
    exact handleChunk_stage hfew hlength htoCome hs hnr hcarries
  | finished htoCome hidle =>
    rw [if_pos hidle]
    have harrived : arrived (messages ++ [m]) = arrived messages ++ [i] := by
      simp [arrived, hnr]
    refine ⟨_, rfl, .finished ?_ hidle, ?_⟩
    · rw [harrived, Subsequence.toCome_append_singleton, htoCome]
      rfl
    · have hall : Arrived chunks messages := Subsequence.toCome_eq_nil.mp htoCome
      rw [Reacts, if_neg (fun h => h.2 hall)]
      exact ⟨rfl, rfl⟩

/-- The WRITE_REQ. -/
theorem handlePayload_request {m : WriteMessage} (hfew : chunks.length < 2 ^ 16)
    (hne : chunks ≠ []) (hf : s.fileAt handle = some f) (hwritable : f.readOnly = false)
    (hm : m.IsRequest chunks handle) :
    ∃ out, c.handlePayload (Backend.fs P) s m.payload = .ok out ∧
      Stage chunks handle f s [m] out.conn out.fs ∧
      Reacts P chunks handle f s [] m s out := by
  obtain ⟨t, g, hstart, hg, hgathers, hworld⟩ := Backend.writeStart_of_fileAt hf hwritable
  obtain ⟨j, hj⟩ : ∃ j, chunks.length = 0 + (j + 1) := by
    have := List.length_pos_of_ne_nil hne
    exact ⟨chunks.length - 1, by omega⟩
  have hlong : ¬ m.payload.length < 12 := Nat.not_lt.mpr hm.length
  have hs : Gathering chunks handle f s 0 (c.setWriteHandle handle) t :=
    ⟨rfl, hworld, g, hg, by simpa using hgathers⟩
  have hrange : List.range chunks.length = List.range' 0 (j + 1) := by
    rw [List.range_eq_range', hj, Nat.zero_add]
  have hrequest : c.handlePayload (Backend.fs P) s m.payload =
      if m.payload.length < 20 then .ok ⟨c.setWriteHandle handle, t, .ack, 0⟩
      else (c.setWriteHandle handle).handleChunk (Backend.fs P) t m.payload handle
        (m.payload.drop 12) := by
    simp only [Connection.handlePayload, hm.type, Connection.handleWriteReq, if_neg hlong,
      hm.handle]
    change (Backend.writeStart handle s >>= _) = _
    rw [hstart]
    rfl
  rw [hrequest]
  rcases hm.chunk with ⟨hnr, hshort⟩ | ⟨hnr, hcarries⟩
  · rw [if_pos hshort]
    have harrived : arrived [m] = [] := by simp [arrived, hnr]
    have htoCome : Subsequence.toCome (List.range chunks.length) (arrived [m]) =
        List.range' 0 (j + 1) := by
      rw [harrived, ← hrange]
      rfl
    refine ⟨_, rfl, .gathering hj htoCome hs, ?_⟩
    have hmissing : ¬ Arrived chunks ([] ++ [m]) := by
      rw [List.nil_append, Arrived, ← Subsequence.toCome_eq_nil, htoCome]
      simp
    rw [Reacts, if_neg (fun h => hmissing h.1)]
    exact ⟨rfl, hworld⟩
  · have hlength := hcarries.length
    rw [List.length_drop] at hlength
    rw [if_neg (by omega)]
    obtain ⟨out, hok, hstage, hreacts⟩ : ∃ out, (c.setWriteHandle handle).handleChunk
        (Backend.fs P) t m.payload handle (m.payload.drop 12) = .ok out ∧
      Stage chunks handle f s ([] ++ [m]) out.conn out.fs ∧
        Reacts P chunks handle f s [] m t out :=
      handleChunk_stage hfew hj hrange hs hnr hcarries
    refine ⟨out, hok, hstage, ?_⟩
    unfold Reacts at hreacts ⊢
    rwa [← hworld]

/-- The connection and the backend after a message. -/
def receive (P : Platform η φ ρ) (x : Connection × Backend η φ ρ) (m : WriteMessage) :
    Except Fault (Connection × Backend η φ ρ) := do
  let out ← x.1.handlePayload (Backend.fs P) x.2 m.payload
  return (out.conn, out.fs)

theorem receive_eq_ok {x : Connection × Backend η φ ρ} {m : WriteMessage}
    (hok : x.1.handlePayload (Backend.fs P) x.2 m.payload = .ok out) :
    receive P x m = .ok (out.conn, out.fs) := by
  rw [receive, hok]
  rfl

/-- The messages of a write after the first. -/
theorem run_data {data : List WriteMessage} (hfew : chunks.length < 2 ^ 16)
    (hdata : ∀ m ∈ data, m.IsData chunks) (hstage : Stage chunks handle f s₀ messages c s) :
    ∃ c' s', data.foldlM (receive P) (c, s) = .ok (c', s') ∧
      Stage chunks handle f s₀ (messages ++ data) c' s' := by
  induction data generalizing messages c s with
  | nil => exact ⟨c, s, rfl, by rwa [List.append_nil]⟩
  | cons m data ih =>
    obtain ⟨out, hok, hstage', -⟩ := handlePayload_data (P := P) hfew (hdata m List.mem_cons_self)
      hstage
    obtain ⟨c', s', hrun, hend⟩ := ih (fun m hm => hdata m (List.mem_cons_of_mem _ hm)) hstage'
    refine ⟨c', s', ?_, by simpa using hend⟩
    rw [List.foldlM_cons, receive_eq_ok hok]
    exact hrun

/-- Every message of a write, in turn. -/
theorem run_reacts {request m : WriteMessage} {before after : List WriteMessage}
    (hfew : chunks.length < 2 ^ 16) (hne : chunks ≠ []) (hf : s.fileAt handle = some f)
    (hwritable : f.readOnly = false) (hrequest : request.IsRequest chunks handle)
    (hmessages : ∀ m ∈ messages, m.IsData chunks)
    (hsplit : request :: messages = before ++ m :: after) :
    ∃ c' s' out, before.foldlM (receive P) (c, s) = .ok (c', s') ∧
      c'.handlePayload (Backend.fs P) s' m.payload = .ok out ∧
      Reacts P chunks handle f s before m s' out := by
  obtain ⟨out₀, hok₀, hstage, hreacts⟩ :=
    handlePayload_request (P := P) (c := c) hfew hne hf hwritable hrequest
  cases before with
  | nil =>
    obtain ⟨rfl, -⟩ := List.cons.inj hsplit
    exact ⟨c, s, out₀, rfl, hok₀, hreacts⟩
  | cons first data =>
    obtain ⟨rfl, rfl⟩ := List.cons.inj hsplit
    obtain ⟨c', s', hrun, hstage'⟩ := run_data (P := P) hfew
      (fun m hm => hmessages m (List.mem_append_left _ hm)) hstage
    obtain ⟨out, hok, -, hreacts'⟩ := handlePayload_data (P := P) hfew
      (hmessages m (by simp)) hstage'
    refine ⟨c', s', out, ?_, hok, hreacts'⟩
    rw [List.foldlM_cons, receive_eq_ok hok₀]
    exact hrun

/-! ### The length of a write -/

/-- The size of the buffer into which `dataHandler` receives a datagram. -/
def receiveBufferSize : ℕ := 2048

/-- What messages have carried is no longer than they are. -/
theorem length_chunk_le {m : WriteMessage} {chunk : List Byte}
    (hm : m.IsRequest chunks handle ∨ m.IsData chunks) (hnr : m.chunkNr = some i)
    (hi : chunks[i]? = some chunk) : chunk.length ≤ m.payload.length := by
  have hcarried {b : List Byte} (h : Carries chunks i b) : chunk.length ≤ b.length := by
    obtain ⟨chunk', hi', -, hdata⟩ := h.data
    cases hi.symm.trans hi'
    exact hdata.length_le.trans (by simp)
  rcases hm with hm | hm
  · rcases hm.chunk with ⟨hnone, -⟩ | ⟨hsome, hcarries⟩
    · rw [hnone] at hnr
      cases hnr
    · rw [hsome] at hnr
      cases hnr
      exact (hcarried hcarries).trans (by simp)
  · obtain ⟨j, hsome, hcarries⟩ := hm.chunk
    rw [hsome] at hnr
    cases hnr
    exact hcarried hcarries

/-- A write that comes in datagrams is shorter than `2 ^ 31` bytes. -/
theorem length_lt_of_received (hfew : chunks.length < 2 ^ 16)
    (hvalid : ∀ m ∈ messages, m.IsRequest chunks handle ∨ m.IsData chunks)
    (hreceived : ∀ m ∈ messages, m.payload.length ≤ receiveBufferSize)
    (hall : Arrived chunks messages) : chunks.flatten.length < 2 ^ 31 := by
  have hshort : ∀ n ∈ chunks.map List.length, n ≤ receiveBufferSize := by
    intro n hn
    obtain ⟨chunk, hchunk, rfl⟩ := List.mem_map.mp hn
    obtain ⟨i, hi⟩ := List.mem_iff_getElem?.mp hchunk
    have hlt : i < chunks.length := (List.getElem?_eq_some_iff.mp hi).1
    obtain ⟨m, hm, hnr⟩ := List.mem_filterMap.mp (hall.subset (List.mem_range.mpr hlt))
    exact (length_chunk_le (hvalid m hm) hnr hi).trans (hreceived m hm)
  have hsum := List.sum_le_card_nsmul _ _ hshort
  rw [List.length_map, Nat.nsmul_eq_mul, receiveBufferSize] at hsum
  rw [List.length_flatten]
  omega

/-- After a WRITE_REQ on a file that may be written, with or without the first chunk,
WRITE_DONE is sent at the message with which all chunks have first occurred in their order,
and at no other message. At that moment `Write` is called once, with all chunks, on the file
as it was at the start. If it succeeds, the data is in the file: at its end when it was opened for
appending, and at its position otherwise. If the file takes all of it, WRITE_DONE reports the length
as a signed 32-bit number, which is the length when the messages came in datagrams. Any other
message changes nothing. -/
theorem chunked_write_is_reassembled {request m : WriteMessage}
    {messages before after : List WriteMessage} (hfew : chunks.length < 2 ^ 16)
    (hne : chunks ≠ []) (hf : s.fileAt handle = some f) (hwritable : f.readOnly = false)
    (hrequest : request.IsRequest chunks handle) (hmessages : ∀ m ∈ messages, m.IsData chunks)
    (hsplit : request :: messages = before ++ m :: after) :
    ∃ c' s' out, before.foldlM (receive P) (c, s) = .ok (c', s') ∧
      c'.handlePayload (Backend.fs P) s' m.payload = .ok out ∧
      if Arrived chunks (before ++ [m]) ∧ ¬ Arrived chunks before then
        out.fs.world.host = (f.obj.write P chunks.flatten s.world.host).2.2 ∧
        out.fs.world.accesses = s.world.accesses ++ [⟨f.id, .write⟩] ∧
        (∀ (W : WritableFiles P) (name : Path) (file : φ), f.obj = .osFile name file →
          W.Live file s.world.host → (P.os.write file chunks.flatten s.world.host).1.2 = none →
          ∃ g file', out.fs.fileAt handle = some g ∧ g.obj = .osFile name file' ∧
            W.content file' out.fs.world.host = overwrite (W.content file s.world.host)
              (if W.appends file then (W.content file s.world.host).length else W.position file)
              chunks.flatten) ∧
        ∃ result, out.reply = .writeDone result ∧
          ((f.obj.write P chunks.flatten s.world.host).1 = ((chunks.flatten.length : ℤ), none) →
            result = int32 chunks.flatten.length ∧
            ((∀ m' ∈ before ++ [m], m'.payload.length ≤ receiveBufferSize) →
              result = chunks.flatten.length))
      else out.reply = .ack ∧ out.fs.world = s'.world := by
  obtain ⟨c', s', out, hrun, hok, hreacts⟩ :=
    run_reacts (P := P) (c := c) hfew hne hf hwritable hrequest hmessages hsplit
  refine ⟨c', s', out, hrun, hok, ?_⟩
  unfold Reacts at hreacts
  split_ifs at hreacts ⊢ with hmoment
  · refine ⟨by rw [hreacts.world], by rw [hreacts.world]; rfl, ?_, _, hreacts.reply, ?_⟩
    · intro W name file hfile hlive hok
      obtain ⟨g, hg, hobj⟩ := hreacts.file
      have hhost := congrArg World.host hreacts.world
      rw [hfile] at hobj hhost
      refine ⟨g, _, hg, hobj, ?_⟩
      rw [hhost]
      exact W.write_ok hlive hok
    · intro haccepted
      rw [doneResult, haccepted]
      refine ⟨rfl, ?_⟩
      intro hreceived
      have hvalid : ∀ m' ∈ before ++ [m], m'.IsRequest chunks handle ∨ m'.IsData chunks := by
        intro m' hm'
        have hmem : m' ∈ request :: messages := by
          rw [hsplit]
          simp only [List.mem_append, List.mem_cons, List.not_mem_nil, or_false] at hm' ⊢
          tauto
        rcases List.mem_cons.mp hmem with rfl | hmem
        · exact Or.inl hrequest
        · exact Or.inr (hmessages m' hmem)
      have hlt := length_lt_of_received hfew hvalid hreceived hmoment.1
      apply Int.bmod_eq_of_le <;> omega
  · exact hreacts

/-! ### Concrete writes -/

/-- A host with a directory `/r` that holds a file of three bytes. -/
def savesHost : Host :=
  ⟨[(Path.ascii ['/', 'r'], .dir), (Path.ascii ['/', 'r', '/', 'a'], .file 0)],
    fun _ => [1, 2, 3], 1⟩

/-- The directory is served. -/
def serveSaves : Options := ⟨Path.ascii ['/', 'r'], [], 0, false, false, 0⟩

/-- An OPEN of the file with these flags. -/
def openSave (low high : Byte) : WriteMessage :=
  ⟨[0x10, 0, low, high, 0, 0, 0, 0] ++ Path.ascii ['a'] ++ [0], none⟩

/-- A READ of one byte from handle 1. -/
def readByte : WriteMessage := ⟨[0x14, 0, 0, 0, 1, 0, 0, 0, 1, 0, 0, 0], none⟩

/-- A WRITE_REQ for handle 1 without a chunk. -/
def startSave : WriteMessage := ⟨[0x16, 0, 0, 0, 1, 0, 0, 0, 0, 0, 0, 0], none⟩

/-- A WRITE_DATA with this chunk. -/
def dataMessage (n i : ℕ) (chunk : List Byte) : WriteMessage :=
  ⟨[0x17, 0] ++ (Udprdma.putUint16 (BitVec.ofNat 16 i) ++
    (Udprdma.putUint16 (BitVec.ofNat 16 chunk.length) ++
      (Udprdma.putUint16 (BitVec.ofNat 16 n) ++ chunk))), some i⟩

theorem isData_dataMessage {chunk : List Byte} (hfew : chunks.length < 2 ^ 16)
    (hi : chunks[i]? = some chunk) (hsize : chunk.length < 2 ^ 16) :
    (dataMessage chunks.length i chunk).IsData chunks := by
  have hlt : i < chunks.length := (List.getElem?_eq_some_iff.mp hi).1
  have htoNat {n : ℕ} (hn : n < 2 ^ 16) : (BitVec.ofNat 16 n).toNat = n := by
    rw [BitVec.toNat_ofNat, Nat.mod_eq_of_lt hn]
  refine ⟨rfl, i, rfl, by simp [dataMessage, Udprdma.putUint16], ?_, ?_, chunk, hi, ?_, ?_⟩
  · change (Udprdma.uint16 (Udprdma.putUint16 (BitVec.ofNat 16 i) ++ _)).toNat = i
    rw [Udprdma.uint16_putUint16, htoNat (by omega)]
  · change (Udprdma.uint16 (Udprdma.putUint16 (BitVec.ofNat 16 chunks.length) ++ _)).toNat = _
    rw [Udprdma.uint16_putUint16, htoNat hfew]
  · change (Udprdma.uint16 (Udprdma.putUint16 (BitVec.ofNat 16 chunk.length) ++ _)).toNat = _
    rw [Udprdma.uint16_putUint16, htoNat hsize]
  · exact List.prefix_rfl

/-- Two chunks are written, of which the second comes too early first. The first byte of the file
has been read before. -/
theorem chunked_write_is_reassembled_out_of_order :
    ∃ (c c' : Connection) (s s' : Backend Host OsFile Host.Image)
      (out : Outcome (Backend Host OsFile Host.Image)),
      [startSave, dataMessage 2 1 [5, 6], dataMessage 2 0 [4]].foldlM (receive Host.platform)
        (c, s) = .ok (c', s') ∧
      c'.handlePayload (Backend.fs Host.platform) s' (dataMessage 2 1 [5, 6]).payload = .ok out ∧
      out.reply = .writeDone 3 ∧ s.world.host.contents 0 = [1, 2, 3] ∧
      ∃ g name file, out.fs.fileAt 1 = some g ∧ g.obj = .osFile name file ∧
        Host.disk.content file out.fs.world.host = [1, 4, 5, 6] := by
  have hopen : ∃ (fs : Backend Host OsFile Host.Image) (c : Connection)
      (s : Backend Host OsFile Host.Image) (f : FileHandle OsFile Host.Image) (name : Path)
      (file : OsFile),
      Backend.newBackend Host.platform serveSaves savesHost 0 = .ok (some fs) ∧
      [openSave 3 0, readByte].foldlM (receive Host.platform) (newConnection, fs) = .ok (c, s) ∧
      s.fileAt 1 = some f ∧ f.readOnly = false ∧ s.world.host.contents 0 = [1, 2, 3] ∧
      f.obj = .osFile name file ∧ Host.disk.content file s.world.host = [1, 2, 3] ∧
      Host.disk.appends file = false ∧ Host.disk.position file = 1 ∧
      (Host.platform.os.write file [4, 5, 6] s.world.host).1 = (3, none) :=
    ⟨_, _, _, _, _, _, rfl, rfl, rfl, rfl, rfl, rfl, rfl, rfl, rfl, rfl⟩
  obtain ⟨fs, c, s, f, name, file, -, -, hf, hwritable, hbefore, hfile, hcontent, happends,
    hposition, haccepted⟩ := hopen
  have hdata : ∀ m ∈ [dataMessage 2 1 [5, 6], dataMessage 2 0 [4], dataMessage 2 1 [5, 6]],
      m.IsData [[4], [5, 6]] := by
    simp only [List.forall_mem_cons, List.not_mem_nil, false_implies, implies_true, and_true]
    have hfew : ([[4], [5, 6]] : List (List Byte)).length < 2 ^ 16 := by decide
    exact ⟨isData_dataMessage (i := 1) hfew rfl (by decide),
      isData_dataMessage (i := 0) hfew rfl (by decide),
      isData_dataMessage (i := 1) hfew rfl (by decide)⟩
  have hsplit : startSave :: [dataMessage 2 1 [5, 6], dataMessage 2 0 [4], dataMessage 2 1 [5, 6]] =
      [startSave, dataMessage 2 1 [5, 6], dataMessage 2 0 [4]] ++ dataMessage 2 1 [5, 6] :: [] :=
        rfl
  obtain ⟨c', s', out, hrun, hok, hend⟩ :=
    chunked_write_is_reassembled (P := Host.platform) (c := c)
    (by decide) (by decide) hf hwritable ⟨rfl, by decide, by decide, Or.inl ⟨rfl, by decide⟩⟩
    hdata hsplit
  rw [if_pos (by decide)] at hend
  obtain ⟨-, -, hstored, result, hreply, hresult⟩ := hend
  refine ⟨c, c', s, s', out, hrun, hok, ?_, hbefore, ?_⟩
  · rw [hfile] at hresult
    rw [hreply, (hresult haccepted).2 (by decide)]
    rfl
  · obtain ⟨g, file', hg, hobj, hgcontent⟩ := hstored Host.disk.toWritableFiles name file hfile
      trivial (congrArg Prod.snd haccepted)
    refine ⟨g, name, file', hg, hobj, hgcontent.trans ?_⟩
    rw [hcontent, happends, hposition]
    rfl

/-- A SEEK of handle 1 to the start. -/
def seekSave : WriteMessage := ⟨[0x1A, 0, 0, 0, 1, 0, 0, 0, 0, 0, 0, 0, 0, 0, 0, 0], none⟩

/-- A WRITE_REQ for handle 1 with the only chunk of a write. -/
def saveByte : WriteMessage :=
  ⟨[0x16, 0, 0, 0, 1, 0, 0, 0, 0, 0, 0, 0] ++ [0, 0, 0, 0, 1, 0, 1, 0, 9], some 0⟩

/-- A file that was opened for appending is not written at its position, but at its end. -/
theorem append_is_not_at_position :
    ∃ (fs : Backend Host OsFile Host.Image) (c : Connection) (s : Backend Host OsFile Host.Image)
      (f : FileHandle OsFile Host.Image) (name : Path) (file : OsFile)
      (out : Outcome (Backend Host OsFile Host.Image)),
      Backend.newBackend Host.platform serveSaves savesHost 0 = .ok (some fs) ∧
      [openSave 2 1, seekSave].foldlM (receive Host.platform) (newConnection, fs) = .ok (c, s) ∧
      s.fileAt 1 = some f ∧ f.readOnly = false ∧ f.obj = .osFile name file ∧
      Host.disk.position file = 0 ∧ saveByte.IsRequest [[9]] 1 ∧
      c.handlePayload (Backend.fs Host.platform) s saveByte.payload = .ok out ∧
      out.reply = .writeDone 1 ∧ s.world.host.contents 0 = [1, 2, 3] ∧
      out.fs.world.host.contents 0 = [1, 2, 3, 9] := by
  have hrequest : saveByte.IsRequest [[9]] 1 :=
    ⟨rfl, by decide, by decide, Or.inr ⟨rfl, by decide, by decide, by decide, [9], rfl,
      by decide, List.prefix_rfl⟩⟩
  have hopen : ∃ (fs : Backend Host OsFile Host.Image) (c : Connection)
      (s : Backend Host OsFile Host.Image) (f : FileHandle OsFile Host.Image) (file : OsFile),
      Backend.newBackend Host.platform serveSaves savesHost 0 = .ok (some fs) ∧
      [openSave 2 1, seekSave].foldlM (receive Host.platform) (newConnection, fs) =
        .ok (c, s) ∧
      s.fileAt 1 = some f ∧ f.readOnly = false ∧ s.world.host.contents 0 = [1, 2, 3] ∧
      f.obj = .osFile (Path.ascii ['/', 'r', '/', 'a']) file ∧
      file = ⟨some 0, 0, false, true, true⟩ :=
    ⟨_, _, _, _, _, rfl, rfl, rfl, rfl, rfl, rfl, rfl⟩
  obtain ⟨fs, c, s, f, file, hnew, hreceive, hf, hwritable, hcontents, hobj, rfl⟩ := hopen
  have hsplit : saveByte :: [] = [] ++ saveByte :: [] := rfl
  obtain ⟨c', s', out, hrun, hok, hreacts⟩ := run_reacts (P := Host.platform) (c := c)
    (by decide) (by decide) hf hwritable hrequest (by simp) hsplit
  cases hrun
  rw [Reacts, if_pos (by decide)] at hreacts
  have hresult : (f.obj.write Host.platform [[9]].flatten s.world.host).1 = (1, none) := by
    rw [hobj]
    rfl
  have hhost : (f.obj.write Host.platform [[9]].flatten s.world.host).2.2.contents 0 =
      [1, 2, 3, 9] := by
    rw [hobj]
    change overwrite (s.world.host.contents 0) (s.world.host.contents 0).length [9] = _
    rw [hcontents]
    rfl
  refine ⟨fs, c, s, f, _, _, out, hnew, hreceive, hf, hwritable, hobj, rfl, hrequest, hok, ?_,
    hcontents, ?_⟩
  · rw [hreacts.reply, hresult]
    rfl
  · rw [hreacts.world]
    exact hhost

end Reassembly

end Udpfsd
