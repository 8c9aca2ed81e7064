import Udpfsd.Server.Replies
import Udpfsd.Udprdma.Completion

/-!
# Replies as transfers

Every reply but a mere acknowledgement is a transfer that the session can send: a message
that has room in one packet, or a result of two words with the data of a READ or BREAD. It
has far fewer packets than there are numbers.
-/

namespace Udpfsd.Udpfs

open Udprdma

/-- Replies that a packet or the data buffer has room for: the name of a directory entry is
not longer than 1356 bytes, and the data of a READ or BREAD is a part of the buffer. -/
def Reply.Fits : Reply → Prop
  | .dreadReply _ name _ => name.length ≤ 1356
  | .readResult _ data => data.getD 0 ≤ dataBufferSize
  | _ => True

instance (reply : Reply) : Decidable reply.Fits := by
  cases reply <;> unfold Reply.Fits <;> infer_instance

theorem length_packResult (m : MsgType) (result : ℤ) : (packResult m result).length = 8 := rfl

theorem length_packStat (st : StatInfo) : (packStat st).length = 40 := by
  simp [packStat, putUint32]

/-- The length of a directory reply. -/
theorem length_packDreadReply_le (result : ℤ) (name : Path) (st : StatInfo) :
    48 ≤ (packDreadReply result name st).length ∧
      (packDreadReply result name st).length ≤ 48 + (name.length + 4) / 4 * 4 := by
  unfold packDreadReply
  simp only [List.length_append, length_packStat, List.length_cons, List.length_nil, putUint32,
    putUint16]
  split_ifs <;> simp
  all_goals omega

/-- A message for one packet. -/
theorem outgoing_sendData {payload : List Byte} (hpos : 0 < payload.length)
    (hle : payload.length ≤ maxDataPayload) : ∃ o : Outgoing,
      (∀ s : Session, s.sendData (some payload) = o.send s) ∧ o.plan.header = [] ∧
        o.plan.data = payload ∧ o.plan.count < 4000 := by
  have hne := List.length_pos_iff.mp hpos
  refine ⟨.sendData payload hne hle, fun _ => rfl, rfl, rfl, ?_⟩
  simp only [Outgoing.plan, Plan.count_single]
  omega

/-- A result with data. -/
theorem outgoing_readResult (result : ℤ) {data : List Byte} (hle : data.length ≤ dataBufferSize) :
    ∃ o : Outgoing, (∀ s : Session,
        s.sendRawDataWithHeader (packResultReply result) (some data) = o.send s) ∧
      o.plan.header = packResultReply result ∧ o.plan.data = data ∧ o.plan.count < 4000 := by
  have hwords : (packResultReply result).length = 4 * 2 := rfl
  refine ⟨.sendRawDataWithHeader _ (some data) 2 (by decide) (by decide) hwords, fun _ => rfl, rfl,
    rfl, ?_⟩
  have hcount : (Plan.withHeader (packResultReply result) data (by decide) (by decide)
      hwords).count ≤ data.length / maxDataPayload + 2 := Plan.count_withHeader_le _ _ _
  simp only [Outgoing.plan, Option.getD_some, dataBufferSize, maxDataPayload] at hcount hle ⊢
  omega

/-- The message of a reply has room in a packet. -/
theorem Reply.Fits.length_payload {reply : Reply} (hfits : reply.Fits) (hack : reply ≠ .ack) :
    0 < reply.payload.length ∧ reply.payload.length ≤ maxDataPayload := by
  cases reply with
  | ack => exact absurd rfl hack
  | openReply handle st =>
    simp [payload, packOpenReply, putUint32, length_packResult, maxDataPayload]
  | lseekReply position =>
    simp only [payload, packLseekReply]
    split_ifs <;> simp [putUint32, maxDataPayload]
  | getstatReply result st =>
    simp [payload, packGetstatReply, length_packResult, length_packStat, maxDataPayload]
  | dreadReply result name st =>
    have hlen := length_packDreadReply_le result name st
    have hname : name.length ≤ 1356 := hfits
    simp only [payload, maxDataPayload]
    omega
  | _ =>
    simp [payload, packCloseReply, packResultReply, packWriteDone, length_packResult,
      maxDataPayload]

/-- A reply that fits is sent as a transfer of the answer. -/
theorem Reply.Fits.outgoing {reply : Reply} (hfits : reply.Fits) {dataBuffer : Buffer Byte}
    {a : Answer} (ha : reply.answer (sliceOf dataBuffer reply.data) = some a) :
    ∃ o : Outgoing, (∀ s, reply.send dataBuffer s = o.send s) ∧ o.plan.header = a.header ∧
      o.plan.data = a.data ∧ o.plan.count < 4000 := by
  have hack : reply ≠ .ack := by
    rintro rfl
    cases ha
  obtain ⟨hpos, hle⟩ := hfits.length_payload hack
  cases reply with
  | ack => exact absurd rfl hack
  | readResult result data =>
    cases ha
    refine outgoing_readResult result ?_
    cases data with
    | none => exact Nat.zero_le _
    | some n => simpa [sliceOf, Reply.Fits] using hfits
  | _ =>
    cases ha
    exact outgoing_sendData hpos hle

/-- The answer of a handler is the one its reply has in the buffer. -/
theorem Connection.answer_eq {σ : Type*} {fs : FS σ} {c : Connection} {s : σ}
    {payload : List Byte} {out : Outcome σ} (hok : c.handlePayload fs s payload = .ok out) :
    out.reply.answer (c.returned fs s payload) =
      out.reply.answer (sliceOf out.conn.dataBuffer out.reply.data) := by
  rcases handlePayload_buffer hok with hleaves | ⟨result, data, hreply, hslice⟩
  · exact Reply.answer_congr hleaves.reply _ _
  · rw [hreply, Reply.answer, Reply.answer, Reply.data, hslice]

end Udpfsd.Udpfs
