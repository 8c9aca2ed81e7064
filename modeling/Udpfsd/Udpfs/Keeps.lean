import Udpfsd.Udpfs.Responses

/-!
# What the handlers keep of the filesystem

A handler changes the filesystem only by calling its methods. So a relation between
states that every method keeps to is kept to by every request, by a reset of the peer and
by the closing of a connection, whatever the filesystem is.
-/

namespace Udpfsd.Udpfs

open Udprdma (Byte)

variable {σ : Type*} {F : FS σ} {R : σ → σ → Prop}

/-- Every method of the filesystem keeps to a relation between the states before and after,
which may be chained. -/
structure FS.Keeps (F : FS σ) (R : σ → σ → Prop) : Prop where
  /-- Nothing need be done. -/
  refl : ∀ s, R s s
  /-- Calls may follow each other. -/
  trans : ∀ {s t u}, R s t → R t u → R s u
  /-- `Open`. -/
  openFile : ∀ {path flag isDir s r t}, F.openFile path flag isDir s = .ok (r, t) → R s t
  /-- `Close`. -/
  close : ∀ {handle s r t}, F.close handle s = .ok (r, t) → R s t
  /-- `Read`. -/
  read : ∀ {handle size buf s r t}, F.read handle size buf s = .ok (r, t) → R s t
  /-- `WriteStart`. -/
  writeStart : ∀ {handle s r t}, F.writeStart handle s = .ok (r, t) → R s t
  /-- `WriteChunk`. -/
  writeChunk : ∀ {handle nr size total chunk s r t},
    F.writeChunk handle nr size total chunk s = .ok (r, t) → R s t
  /-- `CompleteWrite`. -/
  completeWrite : ∀ {handle s r t}, F.completeWrite handle s = .ok (r, t) → R s t
  /-- `Lseek`. -/
  lseek : ∀ {handle offset whence s r t}, F.lseek handle offset whence s = .ok (r, t) → R s t
  /-- `Dread`. -/
  dread : ∀ {handle s r t}, F.dread handle s = .ok (r, t) → R s t
  /-- `Getstat`. -/
  getstat : ∀ {path s r t}, F.getstat path s = .ok (r, t) → R s t
  /-- `Mkdir`. -/
  mkdir : ∀ {path s r t}, F.mkdir path s = .ok (r, t) → R s t
  /-- `Remove`. -/
  remove : ∀ {path s r t}, F.remove path s = .ok (r, t) → R s t
  /-- `Rmdir`. -/
  rmdir : ∀ {path s r t}, F.rmdir path s = .ok (r, t) → R s t
  /-- `Bread`. -/
  bread : ∀ {handle nr count buf s r t}, F.bread handle nr count buf s = .ok (r, t) → R s t
  /-- `BwriteStart`. -/
  bwriteStart : ∀ {handle nr count s r t}, F.bwriteStart handle nr count s = .ok (r, t) → R s t

namespace FS.Keeps

variable {c : Connection} {s t : σ} {payload : List Byte} {out : Outcome σ}

section Kept

variable (hF : F.Keeps R)
include hF

theorem starts {handle : ℤ} {err : Option Error} (hcall : Connection.Starts F handle s err t) :
    R s t := by
  rcases hcall with hcall | ⟨_, _, hcall⟩
  · exact hF.writeStart hcall
  · exact hF.bwriteStart hcall

theorem chunked {handle : ℤ} (hchunk : c.Chunked F s handle out) : R s out.fs := by
  cases hchunk with
  | failed hcall => exact hF.writeChunk hcall
  | more hcall => exact hF.writeChunk hcall
  | last hcall hcomplete => exact hF.trans (hF.writeChunk hcall) (hF.completeWrite hcomplete)

/-- A request keeps to the relation. -/
theorem handlePayload (hok : c.handlePayload F s payload = .ok out) : R s out.fs := by
  cases Connection.responds hok with
  | refused | reused => exact hF.refl s
  | openFailed _ hcall | opened _ hcall => exact hF.openFile hcall
  | closeFailed _ hcall | closed _ _ _ hcall => exact hF.close hcall
  | read _ _ hcall => exact hF.read hcall
  | bread _ _ hcall => exact hF.bread hcall
  | lseek _ hcall => exact hF.lseek hcall
  | dread _ hcall => exact hF.dread hcall
  | getstat _ hcall => exact hF.getstat hcall
  | mkdir _ hcall => exact hF.mkdir hcall
  | remove _ hcall => exact hF.remove hcall
  | rmdir _ hcall => exact hF.rmdir hcall
  | startFailed _ hcall | started _ hcall => exact hF.starts hcall
  | startedChunk _ hcall hchunk => exact hF.trans (hF.starts hcall) (hF.chunked hchunk)
  | chunk _ _ hchunk => exact hF.chunked hchunk

theorem rewindAll {handles : List ℤ} (hok : Connection.rewindAll F handles s = .ok t) : R s t := by
  induction handles generalizing s with
  | nil =>
    cases hok
    exact hF.refl _
  | cons h rest ih =>
    obtain ⟨⟨r, u⟩, hseek, hok⟩ := Fallible.bind_eq_ok.mp hok
    exact hF.trans (hF.lseek hseek) (ih hok)

theorem closeAll {handles : List ℤ} (hok : Connection.closeAll F handles s = .ok t) : R s t := by
  induction handles generalizing s with
  | nil =>
    cases hok
    exact hF.refl _
  | cons h rest ih =>
    obtain ⟨⟨r, u⟩, hclose, hok⟩ := Fallible.bind_eq_ok.mp hok
    exact hF.trans (hF.close hclose) (ih hok)

/-- A reset of the peer keeps to the relation. -/
theorem resetPeer {c' : Connection} (hok : c.resetPeer F s = .ok (c', t)) : R s t := by
  obtain ⟨u, hrewind, hok⟩ := Fallible.bind_eq_ok.mp hok
  cases hok
  exact hF.rewindAll hrewind

end Kept

end FS.Keeps

end Udpfsd.Udpfs
