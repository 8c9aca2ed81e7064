import Udpfsd.Fs.Lifecycle
import Udpfsd.Server.Daemon

/-!
# Objects in runs of the daemon

What every method of the filesystem keeps is kept in all runs of the daemon: requests, resets of
peers and removals reach the filesystem only by methods. The lives of objects are an instance. A
method is one step here. It looks up its object and then calls it, and releases the lock of the
table in between; what a removal in between would lead to is shown at the end.
-/

namespace Udpfsd

open Udprdma Udpfs Fs

variable {κ η φ ρ : Type} [DecidableEq κ] {P : Platform η φ ρ}

namespace Daemon

variable {d d' : Daemon κ η φ ρ} {o : Options} {host : η}

theorem fs_settle (d : Daemon κ η φ ρ) (addr : κ) (l : Link) (s : Stage) :
    (d.settle addr l s).fs = d.fs := by
  rcases settle_cases d addr l s with ⟨-, -, heq⟩ | ⟨-, -, heq⟩ | ⟨-, heq⟩ <;> rw [heq] <;> rfl

/-- The filesystem changes by methods and by the passing of time. -/
theorem Took.keeps {R : Backend η φ ρ → Backend η φ ρ → Prop} {event : Event κ}
    (hF : (Backend.fs P).Keeps R) (hwait : ∀ s k, R s (s.wait k))
    (htook : Took P d event d') : R d.fs d'.fs := by
  have hclosed {c conn : Connection} {fs : Backend η φ ρ}
      (hclose : c.close (Backend.fs P) d.fs = .ok (conn, fs)) : R d.fs fs := by
    obtain ⟨fs', hall, hclose⟩ := Fallible.bind_eq_ok.mp hclose
    cases hclose
    exact hF.closeAll hall
  cases htook with
  | processed hbusy hl hreceive =>
    rw [fs_settle]
    rcases (Link.received hreceive).peer with ⟨-, hfs⟩ | hreset
    · exact hfs ▸ hF.refl _
    · exact hF.resetPeer hreset
  | handled hbusy hl hphase hhandle =>
    rw [fs_settle]
    exact hF.handlePayload hhandle
  | sent =>
    rw [fs_settle]
    exact hF.refl _
  | removedBusy _ _ _ _ hclose => exact hclosed hclose
  | removed _ _ _ _ hclose => exact hclosed hclose
  | waited k => exact hwait _ k
  | _ => exact hF.refl _

/-- A property of the filesystem that holds at the start and is kept by every method holds in
every run. -/
theorem Reachable.keeps {Q : Backend η φ ρ → Prop} (h : Reachable P o host d)
    (hF : (Backend.fs P).Keeps (fun s t => Q s → Q t)) (hwait : ∀ s k, Q s → Q (s.wait k))
    (hnew : ∀ now fs, Backend.newBackend P o host now = .ok (some fs) → Q fs) : Q d.fs := by
  refine Transition.Reachable.invariant (P := fun d : Daemon κ η φ ρ => Q d.fs) ?_ ?_ h
  · rintro d ⟨now, fs, peerTimeout, -, hstart, rfl⟩
    exact hnew now fs hstart
  · rintro d d' - hd ⟨event, hok⟩
    exact (took_step hok).keeps hF hwait hd

/-- In every run of the daemon, whatever datagrams arrive and whichever peers are removed, no
object is read, written, moved or closed after its `Close`, and none is closed twice; what is in
the table and the block device have not been closed. -/
theorem no_call_after_close (h : Reachable P o host d) :
    d.fs.world.accesses.Pairwise (fun a b => a.method = .close → b.object ≠ a.object) ∧
      (∀ i handle, d.fs.handles i = some handle → ⟨handle.id, .close⟩ ∉ d.fs.world.accesses) ∧
      ∀ device, d.fs.bdHandle = some device → ⟨device.file.id, .close⟩ ∉ d.fs.world.accesses := by
  have horderly : d.fs.table.Orderly :=
    h.keeps (Q := fun s => s.table.Orderly) (Backend.keeps_orderly P)
      (fun _ _ hs => hs) (fun _ _ hnew => Backend.orderly_newBackend hnew)
  refine ⟨horderly.ordered, ?_, ?_⟩
  · intro i handle hi
    refine horderly.unclosed handle.id (Or.inl ⟨i, handle.tag, ?_, ?_⟩)
    · simp [Backend.table, hi]
    · cases handle <;> rfl
  · intro device hdevice
    refine horderly.unclosed device.file.id (Or.inr ?_)
    simp [Backend.table, hdevice]

end Daemon

/-- A client opens a file, reads it, closes it and tries to read on. Then it opens the file again
and is removed, while another one reads through its handle. -/
def readAndClose : List (Daemon.Event Bool) :=
  request true (dataPacket 0 0xFFF true []
      ([0x10, 0, 0x01, 0, 0, 0, 0, 0] ++ Path.ascii ['a'] ++ [0])) ++
    request true (dataPacket 1 0 true [] [0x14, 0, 0, 0, 1, 0, 0, 0, 4, 0, 0, 0]) ++
    request true (dataPacket 2 1 true [] [0x12, 0, 0, 0, 1, 0, 0, 0]) ++
    request true (dataPacket 3 2 true [] [0x14, 0, 0, 0, 1, 0, 0, 0, 4, 0, 0, 0]) ++
    request true (dataPacket 4 3 true []
      ([0x10, 0, 0x01, 0, 0, 0, 0, 0] ++ Path.ascii ['a'] ++ [0])) ++ [.wait 5] ++
    request false (dataPacket 0 0xFFF true [] [0x14, 0, 0, 0, 1, 0, 0, 0, 4, 0, 0, 0]) ++
    [.cleanup true .stored] ++
    request false (dataPacket 1 0 true [] [0x14, 0, 0, 0, 1, 0, 0, 0, 4, 0, 0, 0])

namespace Daemon

/-- After the run the file has been read and closed twice, as two objects, and neither has been
called again. -/
theorem no_call_after_close_of_two_clients : ∃ d : Daemon Bool Host OsFile Host.Image,
    Reachable Host.platform serveArchive archiveHost d ∧
      d.fs.world.accesses = [⟨1, .read⟩, ⟨1, .close⟩, ⟨2, .read⟩, ⟨2, .close⟩] ∧
      d.fs.world.accesses.Pairwise (fun a b => a.method = .close → b.object ≠ a.object) := by
  have hview : viewAfter Host.platform (fun d => d.fs.world.accesses) (step Host.platform)
      serveArchive archiveHost readAndClose =
      some [⟨1, .read⟩, ⟨1, .close⟩, ⟨2, .read⟩, ⟨2, .close⟩] := by
    decide +kernel
  obtain ⟨d, hreach, haccesses⟩ := exists_reachable hview
  exact ⟨d, hreach, haccesses, (no_call_after_close hreach).1⟩

end Daemon

namespace Fs.Backend

variable {s t : Backend η φ ρ} {i : Fin maxHandles} {f : FileHandle φ ρ}

/-- If a removal closed the object of a handle between the lookup and the call of a method of the
object, the call would come after the `Close`. -/
theorem not_ordered_of_close_between (hfile : s.handles i = some (.file f))
    (hclose : close P ((i : ℤ) + 1) s = .ok (none, t)) (method : Method) :
    ¬ (t.world.access f.id method).accesses.Pairwise
      (fun a b => a.method = .close → b.object ≠ a.object) := by
  have hbd : (i : ℤ) + 1 ≠ blockDeviceHandle := by
    unfold blockDeviceHandle
    omega
  obtain ⟨j, hj, htable⟩ := (close_spec hclose).2.resolve_left (fun h => hbd h.1)
  cases (slotOf_eq_ok.mpr rfl).symm.trans hj
  have hslot : s.table.slots i = some (.file f.tag) := by
    simp [table, hfile, Handle.tag]
  have haccesses : t.world.accesses = s.world.accesses ++ [⟨f.id, .close⟩] := by
    have h := congrArg Table.accesses htable
    rw [Table.free, hslot] at h
    exact h
  intro hordered
  rw [World.access, haccesses, List.append_assoc] at hordered
  have hlast := (List.pairwise_append.mp hordered).2.1
  exact List.rel_of_pairwise_cons hlast List.mem_cons_self rfl rfl

end Fs.Backend

end Udpfsd
