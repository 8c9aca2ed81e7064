import Udpfsd.Fs.Filesystem
import Udpfsd.Fs.Listing

/-!
# What a failed OPEN leaves behind

`Open` makes the directory of a file that it may create, opens the file, and only then looks for a
slot in the table of handles. When the file cannot be opened the directory stays, and when there is
no slot the file is closed again but stays created or truncated.
-/

namespace Udpfsd.Fs

open Udprdma (Byte uint16)
open Udpfs

variable {η φ ρ : Type} {P : Platform η φ ρ}

/-- The tree of the host, the number of its open files and the table of handles are as they
were. -/
structure Unchanged (F : ImageFilesystem P) (s t : Backend η φ ρ) : Prop where
  /-- The tree. -/
  entry : F.entry t.world.host = F.entry s.world.host
  /-- The open files. -/
  opens : F.opens t.world.host = F.opens s.world.host
  /-- The table. -/
  handles : t.handles = s.handles

namespace Backend

variable (F : ImageFilesystem P) {s s' : Backend η φ ρ} {fullPath : Path} {flag : OpenFlag} {h₁ : η}

/-- When `Open` fails, with an error or with a negative handle, nothing has changed. -/
def FailsClean (s : Backend η φ ρ) (x : Except Fault (OpenResult × Backend η φ ρ)) : Prop :=
  ∀ r t, x = .ok (r, t) → r.2.2 ≠ none ∨ r.1 < 0 → Unchanged F s t

/-! ### The end of `Open` -/

theorem failsClean_finishOpen {stat : η → Except Error FileInfo} {added : ℤ × Backend η φ ρ} :
    FailsClean F s (finishOpen stat added) ↔ (added.1 < 0 → Unchanged F s added.2) := by
  unfold finishOpen
  split_ifs with hneg
  · constructor
    · intro hclean _
      exact hclean _ _ rfl (Or.inr hneg)
    · rintro hclean r t hok -
      cases hok
      exact hclean hneg
  · refine iff_of_true ?_ fun hneg' => absurd hneg' hneg
    rintro r t hok hfails
    split at hok
    · cases hok
    · cases hok
      rcases hfails with hsome | hneg'
      · exact absurd rfl hsome
      · exact absurd hneg' hneg

theorem not_neg_allocHandle {i : Fin maxHandles} (hslot : s.allocSlot = some i) (h : Handle φ ρ) :
    ¬ (s.allocHandle P h).1 < 0 := by
  rw [(table_allocHandle hslot h).1]
  omega

/-- Without a slot a file is closed again. -/
theorem addFile_of_none (hslot : s.allocSlot = none) (hostPath : Path) (obj : FileObject φ ρ)
    (readOnly : Bool) :
    ∃ t, s.addFile P hostPath obj readOnly = (-emfile, t) ∧ t.handles = s.handles ∧
      t.world.host = obj.close P s.world.host := by
  have hslot₁ : (s.newFileHandle hostPath obj readOnly).2.allocSlot = none := hslot
  simp only [addFile, allocHandle_of_none hslot₁]
  rw [if_pos neg_emfile_neg]
  exact ⟨_, rfl, rfl, rfl⟩

theorem not_neg_addFile {i : Fin maxHandles} (hslot : s.allocSlot = some i) (hostPath : Path)
    (obj : FileObject φ ρ) (readOnly : Bool) : ¬ (s.addFile P hostPath obj readOnly).1 < 0 := by
  have hslot₁ : (s.newFileHandle hostPath obj readOnly).2.allocSlot = some i := hslot
  have halloc := not_neg_allocHandle (P := P) hslot₁
    (.file (s.newFileHandle hostPath obj readOnly).1)
  simp only [addFile]
  rw [if_neg halloc]
  exact halloc

/-- A file whose object is closed again leaves behind what it has changed. -/
theorem failsClean_addFile {stat : η → Except Error FileInfo} (hostPath : Path)
    (obj : FileObject φ ρ) (readOnly : Bool) (hhandles : s'.handles = s.handles) :
    FailsClean F s (finishOpen stat (s'.addFile P hostPath obj readOnly)) ↔
      (s'.allocSlot = none →
        F.entry (obj.close P s'.world.host) = F.entry s.world.host ∧
        F.opens (obj.close P s'.world.host) = F.opens s.world.host) := by
  rw [failsClean_finishOpen]
  cases hslot : s'.allocSlot with
  | none =>
    obtain ⟨t, hadd, ht, hhost⟩ := addFile_of_none (P := P) hslot hostPath obj readOnly
    rw [hadd, ← hhost]
    constructor
    · intro hclean _
      exact ⟨(hclean neg_emfile_neg).entry, (hclean neg_emfile_neg).opens⟩
    · intro hclosed _
      exact ⟨(hclosed rfl).1, (hclosed rfl).2, ht.trans hhandles⟩
  | some i =>
    refine iff_of_true ?_ (fun hnone => by cases hnone)
    intro hneg
    exact absurd hneg (not_neg_addFile hslot hostPath obj readOnly)

/-! ### Directories -/

theorem failsClean_openDir : FailsClean F s (s.openDir P fullPath) := by
  unfold openDir
  split
  · rintro r t hok -
    cases hok
    exact ⟨rfl, rfl, rfl⟩
  · rename_i entries _
    rw [failsClean_finishOpen]
    intro hneg
    cases hslot : s.allocSlot with
    | none =>
      have hslot₁ : s.newObject.2.allocSlot = none := hslot
      simp only [addDir, allocHandle_of_none hslot₁]
      exact ⟨rfl, rfl, rfl⟩
    | some i =>
      have hslot₁ : s.newObject.2.allocSlot = some i := hslot
      exact absurd hneg (not_neg_allocHandle hslot₁ _)

/-! ### Plain files -/

/-- The host on which `Open` opens a plain file. -/
def plainHost (P : Platform η φ ρ) (fullPath : Path) (flag : OpenFlag) (h : η) : η :=
  if flag &&& oCREATE ≠ 0 then P.os.mkdirAll fullPath.dir h else h

/-- The file cannot be opened there. -/
def Refused (P : Platform η φ ρ) (fullPath : Path) (flag : OpenFlag) (h : η) : Prop :=
  ∃ e, (P.os.openFile fullPath flag (plainHost P fullPath flag h)).1 = .error e

/-- `Open` makes a directory for the file. -/
def MakesDir (fullPath : Path) (flag : OpenFlag) (h : η) : Prop :=
  flag &&& oCREATE ≠ 0 ∧ F.Missing fullPath.dir h

theorem entry_plainHost (hmakes : ¬ MakesDir F fullPath flag h₁) :
    F.entry (plainHost P fullPath flag h₁) = F.entry h₁ := by
  unfold plainHost
  split_ifs with hcreate
  · exact F.mkdirAll_of_not_missing _ _ fun hmissing => hmakes ⟨hcreate, hmissing⟩
  · rfl

theorem exists_made (hmakes : MakesDir F fullPath flag h₁) :
    ∃ p, F.entry h₁ p = none ∧ F.entry (plainHost P fullPath flag h₁) p = some .dir := by
  rw [plainHost, if_pos hmakes.1]
  exact F.mkdirAll_of_missing _ _ hmakes.2

theorem opens_plainHost : F.opens (plainHost P fullPath flag h₁) = F.opens h₁ := by
  unfold plainHost
  split_ifs
  · exact F.opens_mkdirAll _ _
  · rfl

/-- A failed attempt to open a plain file leaves a trace: the directory that was made for it when it
cannot be opened or gets no slot, or, without a slot, a file created or truncated. -/
def LeavesTrace (s : Backend η φ ρ) (fullPath : Path) (flag : OpenFlag) (h : η) : Prop :=
  (MakesDir F fullPath flag h ∧ (Refused P fullPath flag h ∨ s.allocSlot = none)) ∨
    (¬ Refused P fullPath flag h ∧ s.allocSlot = none ∧ Alters flag (F.entry h fullPath))

/-- A file that has been opened leaves the tree as it was if and only if no directory was made and
it was neither created nor truncated. -/
theorem entry_openFile_iff {f : φ} {h₂ : η}
    (hopen : P.os.openFile fullPath flag (plainHost P fullPath flag h₁) = (.ok f, h₂)) :
    F.entry h₂ = F.entry h₁ ↔
      ¬ MakesDir F fullPath flag h₁ ∧ ¬ Alters flag (F.entry h₁ fullPath) := by
  obtain ⟨hentry, hdirs, -⟩ := F.openFile_ok _ _ _ _ _ hopen
  by_cases hmakes : MakesDir F fullPath flag h₁
  · obtain ⟨p, hnone, hmade⟩ := exists_made F hmakes
    refine iff_of_false ?_ fun h => h.1 hmakes
    intro hsame
    have hdir := hdirs p hmade
    rw [hsame, hnone] at hdir
    cases hdir
  · rw [entry_plainHost F hmakes] at hentry
    simp only [hentry, hmakes, not_false_eq_true, true_and]

section Plain

variable {present : Bool}

variable {h₂ : η}

theorem openPlain_of_error {e : Error} (htry : present = true ∨ flag &&& oCREATE ≠ 0)
    (hopen : P.os.openFile fullPath flag (plainHost P fullPath flag s.world.host) =
      (.error e, h₂)) :
    s.openPlain P fullPath flag present = .ok ((0, .empty, some e), s.setHost h₂) := by
  have hskip : ¬ (!present && flag &&& oCREATE = 0) = true := by
    simpa [or_iff_not_imp_left] using htry
  rw [openPlain, if_neg hskip]
  simp only [plainHost] at hopen
  simp only [hopen]

theorem openPlain_of_ok {f : φ} (htry : present = true ∨ flag &&& oCREATE ≠ 0)
    (hopen : P.os.openFile fullPath flag (plainHost P fullPath flag s.world.host) = (.ok f, h₂)) :
    s.openPlain P fullPath flag present =
      finishOpen (fun h => FileObject.stat P h (.osFile fullPath f))
        ((s.setHost h₂).addFile P fullPath (.osFile fullPath f) (!wantWrite flag)) := by
  have hskip : ¬ (!present && flag &&& oCREATE = 0) = true := by
    simpa [or_iff_not_imp_left] using htry
  rw [openPlain, if_neg hskip]
  simp only [plainHost] at hopen
  simp only [hopen]

/-- A host that differs from the first one by looking for an image at most. -/
structure Probed (s s' : Backend η φ ρ) : Prop extends Unchanged F s s' where
  /-- The table has the same slots to give. -/
  slot : s'.allocSlot = s.allocSlot

variable {F}

/-- A file that cannot be opened leaves the directory behind that was made for it. -/
theorem Probed.failsClean_error_iff (hs : Probed F s s') {e : Error}
    (htry : present = true ∨ flag &&& oCREATE ≠ 0)
    (hopen : P.os.openFile fullPath flag (plainHost P fullPath flag s'.world.host) =
      (.error e, h₂)) :
    FailsClean F s (s'.openPlain P fullPath flag present) ↔
      ¬ MakesDir F fullPath flag s'.world.host := by
  obtain ⟨hentry, hopens⟩ := F.openFile_error _ _ _ _ _ hopen
  rw [openPlain_of_error htry hopen]
  constructor
  · intro hclean hmakes
    obtain ⟨p, hnone, hmade⟩ := exists_made F hmakes
    have hsame := (hclean _ _ rfl (Or.inl (Option.some_ne_none e))).entry
    rw [← hentry, show F.entry h₂ = _ from hsame, ← hs.entry, hnone] at hmade
    cases hmade
  · rintro hmakes r t hok -
    cases hok
    refine ⟨?_, hopens.trans ((opens_plainHost F).trans hs.opens), hs.handles⟩
    exact hentry.trans ((entry_plainHost F hmakes).trans hs.entry)

/-- A file that gets no slot stays created or truncated. -/
theorem Probed.failsClean_ok_iff (hs : Probed F s s') {f : φ}
    (htry : present = true ∨ flag &&& oCREATE ≠ 0)
    (hopen : P.os.openFile fullPath flag (plainHost P fullPath flag s'.world.host) = (.ok f, h₂)) :
    FailsClean F s (s'.openPlain P fullPath flag present) ↔ (s.allocSlot = none →
      ¬ MakesDir F fullPath flag s'.world.host ∧
      ¬ Alters flag (F.entry s'.world.host fullPath)) := by
  obtain ⟨-, -, hisOpen, hopens⟩ := F.openFile_ok _ _ _ _ _ hopen
  obtain ⟨hentryClose, hopensClose⟩ := F.close f h₂
  have hclosed : F.opens (P.os.close f h₂) = F.opens s.world.host := by
    have hcount := hopensClose hisOpen
    rw [opens_plainHost F, hs.opens] at hopens
    omega
  have hslot : (s'.setHost h₂).allocSlot = s.allocSlot := hs.slot
  have hhandles : (s'.setHost h₂).handles = s.handles := hs.handles
  rw [openPlain_of_ok htry hopen, failsClean_addFile F _ _ _ hhandles, hslot]
  change (_ → F.entry (P.os.close f h₂) = _ ∧ F.opens (P.os.close f h₂) = _) ↔ _
  rw [hentryClose, hclosed, ← hs.entry, entry_openFile_iff F hopen]
  simp only [and_true]

/-- `Open` of a plain file fails without a trace if and only if it does not leave one. -/
theorem Probed.failsClean_openPlain_iff (hs : Probed F s s') :
    FailsClean F s (s'.openPlain P fullPath flag present) ↔
      (present = true ∨ flag &&& oCREATE ≠ 0 →
        ¬ LeavesTrace F s fullPath flag s'.world.host) := by
  by_cases htry : present = true ∨ flag &&& oCREATE ≠ 0
  · simp only [htry, true_imp_iff]
    obtain ⟨opened, h₂, hopen⟩ : ∃ opened h₂,
        P.os.openFile fullPath flag (plainHost P fullPath flag s'.world.host) = (opened, h₂) :=
      ⟨_, _, rfl⟩
    cases opened with
    | error e =>
      have hrefused : Refused P fullPath flag s'.world.host := ⟨e, by rw [hopen]⟩
      rw [hs.failsClean_error_iff htry hopen]
      simp [LeavesTrace, hrefused]
    | ok f =>
      have haccepted : ¬ Refused P fullPath flag s'.world.host := by
        rintro ⟨e, he⟩
        rw [hopen] at he
        cases he
      rw [hs.failsClean_ok_iff htry hopen]
      simp only [LeavesTrace, haccepted, false_or, not_false_eq_true, true_and]
      tauto
  · refine iff_of_true ?_ fun h => absurd h htry
    rintro r t hok -
    have hskip : (!present && flag &&& oCREATE = 0) = true := by
      simpa [not_or] using htry
    rw [openPlain, if_pos hskip] at hok
    cases hok
    exact hs.toUnchanged

end Plain

/-! ### Files -/

/-- The search for an image has not found one that opens, and leaves this host to the part for
plain files. -/
def ReachesPlain (P : Platform η φ ρ) (s : Backend η φ ρ) (fullPath : Path) (h : η) : Prop :=
  (s.compressedPath P fullPath = none ∧ h = s.world.host) ∨
    ∃ image, s.compressedPath P fullPath = some image ∧
      openCompressed P image s.compressionCacheSize s.world.host = .ok (none, h)

theorem failsClean_openRegular_iff :
    FailsClean F s (s.openRegular P fullPath flag) ↔ ∀ h, ReachesPlain P s fullPath h →
      (s.pathExists P fullPath = true ∨ flag &&& oCREATE ≠ 0) →
        ¬ LeavesTrace F s fullPath flag h := by
  unfold openRegular ReachesPlain
  cases hcompressed : s.compressedPath P fullPath with
  | none =>
    have hs : Probed F s s := ⟨⟨rfl, rfl, rfl⟩, rfl⟩
    simp only [true_and, reduceCtorEq, false_and, exists_false, or_false, forall_eq]
    exact hs.failsClean_openPlain_iff
  | some image =>
    simp only [reduceCtorEq, false_and, false_or, Option.some.injEq, exists_eq_left']
    cases hopen : openCompressed P image s.compressionCacheSize s.world.host with
    | error fault =>
      refine iff_of_true ?_ fun h hh => by cases hh
      intro r t hok
      cases hok
    | ok opened =>
      obtain ⟨wrapper, h₁⟩ := opened
      obtain ⟨hentry, hnone, hsome⟩ := F.openCompressed hopen
      cases wrapper with
      | none =>
        have hs : Probed F s (s.setHost h₁) := ⟨⟨hentry, hnone rfl, rfl⟩, rfl⟩
        simp only [Except.ok.injEq, Prod.mk.injEq, true_and, forall_eq']
        exact hs.failsClean_openPlain_iff
      | some c =>
        refine iff_of_true ?_ fun h hh => by cases hh
        have hhandles : (s.setHost h₁).handles = s.handles := rfl
        change FailsClean F s (finishOpen (fun _ => .ok c.info.fileInfo)
          ((s.setHost h₁).addFile P image (.cachedReader c) true))
        rw [failsClean_addFile F _ _ _ hhandles]
        exact fun _ => hsome c rfl

/-- `Open` comes to the part for plain files, on this host, and opens the file. -/
structure OpensPlain (P : Platform η φ ρ) (s : Backend η φ ρ) (path : Path) (flag : OpenFlag)
    (isDir : Bool) (fullPath : Path) (h : η) : Prop where
  /-- The path is resolved. -/
  resolved : s.resolvePath P path = some fullPath
  /-- A file that is asked for writing is not open, and the backend is not read-only. -/
  writable : (wantWrite flag && (s.readOnly || (s.getFileState fullPath).1)) = false
  /-- A file that is asked for reading is not open for writing. -/
  readable : (!wantWrite flag && ((s.getFileState fullPath).1 && !(s.getFileState fullPath).2)) =
    false
  /-- A file is asked for. -/
  file : isDir = false
  /-- No image is decompressed for it. -/
  reaches : ReachesPlain P s fullPath h
  /-- It is there, or may be created. -/
  present : s.pathExists P fullPath = true ∨ flag &&& oCREATE ≠ 0

theorem failsClean_openFile_iff {path : Path} {isDir : Bool} :
    FailsClean F s (openFile P path flag isDir s) ↔ ∀ fullPath h,
      OpensPlain P s path flag isDir fullPath h → ¬ LeavesTrace F s fullPath flag h := by
  have hfailed (err : Error) : FailsClean F s (.ok ((0, .empty, some err), s)) := by
    rintro r t hok -
    cases hok
    exact ⟨rfl, rfl, rfl⟩
  unfold openFile
  cases hpath : s.resolvePath P path with
  | none =>
    refine iff_of_true (hfailed _) fun fullPath h hopens => ?_
    cases hpath.symm.trans hopens.resolved
  | some fullPath =>
    simp only
    split_ifs with hwrite hread hdir
    · refine iff_of_true (hfailed _) fun fullPath' h hopens => ?_
      cases hpath.symm.trans hopens.resolved
      cases hwrite.symm.trans hopens.writable
    · refine iff_of_true (hfailed _) fun fullPath' h hopens => ?_
      cases hpath.symm.trans hopens.resolved
      cases hread.symm.trans hopens.readable
    · refine iff_of_true (failsClean_openDir F) fun fullPath' h hopens => ?_
      cases hdir.symm.trans hopens.file
    · rw [failsClean_openRegular_iff]
      constructor
      · intro hclean fullPath' h hopens
        cases hpath.symm.trans hopens.resolved
        exact hclean h hopens.reaches hopens.present
      · intro hclean h hreaches hpresent
        exact hclean fullPath h ⟨hpath, by simpa using hwrite, by simpa using hread,
          by simpa using hdir, hreaches, hpresent⟩

end Backend

/-! ### OPEN -/

/-- When OPEN replies with a negative result, nothing has changed. -/
def FailedOpenClean (F : ImageFilesystem P) (s : Backend η φ ρ)
    (x : Except Fault (Outcome (Backend η φ ρ))) : Prop :=
  ∀ out, x = .ok out → out.reply.Failed → Unchanged F s out.fs

section Open

variable {F : ImageFilesystem P} {s : Backend η φ ρ} {c : Connection} {payload : List Byte}

/-- OPEN replies with a negative result when `Open` fails. -/
theorem openNew_of_ok {path : Path} {flag : OpenFlag} {isDir : Bool} {r : Backend.OpenResult}
    {t : Backend η φ ρ} (hopen : Backend.openFile P path flag isDir s = .ok (r, t)) :
    ∃ out, c.openNew (Backend.fs P) s path flag isDir = .ok out ∧ out.fs = t ∧
      (out.reply.Failed ↔ r.2.2 ≠ none ∨ r.1 < 0) := by
  obtain ⟨handle, st, err⟩ := r
  change ∃ out, (Backend.openFile P path flag isDir s >>= _) = _ ∧ _
  rw [hopen]
  cases err with
  | some err =>
    exact ⟨_, rfl, rfl, iff_of_true (.of_err rfl) (Or.inl (Option.some_ne_none err))⟩
  | none =>
    by_cases hneg : handle < 0
    · exact ⟨_, if_pos hneg, rfl, iff_of_true ⟨handle, rfl, hneg⟩ (Or.inr hneg)⟩
    · refine ⟨_, if_neg hneg, rfl, iff_of_false ?_ (by simpa using hneg)⟩
      rintro ⟨result, hresult, hneg'⟩
      cases hresult
      exact hneg hneg'

theorem failedOpenClean_openNew_iff {path : Path} {flag : OpenFlag} {isDir : Bool} :
    FailedOpenClean F s (c.openNew (Backend.fs P) s path flag isDir) ↔
      Backend.FailsClean F s (Backend.openFile P path flag isDir s) := by
  cases hopen : Backend.openFile P path flag isDir s with
  | error fault =>
    refine iff_of_true ?_ fun r t hok => by cases hok
    intro out hok
    change (Backend.openFile P path flag isDir s >>= _) = _ at hok
    rw [hopen] at hok
    cases hok
  | ok opened =>
    obtain ⟨r, t⟩ := opened
    obtain ⟨out, hrun, rfl, hfailed⟩ := openNew_of_ok (c := c) hopen
    rw [hrun]
    constructor
    · rintro hclean r' t' hok hfails
      cases hok
      exact hclean out rfl (hfailed.mpr hfails)
    · rintro hclean out' hok hreply
      cases hok
      exact hclean r out.fs rfl (hfailed.mp hreply)

/-- The request comes to the part of `Open` for plain files, on this host, and the file is
opened. -/
structure Attempts (P : Platform η φ ρ) (c : Connection) (s : Backend η φ ρ) (payload : List Byte)
    (fullPath : Path) (h : η) : Prop where
  /-- The request is complete. -/
  length : 8 ≤ payload.length
  /-- No handle is kept for the path. -/
  lookup : (c.lookupHandle (cString (payload.drop 8))
    (udpfsFlagsToOSFlags (uint16 (payload.drop 2)))).1 = none
  /-- The file is opened. -/
  opens : Backend.OpensPlain P s (cString (payload.drop 8))
    (udpfsFlagsToOSFlags (uint16 (payload.drop 2))) (payload.getD 1 0 ≠ 0) fullPath h

/-- A failed OPEN leaves the host as it was if and only if it does not leave the trace of a
directory made, or of a file created or truncated, before the failure. -/
theorem failed_open_leaves_host_iff (F : ImageFilesystem P)
    (htype : msgType payload = some .openReq) :
    FailedOpenClean F s (c.handlePayload (Backend.fs P) s payload) ↔ ∀ fullPath h,
      Attempts P c s payload fullPath h → ¬ Backend.LeavesTrace F s fullPath
        (udpfsFlagsToOSFlags (uint16 (payload.drop 2))) h := by
  have hkept (out : Outcome (Backend η φ ρ)) (hfs : out.fs = s) :
      FailedOpenClean F s (.ok out) := by
    rintro out' hok -
    cases hok
    rw [hfs]
    exact ⟨rfl, rfl, rfl⟩
  rw [Connection.handlePayload, htype]
  change FailedOpenClean F s (c.handleOpen (Backend.fs P) s payload) ↔ _
  unfold Connection.handleOpen
  by_cases hshort : payload.length < 8
  · rw [if_pos hshort]
    exact iff_of_true (hkept _ rfl) fun fullPath h hattempt => absurd hattempt.length (by omega)
  rw [if_neg hshort]
  simp only
  split_ifs with hdir
  · rw [failedOpenClean_openNew_iff, Backend.failsClean_openFile_iff]
    refine iff_of_true (fun fullPath h hopens => ?_) fun fullPath h hattempt => ?_
    · cases hdir.symm.trans hopens.file
    · cases hdir.symm.trans hattempt.opens.file
  · split
    · rename_i handle c' hlookup
      refine iff_of_true (hkept _ rfl) fun fullPath h hattempt => ?_
      have hnone := hattempt.lookup
      rw [hlookup] at hnone
      cases hnone
    · rename_i c' hlookup
      rw [failedOpenClean_openNew_iff, Backend.failsClean_openFile_iff]
      constructor
      · intro hclean fullPath h hattempt
        exact hclean fullPath h hattempt.opens
      · intro hclean fullPath h hopens
        exact hclean fullPath h ⟨by omega, by rw [hlookup], hopens⟩

end Open

/-! ### A full table on the small host -/

/-- The small host, which counts its open files, with the decoders of CSO and ZSO images. -/
def countedPlatform : Platform (Host × ℕ) OsFile (Decoder OsFile) :=
  Decoder.platform Host.os.counted (fun _ => none) (fun _ => none) (fun _ _ => none)

/-- Its tree and its open files. -/
def countedFilesystem : ImageFilesystem countedPlatform :=
  Decoder.filesystem Host.filesystem (fun _ => none) (fun _ => none) (fun _ _ => none)

/-- A host with a file `/r/a` of one byte and a directory `/r/d`. -/
def countedHost : Host × ℕ :=
  (⟨[(Path.ascii ['/', 'r'], .dir), (Path.ascii ['/', 'r', '/', 'a'], .file 0),
    (Path.ascii ['/', 'r', '/', 'd'], .dir)], fun _ => [7], 1⟩, 0)

/-- OPEN of a file that is created or truncated for writing. -/
def openToWrite (name : Char) : List Byte :=
  [0x10, 0, 2, 6, 0, 0, 0, 0] ++ Path.ascii [name] ++ [0]

/-- A directory is not opened for writing, and nothing has changed. -/
theorem failed_open_leaves_host_of_directory :
    ∃ (s : Backend (Host × ℕ) OsFile (Decoder OsFile)) (out : Outcome _),
      Backend.newBackend countedPlatform Backend.serveShelf countedHost 0 = .ok (some s) ∧
      newConnection.handlePayload (Backend.fs countedPlatform) s (openToWrite 'd') = .ok out ∧
      out.reply.Failed ∧ Unchanged countedFilesystem s out.fs := by
  have hrun : ∃ (s : Backend (Host × ℕ) OsFile (Decoder OsFile)) (out : Outcome _)
      (i : Fin maxHandles),
      Backend.newBackend countedPlatform Backend.serveShelf countedHost 0 = .ok (some s) ∧
      newConnection.handlePayload (Backend.fs countedPlatform) s (openToWrite 'd') = .ok out ∧
      out.reply.Failed ∧ s.allocSlot = some i ∧ s.world.host = countedHost ∧
      s.resolvePath countedPlatform (cString ((openToWrite 'd').drop 8)) =
        some (Path.ascii ['/', 'r', '/', 'd']) ∧
      s.compressedPath countedPlatform (Path.ascii ['/', 'r', '/', 'd']) = none :=
    ⟨_, _, _, rfl, rfl, ⟨_, rfl, by decide⟩, rfl, rfl, rfl, rfl⟩
  obtain ⟨s, out, i, hnew, hok, hfailed, hslot, hhost, hresolved, hplain⟩ := hrun
  refine ⟨s, out, hnew, hok, hfailed, ?_⟩
  refine (failed_open_leaves_host_iff countedFilesystem rfl).mpr ?_ out hok hfailed
  rintro fullPath h hattempt (⟨hmakes, -⟩ | ⟨-, hnone, -⟩)
  · cases hresolved.symm.trans hattempt.opens.resolved
    rcases hattempt.opens.reaches with ⟨-, rfl⟩ | ⟨image, himage, -⟩
    · -- the directory of the path is there already
      obtain ⟨p, hbefore, hafter⟩ := hmakes.2
      rw [hhost] at hbefore hafter
      cases hbefore.symm.trans hafter
    · cases hplain.symm.trans himage
  · cases hslot.symm.trans hnone

set_option maxRecDepth 10000 in
/-- When the table is full OPEN fails with `EMFILE`, and the file has been truncated. -/
theorem failed_open_truncates_file :
    ∃ (s₀ s : Backend (Host × ℕ) OsFile (Decoder OsFile)) (out : Outcome _),
      Backend.newBackend countedPlatform Backend.serveShelf countedHost 0 = .ok (some s₀) ∧
      (List.replicate 64 Backend.dopen).foldlM (fun s payload => Outcome.fs <$>
        newConnection.handlePayload (Backend.fs countedPlatform) s payload) s₀ = .ok s ∧
      newConnection.handlePayload (Backend.fs countedPlatform) s (openToWrite 'a') = .ok out ∧
      out.reply = .openReply (-emfile) .empty ∧
      countedFilesystem.entry s.world.host (Path.ascii ['/', 'r', '/', 'a']) =
        some (.file [7]) ∧
      countedFilesystem.entry out.fs.world.host (Path.ascii ['/', 'r', '/', 'a']) =
        some (.file []) ∧
      ¬ FailedOpenClean countedFilesystem s (.ok out) := by
  refine ⟨_, _, _, rfl, rfl, rfl, rfl, rfl, rfl, fun hclean => ?_⟩
  have hsame := (hclean _ rfl ⟨_, rfl, Backend.neg_emfile_neg⟩).entry
  have hfile : some (Entry.file []) = some (Entry.file [7]) :=
    congrFun hsame (Path.ascii ['/', 'r', '/', 'a'])
  cases hfile

end Udpfsd.Fs
