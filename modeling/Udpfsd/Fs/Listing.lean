import Udpfsd.Fs.Containers
import Udpfsd.Fs.Table
import Udpfsd.Udpfs.Handlers

/-!
# Directory listings

A client lists a directory by DREADs until one has no entry. `Dread` gives the same answer when
it cannot get the information of an entry: the host no longer has it, or it has the extension
of an image and no valid header. Such an entry ends the listing, unless it is the last one.
-/

namespace Udpfsd.Fs

open Udprdma (Byte)
open Udpfs

variable {η φ ρ : Type}

namespace Backend

variable (P : Platform η φ ρ)

/-- The information about an entry of a directory: the name it is listed under and its stat
data. An image is listed as the file it decompresses to. -/
def entryInfo (s : Backend η φ ρ) (dirPath entry : Path) : Option (Path × StatInfo) := do
  let info ← (P.os.lstat (dirPath.join entry) s.world.host).toOption
  if s.enableCompression && (getSupportedExtensions P).any (fun ext => entry.ext = ext) then
    let image ← getCompressedStat P (dirPath.join entry) s.world.host
    return (entry ++ isoExtension, statInfoFromFile image.fileInfo)
  else return (entry, statInfoFromFile info)

/-- What `Dread` returns for an entry. -/
def entryResult : Option (Path × StatInfo) → DreadResult
  | some (name, st) => (true, name, st, none)
  | none => (false, [], .empty, none)

/-- The reply to the DREAD of an entry. -/
def entryReply : Option (Path × StatInfo) → Reply
  | some (name, st) => .dreadReply 1 name st
  | none => .dreadReply 0 [] .empty

/-- DREADs, each in the state in which it finds the server: the entries of the replies before
the first one without an entry, and the state after that one. -/
def listing (c : Connection) (payload : List Byte) :
    List (Backend η φ ρ) → Option (List (Path × StatInfo) × Backend η φ ρ)
  | [] => none
  | s :: rest =>
    match c.handlePayload (fs P) s payload with
    | .ok ⟨_, t, .dreadReply result name st, _⟩ =>
      if result = 0 then some ([], t)
      else (listing c payload rest).map fun (entries, last) => ((name, st) :: entries, last)
    | _ => none

/-- The slot is in the later state as the DREAD in the earlier one left it. Anything else may
have changed in between. -/
def Follows (c : Connection) (payload : List Byte) (i : Fin maxHandles)
    (s t : Backend η φ ρ) : Prop :=
  ∀ out, c.handlePayload (fs P) s payload = .ok out → t.handles i = out.fs.handles i

/-- The directory is listed completely: every entry whose information can be obtained is
returned once, in order, and when the listing ends all entries have been considered. The DREADs
consider one entry after the other, each as the host is at that time. -/
def ListsCompletely (c : Connection) (payload : List Byte) (i : Fin maxHandles) (d : DirHandle)
    (states : List (Backend η φ ρ)) : Prop :=
  ∃ t d', listing P c payload states =
      some ((states.zip d.entries).filterMap fun x => x.1.entryInfo P d.dirPath x.2, t) ∧
    t.handles i = some (.dir d') ∧ d'.index = d.entries.length

/-! ### One DREAD -/

variable {P} {s : Backend η φ ρ} {c : Connection} {payload : List Byte} {i : Fin maxHandles}
  {d : DirHandle} {dirPath entry : Path}

theorem entryOf_eq (s : Backend η φ ρ) (dirPath entry : Path) :
    s.entryOf P dirPath entry = entryResult (s.entryInfo P dirPath entry) := by
  unfold entryOf entryInfo
  cases hlstat : P.os.lstat (dirPath.join entry) s.world.host with
  | error err => simp [hlstat, Except.toOption, entryResult]
  | ok info =>
    by_cases himage : (s.enableCompression &&
        (getSupportedExtensions P).any (fun ext => entry.ext = ext)) = true
    · cases hstat : getCompressedStat P (dirPath.join entry) s.world.host <;>
        simp [hlstat, himage, hstat, Except.toOption, entryResult]
    · simp [hlstat, himage, Except.toOption, entryResult]

theorem getDir_of_dir {handle : ℤ} (hhandle : handle = (i : ℤ) + 1)
    (hd : s.handles i = some (.dir d)) : s.getDir handle = .ok (some (i, d), s.touch i) := by
  rw [getDir, slotOf_eq_ok.mpr hhandle]
  dsimp only [bind, Except.bind]
  rw [hd]
  rfl

section Dread

variable (htype : msgType payload = some .dreadReq)
include htype

/-- The reply to a DREAD when `Dread` returns no error. -/
theorem handlePayload_dread {σ : Type} {F : FS σ} {x y : σ} {handle : ℤ} {ok : Bool} {name : Path}
    {st : StatInfo} (hhandle : namedHandle payload = some handle)
    (hdread : F.dread handle x = .ok ((ok, name, st, none), y)) :
    c.handlePayload F x payload =
      .ok ⟨c, y, if ok then .dreadReply 1 name st else .dreadReply 0 [] .empty, 0⟩ := by
  obtain ⟨hlength, rfl⟩ : ¬ payload.length < 8 ∧ handleField payload = handle := by
    simpa [namedHandle, htype, MsgType.handleLength] using hhandle
  rw [Connection.handlePayload, htype]
  change c.handleDread F x payload = _
  rw [Connection.handleDread, if_neg hlength, hdread]
  cases ok <;> rfl

/-- Behind the last entry DREAD has none. -/
theorem handlePayload_at_end (hhandle : namedHandle payload = some ((i : ℤ) + 1))
    (hd : s.handles i = some (.dir d)) (hend : d.entries[d.index]? = none) :
    ∃ out, c.handlePayload (fs P) s payload = .ok out ∧ out.reply = entryReply none ∧
      out.fs.handles i = some (.dir d) := by
  have hdread : ∃ t, dread P ((i : ℤ) + 1) s = .ok ((false, [], .empty, none), t) ∧
      t.handles i = some (.dir d) := by
    rw [dread, getDir_of_dir rfl hd]
    dsimp only [bind, Except.bind]
    rw [hend]
    exact ⟨_, rfl, hd⟩
  obtain ⟨t, hdread, ht⟩ := hdread
  exact ⟨_, handlePayload_dread htype hhandle hdread, rfl, ht⟩

/-- Before that, DREAD considers the next entry. -/
theorem handlePayload_at_entry (hhandle : namedHandle payload = some ((i : ℤ) + 1))
    (hd : s.handles i = some (.dir d)) (hentry : d.entries[d.index]? = some entry) :
    ∃ out, c.handlePayload (fs P) s payload = .ok out ∧
      out.reply = entryReply (s.entryInfo P d.dirPath entry) ∧
      out.fs.handles i = some (.dir { d with index := d.index + 1 }) := by
  have hdread : ∃ t, dread P ((i : ℤ) + 1) s = .ok (s.entryOf P d.dirPath entry, t) ∧
      t.handles i = some (.dir { d with index := d.index + 1 }) := by
    rw [dread, getDir_of_dir rfl hd]
    dsimp only [bind, Except.bind]
    rw [hentry]
    exact ⟨_, rfl, Function.update_self _ _ _⟩
  obtain ⟨t, hdread, ht⟩ := hdread
  rw [entryOf_eq] at hdread
  cases hinfo : s.entryInfo P d.dirPath entry with
  | none =>
    rw [hinfo] at hdread
    exact ⟨_, handlePayload_dread htype hhandle hdread, rfl, ht⟩
  | some info =>
    rw [hinfo] at hdread
    exact ⟨_, handlePayload_dread htype hhandle hdread, rfl, ht⟩

end Dread

/-! ### The listing -/

variable {out : Outcome (Backend η φ ρ)}

theorem listing_of_none {rest : List (Backend η φ ρ)}
    (hok : c.handlePayload (fs P) s payload = .ok out) (hreply : out.reply = entryReply none) :
    listing P c payload (s :: rest) = some ([], out.fs) := by
  obtain ⟨conn, t, reply, status⟩ := out
  cases hreply
  rw [listing, hok]
  rfl

theorem listing_of_some {rest : List (Backend η φ ρ)} {entry : Path × StatInfo}
    (hok : c.handlePayload (fs P) s payload = .ok out)
    (hreply : out.reply = entryReply (some entry)) :
    listing P c payload (s :: rest) =
      (listing P c payload rest).map fun (entries, last) => (entry :: entries, last) := by
  obtain ⟨conn, t, reply, status⟩ := out
  cases hreply
  rw [listing, hok]
  rfl

/-- The listing from the middle of a directory on is complete if and only if the information of
every entry but the last can be obtained. The induction is over the entries that are left. -/
theorem listing_from_iff {remaining : List Path} (htype : msgType payload = some .dreadReq)
    (hhandle : namedHandle payload = some ((i : ℤ) + 1)) (hd : s.handles i = some (.dir d))
    (hremaining : d.entries.drop d.index = remaining) (hindex : d.index ≤ d.entries.length)
    {rest : List (Backend η φ ρ)} (hchain : (s :: rest).IsChain (Follows P c payload i))
    (hlong : remaining.length ≤ rest.length) :
    (∃ t d', listing P c payload (s :: rest) =
          some (((s :: rest).zip remaining).filterMap fun x => x.1.entryInfo P d.dirPath x.2, t) ∧
        t.handles i = some (.dir d') ∧ d'.index = d.entries.length) ↔
      ∀ x ∈ ((s :: rest).zip remaining).dropLast, (x.1.entryInfo P d.dirPath x.2).isSome := by
  induction remaining generalizing s rest d with
  | nil =>
    have hend : d.entries[d.index]? = none := by
      rw [List.getElem?_eq_none_iff]
      exact List.drop_eq_nil_iff.mp hremaining
    obtain ⟨out, hok, hreply, hout⟩ := handlePayload_at_end (c := c) (P := P) htype hhandle hd hend
    refine ⟨fun _ => by simp, fun _ => ⟨out.fs, d, ?_, hout, ?_⟩⟩
    · rw [listing_of_none hok hreply]
      simp
    · have := List.drop_eq_nil_iff.mp hremaining
      omega
  | cons entry remaining ih =>
    have hentry : d.entries[d.index]? = some entry := by
      rw [← List.head?_drop, hremaining]
      rfl
    have hnext : d.entries.drop (d.index + 1) = remaining := by
      rw [← List.tail_drop, hremaining]
      rfl
    have hlength : d.entries.length = d.index + 1 + remaining.length := by
      have := congrArg List.length hremaining
      simp only [List.length_drop, List.length_cons] at this
      omega
    obtain ⟨out, hok, hreply, hout⟩ :=
      handlePayload_at_entry (c := c) (P := P) htype hhandle hd hentry
    obtain ⟨s', rest, rfl⟩ : ∃ s' rest', rest = s' :: rest' :=
      List.exists_cons_of_length_pos (by simp only [List.length_cons] at hlong; omega)
    cases hinfo : s.entryInfo P d.dirPath entry with
    | none =>
      -- the reply ends the listing, which is right for the last entry only
      rw [hinfo] at hreply
      rw [listing_of_none hok hreply]
      cases remaining with
      | nil =>
        refine ⟨fun _ => by simp, fun _ => ⟨out.fs, _, ?_, hout, ?_⟩⟩
        · simp [hinfo]
        · simpa using hlength.symm
      | cons entry' remaining =>
        refine iff_of_false ?_ ?_
        · rintro ⟨t, d', hlist, ht, hd'⟩
          have hlast : out.fs = t := (Prod.ext_iff.mp (Option.some.inj hlist)).2
          cases hout.symm.trans (hlast ▸ ht)
          simp only [List.length_cons] at hlength hd'
          omega
        · intro hall
          have := hall (s, entry) (by simp)
          simp [hinfo] at this
    | some info =>
      rw [hinfo] at hreply
      have hchain' := List.isChain_cons_cons.mp hchain
      have hs' : s'.handles i = some (.dir { d with index := d.index + 1 }) := by
        rw [hchain'.1 out hok, hout]
      have hrest := ih hs' hnext (by simp only; omega) hchain'.2
        (by simpa only [List.length_cons, Nat.add_le_add_iff_right] using hlong)
      have hall : (∀ x ∈ ((s :: s' :: rest).zip (entry :: remaining)).dropLast,
            (x.1.entryInfo P d.dirPath x.2).isSome) ↔
          ∀ x ∈ ((s' :: rest).zip remaining).dropLast,
            (x.1.entryInfo P d.dirPath x.2).isSome := by
        cases remaining with
        | nil => simp
        | cons entry' remaining => simp [hinfo]
      rw [listing_of_some hok hreply, hall, ← hrest]
      simp only [List.zip_cons_cons, List.filterMap_cons, hinfo]
      refine exists_congr fun t => exists_congr fun d' => and_congr_left fun _ => ?_
      cases listing P c payload (s' :: rest) with
      | none => simp
      | some r => simp [Prod.ext_iff]

/-- A directory that has just been opened is listed completely if and only if the information of
every entry but the last can be obtained when it is its turn. -/
theorem listsCompletely_iff (htype : msgType payload = some .dreadReq)
    (hhandle : namedHandle payload = some ((i : ℤ) + 1)) (hd : s.handles i = some (.dir d))
    (hindex : d.index = 0) {rest : List (Backend η φ ρ)}
    (hchain : (s :: rest).IsChain (Follows P c payload i))
    (hlong : d.entries.length ≤ rest.length) :
    ListsCompletely P c payload i d (s :: rest) ↔
      ∀ x ∈ ((s :: rest).zip d.entries).dropLast, (x.1.entryInfo P d.dirPath x.2).isSome :=
  listing_from_iff htype hhandle hd (by rw [hindex, List.drop_zero]) (by omega) hchain hlong

/-- The state after a DREAD follows the one before it. -/
theorem Follows.of_ok
    (hok : c.handlePayload (fs P) s payload = .ok out) : Follows P c payload i s out.fs := by
  intro out' hok'
  cases hok.symm.trans hok'
  rfl

/-! ### A directory with an image that has no header -/

/-- A host with a directory `/r` of empty files. -/
def shelfHost (names : List Path) : Host :=
  ⟨(Path.ascii ['/', 'r'], .dir) ::
    names.mapIdx fun i name => ((Path.ascii ['/', 'r']).join name, .file i), fun _ => [],
    names.length⟩

/-- The directory is served with decompression. -/
def serveShelf : Options := ⟨Path.ascii ['/', 'r'], [], 0, false, true, 0⟩

/-- DOPEN of the directory. -/
def dopen : List Byte := [0x10, 1, 1, 0, 0, 0, 0, 0, 0]

/-- DREAD of the first handle. -/
def dreadFirst : List Byte := [0x1C, 0, 0, 0, 1, 0, 0, 0]

/-- The name of an image, which is empty on this host and so has no header. -/
def imageName : Path := Path.ascii ['a', '.', 'c', 's', 'o']

/-- As the last entry the image does no harm. -/
theorem listsCompletely_with_bad_last_image :
    ∃ (s₀ : Backend Host OsFile (Decoder OsFile)) (out₀ out₁ out₂ : Outcome _) (d : DirHandle),
      newBackend hostPlatform serveShelf (shelfHost [Path.ascii ['b'], imageName]) 0 =
        .ok (some s₀) ∧
      newConnection.handlePayload (fs hostPlatform) s₀ dopen = .ok out₀ ∧
      newConnection.handlePayload (fs hostPlatform) out₀.fs dreadFirst = .ok out₁ ∧
      newConnection.handlePayload (fs hostPlatform) out₁.fs dreadFirst = .ok out₂ ∧
      d.entries = [Path.ascii ['b'], imageName] ∧
      out₁.fs.entryInfo hostPlatform d.dirPath imageName = none ∧
      ListsCompletely hostPlatform newConnection dreadFirst 0 d [out₀.fs, out₁.fs, out₂.fs] := by
  have hrun : ∃ (s₀ : Backend Host OsFile (Decoder OsFile)) (out₀ out₁ out₂ : Outcome _)
      (d : DirHandle),
      newBackend hostPlatform serveShelf (shelfHost [Path.ascii ['b'], imageName]) 0 =
        .ok (some s₀) ∧
      newConnection.handlePayload (fs hostPlatform) s₀ dopen = .ok out₀ ∧
      newConnection.handlePayload (fs hostPlatform) out₀.fs dreadFirst = .ok out₁ ∧
      newConnection.handlePayload (fs hostPlatform) out₁.fs dreadFirst = .ok out₂ ∧
      out₀.fs.handles 0 = some (.dir d) ∧ d.index = 0 ∧
      d.entries = [Path.ascii ['b'], imageName] ∧
      (out₀.fs.entryInfo hostPlatform d.dirPath (Path.ascii ['b'])).isSome ∧
      out₁.fs.entryInfo hostPlatform d.dirPath imageName = none :=
    ⟨_, _, _, _, _, rfl, rfl, rfl, rfl, rfl, rfl, rfl, rfl, rfl⟩
  obtain ⟨s₀, out₀, out₁, out₂, d, hnew, h₀, h₁, h₂, hd, hindex, hentries, hfirst, hbad⟩ := hrun
  refine ⟨s₀, out₀, out₁, out₂, d, hnew, h₀, h₁, h₂, hentries, hbad, ?_⟩
  refine (listsCompletely_iff rfl rfl hd hindex ?_ ?_).mpr ?_
  · exact .cons_cons (.of_ok h₁) (.cons_cons (.of_ok h₂) (.singleton _))
  · rw [hentries]
    exact le_rfl
  · simpa [hentries] using hfirst

/-- As the first entry it ends the listing, and the client never sees the second one. -/
theorem bad_image_ends_listing :
    ∃ (s₀ : Backend Host OsFile (Decoder OsFile)) (out₀ out₁ out₂ : Outcome _) (d : DirHandle),
      newBackend hostPlatform serveShelf (shelfHost [imageName, Path.ascii ['b']]) 0 =
        .ok (some s₀) ∧
      newConnection.handlePayload (fs hostPlatform) s₀ dopen = .ok out₀ ∧
      newConnection.handlePayload (fs hostPlatform) out₀.fs dreadFirst = .ok out₁ ∧
      newConnection.handlePayload (fs hostPlatform) out₁.fs dreadFirst = .ok out₂ ∧
      d.entries = [imageName, Path.ascii ['b']] ∧ out₀.fs.handles 0 = some (.dir d) ∧
      out₁.reply = .dreadReply 0 [] .empty ∧
      (out₁.fs.entryInfo hostPlatform d.dirPath (Path.ascii ['b'])).isSome ∧
      ¬ ListsCompletely hostPlatform newConnection dreadFirst 0 d
        [out₀.fs, out₁.fs, out₂.fs] := by
  refine ⟨_, _, _, _, _, rfl, rfl, rfl, rfl, rfl, rfl, rfl, rfl, ?_⟩
  rintro ⟨t, d', hlist, -⟩
  cases hlist

end Backend

end Udpfsd.Fs
