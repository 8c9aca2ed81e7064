import Udpfsd.Fs.Containers
import Udpfsd.Fs.Enclosure

/-!
# The decoders read only the file they were given

`Open`, `GetStat` and `ReadBlock` of packages `cso` and `zso` are programs on one open file.
On hosts that agree such a program does the same from a file opened inside. So what is assumed
of package `os` is enough to enclose the whole platform.
-/

namespace Udpfsd.Fs

open Udprdma (Byte)
open Udpfs (Error Fault FileInfo oRDONLY)
open Lockstep (Same)
open FileProgram Program

variable {η φ : Type} {os : OS η φ} {inside : Path → Prop}

namespace Enclosed

variable {E : Enclosed os inside} {h₀ : η}

variable (E h₀) in
/-- The program does the same from one file inside on hosts that agree. -/
abbrev Runs {α : Type} (p : FileProgram η φ α) : Prop := InStep (Owned E.Own (E.Near h₀)) p

/-- A seek. -/
theorem runs_seekStart (offset : ℤ) : E.Runs h₀ (seekStart os offset) := by
  intro s t hst
  obtain ⟨f, h⟩ := s
  obtain ⟨g, k⟩ := t
  obtain ⟨hfg, hown, hnear⟩ := hst
  cases hfg
  obtain ⟨⟨hr, hf, hown', hagree⟩, hkept⟩ := E.seek f offset 0 h k hown hnear.1
  obtain ⟨r, f', h', hs⟩ : ∃ r f' h', os.seek f offset 0 h = (r, f', h') := ⟨_, _, _, rfl⟩
  obtain ⟨r', f'', k', ht⟩ : ∃ r f' h', os.seek f offset 0 k = (r, f', h') := ⟨_, _, _, rfl⟩
  simp only [hs, ht] at hr hf hown' hagree hkept
  cases hr
  cases hf
  simp only [seekStart, hs, ht]
  exact .done ⟨rfl, rfl, hown', hnear.step hagree hkept⟩

/-- The loop of `io.ReadFull`. -/
theorem runs_fill (fuel n : ℕ) (read : List Byte) : E.Runs h₀ (fill os fuel n read) := by
  -- the induction is over the rounds of the loop
  induction fuel generalizing n read with
  | zero =>
    cases n with
    | zero => exact .pure read
    | succ n => exact .fail _
  | succ fuel ih =>
    cases n with
    | zero => exact .pure read
    | succ n =>
      intro s t hst
      obtain ⟨f, h⟩ := s
      obtain ⟨g, k⟩ := t
      obtain ⟨hfg, hown, hnear⟩ := hst
      cases hfg
      obtain ⟨⟨hr, hf, hown', hagree⟩, hkept⟩ := E.read f (n + 1) h k hown hnear.1
      obtain ⟨r, f', h', hs⟩ : ∃ r f' h', os.read f (n + 1) h = (r, f', h') := ⟨_, _, _, rfl⟩
      obtain ⟨r', f'', k', ht⟩ : ∃ r f' h', os.read f (n + 1) k = (r, f', h') := ⟨_, _, _, rfl⟩
      simp only [hs, ht] at hr hf hown' hagree hkept
      cases hr
      cases hf
      obtain ⟨bytes, err⟩ := r
      simp only [fill, hs, ht]
      have hnear' := hnear.step hagree hkept
      refine .ite (fun _ => .done ⟨rfl, rfl, hown', hnear'⟩) (fun _ => ?_)
      cases err with
      | none => exact ih _ _ _ _ ⟨rfl, hown', hnear'⟩
      | some err => exact .done ⟨rfl, rfl, hown', hnear'⟩

variable (E h₀) in
/-- Every program of the decoders does the same. -/
theorem closed_runs : Closed os fun _ => E.Runs h₀ where
  pure := .pure
  fail := .fail
  fault := .fault
  bind := .bind
  seekStart := runs_seekStart
  readFull n := runs_fill n n []
  fstat := by
    rintro ⟨f, h⟩ ⟨g, k⟩ ⟨hfg, hown, hnear⟩
    cases hfg
    exact .done ⟨E.fstat f h k hown hnear.1, rfl, hown, hnear⟩
  modTime := by
    rintro ⟨f, h⟩ ⟨g, k⟩ ⟨hfg, hown, hnear⟩
    cases hfg
    unfold modTime
    simp only
    rw [← E.fstat f h k hown hnear.1]
    cases os.fstat f h with
    | ok info => exact .done ⟨rfl, rfl, hown, hnear⟩
    | error err => exact .done ⟨rfl, rfl, hown, hnear⟩

/-- A file inside is opened and its header parsed alike. -/
theorem openWith {α : Type} {parseHeader : FileProgram η φ α} (hparse : E.Runs h₀ parseHeader)
    {path : Path} (hpath : inside path) {h k : η} (hnear : E.Near h₀ h k) :
    Lockstep (Same (E.Near h₀)) (openWith os parseHeader path h)
        (openWith os parseHeader path k) ∧
      ∀ f a h', openWith os parseHeader path h = .ok (.ok (f, a), h') → E.Own f := by
  obtain ⟨hopen, hown, hagree, hkept⟩ := E.openFile path oRDONLY h k hpath hnear.1
  unfold FileProgram.openWith
  generalize os.openFile path oRDONLY h = x at hopen hown hagree hkept ⊢
  generalize os.openFile path oRDONLY k = y at hopen hown hagree hkept ⊢
  obtain ⟨r, h₁⟩ := x
  obtain ⟨r', k₁⟩ := y
  cases hopen
  have hnear₁ : E.Near h₀ h₁ k₁ := hnear.step hagree hkept
  cases r with
  | error err => exact ⟨.done ⟨rfl, hnear₁⟩, fun f a h' heq => by cases heq⟩
  | ok f =>
    have hrun := hparse (f, h₁) (f, k₁) ⟨rfl, hown f rfl, hnear₁⟩
    simp only
    generalize parseHeader (f, h₁) = x at hrun ⊢
    generalize parseHeader (f, k₁) = y at hrun ⊢
    cases hrun with
    | fault e => exact ⟨.fault e, fun f a h' heq => by cases heq⟩
    | @done a b hab =>
      obtain ⟨r, f₂, h₂⟩ := a
      obtain ⟨r', f₂', k₂⟩ := b
      obtain ⟨hr, hf, hown₂, hnear₂⟩ := hab
      cases hr
      cases hf
      cases r with
      | error err =>
        obtain ⟨hagree', hkept'⟩ := E.close f₂ h₂ k₂ hown₂ hnear₂.1
        exact ⟨.done ⟨rfl, hnear₂.step hagree' hkept'⟩, fun f a h' heq => by cases heq⟩
      | ok a =>
        refine ⟨.done ⟨rfl, hnear₂⟩, ?_⟩
        intro f a h' heq
        cases heq
        exact hown₂

/-- `GetStat` of a file inside returns the same. -/
theorem getStatWith (magics : List (List Byte)) {path : Path} (hpath : inside path) {h k : η}
    (hagree : E.Agree h k) : getStatWith os magics path h = getStatWith os magics path k := by
  obtain ⟨hopen, hown, hagree', -⟩ := E.openFile path oRDONLY h k hpath hagree
  unfold FileProgram.getStatWith
  generalize os.openFile path oRDONLY h = x at hopen hown hagree' ⊢
  generalize os.openFile path oRDONLY k = y at hopen hown hagree' ⊢
  obtain ⟨r, h₁⟩ := x
  obtain ⟨r', k₁⟩ := y
  cases hopen
  cases r with
  | error err => rfl
  | ok f =>
    obtain ⟨program, hprogram⟩ : ∃ program : FileProgram η φ CompressedInfo, program = do
      let b ← readFull os 16
      Program.check (b.take 4 ∈ magics) .other
      let modTime ← modTime os
      return ⟨modTime, path.base, (uint64 (b.drop 8)).toInt⟩ := ⟨_, rfl⟩
    have hruns : E.Runs h₁ program := by
      rw [hprogram]
      exact .bind ((closed_runs E h₁).readFull 16) fun _ => .bind (.check _ _) fun _ =>
        .bind (closed_runs E h₁).modTime fun _ => .pure _
    have hrun := hruns (f, h₁) (f, k₁) ⟨rfl, hown f rfl, hagree', E.kept_refl h₁⟩
    simp only [← hprogram]
    generalize program (f, h₁) = x at hrun ⊢
    generalize program (f, k₁) = y at hrun ⊢
    cases hrun with
    | fault e => rfl
    | @done a b hab =>
      obtain ⟨r, f₂, h₂⟩ := a
      obtain ⟨r', f₂', k₂⟩ := b
      obtain ⟨hr, -⟩ := hab
      cases hr
      cases r with
      | error err => rfl
      | ok info => rfl

end Enclosed

/-! ### The formats -/

open Enclosed

variable {E : Enclosed os inside} {h₀ : η}

/-- A format whose `Open` opens a file inside and parses its header. -/
theorem Enclosed.openFormat {α β γ : Type} {layout : Layout α} {path : Path} (hpath : inside path)
    {h k : η} (hnear : E.Near h₀ h k) (make : φ × α → β) (wrap : β → γ) {F : Format η β}
    (hF : ∀ h, F.openImage path h = openImage os makeAny layout make path h) :
    Lockstep (Same (E.Near h₀)) ((F.map wrap).openImage path h) ((F.map wrap).openImage path k) ∧
      ∀ r h', (F.map wrap).openImage path h = .ok (.ok r, h') →
        ∃ f a, r = wrap (make (f, a)) ∧ E.Own f := by
  obtain ⟨hopen, hown⟩ := Enclosed.openWith ((closed_runs E h₀).parseHeader layout path) hpath hnear
  simp only [Format.map, hF, FileProgram.openImage]
  constructor
  · refine (hopen.bind_same (S := Same (E.Near h₀)) ?_).bind_same ?_
    · intro r h' k' hnear'
      exact .done ⟨rfl, hnear'⟩
    · intro r h' k' hnear'
      exact .done ⟨rfl, hnear'⟩
  · intro r h' hok
    obtain ⟨⟨r₁, h₁⟩, hfirst, hok⟩ := Fallible.bind_eq_ok.mp hok
    obtain ⟨⟨r₂, h₂⟩, hopened, hfirst⟩ := Fallible.bind_eq_ok.mp hfirst
    cases hfirst
    cases r₂ with
    | error err => cases hok
    | ok opened =>
      obtain ⟨f, a⟩ := opened
      cases hok
      exact ⟨f, a, rfl, hown f a _ hopened⟩

/-- A reader that is put around another, or around a file. -/
theorem wrap_owned {α β γ : Type} {O : α → Prop} {P : β → Prop} {Near : η → η → Prop}
    {x y : Except Fault (γ × α × η)} (wrap : α → β) (hwrap : ∀ a, O a → P (wrap a))
    (hxy : Lockstep (Same (Owned O Near)) x y) :
    Lockstep (Same (Owned P Near)) (x >>= fun r => .ok (r.1, wrap r.2.1, r.2.2))
      (y >>= fun r => .ok (r.1, wrap r.2.1, r.2.2)) := by
  refine hxy.bind ?_
  rintro a b ⟨hvalue, howner, hown, hnear⟩
  exact .done ⟨hvalue, congrArg wrap howner, hwrap _ hown, hnear⟩

namespace Decoder

/-- The file of a decoder. -/
def file : Decoder φ → φ
  | .zso z => z.f
  | .cso c => c.f

/-- `Open` on hosts that agree. -/
theorem openImage_enclosed (flate zlib : List Byte → Option (List Byte)) (lz4 : UncompressBlock)
    {format : Format η (Decoder φ)}
    (hformat : format ∈ [(platform os flate zlib lz4).zso, (platform os flate zlib lz4).cso,
      (platform os flate zlib lz4).chd]) {path : Path} {h k : η} (hpath : inside path)
    (hnear : E.Near h₀ h k) :
    Lockstep (Same (E.Near h₀)) (format.openImage path h) (format.openImage path k) ∧
      ∀ r h', format.openImage path h = .ok (.ok r, h') → E.Own r.file := by
  simp only [platform, List.mem_cons, List.not_mem_nil, or_false] at hformat
  rcases hformat with rfl | rfl | rfl
  · obtain ⟨hopen, hown⟩ := Enclosed.openFormat hpath hnear (fun x => ⟨x.2, x.1⟩) Decoder.zso
      (F := Zso.format os) (fun _ => rfl)
    refine ⟨hopen, ?_⟩
    intro r h' hok
    obtain ⟨f, a, rfl, hf⟩ := hown r h' hok
    exact hf
  · obtain ⟨hopen, hown⟩ := Enclosed.openFormat hpath hnear (fun x => ⟨x.2, x.1⟩) Decoder.cso
      (F := Cso.format os) (fun _ => rfl)
    refine ⟨hopen, ?_⟩
    intro r h' hok
    obtain ⟨f, a, rfl, hf⟩ := hown r h' hok
    exact hf
  · exact ⟨.done ⟨rfl, hnear⟩, fun r h' hok => by cases hok⟩

/-- `ReadBlock` on hosts that agree. -/
theorem readBlock_enclosed (flate zlib : List Byte → Option (List Byte)) (lz4 : UncompressBlock)
    {r : Decoder φ} (idx : ℤ) {h k : η} (hr : E.Own r.file) (hnear : E.Near h₀ h k) :
    Lockstep (Same (Owned (fun r : Decoder φ => E.Own r.file) (E.Near h₀)))
      ((reader os flate zlib lz4).readBlock r idx h)
      ((reader os flate zlib lz4).readBlock r idx k) := by
  cases r with
  | zso z =>
    have hrun := Zso.closed_readBlock (closed_runs E h₀) lz4 z.toZsoHeader idx (z.f, h) (z.f, k)
      ⟨rfl, hr, hnear⟩
    exact wrap_owned Decoder.zso (fun _ hz => hz)
      (wrap_owned (P := fun z : Zso φ => E.Own z.f) (fun f => { z with f := f }) (fun _ hf => hf)
        hrun)
  | cso c =>
    have hrun := Cso.closed_readBlock (closed_runs E h₀) flate zlib c.toCsoHeader idx (c.f, h)
      (c.f, k) ⟨rfl, hr, hnear⟩
    exact wrap_owned Decoder.cso (fun _ hc => hc)
      (wrap_owned (P := fun c : Cso φ => E.Own c.f) (fun f => { c with f := f }) (fun _ hf => hf)
        hrun)

/-- The platform on an enclosed host is enclosed. -/
def enclosure (E : Enclosed os inside) (flate zlib : List Byte → Option (List Byte))
    (lz4 : UncompressBlock) : Enclosure (platform os flate zlib lz4) inside where
  toEnclosed := E
  OwnImage r := E.Own r.file
  openImage := fun _ hformat _ _ _ _ hpath hnear =>
    openImage_enclosed flate zlib lz4 hformat hpath hnear
  getStat := by
    intro format hformat path h k hpath hagree
    simp only [platform, List.mem_cons, List.not_mem_nil, or_false] at hformat
    rcases hformat with rfl | rfl | rfl
    · exact Enclosed.getStatWith (E := E) _ hpath hagree
    · exact Enclosed.getStatWith (E := E) _ hpath hagree
    · rfl
  readBlock := fun _ idx _ _ _ hr hnear => readBlock_enclosed flate zlib lz4 idx hr hnear
  closeImage := by
    intro r h₀ h k hr hnear
    obtain ⟨hagree, hkept⟩ := E.close r.file h k hr hnear.1
    cases r with
    | zso z => exact hnear.step hagree hkept
    | cso c => exact hnear.step hagree hkept

end Decoder

end Udpfsd.Fs
