import Udpfsd.Fs.Enclosure
import Udpfsd.Fs.Host

/-!
# A host in two compartments

Two concrete hosts side by side. The paths inside are found on the first one, which can be read
and written; all others are found on the second one, which can only be read.
-/

namespace Udpfsd.Fs.Compartments

open Udprdma (Byte)
open Udpfs (Error FileInfo OpenFlag)
open Lockstep (Same)

variable {α : Type}

/-- A call that looks at the compartment of a path. -/
def look (inside : Path → Bool) (call : Path → Host → α) (path : Path) (x : Host × Host) : α :=
  if inside path then call path x.1 else call path x.2

/-- A call that changes the first compartment, or is refused. -/
def change (inside : Path → Bool) (call : Path → Host → Option Error × Host) (path : Path)
    (x : Host × Host) : Option Error × Host × Host :=
  if inside path then ((call path x.1).1, (call path x.1).2, x.2) else (some .permission, x)

/-- A call on an open file, with the compartment it was opened in. -/
def onFile (call : OsFile → Host → α × OsFile × Host) (f : Bool × OsFile) (x : Host × Host) :
    α × (Bool × OsFile) × Host × Host :=
  if f.1 then
    let (a, g, h) := call f.2 x.1
    (a, (true, g), h, x.2)
  else
    let (a, g, h) := call f.2 x.2
    (a, (false, g), x.1, h)

/-- `os.ReadDir`, which does not leave the compartment. -/
def readDir (inside : Path → Bool) (path : Path) (x : Host × Host) : Except Error (List Path) :=
  (look inside Host.readDir path x).map (List.filter (fun name => inside (path.join name)))

/-- `os.OpenFile`. Outside, files are opened for reading only. -/
def openFile (inside : Path → Bool) (path : Path) (flag : OpenFlag) (x : Host × Host) :
    Except Error (Bool × OsFile) × Host × Host :=
  if inside path then
    let (r, h) := Host.openFile path flag x.1
    (r.map (Prod.mk true), h, x.2)
  else if Backend.wantWrite flag then (.error .permission, x)
  else ((Host.openFile path flag x.2).1.map (Prod.mk false), x)

/-- Package `os` on the two compartments. -/
def os (inside : Path → Bool) : OS (Host × Host) (Bool × OsFile) where
  getwd := fun _ => some [Path.slash]
  stat := look inside Host.stat
  lstat := look inside Host.stat
  readDir := readDir inside
  openFile := openFile inside
  mkdirAll := fun path x => if inside path then (Host.mkdirAll path x.1, x.2) else x
  mkdir := change inside Host.mkdir
  remove := change inside Host.remove
  read := fun f n => onFile (fun g => Host.read g n) f
  write := fun f data => onFile (fun g => Host.write g data) f
  seek := fun f offset whence => onFile (fun g => Host.seek g offset whence) f
  fstat := fun f x => if f.1 then Host.fstat f.2 x.1 else Host.fstat f.2 x.2
  close := fun _ x => x

variable {inside : Path → Bool} {path : Path} {x y : Host × Host}

theorem look_eq (call : Path → Host → α) (hpath : inside path = true) (hxy : x.1 = y.1) :
    look inside call path x = look inside call path y := by
  simp only [look, hpath, hxy, if_true]

theorem change_eq (call : Path → Host → Option Error × Host) (hpath : inside path = true)
    (hxy : x.1 = y.1) :
    (change inside call path x).1 = (change inside call path y).1 ∧
      (change inside call path x).2.1 = (change inside call path y).2.1 ∧
      (change inside call path x).2.2 = x.2 := by
  simp [change, hpath, hxy]

theorem onFile_eq (call : OsFile → Host → α × OsFile × Host) {f : Bool × OsFile}
    (hf : f.1 = true) (hxy : x.1 = y.1) :
    Same (Owned (fun f : Bool × OsFile => f.1 = true) (fun x y : Host × Host => x.1 = y.1))
      (onFile call f x) (onFile call f y) ∧ (onFile call f x).2.2.2 = x.2 := by
  simp [onFile, hf, hxy, Same, Owned]

theorem openFile_eq (flag : OpenFlag) (hpath : inside path = true) (hxy : x.1 = y.1) :
    (openFile inside path flag x).1 = (openFile inside path flag y).1 ∧
      (∀ f, (openFile inside path flag x).1 = .ok f → f.1 = true) ∧
      (openFile inside path flag x).2.1 = (openFile inside path flag y).2.1 ∧
      (openFile inside path flag x).2.2 = x.2 := by
  simp only [openFile, hpath, hxy, if_true, true_and, and_true]
  intro f hf
  cases hr : (Host.openFile path flag y.1).1 with
  | error e =>
    rw [hr] at hf
    cases hf
  | ok g =>
    rw [hr] at hf
    cases hf
    rfl

theorem entries_inside {names : List Path} (hok : readDir inside path x = .ok names) :
    ∀ name ∈ names, inside (path.join name) = true := by
  unfold readDir at hok
  cases hr : look inside Host.readDir path x with
  | error e =>
    rw [hr] at hok
    cases hok
  | ok all =>
    rw [hr] at hok
    cases hok
    intro name hname
    exact (List.mem_filter.mp hname).2

/-- The first compartment is enclosed. -/
def enclosed (inside : Path → Bool) : Enclosed (os inside) (fun path => inside path = true) where
  Agree := fun x y => x.1 = y.1
  Kept := fun x y => y.2 = x.2
  kept_refl := fun _ => rfl
  kept_trans := fun _ _ _ h h' => h'.trans h
  Own := fun f => f.1 = true
  getwd := fun _ _ _ => rfl
  stat := fun _ _ _ hpath hxy => look_eq _ hpath hxy
  lstat := fun _ _ _ hpath hxy => look_eq _ hpath hxy
  readDir := fun _ _ _ hpath hxy => congrArg (Except.map _) (look_eq _ hpath hxy)
  entries := fun _ _ _ _ hok => entries_inside hok
  openFile := fun _ flag _ _ hpath hxy => openFile_eq flag hpath hxy
  mkdirAll := by
    intro path x y _ hxy
    simp only [os]
    by_cases hdir : inside path.dir
    · simp [hdir, hxy]
    · simp [hdir, hxy]
  mkdir := fun _ _ _ hpath hxy => change_eq _ hpath hxy
  remove := fun _ _ _ hpath hxy => change_eq _ hpath hxy
  read := fun _ _ _ _ hf hxy => onFile_eq _ hf hxy
  write := fun _ _ _ _ hf hxy => onFile_eq _ hf hxy
  seek := fun _ _ _ _ _ hf hxy => onFile_eq _ hf hxy
  fstat := by
    intro f x y hf hxy
    simp only [os, hf, hxy, if_true]
  close := fun _ _ _ _ hxy => ⟨hxy, rfl⟩

end Udpfsd.Fs.Compartments
