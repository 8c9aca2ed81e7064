import Udpfsd.Fs.Host
import Udpfsd.Fs.Table

/-!
# Confinement of client paths

`resolvePath` is lexical: it drops leading separators, turns backslashes into slashes, cleans
the path, joins it to the root and compares the result with the root as a string. On the
stack of elements the root lies at the bottom; `..` elements in front of the normal form take
back elements of the root, and the comparison accepts the result only if the elements behind
them put the root back in place.
-/

namespace Udpfsd

namespace Path

/-- The path of `rel` in the directory `root`. -/
def below (root rel : Path) : Path := (if root = [slash] then [] else root) ++ slash :: rel

/-- A clean relative path to something below a directory. -/
structure Descends (rel : Path) : Prop where
  /-- The path is clean. -/
  clean : rel.clean = rel
  /-- The path is relative. -/
  relative : rel.rooted = false
  /-- The path does not stand for the directory itself. -/
  ne_dot : rel ≠ dot
  /-- No component leads upwards. -/
  no_dotDot : dotDot ∉ rel.elements

theorem Descends.of_names {names : List Path} (h : ∀ e ∈ names, Proper e) (hne : names ≠ []) :
    Descends (joinElements names) := by
  have helements := elements_joinElements (fun e he => (h e he).no_slash) hne
  obtain ⟨hclean, hrelative⟩ := clean_names h hne
  refine ⟨hclean, hrelative, ?_, ?_⟩
  · intro hdot
    have hmem : dot ∈ names := by
      rw [← helements, hdot]
      decide
    exact (h dot hmem).ne_dot rfl
  · rw [helements]
    exact fun hmem => (h dotDot hmem).ne_dotDot rfl

/-- The elements below a directory of an absolute path. -/
theorem below_joinElements {es names : List Path} (h : ∀ e ∈ es, Proper e) (hne : names ≠ []) :
    below (slash :: joinElements es) (joinElements names) =
      slash :: joinElements (es ++ names) := by
  unfold below
  by_cases hes : es = []
  · subst hes
    rfl
  · have hroot : slash :: joinElements es ≠ [slash] := by
      intro heq
      exact joinElements_ne_nil hes (fun e he => (h e he).ne_nil) (List.cons.inj heq).2
    rw [if_neg hroot, joinElements_append hes hne]
    rfl

end Path

namespace Fs

open Udpfsd.Path

variable {η φ ρ : Type} {P : Platform η φ ρ} {s : Backend η φ ρ}

namespace Backend

/-- The path handed to `filepath.Clean` is relative and has no backslashes. -/
theorem trimmed_relative (clientPath : Path) :
    rooted ((clientPath.dropWhile (fun c => c = slash || c = backslash)).map
        (fun c => if c = backslash then slash else c)) = false ∧
      backslash ∉ (clientPath.dropWhile (fun c => c = slash || c = backslash)).map
        (fun c => if c = backslash then slash else c) := by
  constructor
  · have hfirst := List.head?_dropWhile_not (fun c => c = slash || c = backslash) clientPath
    unfold rooted
    rw [decide_eq_false_iff_not, List.head?_map]
    cases hhead : (clientPath.dropWhile (fun c => c = slash || c = backslash)).head? with
    | none => simp
    | some c =>
      rw [hhead] at hfirst
      simp only [Bool.or_eq_false_iff, decide_eq_false_iff_not] at hfirst
      simp [hfirst.1, hfirst.2]
  · intro hmem
    obtain ⟨c, -, hc⟩ := List.mem_map.mp hmem
    split_ifs at hc with hback
    · cases hc
    · exact hback hc

/-- The normal form of a client path climbs some directories and then descends through proper
elements without backslashes. On the stack of an absolute path this is all it does. -/
theorem normalPath_elements (clientPath : Path) :
    ∃ (k : ℕ) (names : List Path), (∀ e ∈ names, Proper e ∧ backslash ∉ e) ∧
      (∀ kept : List Path, (∀ e ∈ kept, Proper e) →
        (normalPath clientPath).elements.foldl (push true) kept = names.reverse ++ kept.drop k) ∧
      ((normalPath clientPath).elements.head? ≠ some dotDot → k = 0) := by
  obtain ⟨hrelative, hback⟩ := trimmed_relative clientPath
  set path : Path := (clientPath.dropWhile (fun c => c = slash || c = backslash)).map
    (fun c => if c = backslash then slash else c)
  obtain ⟨k, names, hkept, hnames⟩ := kept_relative (Q := fun e => backslash ∉ e) hrelative
    (fun e he hmem => hback (mem_of_mem_elements _ e he _ hmem).1)
  have hnormal : normalPath clientPath = clean path := rfl
  by_cases hempty : path.kept = []
  · rw [hnormal, clean_of_kept_eq_nil hrelative hempty]
    refine ⟨0, [], by simp, ?_, fun _ => rfl⟩
    intro kept _
    rw [show elements dot = [dot] from rfl, List.foldl_cons, List.foldl_nil, push_dot]
    rfl
  · have helements : (normalPath clientPath).elements = List.replicate k dotDot ++ names := by
      rw [hnormal, elements_clean hrelative hempty, hkept]
    refine ⟨k, names, hnames, ?_, ?_⟩
    · intro kept hproper
      rw [helements, List.foldl_append, foldl_push_dotDot hproper,
        foldl_push_proper (fun e he => (hnames e he).1)]
    · intro hhead
      by_contra hk
      obtain ⟨j, rfl⟩ := Nat.exists_eq_succ_of_ne_zero hk
      exact hhead (by rw [helements]; rfl)

/-- A root directory: an absolute clean path. -/
structure IsRoot (root : Path) : Prop where
  /-- The path is absolute. -/
  rooted : root.rooted = true
  /-- The path is clean. -/
  clean : root.clean = root

theorem IsRoot.eq_joinElements {root : Path} (h : IsRoot root) :
    ∃ es, root = slash :: joinElements es ∧ ∀ e ∈ es, Proper e := by
  refine ⟨root.kept, ?_, kept_rooted h.rooted⟩
  have hclean := h.clean
  unfold Path.clean at hclean
  rw [if_pos h.rooted] at hclean
  exact hclean.symm

/-- `filepath.Abs` makes a root. -/
theorem IsRoot.of_clean {path : Path} (h : path.rooted = true) : IsRoot path.clean := by
  unfold Path.clean
  rw [if_pos h]
  exact ⟨rooted_slash _, clean_absolute (kept_rooted h)⟩

theorem IsRoot.of_abs {cwd : Option Path} {path root : Path}
    (hcwd : ∀ dir, cwd = some dir → dir.rooted = true) (h : Path.abs cwd path = some root) :
    IsRoot root := by
  unfold Path.abs at h
  split_ifs at h with hrooted
  · cases h
    exact IsRoot.of_clean hrooted
  · obtain ⟨dir, hdir, rfl⟩ := Option.map_eq_some_iff.mp h
    have hne : dir ≠ [] := by
      rintro rfl
      cases hcwd [] hdir
    have habsolute : Path.rooted (dir ++ slash :: path) = true := by
      have hdirRooted := hcwd dir hdir
      unfold Path.rooted at hdirRooted ⊢
      rwa [List.head?_append_of_ne_nil _ hne]
    unfold join
    rw [if_pos hne]
    exact IsRoot.of_clean habsolute

/-- The root that `NewBackend` is given ends up absolute and clean. -/
theorem isRoot_newBackend {o : Options} {host : η} {now : ℕ}
    (hcwd : ∀ dir, P.os.getwd host = some dir → dir.rooted = true)
    (h : newBackend P o host now = .ok (some s)) (hroot : s.fsRoot ≠ []) : IsRoot s.fsRoot := by
  obtain ⟨-, hrootOf, -⟩ := newBackend_spec h
  unfold rootOf at hrootOf
  split_ifs at hrootOf
  · exact absurd (Option.some.inj hrootOf).symm hroot
  · obtain ⟨root, habs, hstat⟩ := Option.bind_eq_some_iff.mp hrootOf
    split at hstat
    · split_ifs at hstat
      cases hstat
      exact IsRoot.of_abs hcwd habs
    · cases hstat

variable {es : List Path}

/-- Which absolute paths are under a root. -/
theorem underRoot_iff {names : List Path} (hes : ∀ e ∈ es, Proper e)
    (hnames : ∀ e ∈ names, Proper e) :
    underRoot (slash :: joinElements es) (slash :: joinElements names) = true ↔
      ∃ rest, names = es ++ rest := by
  unfold underRoot
  rw [clean_absolute hes]
  by_cases hempty : es = []
  · subst hempty
    simp [joinElements]
  · obtain ⟨b, bs, hbytes⟩ := List.exists_cons_of_ne_nil
      (joinElements_ne_nil hempty (fun e he => (hes e he).ne_nil))
    have hlast : (slash :: joinElements es).getLast? ≠ some slash := by
      rw [hbytes, List.getLast?_cons_cons, ← hbytes]
      exact getLast?_joinElements hes
    simp only [if_neg hlast, Bool.or_eq_true, List.isPrefixOf_iff_prefix, decide_eq_true_eq,
      List.cons_append, List.cons_prefix_cons, true_and, List.cons.injEq]
    constructor
    · rintro (hbegins | heq)
      · have hne : names ≠ [] := by
          rintro rfl
          simp [joinElements] at hbegins
        obtain ⟨rest, -, hrest⟩ := eq_append_of_isPrefix hempty hne hes hnames hbegins
        exact ⟨rest, hrest⟩
      · have hne : names ≠ [] := by
          rintro rfl
          rw [hbytes] at heq
          cases heq
        refine ⟨[], ?_⟩
        rw [List.append_nil, ← elements_joinElements (fun e he => (hnames e he).no_slash) hne, heq,
          elements_joinElements (fun e he => (hes e he).no_slash) hempty]
    · rintro ⟨rest, rfl⟩
      by_cases hrest : rest = []
      · right
        rw [hrest, List.append_nil]
      · left
        refine ⟨joinElements rest, ?_⟩
        rw [joinElements_append hempty hrest, List.append_assoc]
        rfl

section Root

variable (hroot : s.fsRoot = slash :: joinElements es) (hes : ∀ e ∈ es, Proper e)
include hroot hes

/-- The path that `resolvePath` compares with the root. -/
theorem resolvePath_eq (clientPath : Path) :
    s.resolvePath P clientPath =
      (some (slash :: joinElements
        ((normalPath clientPath).elements.foldl (push true) es.reverse).reverse)).filter
          (underRoot s.fsRoot) := by
  have hproper : ∀ e ∈ ((normalPath clientPath).elements.foldl (push true) es.reverse).reverse,
      Proper e := by
    intro e he
    exact foldl_push_rooted _ (fun k hk => hes k (List.mem_reverse.mp hk)) e
      (List.mem_reverse.mp he)
  unfold resolvePath
  rw [if_neg (by rw [hroot]; exact List.cons_ne_nil _ _)]
  congr 1
  unfold Path.abs
  rw [hroot, join_absolute hes, if_pos (rooted_slash _), clean_absolute hproper]

/-- A path that is accepted consists of the elements of the root and proper elements without
backslashes behind them. -/
theorem resolvePath_names {clientPath resolved : Path}
    (h : s.resolvePath P clientPath = some resolved) :
    ∃ names : List Path, (∀ e ∈ names, Proper e ∧ backslash ∉ e) ∧
      resolved = slash :: joinElements (es ++ names) := by
  obtain ⟨k, names, hnames, hfold, -⟩ := normalPath_elements clientPath
  rw [resolvePath_eq hroot hes, hfold es.reverse (fun e he => hes e (List.mem_reverse.mp he)),
    List.reverse_append, List.reverse_reverse] at h
  obtain ⟨heq, hunder⟩ := Option.filter_eq_some_iff.mp h
  obtain rfl := Option.some.inj heq
  have hproper : ∀ e ∈ (es.reverse.drop k).reverse ++ names, Proper e := by
    intro e he
    rcases List.mem_append.mp he with he | he
    · exact hes e (List.mem_reverse.mp (List.mem_of_mem_drop (List.mem_reverse.mp he)))
    · exact (hnames e he).1
  rw [hroot] at hunder
  obtain ⟨rest, hrest⟩ := (underRoot_iff hes hproper).mp hunder
  refine ⟨rest, ?_, by rw [hrest]⟩
  -- what is left of the root is not longer than the root, so the rest comes from the client
  have htail : rest = names.drop (es.length - (es.reverse.drop k).reverse.length) := by
    have hdrop := congrArg (List.drop es.length) hrest
    rw [List.drop_left, List.drop_append, List.drop_eq_nil_of_le (by simp),
      List.nil_append] at hdrop
    exact hdrop.symm
  intro e he
  rw [htail] at he
  exact hnames e (List.mem_of_mem_drop he)

/-- A client path that does not start upwards is accepted. -/
theorem resolvePath_of_descending {clientPath : Path}
    (h : (normalPath clientPath).elements.head? ≠ some dotDot) :
    s.resolvePath P clientPath = some (s.fsRoot.join (normalPath clientPath)) := by
  obtain ⟨k, names, hnames, hfold, hk⟩ := normalPath_elements clientPath
  obtain rfl := hk h
  rw [resolvePath_eq hroot hes, hroot, join_absolute hes,
    hfold es.reverse (fun e he => hes e (List.mem_reverse.mp he)), List.drop_zero,
    List.reverse_append, List.reverse_reverse, List.reverse_reverse]
  refine Option.filter_eq_some_iff.mpr ⟨rfl, ?_⟩
  refine (underRoot_iff hes ?_).mpr ⟨names, rfl⟩
  intro e he
  rcases List.mem_append.mp he with he | he
  · exact hes e he
  · exact (hnames e he).1

end Root

/-- Proper elements without backslashes are in normal form. -/
theorem normalPath_names {names : List Path} (h : ∀ e ∈ names, Proper e ∧ backslash ∉ e)
    (hne : names ≠ []) : normalPath (joinElements names) = joinElements names := by
  obtain ⟨e, rest, rfl⟩ := List.exists_cons_of_ne_nil hne
  obtain ⟨hproper, hback⟩ := h e List.mem_cons_self
  have htrim : (joinElements (e :: rest)).dropWhile (fun c => c = slash || c = backslash) =
      joinElements (e :: rest) := by
    have hhead : (joinElements (e :: rest)).head? = e.head? := head?_joinElements hproper
    cases hbytes : joinElements (e :: rest) with
    | nil => rfl
    | cons b bs =>
      rw [hbytes] at hhead
      have hmem : b ∈ e := List.mem_of_mem_head? hhead.symm
      apply List.dropWhile_cons_of_neg
      simp only [Bool.or_eq_true, decide_eq_true_eq, not_or]
      exact ⟨fun hb => hproper.no_slash (hb ▸ hmem), fun hb => hback (hb ▸ hmem)⟩
  have hreplace : (joinElements (e :: rest)).map (fun c => if c = backslash then slash else c) =
      joinElements (e :: rest) := by
    refine (List.map_congr_left (fun c hc => if_neg ?_)).trans (List.map_id _)
    rintro rfl
    rcases mem_joinElements hc with hslash | ⟨k, hk, hmem⟩
    · cases hslash
    · exact (h k hk).2 hmem
  unfold normalPath
  simp only [htrim, hreplace]
  exact (clean_names (fun e he => (h e he).1) hne).1

/-- A name behind a directory is the next element of the stack. -/
theorem foldl_normalPath_child {dir name : Path} (hname : Proper name) (hback : backslash ∉ name)
    (stack : List Path) :
    (normalPath (dir ++ slash :: name)).elements.foldl (push true) stack =
      name :: (normalPath dir).elements.foldl (push true) stack := by
  have hfirst : name.dropWhile (fun c => c = slash || c = backslash) = name := by
    obtain ⟨b, bs, rfl⟩ := List.exists_cons_of_ne_nil hname.ne_nil
    apply List.dropWhile_cons_of_neg
    simp only [Bool.or_eq_true, decide_eq_true_eq, not_or]
    exact ⟨fun hb => hname.no_slash (hb ▸ List.mem_cons_self),
      fun hb => hback (hb ▸ List.mem_cons_self)⟩
  have hmap : name.map (fun c => if c = backslash then slash else c) = name := by
    refine (List.map_congr_left fun c hc => if_neg ?_).trans (List.map_id _)
    rintro rfl
    exact hback hc
  have htrimmed : (dir ++ slash :: name).dropWhile (fun c => c = slash || c = backslash) =
      if dir.dropWhile (fun c => c = slash || c = backslash) = [] then name
      else dir.dropWhile (fun c => c = slash || c = backslash) ++ slash :: name := by
    rw [List.dropWhile_append, List.dropWhile_cons_of_pos (by simp), hfirst]
    simp only [List.isEmpty_iff]
  unfold normalPath
  simp only
  rw [foldl_push_clean (trimmed_relative _).1, foldl_push_clean (trimmed_relative _).1, htrimmed]
  split_ifs with hempty
  · rw [hempty, hmap, hname.elements, List.foldl_cons, List.foldl_nil, hname.push]
    rfl
  · have hslash : (if slash = backslash then slash else slash) = slash := rfl
    rw [List.map_append, List.map_cons, hslash, hmap, elements_append_slash, List.foldl_append,
      hname.elements, List.foldl_cons, List.foldl_nil, hname.push]

/-- The path of a directory and a name in it resolve to the joined path. -/
theorem resolvePath_child (hroot : IsRoot s.fsRoot) {dir dirPath name : Path}
    (hdir : s.resolvePath P dir = some dirPath) (hname : Proper name) (hback : backslash ∉ name) :
    s.resolvePath P (dir ++ slash :: name) = some (dirPath.join name) := by
  obtain ⟨es, heq, hes⟩ := hroot.eq_joinElements
  rw [resolvePath_eq heq hes] at hdir ⊢
  rw [foldl_normalPath_child hname hback]
  set stack := (normalPath dir).elements.foldl (push true) es.reverse
  have hproper : ∀ e ∈ stack.reverse, Proper e := by
    intro e he
    exact foldl_push_rooted _ (fun k hk => hes k (List.mem_reverse.mp hk)) e
      (List.mem_reverse.mp he)
  obtain ⟨hstack, hunder⟩ := Option.filter_eq_some_iff.mp hdir
  obtain rfl := Option.some.inj hstack
  rw [heq] at hunder
  obtain ⟨rest, hrest⟩ := (underRoot_iff hes hproper).mp hunder
  rw [join_absolute hproper, hname.elements, List.foldl_cons, List.foldl_nil, hname.push,
    List.reverse_reverse, List.reverse_cons, hrest, List.append_assoc]
  refine Option.filter_eq_some_iff.mpr ⟨rfl, ?_⟩
  rw [heq]
  refine (underRoot_iff hes ?_).mpr ⟨rest ++ [name], rfl⟩
  rw [← List.append_assoc, ← hrest]
  intro e he
  rcases List.mem_append.mp he with he | he
  · exact hproper e he
  · rw [List.mem_singleton.mp he]
    exact hname

/-- A resolved path is the root or below it, by a clean path that never leads upwards. A
client path whose normal form does not begin with `..` is accepted and resolves to the root
joined with it. Resolving what is below the root in a result gives the result again. -/
theorem resolvePath_confined (hroot : IsRoot s.fsRoot) :
    (∀ clientPath resolved, s.resolvePath P clientPath = some resolved →
      resolved = s.fsRoot ∨ ∃ rel, Descends rel ∧ resolved = s.fsRoot.below rel) ∧
    (∀ clientPath, (normalPath clientPath).elements.head? ≠ some dotDot →
      s.resolvePath P clientPath = some (s.fsRoot.join (normalPath clientPath))) ∧
    (∀ clientPath resolved, s.resolvePath P clientPath = some resolved →
      (resolved = s.fsRoot → s.resolvePath P [] = some resolved) ∧
      ∀ rel, resolved = s.fsRoot.below rel → s.resolvePath P rel = some resolved) := by
  obtain ⟨es, heq, hes⟩ := hroot.eq_joinElements
  refine ⟨?_, fun clientPath => resolvePath_of_descending heq hes, ?_⟩
  · intro clientPath resolved h
    obtain ⟨names, hnames, rfl⟩ := resolvePath_names heq hes h
    by_cases hne : names = []
    · left
      rw [hne, List.append_nil, heq]
    · right
      refine ⟨joinElements names, .of_names (fun e he => (hnames e he).1) hne, ?_⟩
      rw [heq, below_joinElements hes hne]
  · intro clientPath resolved h
    obtain ⟨names, hnames, rfl⟩ := resolvePath_names heq hes h
    have hself : s.resolvePath P [] = some s.fsRoot := by
      rw [resolvePath_of_descending heq hes (by decide), heq, join_absolute hes,
        show (normalPath []).elements = [dot] from rfl, List.foldl_cons, List.foldl_nil, push_dot,
        List.reverse_reverse]
    refine ⟨fun hresolved => by rw [hresolved, hself], ?_⟩
    intro rel hrel
    rw [heq] at hrel
    by_cases hne : names = []
    · subst hne
      rw [List.append_nil, ← heq] at hrel ⊢
      obtain rfl : rel = [] := by
        unfold below at hrel
        split_ifs at hrel with hslash
        · rw [hslash] at hrel
          exact (List.cons.inj hrel).2.symm
        · have hlength := congrArg List.length hrel
          simp only [List.length_append, List.length_cons] at hlength
          omega
      exact hself
    · rw [← below_joinElements hes hne] at hrel
      obtain rfl : joinElements names = rel := by
        unfold below at hrel
        exact (List.cons.inj (List.append_cancel_left hrel)).2
      have hnormal := normalPath_names hnames hne
      have helements : (normalPath (joinElements names)).elements = names := by
        rw [hnormal, elements_joinElements (fun e he => (hnames e he).1.no_slash) hne]
      rw [resolvePath_of_descending heq hes, heq, join_absolute hes, helements,
        foldl_push_proper (fun e he => (hnames e he).1), List.reverse_append, List.reverse_reverse,
        List.reverse_reverse]
      rw [helements]
      intro hhead
      exact (hnames dotDot (List.mem_of_mem_head? hhead)).1.ne_dotDot rfl

/-- A host with a directory `/r`. -/
def directoryHost : Host := ⟨[(Path.ascii ['/', 'r'], .dir)], fun _ => [], 0⟩

/-- A client path with backslashes and `..` in the directory `/r`. -/
theorem resolvePath_confined_in_directory :
    ∃ s, newBackend Host.platform ⟨Path.ascii ['/', 'r'], [], 0, false, false, 0⟩ directoryHost 0 =
        .ok (some s) ∧
      s.resolvePath Host.platform (Path.ascii ['\\', 'a', '\\', '.', '.', '/', 'b']) =
        some (Path.ascii ['/', 'r', '/', 'b']) := by
  have hnew : ∃ s, newBackend Host.platform ⟨Path.ascii ['/', 'r'], [], 0, false, false, 0⟩
      directoryHost 0 = .ok (some s) ∧ s.fsRoot = Path.ascii ['/', 'r'] := ⟨_, rfl, rfl⟩
  obtain ⟨s, hnew, hfsRoot⟩ := hnew
  have hroot : IsRoot s.fsRoot := by
    refine isRoot_newBackend ?_ hnew (by rw [hfsRoot]; decide)
    rintro dir ⟨⟩
    rfl
  refine ⟨s, hnew, ?_⟩
  rw [(resolvePath_confined hroot).2.1 _ (by decide), hfsRoot]
  decide

end Backend

end Fs

end Udpfsd
