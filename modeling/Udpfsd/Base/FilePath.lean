import Mathlib.Data.List.Basic
import Mathlib.Data.List.TakeWhile
import Mathlib.Tactic.SplitIfs

/-!
# Slash-separated paths

The lexical functions of Go's `path/filepath` on Unix. A path is a string of bytes;
it is split into its elements at the slashes, and `clean` puts the elements on a
stack on which `..` takes back the element before it.
-/

namespace Udpfsd

/-- A path as a string of bytes. -/
abbrev Path := List (BitVec 8)

namespace Path

/-- The bytes of a text of seven-bit characters. -/
def ascii (text : List Char) : Path := text.map (fun c => BitVec.ofNat 8 c.toNat)

/-- The separator. -/
def slash : BitVec 8 := 0x2F

/-- The other separator a client may use. -/
def backslash : BitVec 8 := 0x5C

/-- The byte in front of an extension. -/
def fullStop : BitVec 8 := 0x2E

/-- The element for the directory itself. -/
def dot : Path := [fullStop]

/-- The element for the parent directory. -/
def dotDot : Path := [fullStop, fullStop]

/-- The elements between the slashes, empty ones included. -/
def elements : Path → List Path
  | [] => [[]]
  | c :: rest =>
    if c = slash then [] :: elements rest
    else
      match elements rest with
      | [] => [[c]]
      | e :: es => (c :: e) :: es

/-- The elements joined by slashes. -/
def joinElements : List Path → Path
  | [] => []
  | [e] => e
  | e :: es => e ++ slash :: joinElements es

/-- Whether a path is absolute. -/
def rooted (path : Path) : Bool := path.head? = some slash

/-- The elements kept, in reverse order, after a `..`. -/
def parent (rooted : Bool) : List Path → List Path
  | [] => if rooted then [] else [dotDot]
  | top :: rest => if top = dotDot then dotDot :: top :: rest else rest

/-- One element met by `clean`, with the elements kept so far in reverse order. -/
def push (rooted : Bool) (kept : List Path) (e : Path) : List Path :=
  if e = [] ∨ e = dot then kept else if e = dotDot then parent rooted kept else e :: kept

/-- The elements that `clean` keeps. -/
def kept (path : Path) : List Path := (path.elements.foldl (push path.rooted) []).reverse

/-- `filepath.Clean`. -/
def clean (path : Path) : Path :=
  if path.rooted then slash :: joinElements path.kept
  else if path.kept = [] then dot
  else joinElements path.kept

/-- `filepath.Join` of two elements. -/
def join (a b : Path) : Path :=
  if a ≠ [] then clean (a ++ slash :: b) else if b ≠ [] then clean b else []

/-- `filepath.Abs`. The working directory `cwd` may be unknown; an absolute path does
not need it. -/
def abs (cwd : Option Path) (path : Path) : Option Path :=
  if path.rooted then some (clean path) else cwd.map (fun dir => join dir path)

/-- `filepath.Ext`: the last element from its last full stop on. -/
def ext (path : Path) : Path :=
  let tail := path.reverse.takeWhile (fun c => c ≠ slash && c ≠ fullStop)
  if path.reverse[tail.length]? = some fullStop then fullStop :: tail.reverse else []

/-- `filepath.Dir`. -/
def dir (path : Path) : Path := clean (path.reverse.dropWhile (· ≠ slash)).reverse

/-- `filepath.Base`. -/
def base (path : Path) : Path :=
  if path = [] then dot
  else
    let stripped := path.reverse.dropWhile (· = slash)
    if stripped = [] then [slash] else (stripped.takeWhile (· ≠ slash)).reverse

/-- `strings.ToLower`, up to characters that have no seven-bit lower case: the capital
letters, the dotted capital I and the Kelvin sign are the ones that have. -/
def toLower : Path → Path
  | [] => []
  | 0xC4 :: 0xB0 :: rest => 0x69 :: toLower rest
  | 0xE2 :: 0x84 :: 0xAA :: rest => 0x6B :: toLower rest
  | c :: rest => (if 0x41 ≤ c ∧ c ≤ 0x5A then c + 0x20 else c) :: toLower rest

theorem parent_ne_nil {rooted : Bool} {kept : List Path} (hkept : ∀ k ∈ kept, k ≠ []) :
    ∀ k ∈ parent rooted kept, k ≠ [] := by
  have hdotDot : dotDot ≠ [] := List.cons_ne_nil _ _
  cases kept with
  | nil => cases rooted <;> simp [parent, hdotDot]
  | cons top rest =>
    simp only [List.mem_cons, forall_eq_or_imp] at hkept
    by_cases htop : top = dotDot
    · simpa [parent, htop, hdotDot] using hkept.2
    · simpa [parent, htop] using hkept.2

/-- Only nonempty elements are kept. -/
theorem push_ne_nil {rooted : Bool} {kept : List Path} {e : Path}
    (hkept : ∀ k ∈ kept, k ≠ []) : ∀ k ∈ push rooted kept e, k ≠ [] := by
  unfold push
  split_ifs with hskip hparent
  · exact hkept
  · exact parent_ne_nil hkept
  · have he : e ≠ [] := fun h => hskip (Or.inl h)
    simpa [he] using hkept

theorem foldl_push_ne_nil {rooted : Bool} (es : List Path) {kept : List Path}
    (hkept : ∀ k ∈ kept, k ≠ []) : ∀ k ∈ es.foldl (push rooted) kept, k ≠ [] := by
  induction es generalizing kept with
  | nil => exact hkept
  | cons e es ih => exact ih (push_ne_nil hkept)

variable {es : List Path} {Q : Path → Prop}

theorem joinElements_ne_nil (hes : es ≠ []) (hne : ∀ e ∈ es, e ≠ []) :
    joinElements es ≠ [] := by
  match es with
  | [] => exact absurd rfl hes
  | [e] => exact hne e List.mem_cons_self
  | e :: e' :: rest => simp [joinElements]

/-- A cleaned path is never the empty string. -/
theorem clean_ne_nil (path : Path) : clean path ≠ [] := by
  unfold clean
  split_ifs with hrooted hkept
  · exact List.cons_ne_nil _ _
  · exact List.cons_ne_nil _ _
  · apply joinElements_ne_nil hkept
    intro e he
    exact foldl_push_ne_nil _ (by simp) e (List.mem_reverse.mp he)

theorem elements_eq_splitOn (path : Path) : path.elements = path.splitOn slash := by
  induction path with
  | nil => rfl
  | cons c rest ih =>
    have hne : rest.splitOn slash ≠ [] := List.splitOnP_ne_nil _ _
    simp only [elements, ih, List.splitOn, List.splitOnP_cons_eq_if_modifyHead, beq_iff_eq]
    split_ifs
    · rfl
    · cases hsplit : rest.splitOnP (· == slash) with
      | nil => exact absurd hsplit hne
      | cons e es => rfl

theorem joinElements_eq_intercalate (es : List Path) :
    joinElements es = [slash].intercalate es := by
  match es with
  | [] => rfl
  | [e] => simp [joinElements, List.intercalate]
  | e :: e' :: rest =>
    have hrest := joinElements_eq_intercalate (e' :: rest)
    simp only [joinElements, hrest]
    simp [List.intercalate]

/-- A slash separates the elements before it from those behind it. -/
theorem elements_append_slash (a b : Path) :
    elements (a ++ slash :: b) = a.elements ++ b.elements := by
  simp only [elements_eq_splitOn]
  exact List.splitOnP_append_cons a b (beq_self_eq_true slash)

/-- Joined elements are split again. -/
theorem elements_joinElements (hes : ∀ e ∈ es, slash ∉ e) (hne : es ≠ []) :
    elements (joinElements es) = es := by
  rw [elements_eq_splitOn, joinElements_eq_intercalate]
  exact List.splitOn_intercalate slash hes hne

/-- The bytes of an element are bytes of the path other than the slash. -/
theorem mem_of_mem_elements (path : Path) : ∀ e ∈ path.elements, ∀ b ∈ e, b ∈ path ∧ b ≠ slash := by
  induction path with
  | nil => simp [elements]
  | cons c rest ih =>
    have hrest : ∀ e ∈ elements rest, ∀ b ∈ e, b ∈ c :: rest ∧ b ≠ slash := by
      intro e he b hb
      obtain ⟨hmem, hne⟩ := ih e he b hb
      exact ⟨List.mem_cons_of_mem c hmem, hne⟩
    unfold elements
    split_ifs with hc
    · simpa using hrest
    · cases helements : elements rest with
      | nil => simp [hc]
      | cons e es =>
        rw [helements] at hrest
        simp only [List.mem_cons, forall_eq_or_imp] at hrest ⊢
        exact ⟨⟨⟨Or.inl trivial, hc⟩, hrest.1⟩, hrest.2⟩

/-- An element that names a file or directory: neither empty, `.` nor `..`. -/
structure Proper (e : Path) : Prop where
  /-- The element is not empty. -/
  ne_nil : e ≠ []
  /-- The element is not the directory itself. -/
  ne_dot : e ≠ dot
  /-- The element is not the parent directory. -/
  ne_dotDot : e ≠ dotDot
  /-- The element has no separator. -/
  no_slash : slash ∉ e

theorem Proper.push {e : Path} (h : Proper e) (rooted : Bool) (kept : List Path) :
    push rooted kept e = e :: kept := by
  unfold Path.push
  rw [if_neg (not_or.mpr ⟨h.ne_nil, h.ne_dot⟩), if_neg h.ne_dotDot]

theorem Proper.elements {e : Path} (h : Proper e) : Path.elements e = [e] := by
  change Path.elements (joinElements [e]) = [e]
  exact elements_joinElements (by simpa using h.no_slash) (by simp)

/-- Proper elements are all kept. -/
theorem foldl_push_proper (h : ∀ e ∈ es, Proper e) (rooted : Bool)
    (kept : List Path) : es.foldl (push rooted) kept = es.reverse ++ kept := by
  induction es generalizing kept with
  | nil => rfl
  | cons e es ih =>
    rw [List.foldl_cons, (h e List.mem_cons_self).push,
      ih (fun e he => h e (List.mem_cons_of_mem _ he)),
      List.reverse_cons, List.append_assoc]
    rfl

theorem push_dot (rooted : Bool) (kept : List Path) : push rooted kept dot = kept :=
  if_pos (Or.inr rfl)

theorem parent_cons {top : Path} (h : top ≠ dotDot) (rooted : Bool) (rest : List Path) :
    parent rooted (top :: rest) = rest := if_neg h

theorem rooted_slash (path : Path) : rooted (slash :: path) = true := decide_eq_true rfl

/-- On the stack of an absolute path, each `..` takes back one element. -/
theorem foldl_push_dotDot {kept : List Path} (h : ∀ e ∈ kept, Proper e) (k : ℕ) :
    (List.replicate k dotDot).foldl (push true) kept = kept.drop k := by
  have hskip : ¬ (dotDot = [] ∨ dotDot = dot) := by decide
  induction k generalizing kept with
  | zero => rfl
  | succ k ih =>
    rw [List.replicate_succ, List.foldl_cons]
    cases kept with
    | nil =>
      have hpush : push true [] dotDot = [] := by
        unfold push
        rw [if_neg hskip, if_pos rfl]
        rfl
      rw [hpush, ih (by simp)]
      simp
    | cons top rest =>
      have hpush : push true (top :: rest) dotDot = rest := by
        unfold push
        rw [if_neg hskip, if_pos rfl, parent_cons (h top List.mem_cons_self).ne_dotDot]
      rw [hpush, ih (fun e he => h e (List.mem_cons_of_mem _ he)), List.drop_succ_cons]

/-- The stack of an absolute path holds proper elements. -/
theorem push_rooted {kept : List Path} {e : Path} (h : ∀ k ∈ kept, Proper k) (he : slash ∉ e) :
    ∀ k ∈ push true kept e, Proper k := by
  unfold push
  split_ifs with hskip hparent
  · exact h
  · cases kept with
    | nil => simp [parent]
    | cons top rest =>
      rw [parent_cons (h top List.mem_cons_self).ne_dotDot]
      exact fun k hk => h k (List.mem_cons_of_mem _ hk)
  · intro k hk
    rcases List.mem_cons.mp hk with rfl | hk
    · exact ⟨fun h => hskip (Or.inl h), fun h => hskip (Or.inr h), hparent, he⟩
    · exact h k hk

/-- Under a root only proper elements are kept. -/
theorem foldl_push_rooted (path : Path) {kept : List Path} (h : ∀ k ∈ kept, Proper k) :
    ∀ k ∈ path.elements.foldl (push true) kept, Proper k := by
  have hfold : ∀ (es kept : List Path), (∀ e ∈ es, slash ∉ e) → (∀ k ∈ kept, Proper k) →
      ∀ k ∈ es.foldl (push true) kept, Proper k := by
    intro es
    induction es with
    | nil => exact fun kept _ hkept => hkept
    | cons e es ih =>
      intro kept hes hkept
      exact ih _ (fun e he => hes e (List.mem_cons_of_mem _ he))
        (push_rooted hkept (hes e List.mem_cons_self))
  exact hfold _ kept (fun e he hslash => (mem_of_mem_elements path e he slash hslash).2 rfl) h

/-- A rooted path keeps proper elements. -/
theorem kept_rooted {path : Path} (h : path.rooted = true) : ∀ e ∈ path.kept, Proper e := by
  intro e he
  unfold kept at he
  rw [h] at he
  exact foldl_push_rooted path (by simp) e (List.mem_reverse.mp he)

/-- The stack of a relative path holds proper elements on top of some `..`. -/
def Climbing (Q : Path → Prop) (kept : List Path) : Prop :=
  ∃ k names, kept = names ++ List.replicate k dotDot ∧ ∀ e ∈ names, Proper e ∧ Q e

/-- An element is pushed. -/
theorem Climbing.push {kept : List Path} {e : Path} (h : Climbing Q kept) (he : slash ∉ e)
    (hQ : Q e) : Climbing Q (push false kept e) := by
  obtain ⟨k, names, rfl, hnames⟩ := h
  unfold Path.push
  split_ifs with hskip hparent
  · exact ⟨k, names, rfl, hnames⟩
  · cases names with
    | nil =>
      refine ⟨k + 1, [], ?_, by simp⟩
      cases k with
      | zero => rfl
      | succ k =>
        simp only [List.nil_append, List.replicate_succ, parent, if_true]
    | cons top rest =>
      refine ⟨k, rest, ?_, fun e he => hnames e (List.mem_cons_of_mem _ he)⟩
      rw [List.cons_append, parent_cons (hnames top List.mem_cons_self).1.ne_dotDot]
  · refine ⟨k, e :: names, rfl, ?_⟩
    intro n hn
    rcases List.mem_cons.mp hn with rfl | hn
    · exact ⟨⟨fun h => hskip (Or.inl h), fun h => hskip (Or.inr h), hparent, he⟩, hQ⟩
    · exact hnames n hn

/-- What is kept of a relative path: some `..` and then proper elements of the path. -/
theorem kept_relative {path : Path} (h : path.rooted = false) (hQ : ∀ e ∈ path.elements, Q e) :
    ∃ k names, path.kept = List.replicate k dotDot ++ names ∧ ∀ e ∈ names, Proper e ∧ Q e := by
  have hfold : ∀ (es kept : List Path), (∀ e ∈ es, slash ∉ e ∧ Q e) → Climbing Q kept →
      Climbing Q (es.foldl (push false) kept) := by
    intro es
    induction es with
    | nil => exact fun kept _ hkept => hkept
    | cons e es ih =>
      intro kept hes hkept
      obtain ⟨he, hQe⟩ := hes e List.mem_cons_self
      exact ih _ (fun e he => hes e (List.mem_cons_of_mem _ he)) (hkept.push he hQe)
  obtain ⟨k, names, hkept, hnames⟩ := hfold path.elements []
    (fun e he => ⟨fun hslash => (mem_of_mem_elements path e he slash hslash).2 rfl, hQ e he⟩)
    ⟨0, [], rfl, by simp⟩
  refine ⟨k, names.reverse, ?_, fun e he => hnames e (List.mem_reverse.mp he)⟩
  unfold kept
  rw [h, hkept, List.reverse_append, List.reverse_replicate]

/-- Cleaning on the stack of an absolute path takes back what cleaning the relative path has taken
back. -/
theorem Climbing.foldl_push {kept : List Path} (h : Climbing Q kept) (e : Path)
    (stack : List Path) :
    (Path.push false kept e).reverse.foldl (Path.push true) stack =
      Path.push true (kept.reverse.foldl (Path.push true) stack) e := by
  have hsnoc : (e :: kept).reverse.foldl (Path.push true) stack =
      Path.push true (kept.reverse.foldl (Path.push true) stack) e := by
    rw [List.reverse_cons, List.foldl_append, List.foldl_cons, List.foldl_nil]
  by_cases hskip : e = [] ∨ e = dot
  · rw [Path.push, if_pos hskip, Path.push, if_pos hskip]
  by_cases hup : e = dotDot
  · obtain ⟨k, names, rfl, hnames⟩ := h
    have hpush (rooted : Bool) (l : List Path) : Path.push rooted l e = parent rooted l := by
      rw [Path.push, if_neg hskip, if_pos hup]
    cases names with
    | nil =>
      -- only `..` have been kept, and one more is
      have hkeep : Path.push false (List.replicate k dotDot) e =
          e :: List.replicate k dotDot := by
        rw [hpush, hup]
        cases k with
        | zero => rfl
        | succ k => simp only [List.replicate_succ, parent, if_true]
      rw [List.nil_append] at hsnoc ⊢
      rw [hkeep, hsnoc]
    | cons top names =>
      -- a proper element is taken back
      have htop := (hnames top List.mem_cons_self).1
      rw [hpush, List.cons_append, parent_cons htop.ne_dotDot, List.reverse_cons,
        List.foldl_append, List.foldl_cons, List.foldl_nil, htop.push, hpush,
        parent_cons htop.ne_dotDot]
  · rw [← hsnoc, Path.push, if_neg hskip, if_neg hup]

/-- On the stack of an absolute path a relative path and what is kept of it do the same. -/
theorem foldl_push_kept {path : Path} (h : path.rooted = false) (stack : List Path) :
    path.kept.foldl (push true) stack = path.elements.foldl (push true) stack := by
  have hfold : ∀ (es kept : List Path), (∀ e ∈ es, slash ∉ e) → Climbing (fun _ => True) kept →
      (es.foldl (push false) kept).reverse.foldl (push true) stack =
        es.foldl (push true) (kept.reverse.foldl (push true) stack) := by
    intro es
    induction es with
    | nil => exact fun kept _ _ => rfl
    | cons e es ih =>
      intro kept hes hkept
      rw [List.foldl_cons, List.foldl_cons, ← hkept.foldl_push]
      exact ih _ (fun e he => hes e (List.mem_cons_of_mem _ he))
        (hkept.push (hes e List.mem_cons_self) trivial)
  unfold kept
  rw [h]
  exact hfold path.elements []
    (fun e he hslash => (mem_of_mem_elements path e he slash hslash).2 rfl) ⟨0, [], rfl, by simp⟩

/-- A clean relative path consists of what has been kept, if anything has. -/
theorem elements_clean {path : Path} (h : path.rooted = false) (hne : path.kept ≠ []) :
    path.clean.elements = path.kept := by
  have hslash : ∀ e ∈ path.kept, slash ∉ e := by
    obtain ⟨k, names, hkept, hnames⟩ := kept_relative (Q := fun _ => True) h (fun _ _ => trivial)
    rw [hkept]
    intro e he
    rcases List.mem_append.mp he with he | he
    · rw [List.eq_of_mem_replicate he]
      decide
    · exact (hnames e he).1.no_slash
  unfold clean
  rw [h, if_neg Bool.false_ne_true, if_neg hne, elements_joinElements hslash hne]

/-- Of a relative path that comes back to where it started, the dot is left. -/
theorem clean_of_kept_eq_nil {path : Path} (h : path.rooted = false) (hempty : path.kept = []) :
    path.clean = dot := by
  unfold clean
  rw [h, if_neg Bool.false_ne_true, if_pos hempty]

/-- On the stack of an absolute path, cleaning a relative path first makes no difference. -/
theorem foldl_push_clean {path : Path} (h : path.rooted = false) (stack : List Path) :
    path.clean.elements.foldl (push true) stack = path.elements.foldl (push true) stack := by
  rw [← foldl_push_kept h]
  by_cases hempty : path.kept = []
  · rw [clean_of_kept_eq_nil h hempty, hempty, show elements dot = [dot] from rfl,
      List.foldl_cons, push_dot]
  · rw [elements_clean h hempty]

/-- The elements of an absolute path, without the empty ones. -/
theorem foldl_push_absolute (h : ∀ e ∈ es, Proper e) :
    (elements (slash :: joinElements es)).foldl (push true) [] = es.reverse := by
  have hskip : push true [] [] = [] := by
    unfold push
    rw [if_pos (Or.inl rfl)]
  have hsplit : elements (slash :: joinElements es) = [] :: elements (joinElements es) :=
    elements_append_slash [] (joinElements es)
  rw [hsplit, List.foldl_cons, hskip]
  by_cases hne : es = []
  · subst hne
    exact hskip
  · rw [elements_joinElements (fun e he => (h e he).no_slash) hne, foldl_push_proper h,
      List.append_nil]

/-- A path made of proper elements is clean. -/
theorem clean_absolute (h : ∀ e ∈ es, Proper e) :
    clean (slash :: joinElements es) = slash :: joinElements es := by
  have hkept : kept (slash :: joinElements es) = es := by
    unfold kept
    rw [rooted_slash, foldl_push_absolute h, List.reverse_reverse]
  unfold clean
  rw [if_pos (rooted_slash _), hkept]

/-- Joining a path to an absolute one continues its stack. -/
theorem join_absolute (h : ∀ e ∈ es, Proper e) (path : Path) :
    join (slash :: joinElements es) path =
      slash :: joinElements (path.elements.foldl (push true) es.reverse).reverse := by
  unfold join
  rw [if_pos (List.cons_ne_nil _ _)]
  unfold clean
  rw [List.cons_append, if_pos (rooted_slash _)]
  unfold kept
  rw [rooted_slash, ← List.cons_append, elements_append_slash, List.foldl_append,
    foldl_push_absolute h]

/-- The first byte of a path made of proper elements is one of its first element. -/
theorem head?_joinElements {e : Path} (h : Proper e) :
    (joinElements (e :: es)).head? = e.head? := by
  obtain ⟨b, rest, rfl⟩ := List.exists_cons_of_ne_nil h.ne_nil
  cases es with
  | nil => rfl
  | cons e' es => rfl

/-- Joined names are clean. -/
theorem clean_names (h : ∀ e ∈ es, Proper e) (hne : es ≠ []) :
    clean (joinElements es) = joinElements es ∧ rooted (joinElements es) = false := by
  obtain ⟨e, rest, rfl⟩ := List.exists_cons_of_ne_nil hne
  have hproper := h e List.mem_cons_self
  have hrooted : rooted (joinElements (e :: rest)) = false := by
    unfold rooted
    rw [head?_joinElements hproper, decide_eq_false_iff_not]
    intro hslash
    exact hproper.no_slash (List.mem_of_mem_head? hslash)
  have hkept : kept (joinElements (e :: rest)) = e :: rest := by
    unfold kept
    rw [elements_joinElements (fun e he => (h e he).no_slash) hne, foldl_push_proper h,
      List.append_nil, List.reverse_reverse]
  refine ⟨?_, hrooted⟩
  unfold clean
  rw [hrooted, hkept, if_neg Bool.false_ne_true, if_neg (List.cons_ne_nil _ _)]

theorem joinElements_append {names : List Path} (hes : es ≠ []) (hne : names ≠ []) :
    joinElements (es ++ names) = joinElements es ++ slash :: joinElements names := by
  induction es with
  | nil => exact absurd rfl hes
  | cons e es ih =>
    cases es with
    | nil =>
      obtain ⟨n, rest, rfl⟩ := List.exists_cons_of_ne_nil hne
      rfl
    | cons e' es =>
      have hrest := ih (List.cons_ne_nil _ _)
      simp only [List.cons_append, joinElements, List.append_assoc] at hrest ⊢
      rw [hrest]

/-- What is below a directory as a string has its elements in front. -/
theorem eq_append_of_isPrefix {names : List Path} (hes : es ≠ []) (hne : names ≠ [])
    (h : ∀ e ∈ es, Proper e) (hnames : ∀ e ∈ names, Proper e)
    (hbegins : joinElements es ++ [slash] <+: joinElements names) :
    ∃ rest, rest ≠ [] ∧ names = es ++ rest := by
  obtain ⟨tail, htail⟩ := hbegins
  refine ⟨elements tail, ?_, ?_⟩
  · rw [elements_eq_splitOn]
    exact List.splitOnP_ne_nil _ _
  · rw [← elements_joinElements (fun e he => (hnames e he).no_slash) hne, ← htail,
      List.append_assoc, List.singleton_append, elements_append_slash,
      elements_joinElements (fun e he => (h e he).no_slash) hes]

/-- A path made of proper elements does not end in a slash. -/
theorem getLast?_joinElements (h : ∀ e ∈ es, Proper e) :
    (joinElements es).getLast? ≠ some slash := by
  intro hlast
  obtain ⟨init, hinit⟩ := List.getLast?_eq_some_iff.mp hlast
  have hne : es ≠ [] := by
    rintro rfl
    cases hlast
  have helements := elements_joinElements (fun e he => (h e he).no_slash) hne
  rw [hinit, elements_append_slash] at helements
  have hmem : ([] : Path) ∈ es := by
    rw [← helements]
    exact List.mem_append_right _ List.mem_cons_self
  exact (h [] hmem).ne_nil rfl

theorem mem_joinElements {b : BitVec 8} (h : b ∈ joinElements es) :
    b = slash ∨ ∃ e ∈ es, b ∈ e := by
  induction es with
  | nil => cases h
  | cons e es ih =>
    cases es with
    | nil => exact Or.inr ⟨e, List.mem_cons_self, h⟩
    | cons e' es =>
      rcases List.mem_append.mp h with hmem | hmem
      · exact Or.inr ⟨e, List.mem_cons_self, hmem⟩
      · rcases List.mem_cons.mp hmem with rfl | hmem
        · exact Or.inl rfl
        · exact (ih hmem).imp id (fun ⟨k, hk, hbk⟩ => ⟨k, List.mem_cons_of_mem _ hk, hbk⟩)

/-! ### Extensions -/

/-- An extension is a suffix. -/
theorem ext_suffix (path : Path) : path.ext <:+ path := by
  unfold ext
  simp only
  split_ifs with hstop
  · rw [← List.reverse_prefix, List.reverse_cons, List.reverse_reverse]
    obtain ⟨hlt, hget⟩ := List.getElem?_eq_some_iff.mp hstop
    have htake := List.take_succ_eq_append_getElem hlt
    have htail := List.prefix_iff_eq_take.mp
      (List.takeWhile_prefix (l := path.reverse) (fun c => c ≠ slash && c ≠ fullStop))
    rw [← htail, hget] at htake
    exact htake ▸ List.take_prefix _ _
  · exact List.nil_suffix

/-- It has no slash. -/
theorem slash_notMem_ext (path : Path) : slash ∉ path.ext := by
  unfold ext
  simp only
  split_ifs
  · intro hmem
    rcases List.mem_cons.mp hmem with heq | hmem
    · exact absurd heq (by decide)
    · have hne := List.mem_takeWhile_imp (List.mem_reverse.mp hmem)
      simp at hne
  · simp

/-- A path without its extension is below the directories that the path is below. -/
theorem dir_prefix_stem {root path : Path} (h : root ++ [slash] <+: path) :
    root ++ [slash] <+: path.take (path.length - path.ext.length) := by
  obtain ⟨stem, hstem⟩ := path.ext_suffix
  have htake : path.take (path.length - path.ext.length) = stem := by
    have hlength := congrArg List.length hstem
    rw [List.length_append] at hlength
    have hn : path.length - path.ext.length = stem.length := by omega
    rw [hn]
    nth_rewrite 1 [← hstem]
    exact List.take_left
  rw [htake]
  have hstemPrefix : stem <+: path := ⟨_, hstem⟩
  rcases List.prefix_or_prefix_of_prefix h hstemPrefix with hbelow | ⟨rest, hrest⟩
  · exact hbelow
  -- otherwise the slash would be in the extension
  rcases List.eq_nil_or_concat rest with rfl | ⟨init, last, rfl⟩
  · rw [List.append_nil] at hrest
    exact hrest ▸ List.prefix_refl _
  · exfalso
    rw [List.concat_eq_append, ← List.append_assoc] at hrest
    obtain ⟨-, hlast⟩ := List.append_inj' hrest rfl
    rw [← hrest, ← hstem, List.append_assoc, List.prefix_append_right_inj] at h
    have hmem : last ∈ path.ext := h.subset (by simp)
    rw [List.cons.inj hlast |>.1] at hmem
    exact path.slash_notMem_ext hmem

end Path

end Udpfsd
