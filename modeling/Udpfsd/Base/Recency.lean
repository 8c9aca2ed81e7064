import Mathlib.Data.List.Dedup
import Mathlib.Data.List.DropRight

/-!
# Recency of use

A sequence of uses orders the values that occur in it by their last use. What a cache with
room for `n` values holds under the least-recently-used policy is the end of that order.
-/

namespace Udpfsd.Recency

variable {α : Type*}

theorem rtake_append_of_le_length {n : ℕ} (older : List α) {newer : List α}
    (h : n ≤ newer.length) : (older ++ newer).rtake n = newer.rtake n := by
  unfold List.rtake
  rw [List.length_append, List.drop_append, List.drop_eq_nil_of_le (by omega), List.nil_append]
  congr 1
  omega

theorem rtake_of_length_le {n : ℕ} {values : List α} (h : values.length ≤ n) :
    values.rtake n = values := by
  unfold List.rtake
  rw [Nat.sub_eq_zero_of_le h, List.drop_zero]

variable [DecidableEq α] {uses : List α} {a b x : α} {n : ℕ}

/-- How many uses there have been since the last one of a value. -/
def age (uses : List α) (a : α) : ℕ := uses.reverse.idxOf a

theorem age_concat (uses : List α) (x a : α) :
    age (uses ++ [x]) a = if x = a then 0 else age uses a + 1 := by
  unfold age
  rw [List.reverse_append, List.reverse_singleton, List.singleton_append, List.idxOf_cons]
  by_cases h : x = a
  · simp [h]
  · simp [h, beq_eq_false_iff_ne.mpr h]

/-- One more use puts its value at the end of the order of last uses. -/
theorem dedup_concat (uses : List α) (x : α) :
    (uses ++ [x]).dedup = uses.dedup.erase x ++ [x] := by
  induction uses with
  | nil => simp
  | cons first rest ih =>
    rw [List.cons_append]
    by_cases hfirst : first ∈ rest
    · rw [List.dedup_cons_of_mem (List.mem_append_left _ hfirst), ih,
        List.dedup_cons_of_mem hfirst]
    · rw [List.dedup_cons_of_notMem hfirst]
      by_cases hx : first = x
      · subst hx
        rw [List.dedup_cons_of_mem (List.mem_append_right _ (List.mem_singleton_self _)), ih,
          List.erase_cons_head, List.erase_of_not_mem (mt List.mem_dedup.mp hfirst)]
      · have hnew : first ∉ rest ++ [x] := by simp [hfirst, hx]
        rw [List.dedup_cons_of_notMem hnew, ih, List.erase_cons_tail (by simpa using hx),
          List.cons_append]

/-- Removing the duplicates of a sequence of uses orders the values by their last use. -/
theorem pairwise_dedup (uses : List α) :
    uses.dedup.Pairwise fun a b => age uses b < age uses a := by
  induction uses using List.reverseRecOn with
  | nil => simp
  | append_singleton uses x ih =>
    rw [dedup_concat, List.pairwise_append]
    have hold : ∀ a ∈ uses.dedup.erase x, age (uses ++ [x]) a = age uses a + 1 := by
      intro a ha
      rw [age_concat, if_neg]
      rintro rfl
      exact (List.nodup_dedup uses).not_mem_erase ha
    refine ⟨?_, List.pairwise_singleton _ _, ?_⟩
    · refine (ih.sublist List.erase_sublist).imp_of_mem ?_
      intro a b ha hb hab
      rw [hold a ha, hold b hb]
      omega
    · intro a ha b hb
      rw [List.mem_singleton.mp hb, hold a ha, age_concat, if_pos rfl]
      omega

/-- The `n` values used last, the least recent first. -/
def latest (n : ℕ) (uses : List α) : List α := uses.dedup.rtake n

theorem latest_nil (n : ℕ) : latest n ([] : List α) = [] := List.rtake_nil n

/-- The values used before the `n` last ones. -/
def older (n : ℕ) (uses : List α) : List α := uses.dedup.take (uses.dedup.length - n)

theorem older_append_latest (n : ℕ) (uses : List α) :
    older n uses ++ latest n uses = uses.dedup :=
  List.take_append_drop _ _

theorem nodup_latest (n : ℕ) (uses : List α) : (latest n uses).Nodup :=
  (List.nodup_dedup uses).sublist (List.drop_sublist _ _)

theorem mem_of_mem_latest (h : a ∈ latest n uses) : a ∈ uses :=
  List.mem_dedup.mp ((List.drop_sublist _ _).subset h)

theorem length_latest (n : ℕ) (uses : List α) :
    (latest n uses).length = min n uses.dedup.length := by
  unfold latest List.rtake
  rw [List.length_drop]
  omega

theorem older_eq_nil_or (n : ℕ) (uses : List α) :
    older n uses = [] ∨ (latest n uses).length = n := by
  rw [length_latest]
  by_cases h : uses.dedup.length ≤ n
  · left
    unfold older
    rw [Nat.sub_eq_zero_of_le h, List.take_zero]
  · right
    omega

theorem pairwise_latest (n : ℕ) (uses : List α) :
    (latest n uses).Pairwise fun a b => age uses b < age uses a :=
  (pairwise_dedup uses).sublist (List.drop_sublist _ _)

/-- A value that is held has been used after every value that is not. -/
theorem age_lt_of_notMem_latest (ha : a ∈ latest n uses) (hb : b ∈ uses)
    (hnot : b ∉ latest n uses) : age uses a < age uses b := by
  have hpairs := pairwise_dedup uses
  have hmem : b ∈ older n uses ++ latest n uses := by
    rw [older_append_latest]
    exact List.mem_dedup.mpr hb
  rw [← older_append_latest n, List.pairwise_append] at hpairs
  rcases List.mem_append.mp hmem with hold | hnew
  · exact hpairs.2.2 b hold a ha
  · exact absurd hnew hnot

theorem latest_concat (n : ℕ) (uses : List α) (x : α) :
    latest (n + 1) (uses ++ [x]) = (uses.dedup.erase x).rtake n ++ [x] := by
  unfold latest
  rw [dedup_concat, List.rtake_concat_succ]

/-- The use of a value that is held moves it to the end. -/
theorem latest_concat_of_mem (h : x ∈ latest (n + 1) uses) :
    latest (n + 1) (uses ++ [x]) = (latest (n + 1) uses).erase x ++ [x] := by
  have hnodup := List.nodup_dedup uses
  rw [← older_append_latest (n + 1)] at hnodup
  have hx : x ∉ older (n + 1) uses := fun hold => (List.disjoint_of_nodup_append hnodup) hold h
  have hlength := List.length_erase_of_mem h
  rw [latest_concat, ← older_append_latest (n + 1), List.erase_append_right _ hx]
  congr 1
  rcases older_eq_nil_or (n + 1) uses with hnil | hfull
  · rw [hnil, List.nil_append, rtake_of_length_le]
    rw [hlength, length_latest]
    omega
  · rw [rtake_append_of_le_length _ (by omega), rtake_of_length_le (by omega)]

/-- The use of a value that is not held keeps the last `n` of those that are. -/
theorem latest_concat_of_notMem (h : x ∉ latest (n + 1) uses) :
    latest (n + 1) (uses ++ [x]) = (latest (n + 1) uses).rtake n ++ [x] := by
  rw [latest_concat]
  congr 1
  rcases older_eq_nil_or (n + 1) uses with hnil | hfull
  · have hall := older_append_latest (n + 1) uses
    rw [hnil, List.nil_append] at hall
    rw [← hall, List.erase_of_not_mem h]
  · rw [← older_append_latest (n + 1), List.erase_append]
    split_ifs
    · rw [rtake_append_of_le_length _ (by omega)]
    · rw [List.erase_of_not_mem h, rtake_append_of_le_length _ (by omega)]

/-- The value that one more use drops is the least recent one. -/
theorem latest_eq_cons_of_dropped (ha : a ∈ latest (n + 1) uses)
    (hnot : a ∉ latest (n + 1) (uses ++ [x])) : ∃ rest, latest (n + 1) uses = a :: rest := by
  by_cases hx : x ∈ latest (n + 1) uses
  · rw [latest_concat_of_mem hx, List.mem_append, List.mem_singleton, not_or] at hnot
    exact absurd ((List.mem_erase_of_ne hnot.2).mpr ha) hnot.1
  · rw [latest_concat_of_notMem hx, List.mem_append, not_or] at hnot
    have hlength : (latest (n + 1) uses).length ≤ n + 1 := by
      rw [length_latest]
      omega
    cases hlatest : latest (n + 1) uses with
    | nil => rw [hlatest] at ha; cases ha
    | cons first rest =>
      rw [hlatest] at ha hnot hlength
      rcases List.mem_cons.mp ha with rfl | hrest
      · exact ⟨rest, rfl⟩
      · -- the list with all but the first has at most `n` elements, so they are all kept
        have hrest' : rest.length ≤ n := Nat.le_of_succ_le_succ hlength
        rcases Nat.lt_or_eq_of_le hrest' with hlt | heq
        · have hall : (first :: rest).rtake n = first :: rest := rtake_of_length_le hlt
          rw [hall] at hnot
          exact absurd ha hnot.1
        · rw [← List.singleton_append, rtake_append_of_le_length _ heq.ge,
            rtake_of_length_le hrest'] at hnot
          exact absurd hrest hnot.1

end Udpfsd.Recency
