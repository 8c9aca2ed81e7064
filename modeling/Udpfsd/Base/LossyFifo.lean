import Mathlib.Data.List.Basic

/-!
# Lossy first-in first-out channels

A channel is the list of messages under way, oldest first. It may lose any message and
repeat any message in place. Protocols that number their messages keep at most two
generations of numbers in a channel, the old one before the new one; the lemmas say how
such channels evolve. A channel can also be described by the log of what its writer has
written: what is under way are messages of the log, in its order.
-/

namespace LossyFifo

variable {α β κ : Type*}

/-- One disturbance of a channel. -/
inductive Disturbed : List α → List α → Prop
  | lose (xs : List α) (a : α) (ys : List α) : Disturbed (xs ++ a :: ys) (xs ++ ys)
  | duplicate (xs : List α) (a : α) (ys : List α) : Disturbed (xs ++ a :: ys) (xs ++ a :: a :: ys)

theorem Disturbed.map (f : α → β) {q q' : List α} (h : Disturbed q q') :
    Disturbed (q.map f) (q'.map f) := by
  cases h with
  | lose xs a ys =>
    simp only [List.map_append, List.map_cons]
    exact .lose _ _ _
  | duplicate xs a ys =>
    simp only [List.map_append, List.map_cons]
    exact .duplicate _ _ _

theorem Disturbed.mem {q q' : List α} (h : Disturbed q q') {a : α} (ha : a ∈ q') : a ∈ q := by
  cases h with
  | lose xs b ys => simp only [List.mem_append, List.mem_cons] at ha ⊢; tauto
  | duplicate xs b ys => simp only [List.mem_append, List.mem_cons] at ha ⊢; tauto

theorem Disturbed.pairwise {R : α → α → Prop} (hrefl : ∀ a, R a a) {q q' : List α}
    (h : Disturbed q q') (hq : q.Pairwise R) : q'.Pairwise R := by
  cases h with
  | lose xs a ys => exact hq.sublist ((List.sublist_cons_self a ys).append_left xs)
  | duplicate xs a ys =>
    rw [List.pairwise_append, List.pairwise_cons] at hq ⊢
    obtain ⟨hxs, ⟨ha, hys⟩, hcross⟩ := hq
    refine ⟨hxs, ⟨?_, List.pairwise_cons.mpr ⟨ha, hys⟩⟩, ?_⟩
    · intro b hb
      rcases List.mem_cons.mp hb with rfl | hb
      · exact hrefl b
      · exact ha b hb
    · intro x hx b hb
      rcases List.mem_cons.mp hb with rfl | hb
      · exact hcross x hx b (by simp)
      · exact hcross x hx b hb

/-- A disturbance of images is one of what they are images of. -/
theorem Disturbed.of_map {f : α → β} {q : List α} {images : List β}
    (h : Disturbed (q.map f) images) : ∃ q', Disturbed q q' ∧ images = q'.map f := by
  generalize hq : q.map f = queue at h
  cases h with
  | lose xs b ys =>
    obtain ⟨xs', rest, rfl, rfl, hrest⟩ := List.map_eq_append_iff.mp hq
    obtain ⟨a, ys', rfl, rfl, rfl⟩ := List.map_eq_cons_iff.mp hrest
    exact ⟨xs' ++ ys', .lose xs' a ys', by simp⟩
  | duplicate xs b ys =>
    obtain ⟨xs', rest, rfl, rfl, hrest⟩ := List.map_eq_append_iff.mp hq
    obtain ⟨a, ys', rfl, rfl, rfl⟩ := List.map_eq_cons_iff.mp hrest
    exact ⟨xs' ++ a :: a :: ys', .duplicate xs' a ys', by simp⟩

/-- All numbered messages have the number `n`; messages without number are `none`. -/
def Single (n : κ) (keys : List (Option κ)) : Prop :=
  ∀ k ∈ keys, k = none ∨ k = some n

/-- The numbered messages are of two generations, and none of the old one follows one of
the new one. -/
structure Generations (old new : κ) (keys : List (Option κ)) : Prop where
  /-- There are no other numbers. -/
  member : ∀ k ∈ keys, k = none ∨ k = some old ∨ k = some new
  /-- The old numbers come first. -/
  ordered : keys.Pairwise (fun a b => a = some new → b ≠ some old)

variable {old new n : κ} {keys news : List (Option κ)}

theorem Single.nil : Single n [] := by simp [Single]

variable {keys' : List (Option κ)}

theorem Single.disturbed (h : Single n keys) (hd : Disturbed keys keys') : Single n keys' :=
  fun k hk => h k (hd.mem hk)

theorem Single.append (h : Single n keys) (hnews : Single n news) : Single n (keys ++ news) := by
  intro k hk
  rcases List.mem_append.mp hk with hk | hk
  · exact h k hk
  · exact hnews k hk

theorem Single.tail {k : Option κ} (h : Single n (k :: keys)) : Single n keys :=
  fun k' hk' => h k' (List.mem_cons_of_mem k hk')

theorem Generations.disturbed (hne : old ≠ new) (h : Generations old new keys)
    (hd : Disturbed keys keys') : Generations old new keys' where
  member := fun k hk => h.member k (hd.mem hk)
  ordered := by
    refine hd.pairwise ?_ h.ordered
    rintro a rfl heq
    exact hne (Option.some.inj heq).symm

/-- One generation is the old one of two. -/
theorem Single.generations (hne : old ≠ new) (h : Single old keys) : Generations old new keys where
  member := fun k hk => (h k hk).imp_right Or.inl
  ordered := by
    refine List.pairwise_iff_forall_sublist.mpr ?_
    rintro a b hab rfl
    rcases h (some new) (hab.subset (by simp)) with hnone | hsome
    · cases hnone
    · exact absurd (Option.some.inj hsome).symm hne

/-- Messages of the new generation join at the end. -/
theorem Generations.append (hne : old ≠ new) (h : Generations old new keys)
    (hnews : Single new news) : Generations old new (keys ++ news) where
  member := by
    intro k hk
    rcases List.mem_append.mp hk with hk | hk
    · exact h.member k hk
    · exact (hnews k hk).imp_right Or.inr
  ordered := by
    have hnot : ∀ b ∈ news, b ≠ some old := by
      rintro b hb rfl
      rcases hnews _ hb with hnone | hsome
      · cases hnone
      · exact hne (Option.some.inj hsome)
    refine List.pairwise_append.mpr ⟨h.ordered, ?_, fun _ _ b hb _ => hnot b hb⟩
    exact List.pairwise_iff_forall_sublist.mpr (fun {a b} hab _ => hnot b (hab.subset (by simp)))

theorem Generations.tail {k : Option κ} (h : Generations old new (k :: keys)) :
    Generations old new keys where
  member := fun k' hk' => h.member k' (List.mem_cons_of_mem k hk')
  ordered := (List.pairwise_cons.mp h.ordered).2

/-- Once the new generation arrives, the old one is gone. -/
theorem Generations.single (h : Generations old new (some new :: keys)) : Single new keys := by
  intro k hk
  rcases h.member k (List.mem_cons_of_mem _ hk) with hnone | hold | hnew
  · exact Or.inl hnone
  · exact absurd hold ((List.pairwise_cons.mp h.ordered).1 k hk rfl)
  · exact Or.inr hnew

/-! ### Channels behind a log -/

section Drawn

variable {Old : α → Prop} {log queue : List α} {delivered : ℕ}

/-- The messages under way are messages of a log, in the order in which they were written
and not before the ones that have arrived; in front of them there may be messages from
before the log, as long as none of the log has arrived. A message carries one more than its
position in the log, or zero. -/
def Drawn (Old : α → Prop) (log : List α) (delivered : ℕ) (queue : List α) : Prop :=
  ∃ tagged : List (ℕ × α), queue = tagged.map Prod.snd ∧
    tagged.Pairwise (fun a b => a.1 ≤ b.1) ∧
    ∀ e ∈ tagged, delivered ≤ e.1 ∧ (e.1 = 0 ∧ Old e.2 ∨ ∃ i, e.1 = i + 1 ∧ log[i]? = some e.2)

/-- A log is begun while only older messages are under way. -/
theorem Drawn.of_old (h : ∀ a ∈ queue, Old a) : Drawn Old log 0 queue := by
  refine ⟨queue.map (fun a => (0, a)), by simp [Function.comp_def], ?_, ?_⟩
  · exact List.pairwise_map.mpr (List.pairwise_of_forall (fun _ _ => Nat.le_refl 0))
  · intro e he
    obtain ⟨a, ha, rfl⟩ := List.mem_map.mp he
    exact ⟨Nat.le_refl 0, Or.inl ⟨rfl, h a ha⟩⟩

/-- Losing or repeating messages. -/
theorem Drawn.disturbed {queue' : List α} (h : Drawn Old log delivered queue)
    (hd : Disturbed queue queue') : Drawn Old log delivered queue' := by
  obtain ⟨tagged, rfl, hsorted, hall⟩ := h
  obtain ⟨tagged', hd', rfl⟩ := hd.of_map
  exact ⟨tagged', rfl, hd'.pairwise (fun e => Nat.le_refl e.1) hsorted,
    fun e he => hall e (hd'.mem he)⟩

/-- What is written to the log is sent. -/
theorem Drawn.append (h : Drawn Old log delivered queue) (hle : delivered ≤ log.length)
    (news : List α) : Drawn Old (log ++ news) delivered (queue ++ news) := by
  obtain ⟨tagged, rfl, hsorted, hall⟩ := h
  have hbound : ∀ e ∈ tagged, e.1 ≤ log.length := by
    intro e he
    rcases (hall e he).2 with ⟨hzero, -⟩ | ⟨i, hi, hget⟩
    · omega
    · have hlt := (List.getElem?_eq_some_iff.mp hget).1
      omega
  refine ⟨tagged ++ news.mapIdx (fun i a => (log.length + i + 1, a)), ?_, ?_, ?_⟩
  · rw [List.map_append]
    congr 1
    exact List.ext_getElem (by simp) (by simp)
  · refine List.pairwise_append.mpr ⟨hsorted, ?_, ?_⟩
    · rw [List.pairwise_iff_getElem]
      intro i j hi hj hij
      simp only [List.getElem_mapIdx]
      omega
    · intro a ha b hb
      obtain ⟨i, hi, rfl⟩ := List.mem_mapIdx.mp hb
      have hle := hbound a ha
      simp only
      omega
  · intro e he
    rcases List.mem_append.mp he with he | he
    · obtain ⟨hdelivered, htag⟩ := hall e he
      refine ⟨hdelivered, htag.imp_right ?_⟩
      rintro ⟨i, hi, hget⟩
      exact ⟨i, hi, by rw [List.getElem?_append_left (List.getElem?_eq_some_iff.mp hget).1, hget]⟩
    · obtain ⟨i, hi, rfl⟩ := List.mem_mapIdx.mp he
      refine ⟨by simp only; omega, Or.inr ⟨log.length + i, rfl, ?_⟩⟩
      rw [List.getElem?_append_right (by omega), Nat.add_sub_cancel_left,
        List.getElem?_eq_getElem hi]

/-- A message under way is an old one, and then none of the log has arrived, or one of the
log. -/
theorem Drawn.mem (h : Drawn Old log delivered queue) {a : α} (ha : a ∈ queue) :
    (delivered = 0 ∧ Old a) ∨ ∃ i, log[i]? = some a ∧ delivered ≤ i + 1 := by
  obtain ⟨tagged, rfl, -, hall⟩ := h
  obtain ⟨e, he, rfl⟩ := List.mem_map.mp ha
  obtain ⟨hdelivered, ⟨hzero, hold⟩ | ⟨i, hi, hget⟩⟩ := hall e he
  · exact Or.inl ⟨by omega, hold⟩
  · exact Or.inr ⟨i, hget, by omega⟩

/-- The oldest message arrives. -/
theorem Drawn.head {a : α} {rest : List α} (h : Drawn Old log delivered (a :: rest)) :
    (delivered = 0 ∧ Old a ∧ Drawn Old log delivered rest) ∨
      ∃ i, log[i]? = some a ∧ delivered ≤ i + 1 ∧ Drawn Old log (i + 1) rest := by
  obtain ⟨tagged, hqueue, hsorted, hall⟩ := h
  obtain ⟨e, tagged, rfl, rfl, rfl⟩ := List.map_eq_cons_iff.mp hqueue.symm
  obtain ⟨hfirst, hsorted⟩ := List.pairwise_cons.mp hsorted
  obtain ⟨hdelivered, ⟨hzero, hold⟩ | ⟨i, hi, hget⟩⟩ := hall e List.mem_cons_self
  · exact Or.inl ⟨by omega, hold, tagged, rfl, hsorted,
      fun e' he' => hall e' (List.mem_cons_of_mem _ he')⟩
  · refine Or.inr ⟨i, hget, by omega, tagged, rfl, hsorted, ?_⟩
    intro e' he'
    have hle := hfirst e' he'
    exact ⟨by omega, (hall e' (List.mem_cons_of_mem _ he')).2⟩

end Drawn

end LossyFifo
