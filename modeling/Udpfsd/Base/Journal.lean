import Mathlib.Data.List.Induction

/-!
# The latest entry of a journal under a key

Entries are appended to a journal and looked up by a key that need not be unique; the
latest entry counts.
-/

namespace Journal

variable {α κ : Type*} [DecidableEq κ] {key : α → κ}

/-- The latest entry with the given key. -/
def latest (key : α → κ) (journal : List α) (k : κ) : Option α :=
  journal.reverse.find? (fun a => key a = k)

theorem latest_append_singleton (journal : List α) (a : α) (k : κ) :
    latest key (journal ++ [a]) k = if key a = k then some a else latest key journal k := by
  by_cases hk : key a = k
  · simp [latest, hk]
  · simp [latest, hk]

theorem key_of_latest {journal : List α} {k : κ} {a : α} (h : latest key journal k = some a) :
    key a = k := by
  simpa using List.find?_some h

/-- Entries that repeat the latest one, or have another key, do not change it. -/
theorem latest_append_of_repeat {journal news : List α} {k : κ} {a : α}
    (hnews : ∀ b ∈ news, key b = k → b = a) (h : latest key journal k = some a) :
    latest key (journal ++ news) k = some a := by
  induction news using List.reverseRecOn with
  | nil => simpa using h
  | append_singleton news b ih =>
    rw [← List.append_assoc, latest_append_singleton]
    by_cases hk : key b = k
    · rw [if_pos hk, hnews b (by simp) hk]
    · rw [if_neg hk]
      exact ih (fun c hc => hnews c (by simp [hc]))

end Journal
