import Mathlib.Data.Finset.Card
import Udpfsd.Base.Recency
import Udpfsd.Fs.FlatFile
import Udpfsd.Fs.Table

/-!
# The block cache by recency of use

`get` moves an index to the end of the order and `put` makes room at its front, over a map
and a list that are kept apart. After any calls of `getBlock` the list is the end of the
order of last uses and the map has its keys; calls that fail do not count as uses.
-/

namespace Udpfsd.Fs

open Udpfs (Error Fault)
open Recency (age latest)

namespace BlockCache

variable {n : ℕ} {uses : List ℤ} {c : BlockCache} {idx : ℤ} {b : Block}

/-- The cache has room for `n + 1` blocks and holds those used last. -/
structure HoldsLatest (n : ℕ) (uses : List ℤ) (c : BlockCache) : Prop where
  /-- The capacity. -/
  max : c.max = n + 1
  /-- The order. -/
  order : c.order = latest (n + 1) uses
  /-- The map has the keys of the order. -/
  keys : c.data.keys.Perm c.order

theorem holdsLatest_new (n : ℕ) : HoldsLatest n [] (.new (n + 1)) :=
  ⟨rfl, (Recency.latest_nil _).symm, List.Perm.refl []⟩

theorem HoldsLatest.mem (hc : HoldsLatest n uses c) : idx ∈ c.order ↔ idx ∈ c.data :=
  hc.keys.mem_iff.symm

theorem HoldsLatest.length (hc : HoldsLatest n uses c) :
    c.data.entries.length = min (n + 1) uses.dedup.length := by
  have hkeys : c.data.keys.length = c.data.entries.length := List.length_map _
  rw [← hkeys, hc.keys.length_eq, hc.order, Recency.length_latest]

/-- Making room keeps the end of the order and the map with the same keys. -/
theorem evict_spec {data : AList (fun _ : ℤ => Block)} {order : List ℤ}
    (hkeys : data.keys.Perm order) :
    (evict (n + 1) data order).2 = order.rtake n ∧
      (evict (n + 1) data order).1.keys.Perm (order.rtake n) := by
  have hlength : data.entries.length = order.length := by
    rw [← hkeys.length_eq]
    exact (List.length_map _).symm
  induction order generalizing data with
  | nil => exact ⟨(List.rtake_nil _).symm, by rw [List.rtake_nil]; exact hkeys⟩
  | cons first rest ih =>
    rw [List.length_cons] at hlength
    rw [evict]
    split_ifs with hfull
    · have hrest : (data.erase first).keys.Perm rest := by
        rw [AList.keys_erase]
        simpa using hkeys.erase first
      have hlen : (data.erase first).entries.length = rest.length := by
        rw [← hrest.length_eq]
        exact (List.length_map _).symm
      have hkept : (first :: rest).rtake n = rest.rtake n := by
        rw [← List.singleton_append, Recency.rtake_append_of_le_length _ (by omega)]
      rw [hkept]
      exact ih hrest hlen
    · have hkept : (first :: rest).rtake n = first :: rest :=
        Recency.rtake_of_length_le (by rw [List.length_cons]; omega)
      rw [hkept]
      exact ⟨rfl, hkeys⟩

/-- A hit is a use of its index. -/
theorem HoldsLatest.get (hc : HoldsLatest n uses c) (hhit : idx ∈ c.data) :
    HoldsLatest n (uses ++ [idx]) (c.get idx).2 := by
  have hmem : idx ∈ c.order := hc.mem.mpr hhit
  have hget : (c.get idx).2 = { c with order := c.order.erase idx ++ [idx] } := by
    obtain ⟨b, hb⟩ := Option.isSome_iff_exists.mp (AList.lookup_isSome.mpr hhit)
    unfold BlockCache.get
    rw [hb]
    simp only
    rw [if_pos hmem]
  have hkeys : c.data.keys.Perm (c.order.erase idx ++ [idx]) :=
    (hc.keys.trans (List.perm_cons_erase hmem)).trans (List.perm_append_singleton idx _).symm
  have horder := hc.order
  rw [horder] at hmem
  rw [hget]
  refine ⟨hc.max, ?_, hkeys⟩
  rw [Recency.latest_concat_of_mem hmem, ← horder]

/-- A block that is put after a miss is a use of its index. -/
theorem HoldsLatest.put (hc : HoldsLatest n uses c) (hmiss : idx ∉ c.data) :
    HoldsLatest n (uses ++ [idx]) (c.put idx b) := by
  obtain ⟨horder, hkeys⟩ := evict_spec (n := n) hc.keys
  have hnot : idx ∉ c.order := fun hmem => hmiss (hc.mem.mp hmem)
  have hout : idx ∉ c.order.rtake n := fun hmem => hnot ((List.drop_sublist _ _).subset hmem)
  have hput : c.put idx b = { c with
      data := (evict (n + 1) c.data c.order).1.insert idx b
      order := c.order.rtake n ++ [idx] } := by
    unfold BlockCache.put
    rw [hc.max, ← horder]
  rw [hput]
  refine ⟨hc.max, ?_, ?_⟩
  · rw [hc.order] at hnot
    change c.order.rtake n ++ [idx] = _
    rw [Recency.latest_concat_of_notMem hnot, hc.order]
  · change ((evict (n + 1) c.data c.order).1.insert idx b).keys.Perm _
    rw [AList.keys_insert, List.erase_of_not_mem (fun hmem => hout (hkeys.mem_iff.mp hmem))]
    exact (hkeys.cons idx).trans (List.perm_append_singleton idx _).symm

/-- What a cache of `max` blocks holds under the least-recently-used policy after these uses. -/
structure ExactLru (max : ℤ) (uses : List ℤ) (c : BlockCache) : Prop where
  /-- No index is listed twice. -/
  nodup : c.order.Nodup
  /-- The order lists the keys of the map. -/
  keys : ∀ i, i ∈ c.order ↔ i ∈ c.data
  /-- There is room for what is held. -/
  room : (c.data.entries.length : ℤ) ≤ max
  /-- The order is that of the last uses. -/
  recency : c.order.Pairwise fun i j => age uses j < age uses i
  /-- Nothing is held that has not been used. -/
  used : ∀ i ∈ c.order, i ∈ uses
  /-- All that has been used is held as long as there is room. -/
  count : (c.data.entries.length : ℤ) = min max uses.toFinset.card
  /-- What is held has been used after what is not. -/
  mostRecent : ∀ i ∈ c.order, ∀ j ∈ uses, j ∉ c.order → age uses i < age uses j

theorem HoldsLatest.exactLru (hc : HoldsLatest n uses c) : ExactLru (n + 1) uses c where
  nodup := hc.order ▸ Recency.nodup_latest _ _
  keys _ := hc.mem
  room := by rw [hc.length]; omega
  recency := hc.order ▸ Recency.pairwise_latest _ _
  used i hi := Recency.mem_of_mem_latest (hc.order ▸ hi)
  count := by rw [hc.length, List.card_toFinset]; omega
  mostRecent i hi j hj hnot :=
    Recency.age_lt_of_notMem_latest (hc.order ▸ hi) hj (hc.order ▸ hnot)

/-- The least recently used index of those that are held. -/
def LeastRecent (uses : List ℤ) (c : BlockCache) (j : ℤ) : Prop :=
  c.order.head? = some j ∧ ∀ i ∈ c.data, i ≠ j → age uses i < age uses j

/-- An index that one more use drops is the least recently used one. -/
theorem HoldsLatest.dropped {c' : BlockCache} {j : ℤ} (hc : HoldsLatest n uses c)
    (hc' : HoldsLatest n (uses ++ [idx]) c') (hj : j ∈ c.data) (hnot : j ∉ c'.data) :
    LeastRecent uses c j := by
  have hrecency := hc.exactLru.recency
  have hj' := hc.mem.mpr hj
  have hnot' := mt hc'.mem.mp hnot
  rw [hc.order] at hj' hrecency
  rw [hc'.order] at hnot'
  obtain ⟨rest, hlatest⟩ := Recency.latest_eq_cons_of_dropped hj' hnot'
  refine ⟨by rw [hc.order, hlatest]; rfl, ?_⟩
  intro i hi hne
  have hi' := hc.mem.mpr hi
  rw [hc.order, hlatest, List.mem_cons] at hi'
  rw [hlatest, List.pairwise_cons] at hrecency
  exact hrecency.1 i (hi'.resolve_left hne)

end BlockCache

namespace CachedReader

variable {η ρ : Type} {R : BlockReader η ρ} {n : ℕ} {max : ℤ} {uses : List ℤ}
  {c c' : CachedReader ρ} {idx : ℤ} {h h' : η} {r : Except Error Block}

/-- What `getBlock` does to the cache: a hit, a miss that fails, a miss that fills. -/
theorem getBlock_cases (heq : c.getBlock R idx h = .ok (r, c', h')) :
    (∃ b, r = .ok b ∧ idx ∈ c.cache.data ∧ c'.cache = (c.cache.get idx).2) ∨
    (∃ e, r = .error e ∧ idx ∉ c.cache.data ∧ c'.cache = c.cache) ∨
    (∃ b, r = .ok b ∧ idx ∉ c.cache.data ∧ c'.cache = c.cache.put idx b) := by
  unfold CachedReader.getBlock at heq
  cases hlookup : c.cache.data.lookup idx with
  | some b =>
    have hget : c.cache.get idx = (some b, (c.cache.get idx).2) := by
      unfold BlockCache.get
      rw [hlookup]
    rw [hget] at heq
    cases heq
    exact .inl ⟨b, rfl, AList.lookup_isSome.mp (by rw [hlookup]; rfl), rfl⟩
  | none =>
    have hget : c.cache.get idx = (none, c.cache) := by
      unfold BlockCache.get
      rw [hlookup]
    have hnot : idx ∉ c.cache.data := AList.lookup_eq_none.mp hlookup
    rw [hget] at heq
    obtain ⟨⟨r', br, h''⟩, -, hrest⟩ := Fallible.bind_eq_ok.mp heq
    cases r' with
    | error e =>
      cases hrest
      exact .inr (.inl ⟨e, rfl, hnot, rfl⟩)
    | ok b =>
      cases hrest
      exact .inr (.inr ⟨b, rfl, hnot, rfl⟩)

/-- The reader has been fresh, with an empty cache of `max` blocks, and `getBlock` has been
called on it any number of times, at any hosts: successfully for `uses`, in this order, and
without success between them. Reads and seeks move its position meanwhile. -/
inductive Fetched (R : BlockReader η ρ) (max : ℤ) : List ℤ → CachedReader ρ → Prop
  | fresh {c : CachedReader ρ} : c.cache = .new max → Fetched R max [] c
  | got {uses : List ℤ} {c c' : CachedReader ρ} {b : Block} {h' : η} (idx : ℤ) (h : η) :
      Fetched R max uses c → c.getBlock R idx h = .ok (.ok b, c', h') →
      Fetched R max (uses ++ [idx]) c'
  | failed {uses : List ℤ} {c c' : CachedReader ρ} {err : Error} {h' : η} (idx : ℤ) (h : η) :
      Fetched R max uses c → c.getBlock R idx h = .ok (.error err, c', h') →
      Fetched R max uses c'
  | moved {uses : List ℤ} {c : CachedReader ρ} (pos : ℤ) :
      Fetched R max uses c → Fetched R max uses { c with pos := pos }

theorem getBlock_ok_holdsLatest {b : Block} (hc : c.cache.HoldsLatest n uses)
    (heq : c.getBlock R idx h = .ok (.ok b, c', h')) :
    c'.cache.HoldsLatest n (uses ++ [idx]) := by
  rcases getBlock_cases heq with ⟨b', -, hhit, hcache⟩ | ⟨e, herr, -⟩ | ⟨b', -, hmiss, hcache⟩
  · rw [hcache]
    exact hc.get hhit
  · cases herr
  · rw [hcache]
    exact hc.put hmiss

/-- A call that fails leaves the cache as it is. -/
theorem getBlock_error_cache {e : Error} (heq : c.getBlock R idx h = .ok (.error e, c', h')) :
    c'.cache = c.cache := by
  rcases getBlock_cases heq with ⟨b, herr, -⟩ | ⟨e', -, -, hcache⟩ | ⟨b, herr, -⟩
  · cases herr
  · exact hcache
  · cases herr

/-- The run lemma: whatever calls there have been, the cache holds the blocks used last. -/
theorem Fetched.holdsLatest (hc : Fetched R (n + 1) uses c) : c.cache.HoldsLatest n uses := by
  induction hc with
  | fresh hnew => rw [hnew]; exact BlockCache.holdsLatest_new n
  | got _ _ _ heq ih => exact getBlock_ok_holdsLatest ih heq
  | failed _ _ _ heq ih => rw [getBlock_error_cache heq]; exact ih
  | moved pos _ ih => exact ih

/-- The block cache is an exact cache of the least-recently-used kind, for every capacity and
after every sequence of calls of `getBlock`; a call drops at most the least recently used
block, and nothing if it fails. -/
theorem fetched_cache_exactLru (R : BlockReader η ρ) (max : ℤ) (hmax : 1 ≤ max) (uses : List ℤ)
    (c : CachedReader ρ) (hc : Fetched R max uses c) :
    c.cache.ExactLru max uses ∧
      ∀ idx h r c' h', c.getBlock R idx h = .ok (r, c', h') →
        (∀ j, j ∈ c.cache.data → j ∉ c'.cache.data → c.cache.LeastRecent uses j) ∧
        (∀ e, r = .error e → c'.cache = c.cache) := by
  obtain ⟨n, rfl⟩ : ∃ n : ℕ, max = n + 1 := ⟨(max - 1).toNat, by omega⟩
  have hlatest := hc.holdsLatest
  refine ⟨hlatest.exactLru, ?_⟩
  intro idx h r c' h' heq
  cases r with
  | ok b =>
    refine ⟨fun j hj hnot => ?_, fun e he => by cases he⟩
    exact hlatest.dropped (getBlock_ok_holdsLatest hlatest heq) hj hnot
  | error e =>
    have hcache := getBlock_error_cache heq
    refine ⟨fun j hj hnot => ?_, fun _ _ => hcache⟩
    rw [hcache] at hnot
    exact absurd hj hnot

end CachedReader

/-- A decoder of empty blocks that fails for negative indices. -/
def BlockReader.ofNonneg : BlockReader Unit Unit where
  readBlock _ blockIdx _ := .ok (if blockIdx < 0 then .error .other else .ok ⟨[], []⟩, (), ())
  blockSize _ := 1
  numBlocks _ := 0
  uncompressedSize _ := 0
  close _ _ := ()

/-- With room for two blocks, after the blocks 0, 1 and 0 and a failed call, fetching block 2
drops block 1. -/
theorem CachedReader.fetched_cache_exactLru_of_two_blocks :
    ∃ c c' : CachedReader Unit, Fetched .ofNonneg 2 [0, 1, 0] c ∧
      c.getBlock .ofNonneg 2 () = .ok (.ok ⟨[], []⟩, c', ()) ∧ c.cache.order = [1, 0] ∧
      c'.cache.order = [0, 2] ∧ c.cache.ExactLru 2 [0, 1, 0] ∧ c.cache.LeastRecent [0, 1, 0] 1 := by
  have h₀ : Fetched .ofNonneg 2 [] (newCachedReader .ofNonneg () 2 .zero) := .fresh rfl
  have h₁ : Fetched .ofNonneg 2 [0] _ := h₀.got 0 () rfl
  have h₂ : Fetched .ofNonneg 2 [0, 1] _ := h₁.got 1 () rfl
  have h₃ : Fetched .ofNonneg 2 [0, 1] _ := h₂.failed (-1) () rfl
  have h₄ : Fetched .ofNonneg 2 [0, 1, 0] _ := h₃.got 0 () rfl
  obtain ⟨hlru, hstep⟩ := fetched_cache_exactLru .ofNonneg 2 (by decide) _ _ h₄
  exact ⟨_, _, h₄, rfl, rfl, rfl, hlru, (hstep 2 () _ _ () rfl).1 1 (by decide) (by decide)⟩

end Udpfsd.Fs
