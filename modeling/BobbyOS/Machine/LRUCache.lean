import Mathlib.Data.List.Basic

/-!
# The least-recently-used cache

`LRUCache<Key, T, CAPACITY>` keeps its pairs in a list from the most to the
least recently touched one; the hash map beside it only finds nodes faster.
`operator[]` moves a present key to the front, and inserts an absent one there
with a default value after evicting the last pair of a full cache.
-/

namespace Hardware

/-- `LRUCache`: the entries, the one used last in front. -/
structure LRUCache (Key T : Type) (CAPACITY : Nat) where
  storage : List (Key × T) := []

namespace LRUCache

variable {Key T : Type} {CAPACITY : Nat} [DecidableEq Key] [Inhabited T]

/-- The value stored for a key. -/
def find (c : LRUCache Key T CAPACITY) (k : Key) : Option T :=
  (c.storage.find? fun kv => kv.1 = k).map Prod.snd

/-- `operator[]`: the value for the key, which is then at the front. -/
def index (c : LRUCache Key T CAPACITY) (k : Key) : T × LRUCache Key T CAPACITY :=
  match c.find k with
  | some v => (v, { storage := (k, v) :: c.storage.filter fun kv => kv.1 ≠ k })
  | none =>
      let kept := if c.storage.length = CAPACITY then c.storage.dropLast else c.storage
      (default, { storage := (k, default) :: kept })

/-- Assignment through the reference that `operator[]` returned. -/
def assignFront (c : LRUCache Key T CAPACITY) (v : T) : LRUCache Key T CAPACITY :=
  match c.storage with
  | [] => c
  | kv :: rest => { storage := (kv.1, v) :: rest }

/-- `clear`. -/
def clear (_ : LRUCache Key T CAPACITY) : LRUCache Key T CAPACITY := {}

section

omit [Inhabited T]

/-- The pair of `k`, with the value `v`, before all the others. -/
def front (c : LRUCache Key T CAPACITY) (k : Key) (v : T) : LRUCache Key T CAPACITY :=
  { storage := (k, v) :: c.storage.filter fun kv => kv.1 ≠ k }

omit [DecidableEq Key] in
/-- A new pair in front, after the eviction from a full cache. -/
def insertFront (c : LRUCache Key T CAPACITY) (k : Key) (v : T) : LRUCache Key T CAPACITY :=
  { storage := (k, v) ::
      if c.storage.length = CAPACITY then c.storage.dropLast else c.storage }

/-- The value of `k` changed in its place. -/
def write (c : LRUCache Key T CAPACITY) (k : Key) (f : T → T) : LRUCache Key T CAPACITY :=
  { storage := c.storage.map fun kv => if kv.1 = k then (kv.1, f kv.2) else kv }

omit [DecidableEq Key] in
/-- `pop`. -/
def pop (c : LRUCache Key T CAPACITY) : LRUCache Key T CAPACITY :=
  { storage := c.storage.dropLast }

end

variable {c : LRUCache Key T CAPACITY} {k : Key}

omit [Inhabited T] in
/-- What is found is stored. -/
theorem mem_of_find {v : T} (h : c.find k = some v) : (k, v) ∈ c.storage := by
  obtain ⟨kv, hkv, rfl⟩ := Option.map_eq_some_iff.mp h
  have hk : kv.1 = k := by simpa using List.find?_some hkv
  have hmem : kv ∈ c.storage := List.mem_of_find?_eq_some hkv
  rwa [← hk]

/-- `operator[]` of a key that is held puts its entry in front. -/
theorem index_of_find {v : T} (h : c.find k = some v) : c.index k = (v, c.front k v) := by
  rw [index, h]
  rfl

/-- `operator[]` of another key makes a default entry. -/
theorem index_of_not_find (h : c.find k = none) :
    c.index k = (default, c.insertFront k default) := by
  rw [index, h]
  rfl

omit [Inhabited T] in
/-- A change of `k` does not reach the pairs of other keys. -/
theorem map_other {f : T → T} {l : List (Key × T)} (h : ∀ kv ∈ l, kv.1 ≠ k) :
    (l.map fun kv => if kv.1 = k then (kv.1, f kv.2) else kv) = l :=
  (List.map_congr_left fun kv hkv => if_neg (h kv hkv)).trans (List.map_id' _)

omit [Inhabited T] in
/-- Without its entries a key is not stored. -/
theorem filter_other {l : List (Key × T)} : ∀ kv ∈ l.filter (fun kv => kv.1 ≠ k), kv.1 ≠ k :=
  fun _ hkv => by simpa using List.of_mem_filter hkv

omit [Inhabited T] in
/-- Writing over a key that is not held does nothing. -/
theorem write_of_notMem {f : T → T} (hk : k ∉ c.storage.map Prod.fst) : c.write k f = c := by
  unfold write
  rw [map_other]
  rintro kv hkv rfl
  exact hk (List.mem_map_of_mem hkv)

omit [Inhabited T] in
/-- Writing over the front entry. -/
theorem write_front {v : T} {f : T → T} : (c.front k v).write k f = c.front k (f v) := by
  unfold write front
  dsimp only
  rw [List.map_cons, if_pos rfl, map_other filter_other]

omit [Inhabited T] in
/-- An entry that is written over and then used has the value it is used with. -/
theorem front_write {v : T} {f : T → T} : (c.write k f).front k v = c.front k v := by
  have hsame : ∀ kv : Key × T, ((fun kv => decide (kv.1 ≠ k)) ∘
      fun kv => if kv.1 = k then (kv.1, f kv.2) else kv) kv = decide (kv.1 ≠ k) := by
    intro kv
    by_cases hk : kv.1 = k <;> simp [hk]
  unfold write front
  dsimp only
  rw [List.filter_map, List.filter_congr fun kv _ => hsame kv, map_other filter_other]

omit [Inhabited T] in
/-- Writing over a new entry. -/
theorem write_insertFront {v : T} {f : T → T} (hk : k ∉ c.storage.map Prod.fst) :
    (c.insertFront k v).write k f = c.insertFront k (f v) := by
  unfold write insertFront
  dsimp only
  rw [List.map_cons, if_pos rfl, map_other]
  rintro kv hkv rfl
  refine hk (List.mem_map_of_mem ?_)
  split at hkv
  · exact List.dropLast_subset _ hkv
  · exact hkv

/-- The touched pair is at the front. -/
theorem index_front : ∃ rest, (c.index k).2.storage = (k, (c.index k).1) :: rest ∧
    ∀ kv ∈ rest, kv ∈ c.storage := by
  unfold index
  split
  · exact ⟨_, rfl, fun kv hkv => List.mem_of_mem_filter hkv⟩
  · refine ⟨_, rfl, fun kv hkv => ?_⟩
    split at hkv
    · exact (List.dropLast_subset _) hkv
    · exact hkv

omit [DecidableEq Key] [Inhabited T] in
/-- An assignment to the front entry leaves the others. -/
theorem assignFront_storage {v v' : T} {rest : List (Key × T)}
    (h : c.storage = (k, v) :: rest) : (c.assignFront v').storage = (k, v') :: rest := by
  simp only [assignFront, h]

/-- The touched pair was in the cache or is a new default entry. -/
theorem mem_or_default_of_index : (k, (c.index k).1) ∈ c.storage ∨ (c.index k).1 = default := by
  unfold index
  split
  · rename_i v hv
    exact .inl (mem_of_find hv)
  · exact .inr rfl

end LRUCache

end Hardware
