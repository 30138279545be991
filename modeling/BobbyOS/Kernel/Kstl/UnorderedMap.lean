import BobbyOS.Kernel.ASMInterface
import BobbyOS.Lib.Buckets
import Mathlib.Data.List.Nodup

/-!
# `ministl::unordered_map`

A vector of chained buckets with a load factor of one: an insertion into a
table with as many pairs as buckets doubles the buckets first, moving the
pairs bucket by bucket, each from its back.

`WF` says that every pair is in the bucket of its key, that no key occurs
twice and that the size counts the pairs.  Up to order the pairs of a
well-formed table are what an association list would hold, and the operations
are stated that way.
-/

namespace Kernel

/-- `ministl::hash`. -/
class Hash (K : Type) where
  hash : K → Word

/-- `hash<uint32_t>`. -/
instance : Hash Word where
  hash h :=
    let h := h ^^^ (h >>> 16)
    let h := h * 0x85ebca6b#32
    let h := h ^^^ (h >>> 13)
    let h := h * 0xc2b2ae35#32
    h ^^^ (h >>> 16)

/-- `unordered_map`: the buckets with their pairs, and the size. -/
structure UnorderedMap (K V : Type) where
  buckets : List (List (K × V))
  size : Nat

namespace UnorderedMap

variable {K V : Type} [Hash K]

/-- `unordered_map(bucket_count)`. -/
def ofBucketCount (count : Nat) : UnorderedMap K V := ⟨List.replicate count [], 0⟩

/-- `unordered_map()`, with `DEFAULT_CAP` buckets. -/
def empty : UnorderedMap K V := ofBucketCount 8

/-- `hasher(key) % buckets.size()`. -/
def loc (count : Nat) (key : K) : Nat := (Hash.hash key).toNat % count

/-- The pairs in the order of iteration. -/
def entries (m : UnorderedMap K V) : List (K × V) := m.buckets.flatten

/-- The keys that are held. -/
def keys (m : UnorderedMap K V) : List K := m.entries.map Prod.fst

/-- `rehash(count)`: the pairs are popped from the back of each bucket. -/
def rehash (m : UnorderedMap K V) (count : Nat) : UnorderedMap K V :=
  if count < m.size then m
  else
    ⟨Buckets.distribute (fun kv => loc count kv.1) (List.replicate count [])
      (m.buckets.flatMap List.reverse), m.size⟩

/-- The doubling before an insertion. -/
def grow (m : UnorderedMap K V) : UnorderedMap K V :=
  if m.size = m.buckets.length then m.rehash (m.buckets.length * 2) else m

/-- `emplace(key, value)`: whether a pair was inserted. -/
def emplace [DecidableEq K] (m : UnorderedMap K V) (key : K) (value : V) :
    Except Panic (Bool × UnorderedMap K V) :=
  let m := m.grow
  match m.buckets[loc m.buckets.length key]? with
  | none => .error (.assertFailed "idx < _size")
  | some bucket =>
      if bucket.any fun kv => kv.1 = key then .ok (false, m)
      else .ok (true, ⟨Buckets.push m.buckets (loc m.buckets.length key) (key, value), m.size + 1⟩)

/-- `operator[](key)` with the value behind the reference changed by `f`;
`dflt` is `T()`. -/
def modify [DecidableEq K] (m : UnorderedMap K V) (key : K) (dflt : V) (f : V → V) :
    Except Panic (UnorderedMap K V) :=
  let m := m.grow
  match m.buckets[loc m.buckets.length key]? with
  | none => .error (.assertFailed "idx < _size")
  | some bucket =>
      if bucket.any fun kv => kv.1 = key then
        let bucket := bucket.map fun kv => if kv.1 = key then (kv.1, f kv.2) else kv
        .ok { m with buckets := m.buckets.set (loc m.buckets.length key) bucket }
      else
        .ok ⟨Buckets.push m.buckets (loc m.buckets.length key) (key, f dflt), m.size + 1⟩

/-- `find(key)`: the value, if the iterator is not `end()`. -/
def find [DecidableEq K] (m : UnorderedMap K V) (key : K) : Except Panic (Option V) :=
  match m.buckets[loc m.buckets.length key]? with
  | none => .error (.assertFailed "idx < _size")
  | some bucket => .ok ((bucket.find? fun kv => kv.1 = key).map Prod.snd)

/-! ### Well-formed tables -/

/-- Every pair is in its key's bucket, no key is there twice, and the size counts the pairs. -/
structure WF (m : UnorderedMap K V) : Prop where
  pos : 0 < m.buckets.length
  placed : Buckets.Placed (fun kv : K × V => loc m.buckets.length kv.1) m.buckets
  distinct : m.keys.Nodup
  size_eq : m.size = m.entries.length

variable {m : UnorderedMap K V} {key : K}

/-- A key has a bucket. -/
theorem loc_lt {count : Nat} (h : 0 < count) (key : K) : loc count key < count :=
  Nat.mod_lt _ h

/-- A new map is well formed. -/
theorem wf_ofBucketCount {count : Nat} (h : 0 < count) :
    (ofBucketCount count : UnorderedMap K V).WF := by
  refine ⟨by simpa [ofBucketCount] using h, Buckets.placed_replicate, ?_, ?_⟩
  · simp [keys, entries, ofBucketCount]
  · simp [entries, ofBucketCount]

omit [Hash K] in
@[simp] theorem entries_ofBucketCount {count : Nat} :
    (ofBucketCount count : UnorderedMap K V).entries = [] := by
  simp [entries, ofBucketCount]

/-- Two keys with the same value in a table are one. -/
theorem WF.unique (h : m.WF) {v w : V} (hv : (key, v) ∈ m.entries) (hw : (key, w) ∈ m.entries) :
    v = w := by
  have := List.inj_on_of_nodup_map h.distinct hv hw rfl
  exact (Prod.mk.inj this).2

/-- Reversed rows have the same items. -/
theorem flatMap_reverse_perm {α : Type*} (l : List (List α)) :
    (l.flatMap List.reverse).Perm l.flatten := by
  induction l with
  | nil => exact List.Perm.refl _
  | cons r rest ih => exact (List.reverse_perm r).append ih

/-- The doubling keeps the pairs, and makes room. -/
theorem WF.grow (h : m.WF) :
    m.grow.WF ∧ m.grow.entries.Perm m.entries := by
  rw [UnorderedMap.grow]
  split
  case isFalse => exact ⟨h, List.Perm.refl _⟩
  case isTrue hfull =>
    have hpos := h.pos
    have hlt : ¬ m.buckets.length * 2 < m.size := by omega
    rw [rehash, if_neg hlt]
    have hperm : (Buckets.distribute (fun kv : K × V => loc (m.buckets.length * 2) kv.1)
        (List.replicate (m.buckets.length * 2) []) (m.buckets.flatMap List.reverse)).flatten.Perm
        (m.buckets.flatMap List.reverse ++
          (List.replicate (m.buckets.length * 2) ([] : List (K × V))).flatten) := by
      refine Buckets.distribute_perm fun kv _ => ?_
      rw [List.length_replicate]
      exact loc_lt (by omega) _
    rw [List.flatten_replicate_nil, List.append_nil] at hperm
    replace hperm := hperm.trans (flatMap_reverse_perm m.buckets)
    refine ⟨⟨?_, ?_, ?_, ?_⟩, hperm⟩
    · rw [Buckets.length_distribute, List.length_replicate]
      omega
    · rw [Buckets.length_distribute, List.length_replicate]
      exact Buckets.placed_replicate.distribute
    · exact (hperm.map Prod.fst).nodup_iff.mpr h.distinct
    · exact h.size_eq.trans hperm.length_eq.symm

/-- Growing leaves a bucket. -/
theorem length_grow_pos (hpos : 0 < m.buckets.length) : 0 < m.grow.buckets.length := by
  rw [UnorderedMap.grow]
  split
  case isFalse => exact hpos
  case isTrue hfull =>
    rw [rehash, if_neg (by omega)]
    show 0 < List.length _
    rw [Buckets.length_distribute, List.length_replicate]
    omega

/-- The doubling leaves an empty place. -/
theorem grow_room (hpos : 0 < m.buckets.length) (hroom : m.size ≤ m.buckets.length) :
    m.grow.size < m.grow.buckets.length ∧ m.grow.size = m.size := by
  rw [UnorderedMap.grow]
  split
  case isFalse hne => exact ⟨by omega, rfl⟩
  case isTrue hfull =>
    rw [rehash, if_neg (by omega)]
    refine ⟨?_, rfl⟩
    show m.size < List.length _
    rw [Buckets.length_distribute, List.length_replicate]
    omega

/-- The bucket of a key is there. -/
theorem WF.bucket (h : m.WF) (key : K) :
    ∃ bucket, m.buckets[loc m.buckets.length key]? = some bucket :=
  ⟨_, List.getElem?_eq_getElem (loc_lt h.pos key)⟩

/-- A new pair in the bucket of its key. -/
theorem WF.push (h : m.WF) (hkey : key ∉ m.keys) (value : V) :
    (⟨Buckets.push m.buckets (loc m.buckets.length key) (key, value), m.size + 1⟩ :
      UnorderedMap K V).WF ∧
    (⟨Buckets.push m.buckets (loc m.buckets.length key) (key, value), m.size + 1⟩ :
      UnorderedMap K V).entries.Perm ((key, value) :: m.entries) := by
  have hperm := Buckets.push_perm (a := (key, value)) (loc_lt h.pos key)
  refine ⟨⟨?_, ?_, ?_, ?_⟩, hperm⟩
  · rw [Buckets.length_push]
    exact h.pos
  · rw [Buckets.length_push]
    exact h.placed.push
  · exact (hperm.map Prod.fst).nodup_iff.mpr (List.nodup_cons.mpr ⟨hkey, h.distinct⟩)
  · exact (congrArg (· + 1) h.size_eq).trans hperm.length_eq.symm

section Lookup

variable [DecidableEq K]

/-- The bucket of a key tells whether the key is in the table. -/
theorem WF.any_bucket (h : m.WF) {bucket : List (K × V)}
    (hb : m.buckets[loc m.buckets.length key]? = some bucket) :
    (bucket.any fun kv => kv.1 = key) = true ↔ key ∈ m.keys := by
  rw [List.any_eq_true, keys, List.mem_map]
  constructor
  · rintro ⟨⟨k, v⟩, hmem, hk⟩
    obtain rfl : k = key := by simpa using hk
    exact ⟨(k, v), (h.placed.mem_flatten_iff hb).mpr hmem, rfl⟩
  · rintro ⟨⟨k, v⟩, hmem, rfl⟩
    exact ⟨(k, v), (h.placed.mem_flatten_iff hb).mp hmem, by simp⟩

/-- **Emplace.**  A new key is inserted, an old one is refused. -/
theorem WF.emplace (h : m.WF) (key : K) (value : V) :
    ∃ m', m.emplace key value = .ok (decide (key ∉ m.keys), m') ∧ m'.WF ∧
      m'.entries.Perm (if key ∉ m.keys then (key, value) :: m.entries else m.entries) := by
  obtain ⟨hgrow, hperm⟩ := h.grow
  obtain ⟨bucket, hb⟩ := hgrow.bucket key
  have hany := hgrow.any_bucket hb
  have hkeys : key ∈ m.grow.keys ↔ key ∈ m.keys := (hperm.map Prod.fst).mem_iff
  rw [hkeys] at hany
  rw [UnorderedMap.emplace, hb]
  by_cases hkey : key ∈ m.keys
  · refine ⟨m.grow, ?_, hgrow, ?_⟩
    · simp only [if_pos (hany.mpr hkey), hkey, not_true_eq_false, decide_false]
    · simpa [hkey] using hperm
  · obtain ⟨hwf, hpush⟩ := hgrow.push (mt hkeys.mp hkey) value
    refine ⟨_, ?_, hwf, ?_⟩
    · simp only [if_neg (mt hany.mp hkey), hkey, not_false_eq_true, decide_true]
    · rw [if_pos hkey]
      exact hpush.trans (hperm.cons _)

/-- **Subscript.**  A new key starts from the default value. -/
theorem WF.modify (h : m.WF) (hkey : key ∉ m.keys) (dflt : V) (f : V → V) :
    ∃ m', m.modify key dflt f = .ok m' ∧ m'.WF ∧
      m'.entries.Perm ((key, f dflt) :: m.entries) := by
  obtain ⟨hgrow, hperm⟩ := h.grow
  obtain ⟨bucket, hb⟩ := hgrow.bucket key
  have hkeys : key ∈ m.grow.keys ↔ key ∈ m.keys := (hperm.map Prod.fst).mem_iff
  have hany : ¬ (bucket.any fun kv => kv.1 = key) = true := by
    rw [hgrow.any_bucket hb, hkeys]
    exact hkey
  obtain ⟨hwf, hpush⟩ := hgrow.push (mt hkeys.mp hkey) (f dflt)
  refine ⟨_, ?_, hwf, hpush.trans (hperm.cons _)⟩
  rw [UnorderedMap.modify, hb]
  simp only [if_neg hany]

/-- A pair after the value of `key` was changed by `f`. -/
def changed (key : K) (f : V → V) (kv : K × V) : K × V :=
  if kv.1 = key then (kv.1, f kv.2) else kv

omit [Hash K] in
/-- A changed pair keeps its key. -/
theorem changed_fst {f : V → V} {kv : K × V} : (changed key f kv).1 = kv.1 := by
  unfold changed
  split <;> rfl

/-- **Subscript of a known key.**  Only its own value changes. -/
theorem WF.modify_mem (h : m.WF) (hkey : key ∈ m.keys) (dflt : V) (f : V → V) :
    ∃ m', m.modify key dflt f = .ok m' ∧ m'.WF ∧
      m'.entries.Perm (m.entries.map (changed key f)) := by
  obtain ⟨hgrow, hperm⟩ := h.grow
  obtain ⟨bucket, hb⟩ := hgrow.bucket key
  have hany : (bucket.any fun kv => kv.1 = key) = true := by
    rw [hgrow.any_bucket hb]
    exact (hperm.map Prod.fst).mem_iff.mpr hkey
  -- the key is in one bucket only, so the change reaches all pairs with the key
  have hset : m.grow.buckets.set (loc m.grow.buckets.length key) (bucket.map (changed key f)) =
      m.grow.buckets.map (List.map (changed key f)) := by
    refine List.ext_getElem? fun i => ?_
    rw [List.getElem?_set, List.getElem?_map]
    by_cases hi : loc m.grow.buckets.length key = i
    · rw [if_pos hi, if_pos (loc_lt hgrow.pos key), ← hi, hb]
      rfl
    · rw [if_neg hi]
      cases hrow : m.grow.buckets[i]? with
      | none => rfl
      | some row =>
          have hother : ∀ kv ∈ row, changed key f kv = kv := by
            intro kv hkv
            refine if_neg ?_
            rintro rfl
            exact hi (hgrow.placed i row hrow kv hkv)
          rw [Option.map_some, List.map_congr_left hother, List.map_id']
  refine ⟨⟨m.grow.buckets.map (List.map (changed key f)), m.grow.size⟩, ?_,
    ⟨?_, ?_, ?_, ?_⟩, ?_⟩
  · rw [UnorderedMap.modify, hb]
    simp only [if_pos hany]
    exact congrArg (fun bs => Except.ok (UnorderedMap.mk bs m.grow.size)) hset
  · rw [List.length_map]
    exact hgrow.pos
  · intro i row hrow kv hkv
    rw [List.getElem?_map] at hrow
    obtain ⟨old, hold, rfl⟩ := Option.map_eq_some_iff.mp hrow
    obtain ⟨kv', hkv', rfl⟩ := List.mem_map.mp hkv
    dsimp only
    rw [List.length_map, changed_fst]
    exact hgrow.placed i old hold kv' hkv'
  · rw [keys, entries, ← List.map_flatten, List.map_map,
      show Prod.fst ∘ changed key f = Prod.fst from funext fun _ => changed_fst]
    exact hgrow.distinct
  · rw [entries, ← List.map_flatten, List.length_map]
    exact hgrow.size_eq
  · rw [entries, ← List.map_flatten]
    exact hperm.map _

/-- **Find.**  The value of a key, if it has one. -/
theorem WF.find (h : m.WF) (key : K) :
    ∃ o, m.find key = .ok o ∧ ∀ v, o = some v ↔ (key, v) ∈ m.entries := by
  obtain ⟨bucket, hb⟩ := h.bucket key
  refine ⟨_, by rw [UnorderedMap.find, hb], fun v => ?_⟩
  have hmem : ∀ w, (key, w) ∈ m.entries ↔ (key, w) ∈ bucket := fun w =>
    h.placed.mem_flatten_iff hb
  rw [Option.map_eq_some_iff, hmem]
  constructor
  · rintro ⟨⟨k, w⟩, hfind, rfl⟩
    obtain rfl : k = key := by simpa using List.find?_some hfind
    exact List.mem_of_find?_eq_some hfind
  · intro hv
    obtain ⟨⟨k, w⟩, hfind⟩ : ∃ kv, (bucket.find? fun kv => kv.1 = key) = some kv :=
      Option.isSome_iff_exists.mp (List.find?_isSome.mpr ⟨(key, v), hv, by simp⟩)
    obtain rfl : k = key := by simpa using List.find?_some hfind
    have hw := (hmem w).mpr (List.mem_of_find?_eq_some hfind)
    exact ⟨(k, w), hfind, h.unique hw ((hmem v).mpr hv)⟩

/-- An insertion leaves at least as many buckets as pairs. -/
theorem emplace_room {b : Bool} {m' : UnorderedMap K V} {value : V}
    (h : m.emplace key value = .ok (b, m')) (hpos : 0 < m.buckets.length)
    (hroom : m.size ≤ m.buckets.length) : m'.size ≤ m'.buckets.length := by
  obtain ⟨hlt, -⟩ := grow_room hpos hroom
  unfold UnorderedMap.emplace at h
  dsimp only at h
  cases hb : m.grow.buckets[loc m.grow.buckets.length key]? with
  | none =>
      rw [hb] at h
      cases h
  | some bucket =>
      rw [hb] at h
      dsimp only at h
      split at h
      · obtain ⟨-, rfl⟩ := Prod.mk.inj (Except.ok.inj h)
        exact Nat.le_of_lt hlt
      · obtain ⟨-, rfl⟩ := Prod.mk.inj (Except.ok.inj h)
        show m.grow.size + 1 ≤ List.length _
        rw [Buckets.length_push]
        exact hlt

/-- A modification leaves as many buckets as pairs. -/
theorem modify_room {m' : UnorderedMap K V} {dflt : V} {f : V → V}
    (h : m.modify key dflt f = .ok m') (hpos : 0 < m.buckets.length)
    (hroom : m.size ≤ m.buckets.length) : m'.size ≤ m'.buckets.length := by
  obtain ⟨hlt, -⟩ := grow_room hpos hroom
  unfold UnorderedMap.modify at h
  dsimp only at h
  cases hb : m.grow.buckets[loc m.grow.buckets.length key]? with
  | none =>
      rw [hb] at h
      cases h
  | some bucket =>
      rw [hb] at h
      dsimp only at h
      split at h
      · obtain rfl := Except.ok.inj h
        show m.grow.size ≤ List.length _
        rw [List.length_set]
        exact Nat.le_of_lt hlt
      · obtain rfl := Except.ok.inj h
        show m.grow.size + 1 ≤ List.length _
        rw [Buckets.length_push]
        exact hlt

end Lookup

end UnorderedMap

end Kernel
