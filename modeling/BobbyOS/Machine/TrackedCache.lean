import BobbyOS.Lib.Associative
import BobbyOS.Lib.Recency
import BobbyOS.Lib.Result
import BobbyOS.Machine.LRUCache
import Mathlib.Data.List.AList

/-!
# The cache and its tracker

`LRUCache` with both of its containers: `storage` is a list of nodes, and `tracker`
maps each key to the iterator of its node.  An iterator is the number of a node; one
whose node is gone is dangling, and any use of it is an error here.

* `Linked`: the tracker leads every key to its own node.
* `Linked.index`, `Linked.emplace`, `Linked.atTouch`, `Linked.pop`: the operations keep
  that, use no dangling iterator, and do what they do on the list of pairs alone.
-/

namespace Hardware

/-- Exceptions, and what has no defined behaviour. -/
inductive CacheError
  | outOfRange (what : String)
  | lengthError (what : String)
  | dangling
  | noElement
deriving DecidableEq

/-- `LRUCache` as it is laid out: a list of nodes, and a map from the keys to them. -/
structure TrackedCache (Key T : Type) (CAPACITY : Nat) where
  storage : List (Nat × (Key × T)) := []
  tracker : AList fun _ : Key => Nat := ∅
  /-- The number of the next node. -/
  fresh : Nat := 0

namespace TrackedCache

variable {Key T : Type} {CAPACITY : Nat} [DecidableEq Key]

omit [DecidableEq Key] in
/-- `empty`. -/
def empty (c : TrackedCache Key T CAPACITY) : Bool := c.storage.isEmpty

omit [DecidableEq Key] in
/-- `size`. -/
def size (c : TrackedCache Key T CAPACITY) : Nat := c.storage.length

/-- `clear`. -/
def clear (c : TrackedCache Key T CAPACITY) : TrackedCache Key T CAPACITY :=
  { c with tracker := ∅, storage := [] }

/-! ### Nodes -/

/-- `storage.splice(storage.begin(), storage, node)`. -/
def touch (c : TrackedCache Key T CAPACITY) (node : Nat) :
    Except CacheError (TrackedCache Key T CAPACITY) :=
  match c.storage.find? (·.1 = node) with
  | none => .error .dangling
  | some n => .ok { c with storage := n :: c.storage.filter (·.1 ≠ node) }

/-- `node->second`. -/
def deref (c : TrackedCache Key T CAPACITY) (node : Nat) : Except CacheError T :=
  match c.storage.find? (·.1 = node) with
  | none => .error .dangling
  | some n => .ok n.2.2

/-- `node->second` is changed by `f`. -/
def assign (c : TrackedCache Key T CAPACITY) (node : Nat) (f : T → T) :
    Except CacheError (TrackedCache Key T CAPACITY) :=
  match c.storage.find? (·.1 = node) with
  | none => .error .dangling
  | some _ => .ok { c with storage := c.storage.map fun n =>
      if n.1 = node then (n.1, (n.2.1, f n.2.2)) else n }

/-- `tracker.erase(storage.back().first)` and `storage.pop_back()`. -/
def dropBack (c : TrackedCache Key T CAPACITY) :
    Except CacheError (TrackedCache Key T CAPACITY) :=
  match c.storage.getLast? with
  | none => .error .noElement
  | some kv => .ok { c with tracker := c.tracker.erase kv.2.1, storage := c.storage.dropLast }

/-- The eviction before an insertion: `tracker.size() == CAPACITY`. -/
def makeRoom (c : TrackedCache Key T CAPACITY) :
    Except CacheError (TrackedCache Key T CAPACITY) :=
  if c.tracker.keys.length = CAPACITY then c.dropBack else .ok c

/-- `storage.emplace_front(k, v)` and `tracker[storage.front().first] = storage.begin()`. -/
def pushFront (c : TrackedCache Key T CAPACITY) (k : Key) (v : T) :
    TrackedCache Key T CAPACITY :=
  { storage := (c.fresh, (k, v)) :: c.storage
    tracker := c.tracker.insert k c.fresh
    fresh := c.fresh + 1 }

/-! ### Operations -/

/-- `emplace(k, args...)`, with the value that the arguments make. -/
def emplace (c : TrackedCache Key T CAPACITY) (k : Key) (v : T) :
    Except CacheError ((Option Nat × Bool) × TrackedCache Key T CAPACITY) :=
  match c.tracker.lookup k with
  | some node => do
      let c ← c.assign node fun _ => v
      let c ← c.touch node
      return ((some node, false), c)
  | none =>
      if CAPACITY = 0 then .ok ((none, false), c)
      else do
        let c ← c.makeRoom
        return ((some c.fresh, true), c.pushFront k v)

/-- `operator[]`: the node whose value the reference is. -/
def index [Inhabited T] (c : TrackedCache Key T CAPACITY) (k : Key) :
    Except CacheError (Nat × TrackedCache Key T CAPACITY) :=
  match c.tracker.lookup k with
  | some node => do
      let c ← c.touch node
      return (node, c)
  | none =>
      if CAPACITY = 0 then .error (.lengthError "LRUCache capacity is zero")
      else do
        let c ← c.makeRoom
        return (c.fresh, c.pushFront k default)

/-- `at`, of a cache that may change. -/
def atTouch (c : TrackedCache Key T CAPACITY) (k : Key) :
    Except CacheError (Nat × TrackedCache Key T CAPACITY) :=
  match c.tracker.lookup k with
  | none => .error (.outOfRange "LRUCache::at: key not found")
  | some node => do
      let c ← c.touch node
      return (node, c)

/-- `at`, of a constant cache. -/
def atConst (c : TrackedCache Key T CAPACITY) (k : Key) : Except CacheError T :=
  match c.tracker.lookup k with
  | none => .error (.outOfRange "LRUCache::at: key not found")
  | some node => c.deref node

/-- `find`: the iterator, or `end()`. -/
def find (c : TrackedCache Key T CAPACITY) (k : Key) : Option Nat := c.tracker.lookup k

/-- `contains`. -/
def contains (c : TrackedCache Key T CAPACITY) (k : Key) : Bool := (c.tracker.lookup k).isSome

/-- `pop`. -/
def pop (c : TrackedCache Key T CAPACITY) : Except CacheError (TrackedCache Key T CAPACITY) :=
  if c.empty then .ok c else c.dropBack

/-! ### The tracker and the nodes -/

/-- The pairs without their nodes. -/
def plain (c : TrackedCache Key T CAPACITY) : LRUCache Key T CAPACITY := ⟨c.storage.map Prod.snd⟩

/-- The tracker leads every key of the storage, and no other, to the node of the key. -/
structure Linked (c : TrackedCache Key T CAPACITY) : Prop where
  tracked : ∀ k node, c.tracker.lookup k = some node ↔ ∃ v, (node, (k, v)) ∈ c.storage
  keys : (c.storage.map (·.2.1)).Nodup
  nodes : (c.storage.map Prod.fst).Nodup
  below : ∀ n ∈ c.storage, n.1 < c.fresh

variable {c c' : TrackedCache Key T CAPACITY} {k : Key} {v : T} {node : Nat}

/-- A new cache is linked. -/
theorem linked_empty : ({} : TrackedCache Key T CAPACITY).Linked := by
  refine ⟨fun k node => ?_, List.nodup_nil, List.nodup_nil, fun n hn => ?_⟩
  · rw [AList.lookup_empty]
    simp
  · cases hn

/-- A cleared one is. -/
theorem Linked.clear : c.clear.Linked := by
  refine ⟨fun k node => ?_, List.nodup_nil, List.nodup_nil, fun n hn => ?_⟩
  · rw [TrackedCache.clear, AList.lookup_empty]
    simp
  · cases hn

/-- The order of the nodes does not matter to the tracker. -/
theorem Linked.perm (h : c.Linked) {storage : List (Nat × (Key × T))}
    (hperm : storage.Perm c.storage) : ({ c with storage } : TrackedCache Key T CAPACITY).Linked :=
  ⟨fun k node => (h.tracked k node).trans (exists_congr fun _ => hperm.mem_iff.symm),
    (hperm.map _).nodup_iff.mpr h.keys, (hperm.map _).nodup_iff.mpr h.nodes,
    fun n hn => h.below n (hperm.subset hn)⟩

/-- The tracker counts the nodes. -/
theorem Linked.count (h : c.Linked) : c.tracker.keys.length = c.storage.length := by
  have hperm : c.tracker.keys.Perm (c.storage.map (·.2.1)) := by
    refine (List.perm_ext_iff_of_nodup c.tracker.keys_nodup h.keys).mpr fun k => ?_
    rw [← AList.mem_keys, ← AList.lookup_isSome, Option.isSome_iff_exists, List.mem_map]
    constructor
    · rintro ⟨node, hnode⟩
      obtain ⟨v, hv⟩ := (h.tracked k node).mp hnode
      exact ⟨_, hv, rfl⟩
    · rintro ⟨⟨node, k, v⟩, hmem, rfl⟩
      exact ⟨node, (h.tracked k node).mpr ⟨v, hmem⟩⟩
  rw [hperm.length_eq, List.length_map]

/-- A node is that of its key. -/
theorem Linked.node_iff (h : c.Linked) (hmem : (node, (k, v)) ∈ c.storage) :
    ∀ n ∈ c.storage, n.1 = node ↔ n.2.1 = k := by
  intro n hn
  constructor
  · intro heq
    rw [List.inj_on_of_nodup_map h.nodes hn hmem heq]
  · intro heq
    rw [List.inj_on_of_nodup_map h.keys hn hmem heq]

/-- A node is found by its number. -/
theorem Linked.find_node (h : c.Linked) (hmem : (node, (k, v)) ∈ c.storage) :
    c.storage.find? (·.1 = node) = some (node, (k, v)) :=
  Associative.find?_of_nodup h.nodes hmem

/-- What the tracker finds is what the list of pairs holds. -/
theorem Linked.lookup_cases (h : c.Linked) (k : Key) :
    (∃ node v, c.tracker.lookup k = some node ∧ (node, (k, v)) ∈ c.storage ∧
        c.plain.find k = some v) ∨
      (c.tracker.lookup k = none ∧ k ∉ c.storage.map (·.2.1) ∧ c.plain.find k = none) := by
  cases hlookup : c.tracker.lookup k with
  | some node =>
      obtain ⟨v, hmem⟩ := (h.tracked k node).mp hlookup
      refine .inl ⟨node, v, rfl, hmem, ?_⟩
      have hfind : c.storage.find? (fun n => n.2.1 = k) = some (node, (k, v)) :=
        Associative.find?_of_nodup h.keys hmem
      rw [LRUCache.find, plain, List.find?_map]
      show Option.map Prod.snd (Option.map Prod.snd (c.storage.find? fun n => n.2.1 = k)) = _
      rw [hfind]
      rfl
  | none =>
      have hnot : k ∉ c.storage.map (·.2.1) := by
        intro hmem
        obtain ⟨⟨node, k, v⟩, hnode, rfl⟩ := List.mem_map.mp hmem
        rw [(h.tracked k node).mpr ⟨v, hnode⟩] at hlookup
        cases hlookup
      refine .inr ⟨rfl, hnot, ?_⟩
      rw [LRUCache.find, Option.map_eq_none_iff, List.find?_eq_none]
      intro kv hkv
      obtain ⟨n, hn, rfl⟩ := List.mem_map.mp hkv
      rw [decide_eq_true_iff]
      rintro rfl
      exact hnot (List.mem_map_of_mem hn)

/-! ### What the steps do -/

omit [DecidableEq Key] in
/-- The keys of the plain cache are those of the nodes. -/
theorem keys_plain : c.plain.storage.map Prod.fst = c.storage.map (·.2.1) := by
  rw [plain, List.map_map]
  rfl

/-- `touch` of a node puts its entry in front. -/
theorem Linked.touch (h : c.Linked) (hmem : (node, (k, v)) ∈ c.storage) :
    ∃ c', c.touch node = .ok c' ∧ c'.Linked ∧ c'.plain = c.plain.front k v ∧
      (node, (k, v)) ∈ c'.storage := by
  have hperm : ((node, (k, v)) :: c.storage.filter (·.1 ≠ node)).Perm c.storage :=
    Associative.cons_filter_perm h.nodes hmem
  refine ⟨_, by rw [TrackedCache.touch, h.find_node hmem], h.perm hperm, ?_, List.mem_cons_self⟩
  unfold plain LRUCache.front
  dsimp only
  rw [List.map_cons, List.filter_map]
  congr 3
  exact List.filter_congr fun n hn => decide_eq_decide.mpr (not_congr (h.node_iff hmem n hn))

/-- An assignment through a node changes its value. -/
theorem Linked.assign (h : c.Linked) (hmem : (node, (k, v)) ∈ c.storage) (f : T → T) :
    ∃ c', c.assign node f = .ok c' ∧ c'.Linked ∧ c'.plain = c.plain.write k f ∧
      (node, (k, f v)) ∈ c'.storage := by
  let g : Nat × (Key × T) → Nat × (Key × T) := fun n =>
    if n.1 = node then (n.1, (n.2.1, f n.2.2)) else n
  have hnode : ∀ n, (g n).1 = n.1 := fun n => by
    show (if n.1 = node then _ else n).1 = n.1
    split <;> rfl
  have hkey : ∀ n, (g n).2.1 = n.2.1 := fun n => by
    show (if n.1 = node then _ else n).2.1 = n.2.1
    split <;> rfl
  refine ⟨{ c with storage := c.storage.map g }, by rw [TrackedCache.assign, h.find_node hmem],
    ⟨fun k' node' => ?_, ?_, ?_, fun n hn => ?_⟩, ?_, ?_⟩
  · rw [h.tracked]
    constructor
    · rintro ⟨w, hw⟩
      refine ⟨(g (node', (k', w))).2.2, List.mem_map.mpr ⟨_, hw, ?_⟩⟩
      exact Prod.ext (hnode _) (Prod.ext (hkey _) rfl)
    · rintro ⟨w, hw⟩
      obtain ⟨⟨node', k', u⟩, hn, heq⟩ := List.mem_map.mp hw
      obtain rfl := (hnode _).symm.trans (congrArg Prod.fst heq)
      obtain rfl := (hkey _).symm.trans (congrArg (·.2.1) heq)
      exact ⟨u, hn⟩
  · rw [List.map_map, show (fun n : Nat × (Key × T) => n.2.1) ∘ g = (·.2.1) from funext hkey]
    exact h.keys
  · rw [List.map_map, show Prod.fst ∘ g = Prod.fst from funext hnode]
    exact h.nodes
  · obtain ⟨n', hn', rfl⟩ := List.mem_map.mp hn
    rw [hnode]
    exact h.below n' hn'
  · unfold plain LRUCache.write
    dsimp only
    rw [List.map_map, List.map_map]
    congr 1
    refine List.map_congr_left fun n hn => ?_
    have := h.node_iff hmem n hn
    by_cases heq : n.1 = node
    · simp [g, heq, this.mp heq]
    · simp [g, heq, mt this.mpr heq]
  · exact List.mem_map.mpr ⟨_, hmem, if_pos rfl⟩

/-- The last node goes, and its key with it. -/
theorem Linked.dropBack (h : c.Linked) (hne : c.storage ≠ []) :
    ∃ c', c.dropBack = .ok c' ∧ c'.Linked ∧ c'.storage = c.storage.dropLast := by
  rcases List.eq_nil_or_concat c.storage with hnil | ⟨storage, n, hstorage⟩
  · exact absurd hnil hne
  rw [List.concat_eq_append] at hstorage
  have hsub : storage.Sublist c.storage := hstorage ▸ List.sublist_append_left _ _
  have hkey : n.2.1 ∉ storage.map (·.2.1) := by
    have := h.keys
    rw [hstorage, List.map_append, List.nodup_append] at this
    exact fun hmem => this.2.2 _ hmem _ List.mem_cons_self rfl
  refine ⟨{ c with tracker := c.tracker.erase n.2.1, storage }, ?_, ⟨fun k node => ?_,
    h.keys.sublist (hsub.map _), h.nodes.sublist (hsub.map _),
    fun n hn => h.below n (hsub.subset hn)⟩, ?_⟩
  · rw [TrackedCache.dropBack, hstorage, List.getLast?_concat, List.dropLast_concat]
  · show (c.tracker.erase n.2.1).lookup k = some node ↔ _
    by_cases hk : k = n.2.1
    · rw [hk, AList.lookup_erase]
      constructor
      · intro hnone
        cases hnone
      · rintro ⟨v, hv⟩
        exact absurd (List.mem_map_of_mem (f := (·.2.1)) hv) hkey
    · rw [AList.lookup_erase_ne hk, h.tracked, hstorage]
      refine exists_congr fun v => ?_
      rw [List.mem_append, List.mem_singleton]
      refine ⟨fun hmem => hmem.resolve_right ?_, .inl⟩
      rintro rfl
      exact hk rfl
  · rw [hstorage, List.dropLast_concat]

/-- A new key gets a new node in front. -/
theorem Linked.pushFront (h : c.Linked) (hk : k ∉ c.storage.map (·.2.1)) (v : T) :
    (c.pushFront k v).Linked := by
  have hfresh : c.fresh ∉ c.storage.map Prod.fst := by
    intro hmem
    obtain ⟨n, hn, heq⟩ := List.mem_map.mp hmem
    exact Nat.ne_of_lt (h.below n hn) heq
  refine ⟨fun k' node => ?_, List.nodup_cons.mpr ⟨hk, h.keys⟩,
    List.nodup_cons.mpr ⟨hfresh, h.nodes⟩, fun n hn => ?_⟩
  · show (c.tracker.insert k c.fresh).lookup k' = some node ↔
      ∃ w, (node, (k', w)) ∈ (c.fresh, (k, v)) :: c.storage
    by_cases hk' : k' = k
    · subst hk'
      rw [AList.lookup_insert, Option.some.injEq]
      constructor
      · rintro rfl
        exact ⟨v, List.mem_cons_self⟩
      · rintro ⟨w, hw⟩
        rcases List.mem_cons.mp hw with heq | hw
        · exact (Prod.mk.inj heq).1.symm
        · exact absurd (List.mem_map_of_mem (f := (·.2.1)) hw) hk
    · rw [AList.lookup_insert_ne hk', h.tracked]
      refine exists_congr fun w => ?_
      rw [List.mem_cons, Prod.mk.injEq, Prod.mk.injEq]
      exact ⟨.inr, fun hmem => hmem.resolve_left fun heq => hk' heq.2.1⟩
  · rcases List.mem_cons.mp hn with rfl | hn
    · exact Nat.lt_succ_self _
    · exact Nat.lt_succ_of_lt (h.below n hn)

/-- **An insertion**, with the eviction that makes room for it. -/
theorem Linked.insertion (h : c.Linked) (hcap : 0 < CAPACITY)
    (hk : k ∉ c.storage.map (·.2.1)) (v : T) :
    ∃ c', c.makeRoom = .ok c' ∧ (c'.pushFront k v).Linked ∧
      (c'.pushFront k v).plain = c.plain.insertFront k v ∧
      (c'.fresh, (k, v)) ∈ (c'.pushFront k v).storage := by
  have hlength : c.plain.storage.length = c.storage.length := List.length_map _
  unfold makeRoom LRUCache.insertFront
  rw [h.count, hlength]
  by_cases hfull : c.storage.length = CAPACITY
  · rw [if_pos hfull, if_pos hfull]
    obtain ⟨c', hdrop, hlinked, hstorage⟩ :=
      h.dropBack (List.ne_nil_of_length_pos (by rw [hfull]; exact hcap))
    refine ⟨c', hdrop, hlinked.pushFront (fun hmem => hk ?_) v, ?_, List.mem_cons_self⟩
    · rw [hstorage] at hmem
      exact ((List.dropLast_sublist _).map _).subset hmem
    · unfold plain TrackedCache.pushFront
      rw [List.map_cons, hstorage, List.map_dropLast]
  · rw [if_neg hfull, if_neg hfull]
    exact ⟨c, rfl, h.pushFront hk v, rfl, List.mem_cons_self⟩

/-! ### What the operations do -/

/-- A node is dereferenced to its value. -/
theorem Linked.deref (h : c.Linked) (hmem : (node, (k, v)) ∈ c.storage) :
    c.deref node = .ok v := by
  rw [TrackedCache.deref, h.find_node hmem]

/-- **`operator[]`** gives the node of the key, which is then in front. -/
theorem Linked.index [Inhabited T] (h : c.Linked) (hcap : 0 < CAPACITY) (k : Key) :
    ∃ node c', c.index k = .ok (node, c') ∧ c'.Linked ∧ c'.plain = (c.plain.index k).2 ∧
      (node, (k, (c.plain.index k).1)) ∈ c'.storage := by
  unfold TrackedCache.index
  rcases h.lookup_cases k with ⟨node, v, hlookup, hmem, hfind⟩ | ⟨hlookup, hnot, hfind⟩
  · obtain ⟨c', htouch, hlinked, hplain, hmem'⟩ := h.touch hmem
    rw [hlookup, LRUCache.index_of_find hfind]
    dsimp only
    rw [htouch]
    exact ⟨node, c', rfl, hlinked, hplain, hmem'⟩
  · obtain ⟨c', hroom, hlinked, hplain, hmem⟩ := h.insertion hcap hnot default
    rw [hlookup, LRUCache.index_of_not_find hfind]
    dsimp only
    rw [if_neg (Nat.ne_of_gt hcap), hroom]
    exact ⟨c'.fresh, _, rfl, hlinked, hplain, hmem⟩

/-- **`emplace`** replaces the value of a known key, and inserts an unknown one. -/
theorem Linked.emplace (h : c.Linked) (hcap : 0 < CAPACITY) (k : Key) (v : T) :
    ∃ node c', c.emplace k v = .ok ((some node, (c.plain.find k).isNone), c') ∧ c'.Linked ∧
      c'.plain = match c.plain.find k with
        | some _ => c.plain.front k v
        | none => c.plain.insertFront k v := by
  unfold TrackedCache.emplace
  rcases h.lookup_cases k with ⟨node, w, hlookup, hmem, hfind⟩ | ⟨hlookup, hnot, hfind⟩
  · obtain ⟨c₁, hassign, hlinked₁, hplain₁, hmem₁⟩ := h.assign hmem fun _ => v
    obtain ⟨c', htouch, hlinked, hplain, -⟩ := hlinked₁.touch hmem₁
    rw [hlookup, hfind]
    dsimp only
    rw [hassign, Except.ok_bind, htouch]
    refine ⟨node, c', rfl, hlinked, ?_⟩
    rw [hplain, hplain₁, LRUCache.front_write]
  · obtain ⟨c', hroom, hlinked, hplain, -⟩ := h.insertion hcap hnot v
    rw [hlookup, hfind]
    dsimp only
    rw [if_neg (Nat.ne_of_gt hcap), hroom]
    exact ⟨c'.fresh, _, rfl, hlinked, hplain⟩

/-- **`at`** moves the pair of a known key to the front, and refuses an unknown one. -/
theorem Linked.atTouch (h : c.Linked) (k : Key) :
    match c.plain.find k with
    | some v => ∃ node c', c.atTouch k = .ok (node, c') ∧ c'.Linked ∧
        c'.plain = c.plain.front k v ∧ (node, (k, v)) ∈ c'.storage
    | none => c.atTouch k = .error (.outOfRange "LRUCache::at: key not found") := by
  unfold TrackedCache.atTouch
  rcases h.lookup_cases k with ⟨node, v, hlookup, hmem, hfind⟩ | ⟨hlookup, -, hfind⟩
  · obtain ⟨c', htouch, hlinked, hplain, hmem'⟩ := h.touch hmem
    rw [hfind, hlookup]
    dsimp only
    rw [htouch]
    exact ⟨node, c', rfl, hlinked, hplain, hmem'⟩
  · rw [hfind, hlookup]

/-- `at` finds what the plain cache does, or throws. -/
theorem Linked.atConst (h : c.Linked) (k : Key) :
    c.atConst k = match c.plain.find k with
      | some v => .ok v
      | none => .error (.outOfRange "LRUCache::at: key not found") := by
  unfold TrackedCache.atConst
  rcases h.lookup_cases k with ⟨node, v, hlookup, hmem, hfind⟩ | ⟨hlookup, -, hfind⟩
  · rw [hfind, hlookup]
    exact h.deref hmem
  · rw [hfind, hlookup]

/-- **`pop`** drops the last pair. -/
theorem Linked.pop (h : c.Linked) :
    ∃ c', c.pop = .ok c' ∧ c'.Linked ∧ c'.plain = c.plain.pop := by
  unfold TrackedCache.pop
  by_cases hempty : c.storage = []
  · refine ⟨c, if_pos (by rw [empty, hempty]; rfl), h, ?_⟩
    rw [plain, LRUCache.pop, hempty]
    rfl
  · obtain ⟨c', hdrop, hlinked, hstorage⟩ := h.dropBack hempty
    refine ⟨c', ?_, hlinked, ?_⟩
    · rw [if_neg (by rwa [empty, List.isEmpty_iff]), hdrop]
    · rw [plain, hstorage, List.map_dropLast]
      rfl

end TrackedCache

end Hardware
