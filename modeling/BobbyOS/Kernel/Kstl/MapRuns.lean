import BobbyOS.Kernel.Kstl.CountedMap
import BobbyOS.Lib.Associative
import Mathlib.Data.Finset.Dedup
import Mathlib.Data.Finset.Card

/-!
# Runs of insertions into an `unordered_map`

Any sequence of `emplace`, `insert` and both forms of `operator[]`, with the
doublings that they trigger, compared with a function from keys to values.

* `walk_begin`: an iterator that starts at `begin()` and is moved on until `end()`
  sees every pair once, in the order of the buckets.
* `map_runs`: after every insertion the table is that finite map, every pair is in
  the bucket of its key, and there are at least as many buckets as pairs.
-/

namespace Kernel

open DoublyLinked UnorderedMap

namespace CountedMap

variable {K V : Type} {m : CountedMap K V}

/-! ### Iteration -/

/-- The iterator stands before these pairs. -/
def Stands (m : CountedMap K V) (it : MapIterator) (es : List (K × V)) : Prop :=
  (it.outer = m.buckets.length ∧ es = []) ∨
    ∃ c j, m.buckets[it.outer]? = some c ∧ it.inner = c.position j ∧
      es = c.values.drop j ++ (m.buckets.drop (it.outer + 1)).flatMap Chain.values

/-- The iterator is at the end or at a node. -/
def Settled (m : CountedMap K V) (it : MapIterator) : Prop :=
  it.outer = m.buckets.length ∨ it.inner ≠ none

/-- An iterator is the end exactly if it is behind the buckets. -/
theorem same_endIt {it : MapIterator} :
    m.same it m.endIt = true ↔ it.outer = m.buckets.length := by
  unfold same endIt
  rw [Bool.and_eq_true, Bool.or_eq_true, decide_eq_true_iff, decide_eq_true_iff]
  exact ⟨fun h => h.1, fun h => ⟨h, .inl h⟩⟩

/-- An iterator at a node is not moved. -/
theorem skipEmpty_of_inner {fuel : Nat} {it : MapIterator} (h : it.inner ≠ none) :
    m.skipEmpty fuel it = it := by
  cases fuel with
  | zero => rfl
  | succ fuel => exact if_neg fun hc => h hc.2

/-- A bucket begins with its first node. -/
theorem begin_eq_position (c : Chain (K × V)) : c.begin = c.position 0 := by
  rw [Chain.begin, Chain.position, List.drop_zero]

/-- **`skip_empty`** loses no pair and ends at a node or at the end. -/
theorem stands_skipEmpty {fuel : Nat} {it : MapIterator} {es : List (K × V)}
    (h : m.Stands it es) (hfuel : m.buckets.length ≤ it.outer + fuel) :
    m.Stands (m.skipEmpty fuel it) es ∧ m.Settled (m.skipEmpty fuel it) := by
  induction fuel generalizing it with
  | zero =>
      refine ⟨h, .inl ?_⟩
      rcases h with ⟨hend, -⟩ | ⟨c, j, hc, -⟩
      · exact hend
      · have := (List.getElem?_eq_some_iff.mp hc).1
        omega
  | succ fuel ih =>
      rw [skipEmpty]
      by_cases hskip : it.outer ≠ m.buckets.length ∧ it.inner = none
      case neg =>
        rw [if_neg hskip]
        refine ⟨h, ?_⟩
        by_cases hend : it.outer = m.buckets.length
        · exact .inl hend
        · exact .inr fun hnone => hskip ⟨hend, hnone⟩
      rw [if_pos hskip]
      obtain ⟨hend, hnone⟩ := hskip
      rcases h with ⟨h, -⟩ | ⟨c, j, hc, hinner, hes⟩
      · exact absurd h hend
      have hrest : c.values.drop j = [] := by
        refine List.drop_eq_nil_of_le ?_
        rw [Chain.values, List.length_map]
        refine Nat.le_of_not_lt fun hlt => ?_
        rw [hnone, c.position_eq hlt] at hinner
        cases hinner
      rw [hrest, List.nil_append] at hes
      have hlt := (List.getElem?_eq_some_iff.mp hc).1
      dsimp only
      rcases Nat.lt_or_ge (it.outer + 1) m.buckets.length with hnext | hnext
      · rw [List.getElem?_eq_getElem hnext]
        refine ih (.inr ⟨_, 0, List.getElem?_eq_getElem hnext, begin_eq_position _, ?_⟩) ?_
        · rw [hes, List.drop_zero, List.drop_eq_getElem_cons hnext, List.flatMap_cons]
        · show _ ≤ it.outer + 1 + fuel
          omega
      · rw [List.getElem?_eq_none hnext]
        refine ih (.inl ⟨by dsimp only; omega, ?_⟩) ?_
        · rw [hes, List.drop_eq_nil_of_le hnext]
          rfl
        · show _ ≤ it.outer + 1 + fuel
          omega

/-- An iterator at a node has before it the rest of its bucket and the buckets behind. -/
theorem stands_iterator {c : Chain (K × V)} {outer j : Nat} (hc : m.buckets[outer]? = some c) :
    m.Stands (m.iterator outer (c.position j))
        (c.values.drop j ++ (m.buckets.drop (outer + 1)).flatMap Chain.values) ∧
      m.Settled (m.iterator outer (c.position j)) :=
  stands_skipEmpty (.inr ⟨c, j, hc, rfl, rfl⟩) (Nat.le_add_left _ _)

/-- `begin` has all entries before it. -/
theorem stands_begin : m.Stands m.begin m.plain.entries ∧ m.Settled m.begin := by
  have hentries : m.plain.entries = m.buckets.flatMap Chain.values := rfl
  unfold begin
  cases hb : m.buckets with
  | nil =>
      refine stands_skipEmpty (.inl ⟨by rw [hb]; rfl, ?_⟩) (Nat.le_add_left _ _)
      rw [hentries, hb]
      rfl
  | cons c rest =>
      have hc : m.buckets[0]? = some c := by
        rw [hb]
        rfl
      have h := stands_iterator (j := 0) hc
      rw [List.drop_zero, hb, List.drop_one, List.tail_cons, ← List.flatMap_cons, ← hb,
        ← hentries, ← begin_eq_position] at h
      exact h

/-- The node an iterator is at. -/
theorem find_node {c : Chain (K × V)} (hnodup : c.addresses.Nodup) {n : Nat × (K × V)}
    (hn : n ∈ c.nodes) : c.nodes.find? (·.1 = n.1) = some n :=
  Associative.find?_of_nodup hnodup hn

/-- **One step of a loop.**  An iterator before some pairs reads the first one, and
moves on to the others. -/
theorem Stands.step (hnodup : ∀ c ∈ m.buckets, c.addresses.Nodup) {it : MapIterator}
    {es : List (K × V)} (h : m.Stands it es) (hsettled : m.Settled it)
    (hend : it.outer ≠ m.buckets.length) :
    ∃ kv rest it', es = kv :: rest ∧ m.deref it = .ok kv ∧ m.increment it = .ok it' ∧
      m.Stands it' rest ∧ m.Settled it' := by
  rcases h with ⟨h, -⟩ | ⟨c, j, hc, hinner, hes⟩
  · exact absurd h hend
  have hnode : it.inner ≠ none := hsettled.resolve_left hend
  have hlt : j < c.nodes.length := by
    refine Nat.lt_of_not_le fun hle => hnode ?_
    rw [hinner, c.position_eq_none hle]
  have hnodup := hnodup c (List.mem_of_getElem? hc)
  have hbucket : bucket m.buckets it.outer = .ok c := by rw [bucket, hc]
  have hltv : j < c.values.length := by
    rw [Chain.values, List.length_map]
    exact hlt
  have hmem : c.nodes[j] ∈ c.nodes := List.getElem_mem hlt
  rw [List.drop_eq_getElem_cons hltv] at hes
  refine ⟨c.values[j], _, m.iterator it.outer (c.position (j + 1)), hes, ?_, ?_,
    stands_iterator hc⟩
  · unfold deref
    rw [hbucket, Except.ok_bind, hinner, c.position_eq hlt]
    dsimp only
    rw [find_node hnodup hmem]
    dsimp only
    rw [← List.getElem_map (f := Prod.snd)]
    rfl
  · unfold increment
    rw [hbucket, Except.ok_bind, hinner, c.position_eq hlt]
    dsimp only
    rw [if_pos (List.mem_map_of_mem hmem), (c.split_position hnodup hlt).2]

/-- **Iteration** passes the entries, each once, in order. -/
theorem Stands.walk (hnodup : ∀ c ∈ m.buckets, c.addresses.Nodup) {fuel : Nat}
    {it : MapIterator} {es : List (K × V)} (h : m.Stands it es) (hsettled : m.Settled it)
    (hfuel : es.length ≤ fuel) :
    m.walk fuel it = .ok es := by
  induction fuel generalizing it es with
  | zero =>
      have hnil := List.eq_nil_of_length_eq_zero (Nat.le_zero.mp hfuel)
      have hend : it.outer = m.buckets.length := by
        by_contra hend
        obtain ⟨kv, rest, it', hes, -⟩ := h.step hnodup hsettled hend
        rw [hnil] at hes
        cases hes
      rw [CountedMap.walk, if_pos (same_endIt.mpr hend), hnil]
  | succ fuel ih =>
      rw [CountedMap.walk]
      by_cases hend : it.outer = m.buckets.length
      · rw [if_pos (same_endIt.mpr hend)]
        rcases h with ⟨-, rfl⟩ | ⟨c, j, hc, -⟩
        · rfl
        · rw [hend, List.getElem?_eq_none (Nat.le_refl _)] at hc
          cases hc
      · rw [if_neg (mt same_endIt.mp hend)]
        obtain ⟨kv, rest, it', rfl, hderef, hincrement, h', hsettled'⟩ :=
          h.step hnodup hsettled hend
        rw [hderef, hincrement, Except.ok_bind, Except.ok_bind,
          ih h' hsettled' (Nat.le_of_succ_le_succ hfuel)]
        rfl

/-- **Iteration** from `begin()` to `end()` takes one round for each pair. -/
theorem walk_begin (hexact : m.Exact) {fuel : Nat} (hfuel : m.plain.entries.length ≤ fuel) :
    m.walk fuel m.begin = .ok m.plain.entries :=
  stands_begin.1.walk (fun c hc => (hexact c hc).nodup) stands_begin.2 hfuel

/-! ### Lookup -/

section

variable [Hash K] [DecidableEq K] {key : K}

omit [DecidableEq K] in
/-- The bucket of a key has the values of the plain one. -/
theorem plain_bucket_loc (hloc : loc m.buckets.length key < m.buckets.length) :
    m.plain.buckets[loc m.plain.buckets.length key]? =
      some m.buckets[loc m.buckets.length key].values := by
  rw [length_plain]
  exact plain_bucket hloc

/-- **`find`** ends at a pair with the key, or at `end()`. -/
theorem Exact.find (hexact : m.Exact) (hwf : m.plain.WF) (key : K) :
    (∃ it v, m.find key = .ok it ∧ (key, v) ∈ m.plain.entries ∧ m.deref it = .ok (key, v) ∧
        m.same it m.endIt = false) ∨
      (key ∉ m.plain.keys ∧ m.find key = .ok m.endIt) := by
  have hloc : loc m.buckets.length key < m.buckets.length :=
    loc_lt (by rw [← length_plain]; exact hwf.pos) key
  have hmem := List.getElem_mem hloc
  have hsound := hexact _ hmem
  have hany := hwf.any_bucket (plain_bucket_loc hloc)
  unfold CountedMap.find
  dsimp only
  rw [bucket_ok hloc, Except.ok_bind]
  cases hnode : node m.buckets[loc m.buckets.length key] key with
  | some a =>
      obtain ⟨v, hv⟩ := node_eq_some hnode
      have hit : m.iterator (loc m.buckets.length key) (some a) =
          ⟨loc m.buckets.length key, some a⟩ := skipEmpty_of_inner (Option.some_ne_none a)
      refine .inl ⟨_, v, rfl, ?_, ?_, ?_⟩
      · exact List.mem_flatten.mpr
          ⟨_, List.mem_map_of_mem hmem, List.mem_map_of_mem (f := Prod.snd) hv⟩
      · rw [hit, deref, bucket_ok hloc, Except.ok_bind]
        dsimp only
        rw [find_node hsound.nodup hv]
      · rw [hit]
        refine Bool.eq_false_iff.mpr fun hsame => ?_
        have hend : loc m.buckets.length key = m.buckets.length := same_endIt.mp hsame
        omega
  | none =>
      refine .inr ⟨fun hkey => ?_, rfl⟩
      rw [← node_isSome, hnode] at hany
      exact absurd (hany.mpr hkey) Bool.false_ne_true

/-- `contains` says whether the map has the key. -/
theorem contains_eq (hwf : m.plain.WF) (key : K) :
    m.contains key = .ok (decide (key ∈ m.plain.keys)) := by
  have hloc : loc m.buckets.length key < m.buckets.length :=
    loc_lt (by rw [← length_plain]; exact hwf.pos) key
  have hany := hwf.any_bucket (plain_bucket_loc hloc)
  unfold CountedMap.contains
  rw [bucket_ok hloc, Except.ok_bind, node_isSome]
  exact congrArg Except.ok (Bool.eq_iff_iff.mpr (hany.trans decide_eq_true_iff.symm))

end

end CountedMap

/-! ### Runs -/

/-- The insertions; `f` is what the caller writes behind the reference. -/
inductive MapOp (K V : Type)
  | emplace (key : K) (value : V)
  | insert (key : K) (value : V)
  | subscript (key : K) (f : V → V)
  | subscriptMove (key : K) (f : V → V)

namespace MapOp

variable {K V : Type} [DecidableEq K]

omit [DecidableEq K] in
/-- The key of an operation. -/
def key : MapOp K V → K
  | .emplace key _ | .insert key _ | .subscript key _ | .subscriptMove key _ => key

/-- The insertion, with `dflt` for `T()`. -/
def exec [Hash K] (dflt : V) (op : MapOp K V) (m : CountedMap K V) :
    Except Panic (CountedMap K V) :=
  match op with
  | .emplace key value | .insert key value => do
      let (_, m) ← m.emplace key value
      return m
  | .subscript key f => m.subscript key dflt f
  | .subscriptMove key f => m.subscriptMove key dflt f

/-- Operations one after the other. -/
def execAll [Hash K] (dflt : V) (ops : List (MapOp K V)) (m : CountedMap K V) :
    Except Panic (CountedMap K V) := ops.foldlM (fun m op => op.exec dflt m) m

/-- The values after the insertion: the first one emplaced stays, one written
through `operator[]` replaces it. -/
def apply (dflt : V) (op : MapOp K V) (ref : K → Option V) : K → Option V :=
  match op with
  | .emplace key value | .insert key value =>
      Function.update ref key (some ((ref key).getD value))
  | .subscript key f | .subscriptMove key f =>
      Function.update ref key (some (f ((ref key).getD dflt)))

/-- What they do to the function. -/
def applyAll (dflt : V) (ops : List (MapOp K V)) (ref : K → Option V) : K → Option V :=
  ops.foldl (fun ref op => op.apply dflt ref) ref

end MapOp

namespace CountedMap

variable {K V : Type} [Hash K] [DecidableEq K] {m : CountedMap K V} {ref : K → Option V}
  {ks : List K}

/-- The table is the finite map `ref` with the keys `ks`. -/
structure IsMap (m : CountedMap K V) (ref : K → Option V) (ks : List K) : Prop where
  size : m.size = ks.toFinset.card
  find : ∀ key ∈ ks, ∃ it v, m.find key = .ok it ∧ m.same it m.endIt = false ∧
    ref key = some v ∧ m.deref it = .ok (key, v)
  find_end : ∀ key, key ∉ ks → m.find key = .ok m.endIt
  contains : ∀ key, m.contains key = .ok (decide (key ∈ ks))
  placed : ∀ i c, m.buckets[i]? = some c → ∀ kv ∈ c.values,
    i = (Hash.hash kv.1).toNat % m.buckets.length
  walk : ∃ es, m.walk m.size m.begin = .ok es ∧ (es.map Prod.fst).Nodup ∧
    ∀ key v, (key, v) ∈ es ↔ ref key = some v
  room : m.size ≤ m.buckets.length

/-- What the insertions keep. -/
structure Follows (m : CountedMap K V) (ref : K → Option V) (ks : List K) : Prop where
  exact : m.Exact
  wf : m.plain.WF
  entries : ∀ key v, (key, v) ∈ m.plain.entries ↔ ref key = some v
  keys : ∀ key, key ∈ m.plain.keys ↔ key ∈ ks
  room : m.plain.size ≤ m.plain.buckets.length

/-- A map that follows a function is that function's. -/
theorem Follows.isMap (h : m.Follows ref ks) : m.IsMap ref ks := by
  have hlength : m.plain.entries.length = m.size := h.wf.size_eq.symm
  refine ⟨?_, fun key hkey => ?_, fun key hkey => ?_, fun key => ?_, fun i c hc kv hkv => ?_,
    ⟨m.plain.entries, walk_begin h.exact (Nat.le_of_eq hlength), h.wf.distinct, h.entries⟩, ?_⟩
  · have hkeys : m.plain.keys.toFinset = ks.toFinset := by
      ext key
      rw [List.mem_toFinset, List.mem_toFinset, h.keys]
    rw [← hkeys, List.toFinset_card_of_nodup h.wf.distinct, UnorderedMap.keys, List.length_map,
      hlength]
  · rcases h.exact.find h.wf key with ⟨it, v, hfind, hmem, hderef, hsame⟩ | ⟨hnot, -⟩
    · exact ⟨it, v, hfind, hsame, (h.entries key v).mp hmem, hderef⟩
    · exact absurd ((h.keys key).mpr hkey) hnot
  · rcases h.exact.find h.wf key with ⟨it, v, -, hmem, -⟩ | ⟨-, hfind⟩
    · exact absurd ((h.keys key).mp (List.mem_map_of_mem hmem)) hkey
    · exact hfind
  · rw [contains_eq h.wf key]
    congr 1
    exact decide_eq_decide.mpr (h.keys key)
  · have hrow : m.plain.buckets[i]? = some c.values := by
      unfold plain
      rw [List.getElem?_map, hc]
      rfl
    have := h.wf.placed i c.values hrow kv hkv
    rw [length_plain] at this
    exact this.symm
  · have := h.room
    rwa [length_plain] at this

omit [DecidableEq K] in
/-- A new map has no values. -/
theorem follows_ofBucketCount {count : Nat} (hcount : 0 < count) :
    (ofBucketCount count : CountedMap K V).Follows (fun _ => none) [] := by
  have hplain : (ofBucketCount count : CountedMap K V).plain =
      UnorderedMap.ofBucketCount count := plain_ofBucketCount
  refine ⟨exact_ofBucketCount, ?_, fun key v => ?_, fun key => ?_, ?_⟩
  · rw [hplain]
    exact wf_ofBucketCount hcount
  · rw [hplain, entries_ofBucketCount]
    simp
  · rw [hplain, UnorderedMap.keys, entries_ofBucketCount]
    simp
  · exact Nat.zero_le _

omit [Hash K] [DecidableEq K] in
/-- The keys are those of the entries. -/
theorem mem_keys {key : K} : key ∈ m.plain.keys ↔ ∃ v, (key, v) ∈ m.plain.entries := by
  rw [UnorderedMap.keys, List.mem_map]
  constructor
  · rintro ⟨⟨_, v⟩, hv, rfl⟩
    exact ⟨v, hv⟩
  · rintro ⟨v, hv⟩
    exact ⟨(key, v), hv, rfl⟩

/-- What a table is when a key has got the value `w`, and nothing else changed. -/
theorem Follows.update {m' : CountedMap K V} {key : K} {w : V} (h : m.Follows ref ks)
    (hexact : m'.Exact) (hwf : m'.plain.WF)
    (hentries : ∀ k v, (k, v) ∈ m'.plain.entries ↔
      if k = key then v = w else (k, v) ∈ m.plain.entries)
    (hroom : m'.plain.size ≤ m'.plain.buckets.length) :
    m'.Follows (Function.update ref key (some w)) (ks ++ [key]) := by
  refine ⟨hexact, hwf, fun k v => ?_, fun k => ?_, hroom⟩
  · rw [hentries]
    by_cases hk : k = key
    · rw [if_pos hk, hk, Function.update_self, Option.some.injEq, eq_comm]
    · rw [if_neg hk, Function.update_of_ne hk, h.entries]
  · rw [mem_keys, List.mem_append, List.mem_singleton, ← h.keys, mem_keys]
    by_cases hk : k = key
    · simp [hentries, hk]
    · simp [hentries, hk]

/-- A pair with a new key. -/
theorem Follows.insert {m' : CountedMap K V} {key : K} {w : V} (h : m.Follows ref ks)
    (hkey : key ∉ m.plain.keys) (hexact : m'.Exact) (hwf : m'.plain.WF)
    (hperm : m'.plain.entries.Perm ((key, w) :: m.plain.entries))
    (hroom : m'.plain.size ≤ m'.plain.buckets.length) :
    ref key = none ∧ m'.Follows (Function.update ref key (some w)) (ks ++ [key]) := by
  refine ⟨?_, h.update hexact hwf (fun k v => ?_) hroom⟩
  · refine Option.eq_none_iff_forall_ne_some.mpr fun v hv => hkey ?_
    exact List.mem_map_of_mem (f := Prod.fst) ((h.entries key v).mpr hv)
  · rw [hperm.mem_iff, List.mem_cons, Prod.mk.injEq]
    by_cases hk : k = key
    · have hnot : (k, v) ∉ m.plain.entries := fun hmem =>
        hkey (hk ▸ List.mem_map_of_mem (f := Prod.fst) hmem)
      simp [hk, hk ▸ hnot]
    · simp [hk]

/-- A known key whose value was changed by `f`. -/
theorem Follows.change {m' : CountedMap K V} {key : K} {f : V → V} {v : V} (h : m.Follows ref ks)
    (hv : ref key = some v) (hexact : m'.Exact) (hwf : m'.plain.WF)
    (hperm : m'.plain.entries.Perm (m.plain.entries.map (changed key f)))
    (hroom : m'.plain.size ≤ m'.plain.buckets.length) :
    m'.Follows (Function.update ref key (some (f v))) (ks ++ [key]) := by
  have hmem := (h.entries key v).mpr hv
  refine h.update hexact hwf (fun k w => ?_) hroom
  rw [hperm.mem_iff, List.mem_map]
  by_cases hk : k = key
  · rw [if_pos hk, hk]
    constructor
    · rintro ⟨⟨k', u⟩, hu, heq⟩
      obtain rfl : k' = key := changed_fst.symm.trans (congrArg Prod.fst heq)
      rw [changed, if_pos rfl] at heq
      rw [← h.wf.unique hu hmem]
      exact (Prod.mk.inj heq).2.symm
    · rintro rfl
      exact ⟨(key, v), hmem, if_pos rfl⟩
  · rw [if_neg hk]
    constructor
    · rintro ⟨⟨k', u⟩, hu, heq⟩
      obtain rfl : k' = k := changed_fst.symm.trans (congrArg Prod.fst heq)
      rw [changed, if_neg hk] at heq
      exact heq ▸ hu
    · exact fun hw => ⟨(k, w), hw, if_neg hk⟩

/-- `emplace` and `insert` add a pair unless the key is there. -/
theorem Follows.emplace (h : m.Follows ref ks) (key : K) (value : V) :
    ∃ r m', m.emplace key value = .ok (r, m') ∧
      m'.Follows (Function.update ref key (some ((ref key).getD value))) (ks ++ [key]) := by
  have hpos : 0 < m.buckets.length := by
    rw [← length_plain]
    exact h.wf.pos
  obtain ⟨it, b, m', hemplace, hexact, hplain⟩ := h.exact.emplace hpos key value
  obtain ⟨p, hp, hwf, hperm⟩ := h.wf.emplace key value
  obtain ⟨-, rfl⟩ := Prod.mk.inj (Except.ok.inj (hplain.symm.trans hp))
  have hroom := emplace_room hplain h.wf.pos h.room
  refine ⟨(it, b), m', hemplace, ?_⟩
  by_cases hkey : key ∈ m.plain.keys
  · obtain ⟨v, hv⟩ := mem_keys.mp hkey
    rw [if_neg (not_not_intro hkey)] at hperm
    have hid : m.plain.entries.map (changed key id) = m.plain.entries :=
      (List.map_congr_left fun kv _ => ite_self kv).trans (List.map_id' _)
    have href := (h.entries key v).mp hv
    have hfollows := h.change href hexact hwf (f := id) (by rw [hid]; exact hperm) hroom
    rw [href]
    exact hfollows
  · rw [if_pos hkey] at hperm
    obtain ⟨hnone, hfollows⟩ := h.insert hkey hexact hwf hperm hroom
    rw [hnone]
    exact hfollows

/-- `operator[]` makes the key's value, or changes it. -/
theorem Follows.subscript (h : m.Follows ref ks) (key : K) (dflt : V) (f : V → V) :
    ∃ m', m.subscript key dflt f = .ok m' ∧
      m'.Follows (Function.update ref key (some (f ((ref key).getD dflt)))) (ks ++ [key]) := by
  obtain ⟨m', hsubscript, hexact, hplain⟩ := h.exact.subscript h.wf key dflt f
  have hroom := modify_room hplain h.wf.pos h.room
  refine ⟨m', hsubscript, ?_⟩
  by_cases hkey : key ∈ m.plain.keys
  · obtain ⟨v, hv⟩ := mem_keys.mp hkey
    obtain ⟨p, hp, hwf, hperm⟩ := h.wf.modify_mem hkey dflt f
    obtain rfl := Except.ok.inj (hplain.symm.trans hp)
    rw [(h.entries key v).mp hv]
    exact h.change ((h.entries key v).mp hv) hexact hwf hperm hroom
  · obtain ⟨p, hp, hwf, hperm⟩ := h.wf.modify hkey dflt f
    obtain rfl := Except.ok.inj (hplain.symm.trans hp)
    obtain ⟨hnone, hfollows⟩ := h.insert hkey hexact hwf hperm hroom
    rw [hnone]
    exact hfollows

/-- **One insertion.** -/
theorem Follows.exec (h : m.Follows ref ks) (dflt : V) (op : MapOp K V) :
    ∃ m', op.exec dflt m = .ok m' ∧ m'.Follows (op.apply dflt ref) (ks ++ [op.key]) := by
  cases op with
  | emplace key value | insert key value =>
      obtain ⟨r, m', hemplace, hfollows⟩ := h.emplace key value
      refine ⟨m', ?_, hfollows⟩
      rw [MapOp.exec, hemplace]
      rfl
  | subscript key f | subscriptMove key f => exact h.subscript key dflt f

/-- **Runs** keep the map the function's. -/
theorem Follows.execAll (h : m.Follows ref ks) (dflt : V) (ops : List (MapOp K V)) :
    ∃ m', MapOp.execAll dflt ops m = .ok m' ∧
      m'.Follows (MapOp.applyAll dflt ops ref) (ks ++ ops.map MapOp.key) := by
  induction ops generalizing m ref ks with
  | nil =>
      refine ⟨m, rfl, ?_⟩
      rw [List.map_nil, List.append_nil]
      exact h
  | cons op ops ih =>
      obtain ⟨m₁, hexec, h₁⟩ := h.exec dflt op
      obtain ⟨m', hrest, h'⟩ := ih h₁
      refine ⟨m', ?_, ?_⟩
      · rw [MapOp.execAll, List.foldlM_cons, hexec]
        exact hrest
      · rw [List.append_assoc, List.singleton_append] at h'
        exact h'

/-- **A table of insertions is a finite map**, after each insertion of any sequence,
whatever keys collide. -/
theorem map_runs {count : Nat} (hcount : 0 < count) (dflt : V) (ops : List (MapOp K V)) :
    ∃ m, MapOp.execAll dflt ops (ofBucketCount count) = .ok m ∧
      m.IsMap (MapOp.applyAll dflt ops fun _ => none) (ops.map MapOp.key) := by
  obtain ⟨m, hexec, h⟩ := (follows_ofBucketCount hcount).execAll dflt ops
  exact ⟨m, hexec, h.isMap⟩

/-- Nine page numbers, and the doubling that the ninth makes. -/
theorem map_runs_doubled : ∃ m : CountedMap Word Nat,
    MapOp.execAll 0 ((List.range 9).map fun i => .emplace (BitVec.ofNat 32 (8 * i)) i)
      (ofBucketCount 8) = .ok m ∧
    m.IsMap (MapOp.applyAll 0 ((List.range 9).map fun i => .emplace (BitVec.ofNat 32 (8 * i)) i)
        fun _ => none)
      (((List.range 9).map fun i => MapOp.emplace (BitVec.ofNat 32 (8 * i)) i).map
        MapOp.key) :=
  map_runs (show 0 < 8 by decide) 0 _

end CountedMap

end Kernel
