import BobbyOS.Kernel.Kstl.MapRuns

/-!
# Erasing from an `unordered_map`

Both forms of `erase` unlink the node of one pair and leave the others where they
are, but neither counts: the size of the table stays what it was, and so does the
count of a bucket that loses a node between two others.

* `Exact.eraseAt`, `Exact.erase`: the pairs that are left, and the iterator to the
  next one.
* `erase_never_counts`: no erasure of a present key does all that it should.
* `erase_between_rehash`: after an erasure in the middle of a bucket the next rehash
  pops a node that is not there, and follows a null link.
-/

namespace Kernel

open DoublyLinked UnorderedMap

namespace CountedMap

variable {K V : Type} {m : CountedMap K V}

/-! ### One bucket replaced -/

/-- The table with another bucket `i`. -/
def replace (m : CountedMap K V) (i : Nat) (c : Chain (K × V)) : CountedMap K V :=
  { m with buckets := m.buckets.set i c }

/-- The pairs in the buckets before `i`. -/
def entriesBefore (m : CountedMap K V) (i : Nat) : List (K × V) :=
  (m.buckets.take i).flatMap Chain.values

/-- The pairs in the buckets behind `i`. -/
def entriesBehind (m : CountedMap K V) (i : Nat) : List (K × V) :=
  (m.buckets.drop (i + 1)).flatMap Chain.values

/-- The entries around a bucket. -/
theorem entries_bucket {i : Nat} {c : Chain (K × V)} (hc : m.buckets[i]? = some c) :
    m.plain.entries = m.entriesBefore i ++ (c.values ++ m.entriesBehind i) := by
  obtain ⟨hlt, rfl⟩ := List.getElem?_eq_some_iff.mp hc
  have hsplit : m.buckets.take i ++ m.buckets[i] :: m.buckets.drop (i + 1) = m.buckets := by
    rw [← List.drop_eq_getElem_cons hlt, List.take_append_drop]
  show m.buckets.flatMap Chain.values = _
  conv_lhs => rw [← hsplit, List.flatMap_append, List.flatMap_cons]
  rfl

/-- The entries around a bucket that was replaced. -/
theorem entries_replace {i : Nat} (hlt : i < m.buckets.length) (c : Chain (K × V)) :
    (m.replace i c).plain.entries = m.entriesBefore i ++ (c.values ++ m.entriesBehind i) := by
  show (m.buckets.set i c).flatMap Chain.values = _
  rw [List.set_eq_take_append_cons_drop, if_pos hlt, List.flatMap_append, List.flatMap_cons]
  rfl

/-- An iterator behind the bucket stands where it stood. -/
theorem Stands.replace {it : MapIterator} {es : List (K × V)} (h : m.Stands it es) {i : Nat}
    (hi : i < it.outer) (c : Chain (K × V)) : (m.replace i c).Stands it es := by
  have hlength : (m.replace i c).buckets.length = m.buckets.length := List.length_set
  rcases h with ⟨hend, hes⟩ | ⟨b, j, hb, hinner, hes⟩
  · exact .inl ⟨hend.trans hlength.symm, hes⟩
  · refine .inr ⟨b, j, ?_, hinner, ?_⟩
    · exact (List.getElem?_set_ne (Nat.ne_of_lt hi)).trans hb
    · rw [hes]
      show _ = _ ++ ((m.buckets.set i c).drop (it.outer + 1)).flatMap Chain.values
      rw [List.drop_set_of_lt (by omega)]

/-- A bucket that is replaced leaves an iterator settled. -/
theorem Settled.replace {it : MapIterator} (h : m.Settled it) (i : Nat) (c : Chain (K × V)) :
    (m.replace i c).Settled it :=
  h.imp_left fun hend => hend.trans (List.length_set).symm

/-! ### Where the next pair is -/

/-- An iterator is not moved back. -/
theorem skipEmpty_outer {fuel outer : Nat} {inner : Option Nat} :
    outer ≤ (m.skipEmpty fuel ⟨outer, inner⟩).outer := by
  induction fuel generalizing outer inner with
  | zero => exact Nat.le_refl _
  | succ fuel ih =>
      rw [skipEmpty]
      split
      case isFalse => exact Nat.le_refl _
      case isTrue =>
        dsimp only
        split
        · exact Nat.le_of_succ_le ih
        · exact Nat.le_of_succ_le ih

/-- From the end of a bucket an iterator goes to a later one. -/
theorem iterator_outer {outer : Nat} (hlt : outer < m.buckets.length) :
    outer < (m.iterator outer none).outer := by
  unfold iterator
  cases hlength : m.buckets.length with
  | zero => omega
  | succ fuel =>
      rw [skipEmpty, if_pos ⟨Nat.ne_of_lt hlt, rfl⟩]
      dsimp only
      split
      · exact skipEmpty_outer
      · exact skipEmpty_outer

/-- The iterator to the pair behind the position `k` of a bucket stands, once that
position has been taken out, before the same pairs. -/
theorem stands_replace {outer k : Nat} {c c' : Chain (K × V)} (hc : m.buckets[outer]? = some c)
    (hk : k < c.nodes.length) (hc' : c'.nodes = c.nodes.eraseIdx k) :
    (m.replace outer c').Stands (m.iterator outer (c.position (k + 1)))
        (c.values.drop (k + 1) ++ m.entriesBehind outer) ∧
      (m.replace outer c').Settled (m.iterator outer (c.position (k + 1))) := by
  have hlt : outer < m.buckets.length := (List.getElem?_eq_some_iff.mp hc).1
  have hdrop : c'.nodes.drop k = c.nodes.drop (k + 1) := by
    rw [hc', List.eraseIdx_eq_take_drop_succ, List.drop_append_of_le_length (by simp; omega),
      List.drop_take, Nat.sub_self, List.take_zero, List.nil_append]
  have hposition : c'.position k = c.position (k + 1) := by
    rw [Chain.position, Chain.position, hdrop]
  have hstands := (stands_iterator (j := k + 1) hc).imp_right (Settled.replace · outer c')
  refine ⟨?_, hstands.2⟩
  rcases Nat.lt_or_ge (k + 1) c.nodes.length with hnext | hlast
  · -- the next pair is in the same bucket
    have hinner : c.position (k + 1) ≠ none := by
      rw [c.position_eq hnext]
      exact Option.some_ne_none _
    rw [show m.iterator outer (c.position (k + 1)) = ⟨outer, c.position (k + 1)⟩ from
      skipEmpty_of_inner hinner]
    refine .inr ⟨c', k, ?_, hposition.symm, ?_⟩
    · exact List.getElem?_set_self hlt
    · show _ = _ ++ ((m.buckets.set outer c').drop (outer + 1)).flatMap Chain.values
      rw [List.drop_set_of_lt (by omega), Chain.values, Chain.values, ← List.map_drop,
        ← List.map_drop, hdrop]
      rfl
  · refine hstands.1.replace ?_ c'
    rw [c.position_eq_none hlast]
    exact iterator_outer hlt

/-- **Erase at an iterator** unlinks the node there. -/
theorem Exact.eraseAt (hexact : m.Exact) {pos : MapIterator} {c : Chain (K × V)} {k : Nat}
    (hc : m.buckets[pos.outer]? = some c) (hk : k < c.nodes.length)
    (hpos : pos.inner = c.position k) :
    ∃ c', c'.nodes = c.nodes.eraseIdx k ∧
      c'.size = (if 0 < k ∧ k + 1 < c.nodes.length then c.size else c'.nodes.length) ∧
      m.eraseAt pos =
        .ok (m.iterator pos.outer (c.position (k + 1)), m.replace pos.outer c') := by
  have hsound := hexact c (List.mem_of_getElem? hc)
  have hlt : pos.outer < m.buckets.length := (List.getElem?_eq_some_iff.mp hc).1
  obtain ⟨c', herase, hnodes, hsize⟩ := hsound.counted.erase hsound.nodup k
  have hbucket : bucket m.buckets pos.outer = .ok c := by rw [bucket, hc]
  have hincrement : m.increment pos = .ok (m.iterator pos.outer (c.position (k + 1))) := by
    unfold increment
    rw [hbucket, Except.ok_bind, hpos, c.position_eq hk]
    dsimp only
    rw [if_pos (List.mem_map_of_mem (List.getElem_mem hk)), (c.split_position hsound.nodup hk).2]
  refine ⟨c', hnodes, hsize, ?_⟩
  unfold CountedMap.eraseAt
  rw [if_neg (fun hend => Nat.ne_of_lt hlt (same_endIt.mp hend)), hincrement, Except.ok_bind,
    hbucket, Except.ok_bind, hpos, herase]
  rfl

/-- The position behind a dereferenced iterator. -/
theorem position_of_deref {pos : MapIterator} {kv : K × V} (h : m.deref pos = .ok kv) :
    ∃ c k, m.buckets[pos.outer]? = some c ∧ pos.inner = c.position k ∧
      c.nodes[k]?.map Prod.snd = some kv := by
  unfold deref bucket at h
  cases hc : m.buckets[pos.outer]? with
  | none =>
      rw [hc] at h
      cases h
  | some c =>
      rw [hc, Except.ok_bind] at h
      cases hinner : pos.inner with
      | none =>
          rw [hinner] at h
          cases h
      | some a =>
          rw [hinner] at h
          dsimp only at h
          cases hfind : c.nodes.find? (·.1 = a) with
          | none =>
              rw [hfind] at h
              cases h
          | some n =>
              rw [hfind] at h
              obtain ⟨k, hk, hget⟩ := List.getElem_of_mem (List.mem_of_find?_eq_some hfind)
              have haddress : n.1 = a := by simpa using List.find?_some hfind
              refine ⟨c, k, rfl, ?_, ?_⟩
              · rw [c.position_eq hk, hget, haddress]
              · rw [List.getElem?_eq_getElem hk, hget, Option.map_some]
                exact congrArg some (Except.ok.inj h)

/-! ### What is left -/

/-- Every pair but that of `key` is left, in the same order; `after` is what comes
behind it. -/
def Unlinked (m m' : CountedMap K V) (key : K) (after : List (K × V)) : Prop :=
  ∃ before v, m.plain.entries = before ++ (key, v) :: after ∧
    m'.plain.entries = before ++ after

/-- A node that is taken out of its bucket is out of the map. -/
theorem unlinked_replace {i k : Nat} {c c' : Chain (K × V)} {key : K} {v : V}
    (hc : m.buckets[i]? = some c) (hc' : c'.nodes = c.nodes.eraseIdx k)
    (hkv : c.nodes[k]?.map Prod.snd = some (key, v)) :
    m.Unlinked (m.replace i c') key (c.values.drop (k + 1) ++ m.entriesBehind i) := by
  have hlt : i < m.buckets.length := (List.getElem?_eq_some_iff.mp hc).1
  have hget : c.values[k]? = some (key, v) := List.getElem?_map.trans hkv
  obtain ⟨hk, hget⟩ := List.getElem?_eq_some_iff.mp hget
  have hvalues : c'.values = c.values.take k ++ c.values.drop (k + 1) := by
    rw [Chain.values, hc', List.eraseIdx_eq_take_drop_succ, List.map_append, List.map_take,
      List.map_drop]
    rfl
  refine ⟨m.entriesBefore i ++ c.values.take k, v, ?_, ?_⟩
  · have hsplit : c.values.take k ++ (key, v) :: c.values.drop (k + 1) = c.values := by
      rw [← hget, ← List.drop_eq_getElem_cons hk, List.take_append_drop]
    rw [entries_bucket hc]
    conv_lhs => rw [← hsplit]
    simp only [List.append_assoc, List.cons_append]
  · rw [entries_replace hlt, hvalues]
    simp only [List.append_assoc]

section

variable [Hash K] [DecidableEq K] {key : K}

/-- **Erase by key** unlinks the node of the key. -/
theorem Exact.erase (hexact : m.Exact) (hwf : m.plain.WF) (hkey : key ∈ m.plain.keys) :
    ∃ m' after, m.erase key = .ok (true, m') ∧ m.Unlinked m' key after ∧ m'.size = m.size := by
  have hloc : loc m.buckets.length key < m.buckets.length :=
    loc_lt (by rw [← length_plain]; exact hwf.pos) key
  have hc := List.getElem?_eq_getElem hloc
  have hsound := hexact _ (List.mem_of_getElem? hc)
  have hany := (hwf.any_bucket (plain_bucket_loc hloc)).mpr hkey
  rw [← node_isSome] at hany
  obtain ⟨a, ha⟩ := Option.isSome_iff_exists.mp hany
  obtain ⟨v, hv⟩ := node_eq_some ha
  obtain ⟨k, hk, hget⟩ := List.getElem_of_mem hv
  obtain ⟨c', herase, hnodes, -⟩ := hsound.counted.erase hsound.nodup k
  rw [Chain.position_eq hk, hget] at herase
  refine ⟨m.replace _ c', _, ?_, unlinked_replace (v := v) hc hnodes ?_, rfl⟩
  · unfold CountedMap.erase
    dsimp only
    rw [bucket_ok hloc, Except.ok_bind, ha]
    dsimp only
    rw [herase]
    rfl
  · rw [List.getElem?_eq_getElem hk, hget]
    rfl

end

end CountedMap

/-! ### Runs with erasures -/

/-- Insertions and erasures. -/
inductive MapEdit (K V : Type)
  | put (op : MapOp K V)
  | erase (key : K)

namespace MapEdit

variable {K V : Type} [DecidableEq K]

/-- One edit. -/
def exec [Hash K] (dflt : V) (edit : MapEdit K V) (m : CountedMap K V) :
    Except Panic (CountedMap K V) :=
  match edit with
  | .put op => op.exec dflt m
  | .erase key => do
      let (_, m) ← m.erase key
      return m

/-- Edits one after the other. -/
def execAll [Hash K] (dflt : V) (edits : List (MapEdit K V)) (m : CountedMap K V) :
    Except Panic (CountedMap K V) := edits.foldlM (fun m edit => edit.exec dflt m) m

/-- What an edit does to the function. -/
def apply (dflt : V) (edit : MapEdit K V) (ref : K → Option V) : K → Option V :=
  match edit with
  | .put op => op.apply dflt ref
  | .erase key => Function.update ref key none

/-- What some of them do. -/
def applyAll (dflt : V) (edits : List (MapEdit K V)) (ref : K → Option V) : K → Option V :=
  edits.foldl (fun ref edit => edit.apply dflt ref) ref

/-- The keys after the edit. -/
def keys (edit : MapEdit K V) (ks : List K) : List K :=
  match edit with
  | .put op => ks ++ [op.key]
  | .erase key => ks.filter (· ≠ key)

/-- The keys that they leave. -/
def keysAll (edits : List (MapEdit K V)) (ks : List K) : List K :=
  edits.foldl (fun ks edit => edit.keys ks) ks

end MapEdit

namespace CountedMap

variable {K V : Type} [Hash K] [DecidableEq K] {m : CountedMap K V} {key : K}

/-- What an erasure should leave: the pairs but one, a size that is one less, and a
table that is a finite map after anything that follows. -/
structure Without (m m' : CountedMap K V) (key : K) (after : List (K × V)) : Prop where
  unlinked : m.Unlinked m' key after
  size : m'.size + 1 = m.size
  usable : ∀ dflt (edits : List (MapEdit K V)), ∃ m'', MapEdit.execAll dflt edits m' = .ok m'' ∧
    m''.IsMap (MapEdit.applyAll dflt edits fun k => List.lookup k m'.plain.entries)
      (MapEdit.keysAll edits m'.plain.keys)

/-- What `erase(key)` should do. -/
def ErasesKey (m : CountedMap K V) (key : K) : Prop :=
  ∃ m' after, m.erase key = .ok (true, m') ∧ m.Without m' key after

/-- What `erase(pos)` at the pair of `key` should do: the iterator that it returns is
before the pairs that came next. -/
def ErasesAt (m : CountedMap K V) (pos : MapIterator) (key : K) : Prop :=
  ∃ next m' after, m.eraseAt pos = .ok (next, m') ∧ m.Without m' key after ∧
    m'.walk after.length next = .ok after

/-- **An erasure never counts.**  It unlinks the right pair, returns what it should, and
leaves the size as it was; so no erasure of a present key, by key or by iterator, does
all that it should. -/
theorem erase_never_counts (hexact : m.Exact) (hwf : m.plain.WF) (hkey : key ∈ m.plain.keys) :
    ((∃ m' after, m.erase key = .ok (true, m') ∧ m.Unlinked m' key after ∧ m'.size = m.size) ∧
      ¬ m.ErasesKey key) ∧
    ∀ pos v, m.deref pos = .ok (key, v) →
      (∃ next m' after, m.eraseAt pos = .ok (next, m') ∧ m.Unlinked m' key after ∧
        m'.walk after.length next = .ok after ∧ m'.size = m.size) ∧
      ¬ m.ErasesAt pos key := by
  refine ⟨?_, fun pos v hderef => ?_⟩
  · obtain ⟨m', after, herase, hunlinked, hsize⟩ := hexact.erase hwf hkey
    refine ⟨⟨m', after, herase, hunlinked, hsize⟩, ?_⟩
    rintro ⟨m'', after', herase', hwithout⟩
    obtain ⟨-, rfl⟩ := Prod.mk.inj (Except.ok.inj (herase.symm.trans herase'))
    have := hwithout.size
    omega
  · obtain ⟨c, k, hc, hpos, hkv⟩ := position_of_deref hderef
    obtain ⟨n, hn, -⟩ := Option.map_eq_some_iff.mp hkv
    have hk : k < c.nodes.length := (List.getElem?_eq_some_iff.mp hn).1
    obtain ⟨c', hnodes, -, herase⟩ := hexact.eraseAt hc hk hpos
    obtain ⟨hstands, hsettled⟩ := stands_replace hc hk hnodes
    have hnodup : ∀ b ∈ (m.replace pos.outer c').buckets, b.addresses.Nodup := by
      intro b hb
      rcases List.mem_or_eq_of_mem_set hb with hmem | rfl
      · exact (hexact b hmem).nodup
      · have hsub := List.eraseIdx_sublist c.nodes k
        rw [← hnodes] at hsub
        exact (hexact c (List.mem_of_getElem? hc)).nodup.sublist (hsub.map _)
    refine ⟨⟨_, _, _, herase, unlinked_replace hc hnodes hkv,
      hstands.walk hnodup hsettled (Nat.le_refl _), rfl⟩, ?_⟩
    rintro ⟨next, m'', after', herase', hwithout, -⟩
    obtain ⟨-, rfl⟩ := Prod.mk.inj (Except.ok.inj (herase.symm.trans herase'))
    have hsize := hwithout.size
    have : (m.replace pos.outer c').size = m.size := rfl
    omega

/-- An erasure between two pairs of one bucket. -/
theorem erase_never_counts_middle :
    ∃ m : CountedMap Word Nat,
      MapOp.execAll 0 [.emplace 1 10, .emplace 2 20, .emplace 3 30] (ofBucketCount 3) = .ok m ∧
      (∃ m' after, m.erase 2 = .ok (true, m') ∧ m.Unlinked m' 2 after ∧ m'.size = m.size) ∧
      ¬ m.ErasesKey 2 := by
  obtain ⟨m, hexec, h⟩ := (follows_ofBucketCount (K := Word) (V := Nat)
    (show 0 < 3 by decide)).execAll 0 [.emplace 1 10, .emplace 2 20, .emplace 3 30]
  exact ⟨m, hexec, (erase_never_counts h.exact h.wf ((h.keys 2).mpr (by decide))).1⟩

/-- The keys 1, 2 and 3 have one bucket of three.  After the erasure of 2 the table
counts three pairs, so the next insertion doubles it, and fails. -/
theorem erase_then_insert :
    (do
      let m ← MapOp.execAll 0 [.emplace 1 10, .emplace 2 20, .emplace 3 30]
        (ofBucketCount 3 : CountedMap Word Nat)
      let (erased, m) ← m.erase 2
      return (erased, m.size, m.plain.entries)) =
        .ok (true, 3, [((1 : Word), 10), (3, 30)]) ∧
    (do
      let m ← MapOp.execAll 0 [.emplace 1 10, .emplace 2 20, .emplace 3 30]
        (ofBucketCount 3 : CountedMap Word Nat)
      let (_, m) ← m.erase 2
      let (_, m) ← m.emplace 4 40
      return m.size) = .error .nullPointer := by
  decide +kernel

/-! ### Rehashing a bucket that counts too many nodes -/

/-- The bucket counts nodes that it does not have. -/
def Overcounted (c : Chain (K × V)) : Prop := c.nodes ≠ [] ∧ c.nodes.length < c.size

omit [DecidableEq K] in
/-- Draining a bucket that counts too much ends at the null pointer. -/
theorem drain_overcounted {fuel fresh : Nat} {c : Chain (K × V)}
    {realloc : List (Chain (K × V))} (hpos : 0 < realloc.length)
    (hrealloc : ∀ c ∈ realloc, c.Sound fresh) (hc : Overcounted c) (hfuel : c.size ≤ fuel) :
    drain fuel c (realloc, fresh) = .error .nullPointer := by
  obtain ⟨nodes, size⟩ := c
  induction nodes using List.reverseRecOn generalizing size fuel fresh realloc with
  | nil => exact absurd rfl hc.1
  | append_singleton ns n ih =>
      obtain ⟨a, kv⟩ := n
      have hlt : (ns ++ [(a, kv)]).length < size := hc.2
      rw [List.length_append, List.length_singleton] at hlt
      replace hfuel : size ≤ fuel := hfuel
      obtain ⟨fuel, rfl⟩ := Nat.exists_eq_succ_of_ne_zero (show fuel ≠ 0 by omega)
      have hloc : loc realloc.length kv.1 < realloc.length := loc_lt hpos _
      have hinto := hrealloc _ (List.getElem_mem hloc)
      rw [drain, if_neg (by simp [Chain.empty]; omega), Chain.back, List.getLast?_concat]
      dsimp only
      rw [Except.ok_bind, bucket_ok hloc, Except.ok_bind, hinto.counted.emplaceBack,
        Except.ok_bind, Chain.popBack, if_neg (by dsimp only; omega), if_neg (by dsimp only; omega)]
      by_cases hns : ns = []
      · -- the node in front of the only one is missing
        subst hns
        rfl
      · have hlen := List.length_pos_of_ne_nil hns
        rw [if_neg (by simp; omega), Except.ok_bind]
        dsimp only
        rw [List.dropLast_concat]
        refine ih (by rw [List.length_set]; exact hpos)
          (sound_set hrealloc (Nat.le_succ _) (hinto.push kv)) _ ⟨hns, ?_⟩ ?_
        · show ns.length < size - 1
          omega
        · show size - 1 ≤ fuel
          omega

omit [DecidableEq K] in
/-- **A rehash** reaches the bucket that counts too many, and follows a null link. -/
theorem rehash_overcounted (h : ∀ c ∈ m.buckets, c.Counted ∨ Overcounted c)
    (hover : ∃ c ∈ m.buckets, Overcounted c) {count : Nat} (hpos : 0 < count)
    (hcount : m.size ≤ count) : m.rehash count = .error .nullPointer := by
  have hfold : ∀ (bs realloc : List (Chain (K × V))) (fresh : Nat), 0 < realloc.length →
      (∀ c ∈ bs, c.Counted ∨ Overcounted c) → (∃ c ∈ bs, Overcounted c) →
      (∀ c ∈ realloc, c.Sound fresh) →
      bs.foldlM (fun table c => drain c.size c table) (realloc, fresh) =
        (.error .nullPointer : Except Panic _) := by
    intro bs
    induction bs with
    | nil =>
        rintro _ _ _ _ ⟨c, hc, -⟩
        cases hc
    | cons c rest ih =>
        intro realloc fresh hlen hbs hover hr
        rw [List.foldlM_cons]
        rcases hbs c List.mem_cons_self with hcounted | hc
        · obtain ⟨realloc', fresh', hdrain, hsound, -, hlength, -⟩ :=
            drain_eq hlen hr hcounted rfl
          rw [hdrain]
          refine ih realloc' fresh' (by rw [hlength]; exact hlen)
            (fun c hc => hbs c (List.mem_cons_of_mem _ hc)) ?_ hsound
          obtain ⟨b, hb, hbover⟩ := hover
          rcases List.mem_cons.mp hb with rfl | hrest
          · exact absurd hcounted (Nat.ne_of_gt hbover.2)
          · exact ⟨b, hrest, hbover⟩
        · rw [drain_overcounted hlen hr hc (Nat.le_refl _)]
          rfl
  unfold CountedMap.rehash
  rw [if_neg (Nat.not_lt.mpr hcount), hfold m.buckets _ _
    (by rw [List.length_replicate]; exact hpos) h hover fun c hc => by
      rw [List.eq_of_mem_replicate hc]
      exact Chain.sound_empty]
  rfl

omit [DecidableEq K] in
/-- **An erasure in the middle of a bucket** makes the next rehash fail. -/
theorem erase_between_rehash (hexact : m.Exact) {pos : MapIterator} {c : Chain (K × V)} {k : Nat}
    (hc : m.buckets[pos.outer]? = some c) (hk : 0 < k) (hk' : k + 1 < c.nodes.length)
    (hpos : pos.inner = c.position k) :
    ∃ next m', m.eraseAt pos = .ok (next, m') ∧
      ∀ count, 0 < count → m.size ≤ count → m'.rehash count = .error .nullPointer := by
  obtain ⟨c', hnodes, hsize, herase⟩ := hexact.eraseAt hc (Nat.lt_of_succ_lt hk') hpos
  have hcounted : c.size = c.nodes.length := (hexact c (List.mem_of_getElem? hc)).counted
  have hlength : c'.nodes.length = c.nodes.length - 1 := by
    rw [hnodes, List.length_eraseIdx_of_lt (Nat.lt_of_succ_lt hk')]
  rw [if_pos ⟨hk, hk'⟩] at hsize
  have hover : Overcounted c' := ⟨List.ne_nil_of_length_pos (by omega), by omega⟩
  refine ⟨_, _, herase, fun count hcount hle => rehash_overcounted ?_ ⟨c', ?_, hover⟩ hcount hle⟩
  · intro b hb
    rcases List.mem_or_eq_of_mem_set hb with hmem | rfl
    · exact .inl (hexact b hmem).counted
    · exact .inr hover
  · exact List.mem_set (List.getElem?_eq_some_iff.mp hc).1 c'

end CountedMap

end Kernel
