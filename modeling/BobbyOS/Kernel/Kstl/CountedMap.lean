import BobbyOS.Kernel.Kstl.ListLoops
import BobbyOS.Kernel.Kstl.UnorderedMap
import BobbyOS.Lib.Result

/-!
# `ministl::unordered_map` over its bucket lists

The buckets are list objects, each with its own count, and every operation is the
sequence of list operations that the source makes: a rehash moves the back of each
bucket to a new table until the bucket's count is zero, and an iterator is a bucket
and a node in it.

* `CountedMap.Exact`: the buckets count their nodes.  From such a table the
  operations do what the operations on plain buckets do (`UnorderedMap`), and never
  follow a null link.
-/

namespace Kernel

open DoublyLinked UnorderedMap

/-- `unordered_map`; `fresh` is where the next node is made. -/
structure CountedMap (K V : Type) where
  buckets : List (Chain (K × V))
  size : Nat
  fresh : Nat

/-- `unordered_map::iterator`. -/
structure MapIterator where
  outer : Nat
  inner : Option Nat
deriving DecidableEq

namespace CountedMap

variable {K V : Type}

/-- `unordered_map(bucket_count)`. -/
def ofBucketCount (count : Nat) : CountedMap K V := ⟨List.replicate count {}, 0, 0⟩

/-- `buckets[i]`. -/
def bucket (buckets : List (Chain (K × V))) (i : Nat) : Except Panic (Chain (K × V)) :=
  match buckets[i]? with
  | none => .error (.assertFailed "idx < _size")
  | some c => .ok c

/-! ### Iterators -/

/-- `skip_empty()`: at most one round for each bucket. -/
def skipEmpty (m : CountedMap K V) : Nat → MapIterator → MapIterator
  | 0, it => it
  | fuel + 1, it =>
      if it.outer ≠ m.buckets.length ∧ it.inner = none then
        let outer := it.outer + 1
        match m.buckets[outer]? with
        | none => skipEmpty m fuel ⟨outer, it.inner⟩
        | some c => skipEmpty m fuel ⟨outer, c.begin⟩
      else it

/-- `iterator(outer, buckets.end(), inner)`. -/
def iterator (m : CountedMap K V) (outer : Nat) (inner : Option Nat) : MapIterator :=
  m.skipEmpty m.buckets.length ⟨outer, inner⟩

/-- `begin`. -/
def begin (m : CountedMap K V) : MapIterator :=
  m.iterator 0 ((m.buckets.head?.map Chain.begin).getD none)

/-- `end`. -/
def endIt (m : CountedMap K V) : MapIterator := ⟨m.buckets.length, none⟩

/-- `operator==`. -/
def same (m : CountedMap K V) (it other : MapIterator) : Bool :=
  it.outer = other.outer && (it.outer = m.buckets.length || it.inner = other.inner)

/-- `*it`. -/
def deref (m : CountedMap K V) (it : MapIterator) : Except Panic (K × V) := do
  let c ← bucket m.buckets it.outer
  match it.inner with
  | none => .error .nullPointer
  | some a =>
      match c.nodes.find? (·.1 = a) with
      | none => .error .outOfBounds
      | some node => .ok node.2

/-- `++it`. -/
def increment (m : CountedMap K V) (it : MapIterator) : Except Panic MapIterator := do
  let c ← bucket m.buckets it.outer
  match it.inner with
  | none => .error .nullPointer
  | some a =>
      if a ∈ c.addresses then .ok (m.iterator it.outer (c.next a)) else .error .outOfBounds

/-- The pairs that a loop from `it` to `end()` sees, in at most so many rounds. -/
def walk (m : CountedMap K V) : Nat → MapIterator → Except Panic (List (K × V))
  | 0, it => if m.same it m.endIt then .ok [] else .error .halt
  | fuel + 1, it =>
      if m.same it m.endIt then .ok []
      else do
        let kv ← m.deref it
        let rest ← m.walk fuel (← m.increment it)
        return kv :: rest

/-! ### Rehashing -/

variable [Hash K]

/-- The loop that moves a bucket to the new table, pair by pair from the back. -/
def drain : Nat → Chain (K × V) → List (Chain (K × V)) × Nat →
    Except Panic (List (Chain (K × V)) × Nat)
  | 0, c, table => if c.empty then .ok table else .error .halt
  | fuel + 1, c, (realloc, fresh) =>
      if c.empty then .ok (realloc, fresh)
      else do
        let pop ← c.back
        let loc := loc realloc.length pop.1
        let into ← (← bucket realloc loc).emplaceBack fresh pop
        drain fuel (← c.popBack) (realloc.set loc into, fresh + 1)

/-- `rehash(count)`. -/
def rehash (m : CountedMap K V) (count : Nat) : Except Panic (CountedMap K V) :=
  if count < m.size then .ok m
  else do
    let (buckets, fresh) ← m.buckets.foldlM (fun table c => drain c.size c table)
      (List.replicate count {}, m.fresh)
    return { buckets, size := m.size, fresh }

/-- The doubling before an insertion. -/
def grow (m : CountedMap K V) : Except Panic (CountedMap K V) :=
  if m.size = m.buckets.length then m.rehash (m.buckets.length * 2) else .ok m

/-! ### Keys -/

variable [DecidableEq K]

/-- The first node of a bucket with the key. -/
def node (c : Chain (K × V)) (key : K) : Option Nat :=
  (c.nodes.find? fun n => n.2.1 = key).map Prod.fst

/-- `emplace(key, value)`, and `insert` of the pair: the iterator, and whether a pair
was inserted. -/
def emplace (m : CountedMap K V) (key : K) (value : V) :
    Except Panic ((MapIterator × Bool) × CountedMap K V) := do
  let m ← m.grow
  let loc := loc m.buckets.length key
  let c ← bucket m.buckets loc
  match node c key with
  | some a => return ((m.iterator loc (some a), false), m)
  | none =>
      let c ← c.emplaceBack m.fresh (key, value)
      let m := ⟨m.buckets.set loc c, m.size + 1, m.fresh + 1⟩
      return ((m.iterator loc (last none c.nodes), true), m)

/-- The value of a node is changed by `f`. -/
def write (c : Chain (K × V)) (a : Nat) (f : V → V) : Chain (K × V) :=
  { c with nodes := c.nodes.map fun n => if n.1 = a then (n.1, (n.2.1, f n.2.2)) else n }

/-- `operator[]`, with the value behind the reference changed by `f`; the bucket is
that of `hashed`, the keys are compared with `key`, and `dflt` is `T()`. -/
def subscriptAt (m : CountedMap K V) (hashed key : K) (dflt : V) (f : V → V) :
    Except Panic (CountedMap K V) := do
  let m ← m.grow
  let loc := loc m.buckets.length hashed
  let c ← bucket m.buckets loc
  match node c key with
  | some a => return { m with buckets := m.buckets.set loc (write c a f) }
  | none =>
      let c ← c.emplaceBack m.fresh (key, f dflt)
      return ⟨m.buckets.set loc c, m.size + 1, m.fresh + 1⟩

/-- `operator[](const Key&)`. -/
def subscript (m : CountedMap K V) (key : K) (dflt : V) (f : V → V) :
    Except Panic (CountedMap K V) := m.subscriptAt key key dflt f

/-- `operator[](Key&&)`, which hashes the key it has moved from; the move of an
integer copies it. -/
def subscriptMove (m : CountedMap K V) (key : K) (dflt : V) (f : V → V) :
    Except Panic (CountedMap K V) :=
  let rval := key
  m.subscriptAt key rval dflt f

/-- `find`. -/
def find (m : CountedMap K V) (key : K) : Except Panic MapIterator := do
  let loc := loc m.buckets.length key
  let c ← bucket m.buckets loc
  match node c key with
  | some a => return m.iterator loc (some a)
  | none => return m.endIt

/-- `contains`. -/
def contains (m : CountedMap K V) (key : K) : Except Panic Bool := do
  let c ← bucket m.buckets (loc m.buckets.length key)
  return (node c key).isSome

/-- `erase(pos)`. -/
def eraseAt (m : CountedMap K V) (pos : MapIterator) :
    Except Panic (MapIterator × CountedMap K V) :=
  if m.same pos m.endIt then .ok (m.endIt, m)
  else do
    let next ← m.increment pos
    let c ← bucket m.buckets pos.outer
    let (_, c) ← c.erase pos.inner
    return (next, { m with buckets := m.buckets.set pos.outer c })

/-- `erase(key)`. -/
def erase (m : CountedMap K V) (key : K) : Except Panic (Bool × CountedMap K V) := do
  let loc := loc m.buckets.length key
  let c ← bucket m.buckets loc
  match node c key with
  | some a =>
      let (_, c) ← c.erase (some a)
      return (true, { m with buckets := m.buckets.set loc c })
  | none => return (false, m)

end CountedMap

/-! ### Buckets that count their nodes -/

namespace CountedMap

variable {K V : Type} {m : CountedMap K V}

/-- The pairs in their buckets. -/
def plain (m : CountedMap K V) : UnorderedMap K V := ⟨m.buckets.map Chain.values, m.size⟩

/-- The buckets count their nodes, which are their own. -/
def Exact (m : CountedMap K V) : Prop := ∀ c ∈ m.buckets, c.Sound m.fresh

/-- A new map is exact. -/
theorem exact_ofBucketCount {count : Nat} : (ofBucketCount count : CountedMap K V).Exact := by
  intro c hc
  rw [List.eq_of_mem_replicate hc]
  exact Chain.sound_empty

/-- It is the plain map without pairs. -/
theorem plain_ofBucketCount {count : Nat} :
    (ofBucketCount count : CountedMap K V).plain = UnorderedMap.ofBucketCount count := by
  unfold plain ofBucketCount UnorderedMap.ofBucketCount
  rw [List.map_replicate]
  rfl

/-- A pair appended to one bucket. -/
theorem map_values_set {buckets : List (Chain (K × V))} {i : Nat} {c c' : Chain (K × V)}
    {kv : K × V} (hc : buckets[i]? = some c) (hc' : c'.values = c.values ++ [kv]) :
    (buckets.set i c').map Chain.values = Buckets.push (buckets.map Chain.values) i kv := by
  induction buckets generalizing i with
  | nil => cases hc
  | cons b rest ih =>
      cases i with
      | zero =>
          obtain rfl : b = c := Option.some.inj hc
          simp only [List.set_cons_zero, List.map_cons, Buckets.push, List.modify_zero_cons, hc']
      | succ i =>
          have := ih hc
          simp only [Buckets.push] at this
          simp only [List.set_cons_succ, List.map_cons, Buckets.push, List.modify_succ_cons, this]

/-- A bucket that is set keeps the nodes sound. -/
theorem sound_set {buckets : List (Chain (K × V))} {fresh fresh' i : Nat} {c : Chain (K × V)}
    (h : ∀ c ∈ buckets, c.Sound fresh) (hle : fresh ≤ fresh') (hc : c.Sound fresh') :
    ∀ c' ∈ buckets.set i c, c'.Sound fresh' := by
  intro c' hc'
  rcases List.mem_or_eq_of_mem_set hc' with hmem | rfl
  · exact (h c' hmem).mono hle
  · exact hc

/-- A bucket below the count is there. -/
theorem bucket_ok {buckets : List (Chain (K × V))} {i : Nat} (hi : i < buckets.length) :
    bucket buckets i = .ok buckets[i] := by
  rw [bucket, List.getElem?_eq_getElem hi]

/-- It has the values of the plain one. -/
theorem plain_bucket {i : Nat} (hi : i < m.buckets.length) :
    m.plain.buckets[i]? = some m.buckets[i].values := by
  unfold plain
  rw [List.getElem?_map, List.getElem?_eq_getElem hi]
  rfl

@[simp] theorem length_plain : m.plain.buckets.length = m.buckets.length := List.length_map _

/-- A value that is written over keeps the bucket sound. -/
theorem sound_write {fresh : Nat} {c : Chain (K × V)} {a : Nat} {f : V → V} (h : c.Sound fresh) :
    (write c a f).Sound fresh := by
  have haddresses : (write c a f).addresses = c.addresses := by
    unfold write
    rw [Chain.addresses, DoublyLinked.addresses, List.map_map]
    refine List.map_congr_left fun n _ => ?_
    show (if n.1 = a then _ else n).1 = n.1
    split <;> rfl
  refine ⟨?_, ?_, ?_⟩
  · show c.size = List.length (List.map _ _)
    rw [List.length_map]
    exact h.counted
  · rw [haddresses]
    exact h.nodup
  · rw [haddresses]
    exact h.below

/-! ### Rehashing moves the pairs -/

variable [Hash K]

/-- **Moving one bucket.** -/
theorem drain_eq {fuel fresh : Nat} {c : Chain (K × V)} {realloc : List (Chain (K × V))}
    (hpos : 0 < realloc.length) (hrealloc : ∀ c ∈ realloc, c.Sound fresh) (hc : c.Counted)
    (hfuel : c.size = fuel) :
    ∃ realloc' fresh', drain fuel c (realloc, fresh) = .ok (realloc', fresh') ∧
      (∀ c ∈ realloc', c.Sound fresh') ∧ fresh ≤ fresh' ∧ realloc'.length = realloc.length ∧
      realloc'.map Chain.values = Buckets.distribute (fun kv => loc realloc.length kv.1)
        (realloc.map Chain.values) c.values.reverse := by
  induction fuel generalizing c realloc fresh with
  | zero =>
      have hnil := hc.size_eq_zero.mp hfuel
      refine ⟨realloc, fresh, ?_, hrealloc, Nat.le_refl _, rfl, ?_⟩
      · rw [drain, if_pos (by rw [Chain.empty, hfuel]; rfl)]
      · rw [Chain.values, hnil]
        rfl
  | succ fuel ih =>
      have hne : c.nodes ≠ [] := fun hnil => by
        rw [hc.size_eq_zero.mpr hnil] at hfuel
        cases hfuel
      obtain ⟨nodes, size⟩ := c
      rcases List.eq_nil_or_concat nodes with rfl | ⟨ns, ⟨a, kv⟩, rfl⟩
      · exact absurd rfl hne
      rw [List.concat_eq_append] at *
      have hcount : size = ns.length + 1 := by simpa [Chain.Counted] using hc
      replace hfuel : size = fuel + 1 := hfuel
      have hloc : loc realloc.length kv.1 < realloc.length := loc_lt hpos _
      have hinto := hrealloc _ (List.getElem_mem hloc)
      obtain ⟨realloc', fresh', hdrain, hsound, hle, hlength, hvalues⟩ := ih
        (c := ⟨ns, size - 1⟩) (by rw [List.length_set]; exact hpos)
        (sound_set (i := loc realloc.length kv.1) hrealloc (Nat.le_succ _) (hinto.push kv))
        (show size - 1 = ns.length by omega) (show size - 1 = fuel by omega)
      refine ⟨realloc', fresh', ?_, hsound, by omega, by rw [hlength, List.length_set], ?_⟩
      · have hempty : ¬ Chain.empty ⟨ns ++ [(a, kv)], size⟩ = true := by
          rw [Chain.empty]
          simp [hfuel]
        have hpop := hc.popBack hne
        rw [List.dropLast_concat] at hpop
        rw [drain, if_neg hempty, Chain.back, List.getLast?_concat]
        dsimp only
        rw [Except.ok_bind, bucket_ok hloc, Except.ok_bind, hinto.counted.emplaceBack,
          Except.ok_bind, hpop, Except.ok_bind]
        exact hdrain
      · rw [hvalues, List.length_set, map_values_set (List.getElem?_eq_getElem hloc)
          (by rw [Chain.values, Chain.values, List.map_append]; rfl), Chain.values, Chain.values,
          List.map_append, List.reverse_append]
        rfl

/-- **Rehashing** moves the pairs as it does on plain buckets. -/
theorem Exact.rehash (h : m.Exact) {count : Nat} (hpos : 0 < count) :
    ∃ m', m.rehash count = .ok m' ∧ m'.Exact ∧ m'.plain = m.plain.rehash count := by
  unfold CountedMap.rehash UnorderedMap.rehash
  by_cases hsmall : count < m.size
  · exact ⟨m, if_pos hsmall, h, (if_pos (show count < m.plain.size from hsmall)).symm⟩
  rw [if_neg hsmall, if_neg (show ¬ count < m.plain.size from hsmall)]
  have hfold : ∀ (bs realloc : List (Chain (K × V))) (fresh : Nat), 0 < realloc.length →
      (∀ c ∈ bs, c.Counted) → (∀ c ∈ realloc, c.Sound fresh) →
      ∃ realloc' fresh', bs.foldlM (fun table c => drain c.size c table) (realloc, fresh) =
          (.ok (realloc', fresh') : Except Panic _) ∧
        (∀ c ∈ realloc', c.Sound fresh') ∧
        realloc'.map Chain.values = Buckets.distribute (fun kv => loc realloc.length kv.1)
          (realloc.map Chain.values) (bs.flatMap fun c => c.values.reverse) := by
    intro bs
    induction bs with
    | nil => exact fun realloc fresh _ _ hr => ⟨realloc, fresh, rfl, hr, rfl⟩
    | cons c rest ih =>
        intro realloc fresh hlen hbs hr
        obtain ⟨realloc₁, fresh₁, hdrain, hsound, -, hlength, hvalues⟩ :=
          drain_eq hlen hr (hbs c List.mem_cons_self) rfl
        obtain ⟨realloc', fresh', hrest, hsound', hvalues'⟩ := ih realloc₁ fresh₁
          (by rw [hlength]; exact hlen) (fun c hc => hbs c (List.mem_cons_of_mem _ hc)) hsound
        refine ⟨realloc', fresh', ?_, hsound', ?_⟩
        · rw [List.foldlM_cons, hdrain]
          exact hrest
        · rw [hvalues', hvalues, hlength, List.flatMap_cons, Buckets.distribute_append]
  obtain ⟨realloc', fresh', hdrain, hsound, hvalues⟩ := hfold m.buckets
    (List.replicate count {}) m.fresh (by rw [List.length_replicate]; exact hpos)
    (fun c hc => (h c hc).counted) fun c hc => by
      rw [List.eq_of_mem_replicate hc]
      exact Chain.sound_empty
  refine ⟨⟨realloc', m.size, fresh'⟩, ?_, hsound, ?_⟩
  · rw [hdrain]
    rfl
  · have hplain : m.plain.buckets.flatMap List.reverse =
        m.buckets.flatMap fun c => c.values.reverse := List.flatMap_map _ _ _
    show UnorderedMap.mk (realloc'.map Chain.values) m.size = _
    rw [hvalues, List.length_replicate, List.map_replicate, hplain]
    rfl

/-- Growing keeps the map exact. -/
theorem Exact.grow (h : m.Exact) (hpos : 0 < m.buckets.length) :
    ∃ m', m.grow = .ok m' ∧ m'.Exact ∧ m'.plain = m.plain.grow := by
  have hlength : m.plain.buckets.length = m.buckets.length := List.length_map _
  unfold CountedMap.grow UnorderedMap.grow
  rw [hlength]
  by_cases hfull : m.size = m.buckets.length
  · rw [if_pos hfull, if_pos (show m.plain.size = _ from hfull)]
    exact h.rehash (by omega)
  · rw [if_neg hfull, if_neg (show ¬ m.plain.size = _ from hfull)]
    exact ⟨m, rfl, h, rfl⟩

/-- The keys of one bucket are different. -/
theorem keys_nodup (hwf : m.plain.WF) {c : Chain (K × V)} (hc : c ∈ m.buckets) :
    (c.values.map Prod.fst).Nodup := by
  have hsub : c.values.Sublist m.plain.entries :=
    List.sublist_flatten_of_mem (List.mem_map_of_mem hc)
  exact hwf.distinct.sublist (hsub.map Prod.fst)

/-! ### Keys in their buckets -/

section

variable [DecidableEq K] {key : K}

omit [Hash K] in
/-- A node is found exactly for a key that the bucket has. -/
theorem node_isSome (c : Chain (K × V)) (key : K) :
    (node c key).isSome = c.values.any fun kv => kv.1 = key := by
  unfold node Chain.values
  rw [Option.isSome_map, List.isSome_find?, List.any_map]
  rfl

omit [Hash K] in
/-- The node that is found has the key. -/
theorem node_eq_some {c : Chain (K × V)} {a : Nat} (h : node c key = some a) :
    ∃ v, (a, (key, v)) ∈ c.nodes := by
  obtain ⟨⟨b, k, v⟩, hfind, rfl⟩ := Option.map_eq_some_iff.mp h
  obtain rfl : k = key := by simpa using List.find?_some hfind
  exact ⟨v, List.mem_of_find?_eq_some hfind⟩

omit [Hash K] in
/-- Writing through the first node with the key reaches the pair with the key. -/
theorem values_write {c : Chain (K × V)} {a : Nat} {f : V → V} (ha : node c key = some a)
    (hnodup : c.addresses.Nodup) (hkeys : (c.values.map Prod.fst).Nodup) :
    (write c a f).values = c.values.map (changed key f) := by
  obtain ⟨v, hmem⟩ := node_eq_some ha
  unfold write Chain.values
  rw [List.map_map, List.map_map]
  refine List.map_congr_left fun n hn => ?_
  obtain ⟨b, k, w⟩ := n
  have hkeys' : (c.nodes.map fun n => n.2.1).Nodup := by
    rwa [Chain.values, List.map_map] at hkeys
  by_cases hb : b = a
  · subst hb
    obtain ⟨-, hkv⟩ := Prod.mk.inj (List.inj_on_of_nodup_map hnodup hn hmem rfl)
    obtain ⟨rfl, -⟩ := Prod.mk.inj hkv
    simp [changed]
  · have hk : k ≠ key := by
      rintro rfl
      exact hb (Prod.mk.inj (List.inj_on_of_nodup_map hkeys' hn hmem rfl)).1
    simp [changed, hb, hk]

/-- **Emplace** does what it does on plain buckets. -/
theorem Exact.emplace (h : m.Exact) (hpos : 0 < m.buckets.length) (key : K) (value : V) :
    ∃ it b m', m.emplace key value = .ok ((it, b), m') ∧ m'.Exact ∧
      m.plain.emplace key value = .ok (b, m'.plain) := by
  obtain ⟨m₁, hgrow, hexact, hplain⟩ := h.grow hpos
  have hpos₁ : 0 < m₁.buckets.length := by
    rw [← length_plain, hplain]
    exact length_grow_pos (by rw [length_plain]; exact hpos)
  have hloc : loc m₁.buckets.length key < m₁.buckets.length := loc_lt hpos₁ key
  have hsound := hexact _ (List.getElem_mem hloc)
  have hany := node_isSome m₁.buckets[loc m₁.buckets.length key] key
  unfold CountedMap.emplace UnorderedMap.emplace
  rw [hgrow]
  dsimp only
  rw [← hplain, length_plain, plain_bucket hloc]
  cases hnode : node m₁.buckets[loc m₁.buckets.length key] key with
  | some a =>
      rw [hnode] at hany
      refine ⟨m₁.iterator (loc m₁.buckets.length key) (some a), false, m₁, ?_, hexact, ?_⟩
      · rw [Except.ok_bind, bucket_ok hloc, Except.ok_bind, hnode]
        rfl
      · exact if_pos hany.symm
  | none =>
      rw [hnode] at hany
      obtain ⟨c', hemplace, hsound', hvalues⟩ := hsound.emplaceBack (key, value)
      let m' : CountedMap K V :=
        ⟨m₁.buckets.set (loc m₁.buckets.length key) c', m₁.size + 1, m₁.fresh + 1⟩
      refine ⟨m'.iterator (loc m₁.buckets.length key) (last none c'.nodes), true, m', ?_,
        sound_set hexact (Nat.le_succ _) hsound', ?_⟩
      · rw [Except.ok_bind, bucket_ok hloc, Except.ok_bind, hnode]
        dsimp only
        rw [hemplace]
        rfl
      · have hno : ¬ (m₁.buckets[loc m₁.buckets.length key].values.any
            fun kv => kv.1 = key) = true := by
          rw [← hany]
          exact Bool.false_ne_true
        dsimp only
        rw [if_neg hno]
        congr 2
        unfold plain
        rw [map_values_set (List.getElem?_eq_getElem hloc) hvalues]

/-- **Subscript** does what it does on plain buckets. -/
theorem Exact.subscript (h : m.Exact) (hwf : m.plain.WF) (key : K) (dflt : V) (f : V → V) :
    ∃ m', m.subscript key dflt f = .ok m' ∧ m'.Exact ∧
      m.plain.modify key dflt f = .ok m'.plain := by
  have hpos : 0 < m.buckets.length := by
    rw [← length_plain]
    exact hwf.pos
  obtain ⟨m₁, hgrow, hexact, hplain⟩ := h.grow hpos
  have hwf₁ : m₁.plain.WF := hplain ▸ hwf.grow.1
  have hpos₁ : 0 < m₁.buckets.length := by
    rw [← length_plain]
    exact hwf₁.pos
  have hloc : loc m₁.buckets.length key < m₁.buckets.length := loc_lt hpos₁ key
  have hmem := List.getElem_mem hloc
  have hsound := hexact _ hmem
  have hany := node_isSome m₁.buckets[loc m₁.buckets.length key] key
  unfold CountedMap.subscript CountedMap.subscriptAt UnorderedMap.modify
  rw [hgrow]
  dsimp only
  rw [← hplain, length_plain, plain_bucket hloc]
  cases hnode : node m₁.buckets[loc m₁.buckets.length key] key with
  | some a =>
      rw [hnode] at hany
      refine ⟨⟨m₁.buckets.set (loc m₁.buckets.length key)
        (write m₁.buckets[loc m₁.buckets.length key] a f), m₁.size, m₁.fresh⟩, ?_,
        sound_set hexact (Nat.le_refl _) (sound_write hsound), ?_⟩
      · rw [Except.ok_bind, bucket_ok hloc, Except.ok_bind, hnode]
        rfl
      · have hyes : (m₁.buckets[loc m₁.buckets.length key].values.any
            fun kv => kv.1 = key) = true := hany.symm
        dsimp only
        rw [if_pos hyes]
        congr 1
        unfold plain
        rw [List.map_set, values_write hnode hsound.nodup (keys_nodup hwf₁ hmem)]
        rfl
  | none =>
      rw [hnode] at hany
      obtain ⟨c', hemplace, hsound', hvalues⟩ := hsound.emplaceBack (key, f dflt)
      refine ⟨⟨m₁.buckets.set (loc m₁.buckets.length key) c', m₁.size + 1, m₁.fresh + 1⟩, ?_,
        sound_set hexact (Nat.le_succ _) hsound', ?_⟩
      · rw [Except.ok_bind, bucket_ok hloc, Except.ok_bind, hnode]
        dsimp only
        rw [hemplace]
        rfl
      · have hno : ¬ (m₁.buckets[loc m₁.buckets.length key].values.any
            fun kv => kv.1 = key) = true := by
          rw [← hany]
          exact Bool.false_ne_true
        dsimp only
        rw [if_neg hno]
        congr 1
        unfold plain
        rw [map_values_set (List.getElem?_eq_getElem hloc) hvalues]

end

end CountedMap

end Kernel
