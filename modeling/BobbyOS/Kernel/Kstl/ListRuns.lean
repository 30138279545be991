import BobbyOS.Kernel.Kstl.ListLoops
import BobbyOS.Lib.Result

/-!
# Runs of list operations

Any number of list objects share a memory, and are constructed, assigned and
changed in any order.  The same operations on plain sequences say what they are
for.

* `list_runs`: as long as no `erase` takes out a node between two others, every
  list is its sequence after every operation: the ends, the links both ways and the
  count are right.  A pop of an empty list fails its assertion, and nothing else
  fails.
* `Lists.Represents.erase_between`: an `erase` between two others leaves a count that
  is one too high.
-/

namespace Kernel

open DoublyLinked Effects LinkedList

variable {α : Type}

/-- List objects and their memory. -/
structure Lists (α : Type) where
  memory : Memory α
  lists : Nat → LinkedList

/-- Nothing but lists without nodes. -/
def Lists.initial : Lists α := ⟨.empty, fun _ => {}⟩

/-- The operations.  A constructor makes a new object in the place of one that is
destroyed first. -/
inductive ListOp (α : Type)
  | ofCount (i count : Nat) (value : α)
  | ofInitializerList (i : Nat) (values : List α)
  | copyConstruct (i other : Nat)
  | moveConstruct (i other : Nat)
  | copyAssign (i other : Nat)
  | moveAssign (i other : Nat)
  | emplaceFront (i : Nat) (value : α)
  | emplaceBack (i : Nat) (value : α)
  | popFront (i : Nat)
  | popBack (i : Nat)
  | erase (i k : Nat)
  | resize (i count : Nat) (value : α)
  | clear (i : Nat)

namespace ListOp

/-! ### On lists -/

/-- An operation on one object. -/
def onList (i : Nat) (f : LinkedList → ListM α LinkedList) (s : Lists α) :
    Except Panic (Lists α) :=
  match f (s.lists i) s.memory with
  | .ok l m => .ok ⟨m, Function.update s.lists i l⟩
  | .error e _ => .error e

/-- An operation that takes over the nodes of another object. -/
def onLists (i other : Nat) (f : LinkedList → LinkedList → ListM α (LinkedList × LinkedList))
    (s : Lists α) : Except Panic (Lists α) :=
  match f (s.lists i) (s.lists other) s.memory with
  | .ok (l, l') m => .ok ⟨m, Function.update (Function.update s.lists i l) other l'⟩
  | .error e _ => .error e

/-- `begin()` moved on `k` times is erased. -/
def eraseAt (k : Nat) (l : LinkedList) : ListM α LinkedList := do
  let pos ← advance k l.head
  let (_, l) ← l.erase pos
  return l

/-- One operation on the objects. -/
def exec (op : ListOp α) (s : Lists α) : Except Panic (Lists α) :=
  match op with
  | .ofCount i count value =>
      onList i (fun l => do let _ ← LinkedList.clear l; LinkedList.ofCount count value) s
  | .ofInitializerList i values =>
      onList i (fun l => do let _ ← LinkedList.clear l; ofValues values) s
  | .copyConstruct i other =>
      onList i (fun l => do let _ ← LinkedList.clear l; copy (s.lists other)) s
  | .moveConstruct i other =>
      onLists i other (fun l l' => do let _ ← LinkedList.clear l; return (l', {})) s
  | .copyAssign i other =>
      if i = other then .ok s else onList i (fun l => assign l (s.lists other)) s
  | .moveAssign i other => if i = other then .ok s else onLists i other assignMove s
  | .emplaceFront i value => onList i (fun l => l.emplaceFront value) s
  | .emplaceBack i value => onList i (fun l => l.emplaceBack value) s
  | .popFront i => onList i LinkedList.popFront s
  | .popBack i => onList i LinkedList.popBack s
  | .erase i k => onList i (eraseAt k) s
  | .resize i count value => onList i (fun l => l.resize count value) s
  | .clear i => onList i LinkedList.clear s

/-- Operations one after the other. -/
def execAll (ops : List (ListOp α)) (s : Lists α) : Except Panic (Lists α) :=
  ops.foldlM (fun s op => op.exec s) s

/-! ### On sequences -/

/-- What the operation does to the sequences; a pop needs an element. -/
def apply (op : ListOp α) (r : Nat → List α) : Option (Nat → List α) :=
  match op with
  | .ofCount i count value => some (Function.update r i (List.replicate count value))
  | .ofInitializerList i values => some (Function.update r i values)
  | .copyConstruct i other => some (Function.update r i (r other))
  | .moveConstruct i other => some (Function.update (Function.update r i (r other)) other [])
  | .copyAssign i other => some (Function.update r i (r other))
  | .moveAssign i other =>
      some (if i = other then r else Function.update (Function.update r i (r other)) other [])
  | .emplaceFront i value => some (Function.update r i (value :: r i))
  | .emplaceBack i value => some (Function.update r i (r i ++ [value]))
  | .popFront i => if r i = [] then none else some (Function.update r i (r i).tail)
  | .popBack i => if r i = [] then none else some (Function.update r i (r i).dropLast)
  | .erase i k => some (Function.update r i ((r i).eraseIdx k))
  | .resize i count value => some (Function.update r i
      ((r i).take count ++ List.replicate (count - (r i).length) value))
  | .clear i => some (Function.update r i [])

/-- What they do to the sequences, where they are defined. -/
def applyAll (ops : List (ListOp α)) (r : Nat → List α) : Option (Nat → List α) :=
  ops.foldlM (fun r op => op.apply r) r

/-- A constructor does not read the object it replaces, and a position is at most
the end. -/
def Valid (op : ListOp α) (r : Nat → List α) : Prop :=
  match op with
  | .copyConstruct i other | .moveConstruct i other => i ≠ other
  | .erase i k => k ≤ (r i).length
  | _ => True

/-- No node between two others is taken out. -/
def AtEnd (op : ListOp α) (r : Nat → List α) : Prop :=
  match op with
  | .erase i k => k = 0 ∨ (r i).length ≤ k + 1
  | _ => True

/-- A condition on each operation and the sequences before it. -/
def Along (P : ListOp α → (Nat → List α) → Prop) : List (ListOp α) → (Nat → List α) → Prop
  | [], _ => True
  | op :: ops, r => P op r ∧
      match op.apply r with
      | some r' => Along P ops r'
      | none => True

end ListOp

/-! ### A list and its sequence -/

/-- The list object is the sequence: its ends are the ends, the links lead from
each node to the ones before and behind it, and the count is the length. -/
def LinkedList.IsList (m : Memory α) (l : LinkedList) (values : List α) : Prop :=
  ∃ nodes : List (Nat × α), nodes.map Prod.snd = values ∧ l.size = values.length ∧
    l.head = nodes.head?.map Prod.fst ∧ l.tail = nodes.getLast?.map Prod.fst ∧
    ∀ (i a : Nat) (x : α), nodes[i]? = some (a, x) →
      m.cell a = some ⟨if i = 0 then none else nodes[i - 1]?.map Prod.fst,
        nodes[i + 1]?.map Prod.fst, x⟩

/-- Every list is its sequence, and its ends can be read. -/
structure Lists.Are (s : Lists α) (r : Nat → List α) : Prop where
  list : ∀ i, (s.lists i).IsList s.memory (r i)
  front : ∀ i v, (r i).head? = some v → Returns (front (s.lists i)) s.memory v s.memory
  back : ∀ i v, (r i).getLast? = some v → Returns (back (s.lists i)) s.memory v s.memory

variable {m : Memory α} {l : LinkedList} {c : Chain α} {s : Lists α} {r : Nat → List α}

/-- A counted chain is the list of its values. -/
theorem Stores.isList (h : Stores m l c) (hc : c.Counted) : l.IsList m c.values := by
  refine ⟨c.nodes, rfl, ?_, ?_, ?_, fun i a x hi => h.segment.linked.getElem? hi⟩
  · rw [h.size, hc.length_values]
  · rw [h.head, first_eq_head?]
  · rw [h.tail, last_eq_getLast?, Option.or_none]

/-- `front` is the first value. -/
theorem Stores.front (h : Stores m l c) {v : α} (hv : c.values.head? = some v) :
    Returns (front l) m v m := by
  obtain ⟨nodes, size⟩ := c
  cases nodes with
  | nil => cases hv
  | cons node rest =>
      obtain ⟨a, x⟩ := node
      obtain rfl : x = v := Option.some.inj hv
      unfold LinkedList.front
      rw [h.head]
      exact (returns_assert rfl).bind ((returns_deref h.segment.linked.1).bind rfl)

/-- `back` is the last one. -/
theorem Stores.back (h : Stores m l c) {v : α} (hv : c.values.getLast? = some v) :
    Returns (back l) m v m := by
  obtain ⟨nodes, size⟩ := c
  rcases List.eq_nil_or_concat nodes with rfl | ⟨ns, ⟨a, x⟩, rfl⟩
  · cases hv
  · rw [List.concat_eq_append] at *
    obtain rfl : x = v := by
      rw [Chain.values, List.map_append, List.map_cons, List.map_nil, List.getLast?_concat] at hv
      exact Option.some.inj hv
    unfold LinkedList.back
    rw [h.tail, last_concat]
    exact (returns_assert rfl).bind ((returns_deref h.segment.linked.cell_eq).bind rfl)

/-- The objects are worth these chains, with right counts and no node in two. -/
structure Lists.Pool (s : Lists α) (C : Nat → Chain α) : Prop where
  bounded : s.memory.Bounded
  stores : ∀ i, Stores s.memory (s.lists i) (C i)
  counted : ∀ i, (C i).Counted
  disjoint : ∀ i j, i ≠ j → ∀ a ∈ (C i).addresses, a ∉ (C j).addresses

/-- Chains whose values are the sequences. -/
def Lists.Represents (s : Lists α) (r : Nat → List α) : Prop :=
  ∃ C : Nat → Chain α, s.Pool C ∧ ∀ i, (C i).values = r i

/-- Before the first operation all lists are empty. -/
theorem Lists.represents_initial : (Lists.initial : Lists α).Represents fun _ => [] :=
  ⟨fun _ => {}, ⟨fun _ _ => rfl, fun _ => stores_empty fun _ _ => rfl, fun _ => rfl,
    fun _ _ _ _ ha => by cases ha⟩, fun _ => rfl⟩

/-- Represented lists are what they should be. -/
theorem Lists.Represents.are (h : s.Represents r) : s.Are r := by
  obtain ⟨C, hpool, hvalues⟩ := h
  refine ⟨fun i => ?_, fun i v hv => ?_, fun i v hv => ?_⟩
  · rw [← hvalues i]
    exact (hpool.stores i).isList (hpool.counted i)
  · rw [← hvalues i] at hv
    exact (hpool.stores i).front hv
  · rw [← hvalues i] at hv
    exact (hpool.stores i).back hv

/-! ### One operation -/

/-- One object gets new values, the others keep theirs. -/
theorem Lists.Pool.onList {C : Nat → Chain α} (h : s.Pool C) (hvalues : ∀ j, (C j).values = r j)
    {i : Nat} {f : LinkedList → ListM α LinkedList} {values : List α}
    (hf : ∃ l' m', Returns (f (s.lists i)) s.memory l' m' ∧
      Becomes s.memory m' (C i).addresses l' values) :
    ∃ s', ListOp.onList i f s = .ok s' ∧ s'.Represents (Function.update r i values) := by
  obtain ⟨l', m', hret, c', hstores, hcounted, hval, hchanges⟩ := hf
  have hother : ∀ j, j ≠ i → Stores m' (s.lists j) (C j) ∧
      ∀ a ∈ (C j).addresses, a ∉ c'.addresses :=
    fun j hj => (h.stores j).frame hchanges (h.disjoint j i hj)
  refine ⟨⟨m', Function.update s.lists i l'⟩, ?_, Function.update C i c',
    ⟨hchanges.bounded, fun j => ?_, fun j => ?_, fun j k hjk a ha hmem => ?_⟩, fun j => ?_⟩
  · unfold ListOp.onList
    rw [show f (s.lists i) s.memory = .ok l' m' from hret]
  · by_cases hj : j = i
    · subst hj
      simpa only [Function.update_self] using hstores
    · simpa only [Function.update_of_ne hj] using (hother j hj).1
  · by_cases hj : j = i
    · subst hj
      rwa [Function.update_self]
    · rw [Function.update_of_ne hj]
      exact h.counted j
  · by_cases hj : j = i
    · subst hj
      rw [Function.update_self] at ha
      rw [Function.update_of_ne (Ne.symm hjk)] at hmem
      exact (hother k (Ne.symm hjk)).2 a hmem ha
    · rw [Function.update_of_ne hj] at ha
      by_cases hk : k = i
      · subst hk
        rw [Function.update_self] at hmem
        exact (hother j hj).2 a ha hmem
      · rw [Function.update_of_ne hk] at hmem
        exact h.disjoint j k hjk a ha hmem
  · by_cases hj : j = i
    · subst hj
      rw [Function.update_self, Function.update_self, hval]
    · rw [Function.update_of_ne hj, Function.update_of_ne hj, hvalues j]

/-- An object takes over the nodes of another one. -/
theorem Lists.Pool.onLists {C : Nat → Chain α} (h : s.Pool C) (hvalues : ∀ j, (C j).values = r j)
    {i other : Nat} (hne : i ≠ other)
    {f : LinkedList → LinkedList → ListM α (LinkedList × LinkedList)}
    (hf : ∃ m', Returns (f (s.lists i) (s.lists other)) s.memory (s.lists other, {}) m' ∧
      s.memory.Changes m' (C i).addresses []) :
    ∃ s', ListOp.onLists i other f s = .ok s' ∧
      s'.Represents (Function.update (Function.update r i (r other)) other []) := by
  obtain ⟨m', hret, hchanges⟩ := hf
  have hother : ∀ j, j ≠ i → Stores m' (s.lists j) (C j) :=
    fun j hj => ((h.stores j).frame hchanges (h.disjoint j i hj)).1
  refine ⟨⟨m', Function.update (Function.update s.lists i (s.lists other)) other {}⟩, ?_,
    Function.update (Function.update C i (C other)) other {},
    ⟨hchanges.bounded, fun j => ?_, fun j => ?_, fun j k hjk a ha hmem => ?_⟩, fun j => ?_⟩
  · unfold ListOp.onLists
    rw [show f (s.lists i) (s.lists other) s.memory = .ok (s.lists other, {}) m' from hret]
  · by_cases hj : j = other
    · subst hj
      simpa only [Function.update_self] using stores_empty hchanges.bounded
    · by_cases hi : j = i
      · subst hi
        simpa only [Function.update_of_ne hj, Function.update_self] using
          hother other (Ne.symm hne)
      · simpa only [Function.update_of_ne hj, Function.update_of_ne hi] using hother j hi
  · by_cases hj : j = other
    · subst hj
      rw [Function.update_self]
      rfl
    · rw [Function.update_of_ne hj]
      by_cases hi : j = i
      · subst hi
        rw [Function.update_self]
        exact h.counted other
      · rw [Function.update_of_ne hi]
        exact h.counted j
  · -- the place of `other` is empty, and its nodes are at `i` now
    by_cases hj : j = other
    · subst hj
      rw [Function.update_self] at ha
      cases ha
    by_cases hk : k = other
    · subst hk
      rw [Function.update_self] at hmem
      cases hmem
    rw [Function.update_of_ne hj] at ha
    rw [Function.update_of_ne hk] at hmem
    by_cases hji : j = i
    · subst hji
      rw [Function.update_self] at ha
      rw [Function.update_of_ne (Ne.symm hjk)] at hmem
      exact h.disjoint other k (Ne.symm hk) a ha hmem
    · rw [Function.update_of_ne hji] at ha
      by_cases hki : k = i
      · subst hki
        rw [Function.update_self] at hmem
        exact h.disjoint j other hj a ha hmem
      · rw [Function.update_of_ne hki] at hmem
        exact h.disjoint j k hjk a ha hmem
  · by_cases hj : j = other
    · subst hj
      rw [Function.update_self, Function.update_self]
      rfl
    · rw [Function.update_of_ne hj, Function.update_of_ne hj]
      by_cases hi : j = i
      · subst hi
        rw [Function.update_self, Function.update_self, hvalues other]
      · rw [Function.update_of_ne hi, Function.update_of_ne hi, hvalues j]

/-- A new object in the place of one that is destroyed first. -/
theorem Lists.Pool.construct {C : Nat → Chain α} (h : s.Pool C) {i : Nat} {f : ListM α LinkedList}
    {values : List α}
    (hf : ∀ m', s.memory.Changes m' (C i).addresses [] →
      ∃ l' m'', Returns f m' l' m'' ∧ Becomes m' m'' [] l' values) :
    ∃ l' m', Returns (do let _ ← LinkedList.clear (s.lists i); f) s.memory l' m' ∧
      Becomes s.memory m' (C i).addresses l' values := by
  obtain ⟨m', hclear, hchanges⟩ := (h.stores i).clear
  obtain ⟨l', m'', hret, c', hstores, hcounted, hval, hchanges'⟩ := hf m' hchanges
  exact ⟨l', m'', hclear.bind hret, c', hstores, hcounted, hval, hchanges.trans hchanges'⟩

/-- An operation that the sequences refuse. -/
theorem onList_error {i : Nat} {f : LinkedList → ListM α LinkedList} {e : Panic}
    (hf : ∃ m', f (s.lists i) s.memory = .error e m') : ListOp.onList i f s = .error e := by
  obtain ⟨m', hm'⟩ := hf
  unfold ListOp.onList
  rw [hm']

/-- **One operation.**  It does to the lists what it does to the sequences, or fails
an assertion where a sequence has nothing to pop. -/
theorem Lists.Represents.exec (h : s.Represents r) {op : ListOp α} (hvalid : op.Valid r)
    (hend : op.AtEnd r) :
    Except.Follows Lists.Represents (.assertFailed "_size > 0") (op.exec s) (op.apply r) := by
  obtain ⟨C, hpool, hvalues⟩ := h
  cases op with
  | ofCount i count value =>
      dsimp only [ListOp.apply, ListOp.exec]
      refine hpool.onList hvalues ?_
      exact hpool.construct fun m' hchanges => returns_ofValues hchanges.bounded _
  | ofInitializerList i values =>
      dsimp only [ListOp.apply, ListOp.exec]
      refine hpool.onList hvalues ?_
      exact hpool.construct fun m' hchanges => returns_ofValues hchanges.bounded _
  | copyConstruct i other =>
      dsimp only [ListOp.apply, ListOp.exec]
      refine hpool.onList hvalues ?_
      refine hpool.construct fun m' hchanges => ?_
      rw [← hvalues other]
      exact ((hpool.stores other).frame hchanges (hpool.disjoint other i (Ne.symm hvalid))).1.copy
        (hpool.counted other)
  | moveConstruct i other =>
      obtain ⟨m', hclear, hchanges⟩ := (hpool.stores i).clear
      dsimp only [ListOp.apply, ListOp.exec]
      refine hpool.onLists hvalues hvalid ?_
      exact ⟨m', hclear.bind rfl, hchanges⟩
  | copyAssign i other =>
      dsimp only [ListOp.apply, ListOp.exec]
      by_cases hi : i = other
      · subst hi
        rw [if_pos rfl]
        exact ⟨s, rfl, C, hpool, by rwa [Function.update_eq_self]⟩
      · rw [if_neg hi]
        have := (hpool.stores i).assign (hpool.stores other) (hpool.counted other)
        rw [hvalues other] at this
        exact hpool.onList hvalues this
  | moveAssign i other =>
      dsimp only [ListOp.apply, ListOp.exec]
      by_cases hi : i = other
      · rw [if_pos hi, if_pos hi]
        exact ⟨s, rfl, C, hpool, hvalues⟩
      · rw [if_neg hi, if_neg hi]
        obtain ⟨m', hclear, hchanges⟩ := (hpool.stores i).clear
        refine hpool.onLists hvalues hi ?_
        exact ⟨m', hclear.bind rfl, hchanges⟩
  | emplaceFront i value =>
      dsimp only [ListOp.apply, ListOp.exec]
      refine hpool.onList hvalues ?_
      rw [← hvalues i]
      exact (hpool.stores i).pushFront (hpool.counted i) value
  | emplaceBack i value =>
      dsimp only [ListOp.apply, ListOp.exec]
      refine hpool.onList hvalues ?_
      rw [← hvalues i]
      exact (hpool.stores i).pushBack (hpool.counted i) value
  | popFront i =>
      unfold ListOp.apply
      by_cases hnil : r i = []
      · simp only [if_pos hnil]
        refine onList_error ((hpool.stores i).popFront.error ((hpool.counted i).popFront_nil ?_))
        exact List.map_eq_nil_iff.mp ((hvalues i).trans hnil)
      · simp only [if_neg hnil]
        rw [← hvalues i] at hnil ⊢
        exact hpool.onList hvalues ((hpool.stores i).dropFront (hpool.counted i) hnil)
  | popBack i =>
      unfold ListOp.apply
      by_cases hnil : r i = []
      · simp only [if_pos hnil]
        refine onList_error ((hpool.stores i).popBack.error ((hpool.counted i).popBack_nil ?_))
        exact List.map_eq_nil_iff.mp ((hvalues i).trans hnil)
      · simp only [if_neg hnil]
        rw [← hvalues i] at hnil ⊢
        exact hpool.onList hvalues ((hpool.stores i).dropBack (hpool.counted i) hnil)
  | erase i k =>
      have hlength : (C i).nodes.length = (r i).length := by
        rw [← hvalues i, Chain.values, List.length_map]
      have hk : 0 + k ≤ (C i).nodes.length := by
        rw [hlength, Nat.zero_add]
        exact hvalid
      have hadvance := (hpool.stores i).advance k hk
      rw [Nat.zero_add] at hadvance
      have hhead : (s.lists i).head = (C i).position 0 := (hpool.stores i).head
      obtain ⟨it, l', m', herase, hbec⟩ := (hpool.stores i).eraseEnd (hpool.counted i) (k := k)
        (by rw [hlength]; exact hend)
      rw [hvalues i] at hbec
      refine hpool.onList hvalues ⟨l', m', ?_, hbec⟩
      unfold ListOp.eraseAt
      rw [hhead]
      exact hadvance.bind (herase.bind rfl)
  | resize i count value =>
      dsimp only [ListOp.apply, ListOp.exec]
      refine hpool.onList hvalues ?_
      rw [← hvalues i]
      exact (hpool.stores i).resize (hpool.counted i) count value
  | clear i =>
      obtain ⟨m', hclear, hchanges⟩ := (hpool.stores i).clear
      exact hpool.onList hvalues ⟨_, m', hclear, becomes_empty hchanges⟩

/-- **The count that drifts.**  An `erase` between two other nodes leaves the count
of the sequence as it was before. -/
theorem Lists.Represents.erase_between (h : s.Represents r) {i k : Nat} (hk : 0 < k)
    (hlt : k + 1 < (r i).length) :
    ∃ s', (ListOp.erase i k).exec s = .ok s' ∧ (s'.lists i).size = (r i).length := by
  obtain ⟨C, hpool, hvalues⟩ := h
  have hlength : (C i).nodes.length = (r i).length := by
    rw [← hvalues i, Chain.values, List.length_map]
  have hadvance := (hpool.stores i).advance k (j := 0) (by omega)
  rw [Nat.zero_add] at hadvance
  have hhead : (s.lists i).head = (C i).position 0 := (hpool.stores i).head
  obtain ⟨c', hspec, -, hsize⟩ := (hpool.counted i).erase (hpool.stores i).segment.nodup k
  rw [if_pos ⟨hk, by omega⟩] at hsize
  have href := (hpool.stores i).erase fun a ha => (C i).mem_of_position (k := k) ha
  rw [hspec] at href
  cases hop : (s.lists i).erase ((C i).position k) s.memory with
  | error e m' =>
      rw [hop] at href
      exact href.elim
  | ok result m' =>
      obtain ⟨it, l'⟩ := result
      rw [hop] at href
      refine ⟨⟨m', Function.update s.lists i l'⟩, ?_, ?_⟩
      · have hret : Returns (ListOp.eraseAt k (s.lists i)) s.memory l' m' := by
          unfold ListOp.eraseAt
          rw [hhead]
          exact hadvance.bind (Returns.bind hop rfl)
        show ListOp.onList i (ListOp.eraseAt k) s = _
        unfold ListOp.onList
        rw [show ListOp.eraseAt k (s.lists i) s.memory = .ok l' m' from hret]
      · show (Function.update s.lists i l' i).size = _
        rw [Function.update_self, href.2.1.size, hsize, hpool.counted i, hlength]

/-! ### Runs -/

/-- The condition holds along the sequences. -/
theorem ListOp.Along.along {P : ListOp α → (Nat → List α) → Prop} {ops : List (ListOp α)}
    (h : ListOp.Along P ops r) : Except.Along (fun r op => ListOp.apply op r) P ops r := by
  induction ops generalizing r with
  | nil => trivial
  | cons op ops ih =>
      refine ⟨h.1, fun r' hr' => ih ?_⟩
      have hrest := h.2
      rw [show op.apply r = some r' from hr'] at hrest
      exact hrest

/-- **Runs of list operations.**  After any operations that take no node out from
between two others, every list is its sequence; only a pop of an empty list fails,
and that with its assertion. -/
theorem list_runs (ops : List (ListOp α)) (hvalid : ListOp.Along ListOp.Valid ops fun _ => [])
    (hend : ListOp.Along ListOp.AtEnd ops fun _ => []) :
    match ListOp.applyAll ops fun _ => [] with
    | some r => ∃ s, ListOp.execAll ops Lists.initial = .ok s ∧ s.Are r
    | none => ListOp.execAll ops (Lists.initial : Lists α) =
        .error (.assertFailed "_size > 0") := by
  have hfollows := Except.foldlM_follows (f := fun s op => op.exec s)
    (fun op h hP => h.exec hP.1 hP.2) Lists.represents_initial (hvalid.along.and hend.along)
  have h : Except.Follows Lists.Are _ (ListOp.execAll ops Lists.initial) (ListOp.applyAll ops _) :=
    hfollows.imp Lists.Represents.are
  generalize ListOp.applyAll ops (fun _ => []) = r at h ⊢
  cases r with
  | none => exact h
  | some r => exact h

/-- A list is made of three values, loses its last, gets one in front and is copied. -/
theorem list_run_copied : ∃ s : Lists Nat,
    ListOp.execAll [.ofInitializerList 0 [1, 2, 3], .erase 0 2, .emplaceFront 0 0,
      .copyConstruct 1 0, .popBack 1] Lists.initial = .ok s ∧
    (s.lists 0).IsList s.memory [0, 1, 2] ∧ (s.lists 1).IsList s.memory [0, 1] := by
  obtain ⟨s, hexec, hare⟩ := list_runs
    [.ofInitializerList 0 [1, 2, 3], .erase 0 2, .emplaceFront 0 0, .copyConstruct 1 0, .popBack 1]
    ⟨trivial, Nat.le_succ 2, trivial, Nat.one_ne_zero, trivial, trivial⟩
    ⟨trivial, .inr (Nat.le_refl 3), trivial, trivial, trivial, trivial⟩
  exact ⟨s, hexec, hare.list 0, hare.list 1⟩

/-- With the second of three values erased, the second `pop_back` reads the tail of a
list that has no node left. -/
theorem list_middle_erased :
    ListOp.Along ListOp.Valid
      [.ofInitializerList 0 [1, 2, 3], .erase 0 1, .popBack 0, .popBack 0]
      (fun _ => ([] : List Nat)) ∧
    (∃ r, ListOp.applyAll [.ofInitializerList 0 [1, 2, 3], .erase 0 1, .popBack 0, .popBack 0]
      (fun _ => ([] : List Nat)) = some r) ∧
    ListOp.execAll [.ofInitializerList 0 [1, 2, 3], .erase 0 1, .popBack 0, .popBack 0]
      (Lists.initial : Lists Nat) = .error .nullPointer :=
  ⟨⟨trivial, Nat.le_add_left 1 2, trivial, trivial, trivial⟩, ⟨_, rfl⟩, rfl⟩

end Kernel
