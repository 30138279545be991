import BobbyOS.Kernel.Kstl.LinkedList

/-!
# What a list object is worth

A `Chain` is what a list object is worth: its nodes from the head on, address and
value, and its count, which need not agree with them.  Every operation of
`ministl::list` is matched by one on chains, whatever the count says: it ends with
the same error, or leaves the nodes of the new chain linked both ways and touches
no node of another list (`Refines`).
-/

namespace Kernel

open DoublyLinked Effects

/-- The nodes of a list with their values, and the size that the list counts. -/
structure Chain (α : Type) where
  nodes : List (Nat × α) := []
  size : Nat := 0

variable {α : Type}

namespace Chain

/-- The values from the head on. -/
def values (c : Chain α) : List α := c.nodes.map Prod.snd

/-- Where the nodes are. -/
abbrev addresses (c : Chain α) : List Nat := DoublyLinked.addresses c.nodes

/-- The count is that of the nodes. -/
def Counted (c : Chain α) : Prop := c.size = c.nodes.length

/-- `empty`. -/
def empty (c : Chain α) : Bool := c.size == 0

/-- `begin`. -/
def begin (c : Chain α) : Option Nat := first c.nodes none

/-- `back`. -/
def back (c : Chain α) : Except Panic α :=
  match c.nodes.getLast? with
  | none => .error (.assertFailed "tail")
  | some node => .ok node.2

/-- `emplace_back(value)` into a new node at `a`. -/
def emplaceBack (c : Chain α) (a : Nat) (value : α) : Except Panic (Chain α) :=
  if c.size = 0 then .ok ⟨[(a, value)], c.size + 1⟩
  else if c.nodes = [] then .error .nullPointer
  else .ok ⟨c.nodes ++ [(a, value)], c.size + 1⟩

/-- `emplace_front(value)` into a new node at `a`. -/
def emplaceFront (c : Chain α) (a : Nat) (value : α) : Except Panic (Chain α) :=
  if c.size = 0 then .ok ⟨[(a, value)], c.size + 1⟩
  else if c.nodes = [] then .error .nullPointer
  else .ok ⟨(a, value) :: c.nodes, c.size + 1⟩

/-- `pop_back`. -/
def popBack (c : Chain α) : Except Panic (Chain α) :=
  if c.size = 0 then .error (.assertFailed "_size > 0")
  else if c.size = 1 then .ok ⟨[], c.size - 1⟩
  else if c.nodes.length ≤ 1 then .error .nullPointer
  else .ok ⟨c.nodes.dropLast, c.size - 1⟩

/-- `pop_front`. -/
def popFront (c : Chain α) : Except Panic (Chain α) :=
  if c.size = 0 then .error (.assertFailed "_size > 0")
  else if c.size = 1 then .ok ⟨[], c.size - 1⟩
  else if c.nodes.length ≤ 1 then .error .nullPointer
  else .ok ⟨c.nodes.tail, c.size - 1⟩

/-- The node behind the one at `a`. -/
def next (c : Chain α) (a : Nat) : Option Nat :=
  first (c.nodes.dropWhile (·.1 ≠ a)).tail none

/-- `erase(pos)`; a node in the middle is taken out, the count stays. -/
def erase (c : Chain α) (pos : Option Nat) : Except Panic (Option Nat × Chain α) :=
  match pos with
  | none => .ok (none, c)
  | some a =>
      if c.size = 1 then .ok (none, ⟨[], 0⟩)
      else if some a = first c.nodes none then
        c.popFront.map fun c => (first c.nodes none, c)
      else if some a = last none c.nodes then
        c.popBack.map fun c => (none, c)
      else .ok (c.next a, ⟨c.nodes.filter (·.1 ≠ a), c.size⟩)

end Chain

/-! ### Nodes in the memory -/

variable {m m' : Memory α} {nodes ns : List (Nat × α)} {a t : Nat} {x v : α}

/-- The memory holds these nodes as a list of its own. -/
structure Segment (m : Memory α) (nodes : List (Nat × α)) : Prop where
  bounded : m.Bounded
  linked : Linked m.cell none nodes none
  nodup : (addresses nodes).Nodup

/-- The list object is worth this chain. -/
structure Stores (m : Memory α) (l : LinkedList) (c : Chain α) : Prop where
  segment : Segment m c.nodes
  head : l.head = first c.nodes none
  tail : l.tail = last none c.nodes
  size : l.size = c.size

/-- The operation on the nodes ends as the one on the chain. -/
def Refines (m : Memory α) (c : Chain α) (spec : Except Panic (Chain α))
    (r : EStateM.Result Panic (Memory α) LinkedList) : Prop :=
  match spec, r with
  | .ok c', .ok l' m' => Stores m' l' c' ∧ m.Changes m' c.addresses c'.addresses
  | .error e, .error e' _ => e' = e
  | _, _ => False

namespace LinkedList

/-- A new node is at the next fresh address. -/
theorem returns_new : Returns (new v) m (some m.fresh) (m.alloc v) := rfl

/-- A node is dereferenced where it is. -/
theorem returns_deref {node : Node α} (h : m.cell a = some node) :
    Returns (deref (some a)) m node m := by
  simp only [Returns, deref, h]

/-- A node is written over where it is. -/
theorem returns_store {node : Node α} {f : Node α → Node α} (h : m.cell a = some node) :
    Returns (store (some a) f) m () (m.set a (some (f node))) := by
  simp only [Returns, store, h]

/-- Its link to the next node is set. -/
theorem returns_setNext {node : Node α} {q : Option Nat} (h : m.cell a = some node) :
    Returns (setNext (some a) q) m () (m.set a (some { node with next := q })) := returns_store h

/-- Its link to the one before is. -/
theorem returns_setPrev {node : Node α} {q : Option Nat} (h : m.cell a = some node) :
    Returns (setPrev (some a) q) m () (m.set a (some { node with prev := q })) := returns_store h

/-- It is deleted. -/
theorem returns_delete {node : Node α} (h : m.cell a = some node) :
    Returns (delete (some a)) m () (m.set a none) := by
  simp only [Returns, delete, h]

/-- An assertion that holds passes. -/
theorem returns_assert {condition : Bool} {text : String} (h : condition = true) :
    Returns (assert condition text : ListM α Unit) m () m := by
  subst h
  rfl

/-- One that does not hold fails. -/
theorem assert_bind {β : Type} {condition : Bool} {text : String} {f : Unit → ListM α β}
    (h : condition = false) :
    (assert condition text >>= f) m = .error (.assertFailed text) m := by
  subst h
  rfl

end LinkedList

open LinkedList

/-- A fresh address is not in the segment. -/
theorem Segment.fresh_notMem (h : Segment m nodes) : m.fresh ∉ addresses nodes := fun hmem =>
  Nat.lt_irrefl _ (h.bounded.addresses_lt h.linked _ hmem)

/-- No nodes are a segment. -/
theorem segment_nil (h : m.Bounded) : Segment m [] := ⟨h, trivial, List.nodup_nil⟩

/-- One node without links is a segment. -/
theorem segment_single (h : m.Bounded) : Segment (m.alloc v) [(m.fresh, v)] :=
  ⟨h.alloc, ⟨Memory.alloc_cell_fresh, trivial⟩, List.nodup_singleton _⟩

/-- The last node is not among the others. -/
theorem Segment.append_notMem (h : Segment m (ns ++ [(t, x)])) : t ∉ addresses ns := by
  have := h.nodup
  rw [addresses, List.map_append, List.nodup_append] at this
  exact fun hmem => this.2.2 t hmem t (List.mem_singleton.mpr rfl) rfl

/-- **Linking a new node behind the last one**, in the three steps that every loop
and `emplace_back` take. -/
theorem Segment.link (h : Segment m (ns ++ [(t, x)])) (v : α) :
    ∃ m₂ m₃, Returns (setNext (some t) (some m.fresh)) (m.alloc v) () m₂ ∧
      Returns (deref (some t)) m₂ ⟨last none ns, some m.fresh, x⟩ m₂ ∧
      Returns (setPrev (some m.fresh) (some t)) m₂ () m₃ ∧
      Returns (deref (some t)) m₃ ⟨last none ns, some m.fresh, x⟩ m₃ ∧
      Segment m₃ (ns ++ [(t, x)] ++ [(m.fresh, v)]) ∧
      m.Changes m₃ (addresses (ns ++ [(t, x)]))
        (addresses (ns ++ [(t, x)] ++ [(m.fresh, v)])) := by
  have hfresh := h.fresh_notMem
  have hmem : t ∈ addresses (ns ++ [(t, x)]) := by simp [addresses]
  have hne : t ≠ m.fresh := fun heq => hfresh (heq ▸ hmem)
  have hlt := h.bounded.addresses_lt h.linked t hmem
  have hcell : (m.alloc v).cell t = some ⟨last none ns, none, x⟩ := by
    rw [Memory.alloc_cell_of_ne hne]
    exact h.linked.cell_eq
  have hnew : ((m.alloc v).set t (some ⟨last none ns, some m.fresh, x⟩)).cell m.fresh =
      some ⟨none, none, v⟩ := by
    rw [Memory.set_cell_of_ne hne.symm, Memory.alloc_cell_fresh]
  refine ⟨_, _, returns_setNext hcell, returns_deref Memory.set_cell_self,
    returns_setPrev hnew, returns_deref ?_, ⟨?_, ?_, ?_⟩, ?_⟩
  · rw [Memory.set_cell_of_ne hne, Memory.set_cell_self]
  · exact (h.bounded.alloc.set (Nat.lt_succ_of_lt hlt)).set (Nat.lt_succ_self _)
  · have hold : Linked (m.alloc v).cell none (ns ++ [(t, x)]) none :=
      h.linked.congr fun b hb => Memory.alloc_cell_of_ne fun heq => hfresh (heq ▸ hb)
    rw [linked_append]
    refine ⟨(hold.setLast h.append_notMem).update hfresh, ?_, trivial⟩
    rw [last_concat]
    exact Memory.set_cell_self
  · rw [addresses, List.map_append]
    refine List.nodup_append.mpr ⟨h.nodup, List.nodup_singleton _, ?_⟩
    intro b hb c hc heq
    have hnew : b = m.fresh := heq.trans (List.mem_singleton.mp hc)
    exact hfresh (hnew ▸ hb)
  · have hperm : ∀ b, b ∈ m.fresh :: addresses (ns ++ [(t, x)]) ↔
        b ∈ addresses (ns ++ [(t, x)] ++ [(m.fresh, v)]) := by
      intro b
      simp only [addresses, List.map_append, List.map_cons, List.map_nil, List.mem_append,
        List.mem_cons, List.not_mem_nil, or_false]
      tauto
    have halloc : m.Changes (m.alloc v) (addresses (ns ++ [(t, x)]))
        (m.fresh :: addresses (ns ++ [(t, x)])) := .alloc h.bounded
    have hlt' : t < (m.alloc v).fresh := Nat.lt_succ_of_lt hlt
    exact Memory.Changes.subset
      ((halloc.trans (.set h.bounded.alloc hlt' (List.mem_cons_of_mem _ hmem))).trans
        (.set (h.bounded.alloc.set hlt') (Nat.lt_succ_self _) List.mem_cons_self))
      fun b hb => (hperm b).mpr hb

/-- Linking a new node before the first one. -/
theorem Segment.linkFront (h : Segment m ((t, x) :: ns)) (v : α) :
    ∃ m₂ m₃, Returns (setPrev (some t) (some m.fresh)) (m.alloc v) () m₂ ∧
      Returns (deref (some t)) m₂ ⟨some m.fresh, first ns none, x⟩ m₂ ∧
      Returns (setNext (some m.fresh) (some t)) m₂ () m₃ ∧
      Returns (deref (some t)) m₃ ⟨some m.fresh, first ns none, x⟩ m₃ ∧
      Segment m₃ ((m.fresh, v) :: (t, x) :: ns) ∧
      m.Changes m₃ (addresses ((t, x) :: ns)) (addresses ((m.fresh, v) :: (t, x) :: ns)) := by
  have hfresh := h.fresh_notMem
  have hmem : t ∈ addresses ((t, x) :: ns) := List.mem_cons_self
  have hne : t ≠ m.fresh := fun heq => hfresh (heq ▸ hmem)
  have hlt : t < (m.alloc v).fresh := Nat.lt_succ_of_lt (h.bounded.addresses_lt h.linked t hmem)
  have hcell : (m.alloc v).cell t = some ⟨none, first ns none, x⟩ := by
    rw [Memory.alloc_cell_of_ne hne]
    exact h.linked.1
  have hnew : ((m.alloc v).set t (some ⟨some m.fresh, first ns none, x⟩)).cell m.fresh =
      some ⟨none, none, v⟩ := by
    rw [Memory.set_cell_of_ne hne.symm, Memory.alloc_cell_fresh]
  refine ⟨_, _, returns_setPrev hcell, returns_deref Memory.set_cell_self,
    returns_setNext hnew, returns_deref ?_, ⟨?_, ?_, ?_⟩, ?_⟩
  · rw [Memory.set_cell_of_ne hne, Memory.set_cell_self]
  · exact (h.bounded.alloc.set hlt).set (Nat.lt_succ_self _)
  · have hold : Linked (m.alloc v).cell none ((t, x) :: ns) none :=
      h.linked.congr fun b hb => Memory.alloc_cell_of_ne fun heq => hfresh (heq ▸ hb)
    exact ⟨Memory.set_cell_self, (hold.setFirst (List.nodup_cons.mp h.nodup).1).update hfresh⟩
  · exact List.nodup_cons.mpr ⟨hfresh, h.nodup⟩
  · have halloc : m.Changes (m.alloc v) (addresses ((t, x) :: ns))
        (m.fresh :: addresses ((t, x) :: ns)) := .alloc h.bounded
    exact (halloc.trans (.set h.bounded.alloc hlt (List.mem_cons_of_mem _ hmem))).trans
      (.set (h.bounded.alloc.set hlt) (Nat.lt_succ_self _) List.mem_cons_self)

/-- Taking out the last of several nodes. -/
theorem Segment.unlinkLast {s : Nat} {y : α} (h : Segment m (ns ++ [(s, y)] ++ [(t, x)])) :
    ∃ m₂ m₃, Returns (deref (some t)) m ⟨some s, none, x⟩ m ∧
      Returns (deref (some s)) m ⟨last none ns, some t, y⟩ m ∧
      Returns (delete (some t)) m () m₂ ∧ Returns (setNext (some s) none) m₂ () m₃ ∧
      Segment m₃ (ns ++ [(s, y)]) ∧
      m.Changes m₃ (addresses (ns ++ [(s, y)] ++ [(t, x)])) (addresses (ns ++ [(s, y)])) := by
  have htcell : m.cell t = some ⟨some s, none, x⟩ := by
    have := h.linked.cell_eq
    rwa [last_concat] at this
  have hscell : m.cell s = some ⟨last none ns, some t, y⟩ :=
    ((linked_append.mp h.linked).1).cell_eq
  have ht := h.append_notMem
  have hs : s ∈ addresses (ns ++ [(s, y)]) := by simp [addresses]
  have hne : s ≠ t := fun heq => ht (heq ▸ hs)
  have hsub : ∀ b ∈ addresses (ns ++ [(s, y)]), b ∈ addresses (ns ++ [(s, y)] ++ [(t, x)]) := by
    intro b hb
    rw [addresses, List.map_append]
    exact List.mem_append_left _ hb
  have hmem : t ∈ addresses (ns ++ [(s, y)] ++ [(t, x)]) := by simp [addresses]
  have hlt := h.bounded.addresses_lt h.linked t hmem
  have hlts := h.bounded.addresses_lt h.linked s (hsub s hs)
  have hnodup : (addresses (ns ++ [(s, y)])).Nodup := by
    have := h.nodup
    rw [addresses, List.map_append] at this
    exact (List.nodup_append.mp this).1
  have hsnot : s ∉ addresses ns := by
    have := hnodup
    rw [addresses, List.map_append, List.nodup_append] at this
    exact fun hb => this.2.2 s hb s (List.mem_singleton.mpr rfl) rfl
  have hscell' : (m.set t none).cell s = some ⟨last none ns, some t, y⟩ := by
    rw [Memory.set_cell_of_ne hne, hscell]
  refine ⟨_, _, returns_deref htcell, returns_deref hscell, returns_delete htcell,
    returns_setNext hscell', ⟨?_, ?_, hnodup⟩, ?_⟩
  · exact (h.bounded.set hlt).set hlts
  · have hold : Linked (m.set t none).cell none (ns ++ [(s, y)]) (some t) :=
      (linked_append.mp h.linked).1.update ht
    exact hold.setLast hsnot
  · exact Memory.Changes.subset ((Memory.Changes.set h.bounded hlt hmem).trans
      (.set (h.bounded.set hlt) hlts (hsub s hs))) hsub

/-- Taking out the first of several nodes. -/
theorem Segment.unlinkFirst {s : Nat} {y : α} (h : Segment m ((t, x) :: (s, y) :: ns)) :
    ∃ m₂ m₃, Returns (deref (some t)) m ⟨none, some s, x⟩ m ∧
      Returns (deref (some s)) m ⟨some t, first ns none, y⟩ m ∧
      Returns (delete (some t)) m () m₂ ∧ Returns (setPrev (some s) none) m₂ () m₃ ∧
      Segment m₃ ((s, y) :: ns) ∧
      m.Changes m₃ (addresses ((t, x) :: (s, y) :: ns)) (addresses ((s, y) :: ns)) := by
  have htcell : m.cell t = some ⟨none, some s, x⟩ := h.linked.1
  have hscell : m.cell s = some ⟨some t, first ns none, y⟩ := h.linked.2.1
  obtain ⟨ht, hnodup⟩ := List.nodup_cons.mp h.nodup
  have hs : s ∈ addresses ((s, y) :: ns) := List.mem_cons_self
  have hne : s ≠ t := fun heq => ht (heq ▸ hs)
  have hmem : t ∈ addresses ((t, x) :: (s, y) :: ns) := List.mem_cons_self
  have hlt := h.bounded.addresses_lt h.linked t hmem
  have hlts := h.bounded.addresses_lt h.linked s (List.mem_cons_of_mem _ hs)
  have hscell' : (m.set t none).cell s = some ⟨some t, first ns none, y⟩ := by
    rw [Memory.set_cell_of_ne hne, hscell]
  refine ⟨_, _, returns_deref htcell, returns_deref hscell, returns_delete htcell,
    returns_setPrev hscell', ⟨?_, ?_, hnodup⟩, ?_⟩
  · exact (h.bounded.set hlt).set hlts
  · have hold : Linked (m.set t none).cell (some t) ((s, y) :: ns) none := h.linked.2.update ht
    exact hold.setFirst (List.nodup_cons.mp hnodup).1
  · exact Memory.Changes.subset ((Memory.Changes.set h.bounded hlt hmem).trans
      (.set (h.bounded.set hlt) hlts (List.mem_cons_of_mem _ hs)))
      fun b hb => List.mem_cons_of_mem _ hb

/-- Taking out a node between two others. -/
theorem Segment.unlinkMiddle {p q : Nat} {u w : α} {bs : List (Nat × α)}
    (h : Segment m (ns ++ [(p, u)] ++ (t, x) :: (q, w) :: bs)) :
    ∃ m₂ m₃ m₄, Returns (deref (some t)) m ⟨some p, some q, x⟩ m ∧
      Returns (setNext (some p) (some q)) m () m₂ ∧
      Returns (deref (some t)) m₂ ⟨some p, some q, x⟩ m₂ ∧
      Returns (setPrev (some q) (some p)) m₂ () m₃ ∧
      Returns (deref (some t)) m₃ ⟨some p, some q, x⟩ m₃ ∧
      Returns (delete (some t)) m₃ () m₄ ∧
      Segment m₄ (ns ++ [(p, u)] ++ (q, w) :: bs) ∧
      m.Changes m₄ (addresses (ns ++ [(p, u)] ++ (t, x) :: (q, w) :: bs))
        (addresses (ns ++ [(p, u)] ++ (q, w) :: bs)) := by
  obtain ⟨hfront, htcell, hback⟩ := linked_append.mp h.linked
  rw [last_concat] at htcell
  have hpcell : m.cell p = some ⟨last none ns, some t, u⟩ := hfront.cell_eq
  have hqcell : m.cell q = some ⟨some t, first bs none, w⟩ := hback.1
  have hnodup := h.nodup
  simp only [addresses, List.map_append, List.map_cons, List.map_nil] at hnodup
  obtain ⟨hns, hcons, hapart⟩ := List.nodup_append.mp hnodup
  obtain ⟨htrest, hrest⟩ := List.nodup_cons.mp hcons
  obtain ⟨hqbs, _⟩ := List.nodup_cons.mp hrest
  have hp : p ∈ addresses ns ++ [p] := List.mem_append_right _ (List.mem_singleton.mpr rfl)
  have hpns : p ∉ addresses ns := fun hb =>
    (List.nodup_append.mp hns).2.2 p hb p (List.mem_singleton.mpr rfl) rfl
  have hpt : p ≠ t := hapart p hp t List.mem_cons_self
  have hpq : p ≠ q := hapart p hp q (List.mem_cons_of_mem _ List.mem_cons_self)
  have hqt : q ≠ t := fun heq => htrest (heq ▸ List.mem_cons_self)
  have hmem : ∀ b, b = p ∨ b = t ∨ b = q →
      b ∈ addresses (ns ++ [(p, u)] ++ (t, x) :: (q, w) :: bs) := by
    intro b hb
    simp only [addresses, List.map_append, List.map_cons, List.map_nil, List.mem_append,
      List.mem_cons, List.not_mem_nil, or_false]
    tauto
  have hlt : ∀ b, b = p ∨ b = t ∨ b = q → b < m.fresh :=
    fun b hb => h.bounded.addresses_lt h.linked b (hmem b hb)
  have htcell₂ : (m.set p (some ⟨last none ns, some q, u⟩)).cell t =
      some ⟨some p, some q, x⟩ := by rw [Memory.set_cell_of_ne hpt.symm, htcell]; rfl
  have hqcell₂ : (m.set p (some ⟨last none ns, some q, u⟩)).cell q =
      some ⟨some t, first bs none, w⟩ := by rw [Memory.set_cell_of_ne hpq.symm, hqcell]
  have htcell₃ : ((m.set p (some ⟨last none ns, some q, u⟩)).set q
      (some ⟨some p, first bs none, w⟩)).cell t = some ⟨some p, some q, x⟩ := by
    rw [Memory.set_cell_of_ne hqt.symm, htcell₂]
  have hb₂ := h.bounded.set (hlt p (.inl rfl)) (c := some ⟨last none ns, some q, u⟩)
  have hb₃ := hb₂.set (hlt q (.inr (.inr rfl))) (c := some ⟨some p, first bs none, w⟩)
  refine ⟨_, _, _, returns_deref htcell, returns_setNext hpcell, returns_deref htcell₂,
    returns_setPrev hqcell₂, returns_deref htcell₃, returns_delete htcell₃, ⟨?_, ?_, ?_⟩, ?_⟩
  · exact hb₃.set (hlt t (.inr (.inl rfl)))
  · have ht : t ∉ addresses (ns ++ [(p, u)] ++ (q, w) :: bs) := by
      rw [addresses, List.map_append, List.map_append]
      intro hb
      rcases List.mem_append.mp hb with hb | hb
      · exact hapart t hb t List.mem_cons_self rfl
      · exact htrest hb
    refine Linked.update ?_ ht
    rw [linked_append]
    refine ⟨(hfront.setLast hpns).update ?_, ?_⟩
    · rw [addresses, List.map_append]
      exact fun hb => hapart q hb q (List.mem_cons_of_mem _ List.mem_cons_self) rfl
    · rw [last_concat]
      refine (hback.update ?_).setFirst hqbs
      exact fun hb => hapart p hp p (List.mem_cons_of_mem _ hb) rfl
  · rw [addresses, List.map_append, List.map_append]
    exact List.nodup_append.mpr ⟨hns, hrest,
      fun b hb c hc => hapart b hb c (List.mem_cons_of_mem _ hc)⟩
  · refine Memory.Changes.subset (((Memory.Changes.set h.bounded (hlt p (.inl rfl))
      (hmem p (.inl rfl))).trans (.set hb₂ (hlt q (.inr (.inr rfl))) (hmem q (.inr (.inr rfl))))).trans
      (.set hb₃ (hlt t (.inr (.inl rfl))) (hmem t (.inr (.inl rfl))))) fun b hb => ?_
    simp only [addresses, List.map_append, List.map_cons, List.map_nil, List.mem_append,
      List.mem_cons, List.not_mem_nil, or_false] at hb ⊢
    tauto

/-! ### Operations at the ends -/

variable {l : LinkedList} {c : Chain α}

/-- The empty list stores the empty chain. -/
theorem stores_empty (h : m.Bounded) : Stores m {} ({} : Chain α) := ⟨segment_nil h, rfl, rfl, rfl⟩

/-- `emplace_back` on the nodes does what it does on the chain. -/
theorem Stores.emplaceBack (h : Stores m l c) (v : α) :
    Refines m c (c.emplaceBack m.fresh v) (l.emplaceBack v m) := by
  obtain ⟨hseg, hhead, htail, hsize⟩ := h
  unfold LinkedList.emplaceBack Chain.emplaceBack
  rw [hsize]
  by_cases hzero : c.size = 0
  · rw [if_pos hzero, if_pos hzero, returns_new.bind_eq]
    refine ⟨⟨segment_single hseg.bounded, rfl, rfl, rfl⟩, ?_⟩
    have halloc : m.Changes (m.alloc v) c.addresses (m.fresh :: c.addresses) := .alloc hseg.bounded
    exact halloc.subset fun b hb => List.mem_cons.mpr (.inl (List.mem_singleton.mp hb))
  rw [if_neg hzero, if_neg hzero, returns_new.bind_eq]
  obtain ⟨nodes, size⟩ := c
  rcases List.eq_nil_or_concat nodes with rfl | ⟨ns, ⟨t, x⟩, rfl⟩
  · rw [htail]
    rfl
  · rw [List.concat_eq_append] at *
    rw [if_neg (List.append_ne_nil_of_right_ne_nil _ (List.cons_ne_nil _ _))]
    obtain ⟨m₂, m₃, hnext, hderef, hprev, hderef', hseg', hchanges⟩ := hseg.link v
    rw [htail, last_concat, hnext.bind_eq, hderef.bind_eq, hprev.bind_eq, hderef'.bind_eq]
    refine ⟨⟨hseg', ?_, last_concat.symm, rfl⟩, hchanges⟩
    rw [hhead]
    cases ns <;> rfl

/-- So does `emplace_front`. -/
theorem Stores.emplaceFront (h : Stores m l c) (v : α) :
    Refines m c (c.emplaceFront m.fresh v) (l.emplaceFront v m) := by
  obtain ⟨hseg, hhead, htail, hsize⟩ := h
  unfold LinkedList.emplaceFront Chain.emplaceFront
  rw [hsize]
  by_cases hzero : c.size = 0
  · rw [if_pos hzero, if_pos hzero, returns_new.bind_eq]
    refine ⟨⟨segment_single hseg.bounded, rfl, rfl, rfl⟩, ?_⟩
    have halloc : m.Changes (m.alloc v) c.addresses (m.fresh :: c.addresses) := .alloc hseg.bounded
    exact halloc.subset fun b hb => List.mem_cons.mpr (.inl (List.mem_singleton.mp hb))
  rw [if_neg hzero, if_neg hzero, returns_new.bind_eq]
  obtain ⟨nodes, size⟩ := c
  cases nodes with
  | nil =>
      rw [hhead]
      rfl
  | cons node ns =>
      obtain ⟨t, x⟩ := node
      rw [if_neg (List.cons_ne_nil _ _)]
      obtain ⟨m₂, m₃, hprev, hderef, hnext, hderef', hseg', hchanges⟩ := hseg.linkFront v
      rw [hhead, first_cons, hprev.bind_eq, hderef.bind_eq, hnext.bind_eq, hderef'.bind_eq]
      exact ⟨⟨hseg', rfl, htail, rfl⟩, hchanges⟩

/-- Deleting the only node a list knows of. -/
theorem Stores.deleteOnly (h : Stores m l c) {p : Option Nat} (hp : ∀ a, p = some a →
    a ∈ c.addresses) : ∃ m', Returns (delete p) m () m' ∧ m.Changes m' c.addresses [] := by
  cases p with
  | none => exact ⟨m, rfl, (Memory.Changes.refl h.segment.bounded).subset (List.nil_subset _)⟩
  | some a =>
      have ha := hp a rfl
      obtain ⟨node, hcell⟩ := Option.ne_none_iff_exists'.mp (h.segment.linked.cell_ne_none ha)
      have hlt := h.segment.bounded.addresses_lt h.segment.linked a ha
      exact ⟨_, returns_delete hcell,
        (Memory.Changes.set h.segment.bounded hlt ha).subset (List.nil_subset _)⟩

/-- So does `pop_back`. -/
theorem Stores.popBack (h : Stores m l c) : Refines m c c.popBack (l.popBack m) := by
  unfold LinkedList.popBack Chain.popBack
  rw [h.size]
  by_cases hzero : c.size = 0
  · rw [if_pos hzero, assert_bind (by rw [hzero]; rfl)]
    rfl
  rw [if_neg hzero, (returns_assert (decide_eq_true (Nat.pos_of_ne_zero hzero))).bind_eq]
  by_cases hone : c.size = 1
  · rw [if_pos hone, if_pos hone]
    obtain ⟨m', hdelete, hchanges⟩ := h.deleteOnly (p := l.tail) fun a ha => by
      rw [h.tail, last_eq_getLast?, Option.or_none, Option.map_eq_some_iff] at ha
      obtain ⟨node, hnode, rfl⟩ := ha
      exact List.mem_map_of_mem (List.mem_of_getLast? hnode)
    rw [hdelete.bind_eq]
    exact ⟨⟨segment_nil hchanges.bounded, rfl, rfl, rfl⟩, hchanges⟩
  rw [if_neg hone, if_neg hone]
  obtain ⟨hseg, hhead, htail, hsize⟩ := h
  obtain ⟨nodes, size⟩ := c
  rcases List.eq_nil_or_concat nodes with rfl | ⟨ns, ⟨t, x⟩, rfl⟩
  · rw [htail]
    rfl
  rw [List.concat_eq_append] at *
  rcases List.eq_nil_or_concat ns with rfl | ⟨ns, ⟨s, y⟩, rfl⟩
  · rw [htail]
    obtain ⟨hcell, _⟩ := hseg.linked
    rw [List.nil_append, last_cons, last_nil, (returns_deref hcell).bind_eq]
    rfl
  · rw [List.concat_eq_append] at *
    obtain ⟨m₂, m₃, hderef, hderef', hdelete, hnext, hseg', hchanges⟩ := hseg.unlinkLast
    rw [if_neg (by simp), htail, last_concat, hderef.bind_eq, hderef'.bind_eq, hdelete.bind_eq,
      hnext.bind_eq, List.dropLast_concat]
    refine ⟨⟨hseg', ?_, last_concat.symm, rfl⟩, hchanges⟩
    rw [hhead]
    cases ns <;> rfl

/-- So does `pop_front`. -/
theorem Stores.popFront (h : Stores m l c) : Refines m c c.popFront (l.popFront m) := by
  unfold LinkedList.popFront Chain.popFront
  rw [h.size]
  by_cases hzero : c.size = 0
  · rw [if_pos hzero, assert_bind (by rw [hzero]; rfl)]
    rfl
  rw [if_neg hzero, (returns_assert (decide_eq_true (Nat.pos_of_ne_zero hzero))).bind_eq]
  by_cases hone : c.size = 1
  · rw [if_pos hone, if_pos hone]
    obtain ⟨m', hdelete, hchanges⟩ := h.deleteOnly (p := l.head) fun a ha => by
      rw [h.head, first_eq_head?, Option.map_eq_some_iff] at ha
      obtain ⟨node, hnode, rfl⟩ := ha
      exact List.mem_map_of_mem (List.mem_of_head? hnode)
    rw [hdelete.bind_eq]
    exact ⟨⟨segment_nil hchanges.bounded, rfl, rfl, rfl⟩, hchanges⟩
  rw [if_neg hone, if_neg hone]
  obtain ⟨hseg, hhead, htail, hsize⟩ := h
  obtain ⟨nodes, size⟩ := c
  match nodes with
  | [] =>
      rw [hhead]
      rfl
  | [(t, x)] =>
      rw [hhead, first_cons, (returns_deref hseg.linked.1).bind_eq]
      rfl
  | (t, x) :: (s, y) :: ns =>
      obtain ⟨m₂, m₃, hderef, hderef', hdelete, hprev, hseg', hchanges⟩ := hseg.unlinkFirst
      rw [if_neg (by simp), hhead, first_cons, hderef.bind_eq, hderef'.bind_eq, hdelete.bind_eq,
        hprev.bind_eq]
      exact ⟨⟨hseg', rfl, htail, rfl⟩, hchanges⟩

/-! ### Positions -/

/-- The operation on the nodes ends as the one on the chain, with the same
iterator. -/
def RefinesAt (m : Memory α) (c : Chain α) (spec : Except Panic (Option Nat × Chain α))
    (r : EStateM.Result Panic (Memory α) (Option Nat × LinkedList)) : Prop :=
  match spec, r with
  | .ok (it, c'), .ok (it', l') m' =>
      it' = it ∧ Stores m' l' c' ∧ m.Changes m' c.addresses c'.addresses
  | .error e, .error e' _ => e' = e
  | _, _ => False

/-- An operation, and then an iterator that only looks at the list. -/
theorem Refines.map {op : ListM α LinkedList} {spec : Except Panic (Chain α)}
    (h : Refines m c spec (op m)) {it : Chain α → Option Nat} {it' : LinkedList → Option Nat}
    (hit : ∀ m' l' c', Stores m' l' c' → it' l' = it c') :
    RefinesAt m c (spec.map fun c => (it c, c)) ((do let l ← op; return (it' l, l)) m) := by
  have hbind : (do let l ← op; return (it' l, l) : ListM α _) m =
      EStateM.bind op (fun l => pure (it' l, l)) m := rfl
  rw [hbind, EStateM.bind]
  revert h
  cases spec with
  | error e =>
      cases op m with
      | ok l' m' => exact False.elim
      | error e' m' => exact id
  | ok c' =>
      cases op m with
      | error e' m' => exact False.elim
      | ok l' m' => exact fun ⟨hstores, hchanges⟩ => ⟨hit m' l' c' hstores, hstores, hchanges⟩

/-- What is before and behind a node. -/
theorem filter_dropWhile_append {as bs : List (Nat × α)} {node : Nat × α}
    (hnodup : (addresses (as ++ node :: bs)).Nodup) :
    (as ++ node :: bs).filter (·.1 ≠ node.1) = as ++ bs ∧
      (as ++ node :: bs).dropWhile (·.1 ≠ node.1) = node :: bs := by
  simp only [addresses, List.map_append, List.map_cons] at hnodup
  obtain ⟨_, hcons, hapart⟩ := List.nodup_append.mp hnodup
  have has : ∀ n ∈ as, n.1 ≠ node.1 := fun n hn =>
    hapart _ (List.mem_map_of_mem hn) _ List.mem_cons_self
  have hbs : ∀ n ∈ bs, n.1 ≠ node.1 := fun n hn heq =>
    (List.nodup_cons.mp hcons).1 (heq ▸ List.mem_map_of_mem hn)
  constructor
  · rw [List.filter_append, List.filter_cons_of_neg (by simp),
      List.filter_eq_self.mpr (by simpa using has), List.filter_eq_self.mpr (by simpa using hbs)]
  · rw [List.dropWhile_append_of_pos (by simpa using has), List.dropWhile_cons_of_neg (by simp)]

/-- A chain around one of its nodes. -/
theorem split_at (hnodup : (addresses nodes).Nodup) (ha : a ∈ addresses nodes) :
    ∃ as x bs, nodes = as ++ (a, x) :: bs ∧ nodes.filter (·.1 ≠ a) = as ++ bs ∧
      nodes.dropWhile (·.1 ≠ a) = (a, x) :: bs := by
  obtain ⟨⟨b, x⟩, hmem, rfl⟩ := List.mem_map.mp ha
  obtain ⟨as, bs, rfl⟩ := List.append_of_mem hmem
  obtain ⟨hfilter, hdrop⟩ := filter_dropWhile_append hnodup
  exact ⟨as, x, bs, rfl, hfilter, hdrop⟩

/-- **`++it`** follows the chain. -/
theorem Stores.increment (h : Stores m l c) (ha : a ∈ c.addresses) :
    Returns (increment (some a)) m (c.next a) m := by
  obtain ⟨as, x, bs, hsplit, -, hdrop⟩ := split_at h.segment.nodup ha
  have hcell : m.cell a = some ⟨last none as, first bs none, x⟩ := by
    have := h.segment.linked
    rw [hsplit] at this
    exact this.cell_eq
  unfold LinkedList.increment
  rw [Returns, (returns_deref hcell).bind_eq, Chain.next, hdrop]
  rfl

/-- `erase` on the nodes does what it does on the chain. -/
theorem Stores.erase (h : Stores m l c) {pos : Option Nat}
    (hpos : ∀ a, pos = some a → a ∈ c.addresses) :
    RefinesAt m c (c.erase pos) (l.erase pos m) := by
  unfold LinkedList.erase Chain.erase
  cases pos with
  | none => exact ⟨rfl, h, .refl h.segment.bounded⟩
  | some a =>
  have ha := hpos a rfl
  dsimp only
  rw [if_neg (Option.some_ne_none a), h.size]
  by_cases hone : c.size = 1
  · rw [if_pos hone, if_pos hone]
    obtain ⟨m', hdelete, hchanges⟩ := h.deleteOnly hpos
    rw [hdelete.bind_eq]
    exact ⟨rfl, ⟨segment_nil hchanges.bounded, rfl, rfl, rfl⟩, hchanges⟩
  rw [if_neg hone, if_neg hone, h.head, h.tail]
  by_cases hfirst : some a = first c.nodes none
  · rw [if_pos hfirst, if_pos hfirst]
    exact h.popFront.map (fun _ _ _ hstores => hstores.head)
  rw [if_neg hfirst, if_neg hfirst]
  by_cases hlast : some a = last none c.nodes
  · rw [if_pos hlast, if_pos hlast]
    exact h.popBack.map (fun _ _ _ _ => rfl)
  rw [if_neg hlast, if_neg hlast]
  obtain ⟨as, x, bs, hsplit, hfilter, hdrop⟩ := split_at h.segment.nodup ha
  obtain ⟨hseg, hhead, htail, hsize⟩ := h
  obtain ⟨nodes, size⟩ := c
  dsimp only at hsplit
  subst hsplit
  rcases List.eq_nil_or_concat as with rfl | ⟨ns, ⟨p, u⟩, rfl⟩
  · exact absurd rfl hfirst
  rw [List.concat_eq_append] at *
  cases bs with
  | nil => exact absurd last_concat.symm hlast
  | cons node bs =>
      obtain ⟨q, w⟩ := node
      obtain ⟨m₂, m₃, m₄, hderef, hnext, hderef₂, hprev, hderef₃, hdelete, hseg', hchanges⟩ :=
        hseg.unlinkMiddle
      rw [hderef.bind_eq, hderef.bind_eq, hnext.bind_eq, hderef₂.bind_eq, hderef₂.bind_eq,
        hprev.bind_eq, hderef₃.bind_eq, hdelete.bind_eq]
      dsimp only at hfilter
      unfold Chain.next
      rw [hdrop, hfilter]
      refine ⟨rfl, ⟨hseg', ?_, ?_, hsize⟩, hchanges⟩
      · rw [hhead, first_append, first_append]
        cases ns <;> rfl
      · simp only [htail, last_append, last_cons]

end Kernel
