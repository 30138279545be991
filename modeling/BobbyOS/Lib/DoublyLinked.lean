import Mathlib.Data.List.Nodup
import Mathlib.Data.List.Perm.Subperm
import Mathlib.Logic.Function.Basic

/-!
# Doubly linked segments

Nodes with two links live in a memory that hands out fresh addresses.  A segment
is the list of its nodes, address and value: `Linked cell p nodes n` says that the
cells hold these nodes, linked both ways, with `p` in front of the first and `n`
behind the last.  Segments are taken apart with `linked_append`, are not touched
by a change elsewhere (`Linked.congr`), and are relinked at their two ends.
-/

namespace DoublyLinked

variable {α : Type*}

/-- A node with its two links. -/
structure Node (α : Type*) where
  prev : Option Nat
  next : Option Nat
  value : α

/-- What is behind the front of a segment: its first node, or else what follows. -/
def first : List (Nat × α) → Option Nat → Option Nat
  | [], n => n
  | (a, _) :: _, _ => some a

/-- What is before the end of a segment: its last node, or else what precedes it. -/
def last : Option Nat → List (Nat × α) → Option Nat
  | p, [] => p
  | _, (a, _) :: rest => last (some a) rest

/-- The cells hold the nodes of a segment between `p` and `n`. -/
def Linked (cell : Nat → Option (Node α)) : Option Nat → List (Nat × α) → Option Nat → Prop
  | _, [], _ => True
  | p, (a, x) :: rest, n => cell a = some ⟨p, first rest n, x⟩ ∧ Linked cell (some a) rest n

/-- The addresses of a segment. -/
abbrev addresses (nodes : List (Nat × α)) : List Nat := nodes.map Prod.fst

variable {cell cell' : Nat → Option (Node α)} {p p' n n' : Option Nat}
  {as bs : List (Nat × α)} {a : Nat} {x : α}

@[simp] theorem first_nil : first ([] : List (Nat × α)) n = n := rfl

@[simp] theorem first_cons : first ((a, x) :: as) n = some a := rfl

@[simp] theorem last_nil : last p ([] : List (Nat × α)) = p := rfl

@[simp] theorem last_cons : last p ((a, x) :: as) = last (some a) as := rfl

/-- The first node of a list with another one behind it. -/
theorem first_append : first (as ++ bs) n = first as (first bs n) := by
  cases as <;> rfl

/-- The last node of a list with another one before it. -/
theorem last_append : last p (as ++ bs) = last (last p as) bs := by
  induction as generalizing p with
  | nil => rfl
  | cons node rest ih => exact ih

@[simp] theorem last_concat : last p (as ++ [(a, x)]) = some a := last_append

/-- The first address, as that of the head. -/
theorem first_eq_head? : first as none = as.head?.map Prod.fst := by
  cases as <;> rfl

/-- The last address, as that of the last item. -/
theorem last_eq_getLast? : last p as = (as.getLast?.map Prod.fst).or p := by
  rcases List.eq_nil_or_concat as with rfl | ⟨rest, node, rfl⟩
  · rfl
  · rw [List.concat_eq_append, last_append, List.getLast?_concat]
    rfl

/-- A segment taken apart. -/
theorem linked_append :
    Linked cell p (as ++ bs) n ↔ Linked cell p as (first bs n) ∧ Linked cell (last p as) bs n := by
  induction as generalizing p with
  | nil => exact (true_and _).symm.to_iff
  | cons node rest ih =>
      obtain ⟨a, x⟩ := node
      simp only [List.cons_append, Linked, first_append, last_cons, ih, and_assoc]

/-- A change elsewhere leaves a segment alone. -/
theorem Linked.congr (h : Linked cell p as n) (heq : ∀ a ∈ addresses as, cell' a = cell a) :
    Linked cell' p as n := by
  induction as generalizing p with
  | nil => trivial
  | cons node rest ih =>
      obtain ⟨a, x⟩ := node
      exact ⟨(heq a List.mem_cons_self).trans h.1,
        ih h.2 fun b hb => heq b (List.mem_cons_of_mem _ hb)⟩

/-- A cell that is not in the chain may change. -/
theorem Linked.update (h : Linked cell p as n) (ha : a ∉ addresses as) {c : Option (Node α)} :
    Linked (Function.update cell a c) p as n :=
  h.congr fun b hb => Function.update_of_ne (fun hba : b = a => ha (hba ▸ hb)) _ _

/-- Every node of a segment is in its cell. -/
theorem Linked.cell_ne_none (h : Linked cell p as n) (ha : a ∈ addresses as) : cell a ≠ none := by
  induction as generalizing p with
  | nil => cases ha
  | cons node rest ih =>
      obtain ⟨b, x⟩ := node
      rcases List.mem_cons.mp ha with rfl | hmem
      · rw [h.1]
        exact Option.some_ne_none _
      · exact ih h.2 hmem

/-- The node at the end of a front part of a segment. -/
theorem Linked.cell_eq (h : Linked cell p (as ++ (a, x) :: bs) n) :
    cell a = some ⟨last p as, first bs n, x⟩ := (linked_append.mp h).2.1

/-- The links of the node at each position: to the positions before and behind. -/
theorem Linked.getElem? (h : Linked cell none as none) {i : Nat} (hi : as[i]? = some (a, x)) :
    cell a = some ⟨if i = 0 then none else as[i - 1]?.map Prod.fst, as[i + 1]?.map Prod.fst, x⟩ := by
  have hlt : i < as.length := (List.getElem?_eq_some_iff.mp hi).1
  have hsplit : as = as.take i ++ (a, x) :: as.drop (i + 1) := by
    rw [← (List.getElem?_eq_some_iff.mp hi).2, ← List.drop_eq_getElem_cons hlt,
      List.take_append_drop]
  rw [hsplit] at h
  rw [h.cell_eq, last_eq_getLast?, Option.or_none, first_eq_head?, List.head?_drop]
  congr 2
  by_cases hzero : i = 0
  · rw [if_pos hzero, hzero]
    rfl
  · rw [if_neg hzero, List.getLast?_eq_getElem?, List.length_take_of_le (Nat.le_of_lt hlt),
      List.getElem?_take_of_lt (Nat.sub_one_lt hzero)]

/-- The last node gets another successor. -/
theorem Linked.setLast (h : Linked cell p (as ++ [(a, x)]) n) (ha : a ∉ addresses as) :
    Linked (Function.update cell a (some ⟨last p as, n', x⟩)) p (as ++ [(a, x)]) n' := by
  rw [linked_append] at h ⊢
  exact ⟨h.1.update ha, Function.update_self _ _ _, trivial⟩

/-- The first node gets another predecessor. -/
theorem Linked.setFirst (h : Linked cell p ((a, x) :: as) n) (ha : a ∉ addresses as) :
    Linked (Function.update cell a (some ⟨p', first as n, x⟩)) p' ((a, x) :: as) n :=
  ⟨Function.update_self _ _ _, h.2.update ha⟩

/-! ### Memory -/

/-- The cells, and the first address that was never handed out. -/
structure Memory (α : Type*) where
  cell : Nat → Option (Node α)
  fresh : Nat

namespace Memory

variable {m m' m'' : Memory α}

/-- A memory without nodes. -/
def empty : Memory α := ⟨fun _ => none, 0⟩

/-- A cell gets new contents. -/
def set (m : Memory α) (a : Nat) (c : Option (Node α)) : Memory α :=
  { m with cell := Function.update m.cell a c }

/-- A new node, at the next address. -/
def alloc (m : Memory α) (x : α) : Memory α :=
  ⟨Function.update m.cell m.fresh (some ⟨none, none, x⟩), m.fresh + 1⟩

/-- No node is at an address that was never handed out. -/
def Bounded (m : Memory α) : Prop := ∀ a, m.fresh ≤ a → m.cell a = none

@[simp] theorem set_cell_self {c : Option (Node α)} : (m.set a c).cell a = c :=
  Function.update_self _ _ _

/-- A node that is written leaves the others. -/
theorem set_cell_of_ne {b : Nat} (h : b ≠ a) {c : Option (Node α)} :
    (m.set a c).cell b = m.cell b := Function.update_of_ne h _ _

@[simp] theorem set_fresh {c : Option (Node α)} : (m.set a c).fresh = m.fresh := rfl

@[simp] theorem alloc_cell_fresh : (m.alloc x).cell m.fresh = some ⟨none, none, x⟩ :=
  Function.update_self _ _ _

/-- A new node leaves the others. -/
theorem alloc_cell_of_ne {b : Nat} (h : b ≠ m.fresh) : (m.alloc x).cell b = m.cell b :=
  Function.update_of_ne h _ _

@[simp] theorem alloc_fresh : (m.alloc x).fresh = m.fresh + 1 := rfl

/-- A new node is below the next fresh address. -/
theorem Bounded.alloc (h : m.Bounded) : (m.alloc x).Bounded := by
  intro b hb
  have hle : m.fresh + 1 ≤ b := hb
  rw [alloc_cell_of_ne (by omega)]
  exact h b (by omega)

/-- A node that is written over is below it, too. -/
theorem Bounded.set (h : m.Bounded) (ha : a < m.fresh) {c : Option (Node α)} :
    (m.set a c).Bounded := by
  intro b hb
  have hle : m.fresh ≤ b := hb
  rw [set_cell_of_ne (by omega)]
  exact h b hle

/-- What is there is below the next fresh address. -/
theorem Bounded.lt (h : m.Bounded) (ha : m.cell a ≠ none) : a < m.fresh :=
  Nat.lt_of_not_le fun hle => ha (h a hle)

/-- So are the nodes of a chain. -/
theorem Bounded.addresses_lt (h : m.Bounded) (hl : Linked m.cell p as n) :
    ∀ a ∈ addresses as, a < m.fresh := fun _ ha => h.lt (hl.cell_ne_none ha)

/-- A segment has no more nodes than addresses were handed out. -/
theorem Bounded.length_le (h : m.Bounded) (hl : Linked m.cell p as n)
    (hnodup : (addresses as).Nodup) : as.length ≤ m.fresh := by
  have hsub : addresses as ⊆ List.range m.fresh :=
    fun a ha => List.mem_range.mpr (h.addresses_lt hl a ha)
  have := (List.Nodup.subperm hnodup hsub).length_le
  rwa [List.length_map, List.length_range] at this

/-- A change of the memory that touches only a segment and new nodes: the segment
had the addresses `before` and has now those of `after`. -/
structure Changes (m m' : Memory α) (before after : List Nat) : Prop where
  bounded : m'.Bounded
  fresh_le : m.fresh ≤ m'.fresh
  frame : ∀ a, a ∉ before → a < m.fresh → m'.cell a = m.cell a
  within : ∀ a ∈ after, a ∈ before ∨ m.fresh ≤ a

variable {before middle after : List Nat}

/-- Nothing has changed. -/
theorem Changes.refl (h : m.Bounded) : Changes m m before before :=
  ⟨h, Nat.le_refl _, fun _ _ _ => rfl, fun _ ha => .inl ha⟩

/-- Changes one after the other. -/
theorem Changes.trans (h : Changes m m' before middle) (h' : Changes m' m'' middle after) :
    Changes m m'' before after := by
  refine ⟨h'.bounded, Nat.le_trans h.fresh_le h'.fresh_le, fun a ha hlt => ?_, fun a ha => ?_⟩
  · have hmid : a ∉ middle := fun hmem =>
      (h.within a hmem).elim ha fun hle => absurd hlt (Nat.not_lt_of_le hle)
    rw [h'.frame a hmid (Nat.lt_of_lt_of_le hlt h.fresh_le), h.frame a ha hlt]
  · rcases h'.within a ha with hmem | hle
    · exact h.within a hmem
    · exact .inr (Nat.le_trans h.fresh_le hle)

/-- A new node is one more. -/
theorem Changes.alloc (h : m.Bounded) : Changes m (m.alloc x) before (m.fresh :: before) := by
  refine ⟨h.alloc, Nat.le_succ _, fun a _ hlt => alloc_cell_of_ne (Nat.ne_of_lt hlt), ?_⟩
  intro a ha
  rcases List.mem_cons.mp ha with rfl | hmem
  · exact .inr (Nat.le_refl _)
  · exact .inl hmem

/-- A node that is written over is one of those before. -/
theorem Changes.set (h : m.Bounded) (hlt : a < m.fresh) (ha : a ∈ before)
    {c : Option (Node α)} : Changes m (m.set a c) before before :=
  ⟨h.set hlt, Nat.le_refl _, fun b hb _ => set_cell_of_ne (fun hba : b = a => hb (hba ▸ ha)),
    fun _ hb => .inl hb⟩

/-- A segment may keep fewer addresses than it is told to. -/
theorem Changes.subset (h : Changes m m' before after) (hsub : middle ⊆ after) :
    Changes m m' before middle :=
  ⟨h.bounded, h.fresh_le, h.frame, fun a ha => h.within a (hsub ha)⟩

/-- More may have been touched than was. -/
theorem Changes.mono (h : Changes m m' middle after) (hsub : middle ⊆ before) :
    Changes m m' before after :=
  ⟨h.bounded, h.fresh_le, fun a ha => h.frame a fun hmem => ha (hsub hmem),
    fun a ha => (h.within a ha).imp_left fun hmem => hsub hmem⟩

/-- Other segments are not touched. -/
theorem Changes.linked (h : Changes m m' before after) (hm : m.Bounded)
    (hl : Linked m.cell p as n) (hdisj : ∀ a ∈ addresses as, a ∉ before) :
    Linked m'.cell p as n :=
  hl.congr fun a ha => h.frame a (hdisj a ha) (hm.addresses_lt hl a ha)

/-- Other segments stay apart. -/
theorem Changes.disjoint (h : Changes m m' before after) (hm : m.Bounded)
    (hl : Linked m.cell p as n) (hdisj : ∀ a ∈ addresses as, a ∉ before) :
    ∀ a ∈ addresses as, a ∉ after := fun a ha hafter =>
  (h.within a hafter).elim (hdisj a ha) fun hle =>
    absurd (hm.addresses_lt hl a ha) (Nat.not_lt_of_le hle)

end Memory

end DoublyLinked
