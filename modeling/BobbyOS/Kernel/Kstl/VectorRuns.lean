import BobbyOS.Kernel.Kstl.VectorCapacity
import BobbyOS.Kernel.Kstl.VectorOps
import BobbyOS.Lib.Result
import Mathlib.Data.Option.Basic

/-!
# Runs of vector operations

Vector objects share a storage; a run makes objects, works on them and destroys them.
Its reference are the sequences of values, each with a mark that its capacity was taken
away by a move.

* `VectorPool.Represents.exec`: one operation does to the objects what it does to the
  sequences, or fails an assertion where a sequence has nothing to pop.
* `VectorPool.Are`: every object holds its sequence, and every element was destroyed once
  or is in the block of one object.
-/

namespace Kernel

open RawStorage Effects RawVector

/-- Vector objects, and the storage of their elements. -/
structure VectorPool (α : Type) where
  storage : Storage α
  vectors : Nat → Option RawVector

/-- An operation on the objects with these numbers. -/
inductive VectorOp (α : Type) where
  | ofDefault (i : Nat)
  | ofCount (i count : Nat) (value : α)
  | ofInitializerList (i : Nat) (il : List α)
  | copyConstruct (i other : Nat)
  | moveConstruct (i other : Nat)
  | copyAssign (i other : Nat)
  | moveAssign (i other : Nat)
  | emplaceBack (i : Nat) (value : α)
  | popBack (i : Nat)
  | resize (i count : Nat) (value : α)
  | reserve (i count : Nat)
  | shrinkToFit (i : Nat)
  | clear (i : Nat)
  | destruct (i : Nat)

variable {α : Type}

namespace VectorPool

/-- Before the first operation there are no vectors. -/
def initial : VectorPool α := ⟨Storage.empty, fun _ => none⟩

/-- The object with this number. -/
def object (s : VectorPool α) (i : Nat) : Except Panic RawVector :=
  match s.vectors i with
  | none => .error .nullPointer
  | some v => .ok v

/-- A program over the storage; the objects are then as `next` says. -/
def perform {β : Type} (s : VectorPool α) (x : VectorM α β) (next : β → Nat → Option RawVector) :
    Except Panic (VectorPool α) :=
  match x s.storage with
  | .ok a storage => .ok ⟨storage, next a⟩
  | .error e _ => .error e

/-- The objects with a new one in this place. -/
def put (s : VectorPool α) (i : Nat) (v : RawVector) : Nat → Option RawVector :=
  Function.update s.vectors i (some v)

/-- The objects after one took over the elements of another. -/
def putBoth (s : VectorPool α) (i other : Nat) (p : RawVector × RawVector) :
    Nat → Option RawVector :=
  Function.update (Function.update s.vectors i (some p.1)) other (some p.2)

end VectorPool

namespace VectorOp

/-- What an operation does to the objects; elements have `sizeof` bytes. -/
def exec (sizeof : Nat) (s : VectorPool α) : VectorOp α → Except Panic (VectorPool α)
  | ofDefault i => s.perform (RawVector.ofDefault sizeof) (s.put i)
  | ofCount i count value => s.perform (RawVector.ofCount sizeof count value) (s.put i)
  | ofInitializerList i il => s.perform (RawVector.ofInitializerList sizeof il) (s.put i)
  | copyConstruct i other => do
      s.perform (RawVector.copy sizeof (← s.object other)) (s.put i)
  | moveConstruct i other => do
      s.perform (pure (RawVector.move (← s.object other))) (s.putBoth i other)
  | copyAssign i other =>
      if i = other then .ok s
      else do s.perform (RawVector.assign sizeof (← s.object i) (← s.object other)) (s.put i)
  | moveAssign i other =>
      if i = other then .ok s
      else do
        s.perform (RawVector.assignMove (← s.object i) (← s.object other)) (s.putBoth i other)
  | emplaceBack i value => do
      s.perform (RawVector.emplaceBack sizeof (← s.object i) value) (s.put i)
  | popBack i => do s.perform (RawVector.popBack (← s.object i)) (s.put i)
  | resize i count value => do
      s.perform (RawVector.resize sizeof (← s.object i) count value) (s.put i)
  | reserve i count => do s.perform (RawVector.reserve sizeof (← s.object i) count) (s.put i)
  | shrinkToFit i => do s.perform (RawVector.shrinkToFit sizeof (← s.object i)) (s.put i)
  | clear i => do s.perform (RawVector.clear (← s.object i)) (s.put i)
  | destruct i => do
      s.perform (RawVector.destruct (← s.object i)) fun _ => Function.update s.vectors i none

/-- An operation on one of the sequences. -/
def onValue (i : Nat) (f : VectorValue α → Option (VectorValue α))
    (r : Nat → Option (VectorValue α)) : Option (Nat → Option (VectorValue α)) :=
  match r i with
  | none => some r
  | some q => (f q).map fun q' => Function.update r i (some q')

/-- What an operation does to the sequences; there is nothing to pop from an empty
one. -/
def apply (r : Nat → Option (VectorValue α)) :
    VectorOp α → Option (Nat → Option (VectorValue α))
  | ofDefault i => some (Function.update r i (some ⟨[], false⟩))
  | ofCount i count value => some (Function.update r i (some ⟨List.replicate count value, false⟩))
  | ofInitializerList i il => some (Function.update r i (some ⟨il, false⟩))
  | copyConstruct i other => some (Function.update r i (r other))
  | moveConstruct i other =>
      some (Function.update (Function.update r i (r other)) other (some ⟨[], true⟩))
  | copyAssign i other =>
      if i = other then some r
      else
        match r other with
        | none => some r
        | some q' => onValue i (fun q => some ⟨q'.items, q.taken && q'.items.isEmpty⟩) r
  | moveAssign i other =>
      if i = other then some r
      else some (Function.update (Function.update r i (r other)) other (some ⟨[], true⟩))
  | emplaceBack i value => onValue i (fun q => some ⟨q.items ++ [value], false⟩) r
  | popBack i =>
      onValue i (fun q => if q.items = [] then none else some ⟨q.items.dropLast, q.taken⟩) r
  | resize i count value =>
      onValue i (fun q => some ⟨q.items.take count ++
        List.replicate (count - q.items.length) value, q.taken && count == 0⟩) r
  | reserve i _ => onValue i (fun q => some ⟨q.items, false⟩) r
  | shrinkToFit i => onValue i some r
  | clear i => onValue i (fun q => some ⟨[], q.taken⟩) r
  | destruct i => some (Function.update r i none)

/-- A constructor makes a new object; everything else is done to objects that exist. -/
def Valid (op : VectorOp α) (r : Nat → Option (VectorValue α)) : Prop :=
  match op with
  | ofDefault i | ofCount i _ _ | ofInitializerList i _ => r i = none
  | copyConstruct i other | moveConstruct i other => r i = none ∧ r other ≠ none
  | copyAssign i other | moveAssign i other => r i ≠ none ∧ r other ≠ none
  | emplaceBack i _ | popBack i | resize i _ _ | reserve i _ | shrinkToFit i | clear i |
    destruct i => r i ≠ none

/-- The number of elements for which an operation asks room. -/
def asks (op : VectorOp α) (r : Nat → Option (VectorValue α)) : Option Nat :=
  match op with
  | ofDefault _ => some MiniVector.DEFAULT_CAP
  | ofCount _ count _ | resize _ count _ | reserve _ count => some count
  | ofInitializerList _ il => some il.length
  | emplaceBack i _ => (r i).map fun q => q.items.length + 1
  | copyConstruct .. | moveConstruct .. | copyAssign .. | moveAssign .. | popBack _ |
    shrinkToFit _ | clear _ | destruct _ => none

/-- The bytes of the block that an operation asks for can be counted with 32 bits. -/
def Sound (sizeof : Nat) (op : VectorOp α) (r : Nat → Option (VectorValue α)) : Prop :=
  match op.asks r with
  | none => True
  | some n => MiniVector.Fits sizeof n

/-- A run of operations. -/
def execAll (sizeof : Nat) (ops : List (VectorOp α)) : Except Panic (VectorPool α) :=
  ops.foldlM (exec sizeof) VectorPool.initial

/-- The sequences after a run. -/
def applyAll (ops : List (VectorOp α)) : Option (Nat → Option (VectorValue α)) :=
  ops.foldlM apply fun _ => none

end VectorOp

/-! ### What the objects hold -/

/-- The object holds these values, its size is within its capacity, and the capacity is
zero exactly if it was taken away, else a power of two. -/
structure RawVector.IsVector (v : RawVector) (t : Storage α) (q : VectorValue α) : Prop where
  size : v.size = q.items.length
  values : ∀ j x, q.items[j]? = some x → Returns (v.get j) t x t
  room : v.size ≤ v.capacity
  capacity : if q.taken = true then v.capacity = 0 else ∃ k, v.capacity = 2 ^ k

/-- **The objects are the sequences.**  Every element that was constructed is at one
place and below the size of a vector there, or was destroyed once; when no object is left,
all elements were destroyed once and all blocks were given back. -/
structure VectorPool.Are (s : VectorPool α) (r : Nat → Option (VectorValue α)) : Prop where
  vectors : ∀ i, Option.Rel (fun v q => v.IsVector s.storage q) (s.vectors i) (r i)
  once : ∀ k < s.storage.created,
    (∃! p, s.storage.live p = some k) ∧ s.storage.destroyed.count k = 0 ∨
      (∀ p, s.storage.live p ≠ some k) ∧ s.storage.destroyed.count k = 1
  elements : ∀ b j, s.storage.live (b, j) ≠ none →
    ∃ i v, s.vectors i = some v ∧ v.data = some b ∧ j < v.size
  finished : (∀ i, r i = none) →
    (∀ k < s.storage.created, s.storage.destroyed.count k = 1) ∧ ∀ b, s.storage.size b = none

/-! ### The blocks and their owners -/

variable {sizeof i j other : Nat} {t : Storage α} {view rest : Nat → Option (Block α)}
  {V : Nat → Option (RawVector × MiniVector α)} {vs : Nat → Option RawVector}
  {r : Nat → Option (VectorValue α)} {v : RawVector} {m : MiniVector α} {q q' : VectorValue α}

/-- Objects with what they are worth: each block belongs to one of them, and holds its
elements. -/
structure Partition (view : Nat → Option (Block α))
    (V : Nat → Option (RawVector × MiniVector α)) : Prop where
  holds : ∀ i v m, V i = some (v, m) → Holds view v m
  owned : ∀ b, view b ≠ none → ∃ i v m, V i = some (v, m) ∧ v.data = some b
  disjoint : ∀ i j v w m m' b, V i = some (v, m) → V j = some (w, m') → v.data = some b →
    w.data = some b → i = j

/-- A block that is not this object's is another object's. -/
theorem Partition.owner {b : Nat} (h : Partition view V) (hi : V i = some (v, m))
    (hb : view b ≠ none) (hdata : v.data ≠ some b) :
    ∃ j w m', Function.update V i none j = some (w, m') ∧ w.data = some b := by
  obtain ⟨j, w, m', hj, hw⟩ := h.owned b hb
  have hne : j ≠ i := by
    rintro rfl
    obtain ⟨rfl, -⟩ := Prod.mk.inj (Option.some.inj (hi.symm.trans hj))
    exact hdata hw
  exact ⟨j, w, m', by rw [Function.update_of_ne hne, hj], hw⟩

/-- An object and its block are set apart. -/
theorem Partition.take (h : Partition t.view V) (hi : V i = some (v, m)) :
    ∃ rest, Owns rest t v m ∧ Partition rest (Function.update V i none) := by
  have hother : ∀ {j p}, Function.update V i none j = some p → j ≠ i ∧ V j = some p := by
    intro j p hp
    by_cases hj : j = i
    · rw [hj, Function.update_self] at hp
      cases hp
    · rw [Function.update_of_ne hj] at hp
      exact ⟨hj, hp⟩
  have hdisjoint : ∀ j k v w m m' b, Function.update V i none j = some (v, m) →
      Function.update V i none k = some (w, m') → v.data = some b → w.data = some b → j = k :=
    fun j k v w m m' b hj hk => h.disjoint j k v w m m' b (hother hj).2 (hother hk).2
  have hholds := h.holds i v m hi
  cases hdata : v.data with
  | none =>
      refine ⟨t.view, ⟨hholds.toDescribes, ?_, ?_⟩, ?_, ?_, hdisjoint⟩
      · rw [hdata]
        exact fun b hb => absurd hb.symm (Option.some_ne_none b)
      · rw [hdata]
        rfl
      · exact fun j w m' hj => h.holds j w m' (hother hj).2
      · intro b hb
        refine h.owner hi hb ?_
        rw [hdata]
        exact (Option.some_ne_none b).symm
  | some b =>
      refine ⟨Function.update t.view b none, ⟨hholds.toDescribes, ?_, ?_⟩, ?_, ?_, hdisjoint⟩
      · intro c hc
        rw [hdata] at hc
        obtain rfl := Option.some.inj hc
        exact Function.update_self ..
      · rw [hdata]
        refine ((Function.update_idem ..).trans ?_).symm
        exact Function.update_eq_self_iff.mpr (hholds.stored b hdata).symm
      · intro j w m' hj
        have hw := h.holds j w m' (hother hj).2
        refine ⟨hw.toDescribes, fun c hc => ?_⟩
        rw [Function.update_of_ne]
        · exact hw.stored c hc
        · rintro rfl
          exact (hother hj).1 (h.disjoint j i w v m' m c (hother hj).2 hi hc hdata)
      · intro c hc
        have hcb : c ≠ b := by
          rintro rfl
          exact hc (Function.update_self ..)
        rw [Function.update_of_ne hcb] at hc
        refine h.owner hi hc fun hsame => ?_
        exact hcb (Option.some.inj (hsame.symm.trans hdata))

/-- An owned block is apart from the rest. -/
theorem RawVector.Owns.frames (h : Owns rest t v m) : Frames rest t := by
  intro c hc
  rw [h.view]
  cases hdata : v.data with
  | none => rfl
  | some b =>
      refine Function.update_of_ne ?_ _ _
      rintro rfl
      exact hc (h.apart c hdata)

/-- An object with its own block joins the others. -/
theorem Partition.put (h : Partition rest V) (hi : V i = none) (howns : Owns rest t v m) :
    Partition t.view (Function.update V i (some (v, m))) := by
  have hcases : ∀ {j w m'}, Function.update V i (some (v, m)) j = some (w, m') →
      (j = i ∧ w = v ∧ m' = m) ∨ (j ≠ i ∧ V j = some (w, m')) := by
    intro j w m' hj
    by_cases hji : j = i
    · rw [hji, Function.update_self] at hj
      obtain ⟨rfl, rfl⟩ := Prod.mk.inj (Option.some.inj hj)
      exact .inl ⟨hji, rfl, rfl⟩
    · rw [Function.update_of_ne hji] at hj
      exact .inr ⟨hji, hj⟩
  -- the block of the new object is not one of the others
  have hapart : ∀ {j w m' b}, V j = some (w, m') → w.data = some b → v.data ≠ some b := by
    intro j w m' b hj hw hv
    have hnone := howns.apart b hv
    rw [(h.holds j w m' hj).stored b hw] at hnone
    cases hnone
  refine ⟨fun j w m' hj => ?_, fun b hb => ?_, fun j k w x m₁ m₂ b hj hk hw hx => ?_⟩
  · rcases hcases hj with ⟨-, rfl, rfl⟩ | ⟨-, hV⟩
    · exact howns.holds
    · have hholds := h.holds j w m' hV
      refine ⟨hholds.toDescribes, fun b hb => ?_⟩
      have hstored := hholds.stored b hb
      rw [howns.frames b (by rw [hstored]; exact Option.some_ne_none _), hstored]
  · by_cases hv : v.data = some b
    · exact ⟨i, v, m, Function.update_self .., hv⟩
    · have hrest : rest b ≠ none := by
        rw [howns.view] at hb
        cases hdata : v.data with
        | none => rwa [hdata] at hb
        | some c =>
            rw [hdata] at hb hv
            rwa [withBlock, Function.update_of_ne fun heq => hv (by rw [heq])] at hb
      obtain ⟨j, w, m', hj, hw⟩ := h.owned b hrest
      refine ⟨j, w, m', ?_, hw⟩
      rw [Function.update_of_ne, hj]
      rintro rfl
      rw [hi] at hj
      cases hj
  · rcases hcases hj with ⟨rfl, rfl, -⟩ | ⟨-, hVj⟩
    · rcases hcases hk with ⟨rfl, -, -⟩ | ⟨-, hVk⟩
      · rfl
      · exact absurd hw (hapart hVk hx)
    · rcases hcases hk with ⟨rfl, rfl, -⟩ | ⟨-, hVk⟩
      · exact absurd hx (hapart hVj hw)
      · exact h.disjoint j k w x m₁ m₂ b hVj hVk hw hx

/-- An element is in the block of an object, below its size. -/
theorem Partition.element {b : Nat} (h : Partition t.view V) (hlive : t.live (b, j) ≠ none) :
    ∃ i v m, V i = some (v, m) ∧ v.data = some b ∧ j < v.size := by
  have hslot : t.slot (b, j) ≠ none := fun hslot => hlive (by rw [Storage.live, hslot]; rfl)
  obtain ⟨n, hn, -⟩ := t.within _ hslot
  have hn' : t.size b = some n := hn
  obtain ⟨i, v, m, hV, hdata⟩ := h.owned b (by
    rw [Storage.view, hn']
    exact Option.some_ne_none _)
  have hholds := h.holds i v m hV
  have hread := (Storage.view_eq_some.mp (hholds.stored b hdata)).2 j
  refine ⟨i, v, m, hV, hdata, ?_⟩
  rw [hholds.size]
  by_contra hge
  rw [List.getElem?_eq_none (by omega), Storage.read_eq_none] at hread
  exact hslot hread

/-- Without objects there are no blocks, and every element was destroyed. -/
theorem Partition.finished (h : Partition t.view V) (hV : ∀ i, V i = none) :
    (∀ k < t.created, t.destroyed.count k = 1) ∧ ∀ b, t.size b = none := by
  have hsize : ∀ b, t.size b = none := by
    intro b
    by_contra hb
    obtain ⟨i, v, m, hi, -⟩ := h.owned b fun hview => hb (Option.map_eq_none_iff.mp hview)
    rw [hV i] at hi
    cases hi
  refine ⟨fun k hk => ?_, hsize⟩
  rcases t.books.once hk with ⟨⟨p, hp, -⟩, -⟩ | ⟨-, hcount⟩
  · -- an element would be within a block
    obtain ⟨n, hn, -⟩ := t.within p fun hslot => by
      rw [hslot] at hp
      cases hp
    rw [hsize p.1] at hn
    cases hn
  · exact hcount

/-- What a user of the object sees. -/
theorem RawVector.Holds.isVector (h : Holds t.view v m) (hm : m.Worth sizeof q) :
    v.IsVector t q := by
  refine ⟨by rw [h.size, hm.items], fun j x hj => ?_, ?_, ?_⟩
  · rw [← hm.items] at hj
    exact h.get hj
  · rw [h.size, h.capacity]
    exact m.room
  · rw [h.capacity]
    split
    case isTrue htaken => exact hm.zero.mpr htaken
    case isFalse htaken => exact hm.pow.resolve_left (mt hm.zero.mp htaken)

/-- The objects partition the blocks and are worth the sequences. -/
def Represents (sizeof : Nat) (view : Nat → Option (Block α)) (vs : Nat → Option RawVector)
    (r : Nat → Option (VectorValue α)) : Prop :=
  ∃ V, Partition view V ∧ (∀ i, vs i = (V i).map Prod.fst) ∧
    ∀ i, Option.Rel (fun p q => MiniVector.Worth sizeof p.2 q) (V i) (r i)

namespace Represents

/-- They represent no sequences. -/
theorem initial : Represents sizeof (VectorPool.initial : VectorPool α).storage.view
    (VectorPool.initial : VectorPool α).vectors fun _ => none :=
  ⟨fun _ => none, ⟨fun _ _ _ hV => (Option.some_ne_none _ hV.symm).elim,
    fun _ hb => absurd rfl hb, fun _ _ _ _ _ _ _ hV => (Option.some_ne_none _ hV.symm).elim⟩,
    fun _ => rfl, fun _ => .none⟩

/-- The object of a sequence. -/
theorem exists_object (hrel : Option.Rel (fun p q => MiniVector.Worth sizeof p.2 q) (V i) (r i))
    (hi : r i = some q) : ∃ v m, V i = some (v, m) ∧ m.Worth sizeof q := by
  rw [hi] at hrel
  cases hV : V i with
  | none =>
      rw [hV] at hrel
      cases hrel
  | some p =>
      rw [hV] at hrel
      cases hrel with
      | some hworth => exact ⟨p.1, p.2, rfl, hworth⟩

/-- Without a sequence there is no object. -/
theorem eq_none (hrel : Option.Rel (fun p q => MiniVector.Worth sizeof p.2 q) (V i) (r i))
    (hi : r i = none) : V i = none := by
  rw [hi] at hrel
  cases hV : V i with
  | none => rfl
  | some p =>
      rw [hV] at hrel
      cases hrel

/-- A represented vector holds its items in a block of its own. -/
theorem holds (h : Represents sizeof view vs r) (hi : r i = some q) :
    ∃ v m, vs i = some v ∧ m.Worth sizeof q ∧ Holds view v m := by
  obtain ⟨V, hpart, hnames, hworth⟩ := h
  obtain ⟨v, m, hV, hm⟩ := exists_object (hworth i) hi
  exact ⟨v, m, by rw [hnames i, hV]; rfl, hm, hpart.holds i v m hV⟩

/-- One place of the objects and of the sequences changes. -/
theorem update {x : Option (RawVector × MiniVector α)} {y : Option (VectorValue α)}
    (hpart : Partition view (Function.update V i x)) (hnames : ∀ i, vs i = (V i).map Prod.fst)
    (hworth : ∀ i, Option.Rel (fun p q => MiniVector.Worth sizeof p.2 q) (V i) (r i))
    (hxy : Option.Rel (fun p q => MiniVector.Worth sizeof p.2 q) x y) :
    Represents sizeof view (Function.update vs i (x.map Prod.fst)) (Function.update r i y) := by
  refine ⟨Function.update V i x, hpart, fun j => ?_, fun j => ?_⟩
  · by_cases hj : j = i
    · rw [hj, Function.update_self, Function.update_self]
    · rw [Function.update_of_ne hj, Function.update_of_ne hj, hnames j]
  · by_cases hj : j = i
    · rw [hj, Function.update_self, Function.update_self]
      exact hxy
    · rw [Function.update_of_ne hj, Function.update_of_ne hj]
      exact hworth j

/-- It can be taken out of the pool. -/
theorem take (h : Represents sizeof t.view vs r) (hi : r i = some q) :
    ∃ v m rest, vs i = some v ∧ m.Worth sizeof q ∧ Owns rest t v m ∧
      Represents sizeof rest (Function.update vs i none) (Function.update r i none) := by
  obtain ⟨V, hpart, hnames, hworth⟩ := h
  obtain ⟨v, m, hV, hm⟩ := exists_object (hworth i) hi
  obtain ⟨rest, howns, hrest⟩ := hpart.take hV
  exact ⟨v, m, rest, by rw [hnames i, hV]; rfl, hm, howns, update hrest hnames hworth .none⟩

/-- A vector can be put into the pool. -/
theorem put (h : Represents sizeof rest vs r) (hi : r i = none) (howns : Owns rest t v m)
    (hm : m.Worth sizeof q) :
    Represents sizeof t.view (Function.update vs i (some v)) (Function.update r i (some q)) := by
  obtain ⟨V, hpart, hnames, hworth⟩ := h
  exact update (hpart.put (eq_none (hworth i) hi) howns) hnames hworth (.some hm)

/-- An object becomes what another one was, and that one has nothing left. -/
theorem moved (h : Represents sizeof t.view vs r) (hi : r i = none) (hother : r other = some q) :
    ∃ v, vs other = some v ∧ Represents sizeof t.view
      (Function.update (Function.update vs i (some v)) other (some RawVector.movedFrom))
      (Function.update (Function.update r i (some q)) other (some ⟨[], true⟩)) := by
  have hne : i ≠ other := by
    rintro rfl
    rw [hi] at hother
    cases hother
  obtain ⟨v, m, rest, hv, hm, howns, hrest⟩ := h.take hother
  have hput := hrest.put (i := i) (by rwa [Function.update_of_ne hne]) howns hm
  have hnone : Function.update (Function.update r other none) i (some q) other = none := by
    rw [Function.update_of_ne hne.symm, Function.update_self]
  have hresult := hput.put hnone (owns_movedFrom rfl) MiniVector.worth_movedFrom
  rw [Function.update_comm hne, Function.update_comm hne, Function.update_idem,
    Function.update_idem, Function.update_comm hne.symm, Function.update_comm hne.symm] at hresult
  exact ⟨v, hv, hresult⟩

/-- Represented vectors are what they should be. -/
theorem are {s : VectorPool α} (h : Represents sizeof s.storage.view s.vectors r) : s.Are r := by
  obtain ⟨V, hpart, hnames, hworth⟩ := h
  refine ⟨fun i => ?_, fun k hk => s.storage.books.once hk, fun b j hlive => ?_, fun hnone => ?_⟩
  · rw [hnames i]
    cases hr : r i with
    | none =>
        rw [eq_none (hworth i) hr]
        exact .none
    | some q =>
        obtain ⟨v, m, hV, hm⟩ := exists_object (hworth i) hr
        rw [hV]
        exact .some ((hpart.holds i v m hV).isVector hm)
  · obtain ⟨i, v, m, hV, hdata, hlt⟩ := hpart.element hlive
    exact ⟨i, v, by rw [hnames i, hV]; rfl, hdata, hlt⟩
  · exact hpart.finished fun i => eq_none (hworth i) (hnone i)

end Represents

/-! ### One operation -/

/-- An operation that makes an object or works on one. -/
theorem VectorPool.perform_eq {β : Type} {s : VectorPool α} {x : VectorM α β} {a : β}
    (h : Returns x s.storage a t) (next : β → Nat → Option RawVector) :
    s.perform x next = .ok ⟨t, next a⟩ := by
  unfold VectorPool.perform
  rw [show x s.storage = .ok a t from h]

/-- An object that is there is found. -/
theorem VectorPool.object_eq {s : VectorPool α} (h : s.vectors i = some v) :
    s.object i = .ok v := by
  unfold VectorPool.object
  rw [h]

/-- A constructed vector joins the others. -/
theorem Represents.construct {s : VectorPool α}
    (h : Represents sizeof s.storage.view s.vectors r) (hi : r i = none)
    {x : VectorM α RawVector}
    (hx : ∃ v t, Returns x s.storage v t ∧ Owns s.storage.view t v m) (hm : m.Worth sizeof q) :
    ∃ s', s.perform x (s.put i) = .ok s' ∧
      Represents sizeof s'.storage.view s'.vectors (Function.update r i (some q)) := by
  obtain ⟨v, t, hret, howns⟩ := hx
  exact ⟨_, VectorPool.perform_eq hret _, h.put hi howns hm⟩

/-- What an operation on an existing sequence gives. -/
theorem VectorOp.onValue_eq (hi : r i = some q) (f : VectorValue α → Option (VectorValue α)) :
    VectorOp.onValue i f r = (f q).map fun q' => Function.update r i (some q') := by
  unfold VectorOp.onValue
  rw [hi]

/-- The relation between objects and sequences along a run. -/
def Follows (sizeof : Nat) (x : Except Panic (VectorPool α))
    (y : Option (Nat → Option (VectorValue α))) : Prop :=
  Except.Follows (fun s r => Represents sizeof s.storage.view s.vectors r)
    (.assertFailed "_size > 0") x y

/-- An operation on one object, which may look at the others. -/
theorem Represents.operate {s : VectorPool α}
    (h : Represents sizeof s.storage.view s.vectors r) (hi : r i ≠ none)
    {f : RawVector → VectorM α RawVector} {g : VectorValue α → VectorValue α}
    (hf : ∀ {rest v m q}, r i = some q → Owns rest s.storage v m → m.Worth sizeof q →
      Represents sizeof rest (Function.update s.vectors i none) (Function.update r i none) →
      ∃ v' t m', Returns (f v) s.storage v' t ∧ Owns rest t v' m' ∧ m'.Worth sizeof (g q)) :
    Follows sizeof (do s.perform (f (← s.object i)) (s.put i))
      (VectorOp.onValue i (fun q => some (g q)) r) := by
  obtain ⟨q, hq⟩ := Option.ne_none_iff_exists'.mp hi
  obtain ⟨v, m, rest, hv, hm, howns, hrest⟩ := h.take hq
  obtain ⟨v', t, m', hret, howns', hm'⟩ := hf hq howns hm hrest
  have hput := hrest.put (Function.update_self ..) howns' hm'
  rw [Function.update_idem, Function.update_idem] at hput
  rw [VectorOp.onValue_eq hq]
  refine ⟨⟨t, s.put i v'⟩, ?_, hput⟩
  rw [VectorPool.object_eq hv, Except.ok_bind, VectorPool.perform_eq hret]

/-- `pop_back` follows the sequence. -/
theorem Represents.popBack {s : VectorPool α}
    (h : Represents sizeof s.storage.view s.vectors r) (hi : r i ≠ none) :
    Follows sizeof ((VectorOp.popBack i).exec sizeof s) ((VectorOp.popBack i).apply r) := by
  obtain ⟨q, hq⟩ := Option.ne_none_iff_exists'.mp hi
  dsimp only [VectorOp.exec, VectorOp.apply]
  by_cases hnil : q.items = []
  · obtain ⟨v, m, hv, hm, hholds⟩ := h.holds hq
    have hzero : v.size = 0 := by
      rw [hholds.size, hm.items, hnil]
      rfl
    rw [VectorOp.onValue_eq hq, if_pos hnil, VectorPool.object_eq hv, Except.ok_bind,
      VectorPool.perform, popBack_empty hzero]
    rfl
  · have hsame : VectorOp.onValue i
        (fun q => if q.items = [] then none else some ⟨q.items.dropLast, q.taken⟩) r =
        VectorOp.onValue i (fun q => some ⟨q.items.dropLast, q.taken⟩) r := by
      rw [VectorOp.onValue_eq hq, VectorOp.onValue_eq hq, if_neg hnil]
    rw [hsame]
    refine h.operate hi fun hq' howns hm _ => ?_
    obtain rfl := Option.some.inj (hq.symm.trans hq')
    obtain ⟨m', hpop, hm'⟩ := hm.popBack hnil
    obtain ⟨v', t, hret, howns'⟩ := howns.popBack hpop
    exact ⟨v', t, m', hret, howns', hm'⟩

/-- A copy assignment follows the sequences. -/
theorem Represents.copyAssign {s : VectorPool α} (hsizeof : 0 < sizeof)
    (h : Represents sizeof s.storage.view s.vectors r) (hi : r i ≠ none) (hother : r other ≠ none) :
    Follows sizeof ((VectorOp.copyAssign i other).exec sizeof s)
      ((VectorOp.copyAssign i other).apply r) := by
  obtain ⟨q', hq'⟩ := Option.ne_none_iff_exists'.mp hother
  dsimp only [VectorOp.exec, VectorOp.apply]
  by_cases heq : i = other
  · rw [if_pos heq, if_pos heq]
    exact ⟨s, rfl, h⟩
  · obtain ⟨w, -, hw, -⟩ := h.holds hq'
    rw [if_neg heq, if_neg heq, hq', VectorPool.object_eq hw]
    refine h.operate hi (f := fun v => RawVector.assign sizeof v w) fun _ howns hm hrest => ?_
    -- the other object holds its elements beside the block of this one
    have hkept : Function.update r i none other = some q' := by
      rw [Function.update_of_ne (Ne.symm heq), hq']
    obtain ⟨w', m', hw', hm', hholds⟩ := hrest.holds hkept
    rw [Function.update_of_ne (Ne.symm heq), hw] at hw'
    obtain rfl := Option.some.inj hw'
    obtain ⟨v', t, hret, howns'⟩ := howns.assign hholds hsizeof hm'.fits
    exact ⟨v', t, _, hret, howns', hm.assign hm'⟩

/-- So does a move assignment. -/
theorem Represents.moveAssign {s : VectorPool α}
    (h : Represents sizeof s.storage.view s.vectors r) (hi : r i ≠ none) (hother : r other ≠ none) :
    Follows sizeof ((VectorOp.moveAssign i other).exec sizeof s)
      ((VectorOp.moveAssign i other).apply r) := by
  obtain ⟨q, hq⟩ := Option.ne_none_iff_exists'.mp hi
  obtain ⟨q', hq'⟩ := Option.ne_none_iff_exists'.mp hother
  dsimp only [VectorOp.exec, VectorOp.apply]
  by_cases heq : i = other
  · rw [if_pos heq, if_pos heq]
    exact ⟨s, rfl, h⟩
  · obtain ⟨v, m, rest, hv, -, howns, hrest⟩ := h.take hq
    obtain ⟨w, -, hw, -⟩ := h.holds hq'
    obtain ⟨t, hret, hview⟩ := howns.assignMove w
    rw [← hview] at hrest
    have hkept : Function.update r i none other = some q' := by
      rw [Function.update_of_ne (Ne.symm heq), hq']
    obtain ⟨w', hw', hmoved⟩ := hrest.moved (i := i) (Function.update_self ..) hkept
    rw [Function.update_of_ne (Ne.symm heq), hw] at hw'
    obtain rfl := Option.some.inj hw'
    rw [Function.update_idem, Function.update_idem] at hmoved
    rw [if_neg heq, if_neg heq, hq', VectorPool.object_eq hv, Except.ok_bind,
      VectorPool.object_eq hw, Except.ok_bind]
    exact ⟨_, VectorPool.perform_eq hret _, hmoved⟩

/-- **One operation.**  It does to the objects what it does to the sequences, or fails an
assertion where a sequence has nothing to pop. -/
theorem Represents.exec {s : VectorPool α} (hsizeof : 0 < sizeof)
    (h : Represents sizeof s.storage.view s.vectors r) {op : VectorOp α} (hvalid : op.Valid r)
    (hsound : op.Sound sizeof r) : Follows sizeof (op.exec sizeof s) (op.apply r) := by
  cases op with
  | ofDefault i =>
      exact h.construct hvalid (returns_ofDefault hsizeof hsound rfl)
        (MiniVector.worth_of_round hsound hsizeof rfl)
  | ofCount i count value =>
      exact h.construct hvalid (returns_ofCount hsizeof hsound rfl value)
        (MiniVector.worth_of_round hsound hsizeof rfl)
  | ofInitializerList i il =>
      exact h.construct hvalid (returns_ofInitializerList hsizeof hsound rfl)
        (MiniVector.worth_of_round hsound hsizeof rfl)
  | copyConstruct i other =>
      obtain ⟨q, hq⟩ := Option.ne_none_iff_exists'.mp hvalid.2
      obtain ⟨w, m, hw, hm, hholds⟩ := h.holds hq
      dsimp only [VectorOp.exec, VectorOp.apply]
      rw [VectorPool.object_eq hw, Except.ok_bind, hq]
      exact h.construct hvalid.1 (returns_copy hsizeof hm.fits hholds rfl) hm
  | moveConstruct i other =>
      obtain ⟨q, hq⟩ := Option.ne_none_iff_exists'.mp hvalid.2
      obtain ⟨v, hv, hmoved⟩ := h.moved hvalid.1 hq
      dsimp only [VectorOp.exec, VectorOp.apply]
      rw [VectorPool.object_eq hv, Except.ok_bind, hq]
      exact ⟨_, rfl, hmoved⟩
  | copyAssign i other => exact h.copyAssign hsizeof hvalid.1 hvalid.2
  | moveAssign i other => exact h.moveAssign hvalid.1 hvalid.2
  | emplaceBack i value =>
      refine h.operate hvalid fun hq howns hm _ => ?_
      dsimp only [VectorOp.Sound, VectorOp.asks] at hsound
      rw [hq] at hsound
      have hm' := hm.pushBack hsizeof (by rw [hm.items]; exact hsound) value
      obtain ⟨v', t, hret, howns'⟩ := howns.emplaceBack hsizeof hm'.fits
      exact ⟨v', t, _, hret, howns', hm'⟩
  | popBack i => exact h.popBack hvalid
  | resize i count value =>
      refine h.operate hvalid fun _ howns hm _ => ?_
      obtain ⟨m', hresize, hm'⟩ := hm.resize hsizeof hsound value
      obtain ⟨v', t, hret, howns'⟩ := howns.resize hsizeof hresize hm'.fits
      exact ⟨v', t, m', hret, howns', hm'⟩
  | reserve i count =>
      refine h.operate hvalid fun _ howns hm _ => ?_
      have hm' := hm.reserve hsizeof hsound
      obtain ⟨v', t, hret, howns'⟩ := howns.reserve hsizeof hm'.fits
      exact ⟨v', t, _, hret, howns', hm'⟩
  | shrinkToFit i =>
      refine h.operate (g := id) hvalid fun _ howns hm _ => ?_
      obtain ⟨v', t, hret, howns'⟩ := howns.shrinkToFit hsizeof (hm.round_lt hsizeof) hm.fits
      exact ⟨v', t, _, hret, howns', hm.shrinkToFit hsizeof⟩
  | clear i =>
      refine h.operate hvalid fun _ howns hm _ => ?_
      obtain ⟨t, hret, howns'⟩ := howns.clear
      exact ⟨_, t, _, hret, howns', hm.sameCapacity rfl⟩
  | destruct i =>
      obtain ⟨q, hq⟩ := Option.ne_none_iff_exists'.mp hvalid
      obtain ⟨v, m, rest, hv, -, howns, hrest⟩ := h.take hq
      obtain ⟨t, hret, hview⟩ := howns.destruct
      dsimp only [VectorOp.exec, VectorOp.apply]
      rw [VectorPool.object_eq hv, Except.ok_bind]
      rw [← hview] at hrest
      exact ⟨_, VectorPool.perform_eq hret _, hrest⟩

/-! ### Runs -/

/-- With 32 bits there is a next power of two up to 2³¹, and zero above. -/
theorem RawVector.isLeast_roundToNearestPowOf2_iff {x : Nat} (hx : x < 2 ^ 32) :
    IsLeast {p | (∃ k, p = 2 ^ k) ∧ x ≤ p} (RawVector.roundToNearestPowOf2 x) ↔ x ≤ 2 ^ 31 := by
  have hleast := MiniVector.isLeast_roundToNearestPowOf2 (Nat.le_of_lt hx)
  constructor
  · rintro ⟨⟨⟨k, hk⟩, hle⟩, -⟩
    have hlt : RawVector.roundToNearestPowOf2 x < 2 ^ 32 := Nat.mod_lt _ (by decide)
    rw [hk] at hle hlt
    have hk' : k ≤ 31 := Nat.le_of_lt_succ ((Nat.pow_lt_pow_iff_right (by decide)).mp hlt)
    exact Nat.le_trans hle (Nat.pow_le_pow_right (by decide) hk')
  · intro hle
    have hsmall := MiniVector.roundToNearestPowOf2_le hle (by decide)
    rw [RawVector.roundToNearestPowOf2, Nat.mod_eq_of_lt (by omega)]
    exact hleast

/-- **Runs of vector operations.**  After any operations whose blocks have no more bytes
than 32 bits can count, every vector is its sequence, and every element is at one place or
was destroyed once; only a pop of an empty vector fails, and that with its assertion.
Rounding up gives the least power of two for the numbers that have one of 32 bits. -/
theorem vector_runs (hsizeof : 0 < sizeof) (ops : List (VectorOp α))
    (hvalid : Except.Along VectorOp.apply VectorOp.Valid ops fun _ => none)
    (hsound : Except.Along VectorOp.apply (VectorOp.Sound sizeof) ops fun _ => none) :
    (match VectorOp.applyAll ops with
    | some r => ∃ s, VectorOp.execAll sizeof ops = .ok s ∧ s.Are r
    | none => VectorOp.execAll sizeof ops = .error (.assertFailed "_size > 0")) ∧
    ∀ x < 2 ^ 32, IsLeast {p | (∃ k, p = 2 ^ k) ∧ x ≤ p} (RawVector.roundToNearestPowOf2 x) ↔
      x ≤ 2 ^ 31 := by
  refine ⟨?_, fun x hx => RawVector.isLeast_roundToNearestPowOf2_iff hx⟩
  have hfollows := Except.foldlM_follows (f := VectorOp.exec sizeof) (s := VectorPool.initial)
    (R := fun s r => Represents sizeof s.storage.view s.vectors r)
    (fun op h hP => h.exec hsizeof hP.1 hP.2) Represents.initial (hvalid.and hsound)
  have h : Except.Follows VectorPool.Are _ (VectorOp.execAll sizeof ops) (VectorOp.applyAll ops) :=
    hfollows.imp Represents.are
  generalize VectorOp.applyAll ops = r at h ⊢
  cases r with
  | none => exact h
  | some r => exact h

/-- A vector grows and is copied, its elements are taken over by a third vector, and it
gets a new one; in the end all three are destroyed. -/
theorem vector_run_destroyed : ∃ s, VectorOp.execAll 4 [.ofCount 0 2 7, .emplaceBack 0 (5 : Nat),
      .copyConstruct 1 0, .popBack 1, .moveConstruct 2 0, .emplaceBack 0 9, .copyAssign 2 1,
      .destruct 0, .destruct 1, .destruct 2] = .ok s ∧
    (∀ k < s.storage.created, s.storage.destroyed.count k = 1) ∧
    ∀ b, s.storage.size b = none := by
  have hfits : ∀ n ≤ 8, MiniVector.Fits 4 n := by decide
  have hsome := fun q : VectorValue Nat => Option.some_ne_none q
  obtain ⟨⟨s, hexec, hare⟩, -⟩ := vector_runs (show 0 < 4 by decide) [.ofCount 0 2 7,
    .emplaceBack 0 (5 : Nat), .copyConstruct 1 0, .popBack 1, .moveConstruct 2 0,
    .emplaceBack 0 9, .copyAssign 2 1, .destruct 0, .destruct 1, .destruct 2]
    (.cons rfl rfl <| .cons (hsome _) rfl <| .cons ⟨rfl, hsome _⟩ rfl <| .cons (hsome _) rfl <|
      .cons ⟨rfl, hsome _⟩ rfl <| .cons (hsome _) rfl <| .cons ⟨hsome _, hsome _⟩ rfl <|
      .cons (hsome _) rfl <| .cons (hsome _) rfl <| .cons (hsome _) rfl trivial)
    (.cons (hfits 2 (by decide)) rfl <| .cons (hfits 3 (by decide)) rfl <| .cons trivial rfl <|
      .cons trivial rfl <| .cons trivial rfl <| .cons (hfits 1 (by decide)) rfl <|
      .cons trivial rfl <| .cons trivial rfl <| .cons trivial rfl <| .cons trivial rfl trivial)
  exact ⟨s, hexec, hare.finished fun i => by rcases i with _ | _ | _ | i <;> rfl⟩

/-- A vector with one element reserves for one element more than 2³¹, or for 2³⁰ elements of
four bytes: the new block has no bytes at all, and the element is constructed behind it. -/
theorem vector_reserve_fails :
    (∃ r, VectorOp.applyAll [.ofDefault 0, .emplaceBack 0 7, .reserve 0 (2 ^ 31 + 1)] = some r ∧
      r 0 = some ⟨[7], false⟩) ∧
    VectorOp.execAll 1 [.ofDefault 0, .emplaceBack 0 7, .reserve 0 (2 ^ 31 + 1)] =
      .error .outOfBounds ∧
    VectorOp.execAll 4 [.ofDefault 0, .emplaceBack 0 7, .reserve 0 (2 ^ 30)] =
      .error .outOfBounds :=
  ⟨⟨_, rfl, rfl⟩, rfl, rfl⟩

end Kernel
