import BobbyOS.Kernel.Kstl.Vectors
import BobbyOS.Lib.BitTricks
import BobbyOS.Lib.Effects
import BobbyOS.Lib.RawStorage

/-!
# The storage of a `ministl::vector`

A vector object has a size, a capacity and the address of a block, in which it
constructs and destroys its elements one by one.  Sizes are 32 bits wide, so the next
power of two and the number of bytes of a block wrap.  Allocation always succeeds.

* `RawVector.returns_constructs` and its like: what each loop over the slots does.
* `RawVector.Owns`: the object owns a block that holds the elements of a `MiniVector`,
  beside the blocks of others.
-/

namespace Kernel

open RawStorage Effects

/-- A program over the storage of the elements. -/
abbrev VectorM (α β : Type) := EStateM Panic (Storage α) β

/-- `ministl::vector`. -/
structure RawVector where
  size : Nat
  capacity : Nat
  data : Option Nat
deriving DecidableEq

namespace RawVector

variable {α : Type}

/-- The result has 32 bits. -/
def roundToNearestPowOf2 (x : Nat) : Nat := MiniVector.roundToNearestPowOf2 x % 2 ^ 32

/-! ### Slots -/

/-- `(T*)::operator new[](sizeof(T) * capacity)`. -/
def newArray (sizeof capacity : Nat) : VectorM α Nat := fun s =>
  .ok s.next (s.allocate (sizeof * capacity % 2 ^ 32 / sizeof))

/-- `::operator delete[](data)`, which does nothing to a null pointer. -/
def deleteArray (data : Option Nat) : VectorM α Unit := fun s =>
  match data with
  | none => .ok () s
  | some b =>
      match s.deallocate b with
      | none => .error .outOfBounds s
      | some s' => .ok () s'

/-- A step at `data + i`. -/
def atSlot (step : Storage α → Nat × Nat → Option (Storage α)) (data : Option Nat) (i : Nat) :
    VectorM α Unit := fun s =>
  match data with
  | none => .error .nullPointer s
  | some b =>
      match step s (b, i) with
      | none => .error .outOfBounds s
      | some s' => .ok () s'

/-- `new (data + i) T(value)`. -/
def construct (data : Option Nat) (i : Nat) (value : α) : VectorM α Unit :=
  atSlot (fun s p => s.construct p value) data i

/-- `data[i].~T()`. -/
def destroy (data : Option Nat) (i : Nat) : VectorM α Unit := atSlot Storage.destroy data i

/-- `data[i] = value`. -/
def store (data : Option Nat) (i : Nat) (value : α) : VectorM α Unit :=
  atSlot (fun s p => s.assign p value) data i

/-- `data[i]`. -/
def load (data : Option Nat) (i : Nat) : VectorM α α := fun s =>
  match data with
  | none => .error .nullPointer s
  | some b =>
      match s.read (b, i) with
      | none => .error .outOfBounds s
      | some value => .ok value s

/-! ### Constructors -/

/-- What a move leaves behind. -/
def movedFrom : RawVector := ⟨0, 0, none⟩

/-- `vector()`. -/
def ofDefault (sizeof : Nat) : VectorM α RawVector := do
  let data ← newArray sizeof MiniVector.DEFAULT_CAP
  return ⟨0, MiniVector.DEFAULT_CAP, some data⟩

/-- The loop of a constructor: the elements come from `source`. -/
def ofSource (sizeof size capacity : Nat) (source : Nat → VectorM α α) : VectorM α RawVector := do
  let data ← newArray sizeof capacity
  let _ ← rounds (fun i => do construct (some data) i (← source i)) size 0
  return ⟨size, capacity, some data⟩

/-- `vector(count, value)`; `vector(count)` has the value `T()`. -/
def ofCount (sizeof count : Nat) (value : α) : VectorM α RawVector :=
  ofSource sizeof count (roundToNearestPowOf2 count) fun _ => pure value

/-- `vector(std::initializer_list<T>)`. -/
def ofInitializerList (sizeof : Nat) (il : List α) : VectorM α RawVector :=
  ofSource sizeof il.length (roundToNearestPowOf2 il.length) fun i =>
    match il[i]? with
    | none => throw .outOfBounds
    | some value => pure value

/-- `vector(const vector&)`. -/
def copy (sizeof : Nat) (other : RawVector) : VectorM α RawVector :=
  ofSource sizeof other.size other.capacity (load other.data)

/-- `vector(vector&&)`: the new object, and the other one after it. -/
def move (other : RawVector) : RawVector × RawVector := (other, movedFrom)

/-! ### Operations -/

/-- `clear`. -/
def clear (v : RawVector) : VectorM α RawVector := do
  let _ ← rounds (destroy v.data) v.size 0
  return { v with size := 0 }

/-- `operator=(vector&&)`, from another vector: both objects after it. -/
def assignMove (v other : RawVector) : VectorM α (RawVector × RawVector) := do
  let _ ← clear v
  deleteArray v.data
  return (other, movedFrom)

/-- The block that `operator=` assigns to. -/
def makeRoom (sizeof : Nat) (v other : RawVector) : VectorM α RawVector := do
  if v.capacity < other.size then
    let _ ← clear v
    deleteArray v.data
    let data ← newArray sizeof other.capacity
    return ⟨0, other.capacity, some data⟩
  else return v

/-- `operator=(const vector&)`, from another vector. -/
def assign (sizeof : Nat) (v other : RawVector) : VectorM α RawVector := do
  let v ← makeRoom sizeof v other
  let i ← rounds (fun i => do store v.data i (← load other.data i)) (min v.size other.size) 0
  let i ← rounds (fun i => do construct v.data i (← load other.data i)) (other.size - i) i
  let _ ← rounds (destroy v.data) (v.size - i) i
  return { v with size := other.size }

/-- The elements move to a block of another capacity. -/
def relocate (sizeof : Nat) (v : RawVector) (capacity : Nat) : VectorM α RawVector := do
  let replacement ← newArray sizeof capacity
  let _ ← rounds (fun i => do
    construct (some replacement) i (← load v.data i)
    destroy v.data i) v.size 0
  deleteArray v.data
  return { v with capacity, data := some replacement }

/-- `reserve`. -/
def reserve (sizeof : Nat) (v : RawVector) (count : Nat) : VectorM α RawVector :=
  let count := if count = 0 then 1 else count
  if count ≤ v.capacity then pure v
  else relocate sizeof v (roundToNearestPowOf2 count)

/-- `shrink_to_fit`. -/
def shrinkToFit (sizeof : Nat) (v : RawVector) : VectorM α RawVector :=
  let newCap := roundToNearestPowOf2 v.size
  if v.capacity ≤ newCap then pure v else relocate sizeof v newCap

/-- The vector before an insertion: a full one reserves more. -/
def grow (sizeof : Nat) (v : RawVector) : VectorM α RawVector :=
  if v.size = v.capacity then reserve sizeof v (v.capacity * MiniVector.GROWTH_FACTOR % 2 ^ 32)
  else pure v

/-- `emplace_back` and `push_back`. -/
def emplaceBack (sizeof : Nat) (v : RawVector) (value : α) : VectorM α RawVector := do
  let v ← grow sizeof v
  construct v.data v.size value
  return { v with size := v.size + 1 }

/-- `pop_back`. -/
def popBack (v : RawVector) : VectorM α RawVector :=
  if v.size = 0 then throw (.assertFailed "_size > 0")
  else do
    destroy v.data (v.size - 1)
    return { v with size := v.size - 1 }

/-- So many rounds of `pop_back()`. -/
def popTimes : Nat → RawVector → VectorM α RawVector
  | 0, v => pure v
  | n + 1, v => do popTimes n (← popBack v)

/-- So many rounds of `emplace_back(value)`. -/
def pushTimes (sizeof : Nat) (value : α) : Nat → RawVector → VectorM α RawVector
  | 0, v => pure v
  | n + 1, v => do pushTimes sizeof value n (← emplaceBack sizeof v value)

/-- `resize(count, value)`; `resize(count)` has the value `T()`. -/
def resize (sizeof : Nat) (v : RawVector) (count : Nat) (value : α) : VectorM α RawVector := do
  let v ← popTimes (v.size - count) v
  pushTimes sizeof value (count - v.size) v

/-- `~vector()`. -/
def destruct (v : RawVector) : VectorM α Unit := do
  let v ← clear v
  if v.data = none then return () else deleteArray v.data

/-- `operator[]` and `at`. -/
def get (v : RawVector) (idx : Nat) : VectorM α α :=
  if idx < v.size then load v.data idx else throw (.assertFailed "idx < _size")

/-! ### Steps at a slot -/

variable {rest : Nat → Option (Block α)} {s s' : Storage α} {b n i k : Nat} {f : Nat → Option α}
  {value : α} {l items : List α}

/-- A step of the storage, through the pointer. -/
theorem returns_atSlot {step : Storage α → Nat × Nat → Option (Storage α)}
    (h : step s (b, i) = some s') : Returns (atSlot step (some b) i) s () s' := by
  unfold Returns atSlot
  dsimp only
  rw [h]

/-- An object is constructed in an empty slot. -/
theorem returns_construct (h : s.view = Function.update rest b (some (n, f))) (hi : i < n)
    (hf : f i = none) (value : α) :
    ∃ s', Returns (construct (some b) i value) s () s' ∧
      s'.view = Function.update rest b (some (n, Function.update f i (some value))) := by
  obtain ⟨s', hs', hview⟩ := Storage.construct_spec h hi hf value
  exact ⟨s', returns_atSlot hs', hview⟩

/-- An object is destroyed where one is. -/
theorem returns_destroy (h : s.view = Function.update rest b (some (n, f)))
    (hf : f i = some value) :
    ∃ s', Returns (destroy (some b) i) s () s' ∧
      s'.view = Function.update rest b (some (n, Function.update f i none)) := by
  obtain ⟨s', hs', hview⟩ := Storage.destroy_spec h hf
  exact ⟨s', returns_atSlot hs', hview⟩

/-- An object is assigned to where one is. -/
theorem returns_store (h : s.view = Function.update rest b (some (n, f))) (hf : f i = some value)
    (value' : α) :
    ∃ s', Returns (store (some b) i value') s () s' ∧
      s'.view = Function.update rest b (some (n, Function.update f i (some value'))) := by
  obtain ⟨s', hs', hview⟩ := Storage.assign_spec h hf value'
  exact ⟨s', returns_atSlot hs', hview⟩

/-- An object is read where one is. -/
theorem returns_load (h : s.view b = some (n, f)) (hf : f i = some value) :
    Returns (load (some b) i) s value s := by
  unfold Returns load
  dsimp only
  rw [Storage.read_spec h hf]

/-- A block without objects is given back. -/
theorem returns_deleteArray (h : s.view = Function.update rest b (some (n, f)))
    (hrest : rest b = none) (hf : ∀ i, f i = none) :
    ∃ s', Returns (deleteArray (some b)) s () s' ∧ s'.view = rest := by
  obtain ⟨s', hs', hview⟩ := Storage.deallocate_spec h hrest hf
  refine ⟨s', ?_, hview⟩
  unfold Returns deleteArray
  dsimp only
  rw [hs']

/-- **A new block** has the capacity that was asked for when its bytes can be counted. -/
theorem returns_newArray {sizeof capacity : Nat} (hsizeof : 0 < sizeof)
    (hfits : sizeof * capacity < 2 ^ 32) (h : s.view = rest) :
    ∃ b s', Returns (newArray sizeof capacity) s b s' ∧ rest b = none ∧
      s'.view = Function.update rest b (some (capacity, fun _ => none)) := by
  obtain ⟨hfresh, hview⟩ := s.allocate_spec (sizeof * capacity % 2 ^ 32 / sizeof)
  rw [Nat.mod_eq_of_lt hfits, Nat.mul_div_cancel_left _ hsizeof] at hview
  subst h
  refine ⟨s.next, _, rfl, hfresh, ?_⟩
  rw [Nat.mod_eq_of_lt hfits, Nat.mul_div_cancel_left _ hsizeof]
  exact hview

/-! ### Loops -/

/-- What a loop reads from, at each of its rounds. -/
def Supplies (source : Nat → VectorM α α) (l : List α) (P : Storage α → Prop) : Prop :=
  ∀ j x t, l[j]? = some x → P t → Returns (source j) t x t

/-- The block while its elements are replaced. -/
def At (rest : Nat → Option (Block α)) (b n : Nat) (l items : List α) (i : Nat)
    (s : Storage α) : Prop :=
  s.view = Function.update rest b (some (n, overwrite l items i))

/-- **Loop.**  Rounds of constructions go on with the source. -/
theorem returns_constructs {source : Nat → VectorM α α}
    (hsource : Supplies source l fun t => ∃ j, At rest b n l items j t)
    (h : At rest b n l items i s) (hi : 0 < k → items.length ≤ i) (hn : i + k ≤ n)
    (hl : i + k ≤ l.length) :
    ∃ s', Returns (rounds (fun i => do construct (some b) i (← source i)) k i) s (i + k) s' ∧
      At rest b n l items (i + k) s' := by
  refine returns_rounds (fun j t hle hlt ht => ?_) h
  have hget := List.getElem?_eq_getElem (show j < l.length by omega)
  have hraw : overwrite l items j j = none := by
    rw [overwrite_self, List.getElem?_eq_none (by omega)]
  obtain ⟨t', ht', hview⟩ := returns_construct ht (by omega) hraw l[j]
  rw [← hget, ← overwrite_succ] at hview
  exact ⟨t', (hsource j _ t hget ⟨j, ht⟩).bind ht', hview⟩

/-- **Loop.**  Rounds of assignments do. -/
theorem returns_stores {source : Nat → VectorM α α}
    (hsource : Supplies source l fun t => ∃ j, At rest b n l items j t)
    (h : At rest b n l items i s) (hi : i + k ≤ items.length) (hl : i + k ≤ l.length) :
    ∃ s', Returns (rounds (fun i => do store (some b) i (← source i)) k i) s (i + k) s' ∧
      At rest b n l items (i + k) s' := by
  refine returns_rounds (fun j t hle hlt ht => ?_) h
  have hget := List.getElem?_eq_getElem (show j < l.length by omega)
  have hold := (overwrite_self (l := l)).trans
    (List.getElem?_eq_getElem (show j < items.length by omega))
  obtain ⟨t', ht', hview⟩ := returns_store ht hold l[j]
  rw [← hget, ← overwrite_succ] at hview
  exact ⟨t', (hsource j _ t hget ⟨j, ht⟩).bind ht', hview⟩

/-- **Loop.**  Rounds of destructions empty the slots. -/
theorem returns_destroys (h : At rest b n l items i s) (hi : 0 < k → i + k ≤ items.length)
    (hl : l.length ≤ i) :
    ∃ s', Returns (rounds (destroy (some b)) k i) s (i + k) s' ∧
      At rest b n l items (i + k) s' := by
  refine returns_rounds (fun j t hle hlt ht => ?_) h
  have hold := (overwrite_self (l := l)).trans
    (List.getElem?_eq_getElem (show j < items.length by omega))
  obtain ⟨t', ht', hview⟩ := returns_destroy ht hold
  rw [← List.getElem?_eq_none (show l.length ≤ j by omega), ← overwrite_succ] at hview
  exact ⟨t', ht', hview⟩

/-- The loop that moves the elements from block `b` to block `c`. -/
theorem returns_moves {c m : Nat} (hne : b ≠ c)
    (h : s.view = Function.update (Function.update rest b (some (n, overwrite [] items i))) c
      (some (m, overwrite items [] i)))
    (hi : i + k ≤ items.length) (hm : i + k ≤ m) :
    ∃ s', Returns (rounds (fun i => do
        construct (some c) i (← load (some b) i)
        destroy (some b) i) k i) s (i + k) s' ∧
      s'.view = Function.update (Function.update rest b (some (n, overwrite [] items (i + k)))) c
        (some (m, overwrite items [] (i + k))) := by
  refine returns_rounds (I := fun i (s : Storage α) => s.view = Function.update
    (Function.update rest b (some (n, overwrite [] items i))) c (some (m, overwrite items [] i)))
    (fun j t hle hlt ht => ?_) h
  have hget := List.getElem?_eq_getElem (show j < items.length by omega)
  have hold : overwrite [] items j j = some items[j] := overwrite_self.trans hget
  have hload : Returns (load (some b) j) t items[j] t := by
    refine returns_load (n := n) ?_ hold
    rw [ht, Function.update_of_ne hne, Function.update_self]
  obtain ⟨t₁, ht₁, hview₁⟩ := returns_construct ht (by omega) (overwrite_self) items[j]
  rw [← hget, ← overwrite_succ, Function.update_comm hne] at hview₁
  obtain ⟨t₂, ht₂, hview₂⟩ := returns_destroy hview₁ hold
  refine ⟨t₂, hload.bind (ht₁.bind ht₂), ?_⟩
  rw [hview₂, Function.update_comm hne.symm, overwrite_succ (l := [])]
  rfl

/-! ### What an object owns -/

/-- The block of a vector. -/
def block (m : MiniVector α) : Block α := (m.capacity, fun j => m.items[j]?)

variable {v other : RawVector} {m m' : MiniVector α} {sizeof count : Nat}

/-- The object has this size and capacity; without a block it has no capacity. -/
structure Describes (v : RawVector) (m : MiniVector α) : Prop where
  size : v.size = m.items.length
  capacity : v.capacity = m.capacity
  null : v.data = none → m.capacity = 0

/-- The object is worth `m`, and its block is among the blocks. -/
structure Holds (blocks : Nat → Option (Block α)) (v : RawVector) (m : MiniVector α) : Prop
    extends Describes v m where
  stored : ∀ b, v.data = some b → blocks b = some (block m)

/-- The blocks of others, with the one of an object. -/
def withBlock (rest : Nat → Option (Block α)) (data : Option Nat) (B : Block α) :
    Nat → Option (Block α) :=
  match data with
  | none => rest
  | some b => Function.update rest b (some B)

/-- **Ownership.**  The object is worth `m`, and the storage has its block beside those
of others. -/
structure Owns (rest : Nat → Option (Block α)) (s : Storage α) (v : RawVector)
    (m : MiniVector α) : Prop extends Describes v m where
  apart : ∀ b, v.data = some b → rest b = none
  view : s.view = withBlock rest v.data (block m)

/-- The blocks of others are there. -/
def Frames (rest : Nat → Option (Block α)) (t : Storage α) : Prop :=
  ∀ c, rest c ≠ none → t.view c = rest c

/-- In the middle of a loop the rest of the storage is as it was. -/
theorem At.frames {t : Storage α} {j : Nat} (h : At rest b n l items j t) (hrest : rest b = none) :
    Frames rest t := by
  intro c hc
  rw [show t.view = _ from h, Function.update_of_ne]
  rintro rfl
  exact hc hrest

/-- A source supplies under a stronger condition, too. -/
theorem Supplies.mono {source : Nat → VectorM α α} {P Q : Storage α → Prop}
    (h : Supplies source l P) (hQ : ∀ t, Q t → P t) : Supplies source l Q :=
  fun j x t hget ht => h j x t hget (hQ t ht)

/-- The elements of another vector can be read. -/
theorem Holds.supplies (h : Holds rest v m) : Supplies (load v.data) m.items (Frames rest) := by
  intro j x t hget ht
  cases hdata : v.data with
  | none =>
      rw [MiniVector.items_eq_nil (h.null hdata)] at hget
      cases hget
  | some b =>
      have hstored := h.stored b hdata
      refine returns_load (n := m.capacity) ?_ hget
      rw [ht b (by rw [hstored]; exact Option.some_ne_none _), hstored]
      rfl

/-- An owned block holds the items. -/
theorem Owns.holds (h : Owns rest s v m) : Holds s.view v m := by
  refine ⟨h.toDescribes, fun b hb => ?_⟩
  rw [h.view, hb]
  exact Function.update_self ..

/-- Without a block there are no elements. -/
theorem Describes.size_eq_zero (h : Describes v m) (hdata : v.data = none) :
    v.size = 0 ∧ m.items = [] := by
  have hnil := MiniVector.items_eq_nil (h.null hdata)
  exact ⟨by rw [h.size, hnil]; rfl, hnil⟩

/-- An object with a block of its own. -/
theorem owns_block {size capacity : Nat} (hsize : size = m.items.length)
    (hcapacity : capacity = m.capacity) (hrest : rest b = none)
    (hview : s.view = Function.update rest b (some (block m))) :
    Owns rest s ⟨size, capacity, some b⟩ m := by
  refine ⟨⟨hsize, hcapacity, fun hnull => ?_⟩, fun c hc => ?_, hview⟩
  · cases hnull
  · obtain rfl := Option.some.inj hc
    exact hrest

/-- A vector that a move has left behind owns nothing. -/
theorem owns_movedFrom (h : s.view = rest) :
    Owns rest s movedFrom (MiniVector.movedFrom : MiniVector α) :=
  ⟨⟨rfl, rfl, fun _ => rfl⟩, fun _ hb => absurd hb.symm (Option.some_ne_none _), h⟩

end RawVector

end Kernel
