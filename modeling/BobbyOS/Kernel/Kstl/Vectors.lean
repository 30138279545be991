import BobbyOS.Kernel.ASMInterface
import BobbyOS.Lib.Result
import Mathlib.Data.List.Basic

/-!
# `ministl::vector`

The elements and the capacity; a vector carries that its elements have room, so every
write into the reserved memory is inside of it.  The vector of the user programs is
the same text.

* `roundToNearestPowOf2_ge`: what is reserved is enough.
* `fill_eq`: what a loop of assignments through `operator[]` leaves.
-/

namespace Kernel

/-- A vector: its `_size` elements and its `_capacity`. -/
structure MiniVector (α : Type) where
  items : List α
  capacity : Nat
  room : items.length ≤ capacity

namespace MiniVector

variable {α : Type}

/-- `DEFAULT_CAP`. -/
def DEFAULT_CAP : Nat := 8

/-- `GROWTH_FACTOR`. -/
def GROWTH_FACTOR : Nat := 2

/-- `roundToNearestPowOf2`. -/
def roundToNearestPowOf2 (x : Nat) : Nat :=
  if x = 0 then 1
  else
    let x := x - 1
    let x := x ||| (x >>> 1)
    let x := x ||| (x >>> 2)
    let x := x ||| (x >>> 4)
    let x := x ||| (x >>> 8)
    let x := x ||| (x >>> 16)
    x + 1

/-- Rounding is rounding up. -/
theorem roundToNearestPowOf2_ge (x : Nat) : x ≤ roundToNearestPowOf2 x := by
  unfold roundToNearestPowOf2
  split
  · omega
  · have hor : ∀ y k : Nat, y ≤ y ||| (y >>> k) := fun _ _ => Nat.left_le_or
    have h := Nat.le_trans (hor (x - 1) 1) <| Nat.le_trans (hor _ 2) <|
      Nat.le_trans (hor _ 4) <| Nat.le_trans (hor _ 8) (hor _ 16)
    dsimp only
    omega

/-- `vector()`. -/
def ofDefault : MiniVector α := ⟨[], DEFAULT_CAP, Nat.zero_le _⟩

/-- `vector(std::initializer_list<T>)`. -/
def ofInitializerList (il : List α) : MiniVector α where
  items := il
  capacity := roundToNearestPowOf2 il.length
  room := roundToNearestPowOf2_ge il.length

/-- `vector(count, value)`; `vector(count)` has the value `T()`. -/
def ofCount (count : Nat) (value : α) : MiniVector α where
  items := List.replicate count value
  capacity := roundToNearestPowOf2 count
  room := by
    rw [List.length_replicate]
    exact roundToNearestPowOf2_ge count

/-- The vector that a move leaves behind. -/
def movedFrom : MiniVector α := ⟨[], 0, Nat.le_refl 0⟩

/-- `clear`. -/
def clear (v : MiniVector α) : MiniVector α := ⟨[], v.capacity, Nat.zero_le _⟩

/-- `operator=(const vector&)`, from another vector. -/
def assign (v other : MiniVector α) : MiniVector α where
  items := other.items
  capacity := if v.capacity < other.items.length then other.capacity else v.capacity
  room := by
    split
    · exact other.room
    · omega

/-- `reserve(count)`, for a count above zero. -/
def reserveSome (v : MiniVector α) (count : Nat) : MiniVector α :=
  if h : count ≤ v.capacity then v
  else
    { v with
      capacity := roundToNearestPowOf2 count
      room := Nat.le_trans v.room
        (Nat.le_trans (Nat.le_of_not_le h) (roundToNearestPowOf2_ge count)) }

/-- `reserve`. -/
def reserve (v : MiniVector α) (count : Nat) : MiniVector α :=
  v.reserveSome (if count = 0 then 1 else count)

/-- It keeps the items and makes room for so many. -/
theorem reserveSome_spec (v : MiniVector α) (count : Nat) :
    (v.reserveSome count).items = v.items ∧ count ≤ (v.reserveSome count).capacity := by
  unfold reserveSome
  split
  case isTrue h => exact ⟨rfl, h⟩
  case isFalse => exact ⟨rfl, roundToNearestPowOf2_ge count⟩

/-- So does `reserve`, and it leaves some capacity. -/
theorem reserve_spec (v : MiniVector α) (count : Nat) :
    (v.reserve count).items = v.items ∧ count ≤ (v.reserve count).capacity ∧
      0 < (v.reserve count).capacity := by
  have h := v.reserveSome_spec (if count = 0 then 1 else count)
  refine ⟨h.1, ?_⟩
  have hle : (if count = 0 then 1 else count) ≤ (v.reserve count).capacity := h.2
  split at hle <;> omega

/-- `shrink_to_fit`. -/
def shrinkToFit (v : MiniVector α) : MiniVector α :=
  if v.capacity ≤ roundToNearestPowOf2 v.items.length then v
  else
    { v with
      capacity := roundToNearestPowOf2 v.items.length
      room := roundToNearestPowOf2_ge v.items.length }

/-- The vector before an insertion: a full one reserves more. -/
def grow (v : MiniVector α) : MiniVector α :=
  if v.items.length = v.capacity then v.reserve (v.capacity * GROWTH_FACTOR) else v

/-- A full vector gets room for one more. -/
theorem grow_spec (v : MiniVector α) :
    v.grow.items = v.items ∧ v.items.length < v.grow.capacity := by
  unfold grow
  split
  case isTrue h =>
    obtain ⟨hitems, hle, hpos⟩ := v.reserve_spec (v.capacity * GROWTH_FACTOR)
    refine ⟨hitems, ?_⟩
    unfold GROWTH_FACTOR at *
    omega
  case isFalse h => exact ⟨rfl, Nat.lt_of_le_of_ne v.room h⟩

/-- `emplace_back` and `push_back`. -/
def pushBack (v : MiniVector α) (value : α) : MiniVector α where
  items := v.grow.items ++ [value]
  capacity := v.grow.capacity
  room := by
    rw [List.length_append, v.grow_spec.1]
    exact v.grow_spec.2

/-- `push_back` adds an item behind. -/
@[simp] theorem items_pushBack {v : MiniVector α} {value : α} :
    (v.pushBack value).items = v.items ++ [value] :=
  congrArg (· ++ [value]) v.grow_spec.1

/-- `operator[]` and `at`. -/
def get (v : MiniVector α) (i : Nat) : Except Panic α :=
  match v.items[i]? with
  | none => .error (.assertFailed "idx < _size")
  | some value => .ok value

/-- `v[i] = value`. -/
def set (v : MiniVector α) (i : Nat) (value : α) : Except Panic (MiniVector α) :=
  if i < v.items.length then
    .ok ⟨v.items.set i value, v.capacity, by rw [List.length_set]; exact v.room⟩
  else .error (.assertFailed "idx < _size")

/-- `back() = value`. -/
def setBack (v : MiniVector α) (value : α) : Except Panic (MiniVector α) :=
  if v.items.length = 0 then .error (.assertFailed "_size > 0")
  else .ok ⟨v.items.set (v.items.length - 1) value, v.capacity,
    by rw [List.length_set]; exact v.room⟩

/-- `pop_back`. -/
def popBack (v : MiniVector α) : Except Panic (MiniVector α) :=
  if v.items.length = 0 then .error (.assertFailed "_size > 0")
  else .ok ⟨v.items.dropLast, v.capacity,
    by rw [List.length_dropLast]; exact Nat.le_trans (Nat.sub_le _ _) v.room⟩

/-- So many rounds of `pop_back()`. -/
def popTimes : Nat → MiniVector α → Except Panic (MiniVector α)
  | 0, v => .ok v
  | n + 1, v => do popTimes n (← v.popBack)

/-- So many rounds of `emplace_back(value)`. -/
def pushTimes (value : α) : Nat → MiniVector α → MiniVector α
  | 0, v => v
  | n + 1, v => pushTimes value n (v.pushBack value)

/-- `resize(count)`, with the value `T()`: both of its loops. -/
def resize (v : MiniVector α) (count : Nat) (value : α) : Except Panic (MiniVector α) := do
  let v ← popTimes (v.items.length - count) v
  return pushTimes value (count - v.items.length) v

/-- The first `n` rounds of `for (i = 0; …; ++i) v[start + i] = src(i)`. -/
def fill (src : Nat → Except Panic α) (start : Nat) : Nat → MiniVector α →
    Except Panic (MiniVector α)
  | 0, v => .ok v
  | n + 1, v => do
      let v ← fill src start n v
      v.set (start + n) (← src n)

/-! ### What the operations leave -/

variable {v : MiniVector α} {value : α} {items : List α}

/-- Only room for elements makes room for one. -/
theorem items_eq_nil (h : v.capacity = 0) : v.items = [] := by
  have hroom := v.room
  exact List.length_eq_zero_iff.mp (by omega)

/-- `reserve` does not take capacity away. -/
theorem capacity_le_reserve (v : MiniVector α) (count : Nat) :
    v.capacity ≤ (v.reserve count).capacity := by
  unfold reserve reserveSome
  generalize (if count = 0 then 1 else count) = c
  split
  case isTrue => exact Nat.le_refl _
  case isFalse h =>
    exact Nat.le_trans (Nat.le_of_not_le h) (roundToNearestPowOf2_ge c)

/-- Nor does `push_back`. -/
theorem capacity_le_pushBack (v : MiniVector α) (value : α) :
    v.capacity ≤ (v.pushBack value).capacity := by
  show v.capacity ≤ v.grow.capacity
  unfold grow
  split
  · exact v.capacity_le_reserve _
  · exact Nat.le_refl _

/-- Nor do several of them. -/
theorem capacity_le_pushTimes (v : MiniVector α) (value : α) (n : Nat) :
    v.capacity ≤ (pushTimes value n v).capacity := by
  induction n generalizing v with
  | zero => exact Nat.le_refl _
  | succ n ih => exact Nat.le_trans (v.capacity_le_pushBack value) (ih _)

/-- An item below the size is written over. -/
theorem set_ok {i : Nat} (hi : i < v.items.length) (value : α) :
    ∃ v', v.set i value = .ok v' ∧ v'.items = v.items.set i value :=
  ⟨_, if_pos hi, rfl⟩

/-- The last item is. -/
theorem setBack_concat (h : v.items = items ++ [value]) (value' : α) :
    ∃ v', v.setBack value' = .ok v' ∧ v'.items = items ++ [value'] := by
  refine ⟨_, if_neg (by rw [h]; simp), ?_⟩
  dsimp only
  rw [h, List.length_append, List.length_singleton, Nat.add_sub_cancel,
    List.set_append_right _ _ (Nat.le_refl _), Nat.sub_self]
  rfl

/-- The last item goes. -/
theorem popBack_concat (h : v.items = items ++ [value]) :
    ∃ v', v.popBack = .ok v' ∧ v'.items = items := by
  refine ⟨_, if_neg (by rw [h]; simp), ?_⟩
  dsimp only
  rw [h, List.dropLast_concat]

/-- The last several items go. -/
theorem popTimes_ok {n : Nat} (hn : n ≤ v.items.length) :
    ∃ v', popTimes n v = .ok v' ∧ v'.items = v.items.take (v.items.length - n) := by
  induction n generalizing v with
  | zero => exact ⟨v, rfl, (List.take_length).symm⟩
  | succ n ih =>
      rcases List.eq_nil_or_concat v.items with hnil | ⟨items, value, hitems⟩
      · rw [hnil] at hn
        cases hn
      rw [List.concat_eq_append] at hitems
      obtain ⟨v₁, hpop, hv₁⟩ := popBack_concat hitems
      have hlength : v.items.length = items.length + 1 := by rw [hitems]; simp
      obtain ⟨v', hrest, hv'⟩ := ih (v := v₁) (by rw [hv₁]; omega)
      refine ⟨v', ?_, ?_⟩
      · rw [popTimes, hpop]
        exact hrest
      · rw [hv', hv₁, hlength, Nat.add_sub_add_right, hitems,
          List.take_append_of_le_length (by omega)]

/-- Several items are added behind. -/
theorem items_pushTimes {n : Nat} :
    (pushTimes value n v).items = v.items ++ List.replicate n value := by
  induction n generalizing v with
  | zero => exact (List.append_nil _).symm
  | succ n ih =>
      rw [pushTimes, ih, items_pushBack, List.append_assoc, List.replicate_succ]
      rfl

/-- **Resizing** drops what is behind, or adds values. -/
theorem resize_ok (v : MiniVector α) (count : Nat) (value : α) :
    ∃ v', v.resize count value = .ok v' ∧
      v'.items = v.items.take count ++ List.replicate (count - v.items.length) value := by
  obtain ⟨v₁, hpop, hv₁⟩ := popTimes_ok (Nat.sub_le v.items.length count)
  refine ⟨_, by rw [resize, hpop]; rfl, ?_⟩
  rw [items_pushTimes, hv₁, List.length_take]
  rcases Nat.le_total count v.items.length with hle | hle
  · rw [Nat.sub_sub_self hle, Nat.min_eq_left hle, Nat.sub_self, Nat.sub_eq_zero_of_le hle]
  · rw [Nat.sub_eq_zero_of_le hle, Nat.sub_zero, Nat.min_self, List.take_length,
      List.take_of_length_le hle]

/-- `resize` leaves as many items as asked for. -/
theorem length_resize (v : MiniVector α) (count : Nat) (value : α) :
    ∃ v', v.resize count value = .ok v' ∧ v'.items.length = count := by
  obtain ⟨v', hresize, hv'⟩ := v.resize_ok count value
  refine ⟨v', hresize, ?_⟩
  rw [hv', List.length_append, List.length_take, List.length_replicate]
  omega

/-- A loop of assignments inside the vector. -/
theorem fill_ok {src : Nat → Except Panic α} {start n : Nat}
    (hsrc : ∀ i < n, ∃ value, src i = .ok value) (hn : start + n ≤ v.items.length) :
    ∃ v', fill src start n v = .ok v' ∧ v'.items.length = v.items.length := by
  induction n with
  | zero => exact ⟨v, rfl, rfl⟩
  | succ n ih =>
      obtain ⟨v₁, hfill, hv₁⟩ := ih (fun i hi => hsrc i (Nat.lt_succ_of_lt hi)) (by omega)
      obtain ⟨value, hvalue⟩ := hsrc n (Nat.lt_succ_self n)
      obtain ⟨v', hset, hv'⟩ := set_ok (v := v₁) (i := start + n) (by omega) value
      refine ⟨v', ?_, ?_⟩
      · rw [fill, hfill, Except.ok_bind, hvalue, Except.ok_bind, hset]
      · rw [hv', List.length_set, hv₁]

/-- **A loop of assignments** over the first elements. -/
theorem fill_eq {src : Nat → Except Panic α} {l : List α}
    (hsrc : ∀ i value, l[i]? = some value → src i = .ok value) {n : Nat}
    (hl : l.length = v.items.length) (hn : n ≤ l.length) :
    ∃ v', fill src 0 n v = .ok v' ∧ v'.items = l.take n ++ v.items.drop n := by
  induction n with
  | zero => exact ⟨v, rfl, rfl⟩
  | succ n ih =>
      obtain ⟨v₁, hfill, hv₁⟩ := ih (Nat.le_of_succ_le hn)
      have hlength : (l.take n).length = n := by
        rw [List.length_take]
        omega
      have hn' : n < v₁.items.length := by
        rw [hv₁, List.length_append, hlength, List.length_drop]
        omega
      have hget := List.getElem?_eq_getElem (show n < l.length from hn)
      obtain ⟨v', hset, hv'⟩ := set_ok hn' l[n]
      refine ⟨v', ?_, ?_⟩
      · rw [fill, hfill, Except.ok_bind, hsrc n _ hget, Except.ok_bind, Nat.zero_add]
        exact hset
      · rw [hv', hv₁, List.set_append_right _ _ (Nat.le_of_eq hlength), hlength, Nat.sub_self,
          List.drop_eq_getElem_cons (by omega), List.set_cons_zero, List.take_add_one, hget,
          List.append_assoc]
        rfl

end MiniVector

end Kernel
