import Mathlib.Data.List.Nodup
import Mathlib.Logic.Function.Basic

/-!
# Raw storage

Blocks of slots, in which elements are constructed and destroyed one at a time.  A
slot is raw until an element is constructed in it and after the element is destroyed.
Every element gets a number when it is constructed.  A step that the language leaves
undefined (constructing over an element, reading or destroying a raw slot, giving a
block back with elements in it) has no result.

* `Books`: each number that was given out is at one place, or was destroyed once; a
  storage carries this.
* `Storage.construct_spec` and its like: what each step does to the blocks as a program
  sees them, without the numbers.
-/

namespace RawStorage

/-! ### The books -/

section Books

variable {ι : Type*} {live : ι → Option Nat} {created : Nat} {destroyed : List Nat} {p : ι}
  {k : Nat}

/-- The elements are numbered; a number below `created` is at one place, or was
destroyed once. -/
structure Books (live : ι → Option Nat) (created : Nat) (destroyed : List Nat) : Prop where
  nodup : destroyed.Nodup
  below : ∀ k ∈ destroyed, k < created
  alive : ∀ p k, live p = some k → k < created ∧ k ∉ destroyed
  single : ∀ p q k, live p = some k → live q = some k → p = q
  accounted : ∀ k < created, k ∈ destroyed ∨ ∃ p, live p = some k

/-- Nothing was made, and nothing is to be destroyed. -/
theorem books_empty : Books (fun _ : ι => none) 0 [] where
  nodup := List.nodup_nil
  below := nofun
  alive := nofun
  single := nofun
  accounted := nofun

/-- A new element, at a place without one. -/
theorem Books.construct [DecidableEq ι] (h : Books live created destroyed) (hp : live p = none) :
    Books (Function.update live p (some created)) (created + 1) destroyed where
  nodup := h.nodup
  below := fun k hk => Nat.lt_succ_of_lt (h.below k hk)
  alive := by
    intro q k hq
    by_cases hqp : q = p
    · rw [hqp, Function.update_self] at hq
      obtain rfl := Option.some.inj hq
      exact ⟨Nat.lt_succ_self _, fun hmem => Nat.lt_irrefl _ (h.below _ hmem)⟩
    · rw [Function.update_of_ne hqp] at hq
      exact ⟨Nat.lt_succ_of_lt (h.alive q k hq).1, (h.alive q k hq).2⟩
  single := by
    -- the new number is at no other place
    have hnew : ∀ q, q ≠ p → live q ≠ some created :=
      fun q _ hq => Nat.lt_irrefl _ (h.alive q created hq).1
    intro q r k hq hr
    by_cases hqp : q = p
    · by_cases hrp : r = p
      · rw [hqp, hrp]
      · rw [hqp, Function.update_self] at hq
        rw [Function.update_of_ne hrp, ← hq] at hr
        exact absurd hr (hnew r hrp)
    · rw [Function.update_of_ne hqp] at hq
      by_cases hrp : r = p
      · rw [hrp, Function.update_self] at hr
        rw [← hr] at hq
        exact absurd hq (hnew q hqp)
      · rw [Function.update_of_ne hrp] at hr
        exact h.single q r k hq hr
  accounted := by
    intro k hk
    rcases Nat.lt_succ_iff_lt_or_eq.mp hk with hlt | rfl
    · rcases h.accounted k hlt with hmem | ⟨q, hq⟩
      · exact .inl hmem
      · refine .inr ⟨q, ?_⟩
        rw [Function.update_of_ne, hq]
        rintro rfl
        rw [hp] at hq
        cases hq
    · exact .inr ⟨p, Function.update_self ..⟩

/-- The end of an element. -/
theorem Books.destroy [DecidableEq ι] (h : Books live created destroyed) (hp : live p = some k) :
    Books (Function.update live p none) created (k :: destroyed) where
  nodup := List.nodup_cons.mpr ⟨(h.alive p k hp).2, h.nodup⟩
  below := by
    intro j hj
    rcases List.mem_cons.mp hj with rfl | hj
    · exact (h.alive p j hp).1
    · exact h.below j hj
  alive := by
    intro q j hq
    by_cases hqp : q = p
    · rw [hqp, Function.update_self] at hq
      cases hq
    · rw [Function.update_of_ne hqp] at hq
      refine ⟨(h.alive q j hq).1, fun hmem => ?_⟩
      rcases List.mem_cons.mp hmem with rfl | hmem
      · exact hqp (h.single q p j hq hp)
      · exact (h.alive q j hq).2 hmem
  single := by
    intro q r j hq hr
    by_cases hqp : q = p
    · rw [hqp, Function.update_self] at hq
      cases hq
    · by_cases hrp : r = p
      · rw [hrp, Function.update_self] at hr
        cases hr
      · rw [Function.update_of_ne hqp] at hq
        rw [Function.update_of_ne hrp] at hr
        exact h.single q r j hq hr
  accounted := by
    intro j hj
    rcases h.accounted j hj with hmem | ⟨q, hq⟩
    · exact .inl (List.mem_cons_of_mem k hmem)
    · by_cases hqp : q = p
      · rw [hqp, hp] at hq
        obtain rfl := Option.some.inj hq
        exact .inl List.mem_cons_self
      · exact .inr ⟨q, by rw [Function.update_of_ne hqp, hq]⟩

/-- **Every element** is alive at one place, or was destroyed once. -/
theorem Books.once (h : Books live created destroyed) (hk : k < created) :
    (∃! p, live p = some k) ∧ destroyed.count k = 0 ∨
      (∀ p, live p ≠ some k) ∧ destroyed.count k = 1 := by
  by_cases hmem : k ∈ destroyed
  · refine .inr ⟨fun p hp => (h.alive p k hp).2 hmem, ?_⟩
    exact List.count_eq_one_of_mem h.nodup hmem
  · obtain ⟨p, hp⟩ := (h.accounted k hk).resolve_left hmem
    exact .inl ⟨⟨p, hp, fun q hq => h.single q p k hq hp⟩, List.count_eq_zero.mpr hmem⟩

end Books

/-! ### Storage -/

/-- The place is a slot of a block. -/
def Within (size : Nat → Option Nat) (p : Nat × Nat) : Prop := ∃ n, size p.1 = some n ∧ p.2 < n

instance (size : Nat → Option Nat) (p : Nat × Nat) : Decidable (Within size p) :=
  match h : size p.1 with
  | none => isFalse fun ⟨_, hn, _⟩ => nomatch h.symm.trans hn
  | some n => decidable_of_iff (p.2 < n)
      ⟨fun hlt => ⟨n, h, hlt⟩, fun ⟨_, hm, hlt⟩ => Option.some.inj (h.symm.trans hm) ▸ hlt⟩

/-- Blocks with their numbers of slots; the elements in the slots with their numbers;
and what was constructed and destroyed so far. -/
structure Storage (α : Type) where
  size : Nat → Option Nat
  slot : Nat × Nat → Option (Nat × α)
  next : Nat
  created : Nat
  destroyed : List Nat
  fresh : ∀ b, next ≤ b → size b = none
  within : ∀ p, slot p ≠ none → Within size p
  books : Books (fun p => (slot p).map Prod.fst) created destroyed

/-- The number of slots of a block, and the elements in them. -/
abbrev Block (α : Type) := Nat × (Nat → Option α)

namespace Storage

variable {α : Type} {s : Storage α}

/-- A storage without blocks. -/
def empty : Storage α where
  size := fun _ => none
  slot := fun _ => none
  next := 0
  created := 0
  destroyed := []
  fresh := fun _ _ => rfl
  within := fun _ h => absurd rfl h
  books := books_empty

/-- The number of the element at each place. -/
def live (s : Storage α) (p : Nat × Nat) : Option Nat := (s.slot p).map Prod.fst

/-- The elements after a change at one place. -/
theorem map_update (slot : Nat × Nat → Option (Nat × α)) (p : Nat × Nat) (x : Option (Nat × α)) :
    (fun q => (Function.update slot p x q).map Prod.fst) =
      Function.update (fun q => (slot q).map Prod.fst) p (x.map Prod.fst) := by
  funext q
  by_cases hq : q = p
  · rw [hq, Function.update_self, Function.update_self]
  · rw [Function.update_of_ne hq, Function.update_of_ne hq]

/-- A new block of `n` raw slots, with the number `next`. -/
def allocate (s : Storage α) (n : Nat) : Storage α where
  size := Function.update s.size s.next (some n)
  slot := s.slot
  next := s.next + 1
  created := s.created
  destroyed := s.destroyed
  fresh := by
    intro b hb
    rw [Function.update_of_ne (by omega)]
    exact s.fresh b (by omega)
  within := by
    intro p hp
    obtain ⟨m, hm, hlt⟩ := s.within p hp
    refine ⟨m, ?_, hlt⟩
    rw [Function.update_of_ne, hm]
    intro heq
    rw [heq, s.fresh _ (Nat.le_refl _)] at hm
    cases hm
  books := s.books

/-- A block of raw slots is given back. -/
def deallocate (s : Storage α) (b : Nat) : Option (Storage α) :=
  match hn : s.size b with
  | none => none
  | some n =>
      if hraw : ∀ i < n, s.slot (b, i) = none then
        some { s with
          size := Function.update s.size b none
          fresh := by
            intro c hc
            by_cases hcb : c = b
            · rw [hcb, Function.update_self]
            · rw [Function.update_of_ne hcb]
              exact s.fresh c hc
          within := by
            intro p hp
            obtain ⟨m, hm, hlt⟩ := s.within p hp
            refine ⟨m, ?_, hlt⟩
            rw [Function.update_of_ne, hm]
            intro heq
            rw [heq, hn] at hm
            obtain rfl := Option.some.inj hm
            have hnone := hraw p.2 hlt
            rw [← heq] at hnone
            exact hp hnone }
      else none

/-- An element is constructed in a raw slot. -/
def construct (s : Storage α) (p : Nat × Nat) (value : α) : Option (Storage α) :=
  if h : Within s.size p ∧ s.slot p = none then
    some { s with
      slot := Function.update s.slot p (some (s.created, value))
      created := s.created + 1
      within := by
        intro q hq
        by_cases hqp : q = p
        · rw [hqp]
          exact h.1
        · rw [Function.update_of_ne hqp] at hq
          exact s.within q hq
      books := by
        rw [map_update]
        exact s.books.construct (by rw [h.2]; rfl) }
  else none

/-- The element in a slot is destroyed. -/
def destroy (s : Storage α) (p : Nat × Nat) : Option (Storage α) :=
  match hp : s.slot p with
  | none => none
  | some (k, _) =>
      some { s with
        slot := Function.update s.slot p none
        destroyed := k :: s.destroyed
        within := by
          intro q hq
          by_cases hqp : q = p
          · rw [hqp, Function.update_self] at hq
            exact absurd rfl hq
          · rw [Function.update_of_ne hqp] at hq
            exact s.within q hq
        books := by
          rw [map_update]
          exact s.books.destroy (by rw [hp]; rfl) }

/-- The element in a slot gets a value. -/
def assign (s : Storage α) (p : Nat × Nat) (value : α) : Option (Storage α) :=
  match hp : s.slot p with
  | none => none
  | some (k, _) =>
      some { s with
        slot := Function.update s.slot p (some (k, value))
        within := by
          intro q hq
          by_cases hqp : q = p
          · rw [hqp]
            exact s.within p (by rw [hp]; exact Option.some_ne_none _)
          · rw [Function.update_of_ne hqp] at hq
            exact s.within q hq
        books := by
          rw [map_update, Function.update_eq_self_iff.mpr (by rw [hp]; rfl)]
          exact s.books }

/-- The object in a slot. -/
def read (s : Storage α) (p : Nat × Nat) : Option α := (s.slot p).map Prod.snd

/-! ### What a program sees -/

/-- The blocks, without the numbers of the elements. -/
def view (s : Storage α) (b : Nat) : Option (Block α) :=
  (s.size b).map fun n => (n, fun i => s.read (b, i))

variable {rest : Nat → Option (Block α)} {b n i : Nat} {f : Nat → Option α} {value : α}

/-- A view of a block has its size and its objects. -/
theorem view_eq_some :
    s.view b = some (n, f) ↔ s.size b = some n ∧ ∀ i, s.read (b, i) = f i := by
  unfold view
  rw [Option.map_eq_some_iff]
  constructor
  · rintro ⟨m, hm, heq⟩
    obtain ⟨rfl, rfl⟩ := Prod.mk.inj heq
    exact ⟨hm, fun _ => rfl⟩
  · intro ⟨hn, hf⟩
    exact ⟨n, hn, Prod.ext rfl (funext hf)⟩

/-- Nothing is read from a slot without an object. -/
theorem read_eq_none (p : Nat × Nat) : s.read p = none ↔ s.slot p = none := Option.map_eq_none_iff

/-- One slot of a block is changed. -/
theorem view_slot {s' : Storage α} {x : Option (Nat × α)}
    (h : s.view = Function.update rest b (some (n, f))) (hsize : s'.size = s.size)
    (hslot : s'.slot = Function.update s.slot (b, i) x) :
    s'.view = Function.update rest b (some (n, Function.update f i (x.map Prod.snd))) := by
  funext c
  have hc := congrFun h c
  by_cases hcb : c = b
  · subst hcb
    rw [Function.update_self] at hc ⊢
    obtain ⟨hn, hf⟩ := view_eq_some.mp hc
    refine view_eq_some.mpr ⟨by rw [hsize, hn], fun j => ?_⟩
    unfold read
    rw [hslot]
    by_cases hj : j = i
    · rw [hj, Function.update_self, Function.update_self]
    · rw [Function.update_of_ne hj, Function.update_of_ne fun heq => hj (Prod.mk.inj heq).2]
      exact hf j
  · rw [Function.update_of_ne hcb] at hc ⊢
    rw [← hc]
    unfold view read
    rw [hsize, hslot]
    refine congrArg (fun g => Option.map g _) (funext fun m => Prod.ext rfl (funext fun j => ?_))
    dsimp only
    rw [Function.update_of_ne fun heq => hcb (Prod.mk.inj heq).1]

/-- **Allocation** makes a block of raw slots that was not there before. -/
theorem allocate_spec (s : Storage α) (n : Nat) :
    s.view s.next = none ∧
      (s.allocate n).view = Function.update s.view s.next (some (n, fun _ => none)) := by
  have hnext := s.fresh s.next (Nat.le_refl _)
  refine ⟨by rw [view, hnext]; rfl, ?_⟩
  funext c
  by_cases hc : c = s.next
  · rw [hc, Function.update_self]
    refine view_eq_some.mpr ⟨Function.update_self .., fun i => ?_⟩
    -- a slot with an element would be within a block
    refine (read_eq_none _).mpr ?_
    by_contra hne
    obtain ⟨m, hm, -⟩ := s.within _ hne
    rw [show s.size s.next = some m from hm] at hnext
    cases hnext
  · rw [Function.update_of_ne hc]
    show Option.map _ (Function.update s.size s.next (some n) c) = _
    rw [Function.update_of_ne hc]
    rfl

/-- A block without objects is given back. -/
theorem deallocate_spec (h : s.view = Function.update rest b (some (n, f))) (hrest : rest b = none)
    (hf : ∀ i, f i = none) : ∃ s', s.deallocate b = some s' ∧ s'.view = rest := by
  obtain ⟨hn, hread⟩ := view_eq_some.mp ((congrFun h b).trans (Function.update_self ..))
  have hraw : ∀ i < n, s.slot (b, i) = none :=
    fun i _ => (read_eq_none _).mp ((hread i).trans (hf i))
  unfold deallocate
  split
  case h_1 hnone =>
    rw [hn] at hnone
    cases hnone
  case h_2 m hm =>
    obtain rfl := Option.some.inj (hn.symm.trans hm)
    rw [dif_pos hraw]
    refine ⟨_, rfl, funext fun c => ?_⟩
    by_cases hc : c = b
    · rw [hc, hrest]
      show Option.map _ (Function.update s.size b none b) = none
      rw [Function.update_self]
      rfl
    · rw [← Function.update_of_ne hc (some (n, f)) rest, ← h]
      show Option.map _ (Function.update s.size b none c) = _
      rw [Function.update_of_ne hc]
      rfl

/-- An object is constructed in an empty slot. -/
theorem construct_spec (h : s.view = Function.update rest b (some (n, f))) (hi : i < n)
    (hf : f i = none) (value : α) :
    ∃ s', s.construct (b, i) value = some s' ∧
      s'.view = Function.update rest b (some (n, Function.update f i (some value))) := by
  obtain ⟨hn, hread⟩ := view_eq_some.mp ((congrFun h b).trans (Function.update_self ..))
  have hraw : s.slot (b, i) = none := (read_eq_none _).mp ((hread i).trans hf)
  refine ⟨_, dif_pos ⟨⟨n, hn, hi⟩, hraw⟩, ?_⟩
  exact view_slot (x := some (s.created, value)) h rfl rfl

/-- A slot that is not raw has a number. -/
theorem exists_slot (h : s.view = Function.update rest b (some (n, f))) (hf : f i = some value) :
    ∃ k, s.slot (b, i) = some (k, value) := by
  have hread := (view_eq_some.mp ((congrFun h b).trans (Function.update_self ..))).2 i
  rw [hf] at hread
  obtain ⟨⟨k, x⟩, hslot, rfl⟩ := Option.map_eq_some_iff.mp hread
  exact ⟨k, hslot⟩

/-- An object is destroyed where one is. -/
theorem destroy_spec (h : s.view = Function.update rest b (some (n, f))) (hf : f i = some value) :
    ∃ s', s.destroy (b, i) = some s' ∧
      s'.view = Function.update rest b (some (n, Function.update f i none)) := by
  obtain ⟨k, hslot⟩ := exists_slot h hf
  unfold destroy
  split
  case h_1 hnone =>
    rw [hslot] at hnone
    cases hnone
  case h_2 => exact ⟨_, rfl, view_slot (x := none) h rfl rfl⟩

/-- An object is assigned to where one is. -/
theorem assign_spec (h : s.view = Function.update rest b (some (n, f))) (hf : f i = some value)
    (value' : α) :
    ∃ s', s.assign (b, i) value' = some s' ∧
      s'.view = Function.update rest b (some (n, Function.update f i (some value'))) := by
  obtain ⟨k, hslot⟩ := exists_slot h hf
  unfold assign
  split
  case h_1 hnone =>
    rw [hslot] at hnone
    cases hnone
  case h_2 k' _ _ => exact ⟨_, rfl, view_slot (x := some (k', value')) h rfl rfl⟩

/-- An object is read where one is. -/
theorem read_spec (h : s.view b = some (n, f)) (hf : f i = some value) :
    s.read (b, i) = some value := ((view_eq_some.mp h).2 i).trans hf

end Storage

/-! ### Replacing one sequence by another -/

section Overwrite

variable {α : Type} {l items : List α} {i : Nat}

/-- The elements at the time when those below `i` are those of `l`, and the others
those of `items` still. -/
def overwrite (l items : List α) (i j : Nat) : Option α := if j < i then l[j]? else items[j]?

/-- Before the first step nothing is overwritten. -/
theorem overwrite_zero : overwrite l items 0 = fun j => items[j]? :=
  funext fun j => if_neg (Nat.not_lt_zero j)

/-- The next item to be overwritten is still the old one. -/
theorem overwrite_self : overwrite l items i i = items[i]? := if_neg (Nat.lt_irrefl i)

/-- One step overwrites one item. -/
theorem overwrite_succ :
    overwrite l items (i + 1) = Function.update (overwrite l items i) i l[i]? := by
  funext j
  by_cases hj : j = i
  · rw [hj, Function.update_self, overwrite, if_pos (Nat.lt_succ_self i)]
  · rw [Function.update_of_ne hj, overwrite, overwrite]
    by_cases hlt : j < i
    · rw [if_pos (Nat.lt_succ_of_lt hlt), if_pos hlt]
    · rw [if_neg (by omega), if_neg hlt]

/-- From the ends of both sequences on nothing is left to do. -/
theorem overwrite_all (hl : l.length ≤ i) (hitems : items.length ≤ i) :
    overwrite l items i = fun j => l[j]? := by
  funext j
  unfold overwrite
  split
  · rfl
  · rw [List.getElem?_eq_none (by omega), List.getElem?_eq_none (by omega)]

/-- One element more, behind the others. -/
theorem update_length (items : List α) (x : α) :
    Function.update (fun j => items[j]?) items.length (some x) = fun j => (items ++ [x])[j]? := by
  funext j
  by_cases hj : j = items.length
  · rw [hj, Function.update_self, List.getElem?_concat_length]
  · rw [Function.update_of_ne hj]
    rcases Nat.lt_or_gt_of_ne hj with hlt | hgt
    · rw [List.getElem?_append_left hlt]
    · rw [List.getElem?_eq_none (by omega), List.getElem?_eq_none]
      rw [List.length_append, List.length_singleton]
      omega

/-- One element less, the last. -/
theorem update_pred_length (items : List α) :
    Function.update (fun j => items[j]?) (items.length - 1) none = fun j => items.dropLast[j]? := by
  funext j
  rw [List.getElem?_dropLast]
  by_cases hj : j = items.length - 1
  · rw [hj, Function.update_self, if_neg (Nat.lt_irrefl _)]
  · rw [Function.update_of_ne hj]
    split
    · rfl
    · exact List.getElem?_eq_none (by omega)

end Overwrite

end RawStorage
