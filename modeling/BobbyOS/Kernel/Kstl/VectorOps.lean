import BobbyOS.Kernel.Kstl.VectorStorage

/-!
# Vectors refine sequences with a capacity

Every operation of a vector that asks for no more bytes than 32 bits can count returns,
and leaves the object in ownership of what the operation of the same name on the
`MiniVector` gives.  No step meets a raw slot or a null pointer on the way.

* `RawVector.Owns.assign`: the three loops of the copy assignment.
* `RawVector.Owns.relocate`: the elements move to another block.
* `RawVector.Owns.resize`: both loops of `resize`.
-/

namespace Kernel

open RawStorage Effects

namespace RawVector

variable {α : Type} {rest : Nat → Option (Block α)} {s s' : Storage α} {v other : RawVector}
  {m m' : MiniVector α} {sizeof count n : Nat} {value : α}

/-! ### Constructors -/

/-- A new vector has a block without items. -/
theorem returns_ofDefault (hsizeof : 0 < sizeof) (hfits : sizeof * MiniVector.DEFAULT_CAP < 2 ^ 32)
    (h : s.view = rest) :
    ∃ v s', Returns (ofDefault sizeof) s v s' ∧ Owns rest s' v (MiniVector.ofDefault : MiniVector α)
      := by
  obtain ⟨b, s', hnew, hrest, hview⟩ := returns_newArray hsizeof hfits h
  exact ⟨_, s', hnew.bind rfl, owns_block rfl rfl hrest hview⟩

/-- A vector is filled from a source. -/
theorem returns_ofSource {source : Nat → VectorM α α} (hsizeof : 0 < sizeof)
    (hfits : sizeof * m.capacity < 2 ^ 32) (h : s.view = rest)
    (hsource : Supplies source m.items (Frames rest)) :
    ∃ v s', Returns (ofSource sizeof m.items.length m.capacity source) s v s' ∧
      Owns rest s' v m := by
  obtain ⟨b, s₁, hnew, hrest, hview₁⟩ := returns_newArray hsizeof hfits h
  have hat : At rest b m.capacity m.items [] 0 s₁ := by
    rw [At, overwrite_zero]
    exact hview₁
  obtain ⟨s₂, hloop, hat₂⟩ := returns_constructs
    (hsource.mono fun t ⟨j, ht⟩ => ht.frames hrest) hat (k := m.items.length)
    (fun _ => Nat.zero_le 0) (by rw [Nat.zero_add]; exact m.room) (by rw [Nat.zero_add])
  rw [At, overwrite_all (by omega) (Nat.zero_le _)] at hat₂
  exact ⟨_, s₂, hnew.bind (hloop.bind rfl), owns_block rfl rfl hrest hat₂⟩

/-- The code rounds as the plain vector does where it does not wrap. -/
theorem roundToNearestPowOf2_eq {x : Nat} (hsizeof : 0 < sizeof)
    (hfits : sizeof * MiniVector.roundToNearestPowOf2 x < 2 ^ 32) :
    roundToNearestPowOf2 x = MiniVector.roundToNearestPowOf2 x :=
  Nat.mod_eq_of_lt (Nat.lt_of_le_of_lt (Nat.le_mul_of_pos_left _ hsizeof) hfits)

/-- A vector of copies of a value. -/
theorem returns_ofCount (hsizeof : 0 < sizeof)
    (hfits : sizeof * MiniVector.roundToNearestPowOf2 count < 2 ^ 32) (h : s.view = rest)
    (value : α) :
    ∃ v s', Returns (ofCount sizeof count value) s v s' ∧
      Owns rest s' v (MiniVector.ofCount count value) := by
  unfold ofCount
  rw [roundToNearestPowOf2_eq hsizeof hfits]
  have hsource : Supplies (fun _ => pure value) (MiniVector.ofCount count value).items
      (Frames rest) := by
    intro j x t hget _
    rw [List.eq_of_mem_replicate (List.mem_of_getElem? hget)]
    rfl
  have hspec := returns_ofSource hsizeof hfits h hsource
  rwa [show (MiniVector.ofCount count value).items.length = count from List.length_replicate]
    at hspec

/-- A vector of the items of a list. -/
theorem returns_ofInitializerList {il : List α} (hsizeof : 0 < sizeof)
    (hfits : sizeof * MiniVector.roundToNearestPowOf2 il.length < 2 ^ 32) (h : s.view = rest) :
    ∃ v s', Returns (ofInitializerList sizeof il) s v s' ∧
      Owns rest s' v (MiniVector.ofInitializerList il) := by
  unfold ofInitializerList
  rw [roundToNearestPowOf2_eq hsizeof hfits]
  refine returns_ofSource (m := MiniVector.ofInitializerList il) hsizeof hfits h
    (fun j x t hget _ => ?_)
  rw [show il[j]? = some x from hget]
  rfl

/-- A copy has a block and items of its own. -/
theorem returns_copy (hsizeof : 0 < sizeof) (hfits : sizeof * m.capacity < 2 ^ 32)
    (hother : Holds rest other m) (h : s.view = rest) :
    ∃ v s', Returns (copy sizeof other) s v s' ∧ Owns rest s' v m := by
  unfold copy
  rw [hother.size, hother.capacity]
  exact returns_ofSource hsizeof hfits h hother.supplies

/-! ### Giving up the elements -/

/-- `clear` destroys the items. -/
theorem Owns.clear (h : Owns rest s v m) :
    ∃ s', Returns (clear v) s { v with size := 0 } s' ∧
      Owns rest s' { v with size := 0 } m.clear := by
  have hsize := h.size
  obtain ⟨size, capacity, data⟩ := v
  cases data with
  | none =>
      obtain ⟨hzero, -⟩ := h.size_eq_zero rfl
      refine ⟨s, ?_, ⟨rfl, h.capacity, h.null⟩, h.apart, h.view⟩
      rw [RawVector.clear, hzero]
      rfl
  | some b =>
      have hat : At rest b m.capacity [] m.items 0 s := by
        rw [At, overwrite_zero]
        exact h.view
      obtain ⟨s', hloop, hat'⟩ := returns_destroys (k := m.items.length) hat
        (fun _ => by rw [Nat.zero_add]) (Nat.zero_le 0)
      rw [At, overwrite_all (Nat.zero_le _) (by omega)] at hat'
      refine ⟨s', ?_, owns_block rfl h.capacity (h.apart b rfl) hat'⟩
      rw [RawVector.clear, hsize]
      exact hloop.bind rfl

/-- An empty vector gives its block back. -/
theorem Owns.deleteArray (h : Owns rest s v m) (hnil : m.items = []) :
    ∃ s', Returns (deleteArray v.data) s () s' ∧ s'.view = rest := by
  obtain ⟨size, capacity, data⟩ := v
  cases data with
  | none => exact ⟨s, rfl, h.view⟩
  | some b =>
      refine returns_deleteArray h.view (h.apart b rfl) fun i => ?_
      rw [hnil]
      rfl

/-- A move assignment gives the block up and takes the other one. -/
theorem Owns.assignMove (h : Owns rest s v m) (other : RawVector) :
    ∃ s', Returns (assignMove v other) s (other, movedFrom) s' ∧ s'.view = rest := by
  obtain ⟨s₁, hclear, howns⟩ := h.clear
  obtain ⟨s', hdelete, hview⟩ := howns.deleteArray rfl
  exact ⟨s', hclear.bind (hdelete.bind rfl), hview⟩

/-- **The destructor** leaves the blocks of the others. -/
theorem Owns.destruct (h : Owns rest s v m) :
    ∃ s', Returns (destruct v) s () s' ∧ s'.view = rest := by
  obtain ⟨s₁, hclear, howns⟩ := h.clear
  obtain ⟨s', hdelete, hview⟩ := howns.deleteArray rfl
  refine ⟨s', hclear.bind ?_, hview⟩
  obtain ⟨size, capacity, data⟩ := v
  cases data with
  | none => exact hdelete
  | some b => exact hdelete

/-! ### Copy assignment -/

/-- The block has room for the elements of the other vector. -/
theorem Owns.makeRoom (h : Owns rest s v m) (hother : Holds rest other m') (hsizeof : 0 < sizeof)
    (hfits : sizeof * m'.capacity < 2 ^ 32) :
    ∃ v₁ s₁ m₁, Returns (makeRoom sizeof v other) s v₁ s₁ ∧ Owns rest s₁ v₁ m₁ ∧
      m₁.capacity = (m.assign m').capacity := by
  unfold RawVector.makeRoom
  by_cases hlt : v.capacity < other.size
  · obtain ⟨s₁, hclear, howns⟩ := h.clear
    obtain ⟨s₂, hdelete, hview⟩ := howns.deleteArray rfl
    obtain ⟨b, s₃, hnew, hrest, hview₃⟩ := returns_newArray hsizeof hfits hview
    rw [if_pos hlt, hother.capacity]
    refine ⟨_, s₃, ⟨[], m'.capacity, Nat.zero_le _⟩,
      hclear.bind (hdelete.bind (hnew.bind rfl)), owns_block rfl rfl hrest hview₃, ?_⟩
    rw [h.capacity, hother.size] at hlt
    exact (if_pos hlt).symm
  · rw [if_neg hlt]
    refine ⟨v, s, m, rfl, h, ?_⟩
    rw [h.capacity, hother.size] at hlt
    exact (if_neg hlt).symm

/-- **Copy assignment.**  The elements that both have are assigned, the others are
constructed or destroyed. -/
theorem Owns.assign (h : Owns rest s v m) (hother : Holds rest other m') (hsizeof : 0 < sizeof)
    (hfits : sizeof * m'.capacity < 2 ^ 32) :
    ∃ v' s', Returns (assign sizeof v other) s v' s' ∧ Owns rest s' v' (m.assign m') := by
  obtain ⟨v₁, s₁, m₁, hroom, h₁, hcapacity⟩ := h.makeRoom hother hsizeof hfits
  have henough : m'.items.length ≤ m₁.capacity := by
    rw [hcapacity]
    exact (m.assign m').room
  have hsize₁ := h₁.size
  have hsize := hother.size
  obtain ⟨size, capacity, data⟩ := v₁
  cases data with
  | none =>
      -- without a block both vectors are empty
      have hzero : m'.items = [] := List.length_eq_zero_iff.mp (by
        have hnull := h₁.null rfl
        omega)
      obtain ⟨rfl, -⟩ : size = 0 ∧ _ := h₁.size_eq_zero rfl
      have hother0 : other.size = 0 := by rw [hsize, hzero]; rfl
      refine ⟨⟨other.size, capacity, none⟩, s₁, hroom.bind ?_, ⟨hsize, ?_, ?_⟩, h₁.apart, h₁.view⟩
      · rw [hother0]
        rfl
      · exact h₁.capacity.trans hcapacity
      · exact fun _ => hcapacity.symm.trans (h₁.null rfl)
  | some b =>
      have hrest := h₁.apart b rfl
      have hsource : Supplies (load other.data) m'.items
          fun t => ∃ j, At rest b m₁.capacity m'.items m₁.items j t :=
        hother.supplies.mono fun t ⟨j, ht⟩ => ht.frames hrest
      have hat : At rest b m₁.capacity m'.items m₁.items 0 s₁ := by
        rw [At, overwrite_zero]
        exact h₁.view
      replace hsize₁ : size = m₁.items.length := hsize₁
      obtain ⟨s₂, hstores, hat₂⟩ := returns_stores (k := min size other.size) hsource hat
        (by omega) (by omega)
      obtain ⟨s₃, hconstructs, hat₃⟩ := returns_constructs
        (k := other.size - (0 + min size other.size)) hsource hat₂ (by omega) (by omega) (by omega)
      obtain ⟨s₄, hdestroys, hat₄⟩ := returns_destroys
        (k := size - (0 + min size other.size + (other.size - (0 + min size other.size)))) hat₃
        (by omega) (by omega)
      rw [At, overwrite_all (by omega) (by omega), hcapacity] at hat₄
      exact ⟨⟨other.size, capacity, some b⟩, s₄,
        hroom.bind (hstores.bind (hconstructs.bind (hdestroys.bind rfl))),
        owns_block hsize (h₁.capacity.trans hcapacity) hrest hat₄⟩

/-! ### Another block -/

/-- **Relocation.**  Each element is constructed in the new block and destroyed in the
old one, which is then given back. -/
theorem Owns.relocate (h : Owns rest s v m) (hsizeof : 0 < sizeof)
    (hroom : m.items.length ≤ n) (hfits : sizeof * n < 2 ^ 32) :
    ∃ v' s', Returns (relocate sizeof v n) s v' s' ∧ Owns rest s' v' ⟨m.items, n, hroom⟩ := by
  obtain ⟨c, s₁, hnew, hfresh, hview₁⟩ := returns_newArray hsizeof hfits (s := s) rfl
  have hsize := h.size
  obtain ⟨size, capacity, data⟩ := v
  cases data with
  | none =>
      obtain ⟨rfl, hnil⟩ : size = 0 ∧ _ := h.size_eq_zero rfl
      rw [h.view] at hfresh hview₁
      have hblock : block ⟨m.items, n, hroom⟩ = (n, fun _ => none) := by
        refine Prod.ext rfl (funext fun j => ?_)
        show m.items[j]? = none
        rw [hnil]
        rfl
      rw [← hblock] at hview₁
      exact ⟨⟨0, n, some c⟩, s₁, hnew.bind rfl, owns_block hsize rfl hfresh hview₁⟩
  | some b =>
      have hview : s.view = Function.update rest b (some (block m)) := h.view
      have hne : b ≠ c := by
        rintro rfl
        rw [hview, Function.update_self] at hfresh
        cases hfresh
      rw [hview, Function.update_of_ne hne.symm] at hfresh
      rw [hview] at hview₁
      have hstart : s₁.view = Function.update
          (Function.update rest b (some (m.capacity, overwrite [] m.items 0))) c
          (some (n, overwrite m.items [] 0)) := by
        rw [hview₁, overwrite_zero, overwrite_zero]
        rfl
      obtain ⟨s₂, hmoves, hview₂⟩ := returns_moves (k := size) hne hstart
        (by rw [Nat.zero_add]; exact Nat.le_of_eq hsize)
        (by rw [Nat.zero_add]; exact Nat.le_trans (Nat.le_of_eq hsize) hroom)
      replace hsize : size = m.items.length := hsize
      rw [Nat.zero_add, hsize, overwrite_all (Nat.zero_le _) (Nat.le_refl _),
        overwrite_all (Nat.le_refl _) (Nat.zero_le _), Function.update_comm hne] at hview₂
      obtain ⟨s₃, hdelete, hview₃⟩ := returns_deleteArray hview₂
        (by rw [Function.update_of_ne hne, h.apart b rfl]) (fun _ => rfl)
      exact ⟨⟨size, n, some c⟩, s₃, hnew.bind (hmoves.bind (hdelete.bind rfl)),
        owns_block hsize rfl hfresh hview₃⟩

/-- `reserve` moves the items to a larger block. -/
theorem Owns.reserve (h : Owns rest s v m) (hsizeof : 0 < sizeof)
    (hfits : sizeof * (m.reserve count).capacity < 2 ^ 32) :
    ∃ v' s', Returns (reserve sizeof v count) s v' s' ∧ Owns rest s' v' (m.reserve count) := by
  unfold RawVector.reserve
  unfold MiniVector.reserve MiniVector.reserveSome at *
  generalize (if count = 0 then 1 else count) = c at *
  dsimp only
  rw [h.capacity]
  by_cases hle : c ≤ m.capacity
  · rw [if_pos hle, dif_pos hle]
    exact ⟨v, s, rfl, h⟩
  · rw [dif_neg hle] at hfits ⊢
    rw [if_neg hle, roundToNearestPowOf2_eq hsizeof hfits]
    exact h.relocate hsizeof _ hfits

/-- `shrink_to_fit` moves them to a smaller one. -/
theorem Owns.shrinkToFit (h : Owns rest s v m) (hsizeof : 0 < sizeof)
    (hround : MiniVector.roundToNearestPowOf2 m.items.length < 2 ^ 32)
    (hfits : sizeof * m.capacity < 2 ^ 32) :
    ∃ v' s', Returns (shrinkToFit sizeof v) s v' s' ∧ Owns rest s' v' m.shrinkToFit := by
  have heq : roundToNearestPowOf2 v.size = MiniVector.roundToNearestPowOf2 m.items.length := by
    rw [h.size]
    exact Nat.mod_eq_of_lt hround
  unfold RawVector.shrinkToFit MiniVector.shrinkToFit
  dsimp only
  rw [h.capacity, heq]
  by_cases hle : m.capacity ≤ MiniVector.roundToNearestPowOf2 m.items.length
  · rw [if_pos hle, if_pos hle]
    exact ⟨v, s, rfl, h⟩
  · rw [if_neg hle, if_neg hle]
    have hsmall := Nat.mul_le_mul_left sizeof (Nat.le_of_not_le hle)
    exact h.relocate hsizeof _ (Nat.lt_of_le_of_lt hsmall hfits)

/-! ### Insertion and removal -/

/-- A full vector moves to a block twice as large. -/
theorem Owns.grow (h : Owns rest s v m) (hsizeof : 0 < sizeof)
    (hfits : sizeof * m.grow.capacity < 2 ^ 32) :
    ∃ v' s', Returns (grow sizeof v) s v' s' ∧ Owns rest s' v' m.grow := by
  unfold RawVector.grow
  unfold MiniVector.grow at hfits ⊢
  rw [h.size, h.capacity]
  by_cases hfull : m.items.length = m.capacity
  · rw [if_pos hfull] at hfits ⊢
    have hle := (m.reserve_spec (m.capacity * MiniVector.GROWTH_FACTOR)).2.1
    have hlt : m.capacity * MiniVector.GROWTH_FACTOR < 2 ^ 32 :=
      Nat.lt_of_le_of_lt (Nat.le_trans hle (Nat.le_mul_of_pos_left _ hsizeof)) hfits
    rw [if_pos hfull, Nat.mod_eq_of_lt hlt]
    exact h.reserve hsizeof hfits
  · rw [if_neg hfull, if_neg hfull]
    exact ⟨v, s, rfl, h⟩

/-- `emplace_back` constructs an item behind the others. -/
theorem Owns.emplaceBack (h : Owns rest s v m) (hsizeof : 0 < sizeof)
    (hfits : sizeof * (m.pushBack value).capacity < 2 ^ 32) :
    ∃ v' s', Returns (emplaceBack sizeof v value) s v' s' ∧
      Owns rest s' v' (m.pushBack value) := by
  obtain ⟨v₁, s₁, hgrow, h₁⟩ := h.grow hsizeof hfits
  have hsize := h₁.size
  have hlt : m.grow.items.length < m.grow.capacity := by
    rw [m.grow_spec.1]
    exact m.grow_spec.2
  obtain ⟨size, capacity, data⟩ := v₁
  cases data with
  | none =>
      rw [h₁.null rfl] at hlt
      cases hlt
  | some b =>
      obtain rfl : size = m.grow.items.length := hsize
      obtain ⟨s', hconstruct, hview⟩ := returns_construct (f := fun j => m.grow.items[j]?) h₁.view
        hlt (List.getElem?_eq_none (Nat.le_refl _)) value
      rw [update_length] at hview
      refine ⟨_, s', hgrow.bind (hconstruct.bind rfl),
        owns_block ?_ h₁.capacity (h₁.apart b rfl) hview⟩
      show m.grow.items.length + 1 = (m.grow.items ++ [value]).length
      rw [List.length_append]
      rfl

/-- `pop_back` of an empty vector fails its assertion. -/
theorem popBack_empty (h : v.size = 0) : popBack v s = .error (.assertFailed "_size > 0") s := by
  unfold popBack
  rw [if_pos h]
  rfl

/-- `pop_back` destroys the last item. -/
theorem Owns.popBack (h : Owns rest s v m) (hpop : m.popBack = .ok m') :
    ∃ v' s', Returns (popBack v) s v' s' ∧ Owns rest s' v' m' := by
  unfold MiniVector.popBack at hpop
  split at hpop
  case isTrue => cases hpop
  case isFalse hne =>
    obtain rfl := Except.ok.inj hpop
    have hsize := h.size
    obtain ⟨size, capacity, data⟩ := v
    cases data with
    | none =>
        rw [(h.size_eq_zero rfl).2] at hne
        exact absurd rfl hne
    | some b =>
        obtain rfl : size = m.items.length := hsize
        have hlast := List.getElem?_eq_getElem (show m.items.length - 1 < m.items.length by omega)
        obtain ⟨s', hdestroy, hview⟩ := returns_destroy (f := fun j => m.items[j]?) h.view hlast
        rw [update_pred_length] at hview
        refine ⟨⟨m.items.length - 1, capacity, some b⟩, s', ?_,
          owns_block ?_ h.capacity (h.apart b rfl) hview⟩
        · unfold RawVector.popBack
          rw [if_neg hne]
          exact hdestroy.bind rfl
        · show m.items.length - 1 = m.items.dropLast.length
          rw [List.length_dropLast]

/-- So does each of several. -/
theorem Owns.popTimes (h : Owns rest s v m) (hpop : MiniVector.popTimes n m = .ok m') :
    ∃ v' s', Returns (popTimes n v) s v' s' ∧ Owns rest s' v' m' := by
  induction n generalizing s v m with
  | zero =>
      obtain rfl := Except.ok.inj hpop
      exact ⟨v, s, rfl, h⟩
  | succ n ih =>
      obtain ⟨m₁, hpop₁, hrest⟩ := Except.bind_ok_iff.mp hpop
      obtain ⟨v₁, s₁, hret₁, h₁⟩ := h.popBack hpop₁
      obtain ⟨v', s', hret, h'⟩ := ih h₁ hrest
      exact ⟨v', s', hret₁.bind hret, h'⟩

/-- `emplace_back`, several times. -/
theorem Owns.pushTimes (h : Owns rest s v m) (hsizeof : 0 < sizeof)
    (hfits : sizeof * (MiniVector.pushTimes value n m).capacity < 2 ^ 32) :
    ∃ v' s', Returns (pushTimes sizeof value n v) s v' s' ∧
      Owns rest s' v' (MiniVector.pushTimes value n m) := by
  induction n generalizing s v m with
  | zero => exact ⟨v, s, rfl, h⟩
  | succ n ih =>
      -- the capacity only grows, so the block of this round is small enough as well
      have hle := (m.pushBack value).capacity_le_pushTimes value n
      obtain ⟨v₁, s₁, hret₁, h₁⟩ := h.emplaceBack hsizeof
        (Nat.lt_of_le_of_lt (Nat.mul_le_mul_left _ hle) hfits)
      obtain ⟨v', s', hret, h'⟩ := ih h₁ hfits
      exact ⟨v', s', hret₁.bind hret, h'⟩

/-- **Resizing** does what it does to the sequence. -/
theorem Owns.resize (h : Owns rest s v m) (hsizeof : 0 < sizeof)
    (hresize : m.resize count value = .ok m') (hfits : sizeof * m'.capacity < 2 ^ 32) :
    ∃ v' s', Returns (resize sizeof v count value) s v' s' ∧ Owns rest s' v' m' := by
  obtain ⟨m₁, hpop, hpush⟩ := Except.bind_ok_iff.mp hresize
  obtain rfl := Except.ok.inj hpush
  rw [← h.size] at hpop
  obtain ⟨v₁, s₁, hret₁, h₁⟩ := h.popTimes hpop
  obtain ⟨v', s', hret, h'⟩ := h₁.pushTimes hsizeof hfits
  refine ⟨v', s', hret₁.bind ?_, h'⟩
  rw [h₁.size]
  exact hret

/-- `operator[]` reads the elements. -/
theorem Holds.get (h : Holds s.view v m) {j : Nat} (hj : m.items[j]? = some value) :
    Returns (get v j) s value s := by
  have hlt := (List.getElem?_eq_some_iff.mp hj).1
  unfold RawVector.get
  rw [if_pos (by rw [h.size]; exact hlt)]
  exact h.supplies j value s hj fun _ _ => rfl

end RawVector

end Kernel
