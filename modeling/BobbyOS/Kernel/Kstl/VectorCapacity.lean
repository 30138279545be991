import BobbyOS.Kernel.Kstl.Vectors
import BobbyOS.Lib.BitTricks

/-!
# The capacity of a `ministl::vector`

A vector that was moved from has no capacity; every other capacity is a power of two,
since a full vector doubles its capacity and every other request is rounded up.

* `MiniVector.isLeast_roundToNearestPowOf2`: the shifts find the least power of two that
  is large enough.
* `MiniVector.Worth`: the values, whether the capacity was taken away, and that the bytes
  of the block can be counted with 32 bits; every operation keeps it up.
-/

namespace Kernel

/-- The values of a vector, and whether a move took its capacity away. -/
structure VectorValue (α : Type) where
  items : List α
  taken : Bool

namespace MiniVector

variable {α : Type} {x k sizeof count n : Nat} {m m' : MiniVector α}
  {q q' : VectorValue α}

/-! ### The next power of two -/

/-- **The least power of two** that is large enough, for numbers of up to 32 bits. -/
theorem isLeast_roundToNearestPowOf2 (hx : x ≤ 2 ^ 32) :
    IsLeast {p | (∃ k, p = 2 ^ k) ∧ x ≤ p} (roundToNearestPowOf2 x) := by
  unfold roundToNearestPowOf2
  split
  case isTrue hzero =>
    refine ⟨⟨⟨0, rfl⟩, by omega⟩, ?_⟩
    rintro p ⟨⟨k, rfl⟩, -⟩
    exact Nat.one_le_two_pow
  case isFalse hpos =>
    -- each shift doubles the number of bits that are looked at
    have hcovers := (BitTricks.covers_self (x - 1)).double.double.double.double.double
    have hleast := BitTricks.isLeast_two_pow_size (x - 1)
    rw [← hcovers.succ_eq (by omega), Nat.sub_add_cancel (by omega)] at hleast
    exact hleast

/-- What is below a power of two is rounded to at most it. -/
theorem roundToNearestPowOf2_le (hx : x ≤ 2 ^ k) (hk : k ≤ 32) : roundToNearestPowOf2 x ≤ 2 ^ k :=
  (isLeast_roundToNearestPowOf2
    (Nat.le_trans hx (Nat.pow_le_pow_right (by decide) hk))).2 ⟨⟨k, rfl⟩, hx⟩

/-- The bytes of a block for so many elements can be counted with 32 bits. -/
def Fits (sizeof count : Nat) : Prop := sizeof * roundToNearestPowOf2 count < 2 ^ 32

instance (sizeof count : Nat) : Decidable (Fits sizeof count) :=
  inferInstanceAs (Decidable (_ < _))

/-- A capacity that fits does not wrap. -/
theorem Fits.lt (h : Fits sizeof count) (hsizeof : 0 < sizeof) :
    roundToNearestPowOf2 count < 2 ^ 32 :=
  Nat.lt_of_le_of_lt (Nat.le_mul_of_pos_left _ hsizeof) h

/-- Nor does its count. -/
theorem Fits.count_le (h : Fits sizeof count) (hsizeof : 0 < sizeof) : count ≤ 2 ^ 32 :=
  Nat.le_trans (roundToNearestPowOf2_ge count) (Nat.le_of_lt (h.lt hsizeof))

/-- It is a power of two. -/
theorem Fits.exists_pow (h : Fits sizeof count) (hsizeof : 0 < sizeof) :
    ∃ k, k < 32 ∧ roundToNearestPowOf2 count = 2 ^ k := by
  obtain ⟨k, hk⟩ := (isLeast_roundToNearestPowOf2 (h.count_le hsizeof)).1.1
  refine ⟨k, ?_, hk⟩
  have hlt := h.lt hsizeof
  rw [hk] at hlt
  exact (Nat.pow_lt_pow_iff_right (by decide)).mp hlt

/-- Fewer elements need no larger block. -/
theorem Fits.mono (h : Fits sizeof count) (hsizeof : 0 < sizeof) (hn : n ≤ count) :
    Fits sizeof n := by
  obtain ⟨k, hk, hpow⟩ := h.exists_pow hsizeof
  have hle : roundToNearestPowOf2 n ≤ roundToNearestPowOf2 count := by
    rw [hpow]
    refine roundToNearestPowOf2_le ?_ (Nat.le_of_lt hk)
    rw [← hpow]
    exact Nat.le_trans hn (roundToNearestPowOf2_ge count)
  exact Nat.lt_of_le_of_lt (Nat.mul_le_mul_left _ hle) h

/-- A power of two is its own next one. -/
theorem roundToNearestPowOf2_pow (hk : k ≤ 32) : roundToNearestPowOf2 (2 ^ k) = 2 ^ k :=
  Nat.le_antisymm (roundToNearestPowOf2_le (Nat.le_refl _) hk) (roundToNearestPowOf2_ge _)

/-- One more than a power of two is rounded to the next one. -/
theorem roundToNearestPowOf2_pow_succ (hk : k < 32) :
    roundToNearestPowOf2 (2 ^ k + 1) = 2 ^ (k + 1) := by
  have hpos := Nat.two_pow_pos k
  have hsucc : 2 ^ (k + 1) = 2 ^ k * 2 := Nat.pow_succ ..
  have hpow : 2 ^ (k + 1) ≤ 2 ^ 32 := Nat.pow_le_pow_right (by decide) hk
  refine Nat.le_antisymm (roundToNearestPowOf2_le (by omega) hk) ?_
  obtain ⟨⟨j, hj⟩, hge⟩ := (isLeast_roundToNearestPowOf2 (x := 2 ^ k + 1) (by omega)).1
  rw [hj] at hge ⊢
  refine Nat.pow_le_pow_right (by decide) ?_
  exact (Nat.pow_lt_pow_iff_right (by decide)).mp hge

/-! ### What a vector is worth -/

/-- The vector has these values, no capacity exactly if that was taken away and a power
of two otherwise, and a block whose bytes can be counted. -/
structure Worth (sizeof : Nat) (m : MiniVector α) (q : VectorValue α) : Prop where
  items : m.items = q.items
  zero : m.capacity = 0 ↔ q.taken = true
  pow : m.capacity = 0 ∨ ∃ k, m.capacity = 2 ^ k
  fits : sizeof * m.capacity < 2 ^ 32

/-- A capacity that was rounded up. -/
theorem worth_of_round (h : Fits sizeof count) (hsizeof : 0 < sizeof)
    (hcapacity : m.capacity = roundToNearestPowOf2 count) :
    m.Worth sizeof ⟨m.items, false⟩ := by
  obtain ⟨k, -, hk⟩ := h.exists_pow hsizeof
  rw [hk] at hcapacity
  refine ⟨rfl, ?_, .inr ⟨k, hcapacity⟩, ?_⟩
  · have hpos := Nat.two_pow_pos k
    rw [hcapacity]
    exact iff_of_false (by omega) Bool.false_ne_true
  · unfold Fits at h
    rwa [hk, ← hcapacity] at h

/-- An operation that keeps the capacity. -/
theorem Worth.sameCapacity (h : m.Worth sizeof q) (hcapacity : m'.capacity = m.capacity) :
    m'.Worth sizeof ⟨m'.items, q.taken⟩ := by
  refine ⟨rfl, ?_, ?_, ?_⟩
  · rw [hcapacity]
    exact h.zero
  · rw [hcapacity]
    exact h.pow
  · rw [hcapacity]
    exact h.fits

/-- A vector that a move has left behind is empty and taken. -/
theorem worth_movedFrom : (movedFrom : MiniVector α).Worth sizeof ⟨[], true⟩ :=
  ⟨rfl, iff_of_true rfl rfl, .inl rfl, Nat.two_pow_pos 32⟩

/-- A vector with a capacity is not one that was taken. -/
theorem Worth.taken_eq_false (h : m.Worth sizeof q) (hpos : 0 < m.capacity) : q.taken = false := by
  rw [← Bool.not_eq_true, ← h.zero]
  omega

/-- An assigned vector has the other's items. -/
theorem Worth.assign (h : m.Worth sizeof q) (h' : m'.Worth sizeof q') :
    (m.assign m').Worth sizeof ⟨q'.items, q.taken && q'.items.isEmpty⟩ := by
  have hroom := m'.room
  have hempty : q'.items.isEmpty = true ↔ m'.items.length = 0 := by
    rw [h'.items, List.isEmpty_iff, List.length_eq_zero_iff]
  by_cases hlt : m.capacity < m'.items.length
  · have hcapacity : (m.assign m').capacity = m'.capacity := if_pos hlt
    have htaken := h'.taken_eq_false (by omega)
    have hfalse : q'.items.isEmpty = false := by
      rw [← Bool.not_eq_true, hempty]
      omega
    have hresult := h'.sameCapacity hcapacity
    rw [htaken, show (m.assign m').items = q'.items from h'.items] at hresult
    rwa [hfalse, Bool.and_false]
  · have hcapacity : (m.assign m').capacity = m.capacity := if_neg hlt
    have hresult := h.sameCapacity hcapacity
    rw [show (m.assign m').items = q'.items from h'.items] at hresult
    cases htaken : q.taken with
    | false => rwa [htaken] at hresult
    | true =>
        have hzero := h.zero.mpr htaken
        rw [htaken] at hresult
        rwa [hempty.mpr (by omega)]

/-- `reserve` rounds the capacity up where it is too small. -/
theorem capacity_reserveSome (m : MiniVector α) (count : Nat) :
    (m.reserveSome count).capacity =
      if count ≤ m.capacity then m.capacity else roundToNearestPowOf2 count := by
  unfold reserveSome
  by_cases hle : count ≤ m.capacity
  · rw [dif_pos hle, if_pos hle]
  · rw [dif_neg hle, if_neg hle]

/-- `reserve` keeps the items. -/
theorem Worth.reserve (h : m.Worth sizeof q) (hsizeof : 0 < sizeof) (hfits : Fits sizeof count) :
    (m.reserve count).Worth sizeof ⟨q.items, false⟩ := by
  have hround : roundToNearestPowOf2 (if count = 0 then 1 else count) =
      roundToNearestPowOf2 count := by
    split
    case isTrue hzero => rw [hzero]; rfl
    case isFalse => rfl
  have hitems := (m.reserve_spec count).1
  have hpos := (m.reserve_spec count).2.2
  by_cases hle : (if count = 0 then 1 else count) ≤ m.capacity
  · have hsame : m.reserve count = m := dif_pos hle
    rw [hsame] at hpos ⊢
    have hresult : m.Worth sizeof ⟨m.items, q.taken⟩ := h.sameCapacity rfl
    rwa [h.taken_eq_false hpos, h.items] at hresult
  · have hcapacity : (m.reserve count).capacity = roundToNearestPowOf2 count := by
      rw [MiniVector.reserve, capacity_reserveSome, if_neg hle, hround]
    have hresult := worth_of_round hfits hsizeof hcapacity
    rwa [hitems, h.items] at hresult

/-- The elements of a vector with a capacity need no larger block than it has. -/
theorem Worth.round_le (h : m.Worth sizeof q) (hsizeof : 0 < sizeof) (hpos : 0 < m.capacity) :
    roundToNearestPowOf2 m.items.length ≤ m.capacity := by
  have hroom := m.room
  obtain ⟨k, hk⟩ := h.pow.resolve_left (by omega)
  have hlt : m.capacity < 2 ^ 32 :=
    Nat.lt_of_le_of_lt (Nat.le_mul_of_pos_left _ hsizeof) h.fits
  rw [hk] at hroom hlt ⊢
  exact roundToNearestPowOf2_le hroom
    (Nat.le_of_lt ((Nat.pow_lt_pow_iff_right (by decide)).mp hlt))

/-- The rounded number of items does not wrap. -/
theorem Worth.round_lt (h : m.Worth sizeof q) (hsizeof : 0 < sizeof) :
    roundToNearestPowOf2 m.items.length < 2 ^ 32 := by
  rcases Nat.eq_zero_or_pos m.capacity with hzero | hpos
  · rw [items_eq_nil hzero]
    exact show 1 < 2 ^ 32 by decide
  · have hfits := h.fits
    exact Nat.lt_of_le_of_lt (Nat.le_trans (h.round_le hsizeof hpos)
      (Nat.le_mul_of_pos_left _ hsizeof)) hfits

/-- `shrink_to_fit` keeps the items. -/
theorem Worth.shrinkToFit (h : m.Worth sizeof q) (hsizeof : 0 < sizeof) :
    m.shrinkToFit.Worth sizeof q := by
  unfold MiniVector.shrinkToFit
  split
  case isTrue => exact h
  case isFalse hle =>
    have hsmall := Nat.mul_le_mul_left sizeof (Nat.le_of_not_le hle)
    have htaken := h.taken_eq_false (by omega)
    have hresult := worth_of_round (m := ⟨m.items, _, roundToNearestPowOf2_ge m.items.length⟩)
      (Nat.lt_of_le_of_lt hsmall h.fits) hsizeof rfl
    exact ⟨h.items, by rw [htaken]; exact hresult.zero, hresult.pow, hresult.fits⟩

/-! ### Growing -/

/-- A full vector that grows has the next power of two for one element more. -/
theorem Worth.grow_full (h : m.Worth sizeof q) (hsizeof : 0 < sizeof)
    (hfits : Fits sizeof (m.items.length + 1)) (hfull : m.items.length = m.capacity) :
    m.grow.capacity = roundToNearestPowOf2 (m.items.length + 1) := by
  have hgrow : m.grow = m.reserve (m.capacity * GROWTH_FACTOR) := if_pos hfull
  rw [hgrow, MiniVector.reserve, capacity_reserveSome, GROWTH_FACTOR]
  rcases h.pow with hzero | ⟨k, hk⟩
  · rw [hfull, hzero]
    rfl
  · have hpos := Nat.two_pow_pos k
    have hlt : k < 32 := by
      have hle := roundToNearestPowOf2_ge (m.items.length + 1)
      have hround := hfits.lt hsizeof
      exact (Nat.pow_lt_pow_iff_right (show 1 < 2 by decide)).mp (by omega)
    rw [hfull, hk, if_neg (show ¬ 2 ^ k * 2 = 0 by omega),
      if_neg (show ¬ 2 ^ k * 2 ≤ 2 ^ k by omega), roundToNearestPowOf2_pow_succ hlt, ← Nat.pow_succ]
    exact roundToNearestPowOf2_pow hlt

/-- `push_back` adds an item behind. -/
theorem Worth.pushBack (h : m.Worth sizeof q) (hsizeof : 0 < sizeof)
    (hfits : Fits sizeof (m.items.length + 1)) (value : α) :
    (m.pushBack value).Worth sizeof ⟨q.items ++ [value], false⟩ := by
  have hitems : (m.pushBack value).items = q.items ++ [value] := by
    rw [items_pushBack, h.items]
  rw [← hitems]
  by_cases hfull : m.items.length = m.capacity
  · exact worth_of_round hfits hsizeof (h.grow_full hsizeof hfits hfull)
  · have hcapacity : (m.pushBack value).capacity = m.capacity :=
      show m.grow.capacity = m.capacity from
        congrArg MiniVector.capacity (show m.grow = m from if_neg hfull)
    have hroom := m.room
    rw [← h.taken_eq_false (by omega)]
    exact h.sameCapacity hcapacity

/-- So does each of several. -/
theorem Worth.pushTimes (h : m.Worth sizeof q) (hsizeof : 0 < sizeof)
    (hfits : Fits sizeof (m.items.length + n)) (value : α) :
    (MiniVector.pushTimes value n m).Worth sizeof
      ⟨q.items ++ List.replicate n value, q.taken && n == 0⟩ := by
  induction n generalizing m q with
  | zero =>
      rw [List.replicate_zero, List.append_nil, beq_self_eq_true, Bool.and_true]
      exact h
  | succ n ih =>
      have hpush := h.pushBack hsizeof (hfits.mono hsizeof (by omega)) value
      have hlength : (m.pushBack value).items.length = m.items.length + 1 := by
        rw [items_pushBack, List.length_append]
        rfl
      have hrest := ih hpush (by rwa [hlength, Nat.add_right_comm])
      rw [Bool.false_and, List.append_assoc] at hrest
      rw [show (n + 1 == 0) = false from rfl, Bool.and_false]
      exact hrest

/-! ### Removal -/

/-- `pop_back` keeps the capacity. -/
theorem capacity_popBack (h : m.popBack = .ok m') : m'.capacity = m.capacity := by
  unfold popBack at h
  split at h
  case isTrue => cases h
  case isFalse =>
    obtain rfl := Except.ok.inj h
    rfl

/-- So does each of several. -/
theorem capacity_popTimes (h : popTimes n m = .ok m') : m'.capacity = m.capacity := by
  induction n generalizing m with
  | zero =>
      obtain rfl := Except.ok.inj h
      rfl
  | succ n ih =>
      obtain ⟨m₁, hpop, hrest⟩ := Except.bind_ok_iff.mp h
      rw [ih hrest, capacity_popBack hpop]

/-- `pop_back` drops the last item. -/
theorem Worth.popBack (h : m.Worth sizeof q) (hne : q.items ≠ []) :
    ∃ m', m.popBack = .ok m' ∧ m'.Worth sizeof ⟨q.items.dropLast, q.taken⟩ := by
  have hlength : m.items.length ≠ 0 := by
    rw [h.items]
    exact mt List.length_eq_zero_iff.mp hne
  refine ⟨_, if_neg hlength, ?_⟩
  rw [← h.items]
  exact h.sameCapacity rfl

/-- `resize` cuts the items off or fills them up. -/
theorem Worth.resize (h : m.Worth sizeof q) (hsizeof : 0 < sizeof) (hfits : Fits sizeof count)
    (value : α) :
    ∃ m', m.resize count value = .ok m' ∧ m'.Worth sizeof
      ⟨q.items.take count ++ List.replicate (count - q.items.length) value,
        q.taken && count == 0⟩ := by
  obtain ⟨m₁, hpop, hitems⟩ := popTimes_ok (v := m) (Nat.sub_le m.items.length count)
  have h₁ := h.sameCapacity (capacity_popTimes hpop)
  have hlength : m₁.items.length = min count m.items.length := by
    rw [hitems, List.length_take]
    omega
  refine ⟨_, by rw [MiniVector.resize, hpop]; rfl, ?_⟩
  have hcount : count - m₁.items.length = count - m.items.length := by omega
  have hkept : m₁.items = m.items.take count := by
    rw [hitems]
    rcases Nat.le_total count m.items.length with hle | hle
    · rw [Nat.sub_sub_self hle]
    · rw [Nat.sub_eq_zero_of_le hle, Nat.sub_zero, List.take_length, List.take_of_length_le hle]
  have hresult := h₁.pushTimes (n := count - m₁.items.length) hsizeof
    (hfits.mono hsizeof (by omega)) value
  have htaken : (q.taken && count - m.items.length == 0) = (q.taken && count == 0) := by
    cases hq : q.taken with
    | false => rfl
    | true => rw [items_eq_nil (h.zero.mpr hq)]; rfl
  dsimp only at hresult
  rw [hcount, htaken, hkept] at hresult
  rw [hcount, ← h.items]
  exact hresult

end MiniVector

end Kernel
