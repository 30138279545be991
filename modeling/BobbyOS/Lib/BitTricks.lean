import Mathlib.Data.Nat.Count
import Mathlib.Data.Nat.Size
import Mathlib.Order.Bounds.Basic
import Mathlib.Data.Finset.Card

/-!
# Bit tricks

Two loops over the bits of a number that do not look at one bit at a time.

* `ones_and_pred`: `x & (x - 1)` is `x` without its lowest bit, so the loop that
  repeats this counts the bits that are set.
* `Covers.double`, `Covers.succ_eq`: or-ing a number with itself, shifted by 1, 2, 4 and
  so on, sets all bits below the highest one; one more is the next power of two.
-/

namespace BitTricks

/-! ### The lowest bit -/

/-- The number of set bits below `w`. -/
def ones (w x : Nat) : Nat := Nat.count (fun i => x.testBit i = true) w

/-- One set bit is cleared and the others stay. -/
theorem exists_lowest {x : Nat} (hx : x ≠ 0) :
    ∃ t, x.testBit t = true ∧
      ∀ i, (x &&& (x - 1)).testBit i = (x.testBit i && decide (i ≠ t)) := by
  induction x using Nat.strong_induction_on with
  | _ x ih =>
      rcases Nat.mod_two_eq_zero_or_one x with heven | hodd
      · -- the lowest bit of an even number is the one of its half, moved up
        obtain ⟨t, ht, hclear⟩ := ih (x / 2) (by omega) (by omega)
        refine ⟨t + 1, by rwa [Nat.testBit_succ], fun i => ?_⟩
        cases i with
        | zero =>
            rw [Nat.testBit_and, Nat.testBit_zero, heven]
            rfl
        | succ i =>
            have hhalf : (x - 1) / 2 = x / 2 - 1 := by omega
            rw [Nat.testBit_and, Nat.testBit_succ, Nat.testBit_succ, hhalf, ← Nat.testBit_and,
              hclear i]
            simp
      · refine ⟨0, by rw [Nat.testBit_zero, hodd]; rfl, fun i => ?_⟩
        cases i with
        | zero =>
            have hpred : (x - 1) % 2 = 0 := by omega
            rw [Nat.testBit_and, Nat.testBit_zero (x - 1), hpred]
            simp
        | succ i =>
            have hhalf : (x - 1) / 2 = x / 2 := by omega
            rw [Nat.testBit_and, Nat.testBit_succ, Nat.testBit_succ, hhalf, Bool.and_self]
            simp

/-- **Clearing the lowest bit** leaves one set bit less. -/
theorem ones_and_pred {w x : Nat} (hx : x ≠ 0) (hlt : x < 2 ^ w) :
    ones w (x &&& (x - 1)) + 1 = ones w x := by
  obtain ⟨t, ht, hclear⟩ := exists_lowest hx
  have htw : t < w := by
    by_contra hge
    have hle := Nat.ge_two_pow_of_testBit ht
    have hpow := Nat.pow_le_pow_right (show 0 < 2 by decide) (Nat.le_of_not_lt hge)
    omega
  have hmem : t ∈ (Finset.range w).filter fun i => x.testBit i = true :=
    Finset.mem_filter.mpr ⟨Finset.mem_range.mpr htw, ht⟩
  have herase : ((Finset.range w).filter fun i => (x &&& (x - 1)).testBit i = true) =
      ((Finset.range w).filter fun i => x.testBit i = true).erase t := by
    ext i
    rw [Finset.mem_erase, Finset.mem_filter, Finset.mem_filter, hclear i, Bool.and_eq_true,
      decide_eq_true_iff]
    tauto
  rw [ones, ones, Nat.count_eq_card_filter_range, Nat.count_eq_card_filter_range, herase,
    Finset.card_erase_add_one hmem]

/-- Clearing the lowest set bit makes a number smaller. -/
theorem and_pred_lt {x : Nat} (hx : x ≠ 0) : x &&& (x - 1) < x :=
  Nat.lt_of_le_of_lt Nat.and_le_right (Nat.sub_one_lt hx)

theorem ones_zero (w : Nat) : ones w 0 = 0 := by
  rw [ones, Nat.count_iff_forall_not]
  simp

/-! ### The highest bit -/

/-- A bit of `y` says whether one of `n` bits of `x` is set, from this one up. -/
def Covers (n x y : Nat) : Prop := ∀ i, y.testBit i = true ↔ ∃ j < n, x.testBit (i + j) = true

/-- A number covers itself. -/
theorem covers_self (x : Nat) : Covers 1 x x := by
  intro i
  constructor
  · intro h
    exact ⟨0, Nat.one_pos, h⟩
  · intro ⟨j, hj, h⟩
    obtain rfl := Nat.lt_one_iff.mp hj
    exact h

/-- **Doubling** by a shift. -/
theorem Covers.double {n x y : Nat} (h : Covers n x y) : Covers (2 * n) x (y ||| (y >>> n)) := by
  intro i
  rw [Nat.testBit_or, Nat.testBit_shiftRight, Bool.or_eq_true, h i, h (n + i)]
  constructor
  · rintro (⟨j, hj, hbit⟩ | ⟨j, hj, hbit⟩)
    · exact ⟨j, by omega, hbit⟩
    · exact ⟨n + j, by omega, by rwa [← Nat.add_assoc, Nat.add_comm i n]⟩
  · intro ⟨j, hj, hbit⟩
    rcases Nat.lt_or_ge j n with hlow | hhigh
    · exact .inl ⟨j, hlow, hbit⟩
    · refine .inr ⟨j - n, by omega, ?_⟩
      rwa [show n + i + (j - n) = i + j by omega]

/-- **All bits below the highest one** are set when all are looked at. -/
theorem Covers.succ_eq {n x y : Nat} (h : Covers n x y) (hx : x < 2 ^ n) :
    y + 1 = 2 ^ x.size := by
  have hy : y = 2 ^ x.size - 1 := by
    refine Nat.eq_of_testBit_eq fun i => ?_
    rw [Nat.testBit_two_pow_sub_one, Bool.eq_iff_iff, h i, decide_eq_true_iff, Nat.lt_size]
    constructor
    · intro ⟨j, _, hbit⟩
      exact Nat.le_trans (Nat.pow_le_pow_right (by decide) (Nat.le_add_right i j))
        (Nat.ge_two_pow_of_testBit hbit)
    · intro hle
      obtain ⟨k, hk, hbit⟩ := Nat.exists_ge_and_testBit_of_ge_two_pow hle
      have hkn : k < n := by
        by_contra hge
        have hpow := Nat.pow_le_pow_right (show 0 < 2 by decide) (Nat.le_of_not_lt hge)
        have hlow := Nat.ge_two_pow_of_testBit hbit
        omega
      exact ⟨k - i, by omega, by rwa [Nat.add_sub_cancel' hk]⟩
  have hpos := Nat.two_pow_pos x.size
  omega

/-- The power of two above `x` is the least one that is large enough. -/
theorem isLeast_two_pow_size (x : Nat) :
    IsLeast {p | (∃ k, p = 2 ^ k) ∧ x + 1 ≤ p} (2 ^ x.size) := by
  refine ⟨⟨⟨_, rfl⟩, Nat.lt_size_self x⟩, ?_⟩
  rintro p ⟨⟨k, rfl⟩, hle⟩
  exact Nat.pow_le_pow_right (by decide) (Nat.size_le.mpr hle)

end BitTricks
