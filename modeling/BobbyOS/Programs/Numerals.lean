import BobbyOS.Kernel.Kstl.Strings
import BobbyOS.Lib.Numeral
import Mathlib.Data.List.Induction

/-!
# `std::to_string`

The digits of a number are pushed to a string from the last one on, and then swapped
end for end.  The signed division truncates and keeps the smallest `int` negative, so
no absolute value is taken of the number, only of its digits.

* `pushDigits_ok`, `pushDigitsUnsigned_ok`: the loops push all digits.
* `reverseLoop_ok`: the swaps turn the text around.
* `to_string_canonical`: both functions make the canonical numeral.
-/

namespace Programs

open Kernel (Byte CString MiniString Word Panic)
open Numeral

/-- A step of truncated division brings a number nearer to zero. -/
theorem natAbs_sdiv (value : Word) : (value.sdiv 10).toInt.natAbs = value.toInt.natAbs / 10 := by
  rw [BitVec.toInt_sdiv_of_ne_or_ne _ _ (.inr (by decide)), Int.natAbs_tdiv]
  rfl

/-- A number that is not zero has digits. -/
theorem natAbs_ne_zero {value : Word} (h : value ≠ 0) : value.toInt.natAbs ≠ 0 := by
  intro hzero
  exact h (BitVec.toInt_inj.mp ((Int.natAbs_eq_zero.mp hzero).trans BitVec.toInt_zero.symm))

/-- The loop of `to_string(int)` over the digits. -/
def pushDigits (value : Word) (ret : MiniString) : Except Panic MiniString :=
  if h : value = 0 then .ok ret
  else do
    let digit := value.srem 10
    let digit := if digit.slt 0 then -digit else digit
    let ret ← ret.pushBack ((48 + digit).setWidth 8)
    pushDigits (value.sdiv 10) ret
termination_by value.toInt.natAbs
decreasing_by
  rw [natAbs_sdiv]
  exact Nat.div_lt_self (Nat.pos_of_ne_zero (natAbs_ne_zero h)) (by decide)

/-- The loop of `to_string(unsigned int)` over the digits. -/
def pushDigitsUnsigned (value : Word) (ret : MiniString) : Except Panic MiniString :=
  if h : value = 0 then .ok ret
  else do
    let digit := value % 10
    let ret ← ret.pushBack ((48 + digit).setWidth 8)
    pushDigitsUnsigned (value / 10) ret
termination_by value.toNat
decreasing_by
  rw [BitVec.toNat_udiv]
  exact Nat.div_lt_self (Nat.pos_of_ne_zero fun h0 => h (BitVec.eq_of_toNat_eq h0)) (by decide)

/-- The loop of swaps. -/
def reverseLoop (i j : Nat) (ret : MiniString) : Except Panic MiniString :=
  if i < j then do
    let tmp ← ret.get i
    let ret ← ret.set i (← ret.get j)
    let ret ← ret.set j tmp
    reverseLoop (i + 1) (j - 1) ret
  else .ok ret
termination_by j - i

/-- The literal `"0"`. -/
def zero : CString := ⟨[digitChar 0], by decide⟩

/-- `to_string(int)`. -/
def toStringInt (value : Word) : Except Panic MiniString :=
  if value = 0 then MiniString.ofCString zero
  else do
    let negative := value.slt 0
    let ret ← pushDigits value .ofNothing
    let ret ← if negative then ret.pushBack minus else pure ret
    reverseLoop 0 (ret.size - 1) ret

/-- `to_string(unsigned int)`. -/
def toStringUnsigned (value : Word) : Except Panic MiniString :=
  if value = 0 then MiniString.ofCString zero
  else do
    let ret ← pushDigitsUnsigned value .ofNothing
    reverseLoop 0 (ret.size - 1) ret

variable {ret : MiniString} {text : List Byte} {value : Word} {n : Nat}

/-! ### Digits -/

/-- The character `'0' + digit`. -/
theorem char_digit {digit : Word} (h : digit.toNat < 10) :
    (48 + digit).setWidth 8 = digitChar digit.toNat := by
  refine BitVec.eq_of_toNat_eq ?_
  rw [toNat_digitChar h, BitVec.toNat_setWidth, BitVec.toNat_add]
  show (48 + digit.toNat) % 2 ^ 32 % 2 ^ 8 = 48 + digit.toNat
  omega

/-- The sign test of the source. -/
theorem slt_zero : value.slt 0 = true ↔ value.toInt < 0 := BitVec.slt_iff_toInt_lt

/-- The last digit, without the sign that a remainder has. -/
theorem toNat_digit (value : Word) :
    (if (value.srem 10).slt 0 then -value.srem 10 else value.srem 10).toNat =
      value.toInt.natAbs % 10 := by
  have hrem : (value.srem 10).toInt = value.toInt.tmod 10 := BitVec.toInt_srem value 10
  have habs : (value.toInt.tmod 10).natAbs = value.toInt.natAbs % 10 := Int.natAbs_tmod _ _
  have hlt := Nat.mod_lt value.toInt.natAbs (show 0 < 10 by decide)
  rw [← hrem] at habs
  rw [BitVec.toInt_eq_toNat_cond] at habs
  split
  case isTrue h =>
    rw [slt_zero, BitVec.toInt_eq_toNat_cond] at h
    rw [BitVec.toNat_neg]
    split at h <;> omega
  case isFalse h =>
    rw [slt_zero, BitVec.toInt_eq_toNat_cond] at h
    split at h <;> omega

/-- A round of either loop pushes the last digit. -/
theorem push_digit (h : ret.Holds text) {digit : Word} (hdigit : digit.toNat = n % 10) :
    ∃ ret', ret.pushBack ((48 + digit).setWidth 8) = .ok ret' ∧
      ret'.Holds (text ++ [digitChar (n % 10)]) := by
  have hlt : digit.toNat < 10 := hdigit ▸ Nat.mod_lt n (by decide)
  rw [char_digit hlt, hdigit]
  exact h.pushBack _

/-- The digits that the rest of a loop pushes are those behind the last one. -/
theorem digits_step (hn : n ≠ 0) (text : List Byte) :
    text ++ (Nat.digits 10 n).map digitChar =
      text ++ [digitChar (n % 10)] ++ (Nat.digits 10 (n / 10)).map digitChar := by
  rw [Nat.digits_eq_cons_digits_div (by decide) hn, List.map_cons, List.append_cons]

/-- **The signed digits**, from the last one on. -/
theorem pushDigits_ok (value : Word) (h : ret.Holds text) :
    ∃ s, pushDigits value ret = .ok s ∧
      s.Holds (text ++ (Nat.digits 10 value.toInt.natAbs).map digitChar) := by
  induction value, ret using pushDigits.induct generalizing text with
  | case1 ret =>
      refine ⟨ret, by rw [pushDigits]; rfl, ?_⟩
      simpa using h
  | case2 value ret hne ih =>
      obtain ⟨ret', hpush, hret'⟩ := push_digit h (toNat_digit value)
      obtain ⟨s, hloop, hs⟩ := ih ret' hret'
      refine ⟨s, ?_, ?_⟩
      · rw [pushDigits, dif_neg hne]
        dsimp only
        rw [hpush]
        exact hloop
      · rw [digits_step (natAbs_ne_zero hne), ← natAbs_sdiv]
        exact hs

/-- **The unsigned digits**, from the last one on. -/
theorem pushDigitsUnsigned_ok (value : Word) (h : ret.Holds text) :
    ∃ s, pushDigitsUnsigned value ret = .ok s ∧
      s.Holds (text ++ (Nat.digits 10 value.toNat).map digitChar) := by
  induction value, ret using pushDigitsUnsigned.induct generalizing text with
  | case1 ret =>
      refine ⟨ret, by rw [pushDigitsUnsigned]; rfl, ?_⟩
      simpa using h
  | case2 value ret hne ih =>
      have hdigit : (value % 10).toNat = value.toNat % 10 := BitVec.toNat_umod
      obtain ⟨ret', hpush, hret'⟩ := push_digit h hdigit
      obtain ⟨s, hloop, hs⟩ := ih ret' hret'
      refine ⟨s, ?_, ?_⟩
      · rw [pushDigitsUnsigned, dif_neg hne]
        dsimp only
        rw [hpush]
        exact hloop
      · have hquotient : (value / 10).toNat = value.toNat / 10 := BitVec.toNat_udiv
        rw [digits_step fun h0 => hne (BitVec.eq_of_toNat_eq h0), ← hquotient]
        exact hs

/-! ### Turning the text around -/

/-- **The swaps** turn what stands between two places around. -/
theorem reverseLoop_ok {before middle behind : List Byte} {j : Nat}
    (h : ret.Holds (before ++ middle ++ behind)) (hj : j + 1 = before.length + middle.length) :
    ∃ s, reverseLoop before.length j ret = .ok s ∧
      s.Holds (before ++ middle.reverse ++ behind) := by
  induction middle using List.bidirectionalRec generalizing before behind j ret with
  | nil =>
      refine ⟨ret, ?_, h⟩
      rw [reverseLoop, if_neg]
      rw [List.length_nil] at hj
      omega
  | singleton x =>
      refine ⟨ret, ?_, h⟩
      rw [reverseLoop, if_neg]
      rw [List.length_singleton] at hj
      omega
  | cons_append x middle y ih =>
      rw [List.length_cons, List.length_append, List.length_singleton] at hj
      have hmiddle : j = (before ++ y :: middle).length := by
        rw [List.length_append, List.length_cons]
        omega
      have hsplit : before ++ (x :: (middle ++ [y])) ++ behind =
          (before ++ x :: middle) ++ y :: behind := by simp
      have hx : ret.Holds (before ++ x :: (middle ++ y :: behind)) := by
        rw [hsplit] at h
        simpa using h
      have hy : ret.get j = .ok y := by
        rw [show j = (before ++ x :: middle).length by simpa using hmiddle]
        exact MiniString.Holds.get_middle (hsplit ▸ h)
      obtain ⟨ret₁, hset₁, h₁⟩ := hx.set_middle y
      have h₁' : ret₁.Holds ((before ++ y :: middle) ++ y :: behind) := by simpa using h₁
      obtain ⟨ret₂, hset₂, h₂⟩ := h₁'.set_middle x
      have h₂' : ret₂.Holds ((before ++ [y]) ++ middle ++ x :: behind) := by simpa using h₂
      obtain ⟨s, hloop, hs⟩ := ih h₂' (j := j - 1)
        (by rw [List.length_append, List.length_singleton]; omega)
      refine ⟨s, ?_, by simpa using hs⟩
      rw [List.length_append, List.length_singleton] at hloop
      rw [reverseLoop, if_pos (by omega), hx.get_middle, Except.ok_bind, hy, Except.ok_bind, hset₁,
        Except.ok_bind]
      rw [← hmiddle] at hset₂
      rw [hset₂]
      exact hloop

/-- The whole text. -/
theorem reverse_ok (h : ret.Holds text) (hne : text ≠ []) :
    ∃ s, reverseLoop 0 (ret.size - 1) ret = .ok s ∧ s.Holds text.reverse := by
  have hpos := List.length_pos_of_ne_nil hne
  have h' : ret.Holds ([] ++ text ++ []) := by simpa using h
  obtain ⟨s, hloop, hs⟩ := reverseLoop_ok h' (j := ret.size - 1)
    (by rw [h.size_eq, List.length_nil]; omega)
  exact ⟨s, hloop, by simpa using hs⟩

/-! ### The functions -/

/-- **`to_string` of an int** has the numeral. -/
theorem toStringInt_ok (value : Word) :
    ∃ s, toStringInt value = .ok s ∧ s.Holds (signed value.toInt) := by
  unfold toStringInt
  by_cases hzero : value = 0
  · subst hzero
    exact MiniString.holds_ofCString zero
  rw [if_neg hzero]
  have hne := natAbs_ne_zero hzero
  have hdigits : (Nat.digits 10 value.toInt.natAbs).map digitChar ≠ [] := fun h =>
    Nat.digits_ne_nil_iff_ne_zero.mpr hne (List.map_eq_nil_iff.mp h)
  obtain ⟨s₁, hloop, h₁⟩ := pushDigits_ok value MiniString.holds_ofNothing
  rw [List.nil_append] at h₁
  dsimp only
  rw [hloop, Except.ok_bind, signed, decimal, if_neg hne]
  by_cases hneg : value.slt 0
  · obtain ⟨s₂, hpush, h₂⟩ := h₁.pushBack minus
    obtain ⟨s, hreverse, hs⟩ := reverse_ok h₂ (by simp)
    rw [if_pos hneg, hpush, if_pos (slt_zero.mp hneg)]
    exact ⟨s, hreverse, by simpa using hs⟩
  · obtain ⟨s, hreverse, hs⟩ := reverse_ok h₁ hdigits
    rw [if_neg hneg, if_neg fun h => hneg (slt_zero.mpr h)]
    exact ⟨s, hreverse, by simpa using hs⟩

/-- **`to_string` of an unsigned value** has it, too. -/
theorem toStringUnsigned_ok (value : Word) :
    ∃ s, toStringUnsigned value = .ok s ∧ s.Holds (signed value.toNat) := by
  unfold toStringUnsigned
  by_cases hzero : value = 0
  · subst hzero
    exact MiniString.holds_ofCString zero
  rw [if_neg hzero]
  have hne : value.toNat ≠ 0 := fun h0 => hzero (BitVec.eq_of_toNat_eq h0)
  have hdigits : (Nat.digits 10 value.toNat).map digitChar ≠ [] := fun h =>
    Nat.digits_ne_nil_iff_ne_zero.mpr hne (List.map_eq_nil_iff.mp h)
  obtain ⟨s₁, hloop, h₁⟩ := pushDigitsUnsigned_ok value MiniString.holds_ofNothing
  rw [List.nil_append] at h₁
  obtain ⟨s, hreverse, hs⟩ := reverse_ok h₁ hdigits
  rw [hloop, signed, if_neg (by omega), Int.natAbs_natCast, decimal, if_neg hne]
  exact ⟨s, hreverse, by simpa using hs⟩

/-- **`to_string`.**  For every `int` and every `unsigned int` the string is the canonical
numeral of the value, of which there is only one, and no assertion fails on the way. -/
theorem to_string_canonical (value : Word) :
    (∃ s text, toStringInt value = .ok s ∧ s.Holds text ∧ Canonical text value.toInt ∧
      ∀ text', Canonical text' value.toInt → text' = text) ∧
    ∃ s text, toStringUnsigned value = .ok s ∧ s.Holds text ∧ Canonical text value.toNat ∧
      ∀ text', Canonical text' value.toNat → text' = text := by
  obtain ⟨s, hs, hholds⟩ := toStringInt_ok value
  obtain ⟨s', hs', hholds'⟩ := toStringUnsigned_ok value
  exact ⟨⟨s, _, hs, hholds, canonical_signed _, fun _ => Canonical.eq⟩,
    s', _, hs', hholds', canonical_signed _, fun _ => Canonical.eq⟩

end Programs
