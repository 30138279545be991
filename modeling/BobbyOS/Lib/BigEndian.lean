import Mathlib.Algebra.Group.Nat.Defs
import Mathlib.Data.Nat.Basic

/-!
# Big-endian numbers

A number is spelled by its bytes, most significant byte first.  `value` reads
such a spelling and `encode` writes the lowest bytes of a number; a spelling is
also what shifts and bitwise ors of its bytes give.
-/

namespace BigEndian

variable {b : BitVec 8} {bytes : List (BitVec 8)} {width n : Nat}

/-- The number the bytes spell. -/
def value : List (BitVec 8) → Nat
  | [] => 0
  | b :: bytes => b.toNat <<< (8 * bytes.length) ||| value bytes

/-- The `width` lowest bytes of a number. -/
def encode : Nat → Nat → List (BitVec 8)
  | 0, _ => []
  | width + 1, n => BitVec.ofNat 8 (n >>> (8 * width)) :: encode width n

@[simp] theorem value_nil : value [] = 0 := rfl

/-- The first byte is the most significant one. -/
theorem value_cons :
    value (b :: bytes) = b.toNat <<< (8 * bytes.length) ||| value bytes := rfl

/-- A number is encoded in the width asked for. -/
@[simp] theorem length_encode : (encode width n).length = width := by
  induction width with
  | zero => rfl
  | succ width ih => rw [encode, List.length_cons, ih]

/-- So many bytes hold no larger number. -/
theorem value_lt (bytes : List (BitVec 8)) : value bytes < 2 ^ (8 * bytes.length) := by
  induction bytes with
  | nil => exact Nat.zero_lt_one
  | cons b bytes ih =>
      rw [value_cons, ← Nat.shiftLeft_add_eq_or_of_lt ih, Nat.shiftLeft_eq, List.length_cons,
        Nat.mul_succ, Nat.pow_add, Nat.mul_comm (2 ^ (8 * bytes.length))]
      have hb : b.toNat + 1 ≤ 2 ^ 8 := b.isLt
      calc b.toNat * 2 ^ (8 * bytes.length) + value bytes
          < b.toNat * 2 ^ (8 * bytes.length) + 2 ^ (8 * bytes.length) := Nat.add_lt_add_left ih _
        _ = (b.toNat + 1) * 2 ^ (8 * bytes.length) := (Nat.succ_mul _ _).symm
        _ ≤ 2 ^ 8 * 2 ^ (8 * bytes.length) := Nat.mul_le_mul_right _ hb

/-- **Round trip.**  The bytes of a number spell it, as far as they reach. -/
theorem value_encode : value (encode width n) = n % 2 ^ (8 * width) := by
  induction width with
  | zero => rw [encode, value_nil, Nat.mul_zero, Nat.pow_zero, Nat.mod_one]
  | succ width ih =>
      have hlt : n % 2 ^ (8 * width) < 2 ^ (8 * width) := Nat.mod_lt _ (Nat.two_pow_pos _)
      rw [encode, value_cons, length_encode, ih, ← Nat.shiftLeft_add_eq_or_of_lt hlt,
        BitVec.toNat_ofNat, Nat.shiftLeft_eq, Nat.shiftRight_eq_div_pow, Nat.mul_succ, Nat.pow_add,
        Nat.mod_mul, Nat.mul_comm, Nat.add_comm]

/-- **Round trip.**  A number that fits is read back. -/
theorem value_encode_of_lt (h : n < 2 ^ (8 * width)) : value (encode width n) = n := by
  rw [value_encode, Nat.mod_eq_of_lt h]

/-- Two bytes, as C shifts them together. -/
theorem value_pair (b₀ b₁ : BitVec 8) : value [b₀, b₁] = b₀.toNat <<< 8 ||| b₁.toNat := by
  simp [value_cons]

/-- Eight bytes, as C shifts them together. -/
theorem value_eight (b₀ b₁ b₂ b₃ b₄ b₅ b₆ b₇ : BitVec 8) :
    value [b₀, b₁, b₂, b₃, b₄, b₅, b₆, b₇] =
      b₀.toNat <<< 56 ||| b₁.toNat <<< 48 ||| b₂.toNat <<< 40 ||| b₃.toNat <<< 32 |||
        b₄.toNat <<< 24 ||| b₅.toNat <<< 16 ||| b₆.toNat <<< 8 ||| b₇.toNat := by
  simp [value_cons, Nat.or_assoc]

end BigEndian
