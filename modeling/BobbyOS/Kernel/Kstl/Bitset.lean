import BobbyOS.Kernel.ASMInterface

/-!
# `ministl::bitset`

`N` bits in blocks of 32.  The container asserts that a block index is in
range, so `test` and `set` are checked only up to the end of the last block.  The
number of blocks is rounded up in 32 bits, which is enough unless `N` is among the
31 largest numbers of `size_t`.
-/

namespace Kernel

/-- `num_blocks`, of a 32-bit `size_t`. -/
def numBlocks (n : Nat) : Nat := (n + 31) % 2 ^ 32 / 32

/-- `bitset<n>`: the blocks of 32 bits. -/
structure Bitset (n : Nat) where
  blocks : Vector Word (numBlocks n)

namespace Bitset

variable {n : Nat}

/-- `reset()`. -/
def zero : Bitset n := ⟨Vector.replicate _ 0⟩

/-- `test`. -/
def test (b : Bitset n) (pos : Nat) : Except Panic Bool :=
  if h : pos / 32 < numBlocks n then
    .ok ((b.blocks[pos / 32] >>> (pos % 32) &&& 1#32) != 0)
  else .error (.assertFailed "index < _capacity")

/-- `set(pos, value)`. -/
def set (b : Bitset n) (pos : Nat) (value : Bool) : Except Panic (Bitset n) :=
  if h : pos / 32 < numBlocks n then
    let block := b.blocks[pos / 32]
    let bit := 1#32 <<< (pos % 32)
    .ok ⟨b.blocks.set (pos / 32) (if value then block ||| bit else block &&& ~~~bit) h⟩
  else .error (.assertFailed "index < _capacity")

/-- The bit at `pos`; past the end there is none. -/
def bit (b : Bitset n) (pos : Nat) : Bool :=
  if h : pos / 32 < numBlocks n then b.blocks[pos / 32].getLsbD (pos % 32) else false

/-- A position below `n` has its block. -/
theorem div_lt_numBlocks {pos : Nat} (hn : n + 31 < 2 ^ 32) (h : pos < n) :
    pos / 32 < numBlocks n := by
  rw [numBlocks, Nat.mod_eq_of_lt hn]
  omega

/-- Bitsets with the same bits are the same. -/
theorem ext_bit {b b' : Bitset n} (h : ∀ i, b.bit i = b'.bit i) : b = b' := by
  obtain ⟨blocks⟩ := b
  obtain ⟨blocks'⟩ := b'
  congr 1
  apply Vector.ext
  intro j hj
  apply BitVec.eq_of_getLsbD_eq
  intro i hi
  have hdiv : (32 * j + i) / 32 = j := by omega
  have hmod : (32 * j + i) % 32 = i := by omega
  have hbit := h (32 * j + i)
  simp only [bit, hdiv, hmod, dif_pos hj] at hbit
  exact hbit

/-- One bit of a block. -/
theorem shift_and_one_ne_zero (w : Word) (i : Nat) :
    ((w >>> i &&& 1#32) != 0) = w.getLsbD i := by
  rw [Bool.eq_iff_iff, bne_iff_ne, ne_eq, ← BitVec.toNat_inj, BitVec.toNat_and,
    BitVec.toNat_ushiftRight]
  have h1 : (1#32).toNat = 1 := rfl
  have h0 : (0 : Word).toNat = 0 := rfl
  rw [h1, h0, Nat.and_one_is_mod, BitVec.getLsbD, Nat.testBit, Nat.one_and_eq_mod_two, bne_iff_ne]

/-- **Test.**  Below the size the bit is read. -/
theorem test_eq (b : Bitset n) (hn : n + 31 < 2 ^ 32) {pos : Nat} (h : pos < n) :
    b.test pos = .ok (b.bit pos) := by
  rw [test, bit, dif_pos (div_lt_numBlocks hn h), dif_pos (div_lt_numBlocks hn h),
    shift_and_one_ne_zero]

/-- A shifted one has one bit. -/
theorem getLsbD_one_shift {i : Nat} (hi : i < 32) (j : Nat) :
    (1#32 <<< i).getLsbD j = decide (j = i) := by
  rw [BitVec.getLsbD_shiftLeft, BitVec.getLsbD_one]
  by_cases hji : j = i
  · simp [hji, hi]
  · have : ¬ (i ≤ j ∧ j - i = 0) := by omega
    simp only [decide_eq_false hji]
    grind

/-- A bit that is set in a word leaves the others. -/
theorem getLsbD_setBit (w : Word) (value : Bool) {i j : Nat} (hi : i < 32) (hj : j < 32) :
    (if value then w ||| 1#32 <<< i else w &&& ~~~(1#32 <<< i)).getLsbD j =
      if j = i then value else w.getLsbD j := by
  have hbit := getLsbD_one_shift hi j
  cases value with
  | true =>
      rw [if_pos rfl, BitVec.getLsbD_or, hbit]
      by_cases hji : j = i <;> simp [hji]
  | false =>
      rw [if_neg (by decide), BitVec.getLsbD_and, BitVec.getLsbD_not, hbit]
      by_cases hji : j = i <;> simp [hji, hj]

/-- **Set.**  Below the size one bit changes. -/
theorem set_spec (b : Bitset n) (hn : n + 31 < 2 ^ 32) {pos : Nat} (h : pos < n) (value : Bool) :
    ∃ b', b.set pos value = .ok b' ∧ ∀ i, b'.bit i = if i = pos then value else b.bit i := by
  refine ⟨_, by rw [set, dif_pos (div_lt_numBlocks hn h)], fun i => ?_⟩
  have hpos : pos % 32 < 32 := Nat.mod_lt _ (by decide)
  have hi : i % 32 < 32 := Nat.mod_lt _ (by decide)
  rw [bit, bit]
  by_cases hin : i / 32 < numBlocks n
  · rw [dif_pos hin, dif_pos hin]
    rw [Vector.getElem_set]
    by_cases hblock : pos / 32 = i / 32
    · have hone : i % 32 = pos % 32 ↔ i = pos := by omega
      rw [if_pos hblock, getLsbD_setBit _ _ hpos hi, ← if_congr hone rfl rfl]
      simp only [hblock]
    · rw [if_neg hblock, if_neg]
      rintro rfl
      exact hblock rfl
  · rw [dif_neg hin, dif_neg hin, if_neg]
    rintro rfl
    exact hin (div_lt_numBlocks hn h)

@[simp] theorem bit_zero (pos : Nat) : (zero : Bitset n).bit pos = false := by
  rw [bit]
  split
  · simp [zero]
  · rfl

end Bitset

end Kernel
