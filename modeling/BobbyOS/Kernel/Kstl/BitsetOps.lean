import BobbyOS.Kernel.Kstl.Bitset
import BobbyOS.Lib.BitTricks
import Mathlib.Data.Fintype.Card

/-!
# The operations of `bitset`

What the operations on whole blocks do to the single bits.  A bitset is compared with
a vector of `N` booleans: every bit below `N` is its boolean, and the bits behind `N`
in the top block are clear.

* `Is`: the bitset is that vector.
* `bit_shl`, `bit_shr`: a shift of blocks with a carry is a shift of the bits.
* `Is.count_eq`: the loops over the blocks count the bits below `N`.
-/

namespace Kernel

open BitTricks

/-- `high_mask()`. -/
def highMask (n : Nat) : Word :=
  let r := n % 32
  if r = 0 then ~~~0 else (1 <<< r) - 1

namespace Bitset

variable {n : Nat}

/-- `blocks_[num_blocks - 1] &= high_mask()`, where there is a block. -/
def maskHigh (b : Bitset n) : Bitset n :=
  if h : 0 < numBlocks n then
    ⟨b.blocks.set (numBlocks n - 1) (b.blocks[numBlocks n - 1] &&& highMask n)⟩
  else b

/-- `reset(pos)`. -/
def resetBit (b : Bitset n) (pos : Nat) : Except Panic (Bitset n) := b.set pos false

/-- `flip(pos)`. -/
def flipBit (b : Bitset n) (pos : Nat) : Except Panic (Bitset n) :=
  if h : pos / 32 < numBlocks n then
    .ok ⟨b.blocks.set (pos / 32) (b.blocks[pos / 32] ^^^ 1#32 <<< (pos % 32)) h⟩
  else .error (.assertFailed "index < _capacity")

/-- `flip()`, and `operator~`. -/
def flip (b : Bitset n) : Bitset n := maskHigh ⟨b.blocks.map (~~~ ·)⟩

/-- `while (b) { b &= (b - 1); ++total; }`. -/
def countLoop (total : Nat) (b : Word) : Nat :=
  if h : b = 0 then total else countLoop (total + 1) (b &&& (b - 1))
termination_by b.toNat
decreasing_by
  have hne : b.toNat ≠ 0 := fun h0 => h (BitVec.eq_of_toNat_eq h0)
  have hpred : (b - 1).toNat = b.toNat - 1 :=
    BitVec.toNat_sub_of_le (BitVec.le_def.mpr (Nat.one_le_iff_ne_zero.mpr hne))
  rw [BitVec.toNat_and, hpred]
  exact and_pred_lt hne

/-- `count`. -/
def count (b : Bitset n) : Nat := b.blocks.toList.foldl countLoop 0

/-- `any`. -/
def any (b : Bitset n) : Bool := 0 < b.count

/-- `none`. -/
def none (b : Bitset n) : Bool := !b.any

/-- `operator&=`. -/
def andAssign (b rhs : Bitset n) : Bitset n := ⟨b.blocks.zipWith (· &&& ·) rhs.blocks⟩

/-- `operator|=`. -/
def orAssign (b rhs : Bitset n) : Bitset n := ⟨b.blocks.zipWith (· ||| ·) rhs.blocks⟩

/-- `operator^=`. -/
def xorAssign (b rhs : Bitset n) : Bitset n := ⟨b.blocks.zipWith (· ^^^ ·) rhs.blocks⟩

/-- The block `i` of `src << pos`. -/
def shlBlock (src : Bitset n) (blk_shift bit_shift i : Nat) (hi : i < numBlocks n) : Word :=
  if _ : blk_shift ≤ i then
    let val := src.blocks[i - blk_shift] <<< bit_shift
    if _ : bit_shift ≠ 0 ∧ blk_shift < i then
      val ||| (src.blocks[i - blk_shift - 1] >>> (32 - bit_shift))
    else val
  else 0

/-- `operator<<`. -/
def shl (src : Bitset n) (pos : Nat) : Bitset n :=
  if n ≤ pos then zero
  else maskHigh ⟨Vector.ofFn fun i => src.shlBlock (pos / 32) (pos % 32) i i.isLt⟩

/-- The block `i` of `src >> pos`. -/
def shrBlock (src : Bitset n) (blk_shift bit_shift i : Nat) : Word :=
  if _ : i + blk_shift < numBlocks n then
    let val := src.blocks[i + blk_shift] >>> bit_shift
    if _ : bit_shift ≠ 0 ∧ i + blk_shift + 1 < numBlocks n then
      val ||| (src.blocks[i + blk_shift + 1] <<< (32 - bit_shift))
    else val
  else 0

/-- `operator>>`. -/
def shr (src : Bitset n) (pos : Nat) : Bitset n :=
  if n ≤ pos then zero
  else ⟨Vector.ofFn fun i => src.shrBlock (pos / 32) (pos % 32) i⟩

/-- `operator==`. -/
def equal (a b : Bitset n) : Bool :=
  (List.finRange (numBlocks n)).all fun i => a.blocks[i] == b.blocks[i]

/-! ### Bits and blocks -/

variable {a b src : Bitset n} {pos i r : Nat}

/-- The bit at a place of a block. -/
theorem bit_block (hi : i < numBlocks n) (hr : r < 32) :
    b.bit (32 * i + r) = b.blocks[i].getLsbD r := by
  have hdiv : (32 * i + r) / 32 = i := by omega
  have hmod : (32 * i + r) % 32 = r := by omega
  simp only [bit, hdiv, hmod, dif_pos hi]

/-- There are no bits behind the blocks. -/
theorem bit_of_ge (h : numBlocks n ≤ pos / 32) : b.bit pos = false :=
  dif_neg (Nat.not_lt.mpr h)

/-- What is true of the bits of every block, and past the last one, is true of all. -/
theorem forall_bit {P : Nat → Bool → Prop}
    (hblock : ∀ i (hi : i < numBlocks n), ∀ r < 32, P (32 * i + r) (b.blocks[i].getLsbD r))
    (hpast : ∀ pos, numBlocks n ≤ pos / 32 → P pos false) (pos : Nat) : P pos (b.bit pos) := by
  by_cases hi : pos / 32 < numBlocks n
  · have hr : pos % 32 < 32 := Nat.mod_lt _ (by decide)
    have h := hblock (pos / 32) hi (pos % 32) hr
    rwa [← bit_block hi hr, Nat.div_add_mod] at h
  · rw [bit_of_ge (Nat.not_lt.mp hi)]
    exact hpast pos (Nat.not_lt.mp hi)

/-- An operation on pairs of blocks is one on pairs of bits. -/
theorem bit_zipWith {f : Word → Word → Word} {g : Bool → Bool → Bool}
    (hf : ∀ x y r, (f x y).getLsbD r = g (x.getLsbD r) (y.getLsbD r)) (hg : g false false = false)
    (pos : Nat) :
    (⟨a.blocks.zipWith f b.blocks⟩ : Bitset n).bit pos = g (a.bit pos) (b.bit pos) := by
  refine forall_bit (P := fun pos c => c = g (a.bit pos) (b.bit pos)) (fun i hi r hr => ?_)
    (fun pos hpos => ?_) pos
  · rw [Vector.getElem_zipWith, hf, bit_block hi hr, bit_block hi hr]
  · rw [bit_of_ge hpos, bit_of_ge hpos, hg]

/-- The high mask keeps the bits below the size. -/
theorem getLsbD_highMask (hr : r < 32) :
    (highMask n).getLsbD r = (decide (n % 32 = 0) || decide (r < n % 32)) := by
  have hlt : n % 32 < 32 := Nat.mod_lt _ (by decide)
  unfold highMask
  dsimp only
  split
  case isTrue h =>
    rw [BitVec.getLsbD_not]
    simp [hr, h]
  case isFalse h =>
    have hpow : (1#32 <<< (n % 32)).toNat = 2 ^ (n % 32) := by
      rw [BitVec.toNat_shiftLeft, Nat.shiftLeft_eq]
      show 1 * 2 ^ (n % 32) % 2 ^ 32 = _
      rw [Nat.one_mul, Nat.mod_eq_of_lt (Nat.pow_lt_pow_right (by decide) hlt)]
    have hmask : (1#32 <<< (n % 32) - 1#32).toNat = 2 ^ (n % 32) - 1 := by
      rw [BitVec.toNat_sub_of_le, hpow]
      · rfl
      · rw [BitVec.le_def, hpow]
        exact Nat.two_pow_pos _
    show (1#32 <<< (n % 32) - 1#32).getLsbD r = _
    rw [BitVec.getLsbD, hmask, Nat.testBit_two_pow_sub_one, decide_eq_false h, Bool.false_or]

/-- The number of blocks, where the sum does not wrap. -/
theorem numBlocks_eq (hn : n + 31 < 2 ^ 32) : numBlocks n = (n + 31) / 32 := by
  rw [numBlocks, Nat.mod_eq_of_lt hn]

/-- **The top block** loses the bits behind the size. -/
theorem bit_maskHigh (hn : n + 31 < 2 ^ 32) (b : Bitset n) (pos : Nat) :
    b.maskHigh.bit pos = (b.bit pos && decide (pos < n)) := by
  have hblocks := numBlocks_eq hn
  unfold maskHigh
  split
  case isFalse h =>
    rw [bit_of_ge (by omega)]
    rfl
  case isTrue h =>
    refine forall_bit (P := fun pos c => c = (b.bit pos && decide (pos < n))) (fun i hi r hr => ?_)
      (fun pos hpos => by rw [bit_of_ge hpos]; rfl) pos
    rw [Vector.getElem_set, bit_block hi hr]
    split
    case isTrue htop =>
      subst htop
      rw [BitVec.getLsbD_and, getLsbD_highMask hr]
      congr 1
      rw [Bool.eq_iff_iff, Bool.or_eq_true, decide_eq_true_iff, decide_eq_true_iff,
        decide_eq_true_iff]
      omega
    case isFalse htop =>
      rw [decide_eq_true (by omega), Bool.and_true]

/-- `flip()` turns the bits below the size over. -/
theorem bit_flip (hn : n + 31 < 2 ^ 32) (b : Bitset n) (pos : Nat) :
    b.flip.bit pos = (!b.bit pos && decide (pos < n)) := by
  have hblocks := numBlocks_eq hn
  rw [flip, bit_maskHigh hn]
  refine forall_bit (P := fun pos c => (c && decide (pos < n)) =
    (!b.bit pos && decide (pos < n))) (fun i hi r hr => ?_) (fun pos hpos => ?_) pos
  · rw [Vector.getElem_map, BitVec.getLsbD_not, bit_block hi hr, decide_eq_true hr, Bool.true_and]
  · rw [decide_eq_false (by omega), Bool.and_false, Bool.and_false]

/-- A bit that is flipped in a word leaves the others. -/
theorem getLsbD_flipBit (w : Word) {i : Nat} (hi : i < 32) (j : Nat) :
    (w ^^^ 1#32 <<< i).getLsbD j = if j = i then !w.getLsbD j else w.getLsbD j := by
  rw [BitVec.getLsbD_xor, getLsbD_one_shift hi]
  by_cases hji : j = i <;> simp [hji]

/-- **Flip.**  Below the size one bit is turned over. -/
theorem flipBit_spec (b : Bitset n) (hn : n + 31 < 2 ^ 32) (h : pos < n) :
    ∃ b', b.flipBit pos = .ok b' ∧
      ∀ i, b'.bit i = if i = pos then !b.bit i else b.bit i := by
  have hpos := div_lt_numBlocks hn h
  refine ⟨_, by rw [flipBit, dif_pos hpos], fun i => ?_⟩
  refine forall_bit (P := fun i c => c = if i = pos then !b.bit i else b.bit i)
    (fun i hi r hr => ?_) (fun i hi => ?_) i
  · rw [Vector.getElem_set, bit_block hi hr]
    by_cases hblock : pos / 32 = i
    · subst hblock
      have hone : r = pos % 32 ↔ 32 * (pos / 32) + r = pos := by omega
      rw [if_pos rfl, getLsbD_flipBit _ (Nat.mod_lt _ (by decide)), if_congr hone rfl rfl]
    · rw [if_neg hblock, if_neg (by omega)]
  · rw [bit_of_ge hi, if_neg]
    rintro rfl
    exact Nat.not_lt.mpr hi hpos

/-! ### Shifts -/

/-- A block of `src << pos`, with what is carried over from the block below. -/
theorem getLsbD_shlBlock (hi : i < numBlocks n) (hr : r < 32) :
    (src.shlBlock (pos / 32) (pos % 32) i hi).getLsbD r =
      (decide (pos ≤ 32 * i + r) && src.bit (32 * i + r - pos)) := by
  have hmod : pos % 32 < 32 := Nat.mod_lt _ (by decide)
  unfold shlBlock
  split
  case isFalse h =>
    rw [decide_eq_false (by omega)]
    exact BitVec.getLsbD_zero
  case isTrue h =>
    dsimp only
    rcases Nat.lt_or_ge r (pos % 32) with hlow | hhigh
    · -- the bit comes from the block below, if there is one
      have hfirst : (src.blocks[i - pos / 32] <<< (pos % 32)).getLsbD r = false := by
        rw [BitVec.getLsbD_shiftLeft, decide_eq_true hlow]
        simp
      split
      case isTrue hcarry =>
        have hplace : 32 * i + r - pos = 32 * (i - pos / 32 - 1) + (32 - pos % 32 + r) := by omega
        rw [BitVec.getLsbD_or, hfirst, Bool.false_or, BitVec.getLsbD_ushiftRight,
          decide_eq_true (by omega), Bool.true_and, hplace, bit_block (by omega) (by omega)]
      case isFalse hcarry =>
        rw [hfirst, decide_eq_false (by omega), Bool.false_and]
    · have hplace : 32 * i + r - pos = 32 * (i - pos / 32) + (r - pos % 32) := by omega
      have hfirst : (src.blocks[i - pos / 32] <<< (pos % 32)).getLsbD r =
          src.bit (32 * i + r - pos) := by
        rw [BitVec.getLsbD_shiftLeft, decide_eq_true hr, decide_eq_false (by omega), hplace,
          bit_block (by omega) (by omega)]
        rfl
      rw [decide_eq_true (by omega), Bool.true_and, ← hfirst]
      split
      case isTrue hcarry =>
        have hnone : (src.blocks[i - pos / 32 - 1] >>> (32 - pos % 32)).getLsbD r = false := by
          rw [BitVec.getLsbD_ushiftRight, BitVec.getLsbD_of_ge _ _ (by omega)]
        rw [BitVec.getLsbD_or, hnone, Bool.or_false]
      case isFalse hcarry => rfl

/-- **Shifting left**, by any amount. -/
theorem bit_shl (hn : n + 31 < 2 ^ 32) (src : Bitset n) (pos i : Nat) :
    (src.shl pos).bit i = (decide (pos ≤ i) && src.bit (i - pos) && decide (i < n)) := by
  have hblocks := numBlocks_eq hn
  unfold shl
  split
  case isTrue h =>
    rw [bit_zero]
    by_cases hi : i < n
    · rw [decide_eq_false (show ¬ pos ≤ i by omega)]
      rfl
    · rw [decide_eq_false hi, Bool.and_false]
  case isFalse h =>
    rw [bit_maskHigh hn]
    refine forall_bit (P := fun i c => (c && decide (i < n)) =
      (decide (pos ≤ i) && src.bit (i - pos) && decide (i < n))) (fun i hi r hr => ?_)
      (fun i hi => ?_) i
    · rw [Vector.getElem_ofFn, getLsbD_shlBlock hi hr]
    · rw [decide_eq_false (show ¬ i < n by omega), Bool.and_false, Bool.and_false]

/-- A block of `src >> pos`, with what is carried over from the block above. -/
theorem getLsbD_shrBlock (hr : r < 32) :
    (src.shrBlock (pos / 32) (pos % 32) i).getLsbD r = src.bit (32 * i + r + pos) := by
  have hmod : pos % 32 < 32 := Nat.mod_lt _ (by decide)
  unfold shrBlock
  split
  case isFalse h =>
    rw [bit_of_ge (by omega)]
    exact BitVec.getLsbD_zero
  case isTrue h =>
    dsimp only
    rcases Nat.lt_or_ge (r + pos % 32) 32 with hlow | hhigh
    · have hplace : 32 * i + r + pos = 32 * (i + pos / 32) + (pos % 32 + r) := by omega
      have hfirst : (src.blocks[i + pos / 32] >>> (pos % 32)).getLsbD r =
          src.bit (32 * i + r + pos) := by
        rw [BitVec.getLsbD_ushiftRight, hplace, bit_block h (by omega)]
      rw [← hfirst]
      split
      case isTrue hcarry =>
        rw [BitVec.getLsbD_or, BitVec.getLsbD_shiftLeft,
          decide_eq_true (show r < 32 - pos % 32 by omega)]
        simp
      case isFalse hcarry => rfl
    · -- the bit comes from the block above, if there is one
      have hfirst : (src.blocks[i + pos / 32] >>> (pos % 32)).getLsbD r = false := by
        rw [BitVec.getLsbD_ushiftRight, BitVec.getLsbD_of_ge _ _ (by omega)]
      have hplace : 32 * i + r + pos = 32 * (i + pos / 32 + 1) + (r - (32 - pos % 32)) := by omega
      split
      case isTrue hcarry =>
        rw [BitVec.getLsbD_or, hfirst, Bool.false_or, BitVec.getLsbD_shiftLeft, decide_eq_true hr,
          decide_eq_false (by omega), hplace, bit_block hcarry.2 (by omega)]
        rfl
      case isFalse hcarry =>
        rw [hfirst, bit_of_ge]
        omega

/-- **Shifting right**, when the bits behind the size are clear. -/
theorem bit_shr (hn : n + 31 < 2 ^ 32) {src : Bitset n} (hpad : ∀ i, n ≤ i → src.bit i = false)
    (pos i : Nat) : (src.shr pos).bit i = src.bit (i + pos) := by
  have hblocks := numBlocks_eq hn
  unfold shr
  split
  case isTrue h => rw [bit_zero, hpad _ (by omega)]
  case isFalse h =>
    refine forall_bit (P := fun i c => c = src.bit (i + pos)) (fun i hi r hr => ?_)
      (fun i hi => ?_) i
    · rw [Vector.getElem_ofFn]
      exact getLsbD_shrBlock hr
    · rw [bit_of_ge (by omega)]

/-! ### Counting -/

/-- The loop counts the ones of a block. -/
theorem countLoop_eq (total : Nat) (b : Word) : countLoop total b = total + ones 32 b.toNat := by
  induction total, b using countLoop.induct with
  | case1 total =>
      rw [countLoop, dif_pos rfl]
      exact (congrArg (total + ·) (ones_zero 32)).symm
  | case2 total b h ih =>
      have hne : b.toNat ≠ 0 := fun h0 => h (BitVec.eq_of_toNat_eq h0)
      have hpred : (b - 1).toNat = b.toNat - 1 :=
        BitVec.toNat_sub_of_le (BitVec.le_def.mpr (Nat.one_le_iff_ne_zero.mpr hne))
      have hones := ones_and_pred hne b.isLt
      rw [countLoop, dif_neg h, ih, BitVec.toNat_and, hpred]
      omega

/-- The blocks up to `k` have the bits below `32 * k`. -/
theorem foldl_countLoop {k : Nat} (hk : k ≤ numBlocks n) :
    (b.blocks.toList.take k).foldl countLoop 0 = Nat.count (fun i => b.bit i = true) (32 * k) := by
  induction k with
  | zero => rfl
  | succ k ih =>
      have hblock : b.blocks.toList[k]? = some b.blocks[k] := by
        have hlt : k < b.blocks.toList.length := by
          rw [Vector.length_toList]
          exact hk
        rw [List.getElem?_eq_getElem hlt, Vector.getElem_toList]
      have hones : ones 32 b.blocks[k].toNat =
          Nat.count (fun r => b.bit (32 * k + r) = true) 32 := by
        rw [ones, Nat.count_eq_card_filter_range, Nat.count_eq_card_filter_range]
        refine congrArg _ (Finset.filter_congr fun r hr => ?_)
        rw [bit_block hk (Finset.mem_range.mp hr)]
        rfl
      rw [List.take_add_one, hblock, List.foldl_append, ih (by omega), Nat.mul_succ, Nat.count_add,
        ← hones]
      exact countLoop_eq _ _

/-! ### The vector of booleans -/

/-- The bitset is the vector, and the bits behind it are clear. -/
structure Is (b : Bitset n) (f : Fin n → Bool) : Prop where
  bit : ∀ i : Fin n, b.bit i = f i
  padding : ∀ i, n ≤ i → b.bit i = false

variable {f g : Fin n → Bool}

/-- A new bitset is empty. -/
theorem is_zero : (zero : Bitset n).Is fun _ => false :=
  ⟨fun _ => bit_zero _, fun _ _ => bit_zero _⟩

/-- **Count** is the number of booleans that are true. -/
theorem Is.count_eq (h : b.Is f) (hn : n + 31 < 2 ^ 32) :
    b.count = (Finset.univ.filter fun i => f i = true).card := by
  have hblocks := numBlocks_eq hn
  have hall := foldl_countLoop (b := b) (Nat.le_refl _)
  rw [List.take_of_length_le (by simp)] at hall
  have hpad : Nat.count (fun i => b.bit (n + i) = true) (32 * numBlocks n - n) = 0 := by
    rw [Nat.count_iff_forall_not]
    intro i _
    rw [h.padding _ (Nat.le_add_right n i)]
    exact Bool.false_ne_true
  rw [count, hall, show 32 * numBlocks n = n + (32 * numBlocks n - n) by omega, Nat.count_add,
    hpad, Nat.add_zero, Nat.count_eq_card_filter_range]
  refine (Finset.card_bij (fun (i : Fin n) _ => (i : Nat)) (fun i hi => ?_)
    (fun i _ j _ hij => Fin.ext hij) fun i hi => ?_).symm
  · rw [Finset.mem_filter] at hi ⊢
    exact ⟨Finset.mem_range.mpr i.isLt, (h.bit i).trans hi.2⟩
  · rw [Finset.mem_filter, Finset.mem_range] at hi
    exact ⟨⟨i, hi.1⟩, Finset.mem_filter.mpr ⟨Finset.mem_univ _, (h.bit ⟨i, hi.1⟩).symm.trans hi.2⟩,
      rfl⟩

/-- **Equality** compares the blocks, and so the booleans. -/
theorem Is.equal_iff (ha : a.Is f) (hb : b.Is g) : a.equal b = true ↔ f = g := by
  have hequal : a.equal b = true ↔ a = b := by
    unfold equal
    rw [List.all_eq_true]
    constructor
    · intro h
      obtain ⟨blocks⟩ := a
      obtain ⟨blocks'⟩ := b
      congr 1
      refine Vector.ext fun i hi => ?_
      exact eq_of_beq (h ⟨i, hi⟩ (List.mem_finRange _))
    · rintro rfl i -
      exact beq_self_eq_true _
  rw [hequal]
  constructor
  · rintro rfl
    funext i
    rw [← ha.bit, hb.bit]
  · rintro rfl
    refine ext_bit fun i => ?_
    by_cases hi : i < n
    · rw [ha.bit ⟨i, hi⟩, hb.bit ⟨i, hi⟩]
    · rw [ha.padding i (Nat.not_lt.mp hi), hb.padding i (Nat.not_lt.mp hi)]

end Bitset

end Kernel
