import BobbyOS.Kernel.Kstl.BitsetOps
import BobbyOS.Lib.Result
import Mathlib.Logic.Function.Basic

/-!
# Runs of bitset operations

Any number of bitsets of one size, changed and combined in any order, beside vectors
of booleans on which the same operations are one line each.

* `Bitset.Is.agrees`: what can be read from a bitset is what its vector says.
* `bitset_runs_iff`: for every `N` whose blocks can be counted in 32 bits, every bitset
  is its vector after every operation; for the 31 numbers above there are no blocks.
-/

namespace Kernel

/-- The operations; a position is below the size, an amount of a shift is any number. -/
inductive BitOp (n : Nat)
  | construct (i : Nat)
  | copy (i other : Nat)
  | set (i : Nat) (pos : Fin n) (value : Bool)
  | resetBit (i : Nat) (pos : Fin n)
  | reset (i : Nat)
  | flipBit (i : Nat) (pos : Fin n)
  | flip (i : Nat)
  | andAssign (i rhs : Nat)
  | orAssign (i rhs : Nat)
  | xorAssign (i rhs : Nat)
  | not (i b : Nat)
  | and (i a b : Nat)
  | or (i a b : Nat)
  | xor (i a b : Nat)
  | shl (i src pos : Nat)
  | shr (i src pos : Nat)

namespace BitOp

variable {n : Nat}

/-- One object becomes what the operation makes of it. -/
def onBits (i : Nat) (b : Except Panic (Bitset n)) (s : Nat → Bitset n) :
    Except Panic (Nat → Bitset n) := do
  return Function.update s i (← b)

/-- One operation on the objects. -/
def exec (op : BitOp n) (s : Nat → Bitset n) : Except Panic (Nat → Bitset n) :=
  match op with
  | .construct i => onBits i (.ok .zero) s
  | .copy i other => onBits i (.ok (s other)) s
  | .set i pos value => onBits i ((s i).set pos value) s
  | .resetBit i pos => onBits i ((s i).resetBit pos) s
  | .reset i => onBits i (.ok .zero) s
  | .flipBit i pos => onBits i ((s i).flipBit pos) s
  | .flip i => onBits i (.ok (s i).flip) s
  | .andAssign i rhs => onBits i (.ok ((s i).andAssign (s rhs))) s
  | .orAssign i rhs => onBits i (.ok ((s i).orAssign (s rhs))) s
  | .xorAssign i rhs => onBits i (.ok ((s i).xorAssign (s rhs))) s
  | .not i b => onBits i (.ok (s b).flip) s
  | .and i a b => onBits i (.ok ((s a).andAssign (s b))) s
  | .or i a b => onBits i (.ok ((s a).orAssign (s b))) s
  | .xor i a b => onBits i (.ok ((s a).xorAssign (s b))) s
  | .shl i src pos => onBits i (.ok ((s src).shl pos)) s
  | .shr i src pos => onBits i (.ok ((s src).shr pos)) s

/-- Operations one after the other. -/
def execAll (ops : List (BitOp n)) (s : Nat → Bitset n) : Except Panic (Nat → Bitset n) :=
  ops.foldlM (fun s op => op.exec s) s

/-! ### On vectors of booleans -/

/-- Moved up by `pos` places, `false` below. -/
def shiftUp (f : Fin n → Bool) (pos : Nat) (i : Fin n) : Bool :=
  if pos ≤ i then f ⟨i - pos, Nat.lt_of_le_of_lt (Nat.sub_le _ _) i.isLt⟩ else false

/-- Moved down by `pos` places, `false` above. -/
def shiftDown (f : Fin n → Bool) (pos : Nat) (i : Fin n) : Bool :=
  if h : i + pos < n then f ⟨i + pos, h⟩ else false

/-- What the operation does to the vectors. -/
def apply (op : BitOp n) (r : Nat → Fin n → Bool) : Nat → Fin n → Bool :=
  match op with
  | .construct i | .reset i => Function.update r i fun _ => false
  | .copy i other => Function.update r i (r other)
  | .set i pos value => Function.update r i (Function.update (r i) pos value)
  | .resetBit i pos => Function.update r i (Function.update (r i) pos false)
  | .flipBit i pos => Function.update r i (Function.update (r i) pos (!r i pos))
  | .flip i => Function.update r i fun pos => !r i pos
  | .andAssign i rhs => Function.update r i fun pos => r i pos && r rhs pos
  | .orAssign i rhs => Function.update r i fun pos => r i pos || r rhs pos
  | .xorAssign i rhs => Function.update r i fun pos => r i pos ^^ r rhs pos
  | .not i b => Function.update r i fun pos => !r b pos
  | .and i a b => Function.update r i fun pos => r a pos && r b pos
  | .or i a b => Function.update r i fun pos => r a pos || r b pos
  | .xor i a b => Function.update r i fun pos => r a pos ^^ r b pos
  | .shl i src pos => Function.update r i (shiftUp (r src) pos)
  | .shr i src pos => Function.update r i (shiftDown (r src) pos)

/-- What they do to the sets. -/
def applyAll (ops : List (BitOp n)) (r : Nat → Fin n → Bool) : Nat → Fin n → Bool :=
  ops.foldl (fun r op => op.apply r) r

end BitOp

variable {n : Nat} {a b : Bitset n} {f g : Fin n → Bool}

/-- Every observer of every bitset says what the vectors say. -/
structure BitsAgree (s : Nat → Bitset n) (r : Nat → Fin n → Bool) : Prop where
  is : ∀ i, (s i).Is (r i)
  test : ∀ i (pos : Fin n), (s i).test pos = .ok (r i pos)
  count : ∀ i, (s i).count = (Finset.univ.filter fun pos => r i pos = true).card
  any : ∀ i, (s i).any = true ↔ ∃ pos, r i pos = true
  none : ∀ i, (s i).none = true ↔ ∀ pos, r i pos = false
  equal : ∀ i j, (s i).equal (s j) = true ↔ r i = r j

namespace Bitset

/-- `any` says whether there is a member. -/
theorem Is.any_iff (h : b.Is f) (hn : n + 31 < 2 ^ 32) : b.any = true ↔ ∃ pos, f pos = true := by
  rw [any, decide_eq_true_iff, h.count_eq hn, Finset.card_pos]
  constructor
  · intro ⟨pos, hpos⟩
    exact ⟨pos, (Finset.mem_filter.mp hpos).2⟩
  · intro ⟨pos, hpos⟩
    exact ⟨pos, Finset.mem_filter.mpr ⟨Finset.mem_univ _, hpos⟩⟩

/-- `none` says whether there is no member. -/
theorem Is.none_iff (h : b.Is f) (hn : n + 31 < 2 ^ 32) :
    b.none = true ↔ ∀ pos, f pos = false := by
  rw [none, Bool.not_eq_true', ← Bool.not_eq_true, h.any_iff hn]
  simp

/-- **The observers.** -/
theorem Is.agrees {s : Nat → Bitset n} {r : Nat → Fin n → Bool} (h : ∀ i, (s i).Is (r i))
    (hn : n + 31 < 2 ^ 32) : BitsAgree s r where
  is := h
  test i pos := by rw [test_eq _ hn pos.isLt, (h i).bit]
  count i := (h i).count_eq hn
  any i := (h i).any_iff hn
  none i := (h i).none_iff hn
  equal i j := (h i).equal_iff (h j)

/-! ### One operation -/

/-- One bit of the vector is written. -/
theorem Is.update (h : b.Is f) {b' : Bitset n} (pos : Fin n) {value : Bool}
    (hb' : ∀ i, b'.bit i = if i = pos then value else b.bit i) :
    b'.Is (Function.update f pos value) := by
  refine ⟨fun i => ?_, fun i hi => ?_⟩
  · rw [hb']
    by_cases hip : i = pos
    · rw [if_pos (congrArg Fin.val hip), hip, Function.update_self]
    · rw [if_neg fun h => hip (Fin.ext h), Function.update_of_ne hip, h.bit]
  · rw [hb', if_neg, h.padding i hi]
    have := pos.isLt
    omega

/-- `set` makes its position a member or not. -/
theorem Is.set (h : b.Is f) (hn : n + 31 < 2 ^ 32) (pos : Fin n) (value : Bool) :
    ∃ b', b.set pos value = .ok b' ∧ b'.Is (Function.update f pos value) := by
  obtain ⟨b', hset, hb'⟩ := b.set_spec hn pos.isLt value
  exact ⟨b', hset, h.update pos hb'⟩

/-- `flip` of a position changes its membership. -/
theorem Is.flipBit (h : b.Is f) (hn : n + 31 < 2 ^ 32) (pos : Fin n) :
    ∃ b', b.flipBit pos = .ok b' ∧ b'.Is (Function.update f pos (!f pos)) := by
  obtain ⟨b', hflip, hb'⟩ := b.flipBit_spec hn pos.isLt
  refine ⟨b', hflip, h.update pos fun i => ?_⟩
  rw [hb']
  by_cases hip : i = pos
  · rw [if_pos hip, if_pos hip, hip, h.bit]
  · rw [if_neg hip, if_neg hip]

/-- An operation on pairs of blocks. -/
theorem Is.zipWith (ha : a.Is f) (hb : b.Is g) {F : Word → Word → Word} {G : Bool → Bool → Bool}
    (hF : ∀ x y r, (F x y).getLsbD r = G (x.getLsbD r) (y.getLsbD r)) (hG : G false false = false) :
    (⟨a.blocks.zipWith F b.blocks⟩ : Bitset n).Is fun pos => G (f pos) (g pos) := by
  refine ⟨fun i => ?_, fun i hi => ?_⟩
  · rw [bit_zipWith hF hG, ha.bit, hb.bit]
  · rw [bit_zipWith hF hG, ha.padding i hi, hb.padding i hi, hG]

/-- `&=` intersects. -/
theorem Is.andAssign (ha : a.Is f) (hb : b.Is g) :
    (a.andAssign b).Is fun pos => f pos && g pos :=
  ha.zipWith hb (fun _ _ _ => BitVec.getLsbD_and) rfl

/-- `|=` unites. -/
theorem Is.orAssign (ha : a.Is f) (hb : b.Is g) :
    (a.orAssign b).Is fun pos => f pos || g pos :=
  ha.zipWith hb (fun _ _ _ => BitVec.getLsbD_or) rfl

/-- `^=` takes what is in one of the two. -/
theorem Is.xorAssign (ha : a.Is f) (hb : b.Is g) :
    (a.xorAssign b).Is fun pos => f pos ^^ g pos :=
  ha.zipWith hb (fun _ _ _ => BitVec.getLsbD_xor) rfl

/-- `flip` takes the complement. -/
theorem Is.flip (h : b.Is f) (hn : n + 31 < 2 ^ 32) : b.flip.Is fun pos => !f pos := by
  refine ⟨fun i => ?_, fun i hi => ?_⟩
  · rw [bit_flip hn, h.bit, decide_eq_true i.isLt, Bool.and_true]
  · rw [bit_flip hn, decide_eq_false (Nat.not_lt.mpr hi), Bool.and_false]

/-- `<<` moves the members up. -/
theorem Is.shl (h : b.Is f) (hn : n + 31 < 2 ^ 32) (pos : Nat) :
    (b.shl pos).Is (BitOp.shiftUp f pos) := by
  refine ⟨fun i => ?_, fun i hi => ?_⟩
  · rw [bit_shl hn, decide_eq_true i.isLt, Bool.and_true, BitOp.shiftUp]
    by_cases hle : pos ≤ i
    · have hbit := h.bit ⟨i - pos, Nat.lt_of_le_of_lt (Nat.sub_le _ _) i.isLt⟩
      rw [if_pos hle, decide_eq_true hle, Bool.true_and, hbit]
    · rw [if_neg hle, decide_eq_false hle, Bool.false_and]
  · rw [bit_shl hn, decide_eq_false (Nat.not_lt.mpr hi), Bool.and_false]

/-- `>>` moves them down. -/
theorem Is.shr (h : b.Is f) (hn : n + 31 < 2 ^ 32) (pos : Nat) :
    (b.shr pos).Is (BitOp.shiftDown f pos) := by
  refine ⟨fun i => ?_, fun i hi => ?_⟩
  · rw [bit_shr hn h.padding, BitOp.shiftDown]
    by_cases hlt : i + pos < n
    · rw [dif_pos hlt, h.bit ⟨i + pos, hlt⟩]
    · rw [dif_neg hlt, h.padding _ (Nat.not_lt.mp hlt)]
  · rw [bit_shr hn h.padding, h.padding _ (Nat.le_add_right_of_le hi)]

end Bitset

variable {s : Nat → Bitset n} {r : Nat → Fin n → Bool}

/-- One object gets a new value, the others keep theirs. -/
theorem onBits_is (h : ∀ i, (s i).Is (r i)) {i : Nat} {x : Except Panic (Bitset n)}
    (hx : ∃ b', x = .ok b' ∧ b'.Is f) :
    ∃ s', BitOp.onBits i x s = .ok s' ∧ ∀ j, (s' j).Is (Function.update r i f j) := by
  obtain ⟨b', rfl, hb'⟩ := hx
  refine ⟨Function.update s i b', rfl, fun j => ?_⟩
  by_cases hji : j = i
  · subst hji
    rwa [Function.update_self, Function.update_self]
  · rw [Function.update_of_ne hji, Function.update_of_ne hji]
    exact h j

/-- **One operation** does to the bitsets what it does to the vectors. -/
theorem BitOp.exec_is (hn : n + 31 < 2 ^ 32) (h : ∀ i, (s i).Is (r i)) (op : BitOp n) :
    ∃ s', op.exec s = .ok s' ∧ ∀ i, (s' i).Is (op.apply r i) := by
  cases op with
  | construct i => exact onBits_is h ⟨_, rfl, Bitset.is_zero⟩
  | copy i other => exact onBits_is h ⟨_, rfl, h other⟩
  | set i pos value => exact onBits_is h ((h i).set hn pos value)
  | resetBit i pos => exact onBits_is h ((h i).set hn pos false)
  | reset i => exact onBits_is h ⟨_, rfl, Bitset.is_zero⟩
  | flipBit i pos => exact onBits_is h ((h i).flipBit hn pos)
  | flip i => exact onBits_is h ⟨_, rfl, (h i).flip hn⟩
  | andAssign i rhs => exact onBits_is h ⟨_, rfl, (h i).andAssign (h rhs)⟩
  | orAssign i rhs => exact onBits_is h ⟨_, rfl, (h i).orAssign (h rhs)⟩
  | xorAssign i rhs => exact onBits_is h ⟨_, rfl, (h i).xorAssign (h rhs)⟩
  | not i b => exact onBits_is h ⟨_, rfl, (h b).flip hn⟩
  | and i a b => exact onBits_is h ⟨_, rfl, (h a).andAssign (h b)⟩
  | or i a b => exact onBits_is h ⟨_, rfl, (h a).orAssign (h b)⟩
  | xor i a b => exact onBits_is h ⟨_, rfl, (h a).xorAssign (h b)⟩
  | shl i src pos => exact onBits_is h ⟨_, rfl, (h src).shl hn pos⟩
  | shr i src pos => exact onBits_is h ⟨_, rfl, (h src).shr hn pos⟩

/-! ### Runs -/

/-- **Runs of bitset operations.**  Every bitset is its vector of booleans after any
operations, the bits behind the size are clear and no index is out of range, if and
only if the size plus 31 is a `size_t`. -/
theorem bitset_runs_iff (n : Nat) :
    (∀ ops : List (BitOp n), ∃ s, BitOp.execAll ops (fun _ => .zero) = .ok s ∧
      BitsAgree s (BitOp.applyAll ops fun _ _ => false)) ↔ n + 31 < 2 ^ 32 := by
  constructor
  · intro h
    by_contra hn
    -- the first bit behind the blocks that there are
    have hblocks : numBlocks n ≤ (2 ^ 32 - 1) / 32 :=
      Nat.div_le_div_right (Nat.le_sub_one_of_lt (Nat.mod_lt _ (by decide)))
    have hpos : 32 * numBlocks n < n := by omega
    obtain ⟨s, hexec, hagree⟩ := h [.set 0 ⟨32 * numBlocks n, hpos⟩ true]
    have herror : (Bitset.zero : Bitset n).set (32 * numBlocks n) true =
        .error (.assertFailed "index < _capacity") := dif_neg (by omega)
    unfold BitOp.execAll at hexec
    rw [List.foldlM_cons, BitOp.exec, BitOp.onBits, herror] at hexec
    cases hexec
  · intro hn ops
    have hinitial : ∀ i : Nat, ((fun _ => .zero : Nat → Bitset n) i).Is fun _ => false :=
      fun _ => Bitset.is_zero
    obtain ⟨s, hexec, his⟩ := Except.foldlM_tracks
      (R := fun (s : Nat → Bitset n) (r : Nat → Fin n → Bool) => ∀ i, (s i).Is (r i))
      (fun op h => BitOp.exec_is hn h op) hinitial ops
    exact ⟨s, hexec, Bitset.Is.agrees his hn⟩

/-- The largest `N` has no block at all, so its first bit cannot be set. -/
theorem bitset_largest_fails :
    BitOp.execAll [.set 0 ⟨0, by decide⟩ true] (fun _ => (Bitset.zero : Bitset (2 ^ 32 - 1))) =
      .error (.assertFailed "index < _capacity") := rfl

end Kernel
