import BobbyOS.Kernel.Trap

/-!
# The words of a TLB entry

The kernel and the hardware each pack an entry into two words, and three places take
words apart again: the hardware's constructor, `handleTrap` and `createProcess`.

* `construct_eq_hiLoPair`: both encoders make the same words.
* `Fits.decode`: the hardware reads back what fits into the words.
* `tlbWords_agree`: so all formats agree, for every page, frame, address space and
  flags.
-/

namespace Hardware.TLBEntry

variable {e : TLBEntry} {hi lo : Word}

/-! ### Bits -/

/-- A flag is the lowest bit of its word. -/
theorem getLsbD_wordOfBool (b : Bool) (i : Nat) :
    (wordOfBool b).getLsbD i = (decide (i = 0) && b) := by
  cases b with
  | false => simp [wordOfBool]
  | true => simp [wordOfBool, BitVec.getLsbD_one]

/-- A mask of one bit. -/
theorem mask_bit (x : Word) {k : Nat} (hk : k < 32) :
    (x &&& BitVec.twoPow 32 k != 0#32) = x.getLsbD k := by
  rw [BitVec.and_twoPow]
  cases x.getLsbD k with
  | false => rfl
  | true =>
      rw [if_pos rfl, bne_iff_ne]
      intro h
      have := congrArg (·.getLsbD k) h
      simp [hk] at this

/-- A flag shifted to its place. -/
theorem flag_bit (b : Bool) (i k : Nat) :
    (!decide (i < k) && (decide (i - k = 0) && b)) = (decide (i = k) && b) := by
  rcases Nat.lt_trichotomy i k with hlt | rfl | hlt
  · simp [hlt, Nat.ne_of_lt hlt]
  · simp
  · simp [Nat.ne_of_gt hlt, show i - k ≠ 0 by omega]

/-- The bits of the first word. -/
theorem hi_bit {i : Nat} (h : i < 32) :
    e.hiLoPair.1.getLsbD i =
      ((decide (12 ≤ i) && e.vpn.getLsbD (i - 12)) || (decide (i = 11) && e.global) ||
        e.asid.getLsbD i) := by
  unfold hiLoPair
  simp only [BitVec.getLsbD_or, BitVec.getLsbD_shiftLeft, BitVec.getLsbD_setWidth,
    getLsbD_wordOfBool, h, decide_true, Bool.true_and, flag_bit]
  rw [← decide_not, decide_eq_decide.mpr Nat.not_lt]

/-- The bits of the second word. -/
theorem lo_bit {i : Nat} (h : i < 32) :
    e.hiLoPair.2.getLsbD i =
      ((((decide (6 ≤ i) && e.pfn.getLsbD (i - 6)) ||
        (decide (3 ≤ i) && e.cc.getLsbD (i - 3))) || (decide (i = 2) && e.dirty)) ||
        (decide (i = 1) && e.valid)) := by
  unfold hiLoPair
  simp only [BitVec.getLsbD_or, BitVec.getLsbD_shiftLeft, BitVec.getLsbD_setWidth,
    getLsbD_wordOfBool, h, decide_true, Bool.true_and, flag_bit]
  rw [← decide_not, ← decide_not, decide_eq_decide.mpr Nat.not_lt,
    decide_eq_decide.mpr Nat.not_lt, decide_eq_true (show i - 3 < 32 by omega), Bool.true_and]

/-! ### Decoding -/

/-- The fields are not wider than their places in the words. -/
structure Fits (e : TLBEntry) : Prop where
  vpn : e.vpn.toNat < 2 ^ 20
  pfn : e.pfn.toNat < 2 ^ 26
  cc : e.cc.toNat < 2 ^ 3

/-- A small number has no high bits. -/
theorem getLsbD_of_lt {w k i : Nat} {x : BitVec w} (h : x.toNat < 2 ^ k) (hi : k ≤ i) :
    x.getLsbD i = false :=
  Nat.testBit_lt_two_pow (Nat.lt_of_lt_of_le h (Nat.pow_le_pow_right (by decide) hi))

/-- The page comes through the words. -/
theorem decode_vpn (h : e.vpn.toNat < 2 ^ 20) : (ofHiLo e.hiLoPair.1 lo).vpn = e.vpn := by
  refine BitVec.eq_of_getLsbD_eq fun i hi => ?_
  show (e.hiLoPair.1 >>> 12).getLsbD i = _
  rw [BitVec.getLsbD_ushiftRight]
  rcases Nat.lt_or_ge (12 + i) 32 with hlt | hge
  · rw [hi_bit hlt, BitVec.getLsbD_of_ge e.asid _ (by omega), Nat.add_sub_cancel_left]
    simp [show 12 + i ≠ 11 by omega]
  · rw [BitVec.getLsbD_of_ge _ _ hge, getLsbD_of_lt h (by omega)]

/-- The global flag does. -/
theorem decode_global : (ofHiLo e.hiLoPair.1 lo).global = e.global := by
  show (e.hiLoPair.1 &&& BitVec.twoPow 32 11 != 0#32) = _
  rw [mask_bit _ (by decide), hi_bit (by decide), BitVec.getLsbD_of_ge e.asid _ (by decide)]
  simp

/-- The identifier does. -/
theorem decode_asid : (ofHiLo e.hiLoPair.1 lo).asid = e.asid := by
  refine BitVec.eq_of_getLsbD_eq fun i hi => ?_
  show ((e.hiLoPair.1 &&& 0xFF#32).setWidth 8).getLsbD i = _
  rw [BitVec.setWidth_and, show (0xFF#32).setWidth 8 = BitVec.allOnes 8 by decide,
    BitVec.and_allOnes, BitVec.getLsbD_setWidth, hi_bit (by omega), decide_eq_true hi]
  simp [show ¬ 12 ≤ i by omega, show i ≠ 11 by omega]

/-- The frame does. -/
theorem decode_pfn (h : e.pfn.toNat < 2 ^ 26) (hcc : e.cc.toNat < 2 ^ 3) :
    (ofHiLo hi e.hiLoPair.2).pfn = e.pfn := by
  refine BitVec.eq_of_getLsbD_eq fun i hi => ?_
  show (e.hiLoPair.2 >>> 6).getLsbD i = _
  rw [BitVec.getLsbD_ushiftRight]
  rcases Nat.lt_or_ge (6 + i) 32 with hlt | hge
  · rw [lo_bit hlt, getLsbD_of_lt hcc (show 3 ≤ 6 + i - 3 by omega), Nat.add_sub_cancel_left]
    simp [show 6 + i ≠ 2 by omega, show 6 + i ≠ 1 by omega]
  · rw [BitVec.getLsbD_of_ge _ _ hge, getLsbD_of_lt h (by omega)]

/-- The cache code does. -/
theorem decode_cc (h : e.cc.toNat < 2 ^ 3) : (ofHiLo hi e.hiLoPair.2).cc = e.cc := by
  have hmask : ∀ j < 8, (0b111#32 : Word).getLsbD j = decide (j < 3) := by decide
  refine BitVec.eq_of_getLsbD_eq fun i hi => ?_
  show (((e.hiLoPair.2 >>> 3) &&& 0b111#32).setWidth 8).getLsbD i = _
  rw [BitVec.getLsbD_setWidth, BitVec.getLsbD_and, BitVec.getLsbD_ushiftRight,
    lo_bit (by omega), hmask i hi, decide_eq_true hi, Nat.add_sub_cancel_left]
  rcases Nat.lt_or_ge i 3 with hlt | hge
  · simp [hlt, show ¬ 6 ≤ 3 + i by omega, show 3 + i ≠ 2 by omega, show 3 + i ≠ 1 by omega]
  · simp [getLsbD_of_lt h hge, Nat.not_lt.mpr hge]

/-- The dirty flag does. -/
theorem decode_dirty : (ofHiLo hi e.hiLoPair.2).dirty = e.dirty := by
  show (e.hiLoPair.2 &&& BitVec.twoPow 32 2 != 0#32) = _
  rw [mask_bit _ (by decide), lo_bit (by decide)]
  simp

/-- The valid flag does. -/
theorem decode_valid : (ofHiLo hi e.hiLoPair.2).valid = e.valid := by
  show (e.hiLoPair.2 &&& BitVec.twoPow 32 1 != 0#32) = _
  rw [mask_bit _ (by decide), lo_bit (by decide)]
  simp

/-- **The hardware reads back** what it packs. -/
theorem Fits.decode (h : e.Fits) : ofHiLo e.hiLoPair.1 e.hiLoPair.2 = e := by
  have hsame : ∀ d : TLBEntry, d.vpn = e.vpn → d.pfn = e.pfn → d.global = e.global →
      d.dirty = e.dirty → d.valid = e.valid → d.asid = e.asid → d.cc = e.cc → d = e := by
    rintro ⟨⟩ rfl rfl rfl rfl rfl rfl rfl
    rfl
  exact hsame _ (decode_vpn h.vpn) (decode_pfn h.pfn h.cc) decode_global decode_dirty
    decode_valid decode_asid (decode_cc h.cc)

/-- What comes out of two words fits into two words. -/
theorem fits_ofHiLo (hi lo : Word) : (ofHiLo hi lo).Fits := by
  refine ⟨?_, ?_, ?_⟩
  · show (hi >>> 12).toNat < _
    have := hi.isLt
    rw [BitVec.toNat_ushiftRight, Nat.shiftRight_eq_div_pow]
    omega
  · show (lo >>> 6).toNat < _
    have := lo.isLt
    rw [BitVec.toNat_ushiftRight, Nat.shiftRight_eq_div_pow]
    omega
  · show (((lo >>> 3) &&& 0b111#32).setWidth 8).toNat < _
    rw [BitVec.toNat_setWidth, BitVec.toNat_and]
    exact Nat.lt_of_le_of_lt (Nat.mod_le _ _) (Nat.lt_of_le_of_lt Nat.and_le_right (by decide))

/-- Decoding and encoding the words once more. -/
def reencode (words : Word × Word) : Word × Word := (ofHiLo words.1 words.2).hiLoPair

/-- Words that were encoded again stay. -/
theorem reencode_idempotent (words : Word × Word) : reencode (reencode words) = reencode words := by
  unfold reencode
  rw [(fits_ofHiLo words.1 words.2).decode]

end Hardware.TLBEntry

namespace Kernel

namespace TLBEntry

/-- What the fields of the kernel's constructor stand for. -/
def fields (vpn pfn : Word) (asid flags : Byte) : Hardware.TLBEntry where
  vpn := vpn
  pfn := pfn
  global := flags &&& GLOBAL != 0
  dirty := flags &&& DIRTY != 0
  valid := flags &&& VALID != 0
  asid := asid
  cc := 0

/-- The kernel's first word is the machine's. -/
theorem construct_hi (vpn pfn : Word) (asid flags : Byte) :
    (construct vpn pfn asid flags).hi = (fields vpn pfn asid flags).hiLoPair.1 := rfl

/-- So is the second one. -/
theorem construct_lo (vpn pfn : Word) (asid flags : Byte) :
    (construct vpn pfn asid flags).lo = (fields vpn pfn asid flags).hiLoPair.2 := by
  have hcc : (pfn <<< 6) ||| ((0#8).setWidth 32 <<< 3) = pfn <<< 6 := BitVec.or_zero
  show (pfn <<< 6) ||| _ ||| _ = (pfn <<< 6) ||| ((0#8).setWidth 32 <<< 3) ||| _ ||| _
  rw [hcc]
  rfl

/-- **Both encoders** make the same words. -/
theorem construct_eq_hiLoPair (vpn pfn : Word) (asid flags : Byte) :
    ((construct vpn pfn asid flags).hi, (construct vpn pfn asid flags).lo) =
      (fields vpn pfn asid flags).hiLoPair :=
  Prod.ext (construct_hi vpn pfn asid flags) (construct_lo vpn pfn asid flags)

/-- Pages and frames of the kernel fit into their fields. -/
theorem fits_fields {vpn pfn : Word} (hvpn : vpn.toNat < 2 ^ 20) (hpfn : pfn.toNat < 2 ^ 26)
    (asid flags : Byte) : (fields vpn pfn asid flags).Fits :=
  ⟨hvpn, hpfn, show (0#8).toNat < 2 ^ 3 by decide⟩

end TLBEntry

/-! ### The frames -/

/-- `(lo >> 6) << 12`, in `handleTrap`. -/
def trapFrame (lo : Word) : Word := (lo >>> 6) <<< 12

/-- `(lo & ~uint32_t(0b111111)) << 6`, in `createProcess`. -/
def segmentFrame (lo : Word) : Word := (lo &&& ~~~0b111111#32) <<< 6

/-- The handler computes a frame from the second word. -/
theorem physicalAddress_eq (ref : GuardRef) (vaddr : Word) :
    physicalAddress ref vaddr = (do
      let entry ← translate ref vaddr
      pure (trapFrame entry.lo ||| (vaddr &&& 0xFFF#32))) := rfl

/-- The loader does, too. -/
theorem segmentAddr_eq (tlbe : TLBEntry) :
    segmentAddr tlbe = 0x80000000#32 + segmentFrame tlbe.lo := rfl

/-- **Both decoders** compute one frame, whatever the flags are. -/
theorem segmentFrame_eq (lo : Word) : segmentFrame lo = trapFrame lo := by
  have hmask : lo &&& ~~~0b111111#32 = (lo >>> 6) <<< 6 := by
    rw [BitVec.shiftLeft_ushiftRight]
    rfl
  rw [segmentFrame, hmask, ← BitVec.shiftLeft_add]
  rfl

/-- The frame's address, as a number. -/
theorem trapFrame_toNat {lo pfn : Word} (h : lo >>> 6 = pfn) (hpfn : pfn.toNat < 2 ^ 20) :
    (trapFrame lo).toNat = pfn.toNat * Hardware.pageSize := by
  rw [trapFrame, h, BitVec.toNat_shiftLeft, Nat.shiftLeft_eq, Nat.mod_eq_of_lt (by omega)]
  rfl

/-- **The formats agree.**  The words of the kernel's constructor give back its fields in
the hardware, the hardware packs them into the same words, decoding and encoding changes
words only once, and both places of the kernel that take a frame out of the low word get
the address of the frame. -/
theorem tlbWords_agree {vpn pfn : Word} (hvpn : vpn.toNat < 2 ^ 20) (hpfn : pfn.toNat < 2 ^ 20)
    (asid flags : Byte) :
    let words := TLBEntry.construct vpn pfn asid flags
    Hardware.TLBEntry.ofHiLo words.hi words.lo = TLBEntry.fields vpn pfn asid flags ∧
    (Hardware.TLBEntry.ofHiLo words.hi words.lo).hiLoPair = (words.hi, words.lo) ∧
    (∀ hiLo, Hardware.TLBEntry.reencode (Hardware.TLBEntry.reencode hiLo) =
      Hardware.TLBEntry.reencode hiLo) ∧
    (trapFrame words.lo).toNat = pfn.toNat * Hardware.pageSize ∧
    (segmentFrame words.lo).toNat = pfn.toNat * Hardware.pageSize := by
  intro words
  have hwords : (words.hi, words.lo) = (TLBEntry.fields vpn pfn asid flags).hiLoPair :=
    TLBEntry.construct_eq_hiLoPair vpn pfn asid flags
  have hdecode : Hardware.TLBEntry.ofHiLo words.hi words.lo =
      TLBEntry.fields vpn pfn asid flags := by
    rw [← (TLBEntry.fits_fields hvpn (by omega) asid flags).decode, ← hwords]
  have hframe : (trapFrame words.lo).toNat = pfn.toNat * Hardware.pageSize :=
    trapFrame_toNat (congrArg Hardware.TLBEntry.pfn hdecode) hpfn
  refine ⟨hdecode, ?_, Hardware.TLBEntry.reencode_idempotent, hframe, ?_⟩
  · rw [hdecode, ← hwords]
  · rw [segmentFrame_eq]
    exact hframe

/-- A valid, dirty page of the address space 3 in the frame 5. -/
theorem tlbWords_agree_dirty :
    Hardware.TLBEntry.ofHiLo (TLBEntry.construct 0x10000#32 5#32 3#8 6#8).hi
        (TLBEntry.construct 0x10000#32 5#32 3#8 6#8).lo =
      { vpn := 0x10000, pfn := 5, asid := 3, global := false, dirty := true, valid := true } :=
  (tlbWords_agree (by decide) (by decide) 3#8 6#8).1

end Kernel
