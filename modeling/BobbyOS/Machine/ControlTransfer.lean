import BobbyOS.Machine.Confinement
import BobbyOS.Machine.IntegerInstructions

/-!
# Branches and jumps against MIPS32

A branch or jump leaves its target less four in the program counter, and the
cycle adds the four.  Compared with the architecture (without delay slots), for
every word, every program counter and every register file:

* `decode_transfer`, `run_transfer`: what the unit makes of the word and what
  running it does;
* `cycle_transfer`: the cycle that executes the word ends at `codeTarget`;
* `transfersAsMips32_iff`: that is the architecture's target except for J and JAL
  with the top bit of the target field set, since the decoder keeps 25 of its 26
  bits.
-/

namespace Hardware

open Mips32 (Transfer)

variable {fp : FpArith} {inp : HostInput} {t : Transfer} {w : Word} {s : Machine}

/-- `address` in `IntegerUnit::decode`. -/
def jumpAddress (w : Word) : Word := w &&& 0x1FFFFFF#32

/-- The object that `decode` makes at `pc` for a word of the branch or jump. -/
def transferOf (t : Transfer) (pc w : Word) : Instruction :=
  let rs := Mips32.rs w
  let rt := Mips32.rt w
  let imm := Mips32.immediate w
  match t with
  | .beq => .iBranch .branchOnEqual rt rs imm
  | .bne => .iBranch .branchOnNotEqual rt rs imm
  | .blez => .iBranchZero .branchOnLessThanOrEqualZero imm rs
  | .bgtz => .iBranchZero .branchOnGreaterThanZero imm rs
  | .bltz => .iBranchZero .branchOnLessThanZero imm rs
  | .bgez => .iBranchZero .branchOnGreaterThanOrEqualZero imm rs
  | .j => .jump (jumpTarget pc (jumpAddress w))
  | .jal => .jumpAndLink (jumpTarget pc (jumpAddress w)) Register.RA
  | .jr => .jumpRegister rs
  | .jalr => .jumpAndLinkRegister (Mips32.rd w) rs

/-- The word of a transfer is decoded as one. -/
theorem decode_transfer (pc : Word) (h : t.Encodes w) :
    IntegerUnit.decode pc w = .ok (transferOf t pc w) := by
  have hop := opcode_toNat w
  have hfn := funct_toNat w
  cases t with
  | beq | bne | blez | bgtz | j | jal =>
      rw [show Mips32.opcode w = _ from h] at hop
      simp only [BitVec.reduceToNat] at hop
      simp [IntegerUnit.decode, IntegerUnit.decodeIJType, hop, transferOf, regField_eq,
        immediate_eq, jumpAddress, Mips32.rs, Mips32.rt]
  | bltz | bgez =>
      rw [h.1] at hop
      simp only [BitVec.reduceToNat] at hop
      have hrt : regField w 16 = _ := (regField_eq w 16).trans h.2
      simp [IntegerUnit.decode, hop, hrt, transferOf, regField_eq, immediate_eq, Mips32.rs]
  | jr | jalr =>
      rw [h.1] at hop
      rw [h.2] at hfn
      simp only [BitVec.reduceToNat] at hop hfn
      simp [IntegerUnit.decode, IntegerUnit.decodeRType, hop, hfn, transferOf, regField_eq,
        Mips32.rs, Mips32.rd]

/-- Where the code goes: a jump has lost the top bit of its target field. -/
def codeTarget (t : Transfer) (pc w : Word) (gpr : Reg → Word) : Word :=
  match t with
  | .j | .jal => ((pc + 4#32) &&& 0xF0000000#32) ||| (jumpAddress w <<< 2)
  | _ => t.target pc w gpr

/-- The general registers behind a branch or jump at `pc`. -/
def linked (t : Transfer) (pc w : Word) (gpr : Reg → Word) : Reg → Word :=
  match t.linkRegister w with
  | some r => Function.update gpr r (pc + 4#32)
  | none => gpr

/-- Where a branch leads. -/
theorem branchBy_eq {taken : Bool} :
    branchBy s taken (Mips32.immediate w) =
      { s with programCounter := Transfer.branch s.programCounter w taken - 4#32 } := by
  cases taken with
  | false =>
      have hpc : s.programCounter + 4#32 - 4#32 = s.programCounter := BitVec.add_sub_cancel _ _
      change s = { s with programCounter := s.programCounter + 4#32 - 4#32 }
      rw [hpc]
  | true =>
      simp only [branchBy, Transfer.branch, if_true]
      congr 1
      bv_omega

/-- **Running.**  The target less four, and the link. -/
theorem run_transfer (fp : FpArith) (inp : HostInput) (s : Machine)
    (hlink : t = .jalr → Mips32.rd w ≠ Mips32.rs w) :
    (transferOf t s.programCounter w).run fp inp s =
      .next () { s with
        registerFile := linked t s.programCounter w s.registerFile,
        programCounter := codeTarget t s.programCounter w s.registerFile - 4#32 } := by
  cases t with
  | beq =>
      -- the class compares `rt` with `rs`
      rw [transferOf, Instruction.run, IBranchOp.taken, Bool.beq_comm]
      exact congrArg _ branchBy_eq
  | bne =>
      rw [transferOf, Instruction.run, IBranchOp.taken, bne_comm]
      exact congrArg _ branchBy_eq
  | blez | bgtz | bltz | bgez => exact congrArg _ branchBy_eq
  | j | jal | jr => rfl
  | jalr =>
      have hrs : Function.update s.registerFile (Mips32.rd w) (s.programCounter + 4#32)
          (Mips32.rs w) = s.registerFile (Mips32.rs w) :=
        Function.update_of_ne (Ne.symm (hlink rfl)) _ _
      simp only [transferOf, Instruction.run, Machine.setReg, hrs]
      rfl

/-! ### The cycle -/

/-- A word that is fetched is the instruction it decodes to. -/
theorem fetch_of_fetchesWord {i : Instruction} (hfetch : FetchesWord s w)
    (hdecode : IntegerUnit.decode s.programCounter w = .ok i) :
    ∃ cache, s.fetch = .next i { s with instructionCache := cache } := by
  unfold FetchesWord at hfetch
  cases hc : (s.instructionCache.index s.programCounter).1 with
  | some j =>
      simp only [hc] at hfetch
      rw [hdecode] at hfetch
      cases hfetch
      exact ⟨_, by simp only [Machine.fetch, hc]; rfl⟩
  | none =>
      simp only [hc] at hfetch
      rw [Machine.fetch_of_word hc hfetch]
      simp only [hdecode]
      exact ⟨_, rfl⟩

/-- The cycle ends with these general registers and goes on at `pc`, or is
interrupted with `pc` as the address to return to. -/
def Reaches (fp : FpArith) (inp : HostInput) (s : Machine) (gpr : Reg → Word) (pc : Word) :
    Prop :=
  ∃ s' trap, s.cycle fp inp = .ok (s', trap) ∧ s'.registerFile = gpr ∧
    ((trap = none ∧ s'.programCounter = pc) ∨
      (trap = some { exceptionCode := .interrupt } ∧ s'.programCounter = s.trapEntry ∧
        s'.cp0 SYSRegister.EPC = pc))

/-- A trap saves the program counter. -/
theorem raiseTrap_epc (s : Machine) (t : Trap) :
    (s.raiseTrap t).cp0 SYSRegister.EPC = s.programCounter := by
  rfl

/-- What an instruction that does not throw leaves for the next cycle. -/
theorem reaches_of_run {i : Instruction} {s1 s2 : Machine} (hf : s.fetch = .next i s1)
    (hr : i.run fp inp s1 = .next () s2) (hentry : s2.trapEntry = s.trapEntry) :
    Reaches fp inp s s2.registerFile (s2.programCounter + 4#32) := by
  unfold Reaches Machine.cycle
  simp only [hf, hr]
  split
  · exact ⟨_, _, rfl, rfl, .inr ⟨rfl, hentry, raiseTrap_epc _ _⟩⟩
  · exact ⟨_, _, rfl, rfl, .inl ⟨rfl, rfl⟩⟩

/-- A cycle goes on at one address. -/
theorem Reaches.unique {gpr gpr' : Reg → Word} {pc pc' : Word} (h : Reaches fp inp s gpr pc)
    (h' : Reaches fp inp s gpr' pc') : gpr = gpr' ∧ pc = pc' := by
  obtain ⟨s1, t1, hc, rfl, hpc⟩ := h
  obtain ⟨s2, t2, hc', rfl, hpc'⟩ := h'
  rw [hc] at hc'
  cases hc'
  refine ⟨rfl, ?_⟩
  rcases hpc with ⟨rfl, rfl⟩ | ⟨rfl, -, rfl⟩
  · rcases hpc' with ⟨-, h⟩ | ⟨h, -⟩
    · exact h
    · cases h
  · rcases hpc' with ⟨h, -⟩ | ⟨-, -, h⟩
    · cases h
    · exact h

/-- The cycle that executes a branch or jump. -/
theorem cycle_transfer (hfetch : FetchesWord s w) (hword : t.Encodes w)
    (hlink : t = .jalr → Mips32.rd w ≠ Mips32.rs w) :
    Reaches fp inp s (linked t s.programCounter w s.registerFile)
      (codeTarget t s.programCounter w s.registerFile) := by
  obtain ⟨cache, hf⟩ := fetch_of_fetchesWord hfetch (decode_transfer _ hword)
  have hreach := reaches_of_run hf
    (run_transfer fp inp { s with instructionCache := cache } hlink) rfl
  rwa [BitVec.sub_add_cancel] at hreach

/-! ### The target -/

/-- The code keeps the target of a jump when bit 25 of the field is clear. -/
theorem jumpAddress_eq_iff (high : Word) (w : Word) :
    ((high &&& 0xF0000000#32) ||| (jumpAddress w <<< 2)) =
        ((high &&& 0xF0000000#32) ||| ((Mips32.instrIndex w).setWidth 32 <<< 2)) ↔
      (Mips32.instrIndex w).msb = false := by
  constructor
  · intro h
    have hbit := congrArg (·.getLsbD 27) h
    simp [jumpAddress, Mips32.instrIndex, BitVec.msb_eq_getLsbD_last] at hbit ⊢
    exact hbit
  · intro h
    have hsame : jumpAddress w = (Mips32.instrIndex w).setWidth 32 := by
      apply BitVec.eq_of_toNat_eq
      have hand : w.toNat &&& 0x1FFFFFF = w.toNat % 2 ^ 25 := Nat.and_two_pow_sub_one_eq_mod _ 25
      have hmsb := BitVec.msb_eq_false_iff_two_mul_lt.mp h
      simp [jumpAddress, Mips32.instrIndex, hand] at hmsb ⊢
      omega
    rw [hsame]

/-- The word is a jump with the top bit of its target field set. -/
def FarJump (t : Transfer) (w : Word) : Prop :=
  (t = .j ∨ t = .jal) ∧ (Mips32.instrIndex w).msb = true

/-- The code jumps where it should unless the jump is a far one. -/
theorem codeTarget_eq_iff {pc : Word} {gpr : Reg → Word} :
    codeTarget t pc w gpr = t.target pc w gpr ↔ ¬ FarJump t w := by
  cases t with
  | j | jal =>
      refine (jumpAddress_eq_iff _ w).trans ?_
      simp [FarJump]
  | _ => simp [codeTarget, FarJump]

/-- The cycle goes on at the architecture's target, the link register holds the
address behind the instruction, and the other general registers are unchanged. -/
def TransfersAsMips32 (fp : FpArith) (inp : HostInput) (t : Transfer) (w : Word)
    (s : Machine) : Prop :=
  Reaches fp inp s (linked t s.programCounter w s.registerFile)
    (t.target s.programCounter w s.registerFile)

/-- **Branches and jumps.**  One cycle that executes a branch or jump, at any
program counter and with any registers, goes where MIPS32 goes, exactly when it
is not a jump whose target field has its top bit set. -/
theorem transfersAsMips32_iff (fp : FpArith) (inp : HostInput) {t : Transfer} {w : Word}
    {s : Machine} (hfetch : FetchesWord s w) (hword : t.Encodes w)
    (hlink : t = .jalr → Mips32.rd w ≠ Mips32.rs w) :
    TransfersAsMips32 fp inp t w s ↔ ¬ FarJump t w := by
  have hcode : Reaches fp inp s _ _ := cycle_transfer hfetch hword hlink
  have hiff : codeTarget t s.programCounter w s.registerFile =
      t.target s.programCounter w s.registerFile ↔ ¬ FarJump t w := codeTarget_eq_iff
  refine Iff.trans ⟨fun h => (hcode.unique h).2, fun h => ?_⟩ hiff
  rw [TransfersAsMips32, ← h]
  exact hcode

/-- `jal` to the fifth word of the same 256 MB. -/
theorem transfersAsMips32_iff_jal :
    TransfersAsMips32 ⟨fun _ a _ => a, fun _ a _ => a⟩ {} .jal 0x0C000004#32
      (wordMachine 0x0C 0 0 4) := by
  have hfetch : FetchesWord (wordMachine 0x0C 0 0 4) 0x0C000004#32 := show _ = _ from rfl
  have hword : Transfer.Encodes .jal 0x0C000004#32 := show _ = _ by decide
  refine (transfersAsMips32_iff _ _ hfetch hword (fun h => by cases h)).mpr ?_
  intro hfar
  exact absurd hfar.2 (by decide)

/-- `j 0x88000000` at 0x80000000 jumps to itself. -/
theorem far_jump_misses : ¬ ∀ (fp : FpArith) (inp : HostInput) (t : Transfer) (w : Word)
    (s : Machine), FetchesWord s w → t.Encodes w →
      (t = .jalr → Mips32.rd w ≠ Mips32.rs w) → TransfersAsMips32 fp inp t w s := by
  intro h
  have hfetch : FetchesWord (wordMachine 0x0A 0 0 0) 0x0A000000#32 := show _ = _ from rfl
  have hword : Transfer.Encodes .j 0x0A000000#32 := show _ = _ by decide
  have hlink : Transfer.j = .jalr → Mips32.rd 0x0A000000#32 ≠ Mips32.rs 0x0A000000#32 := by
    intro h
    cases h
  have hclaim := h ⟨fun _ a _ => a, fun _ a _ => a⟩ {} .j 0x0A000000#32
    (wordMachine 0x0A 0 0 0) hfetch hword hlink
  have htarget := (Reaches.unique (cycle_transfer hfetch hword hlink) hclaim).2
  exact codeTarget_eq_iff.mp htarget ⟨.inl rfl, by decide⟩

end Hardware
