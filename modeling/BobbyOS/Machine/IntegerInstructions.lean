import BobbyOS.Lib.Mips32
import BobbyOS.Machine.PreciseTraps

/-!
# The integer instructions against MIPS32

`IntegerUnit::decode` picks the class of an instruction and `run` computes; here
both are compared with the architecture, for every word of the thirty-two
instructions that work on the general registers and on HI and LO alone.

* `decode_op`: the word of an instruction decodes to the class of that name, with
  the operands in the fields where the architecture has them;
* `run_op_iff`: running it gives the architecture's registers, exactly when
  `AsMips32` holds;
* `computesMips32_iff`: the two together.

Six instructions differ from the architecture for some operands: ADD and SUB
write `rt` in place of `rd`, the three variable shifts hand the whole of `rs` to
the host's shift, and SLTIU extends its immediate with zeros.
-/

namespace Hardware

open Mips32 (Op Registers)

variable {fp : FpArith} {inp : HostInput} {op : Op} {w : Word} {s : Machine}

/-- The registers that integer instructions work on. -/
def Machine.registers (s : Machine) : Registers := ⟨s.registerFile, s.hi, s.lo⟩

/-- The machine with other registers and everything else as it was. -/
def Machine.withRegisters (s : Machine) (r : Registers) : Machine :=
  { s with registerFile := r.gpr, hi := r.hi, lo := r.lo }

/-- A write to another register than zero. -/
theorem Machine.setReg_eq {r : Reg} {v : Word} (h : r ≠ 0) :
    s.setReg r v = s.withRegisters (s.registers.write r v) := by
  rw [Registers.write_of_ne h]
  rfl

/-! ### Decoding -/

/-- The register fields of the decoder are those of the architecture. -/
theorem regField_eq (w : Word) (pos : Nat) : regField w pos = Mips32.field w pos := by
  apply Fin.ext
  simp [regField, Mips32.field, BitVec.toNat_ushiftRight]

/-- So is the opcode. -/
theorem opcode_toNat (w : Word) : (w >>> 26).toNat = (Mips32.opcode w).toNat := by
  simp only [Mips32.opcode, BitVec.extractLsb'_toNat, BitVec.toNat_ushiftRight]
  have := w.isLt
  omega

/-- So is the function. -/
theorem funct_toNat (w : Word) : w.toNat % 64 = (Mips32.funct w).toNat := by
  simp [Mips32.funct, BitVec.extractLsb'_toNat]

/-- So is the immediate. -/
theorem immediate_eq (w : Word) : w.setWidth 16 = Mips32.immediate w := by
  apply BitVec.eq_of_toNat_eq
  simp [Mips32.immediate]

/-- The object that `decode` makes for a word of the instruction. -/
def instructionOf (op : Op) (w : Word) : Instruction :=
  let rs := Mips32.rs w
  let rt := Mips32.rt w
  let rd := Mips32.rd w
  let shamt := (Mips32.sa w).val
  let imm := Mips32.immediate w
  match op with
  | .add => .rVariable .add rd rt rs
  | .addu => .rVariable .addUnsigned rd rt rs
  | .sub => .rVariable .subtract rd rt rs
  | .subu => .rVariable .subtractUnsigned rd rt rs
  | .and => .rVariable .and rd rt rs
  | .or => .rVariable .or rd rt rs
  | .xor => .rVariable .xor rd rt rs
  | .nor => .rVariable .nor rd rt rs
  | .slt => .rVariable .setLessThan rd rt rs
  | .sltu => .rVariable .setLessThanUnsigned rd rt rs
  | .movn => .rVariable .moveOnNotZero rd rt rs
  | .sll => .rShift .shiftLeftLogical rd rt shamt
  | .srl => .rShift .shiftRightLogical rd rt shamt
  | .sra => .rShift .shiftRightArithmetic rd rt shamt
  | .sllv => .rVariable .shiftLeftLogicalVariable rd rt rs
  | .srlv => .rVariable .shiftRightLogicalVariable rd rt rs
  | .srav => .rVariable .shiftRightArithmeticVariable rd rt rs
  | .mul => .rVariable .multiplyToGPR rd rt rs
  | .mult => .hlOp .multiply rs rt
  | .multu => .hlOp .multiplyUnsigned rs rt
  | .mfhi => .hlMove .moveFromHi rd
  | .mflo => .hlMove .moveFromLo rd
  | .mthi => .hlMove .moveToHi rs
  | .mtlo => .hlMove .moveToLo rs
  | .addi => .iGeneric .addImmediate rt rs imm
  | .addiu => .iGeneric .addImmediateUnsigned rt rs imm
  | .andi => .iGeneric .andImmediate rt rs imm
  | .ori => .iGeneric .orImmediate rt rs imm
  | .xori => .iGeneric .xorImmediate rt rs imm
  | .slti => .iGeneric .setLessThanImmediate rt rs imm
  | .sltiu => .iGeneric .setLessThanImmediateUnsigned rt rs imm
  | .lui => .loadUpperImmediate rt imm

/-- **Decoding.**  Every word of an instruction, whatever its other fields hold. -/
theorem decode_op (pc : Word) (h : op.Encodes w) :
    IntegerUnit.decode pc w = .ok (instructionOf op w) := by
  obtain ⟨hopcode, hfunct⟩ := h
  have hop := opcode_toNat w
  have hfn := funct_toNat w
  rw [hopcode] at hop
  cases op with
  | addi | addiu | andi | ori | xori | slti | sltiu | lui =>
      simp only [Op.code, BitVec.reduceToNat] at hop
      simp [IntegerUnit.decode, IntegerUnit.decodeIJType, hop, instructionOf, regField_eq,
        immediate_eq, Mips32.rs, Mips32.rt]
  | _ =>
      replace hfunct := Option.some.inj (hfunct.resolve_left (Option.some_ne_none _))
      rw [← hfunct] at hfn
      simp only [Op.code, BitVec.reduceToNat] at hop hfn
      simp [IntegerUnit.decode, IntegerUnit.decodeRType, hop, hfn, instructionOf, regField_eq,
        Mips32.rs, Mips32.rt, Mips32.rd, Mips32.sa]

/-! ### Running -/

/-- Writing `v` to either of two registers comes to the same. -/
def SameWrite (gpr : Reg → Word) (r r' : Reg) (v : Word) : Prop :=
  r = r' ∨ (gpr r = v ∧ gpr r' = v)

/-- The operands with which the code computes what the architecture says.  For
ADD and SUB: an overflow, or the code's destination `rt` serves as well as `rd`.
For the variable shifts: an amount below 32.  For SLTIU: the two extensions of
the immediate lie on the same side of `rs`. -/
def AsMips32 (op : Op) (w : Word) (r : Registers) : Prop :=
  let a := r.gpr (Mips32.rs w)
  let b := r.gpr (Mips32.rt w)
  let imm := Mips32.immediate w
  match op with
  | .add =>
      BitVec.saddOverflow a b = true ∨ SameWrite r.gpr (Mips32.rt w) (Mips32.rd w) (a + b)
  | .sub =>
      BitVec.ssubOverflow a b = true ∨ SameWrite r.gpr (Mips32.rt w) (Mips32.rd w) (a - b)
  | .sllv | .srlv | .srav => a.toNat < 32
  | .sltiu => ¬ (imm.msb = true ∧ imm.setWidth 32 ≤ a ∧ a < imm.signExtend 32)
  | _ => True

/-- Run from `s`, the instruction raises an overflow trap, or it leaves the
registers of the architecture and changes nothing else in the machine. -/
def RunsAs (fp : FpArith) (inp : HostInput) (op : Op) (w : Word) (i : Instruction)
    (s : Machine) : Prop :=
  (∃ s', i.run fp inp s = .raise { exceptionCode := .overflow } s') ∨
    i.run fp inp s = .next () (s.withRegisters (op.step w s.registers))

/-- Two writes are the same exactly if their registers and values are, or neither changes
anything. -/
theorem update_eq_iff {gpr : Reg → Word} {r r' : Reg} {v : Word} :
    Function.update gpr r v = Function.update gpr r' v ↔ SameWrite gpr r r' v := by
  constructor
  · intro h
    by_cases hr : r = r'
    · exact .inl hr
    · have h1 := congrFun h r
      have h2 := congrFun h r'
      rw [Function.update_self, Function.update_of_ne hr] at h1
      rw [Function.update_self, Function.update_of_ne (Ne.symm hr)] at h2
      exact .inr ⟨h1.symm, h2⟩
  · rintro (rfl | ⟨h1, h2⟩)
    · rfl
    · rw [← h1, Function.update_eq_self, h1, ← h2, Function.update_eq_self]

/-- Two writes to one register are the same exactly if their values are. -/
theorem update_eq_iff_value {gpr : Reg → Word} {r : Reg} {v v' : Word} :
    Function.update gpr r v = Function.update gpr r v' ↔ v = v' :=
  ⟨fun h => by simpa using congrFun h r, fun h => by rw [h]⟩

/-- A write of the code is the architecture's exactly if the registers are the same behind
it. -/
theorem setReg_eq_withRegisters_iff {r r' : Reg} {v v' : Word} (h : r' ≠ 0) :
    s.setReg r v = s.withRegisters (s.registers.write r' v') ↔
      Function.update s.registerFile r v = Function.update s.registerFile r' v' := by
  rw [Registers.write_of_ne h]
  constructor
  · intro heq
    exact congrArg Machine.registerFile heq
  · intro heq
    simp only [Machine.setReg, Machine.withRegisters, Machine.registers, heq]

/-- A trap on overflow, and otherwise a write of `v` to `r`. -/
theorem overflow_iff {c : Bool} {r r' : Reg} {v : Word} (h : r' ≠ 0) :
    ((∃ s', (if c = true then Outcome.raise { exceptionCode := .overflow } (s.setReg r v)
        else .next () (s.setReg r v)) = .raise { exceptionCode := .overflow } s') ∨
      (if c = true then Outcome.raise { exceptionCode := .overflow } (s.setReg r v)
        else .next () (s.setReg r v)) =
          .next () (s.withRegisters (s.registers.write r' v))) ↔
      c = true ∨ SameWrite s.registerFile r r' v := by
  cases c with
  | true => simp
  | false => simp [setReg_eq_withRegisters_iff h, update_eq_iff]

/-- A shift that the host defines for amounts below 32 only. -/
theorem shift_iff {a : Word} {r : Reg} {v v' : Word} (h : r ≠ 0) (hv : a.toNat < 32 → v = v') :
    ((∃ s', (if a.toNat < 32 then Outcome.next () (s.setReg r v)
        else .abort .undefinedShift) = .raise { exceptionCode := .overflow } s') ∨
      (if a.toNat < 32 then Outcome.next () (s.setReg r v) else .abort .undefinedShift) =
        .next () (s.withRegisters (s.registers.write r v'))) ↔ a.toNat < 32 := by
  by_cases ha : a.toNat < 32
  · simp [ha, hv ha, Machine.setReg_eq h]
  · simp [ha]

/-- Comparing with the one or the other extension of an immediate. -/
theorem ult_extend_iff {a : Word} {imm : HalfWord} :
    a.ult (imm.setWidth 32) = a.ult (imm.signExtend 32) ↔
      ¬ (imm.msb = true ∧ imm.setWidth 32 ≤ a ∧ a < imm.signExtend 32) := by
  cases hmsb : imm.msb with
  | false => simp [BitVec.signExtend_eq_setWidth_of_msb_false hmsb]
  | true =>
      have hsign : (imm.signExtend 32).toNat = imm.toNat + 0xFFFF0000 := by
        rw [BitVec.toNat_signExtend, hmsb, BitVec.toNat_setWidth, if_pos rfl]
        have := imm.isLt
        omega
      have hzero : (imm.setWidth 32).toNat = imm.toNat := by
        rw [BitVec.toNat_setWidth]
        have := imm.isLt
        omega
      rw [BitVec.ult, BitVec.ult, decide_eq_decide, BitVec.le_def, BitVec.lt_def, hsign, hzero]
      simp only [true_and]
      omega

/-- An instruction that goes on runs as the architecture says. -/
theorem RunsAs.of_next {i : Instruction} {t : Machine} (hrun : i.run fp inp s = .next () t)
    (ht : t = s.withRegisters (op.step w s.registers)) : RunsAs fp inp op w i s :=
  .inr (hrun.trans (congrArg _ ht))

/-- A run that goes on is not one that traps. -/
theorem next_iff {t t' : Machine} :
    ((∃ s', Outcome.next () t = .raise { exceptionCode := .overflow } s') ∨
      Outcome.next () t = .next () t') ↔ t = t' := by
  simp

/-- A truth value is read off its word. -/
theorem wordOfBool_inj {b c : Bool} : wordOfBool b = wordOfBool c ↔ b = c := by
  cases b <;> cases c <;> decide

/-- A conditional move, as the architecture writes it. -/
theorem moveOnNotZero_eq {b v : Word} {r : Reg} (h : r ≠ 0) :
    (if b ≠ 0 then s.setReg r v else s) =
      s.withRegisters (if b = 0 then s.registers else s.registers.write r v) := by
  by_cases hb : b = 0
  · rw [if_neg (not_not.mpr hb), if_pos hb]
    rfl
  · rw [if_pos hb, if_neg hb]
    exact Machine.setReg_eq h

/-- The low word of a sign extension is the word. -/
theorem setWidth_signExtend (a : Word) : (a.signExtend 64).setWidth 32 = a := by
  apply BitVec.eq_of_toNat_eq
  rw [BitVec.toNat_setWidth, BitVec.toNat_signExtend, BitVec.toNat_setWidth]
  have := a.isLt
  split <;> omega

/-- The two halves of a product. -/
theorem writeProduct_eq {v : BitVec 64} :
    { s with lo := v.setWidth 32, hi := (v >>> 32).setWidth 32 } =
      s.withRegisters (s.registers.writeProduct v) := by
  have hlo : v.setWidth 32 = v.extractLsb' 0 32 := by
    apply BitVec.eq_of_toNat_eq
    simp
  have hhi : (v >>> 32).setWidth 32 = v.extractLsb' 32 32 := by
    apply BitVec.eq_of_toNat_eq
    simp
  rw [hlo, hhi]
  rfl

/-- **Running.**  The class that decoding picks does what the architecture says
exactly for the operands of `AsMips32`. -/
theorem run_op_iff (hdest : op.destination w ≠ some 0) :
    RunsAs fp inp op w (instructionOf op w) s ↔ AsMips32 op w s.registers := by
  have hrd : op.destination w = some (Mips32.rd w) → Mips32.rd w ≠ 0 := by
    intro h h0
    exact hdest (h.trans (congrArg some h0))
  have hrt : op.destination w = some (Mips32.rt w) → Mips32.rt w ≠ 0 := by
    intro h h0
    exact hdest (h.trans (congrArg some h0))
  cases op with
  | add | sub => exact overflow_iff (hrd rfl)
  | sllv | srlv | srav =>
      apply shift_iff (hrd rfl)
      intro hlt
      have hmod : (s.registerFile (Mips32.rs w)).toNat % 32 =
          (s.registerFile (Mips32.rs w)).toNat := Nat.mod_eq_of_lt hlt
      simp only [Machine.registers, hmod]
  | addi => exact iff_of_true ((overflow_iff (hrt rfl)).mpr (.inr (.inl rfl))) trivial
  | sltiu =>
      refine next_iff.trans ((setReg_eq_withRegisters_iff (hrt rfl)).trans ?_)
      rw [update_eq_iff_value]
      exact (wordOfBool_inj.trans ult_extend_iff)
  | movn => exact iff_of_true (.of_next rfl (moveOnNotZero_eq (hrd rfl))) trivial
  | mult | multu =>
      refine iff_of_true (.of_next rfl ?_) trivial
      exact writeProduct_eq
  | mthi | mtlo => exact iff_of_true (.inr rfl) trivial
  | mul =>
      refine iff_of_true (.of_next rfl ?_) trivial
      rw [BitVec.setWidth_mul _ _ (by decide), setWidth_signExtend, setWidth_signExtend]
      exact Machine.setReg_eq (hrd rfl)
  | addiu | andi | ori | xori | slti | lui =>
      exact iff_of_true (.of_next rfl (Machine.setReg_eq (hrt rfl))) trivial
  | _ => exact iff_of_true (.of_next rfl (Machine.setReg_eq (hrd rfl))) trivial

/-- Decoding the word and running the instruction, with no overflow trap raised,
is the architecture's step. -/
def ComputesMips32 (fp : FpArith) (inp : HostInput) (op : Op) (w : Word) (s : Machine) : Prop :=
  ∃ i, IntegerUnit.decode s.programCounter w = .ok i ∧ RunsAs fp inp op w i s

/-- **Integer instructions.**  For every word of the thirty-two instructions and
every register file: decoding and running it puts the MIPS32 result into the
MIPS32 destination and changes nothing else, exactly for the operands of
`AsMips32`. -/
theorem computesMips32_iff (fp : FpArith) (inp : HostInput) {op : Op} {w : Word} (s : Machine)
    (hword : op.Encodes w) (hdest : op.destination w ≠ some 0) :
    ComputesMips32 fp inp op w s ↔ AsMips32 op w s.registers := by
  constructor
  · rintro ⟨i, hdecode, hrun⟩
    rw [decode_op _ hword] at hdecode
    cases hdecode
    exact (run_op_iff hdest).mp hrun
  · intro h
    exact ⟨_, decode_op _ hword, (run_op_iff hdest).mpr h⟩

/-- `sltiu $1, $2, 5` with 3 in `$2`. -/
theorem computesMips32_iff_sltiu :
    ComputesMips32 ⟨fun _ a _ => a, fun _ a _ => a⟩ {} .sltiu 0x2C410005#32
      ((wordMachine 0 0 0 0).setReg 2 3#32) :=
  (computesMips32_iff _ _ _ (by decide) (by decide)).mpr
    (show ¬ (_ ∧ _ ∧ _) from by decide +kernel)

/-- `add $1, $2, $3` leaves its sum in `$3`. -/
theorem add_writes_rt : ¬ ∀ (fp : FpArith) (inp : HostInput) (op : Op) (w : Word) (s : Machine),
    op.Encodes w → op.destination w ≠ some 0 → ComputesMips32 fp inp op w s := by
  intro h
  have hword : Op.add.Encodes 0x00430820#32 := by decide
  obtain ⟨i, hdecode, hrun⟩ := h ⟨fun _ a _ => a, fun _ a _ => a⟩ {} .add 0x00430820#32
    ((wordMachine 0 0 0 0).setReg 2 1#32) hword (by decide)
  rw [decode_op _ hword] at hdecode
  cases hdecode
  rcases (run_op_iff (by decide)).mp hrun with hoverflow | hsame | ⟨hrt, -⟩
  · exact absurd hoverflow (by decide +kernel)
  · exact absurd hsame (by decide)
  · exact absurd hrt (by decide +kernel)

end Hardware
