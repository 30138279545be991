import Mathlib.Logic.Function.Basic

/-!
# MIPS32 integer instructions

The part of the MIPS32 architecture that computes in the general registers and
in HI and LO, and the branches and jumps, read off the instruction word alone.
Registers are a function, an instruction is a name, its operands are fields of
the word.

* `Op.step`: what an arithmetic or logic instruction leaves in the registers;
* `Op.overflows`: when it raises Integer Overflow instead;
* `Transfer.target`, `Transfer.linkRegister`: where a branch or jump goes, without
  a delay slot, and where it leaves the address behind it.
-/

namespace Mips32

/-- The five-bit field of `w` that starts at bit `pos`. -/
def field (w : BitVec 32) (pos : Nat) : Fin 32 := (w.extractLsb' pos 5).toFin

/-- The field of the first source register. -/
def rs (w : BitVec 32) : Fin 32 := field w 21
/-- The field of the second source register. -/
def rt (w : BitVec 32) : Fin 32 := field w 16
/-- The field of the destination. -/
def rd (w : BitVec 32) : Fin 32 := field w 11
/-- The field of the shift amount. -/
def sa (w : BitVec 32) : Fin 32 := field w 6
/-- The major opcode. -/
def opcode (w : BitVec 32) : BitVec 6 := w.extractLsb' 26 6
/-- The function of a SPECIAL word. -/
def funct (w : BitVec 32) : BitVec 6 := w.extractLsb' 0 6
/-- The sixteen bits of an immediate. -/
def immediate (w : BitVec 32) : BitVec 16 := w.extractLsb' 0 16
/-- The index of a jump. -/
def instrIndex (w : BitVec 32) : BitVec 26 := w.extractLsb' 0 26

/-- The registers an integer instruction can name. -/
structure Registers where
  gpr : Fin 32 → BitVec 32
  hi : BitVec 32
  lo : BitVec 32

namespace Registers

/-- `$zero` keeps its value. -/
def write (s : Registers) (r : Fin 32) (v : BitVec 32) : Registers :=
  if r = 0 then s else { s with gpr := Function.update s.gpr r v }

/-- A 64-bit product in HI and LO. -/
def writeProduct (s : Registers) (v : BitVec 64) : Registers :=
  { s with hi := v.extractLsb' 32 32, lo := v.extractLsb' 0 32 }

/-- A write to another register than zero takes effect. -/
theorem write_of_ne {s : Registers} {r : Fin 32} {v : BitVec 32} (h : r ≠ 0) :
    s.write r v = { s with gpr := Function.update s.gpr r v } := if_neg h

end Registers

/-- Arithmetic, logic, shift, multiply and move instructions. -/
inductive Op
  | add | addu | sub | subu | and | or | xor | nor | slt | sltu | movn
  | sll | srl | sra | sllv | srlv | srav
  | mul | mult | multu | mfhi | mflo | mthi | mtlo
  | addi | addiu | andi | ori | xori | slti | sltiu | lui
  deriving DecidableEq, Repr

namespace Op

/-- The opcode and, where it selects the instruction, the function field. -/
def code : Op → BitVec 6 × Option (BitVec 6)
  | add => (0, some 0x20)
  | addu => (0, some 0x21)
  | sub => (0, some 0x22)
  | subu => (0, some 0x23)
  | and => (0, some 0x24)
  | or => (0, some 0x25)
  | xor => (0, some 0x26)
  | nor => (0, some 0x27)
  | slt => (0, some 0x2a)
  | sltu => (0, some 0x2b)
  | movn => (0, some 0x0b)
  | sll => (0, some 0x00)
  | srl => (0, some 0x02)
  | sra => (0, some 0x03)
  | sllv => (0, some 0x04)
  | srlv => (0, some 0x06)
  | srav => (0, some 0x07)
  | mul => (0x1c, some 0x02)
  | mult => (0, some 0x18)
  | multu => (0, some 0x19)
  | mfhi => (0, some 0x10)
  | mthi => (0, some 0x11)
  | mflo => (0, some 0x12)
  | mtlo => (0, some 0x13)
  | addi => (0x08, none)
  | addiu => (0x09, none)
  | slti => (0x0a, none)
  | sltiu => (0x0b, none)
  | andi => (0x0c, none)
  | ori => (0x0d, none)
  | xori => (0x0e, none)
  | lui => (0x0f, none)

/-- `w` is a word of the instruction. -/
def Encodes (op : Op) (w : BitVec 32) : Prop :=
  opcode w = op.code.1 ∧ (op.code.2 = none ∨ op.code.2 = some (funct w))

instance (op : Op) (w : BitVec 32) : Decidable (op.Encodes w) :=
  inferInstanceAs (Decidable (_ ∧ (_ ∨ _)))

/-- The general register that the instruction names as its destination. -/
def destination (op : Op) (w : BitVec 32) : Option (Fin 32) :=
  match op with
  | addi | addiu | andi | ori | xori | slti | sltiu | lui => some (rt w)
  | mult | multu | mthi | mtlo => none
  | _ => some (rd w)

/-- The instruction raises Integer Overflow. -/
def overflows (op : Op) (w : BitVec 32) (s : Registers) : Bool :=
  match op with
  | add => BitVec.saddOverflow (s.gpr (rs w)) (s.gpr (rt w))
  | sub => BitVec.ssubOverflow (s.gpr (rs w)) (s.gpr (rt w))
  | addi => BitVec.saddOverflow (s.gpr (rs w)) ((immediate w).signExtend 32)
  | _ => false

/-- The registers behind the instruction. -/
def step (op : Op) (w : BitVec 32) (s : Registers) : Registers :=
  let a := s.gpr (rs w)
  let b := s.gpr (rt w)
  let simm := (immediate w).signExtend 32
  let zimm := (immediate w).setWidth 32
  let amount := (sa w).val
  -- a variable shift looks at the low five bits of `rs`
  let low := a.toNat % 32
  match op with
  | add | addu => s.write (rd w) (a + b)
  | sub | subu => s.write (rd w) (a - b)
  | and => s.write (rd w) (a &&& b)
  | or => s.write (rd w) (a ||| b)
  | xor => s.write (rd w) (a ^^^ b)
  | nor => s.write (rd w) (~~~(a ||| b))
  | slt => s.write (rd w) (if a.slt b then 1 else 0)
  | sltu => s.write (rd w) (if a.ult b then 1 else 0)
  | movn => if b = 0 then s else s.write (rd w) a
  | sll => s.write (rd w) (b <<< amount)
  | srl => s.write (rd w) (b >>> amount)
  | sra => s.write (rd w) (b.sshiftRight amount)
  | sllv => s.write (rd w) (b <<< low)
  | srlv => s.write (rd w) (b >>> low)
  | srav => s.write (rd w) (b.sshiftRight low)
  | mul => s.write (rd w) (a * b)
  | mult => s.writeProduct (a.signExtend 64 * b.signExtend 64)
  | multu => s.writeProduct (a.setWidth 64 * b.setWidth 64)
  | mfhi => s.write (rd w) s.hi
  | mflo => s.write (rd w) s.lo
  | mthi => { s with hi := a }
  | mtlo => { s with lo := a }
  | addi | addiu => s.write (rt w) (a + simm)
  | andi => s.write (rt w) (a &&& zimm)
  | ori => s.write (rt w) (a ||| zimm)
  | xori => s.write (rt w) (a ^^^ zimm)
  | slti => s.write (rt w) (if a.slt simm then 1 else 0)
  | sltiu => s.write (rt w) (if a.ult simm then 1 else 0)
  | lui => s.write (rt w) (zimm <<< 16)

end Op

/-- Branches and jumps. -/
inductive Transfer
  | beq | bne | blez | bgtz | bltz | bgez | j | jal | jr | jalr
  deriving DecidableEq, Repr

namespace Transfer

/-- The fields that select the instruction. -/
def Encodes (t : Transfer) (w : BitVec 32) : Prop :=
  match t with
  | beq => opcode w = 0x04
  | bne => opcode w = 0x05
  | blez => opcode w = 0x06
  | bgtz => opcode w = 0x07
  | bltz => opcode w = 0x01 ∧ rt w = 0
  | bgez => opcode w = 0x01 ∧ rt w = 1
  | j => opcode w = 0x02
  | jal => opcode w = 0x03
  | jr => opcode w = 0 ∧ funct w = 0x08
  | jalr => opcode w = 0 ∧ funct w = 0x09

/-- Where a branch at `pc` goes when its condition is `taken`. -/
def branch (pc w : BitVec 32) (taken : Bool) : BitVec 32 :=
  if taken then pc + 4#32 + ((immediate w).signExtend 32 <<< 2) else pc + 4#32

/-- The address of the next instruction. -/
def target (t : Transfer) (pc w : BitVec 32) (gpr : Fin 32 → BitVec 32) : BitVec 32 :=
  let a := gpr (rs w)
  let b := gpr (rt w)
  match t with
  | beq => branch pc w (a == b)
  | bne => branch pc w (a != b)
  | blez => branch pc w (a.toInt ≤ 0)
  | bgtz => branch pc w (0 < a.toInt)
  | bltz => branch pc w (a.toInt < 0)
  | bgez => branch pc w (0 ≤ a.toInt)
  | j | jal => ((pc + 4#32) &&& 0xF0000000#32) ||| ((instrIndex w).setWidth 32 <<< 2)
  | jr | jalr => a

/-- The register that gets the address of the instruction behind this one. -/
def linkRegister (t : Transfer) (w : BitVec 32) : Option (Fin 32) :=
  match t with
  | jal => some 31
  | jalr => some (rd w)
  | _ => none

end Transfer

end Mips32
