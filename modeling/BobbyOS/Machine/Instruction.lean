import Mathlib.Algebra.GroupWithZero.Nat
import BobbyOS.Machine.Memory

/-!
# Decoding

A decoded instruction is an object that holds references to the registers it
names and the values captured when it was decoded (immediates, shift amounts,
jump targets).  Here a reference to a register is its number.  The classes of
the source are grouped as its class hierarchy groups them: all subclasses of
`RVariableInstruction` are one constructor with the subclass as a tag.

`IntegerUnit.decode`, `SystemControlUnit.decode` and `FloatingPointUnit.decode`
follow the three `decode` functions.  A word that no case covers raises RI; a
floating-point word can also fail one of two host assertions.
-/

namespace Hardware

/-- A register number: every field that selects a register has five bits. -/
abbrev Reg := Fin 32

/-- Register numbers are written as literals. -/
instance neZero_registers : NeZero 32 := ⟨by decide⟩

/-- The five-bit field of `w` that starts at bit `pos`. -/
def regField (w : Word) (pos : Nat) : Reg := ⟨(w >>> pos).toNat % 32, Nat.mod_lt _ (by decide)⟩

namespace Register
def ZERO : Reg := 0
def V0 : Reg := 2
def A0 : Reg := 4
def RA : Reg := 31
end Register

namespace SYSRegister
def INDEX : Reg := 0
def RANDOM : Reg := 1
def ENTRYLO0 : Reg := 2
def BAD_VADDR : Reg := 8
def ENTRYHI : Reg := 10
def STATUS : Reg := 12
def CAUSE : Reg := 13
def EPC : Reg := 14
end SYSRegister

/-- Subclasses of `RVariableInstruction`: `op rd, rt, rs`. -/
inductive RVariableOp
  | add | addUnsigned | and | nor | or | xor | setLessThan | setLessThanUnsigned
  | subtract | subtractUnsigned | shiftLeftLogicalVariable | shiftRightLogicalVariable
  | shiftRightArithmeticVariable | moveOnNotZero | multiplyToGPR
  deriving DecidableEq, Repr

/-- Subclasses of `RShiftInstruction`: `op rd, rt, shamt`. -/
inductive RShiftOp
  | shiftLeftLogical | shiftRightLogical | shiftRightArithmetic
  deriving DecidableEq, Repr

/-- Subclasses of `HLMoveInstruction`. -/
inductive HLMoveOp
  | moveFromHi | moveFromLo | moveToHi | moveToLo
  deriving DecidableEq, Repr

/-- Subclasses of `HLOpInstruction`. -/
inductive HLOp
  | multiply | multiplyUnsigned | divide | divideUnsigned
  deriving DecidableEq, Repr

/-- Subclasses of `IGenericInstruction` that the decoder builds: `op rt, rs, imm`. -/
inductive IGenericOp
  | addImmediate | addImmediateUnsigned | andImmediate | orImmediate | xorImmediate
  | setLessThanImmediate | setLessThanImmediateUnsigned
  deriving DecidableEq, Repr

/-- Subclasses of `IMemoryInstruction` and of `FPSingleMemoryInstruction`: every
load and store the decoder builds. -/
inductive IMemoryOp
  | loadByte | loadByteUnsigned | loadHalfword | loadHalfwordUnsigned | loadWord
  | storeByte | storeHalfword | storeWord | loadFPSingle | storeFPSingle
  deriving DecidableEq, Repr

/-- Subclasses of `IBranchInstruction`. -/
inductive IBranchOp
  | branchOnEqual | branchOnNotEqual
  deriving DecidableEq, Repr

/-- Subclasses of `IBranchZeroInstruction`. -/
inductive IBranchZeroOp
  | branchOnGreaterThanOrEqualZero | branchOnGreaterThanZero
  | branchOnLessThanOrEqualZero | branchOnLessThanZero
  deriving DecidableEq, Repr

/-- Subclasses of `FRInstruction`. -/
inductive FROp
  | fpAdd | fpDivide | fpMultiply | fpSubtract
  deriving DecidableEq, Repr

/-- A decoded instruction. -/
inductive Instruction
  | rVariable (op : RVariableOp) (rd rt rs : Reg)
  | rShift (op : RShiftOp) (rd rt : Reg) (shamt : Nat)
  | hlMove (op : HLMoveOp) (storageRegister : Reg)
  | hlOp (op : HLOp) (rs rt : Reg)
  | iGeneric (op : IGenericOp) (rt rs : Reg) (imm : HalfWord)
  | iMemory (op : IMemoryOp) (rt rs : Reg) (imm : HalfWord)
  | iBranch (op : IBranchOp) (rt rs : Reg) (imm : HalfWord)
  | iBranchZero (op : IBranchZeroOp) (imm : HalfWord) (rs : Reg)
  | loadUpperImmediate (rt : Reg) (imm : HalfWord)
  | jump (target : Word)
  | jumpAndLink (target : Word) (ra : Reg)
  | jumpRegister (ra : Reg)
  | jumpAndLinkRegister (rd rs : Reg)
  | syscall
  | sync
  | trapIfEqual (rs rt : Reg)
  | frSingle (op : FROp) (ft fs fd : Reg)
  | frDouble (op : FROp) (ft fs fd : Reg)
  | moveToCoprocessor0 (rt rd : Reg)
  | moveFromCoprocessor0 (rt rd : Reg)
  | exceptionReturn
  | tlbProbe
  | tlbReadIndexed
  | tlbWriteIndexed
  | tlbWriteRandom
  | performCacheOp
  | vmTunnel
  deriving DecidableEq, Repr

/-- `throw Trap(Trap::RI)`. -/
def raiseRI {α : Type} : Except Fault α := .error (.trap { exceptionCode := .ri })

/-- `FR_INIT`: the format must be single or double, and a double names an even
register three times. -/
def decodeFR (op : FROp) (fmt : Nat) (ft fs fd : Reg) : Except Fault Instruction := do
  hostAssert (fmt == 0x11 || fmt == 0x10) "fmt == D || fmt == S"
  if fmt = 0x10 then .ok (.frSingle op ft fs fd)
  else do
    hostAssert (ft.val % 2 == 0) "!(reg & 1)"
    hostAssert (fs.val % 2 == 0) "!(reg & 1)"
    hostAssert (fd.val % 2 == 0) "!(reg & 1)"
    .ok (.frDouble op ft fs fd)

/-- `FloatingPointUnit::decode`. -/
def FloatingPointUnit.decode (w : Word) : Except Fault Instruction :=
  let fmt := (regField w 21).val
  let ft := regField w 16
  let fs := regField w 11
  let fd := regField w 6
  match w.toNat % 64 with
  | 0 => decodeFR .fpAdd fmt ft fs fd
  | 3 => decodeFR .fpDivide fmt ft fs fd
  | 2 => decodeFR .fpMultiply fmt ft fs fd
  | 1 => decodeFR .fpSubtract fmt ft fs fd
  | _ => raiseRI

/-- The second half of `SystemControlUnit::decode`: the two register moves. -/
def SystemControlUnit.decodeMove (w : Word) : Except Fault Instruction :=
  let rs := (regField w 21).val
  if rs = 0 then .ok (.moveFromCoprocessor0 (regField w 16) (regField w 11))
  else if rs = 4 then .ok (.moveToCoprocessor0 (regField w 16) (regField w 11))
  else raiseRI

/-- `SystemControlUnit::decode`. -/
def SystemControlUnit.decode (w : Word) : Except Fault Instruction :=
  if (regField w 21).val = 0x10 then
    match w.toNat % 64 with
    | 0x18 => .ok .exceptionReturn
    | 1 => .ok .tlbReadIndexed
    | 2 => .ok .tlbWriteIndexed
    | 0b110 => .ok .tlbWriteRandom
    | 8 => .ok .tlbProbe
    | _ => decodeMove w
  else decodeMove w

/-- `Jump` and `JumpAndLink` compute their target from the program counter at
which they are decoded, less the four that the cycle adds afterwards. -/
def jumpTarget (pc : Word) (target : Word) : Word :=
  (((pc + 4#32) &&& 0xF0000000#32) ||| (target <<< 2)) - 4#32

/-- The R-type part of `IntegerUnit::decode`. -/
def IntegerUnit.decodeRType (w : Word) : Except Fault Instruction :=
  let rs := regField w 21
  let rt := regField w 16
  let rd := regField w 11
  let shamt := (regField w 6).val
  match w.toNat % 64 with
  | 0x21 => .ok (.rVariable .addUnsigned rd rt rs)
  | 0x24 => .ok (.rVariable .and rd rt rs)
  | 0x27 => .ok (.rVariable .nor rd rt rs)
  | 0x25 => .ok (.rVariable .or rd rt rs)
  | 0x2a => .ok (.rVariable .setLessThan rd rt rs)
  | 0x2b => .ok (.rVariable .setLessThanUnsigned rd rt rs)
  | 0xb => .ok (.rVariable .moveOnNotZero rd rt rs)
  | 0x0 => .ok (.rShift .shiftLeftLogical rd rt shamt)
  | 0x2 => .ok (.rShift .shiftRightLogical rd rt shamt)
  | 0x3 => .ok (.rShift .shiftRightArithmetic rd rt shamt)
  | 0x4 => .ok (.rVariable .shiftLeftLogicalVariable rd rt rs)
  | 0x6 => .ok (.rVariable .shiftRightLogicalVariable rd rt rs)
  | 0x7 => .ok (.rVariable .shiftRightArithmeticVariable rd rt rs)
  | 0x23 => .ok (.rVariable .subtractUnsigned rd rt rs)
  | 0x26 => .ok (.rVariable .xor rd rt rs)
  | 0x18 => .ok (.hlOp .multiply rs rt)
  | 0x1a => .ok (.hlOp .divide rs rt)
  | 0x19 => .ok (.hlOp .multiplyUnsigned rs rt)
  | 0x1b => .ok (.hlOp .divideUnsigned rs rt)
  | 0x10 => .ok (.hlMove .moveFromHi rd)
  | 0x12 => .ok (.hlMove .moveFromLo rd)
  | 0x11 => .ok (.hlMove .moveToHi rs)
  | 0x13 => .ok (.hlMove .moveToLo rs)
  | 0x20 => .ok (.rVariable .add rd rt rs)
  | 0x22 => .ok (.rVariable .subtract rd rt rs)
  | 0xc => .ok .syscall
  | 0xf => .ok .sync
  | 0x34 => .ok (.trapIfEqual rs rt)
  | 0x3f => .ok .vmTunnel
  | 0x8 => .ok (.jumpRegister rs)
  | 0x9 => .ok (.jumpAndLinkRegister rd rs)
  | _ => raiseRI

/-- The I- and J-type part of `IntegerUnit::decode`. -/
def IntegerUnit.decodeIJType (pc : Word) (w : Word) : Except Fault Instruction :=
  let rs := regField w 21
  let rt := regField w 16
  let immediate := w.setWidth 16
  let address := w &&& 0x1FFFFFF#32
  match (w >>> 26).toNat with
  | 0x9 => .ok (.iGeneric .addImmediateUnsigned rt rs immediate)
  | 0xc => .ok (.iGeneric .andImmediate rt rs immediate)
  | 0xa => .ok (.iGeneric .setLessThanImmediate rt rs immediate)
  | 0xe => .ok (.iGeneric .xorImmediate rt rs immediate)
  | 0xb => .ok (.iGeneric .setLessThanImmediateUnsigned rt rs immediate)
  | 0xd => .ok (.iGeneric .orImmediate rt rs immediate)
  | 0x23 => .ok (.iMemory .loadWord rt rs immediate)
  | 0x2b => .ok (.iMemory .storeWord rt rs immediate)
  | 0x28 => .ok (.iMemory .storeByte rt rs immediate)
  | 0x24 => .ok (.iMemory .loadByteUnsigned rt rs immediate)
  | 0x20 => .ok (.iMemory .loadByte rt rs immediate)
  | 0x25 => .ok (.iMemory .loadHalfwordUnsigned rt rs immediate)
  | 0x21 => .ok (.iMemory .loadHalfword rt rs immediate)
  | 0x29 => .ok (.iMemory .storeHalfword rt rs immediate)
  | 0x4 => .ok (.iBranch .branchOnEqual rt rs immediate)
  | 0x5 => .ok (.iBranch .branchOnNotEqual rt rs immediate)
  | 0x31 => .ok (.iMemory .loadFPSingle rt rs immediate)
  | 0x39 => .ok (.iMemory .storeFPSingle rt rs immediate)
  | 0x7 => .ok (.iBranchZero .branchOnGreaterThanZero immediate rs)
  | 0x6 => .ok (.iBranchZero .branchOnLessThanOrEqualZero immediate rs)
  | 0x8 => .ok (.iGeneric .addImmediate rt rs immediate)
  | 0x2 => .ok (.jump (jumpTarget pc address))
  | 0x3 => .ok (.jumpAndLink (jumpTarget pc address) Register.RA)
  | 0xf => .ok (.loadUpperImmediate rt immediate)
  | 0b101111 => .ok .performCacheOp
  | _ => raiseRI

/-- `IntegerUnit::decode`, for a word fetched at `pc`. -/
def IntegerUnit.decode (pc : Word) (w : Word) : Except Fault Instruction :=
  let opcode := (w >>> 26).toNat
  if opcode = 0x11 then FloatingPointUnit.decode w
  else if opcode = 0x10 then SystemControlUnit.decode w
  else if opcode = 0x1 then
    match (regField w 16).val with
    | 1 => .ok (.iBranchZero .branchOnGreaterThanOrEqualZero (w.setWidth 16) (regField w 21))
    | 0 => .ok (.iBranchZero .branchOnLessThanZero (w.setWidth 16) (regField w 21))
    | _ => raiseRI
  else if opcode = 0x1c then
    match w.toNat % 64 with
    | 2 => .ok (.rVariable .multiplyToGPR (regField w 11) (regField w 16) (regField w 21))
    | _ => raiseRI
  else if opcode = 0 then decodeRType w
  else decodeIJType pc w

end Hardware
