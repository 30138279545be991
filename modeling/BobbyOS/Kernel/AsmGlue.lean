import BobbyOS.Kernel.ASMInterface
import BobbyOS.Machine.Processors

/-!
# The assembly glue around a trap

`kernel_trap` saves the interrupted context on the kernel stack and calls
`handleTrap`; `run_process` restores the context of `currentThread` and leaves
through `eret`, or through `jr` when the trap interrupted the kernel itself.

The straight-line parts are lists of instructions over `Core`, the registers
and the memory as the kernel addresses it.  The hardware ends of the path come
from the machine: `raiseTrap` and the two exits are the machine's own, seen on
these registers.
-/

namespace Kernel

open ByteMemory Register

/-- The registers of the core, and the memory behind kernel addresses. -/
structure Core where
  registerFile : Reg → Word
  hi : Word
  lo : Word
  cp0 : Reg → Word
  programCounter : Word
  mem : Mem

namespace Core

/-- A write to a general register. -/
def setReg (c : Core) (r : Reg) (v : Word) : Core :=
  { c with registerFile := Function.update c.registerFile r v }

/-- A write to a system register. -/
def setCp0 (c : Core) (r : Reg) (v : Word) : Core :=
  { c with cp0 := Function.update c.cp0 r v }

/-- The memory behind a store. -/
def setMem (c : Core) (m : Mem) : Core := { c with mem := m }

/-- The registers of a machine, with a view of its memory. -/
def ofMachine (s : Hardware.Machine) (mem : Mem) : Core where
  registerFile := s.registerFile
  hi := s.hi
  lo := s.lo
  cp0 := s.cp0
  programCounter := s.programCounter
  mem := mem

end Core

/-- The instructions of the glue that fall through. -/
inductive Asm
  | la (rd : Reg) (symbol : Word)
  | lw (rt : Reg) (offset : Nat) (base : Reg)
  | sw (rt : Reg) (offset : Nat) (base : Reg)
  | lbu (rt : Reg) (offset : Nat) (base : Reg)
  | sb (rt : Reg) (offset : Nat) (base : Reg)
  | addiu (rt rs : Reg) (imm : Word)
  | ori (rt rs : Reg) (imm : Word)
  | move (rd rs : Reg)
  | mfhi (rd : Reg)
  | mflo (rd : Reg)
  | mthi (rs : Reg)
  | mtlo (rs : Reg)
  | mfc0 (rt rd : Reg)
  | mtc0 (rt rd : Reg)

/-- What one instruction does. -/
def Asm.run (i : Asm) (c : Core) : Core :=
  match i with
  | la rd symbol => c.setReg rd symbol
  | lw rt offset base =>
      c.setReg rt (load32 c.mem (c.registerFile base + BitVec.ofNat 32 offset))
  | sw rt offset base =>
      c.setMem
        (store32 c.mem (c.registerFile base + BitVec.ofNat 32 offset) (c.registerFile rt))
  | lbu rt offset base =>
      c.setReg rt ((c.mem (c.registerFile base + BitVec.ofNat 32 offset)).setWidth 32)
  | sb rt offset base =>
      c.setMem
        (Function.update c.mem (c.registerFile base + BitVec.ofNat 32 offset)
          ((c.registerFile rt).setWidth 8))
  | addiu rt rs imm => c.setReg rt (c.registerFile rs + imm)
  | ori rt rs imm => c.setReg rt (c.registerFile rs ||| imm)
  | move rd rs => c.setReg rd (c.registerFile rs)
  | mfhi rd => c.setReg rd c.hi
  | mflo rd => c.setReg rd c.lo
  | mthi rs => { c with hi := c.registerFile rs }
  | mtlo rs => { c with lo := c.registerFile rs }
  | mfc0 rt rd => c.setReg rt (c.cp0 rd)
  | mtc0 rt rd => c.setCp0 rd (c.registerFile rt)

/-- A straight-line piece of code. -/
def exec (code : List Asm) (c : Core) : Core := code.foldl (fun c i => i.run c) c

/-- The addresses of the variables that the glue names. -/
structure Symbols where
  exceptionDepth : Word
  topKstack : Word
  currentThread : Word

/-- `bgtz`. -/
def bgtz (v : Word) : Bool := 0 < v.toInt

/-- The registers that are saved and restored by name, at their offsets. -/
def generalRegisters : List (Reg × Nat) :=
  [(AT, 0), (V0, 4), (V1, 8), (A0, 12), (A1, 16), (A2, 20), (A3, 24),
   (T0, 28), (T1, 32), (T2, 36), (T3, 40), (T4, 44), (T5, 48), (T6, 52), (T7, 56),
   (S0, 60), (S1, 64), (S2, 68), (S3, 72), (S4, 76), (S5, 80), (S6, 84), (S7, 88),
   (T8, 92), (T9, 96)]

/-- `$k1` holds the old `$sp` when the registers are saved. -/
def savedRegisters : List (Reg × Nat) :=
  generalRegisters ++ [(GP, 108), (K1, 112), (FP, 116), (RA, 120)]

/-- `$sp` comes back from where `$k1` was saved. -/
def restoredRegisters : List (Reg × Nat) :=
  generalRegisters ++ [(GP, 108), (SP, 112), (FP, 116), (RA, 120)]

/-- `sw` of a table of registers. -/
def saves (table : List (Reg × Nat)) (base : Reg) : List Asm :=
  table.map fun (r, offset) => .sw r offset base

/-- `lw` of a table of registers. -/
def loads (table : List (Reg × Nat)) (base : Reg) : List Asm :=
  table.map fun (r, offset) => .lw r offset base

variable (sym : Symbols)

/-- The test of `kernel_trap` and the choice of the stack. -/
def chooseStack (c : Core) : Core :=
  let c := exec [.la K0 sym.exceptionDepth, .lbu K0 0 K0, .move K1 SP] c
  if bgtz (c.registerFile K0) then c
  else exec [.la K0 sym.topKstack, .lw SP 0 K0] c

/-- `kernel_trap` stores HI and LO, then EPC, STATUS and CAUSE. -/
def saveSpecial : List Asm :=
  [.mfhi T0, .mflo T1, .sw T0 124 SP, .sw T1 128 SP,
   .mfc0 T0 14, .mfc0 T1 12, .mfc0 T2 13, .sw T0 132 SP, .sw T1 136 SP, .sw T2 140 SP]

/-- `exceptionDepth += amount`. -/
def addDepth (amount : Word) : List Asm :=
  [.la T0 sym.exceptionDepth, .lbu T1 0 T0, .addiu T1 T1 amount, .sb T1 0 T0]

/-- `kernel_trap` up to its call of `handleTrap`. -/
def kernelTrap (c : Core) : Core :=
  exec ([.addiu SP SP (-144)] ++ saves savedRegisters SP ++ saveSpecial ++ addDepth sym 1 ++
    [.move K0 SP]) (chooseStack sym c)

/-- `kernel_trap` after `handleTrap` returned. -/
def kernelTrapReturn (c : Core) : Core :=
  exec ([.la A0 sym.currentThread, .lw A0 0 A0, .addiu SP SP 144] ++ addDepth sym (-1)) c

/-- The machine's `eret`, and the four that `Core::cycle` adds. -/
def eret (c : Core) : Core := { c with programCounter := c.cp0 14 + 4#32 }

/-- The machine's `jr`, and the four that `Core::cycle` adds. -/
def jr (rs : Reg) (c : Core) : Core :=
  { c with programCounter := c.registerFile rs - 4#32 + 4#32 }

/-- `run_process` restores EPC, STATUS and CAUSE, then HI and LO. -/
def restoreSpecial : List Asm :=
  [.lw T0 132 K0, .lw T1 136 K0, .lw T2 140 K0, .ori T1 T1 2,
   .mtc0 T0 14, .mtc0 T1 12, .mtc0 T2 13, .move K1 T0,
   .lw T0 124 K0, .lw T1 128 K0, .mthi T0, .mtlo T1]

/-- `run_process`. -/
def runProcess (c : Core) : Core :=
  let c := exec ([.move K0 A0] ++ restoreSpecial ++ loads restoredRegisters K0 ++
    [.la K0 sym.exceptionDepth, .lbu K0 0 K0]) c
  if bgtz (c.registerFile K0) then jr K1 c
  else eret (exec [.mfc0 K0 12, .ori K0 K0 1, .mtc0 K0 12] c)

end Kernel
