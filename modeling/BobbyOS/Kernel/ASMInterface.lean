import BobbyOS.Lib.ByteMemory
import BobbyOS.Machine.Instruction

/-!
# The kernel's view of the machine

`RegisterContext` is the structure that `kernel_trap` fills and `run_process`
reads, the first member of every process control block.  The glue addresses it
by byte offsets, so its place in memory is part of the model.

`VMPackage::send` hands a request to the machine and gets a reply.  What the
machine answers may depend on everything it was asked before; `Tunnel` is one
such behaviour, and the requests so far are part of the kernel's state.
-/

namespace Kernel

open ByteMemory

abbrev Byte := Hardware.Byte
abbrev Word := Hardware.Word
abbrev Reg := Hardware.Reg

instance : LawfulBEq Word := inferInstance

namespace Register

/-- `enum Register`. -/
def ZERO : Reg := 0
def AT : Reg := 1
def V0 : Reg := 2
def V1 : Reg := 3
def A0 : Reg := 4
def A1 : Reg := 5
def A2 : Reg := 6
def A3 : Reg := 7
def T0 : Reg := 8
def T1 : Reg := 9
def T2 : Reg := 10
def T3 : Reg := 11
def T4 : Reg := 12
def T5 : Reg := 13
def T6 : Reg := 14
def T7 : Reg := 15
def S0 : Reg := 16
def S1 : Reg := 17
def S2 : Reg := 18
def S3 : Reg := 19
def S4 : Reg := 20
def S5 : Reg := 21
def S6 : Reg := 22
def S7 : Reg := 23
def T8 : Reg := 24
def T9 : Reg := 25
def K0 : Reg := 26
def K1 : Reg := 27
def GP : Reg := 28
def SP : Reg := 29
def FP : Reg := 30
def RA : Reg := 31

end Register

/-- `RegisterContext`: the general registers without `$zero`, HI, LO and the
three CP0 registers. -/
structure RegisterContext where
  regs : Fin 31 → Word := fun _ => 0
  hiRegister : Word := 0
  loRegister : Word := 0
  epc : Word := 0
  status : Word := 0
  cause : Word := 0

namespace RegisterContext

/-- `regs[reg - 1]`; `$zero` has no slot and is never asked for. -/
def accessRegister (ctx : RegisterContext) (reg : Reg) : Word :=
  ctx.regs (Fin.ofNat 31 (reg.val - 1))

/-- `accessRegister(reg) = v`. -/
def setRegister (ctx : RegisterContext) (reg : Reg) (v : Word) : RegisterContext :=
  { ctx with regs := Function.update ctx.regs (Fin.ofNat 31 (reg.val - 1)) v }

/-- The context stored at `p`. -/
def load (m : Mem) (p : Word) : RegisterContext where
  regs i := load32 m (p + BitVec.ofNat 32 (4 * i.val))
  hiRegister := load32 m (p + 124#32)
  loRegister := load32 m (p + 128#32)
  epc := load32 m (p + 132#32)
  status := load32 m (p + 136#32)
  cause := load32 m (p + 140#32)

end RegisterContext

/-- `enum ExceptionType`. -/
inductive ExceptionType
  | interrupt | tlbMod | tlbL | tlbS | addrL | addrS | syscall | break_ | ri | cpUnusable
  | overflow | trap | fpExc | watch
  | other (code : Byte)
  deriving DecidableEq, Repr

/-- `ExceptionType(cause >> 2)`, a cast to an unsigned character. -/
def ExceptionType.ofCause (cause : Word) : ExceptionType :=
  match ((cause >>> 2).setWidth 8).toNat with
  | 0 => interrupt
  | 1 => tlbMod
  | 2 => tlbL
  | 3 => tlbS
  | 4 => addrL
  | 5 => addrS
  | 8 => syscall
  | 9 => break_
  | 10 => ri
  | 11 => cpUnusable
  | 12 => overflow
  | 13 => trap
  | 15 => fpExc
  | 23 => watch
  | code => other (BitVec.ofNat 8 code)

/-- How kernel code ends when it does not return: an `assert`, a request to
halt, or an access through a null pointer or outside the memory. -/
inductive Panic
  | assertFailed (condition : String)
  | halt
  | nullPointer
  | outOfBounds
  deriving DecidableEq, Repr

/-- `assert(condition)`. -/
def kassert (condition : Bool) (text : String) : Except Panic Unit :=
  if condition then .ok () else .error (.assertFailed text)

/-- `VMPackage`: the requests the kernel makes, strings by content. -/
inductive VMRequest
  | halt
  | printString (s : List Byte)
  | printInteger (num : Word)
  | readInteger
  | fopen (path : List Byte) (flags : Word)
  | fread (fd nbytes : Word)
  | fseek (fd offset whence : Word)
  | fclose (fd : Word)
  | stdin (numBytes : Word)
  deriving DecidableEq, Repr

/-- `VMResponse`, with the bytes that go into the caller's buffer. -/
structure VMReply where
  res : Word := 0
  err : Word := 0
  data : List Byte := []

/-- The machine behind `VMTUNNEL`: a reply to the first of the requests, which
are listed from the last one back. -/
abbrev Tunnel := List VMRequest → VMReply

/-- `VMPackage::send`. -/
def Tunnel.send (vm : Tunnel) (log : List VMRequest) (req : VMRequest) :
    VMReply × List VMRequest :=
  (vm (req :: log), req :: log)

end Kernel
