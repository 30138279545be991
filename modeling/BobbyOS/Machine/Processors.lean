import BobbyOS.Machine.FileSystem
import BobbyOS.Machine.Instruction
import BobbyOS.Machine.LRUCache

/-!
# The machine and its cycle

`Machine` gathers the state that `Core`, its three units, the memory and the
devices hold.  `Instruction.run` is the virtual `run` of every class, and
`Machine.cycle` is `Core::cycle`: fetch through the instruction cache, run, add
four to the program counter, poll the interrupt line, and turn a thrown trap
into a jump to the trap entry.

A run that traps keeps what it wrote before the `throw`, so an outcome carries
the state in both cases.  Floating-point arithmetic is a parameter: nothing
here depends on what the operations compute.
-/

namespace Hardware

/-- The host's floating-point operations on bit patterns. -/
structure FpArith where
  single : FROp → Word → Word → Word
  double : FROp → BitVec 64 → BitVec 64 → BitVec 64

/-- Something printed: through the stdio device, or straight to `std::cout`. -/
inductive Output
  | write (bytes : List Byte)
  | printInteger (num : Word)
  deriving DecidableEq, Repr

/-- `LRUCache<Word, std::unique_ptr<Instruction>, 32 * 1024>`: a null pointer is
an entry made by a fetch that did not finish. -/
abbrev InstructionCache := LRUCache Word (Option Instruction) (32 * 1024)

/-- `Machine` with its core: the registers of the three units, the TLB, the caches, the
memory and the devices, and next to them what was sent to and taken from the host. -/
structure Machine where
  programCounter : Word
  tlb : TLB
  /-- `iu.registerFile` -/
  registerFile : Reg → Word
  hi : Word
  lo : Word
  /-- `fpu.registerFile` -/
  fpRegisterFile : Reg → Word
  /-- `scu.registerFile`, the CP0 registers -/
  cp0 : Reg → Word
  instructionCache : InstructionCache
  memory : Memory
  fileSystem : FileSystem
  host : Host
  output : List Output
  /-- What has been taken from the host's input, out of `std::cin` and out of the stdio
  device. -/
  input : List Byte
  trapEntry : Word
  killed : Bool

namespace Machine

/-- A write to a general register. -/
def setReg (s : Machine) (r : Reg) (v : Word) : Machine :=
  { s with registerFile := Function.update s.registerFile r v }

/-- A write to a system register. -/
def setCp0 (s : Machine) (r : Reg) (v : Word) : Machine :=
  { s with cp0 := Function.update s.cp0 r v }

/-- A write to a floating-point register. -/
def setFp (s : Machine) (r : Reg) (v : Word) : Machine :=
  { s with fpRegisterFile := Function.update s.fpRegisterFile r v }

/-- `checkEXL`: the machine is in privileged mode. -/
def exl (s : Machine) : Bool := (s.cp0 SYSRegister.STATUS &&& 0b10#32) != 0

/-- The interrupt enable bit. -/
def ie (s : Machine) : Bool := (s.cp0 SYSRegister.STATUS &&& 1#32) != 0

/-- `asidReg & 0xFF`, where `asidReg` is ENTRYHI. -/
def asid (s : Machine) : Byte := (s.cp0 SYSRegister.ENTRYHI &&& 0xFF#32).setWidth 8

end Machine

/-- The end of a piece of an instruction: a value, a thrown trap, or the end of
the host process. -/
inductive Outcome (α : Type)
  | next (a : α) (s : Machine)
  | raise (t : Trap) (s : Machine)
  | abort (f : Fault)

/-- Continue after an accessor; a trap it throws leaves the state as it is. -/
def Outcome.ofAccess {α β : Type} (s : Machine) (r : Except Fault α) (k : α → Outcome β) :
    Outcome β :=
  match r with
  | .ok a => k a
  | .error (.trap t) => .raise t s
  | .error f => .abort f

namespace Machine

/-- `EXL_CHECK` and the rest of a privileged instruction. -/
def privileged (s : Machine) (k : Outcome Unit) : Outcome Unit :=
  if s.exl then k else .raise { exceptionCode := .ri } s

/-- A byte, as the core loads it. -/
def getByte (s : Machine) (addr : Word) : Except Fault Byte :=
  s.memory.getByte addr s.tlb s.asid

/-- A word, as the core loads it. -/
def getWord (s : Machine) (addr : Word) : Except Fault Word :=
  s.memory.getWord addr s.tlb s.asid

/-- Store through one of the setters and continue. -/
def store {β : Type} (s : Machine) (r : Except Fault Memory) (k : Machine → Outcome β) :
    Outcome β :=
  Outcome.ofAccess s r fun m => k { s with memory := m }

/-- `for (i = 0; i < bytes.size(); ++i) setByte(addr + i, bytes[i])`. -/
def storeBytes {β : Type} (s : Machine) (addr : Word) :
    List Byte → (Machine → Outcome β) → Outcome β
  | [], k => k s
  | b :: rest, k =>
      s.store (s.memory.setByte addr b s.tlb s.asid) fun s => s.storeBytes (addr + 1#32) rest k

/-- The bytes from `addr` up to a NUL.  The loop ends within `2 ^ 32` reads or
grows its string until the host runs out of memory. -/
def readCString (s : Machine) (addr : Word) : Nat → Except Fault (List Byte)
  | 0 => .error (.hostException "std::bad_alloc")
  | fuel + 1 => do
      let b ← s.getByte addr
      if b = 0 then .ok []
      else do
        let rest ← s.readCString (addr + 1#32) fuel
        .ok (b :: rest)

/-- The tail of `VMTunnel::run`: write the response. -/
def respond (s : Machine) (resAddr res err : Word) : Outcome Unit :=
  s.store (s.memory.setWord resAddr res s.tlb s.asid) fun s =>
    s.store (s.memory.setWord (resAddr + 4#32) err s.tlb s.asid) fun s => .next () s

/-- Requests 7 and 8 of `VMTunnel::run`; FWRITE falls through into FSEEK. -/
def fseek (s : Machine) (inp : HostInput) (resAddr arg0 arg1 arg2 : Word) : Outcome Unit :=
  Outcome.ofAccess s (s.fileSystem.deref arg0) fun file =>
    let (res, file, host) := file.seek arg1 arg2 inp s.host
    let s := { s with fileSystem := s.fileSystem.store arg0 file, host := host }
    s.respond resAddr res file.err

/-- The `switch` of `VMTunnel::run`. -/
def vmRequest (s : Machine) (inp : HostInput) (resAddr req arg0 arg1 arg2 : Word) :
    Outcome Unit :=
  match req.toNat with
  | 1 => { s with killed := true }.respond resAddr 0 0
  | 2 =>
      Outcome.ofAccess s (s.readCString arg0 (2 ^ 32)) fun out =>
        { s with output := s.output ++ [Output.write out] }.respond resAddr 0 0
  | 3 => { s with output := s.output ++ [Output.printInteger arg0] }.respond resAddr 0 0
  | 4 => { s with input := s.input ++ inp.cinTaken }.respond resAddr inp.cin 0
  | 5 =>
      Outcome.ofAccess s (s.readCString arg0 (2 ^ 32)) fun filePath =>
        Outcome.ofAccess s (s.fileSystem.openPath filePath arg1 inp s.host)
          fun (res, fileSystem, host) =>
            { s with fileSystem := fileSystem, host := host }.respond resAddr res 0
  | 6 =>
      Outcome.ofAccess s (s.fileSystem.deref arg0) fun file =>
        Outcome.ofAccess s (file.read arg2 inp s.host) fun (bytes, file, host) =>
          let s := { s with fileSystem := s.fileSystem.store arg0 file, host := host }
          s.storeBytes arg1 bytes fun s => s.respond resAddr (BitVec.ofNat 32 bytes.length) 0
  | 7 => s.fseek inp resAddr arg0 arg1 arg2
  | 8 => s.fseek inp resAddr arg0 arg1 arg2
  | 9 =>
      Outcome.ofAccess s (s.fileSystem.close arg0 s.host) fun (_, fileSystem, host) =>
        { s with fileSystem := fileSystem, host := host }.respond resAddr 0 0
  | 10 =>
      match inp.stdin with
      -- `read` returned -1: the copy loop runs past the end of `buf`
      | none => .abort (.outOfBounds arg1.toNat)
      | some bytes =>
          let bytes := bytes.take arg1.toNat
          let s := { s with input := s.input ++ bytes }
          s.storeBytes arg0 bytes fun s => s.respond resAddr (BitVec.ofNat 32 bytes.length) 0
  | _ => s.respond resAddr 0 0

/-- `VMTunnel::run`. -/
def vmTunnel (s : Machine) (inp : HostInput) : Outcome Unit :=
  s.privileged <|
    let reqAddr := s.registerFile Register.A0
    let resAddr := s.registerFile Register.V0
    Outcome.ofAccess s (s.getWord reqAddr) fun req =>
      Outcome.ofAccess s (s.getWord (reqAddr + 4#32)) fun arg0 =>
        Outcome.ofAccess s (s.getWord (reqAddr + 8#32)) fun arg1 =>
          Outcome.ofAccess s (s.getWord (reqAddr + 12#32)) fun arg2 =>
            s.vmRequest inp resAddr req arg0 arg1 arg2

end Machine

/-- `TLBProbe::run`: the first entry for the page and address space of ENTRYHI,
valid or not, or `0x80000000`. -/
def TLB.probe (tlb : TLB) (entryHi : Word) : Word :=
  let fakeEntry := TLBEntry.ofHiLo entryHi 0
  match (List.finRange tlbEntries).find? fun i =>
      (tlb i).vpn == fakeEntry.vpn && ((tlb i).global || (tlb i).asid == fakeEntry.asid) with
  | some i => BitVec.ofNat 32 i.val
  | none => 0x80000000#32

/-- `TLBReadIndexed::run`. -/
def Machine.tlbRead (s : Machine) : Outcome Unit :=
  let index := (s.cp0 SYSRegister.INDEX).toNat
  if h : index < tlbEntries then
    let (hi, lo) := (s.tlb ⟨index, h⟩).hiLoPair
    .next () ((s.setCp0 SYSRegister.ENTRYHI hi).setCp0 SYSRegister.ENTRYLO0 lo)
  else .abort (.assertFailed "indexRegister < TLB_ENTRIES")

/-- `TLBWriteIndexed::run` on the index register it was built with. -/
def Machine.tlbWrite (s : Machine) (indexRegister : Reg) (k : Machine → Outcome Unit) :
    Outcome Unit :=
  let index := (s.cp0 indexRegister).toNat
  let entry := TLBEntry.ofHiLo (s.cp0 SYSRegister.ENTRYHI) (s.cp0 SYSRegister.ENTRYLO0)
  if h : index < tlbEntries then k { s with tlb := Function.update s.tlb ⟨index, h⟩ entry }
  else .abort (.assertFailed "indexRegister < TLB_ENTRIES")

/-- `Word(rs) + int(imm)`. -/
def effectiveAddress (base : Word) (imm : HalfWord) : Word := base + imm.signExtend 32

/-- `pc += int(imm) << 2` when the branch is taken. -/
def branchBy (s : Machine) (taken : Bool) (imm : HalfWord) : Machine :=
  if taken then
    { s with programCounter := s.programCounter + (imm.signExtend 32 <<< 2) }
  else s

/-- `run` of the `RVariableInstruction` classes. -/
def RVariableOp.run (op : RVariableOp) (rd rt rs : Reg) (s : Machine) : Outcome Unit :=
  let a := s.registerFile rs
  let b := s.registerFile rt
  match op with
  -- the overflow builtins write `rt`, also when they report an overflow
  | add =>
      let s := s.setReg rt (a + b)
      if BitVec.saddOverflow a b then .raise { exceptionCode := .overflow } s else .next () s
  | subtract =>
      let s := s.setReg rt (a - b)
      if BitVec.ssubOverflow a b then .raise { exceptionCode := .overflow } s else .next () s
  | addUnsigned => .next () (s.setReg rd (a + b))
  | and => .next () (s.setReg rd (a &&& b))
  | nor => .next () (s.setReg rd (~~~(a ||| b)))
  | or => .next () (s.setReg rd (a ||| b))
  | xor => .next () (s.setReg rd (a ^^^ b))
  | setLessThan => .next () (s.setReg rd (wordOfBool (a.slt b)))
  | setLessThanUnsigned => .next () (s.setReg rd (wordOfBool (a.ult b)))
  | subtractUnsigned => .next () (s.setReg rd (a - b))
  -- a host shift by 32 or more is undefined
  | shiftLeftLogicalVariable =>
      if a.toNat < 32 then .next () (s.setReg rd (b <<< a.toNat)) else .abort .undefinedShift
  | shiftRightLogicalVariable =>
      if a.toNat < 32 then .next () (s.setReg rd (b >>> a.toNat)) else .abort .undefinedShift
  | shiftRightArithmeticVariable =>
      if a.toNat < 32 then .next () (s.setReg rd (b.sshiftRight a.toNat))
      else .abort .undefinedShift
  | moveOnNotZero => .next () (if b ≠ 0 then s.setReg rd a else s)
  | multiplyToGPR =>
      .next () (s.setReg rd ((a.signExtend 64 * b.signExtend 64).setWidth 32))

/-- `run` of the `RShiftInstruction` classes. -/
def RShiftOp.run (op : RShiftOp) (rd rt : Reg) (shamt : Nat) (s : Machine) : Machine :=
  let b := s.registerFile rt
  match op with
  | shiftLeftLogical => s.setReg rd (b <<< shamt)
  | shiftRightLogical => s.setReg rd (b >>> shamt)
  | shiftRightArithmetic => s.setReg rd (b.sshiftRight shamt)

/-- `run` of the `HLMoveInstruction` classes. -/
def HLMoveOp.run (op : HLMoveOp) (r : Reg) (s : Machine) : Machine :=
  match op with
  | moveFromHi => s.setReg r s.hi
  | moveFromLo => s.setReg r s.lo
  | moveToHi => { s with hi := s.registerFile r }
  | moveToLo => { s with lo := s.registerFile r }

/-- `run` of the `HLOpInstruction` classes; the native division faults on a zero
divisor and on the one quotient that does not fit. -/
def HLOp.run (op : HLOp) (rs rt : Reg) (s : Machine) : Outcome Unit :=
  let a := s.registerFile rs
  let b := s.registerFile rt
  match op with
  | multiply =>
      let res := a.signExtend 64 * b.signExtend 64
      .next () { s with lo := res.setWidth 32, hi := (res >>> 32).setWidth 32 }
  | multiplyUnsigned =>
      let res := a.setWidth 64 * b.setWidth 64
      .next () { s with lo := res.setWidth 32, hi := (res >>> 32).setWidth 32 }
  | divide =>
      if b = 0 ∨ (a = 0x80000000#32 ∧ b = 0xFFFFFFFF#32) then .abort .divideError
      else .next () { s with hi := a.srem b, lo := a.sdiv b }
  | divideUnsigned =>
      if b = 0 then .abort .divideError
      else .next () { s with hi := a % b, lo := a / b }

/-- `run` of the `IGenericInstruction` classes. -/
def IGenericOp.run (op : IGenericOp) (rt rs : Reg) (imm : HalfWord) (s : Machine) :
    Outcome Unit :=
  let a := s.registerFile rs
  match op with
  | addImmediate =>
      let b := imm.signExtend 32
      let s := s.setReg rt (a + b)
      if BitVec.saddOverflow a b then .raise { exceptionCode := .overflow } s else .next () s
  | addImmediateUnsigned => .next () (s.setReg rt (a + imm.signExtend 32))
  | andImmediate => .next () (s.setReg rt (a &&& imm.setWidth 32))
  | orImmediate => .next () (s.setReg rt (a ||| imm.setWidth 32))
  | xorImmediate => .next () (s.setReg rt (a ^^^ imm.setWidth 32))
  | setLessThanImmediate => .next () (s.setReg rt (wordOfBool (a.slt (imm.signExtend 32))))
  | setLessThanImmediateUnsigned =>
      .next () (s.setReg rt (wordOfBool (a.ult (imm.setWidth 32))))

/-- `run` of the loads and stores. -/
def IMemoryOp.run (op : IMemoryOp) (rt rs : Reg) (imm : HalfWord) (s : Machine) :
    Outcome Unit :=
  let addr := effectiveAddress (s.registerFile rs) imm
  let v := s.registerFile rt
  match op with
  | loadByte =>
      Outcome.ofAccess s (s.memory.getByte addr s.tlb s.asid) fun b =>
        .next () (s.setReg rt (b.signExtend 32))
  | loadByteUnsigned =>
      Outcome.ofAccess s (s.memory.getByte addr s.tlb s.asid) fun b =>
        .next () (s.setReg rt (b.setWidth 32))
  | loadHalfword =>
      Outcome.ofAccess s (s.memory.getHalfWord addr s.tlb s.asid) fun h =>
        .next () (s.setReg rt (h.signExtend 32))
  | loadHalfwordUnsigned =>
      Outcome.ofAccess s (s.memory.getHalfWord addr s.tlb s.asid) fun h =>
        .next () (s.setReg rt (h.setWidth 32))
  | loadWord =>
      Outcome.ofAccess s (s.memory.getWord addr s.tlb s.asid) fun w =>
        .next () (s.setReg rt w)
  | loadFPSingle =>
      Outcome.ofAccess s (s.memory.getWord addr s.tlb s.asid) fun w =>
        .next () (s.setFp rt w)
  | storeByte =>
      s.store (s.memory.setByte addr (v.setWidth 8) s.tlb s.asid) fun s => .next () s
  | storeHalfword =>
      s.store (s.memory.setHalfWord addr (v.setWidth 16) s.tlb s.asid) fun s => .next () s
  | storeWord => s.store (s.memory.setWord addr v s.tlb s.asid) fun s => .next () s
  | storeFPSingle =>
      s.store (s.memory.setWord addr (s.fpRegisterFile rt) s.tlb s.asid) fun s => .next () s

/-- The condition of the two-register branches. -/
def IBranchOp.taken (op : IBranchOp) (a b : Word) : Bool :=
  match op with
  | branchOnEqual => a == b
  | branchOnNotEqual => a != b

/-- The condition of the branches that compare with zero. -/
def IBranchZeroOp.taken (op : IBranchZeroOp) (a : Word) : Bool :=
  match op with
  | branchOnGreaterThanOrEqualZero => 0 ≤ a.toInt
  | branchOnGreaterThanZero => 0 < a.toInt
  | branchOnLessThanOrEqualZero => a.toInt ≤ 0
  | branchOnLessThanZero => a.toInt < 0

/-- `getDouble(reg)` on the little-endian host: the even register is the low
half. -/
def Machine.getDouble (s : Machine) (r : Reg) : BitVec 64 :=
  s.fpRegisterFile (r + 1) ++ s.fpRegisterFile r

/-- A double takes two registers, the low word first. -/
def Machine.setDouble (s : Machine) (r : Reg) (v : BitVec 64) : Machine :=
  (s.setFp r (v.setWidth 32)).setFp (r + 1) ((v >>> 32).setWidth 32)

/-- `Instruction::run`. -/
def Instruction.run (fp : FpArith) (inp : HostInput) (i : Instruction) (s : Machine) :
    Outcome Unit :=
  match i with
  | rVariable op rd rt rs => op.run rd rt rs s
  | rShift op rd rt shamt => .next () (op.run rd rt shamt s)
  | hlMove op r => .next () (op.run r s)
  | hlOp op rs rt => op.run rs rt s
  | iGeneric op rt rs imm => op.run rt rs imm s
  | iMemory op rt rs imm => op.run rt rs imm s
  | iBranch op rt rs imm =>
      .next () (branchBy s (op.taken (s.registerFile rt) (s.registerFile rs)) imm)
  | iBranchZero op imm rs => .next () (branchBy s (op.taken (s.registerFile rs)) imm)
  | loadUpperImmediate rt imm => .next () (s.setReg rt (imm.setWidth 32 <<< 16))
  | jump target => .next () { s with programCounter := target }
  | jumpAndLink target ra =>
      .next () { s.setReg ra (s.programCounter + 4#32) with programCounter := target }
  | jumpRegister ra => .next () { s with programCounter := s.registerFile ra - 4#32 }
  | jumpAndLinkRegister rd rs =>
      -- `rd` is written before `rs` is read
      let s := s.setReg rd (s.programCounter + 4#32)
      .next () { s with programCounter := s.registerFile rs - 4#32 }
  | syscall => .raise { exceptionCode := .syscall } s
  | sync => .next () s
  | trapIfEqual rs rt =>
      if s.registerFile rs = s.registerFile rt then .raise { exceptionCode := .trap } s
      else .next () s
  | frSingle op ft fs fd =>
      .next () (s.setFp fd (fp.single op (s.fpRegisterFile fs) (s.fpRegisterFile ft)))
  | frDouble op ft fs fd =>
      .next () (s.setDouble fd (fp.double op (s.getDouble fs) (s.getDouble ft)))
  | moveToCoprocessor0 rt rd => s.privileged (.next () (s.setCp0 rd (s.registerFile rt)))
  | moveFromCoprocessor0 rt rd => s.privileged (.next () (s.setReg rt (s.cp0 rd)))
  | exceptionReturn =>
      s.privileged (.next () { s with programCounter := s.cp0 SYSRegister.EPC })
  | tlbProbe =>
      s.privileged
        (.next () (s.setCp0 SYSRegister.INDEX (s.tlb.probe (s.cp0 SYSRegister.ENTRYHI))))
  | tlbReadIndexed => s.privileged s.tlbRead
  | tlbWriteIndexed => s.privileged (s.tlbWrite SYSRegister.INDEX fun s => .next () s)
  | tlbWriteRandom =>
      s.privileged (s.tlbWrite SYSRegister.RANDOM fun s =>
        .next () (s.setCp0 SYSRegister.RANDOM ((s.cp0 SYSRegister.RANDOM + 1#32) % 64#32)))
  | performCacheOp =>
      s.privileged (.next () { s with instructionCache := s.instructionCache.clear })
  | vmTunnel => s.vmTunnel inp

namespace Machine

/-- `Core::raiseTrap`. -/
def raiseTrap (s : Machine) (t : Trap) : Machine :=
  let s := s.setCp0 SYSRegister.EPC s.programCounter
  let s := s.setCp0 SYSRegister.STATUS (s.cp0 SYSRegister.STATUS ||| 0b10#32)
  let s := s.setCp0 SYSRegister.BAD_VADDR t.badAddr
  let s := s.setCp0 SYSRegister.CAUSE (t.exceptionCode.toByte.setWidth 32 <<< 2)
  let s := s.setCp0 SYSRegister.STATUS (s.cp0 SYSRegister.STATUS &&& ~~~1#32)
  { s with programCounter := s.trapEntry }

/-- The first two lines of the `try` block of `Core::cycle`: the instruction
behind the program counter, from the cache or decoded afresh.  The cache entry
is made before the fetch and the decoding can throw. -/
def fetch (s : Machine) : Outcome Instruction :=
  let (instr, cache) := s.instructionCache.index s.programCounter
  let s := { s with instructionCache := cache }
  match instr with
  | some i => .next i s
  | none =>
      Outcome.ofAccess s (s.getWord s.programCounter) fun w =>
        Outcome.ofAccess s (IntegerUnit.decode s.programCounter w) fun i =>
          .next i { s with instructionCache := s.instructionCache.assignFront (some i) }

/-- `Core::cycle`.  The second component is the trap raised in the cycle. -/
def cycle (fp : FpArith) (inp : HostInput) (s : Machine) :
    Except Fault (Machine × Option Trap) :=
  let oldIE := s.ie
  match s.fetch with
  | .abort f => .error f
  | .raise t s => .ok (s.raiseTrap t, some t)
  | .next i s =>
      match i.run fp inp s with
      | .abort f => .error f
      | .raise t s => .ok (s.raiseTrap t, some t)
      | .next _ s =>
          let s := { s with programCounter := s.programCounter + 4#32 }
          if inp.poll && oldIE && s.ie then
            .ok (s.raiseTrap { exceptionCode := .interrupt },
              some { exceptionCode := .interrupt })
          else .ok (s, none)

/-- `Machine::run` for `n` cycles: `while (!killed) step()`.  There is no state
at time `n` when the machine was killed or the host process ended before. -/
def cycleN (fp : FpArith) (inp : Nat → HostInput) : Nat → Machine → Option Machine
  | 0, s => some s
  | n + 1, s =>
      (cycleN fp inp n s).bind fun s =>
        if s.killed then none else ((s.cycle fp (inp n)).toOption).map Prod.fst

end Machine

end Hardware
