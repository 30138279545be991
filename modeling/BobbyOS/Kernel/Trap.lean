import Mathlib.Algebra.GroupWithZero.Nat
import BobbyOS.Kernel.Guards
import BobbyOS.Kernel.Scheduler
import BobbyOS.Lib.Effects

/-!
# The trap handler

`KernelState` is the whole kernel as `handleTrap` sees it: the process manager, the
scheduler, `currentThread`, the exception depth and the TLB with its random index
and the identifier in ENTRYHI.  `KernelM` is kernel code, which returns or panics
in the state it has reached.

The handler takes the registers the trap stored and leaves the process that runs
next in `currentThread`.  A miss of the kernel on its own heap is a step of its
own (`kernelMiss`); the heap is reached through `touch`, which records for which
thread and at which exception depth it was done.
-/

namespace Kernel

/-- The objects in the kernel heap that the handler uses. -/
inductive HeapObject
  | pcb (slot : Nat)
  | pageTable (slot : Nat)
  | processTable
  | queue
  deriving DecidableEq, Repr

/-- One access to a heap object. -/
structure HeapAccess where
  object : HeapObject
  thread : GuardRef
  depth : Byte
  deriving DecidableEq, Repr

/-- RANDOM is written as a literal. -/
instance neZero_random : NeZero 64 := ⟨by decide⟩

/-- The kernel: its resources and its scheduler, the global variables of the trap code, and
the system registers that the kernel writes. -/
structure KernelState where
  shared : SharedResources
  scheduler : MultiLevelQueue := {}
  currentThread : GuardRef := .kernel
  exceptionDepth : Byte := 1
  tlb : Hardware.TLB := .empty
  random : Fin 64 := 0
  asid : Byte := 0
  accesses : List HeapAccess := []

/-- Kernel code. -/
abbrev KernelM := EStateM Panic KernelState

/-! ### Access to the state -/

/-- Use an object in the kernel heap. -/
def touch (object : HeapObject) : KernelM Unit :=
  modify fun sys =>
    { sys with accesses := sys.accesses ++ [⟨object, sys.currentThread, sys.exceptionDepth⟩] }

/-- Use a process; the kernel's own is not in the heap. -/
def touchPcb : GuardRef → KernelM Unit
  | .kernel => pure ()
  | .process slot => touch (.pcb slot)

/-- Use the page table of a process. -/
def touchPageTable : GuardRef → KernelM Unit
  | .kernel => pure ()
  | .process slot => touch (.pageTable slot)

/-- A computation that may panic. -/
def check {α : Type} (x : Except Panic α) : KernelM α :=
  match x with
  | .ok a => pure a
  | .error e => throw e

/-- An operation of the process manager. -/
def manage {α : Type} (f : SharedResources → Except Panic (α × SharedResources)) : KernelM α := do
  let sys ← get
  let done ← check (f sys.shared)
  modify fun sys => { sys with shared := done.2 }
  pure done.1

/-- The same without a result. -/
def manage' (f : SharedResources → Except Panic SharedResources) : KernelM Unit := do
  let sys ← get
  let shared ← check (f sys.shared)
  modify fun sys => { sys with shared }

/-- `currentThread = …`. -/
def setCurrentThread (ref : GuardRef) : KernelM Unit :=
  modify fun sys => { sys with currentThread := ref }

/-- `kernel_trap` counts the traps that are not finished. -/
def enterException : KernelM Unit :=
  modify fun sys => { sys with exceptionDepth := sys.exceptionDepth + 1 }

/-- `--exceptionDepth`. -/
def leaveException : KernelM Unit :=
  modify fun sys => { sys with exceptionDepth := sys.exceptionDepth - 1 }

/-- `VMPackage::send`. -/
def send (vm : Tunnel) (req : VMRequest) : KernelM VMReply := do
  let sys ← get
  let sent := vm.send sys.shared.log req
  modify fun sys => { sys with shared := { sys.shared with log := sent.2 } }
  pure sent.1

/-- `PrintString` of a text of the kernel. -/
def printString (vm : Tunnel) (s : String) : KernelM Unit := do
  let _ ← send vm (.printString (ascii s))

/-! ### Processes -/

/-- `*ref`. -/
def GuardRef.pcb (k : SharedResources) : GuardRef → Except Panic PCB
  | kernel => .ok k.kernelProcess
  | process slot => k.pcb slot

/-- `*ref = p`. -/
def GuardRef.setPcb (k : SharedResources) (p : PCB) : GuardRef → SharedResources
  | kernel => { k with kernelProcess := p }
  | process slot => k.setPcb slot p

/-- Read a process through a pointer or a guard. -/
def deref (ref : GuardRef) : KernelM PCB := do
  touchPcb ref
  let sys ← get
  check (ref.pcb sys.shared)

/-- Write the registers of a process. -/
def writeContext (ref : GuardRef) (f : RegisterContext → RegisterContext) : KernelM Unit := do
  let p ← deref ref
  modify fun sys => { sys with shared := ref.setPcb sys.shared { p with regCtx := f p.regCtx } }

/-- `ref->borrow()`. -/
def borrow (ref : GuardRef) : KernelM Unit := do
  touchPcb ref
  manage' ref.borrow

/-- `reset` of a guard, or its end. -/
def reset : Option GuardRef → KernelM Unit
  | none => pure ()
  | some ref => do
      touchPcb ref
      manage' ref.reset

/-- `sharedResources.processes[idx]`. -/
def lookup (idx : Word) : KernelM (Option GuardRef) := do
  touch .processTable
  let sys ← get
  match sys.shared.guard idx with
  | none => pure none
  | some slot => do
      borrow (.process slot)
      pure (some (.process slot))

/-! ### Translation -/

/-- `ref->addrSpace.translate(vaddr)`. -/
def translate (ref : GuardRef) (vaddr : Word) : KernelM TLBEntry := do
  let p ← deref ref
  touchPageTable ref
  check (p.addrSpace.translate vaddr)

/-- `TLBEntry::writeRandom`. -/
def writeRandom (entry : TLBEntry) : KernelM Unit :=
  modify fun sys =>
    { sys with
      tlb := Function.update sys.tlb sys.random (.ofHiLo entry.hi entry.lo)
      random := sys.random + 1
      asid := entry.hi.setWidth 8 }

/-- `translate(vaddr).writeRandom()`. -/
def refill (ref : GuardRef) (vaddr : Word) : KernelM Unit := do
  let entry ← translate ref vaddr
  writeRandom entry

/-- `replaceASID(asid)`. -/
def replaceASID (asid : Byte) : KernelM Unit := modify fun sys => { sys with asid }

/-- The physical address of a user address, as the system calls compute it. -/
def physicalAddress (ref : GuardRef) (vaddr : Word) : KernelM Word := do
  let entry ← translate ref vaddr
  pure (((entry.lo >>> 6) <<< 12) ||| (vaddr &&& 0xFFF#32))

/-- The string at a physical address, which ends before the memory does. -/
def cString (mem : Hardware.Memory) : Nat → Nat → Except Panic (List Byte)
  | 0, _ => .error .outOfBounds
  | left + 1, addr => do
      if mem addr = 0 then .ok []
      else
        let rest ← cString mem left (addr + 1)
        .ok (mem addr :: rest)

/-- The string that starts at `0x80000000 + paddr`. -/
def directString (paddr : Word) : KernelM (List Byte) := do
  let sys ← get
  check (cString sys.shared.physMem (Hardware.physMemSize - paddr.toNat) paddr.toNat)

/-- The nested trap of the kernel on a page of `currentThread`. -/
def nestedMiss (vaddr : Word) : KernelM Unit := do
  enterException
  let sys ← get
  borrow sys.currentThread
  setCurrentThread .kernel
  refill sys.currentThread vaddr
  setCurrentThread sys.currentThread
  reset (some sys.currentThread)
  leaveException

/-- A byte goes to a physical address. -/
def writePhysical (paddr : Word) (b : Byte) : KernelM Unit :=
  if paddr.toNat < Hardware.physMemSize then
    modify fun sys => { sys with shared :=
      { sys.shared with physMem := Function.update sys.shared.physMem paddr.toNat b } }
  else throw .outOfBounds

/-- The byte at a physical address. -/
def readPhysical (paddr : Word) : KernelM Byte := do
  let sys ← get
  if paddr.toNat < Hardware.physMemSize then pure (sys.shared.physMem paddr.toNat)
  else throw .outOfBounds

/-- `lb v1, 0(v1)` a second time, with the byte `b` that the first one loaded as the address.
After a miss of its own the instruction before it, `addu v1, a0, v1`, takes `b` as an index. -/
def reload (buf : List Byte) (b : Byte) : KernelM Byte := do
  let sys ← get
  match sys.tlb.translate (b.signExtend 32) .load sys.asid with
  | .ok paddr => readPhysical paddr
  | .error _ => do
      nestedMiss (b.signExtend 32)
      pure (if b.msb then 0 else buf.getD b.toNat 0)

/-- `loc[i] = buf[i]`, which is `lb v1, 0(v1)` and `sb v1, 0(v0)`.  After a miss of the store
the nested trap returns to the instruction before it, so the load is repeated first. -/
def storeByte (buf : List Byte) (vaddr : Word) (b : Byte) : KernelM Unit := do
  let sys ← get
  match sys.tlb.translate vaddr .store sys.asid with
  | .ok paddr => writePhysical paddr b
  | .error _ => do
      nestedMiss vaddr
      let b ← reload buf b
      let sys ← get
      match sys.tlb.translate vaddr .store sys.asid with
      | .ok paddr => writePhysical paddr b
      | .error _ => throw .outOfBounds

/-- `for (i = 0; i < bytesRead; ++i) loc[i] = buf[i]`; what the buffer has beyond
the bytes that were read, and what is below it, is zero here. -/
def storeBytes (loc : Word) (buf : List Byte) : Nat → Nat → KernelM Unit
  | 0, _ => pure ()
  | left + 1, i => do
      storeByte buf (loc + BitVec.ofNat 32 i) (buf.getD i 0)
      storeBytes loc buf left (i + 1)

/-! ### The scheduler -/

/-- `scheduler.enqueue(proc)`; the argument is destroyed after the call. -/
def enqueue (proc : Option GuardRef) : KernelM Unit := do
  match proc with
  | none => throw .nullPointer
  | some ref => do
      let p ← deref ref
      check (kassert (p.priority < BitVec.ofNat 8 NUM_LEVELS) "proc->priority < NUM_LEVELS")
      touch .queue
      modify fun sys => { sys with scheduler := sys.scheduler.push p.priority.toNat p.PID }
      reset (some ref)

/-- `scheduler.dequeue()`. -/
def dequeue : KernelM (Option GuardRef) := do
  touch .queue
  let taken := (← get).scheduler.pop
  modify fun sys => { sys with scheduler := taken.2 }
  lookup taken.1

/-! ### KernelState calls -/

/-- `SyscallType`. -/
def PRINT_INTEGER : Word := 1
def PRINT_STRING : Word := 4
def READ_INTEGER : Word := 5
def READ_STRING : Word := 6
def EXIT : Word := 10
def EXEC : Word := 11
def BRK : Word := 45
def FORK : Word := 57

/-- Printing from user memory goes through the direct map. -/
def printUserString (vm : Tunnel) (ref : GuardRef) (ctx : RegisterContext) : KernelM Unit := do
  let paddr ← physicalAddress ref (ctx.accessRegister Register.A0)
  let s ← directString paddr
  let _ ← send vm (.printString s)

/-- The rest of `READ_STRING` when something was read: the bytes are stored with
the process as the current thread. -/
def storeInput (ref : GuardRef) (ctx : RegisterContext) (reply : VMReply) :
    KernelM RegisterContext := do
  if reply.res = 0 || reply.res = 0xFFFFFFFF#32 then pure ctx
  else
    setCurrentThread ref
    let p ← deref ref
    replaceASID p.addrSpace.asid
    storeBytes (ctx.accessRegister Register.A0) reply.data reply.res.toNat 0
    setCurrentThread .kernel
    pure ctx

/-- `READ_STRING`: at most 4096 bytes, stored at A0. -/
def readString (vm : Tunnel) (ref : GuardRef) (ctx : RegisterContext) :
    KernelM RegisterContext := do
  if 4096#32 < ctx.accessRegister Register.A1 then
    printString vm "[KERNEL] Max read is 4096 bytes. Returning with no-op...\n"
    pure (ctx.setRegister Register.V0 0)
  else
    let reply ← send vm (.stdin (ctx.accessRegister Register.A1))
    storeInput ref (ctx.setRegister Register.V0 reply.res) reply

/-- `markForDeath` and `reset` of the guard of the old thread. -/
def kill (ref : GuardRef) : KernelM Unit := do
  touchPcb ref
  manage' ref.markForDeath
  reset (some ref)

/-- `ref->exec(path, trapCtx)`; the kernel's process refuses. -/
def GuardRef.exec (vm : Tunnel) (brk0 : Word) (ref : GuardRef) (path : List Byte)
    (ctx : RegisterContext) : KernelM RegisterContext := do
  touchPcb ref
  match ref with
  | .kernel => throw (.assertFailed "PID != ProcessManager::KERNEL_PID")
  | .process slot => do
      touch .processTable
      let ctx' ← manage fun k => do
        let (_, ctx', k) ← k.exec vm slot path brk0 (some ctx)
        .ok (ctx', k)
      pure (ctx'.getD ctx)

/-- `EXEC`: the path is read through the direct map. -/
def execUser (vm : Tunnel) (brk0 : Word) (ref : GuardRef) (ctx : RegisterContext) :
    KernelM RegisterContext := do
  let paddr ← physicalAddress ref (ctx.accessRegister Register.A0)
  let path ← directString paddr
  ref.exec vm brk0 path ctx

/-- `ref->addrSpace.updateBrk(vaddr)`. -/
def updateBrk (ref : GuardRef) (vaddr : Word) : KernelM Bool := do
  touchPcb ref
  touchPageTable ref
  manage fun k =>
    match ref with
    | .kernel => do
        let (valid, addrSpace, memory) ← k.kernelProcess.addrSpace.updateBrk k.memory vaddr
        .ok (valid, { k with memory, kernelProcess := { k.kernelProcess with addrSpace } })
    | .process slot => k.updateBrk slot vaddr

/-- `FORK`: the child starts with the parent's registers and waits in the queue. -/
def fork (brk0 : Word) (ref : GuardRef) (ctx : RegisterContext) : KernelM RegisterContext := do
  let p ← deref ref
  touch .processTable
  let newPID ← manage fun k => k.forkProcess p.PID (some ctx) brk0
  match ← lookup newPID with
  | none => throw .nullPointer
  | some newProc => do
      writeContext newProc fun regCtx => regCtx.setRegister Register.V0 0
      enqueue (← lookup newPID)
      reset (some newProc)
      pure (ctx.setRegister Register.V0 newPID)

/-- `switch (trapCtx->accessRegister(V0))`; without a guard the process is dead. -/
def syscall (vm : Tunnel) (brk0 : Word) (ref : GuardRef) (ctx : RegisterContext) :
    KernelM (RegisterContext × Option GuardRef) := do
  if ctx.accessRegister Register.V0 = PRINT_INTEGER then
    let _ ← send vm (.printInteger (ctx.accessRegister Register.A0))
    pure (ctx, some ref)
  else if ctx.accessRegister Register.V0 = PRINT_STRING then
    printUserString vm ref ctx
    pure (ctx, some ref)
  else if ctx.accessRegister Register.V0 = READ_INTEGER then
    let reply ← send vm .readInteger
    pure (ctx.setRegister Register.V0 reply.res, some ref)
  else if ctx.accessRegister Register.V0 = READ_STRING then
    let ctx ← readString vm ref ctx
    pure (ctx, some ref)
  else if ctx.accessRegister Register.V0 = EXIT then
    kill ref
    pure (ctx, none)
  else if ctx.accessRegister Register.V0 = EXEC then
    let ctx ← execUser vm brk0 ref ctx
    pure (ctx, some ref)
  else if ctx.accessRegister Register.V0 = BRK then
    if ← updateBrk ref (ctx.accessRegister Register.A0) then pure (ctx, some ref)
    else
      printString vm "[KERNEL] Bad BRK request. Killing process...\n"
      kill ref
      pure (ctx, none)
  else if ctx.accessRegister Register.V0 = FORK then
    let ctx ← fork brk0 ref ctx
    pure (ctx, some ref)
  else
    printString vm "[KERNEL] Unrecognized syscall code. Returning without doing anything.\n"
    pure (ctx, some ref)

/-! ### Traps -/

/-- The trap code skips an instruction, so the program counter goes back by one. -/
def rewind (ctx : RegisterContext) : RegisterContext := { ctx with epc := ctx.epc - 4#32 }

/-- `switch (cause)`. -/
def dispatch (vm : Tunnel) (brk0 badVAddr : Word) (ref : GuardRef) (ctx : RegisterContext) :
    KernelM (RegisterContext × Option GuardRef) := do
  match ExceptionType.ofCause ctx.cause with
  | .interrupt => pure (rewind ctx, some ref)
  | .tlbL | .tlbS => do
      refill ref badVAddr
      pure (rewind ctx, some ref)
  | .syscall => syscall vm brk0 ref ctx
  | .ri => do
      printString vm
        "[KERNEL] Attempted privilieged instruction outside of kernel. Killing process...\n"
      let _ ← send vm (.printInteger ctx.epc)
      throw .halt
  | .overflow => do
      printString vm "[KERNEL] Arithmetic overflow exception. Killing process...\n"
      throw .halt
  | _ => do
      printString vm "[KERNEL] Recieved unrecognized exception code "
      let _ ← send vm (.printInteger (((ctx.cause >>> 2).setWidth 8).setWidth 32))
      printString vm "\n"
      pure (ctx, some ref)

/-- The end of `handleTrap`: another process is taken from the queue, and the
guards end. -/
def reschedule (vm : Tunnel) (oldThread : Option GuardRef) : KernelM Unit := do
  let sys ← get
  if sys.scheduler.empty then
    setCurrentThread .kernel
    printString vm "No more processes exist! Killing system...\n"
    throw .halt
  else
    match ← dequeue with
    | none => throw .nullPointer
    | some incomingProc => do
        let p ← deref incomingProc
        replaceASID p.addrSpace.asid
        setCurrentThread incomingProc
        reset (some incomingProc)
        reset oldThread

/-- The old thread goes on: in the kernel, or after a refill. -/
def resume (ref : GuardRef) (ctx : RegisterContext) : KernelM Unit := do
  setCurrentThread ref
  writeContext ref fun _ => ctx
  reset (some ref)

/-- The trap is one of the two that refill the TLB. -/
def refills (cause : ExceptionType) : Bool := cause == .tlbL || cause == .tlbS

/-- The part of `handleTrap` after the `switch`. -/
def finish (vm : Tunnel) (cause : ExceptionType) (ctx : RegisterContext)
    (oldThread : Option GuardRef) : KernelM Unit := do
  match oldThread with
  | none => reschedule vm none
  | some ref => do
      let sys ← get
      if 1#8 < sys.exceptionDepth || refills cause then resume ref ctx
      else
        writeContext ref fun _ => ctx
        borrow ref
        enqueue (some ref)
        reschedule vm (some ref)

/-- `handleTrap()` on the registers at `$k0`. -/
def handleTrap (vm : Tunnel) (brk0 badVAddr : Word) (trapCtx : RegisterContext) :
    KernelM Unit := do
  let sys ← get
  borrow sys.currentThread
  setCurrentThread .kernel
  let (ctx, oldThread) ← dispatch vm brk0 badVAddr sys.currentThread trapCtx
  finish vm (.ofCause trapCtx.cause) ctx oldThread

/-- `kernel_trap` and `run_process`: the handler one level deeper, and then the
registers of the current thread are read. -/
def takeTrap (vm : Tunnel) (brk0 badVAddr : Word) (trapCtx : RegisterContext) :
    KernelM RegisterContext := do
  enterException
  handleTrap vm brk0 badVAddr trapCtx
  leaveException
  let p ← deref (← get).currentThread
  pure p.regCtx

/-- A miss of the kernel on a page of its heap. -/
def kernelMiss (vaddr : Word) : KernelM Unit := refill .kernel vaddr

/-! ### Boot -/

/-- The end of `cppmain`, from the decrement of the depth on. -/
def startFirst (firstPID : Word) : KernelM Unit := do
  leaveException
  match ← lookup firstPID with
  | none => throw .nullPointer
  | some firstProc => do
      let p ← deref firstProc
      replaceASID p.addrSpace.asid
      setCurrentThread firstProc
      reset (some firstProc)

/-- `cppmain()` after the constructors. -/
def cppmain (vm : Tunnel) (brk0 : Word) : KernelM Unit := do
  printString vm "Kernel booted!\n"
  touch .processTable
  let firstPID ← manage fun k => k.createProcess vm (ascii "programs/shell/shell.elf") brk0
  startFirst firstPID

/-- The state after the constructors. -/
def KernelState.construct (imageEnd brk0 : Word) (physMem : Hardware.Memory) :
    Except Panic KernelState := do
  let shared ← SharedResources.construct imageEnd brk0 physMem
  .ok { shared }

/-- A boot up to the first process: its address space starts at `brk1`. -/
def KernelState.boot (vm : Tunnel) (imageEnd brk0 brk1 : Word) (physMem : Hardware.Memory) :
    Option KernelState :=
  (construct imageEnd brk0 physMem).toOption.bind (Effects.after (cppmain vm brk1))

/-! ### Runs -/

/-- What interrupts a process: its traps, and misses of the kernel on its heap. -/
inductive KernelEvent
  | trap (vm : Tunnel) (brk0 badVAddr : Word) (trapCtx : RegisterContext)
  | kernelMiss (vaddr : Word)

namespace KernelState

/-- The state after an event that was handled without a panic or a halt. -/
def step (s : KernelState) : KernelEvent → Option KernelState
  | .trap vm brk0 badVAddr trapCtx => Effects.after (takeTrap vm brk0 badVAddr trapCtx) s
  | .kernelMiss vaddr => Effects.after (Kernel.kernelMiss vaddr) s

/-- `s'` is a state after an event. -/
def Step (s : KernelState) (event : KernelEvent) (s' : KernelState) : Prop := s.step event = some s'

end KernelState

end Kernel
