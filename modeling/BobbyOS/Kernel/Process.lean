import BobbyOS.Kernel.PageTables

/-!
# Processes

`SharedResources` holds the frames, the identifiers and the processes.  A
process is created from an executable that is read section by section through
`VMTUNNEL`, copied by `forkProcess`, given another image by `exec`, and freed
when the last guard of a process marked for death is reset.

A guard is the slot of the process it refers to.  Objects in the kernel heap
are values here; allocating them is assumed to succeed.
-/

namespace Kernel

/-- `ProcessState`. -/
inductive ProcessState
  | READY | RUNNING | BLOCKED | ZOMBIE
  deriving DecidableEq, Repr

/-- `PCB`. -/
structure PCB where
  regCtx : RegisterContext := {}
  addrSpace : AddressSpace
  state : ProcessState
  priority : Byte := 0
  refcount : BitVec 16 := 0
  PID : Word

def KERNEL_PID : Word := 0xFFFFFFFF#32
def NOPCBEXISTS : Word := 0xFFFFFFFF#32

/-- `sharedResources` without its heap, the static `reservedASIDs`, the physical
memory and the requests made so far. -/
structure SharedResources where
  memory : MemoryManager
  reservedASIDs : Bitset numASIDs
  kernelProcess : PCB
  processes : List (Option PCB)
  freePids : List Word
  physMem : Hardware.Memory
  log : List VMRequest

/-! ### Files -/

/-- `kernel::File`. -/
structure File where
  fd : Word
  bad : Bool := false

namespace File

/-- `File(fileName, flags)`. -/
def construct (vm : Tunnel) (fileName : List Byte) (flags : Word) (log : List VMRequest) :
    File × List VMRequest :=
  let (response, log) := vm.send log (.fopen fileName flags)
  ({ fd := response.res, bad := response.err != 0 }, log)

/-- `~File`. -/
def destroy (vm : Tunnel) (f : File) (log : List VMRequest) : List VMRequest :=
  (vm.send log (.fclose f.fd)).2

/-- `read(buffer, bytes)`: at most 256 bytes, none after an error. -/
def read (vm : Tunnel) (f : File) (bytes : Nat) (log : List VMRequest) :
    List Byte × File × List VMRequest :=
  if bytes = 0 then ([], f, log)
  else
    let nbytes := min bytes 256
    let (response, log) := vm.send log (.fread f.fd (BitVec.ofNat 32 nbytes))
    if response.err != 0 then ([], { f with bad := true }, log)
    else (response.data.take nbytes, f, log)

/-- `seek(offset, whence)`. -/
def seek (vm : Tunnel) (f : File) (offset whence : Word) (log : List VMRequest) :
    File × List VMRequest :=
  let (response, log) := vm.send log (.fseek f.fd offset whence)
  ({ f with bad := f.bad || response.err != 0 }, log)

end File

/-- An open file and the requests so far. -/
abbrev Reader := File × List VMRequest

/-- `read_full(f, dst, n)`; each round reads at least one byte, so `n` rounds
are enough. -/
def readFull (vm : Tunnel) : Nat → Nat → Reader → Option (List Byte) × Reader
  | 0, _, r => (some [], r)
  | rounds + 1, remaining, (f, log) =>
      if remaining = 0 then (some [], (f, log))
      else
        match f.read vm remaining log with
        | ([], f, log) => (none, (f, log))
        | (got, f, log) =>
            let (rest, r) := readFull vm rounds (remaining - got.length) (f, log)
            (rest.map (got ++ ·), r)

/-- The bytes `out[0]`, `out[1]`, … of the direct map. -/
def writeBytes (mem : Hardware.Memory) (out : Word) (bytes : List Byte) : Hardware.Memory :=
  fun x => if physAddr out ≤ x then bytes.getD (x - physAddr out) (mem x) else mem x

/-- `stream_copy_to(f, dst, n)`. -/
def streamCopyTo (vm : Tunnel) : Nat → Nat → Word → Hardware.Memory → Reader →
    Bool × Hardware.Memory × Reader
  | 0, _, _, mem, r => (true, mem, r)
  | rounds + 1, remaining, out, mem, (f, log) =>
      if remaining = 0 then (true, mem, (f, log))
      else
        match f.read vm (min remaining 512) log with
        | ([], f, log) => (false, mem, (f, log))
        | (got, f, log) =>
            streamCopyTo vm rounds (remaining - got.length) (out + BitVec.ofNat 32 got.length)
              (writeBytes mem out got) (f, log)

/-- The loop of `read_cstr_from_shstr`, with the characters read so far. -/
def readCstr (vm : Tunnel) : Nat → List Byte → Reader → Option (List Byte) × Reader
  | 0, scratch, r => (some scratch, r)
  | room + 1, scratch, (f, log) =>
      match f.read vm 1 log with
      | ([], f, log) => (none, (f, log))
      | (c :: _, f, log) =>
          if c = 0 then (some scratch, (f, log)) else readCstr vm room (scratch ++ [c]) (f, log)

/-- `read_cstr_from_shstr(f, shstr_off, name_off, scratch, 128)`. -/
def readCstrFromShstr (vm : Tunnel) (shstrOff nameOff : Word) (r : Reader) :
    Option (List Byte) × Reader :=
  readCstr vm 127 [] (r.1.seek vm (shstrOff + nameOff) 0 r.2)

/-! ### Executables -/

/-- A big-endian field of a record that was read from a file. -/
def field32 (record : List Byte) (offset : Nat) : Word :=
  Hardware.loadBigEndian (record.getD offset 0) (record.getD (offset + 1) 0)
    (record.getD (offset + 2) 0) (record.getD (offset + 3) 0)

/-- A half word of a record. -/
def field16 (record : List Byte) (offset : Nat) : Word :=
  Hardware.loadBigEndian 0 0 (record.getD offset 0) (record.getD (offset + 1) 0)

/-- What `createProcess` gathers about an executable. -/
structure ExecutableInfo where
  entry : Word := 0
  textOffset : Word := 0
  textSize : Word := 0
  dataOffset : Word := 0
  dataSize : Word := 0
  bssAddr : Word := 0
  bssSize : Word := 0

/-- A text of the source. -/
def ascii (s : String) : List Byte := s.toList.map fun c => BitVec.ofNat 8 c.toNat

/-- The section headers from number `i` on. -/
def readSections (vm : Tunnel) (shoff shentsize shstrOffset : Word) :
    Nat → Nat → ExecutableInfo → Reader → Option ExecutableInfo × Reader
  | 0, _, info, r => (some info, r)
  | left + 1, i, info, (f, log) =>
      match readFull vm 40 40 (f.seek vm (shoff + BitVec.ofNat 32 i * shentsize) 0 log) with
      | (none, r) => (none, r)
      | (some sh, r) =>
          match readCstrFromShstr vm shstrOffset (field32 sh 0) r with
          | (none, r) => (none, r)
          | (some name, r) =>
              let info :=
                if name = ascii ".text" then
                  { info with textOffset := field32 sh 16, textSize := field32 sh 20 }
                else if name = ascii ".data" then
                  { info with dataOffset := field32 sh 16, dataSize := field32 sh 20 }
                else if name = ascii ".bss" then
                  { info with bssAddr := field32 sh 12, bssSize := field32 sh 20 }
                else info
              readSections vm shoff shentsize shstrOffset left (i + 1) info r

/-- The part of `createProcess` that reads the headers. -/
def readExecutable (vm : Tunnel) (r : Reader) : Option ExecutableInfo × Reader :=
  match readFull vm 52 52 r with
  | (none, r) => (none, r)
  | (some ehdr, (f, log)) =>
      let shoff := field32 ehdr 32
      let shentsize := field16 ehdr 46
      let shnum := field16 ehdr 48
      let shstrndx := field16 ehdr 50
      match readFull vm 40 40 (f.seek vm (shoff + shstrndx * shentsize) 0 log) with
      | (none, r) => (none, r)
      | (some shstr, r) =>
          readSections vm shoff shentsize (field32 shstr 16) shnum.toNat 0
            { entry := field32 ehdr 24 } r

/-- Where `createProcess` writes a page of a segment. -/
def segmentAddr (tlbe : TLBEntry) : Word := 0x80000000#32 + ((tlbe.lo &&& ~~~0b111111#32) <<< 6)

/-- The `do … while (bytesLeft > 0)` loop that fills a segment page by page. -/
def loadPages (vm : Tunnel) (space : AddressSpace) : Nat → Nat → Word → Hardware.Memory → Reader →
    Except Panic (Bool × Hardware.Memory × Reader)
  | 0, _, _, mem, r => .ok (true, mem, r)
  | pages + 1, bytesLeft, dst, mem, r => do
      let tlbe ← space.translate dst
      let readAmt := min bytesLeft 4096
      match streamCopyTo vm readAmt readAmt (segmentAddr tlbe) mem r with
      | (false, mem, r) => .ok (false, mem, r)
      | (true, mem, r) =>
          if bytesLeft - readAmt = 0 then .ok (true, mem, r)
          else loadPages vm space pages (bytesLeft - readAmt) (dst + BitVec.ofNat 32 readAmt) mem r

/-- `if (size) { file.seek(offset, 0); … }`. -/
def loadSegment (vm : Tunnel) (space : AddressSpace) (start offset size : Word)
    (mem : Hardware.Memory) (r : Reader) : Except Panic (Bool × Hardware.Memory × Reader) :=
  if size = 0 then .ok (true, mem, r)
  else loadPages vm space (size.toNat / 4096 + 1) size.toNat start mem (r.1.seek vm offset 0 r.2)

/-- The text and the data of an executable. -/
def loadImage (vm : Tunnel) (space : AddressSpace) (info : ExecutableInfo)
    (mem : Hardware.Memory) (r : Reader) : Except Panic (Bool × Hardware.Memory × Reader) := do
  match ← loadSegment vm space TEXT_START info.textOffset info.textSize mem r with
  | (false, mem, r) => .ok (false, mem, r)
  | (true, mem, r) => loadSegment vm space STATIC_START info.dataOffset info.dataSize mem r

namespace SharedResources

variable (k : SharedResources)

/-- `SharedResources()`: the frames, the kernel's page table and the kernel's
process, whose `brk` is the `brk0` found there. -/
def construct (imageEnd brk0 : Word) (physMem : Hardware.Memory) :
    Except Panic SharedResources := do
  let (kPageTable, memory) ← KernelPageTable.construct (.construct imageEnd)
  .ok
    { memory
      reservedASIDs := .zero
      kernelProcess :=
        { addrSpace := { pageTable := some (.kernel kPageTable), brk := brk0, asid := KERNEL_ASID }
          state := .RUNNING
          PID := KERNEL_PID }
      processes := []
      freePids := []
      physMem
      log := [] }

/-- The process in a slot. -/
def pcb (slot : Nat) : Except Panic PCB :=
  match k.processes[slot]? with
  | some (some p) => .ok p
  | _ => .error .nullPointer

/-- Change the process in a slot. -/
def setPcb (slot : Nat) (p : PCB) : SharedResources :=
  { k with processes := k.processes.set slot (some p) }

/-- `~PCB`. -/
def destroy (p : PCB) : Except Panic SharedResources := do
  let (reservedASIDs, memory) ← p.addrSpace.destroy k.reservedASIDs k.memory
  .ok { k with reservedASIDs, memory }

/-- `freeProcess(pid)`. -/
def freeProcess (pid : Word) : Except Panic SharedResources := do
  match k.processes[pid.toNat]? with
  | none => .error (.assertFailed "pid < processes.size()")
  | some none => .error (.assertFailed "procContainer && procContainer->refcount == 0")
  | some (some p) =>
      kassert (p.refcount == 0 && p.state == .ZOMBIE)
        "procContainer->refcount == 0 && procContainer->state == ZOMBIE"
      if pid.toNat = k.processes.length - 1 then
        SharedResources.destroy { k with processes := k.processes.dropLast } p
      else
        SharedResources.destroy { k with processes := k.processes.set pid.toNat none,
                                         freePids := k.freePids ++ [pid] } p

/-- `processes[idx]`: a guard, if there is a process. -/
def guard (idx : Word) : Option Nat :=
  match k.processes[idx.toNat]? with
  | some (some _) => some idx.toNat
  | _ => none

/-- `borrow()`. -/
def borrow (slot : Nat) : Except Panic SharedResources := do
  let p ← k.pcb slot
  .ok (k.setPcb slot { p with refcount := p.refcount + 1 })

/-- `Guard::reset` on a guard of a process. -/
def reset (slot : Nat) : Except Panic SharedResources := do
  let p ← k.pcb slot
  if p.PID = KERNEL_PID then .ok k
  else
    let p := { p with refcount := p.refcount - 1 }
    let k := k.setPcb slot p
    if p.state = .ZOMBIE ∧ p.refcount = 0 then k.freeProcess p.PID else .ok k

/-- `markForDeath()`. -/
def markForDeath (slot : Nat) : Except Panic SharedResources := do
  let p ← k.pcb slot
  kassert (p.PID != KERNEL_PID) "PID != ProcessManager::KERNEL_PID"
  .ok (k.setPcb slot { p with state := .ZOMBIE })

/-- `freePids.back()`, or the number of slots when there is none. -/
def nextPID : Word := k.freePids.getLast?.getD (BitVec.ofNat 32 k.processes.length)

/-- The end of `createProcess` and of `forkProcess`: the process gets its slot. -/
def install (p : PCB) : Except Panic (Word × SharedResources) :=
  match k.freePids.getLast? with
  | none => .ok (p.PID, { k with processes := k.processes ++ [some p] })
  | some pid =>
      match k.processes[pid.toNat]? with
      | none => .error (.assertFailed "idx < _size")
      | some (some _) => .error (.assertFailed "!procSlot")
      | some none =>
          .ok (p.PID, { k with processes := k.processes.set pid.toNat (some p),
                               freePids := k.freePids.dropLast })

/-- The page table, the address space and the registers of a new process. -/
def newProcess (info : ExecutableInfo) (brk0 : Word) : Except Panic (PCB × SharedResources) := do
  kassert (info.dataSize < 8192#32) "info.data_size < 8_kb"
  let (table, memory) ← HashPageTable.construct ((info.textSize >>> 12) + 1#32)
    (((info.dataSize + info.bssSize) >>> 12) + 1#32) 4#32 0 k.memory
  let (addrSpace, reservedASIDs) ← AddressSpace.construct (.hash table) brk0 k.reservedASIDs
  let regCtx := ({} : RegisterContext).setRegister Register.SP STACK_LIMIT
  let regCtx := regCtx.setRegister Register.GP DYNAMIC_START
  .ok ({ regCtx, addrSpace, state := .BLOCKED, PID := k.nextPID }, { k with memory, reservedASIDs })

/-- `createProcess(executableFile)`. -/
def createProcess (vm : Tunnel) (executableFile : List Byte) (brk0 : Word) :
    Except Panic (Word × SharedResources) := do
  match readExecutable vm (File.construct vm executableFile 0 k.log) with
  | (none, (f, log)) => .ok (NOPCBEXISTS, { k with log := f.destroy vm log })
  | (some info, r) => do
      let (p, k) ← k.newProcess info brk0
      match ← loadImage vm p.addrSpace info k.physMem r with
      | (false, physMem, (f, log)) => do
          let k ← SharedResources.destroy { k with physMem } p
          .ok (NOPCBEXISTS, { k with log := f.destroy vm log })
      | (true, physMem, (f, log)) =>
          let regCtx := { p.regCtx with epc := info.entry - 4#32 }
          SharedResources.install { k with physMem, log := f.destroy vm log } { p with regCtx }

/-- What a call of `createProcess` does: it cannot read the headers, it gives a new
process up again because a segment cannot be loaded, or it installs one. -/
theorem createProcess_cases {vm : Tunnel} {path : List Byte} {brk0 pid : Word}
    {k k' : SharedResources} (h : k.createProcess vm path brk0 = .ok (pid, k')) :
    (∃ f log, readExecutable vm (File.construct vm path 0 k.log) = (none, f, log) ∧
      pid = NOPCBEXISTS ∧ k' = { k with log := f.destroy vm log }) ∨
    ∃ info r p k1 physMem f log,
      readExecutable vm (File.construct vm path 0 k.log) = (some info, r) ∧
      k.newProcess info brk0 = .ok (p, k1) ∧
      ((loadImage vm p.addrSpace info k1.physMem r = .ok (false, physMem, f, log) ∧
          pid = NOPCBEXISTS ∧ ∃ k2, SharedResources.destroy { k1 with physMem } p = .ok k2 ∧
            k' = { k2 with log := f.destroy vm log }) ∨
        loadImage vm p.addrSpace info k1.physMem r = .ok (true, physMem, f, log) ∧
          SharedResources.install { k1 with physMem, log := f.destroy vm log }
            { p with regCtx := { p.regCtx with epc := info.entry - 4#32 } } = .ok (pid, k')) := by
  rw [createProcess] at h
  rcases hread : readExecutable vm (File.construct vm path 0 k.log) with ⟨_ | info, f, log⟩
  all_goals rw [hread] at h
  · obtain ⟨rfl, rfl⟩ := Prod.mk.inj (Except.ok.inj h)
    exact Or.inl ⟨f, log, rfl, rfl, rfl⟩
  · obtain ⟨⟨p, k1⟩, hnew, h⟩ := Except.bind_ok_iff.mp h
    obtain ⟨⟨loaded, physMem, f', log'⟩, hload, h⟩ := Except.bind_ok_iff.mp h
    refine Or.inr ⟨info, (f, log), p, k1, physMem, f', log', rfl, hnew, ?_⟩
    cases loaded with
    | false =>
        obtain ⟨k2, hdestroy, h⟩ := Except.bind_ok_iff.mp h
        obtain ⟨rfl, rfl⟩ := Prod.mk.inj (Except.ok.inj h)
        exact Or.inl ⟨hload, rfl, k2, hdestroy, rfl⟩
    | true => exact Or.inr ⟨hload, h⟩

/-- `forkProcess(pid, newProcRegContext)`. -/
def forkProcess (pid : Word) (ctx : Option RegisterContext) (brk0 : Word) :
    Except Panic (Word × SharedResources) := do
  match k.processes[pid.toNat]? with
  | some (some copyProcess) =>
      match copyProcess.addrSpace.pageTable.bind PageTable.getIterator with
      | none => .error .nullPointer
      | some pages => do
          let (table, memory, physMem) ← HashPageTable.constructCopy pages k.memory k.physMem
          let (addrSpace, reservedASIDs) ←
            AddressSpace.construct (.hash table) brk0 k.reservedASIDs
          let p : PCB :=
            { regCtx := ctx.getD {}, addrSpace, state := .READY, PID := k.nextPID }
          SharedResources.install { k with memory, physMem, reservedASIDs } p
  | _ => .ok (NOPCBEXISTS, k)

/-- `exec(executableFile, trapCtx)` on the process in `slot`.  The page table of
a new process replaces the old one; `brk` and the identifier stay. -/
def exec (vm : Tunnel) (slot : Nat) (executableFile : List Byte) (brk0 : Word)
    (trapCtx : Option RegisterContext) :
    Except Panic (Bool × Option RegisterContext × SharedResources) := do
  let self ← k.pcb slot
  kassert (self.PID != KERNEL_PID) "PID != ProcessManager::KERNEL_PID"
  let (newPID, k) ← k.createProcess vm executableFile brk0
  if newPID = NOPCBEXISTS then .ok (false, trapCtx, k)
  else
    match k.guard newPID with
    | none => .error .nullPointer
    | some newSlot => do
        let k ← k.borrow newSlot
        let newProc ← k.pcb newSlot
        let memory ← PageTable.release self.addrSpace.pageTable k.memory
        let space := { self.addrSpace with pageTable := newProc.addrSpace.pageTable }
        let regCtx := if trapCtx.isSome then self.regCtx else newProc.regCtx
        let k := SharedResources.setPcb { k with memory } slot { self with addrSpace := space, regCtx }
        let newSpace := { newProc.addrSpace with pageTable := none }
        let k := k.setPcb newSlot { newProc with addrSpace := newSpace }
        let k ← k.markForDeath newSlot
        let k ← k.reset newSlot
        .ok (true, trapCtx.map fun _ => newProc.regCtx, k)

/-- `addrSpace.updateBrk(vaddr)` of the process in `slot`. -/
def updateBrk (slot : Nat) (vaddr : Word) : Except Panic (Bool × SharedResources) := do
  let p ← k.pcb slot
  let (valid, addrSpace, memory) ← p.addrSpace.updateBrk k.memory vaddr
  .ok (valid, SharedResources.setPcb { k with memory } slot { p with addrSpace })

end SharedResources

end Kernel
