import BobbyOS.Machine.Processors

/-!
# Constructing a machine and loading a kernel

`Machine.construct` is the constructor of `Hardware::Machine`: the register
files, the TLB and the cache start cleared, while the program counter, the trap
entry and the memory hold whatever the host left there.  `Machine.loadKernel`
is the overload that takes `KernelBootInformation`, `Machine.loadKernelElf` the
one that takes the kernel from the generated header.  Both write through the
memory accessors outside of any cycle, so a trap there is not caught.
-/

namespace Hardware

/-- `ExternalInfo::KernelBootInformation`. -/
structure KernelBootInformation where
  text : List Word
  data : List Byte
  bootEntry : Word
  trapEntry : Word
  argc : Word
  argv : Word
  textStart : Word
  dataStart : Word

/-- `Machine(stdiodev)`, with the values the host's memory happens to hold. -/
def Machine.construct (programCounter trapEntry : Word) (memory : Memory) (host : Host) :
    Machine where
  programCounter := programCounter
  tlb := TLB.empty
  registerFile := fun _ => 0
  hi := 0
  lo := 0
  fpRegisterFile := fun _ => 0
  cp0 := fun _ => 0
  instructionCache := {}
  memory := memory
  fileSystem := {}
  host := host
  output := []
  input := []
  trapEntry := trapEntry
  killed := false

/-- `for (instr : text) { setWord(at, instr, tlb, 0); at += 4; }` -/
def loadWords (tlb : TLB) : Word → List Word → Memory → Except Fault Memory
  | _, [], m => .ok m
  | address, w :: rest, m => do
      let m ← m.setWord address w tlb 0
      loadWords tlb (address + 4#32) rest m

/-- `for (byte : data) { setByte(at, byte, tlb, 0); ++at; }` -/
def loadBytes (tlb : TLB) : Word → List Byte → Memory → Except Fault Memory
  | _, [], m => .ok m
  | address, b :: rest, m => do
      let m ← m.setByte address b tlb 0
      loadBytes tlb (address + 1#32) rest m

/-- The arguments, 64 bytes apart. -/
def loadArguments (tlb : TLB) : Word → List (List Byte) → Memory → Except Fault Memory
  | _, [], m => .ok m
  | indirectPtr, arg :: rest, m => do
      let m ← loadBytes tlb indirectPtr arg m
      loadArguments tlb (indirectPtr + 64#32) rest m

/-- `Machine::loadKernel(kernelInfo, kernelArgs)`. -/
def Machine.loadKernel (s : Machine) (kernelInfo : KernelBootInformation)
    (kernelArgs : List (List Byte)) : Except Fault Machine := do
  let m ← loadWords s.tlb kernelInfo.textStart kernelInfo.text s.memory
  let m ← loadBytes s.tlb kernelInfo.dataStart kernelInfo.data m
  let m ← m.setWord kernelInfo.argc (BitVec.ofNat 32 kernelArgs.length) s.tlb 0
  let m ← loadArguments s.tlb kernelInfo.argv kernelArgs m
  .ok { (s.setCp0 SYSRegister.STATUS 0b10#32) with
        memory := m
        trapEntry := kernelInfo.trapEntry
        programCounter := kernelInfo.bootEntry }

/-- The constants of the generated header `KernelElf.h`. -/
structure KernelElf where
  bootEntry : Word
  trapEntry : Word
  argc : Word
  argv : Word
  textStart : Word
  dataStart : Word
  kernelText : List Byte
  kernelData : List Byte

/-- `Machine::loadKernel(kernelArgs)`. -/
def Machine.loadKernelElf (s : Machine) (elf : KernelElf) (kernelArgs : List (List Byte)) :
    Except Fault Machine := do
  let m ← loadBytes s.tlb elf.textStart elf.kernelText s.memory
  let m ← loadBytes s.tlb elf.dataStart elf.kernelData m
  let m ← m.setWord elf.argc (BitVec.ofNat 32 kernelArgs.length) s.tlb 0
  let m ← loadArguments s.tlb elf.argv kernelArgs m
  .ok { (s.setCp0 SYSRegister.STATUS 0b10#32) with
        memory := m
        trapEntry := elf.trapEntry
        programCounter := elf.bootEntry }

end Hardware
