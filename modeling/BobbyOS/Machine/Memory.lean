import Mathlib.Algebra.Group.Nat.Defs
import Mathlib.Logic.Function.Basic

/-!
# Words, traps, the TLB and the guest memory accessors

The emulated machine keeps `physMemSize` bytes of physical memory in one host
array and reaches them through `TLB.translate`: addresses in the window
`[0x80000000, 0xC0000000)` are mapped directly, every other address goes
through the first matching entry of a 64-entry TLB.  The six accessors
`getByte` .. `setWord` translate the address of the first byte and then index
the host array.

A host function that the guest reaches can end in three ways other than by
returning: it can throw a guest `Trap` (which `Core::cycle` catches), fail a
host `assert`, or leave the host array.  `Fault` names these endings, so that
an access outside the array is a result of the model and not a missing case.
-/

namespace Hardware

abbrev Byte := BitVec 8
abbrev HalfWord := BitVec 16
abbrev Word := BitVec 32

/-- The bytes of a page. -/
def pageSize : Nat := 4096
/-- The bytes of the memory: 1280 pages. -/
def physMemSize : Nat := 5242880
/-- The entries of the TLB. -/
def tlbEntries : Nat := 64

/-- The exception codes of `Trap::ExceptionCode`. -/
inductive ExceptionCode
  | interrupt | tlbMod | tlbL | tlbS | addrL | addrS | syscall | breakpoint
  | ri | cpUnusable | overflow | trap | fpExc | watch
  deriving DecidableEq, Repr

/-- The number the hardware puts into the CAUSE register. -/
def ExceptionCode.toByte : ExceptionCode → Byte
  | interrupt => 0
  | tlbMod => 1
  | tlbL => 2
  | tlbS => 3
  | addrL => 4
  | addrS => 5
  | syscall => 8
  | breakpoint => 9
  | ri => 10
  | cpUnusable => 11
  | overflow => 12
  | trap => 13
  | fpExc => 15
  | watch => 23

/-- A guest trap: what `throw Hardware::Trap(code, badAddr)` carries. -/
structure Trap where
  exceptionCode : ExceptionCode
  badAddr : Word := 0
  deriving DecidableEq, Repr

/-- How a host function ends when it does not return normally. -/
inductive Fault
  | trap (t : Trap)
  | assertFailed (message : String)
  | outOfBounds (index : Nat)
  | hostException (what : String)
  | divideError
  | undefinedShift
  deriving DecidableEq, Repr

/-- One TLB entry, unpacked. -/
structure TLBEntry where
  vpn : Word := 0
  pfn : Word := 0
  global : Bool := false
  dirty : Bool := false
  valid : Bool := false
  asid : Byte := 0
  cc : Byte := 0
  deriving DecidableEq, Repr

/-- `TLBEntry(Word hi, Word lo)`: unpack the two CP0 words. -/
def TLBEntry.ofHiLo (hi lo : Word) : TLBEntry where
  vpn := hi >>> 12
  global := (hi &&& 0x800#32) != 0
  asid := (hi &&& 0xFF#32).setWidth 8
  pfn := lo >>> 6
  cc := ((lo >>> 3) &&& 0b111#32).setWidth 8
  dirty := (lo &&& 0b100#32) != 0
  valid := (lo &&& 0b10#32) != 0

/-- `Word(b)` for a C++ `bool`. -/
def wordOfBool (b : Bool) : Word := if b then 1 else 0

/-- `TLBEntry::hiLoPair`: pack the entry again. -/
def TLBEntry.hiLoPair (e : TLBEntry) : Word × Word :=
  ((e.vpn <<< 12) ||| (wordOfBool e.global <<< 11) ||| e.asid.setWidth 32,
   (e.pfn <<< 6) ||| (e.cc.setWidth 32 <<< 3) ||| (wordOfBool e.dirty <<< 2) |||
     (wordOfBool e.valid <<< 1))

/-- The hardware TLB: `std::array<TLBEntry, TLB_ENTRIES>`. -/
abbrev TLB := Fin tlbEntries → TLBEntry

/-- A default-constructed TLB: no entry is valid. -/
def TLB.empty : TLB := fun _ => {}

/-- What an access is for. -/
inductive LookupType
  | load | store
  deriving DecidableEq, Repr

/-- The test of the loop in `TLB::lookup`: the entry is for this page, valid,
and matches the address space (by its ASID or by its global bit). -/
def TLBEntry.covers (e : TLBEntry) (vpn : Word) (asid : Byte) : Bool :=
  vpn == e.vpn && e.valid && (e.asid == asid || e.global)

/-- The first entry in index order that covers the page of `vaddr`. -/
def TLB.entryFor (tlb : TLB) (vaddr : Word) (asid : Byte) : Option TLBEntry :=
  ((List.finRange tlbEntries).find? fun i => (tlb i).covers (vaddr >>> 12) asid).map tlb

/-- `TLB::lookup`: the first match, or a TLB trap carrying the address. -/
def TLB.lookup (tlb : TLB) (vaddr : Word) (type : LookupType) (asid : Byte) :
    Except Fault TLBEntry :=
  match tlb.entryFor vaddr asid with
  | some e => .ok e
  | none =>
      .error (.trap ⟨if type = .load then .tlbL else .tlbS, vaddr⟩)

/-- The window that is mapped directly, `[0x80000000, 0xC0000000)`. -/
def directMapped (vaddr : Word) : Bool :=
  0x80000000#32 ≤ vaddr && vaddr < 0xC0000000#32

/-- `TLB::translate`: a physical address for `vaddr`, or a TLB trap. -/
def TLB.translate (tlb : TLB) (vaddr : Word) (type : LookupType) (asid : Byte) :
    Except Fault Word :=
  if directMapped vaddr then .ok (vaddr - 0x80000000#32)
  else do
    let e ← tlb.lookup vaddr type asid
    .ok ((e.pfn <<< 12) ||| (vaddr &&& 0xFFF#32))

/-- The bytes of the host array behind `physMem`. -/
abbrev Memory := Nat → Byte

/-- `physMem[index]` read; an index past the array is a fault of the host. -/
def Memory.read (m : Memory) (index : Nat) : Except Fault Byte :=
  if index < physMemSize then .ok (m index) else .error (.outOfBounds index)

/-- `physMem[index] = byte`, with the same bound. -/
def Memory.write (m : Memory) (index : Nat) (byte : Byte) : Except Fault Memory :=
  if index < physMemSize then .ok (Function.update m index byte)
  else .error (.outOfBounds index)

/-- A host `assert(condition && message)`. -/
def hostAssert (condition : Bool) (message : String) : Except Fault Unit :=
  if condition then .ok () else .error (.assertFailed message)

/-- `Binary::loadBigEndian`. -/
def loadBigEndian (b0 b1 b2 b3 : Byte) : Word :=
  (b0.setWidth 32 <<< 24) ||| (b1.setWidth 32 <<< 16) ||| (b2.setWidth 32 <<< 8) |||
    b3.setWidth 32

/-- `RAM::getByte`. -/
def Memory.getByte (m : Memory) (addr : Word) (tlb : TLB) (asid : Byte) :
    Except Fault Byte := do
  let paddr ← tlb.translate addr .load asid
  m.read paddr.toNat

/-- `RAM::getHalfWord`. -/
def Memory.getHalfWord (m : Memory) (addr : Word) (tlb : TLB) (asid : Byte) :
    Except Fault HalfWord := do
  let paddr ← tlb.translate addr .load asid
  hostAssert (paddr % 2#32 == 0#32) "Invalid load 2 -> switch to a trap later"
  let b0 ← m.read paddr.toNat
  let b1 ← m.read (paddr.toNat + 1)
  .ok ((b0.setWidth 16 <<< 8) ||| b1.setWidth 16)

/-- `RAM::getWord`. -/
def Memory.getWord (m : Memory) (addr : Word) (tlb : TLB) (asid : Byte) :
    Except Fault Word := do
  let paddr ← tlb.translate addr .load asid
  hostAssert (paddr % 4#32 == 0#32) "Invalid load 4 -> switch to a trap later"
  let b0 ← m.read paddr.toNat
  let b1 ← m.read (paddr.toNat + 1)
  let b2 ← m.read (paddr.toNat + 2)
  let b3 ← m.read (paddr.toNat + 3)
  .ok (loadBigEndian b0 b1 b2 b3)

/-- `RAM::setByte`. -/
def Memory.setByte (m : Memory) (addr : Word) (byte : Byte) (tlb : TLB) (asid : Byte) :
    Except Fault Memory := do
  let paddr ← tlb.translate addr .store asid
  m.write paddr.toNat byte

/-- `RAM::setHalfWord`. -/
def Memory.setHalfWord (m : Memory) (addr : Word) (halfword : HalfWord) (tlb : TLB)
    (asid : Byte) : Except Fault Memory := do
  let paddr ← tlb.translate addr .store asid
  hostAssert (paddr % 2#32 == 0#32) "Invalid store 2 -> switch to a trap later"
  let m ← m.write paddr.toNat ((halfword >>> 8).setWidth 8)
  m.write (paddr.toNat + 1) ((halfword &&& 0xFF#16).setWidth 8)

/-- `RAM::setWord`. -/
def Memory.setWord (m : Memory) (addr : Word) (word : Word) (tlb : TLB) (asid : Byte) :
    Except Fault Memory := do
  let paddr ← tlb.translate addr .store asid
  hostAssert (paddr % 4#32 == 0#32) "Invalid store 4 -> switch to a trap later"
  let m ← m.write paddr.toNat ((word >>> 24).setWidth 8)
  let m ← m.write (paddr.toNat + 1) (((word >>> 16) &&& 0xFF#32).setWidth 8)
  let m ← m.write (paddr.toNat + 2) (((word >>> 8) &&& 0xFF#32).setWidth 8)
  m.write (paddr.toNat + 3) ((word &&& 0xFF#32).setWidth 8)

end Hardware
