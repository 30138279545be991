import BobbyOS.Kernel.VirtualMemory
import BobbyOS.Kernel.Kstl.UnorderedMap
import BobbyOS.Machine.Memory

/-!
# Page tables and address spaces

`HashPageTable` keeps the pages of a process in a hash table keyed by virtual
page number.  It takes the frames of its first pages itself, copies pages and
their memory when a process forks, and gives the frames back when it is
destroyed.  An `AddressSpace` owns a page table, an address space identifier
and the size of the heap in pages, which its constructor does not set: `brk0`
is what the allocator left there.

Each loop is matched with the list of frames it is handed and with the pages it
inserts.
-/

namespace Kernel

def STACK_LIMIT : Word := 0x80000000#32
def DYNAMIC_START : Word := 0x10008000#32
def STATIC_START : Word := 0x10000000#32
def TEXT_START : Word := 0x00400000#32

def STACK_LIMIT_VPN : Word := 0x80000#32
def DYNAMIC_START_VPN : Word := 0x10008#32
def STATIC_START_VPN : Word := 0x10000#32
def TEXT_START_VPN : Word := 0x400#32

/-- The address at which the kernel reaches a frame, in the direct map. -/
def frameAddr (pfn : Word) : Word := 0x80000000#32 + (pfn <<< 12)

/-- The physical address behind a direct-mapped one. -/
def physAddr (a : Word) : Nat := (a - 0x80000000#32).toNat

/-- `*dst = *src` for two `int` pointers into the direct map. -/
def copyInt (mem : Hardware.Memory) (dst src : Word) : Hardware.Memory := fun x =>
  if physAddr dst ≤ x ∧ x < physAddr dst + 4 then mem (physAddr src + (x - physAddr dst)) else mem x

/-- `for (i = 0; i < n; ++i) dst[i] = src[i]`. -/
def copyInts : Nat → Hardware.Memory → Word → Word → Hardware.Memory
  | 0, mem, _, _ => mem
  | n + 1, mem, dst, src => copyInts n (copyInt mem dst src) (dst + 4#32) (src + 4#32)

/-- `HashPageTable`. -/
structure HashPageTable where
  table : UnorderedMap Word PageTable.Entry

namespace HashPageTable

/-- One loop of the constructor: a frame for each page `vpn i`, `vpn (i + 1)`, … -/
def emplacePages (vpn : Nat → Word) (entry : Word → PageTable.Entry) :
    Nat → Nat → HashPageTable → MemoryManager → Except Panic (HashPageTable × MemoryManager)
  | 0, _, t, m => .ok (t, m)
  | left + 1, i, t, m => do
      let (frame, m) ← m.reserveFrame
      let (_, table) ← t.table.emplace (vpn i) (entry (frame >>> 12))
      emplacePages vpn entry left (i + 1) ⟨table⟩ m

open PageTable.Entry (USER PRESENT WRITABLE) in
/-- `HashPageTable(initText, initStatic, initStack, initDynamic)`. -/
def construct (initText initStatic initStack initDynamic : Word) (m : MemoryManager) :
    Except Panic (HashPageTable × MemoryManager) := do
  let count := (initText + initStatic + initStack + initDynamic) * 2#32
  let t : HashPageTable := ⟨.ofBucketCount count.toNat⟩
  let (t, m) ← emplacePages (fun i => TEXT_START_VPN + BitVec.ofNat 32 i)
    (PageTable.Entry.construct · (USER ||| PRESENT)) initText.toNat 0 t m
  let (t, m) ← emplacePages (fun i => STATIC_START_VPN + BitVec.ofNat 32 i)
    (PageTable.Entry.construct · (USER ||| PRESENT ||| WRITABLE)) initStatic.toNat 0 t m
  let (t, m) ← emplacePages (fun i => STACK_LIMIT_VPN - BitVec.ofNat 32 i)
    (PageTable.Entry.construct · (USER ||| PRESENT ||| WRITABLE)) initStack.toNat 1 t m
  emplacePages (fun i => DYNAMIC_START_VPN + BitVec.ofNat 32 i)
    (PageTable.Entry.construct · (USER ||| PRESENT ||| WRITABLE)) initDynamic.toNat 0 t m

/-- The loop of the copying constructor.  It copies 4096 integers, not 4096
bytes, for each page. -/
def copyPages : List (Word × PageTable.Entry) → HashPageTable → MemoryManager → Hardware.Memory →
    Except Panic (HashPageTable × MemoryManager × Hardware.Memory)
  | [], t, m, mem => .ok (t, m, mem)
  | (vpn, pte) :: rest, t, m, mem => do
      let (frame, m) ← m.reserveFrame
      let table ← t.table.modify vpn {} fun _ =>
        { pfn := frame >>> 12, user := pte.user, present := pte.present, global := pte.global,
          writable := pte.writable }
      copyPages rest ⟨table⟩ m (copyInts 4096 mem (frameAddr (frame >>> 12)) (frameAddr pte.pfn))

/-- `HashPageTable(unique_ptr<Iterator>)` on an iterator over `pages`. -/
def constructCopy (pages : List (Word × PageTable.Entry)) (m : MemoryManager)
    (mem : Hardware.Memory) : Except Panic (HashPageTable × MemoryManager × Hardware.Memory) :=
  copyPages pages ⟨.empty⟩ m mem

/-- `HashPageTable::walkTable`. -/
def walkTable (t : HashPageTable) (vaddr : Word) : Except Panic (Option PageTable.Entry) :=
  t.table.find (vaddr >>> 12)

/-- `HashPageTable::mapPTE`. -/
def mapPTE (t : HashPageTable) (pte : PageTable.Entry) (vpn : Word) :
    Except Panic (Bool × HashPageTable) :=
  if vpn < TEXT_START_VPN || STACK_LIMIT_VPN ≤ vpn then .ok (false, t)
  else do
    let (success, table) ← t.table.emplace vpn pte
    .ok (success, ⟨table⟩)

/-- The loop of `~HashPageTable`. -/
def freeFrames : List (Word × PageTable.Entry) → MemoryManager → Except Panic MemoryManager
  | [], m => .ok m
  | (_, pte) :: rest, m => do
      let m ← m.freeFrame (pte.pfn <<< 12)
      freeFrames rest m

/-- `~HashPageTable`. -/
def destroy (t : HashPageTable) (m : MemoryManager) : Except Panic MemoryManager :=
  freeFrames t.table.entries m

end HashPageTable

/-- A `PageTable` and its virtual functions. -/
inductive PageTable
  | kernel (t : KernelPageTable)
  | hash (t : HashPageTable)

namespace PageTable

/-- `PageTable::walkTable`, by the kind of table. -/
def walkTable (t : PageTable) (vaddr : Word) : Except Panic (Option Entry) :=
  match t with
  | kernel t => t.walkTable vaddr
  | hash t => t.walkTable vaddr

/-- `PageTable::mapPTE`, by the kind of table. -/
def mapPTE (t : PageTable) (m : MemoryManager) (pte : Entry) (vpn : Word) :
    Except Panic (Bool × PageTable × MemoryManager) :=
  match t with
  | kernel t => do
      let (success, t, m) ← t.mapPTE m pte vpn
      .ok (success, kernel t, m)
  | hash t => do
      let (success, t) ← t.mapPTE pte vpn
      .ok (success, hash t, m)

/-- `getIterator`: the pages, or null for the kernel's table. -/
def getIterator : PageTable → Option (List (Word × Entry))
  | kernel _ => none
  | hash t => some t.table.entries

/-- The destructor, by the kind of table. -/
def destroy (t : PageTable) (m : MemoryManager) : Except Panic MemoryManager :=
  match t with
  | kernel _ => .ok m
  | hash t => t.destroy m

/-- The end of a `unique_ptr<PageTable>`. -/
def release (t : Option PageTable) (m : MemoryManager) : Except Panic MemoryManager :=
  match t with
  | none => .ok m
  | some t => t.destroy m

end PageTable

def BRK_DEFAULT : Word := 0x10008000#32
/-- The user's heap may take 256 pages. -/
def HEAP_LIMIT : Word := BRK_DEFAULT + 0x100000#32
def KERNEL_ASID : Byte := 0xFF

/-- The identifiers that `reservedASIDs` keeps: all but the kernel's. -/
def numASIDs : Nat := 255

/-- `AddressSpace`. -/
structure AddressSpace where
  pageTable : Option PageTable
  brk : Word
  asid : Byte

namespace AddressSpace

/-- The loop of the constructor over the identifiers from `i` on. -/
def reserveASID (asids : Bitset numASIDs) : Nat → Nat → Except Panic (Byte × Bitset numASIDs)
  | 0, _ => .error (.assertFailed "No ASIDs available")
  | left + 1, i => do
      if ← asids.test i then reserveASID asids left (i + 1)
      else
        let asids ← asids.set i true
        .ok (BitVec.ofNat 8 i, asids)

/-- `AddressSpace(pageTable)`; `brk` keeps the value `brk0` that it finds. -/
def construct (pageTable : PageTable) (brk0 : Word) (asids : Bitset numASIDs) :
    Except Panic (AddressSpace × Bitset numASIDs) := do
  let (asid, asids) ← reserveASID asids numASIDs 0
  .ok ({ pageTable := some pageTable, brk := brk0, asid }, asids)

/-- `~AddressSpace`, and then its page table's destructor. -/
def destroy (s : AddressSpace) (asids : Bitset numASIDs) (m : MemoryManager) :
    Except Panic (Bitset numASIDs × MemoryManager) := do
  let asids ← asids.set s.asid.toNat false
  let m ← PageTable.release s.pageTable m
  .ok (asids, m)

/-- `AddressSpace::translate`. -/
def translate (s : AddressSpace) (vaddr : Word) : Except Panic TLBEntry :=
  match s.pageTable with
  | none => .error .nullPointer
  | some t => do
      match ← t.walkTable vaddr with
      | none => .error (.assertFailed "not implemented yet")
      | some e =>
          if e.present then .ok (e.toTLBEntry (vaddr >>> 12) s.asid)
          else .error (.assertFailed "not implemented yet")

/-- The virtual page number of page `i` of the heap. -/
def heapVpn (i : Nat) : Word := (BRK_DEFAULT >>> 12) + BitVec.ofNat 32 i

/-- The entry that `updateBrk` makes for a frame. -/
def heapEntry (pfn : Word) : PageTable.Entry where
  pfn := pfn
  global := false
  writable := true
  user := true
  present := true

/-- The loop of `updateBrk`; what `mapPTE` returns is not looked at. -/
def mapHeap : Nat → Nat → PageTable → MemoryManager → Except Panic (PageTable × MemoryManager)
  | 0, _, t, m => .ok (t, m)
  | left + 1, i, t, m => do
      let (frame, m) ← m.reserveFrame
      let (_, t, m) ← t.mapPTE m (heapEntry (frame >>> 12)) (heapVpn i)
      mapHeap left (i + 1) t m

/-- The heap pages up to and including the page of `vaddr`. -/
def pageBoundary (vaddr : Word) : Word := ((vaddr - BRK_DEFAULT) >>> 12) + 1#32

/-- `AddressSpace::updateBrk`. -/
def updateBrk (s : AddressSpace) (m : MemoryManager) (vaddr : Word) :
    Except Panic (Bool × AddressSpace × MemoryManager) :=
  if vaddr < BRK_DEFAULT || HEAP_LIMIT ≤ vaddr then .ok (false, s, m)
  else if pageBoundary vaddr ≤ s.brk then .ok (true, s, m)
  else
    match s.pageTable with
    | none => .error .nullPointer
    | some t => do
        let (t, m) ← mapHeap ((pageBoundary vaddr).toNat - s.brk.toNat) s.brk.toNat t m
        .ok (true, { s with pageTable := some t, brk := pageBoundary vaddr }, m)

end AddressSpace

end Kernel
