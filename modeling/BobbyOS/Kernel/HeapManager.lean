import BobbyOS.Kernel.ASMInterface

/-!
# The kernel heap

`FreeList` keeps its blocks in address order from `0xC0000000` to the break
`heap_ptr`, each behind a header of 20 bytes (`size`, `next`, `prev`, `free`
and `ptr`) that lives in the heap itself.  The routines patch the headers
through raw pointers, so the model keeps the whole memory and null is the
address zero.

`findBlock` follows `next` until it finds a free block that is large enough.
Its loop is given as many steps as there are addresses: a walk that is longer
never ends, and the model then has no result.
-/

namespace Kernel

open ByteMemory

/-- The kernel's dynamic memory: `FreeList` and the break `heap_ptr`. -/
structure Heap where
  head : Word
  lastVisited : Word
  heapPtr : Word
  mem : Mem

namespace Heap

/-- `sizeof(BlockHeader)`. -/
def blockheaderOffset : Word := 20#32

/-- `heap_ptr` before the first allocation. -/
def base : Word := 0xC0000000#32

/-- A null list in front of untouched memory. -/
def empty (mem : Mem) : Heap where
  head := 0
  lastVisited := 0
  heapPtr := base
  mem := mem

/-! ### The fields of a block header -/

def size (h : Heap) (block : Word) : Word := load32 h.mem block
def next (h : Heap) (block : Word) : Word := load32 h.mem (block + 4#32)
def prev (h : Heap) (block : Word) : Word := load32 h.mem (block + 8#32)
def isFree (h : Heap) (block : Word) : Bool := load32 h.mem (block + 12#32) != 0
def ptr (h : Heap) (block : Word) : Word := load32 h.mem (block + 16#32)
def data (block : Word) : Word := block + 20#32

/-- A word of the heap is written. -/
def store (h : Heap) (a v : Word) : Heap := { h with mem := store32 h.mem a v }
def setSize (h : Heap) (block v : Word) : Heap := h.store block v
def setNext (h : Heap) (block v : Word) : Heap := h.store (block + 4#32) v
def setPrev (h : Heap) (block v : Word) : Heap := h.store (block + 8#32) v
def setFree (h : Heap) (block v : Word) : Heap := h.store (block + 12#32) v
def setPtr (h : Heap) (block v : Word) : Heap := h.store (block + 16#32) v

/-! ### The routines -/

/-- `align4`. -/
def align4 (x : Word) : Word := (x + 3#32) &&& ~~~3#32

/-- `sbrk`: the break moves first, and the new break is returned. -/
def sbrk (h : Heap) (offset : Word) : Word × Heap :=
  (h.heapPtr + offset, { h with heapPtr := h.heapPtr + offset })

/-- `brk`. -/
def brk (h : Heap) (addr : Word) : Heap := { h with heapPtr := addr }

/-- `getBlock`. -/
def getBlock (p : Word) : Word := p - blockheaderOffset

/-- `validAddr`. -/
def validAddr (h : Heap) (p : Word) : Bool :=
  h.head != 0 && h.head < p && p < (h.sbrk 0#32).1 && p == h.ptr (getBlock p)

/-- The loop of `findBlock` from `it`, with a bound on its steps. -/
def findFrom : Nat → Heap → Word → Word → Option (Word × Heap)
  | 0, _, _, _ => none
  | fuel + 1, h, s, it =>
      if it != 0 && !(h.isFree it && s ≤ h.size it) then
        findFrom fuel { h with lastVisited := it } s (h.next it)
      else some (it, h)

/-- The number of addresses. -/
def addressCount : Nat := 2 ^ 32

/-- `findBlock`. -/
def findBlock (h : Heap) (s : Word) : Option (Word × Heap) := findFrom addressCount h s h.head

/-- `extendHeap`. -/
def extendHeap (h : Heap) (s : Word) : Word × Heap :=
  let it := (h.sbrk 0#32).1
  let h := (h.sbrk (blockheaderOffset + s)).2
  let h := h.setSize it s
  let h := h.setNext it 0
  let h := h.setPrev it h.lastVisited
  let h := h.setPtr it (data it)
  let h := if h.lastVisited != 0 then h.setNext h.lastVisited it else h
  (it, h.setFree it 0)

/-- The header of the rest keeps whatever `ptr` it finds. -/
def splitBlock (h : Heap) (block s : Word) : Heap :=
  let add := data block + s
  let h := h.setSize add (h.size block - s - blockheaderOffset)
  let h := h.setNext add (h.next block)
  let h := h.setPrev add block
  let h := h.setFree add 1
  let h := h.setSize block s
  let h := h.setNext block add
  if h.next add != 0 then h.setPrev (h.next add) add else h

/-- `malloc`. -/
def malloc (h : Heap) (size : Word) : Option (Word × Heap) :=
  let s := align4 size
  if h.head != 0 then
    (findBlock { h with lastVisited := h.head } s).map fun (it, h) =>
      if it != 0 then
        let h := if h.size it - s ≥ blockheaderOffset + 4#32 then h.splitBlock it s else h
        (data it, h.setFree it 0)
      else
        let (it, h) := h.extendHeap s
        (if it = 0 then 0 else data it, h)
  else
    let (it, h) := h.extendHeap s
    some (if it = 0 then (0, h) else (data it, { h with head := it }))

/-- `for (i = 0; i < n; ++i) p[i] = 0`. -/
def zero (m : Mem) (p : Word) (n : Nat) : Mem := fun x => if (x - p).toNat < n then 0 else m x

/-- `calloc`. -/
def calloc (h : Heap) (number size : Word) : Option (Word × Heap) :=
  let total := number * size
  (h.malloc total).map fun (ptr, h) =>
    (ptr, if ptr != 0 then { h with mem := zero h.mem ptr total.toNat } else h)

/-- `fusion`. -/
def fusion (h : Heap) (block : Word) : Heap :=
  if h.next block != 0 && h.isFree (h.next block) then
    let h := h.setSize block (h.size block + (blockheaderOffset + h.size (h.next block)))
    let h := h.setNext block (h.next (h.next block))
    if h.next block != 0 then h.setPrev (h.next block) block else h
  else h

/-- `free`. -/
def free (h : Heap) (p : Word) : Heap :=
  if h.validAddr p then
    let it := getBlock p
    let h := h.setFree it 1
    let (it, h) :=
      if h.prev it != 0 && h.isFree (h.prev it) then (h.prev it, h.fusion (h.prev it))
      else (it, h)
    if h.next it != 0 then h.fusion it
    else
      let h := if h.prev it != 0 then h.setNext (h.prev it) 0 else { h with head := 0 }
      h.brk it
  else h

end Heap

end Kernel
