import BobbyOS.Kernel.HeapBlocks

/-!
# The heap of a user program

`ministl` has a copy of the kernel's `FreeList`.  The search, the splitting and
the fusing are the same text; the copies differ in the primitives below them.
Here `brk` is a system call and leaves `heap_ptr` alone, and `sbrk` makes the
system call before it moves `heap_ptr`, also for an offset of zero.

A program's heap is the same data as the kernel's, beside the addresses it has
passed to the system call.  A call with an address that the kernel refuses
kills the process, so a run goes on only while all of them are accepted.
-/

namespace Programs

open Kernel (Word Heap)
open Kernel.Heap (blockheaderOffset data getBlock align4 zero)

/-- The user's dynamic memory: the kernel's, and the breaks that it asks for. -/
structure UserHeap where
  heap : Heap
  /-- the arguments of the brk system calls, the last one first -/
  brks : List Word

namespace UserHeap

/-- `heap_ptr` before the first allocation. -/
def base : Word := 0x10008000#32

/-- A null list in front of untouched memory. -/
def empty (mem : ByteMemory.Mem) : UserHeap where
  heap := { head := 0, lastVisited := 0, heapPtr := base, mem := mem }
  brks := []

/-- The system call, which does not assign `heap_ptr`. -/
def brk (u : UserHeap) (addr : Word) : UserHeap := { u with brks := addr :: u.brks }

/-- `sbrk`: the break is asked for and then moved. -/
def sbrk (u : UserHeap) (offset : Word) : Word × UserHeap :=
  let newPtr := u.heap.heapPtr + offset
  let u := u.brk newPtr
  (newPtr, { u with heap := { u.heap with heapPtr := newPtr } })

/-- `sbrk(0)` is reached behind the first two conditions only. -/
def validAddr (u : UserHeap) (p : Word) : Bool × UserHeap :=
  if u.heap.head != 0 && u.heap.head < p then
    let (top, u) := u.sbrk 0#32
    (p < top && p == u.heap.ptr (getBlock p), u)
  else (false, u)

/-- `extendHeap`. -/
def extendHeap (u : UserHeap) (s : Word) : Word × UserHeap :=
  let (it, u) := u.sbrk 0#32
  let u := (u.sbrk (blockheaderOffset + s)).2
  let h := u.heap
  let h := h.setSize it s
  let h := h.setNext it 0
  let h := h.setPrev it h.lastVisited
  let h := h.setPtr it (data it)
  let h := if h.lastVisited != 0 then h.setNext h.lastVisited it else h
  (it, { u with heap := h.setFree it 0 })

/-- `malloc`. -/
def malloc (u : UserHeap) (size : Word) : Option (Word × UserHeap) :=
  let s := align4 size
  if u.heap.head != 0 then
    (Kernel.Heap.findBlock { u.heap with lastVisited := u.heap.head } s).map fun (it, h) =>
      if it != 0 then
        let h := if h.size it - s ≥ blockheaderOffset + 4#32 then h.splitBlock it s else h
        (data it, { u with heap := h.setFree it 0 })
      else
        let (it, u) := { u with heap := h }.extendHeap s
        (if it = 0 then 0 else data it, u)
  else
    let (it, u) := u.extendHeap s
    some (if it = 0 then (0, u) else (data it, { u with heap := { u.heap with head := it } }))

/-- `calloc`. -/
def calloc (u : UserHeap) (number size : Word) : Option (Word × UserHeap) :=
  let total := number * size
  (u.malloc total).map fun (ptr, u) =>
    (ptr, if ptr != 0 then { u with heap := { u.heap with mem := zero u.heap.mem ptr total.toNat } }
      else u)

/-- `free`. -/
def free (u : UserHeap) (p : Word) : UserHeap :=
  let (valid, u) := u.validAddr p
  if valid then
    let it := getBlock p
    let h := u.heap.setFree it 1
    let (it, h) :=
      if h.prev it != 0 && h.isFree (h.prev it) then (h.prev it, h.fusion (h.prev it))
      else (it, h)
    if h.next it != 0 then { u with heap := h.fusion it }
    else
      let h := if h.prev it != 0 then h.setNext (h.prev it) 0 else { h with head := 0 }
      { u with heap := h }.brk it
  else u

/-! ### The heap without the system calls -/

/-- `sbrk(0)` asks for the break that there is. -/
theorem sbrk_zero (u : UserHeap) :
    u.sbrk 0#32 = (u.heap.heapPtr, u.brk u.heap.heapPtr) := by
  have hzero : u.heap.heapPtr + 0#32 = u.heap.heapPtr := BitVec.add_zero _
  simp only [sbrk, hzero]
  rfl

/-- The break grows in the same way. -/
theorem extendHeap_heap (u : UserHeap) (s : Word) :
    (u.extendHeap s).1 = (u.heap.extendHeap s).1 ∧
      (u.extendHeap s).2.heap = (u.heap.extendHeap s).2 := by
  have hzero : u.heap.heapPtr + 0#32 = u.heap.heapPtr := BitVec.add_zero _
  rw [extendHeap, sbrk_zero, Kernel.Heap.extendHeap]
  simp only [Kernel.Heap.sbrk, hzero]
  exact ⟨trivial, rfl⟩

/-- `malloc` does to the list what the kernel's does. -/
theorem malloc_heap (u : UserHeap) (size : Word) :
    (u.malloc size).map (fun r => (r.1, r.2.heap)) = u.heap.malloc size := by
  rw [malloc, Kernel.Heap.malloc]
  split
  · rw [Option.map_map]
    congr 1
    funext r
    obtain ⟨it, h⟩ := r
    obtain ⟨hit, hheap⟩ := extendHeap_heap { u with heap := h } (align4 size)
    simp only [Function.comp_apply]
    split
    · rfl
    · rw [hit, hheap]
  · obtain ⟨hit, hheap⟩ := extendHeap_heap u (align4 size)
    simp only [Option.map_some, hit]
    split
    · rw [hheap]
    · rw [hheap]

/-- The test agrees with the kernel's. -/
theorem validAddr_fst (u : UserHeap) (p : Word) : (u.validAddr p).1 = u.heap.validAddr p := by
  rw [validAddr, Kernel.Heap.validAddr, sbrk_zero]
  have hzero : (u.heap.sbrk 0#32).1 = u.heap.heapPtr := BitVec.add_zero _
  rw [hzero]
  split
  · rename_i hfirst
    rw [Bool.and_assoc, hfirst, Bool.true_and]
    rfl
  · rename_i hfirst
    rw [Bool.not_eq_true] at hfirst
    rw [hfirst]
    rfl

/-- The test leaves the list. -/
theorem validAddr_heap (u : UserHeap) (p : Word) : (u.validAddr p).2.heap = u.heap := by
  rw [validAddr, sbrk_zero]
  split <;> rfl

/-- `free` does to the list what the kernel's does, and leaves the break. -/
theorem free_heap (u : UserHeap) (p : Word) :
    (u.free p).heap = { u.heap.free p with heapPtr := u.heap.heapPtr } := by
  have hvalid := validAddr_fst u p
  have hheap := validAddr_heap u p
  rw [free, Kernel.Heap.free]
  simp only [hvalid, hheap]
  split
  · have hbreak : ((u.heap.setFree (getBlock p) 1).absorb (getBlock p)).2.heapPtr =
        u.heap.heapPtr := Kernel.Heap.absorb_heapPtr
    rw [Kernel.Heap.absorb] at hbreak
    generalize (if (u.heap.setFree (getBlock p) 1).prev (getBlock p) != 0 &&
        (u.heap.setFree (getBlock p) 1).isFree ((u.heap.setFree (getBlock p) 1).prev (getBlock p))
      then ((u.heap.setFree (getBlock p) 1).prev (getBlock p),
        (u.heap.setFree (getBlock p) 1).fusion ((u.heap.setFree (getBlock p) 1).prev (getBlock p)))
      else (getBlock p, u.heap.setFree (getBlock p) 1)) = r at hbreak ⊢
    split
    · rw [← hbreak, ← Kernel.Heap.fusion_heapPtr (x := r.1)]
    · rw [← hbreak]
      simp only [brk, Kernel.Heap.brk]
      split <;> rfl
  · exact hheap

/-- `malloc` in the terms of its list. -/
theorem malloc_of_heap {u : UserHeap} {size p : Word} {h' : Heap}
    (h : u.heap.malloc size = some (p, h')) : ∃ u', u.malloc size = some (p, u') ∧ u'.heap = h' := by
  rw [← malloc_heap] at h
  obtain ⟨⟨p', u'⟩, hmalloc, heq⟩ := Option.map_eq_some_iff.mp h
  obtain ⟨rfl, rfl⟩ := Prod.mk.inj heq
  exact ⟨u', hmalloc, rfl⟩

/-- The new break of `extendHeap` has been passed to the system call. -/
theorem extendHeap_brks (u : UserHeap) (s : Word) :
    (u.extendHeap s).2.heap.heapPtr ∈ (u.extendHeap s).2.brks := by
  rw [extendHeap, sbrk_zero]
  simp only
  split <;> exact List.mem_cons_self

/-- The search leaves the break. -/
theorem findFrom_heapPtr {fuel : Nat} {h h' : Heap} {s it it' : Word}
    (hfind : Kernel.Heap.findFrom fuel h s it = some (it', h')) : h'.heapPtr = h.heapPtr := by
  induction fuel generalizing h it with
  | zero => cases hfind
  | succ fuel ih =>
      rw [Kernel.Heap.findFrom] at hfind
      split at hfind
      · exact (ih hfind).trans rfl
      · cases hfind
        rfl

/-- A break that `malloc` moved has been passed to the system call. -/
theorem malloc_brks {u u' : UserHeap} {size p : Word} (h : u.malloc size = some (p, u'))
    (hbreak : u'.heap.heapPtr ≠ u.heap.heapPtr) : u'.heap.heapPtr ∈ u'.brks := by
  rw [malloc] at h
  split at h
  · obtain ⟨⟨it, h0⟩, hfind, heq⟩ := Option.map_eq_some_iff.mp h
    have hsame : h0.heapPtr = u.heap.heapPtr :=
      findFrom_heapPtr (h := { u.heap with lastVisited := u.heap.head }) hfind
    simp only at heq
    split at heq
    · obtain ⟨-, rfl⟩ := Prod.mk.inj heq
      refine absurd ?_ hbreak
      show Heap.heapPtr (if _ then _ else _) = _
      split
      · rw [Kernel.Heap.splitBlock_heapPtr, hsame]
      · exact hsame
    · obtain ⟨-, rfl⟩ := Prod.mk.inj heq
      exact extendHeap_brks _ _
  · simp only [Option.some.injEq] at h
    split at h <;>
    · obtain ⟨-, rfl⟩ := Prod.mk.inj h
      exact extendHeap_brks u _

end UserHeap

end Programs
