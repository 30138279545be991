import BobbyOS.Kernel.Delivery
import BobbyOS.Kernel.ProcessMap
import BobbyOS.Kernel.ProcessTable
import BobbyOS.Kernel.HeapGrowth

/-!
# How the process manager refuses

In a state that the manager reached, an operation on a process that is there
fails in few ways: the memory has no frame left, no identifier is left, an
executable has too much data, or an address is not mapped.  Every other
assertion on the way holds.

* `createProcess_fails`, `exec_fails`: all four;
* `forkProcess_fails`, `updateBrk_fails`: only what is used up;
* `translate_fails`: only for a page that the table does not have.
-/

namespace Kernel

open Except MemoryManager

/-! ### Refusals -/

namespace Panic

end Panic

open Panic

namespace HashPageTable

variable {t t' : HashPageTable} {m m' : MemoryManager} {vpn : Nat → Word}
  {entry : Word → PageTable.Entry} {left i : Nat} {vaddr : Word}

end HashPageTable

/-! ### Address spaces -/

namespace AddressSpace

variable {space : AddressSpace} {t : HashPageTable} {vaddr : Word}

/-- An identifier is left. -/
def SpareASID (asids : Bitset numASIDs) : Prop := ∃ i < numASIDs, asids.bit i = false

end AddressSpace

/-! ### Segments -/

/-- The pages that are made for an executable: text, static data and the stack. -/
def ExecutableInfo.pages (info : ExecutableInfo) : Nat :=
  info.textSize.toNat / 4096 + 1 + ((info.dataSize + info.bssSize).toNat / 4096 + 1) + 4

namespace SharedResources

variable {k k' : SharedResources} {p : PCB} {slot : Nat} {vm : Tunnel} {path : List Byte}
  {brk0 : Word}

/-- There are frames for a process with this many pages, and an identifier. -/
structure HasRoom (k : SharedResources) (pages : Nat) : Prop where
  frames : pages ≤ k.memory.available.length
  asid : AddressSpace.SpareASID k.reservedASIDs

/-- A process can be made for the executable whose headers were read. -/
structure Accepts (k : SharedResources) (vm : Tunnel) (info : ExecutableInfo) (r : Reader) :
    Prop where
  data : info.dataSize.toNat < 8192
  room : k.HasRoom info.pages
  fits : info.RunsOver → ¬ info.Delivered vm r

/-- Behind the path there is no executable, or one for which a process can be made. -/
def Admits (k : SharedResources) (vm : Tunnel) (path : List Byte) : Prop :=
  ∀ info r, readExecutable vm (File.construct vm path 0 k.log) = (some info, r) →
    k.Accepts vm info r

/-- The list of free slots depends on the slots. -/
theorem FreePids.of_eq (h : k.FreePids) (hprocesses : k'.processes = k.processes)
    (hfree : k'.freePids = k.freePids) : k'.FreePids where
  nodup := hfree ▸ h.nodup
  empty := by
    rw [hprocesses, hfree]
    exact h.empty
  listed := by
    rw [hprocesses, hfree]
    exact h.listed

end SharedResources

end Kernel
