import BobbyOS.Kernel.FrameOwnership

/-!
# Identifiers of address spaces

An address space takes the lowest free bit of `reservedASIDs` in its constructor and
clears it in its destructor.  The kernel's own has `KERNEL_ASID`, for which there is no
bit.  The ledger of the identifiers is sound by `Sane`; here it is also complete.

* `Sane.asids_complete`: no change loses an identifier;
* `exactASIDs_of_ledger`: what the ledger says about the address spaces;
* `address_spaces_exact`: the identifiers after any operations, and while
  `createProcess` fills a process that is not in the table yet.
-/

namespace Kernel

open Ledger Run

namespace SharedResources

variable {k k' k0 : SharedResources} {op : Operation} {old new : List PCB} {leaked : List Nat}
  {imageEnd brk0 : Word} {physMem : Hardware.Memory} {users : List AddressSpace}

/-- The identifiers of some address spaces, as positions in `reservedASIDs`. -/
def asidNumbers (users : List AddressSpace) : List Nat := users.map fun space => space.asid.toNat

/-- `users` are the address spaces besides the kernel's: no two have the same identifier,
none of them has the kernel's, and the bits that are set are their identifiers. -/
structure ExactASIDs (k : SharedResources) (users : List AddressSpace) : Prop where
  kernel : k.kernelProcess.addrSpace.asid = KERNEL_ASID
  distinct : ((k.kernelProcess.addrSpace :: users).map AddressSpace.asid).Nodup
  others : ∀ space ∈ users, space.asid ≠ KERNEL_ASID
  reserved : ∀ i < numASIDs, k.ReservedASID i ↔
    ∃ space ∈ k.kernelProcess.addrSpace :: users, space.asid.toNat = i

/-! ### The ledger -/

/-- A ledger with a complete list of holders says all about the address spaces. -/
theorem exactASIDs_of_ledger (hkernel : k.kernelProcess.addrSpace.asid = KERNEL_ASID)
    (hsound : Sound k.ReservedASID (asidNumbers users))
    (hcomplete : Complete k.ReservedASID (asidNumbers users))
    (hbounds : ∀ space ∈ users, space.asid.toNat < numASIDs) : k.ExactASIDs users := by
  have husers : ∀ space ∈ users, space.asid ≠ KERNEL_ASID := by
    intro space hspace heq
    have hlt := hbounds space hspace
    rw [heq] at hlt
    exact absurd hlt (by decide)
  have hdistinct : (users.map AddressSpace.asid).Nodup := by
    have hnodup := hsound.nodup
    rw [asidNumbers, ← Function.comp_def, ← List.map_map] at hnodup
    exact hnodup.of_map BitVec.toNat
  refine ⟨hkernel, ?_, husers, fun i hi => ?_⟩
  · rw [List.map_cons, List.nodup_cons, hkernel]
    refine ⟨fun hmem => ?_, hdistinct⟩
    obtain ⟨space, hspace, heq⟩ := List.mem_map.mp hmem
    exact husers space hspace heq
  · constructor
    · intro hreserved
      obtain ⟨space, hspace, heq⟩ := List.mem_map.mp (hcomplete i hreserved)
      exact ⟨space, List.mem_cons_of_mem _ hspace, heq⟩
    · rintro ⟨space, hspace, rfl⟩
      rcases List.mem_cons.mp hspace with rfl | hspace
      · rw [hkernel] at hi
        exact absurd hi (by decide)
      · exact hsound.taken _ (List.mem_map_of_mem hspace)

/-- The identifiers of the live address spaces are those of their processes. -/
theorem asidNumbers_live : asidNumbers (k.live.map PCB.addrSpace) = k.live.map PCB.asidNumber := by
  rw [asidNumbers, List.map_map]
  rfl

/-- **Step.**  No change loses an identifier. -/
theorem Sane.asids_complete (h : k.Sane) (hc : Change k k' old new leaked)
    (hcomplete : Complete k.ReservedASID (k.live.map PCB.asidNumber)) :
    Complete k'.ReservedASID (k'.live.map PCB.asidNumber) := by
  obtain ⟨rest, hold, hnew⟩ := hc.live
  obtain ⟨acquired, released, ht, -⟩ := hc.asids
  have hperm := hold.map PCB.asidNumber
  have hperm' := hnew.map PCB.asidNumber
  rw [List.map_append] at hperm hperm'
  have hkept : Complete k'.ReservedASID (new.map PCB.asidNumber ++ rest.map PCB.asidNumber) :=
    ((hcomplete.perm hperm).transfer_iff (h.asids.perm hperm) ht).mpr rfl
  exact hkept.perm hperm'.symm

/-! ### Runs -/

/-- What holds in every state after the boot. -/
structure Identified (k : SharedResources) : Prop where
  invariant : k.Invariant
  complete : Complete k.ReservedASID (k.live.map PCB.asidNumber)
  kernel : k.kernelProcess.addrSpace.asid = KERNEL_ASID

/-- **Boot.**  No identifier is reserved. -/
theorem identified_construct (hboot : construct imageEnd brk0 physMem = .ok k) :
    k.Identified := by
  obtain ⟨hsane, hslotted, -, -⟩ := construct_spec hboot
  obtain ⟨⟨table, memory⟩, -, hboot⟩ := Except.bind_ok_iff.mp hboot
  obtain rfl := Except.ok.inj hboot
  refine ⟨⟨hsane, hslotted⟩, fun i hi => ?_, rfl⟩
  replace hi : (Bitset.zero : Bitset numASIDs).bit i = true := hi
  rw [Bitset.bit_zero] at hi
  cases hi

/-- **One operation** keeps the identifiers accounted for. -/
theorem Identified.step (h : k.Identified) (hstep : k.Step op k') : k'.Identified := by
  obtain ⟨-, old, new, leaked, hchange, -⟩ :=
    step_spec hstep h.invariant.sane h.invariant.slotted
  refine ⟨invariant_step h.invariant hstep, h.invariant.sane.asids_complete hchange h.complete, ?_⟩
  rw [hchange.kernel]
  exact h.kernel

/-- The reserved identifiers are exactly those of the live address spaces. -/
theorem Identified.exact (h : k.Identified) : k.ExactASIDs (k.live.map PCB.addrSpace) := by
  refine exactASIDs_of_ledger h.kernel ?_ ?_ fun space hspace => ?_
  · rw [asidNumbers_live]
    exact h.invariant.sane.asids
  · rw [asidNumbers_live]
    exact h.complete
  · obtain ⟨p, hp, rfl⟩ := List.mem_map.mp hspace
    exact h.invariant.sane.asidBounds p hp

/-- A process that is made but not in the table yet has an identifier of its own. -/
theorem Identified.exact_made {p : PCB} {fs : List Nat} (h : k.Identified)
    (hmade : Made k p k' fs) :
    k'.ExactASIDs (p.addrSpace :: k'.live.map PCB.addrSpace) := by
  have hlive : k'.live = k.live := by rw [live, live, hmade.processes]
  have hnumbers : asidNumbers (p.addrSpace :: k'.live.map PCB.addrSpace) =
      [p.asidNumber] ++ k.live.map PCB.asidNumber := by
    rw [hlive, ← asidNumbers_live]
    rfl
  have ht := hmade.asidTransfer
  have hsound : Sound k.ReservedASID ([] ++ k.live.map PCB.asidNumber) := h.invariant.sane.asids
  have hcomplete : Complete k.ReservedASID ([] ++ k.live.map PCB.asidNumber) := h.complete
  refine exactASIDs_of_ledger ?_ ?_ ?_ fun space hspace => ?_
  · rw [hmade.kernel]
    exact h.kernel
  · rw [hnumbers]
    exact hsound.transfer ht
  · rw [hnumbers]
    exact (hcomplete.transfer_iff hsound ht).mpr rfl
  · rcases List.mem_cons.mp hspace with rfl | hspace
    · exact hmade.asid.upper
    · rw [hlive] at hspace
      obtain ⟨q, hq, rfl⟩ := List.mem_map.mp hspace
      exact h.invariant.sane.asidBounds q hq

/-- **Identifiers.**  After any operations in any order, no two address spaces have the
same identifier, no process has that of the kernel, and a bit of `reservedASIDs` is set
exactly when a live address space has its number.  The same holds with one address space
more while `createProcess` fills a new process, from where it may still fail. -/
theorem address_spaces_exact (hboot : construct imageEnd brk0 physMem = .ok k0)
    (hrun : Reaches Step (fun _ _ => True) k0 k) :
    k.ExactASIDs (k.live.map PCB.addrSpace) ∧
      ∀ info brk p k1, k.newProcess info brk = .ok (p, k1) →
        k1.ExactASIDs (p.addrSpace :: k1.live.map PCB.addrSpace) := by
  have hidentified : k.Identified :=
    hrun.invariant (identified_construct hboot) fun h _ hstep => h.step hstep
  refine ⟨hidentified.exact, fun info brk p k1 hnew => ?_⟩
  obtain ⟨text, static, stack, hmade, -, -, -⟩ := newProcess_spec hnew
  exact hidentified.exact_made hmade

/-- A run in which a process dies and another one cannot be made. -/
def failingOperations : List Operation :=
  shellOperations ++ [.forkProcess 0 none 0, .createProcess (fun _ => {}) [] 0]

/-- The guarantee on that run: the identifiers 0 and 1 are in use. -/
theorem failing_asids_exact :
    ∃ k, bootedRun (fun _ _ => True) failingOperations = some k ∧
      k.live.map PCB.asidNumber = [0, 1] ∧ k.ExactASIDs (k.live.map PCB.addrSpace) ∧
      ∀ info brk p k1, k.newProcess info brk = .ok (p, k1) →
        k1.ExactASIDs (p.addrSpace :: k1.live.map PCB.addrSpace) := by
  have hruns : (bootedRun (fun _ _ => True) failingOperations).any (fun k =>
      decide (k.live.map PCB.asidNumber = [0, 1])) = true := by decide +kernel
  obtain ⟨k, hk, hasids⟩ := (Option.any_eq_true _ _).mp hruns
  obtain ⟨k0, hboot, hrun⟩ := reaches_of_bootedRun hk
  exact ⟨k, hk, of_decide_eq_true hasids, address_spaces_exact hboot hrun⟩

end SharedResources

end Kernel
