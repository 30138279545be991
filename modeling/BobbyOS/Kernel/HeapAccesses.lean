import BobbyOS.Kernel.TrapInvariants
import BobbyOS.Kernel.FrameOwnership
import BobbyOS.Lib.Run

/-!
# Accesses to the kernel heap

A page of the kernel heap that is missing from the TLB is found in the kernel's
own page table only while the kernel's process is the current thread, and the
nested trap leaves the stack alone only at a positive exception depth.  So both
should hold at every access to the heap.

* `accesses_kept`: an access that was made stays recorded;
* `borrow_of_old_thread`: the first access of a trap taken by a process;
* `heapAccesses_exact`: which traps make all their accesses as the kernel, and
  the end of `cppmain`, which never does.
-/

namespace Kernel

open Effects Run

/-- The access is done for the kernel, inside a trap. -/
def HeapAccess.InKernel (a : HeapAccess) : Prop := a.thread = .kernel ∧ 0 < a.depth

instance (a : HeapAccess) : Decidable a.InKernel := inferInstanceAs (Decidable (_ ∧ _))

/-- The accesses that a piece of kernel code makes from a state on. -/
def accessesOf {α : Type} (x : KernelM α) (s : KernelState) : List HeapAccess :=
  (final x { s with accesses := [] }).accesses

variable {s : KernelState} {a : HeapAccess} {vm : Tunnel} {brk0 badVAddr : Word}
  {ctx : RegisterContext} {c n : Nat}

/-! ### Accesses stay recorded -/

/-- The access was made. -/
def Made (a : HeapAccess) (s : KernelState) : Prop := a ∈ s.accesses

/-- Every function makes the accesses that its program points name. -/
theorem accesses_kept : Kept Everyone (Made a) where
  access _ hs := List.mem_append_left _ hs
  control hs _ _ haccesses := by
    rw [Made, haccesses]
    exact hs
  manage hs _ := hs
  fill hs _ _ := hs

/-- **The `switch`.**  No operation of the process manager changes the record. -/
theorem made_dispatch : Keeps (Made a) (dispatch vm brk0 badVAddr (.process n) ctx) :=
  accesses_kept.switch trivial (fun _ hs => hs) (fun hs _ => hs) fun hs _ => ⟨hs, trivial⟩

/-! ### A trap of a process -/

/-- The borrow comes before the current thread is switched. -/
theorem made_borrow (hthread : s.currentThread = .process c) :
    Made ⟨.pcb c, .process c, s.exceptionDepth⟩ (final (borrow (.process c)) s) := by
  refine Keeps.final_bind (x := touch (.pcb c)) ?_ fun _ => accesses_kept.manage_step' .borrow
  show _ ∈ s.accesses ++ [⟨.pcb c, s.currentThread, s.exceptionDepth⟩]
  rw [hthread]
  exact List.mem_append_right _ (List.mem_singleton_self _)

/-- The handler starts with that borrow. -/
theorem made_handleTrap (hthread : s.currentThread = .process c) :
    Made ⟨.pcb c, .process c, s.exceptionDepth⟩
      (final (handleTrap vm brk0 badVAddr ctx) s) := by
  have hI : Kept Everyone (Made ⟨.pcb c, .process c, s.exceptionDepth⟩) := accesses_kept
  show Made _ (final (borrow s.currentThread >>= fun _ => _) s)
  rw [hthread]
  refine Keeps.final_bind (made_borrow hthread) fun _ => hI.setCurrentThread.bind fun _ => ?_
  exact made_dispatch.bind fun _ => hI.finish fun ref _ => among_everyone ref

/-- **The first access.**  The guard of the old thread is taken before the kernel's
process becomes the current thread. -/
theorem borrow_of_old_thread (hthread : s.currentThread = .process c) :
    ⟨.pcb c, .process c, s.exceptionDepth + 1⟩ ∈
      accessesOf (takeTrap vm brk0 badVAddr ctx) s := by
  have henter : Returns enterException { s with accesses := [] } ()
      { s with accesses := [], exceptionDepth := s.exceptionDepth + 1 } := rfl
  show Made _ (final (enterException >>= fun _ => _) _)
  rw [final_bind_of_returns henter]
  exact Keeps.final_bind (made_handleTrap hthread) fun _ => accesses_kept.leave

/-- **The first access** of the end of `cppmain`, after the depth was decremented. -/
theorem lookup_of_first (s : KernelState) (firstPID : Word) :
    ⟨.processTable, s.currentThread, s.exceptionDepth - 1⟩ ∈
      accessesOf (startFirst firstPID) s := by
  have hI : Kept Everyone (Made ⟨.processTable, s.currentThread, s.exceptionDepth - 1⟩) :=
    accesses_kept
  have hleave : Returns leaveException { s with accesses := [] } ()
      { s with accesses := [], exceptionDepth := s.exceptionDepth - 1 } := rfl
  show Made _ (final (leaveException >>= fun _ => _) _)
  rw [final_bind_of_returns hleave]
  refine Keeps.final_bind ?_ fun guard => ?_
  · refine Keeps.final_bind (x := touch .processTable) (List.mem_singleton_self _) fun _ => ?_
    refine keeps_get.bind fun sys => ?_
    split
    · exact keeps_pure
    · exact hI.borrow.bind fun _ => keeps_pure
  · cases guard with
    | none => exact keeps_throw
    | some firstProc =>
        refine hI.deref.bind fun p => (hI.replaceASID _).bind fun _ => ?_
        exact hI.setCurrentThread.bind fun _ => hI.reset

/-! ### A miss of the kernel -/

/-- Nothing was accessed, and the kernel's process is the current thread. -/
def Quiet (s : KernelState) : Prop := s.currentThread = .kernel ∧ s.accesses = []

/-- The process manager makes no access that is recorded. -/
theorem quiet_manage' {f : SharedResources → Except Panic SharedResources} :
    Keeps Quiet (manage' f) :=
  keeps_manage' fun hs _ => hs

/-- The kernel's own control block is not on the heap. -/
theorem quiet_touchPcb : Keeps Quiet (touchPcb .kernel) := keeps_pure

/-- So a dereference of it makes no access. -/
theorem quiet_deref : Keeps Quiet (deref .kernel) :=
  quiet_touchPcb.bind fun _ => keeps_get.bind fun _ => Kept.check _

/-- Nor does a refill for the kernel. -/
theorem quiet_refill {vaddr : Word} : Keeps Quiet (refill .kernel vaddr) := by
  have htable : Keeps Quiet (touchPageTable .kernel) := keeps_pure
  have htranslate : Keeps Quiet (translate .kernel vaddr) :=
    quiet_deref.bind fun p => htable.bind fun _ => Kept.check _
  exact htranslate.bind fun _ => keeps_modify fun _ hs => hs

/-- Nor does making it the current thread. -/
theorem quiet_setCurrentThread : Keeps Quiet (setCurrentThread .kernel) :=
  keeps_modify fun _ hs => ⟨rfl, hs.2⟩

/-- Nor does resuming it. -/
theorem quiet_resume : Keeps Quiet (resume .kernel ctx) := by
  refine quiet_setCurrentThread.bind fun _ => ?_
  have hwrite : Keeps Quiet (writeContext .kernel fun _ => ctx) :=
    quiet_deref.bind fun _ => keeps_modify fun _ hs => hs
  exact hwrite.bind fun _ => quiet_touchPcb.bind fun _ => quiet_manage'

/-- The two traps that refill the TLB, from the `switch` on. -/
theorem quiet_refills (h : refills (.ofCause ctx.cause) = true) :
    Keeps Quiet (do
      let r ← dispatch vm brk0 badVAddr .kernel ctx
      finish vm (.ofCause ctx.cause) r.1 r.2) := by
  have hdispatch : dispatch vm brk0 badVAddr .kernel ctx =
      (do refill .kernel badVAddr; pure (rewind ctx, some .kernel)) := by
    unfold dispatch
    cases hcause : ExceptionType.ofCause ctx.cause <;> rw [hcause] at h <;>
      first | rfl | simp [refills] at h
  have hfinish : finish vm (.ofCause ctx.cause) (rewind ctx) (some .kernel) =
      resume .kernel (rewind ctx) := by
    unfold finish
    simp only [h, Bool.or_true, if_true]
    rfl
  rw [hdispatch]
  simp only [bind_assoc, pure_bind, hfinish]
  exact quiet_refill.bind fun _ => quiet_resume

/-- Nor does leaving its exception. -/
theorem quiet_leave :
    Keeps Quiet (do leaveException; let p ← deref (← get).currentThread; pure p.regCtx) := by
  have hleave : Keeps Quiet leaveException := keeps_modify fun _ hs => hs
  refine hleave.bind fun _ s hs => ?_
  show Quiet (final (deref s.currentThread >>= fun p => pure p.regCtx) s)
  rw [hs.1]
  exact quiet_deref.bind (fun _ => keeps_pure) s hs

/-- A refill while the kernel is current makes no access. -/
theorem quiet_handleTrap (h : refills (.ofCause ctx.cause) = true) :
    Keeps Quiet (handleTrap vm brk0 badVAddr ctx) := by
  intro s hs
  show Quiet (final (borrow s.currentThread >>= fun _ => _) s)
  rw [hs.1]
  have hborrow : Keeps Quiet (borrow .kernel) := quiet_touchPcb.bind fun _ => quiet_manage'
  exact hborrow.bind (fun _ => quiet_setCurrentThread.bind fun _ => quiet_refills h) s hs

/-- **A nested miss** of the kernel accesses no object of the heap. -/
theorem accessesOf_kernelMiss (hthread : s.currentThread = .kernel)
    (h : refills (.ofCause ctx.cause) = true) :
    accessesOf (takeTrap vm brk0 badVAddr ctx) s = [] := by
  have henter : Keeps Quiet enterException := keeps_modify fun _ hs => hs
  have hkeeps : Keeps Quiet (takeTrap vm brk0 badVAddr ctx) :=
    henter.bind fun _ => (quiet_handleTrap h).bind fun _ => quiet_leave
  exact (hkeeps { s with accesses := [] } ⟨hthread, rfl⟩).2

/-! ### All accesses -/

/-- **Accesses to the heap.**  A trap makes all of them as the kernel exactly when
it is a miss of the kernel itself: a trap of a process takes the guard of this
process first.  The end of `cppmain` never does: it looks up the first process
when the exception depth is zero. -/
theorem heapAccesses_exact (vm : Tunnel) (brk0 badVAddr firstPID : Word) (ctx : RegisterContext)
    (s boot : KernelState)
    (hmode : s.currentThread = .kernel → refills (.ofCause ctx.cause) = true)
    (hdepth : boot.exceptionDepth = 1) :
    ((∀ a ∈ accessesOf (takeTrap vm brk0 badVAddr ctx) s, a.InKernel) ↔
      s.currentThread = .kernel) ∧
    ¬ ∀ a ∈ accessesOf (startFirst firstPID) boot, a.InKernel := by
  constructor
  · constructor
    · intro hall
      cases hthread : s.currentThread with
      | kernel => rfl
      | process c => exact absurd (hall _ (borrow_of_old_thread hthread)).1 nofun
    · intro hthread
      rw [accessesOf_kernelMiss hthread (hmode hthread)]
      exact fun a ha => nomatch ha
  · intro hall
    have hlookup := lookup_of_first boot firstPID
    have hzero : 0 < boot.exceptionDepth - 1 := (hall _ hlookup).2
    rw [hdepth] at hzero
    exact absurd hzero (by decide)

/-- Both directions on the state after a boot: a miss of the kernel, and a timer
interrupt while the shell is the current thread. -/
theorem shell_heapAccesses :
    ∃ s1, KernelState.boot SharedResources.zeroFiles 0x80001000 0 0 (fun _ => 0) = some s1 ∧
      (∀ a ∈ accessesOf (takeTrap SharedResources.zeroFiles 0 0xC0000000#32 { cause := 8 })
        { s1 with currentThread := .kernel }, a.InKernel) ∧
      ¬ ∀ a ∈ accessesOf (takeTrap SharedResources.zeroFiles 0 0 { cause := 0 }) s1,
        a.InKernel := by
  have hruns : (KernelState.boot SharedResources.zeroFiles 0x80001000 0 0 (fun _ => 0)).any
      (fun s1 => s1.currentThread == .process 0) := by decide +kernel
  obtain ⟨s1, hboot, hthread⟩ := (Option.any_eq_true _ _).mp hruns
  replace hthread := beq_iff_eq.mp hthread
  refine ⟨s1, hboot, ?_, fun hall => ?_⟩
  · exact (heapAccesses_exact SharedResources.zeroFiles 0 0xC0000000#32 0 { cause := 8 }
      { s1 with currentThread := .kernel } { s1 with exceptionDepth := 1 } (fun _ => rfl) rfl).1.mpr
        rfl
  · have hmode : s1.currentThread = .kernel →
        refills (.ofCause ({ cause := 0 } : RegisterContext).cause) = true := by
      rw [hthread]
      exact nofun
    have hkernel := (heapAccesses_exact SharedResources.zeroFiles 0 0 0 { cause := 0 } s1
      { s1 with exceptionDepth := 1 } hmode rfl).1.mp hall
    rw [hthread] at hkernel
    cases hkernel

/-- **Failure.**  The first timer interrupt after a boot takes the guard of the
shell while the shell is the current thread. -/
theorem interrupt_borrows_as_process :
    ¬ ∀ (vm : Tunnel) (imageEnd brk0 brk1 : Word) (physMem : Hardware.Memory) (s1 s : KernelState),
      KernelState.boot vm imageEnd brk0 brk1 physMem = some s1 →
      Reaches KernelState.Step (fun _ _ => True) s1 s →
      ∀ (badVAddr : Word) (ctx : RegisterContext),
        ∀ a ∈ accessesOf (takeTrap vm brk0 badVAddr ctx) s, a.InKernel := by
  intro hall
  have hruns : (KernelState.boot SharedResources.zeroFiles 0x80001000 0 0 (fun _ => 0)).any
      (fun s1 => s1.currentThread == .process 0) := by decide +kernel
  obtain ⟨s1, hboot, hthread⟩ := (Option.any_eq_true _ _).mp hruns
  have hfirst : ⟨.pcb 0, .process 0, s1.exceptionDepth + 1⟩ ∈
      accessesOf (takeTrap SharedResources.zeroFiles 0 0 { cause := 0 }) s1 :=
    borrow_of_old_thread (beq_iff_eq.mp hthread)
  have hkernel := hall _ _ _ _ _ s1 s1 hboot .refl 0 { cause := 0 } _ hfirst
  exact absurd hkernel.1 nofun

end Kernel
