import BobbyOS.Kernel.Settled
import BobbyOS.Lib.Run

/-!
# Who runs and who waits

Between two traps from user mode, one process is the current thread and all
others wait in the scheduler's queue, each once.

* `scheduled_takeTrap`: a trap keeps this, whatever its cause;
* `settled_takeTrap`: which processes are there afterwards;
* `scheduled_boot`: the boot establishes it;
* `scheduling_exact`: the table, the queue and the next `dequeue` after every run.
-/

namespace Kernel

open Effects Run
open KernelState (WithShared)

variable {held : Held} {c : Nat} {pids : List Word} {vm : Tunnel} {s s' : KernelState}

/-! ### The handler -/

/-- The processes are `c` and those that wait. -/
def withCurrent (c : Nat) (pids : List Word) : List Nat := c :: pids.map BitVec.toNat

/-- The old thread is held, and the others wait: `pids`, and then the children
that were made since. -/
def Holding (c : Nat) (pids : List Word) (s : KernelState) : Prop :=
  ∃ children, (withCurrent c (pids ++ children)).Nodup ∧
    Settled .kernel 1 (oneGuard c) (withCurrent c (pids ++ children)) (pids ++ children) s

/-- All processes wait; the handler has the guards `held`. -/
def AllWait (held : Held) (pids : List Word) (s : KernelState) : Prop :=
  (pids.map BitVec.toNat).Nodup ∧ Settled .kernel 1 held (pids.map BitVec.toNat) pids s

/-- One process runs and the others wait; nobody holds a guard. -/
def Scheduled (depth : Byte) (s : KernelState) : Prop :=
  ∃ c pids, (withCurrent c pids).Nodup ∧
    Settled (.process c) depth noGuards (withCurrent c pids) pids s

/-- What the `switch` leaves: the old thread, or nothing when it was killed. -/
def Dispatched (c : Nat) (pids : List Word) (oldThread : Option GuardRef) (s : KernelState) :
    Prop :=
  (oldThread = some (.process c) ∧ Holding c pids s) ∨
    (oldThread = none ∧ ∃ children, c ∉ (pids ++ children).map BitVec.toNat ∧
      AllWait noGuards (pids ++ children) s)

/-- The processes that waited are still there, and so is the old thread unless it
was killed. -/
structure Survives (c : Nat) (pids : List Word) (oldThread : Option GuardRef) (s : KernelState) :
    Prop where
  others : ∀ pid ∈ pids, ∃ p, s.shared.procAt pid.toNat = some p
  old : (∃ p, s.shared.procAt c = some p) ↔ oldThread.isSome

/-- A part that changes no process and no queue keeps the old thread. -/
theorem holding_of_settled {α : Type} {x : KernelM α}
    (h : ∀ pids, Triple (Settled .kernel 1 (oneGuard c) (withCurrent c pids) pids) x
      fun _ => Settled .kernel 1 (oneGuard c) (withCurrent c pids) pids) :
    Triple (Holding c pids) x fun _ => Holding c pids := by
  intro s ⟨children, hnodup, hs⟩ a s' hx
  exact ⟨children, hnodup, h _ hs hx⟩

/-- A call that returns at once keeps its process. -/
theorem holding_pure {ctx : RegisterContext} :
    Triple (Holding c pids) (pure (ctx, some (.process c)) : KernelM _)
      fun r => Dispatched c pids r.2 :=
  .pure fun _ hs => .inl ⟨rfl, hs⟩

/-- A killed process is not queued again. -/
theorem holding_kill {ctx : RegisterContext} :
    Triple (Holding c pids) (do kill (.process c); pure (ctx, none))
      fun r => Dispatched c pids r.2 := by
  intro s ⟨children, hnodup, hs⟩ r s' h
  obtain ⟨hout, hnodup⟩ := List.nodup_cons.mp hnodup
  obtain ⟨_, t, hkill, h⟩ := returns_bind.mp h
  obtain ⟨rfl, rfl⟩ := returns_pure.mp h
  exact .inr ⟨rfl, children, hout, hnodup, settled_kill hout hs hkill⟩

/-- A fork keeps the parent. -/
theorem holding_fork {brk0 : Word} {ctx : RegisterContext} :
    Triple (Holding c pids) (fork brk0 (.process c) ctx) fun _ => Holding c pids := by
  intro s ⟨children, hnodup, hs⟩ ctx' s' h
  obtain ⟨pid, hout, hs'⟩ := settled_fork hs h
  rw [List.append_assoc] at hs'
  have hperm : (withCurrent c (pids ++ (children ++ [pid]))).Perm
      (pid.toNat :: withCurrent c (pids ++ children)) := by
    rw [withCurrent, ← List.append_assoc, List.map_append]
    exact List.perm_append_singleton pid.toNat (withCurrent c (pids ++ children))
  refine ⟨children ++ [pid], hperm.nodup_iff.mpr (List.nodup_cons.mpr ⟨hout, hnodup⟩), ?_⟩
  exact hs'.of_mem fun slot => hperm.mem_iff.symm

/-- **System calls.** -/
theorem holding_syscall {brk0 : Word} {ctx : RegisterContext} :
    Triple (Holding c pids) (syscall vm brk0 (.process c) ctx) fun r => Dispatched c pids r.2 := by
  unfold syscall
  split
  · exact (holding_of_settled fun _ => settled_send).bind fun _ => holding_pure
  split
  · exact (holding_of_settled fun _ => settled_printUserString).bind fun _ => holding_pure
  split
  · exact (holding_of_settled fun _ => settled_send).bind fun _ => holding_pure
  split
  · exact (holding_of_settled fun _ => settled_readString).bind fun _ => holding_pure
  split
  · exact holding_kill
  split
  · exact (holding_of_settled fun _ => settled_execUser).bind fun _ => holding_pure
  split
  · refine (holding_of_settled fun _ => settled_updateBrk).bind fun valid => ?_
    split
    · exact holding_pure
    · exact (holding_of_settled fun _ => settled_printString).bind fun _ => holding_kill
  split
  · exact holding_fork.bind fun _ => holding_pure
  · exact (holding_of_settled fun _ => settled_printString).bind fun _ => holding_pure

/-- **Causes.** -/
theorem holding_dispatch {brk0 badVAddr : Word} {ctx : RegisterContext} :
    Triple (Holding c pids) (dispatch vm brk0 badVAddr (.process c) ctx)
      fun r => Dispatched c pids r.2 := by
  unfold dispatch
  split
  · exact holding_pure
  · exact (holding_of_settled fun _ => settled_refill).bind fun _ => holding_pure
  · exact (holding_of_settled fun _ => settled_refill).bind fun _ => holding_pure
  · exact holding_syscall
  · exact (holding_of_settled fun _ => settled_printString).bind fun _ =>
      (holding_of_settled fun _ => settled_send).bind fun _ => .throw
  · exact (holding_of_settled fun _ => settled_printString).bind fun _ => .throw
  · exact (holding_of_settled fun _ => settled_printString).bind fun _ =>
      (holding_of_settled fun _ => settled_send).bind fun _ =>
        (holding_of_settled fun _ => settled_printString).bind fun _ => holding_pure

/-- The process at the front of the queue becomes the current thread, and the
guard of the old thread ends. -/
theorem allWait_reschedule {oldThread : Option GuardRef}
    (hreset : ∀ thread slots pids, Triple (Settled thread 1 held slots pids) (reset oldThread)
      fun _ => Settled thread 1 noGuards slots pids) :
    Triple (AllWait held pids) (reschedule vm oldThread) fun _ s => Scheduled 1 s ∧
      ∀ slot, (∃ p, s.shared.procAt slot = some p) ↔ slot ∈ pids.map BitVec.toNat := by
  intro s ⟨hnodup, hs⟩ u s' h
  replace h := returns_get_bind.mp h
  cases pids with
  | nil =>
      simp only [hs.queue.empty_iff.mpr rfl, if_true] at h
      obtain ⟨_, _, -, h⟩ := returns_bind.mp h
      obtain ⟨_, _, -, h⟩ := returns_bind.mp h
      exact absurd h not_returns_throw
  | cons pid rest =>
      have hmore : s.scheduler.empty = false :=
        Bool.eq_false_iff.mpr fun hempty => nomatch hs.queue.empty_iff.mp hempty
      simp only [hmore, Bool.false_eq_true, if_false] at h
      obtain ⟨guard, t, hdequeue, h⟩ := returns_bind.mp h
      rcases settled_dequeue hs hdequeue with ⟨-, hout, -⟩ | ⟨rfl, -, ht⟩
      · exact absurd (List.mem_cons_self ..) hout
      have hrest : Triple
          (Settled .kernel 1 (Function.update held pid.toNat (held pid.toNat + 1))
            (withCurrent pid.toNat rest) rest)
          (do
            let p ← deref (.process pid.toNat)
            replaceASID p.addrSpace.asid
            setCurrentThread (.process pid.toNat)
            reset (some (.process pid.toNat))
            reset oldThread)
          fun _ => Settled (.process pid.toNat) 1 noGuards (withCurrent pid.toNat rest) rest := by
        refine settled_deref.bind fun p => ?_
        refine Triple.bind (settled_replaceASID.pre fun _ h => h.1) fun _ => ?_
        exact settled_setCurrentThread.bind fun _ => settled_unborrow.bind fun _ => hreset _ _ _
      have hs' := hrest ht h
      exact ⟨⟨pid.toNat, rest, hnodup, hs'⟩, hs'.occupied⟩

/-- The old thread goes on. -/
theorem holding_resume {ctx : RegisterContext} :
    Triple (Holding c pids) (resume (.process c) ctx)
      fun _ s => Scheduled 1 s ∧ Survives c pids (some (.process c)) s := by
  intro s ⟨children, hnodup, hs⟩ u s' h
  have hrest : Triple
      (Settled .kernel 1 (oneGuard c) (withCurrent c (pids ++ children)) (pids ++ children))
      (resume (.process c) ctx)
      fun _ => Settled (.process c) 1 noGuards (withCurrent c (pids ++ children))
        (pids ++ children) :=
    settled_setCurrentThread.bind fun _ => settled_writeContext.bind fun _ => settled_unborrow
  have hs' := hrest hs h
  refine ⟨⟨c, _, hnodup, hs'⟩, fun pid hpid => ?_, iff_of_true ?_ rfl⟩
  · apply (hs'.occupied _).mpr
    exact List.mem_cons_of_mem _ (List.mem_map_of_mem (List.mem_append_left _ hpid))
  · exact (hs'.occupied c).mpr (List.mem_cons_self ..)

/-- The old thread waits behind the others, still held. -/
theorem holding_enqueue :
    Triple (Holding c pids) (do borrow (.process c); enqueue (some (.process c)))
      fun _ s => ∃ children pid, pid.toNat = c ∧
        AllWait (oneGuard c) (pids ++ children ++ [pid]) s := by
  intro s ⟨children, hnodup, hs⟩ u s' h
  obtain ⟨_, t, hborrow, h⟩ := returns_bind.mp h
  obtain ⟨pid, rfl, hs'⟩ := settled_enqueue (settled_borrow hs hborrow).1 h
  rw [update_back] at hs'
  have hperm : (withCurrent pid.toNat (pids ++ children)).Perm
      ((pids ++ children ++ [pid]).map BitVec.toNat) := by
    rw [List.map_append]
    exact (List.perm_append_singleton pid.toNat ((pids ++ children).map BitVec.toNat)).symm
  exact ⟨children, pid, rfl, hperm.nodup_iff.mp hnodup, hs'.of_mem fun _ => hperm.mem_iff⟩

/-- **After the `switch`.** -/
theorem dispatched_finish {cause : ExceptionType} {ctx : RegisterContext}
    {oldThread : Option GuardRef} :
    Triple (Dispatched c pids oldThread) (finish vm cause ctx oldThread)
      fun _ s => Scheduled 1 s ∧ Survives c pids oldThread s := by
  intro s hs u s' h
  rcases hs with ⟨rfl, hs⟩ | ⟨rfl, children, hout, hs⟩
  · replace h := returns_get_bind.mp h
    split at h
    · exact holding_resume hs h
    · obtain ⟨_, t, hcontext, h⟩ := returns_bind.mp h
      obtain ⟨_, t1, hborrow, h⟩ := returns_bind.mp h
      obtain ⟨_, t2, henqueue, h⟩ := returns_bind.mp h
      have ht := holding_of_settled (fun _ => settled_writeContext) hs hcontext
      obtain ⟨children, pid, rfl, ht2⟩ :=
        holding_enqueue ht (returns_bind.mpr ⟨_, t1, hborrow, henqueue⟩)
      obtain ⟨hscheduled, hslots⟩ := allWait_reschedule (fun _ _ _ => settled_unborrow) ht2 h
      refine ⟨hscheduled, fun pid' hpid => ?_, iff_of_true ?_ rfl⟩
      · apply (hslots _).mpr
        exact List.mem_map_of_mem (List.mem_append_left _ (List.mem_append_left _ hpid))
      · apply (hslots _).mpr
        exact List.mem_map_of_mem (List.mem_append_right _ (List.mem_singleton_self _))
  · have hnone : ∀ thread slots pids, Triple (Settled thread 1 noGuards slots pids) (reset none)
        fun _ => Settled thread 1 noGuards slots pids :=
      fun _ _ _ => Triple.pure (a := ()) fun _ hs => hs
    obtain ⟨hscheduled, hslots⟩ := allWait_reschedule hnone hs h
    refine ⟨hscheduled, fun pid hpid => ?_, iff_of_false ?_ Bool.false_ne_true⟩
    · apply (hslots _).mpr
      exact List.mem_map_of_mem (List.mem_append_left _ hpid)
    · exact fun hp => hout ((hslots c).mp hp)

/-- A trap of the process in slot `c` starts with a guard of it. -/
theorem holding_entered {k : SharedResources} {accesses : List HeapAccess}
    (hnodup : (withCurrent c pids).Nodup)
    (hs : Settled (.process c) 0 noGuards (withCurrent c pids) pids s)
    (hk : s.shared.borrow c = .ok k) : Holding c pids (s.entered k accesses) := by
  obtain ⟨p, hp, hmap⟩ := SharedResources.borrow_procAt hk
  have hcount : p.refcount + 1 = noGuards c + 1 := by rw [hs.counts hp]
  have hheld := hs.update ⟨accesses, rfl⟩ (hs.invariant.borrow hk) hp hmap hcount rfl rfl
  refine ⟨[], ?_, ?_⟩
  · rw [List.append_nil]
    exact hnodup
  · rw [List.append_nil]
    exact { hheld with
      thread := rfl
      depth := by
        show s.exceptionDepth + 1 = 1
        rw [hs.depth]
        rfl }

/-- **Trap.**  Who was killed is decided by the `switch`. -/
theorem settled_takeTrap {brk0 badVAddr : Word} {trapCtx regCtx : RegisterContext}
    (hnodup : (withCurrent c pids).Nodup)
    (hs : Settled (.process c) 0 noGuards (withCurrent c pids) pids s)
    (h : Returns (takeTrap vm brk0 badVAddr trapCtx) s regCtx s') :
    ∃ k accesses ctx oldThread t, s.shared.borrow c = .ok k ∧
      Returns (dispatch vm brk0 badVAddr (.process c) trapCtx) (s.entered k accesses)
        (ctx, oldThread) t ∧
      Scheduled 0 s' ∧ Survives c pids oldThread s' := by
  obtain ⟨k, accesses, ctx, oldThread, t, t1, hk, hdispatch, hfinish, h⟩ := returns_takeTrap h
  rw [hs.thread] at hk hdispatch
  refine ⟨k, accesses, ctx, oldThread, t, hk, hdispatch, ?_⟩
  have ht := holding_dispatch (holding_entered hnodup hs hk) hdispatch
  obtain ⟨⟨c', pids', hnodup', ht1⟩, hsurvives⟩ := dispatched_finish ht hfinish
  obtain ⟨_, t2, hleave, h⟩ := returns_bind.mp h
  have hleft := settled_leaveException ht1 hleave
  have hshared : t2.shared = t1.shared := by rw [returns_modify.mp hleave]
  replace h := returns_get_bind.mp h
  rw [hleft.thread] at h
  obtain ⟨p, t3, hderef, h⟩ := returns_bind.mp h
  obtain ⟨-, rfl⟩ := returns_pure.mp h
  refine ⟨⟨c', pids', hnodup', (settled_deref hleft hderef).1⟩, ?_⟩
  have hshared' := (returns_deref hderef).2.shared.trans hshared
  exact ⟨hshared' ▸ hsurvives.others, hshared' ▸ hsurvives.old⟩

/-- **A trap** that returns leaves the processes scheduled. -/
theorem scheduled_takeTrap {brk0 badVAddr : Word} {trapCtx : RegisterContext} :
    Triple (Scheduled 0) (takeTrap vm brk0 badVAddr trapCtx) fun _ => Scheduled 0 := by
  intro s ⟨c, pids, hnodup, hs⟩ regCtx s' h
  obtain ⟨_, _, _, _, _, -, -, hscheduled, -⟩ := settled_takeTrap hnodup hs h
  exact hscheduled

/-! ### Runs -/

/-- **Boot.**  The first process is the current thread, and the queue is empty. -/
theorem scheduled_boot {imageEnd brk0 brk1 : Word} {physMem : Hardware.Memory}
    (h : KernelState.boot vm imageEnd brk0 brk1 physMem = some s) : Scheduled 0 s := by
  obtain ⟨k0, k, log, accesses, firstPID, hk0, hcreate, h⟩ := boot_spec h
  obtain ⟨hsane, hslotted, hlive, -⟩ := SharedResources.construct_spec hk0
  have hempty : ∀ slot p, k0.procAt slot ≠ some p := by
    intro slot p hp
    have hin := SharedResources.mem_live (SharedResources.procAt_iff.mp hp)
    rw [hlive] at hin
    cases hin
  have hs : Settled .kernel 1 noGuards [] [] { shared := { k0 with log } } :=
    { thread := rfl, depth := rfl, invariant := invariant_log ⟨hsane, hslotted⟩ _ log
      occupied := fun slot => iff_of_false (fun ⟨p, hp⟩ => hempty slot p hp) List.not_mem_nil
      counts := fun hp => absurd hp (hempty _ _)
      alive := fun hp => absurd hp (hempty _ _)
      highest := fun hp => absurd hp (hempty _ _)
      unheld := fun _ _ => rfl
      queue := MultiLevelQueue.holds_nil }
  have hs' : WithShared { shared := { k0 with log } } k { shared := k, accesses } :=
    ⟨accesses, rfl⟩
  have hstep : SharedResources.Step { k0 with log }
      (.createProcess vm (ascii "programs/shell/shell.elf") brk1) k :=
    SharedResources.step_createProcess hcreate
  have hinvariant := SharedResources.invariant_step hs.invariant hstep
  obtain ⟨_, t3, hleave, h⟩ := returns_bind.mp h
  obtain ⟨guard, t4, hlookup, h⟩ := returns_bind.mp h
  rcases SharedResources.createProcess_procAt hcreate hs.invariant.slotted with
    ⟨-, hsame⟩ | ⟨p, hfresh, hnone, hmap⟩
  · -- without a shell there is no first process
    have ht3 := settled_leaveException (hs.same hs' hinvariant hsame) hleave
    rcases settled_lookup ht3 hlookup with ⟨rfl, -, -⟩ | ⟨-, hin, -⟩
    · exact absurd h not_returns_throw
    · cases hin
  · have ht2 := (hs.created hs' hinvariant hfresh hnone hmap).1
    have ht3 := settled_leaveException ht2 hleave
    obtain ⟨rfl, ht4⟩ := settled_lookup_some (List.mem_cons_self ..) ht3 hlookup
    refine ⟨firstPID.toNat, [], List.nodup_singleton _, ?_⟩
    have hrest : Triple
        (Settled .kernel 0 (Function.update noGuards firstPID.toNat (noGuards firstPID.toNat + 1))
          [firstPID.toNat] [])
        (do
          let p ← deref (.process firstPID.toNat)
          replaceASID p.addrSpace.asid
          setCurrentThread (.process firstPID.toNat)
          reset (some (.process firstPID.toNat)))
        fun _ => Settled (.process firstPID.toNat) 0 noGuards [firstPID.toNat] [] := by
      refine settled_deref.bind fun p => ?_
      refine Triple.bind (settled_replaceASID.pre fun _ h => h.1) fun _ => ?_
      exact settled_setCurrentThread.bind fun _ => settled_unborrow
    exact hrest ht4 h

/-- So does every step of the kernel. -/
theorem scheduled_step {event : KernelEvent} (hs : Scheduled 0 s) (h : s.Step event s') :
    Scheduled 0 s' := by
  cases event with
  | trap vm brk0 badVAddr trapCtx =>
      obtain ⟨ctx, h⟩ := after_eq_some.mp h
      exact scheduled_takeTrap hs h
  | kernelMiss vaddr =>
      obtain ⟨u, h⟩ := after_eq_some.mp h
      obtain ⟨c, pids, hnodup, hs⟩ := hs
      exact ⟨c, pids, hnodup, settled_refill hs h⟩

/-- A process waits at one position of the queue unless it is the current thread. -/
def WaitsOnce (s : KernelState) (slot : Nat) (pid : Word) : Prop :=
  if s.currentThread = .process slot then s.scheduler.queued.count pid = 0
  else s.scheduler.queued.count pid = 1

/-- A process that does not run waits at one place of the queue. -/
theorem Scheduled.waitsOnce {depth : Byte} (hs : Scheduled depth s) {slot : Nat} {p : PCB}
    (hp : s.shared.procAt slot = some p) : WaitsOnce s slot p.PID := by
  obtain ⟨c, pids, hnodup, hs⟩ := hs
  obtain ⟨hout, hpids⟩ := List.nodup_cons.mp hnodup
  have hpid := hs.invariant.slotted.pids (SharedResources.procAt_iff.mp hp)
  have hin := (hs.occupied slot).mp ⟨p, hp⟩
  unfold WaitsOnce
  rw [hs.thread, hs.queue.queued]
  split
  · rename_i hcurrent
    apply List.count_eq_zero_of_not_mem
    intro hmem
    apply hout
    rw [GuardRef.process.inj hcurrent, ← hpid]
    exact List.mem_map_of_mem hmem
  · rename_i hother
    have hne : slot ≠ c := by
      intro heq
      exact hother (heq ▸ rfl)
    obtain ⟨pid, hmem, heq⟩ := List.mem_map.mp (List.mem_of_ne_of_mem hne hin)
    obtain rfl := BitVec.eq_of_toNat_eq (heq.trans hpid.symm)
    exact List.count_eq_one_of_mem hpids.of_map hmem

end Kernel
