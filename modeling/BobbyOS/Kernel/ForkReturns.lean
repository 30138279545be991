import BobbyOS.Kernel.ProcessTable
import BobbyOS.Kernel.Scheduling
import BobbyOS.Kernel.TLBCoherence

/-!
# What `FORK` returns

The parent gets the PID of the child in `V0`, the child gets 0.  Both values have to
survive the end of the handler, which gives up guards and starts another process.
`Stands` follows the registers of one process through the handler.

* `stands_finish`: the end of the handler, which stores the registers of the old thread;
* `fork_stands`: the child and its parent after the system call;
* `fork_toldApart_iff`: the two processes are told apart exactly when the PID that is
  handed out is not 0;
* `orphan_not_toldApart`: after the first process has exited, they are not.
-/

namespace Kernel

open Effects SharedResources
open KernelState (WithShared)
open Run

variable {s s' : KernelState} {k : SharedResources} {vm : Tunnel} {ref : GuardRef}
  {m n : Nat} {P Q : RegisterContext → Prop} {f : RegisterContext → RegisterContext}

/-- The process in a slot is alive, and its registers satisfy `P`. -/
structure Stands (n : Nat) (P : RegisterContext → Prop) (s : KernelState) : Prop where
  invariant : s.shared.Invariant
  process : ∃ p, s.shared.procAt n = some p ∧ p.state ≠ .ZOMBIE ∧ P p.regCtx

/-! ### Steps -/

/-- The processes are the same. -/
theorem Stands.same (h : Stands n P s) (hs' : WithShared s s.shared s') : Stands n P s' :=
  ⟨hs'.shared.symm ▸ h.invariant, hs'.shared.symm ▸ h.process⟩

/-- One process changes, but neither its state nor its registers. -/
theorem Stands.update {p q : PCB} (h : Stands n P s) (hs' : WithShared s k s')
    (hinvariant : k.Invariant) (hp : s.shared.procAt m = some p)
    (hmap : k.procAt = Function.update s.shared.procAt m (some q)) (hstate : q.state = p.state)
    (hcontext : q.regCtx = p.regCtx) : Stands n P s' := by
  obtain ⟨r, hr, halive, hP⟩ := h.process
  refine ⟨hs'.shared.symm ▸ hinvariant, ?_⟩
  rw [hs'.shared, hmap]
  by_cases hn : n = m
  · obtain rfl := hn
    obtain rfl := Option.some.inj (hp.symm.trans hr)
    refine ⟨q, Function.update_self .., ?_, ?_⟩
    · rw [hstate]
      exact halive
    · rw [hcontext]
      exact hP
  · exact ⟨r, (Function.update_of_ne hn ..).trans hr, halive, hP⟩

/-- A process stands through an access to the kernel heap. -/
theorem stands_touch {object : HeapObject} :
    Triple (Stands n P) (touch object) fun _ => Stands n P :=
  fun _ hs _ _ h => hs.same (returns_touch h)

/-- It does through a dereference. -/
theorem stands_deref : Triple (Stands n P) (deref ref) fun _ => Stands n P :=
  fun _ hs _ _ h => hs.same (returns_deref h).2

/-- It does through a result or a panic of the resources. -/
theorem stands_check {α : Type} {x : Except Panic α} :
    Triple (Stands n P) (check x) fun _ => Stands n P := by
  intro s hs a s' h
  rw [(returns_check.mp h).2]
  exact hs

/-- It does when the current thread changes. -/
theorem stands_setCurrentThread : Triple (Stands n P) (setCurrentThread ref) fun _ => Stands n P :=
  .modify fun _ hs => ⟨hs.invariant, hs.process⟩

/-- It does when an exception is left. -/
theorem stands_leaveException : Triple (Stands n P) leaveException fun _ => Stands n P :=
  .modify fun _ hs => ⟨hs.invariant, hs.process⟩

/-- It does when the identifier is replaced. -/
theorem stands_replaceASID {asid : Byte} :
    Triple (Stands n P) (replaceASID asid) fun _ => Stands n P :=
  .modify fun _ hs => ⟨hs.invariant, hs.process⟩

/-- It does when another guard is borrowed. -/
theorem stands_borrow : Triple (Stands n P) (borrow (.process m)) fun _ => Stands n P := by
  intro s hs u s' h
  obtain ⟨k, hk, hs'⟩ := returns_borrow h
  obtain ⟨p, hp, hmap⟩ := borrow_procAt hk
  exact hs.update hs' (hs.invariant.borrow hk) hp hmap rfl rfl

/-- The end of a guard: what is alive stays. -/
theorem stands_reset : Triple (Stands n P) (reset (some (.process m))) fun _ => Stands n P := by
  intro s hs u s' h
  obtain ⟨k, hk, hs'⟩ := returns_reset h
  obtain ⟨p, hp, hmap⟩ := reset_procAt hk hs.invariant.slotted
  have hinvariant := hs.invariant.reset hk
  by_cases hlast : p.state = .ZOMBIE ∧ p.refcount - 1 = 0
  · obtain ⟨r, hr, halive, hP⟩ := hs.process
    have hne : n ≠ m := by
      rintro rfl
      obtain rfl := Option.some.inj (hp.symm.trans hr)
      exact halive hlast.1
    refine ⟨hs'.shared.symm ▸ hinvariant, r, ?_, halive, hP⟩
    rw [hs'.shared, hmap, Function.update_of_ne hne, hr]
  · rw [afterReset, if_neg hlast] at hmap
    exact hs.update hs' hinvariant hp hmap rfl rfl

/-- The registers of a process change. -/
theorem stands_writeContext (hP : m = n → ∀ r, P r → Q (f r)) (hne : m ≠ n → ∀ r, P r → Q r) :
    Triple (Stands n P) (writeContext (.process m) f) fun _ => Stands n Q := by
  intro s hs u s' h
  obtain ⟨p, hp, hs'⟩ := returns_writeContext h
  have hp' := pcb_ok_iff.mp hp
  have hmap := setPcb_procAt hp' { p with regCtx := f p.regCtx }
  obtain ⟨r, hr, halive, hr'⟩ := hs.process
  refine ⟨?_, ?_⟩
  · rw [hs'.shared]
    exact hs.invariant.setPcb (procAt_iff.mp hp') rfl rfl
  · rw [hs'.shared]
    show ∃ q, (s.shared.setPcb m { p with regCtx := f p.regCtx }).procAt n = some q ∧ _
    rw [hmap]
    by_cases hn : n = m
    · obtain rfl := hn
      obtain rfl := Option.some.inj (hp'.symm.trans hr)
      exact ⟨_, Function.update_self .., halive, hP rfl _ hr'⟩
    · exact ⟨r, (Function.update_of_ne hn ..).trans hr, halive, hne (Ne.symm hn) _ hr'⟩

/-- A guard that was looked up is a guard of a process. -/
theorem stands_lookup {idx : Word} : Triple (Stands n P) (lookup idx) fun guard s =>
    (guard = none ∨ guard = some (.process idx.toNat)) ∧ Stands n P s := by
  intro s hs guard s' h
  rcases returns_lookup h with ⟨-, rfl, hs'⟩ | ⟨slot, k, hslot, rfl, hk, hs'⟩
  · exact ⟨.inl rfl, hs.same hs'⟩
  · obtain ⟨rfl, -⟩ := guard_eq_some.mp hslot
    obtain ⟨p, hp, hmap⟩ := borrow_procAt hk
    exact ⟨.inr rfl, hs.update hs' (hs.invariant.borrow hk) hp hmap rfl rfl⟩

/-! ### The queue -/

/-- It does when a process goes into the queue. -/
theorem stands_enqueue : Triple (Stands n P) (enqueue (some (.process m))) fun _ => Stands n P := by
  refine stands_deref.bind fun p => stands_check.bind fun _ => stands_touch.bind fun _ => ?_
  refine Triple.bind (Q := fun _ => Stands n P) (.modify fun _ hs => ?_) fun _ => stands_reset
  exact ⟨hs.invariant, hs.process⟩

/-- It does when one comes out. -/
theorem stands_dequeue : Triple (Stands n P) dequeue fun guard s =>
    (guard = none ∨ ∃ slot, guard = some (.process slot)) ∧ Stands n P s := by
  refine stands_touch.bind fun _ => ?_
  intro s hs guard s' h
  replace h := returns_modify_bind.mp (returns_get_bind.mp h)
  have hpopped : Stands n P { s with scheduler := s.scheduler.pop.2 } :=
    ⟨hs.invariant, hs.process⟩
  obtain ⟨hguard, hs'⟩ := stands_lookup hpopped h
  exact ⟨hguard.imp_right fun heq => ⟨_, heq⟩, hs'⟩

/-- It does when the kernel reschedules. -/
theorem stands_reschedule :
    Triple (Stands n P) (reschedule vm (some (.process m))) fun _ => Stands n P := by
  intro s hs u s' h
  replace h := returns_get_bind.mp h
  split at h
  · obtain ⟨_, t, -, h⟩ := returns_bind.mp h
    obtain ⟨_, t1, -, h⟩ := returns_bind.mp h
    exact absurd h not_returns_throw
  · obtain ⟨guard, t, hdequeue, h⟩ := returns_bind.mp h
    obtain ⟨hguard, ht⟩ := stands_dequeue hs hdequeue
    rcases hguard with rfl | ⟨slot, rfl⟩
    · exact absurd h not_returns_throw
    · have hrest : Triple (Stands n P)
          (do
            let p ← deref (.process slot)
            replaceASID p.addrSpace.asid
            setCurrentThread (.process slot)
            reset (some (.process slot))
            reset (some (.process m)))
          fun _ => Stands n P :=
        stands_deref.bind fun p => stands_replaceASID.bind fun _ =>
          stands_setCurrentThread.bind fun _ => stands_reset.bind fun _ => stands_reset
      exact hrest ht h

/-- **After the `switch`.**  The registers of the old thread are stored in its process. -/
theorem stands_finish {cause : ExceptionType} {ctx : RegisterContext}
    (hP : m = n → ∀ r, P r → Q ctx) (hne : m ≠ n → ∀ r, P r → Q r) :
    Triple (Stands n P) (finish vm cause ctx (some (.process m))) fun _ => Stands n Q := by
  have hwrite : Triple (Stands n P) (writeContext (.process m) fun _ => ctx)
      fun _ => Stands n Q := stands_writeContext hP hne
  intro s hs u s' h
  replace h := returns_get_bind.mp h
  split at h
  · have hresume : Triple (Stands n P) (resume (.process m) ctx) fun _ => Stands n Q :=
      stands_setCurrentThread.bind fun _ => hwrite.bind fun _ => stands_reset
    exact hresume hs h
  · have hrest : Triple (Stands n P)
        (do
          writeContext (.process m) fun _ => ctx
          borrow (.process m)
          enqueue (some (.process m))
          reschedule vm (some (.process m)))
        fun _ => Stands n Q :=
      hwrite.bind fun _ => stands_borrow.bind fun _ => stands_enqueue.bind fun _ =>
        stands_reschedule
    exact hrest hs h

/-- The end of a trap. -/
theorem stands_leave : Triple (Stands n P)
    (do leaveException; let p ← deref (← get).currentThread; pure p.regCtx)
    fun _ => Stands n P := by
  refine stands_leaveException.bind fun _ => ?_
  intro s hs ctx s' h
  obtain ⟨p, t, hderef, h⟩ := returns_bind.mp (returns_get_bind.mp h)
  obtain ⟨-, rfl⟩ := returns_pure.mp h
  exact stands_deref hs hderef

/-! ### FORK -/

/-- The child is put in the queue, after its registers were changed. -/
theorem stands_enqueueChild {pid : Word} {ctx : RegisterContext}
    (hP : pid.toNat = n → ∀ r, P r → Q (f r)) (hne : pid.toNat ≠ n → ∀ r, P r → Q r) :
    Triple (Stands n P)
      (do
        match ← lookup pid with
        | none => throw .nullPointer
        | some newProc => do
            writeContext newProc f
            enqueue (← lookup pid)
            reset (some newProc)
            pure ctx)
      fun ctx' s => ctx' = ctx ∧ Stands n Q s := by
  intro s hs ctx' s' h
  obtain ⟨guard, t, hlookup, h⟩ := returns_bind.mp h
  obtain ⟨hguard, ht⟩ := stands_lookup hs hlookup
  rcases hguard with rfl | rfl
  · exact absurd h not_returns_throw
  have hrest : Triple (Stands n P)
      (do
        writeContext (.process pid.toNat) f
        let guard ← lookup pid
        enqueue guard
        reset (some (.process pid.toNat))
        pure ctx)
      fun ctx' s => ctx' = ctx ∧ Stands n Q s := by
    refine Triple.bind (stands_writeContext hP hne) fun _ => stands_lookup.bind fun guard => ?_
    refine Triple.bind (Q := fun _ => Stands n Q) ?_ fun _ => ?_
    · intro s ⟨hguard, hs⟩ u s' h
      rcases hguard with rfl | rfl
      · exact absurd h not_returns_throw
      · exact stands_enqueue hs h
    · exact stands_reset.bind fun _ => Triple.pure fun _ hs => ⟨rfl, hs⟩
  exact hrest ht h

/-- A process that is forked gets a child with the PID that is handed out next. -/
theorem forkProcess_nextPID {k' : SharedResources} {pid newPID : Word}
    {ctx : Option RegisterContext} {brk0 : Word} {p : PCB}
    (h : k.forkProcess pid ctx brk0 = .ok (newPID, k')) (hp : k.procAt pid.toNat = some p)
    (hslotted : k.Slotted) : newPID = k.nextPID := by
  rw [forkProcess, procAt_iff.mp hp] at h
  simp only at h
  split at h
  case h_1 => cases h
  case h_2 pages hpages =>
    obtain ⟨⟨pages, memory, physMem⟩, -, h⟩ := Except.bind_ok_iff.mp h
    obtain ⟨⟨space, asids⟩, -, h⟩ := Except.bind_ok_iff.mp h
    exact (install_procAt (k := { k with memory, physMem, reservedASIDs := asids }) h rfl
      (hslotted.of_eq rfl rfl)).1

/-- A changed process leaves the free slots. -/
theorem setPcb_nextPID {p : PCB} : (k.setPcb n p).nextPID = k.nextPID := by
  rw [nextPID, nextPID, setPcb, List.length_set]

/-- The PID 0 is handed out next exactly when it was the last one to be freed. -/
theorem nextPID_eq_zero_iff {p : PCB} (hp : k.procAt n = some p) (hslotted : k.Slotted) :
    k.nextPID = 0 ↔ k.freePids.getLast? = some 0 := by
  rw [nextPID]
  cases hlast : k.freePids.getLast? with
  | none =>
      have hlt := Slots.lt_of_getElem? (procAt_iff.mp hp)
      have hshort := hslotted.short
      unfold numASIDs at hshort
      refine iff_of_false (fun h => ?_) (Option.some_ne_none 0).symm
      have hzero := congrArg BitVec.toNat h
      rw [Option.getD_none, BitVec.toNat_ofNat, Nat.mod_eq_of_lt (by omega)] at hzero
      rw [hzero] at hlt
      exact Nat.not_lt_zero n hlt
  | some last => rw [Option.getD_some, Option.some.injEq]

/-- The child sees 0. -/
def SeesZero (ctx : RegisterContext) : Prop := ctx.accessRegister Register.V0 = 0

/-- **FORK.**  The child is new and sees 0; the registers of the parent have its PID. -/
theorem fork_stands {brk0 : Word} {ctx ctx' : RegisterContext} (hs : Stands n (fun _ => True) s)
    (h : Returns (fork brk0 (.process n) ctx) s ctx' s') :
    s.shared.procAt s.shared.nextPID.toNat = none ∧
      ctx' = ctx.setRegister Register.V0 s.shared.nextPID ∧ Stands n (fun _ => True) s' ∧
      Stands s.shared.nextPID.toNat SeesZero s' := by
  obtain ⟨p, t, hderef, h⟩ := returns_bind.mp h
  obtain ⟨hp, hsame⟩ := returns_deref hderef
  obtain ⟨_, t1, htouch, h⟩ := returns_bind.mp h
  have hsame1 := returns_touch htouch
  rw [hsame.shared] at hsame1
  replace hsame1 := hsame.trans hsame1
  have hs1 := hs.same hsame1
  obtain ⟨newPID, t2, hmanage, h⟩ := returns_bind.mp h
  obtain ⟨k, hfork, hforked⟩ := returns_manage hmanage
  have hshared := hsame1.shared
  rw [← hshared] at hp ⊢
  have hp' := pcb_ok_iff.mp hp
  have hpid : p.PID.toNat = n := hs1.invariant.slotted.pids (procAt_iff.mp hp')
  have hnext := forkProcess_nextPID hfork (hpid.symm ▸ hp') hs1.invariant.slotted
  have hstep : t1.shared.Step (.forkProcess p.PID (some ctx) brk0) k := step_forkProcess hfork
  have hinvariant := invariant_step hs1.invariant hstep
  rcases forkProcess_procAt hfork hs1.invariant.slotted with
    ⟨-, -, hnone⟩ | ⟨_, child, -, hfresh, hempty, hmap, -⟩
  · rw [hpid, hp'] at hnone
    cases hnone
  subst hnext
  have hne : n ≠ t1.shared.nextPID.toNat := by
    intro heq
    rw [← heq, hp'] at hempty
    cases hempty
  have hparent : Stands n (fun _ => True) t2 := by
    obtain ⟨q, hq, halive, -⟩ := hs1.process
    refine ⟨hforked.shared.symm ▸ hinvariant, q, ?_, halive, trivial⟩
    rw [hforked.shared, hmap, Function.update_of_ne hne, hq]
  have hchild : Stands t1.shared.nextPID.toNat (fun _ => True) t2 := by
    refine ⟨hforked.shared.symm ▸ hinvariant, child, ?_, hfresh.alive, trivial⟩
    rw [hforked.shared, hmap, Function.update_self]
  obtain ⟨hctx, hparent'⟩ :=
    stands_enqueueChild (fun _ _ _ => trivial) (fun _ _ _ => trivial) hparent h
  have hzero : ∀ r : RegisterContext, True → SeesZero (r.setRegister Register.V0 0) :=
    fun _ _ => accessRegister_V0
  obtain ⟨-, hchild'⟩ :=
    stands_enqueueChild (fun _ => hzero) (fun hne => absurd rfl hne) hchild h
  exact ⟨hempty, hctx, hparent', hchild'⟩

/-- After a call by the process in slot `n` there is one process more: it sees 0, and the
caller sees the PID of it, which is not 0. -/
def ToldApart (k k' : SharedResources) (n : Nat) : Prop :=
  ∃ pid child parent, k.procAt pid.toNat = none ∧ k'.procAt pid.toNat = some child ∧
    child.PID = pid ∧ child.regCtx.accessRegister Register.V0 = 0 ∧
    k'.procAt n = some parent ∧ parent.regCtx.accessRegister Register.V0 = pid ∧ pid ≠ 0

/-- **Trap.**  The two processes as the whole handler leaves them. -/
theorem takeTrap_fork {brk0 badVAddr : Word} {ctx regCtx : RegisterContext}
    (hs : Stands n (fun _ => True) s) (hthread : s.currentThread = .process n)
    (hcause : ExceptionType.ofCause ctx.cause = .syscall)
    (hcall : ctx.accessRegister Register.V0 = FORK)
    (h : Returns (takeTrap vm brk0 badVAddr ctx) s regCtx s') :
    s.shared.procAt s.shared.nextPID.toNat = none ∧
      Stands n (fun regs => regs.accessRegister Register.V0 = s.shared.nextPID) s' ∧
      Stands s.shared.nextPID.toNat SeesZero s' := by
  obtain ⟨k, accesses, ctx1, oldThread, t, t1, hk, hdispatch, hfinish, hleave⟩ :=
    returns_takeTrap h
  rw [hthread] at hk hdispatch
  have hborrow : s.shared.borrow n = .ok k := hk
  obtain ⟨p, hp, hmap⟩ := borrow_procAt hborrow
  have hentered : Stands n (fun _ => True) (s.entered k accesses) := by
    have hborrowed : Stands n (fun _ => True) { s with shared := k, accesses } :=
      hs.update ⟨accesses, rfl⟩ (hs.invariant.borrow hborrow) hp hmap rfl rfl
    exact ⟨hborrowed.invariant, hborrowed.process⟩
  have hnext : k.nextPID = s.shared.nextPID := by
    obtain ⟨_, -, hk'⟩ := Except.bind_ok_iff.mp hborrow
    rw [← Except.ok.inj hk']
    exact setPcb_nextPID
  unfold dispatch at hdispatch
  rw [hcause, syscall_fork hcall] at hdispatch
  obtain ⟨ctx2, t2, hfork, hdispatch⟩ := returns_bind.mp hdispatch
  obtain ⟨hr, rfl⟩ := returns_pure.mp hdispatch
  obtain ⟨rfl, rfl⟩ := Prod.mk.inj hr
  obtain ⟨hempty, rfl, hparent, hchild⟩ := fork_stands hentered hfork
  replace hempty : k.procAt k.nextPID.toNat = none := hempty
  replace hchild : Stands k.nextPID.toNat SeesZero t := hchild
  have hne : n ≠ k.nextPID.toNat := by
    intro heq
    rw [← heq, hmap, Function.update_self] at hempty
    cases hempty
  have hparent1 : Stands n (fun regs => regs.accessRegister Register.V0 = k.nextPID) t1 :=
    stands_finish (fun _ _ _ => accessRegister_V0) (fun h => absurd rfl h) hparent hfinish
  have hchild1 : Stands k.nextPID.toNat SeesZero t1 :=
    stands_finish (fun h => absurd h hne) (fun _ _ => id) hchild hfinish
  rw [hnext] at hempty hparent1 hchild1 hne
  rw [hmap, Function.update_of_ne hne.symm] at hempty
  exact ⟨hempty, stands_leave hparent1 hleave, stands_leave hchild1 hleave⟩

/-- **Telling apart.**  After any operations in any order, a process that runs calls
`FORK`: when the trap is handled, the child sees 0 and its parent sees the PID of it,
which is not 0, exactly when the last PID that was freed is not 0. -/
theorem fork_toldApart_iff {imageEnd brk0 brk1 badVAddr : Word} {physMem : Hardware.Memory}
    {k0 : SharedResources} {p : PCB} {ctx regCtx : RegisterContext}
    (hboot : SharedResources.construct imageEnd brk0 physMem = .ok k0)
    (hrun : Reaches SharedResources.Step (fun _ _ => True) k0 s.shared)
    (hthread : s.currentThread = .process n) (hp : s.shared.procAt n = some p)
    (hruns : p.state ≠ .ZOMBIE) (hcause : ExceptionType.ofCause ctx.cause = .syscall)
    (hcall : ctx.accessRegister Register.V0 = FORK)
    (h : Returns (takeTrap vm brk1 badVAddr ctx) s regCtx s') :
    ToldApart s.shared s'.shared n ↔ s.shared.freePids.getLast? ≠ some 0 := by
  have hinvariant : s.shared.Invariant := invariant_of_reaches hboot hrun
  obtain ⟨hempty, hparent, hchild⟩ :=
    takeTrap_fork ⟨hinvariant, p, hp, hruns, trivial⟩ hthread hcause hcall h
  obtain ⟨parent, hparent', -, hvalue⟩ := hparent.process
  rw [Ne, ← nextPID_eq_zero_iff hp hinvariant.slotted]
  constructor
  · rintro ⟨pid, -, other, -, -, -, -, hother, hpid, hne⟩ hzero
    obtain rfl := Option.some.inj (hparent'.symm.trans hother)
    rw [← hpid, hvalue] at hne
    exact hne hzero
  · intro hne
    obtain ⟨child, hchild', -, hsees⟩ := hchild.process
    have hpid : child.PID = s.shared.nextPID :=
      BitVec.eq_of_toNat_eq (hchild.invariant.slotted.pids (procAt_iff.mp hchild'))
    exact ⟨s.shared.nextPID, child, parent, hempty, hchild', hpid, hsees, hparent', hvalue, hne⟩

/-- The registers of a process that calls `FORK`. -/
def forkContext : RegisterContext :=
  ({ cause := 0x20 } : RegisterContext).setRegister Register.V0 FORK

/-- The operations, and a call by the process in slot `n`, after which `test` holds of the
free PIDs and of the two process tables. -/
def forksAfter (ops : List Operation) (n : Nat)
    (test : SharedResources → SharedResources → Bool) : Bool :=
  (bootedRun (fun _ _ => True) ops).any fun k =>
    (after (takeTrap zeroFiles 0 0 forkContext)
      { shared := k, currentThread := .process n, exceptionDepth := 0 }).any fun s' =>
        test k s'.shared

/-- A test that passes names a run and a fork behind it. -/
theorem forksAfter_spec {ops : List Operation} {test : SharedResources → SharedResources → Bool}
    (h : forksAfter ops n test = true) :
    ∃ k0 k regCtx s', SharedResources.construct 0x80001000 0 (fun _ => 0) = .ok k0 ∧
      Reaches SharedResources.Step (fun _ _ => True) k0 k ∧
      bootedRun (fun _ _ => True) ops = some k ∧
      Returns (takeTrap zeroFiles 0 0 forkContext)
        { shared := k, currentThread := .process n, exceptionDepth := 0 } regCtx s' ∧
      test k s'.shared = true := by
  obtain ⟨k, hk, h⟩ := (Option.any_eq_true _ _).mp h
  obtain ⟨s', hs', htest⟩ := (Option.any_eq_true _ _).mp h
  obtain ⟨k0, hboot, hrun⟩ := reaches_of_bootedRun hk
  obtain ⟨regCtx, hreturns⟩ := after_eq_some.mp hs'
  exact ⟨k0, k, regCtx, s', hboot, hrun, hk, hreturns, htest⟩

/-- The first process forks twice and the first child exits. -/
def siblingOperations : List Operation :=
  [.createProcess zeroFiles [] 0, .forkProcess 0 none 0, .forkProcess 0 none 0,
    .borrow 1, .markForDeath 1, .reset 1]

/-- The first process forks and exits. -/
def orphanOperations : List Operation :=
  [.createProcess zeroFiles [] 0, .forkProcess 0 none 0,
    .borrow 0, .markForDeath 0, .reset 0]

/-- The guarantee for a child that gets the PID of a dead one. -/
theorem sibling_toldApart :
    ∃ k regCtx s', bootedRun (fun _ _ => True) siblingOperations = some k ∧
      Returns (takeTrap zeroFiles 0 0 forkContext)
        { shared := k, currentThread := .process 0, exceptionDepth := 0 } regCtx s' ∧
      k.freePids = [1] ∧ ToldApart k s'.shared 0 := by
  have hforks : forksAfter siblingOperations 0 (fun k _ => decide (k.freePids = [1]) &&
      (k.procAt 0).any fun p => decide (p.state ≠ .ZOMBIE)) = true := by
    decide +kernel
  obtain ⟨k0, k, regCtx, s', hboot, hrun, hk, hreturns, htest⟩ := forksAfter_spec hforks
  obtain ⟨hfree, hprocess⟩ := Bool.and_eq_true_iff.mp htest
  obtain ⟨p, hp, halive⟩ := (Option.any_eq_true _ _).mp hprocess
  refine ⟨k, regCtx, s', hk, hreturns, of_decide_eq_true hfree, ?_⟩
  refine (fork_toldApart_iff hboot hrun rfl hp (of_decide_eq_true halive) (by decide) (by decide)
    hreturns).mpr ?_
  show k.freePids.getLast? ≠ some 0
  rw [of_decide_eq_true hfree]
  decide

/-- **Not told apart.**  The first process has forked and exited.  When its child forks,
the PID 0 is handed out again, so that parent and child both see 0. -/
theorem orphan_not_toldApart :
    ∃ k0 k regCtx s', SharedResources.construct 0x80001000 0 (fun _ => 0) = .ok k0 ∧
      Reaches SharedResources.Step (fun _ _ => True) k0 k ∧
      bootedRun (fun _ _ => True) orphanOperations = some k ∧
      (k.procAt 1).map PCB.state = some .READY ∧
      Returns (takeTrap zeroFiles 0 0 forkContext)
        { shared := k, currentThread := .process 1, exceptionDepth := 0 } regCtx s' ∧
      (s'.shared.procAt 0).map (fun p => p.regCtx.accessRegister Register.V0) = some 0 ∧
      (s'.shared.procAt 1).map (fun p => p.regCtx.accessRegister Register.V0) = some 0 ∧
      ¬ ToldApart k s'.shared 1 := by
  have hforks : forksAfter orphanOperations 1 (fun k k' =>
      decide ((k.procAt 1).map PCB.state = some .READY) &&
        (decide ((k'.procAt 0).map (fun p => p.regCtx.accessRegister Register.V0) = some 0) &&
          decide ((k'.procAt 1).map (fun p => p.regCtx.accessRegister Register.V0) = some 0))) =
        true := by
    decide +kernel
  obtain ⟨k0, k, regCtx, s', hboot, hrun, hk, hreturns, htest⟩ := forksAfter_spec hforks
  obtain ⟨hready, htest⟩ := Bool.and_eq_true_iff.mp htest
  obtain ⟨hchild, hparent⟩ := Bool.and_eq_true_iff.mp htest
  replace hparent := of_decide_eq_true hparent
  refine ⟨k0, k, regCtx, s', hboot, hrun, hk, of_decide_eq_true hready, hreturns,
    of_decide_eq_true hchild, hparent, ?_⟩
  rintro ⟨pid, -, parent, -, -, -, -, hp, hpid, hne⟩
  rw [hp, Option.map_some, hpid] at hparent
  exact hne (Option.some.inj hparent)

end Kernel
