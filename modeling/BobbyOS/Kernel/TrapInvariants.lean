import BobbyOS.Kernel.TrapSteps

/-!
# Invariants of the trap handler

`Kept own I` lists the changes of the state that all parts of the handler but `exec`,
`fork` and the stores of `READ_STRING` consist of: `I` survives each of them.  It
then survives the handler itself, wherever it stops, once it survives the others;
for the stores it is enough that `I` does not look at the physical memory.  Only the
processes in the slots `own` are changed other than through guards: the one that traps,
and a child.

* `Kept.syscall`, `Kept.dispatch`, `Kept.finish`: the system calls, the `switch`, and the
  end of `handleTrap`;
* `Kept.takeTrap`, `Kept.cppmain`: a whole trap and a boot.
-/

namespace Kernel

open Effects

/-- A request that concerns no file. -/
def VMRequest.isConsole : VMRequest → Bool
  | .fopen _ _ | .fread _ _ | .fseek _ _ _ | .fclose _ => false
  | .halt | .printString _ | .printInteger _ | .readInteger | .stdin _ => true

/-- The process is one of these; the kernel's own always is. -/
def GuardRef.Among (own : Nat → Prop) : GuardRef → Prop
  | .kernel => True
  | .process slot => own slot

/-- All processes. -/
abbrev Everyone : Nat → Prop := fun _ => True

/-- Every process is one of everyone. -/
theorem among_everyone (ref : GuardRef) : ref.Among Everyone := by
  cases ref <;> trivial

/-- What the handler does to the process manager without `exec` and `fork`, and
without stores to memory.  Guards come and go on every process. -/
inductive Undisturbed (own : Nat → Prop) (k : SharedResources) : SharedResources → Prop
  | borrow {ref : GuardRef} {k' : SharedResources} (h : ref.borrow k = .ok k') :
      Undisturbed own k k'
  | reset {ref : GuardRef} {k' : SharedResources} (h : ref.reset k = .ok k') :
      Undisturbed own k k'
  | markForDeath {slot : Nat} {k' : SharedResources} (hown : own slot)
      (h : k.markForDeath slot = .ok k') : Undisturbed own k k'
  | updateBrk {slot : Nat} {vaddr : Word} {valid : Bool} {k' : SharedResources} (hown : own slot)
      (h : k.updateBrk slot vaddr = .ok (valid, k')) : Undisturbed own k k'
  | context {ref : GuardRef} {p : PCB} (hown : ref.Among own) (h : ref.pcb k = .ok p)
      (regCtx : RegisterContext) : Undisturbed own k (ref.setPcb k { p with regCtx })
  | log {req : VMRequest} (hreq : req.isConsole = true) :
      Undisturbed own k { k with log := req :: k.log }

/-- Such a step is an operation of the process manager, or it changes the kernel's own
process, registers or the requests. -/
theorem Undisturbed.cases {own : Nat → Prop} {k k' : SharedResources} (h : Undisturbed own k k') :
    (∃ op, k.Step op k') ∨
    (∃ kernelProcess, kernelProcess.addrSpace = k.kernelProcess.addrSpace ∧
      k' = { k with kernelProcess }) ∨
    (∃ n p regCtx, k.procAt n = some p ∧ k' = k.setPcb n { p with regCtx }) ∨
    ∃ log, k' = { k with log } := by
  cases h with
  | @borrow ref _ h =>
      cases ref with
      | kernel =>
          obtain rfl := Except.ok.inj h
          exact .inr (.inl ⟨{ k.kernelProcess with refcount := k.kernelProcess.refcount + 1 }, rfl,
            rfl⟩)
      | process n => exact .inl ⟨.borrow n, h⟩
  | @reset ref _ h =>
      cases ref with
      | kernel => exact .inr (.inr (.inr ⟨k.log, (Except.ok.inj h).symm⟩))
      | process n => exact .inl ⟨.reset n, h⟩
  | @markForDeath n _ _ h => exact .inl ⟨.markForDeath n, h⟩
  | @updateBrk n vaddr valid _ _ h =>
      exact .inl ⟨.updateBrk n vaddr, SharedResources.step_updateBrk h⟩
  | @context ref p _ h regCtx =>
      cases ref with
      | kernel =>
          obtain rfl := Except.ok.inj h
          exact .inr (.inl ⟨{ k.kernelProcess with regCtx }, rfl, rfl⟩)
      | process n =>
          exact .inr (.inr (.inl ⟨n, p, regCtx, SharedResources.pcb_ok_iff.mp h, rfl⟩))
  | log _ => exact .inr (.inr (.inr ⟨_, rfl⟩))

/-- An invariant of the steps of the handler. -/
structure Kept (own : Nat → Prop) (I : KernelState → Prop) : Prop where
  access : ∀ {s : KernelState} (a : HeapAccess), I s → I { s with accesses := s.accesses ++ [a] }
  control : ∀ {s t : KernelState}, I s → t.shared = s.shared → t.tlb = s.tlb →
    t.accesses = s.accesses → I t
  manage : ∀ {s : KernelState} {k : SharedResources}, I s → Undisturbed own s.shared k →
    I { s with shared := k }
  fill : ∀ {s : KernelState} {ref : GuardRef} {p : PCB} {vaddr : Word} {entry : TLBEntry}, I s →
    ref.pcb s.shared = .ok p → p.addrSpace.translate vaddr = .ok entry → I (s.filled entry)

/-- The invariant does not look at the physical memory. -/
def KeptByStores (I : KernelState → Prop) : Prop :=
  ∀ {s : KernelState} (physMem : Hardware.Memory), I s →
    I { s with shared := { s.shared with physMem } }

section Manage

variable {I : KernelState → Prop}

/-- An operation of the process manager, when the invariant survives it. -/
theorem keeps_manage {α : Type} {f : SharedResources → Except Panic (α × SharedResources)}
    (hf : ∀ {s a k}, I s → f s.shared = .ok (a, k) → I { s with shared := k }) :
    Keeps I (manage f) := by
  intro s hs
  show I (final (do let done ← check (f s.shared); _) s)
  cases h : f s.shared with
  | ok done => exact hf hs h
  | error e => exact hs

/-- One without a result. -/
theorem keeps_manage' {f : SharedResources → Except Panic SharedResources}
    (hf : ∀ {s k}, I s → f s.shared = .ok k → I { s with shared := k }) :
    Keeps I (manage' f) := by
  intro s hs
  show I (final (do let shared ← check (f s.shared); _) s)
  cases h : f s.shared with
  | ok k => exact hf hs h
  | error e => exact hs

end Manage

/-- The call changes the process that makes it: it ends, or gets an image or pages. -/
def ChangesCaller (ctx : RegisterContext) : Prop :=
  ctx.accessRegister Register.V0 = EXIT ∨ ctx.accessRegister Register.V0 = EXEC ∨
    ctx.accessRegister Register.V0 = BRK

/-! ### The old thread -/

/-- The old thread behind the `switch`. -/
def OldThread (m : Nat) (guard : Option GuardRef) : Prop :=
  guard = none ∨ guard = some (.process m)

section OldThread

variable {I : KernelState → Prop} {vm : Tunnel} {brk0 badVAddr : Word} {m : Nat}
  {ctx : RegisterContext}

/-- A system call ends its process, or hands its guard on. -/
theorem oldThread_syscall :
    Triple I (syscall vm brk0 (.process m) ctx) fun r _ => OldThread m r.2 := by
  have hsame {α : Type} {x : KernelM α} {f : α → RegisterContext} :
      Triple I (x >>= fun a => pure (f a, some (.process m))) fun r _ => OldThread m r.2 :=
    .after fun _ => .pure fun _ _ => .inr rfl
  have hnone {I : KernelState → Prop} {α : Type} {x : KernelM α} {f : α → RegisterContext} :
      Triple I (x >>= fun a => pure (f a, none)) fun r _ => OldThread m r.2 :=
    .after fun _ => .pure fun _ _ => .inl rfl
  unfold syscall
  split
  · exact hsame
  split
  · exact hsame
  split
  · exact hsame
  split
  · exact hsame
  split
  · exact hnone
  split
  · exact hsame
  split
  · refine .after fun valid => ?_
    split
    · exact .pure fun _ _ => .inr rfl
    · exact .after fun _ => hnone
  split
  · exact hsame
  · exact hsame

/-- So does the `switch`. -/
theorem oldThread_dispatch :
    Triple I (dispatch vm brk0 badVAddr (.process m) ctx) fun r _ => OldThread m r.2 := by
  unfold dispatch
  split
  · exact .pure fun _ _ => .inr rfl
  · exact .after fun _ => .pure fun _ _ => .inr rfl
  · exact .after fun _ => .pure fun _ _ => .inr rfl
  · exact oldThread_syscall
  · exact .after fun _ => .after fun _ => .throw
  · exact .after fun _ => .throw
  · exact .after fun _ => .after fun _ => .after fun _ => .pure fun _ _ => .inr rfl

end OldThread

namespace Kept

variable {own : Nat → Prop} {I : KernelState → Prop} {ref : GuardRef} {n : Nat} {vm : Tunnel}

/-! ### Access to the state -/

/-- An access to the kernel heap keeps it. -/
theorem touch (hI : Kept own I) (object : HeapObject) : Keeps I (touch object) :=
  fun _ hs => hI.access _ hs

/-- So does one to a control block. -/
theorem touchPcb (hI : Kept own I) : Keeps I (touchPcb ref) := by
  cases ref with
  | kernel => exact keeps_pure
  | process slot => exact hI.touch _

/-- So does one to a page table. -/
theorem touchPageTable (hI : Kept own I) : Keeps I (touchPageTable ref) := by
  cases ref with
  | kernel => exact keeps_pure
  | process slot => exact hI.touch _

/-- So does a result or a panic of the resources. -/
theorem check {α : Type} (x : Except Panic α) : Keeps I (check x) := by
  cases x with
  | ok a => exact keeps_pure
  | error e => exact keeps_throw

/-- So does a step that leaves resources, TLB and accesses. -/
theorem control_step (hI : Kept own I) {g : KernelState → KernelState}
    (hshared : ∀ s, (g s).shared = s.shared) (htlb : ∀ s, (g s).tlb = s.tlb)
    (haccesses : ∀ s, (g s).accesses = s.accesses) : Keeps I (modify g : KernelM Unit) :=
  fun s hs => hI.control hs (hshared s) (htlb s) (haccesses s)

/-- So does another current thread. -/
theorem setCurrentThread (hI : Kept own I) : Keeps I (setCurrentThread ref) :=
  hI.control_step (fun _ => rfl) (fun _ => rfl) fun _ => rfl

/-- So does entering an exception. -/
theorem enterException (hI : Kept own I) : Keeps I enterException :=
  hI.control_step (fun _ => rfl) (fun _ => rfl) fun _ => rfl

/-- So does leaving one. -/
theorem leaveException (hI : Kept own I) : Keeps I leaveException :=
  hI.control_step (fun _ => rfl) (fun _ => rfl) fun _ => rfl

/-- So does replacing the identifier. -/
theorem replaceASID (hI : Kept own I) (asid : Byte) : Keeps I (replaceASID asid) :=
  hI.control_step (fun _ => rfl) (fun _ => rfl) fun _ => rfl

/-- An operation of the process manager that is one of the changes. -/
theorem manage_step (hI : Kept own I) {α : Type}
    {f : SharedResources → Except Panic (α × SharedResources)}
    (hf : ∀ {k a k'}, f k = .ok (a, k') → Undisturbed own k k') : Keeps I (Kernel.manage f) :=
  keeps_manage fun hs h => hI.manage hs (hf h)

/-- One without a result. -/
theorem manage_step' (hI : Kept own I) {f : SharedResources → Except Panic SharedResources}
    (hf : ∀ {k k'}, f k = .ok k' → Undisturbed own k k') : Keeps I (manage' f) :=
  keeps_manage' fun hs h => hI.manage hs (hf h)

/-- So does a request to the console. -/
theorem send (hI : Kept own I) {req : VMRequest} (hreq : req.isConsole = true) :
    Keeps I (send vm req) :=
  fun _ hs => hI.manage hs (.log hreq)

/-- So does a message. -/
theorem printString (hI : Kept own I) (text : String) : Keeps I (printString vm text) :=
  (hI.send rfl).bind fun _ => keeps_pure

/-! ### Processes -/

/-- So does a dereference. -/
theorem deref (hI : Kept own I) : Keeps I (deref ref) :=
  hI.touchPcb.bind fun _ => keeps_get.bind fun _ => check _

/-- So do written registers of a process that it may touch. -/
theorem writeContext (hI : Kept own I) (hown : ref.Among own)
    (f : RegisterContext → RegisterContext) : Keeps I (writeContext ref f) := by
  refine hI.deref.bind_of_returns fun p s t hs h => ?_
  obtain ⟨hp, hsame⟩ := returns_deref h
  rw [← hsame.shared] at hp
  exact hI.manage (hI.deref.returns h hs) (.context hown hp _)

/-- So does a borrow. -/
theorem borrow (hI : Kept own I) : Keeps I (borrow ref) :=
  hI.touchPcb.bind fun _ => hI.manage_step' .borrow

/-- So does a guard that is given back. -/
theorem reset (hI : Kept own I) {guard : Option GuardRef} : Keeps I (reset guard) := by
  cases guard with
  | none => exact keeps_pure
  | some ref => exact hI.touchPcb.bind fun _ => hI.manage_step' .reset

/-- So does a lookup. -/
theorem lookup (hI : Kept own I) (idx : Word) : Keeps I (lookup idx) := by
  refine (hI.touch _).bind fun _ => keeps_get.bind fun sys => ?_
  split
  · exact keeps_pure
  · exact hI.borrow.bind fun _ => keeps_pure

/-! ### Translation -/

/-- So does a translation. -/
theorem translate (hI : Kept own I) (vaddr : Word) : Keeps I (translate ref vaddr) :=
  hI.deref.bind fun _ => hI.touchPageTable.bind fun _ => check _

/-- So does a refill. -/
theorem refill (hI : Kept own I) (vaddr : Word) : Keeps I (refill ref vaddr) := by
  refine (hI.translate vaddr).bind_of_returns fun entry s t hs h => ?_
  obtain ⟨p, hp, hentry, hsame⟩ := returns_translate h
  rw [← hsame.shared] at hp
  exact hI.fill ((hI.translate vaddr).returns h hs) hp hentry

/-- So does the address of a user's byte. -/
theorem physicalAddress (hI : Kept own I) (vaddr : Word) : Keeps I (physicalAddress ref vaddr) :=
  (hI.translate vaddr).bind fun _ => keeps_pure

/-- So does reading a string. -/
theorem directString (paddr : Word) : Keeps I (directString paddr) :=
  keeps_get.bind fun _ => check _

/-- So does a miss of the kernel itself. -/
theorem nestedMiss (hI : Kept own I) (vaddr : Word) : Keeps I (nestedMiss vaddr) := by
  refine hI.enterException.bind fun _ => keeps_get.bind fun sys => ?_
  refine hI.borrow.bind fun _ => hI.setCurrentThread.bind fun _ => ?_
  refine (hI.refill vaddr).bind fun _ => hI.setCurrentThread.bind fun _ => ?_
  exact hI.reset.bind fun _ => hI.leaveException

/-- So does a store, where stores do. -/
theorem writePhysical (hstore : KeptByStores I) (paddr : Word) (b : Byte) :
    Keeps I (writePhysical paddr b) := by
  unfold Kernel.writePhysical
  split
  · exact fun s hs => hstore _ hs
  · exact keeps_throw

/-- So does a load. -/
theorem readPhysical (paddr : Word) : Keeps I (readPhysical paddr) := by
  refine keeps_get.bind fun sys => ?_
  split
  · exact keeps_pure
  · exact keeps_throw

/-- So does the load that is made again behind a nested miss. -/
theorem reload (hI : Kept own I) (buf : List Byte) (b : Byte) : Keeps I (reload buf b) := by
  refine keeps_get.bind fun sys => ?_
  split
  · exact readPhysical _
  · exact (hI.nestedMiss _).bind fun _ => keeps_pure

/-- So does the store of a character. -/
theorem storeByte (hI : Kept own I) (hstore : KeptByStores I) (buf : List Byte) (vaddr : Word)
    (b : Byte) : Keeps I (storeByte buf vaddr b) := by
  refine keeps_get.bind fun sys => ?_
  split
  · exact writePhysical hstore _ b
  · refine (hI.nestedMiss vaddr).bind fun _ => (hI.reload buf b).bind fun b' => ?_
    refine keeps_get.bind fun sys' => ?_
    split
    · exact writePhysical hstore _ b'
    · exact keeps_throw

/-- So do the stores of a buffer. -/
theorem storeBytes (hI : Kept own I) (hstore : KeptByStores I) (loc : Word) (buf : List Byte)
    (left i : Nat) : Keeps I (storeBytes loc buf left i) := by
  induction left generalizing i with
  | zero => exact keeps_pure
  | succ left ih => exact (hI.storeByte hstore _ _ _).bind fun _ => ih _

/-! ### The scheduler -/

/-- So does a process that is queued. -/
theorem enqueue (hI : Kept own I) {guard : Option GuardRef} : Keeps I (enqueue guard) := by
  cases guard with
  | none => exact keeps_throw
  | some ref =>
      refine hI.deref.bind fun p => (check _).bind fun _ => (hI.touch _).bind fun _ => ?_
      refine Keeps.bind ?_ fun _ => hI.reset
      exact hI.control_step (fun _ => rfl) (fun _ => rfl) fun _ => rfl

/-- So does one that is taken. -/
theorem dequeue (hI : Kept own I) : Keeps I dequeue := by
  refine (hI.touch _).bind fun _ => keeps_get.bind fun sys => ?_
  refine Keeps.bind ?_ fun _ => hI.lookup _
  exact hI.control_step (fun _ => rfl) (fun _ => rfl) fun _ => rfl

/-! ### System calls -/

/-- So does `PRINT_STRING`. -/
theorem printUserString (hI : Kept own I) (ctx : RegisterContext) :
    Keeps I (printUserString vm ref ctx) :=
  (hI.physicalAddress _).bind fun _ => (directString _).bind fun _ =>
    (hI.send rfl).bind fun _ => keeps_pure

/-- So do the stores of the input. -/
theorem storeInput (hI : Kept own I) (hstore : KeptByStores I) (ctx : RegisterContext)
    (reply : VMReply) : Keeps I (storeInput ref ctx reply) := by
  unfold Kernel.storeInput
  split
  · exact keeps_pure
  · refine hI.setCurrentThread.bind fun _ => hI.deref.bind fun p => ?_
    refine (hI.replaceASID _).bind fun _ => (hI.storeBytes hstore _ _ _ _).bind fun _ => ?_
    exact hI.setCurrentThread.bind fun _ => keeps_pure

/-- So does `READ_STRING`. -/
theorem readString (hI : Kept own I) (hstore : KeptByStores I) (ctx : RegisterContext) :
    Keeps I (readString vm ref ctx) := by
  unfold Kernel.readString
  split
  · exact (hI.printString _).bind fun _ => keeps_pure
  · exact (hI.send rfl).bind fun reply => hI.storeInput hstore _ reply

/-- So does `EXIT`. -/
theorem kill (hI : Kept own I) (hown : own n) : Keeps I (kill (.process n)) :=
  hI.touchPcb.bind fun _ => (hI.manage_step' (.markForDeath hown)).bind fun _ => hI.reset

/-- So does `BRK`. -/
theorem updateBrk (hI : Kept own I) (hown : own n) (vaddr : Word) :
    Keeps I (updateBrk (.process n) vaddr) :=
  hI.touchPcb.bind fun _ => hI.touchPageTable.bind fun _ => hI.manage_step (.updateBrk hown)

/-- `EXEC`, when the invariant survives `exec` of the process manager. -/
theorem execUser (hI : Kept own I) {brk0 : Word} {ctx : RegisterContext}
    (hexec : ∀ {s k path done ctx'}, I s →
      s.shared.exec vm n path brk0 (some ctx) = .ok (done, ctx', k) → I { s with shared := k }) :
    Keeps I (execUser vm brk0 (.process n) ctx) := by
  refine (hI.physicalAddress _).bind fun _ => (directString _).bind fun path => ?_
  refine hI.touchPcb.bind fun _ => (hI.touch _).bind fun _ => ?_
  refine Keeps.bind (keeps_manage fun {s ctx' k} hs h => ?_) fun _ => keeps_pure
  obtain ⟨⟨done, ctx1, k1⟩, h1, h⟩ := Except.bind_ok_iff.mp h
  obtain ⟨-, rfl⟩ := Prod.mk.inj (Except.ok.inj h)
  exact hexec hs h1

/-- `FORK` after `forkProcess`: guards and the queue. -/
theorem enqueueChild (hI : Kept own I) {newPID : Word} (hown : own newPID.toNat)
    {f : RegisterContext → RegisterContext} {ctx : RegisterContext} :
    Keeps I (do
      match ← Kernel.lookup newPID with
      | none => throw .nullPointer
      | some newProc => do
          Kernel.writeContext newProc f
          Kernel.enqueue (← Kernel.lookup newPID)
          Kernel.reset (some newProc)
          pure ctx) := by
  refine (hI.lookup _).bind_of_returns fun guard s t hs h => ?_
  have ht := (hI.lookup _).returns h hs
  rcases returns_lookup h with ⟨-, rfl, -⟩ | ⟨slot, k, hslot, rfl, -⟩
  · exact ht
  · obtain ⟨rfl, -⟩ := SharedResources.guard_eq_some.mp hslot
    have hchild : (GuardRef.process newPID.toNat).Among own := hown
    have hrest : Keeps I (do
        Kernel.writeContext (.process newPID.toNat) f
        let guard ← Kernel.lookup newPID
        Kernel.enqueue guard
        Kernel.reset (some (.process newPID.toNat))
        pure ctx) :=
      (hI.writeContext hchild _).bind fun _ => (hI.lookup _).bind fun _ => hI.enqueue.bind fun _ =>
        hI.reset.bind fun _ => keeps_pure
    exact hrest t ht

/-- `FORK`, when the invariant survives `forkProcess` and the child may be changed. -/
theorem fork (hI : Kept own I) {brk0 : Word} {ctx : RegisterContext}
    (hfork : ∀ {s k pid newPID}, I s →
      s.shared.forkProcess pid (some ctx) brk0 = .ok (newPID, k) →
        I { s with shared := k } ∧ own newPID.toNat) :
    Keeps I (fork brk0 (.process n) ctx) := by
  refine hI.deref.bind fun p => (hI.touch _).bind fun _ => ?_
  have hmanage : Keeps I (Kernel.manage fun k => k.forkProcess p.PID (some ctx) brk0) :=
    keeps_manage fun hs h => (hfork hs h).1
  refine hmanage.bind_of_returns fun newPID s t hs h => ?_
  obtain ⟨k, hk, -⟩ := returns_manage h
  exact hI.enqueueChild (hfork hs hk).2 t (hmanage.returns h hs)

/-- `syscall`, when the invariant survives the stores, `exec` and `fork`. -/
theorem syscall (hI : Kept own I) {brk0 : Word} {ctx : RegisterContext}
    (hown : ChangesCaller ctx → own n)
    (hread : ctx.accessRegister Register.V0 = READ_STRING →
      Keeps I (Kernel.readString vm (.process n) ctx))
    (hexec : ctx.accessRegister Register.V0 = EXEC →
      Keeps I (Kernel.execUser vm brk0 (.process n) ctx))
    (hfork : ctx.accessRegister Register.V0 = FORK → Keeps I (Kernel.fork brk0 (.process n) ctx)) :
    Keeps I (syscall vm brk0 (.process n) ctx) := by
  unfold Kernel.syscall
  split
  · exact (hI.send rfl).bind fun _ => keeps_pure
  split
  · exact (hI.printUserString ctx).bind fun _ => keeps_pure
  split
  · exact (hI.send rfl).bind fun _ => keeps_pure
  split
  case isTrue h => exact (hread h).bind fun _ => keeps_pure
  split
  case isTrue h => exact (hI.kill (hown (.inl h))).bind fun _ => keeps_pure
  split
  case isTrue h => exact (hexec h).bind fun _ => keeps_pure
  split
  case isTrue h =>
    have hcaller := hown (.inr (.inr h))
    refine (hI.updateBrk hcaller _).bind fun valid => ?_
    split
    · exact keeps_pure
    · exact (hI.printString _).bind fun _ => (hI.kill hcaller).bind fun _ => keeps_pure
  split
  case isTrue h => exact (hfork h).bind fun _ => keeps_pure
  · exact (hI.printString _).bind fun _ => keeps_pure

/-! ### Traps -/

/-- So does the handler's choice, if the system call does. -/
theorem dispatch (hI : Kept own I) {brk0 badVAddr : Word} {ctx : RegisterContext}
    (hsyscall : ExceptionType.ofCause ctx.cause = .syscall →
      Keeps I (Kernel.syscall vm brk0 (.process n) ctx)) :
    Keeps I (dispatch vm brk0 badVAddr (.process n) ctx) := by
  unfold Kernel.dispatch
  split
  · exact keeps_pure
  · exact (hI.refill _).bind fun _ => keeps_pure
  · exact (hI.refill _).bind fun _ => keeps_pure
  case h_4 h => exact hsyscall h
  · exact (hI.printString _).bind fun _ => (hI.send rfl).bind fun _ => keeps_throw
  · exact (hI.printString _).bind fun _ => keeps_throw
  · exact (hI.printString _).bind fun _ => (hI.send rfl).bind fun _ =>
      (hI.printString _).bind fun _ => keeps_pure

/-- The `switch`, when the invariant survives stores and the operations of the process
manager behind `EXEC` and `FORK`. -/
theorem switch (hI : Kept own I) {brk0 badVAddr : Word} {ctx : RegisterContext} (hown : own n)
    (hstore : KeptByStores I)
    (hexec : ∀ {s k path done ctx'}, I s →
      s.shared.exec vm n path brk0 (some ctx) = .ok (done, ctx', k) → I { s with shared := k })
    (hfork : ∀ {s k pid newPID}, I s →
      s.shared.forkProcess pid (some ctx) brk0 = .ok (newPID, k) →
        I { s with shared := k } ∧ own newPID.toNat) :
    Keeps I (Kernel.dispatch vm brk0 badVAddr (.process n) ctx) :=
  hI.dispatch fun _ => hI.syscall (fun _ => hown) (fun _ => hI.readString hstore _)
    (fun _ => hI.execUser hexec) fun _ => hI.fork hfork

/-- So does rescheduling. -/
theorem reschedule (hI : Kept own I) {oldThread : Option GuardRef} :
    Keeps I (reschedule vm oldThread) := by
  refine keeps_get.bind fun sys => ?_
  split
  · exact hI.setCurrentThread.bind fun _ => (hI.printString _).bind fun _ => keeps_throw
  · refine hI.dequeue.bind fun guard => ?_
    cases guard with
    | none => exact keeps_throw
    | some incomingProc =>
        refine hI.deref.bind fun p => (hI.replaceASID _).bind fun _ => ?_
        exact hI.setCurrentThread.bind fun _ => hI.reset.bind fun _ => hI.reset

/-- So does the end of the handler. -/
theorem finish (hI : Kept own I) {cause : ExceptionType} {ctx : RegisterContext}
    {oldThread : Option GuardRef} (hown : ∀ ref ∈ oldThread, ref.Among own) :
    Keeps I (finish vm cause ctx oldThread) := by
  cases oldThread with
  | none => exact hI.reschedule
  | some ref =>
      have hwrite := hI.writeContext (hown ref rfl) fun _ => ctx
      refine keeps_get.bind fun sys => ?_
      split
      · exact hI.setCurrentThread.bind fun _ => hwrite.bind fun _ => hI.reset
      · exact hwrite.bind fun _ => hI.borrow.bind fun _ =>
          hI.enqueue.bind fun _ => hI.reschedule

/-- The end of a trap, after `handleTrap`. -/
theorem leave (hI : Kept own I) :
    Keeps I (do Kernel.leaveException; let p ← Kernel.deref (← get).currentThread; pure p.regCtx) :=
  hI.leaveException.bind fun _ => keeps_get.bind fun _ => hI.deref.bind fun _ => keeps_pure

/-- A trap of a process, when the invariant survives the `switch`. -/
theorem takeTrap (hI : Kept own I) {s : KernelState} {brk0 badVAddr : Word}
    {ctx : RegisterContext} (hown : own n) (hs : I s) (hthread : s.currentThread = .process n)
    (hdispatch : Keeps I (Kernel.dispatch vm brk0 badVAddr (.process n) ctx)) :
    I (final (takeTrap vm brk0 badVAddr ctx) s) := by
  have hhandle : Keeps I (do
      Kernel.borrow (.process n)
      Kernel.setCurrentThread .kernel
      let r ← Kernel.dispatch vm brk0 badVAddr (.process n) ctx
      Kernel.finish vm (.ofCause ctx.cause) r.1 r.2) := by
    refine hI.borrow.bind fun _ => hI.setCurrentThread.bind fun _ => ?_
    refine hdispatch.bind_of_returns fun r s t hs h => ?_
    refine hI.finish (fun ref href => ?_) t (hdispatch.returns h hs)
    rcases oldThread_dispatch (I := fun _ => True) trivial h with hnone | hsome
    · rw [hnone] at href
      cases href
    · rw [hsome] at href
      obtain rfl := Option.some.inj href
      exact hown
  refine final_bind_of (hI.enterException s hs) fun _ t henter => ?_
  have ht := hI.enterException.returns henter hs
  have hthread' : t.currentThread = .process n := by
    rw [returns_modify.mp henter]
    exact hthread
  refine Keeps.final_bind ?_ fun _ => hI.leave
  show I (final (Kernel.borrow t.currentThread >>= fun _ => _) t)
  rw [hthread']
  exact hhandle t ht

/-- The end of `cppmain`. -/
theorem startFirst (hI : Kept own I) (firstPID : Word) : Keeps I (startFirst firstPID) := by
  refine hI.leaveException.bind fun _ => (hI.lookup _).bind fun guard => ?_
  cases guard with
  | none => exact keeps_throw
  | some firstProc =>
      refine hI.deref.bind fun p => (hI.replaceASID _).bind fun _ => ?_
      exact hI.setCurrentThread.bind fun _ => hI.reset

/-- A boot, when the invariant survives the creation of the first process. -/
theorem cppmain (hI : Kept own I) {brk0 : Word}
    (hcreate : ∀ {s k firstPID}, I s →
      s.shared.createProcess vm (ascii "programs/shell/shell.elf") brk0 = .ok (firstPID, k) →
        I { s with shared := k }) :
    Keeps I (cppmain vm brk0) :=
  (hI.printString _).bind fun _ => (hI.touch _).bind fun _ =>
    (keeps_manage hcreate).bind fun firstPID => hI.startFirst firstPID

end Kept

end Kernel
