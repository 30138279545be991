import BobbyOS.Kernel.TrapOutcomes

/-!
# Processes that a trap is not about

A trap is taken for the current process.  This file follows another one through the
handler: its registers and its address space stay, whatever the trap asks for.
`Remains` says what is known of one process.

* `kept_remaining`: every part of the handler that is not about the process keeps it;
* `remains_finish`: what the end of a trap does to its own process;
* `remains_takeTrap`: a whole trap of another process.
-/

namespace Kernel

open Effects SharedResources
open KernelState (WithShared)

variable {s s' : KernelState} {k k' : SharedResources} {vm : Tunnel} {brk0 vaddr : Word}
  {m n : Nat} {P Q : RegisterContext → AddressSpace → Prop} {ref : GuardRef} {p q : PCB}
  {ctx : RegisterContext}

/-- The process in a slot is alive, and its registers and its address space satisfy `P`. -/
structure SharedResources.Remains (n : Nat) (P : RegisterContext → AddressSpace → Prop)
    (k : SharedResources) : Prop where
  invariant : k.Invariant
  process : ∃ p, k.procAt n = some p ∧ p.state ≠ .ZOMBIE ∧ P p.regCtx p.addrSpace

/-- The same in a state of the kernel. -/
abbrev Remaining (n : Nat) (P : RegisterContext → AddressSpace → Prop) (s : KernelState) : Prop :=
  s.shared.Remains n P

namespace SharedResources.Remains

/-- Other processes may change, and what is not in the process table. -/
theorem other {o : Option PCB} (h : k.Remains n P) (hinvariant : k'.Invariant) (hne : m ≠ n)
    (hmap : k'.procAt = Function.update k.procAt m o) : k'.Remains n P := by
  obtain ⟨r, hr, halive, hP⟩ := h.process
  refine ⟨hinvariant, r, ?_, halive, hP⟩
  rw [hmap, Function.update_of_ne hne.symm, hr]

/-- A process changes, but neither its state nor its registers nor its address space. -/
theorem update (h : k.Remains n P) (hinvariant : k'.Invariant) (hp : k.procAt m = some p)
    (hmap : k'.procAt = Function.update k.procAt m (some q)) (hstate : q.state = p.state)
    (hcontext : q.regCtx = p.regCtx) (hspace : q.addrSpace = p.addrSpace) : k'.Remains n P := by
  by_cases hne : m = n
  · obtain rfl := hne
    obtain ⟨r, hr, halive, hP⟩ := h.process
    obtain rfl := Option.some.inj (hp.symm.trans hr)
    refine ⟨hinvariant, q, ?_, ?_, ?_⟩
    · rw [hmap, Function.update_self]
    · rw [hstate]
      exact halive
    · rw [hcontext, hspace]
      exact hP
  · exact h.other hinvariant hne hmap

/-- The process table is the same. -/
theorem same (h : k.Remains n P) (hinvariant : k'.Invariant) (hmap : k'.procAt = k.procAt) :
    k'.Remains n P := by
  refine ⟨hinvariant, ?_⟩
  rw [hmap]
  exact h.process

/-- Memory and requests change. -/
theorem log (h : k.Remains n P) (physMem : Hardware.Memory) (log : List VMRequest) :
    SharedResources.Remains n P { k with physMem, log } :=
  h.same (invariant_log h.invariant physMem log) rfl

/-- Less may be asked of it. -/
theorem mono (h : k.Remains n P) (hPQ : ∀ r a, P r a → Q r a) : k.Remains n Q := by
  obtain ⟨r, hr, halive, hP⟩ := h.process
  exact ⟨h.invariant, r, hr, halive, hPQ _ _ hP⟩

/-- A guard is taken. -/
theorem borrow (h : k.Remains n P) (hk : ref.borrow k = .ok k') : k'.Remains n P := by
  cases ref with
  | kernel =>
      obtain rfl := Except.ok.inj hk
      exact h.same (invariant_kernelProcess h.invariant rfl) rfl
  | process m =>
      obtain ⟨p, hp, hmap⟩ := borrow_procAt hk
      exact h.update (h.invariant.borrow hk) hp hmap rfl rfl rfl

/-- The end of a guard: what is alive stays. -/
theorem reset (h : k.Remains n P) (hk : ref.reset k = .ok k') : k'.Remains n P := by
  cases ref with
  | kernel =>
      obtain rfl := Except.ok.inj hk
      exact h
  | process m =>
      obtain ⟨p, hp, hmap⟩ := reset_procAt hk h.invariant.slotted
      have hinvariant := h.invariant.reset hk
      by_cases hlast : p.state = .ZOMBIE ∧ p.refcount - 1 = 0
      · refine h.other hinvariant (fun heq => ?_) hmap
        obtain ⟨r, hr, halive, -⟩ := h.process
        rw [heq] at hp
        obtain rfl := Option.some.inj (hp.symm.trans hr)
        exact halive hlast.1
      · rw [afterReset, if_neg hlast] at hmap
        exact h.update hinvariant hp hmap rfl rfl rfl

/-- Another process is killed. -/
theorem markForDeath (h : k.Remains n P) (hne : m ≠ n) (hk : k.markForDeath m = .ok k') :
    k'.Remains n P := by
  obtain ⟨p, hp, hmap⟩ := markForDeath_procAt hk
  exact h.other (h.invariant.markForDeath hk) hne hmap

/-- Another process moves its break. -/
theorem updateBrk {valid : Bool} (h : k.Remains n P) (hne : m ≠ n)
    (hk : k.updateBrk m vaddr = .ok (valid, k')) : k'.Remains n P := by
  obtain ⟨p, space, hp, hmap⟩ := updateBrk_procAt hk
  exact h.other (invariant_step h.invariant (step_updateBrk hk)) hne hmap

/-- Another process gets an image. -/
theorem exec {path : List Byte} {done : Bool} {ctx ctx' : Option RegisterContext}
    (h : k.Remains n P) (hne : m ≠ n) (hk : k.exec vm m path brk0 ctx = .ok (done, ctx', k')) :
    k'.Remains n P := by
  have hinvariant := invariant_step h.invariant (step_exec hk)
  obtain ⟨self, hself, ⟨-, -, hsame⟩ | ⟨-, pageTable, regCtx, hmap⟩⟩ :=
    exec_procAt hk h.invariant.sane h.invariant.slotted
  · exact h.same hinvariant hsame
  · exact h.other hinvariant hne hmap

/-- A child gets an empty slot. -/
theorem forkProcess {pid newPID : Word} {ctx : Option RegisterContext} (h : k.Remains n P)
    (hk : k.forkProcess pid ctx brk0 = .ok (newPID, k')) :
    k'.Remains n P ∧ newPID.toNat ≠ n := by
  have hinvariant := invariant_step h.invariant (step_forkProcess hk)
  obtain ⟨r, hr, -, -⟩ := h.process
  rcases forkProcess_procAt hk h.invariant.slotted with
    ⟨rfl, rfl, -⟩ | ⟨_, child, -, -, hempty, hmap, -⟩
  · refine ⟨h, fun heq => ?_⟩
    have hlt := Slots.lt_of_getElem? (procAt_iff.mp hr)
    rw [← heq] at hlt
    exact absurd (Nat.lt_of_lt_of_le hlt h.invariant.slotted.short) (by decide)
  · have hne : newPID.toNat ≠ n := by
      rintro rfl
      rw [hr] at hempty
      cases hempty
    exact ⟨h.other hinvariant hne hmap, hne⟩

/-- **Steps** of the handler that leave it alone. -/
theorem undisturbed (h : k.Remains n P) (hk : Undisturbed (· ≠ n) k k') : k'.Remains n P := by
  cases hk with
  | borrow hk => exact h.borrow hk
  | reset hk => exact h.reset hk
  | markForDeath hne hk => exact h.markForDeath hne hk
  | updateBrk hne hk => exact h.updateBrk hne hk
  | @context ref p hne hp regCtx =>
      cases ref with
      | kernel =>
          obtain rfl := Except.ok.inj hp
          exact h.same (invariant_kernelProcess h.invariant rfl) rfl
      | process m =>
          have hp' := pcb_ok_iff.mp hp
          exact h.other (h.invariant.setPcb (procAt_iff.mp hp') rfl rfl) hne (setPcb_procAt hp' _)
  | log _ => exact h.log _ _

end SharedResources.Remains

/-! ### The handler -/

/-- **Steps.**  The handler changes no process but those that it is about. -/
theorem kept_remaining : Kept (· ≠ n) (Remaining n P) where
  access _ hs := hs
  control hs hshared _ _ := by
    rw [Remaining, hshared]
    exact hs
  manage hs h := hs.undisturbed h
  fill hs _ _ := hs

/-- Bytes of the memory are no part of a process. -/
theorem remaining_stores : KeptByStores (Remaining n P) := fun physMem hs => hs.log physMem _

/-- **FORK.**  The child gets a slot of its own. -/
theorem remains_fork : Keeps (Remaining n P) (fork brk0 (.process m) ctx) :=
  kept_remaining.fork fun hs h => hs.forkProcess h

/-- The registers of the process itself change. -/
theorem remains_writeContext {f : RegisterContext → RegisterContext}
    (hP : ∀ r a, P r a → Q (f r) a) :
    Triple (Remaining n P) (writeContext (.process n) f) fun _ => Remaining n Q := by
  intro s hs u s' h
  obtain ⟨p, hp, hs'⟩ := returns_writeContext h
  have hp' := pcb_ok_iff.mp hp
  obtain ⟨r, hr, halive, hr'⟩ := hs.process
  obtain rfl := Option.some.inj (hp'.symm.trans hr)
  have hmap := setPcb_procAt hp' { p with regCtx := f p.regCtx }
  rw [Remaining, hs'.shared]
  exact ⟨hs.invariant.setPcb (procAt_iff.mp hp') rfl rfl, _,
    (congrFun hmap n).trans (Function.update_self ..), halive, hP _ _ hr'⟩

/-- **After the `switch`.**  The registers of the old thread are stored in its process. -/
theorem remains_finish {cause : ExceptionType} (hP : ∀ r a, P r a → Q ctx a) :
    Triple (Remaining n P) (finish vm cause ctx (some (.process n))) fun _ => Remaining n Q := by
  have hI : Kept (· ≠ n) (Remaining n Q) := kept_remaining
  have hbefore : Kept (· ≠ n) (Remaining n P) := kept_remaining
  have hwrite : Triple (Remaining n P) (writeContext (.process n) fun _ => ctx)
      fun _ => Remaining n Q := remains_writeContext hP
  intro s hs u s' h
  replace h := returns_get_bind.mp h
  split at h
  · have hresume : Triple (Remaining n P) (resume (.process n) ctx) fun _ => Remaining n Q :=
      hbefore.setCurrentThread.triple.bind fun _ => hwrite.bind fun _ => hI.reset.triple
    exact hresume hs h
  · have hrest : Triple (Remaining n P)
        (do
          writeContext (.process n) fun _ => ctx
          borrow (.process n)
          enqueue (some (.process n))
          reschedule vm (some (.process n)))
        fun _ => Remaining n Q :=
      hwrite.bind fun _ => hI.borrow.triple.bind fun _ => hI.enqueue.triple.bind fun _ =>
        hI.reschedule.triple
    exact hrest hs h

/-- **Trap.**  A trap of the process in slot `m` leaves every other one alone. -/
theorem remains_takeTrap {badVAddr : Word} {regCtx : RegisterContext}
    (hthread : s.currentThread = .process m) (hne : m ≠ n) (hs : Remaining n P s)
    (h : Returns (takeTrap vm brk0 badVAddr ctx) s regCtx s') : Remaining n P s' := by
  rw [← h.final]
  exact kept_remaining.takeTrap hne hs hthread (kept_remaining.switch hne remaining_stores
    (fun hs h => hs.exec hne h) fun hs h => hs.forkProcess h)

end Kernel
