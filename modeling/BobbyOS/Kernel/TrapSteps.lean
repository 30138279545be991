import BobbyOS.Kernel.Trap

/-!
# The steps of the trap handler

What each part of the handler does to the state when it returns.  The accesses
that are recorded do not matter here, so `Agrees` compares states without them.
-/

namespace Kernel

open Effects

variable {s s' : KernelState} {ref : GuardRef} {slot : Nat} {p : PCB} {vm : Tunnel}

namespace KernelState

/-- The state with other processes, and some accesses. -/
def WithShared (s : KernelState) (shared : SharedResources) (s' : KernelState) : Prop :=
  ∃ accesses, s' = { s with shared, accesses }

/-- An access changes nothing else. -/
theorem withShared_rfl {accesses : List HeapAccess} :
    WithShared s s.shared { s with accesses } := ⟨accesses, rfl⟩

/-- Two changes of the resources one after the other. -/
theorem WithShared.trans {t : KernelState} {k k' : SharedResources} (h : WithShared s k t)
    (h' : WithShared t k' s') : WithShared s k' s' := by
  obtain ⟨_, rfl⟩ := h
  obtain ⟨accesses, rfl⟩ := h'
  exact ⟨accesses, rfl⟩

/-- The resources behind a change. -/
theorem WithShared.shared {k : SharedResources} (h : WithShared s k s') : s'.shared = k := by
  obtain ⟨_, rfl⟩ := h
  rfl

end KernelState

open KernelState (WithShared withShared_rfl)

/-! ### Access to the state -/

/-- An access to the kernel heap leaves the resources. -/
theorem returns_touch {object : HeapObject} {u : Unit} (h : Returns (touch object) s u s') :
    WithShared s s.shared s' := by
  obtain rfl := returns_modify.mp h
  exact withShared_rfl

/-- So does one to a control block. -/
theorem returns_touchPcb {u : Unit} (h : Returns (touchPcb ref) s u s') :
    WithShared s s.shared s' := by
  cases ref with
  | kernel =>
      obtain ⟨-, rfl⟩ := returns_pure.mp h
      exact withShared_rfl
  | process slot => exact returns_touch h

/-- So does one to a page table. -/
theorem returns_touchPageTable {u : Unit} (h : Returns (touchPageTable ref) s u s') :
    WithShared s s.shared s' := by
  cases ref with
  | kernel =>
      obtain ⟨-, rfl⟩ := returns_pure.mp h
      exact withShared_rfl
  | process slot => exact returns_touch h

/-- A result of the resources is returned. -/
theorem returns_check {α : Type} {x : Except Panic α} {a : α} :
    Returns (check x : KernelM α) s a s' ↔ x = .ok a ∧ s' = s := by
  cases x with
  | ok b =>
      constructor
      · intro h
        obtain ⟨rfl, rfl⟩ := returns_pure.mp h
        exact ⟨rfl, rfl⟩
      · intro ⟨hb, hs⟩
        exact returns_pure.mpr ⟨(Except.ok.inj hb).symm, hs⟩
  | error e =>
      constructor
      · intro h
        exact absurd h not_returns_throw
      · intro h
        cases h.1

/-- It goes on with the result. -/
theorem returns_check_bind {α β : Type} {x : Except Panic α} {f : α → KernelM β} {b : β} :
    Returns (check x >>= f) s b s' ↔ ∃ a, x = .ok a ∧ Returns (f a) s b s' := by
  cases x with
  | ok a =>
      constructor
      · intro h
        exact ⟨a, rfl, h⟩
      · intro ⟨a', ha, h⟩
        obtain rfl := Except.ok.inj ha
        exact h
  | error e =>
      constructor
      · intro h
        cases h
      · intro ⟨_, ha, _⟩
        cases ha

/-- An operation on the resources returns its result and changes them. -/
theorem returns_manage {α : Type} {f : SharedResources → Except Panic (α × SharedResources)} {a : α}
    (h : Returns (manage f) s a s') : ∃ k, f s.shared = .ok (a, k) ∧ WithShared s k s' := by
  obtain ⟨⟨b, k⟩, hf, h⟩ := returns_check_bind.mp (returns_get_bind.mp h)
  replace h := returns_modify_bind.mp h
  obtain ⟨rfl, rfl⟩ := returns_pure.mp h
  exact ⟨k, hf, _, rfl⟩

/-- So does one without a result. -/
theorem returns_manage' {f : SharedResources → Except Panic SharedResources} {u : Unit}
    (h : Returns (manage' f) s u s') : ∃ k, f s.shared = .ok k ∧ WithShared s k s' := by
  obtain ⟨k, hf, h⟩ := returns_check_bind.mp (returns_get_bind.mp h)
  obtain rfl := returns_modify.mp h
  exact ⟨k, hf, _, rfl⟩

/-- A request is added to the log. -/
theorem returns_send {req : VMRequest} {reply : VMReply} (h : Returns (send vm req) s reply s') :
    ∃ log, WithShared s { s.shared with log } s' := by
  replace h := returns_modify_bind.mp (returns_get_bind.mp h)
  obtain ⟨rfl, rfl⟩ := returns_pure.mp h
  exact ⟨_, _, rfl⟩

/-- So is a message. -/
theorem returns_printString {text : String} {u : Unit} (h : Returns (printString vm text) s u s') :
    ∃ log, WithShared s { s.shared with log } s' := by
  obtain ⟨reply, t, hsend, h⟩ := returns_bind.mp h
  obtain ⟨-, rfl⟩ := returns_pure.mp h
  exact returns_send hsend

/-! ### Processes -/

/-- A dereference returns the process. -/
theorem returns_deref (h : Returns (deref ref) s p s') :
    ref.pcb s.shared = .ok p ∧ WithShared s s.shared s' := by
  obtain ⟨u, t, htouch, h⟩ := returns_bind.mp h
  have hsame := returns_touchPcb htouch
  obtain ⟨hp, rfl⟩ := returns_check.mp (returns_get_bind.mp h)
  rw [hsame.shared] at hp
  exact ⟨hp, hsame⟩

/-- The registers of a process are written. -/
theorem returns_writeContext {f : RegisterContext → RegisterContext} {u : Unit}
    (h : Returns (writeContext ref f) s u s') :
    ∃ p, ref.pcb s.shared = .ok p ∧
      WithShared s (ref.setPcb s.shared { p with regCtx := f p.regCtx }) s' := by
  obtain ⟨p, t, hderef, h⟩ := returns_bind.mp h
  obtain ⟨hp, accesses, rfl⟩ := returns_deref hderef
  obtain rfl := returns_modify.mp h
  exact ⟨p, hp, _, rfl⟩

/-- A borrow changes the resources as it says. -/
theorem returns_borrow {u : Unit} (h : Returns (borrow ref) s u s') :
    ∃ k, ref.borrow s.shared = .ok k ∧ WithShared s k s' := by
  obtain ⟨u, t, htouch, h⟩ := returns_bind.mp h
  obtain ⟨_, rfl⟩ := returns_touchPcb htouch
  obtain ⟨k, hk, accesses, rfl⟩ := returns_manage' h
  exact ⟨k, hk, accesses, rfl⟩

/-- So does a guard that is given back. -/
theorem returns_reset {u : Unit} (h : Returns (reset (some ref)) s u s') :
    ∃ k, ref.reset s.shared = .ok k ∧ WithShared s k s' := by
  obtain ⟨u, t, htouch, h⟩ := returns_bind.mp h
  obtain ⟨_, rfl⟩ := returns_touchPcb htouch
  obtain ⟨k, hk, accesses, rfl⟩ := returns_manage' h
  exact ⟨k, hk, accesses, rfl⟩

/-- A lookup gives a borrowed guard, or none where no process is. -/
theorem returns_lookup {idx : Word} {guard : Option GuardRef}
    (h : Returns (lookup idx) s guard s') :
    (s.shared.guard idx = none ∧ guard = none ∧ WithShared s s.shared s') ∨
      ∃ slot k, s.shared.guard idx = some slot ∧ guard = some (.process slot) ∧
        s.shared.borrow slot = .ok k ∧ WithShared s k s' := by
  obtain ⟨u, t, htouch, h⟩ := returns_bind.mp h
  obtain ⟨_, rfl⟩ := returns_touch htouch
  replace h := returns_get_bind.mp h
  cases hguard : s.shared.guard idx with
  | none =>
      simp only [hguard] at h
      obtain ⟨rfl, rfl⟩ := returns_pure.mp h
      exact .inl ⟨rfl, rfl, _, rfl⟩
  | some slot =>
      simp only [hguard] at h
      obtain ⟨u, t, hborrow, h⟩ := returns_bind.mp h
      obtain ⟨k, hk, accesses, rfl⟩ := returns_borrow hborrow
      obtain ⟨rfl, rfl⟩ := returns_pure.mp h
      exact .inr ⟨slot, k, rfl, rfl, hk, accesses, rfl⟩

/-! ### Translation -/

/-- A translation is that of the process's address space. -/
theorem returns_translate {vaddr : Word} {entry : TLBEntry}
    (h : Returns (translate ref vaddr) s entry s') :
    ∃ p, ref.pcb s.shared = .ok p ∧ p.addrSpace.translate vaddr = .ok entry ∧
      WithShared s s.shared s' := by
  obtain ⟨p, t, hderef, h⟩ := returns_bind.mp h
  obtain ⟨hp, hsame⟩ := returns_deref hderef
  obtain ⟨u, t1, htouch, h⟩ := returns_bind.mp h
  have hsame1 := returns_touchPageTable htouch
  obtain ⟨hentry, rfl⟩ := returns_check.mp h
  rw [hsame.shared] at hsame1
  exact ⟨p, hp, hentry, hsame.trans hsame1⟩

/-- The state after an entry was written to the TLB. -/
def KernelState.filled (s : KernelState) (entry : TLBEntry) : KernelState :=
  { s with
    tlb := Function.update s.tlb s.random (.ofHiLo entry.hi entry.lo)
    random := s.random + 1
    asid := entry.hi.setWidth 8 }

/-- A refill fills in the entry that its address space translates to. -/
theorem returns_refill {vaddr : Word} {u : Unit} (h : Returns (refill ref vaddr) s u s') :
    ∃ p entry, ref.pcb s.shared = .ok p ∧ p.addrSpace.translate vaddr = .ok entry ∧
      WithShared (s.filled entry) s.shared s' := by
  obtain ⟨entry, t, htranslate, h⟩ := returns_bind.mp h
  obtain ⟨p, hp, hentry, accesses, rfl⟩ := returns_translate htranslate
  obtain rfl := returns_modify.mp h
  exact ⟨p, entry, hp, hentry, accesses, rfl⟩

/-- The address of a user's byte leaves the resources. -/
theorem returns_physicalAddress {vaddr paddr : Word}
    (h : Returns (physicalAddress ref vaddr) s paddr s') : WithShared s s.shared s' := by
  obtain ⟨entry, t, htranslate, h⟩ := returns_bind.mp h
  obtain ⟨p, -, -, hsame⟩ := returns_translate htranslate
  obtain ⟨-, rfl⟩ := returns_pure.mp h
  exact hsame

/-- Reading a string changes nothing. -/
theorem returns_directString {paddr : Word} {text : List Byte}
    (h : Returns (directString paddr) s text s') : s' = s := by
  exact (returns_check.mp (returns_get_bind.mp h)).2

/-! ### Traps -/

/-- The state in which the `switch` starts, with the guard of the old thread taken. -/
def KernelState.entered (s : KernelState) (shared : SharedResources) (accesses : List HeapAccess) :
    KernelState :=
  { s with shared, accesses, currentThread := .kernel, exceptionDepth := s.exceptionDepth + 1 }

/-- **Trap.**  A trap takes a guard of the current thread, handles the cause, goes
on to the next process, and reads its registers. -/
theorem returns_takeTrap {brk0 badVAddr : Word} {trapCtx regCtx : RegisterContext}
    (h : Returns (takeTrap vm brk0 badVAddr trapCtx) s regCtx s') :
    ∃ k accesses ctx oldThread t t1, s.currentThread.borrow s.shared = .ok k ∧
      Returns (dispatch vm brk0 badVAddr s.currentThread trapCtx) (s.entered k accesses)
        (ctx, oldThread) t ∧
      Returns (finish vm (.ofCause trapCtx.cause) ctx oldThread) t () t1 ∧
      Returns (do leaveException; let p ← deref (← get).currentThread; pure p.regCtx)
        t1 regCtx s' := by
  obtain ⟨_, t, henter, h⟩ := returns_bind.mp h
  obtain rfl := returns_modify.mp henter
  obtain ⟨_, t1, htrap, h⟩ := returns_bind.mp h
  replace htrap := returns_get_bind.mp htrap
  obtain ⟨_, t2, hborrow, htrap⟩ := returns_bind.mp htrap
  obtain ⟨k, hk, accesses, rfl⟩ := returns_borrow hborrow
  obtain ⟨_, t3, hcurrent, htrap⟩ := returns_bind.mp htrap
  obtain rfl := returns_modify.mp hcurrent
  obtain ⟨⟨ctx, oldThread⟩, t4, hdispatch, hfinish⟩ := returns_bind.mp htrap
  exact ⟨k, accesses, ctx, oldThread, t4, t1, hk, hdispatch, hfinish, h⟩

/-- The register of the result. -/
theorem accessRegister_V0 {ctx : RegisterContext} {v : Word} :
    (ctx.setRegister Register.V0 v).accessRegister Register.V0 = v := by
  simp [RegisterContext.accessRegister, RegisterContext.setRegister]

/-! ### Boot -/

/-- **Boot.**  The first process is made in the state of the constructors, and then
it is started. -/
theorem boot_spec {imageEnd brk0 brk1 : Word} {physMem : Hardware.Memory}
    (h : KernelState.boot vm imageEnd brk0 brk1 physMem = some s) :
    ∃ k0 k log accesses firstPID, SharedResources.construct imageEnd brk0 physMem = .ok k0 ∧
      SharedResources.createProcess { k0 with log } vm (ascii "programs/shell/shell.elf") brk1 =
        .ok (firstPID, k) ∧
      Returns (startFirst firstPID) { shared := k, accesses } () s := by
  obtain ⟨s0, hconstruct, hmain⟩ := Option.bind_eq_some_iff.mp h
  obtain ⟨_, h⟩ := after_eq_some.mp hmain
  obtain ⟨k0, hk0, h0⟩ := Except.bind_ok_iff.mp (SharedResources.toOption_eq_some hconstruct)
  obtain rfl := Except.ok.inj h0
  obtain ⟨_, t, hprint, h⟩ := returns_bind.mp h
  obtain ⟨log, _, rfl⟩ := returns_printString hprint
  obtain ⟨_, t, htouch, h⟩ := returns_bind.mp h
  obtain ⟨_, rfl⟩ := returns_touch htouch
  obtain ⟨firstPID, t, hmanage, h⟩ := returns_bind.mp h
  obtain ⟨k, hcreate, accesses, rfl⟩ := returns_manage hmanage
  exact ⟨k0, k, log, accesses, firstPID, hk0, hcreate, h⟩

end Kernel
