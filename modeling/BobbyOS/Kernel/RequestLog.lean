import BobbyOS.Kernel.Requests
import BobbyOS.Kernel.TrapInvariants

/-!
# The requests of a trap

A trap asks the machine for console requests and, through `exec`, for the requests of
`createProcess`.  So a property of the list of requests that console requests keep is kept
by the whole handler once `exec` keeps it.

* `Logged`: the property as one of the kernel's state;
* `kept_logged`: the steps of the handler keep it;
* `logged_takeTrap`, `logged_cppmain`: a trap and a boot.
-/

namespace Kernel

open Effects

/-- The requests so far have the property. -/
def Logged (L : List VMRequest → Prop) (s : KernelState) : Prop := L s.shared.log

/-- Console requests keep the property. -/
def KeptByConsole (L : List VMRequest → Prop) : Prop :=
  ∀ {req : VMRequest} {log : List VMRequest}, req.isConsole = true → L log → L (req :: log)

/-! ### The process manager -/

/-- Moving the break asks for nothing. -/
theorem updateBrk_log {k k' : SharedResources} {slot : Nat} {vaddr : Word} {valid : Bool}
    (h : k.updateBrk slot vaddr = .ok (valid, k')) : k'.log = k.log := by
  obtain ⟨p, -, h⟩ := Except.bind_ok_iff.mp h
  obtain ⟨_, -, h⟩ := Except.bind_ok_iff.mp h
  obtain ⟨-, rfl⟩ := Prod.mk.inj (Except.ok.inj h)
  rfl

/-- Neither does a fork. -/
theorem forkProcess_log {k k' : SharedResources} {pid newPID brk0 : Word}
    {ctx : Option RegisterContext} (h : k.forkProcess pid ctx brk0 = .ok (newPID, k')) :
    k'.log = k.log := by
  unfold SharedResources.forkProcess at h
  split at h
  · split at h
    · cases h
    · obtain ⟨_, -, h⟩ := Except.bind_ok_iff.mp h
      obtain ⟨_, -, h⟩ := Except.bind_ok_iff.mp h
      rw [SharedResources.install_log h]
  · obtain ⟨-, rfl⟩ := Prod.mk.inj (Except.ok.inj h)
    rfl

namespace GuardRef

variable {k k' : SharedResources} {ref : GuardRef}

/-- A guard asks for nothing. -/
theorem borrow_log (h : ref.borrow k = .ok k') : k'.log = k.log := by
  cases ref with
  | kernel =>
      obtain rfl := Except.ok.inj h
      rfl
  | process slot => exact SharedResources.borrow_log h

/-- Its end does not. -/
theorem reset_log (h : ref.reset k = .ok k') : k'.log = k.log := by
  cases ref with
  | kernel =>
      obtain rfl := Except.ok.inj h
      rfl
  | process slot => exact SharedResources.reset_log h

/-- Registers are written without a request. -/
theorem setPcb_log (ref : GuardRef) (k : SharedResources) (p : PCB) :
    (ref.setPcb k p).log = k.log := by
  cases ref with
  | kernel => rfl
  | process slot => rfl

end GuardRef

/-- A step of the handler asks for nothing, or for the console. -/
theorem undisturbed_log {own : Nat → Prop} {L : List VMRequest → Prop} {k k' : SharedResources}
    (hL : KeptByConsole L) (hk : L k.log) (h : Undisturbed own k k') : L k'.log := by
  cases h with
  | borrow h =>
      rw [GuardRef.borrow_log h]
      exact hk
  | reset h =>
      rw [GuardRef.reset_log h]
      exact hk
  | markForDeath _ h =>
      rw [SharedResources.markForDeath_log h]
      exact hk
  | updateBrk _ h =>
      rw [updateBrk_log h]
      exact hk
  | @context ref p _ _ regCtx =>
      rw [GuardRef.setPcb_log]
      exact hk
  | log hreq => exact hL hreq hk

/-! ### The handler -/

section Handler

variable {own : Nat → Prop} {L : List VMRequest → Prop} {vm : Tunnel} {brk0 : Word} {n : Nat}
  {ctx : RegisterContext}

/-- **Steps.**  The handler's own requests are console requests. -/
theorem kept_logged (hL : KeptByConsole L) : Kept own (Logged L) where
  access _ hs := hs
  control hs hshared _ _ := by
    rw [Logged, hshared]
    exact hs
  manage := undisturbed_log hL
  fill hs _ _ := hs

/-- A store is no request. -/
theorem logged_stores : KeptByStores (Logged L) := fun _ hs => hs

/-- **The `switch`**, when the property survives `exec` of the process manager. -/
theorem logged_dispatch {badVAddr : Word} (hL : KeptByConsole L)
    (hexec : ∀ {k k' : SharedResources} {path : List Byte} {done : Bool}
      {ctx' : Option RegisterContext},
      k.exec vm n path brk0 (some ctx) = .ok (done, ctx', k') → L k.log → L k'.log) :
    Keeps (Logged L) (dispatch vm brk0 badVAddr (.process n) ctx) := by
  have hI : Kept Everyone (Logged L) := kept_logged hL
  refine hI.switch trivial logged_stores (fun hs h => hexec h hs) fun hs h => ⟨?_, trivial⟩
  rw [Logged, forkProcess_log h]
  exact hs

/-- **Traps.**  A trap keeps a property of the requests that console requests and `exec`
keep. -/
theorem logged_takeTrap {s s' : KernelState} {badVAddr : Word} {regCtx : RegisterContext}
    (hL : KeptByConsole L) (hthread : s.currentThread = .process n)
    (hexec : ∀ {k k' : SharedResources} {path : List Byte} {done : Bool}
      {ctx' : Option RegisterContext},
      k.exec vm n path brk0 (some ctx) = .ok (done, ctx', k') → L k.log → L k'.log)
    (hs : Logged L s) (h : Returns (takeTrap vm brk0 badVAddr ctx) s regCtx s') :
    Logged L s' := by
  have hI : Kept Everyone (Logged L) := kept_logged hL
  rw [← h.final]
  exact hI.takeTrap trivial hs hthread (logged_dispatch hL hexec)

/-- **Boot**, when the property survives the creation of the first process. -/
theorem logged_cppmain (hL : KeptByConsole L)
    (hcreate : ∀ {k k' : SharedResources} {path : List Byte} {pid : Word},
      k.createProcess vm path brk0 = .ok (pid, k') → L k.log → L k'.log) :
    Keeps (Logged L) (cppmain vm brk0) := by
  have hI : Kept Everyone (Logged L) := kept_logged hL
  exact hI.cppmain fun hs h => hcreate h hs

end Handler

end Kernel
