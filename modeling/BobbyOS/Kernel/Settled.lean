import BobbyOS.Kernel.UserStores

/-!
# The processes while the handler works

`Settled` says for one moment of the handler who the current thread is, which
processes there are, how many guards the handler holds on each and which PIDs
wait.  Every part of the handler has a triple over it.

* `Settled.same`, `Settled.update`, `Settled.created`: what a change of the
  process manager means here;
* `settled_fork`: a child that waits, with no guards left on it;
* `settled_kill`: a process that ends with its only guard;
* `settled_enqueue`, `settled_dequeue`: the queue.
-/

namespace Kernel

open Effects
open KernelState (WithShared)

/-- How many guards the handler holds on each process. -/
abbrev Held := Nat → BitVec 16

/-- No guard is held. -/
def noGuards : Held := fun _ => 0

/-- One guard, on the process in slot `c`. -/
def oneGuard (c : Nat) : Held := Function.update noGuards c 1

/-- The current thread, the depth, the processes with their guards, and the
queue.  All processes are alive and have the highest priority. -/
structure Settled (thread : GuardRef) (depth : Byte) (held : Held) (slots : List Nat)
    (pids : List Word) (s : KernelState) : Prop where
  thread : s.currentThread = thread
  depth : s.exceptionDepth = depth
  invariant : s.shared.Invariant
  occupied : ∀ slot, (∃ p, s.shared.procAt slot = some p) ↔ slot ∈ slots
  counts : ∀ {slot : Nat} {p : PCB}, s.shared.procAt slot = some p → p.refcount = held slot
  alive : ∀ {slot : Nat} {p : PCB}, s.shared.procAt slot = some p → p.state ≠ .ZOMBIE
  highest : ∀ {slot : Nat} {p : PCB}, s.shared.procAt slot = some p → p.priority = 0
  unheld : ∀ slot, slot ∉ slots → held slot = 0
  queue : s.scheduler.Holds pids

variable {thread : GuardRef} {depth : Byte} {held : Held} {slots : List Nat} {pids : List Word}
  {s s' : KernelState} {ref : GuardRef} {c n : Nat} {vm : Tunnel} {k : SharedResources}

/-- The invariant does not look at the memory or at the log. -/
theorem invariant_log {k : SharedResources} (h : k.Invariant) (physMem : Hardware.Memory)
    (log : List VMRequest) : SharedResources.Invariant { k with physMem, log } :=
  ⟨h.sane.change SharedResources.undone_rfl.change, h.slotted.of_eq rfl rfl⟩

/-- The kernel's process may change apart from its page table. -/
theorem invariant_kernelProcess {k : SharedResources} {kernelProcess : PCB} (h : k.Invariant)
    (hspace : kernelProcess.addrSpace = k.kernelProcess.addrSpace) :
    SharedResources.Invariant { k with kernelProcess } := by
  have hframes : SharedResources.frames { k with kernelProcess } = k.frames := by
    rw [SharedResources.frames, SharedResources.frames, PCB.frames, PCB.frames, hspace]
    rfl
  refine ⟨⟨h.sane.tables, ?_, ?_, h.sane.asids, h.sane.asidBounds⟩, h.slotted.of_eq rfl rfl⟩
  · rw [hframes]
    exact h.sane.frames
  · rw [hframes]
    exact h.sane.frameBounds

/-- Other processes that are the same as far as the scheduler goes. -/
theorem Settled.same (h : Settled thread depth held slots pids s) (hs' : WithShared s k s')
    (hinvariant : k.Invariant) (hsame : k.procAt = s.shared.procAt) :
    Settled thread depth held slots pids s' := by
  obtain ⟨accesses, rfl⟩ := hs'
  refine ⟨h.thread, h.depth, hinvariant, fun slot => ?_, fun {slot p} hp => ?_,
    fun {slot p} hp => ?_, fun {slot p} hp => ?_, h.unheld, h.queue⟩
  · show (∃ p, k.procAt slot = some p) ↔ _
    rw [hsame]
    exact h.occupied slot
  · exact h.counts (hsame ▸ hp)
  · exact h.alive (hsame ▸ hp)
  · exact h.highest (hsame ▸ hp)

/-- The order of the processes does not matter. -/
theorem Settled.of_mem {slots' : List Nat} (h : Settled thread depth held slots pids s)
    (hmem : ∀ slot, slot ∈ slots ↔ slot ∈ slots') : Settled thread depth held slots' pids s :=
  { h with
    occupied := fun slot => (h.occupied slot).trans (hmem slot)
    unheld := fun slot hslot => h.unheld slot fun hin => hslot ((hmem slot).mp hin) }

/-- One process changes, with its guards. -/
theorem Settled.update (h : Settled thread depth held slots pids s) (hs' : WithShared s k s')
    (hinvariant : k.Invariant) {p q : PCB} {count : BitVec 16}
    (hp : s.shared.procAt n = some p)
    (hmap : k.procAt = Function.update s.shared.procAt n (some q)) (hcount : q.refcount = count)
    (hstate : q.state = p.state) (hpriority : q.priority = p.priority) :
    Settled thread depth (Function.update held n count) slots pids s' := by
  obtain ⟨accesses, rfl⟩ := hs'
  have hn : n ∈ slots := (h.occupied n).mp ⟨p, hp⟩
  have hcases : ∀ {slot : Nat} {r : PCB}, k.procAt slot = some r →
      (slot = n ∧ r = q) ∨ (slot ≠ n ∧ s.shared.procAt slot = some r) := by
    intro slot r hr
    rw [hmap] at hr
    by_cases hslot : slot = n
    · rw [hslot, Function.update_self] at hr
      exact .inl ⟨hslot, (Option.some.inj hr).symm⟩
    · rw [Function.update_of_ne hslot] at hr
      exact .inr ⟨hslot, hr⟩
  refine ⟨h.thread, h.depth, hinvariant, fun slot => ?_, fun {slot r} hr => ?_,
    fun {slot r} hr => ?_, fun {slot r} hr => ?_, fun slot hslot => ?_, h.queue⟩
  · show (∃ r, k.procAt slot = some r) ↔ _
    rw [hmap]
    by_cases hslot : slot = n
    · rw [hslot, Function.update_self]
      exact iff_of_true ⟨q, rfl⟩ hn
    · rw [Function.update_of_ne hslot]
      exact h.occupied slot
  · rcases hcases hr with ⟨rfl, rfl⟩ | ⟨hslot, hold⟩
    · rw [Function.update_self, hcount]
    · rw [Function.update_of_ne hslot]
      exact h.counts hold
  · rcases hcases hr with ⟨rfl, rfl⟩ | ⟨hslot, hold⟩
    · rw [hstate]
      exact h.alive hp
    · exact h.alive hold
  · rcases hcases hr with ⟨rfl, rfl⟩ | ⟨hslot, hold⟩
    · rw [hpriority]
      exact h.highest hp
    · exact h.highest hold
  · have hne : slot ≠ n := by
      intro heq
      exact hslot (heq ▸ hn)
    rw [Function.update_of_ne hne]
    exact h.unheld slot hslot

/-! ### Access to the state -/

/-- An access to the kernel heap leaves everything settled. -/
theorem settled_touch {object : HeapObject} :
    Triple (Settled thread depth held slots pids) (touch object)
      fun _ => Settled thread depth held slots pids :=
  fun _ hs _ _ h => hs.same (returns_touch h) hs.invariant rfl

/-- So does one to a control block. -/
theorem settled_touchPcb :
    Triple (Settled thread depth held slots pids) (touchPcb ref)
      fun _ => Settled thread depth held slots pids :=
  fun _ hs _ _ h => hs.same (returns_touchPcb h) hs.invariant rfl

/-- So does one to a page table. -/
theorem settled_touchPageTable :
    Triple (Settled thread depth held slots pids) (touchPageTable ref)
      fun _ => Settled thread depth held slots pids :=
  fun _ hs _ _ h => hs.same (returns_touchPageTable h) hs.invariant rfl

/-- So does a request to the host. -/
theorem settled_send {req : VMRequest} :
    Triple (Settled thread depth held slots pids) (send vm req)
      fun _ => Settled thread depth held slots pids := by
  intro s hs reply s' h
  obtain ⟨log, hs'⟩ := returns_send h
  exact hs.same hs' (invariant_log hs.invariant _ log) rfl

/-- So does a message. -/
theorem settled_printString {text : String} :
    Triple (Settled thread depth held slots pids) (printString vm text)
      fun _ => Settled thread depth held slots pids := by
  intro s hs reply s' h
  obtain ⟨log, hs'⟩ := returns_printString h
  exact hs.same hs' (invariant_log hs.invariant _ log) rfl

/-- Another thread is current. -/
theorem settled_setCurrentThread :
    Triple (Settled thread depth held slots pids) (setCurrentThread ref)
      fun _ => Settled ref depth held slots pids :=
  .modify fun _ hs => { hs with thread := rfl }

/-- One exception less. -/
theorem settled_leaveException :
    Triple (Settled thread depth held slots pids) leaveException
      fun _ => Settled thread (depth - 1) held slots pids :=
  .modify fun _ hs => { hs with depth := by rw [← hs.depth] }

/-- The identifier is not looked at. -/
theorem settled_replaceASID {asid : Byte} :
    Triple (Settled thread depth held slots pids) (replaceASID asid)
      fun _ => Settled thread depth held slots pids :=
  .modify fun _ hs => { hs with }

/-! ### Guards -/

/-- A dereferenced process is in its slot. -/
theorem settled_deref :
    Triple (Settled thread depth held slots pids) (deref (.process n)) fun p s =>
      Settled thread depth held slots pids s ∧ p.priority = 0 ∧ p.PID.toNat = n ∧ n ∈ slots := by
  intro s hs p s' h
  obtain ⟨hp, hs'⟩ := returns_deref h
  have hp' := SharedResources.pcb_ok_iff.mp hp
  exact ⟨hs.same hs' hs.invariant rfl, hs.highest hp',
    hs.invariant.slotted.pids (SharedResources.procAt_iff.mp hp'), (hs.occupied n).mp ⟨p, hp'⟩⟩

/-- Written registers leave everything settled. -/
theorem settled_writeContext {f : RegisterContext → RegisterContext} :
    Triple (Settled thread depth held slots pids) (writeContext (.process n) f)
      fun _ => Settled thread depth held slots pids := by
  intro s hs u s' h
  obtain ⟨p, hp, hs'⟩ := returns_writeContext h
  have hp' := SharedResources.pcb_ok_iff.mp hp
  have hinvariant : (s.shared.setPcb n { p with regCtx := f p.regCtx }).Invariant :=
    hs.invariant.setPcb (SharedResources.procAt_iff.mp hp') rfl rfl
  have hcount : p.refcount = held n := hs.counts hp'
  have hupdate := hs.update hs' hinvariant hp'
    (SharedResources.setPcb_procAt hp' _) hcount rfl rfl
  rw [Function.update_eq_self] at hupdate
  exact hupdate

/-- One guard more. -/
theorem settled_borrow :
    Triple (Settled thread depth held slots pids) (borrow (.process n)) fun _ s =>
      Settled thread depth (Function.update held n (held n + 1)) slots pids s ∧ n ∈ slots := by
  intro s hs u s' h
  obtain ⟨k, hk, hs'⟩ := returns_borrow h
  obtain ⟨p, hp, hmap⟩ := SharedResources.borrow_procAt hk
  have hinvariant := hs.invariant.borrow hk
  refine ⟨hs.update hs' hinvariant hp hmap ?_ rfl rfl, (hs.occupied n).mp ⟨p, hp⟩⟩
  rw [← hs.counts hp]

/-- One guard less. -/
theorem settled_reset :
    Triple (Settled thread depth held slots pids) (reset (some (.process n))) fun _ =>
      Settled thread depth (Function.update held n (held n - 1)) slots pids := by
  intro s hs u s' h
  obtain ⟨k, hk, hs'⟩ := returns_reset h
  obtain ⟨p, hp, hmap⟩ := SharedResources.reset_procAt hk hs.invariant.slotted
  have hinvariant := hs.invariant.reset hk
  rw [SharedResources.afterReset, if_neg fun hlast => hs.alive hp hlast.1] at hmap
  refine hs.update hs' hinvariant hp hmap ?_ rfl rfl
  rw [← hs.counts hp]

/-- The count goes up and down again. -/
theorem update_back (held : Held) (n : Nat) :
    Function.update (Function.update held n (held n + 1)) n
      (Function.update held n (held n + 1) n - 1) = held := by
  rw [Function.update_self, Function.update_idem, show held n + 1 - 1 = held n from
    BitVec.add_sub_cancel _ _, Function.update_eq_self]

/-- The guard that was borrowed last ends. -/
theorem settled_unborrow :
    Triple (Settled thread depth (Function.update held n (held n + 1)) slots pids)
      (reset (some (.process n))) fun _ => Settled thread depth held slots pids := by
  intro s hs u s' h
  have hdone := settled_reset hs h
  rw [update_back] at hdone
  exact hdone

/-- A lookup makes a guard for a slot that is taken. -/
theorem settled_lookup {idx : Word} :
    Triple (Settled thread depth held slots pids) (lookup idx) fun guard s =>
      (guard = none ∧ idx.toNat ∉ slots ∧ Settled thread depth held slots pids s) ∨
      (guard = some (.process idx.toNat) ∧ idx.toNat ∈ slots ∧
        Settled thread depth (Function.update held idx.toNat (held idx.toNat + 1)) slots pids s) := by
  intro s hs guard s' h
  rcases returns_lookup h with ⟨hnone, rfl, hs'⟩ | ⟨slot, k, hslot, rfl, hk, hs'⟩
  · refine .inl ⟨rfl, fun hin => ?_, hs.same hs' hs.invariant rfl⟩
    obtain ⟨p, hp⟩ := (hs.occupied _).mpr hin
    rw [SharedResources.guard_eq_none.mp hnone] at hp
    cases hp
  · obtain ⟨rfl, p, hp⟩ := SharedResources.guard_eq_some.mp hslot
    obtain ⟨p', hp', hmap⟩ := SharedResources.borrow_procAt hk
    have hinvariant := hs.invariant.borrow hk
    refine .inr ⟨rfl, (hs.occupied _).mp ⟨p, hp⟩, hs.update hs' hinvariant hp' hmap ?_ rfl rfl⟩
    rw [← hs.counts hp']

/-! ### User memory -/

/-- A refill leaves everything settled. -/
theorem settled_refill {vaddr : Word} :
    Triple (Settled thread depth held slots pids) (refill ref vaddr)
      fun _ => Settled thread depth held slots pids := by
  intro s hs u s' h
  obtain ⟨p, entry, -, -, accesses, rfl⟩ := returns_refill h
  exact { hs with }

/-- So does a translation. -/
theorem settled_physicalAddress {vaddr : Word} :
    Triple (Settled thread depth held slots pids) (physicalAddress ref vaddr)
      fun _ => Settled thread depth held slots pids :=
  fun _ hs _ _ h => hs.same (returns_physicalAddress h) hs.invariant rfl

/-- So does reading a string. -/
theorem settled_directString {paddr : Word} :
    Triple (Settled thread depth held slots pids) (directString paddr)
      fun _ => Settled thread depth held slots pids := by
  intro s hs text s' h
  rw [returns_directString h]
  exact hs

/-- Stores concern neither the processes nor the queue. -/
theorem Settled.onlyStores (h : Settled thread depth held slots pids s) (hs' : OnlyStores s s') :
    Settled thread depth held slots pids s' := by
  obtain ⟨physMem, _, _, _, _, rfl⟩ := hs'
  have hinvariant := invariant_log h.invariant physMem s.shared.log
  exact { h with invariant := hinvariant }

/-! ### System calls -/

/-- So does printing one. -/
theorem settled_printUserString {ctx : RegisterContext} :
    Triple (Settled thread depth held slots pids) (printUserString vm ref ctx)
      fun _ => Settled thread depth held slots pids :=
  settled_physicalAddress.bind fun _ => settled_directString.bind fun _ =>
    settled_send.bind fun _ => .pure fun _ hs => hs

/-- So does storing input. -/
theorem settled_storeInput {ctx : RegisterContext} {reply : VMReply} :
    Triple (Settled .kernel depth held slots pids) (storeInput (.process n) ctx reply)
      fun _ => Settled .kernel depth held slots pids :=
  fun _ hs _ _ h => hs.onlyStores
    (onlyStores_storeInput hs.thread hs.invariant.slotted hs.alive h).2

/-- So does `READ_STRING`. -/
theorem settled_readString {ctx : RegisterContext} :
    Triple (Settled .kernel depth held slots pids) (readString vm (.process n) ctx)
      fun _ => Settled .kernel depth held slots pids := by
  unfold readString
  split
  · exact settled_printString.bind fun _ => .pure fun _ hs => hs
  · exact settled_send.bind fun reply => settled_storeInput

/-- `exec` changes an image, and nothing else that matters here. -/
theorem settled_exec {brk0 : Word} {path : List Byte} {ctx : RegisterContext} :
    Triple (Settled thread depth held slots pids) (GuardRef.exec vm brk0 (.process n) path ctx)
      fun _ => Settled thread depth held slots pids := by
  refine settled_touchPcb.bind fun _ => settled_touch.bind fun _ => ?_
  refine Triple.bind (Q := fun _ => Settled thread depth held slots pids) ?_
    fun _ => .pure fun _ hs => hs
  intro s hs ctx' s' h
  obtain ⟨k, hk, hs'⟩ := returns_manage h
  obtain ⟨⟨done, ctx1, k1⟩, hexec, hk⟩ := Except.bind_ok_iff.mp hk
  obtain ⟨-, rfl⟩ := Prod.mk.inj (Except.ok.inj hk)
  have hstep : s.shared.Step (.exec vm n path brk0 (some ctx)) k1 := SharedResources.step_exec hexec
  have hinvariant := SharedResources.invariant_step hs.invariant hstep
  obtain ⟨p, hp, ⟨-, -, hsame⟩ | ⟨-, pageTable, regCtx, hmap⟩⟩ :=
    SharedResources.exec_procAt hexec hs.invariant.sane hs.invariant.slotted
  · exact hs.same hs' hinvariant hsame
  · have hcount : p.refcount = held n := hs.counts hp
    have hupdate := hs.update hs' hinvariant hp hmap hcount rfl rfl
    rw [Function.update_eq_self] at hupdate
    exact hupdate

/-- So does `EXEC`. -/
theorem settled_execUser {brk0 : Word} {ctx : RegisterContext} :
    Triple (Settled thread depth held slots pids) (execUser vm brk0 (.process n) ctx)
      fun _ => Settled thread depth held slots pids :=
  settled_physicalAddress.bind fun _ => settled_directString.bind fun _ => settled_exec

/-- So does a new break. -/
theorem settled_updateBrk {vaddr : Word} :
    Triple (Settled thread depth held slots pids) (updateBrk (.process n) vaddr)
      fun _ => Settled thread depth held slots pids := by
  refine settled_touchPcb.bind fun _ => settled_touchPageTable.bind fun _ => ?_
  intro s hs valid s' h
  obtain ⟨k, hbrk, hs'⟩ := returns_manage h
  have hk : s.shared.updateBrk n vaddr = .ok (valid, k) := hbrk
  have hstep : s.shared.Step (.updateBrk n vaddr) k := SharedResources.step_updateBrk hk
  have hinvariant := SharedResources.invariant_step hs.invariant hstep
  obtain ⟨p, addrSpace, hp, hmap⟩ := SharedResources.updateBrk_procAt hk
  have hcount : p.refcount = held n := hs.counts hp
  have hupdate := hs.update hs' hinvariant hp hmap hcount rfl rfl
  rw [Function.update_eq_self] at hupdate
  exact hupdate

/-- A process dies with its only guard. -/
theorem settled_kill (hn : n ∉ slots) :
    Triple (Settled thread depth (oneGuard n) (n :: slots) pids) (kill (.process n))
      fun _ => Settled thread depth noGuards slots pids := by
  refine settled_touchPcb.bind fun _ => ?_
  intro s hs u s' h
  obtain ⟨u1, t, hmanage, hreset⟩ := returns_bind.mp h
  obtain ⟨k, hmark, accesses, rfl⟩ := returns_manage' hmanage
  obtain ⟨k', hk', accesses', rfl⟩ := returns_reset hreset
  have hinvariant := hs.invariant.markForDeath hmark
  have hinvariant' := hinvariant.reset hk'
  obtain ⟨p, hp, hmap⟩ := SharedResources.markForDeath_procAt hmark
  obtain ⟨q, hq, hmap'⟩ := SharedResources.reset_procAt hk' hinvariant.slotted
  rw [hmap, Function.update_self] at hq
  obtain rfl := Option.some.inj hq
  have hcount : p.refcount = 1 := by
    rw [hs.counts hp]
    exact Function.update_self n 1 noGuards
  have hzero : p.refcount - 1 = 0 := by
    rw [hcount]
    rfl
  have hgone : SharedResources.afterReset { p with state := .ZOMBIE } = none := by
    rw [SharedResources.afterReset, if_pos ⟨rfl, hzero⟩]
  rw [hgone, hmap, Function.update_idem] at hmap'
  have hothers : ∀ {slot : Nat} {r : PCB}, k'.procAt slot = some r →
      slot ≠ n ∧ s.shared.procAt slot = some r := by
    intro slot r hr
    rw [hmap'] at hr
    by_cases hslot : slot = n
    · rw [hslot, Function.update_self] at hr
      cases hr
    · rw [Function.update_of_ne hslot] at hr
      exact ⟨hslot, hr⟩
  refine ⟨hs.thread, hs.depth, hinvariant', fun slot => ?_, fun {slot r} hr => ?_,
    fun {slot r} hr => hs.alive (hothers hr).2, fun {slot r} hr => hs.highest (hothers hr).2,
    fun _ _ => rfl, hs.queue⟩
  · show (∃ r, k'.procAt slot = some r) ↔ _
    rw [hmap']
    by_cases hslot : slot = n
    · rw [hslot, Function.update_self]
      refine iff_of_false ?_ hn
      rintro ⟨r, hr⟩
      cases hr
    · rw [Function.update_of_ne hslot, hs.occupied slot, List.mem_cons]
      exact or_iff_right hslot
  · obtain ⟨hslot, hold⟩ := hothers hr
    rw [hs.counts hold]
    exact Function.update_of_ne hslot 1 noGuards

/-- A new process that nobody holds. -/
theorem Settled.created (hs : Settled thread depth held slots pids s) (hs' : WithShared s k s')
    (hinvariant : k.Invariant) {p : PCB} {pid : Word} (hfresh : SharedResources.Fresh p pid)
    (hempty : s.shared.procAt pid.toNat = none)
    (hmap : k.procAt = Function.update s.shared.procAt pid.toNat (some p)) :
    Settled thread depth held (pid.toNat :: slots) pids s' ∧ pid.toNat ∉ slots := by
  obtain ⟨accesses, rfl⟩ := hs'
  have hout : pid.toNat ∉ slots := by
    intro hin
    obtain ⟨q, hq⟩ := (hs.occupied _).mpr hin
    rw [hempty] at hq
    cases hq
  have hcases : ∀ {slot : Nat} {r : PCB}, k.procAt slot = some r →
      (slot = pid.toNat ∧ r = p) ∨ s.shared.procAt slot = some r := by
    intro slot r hr
    rw [hmap] at hr
    by_cases hslot : slot = pid.toNat
    · rw [hslot, Function.update_self] at hr
      exact .inl ⟨hslot, (Option.some.inj hr).symm⟩
    · rw [Function.update_of_ne hslot] at hr
      exact .inr hr
  refine ⟨⟨hs.thread, hs.depth, hinvariant, fun slot => ?_, fun {slot r} hr => ?_,
    fun {slot r} hr => ?_, fun {slot r} hr => ?_, fun slot hslot => ?_, hs.queue⟩, hout⟩
  · show (∃ r, k.procAt slot = some r) ↔ _
    rw [hmap, List.mem_cons]
    by_cases hslot : slot = pid.toNat
    · rw [hslot, Function.update_self]
      exact iff_of_true ⟨p, rfl⟩ (.inl rfl)
    · rw [Function.update_of_ne hslot, hs.occupied slot]
      exact (or_iff_right hslot).symm
  · rcases hcases hr with ⟨rfl, rfl⟩ | hold
    · rw [hfresh.refcount, hs.unheld _ hout]
    · exact hs.counts hold
  · rcases hcases hr with ⟨rfl, rfl⟩ | hold
    · exact hfresh.alive
    · exact hs.alive hold
  · rcases hcases hr with ⟨rfl, rfl⟩ | hold
    · exact hfresh.priority
    · exact hs.highest hold
  · exact hs.unheld slot fun hin => hslot (List.mem_cons_of_mem _ hin)

/-! ### The queue -/

/-- So does a result or a panic of the resources. -/
theorem settled_check {α : Type} {x : Except Panic α} :
    Triple (Settled thread depth held slots pids) (check x)
      fun _ => Settled thread depth held slots pids := by
  intro s hs a s' h
  rw [(returns_check.mp h).2]
  exact hs

/-- A process that is queued waits behind the others. -/
theorem settled_enqueue :
    Triple (Settled thread depth held slots pids) (enqueue (some (.process n))) fun _ s =>
      ∃ pid : Word, pid.toNat = n ∧
        Settled thread depth (Function.update held n (held n - 1)) slots (pids ++ [pid]) s := by
  refine settled_deref.bind fun p => ?_
  intro s ⟨hs, hpriority, hpid, _⟩ u s' h
  refine ⟨p.PID, hpid, ?_⟩
  have hrest : Triple (Settled thread depth held slots pids)
      (do
        check (kassert (p.priority < BitVec.ofNat 8 NUM_LEVELS) "proc->priority < NUM_LEVELS")
        touch .queue
        modify fun sys : KernelState =>
          { sys with scheduler := sys.scheduler.push p.priority.toNat p.PID }
        reset (some (.process n)))
      fun _ => Settled thread depth (Function.update held n (held n - 1)) slots
        (pids ++ [p.PID]) := by
    refine settled_check.bind fun _ => settled_touch.bind fun _ => ?_
    refine Triple.bind (Q := fun _ => Settled thread depth held slots (pids ++ [p.PID]))
      (.modify fun s hs => ?_) fun _ => settled_reset
    rw [hpriority]
    exact { hs with queue := hs.queue.push p.PID }
  exact hrest hs h

/-- The first one that waits is taken, with a guard if it is still there. -/
theorem settled_dequeue {pid : Word} :
    Triple (Settled thread depth held slots (pid :: pids)) dequeue fun guard s =>
      (guard = none ∧ pid.toNat ∉ slots ∧ Settled thread depth held slots pids s) ∨
      (guard = some (.process pid.toNat) ∧ pid.toNat ∈ slots ∧
        Settled thread depth (Function.update held pid.toNat (held pid.toNat + 1)) slots pids s) := by
  refine settled_touch.bind fun _ => ?_
  intro s hs guard s' h
  obtain ⟨htaken, hrest⟩ := hs.queue.pop
  replace h := returns_modify_bind.mp (returns_get_bind.mp h)
  rw [htaken] at h
  have hpopped : Settled thread depth held slots pids { s with scheduler := s.scheduler.pop.2 } :=
    { hs with queue := hrest }
  exact settled_lookup hpopped h

/-! ### FORK -/

/-- Guards on a process that is there. -/
theorem settled_lookup_some {pid : Word} (hin : pid.toNat ∈ slots) :
    Triple (Settled thread depth held slots pids) (lookup pid) fun guard s =>
      guard = some (.process pid.toNat) ∧
        Settled thread depth (Function.update held pid.toNat (held pid.toNat + 1)) slots pids s := by
  refine settled_lookup.post fun guard s h => ?_
  rcases h with ⟨-, hout, -⟩ | ⟨hguard, -, hs⟩
  · exact absurd hin hout
  · exact ⟨hguard, hs⟩

/-- The child waits, and the guards on it are gone. -/
theorem settled_enqueueChild {pid : Word} (hin : pid.toNat ∈ slots) {ctx' : RegisterContext}
    {f : RegisterContext → RegisterContext} :
    Triple (Settled thread depth held slots pids)
      (do
        match ← lookup pid with
        | none => throw .nullPointer
        | some newProc => do
            writeContext newProc f
            enqueue (← lookup pid)
            reset (some newProc)
            pure ctx')
      fun _ => Settled thread depth held slots (pids ++ [pid]) := by
  refine (settled_lookup_some hin).bind fun guard => ?_
  refine Triple.of_forall (φ := guard = some (.process pid.toNat)) ?_ fun _ h => h.1
  rintro rfl
  refine Triple.bind (settled_writeContext.pre fun _ h => h.2) fun _ => ?_
  refine (settled_lookup_some hin).bind fun guard => ?_
  refine Triple.of_forall (φ := guard = some (.process pid.toNat)) ?_ fun _ h => h.1
  rintro rfl
  refine Triple.bind (settled_enqueue.pre fun _ h => h.2) fun _ => ?_
  intro s ⟨pid', hpid, hs⟩ ctx1 s' h
  obtain rfl := BitVec.eq_of_toNat_eq hpid
  rw [update_back] at hs
  obtain ⟨u, t, hreset, h⟩ := returns_bind.mp h
  obtain ⟨-, rfl⟩ := returns_pure.mp h
  exact settled_unborrow hs hreset

/-- The child is there when `forkProcess` returns. -/
theorem settled_forkProcess {pid brk0 : Word} {ctx : Option RegisterContext}
    (hin : pid.toNat ∈ slots) :
    Triple (Settled thread depth held slots pids) (manage fun k => k.forkProcess pid ctx brk0)
      fun newPID s => newPID.toNat ∉ slots ∧
        Settled thread depth held (newPID.toNat :: slots) pids s := by
  intro s hs newPID s' h
  obtain ⟨k, hfork, hs'⟩ := returns_manage h
  have hstep : s.shared.Step (.forkProcess pid ctx brk0) k := SharedResources.step_forkProcess hfork
  have hinvariant := SharedResources.invariant_step hs.invariant hstep
  obtain ⟨q, hq⟩ := (hs.occupied _).mpr hin
  rcases SharedResources.forkProcess_procAt hfork hs.invariant.slotted with
    ⟨-, -, hnone⟩ | ⟨_, child, -, hfresh, hempty, hmap, -⟩
  · rw [hq] at hnone
    cases hnone
  · obtain ⟨hcreated, hout⟩ := hs.created hs' hinvariant hfresh hempty hmap
    exact ⟨hout, hcreated⟩

/-- A fork adds a process that waits behind the others. -/
theorem settled_fork {brk0 : Word} {ctx : RegisterContext} :
    Triple (Settled thread depth held slots pids) (fork brk0 (.process n) ctx) fun _ s =>
      ∃ pid : Word, pid.toNat ∉ slots ∧
        Settled thread depth held (pid.toNat :: slots) (pids ++ [pid]) s := by
  refine settled_deref.bind fun p => ?_
  refine Triple.of_forall (φ := p.PID.toNat ∈ slots) (fun hin => ?_) fun s hs => hs.2.2.1 ▸ hs.2.2.2
  refine Triple.bind (settled_touch.pre fun _ hs => hs.1) fun _ => ?_
  refine (settled_forkProcess hin).bind fun newPID => ?_
  refine Triple.of_forall (φ := newPID.toNat ∉ slots) (fun hout => ?_) fun _ hs => hs.1
  refine Triple.mono (settled_enqueueChild (List.mem_cons_self ..)) (fun _ hs => hs.2) ?_
  exact fun _ _ hs => ⟨newPID, hout, hs⟩

end Kernel
