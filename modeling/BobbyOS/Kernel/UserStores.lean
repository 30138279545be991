import BobbyOS.Kernel.TrapInvariants

/-!
# Stores into the memory of a process

`READ_STRING` makes the old thread the current one and stores byte by byte.  A store may
miss the TLB; then the kernel traps into itself, refills the entry and repeats the
instruction before the store as well.  This file says what all of that may change: the
TLB, the identifier, the accesses, and the memory.  The guard that a nested trap takes is
given back at its end, so the processes are the same.

* `returns_nestedMiss`: one nested trap;
* `returns_storeByte`: misses, and then one byte;
* `onlyStores_storeBytes`, `onlyStores_storeInput`: the loop and the rest of `READ_STRING`.
-/

namespace Kernel

open Effects SharedResources
open KernelState (WithShared)

variable {s s' t : KernelState} {k k' : SharedResources} {n : Nat} {p : PCB} {vaddr : Word}
  {b : Byte} {buf : List Byte}

/-- The current thread is a process that is not marked for death, if it is there. -/
structure KernelState.Runs (n : Nat) (s : KernelState) : Prop where
  thread : s.currentThread = .process n
  slotted : s.shared.Slotted
  alive : ∀ {p : PCB}, s.shared.procAt n = some p → p.state ≠ .ZOMBIE

/-! ### Nested traps -/

/-- A guard of a process that is alive, taken and given back. -/
theorem reset_borrow (hslotted : k.Slotted) (hp : k.procAt n = some p) (halive : p.state ≠ .ZOMBIE)
    (hborrow : k.borrow n = .ok k') {k'' : SharedResources} (hreset : k'.reset n = .ok k'') :
    k'' = k := by
  have hslot := procAt_iff.mp hp
  rw [borrow_eq hslot] at hborrow
  obtain rfl := Except.ok.inj hborrow
  have hborrowed : (k.setPcb n { p with refcount := p.refcount + 1 }).processes[n]? =
      some (some { p with refcount := p.refcount + 1 }) := setPcb_self hslot _
  rw [SharedResources.reset, pcb_eq hborrowed, Except.ok_bind,
    if_neg (show ¬ p.PID = KERNEL_PID from hslotted.pid_ne hslot)] at hreset
  have hnone : ¬ (p.state = .ZOMBIE ∧ p.refcount + 1 - 1 = 0) := fun hlast => halive hlast.1
  simp only [if_neg hnone] at hreset
  rw [← Except.ok.inj hreset, BitVec.add_sub_cancel, setPcb, setPcb, List.set_set,
    Slots.set_self hslot]

/-- **Nested trap.**  An entry of the process is written to the TLB, and nothing else changes. -/
theorem returns_nestedMiss (hs : s.Runs n) {u : Unit} (h : Returns (nestedMiss vaddr) s u s') :
    ∃ p entry, s.shared.procAt n = some p ∧ p.addrSpace.translate vaddr = .ok entry ∧
      WithShared (s.filled entry) s.shared s' := by
  obtain ⟨_, t, henter, h⟩ := returns_bind.mp h
  obtain rfl := returns_modify.mp henter
  replace h := returns_get_bind.mp h
  rw [hs.thread] at h
  obtain ⟨_, t, hborrow, h⟩ := returns_bind.mp h
  obtain ⟨k, hk, accesses, rfl⟩ := returns_borrow hborrow
  obtain ⟨_, t, hcurrent, h⟩ := returns_bind.mp h
  obtain rfl := returns_modify.mp hcurrent
  obtain ⟨_, t, hrefill, h⟩ := returns_bind.mp h
  obtain ⟨q, entry, hq, hentry, accesses', rfl⟩ := returns_refill hrefill
  obtain ⟨_, t, hcurrent, h⟩ := returns_bind.mp h
  obtain rfl := returns_modify.mp hcurrent
  obtain ⟨_, t, hreset, h⟩ := returns_bind.mp h
  obtain ⟨k', hk', accesses'', rfl⟩ := returns_reset hreset
  obtain rfl := returns_modify.mp h
  -- the guard of the nested trap is gone again
  have hborrowed : s.shared.borrow n = .ok k := hk
  obtain ⟨p, hp, hmap⟩ := borrow_procAt hborrowed
  obtain rfl : k' = s.shared := reset_borrow hs.slotted hp (hs.alive hp) hborrowed hk'
  have hfound : k.procAt n = some q := pcb_ok_iff.mp hq
  rw [hmap, Function.update_self] at hfound
  obtain rfl := Option.some.inj hfound
  refine ⟨p, entry, hp, hentry, accesses'', ?_⟩
  show KernelState.mk .. = KernelState.mk ..
  rw [KernelState.mk.injEq]
  exact ⟨rfl, rfl, hs.thread.symm, BitVec.add_sub_cancel .., rfl, rfl, rfl, rfl⟩

/-- The state after some nested traps on pages of the process. -/
inductive Misses (n : Nat) (s : KernelState) : KernelState → Prop
  | none : Misses n s s
  | more {t t' : KernelState} {p : PCB} {vaddr : Word} {entry : TLBEntry} (h : Misses n s t)
      (hp : t.shared.procAt n = some p) (hentry : p.addrSpace.translate vaddr = .ok entry)
      (ht' : WithShared (t.filled entry) t.shared t') : Misses n s t'

/-! ### What stores change -/

/-- The memory and the TLB may differ, and the accesses. -/
def OnlyStores (s s' : KernelState) : Prop :=
  ∃ physMem tlb random asid accesses,
    s' = { s with shared := { s.shared with physMem }, tlb, random, asid, accesses }

/-- Nothing happened. -/
theorem OnlyStores.refl (s : KernelState) : OnlyStores s s :=
  ⟨_, _, _, _, _, rfl⟩

/-- One part after the other. -/
theorem OnlyStores.trans (h : OnlyStores s t) (h' : OnlyStores t s') : OnlyStores s s' := by
  obtain ⟨_, _, _, _, _, rfl⟩ := h
  obtain ⟨physMem, tlb, random, asid, accesses, rfl⟩ := h'
  exact ⟨physMem, tlb, random, asid, accesses, rfl⟩

/-- The current thread goes on. -/
theorem OnlyStores.runs (h : OnlyStores s s') (hs : s.Runs n) : s'.Runs n := by
  obtain ⟨_, _, _, _, _, rfl⟩ := h
  exact ⟨hs.thread, hs.slotted.of_eq rfl rfl, hs.alive⟩

/-- Misses change no memory. -/
theorem Misses.shared (h : Misses n s s') : s'.shared = s.shared := by
  induction h with
  | none => rfl
  | more h hp hentry ht' ih => exact ht'.shared.trans ih

/-- They change the TLB. -/
theorem Misses.onlyStores (h : Misses n s s') : OnlyStores s s' := by
  induction h with
  | none => exact .refl s
  | more h hp hentry ht' ih =>
      obtain ⟨accesses, rfl⟩ := ht'
      exact ih.trans ⟨_, _, _, _, accesses, rfl⟩

/-- Through misses the process runs on. -/
theorem Misses.runs (h : Misses n s s') (hs : s.Runs n) : s'.Runs n := h.onlyStores.runs hs

/-- A nested miss is one. -/
theorem misses_nestedMiss (hs : s.Runs n) {u : Unit} (h : Returns (nestedMiss vaddr) s u s') :
    Misses n s s' := by
  obtain ⟨p, entry, hp, hentry, hs'⟩ := returns_nestedMiss hs h
  exact .more .none hp hentry hs'

/-- Misses one after the other. -/
theorem Misses.trans (h : Misses n s t) (h' : Misses n t s') : Misses n s s' := by
  induction h' with
  | none => exact h
  | more _ hp hentry ht' ih => exact .more ih hp hentry ht'

/-- The load that is repeated reads, and may miss. -/
theorem misses_reload (hs : s.Runs n) {b' : Byte} (h : Returns (reload buf b) s b' s') :
    Misses n s s' := by
  replace h := returns_get_bind.mp h
  split at h
  · replace h := returns_get_bind.mp h
    split at h
    · obtain ⟨-, rfl⟩ := returns_pure.mp h
      exact .none
    · exact absurd h not_returns_throw
  · obtain ⟨_, t, hmiss, h⟩ := returns_bind.mp h
    obtain ⟨-, rfl⟩ := returns_pure.mp h
    exact misses_nestedMiss hs hmiss

/-- A byte that is stored at a physical address. -/
theorem returns_writePhysical {paddr : Word} {u : Unit}
    (h : Returns (writePhysical paddr b) s u s') :
    paddr.toNat < Hardware.physMemSize ∧ s' = { s with shared :=
      { s.shared with physMem := Function.update s.shared.physMem paddr.toNat b } } := by
  unfold writePhysical at h
  split at h
  case isTrue hlt => exact ⟨hlt, returns_modify.mp h⟩
  case isFalse => exact absurd h not_returns_throw

/-- **Stores.**  After some misses a byte is stored where the TLB has the address; without a
miss it is the byte `b`. -/
theorem returns_storeByte (hs : s.Runs n) {u : Unit} (h : Returns (storeByte buf vaddr b) s u s') :
    ∃ t paddr b', Misses n s t ∧ t.tlb.translate vaddr .store t.asid = .ok paddr ∧
      Returns (writePhysical paddr b') t u s' ∧
      ((∃ paddr, s.tlb.translate vaddr .store s.asid = .ok paddr) → t = s ∧ b' = b) := by
  replace h := returns_get_bind.mp h
  cases htranslate : s.tlb.translate vaddr .store s.asid with
  | ok paddr =>
      simp only [htranslate] at h
      exact ⟨s, paddr, b, .none, htranslate, h, fun _ => ⟨rfl, rfl⟩⟩
  | error e =>
      simp only [htranslate] at h
      obtain ⟨_, t, hmiss, h⟩ := returns_bind.mp h
      have hmissed := misses_nestedMiss hs hmiss
      obtain ⟨b', t', hreload, h⟩ := returns_bind.mp h
      have hreloaded := misses_reload (hmissed.runs hs) hreload
      replace h := returns_get_bind.mp h
      split at h
      case h_1 paddr hagain =>
        refine ⟨t', paddr, b', hmissed.trans hreloaded, hagain, h, fun hhit => ?_⟩
        obtain ⟨_, hhit⟩ := hhit
        cases hhit
      case h_2 => exact absurd h not_returns_throw

/-- The store of a character only stores. -/
theorem onlyStores_storeByte (hs : s.Runs n) {u : Unit}
    (h : Returns (storeByte buf vaddr b) s u s') : OnlyStores s s' := by
  obtain ⟨t, paddr, b', hmisses, -, hwrite, -⟩ := returns_storeByte hs h
  obtain ⟨-, rfl⟩ := returns_writePhysical hwrite
  exact hmisses.onlyStores.trans ⟨_, _, _, _, _, rfl⟩

/-- All bytes. -/
theorem onlyStores_storeBytes {loc : Word} {left i : Nat} (hs : s.Runs n) {u : Unit}
    (h : Returns (storeBytes loc buf left i) s u s') : OnlyStores s s' := by
  induction left generalizing i s with
  | zero =>
      obtain ⟨-, rfl⟩ := returns_pure.mp h
      exact .refl s'
  | succ left ih =>
      obtain ⟨_, t, hstore, h⟩ := returns_bind.mp h
      have hstored := onlyStores_storeByte hs hstore
      exact hstored.trans (ih (hstored.runs hs) h)

/-- **Input.**  The kernel is the current thread again. -/
theorem onlyStores_storeInput {ctx ctx' : RegisterContext} {reply : VMReply}
    (hthread : s.currentThread = .kernel) (hslotted : s.shared.Slotted)
    (halive : ∀ {p : PCB}, s.shared.procAt n = some p → p.state ≠ .ZOMBIE)
    (h : Returns (storeInput (.process n) ctx reply) s ctx' s') : ctx' = ctx ∧ OnlyStores s s' := by
  unfold storeInput at h
  split at h
  · obtain ⟨rfl, rfl⟩ := returns_pure.mp h
    exact ⟨rfl, .refl s'⟩
  · obtain ⟨_, t, hcurrent, h⟩ := returns_bind.mp h
    obtain rfl := returns_modify.mp hcurrent
    obtain ⟨p, t, hderef, h⟩ := returns_bind.mp h
    obtain ⟨-, accesses, rfl⟩ := returns_deref hderef
    obtain ⟨_, t, hasid, h⟩ := returns_bind.mp h
    obtain rfl := returns_modify.mp hasid
    obtain ⟨_, t, hstores, h⟩ := returns_bind.mp h
    have hstored := onlyStores_storeBytes (n := n) (by exact ⟨rfl, hslotted, halive⟩) hstores
    obtain ⟨physMem, tlb, random, asid, accesses', rfl⟩ := hstored
    obtain ⟨_, t, hcurrent, h⟩ := returns_bind.mp h
    obtain rfl := returns_modify.mp hcurrent
    obtain ⟨rfl, rfl⟩ := returns_pure.mp h
    refine ⟨rfl, physMem, tlb, random, asid, accesses', ?_⟩
    show KernelState.mk .. = KernelState.mk ..
    rw [KernelState.mk.injEq]
    exact ⟨rfl, rfl, hthread.symm, rfl, rfl, rfl, rfl, rfl⟩

end Kernel
