import BobbyOS.Kernel.MemoryWrites

/-!
# What a trap leaves behind

A trap of the current process that is handled leaves every other process there and alive,
and decides what becomes of its own: it is gone after `EXIT` and after a `BRK` outside of
the heap, and otherwise it runs or waits at one place of the queue.

* `ends_dispatch`: which traps end their process;
* `outlived_takeTrap`: the processes after a trap;
* `writesFree_takeTrap`, `writesOwn_takeTrap`: the bytes that it has written.
-/

namespace Kernel

open Effects Run SharedResources
open AddressSpace (InHeap)
open KernelState (WithShared)

variable {s s' : KernelState} {vm : Tunnel} {brk0 badVAddr : Word} {ctx : RegisterContext}
  {c n : Nat} {pids : List Word} {p : PCB}

/-! ### Who is killed -/

/-- The trap ends its process. -/
def Ends (ctx : RegisterContext) : Prop :=
  ExceptionType.ofCause ctx.cause = .syscall ∧
    (ctx.accessRegister Register.V0 = EXIT ∨
      ctx.accessRegister Register.V0 = BRK ∧ ¬ InHeap (ctx.accessRegister Register.A0))

/-- A part after which the process goes on. -/
theorem goesOn {α : Type} {P : KernelState → Prop} {x : KernelM α} {f : α → RegisterContext}
    {ref : GuardRef} (h : ¬ Ends ctx) :
    Triple P (x >>= fun a => pure (f a, some ref)) fun r _ => r.2 = none ↔ Ends ctx :=
  .after fun _ => .pure fun _ _ => iff_of_false nofun h

/-- A part after which it is dead. -/
theorem killed {P : KernelState → Prop} {ref : GuardRef} (h : Ends ctx) :
    Triple P (kill ref >>= fun _ => pure (ctx, (none : Option GuardRef)))
      fun r _ => r.2 = none ↔ Ends ctx :=
  .after fun _ => .pure fun _ _ => iff_of_true rfl h

/-- A `BRK` is refused for addresses outside of the heap. -/
theorem valid_updateBrk {vaddr : Word} : Triple (fun s => s.shared.Invariant)
    (updateBrk (.process n) vaddr) fun valid _ => valid = decide (InHeap vaddr) := by
  intro s hs valid s' h
  obtain ⟨_, t, htouch, h⟩ := returns_bind.mp h
  obtain ⟨_, rfl⟩ := returns_touchPcb htouch
  obtain ⟨_, t, htouch, h⟩ := returns_bind.mp h
  obtain ⟨_, rfl⟩ := returns_touchPageTable htouch
  obtain ⟨k, hmanage, -⟩ := returns_manage h
  have hbrk : s.shared.updateBrk n vaddr = .ok (valid, k) := hmanage
  obtain ⟨_, _, _, _, _, hvalid, -⟩ := SharedResources.updateBrk_spec hbrk hs.sane hs.slotted
  exact hvalid

/-- A call other than the two that can end a process. -/
theorem not_ends {call : Word} (hcall : ctx.accessRegister Register.V0 = call)
    (hexit : call ≠ EXIT)
    (hbrk : call ≠ BRK) : ¬ Ends ctx := by
  intro ⟨_, hends⟩
  rw [hcall] at hends
  rcases hends with h | ⟨h, -⟩
  · exact hexit h
  · exact hbrk h

/-- Among the calls, `EXIT` and a bad `BRK` end it. -/
theorem ends_syscall (hcause : ExceptionType.ofCause ctx.cause = .syscall) :
    Triple (fun s => s.shared.Invariant) (syscall vm brk0 (.process n) ctx)
      fun r _ => r.2 = none ↔ Ends ctx := by
  unfold syscall
  split
  case isTrue h => exact goesOn (not_ends h (by decide) (by decide))
  split
  case isTrue h => exact goesOn (not_ends h (by decide) (by decide))
  split
  case isTrue h => exact goesOn (not_ends h (by decide) (by decide))
  split
  case isTrue h => exact goesOn (not_ends h (by decide) (by decide))
  split
  case isTrue h => exact killed ⟨hcause, .inl h⟩
  rename_i hexit
  split
  case isTrue h => exact goesOn (not_ends h (by decide) (by decide))
  split
  case isTrue h =>
    refine valid_updateBrk.bind fun valid => ?_
    refine Triple.of_forall (fun hvalid => ?_) fun _ h => h
    rw [hvalid]
    split
    · rename_i hin
      refine .pure fun _ _ => iff_of_false nofun ?_
      rintro ⟨-, hends | ⟨-, hout⟩⟩
      · exact hexit hends
      · exact hout (of_decide_eq_true hin)
    · rename_i hout
      exact .after fun _ => killed ⟨hcause, .inr ⟨h, fun hin => hout (decide_eq_true hin)⟩⟩
  rename_i hbrk
  split
  case isTrue h => exact goesOn (not_ends h (by decide) (by decide))
  · refine goesOn ?_
    rintro ⟨-, hends | ⟨hends, -⟩⟩
    · exact hexit hends
    · exact hbrk hends

/-- **Ending.**  Exactly `EXIT` and a bad `BRK` end their process. -/
theorem ends_dispatch : Triple (fun s => s.shared.Invariant)
    (dispatch vm brk0 badVAddr (.process n) ctx) fun r _ => r.2 = none ↔ Ends ctx := by
  by_cases hcause : ExceptionType.ofCause ctx.cause = .syscall
  · unfold dispatch
    rw [hcause]
    exact ends_syscall hcause
  · have hgoes : ¬ Ends ctx := fun h => hcause h.1
    unfold dispatch
    split
    · exact .pure fun _ _ => iff_of_false nofun hgoes
    · exact goesOn hgoes
    · exact goesOn hgoes
    · rename_i h
      exact absurd h hcause
    · exact .after fun _ => .after fun _ => .throw
    · exact .after fun _ => .throw
    · exact .after fun _ => .after fun _ => goesOn hgoes

/-! ### Traps -/

/-- The state in which the `switch` of a trap in `s` starts. -/
def Entered (s : KernelState) (c : Nat) (t : KernelState) : Prop :=
  ∃ k accesses, s.shared.borrow c = .ok k ∧ t = s.entered k accesses

/-- The guard of the old thread is held. -/
theorem Entered.holding {t : KernelState} (hnodup : (withCurrent c pids).Nodup)
    (hs : Settled (.process c) 0 noGuards (withCurrent c pids) pids s) (ht : Entered s c t) :
    Holding c pids t := by
  obtain ⟨k, accesses, hk, rfl⟩ := ht
  exact holding_entered hnodup hs hk

/-- The guard of the old thread changes no memory and no address space. -/
theorem Entered.same {t : KernelState} (htabled : Tabled s) (hp : s.shared.procAt c = some p)
    (halive : p.state ≠ .ZOMBIE) (ht : Entered s c t) :
    Tabled t ∧ Housed c p.addrSpace t ∧ t.shared.physMem = s.shared.physMem ∧
      t.shared.log = s.shared.log := by
  obtain ⟨k, accesses, hk, rfl⟩ := ht
  have hguard : GuardRef.borrow s.shared (.process c) = .ok k := hk
  have htabled' : Tabled (s.entered k accesses) := tabled_undisturbed htabled (.borrow hguard)
  obtain ⟨q, hq, hmap⟩ := borrow_procAt hk
  obtain rfl := Option.some.inj (hp.symm.trans hq)
  rw [borrow_eq (procAt_iff.mp hp)] at hk
  obtain rfl := Except.ok.inj hk
  refine ⟨htabled', ⟨htabled'.1, { p with refcount := p.refcount + 1 }, ?_, rfl, halive⟩, rfl, rfl⟩
  exact (congrFun hmap c).trans (Function.update_self ..)

/-- What happens to the memory in a trap happens in its `switch`. -/
theorem takeTrap_physMem {regCtx : RegisterContext} (hthread : s.currentThread = .process c)
    (h : Returns (takeTrap vm brk0 badVAddr ctx) s regCtx s') :
    ∃ t r t1, Entered s c t ∧ t.tlb = s.tlb ∧
      Returns (dispatch vm brk0 badVAddr (.process c) ctx) t r t1 ∧
      s'.shared.physMem = t1.shared.physMem := by
  obtain ⟨k, accesses, ctx', oldThread, t1, t2, hk, hdispatch, hfinish, hleave⟩ :=
    returns_takeTrap h
  rw [hthread] at hk hdispatch
  have hI := kept_physMem t1.shared.physMem
  exact ⟨_, _, t1, ⟨k, accesses, hk, rfl⟩, rfl, hdispatch,
    hI.leave.returns hleave ((hI.finish fun ref _ => among_everyone ref).returns hfinish rfl)⟩

/-- What is left of the processes after a trap of the one in slot `c`. -/
structure Outlived (s : KernelState) (c : Nat) (ctx : RegisterContext) (t : KernelState) :
    Prop where
  others : ∀ slot p, slot ≠ c → s.shared.procAt slot = some p →
    ∃ q, t.shared.procAt slot = some q ∧ q.state ≠ .ZOMBIE
  ended : Ends ctx → t.shared.procAt c = none
  goesOn : ¬ Ends ctx → ∃ q, t.shared.procAt c = some q ∧ q.state ≠ .ZOMBIE ∧
    WaitsOnce t c q.PID

/-- **Processes.**  Every trap that is handled leaves them so. -/
theorem outlived_takeTrap {regCtx : RegisterContext} (hnodup : (withCurrent c pids).Nodup)
    (hs : Settled (.process c) 0 noGuards (withCurrent c pids) pids s) (htabled : Tabled s)
    (hp : s.shared.procAt c = some p)
    (hreturns : Returns (takeTrap vm brk0 badVAddr ctx) s regCtx s') : Outlived s c ctx s' := by
  obtain ⟨k, accesses, ctx', oldThread, t, hk, hdispatch, hscheduled, hsurvives⟩ :=
    settled_takeTrap hnodup hs hreturns
  have hentered : Entered s c (s.entered k accesses) := ⟨k, accesses, hk, rfl⟩
  have hends : oldThread = none ↔ Ends ctx :=
    ends_dispatch (hentered.same htabled hp (hs.alive hp)).1.1 hdispatch
  have halive {slot : Nat} {q : PCB} (hq : s'.shared.procAt slot = some q) : q.state ≠ .ZOMBIE := by
    obtain ⟨c', pids', -, hs'⟩ := hscheduled
    exact hs'.alive hq
  refine ⟨fun slot q hne hq => ?_, fun h => ?_, fun h => ?_⟩
  · have hin := (hs.occupied slot).mp ⟨q, hq⟩
    obtain ⟨pid, hpid, rfl⟩ := List.mem_map.mp (List.mem_of_ne_of_mem hne hin)
    obtain ⟨q', hq'⟩ := hsurvives.others pid hpid
    exact ⟨q', hq', halive hq'⟩
  · have hgone := hsurvives.old
    rw [hends.mpr h] at hgone
    cases hslot : s'.shared.procAt c with
    | none => rfl
    | some q => exact nomatch hgone.mp ⟨q, hslot⟩
  · have hsome := Option.isSome_iff_ne_none.mpr fun hnone => h (hends.mp hnone)
    obtain ⟨q, hq⟩ := hsurvives.old.mpr hsome
    exact ⟨q, hq, halive hq, hscheduled.waitsOnce hq⟩

/-- **Memory.**  Apart from the calls that write, a trap writes to free frames only. -/
theorem writesFree_takeTrap {regCtx : RegisterContext} (hcalm : ¬ Writes ctx)
    (hthread : s.currentThread = .process c)
    (hreturns : Returns (takeTrap vm brk0 badVAddr ctx) s regCtx s') :
    s.shared.WritesFree s'.shared.physMem := by
  obtain ⟨t, r, t1, ⟨k, accesses, hk, rfl⟩, -, hswitch, hmem⟩ := takeTrap_physMem hthread hreturns
  obtain ⟨p, hp, -⟩ := borrow_procAt hk
  rw [borrow_eq (procAt_iff.mp hp)] at hk
  obtain rfl := Except.ok.inj hk
  have hwrites := writesFree_dispatch hcalm hswitch
  exact fun x hx => hwrites x (hmem ▸ hx)

/-- `READ_STRING` at user addresses writes to frames of its process. -/
theorem writesOwn_takeTrap {regCtx : RegisterContext}
    (hs : Settled (.process c) 0 noGuards (withCurrent c pids) pids s) (htabled : Tabled s)
    (hp : s.shared.procAt c = some p) (hcall : Calls ctx READ_STRING)
    (hbuffer : UserBuffer s.shared vm ctx) (htruthful : Truthful p.addrSpace s.tlb)
    (hreturns : Returns (takeTrap vm brk0 badVAddr ctx) s regCtx s') :
    WritesOwn p.addrSpace s.shared.physMem s'.shared.physMem := by
  obtain ⟨t, r, t1, ht, htlb, hswitch, hmem⟩ := takeTrap_physMem hs.thread hreturns
  obtain ⟨-, hhoused, hmem0, hlog0⟩ := ht.same htabled hp (hs.alive hp)
  have hbuffer0 : UserBuffer t.shared vm ctx := by
    rw [UserBuffer, inputReply, hlog0]
    exact hbuffer
  rw [← htlb] at htruthful
  rw [hmem, ← hmem0]
  exact writesOwn_dispatch hcall hhoused htruthful hbuffer0 hswitch

end Kernel
