import Mathlib.Data.List.Pairwise
import BobbyOS.Kernel.Bystanders
import BobbyOS.Kernel.ForkCopy
import BobbyOS.Kernel.UserEntries

/-!
# The frames that a trap spares

No two processes have a frame in common, and a trap writes to frames that nobody has or
that its own process has.  There are two exceptions, which the conditions here exclude:
`READ_STRING` may be asked to store past the user addresses, and the copying loop of
`FORK` runs over the three frames behind each new one.

* `Invariant.owns_apart`: the frames of two processes are different ones;
* `Forked.writes`, `Forked.writes_harmless`: where a fork writes;
* `forkProcess_spares`: a fork with room behind its frames writes to no frame in use;
* `takeTrap_writes`: what a trap may have written;
* `trap_spares_others`: a trap leaves every other process as it was, with its bytes.
-/

namespace Kernel

open Effects SharedResources
open KernelState (WithShared)

variable {s s' : KernelState} {k k' : SharedResources} {vm : Tunnel} {brk0 badVAddr : Word}
  {m n f : Nat} {p q : PCB} {ctx : RegisterContext}

/-! ### Frames of processes -/

namespace SharedResources

/-- The frames of a process are frames of the kernel's processes. -/
theorem mem_frames {t : HashPageTable} (hp : k.procAt n = some p)
    (ht : p.addrSpace.pageTable = some (.hash t)) (hf : f ∈ t.frames) : f ∈ k.frames := by
  refine List.mem_append_right _ (List.mem_flatMap.mpr ⟨p, mem_live (procAt_iff.mp hp), ?_⟩)
  rwa [PCB.frames_hash ht]

/-- A frame of a process is in use. -/
theorem Sane.owns_reserved (h : k.Sane) (hp : k.procAt n = some p) (hf : p.addrSpace.Owns f) :
    k.memory.Reserved f := by
  obtain ⟨t, ht, hf⟩ := hf
  exact h.frames.taken f (mem_frames hp ht hf)

/-- **Apart.**  Two processes have no frame in common. -/
theorem Invariant.owns_apart (h : k.Invariant) (hp : k.procAt n = some p)
    (hq : k.procAt m = some q) (hne : n ≠ m) (hf : p.addrSpace.Owns f) :
    ¬ q.addrSpace.Owns f := by
  rintro ⟨t', ht', hf'⟩
  obtain ⟨t, ht, hf⟩ := hf
  have hdistinct : p ≠ q := by
    rintro rfl
    have hn := h.slotted.pids (procAt_iff.mp hp)
    have hm := h.slotted.pids (procAt_iff.mp hq)
    exact hne (hn.symm.trans hm)
  have hnodup := (List.nodup_append.mp h.sane.frames.nodup).2.1
  have hpairs := (List.nodup_flatMap.mp hnodup).2
  have hsymm : Std.Symm (Function.onFun List.Disjoint PCB.frames) := ⟨fun _ _ hd => hd.symm⟩
  have hdisjoint : List.Disjoint p.frames q.frames :=
    hpairs.forall (mem_live (procAt_iff.mp hp)) (mem_live (procAt_iff.mp hq)) hdistinct
  rw [PCB.frames_hash ht, PCB.frames_hash ht'] at hdisjoint
  exact hdisjoint hf hf'

/-! ### Forks -/

/-- The three frames behind each frame that the fork is going to take are free. -/
def RoomBehind (k : SharedResources) (t : HashPageTable) : Prop :=
  ∀ f ∈ k.forkFrames t, ∀ j < 4, ¬ k.memory.Reserved (f + j)

instance decidableRoomBehind (k : SharedResources) (t : HashPageTable) :
    Decidable (k.RoomBehind t) :=
  inferInstanceAs (Decidable (∀ f ∈ k.forkFrames t, ∀ j < 4,
    ¬ k.memory.reservedPages.bit (f + j) = true))

/-- A fork writes to the frames that it takes and to the three behind each. -/
theorem mem_forkRows {pages : List (Word × PageTable.Entry)} {fs : List Nat} {g : Nat}
    (h : g ∈ (BlockMoves.rows (framePairs pages fs)).map Prod.fst) :
    ∃ f ∈ fs, ∃ j < 4, g = f + j := by
  obtain ⟨m, hm, hle, hlt⟩ := BlockMoves.mem_rows h
  rw [framePairs] at hm
  obtain ⟨i, hi⟩ := List.mem_iff_getElem?.mp hm
  obtain ⟨kv, f, -, hf, rfl⟩ := List.getElem?_zipWith_eq_some.mp hi
  exact ⟨f, List.mem_of_getElem? hf, g - f, by omega, by omega⟩

/-- A byte that changes is in a frame that changes. -/
theorem frame_ne_of_byte {mem mem' : Hardware.Memory} {x : Nat} (hx : mem' x ≠ mem x) :
    frame mem' (x / Hardware.pageSize) ≠ frame mem (x / Hardware.pageSize) := by
  intro hsame
  have hbyte := congrFun hsame ⟨x % 4096, Nat.mod_lt _ (by decide)⟩
  unfold frame Hardware.pageSize at hbyte
  simp only [Nat.div_add_mod] at hbyte
  exact hx hbyte

/-- **Forks.**  A fork writes to the frames that it takes and to the three behind each. -/
theorem Forked.writes {t t' : HashPageTable} (h : Forked k t k' t') {x : Nat}
    (hx : k'.physMem x ≠ k.physMem x) :
    ∃ f ∈ k.forkFrames t, ∃ j < 4, x / Hardware.pageSize = f + j := by
  have hwritten : x / Hardware.pageSize ∈
      (BlockMoves.rows (framePairs t.entries (k.forkFrames t))).map Prod.fst := by
    by_contra hkept
    refine frame_ne_of_byte hx ?_
    rw [h.bytes]
    exact BlockMoves.run_of_notMem _ hkept
  exact mem_forkRows hwritten

/-- The fork of a process, in a state with the invariant. -/
theorem Invariant.forked {t : HashPageTable} {pid newPID : Word}
    {regCtx : Option RegisterContext} (h : k.Invariant) (hp : k.procAt pid.toNat = some p)
    (ht : p.addrSpace.pageTable = some (.hash t))
    (hfork : k.forkProcess pid regCtx brk0 = .ok (newPID, k')) :
    t.table.WF ∧ ∃ t', Forked k t k' t' := by
  obtain ⟨t1, ht1, hwf, hframes⟩ := h.table (procAt_iff.mp hp)
  obtain rfl := PageTable.hash.inj (Option.some.inj (ht.symm.trans ht1))
  obtain ⟨slot, child, t', -, -, hforked, -⟩ :=
    forkProcess_forked (procAt_iff.mp hp) ht hwf (fun f hf => (hframes f hf).1) hfork
  exact ⟨hwf, t', hforked⟩

/-- With room behind its frames, it writes to no frame in use. -/
theorem forkProcess_spares {t : HashPageTable} {pid newPID : Word}
    {regCtx : Option RegisterContext} (h : k.Invariant) (hp : k.procAt pid.toNat = some p)
    (ht : p.addrSpace.pageTable = some (.hash t)) (hroom : k.RoomBehind t)
    (hfork : k.forkProcess pid regCtx brk0 = .ok (newPID, k')) {x : Nat}
    (hx : k'.physMem x ≠ k.physMem x) : ¬ k.memory.Reserved (x / Hardware.pageSize) := by
  obtain ⟨-, t', hforked⟩ := h.forked hp ht hfork
  obtain ⟨f, hf, j, hj, heq⟩ := hforked.writes hx
  rw [heq]
  exact hroom f hf j hj

end SharedResources

/-! ### Traps -/

/-- The trap of a process with this address space stores at user addresses, and forks
where there is room. -/
structure Spares (k : SharedResources) (space : AddressSpace) (vm : Tunnel)
    (ctx : RegisterContext) : Prop where
  input : Calls ctx READ_STRING → UserBuffer k vm ctx
  room : Calls ctx FORK → ∀ t, space.pageTable = some (.hash t) → k.RoomBehind t

/-- What is said of the hash table of a process can be evaluated. -/
instance decidableHashTable {P : HashPageTable → Prop} [∀ t, Decidable (P t)] :
    (table : Option PageTable) → Decidable (∀ t, table = some (.hash t) → P t)
  | some (.hash t) => decidable_of_iff (P t)
      ⟨fun h _ ht => PageTable.hash.inj (Option.some.inj ht) ▸ h, fun h => h t rfl⟩
  | some (.kernel _) => isTrue fun _ h => by cases h
  | none => isTrue fun _ h => by cases h

instance decidableSpares (k : SharedResources) (space : AddressSpace) (vm : Tunnel)
    (ctx : RegisterContext) : Decidable (Spares k space vm ctx) :=
  decidable_of_iff ((Calls ctx READ_STRING → UserBuffer k vm ctx) ∧
    (Calls ctx FORK → ∀ t, space.pageTable = some (.hash t) → k.RoomBehind t))
    ⟨fun h => ⟨h.1, h.2⟩, fun h => ⟨h.input, h.room⟩⟩

/-- After `forkProcess` the memory is not written. -/
theorem fork_physMem {ctx' : RegisterContext}
    (h : Returns (fork brk0 (.process m) ctx) s ctx' s') :
    ∃ p newPID k, s.shared.procAt m = some p ∧
      s.shared.forkProcess p.PID (some ctx) brk0 = .ok (newPID, k) ∧
      s'.shared.physMem = k.physMem := by
  obtain ⟨p, t, hderef, h⟩ := returns_bind.mp h
  obtain ⟨hp, hsame⟩ := returns_deref hderef
  obtain ⟨_, t1, htouch, h⟩ := returns_bind.mp h
  have hsame1 := returns_touch htouch
  obtain ⟨newPID, t2, hmanage, h⟩ := returns_bind.mp h
  obtain ⟨k, hfork, ht2⟩ := returns_manage hmanage
  rw [hsame1.shared, hsame.shared] at hfork
  refine ⟨p, newPID, k, pcb_ok_iff.mp hp, hfork, ?_⟩
  have hI := kept_physMem k.physMem
  have hstart : t2.shared.physMem = k.physMem := by rw [ht2.shared]
  exact (hI.enqueueChild trivial).returns h hstart

/-- A trap that forks leaves the memory that `forkProcess` leaves. -/
theorem fork_takeTrap {pids : List Word} {regCtx : RegisterContext} {t : HashPageTable}
    (hs : Settled (.process m) 0 noGuards (withCurrent m pids) pids s) (hcall : Calls ctx FORK)
    (hp : s.shared.procAt m = some p) (ht : p.addrSpace.pageTable = some (.hash t))
    (h : Returns (takeTrap vm brk0 badVAddr ctx) s regCtx s') :
    t.table.WF ∧ ∃ k t', Forked s.shared t k t' ∧ s'.shared.physMem = k.physMem := by
  obtain ⟨t0, r, t1, ⟨k, accesses, hk, rfl⟩, -, hdispatch, hmem⟩ := takeTrap_physMem hs.thread h
  unfold dispatch at hdispatch
  rw [hcall.1, syscall_fork hcall.2] at hdispatch
  obtain ⟨ctx1, t2, hcall, hrest⟩ := returns_bind.mp hdispatch
  obtain ⟨-, rfl⟩ := returns_pure.mp hrest
  obtain ⟨q, newPID, k', hq, hforked, hmem'⟩ := fork_physMem hcall
  replace hq : k.procAt m = some q := hq
  replace hforked : k.forkProcess q.PID (some ctx) brk0 = .ok (newPID, k') := hforked
  obtain ⟨p', hp', hmap⟩ := borrow_procAt hk
  obtain rfl := Option.some.inj (hp.symm.trans hp')
  rw [hmap, Function.update_self] at hq
  obtain rfl := Option.some.inj hq
  have hpid := hs.invariant.slotted.pids (procAt_iff.mp hp)
  have hborrowed := hs.invariant.borrow hk
  have hthere : k.procAt (PCB.PID { p with refcount := p.refcount + 1 }).toNat =
      some { p with refcount := p.refcount + 1 } := by
    rw [hpid, hmap, Function.update_self]
  rw [borrow_eq (procAt_iff.mp hp)] at hk
  obtain rfl := Except.ok.inj hk
  obtain ⟨hwf, t', hdone⟩ := hborrowed.forked hthere ht hforked
  -- the guard is no part of what a fork reads
  exact ⟨hwf, k', t', ⟨hdone.length, hdone.hands, hdone.entries, hdone.bytes⟩, hmem.trans hmem'⟩

/-- **Writes.**  A trap of the process in slot `m` writes to frames that nobody has, and to
frames of its own process. -/
theorem takeTrap_writes {pids : List Word} {regCtx : RegisterContext}
    (hs : Settled (.process m) 0 noGuards (withCurrent m pids) pids s) (htabled : Tabled s)
    (hp : s.shared.procAt m = some p) (htruthful : Truthful p.addrSpace s.tlb)
    (hspares : Spares s.shared p.addrSpace vm ctx)
    (h : Returns (takeTrap vm brk0 badVAddr ctx) s regCtx s') {x : Nat}
    (hx : s'.shared.physMem x ≠ s.shared.physMem x) :
    ¬ s.shared.memory.Reserved (x / Hardware.pageSize) ∨
      p.addrSpace.Owns (x / Hardware.pageSize) := by
  by_cases hcalm : Writes ctx
  swap
  · exact .inl (writesFree_takeTrap hcalm hs.thread h x hx).1
  obtain ⟨hcause, hread | hfork⟩ := hcalm
  · have hcall : Calls ctx READ_STRING := ⟨hcause, hread⟩
    exact .inr (writesOwn_takeTrap hs htabled hp hcall (hspares.input hcall) htruthful h x hx)
  · left
    obtain ⟨t, ht, -⟩ := htabled.1.sane.tables p (mem_live (procAt_iff.mp hp))
    obtain ⟨-, k, t', hforked, hmem⟩ := fork_takeTrap hs ⟨hcause, hfork⟩ hp ht h
    rw [hmem] at hx
    obtain ⟨f, hf, j, hj, heq⟩ := hforked.writes hx
    rw [heq]
    exact hspares.room ⟨hcause, hfork⟩ t ht f hf j hj

/-! ### Runs -/

/-- Every byte that the page table shows is in a frame of the process. -/
theorem physical_owned {t : PageTable} {vaddr : Word} {x : Nat} (h : k.Sane)
    (hp : k.procAt n = some p) (ht : p.addrSpace.pageTable = some t)
    (hx : t.physical vaddr = some x) : p.addrSpace.Owns (x / Hardware.pageSize) := by
  have hlive := mem_live (procAt_iff.mp hp)
  obtain ⟨t0, ht0, husable⟩ := h.tables p hlive
  obtain rfl := Option.some.inj (ht.symm.trans ht0)
  obtain ⟨e, hwalk, -, rfl⟩ := PageTable.physical_eq_some.mp hx
  have hentry := (HashPageTable.walkTable_eq_some husable.wf).mp hwalk
  have hframe : e.pfn.toNat ∈ t0.frames :=
    List.mem_map_of_mem (f := fun kv => kv.2.pfn.toNat) hentry
  have hbound : e.pfn.toNat < numPages := by
    apply h.frames_lt hlive
    rwa [PCB.frames_hash ht0]
  unfold numPages at hbound
  have hdiv : (e.pfn.toNat % 2 ^ 20 * Hardware.pageSize + vaddr.toNat % Hardware.pageSize) /
      Hardware.pageSize = e.pfn.toNat := by
    unfold Hardware.pageSize
    omega
  refine ⟨t0, ht0, ?_⟩
  rw [hdiv]
  exact hframe

/-- The process in slot `n` is as it was: it is alive, with its registers, its pages and
the bytes in them. -/
structure Untouched (n : Nat) (k k' : SharedResources) : Prop where
  process : ∃ q q', k.procAt n = some q ∧ k'.procAt n = some q' ∧ q'.state ≠ .ZOMBIE ∧
    q'.regCtx = q.regCtx ∧ q'.addrSpace = q.addrSpace
  bytes : ∀ q t vaddr, k.procAt n = some q → q.addrSpace.pageTable = some t →
    t.virtualByte k'.physMem vaddr = t.virtualByte k.physMem vaddr

/-- A live process is as it is. -/
theorem untouched_refl (hq : k.procAt n = some q) (halive : q.state ≠ .ZOMBIE) :
    Untouched n k k :=
  ⟨⟨q, q, hq, hq, halive, rfl, rfl⟩, fun _ _ _ _ _ => rfl⟩

/-- What is untouched twice is untouched. -/
theorem Untouched.trans {k1 k2 k3 : SharedResources} (h : Untouched n k1 k2)
    (h' : Untouched n k2 k3) : Untouched n k1 k3 := by
  obtain ⟨q, q2, hq, hq2, -, hregs, hspace⟩ := h.process
  obtain ⟨q2', q3, hq2', hq3, halive, hregs', hspace'⟩ := h'.process
  obtain rfl := Option.some.inj (hq2.symm.trans hq2')
  refine ⟨⟨q, q3, hq, hq3, halive, hregs'.trans hregs, hspace'.trans hspace⟩,
    fun r t vaddr hr ht => ?_⟩
  obtain rfl := Option.some.inj (hq.symm.trans hr)
  rw [h'.bytes q2 t vaddr hq2 (hspace ▸ ht), h.bytes q t vaddr hq ht]

/-- The frames of a process have their bytes, so its virtual memory does. -/
theorem virtualByte_spared {t : PageTable} {mem : Hardware.Memory} (h : k.Sane)
    (hq : k.procAt n = some q) (ht : q.addrSpace.pageTable = some t)
    (hmem : ∀ x, q.addrSpace.Owns (x / Hardware.pageSize) → mem x = k.physMem x) (vaddr : Word) :
    t.virtualByte mem vaddr = t.virtualByte k.physMem vaddr := by
  rw [PageTable.virtualByte, PageTable.virtualByte]
  cases hx : t.physical vaddr with
  | none => rfl
  | some x =>
      show physicalByte mem x = physicalByte k.physMem x
      rw [physicalByte, physicalByte, hmem x (physical_owned h hq ht hx)]

/-- **Trap.**  A trap leaves every process but its own as it was. -/
theorem trap_spares_others {pids : List Word} {regCtx : RegisterContext}
    (hs : Settled (.process m) 0 noGuards (withCurrent m pids) pids s) (htabled : Tabled s)
    (hp : s.shared.procAt m = some p) (htruthful : Truthful p.addrSpace s.tlb)
    (hspares : Spares s.shared p.addrSpace vm ctx)
    (h : Returns (takeTrap vm brk0 badVAddr ctx) s regCtx s') (hne : n ≠ m)
    (hq : s.shared.procAt n = some q) : Untouched n s.shared s'.shared := by
  have hinvariant := hs.invariant
  have hremains : Remaining n (fun r a => r = q.regCtx ∧ a = q.addrSpace) s :=
    ⟨hinvariant, q, hq, hs.alive hq, rfl, rfl⟩
  obtain ⟨-, q', hq', halive, hregs, hspace⟩ := remains_takeTrap hs.thread hne.symm hremains h
  refine ⟨⟨q, q', hq, hq', halive, hregs, hspace⟩, fun r t vaddr hr ht => ?_⟩
  obtain rfl := Option.some.inj (hq.symm.trans hr)
  refine virtualByte_spared hinvariant.sane hq ht (fun x howns => ?_) vaddr
  by_contra hx
  rcases takeTrap_writes hs htabled hp htruthful hspares h hx with hfree | hown
  · exact hfree (hinvariant.sane.owns_reserved hq howns)
  · exact hinvariant.owns_apart hq hp hne howns hown

namespace KernelState

/-- What is said of the current process can be evaluated. -/
instance decidableCurrent (s : KernelState) {P : PCB → Prop} [∀ p, Decidable (P p)] :
    Decidable (∀ c p, s.currentThread = .process c → s.shared.procAt c = some p → P p) :=
  match hthread : s.currentThread with
  | .kernel => isTrue fun _ _ h => by cases h
  | .process c =>
      match hp : s.shared.procAt c with
      | none => isTrue fun _ p h h' => by
          obtain rfl := GuardRef.process.inj h
          cases hp.symm.trans h'
      | some p => decidable_of_iff (P p)
          ⟨fun hP _ p' h h' => by
              obtain rfl := GuardRef.process.inj h
              exact Option.some.inj (hp.symm.trans h') ▸ hP,
            fun hP => hP c p rfl hp⟩

/-- A trap that keeps the TLB coherent and spares the memory of others. -/
def Sparing (s : KernelState) : KernelEvent → Prop
  | .trap vm brk0 badVAddr ctx => s.Careful (.trap vm brk0 badVAddr ctx) ∧
      ∀ c p, s.currentThread = .process c → s.shared.procAt c = some p →
        Spares s.shared p.addrSpace vm ctx
  | .kernelMiss _ => True

instance decidableSparing (s : KernelState) : (event : KernelEvent) → Decidable (s.Sparing event)
  | .trap _ _ _ _ => inferInstanceAs (Decidable (_ ∧ _))
  | .kernelMiss _ => inferInstanceAs (Decidable True)

/-- A trap that spares the others keeps the TLB coherent. -/
theorem Sparing.careful {event : KernelEvent} (h : s.Sparing event) : s.Careful event := by
  cases event with
  | trap vm brk0 badVAddr ctx => exact h.1
  | kernelMiss vaddr => exact h

end KernelState

/-- **Invariant** of the kernel between two traps. -/
structure Orderly (s : KernelState) : Prop where
  scheduled : Scheduled 0 s
  tabled : Tabled s
  coherent : Coherent s
  walled : Walled s

/-- The boot leaves the kernel in order. -/
theorem orderly_boot {imageEnd brk1 : Word} {physMem : Hardware.Memory}
    (h : KernelState.boot vm imageEnd brk0 brk1 physMem = some s) : Orderly s :=
  ⟨scheduled_boot h, tabled_boot h, coherent_boot h, walled_boot h⟩

/-- **One step** keeps it so. -/
theorem orderly_step {event : KernelEvent} (hs : Orderly s) (hcareful : s.Careful event)
    (h : s.Step event s') : Orderly s' := by
  refine ⟨scheduled_step hs.scheduled h, ?_, coherent_step hs.coherent hs.scheduled hcareful h,
    walled_step hs.walled hs.scheduled h⟩
  cases event with
  | trap vm brk0 badVAddr trapCtx =>
      obtain ⟨regCtx, h⟩ := after_eq_some.mp h
      obtain ⟨c, pids, -, hsettled⟩ := hs.scheduled
      rw [← h.final]
      exact kept_tabled.takeTrap trivial hs.tabled hsettled.thread tabled_dispatch
  | kernelMiss vaddr =>
      obtain ⟨u, h⟩ := after_eq_some.mp h
      exact (kept_tabled.refill vaddr).returns h hs.tabled

/-- One step, while the process in slot `n` waits. -/
theorem untouched_step {event : KernelEvent} (hs : Orderly s) (hspares : s.Sparing event)
    (hwaits : s.currentThread ≠ .process n) (hq : s.shared.procAt n = some q)
    (h : s.Step event s') : Untouched n s.shared s'.shared := by
  obtain ⟨c, pids, hnodup, hsettled⟩ := hs.scheduled
  cases event with
  | trap vm brk0 badVAddr trapCtx =>
      obtain ⟨regCtx, h⟩ := after_eq_some.mp h
      obtain ⟨p, hp⟩ := (hsettled.occupied c).mpr (List.mem_cons_self ..)
      have hne : n ≠ c := fun heq => hwaits (heq ▸ hsettled.thread)
      exact trap_spares_others hsettled hs.tabled hp
        (truthful_of_walled hs.walled hs.coherent hp) (hspares.2 c p hsettled.thread hp) h hne hq
  | kernelMiss vaddr =>
      obtain ⟨u, h⟩ := after_eq_some.mp h
      obtain ⟨p, entry, -, -, hs'⟩ := returns_refill h
      rw [hs'.shared]
      exact untouched_refl hq (hsettled.alive hq)

end Kernel
