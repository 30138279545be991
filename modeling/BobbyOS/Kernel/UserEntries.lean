import BobbyOS.Kernel.MemoryWrites
import BobbyOS.Kernel.TLBRefill

/-!
# TLB entries for user pages

The kernel's page table has pages of the kernel heap only, and no page of a process is
global.  So an entry for a user page belongs to one process, and the hardware never uses
it under another identifier.  Between two traps ENTRYHI has the identifier of the current
process, or of the kernel after a miss of its own.

* `kept_walled`: every part of the handler keeps the entries for user pages private;
* `truthful_of_walled`: what the hardware finds for user addresses of a process is in its
  page table;
* `asid_takeTrap`: a trap leaves the identifier of the process that goes on in ENTRYHI.
-/

namespace Kernel

open Effects Run SharedResources
open KernelState (WithShared)

variable {s s' : KernelState} {k k' : SharedResources} {vm : Tunnel} {brk0 badVAddr vaddr : Word}
  {m n : Nat} {p q : PCB} {ctx : RegisterContext} {ref : GuardRef}

/-! ### Entries -/

/-- The entries for user pages belong to one process each. -/
def UserEntries (tlb : Hardware.TLB) : Prop :=
  ∀ i, (tlb i).valid = true → (tlb i).vpn.toNat < 2 ^ 19 →
    (tlb i).global = false ∧ (tlb i).asid ≠ KERNEL_ASID

/-- The pages that page tables have: those of processes lie below the stack limit, those of
the kernel are its heap.  Neither the first nor the last page of the address space is one. -/
def TablePage (vpn : Word) : Prop :=
  TEXT_START_VPN.toNat ≤ vpn.toNat ∧ vpn.toNat < 0xC0000 + KHEAP_PAGES

/-- The kernel's page table has the pages of its heap. -/
def HeapTable (k : SharedResources) : Prop :=
  ∃ t, k.kernelProcess.addrSpace.pageTable = some (.kernel t) ∧ t.pt.length = KHEAP_PAGES

/-- **Invariant.**  The kernel has its own kind of page table, user pages are private, and
all entries come from page tables. -/
structure Walled (s : KernelState) : Prop where
  invariant : s.shared.Invariant
  kernelTable : HeapTable s.shared
  entries : UserEntries s.tlb
  pages : ∀ i, (s.tlb i).valid = true → TablePage (s.tlb i).vpn

/-- An operation of the process manager does not reach the kernel's process. -/
theorem Walled.operation {op : Operation} (hs : Walled s) (hstep : s.shared.Step op k) :
    Walled { s with shared := k } := by
  obtain ⟨-, old, new, leaked, hchange, -⟩ :=
    step_spec hstep hs.invariant.sane hs.invariant.slotted
  refine ⟨invariant_step hs.invariant hstep, ?_, hs.entries, hs.pages⟩
  show HeapTable k
  rw [HeapTable, hchange.kernel]
  exact hs.kernelTable

/-- Neither does any other step of the handler. -/
theorem walled_undisturbed (hs : Walled s) (h : Undisturbed Everyone s.shared k) :
    Walled { s with shared := k } := by
  rcases h.cases with ⟨op, hstep⟩ | ⟨kernelProcess, hspace, rfl⟩ | ⟨n, p, regCtx, hp, rfl⟩ |
    ⟨log, rfl⟩
  · exact hs.operation hstep
  · refine ⟨invariant_kernelProcess hs.invariant hspace, ?_, hs.entries, hs.pages⟩
    show HeapTable { s.shared with kernelProcess }
    rw [HeapTable]
    simp only [hspace]
    exact hs.kernelTable
  · exact ⟨hs.invariant.setPcb (procAt_iff.mp hp) rfl rfl, hs.kernelTable, hs.entries, hs.pages⟩
  · exact ⟨invariant_log hs.invariant _ log, hs.kernelTable, hs.entries, hs.pages⟩

/-- A page that the kernel's table translates is in the kernel heap. -/
theorem kernel_translate {space : AddressSpace} {t : KernelPageTable} {entry : TLBEntry}
    (ht : space.pageTable = some (.kernel t)) (h : space.translate vaddr = .ok entry) :
    0xC0000 ≤ (vaddr >>> 12).toNat ∧ (vaddr >>> 12).toNat < 0xC0000 + t.pt.length := by
  obtain ⟨t', e, ht', hwalk, -⟩ := translate_spec h
  obtain rfl := Option.some.inj (ht.symm.trans ht')
  replace hwalk : t.walkTable vaddr = .ok (some e) := hwalk
  unfold KernelPageTable.walkTable at hwalk
  split at hwalk
  · cases hwalk
  rename_i habove
  split at hwalk
  · cases hwalk
  rename_i e' hentry
  obtain ⟨hlt, -⟩ := List.getElem?_eq_some_iff.mp hentry
  rw [BitVec.not_lt, BitVec.le_def] at habove
  have hboundary : KHEAP_BOUNDARY.toNat = 0xC0000000 := rfl
  rw [BitVec.toNat_ushiftRight, Nat.shiftRight_eq_div_pow] at hlt ⊢
  rw [BitVec.toNat_sub_of_le (BitVec.le_def.mpr habove)] at hlt
  omega

/-- A page that a process's table translates is a user page. -/
theorem user_translate {t : HashPageTable} {entry : TLBEntry} (husable : t.Usable)
    (ht : p.addrSpace.pageTable = some (.hash t)) (h : p.addrSpace.translate vaddr = .ok entry) :
    TEXT_START_VPN ≤ vaddr >>> 12 ∧ vaddr >>> 12 < STACK_LIMIT_VPN := by
  obtain ⟨t', e, ht', hwalk, -⟩ := translate_spec h
  obtain rfl := Option.some.inj (ht.symm.trans ht')
  have hentry := (HashPageTable.walkTable_eq_some husable.wf).mp hwalk
  exact husable.bounded _ (List.mem_map_of_mem (f := Prod.fst) hentry)

/-- An entry that some process's page table translates. -/
theorem tablePage_translate {entry : TLBEntry} (hs : Walled s) (hp : ref.pcb s.shared = .ok p)
    (h : p.addrSpace.translate vaddr = .ok entry) : TablePage (vaddr >>> 12) := by
  cases ref with
  | kernel =>
      obtain rfl := Except.ok.inj hp
      obtain ⟨t, ht, hlen⟩ := hs.kernelTable
      obtain ⟨hlow, hhigh⟩ := kernel_translate ht h
      rw [hlen] at hhigh
      have hstart : TEXT_START_VPN.toNat = 0x400 := rfl
      exact ⟨by omega, hhigh⟩
  | process n =>
      have hproc := pcb_ok_iff.mp hp
      obtain ⟨t, ht, husable⟩ := hs.invariant.sane.tables p (mem_live (procAt_iff.mp hproc))
      obtain ⟨hlow, hhigh⟩ := user_translate husable ht h
      have hlimit : STACK_LIMIT_VPN.toNat = 0x80000 := rfl
      rw [BitVec.lt_def] at hhigh
      exact ⟨BitVec.le_def.mp hlow, by unfold KHEAP_PAGES; omega⟩

/-- A refill keeps it. -/
theorem walled_filled {entry : TLBEntry} (hs : Walled s) (hp : ref.pcb s.shared = .ok p)
    (h : p.addrSpace.translate vaddr = .ok entry) : Walled (s.filled entry) := by
  refine ⟨hs.invariant, hs.kernelTable, fun i hvalid hlow => ?_, fun i hvalid => ?_⟩
  · rcases filled_tlb (s := s) entry i with hnew | hold
    · rw [hnew] at hlow ⊢
      have hasid := asid_translate h
      obtain ⟨t, e, ht, hwalk, -, rfl⟩ := translate_spec h
      cases ref with
      | kernel =>
          obtain rfl := Except.ok.inj hp
          obtain ⟨t0, ht0, -⟩ := hs.kernelTable
          have hhigh := (kernel_translate ht0 h).1
          rw [PageTable.Entry.toTLBEntry, TLBEntry.vpn_ofHiLo] at hlow
          omega
      | process n =>
          have hproc := pcb_ok_iff.mp hp
          obtain ⟨t0, ht0, husable⟩ := hs.invariant.sane.tables p (mem_live (procAt_iff.mp hproc))
          obtain rfl := Option.some.inj (ht0.symm.trans ht)
          have hentry := (HashPageTable.walkTable_eq_some husable.wf).mp hwalk
          refine ⟨TLBEntry.global_ofHiLo _ ?_, ?_⟩
          · rw [(husable.regular _ hentry).2.1]
            rfl
          · rw [hasid]
            exact hs.invariant.sane.asid_ne_kernel hproc
    · rw [hold] at hvalid hlow ⊢
      exact hs.entries i hvalid hlow
  · rcases filled_tlb (s := s) entry i with hnew | hold
    · rw [hnew]
      have hpage := tablePage_translate hs hp h
      obtain ⟨t, e, -, -, -, rfl⟩ := translate_spec h
      rw [PageTable.Entry.toTLBEntry, TLBEntry.vpn_ofHiLo]
      exact hpage
    · rw [hold] at hvalid ⊢
      exact hs.pages i hvalid

/-- The state in which the `switch` starts. -/
theorem Walled.entered (hs : Walled s) (hk : ref.borrow s.shared = .ok k)
    (accesses : List HeapAccess) : Walled (s.entered k accesses) := by
  have hborrowed := walled_undisturbed hs (.borrow hk)
  exact ⟨hborrowed.invariant, hborrowed.kernelTable, hborrowed.entries, hborrowed.pages⟩

/-- **Steps.** -/
theorem kept_walled : Kept Everyone Walled where
  access _ hs := ⟨hs.invariant, hs.kernelTable, hs.entries, hs.pages⟩
  control hs hshared htlb _ := by
    refine ⟨hshared ▸ hs.invariant, hshared ▸ hs.kernelTable, ?_, ?_⟩
    · rw [htlb]
      exact hs.entries
    · rw [htlb]
      exact hs.pages
  manage := walled_undisturbed
  fill := walled_filled

/-- Bytes of the memory are no part of it. -/
theorem walled_stores : KeptByStores Walled := fun physMem hs =>
  ⟨invariant_log hs.invariant physMem _, hs.kernelTable, hs.entries, hs.pages⟩

/-- **The `switch`.** -/
theorem walled_dispatch : Keeps Walled (dispatch vm brk0 badVAddr (.process n) ctx) :=
  kept_walled.switch trivial walled_stores (fun hs h => hs.operation (step_exec h))
    fun hs h => ⟨hs.operation (step_forkProcess h), trivial⟩

/-- **Trap.** -/
theorem walled_takeTrap {regCtx : RegisterContext} (hs : Walled s)
    (hthread : s.currentThread = .process n)
    (h : Returns (takeTrap vm brk0 badVAddr ctx) s regCtx s') : Walled s' := by
  rw [← h.final]
  exact kept_walled.takeTrap trivial hs hthread walled_dispatch

/-! ### Stores that miss -/

/-- The character that a repeated load takes for its address is on no page of a table. -/
theorem not_tablePage_char (b : Byte) : ¬ TablePage (b.signExtend 32 >>> 12) := by
  have hstart : TEXT_START_VPN.toNat = 0x400 := rfl
  rintro ⟨hlow, hhigh⟩
  unfold KHEAP_PAGES at hhigh
  rw [BitVec.toNat_ushiftRight, Nat.shiftRight_eq_div_pow, BitVec.toNat_signExtend] at hlow hhigh
  have hb := b.isLt
  rw [BitVec.toNat_setWidth] at hlow hhigh
  split at hlow
  · rename_i hmsb
    rw [if_pos hmsb] at hhigh
    omega
  · omega

/-- The TLB has no entry for it either. -/
theorem miss_char (hs : Walled s) (b : Byte) (type : Hardware.LookupType) (asid : Byte) :
    ∀ paddr, s.tlb.translate (b.signExtend 32) type asid ≠ .ok paddr := by
  intro paddr h
  rcases (Hardware.translate_ok_iff _ _ _ _ _).mp h with ⟨hdirect, -⟩ | ⟨-, e, he, -⟩
  · have hrange := (Hardware.directMapped_iff _).mp hdirect
    rw [BitVec.toNat_signExtend, BitVec.toNat_setWidth] at hrange
    have hb := b.isLt
    split at hrange
    · omega
    · omega
  · obtain ⟨i, rfl, hcovers⟩ := Hardware.entryFor_covers he
    refine not_tablePage_char b ?_
    rw [← Hardware.covers_page hcovers]
    exact hs.pages i (Hardware.covers_valid hcovers)

/-- **Stores.**  A store of `READ_STRING` returns only when the TLB has its address: after a
miss the kernel reads from the address that the character makes, which nobody has. -/
theorem hit_storeByte {buf : List Byte} {b : Byte} (hs : s.Runs n) (hwalled : Walled s) {u : Unit}
    (h : Returns (storeByte buf vaddr b) s u s') :
    ∃ paddr, s.tlb.translate vaddr .store s.asid = .ok paddr ∧
      Returns (writePhysical paddr b) s u s' := by
  replace h := returns_get_bind.mp h
  cases htranslate : s.tlb.translate vaddr .store s.asid with
  | ok paddr =>
      simp only [htranslate] at h
      exact ⟨paddr, rfl, h⟩
  | error e =>
      simp only [htranslate] at h
      obtain ⟨_, t, hmiss, h⟩ := returns_bind.mp h
      obtain ⟨b', t', hreload, -⟩ := returns_bind.mp h
      have ht : Walled t := (kept_walled.nestedMiss _).returns hmiss hwalled
      have hruns : t.Runs n := (misses_nestedMiss hs hmiss).runs hs
      replace hreload := returns_get_bind.mp hreload
      cases hload : t.tlb.translate (b.signExtend 32) .load t.asid with
      | ok paddr => exact absurd hload (miss_char ht b .load t.asid paddr)
      | error e' =>
          simp only [hload] at hreload
          obtain ⟨_, t1, hagain, -⟩ := returns_bind.mp hreload
          obtain ⟨p, entry, hp, hentry, -⟩ := returns_nestedMiss hruns hagain
          have hproc : (GuardRef.process n).pcb t.shared = .ok p := pcb_ok_iff.mpr hp
          exact absurd (tablePage_translate ht hproc hentry) (not_tablePage_char b)

/-! ### Boot -/

/-- The loop of the constructor makes as many entries as it runs. -/
theorem length_reservePages {n : Nat} {m m' : MemoryManager} {pt : List PageTable.Entry}
    (h : KernelPageTable.reservePages n m = .ok (pt, m')) : pt.length = n := by
  induction n generalizing m m' pt with
  | zero =>
      obtain ⟨rfl, -⟩ := Prod.mk.inj (Except.ok.inj h)
      rfl
  | succ n ih =>
      obtain ⟨⟨frame, m1⟩, -, h⟩ := Except.bind_ok_iff.mp h
      obtain ⟨⟨rest, m2⟩, hrest, h⟩ := Except.bind_ok_iff.mp h
      obtain ⟨rfl, -⟩ := Prod.mk.inj (Except.ok.inj h)
      rw [List.length_cons, ih hrest]

/-- The kernel's page table has as many pages as the kernel heap. -/
theorem length_kernelTable {m m' : MemoryManager} {t : KernelPageTable}
    (h : KernelPageTable.construct m = .ok (t, m')) : t.pt.length = KHEAP_PAGES := by
  obtain ⟨⟨pt, m1⟩, hpt, h⟩ := Except.bind_ok_iff.mp h
  obtain ⟨rfl, -⟩ := Prod.mk.inj (Except.ok.inj h)
  exact length_reservePages hpt

/-- The state in which the first process is started. -/
theorem walled_shell {imageEnd brk1 : Word} {physMem : Hardware.Memory} {k0 : SharedResources}
    {log : List VMRequest} {accesses : List HeapAccess} {firstPID : Word}
    (hk0 : construct imageEnd brk0 physMem = .ok k0)
    (hcreate : SharedResources.createProcess { k0 with log } vm
      (ascii "programs/shell/shell.elf") brk1 = .ok (firstPID, k)) :
    Walled { shared := k, accesses } := by
  obtain ⟨hsane, hslotted, -, -⟩ := construct_spec hk0
  have htable : HeapTable k0 := by
    obtain ⟨⟨table, memory⟩, hmade, hk0⟩ := Except.bind_ok_iff.mp hk0
    rw [← Except.ok.inj hk0]
    exact ⟨table, rfl, length_kernelTable hmade⟩
  have hempty : UserEntries .empty := fun _ hvalid => absurd hvalid Bool.false_ne_true
  have hconstructed : Walled { shared := { k0 with log } } :=
    ⟨invariant_log ⟨hsane, hslotted⟩ k0.physMem log, htable, hempty, fun _ hvalid =>
      absurd hvalid Bool.false_ne_true⟩
  have hstep : SharedResources.Step { k0 with log }
      (.createProcess vm (ascii "programs/shell/shell.elf") brk1) k :=
    step_createProcess hcreate
  have hcreated := hconstructed.operation hstep
  exact ⟨hcreated.invariant, hcreated.kernelTable, hcreated.entries, hcreated.pages⟩

/-- **Boot.** -/
theorem walled_boot {imageEnd brk1 : Word} {physMem : Hardware.Memory}
    (h : KernelState.boot vm imageEnd brk0 brk1 physMem = some s) : Walled s := by
  obtain ⟨k0, k, log, accesses, firstPID, hk0, hcreate, h⟩ := boot_spec h
  exact (kept_walled.startFirst firstPID).returns h (walled_shell hk0 hcreate)

/-- **One step** of the kernel keeps user entries at user addresses. -/
theorem walled_step {event : KernelEvent} (hs : Walled s) (hscheduled : Scheduled 0 s)
    (h : s.Step event s') : Walled s' := by
  cases event with
  | trap vm brk0 badVAddr trapCtx =>
      obtain ⟨regCtx, h⟩ := after_eq_some.mp h
      obtain ⟨c, pids, -, hsettled⟩ := hscheduled
      exact walled_takeTrap hs hsettled.thread h
  | kernelMiss vaddr =>
      obtain ⟨u, h⟩ := after_eq_some.mp h
      exact (kept_walled.refill vaddr).returns h hs

/-- **User addresses.**  What the hardware finds for them under the identifier of a process
is in the page table of the process. -/
theorem truthful_of_walled (hs : Walled s) (hcoherent : Coherent s)
    (hp : s.shared.procAt n = some p) : Truthful p.addrSpace s.tlb := by
  intro i vaddr hlow hcovers
  have hvalid := Hardware.covers_valid hcovers
  have hpage := Hardware.covers_page hcovers
  have hlocal : (s.tlb i).global = false := by
    refine (hs.entries i hvalid ?_).1
    rw [hpage, BitVec.toNat_ushiftRight, Nat.shiftRight_eq_div_pow]
    omega
  have hasid : p.addrSpace.asid = (s.tlb i).asid := by
    simp only [Hardware.TLBEntry.covers, Bool.and_eq_true, Bool.or_eq_true, hlocal,
      Bool.false_eq_true, or_false, beq_iff_eq] at hcovers
    exact hcovers.2.symm
  exact hcoherent.agrees i n p hvalid hlocal hp hasid

/-- Under the identifier of the kernel it finds nothing. -/
theorem not_covers_kernel (hs : Walled s) (i : Fin Hardware.tlbEntries)
    (hlow : vaddr.toNat < 2 ^ 31) : (s.tlb i).covers (vaddr >>> 12) KERNEL_ASID = false := by
  rw [← Bool.not_eq_true]
  intro hcovers
  have hvalid := Hardware.covers_valid hcovers
  have hpage := Hardware.covers_page hcovers
  obtain ⟨hlocal, hasid⟩ := hs.entries i hvalid (by
    rw [hpage, BitVec.toNat_ushiftRight, Nat.shiftRight_eq_div_pow]
    omega)
  simp only [Hardware.TLBEntry.covers, Bool.and_eq_true, Bool.or_eq_true, hlocal,
    Bool.false_eq_true, or_false, beq_iff_eq] at hcovers
  exact hasid hcovers.2

/-! ### The identifier in ENTRYHI -/

/-- ENTRYHI has the identifier of the current thread. -/
structure Tagged (s : KernelState) : Prop where
  invariant : s.shared.Invariant
  asid : ∀ {n : Nat} {p : PCB}, s.currentThread = .process n → s.shared.procAt n = some p →
    s.asid = p.addrSpace.asid

/-- Processes end, or keep their identifiers. -/
theorem Tagged.same (hs : Tagged s) (hinvariant : k.Invariant) (hs' : WithShared s k s')
    (hspaces : ∀ n q, k.procAt n = some q →
      ∃ p, s.shared.procAt n = some p ∧ q.addrSpace.asid = p.addrSpace.asid) : Tagged s' := by
  obtain ⟨accesses, rfl⟩ := hs'
  refine ⟨hinvariant, fun {n q} hthread hq => ?_⟩
  obtain ⟨p, hp, hsame⟩ := hspaces n q hq
  rw [hsame]
  exact hs.asid hthread hp

/-- One process changes, or ends. -/
theorem Tagged.update {o : Option PCB} (hs : Tagged s) (hinvariant : k.Invariant)
    (hs' : WithShared s k s') (hp : s.shared.procAt m = some p)
    (hmap : k.procAt = Function.update s.shared.procAt m o)
    (ho : ∀ q, o = some q → q.addrSpace.asid = p.addrSpace.asid) : Tagged s' := by
  refine hs.same hinvariant hs' fun n q hq => ?_
  rw [hmap] at hq
  by_cases hn : n = m
  · rw [hn, Function.update_self] at hq
    exact ⟨p, hn ▸ hp, ho q hq⟩
  · rw [Function.update_of_ne hn] at hq
    exact ⟨q, hq, rfl⟩

/-- A dereference leaves the current identifier. -/
theorem tagged_deref : Triple Tagged (deref ref) fun _ => Tagged :=
  fun _ hs _ _ h => hs.same hs.invariant (returns_deref h).2 fun _ q hq => ⟨q, hq, rfl⟩

/-- So does a guard that is given back. -/
theorem tagged_reset : Triple Tagged (reset (some ref)) fun _ => Tagged := by
  intro s hs u s' h
  obtain ⟨k, hk, hs'⟩ := returns_reset h
  cases ref with
  | kernel =>
      obtain rfl := Except.ok.inj hk
      exact hs.same hs.invariant hs' fun _ q hq => ⟨q, hq, rfl⟩
  | process m =>
      obtain ⟨p, hp, hmap⟩ := reset_procAt hk hs.invariant.slotted
      refine hs.update (hs.invariant.reset hk) hs' hp hmap fun q hq => ?_
      unfold afterReset at hq
      split at hq
      · cases hq
      · obtain rfl := Option.some.inj hq
        rfl

/-- So does a guard that may be empty. -/
theorem tagged_resetGuard {guard : Option GuardRef} :
    Triple Tagged (reset guard) fun _ => Tagged := by
  cases guard with
  | none => exact .pure fun _ hs => hs
  | some ref => exact tagged_reset

/-- So do written registers. -/
theorem tagged_writeContext {f : RegisterContext → RegisterContext} :
    Triple Tagged (writeContext (.process m) f) fun _ => Tagged := by
  intro s hs u s' h
  obtain ⟨p, hp, hs'⟩ := returns_writeContext h
  have hp' := pcb_ok_iff.mp hp
  have hinvariant : (s.shared.setPcb m { p with regCtx := f p.regCtx }).Invariant :=
    hs.invariant.setPcb (procAt_iff.mp hp') rfl rfl
  refine hs.update hinvariant hs' hp' (setPcb_procAt hp' _) fun q hq => ?_
  obtain rfl := Option.some.inj hq
  rfl

/-- The next process gets its identifier before it becomes the current thread. -/
theorem tagged_enter {x : KernelM Unit} (hx : Triple Tagged x fun _ => Tagged) : Triple Walled
    (do
      let p ← deref ref
      replaceASID p.addrSpace.asid
      setCurrentThread ref
      x)
    fun _ => Tagged := by
  intro s hs u s' h
  obtain ⟨p, t, hderef, h⟩ := returns_bind.mp h
  obtain ⟨hp, accesses, rfl⟩ := returns_deref hderef
  replace h := returns_modify_bind.mp h
  have hstart : Tagged { s with accesses, asid := p.addrSpace.asid, currentThread := ref } := by
    refine ⟨hs.invariant, fun {n q} hthread hq => ?_⟩
    obtain rfl : ref = .process n := hthread
    obtain rfl := Option.some.inj ((pcb_ok_iff.mp hp).symm.trans hq)
    rfl
  exact hx hstart (returns_modify_bind.mp h)

/-- Rescheduling sets it to that of the next process. -/
theorem tagged_reschedule {guard : Option GuardRef} :
    Triple Walled (reschedule vm guard) fun _ => Tagged := by
  intro s hs u s' h
  replace h := returns_get_bind.mp h
  split at h
  · obtain ⟨_, t, -, h⟩ := returns_bind.mp h
    obtain ⟨_, t1, -, h⟩ := returns_bind.mp h
    exact absurd h not_returns_throw
  · obtain ⟨incoming, t, hdequeue, h⟩ := returns_bind.mp h
    have ht := kept_walled.dequeue.returns hdequeue hs
    cases incoming with
    | none => exact absurd h not_returns_throw
    | some incomingProc =>
        exact tagged_enter (tagged_reset.bind fun _ => tagged_resetGuard) ht h

/-- The old thread goes on under the identifier that its refill left. -/
theorem tagged_resume (hasid : ∀ p, s.shared.procAt m = some p → s.asid = p.addrSpace.asid)
    (hs : Walled s) {u : Unit} (h : Returns (resume (.process m) ctx) s u s') : Tagged s' := by
  have hrest : Triple Tagged
      (do
        writeContext (.process m) fun _ => ctx
        reset (some (.process m)))
      fun _ => Tagged := tagged_writeContext.bind fun _ => tagged_reset
  have hstart : Tagged { s with currentThread := .process m } := by
    refine ⟨hs.invariant, fun {n q} hthread hq => ?_⟩
    obtain rfl := GuardRef.process.inj hthread
    exact hasid q hq
  exact hrest hstart (returns_modify_bind.mp h)

/-- A refill leaves it that of its process. -/
theorem asid_refill {u : Unit} (h : Returns (refill (.process m) vaddr) s u s')
    (hp : s'.shared.procAt m = some p) : s'.asid = p.addrSpace.asid := by
  obtain ⟨q, entry, hq, hentry, accesses, rfl⟩ := returns_refill h
  obtain rfl := Option.some.inj ((pcb_ok_iff.mp hq).symm.trans hp)
  exact asid_filled (s := s) hentry

/-- A trap that refills the TLB leaves the identifier of its process. -/
theorem asid_dispatch (hcause : refills (.ofCause ctx.cause) = true)
    {r : RegisterContext × Option GuardRef}
    (h : Returns (dispatch vm brk0 badVAddr (.process m) ctx) s r s')
    (hp : s'.shared.procAt m = some p) : s'.asid = p.addrSpace.asid := by
  have hrefill (hdone : Returns (do
      refill (.process m) badVAddr
      pure (rewind ctx, some (GuardRef.process m))) s r s') : s'.asid = p.addrSpace.asid := by
    obtain ⟨u, t, hrefill, hdone⟩ := returns_bind.mp hdone
    obtain ⟨-, rfl⟩ := returns_pure.mp hdone
    exact asid_refill hrefill hp
  unfold dispatch at h
  cases hof : ExceptionType.ofCause ctx.cause with
  | tlbL =>
      rw [hof] at h
      exact hrefill h
  | tlbS =>
      rw [hof] at h
      exact hrefill h
  | _ =>
      rw [hof] at hcause
      cases hcause

/-- **ENTRYHI.**  A trap leaves the identifier of the process that goes on. -/
theorem tagged_takeTrap {pids : List Word} {regCtx : RegisterContext}
    (hnodup : (withCurrent m pids).Nodup)
    (hs : Settled (.process m) 0 noGuards (withCurrent m pids) pids s) (hwalled : Walled s)
    (h : Returns (takeTrap vm brk0 badVAddr ctx) s regCtx s') : Tagged s' := by
  obtain ⟨k, accesses, ctx', oldThread, t, t1, hk, hdispatch, hfinish, hleave⟩ :=
    returns_takeTrap h
  rw [hs.thread] at hk hdispatch
  have hdispatched := holding_dispatch (holding_entered hnodup hs hk) hdispatch
  have ht : Walled t := walled_dispatch.returns hdispatch (hwalled.entered hk accesses)
  have ht1 : Tagged t1 := by
    rcases hdispatched with ⟨hsome, children, -, hsettled⟩ | ⟨hnone, -⟩
    · obtain rfl : oldThread = some (.process m) := hsome
      replace hfinish := returns_get_bind.mp hfinish
      rw [hsettled.depth] at hfinish
      split at hfinish
      · rename_i hgoes
        have hcause : refills (.ofCause ctx.cause) = true := by simpa using hgoes
        exact tagged_resume (fun p hp => asid_dispatch hcause hdispatch hp) ht hfinish
      · obtain ⟨_, t2, hwrite, hfinish⟩ := returns_bind.mp hfinish
        obtain ⟨_, t3, hborrow, hfinish⟩ := returns_bind.mp hfinish
        obtain ⟨_, t4, henqueue, hfinish⟩ := returns_bind.mp hfinish
        have ht2 := (kept_walled.writeContext (among_everyone _) _).returns hwrite ht
        have ht3 := kept_walled.borrow.returns hborrow ht2
        exact tagged_reschedule (kept_walled.enqueue.returns henqueue ht3) hfinish
    · obtain rfl : oldThread = none := hnone
      exact tagged_reschedule ht hfinish
  obtain ⟨_, t2, hleft, h⟩ := returns_bind.mp hleave
  obtain rfl := returns_modify.mp hleft
  obtain ⟨p, t3, hderef, h⟩ := returns_bind.mp (returns_get_bind.mp h)
  obtain ⟨-, rfl⟩ := returns_pure.mp h
  have hleft : Tagged { t1 with exceptionDepth := t1.exceptionDepth - 1 } :=
    ⟨ht1.invariant, ht1.asid⟩
  exact tagged_deref hleft hderef

/-- **Boot.** -/
theorem tagged_boot {imageEnd brk1 : Word} {physMem : Hardware.Memory}
    (h : KernelState.boot vm imageEnd brk0 brk1 physMem = some s) : Tagged s := by
  obtain ⟨k0, k, log, accesses, firstPID, hk0, hcreate, h⟩ := boot_spec h
  obtain ⟨_, t, hleave, h⟩ := returns_bind.mp h
  have ht := kept_walled.leaveException.returns hleave (walled_shell hk0 hcreate)
  obtain ⟨guard, t1, hlookup, h⟩ := returns_bind.mp h
  have ht1 := (kept_walled.lookup _).returns hlookup ht
  cases guard with
  | none => exact absurd h not_returns_throw
  | some firstProc => exact tagged_enter tagged_reset ht1 h

end Kernel
