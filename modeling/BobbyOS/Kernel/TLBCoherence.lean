import BobbyOS.Kernel.Scheduling
import BobbyOS.Kernel.TLBWords
import BobbyOS.Kernel.TrapInvariants
import BobbyOS.Kernel.HeapGrowth
import BobbyOS.Kernel.Translation

/-!
# The TLB and the page tables

An entry of the TLB that belongs to one address space should say what the page
table of that address space says.  Refills write such entries; a page stays where
it is while a heap grows; `exec` and `fork` do not look at the TLB.

* `kept_coherent`: everything but `exec` and `fork` keeps the TLB coherent;
* `coherent_exec`, `coherent_fork`: so do these, when no entry has the identifier
  whose page table they make;
* `tlb_coherent`: every run in which they meet no such entry;
* `exec_leaves_stale_entry`: a run in which `exec` does meet one.
-/

namespace Kernel

open Effects Run SharedResources
open KernelState (WithShared)

/-! ### Entries -/

namespace TLBEntry

/-- The page of the first address of a page. -/
theorem page_page (vaddr : Word) : ((vaddr >>> 12) <<< 12) >>> 12 = vaddr >>> 12 := by
  apply BitVec.eq_of_toNat_eq
  have hlt := vaddr.isLt
  simp only [BitVec.toNat_ushiftRight, BitVec.toNat_shiftLeft, Nat.shiftRight_eq_div_pow,
    Nat.shiftLeft_eq]
  omega

/-- The page of an entry comes through its two words. -/
theorem vpn_ofHiLo (vaddr pfn lo : Word) (asid flags : Byte) :
    (Hardware.TLBEntry.ofHiLo (construct (vaddr >>> 12) pfn asid flags).hi lo).vpn =
      vaddr >>> 12 := by
  have hlt := vaddr.isLt
  refine Hardware.TLBEntry.decode_vpn (e := fields (vaddr >>> 12) pfn asid flags) ?_
  show (vaddr >>> 12).toNat < _
  rw [BitVec.toNat_ushiftRight, Nat.shiftRight_eq_div_pow]
  omega

/-- So does its identifier. -/
theorem asid_ofHiLo (vpn pfn lo : Word) (asid flags : Byte) :
    (Hardware.TLBEntry.ofHiLo (construct vpn pfn asid flags).hi lo).asid = asid :=
  Hardware.TLBEntry.decode_asid (e := fields vpn pfn asid flags)

/-- So does its frame. -/
theorem pfn_ofHiLo (vpn hi : Word) {pfn : Word} (asid flags : Byte) (h : pfn.toNat < 2 ^ 26) :
    (Hardware.TLBEntry.ofHiLo hi (construct vpn pfn asid flags).lo).pfn = pfn := by
  rw [construct_lo]
  exact Hardware.TLBEntry.decode_pfn (e := fields vpn pfn asid flags) h
    (show (0#8).toNat < 2 ^ 3 by decide)

end TLBEntry

/-- The page table has the page of a TLB entry, with the same frame. -/
def AddressSpace.Maps (space : AddressSpace) (e : Hardware.TLBEntry) : Prop :=
  ∃ t pte, space.pageTable = some t ∧ t.walkTable (e.vpn <<< 12) = .ok (some pte) ∧
    pte.present = true ∧ pte.pfn = e.pfn

/-- Whether a TLB entry is that of the page table. -/
theorem AddressSpace.maps_iff {space : AddressSpace} {e : Hardware.TLBEntry} :
    space.Maps e ↔ (space.pageTable.bind fun t =>
      (t.walkTable (e.vpn <<< 12)).toOption.join).any
        (fun pte => pte.present && pte.pfn == e.pfn) = true := by
  rw [Option.any_eq_true]
  constructor
  · intro ⟨t, pte, ht, hwalk, hpresent, hpfn⟩
    refine ⟨pte, ?_, by simp [hpresent, hpfn]⟩
    rw [ht, Option.bind_some, hwalk]
    rfl
  · intro ⟨pte, hpte, hboth⟩
    obtain ⟨t, ht, hjoin⟩ := Option.bind_eq_some_iff.mp hpte
    obtain ⟨hpresent, hpfn⟩ := (Bool.and_eq_true _ _).mp hboth
    refine ⟨t, pte, ht, toOption_eq_some ?_, hpresent, beq_iff_eq.mp hpfn⟩
    exact Option.join_eq_some_iff.mp hjoin

instance (space : AddressSpace) (e : Hardware.TLBEntry) : Decidable (space.Maps e) :=
  decidable_of_iff _ AddressSpace.maps_iff.symm

/-- The TLB has an entry for one address space, the one with this identifier. -/
def UsesASID (tlb : Hardware.TLB) (asid : Option Byte) : Prop :=
  ∃ i, (tlb i).valid = true ∧ (tlb i).global = false ∧ some (tlb i).asid = asid

instance (tlb : Hardware.TLB) (asid : Option Byte) : Decidable (UsesASID tlb asid) :=
  inferInstanceAs (Decidable (∃ i, (tlb i).valid = true ∧ (tlb i).global = false ∧
    some (tlb i).asid = asid))

/-- The lowest free identifier, which the next process gets. -/
def nextASID (asids : Bitset numASIDs) : Option Byte :=
  ((List.range numASIDs).find? fun i => !asids.bit i).map (BitVec.ofNat 8)

/-- The identifier that is given is the next one. -/
theorem GivesASID.next {asids asids' : Bitset numASIDs} {asid : Byte}
    (h : GivesASID asids asid asids') : nextASID asids = some asid := by
  have hfind : (List.range numASIDs).find? (fun i => !asids.bit i) = some asid.toNat := by
    refine List.find?_range_eq_some.mpr ⟨?_, List.mem_range.mpr h.upper, fun j hj => ?_⟩
    · rw [h.free]
      rfl
    · rw [h.lowest j hj]
      rfl
  rw [nextASID, hfind, Option.map_some, BitVec.ofNat_toNat, BitVec.setWidth_eq]

/-- The entries for one address space say what its page table says. -/
def Agrees (tlb : Hardware.TLB) (k : SharedResources) : Prop :=
  ∀ i slot p, (tlb i).valid = true → (tlb i).global = false → k.procAt slot = some p →
    p.addrSpace.asid = (tlb i).asid → p.addrSpace.Maps (tlb i)

/-- **Invariant.** -/
structure Coherent (s : KernelState) : Prop where
  invariant : s.shared.Invariant
  kernelASID : s.shared.kernelProcess.addrSpace.asid = KERNEL_ASID
  agrees : Agrees s.tlb s.shared

variable {s s' : KernelState} {k : SharedResources} {n slot : Nat} {p q : PCB} {vm : Tunnel}
  {brk0 : Word}

/-- No process has the identifier of another one, or of the kernel. -/
theorem SharedResources.Sane.asid_inj (h : k.Sane) {m : Nat} (hp : k.procAt n = some p)
    (hq : k.procAt m = some q) (heq : p.addrSpace.asid = q.addrSpace.asid) : p = q :=
  List.inj_on_of_nodup_map h.asids.nodup (mem_live (procAt_iff.mp hp))
    (mem_live (procAt_iff.mp hq)) (congrArg BitVec.toNat heq)

/-- No process has the kernel's identifier. -/
theorem SharedResources.Sane.asid_ne_kernel (h : k.Sane) (hp : k.procAt n = some p) :
    p.addrSpace.asid ≠ KERNEL_ASID := by
  intro heq
  have hlt := h.asidBounds p (mem_live (procAt_iff.mp hp))
  rw [PCB.asidNumber, heq] at hlt
  exact absurd hlt (by decide)

/-! ### Refills -/

/-- A refill has the identifier of the address space. -/
theorem asid_translate {space : AddressSpace} {vaddr : Word} {entry : TLBEntry}
    (h : space.translate vaddr = .ok entry) :
    (Hardware.TLBEntry.ofHiLo entry.hi entry.lo).asid = space.asid := by
  obtain ⟨t, e, -, -, -, rfl⟩ := translate_spec h
  exact TLBEntry.asid_ofHiLo _ _ _ _ _

/-- **Refill.**  The entry that `translate` makes says what the page table says. -/
theorem maps_translate {vaddr : Word} {entry : TLBEntry} (hk : k.Sane) (hp : k.procAt n = some p)
    (h : p.addrSpace.translate vaddr = .ok entry) :
    p.addrSpace.Maps (.ofHiLo entry.hi entry.lo) := by
  have hlive := mem_live (procAt_iff.mp hp)
  obtain ⟨t, ht, husable⟩ := hk.tables p hlive
  obtain ⟨t', e, ht', hwalk, hpresent, rfl⟩ := translate_spec h
  obtain rfl := Option.some.inj (ht.symm.trans ht')
  have hentry := (HashPageTable.walkTable_eq_some husable.wf).mp hwalk
  have hframe : e.pfn.toNat < numPages := by
    apply hk.frames_lt hlive
    rw [PCB.frames_hash ht]
    exact List.mem_map_of_mem (f := fun kv => kv.2.pfn.toNat) hentry
  have hpfn : e.pfn.toNat < 2 ^ 26 := Nat.lt_trans hframe (by decide)
  have hvpn : ∀ lo, (Hardware.TLBEntry.ofHiLo (e.toTLBEntry (vaddr >>> 12)
      p.addrSpace.asid).hi lo).vpn = vaddr >>> 12 := fun _ => TLBEntry.vpn_ofHiLo _ _ _ _ _
  refine ⟨.hash t, e, ht, ?_, hpresent, (TLBEntry.pfn_ofHiLo _ _ _ _ hpfn).symm⟩
  rw [hvpn]
  refine (HashPageTable.walkTable_eq_some husable.wf).mpr ?_
  rwa [TLBEntry.page_page]

/-- The table of a process that grows keeps its pages where they are. -/
theorem SharedResources.Grown.maps {t t' : HashPageTable} {vaddr : Word} {fs : List Nat}
    {e : Hardware.TLBEntry}
    (h : Grown p t vaddr fs q t') (ht : t.Usable) (ht' : t'.Usable) (hmaps : p.addrSpace.Maps e) :
    q.addrSpace.Maps e := by
  obtain ⟨t0, pte, ht0, hwalk, hpresent, hpfn⟩ := hmaps
  rw [h.before] at ht0
  obtain rfl := Option.some.inj ht0
  have hentry := (HashPageTable.walkTable_eq_some ht.wf).mp hwalk
  have hentry' := h.entries.mem_iff.mpr (List.mem_append_right _ hentry)
  exact ⟨_, pte, h.after, (HashPageTable.walkTable_eq_some ht'.wf).mpr hentry', hpresent, hpfn⟩

/-! ### Steps that keep the TLB coherent -/

/-- The address spaces of `k'` are in `k`, with at most more pages. -/
def Extends (k k' : SharedResources) : Prop :=
  ∀ slot q, k'.procAt slot = some q → ∃ p, k.procAt slot = some p ∧
    q.addrSpace.asid = p.addrSpace.asid ∧ ∀ e, p.addrSpace.Maps e → q.addrSpace.Maps e

/-- The same processes have the same address spaces. -/
theorem Extends.of_eq {k' : SharedResources} (h : k'.procAt = k.procAt) : Extends k k' := by
  intro slot q hq
  rw [h] at hq
  exact ⟨q, hq, rfl, fun _ he => he⟩

/-- One process changes. -/
theorem Extends.update {k' : SharedResources} {o : Option PCB} (hp : k.procAt n = some p)
    (hmap : k'.procAt = Function.update k.procAt n o)
    (ho : ∀ q, o = some q → q.addrSpace.asid = p.addrSpace.asid ∧
      ∀ e, p.addrSpace.Maps e → q.addrSpace.Maps e) : Extends k k' := by
  intro slot q hq
  rw [hmap] at hq
  by_cases hslot : slot = n
  · rw [hslot, Function.update_self] at hq
    exact ⟨p, hslot ▸ hp, ho q hq⟩
  · rw [Function.update_of_ne hslot] at hq
    exact ⟨q, hq, rfl, fun _ he => he⟩

/-- A changed process with its address space does. -/
theorem Extends.update_space {k' : SharedResources} (hp : k.procAt n = some p)
    (hmap : k'.procAt = Function.update k.procAt n (some q)) (hspace : q.addrSpace = p.addrSpace) :
    Extends k k' := by
  refine .update hp hmap fun q' hq' => ?_
  obtain rfl := Option.some.inj hq'
  rw [hspace]
  exact ⟨rfl, fun _ he => he⟩

/-- A TLB that agrees with the page tables does so when they grow. -/
theorem Agrees.extends {tlb : Hardware.TLB} {k' : SharedResources} (h : Agrees tlb k)
    (hspaces : Extends k k') : Agrees tlb k' := by
  intro i slot q hvalid hlocal hq hasid
  obtain ⟨p, hp, hsame, hmaps⟩ := hspaces slot q hq
  exact hmaps _ (h i slot p hvalid hlocal hp (hsame.symm.trans hasid))

/-- The TLB is coherent when the address spaces grow. -/
theorem Coherent.extends (hs : Coherent s) (hinvariant : k.Invariant)
    (hkernel : k.kernelProcess.addrSpace = s.shared.kernelProcess.addrSpace)
    (hspaces : Extends s.shared k) : Coherent { s with shared := k } :=
  ⟨hinvariant, (congrArg AddressSpace.asid hkernel).trans hs.kernelASID, hs.agrees.extends hspaces⟩

/-- An operation with its effect on the processes. -/
theorem Coherent.operation {op : Operation} (hs : Coherent s) (hstep : s.shared.Step op k)
    (hspaces : Extends s.shared k) : Coherent { s with shared := k } := by
  obtain ⟨-, old, new, leaked, hchange, -⟩ :=
    step_spec hstep hs.invariant.sane hs.invariant.slotted
  exact hs.extends (invariant_step hs.invariant hstep) (congrArg PCB.addrSpace hchange.kernel)
    hspaces

/-- It is when they are undisturbed. -/
theorem coherent_undisturbed (hs : Coherent s) (h : Undisturbed Everyone s.shared k) :
    Coherent { s with shared := k } := by
  cases h with
  | @borrow ref _ h =>
      cases ref with
      | kernel =>
          obtain rfl := Except.ok.inj h
          exact hs.extends (invariant_kernelProcess hs.invariant rfl) rfl (.of_eq rfl)
      | process n =>
          obtain ⟨p, hp, hmap⟩ := borrow_procAt h
          have hstep : s.shared.Step (.borrow n) k := h
          exact hs.operation hstep (.update_space hp hmap rfl)
  | @reset ref _ h =>
      cases ref with
      | kernel =>
          obtain rfl := Except.ok.inj h
          exact hs
      | process n =>
          obtain ⟨p, hp, hmap⟩ := reset_procAt h hs.invariant.slotted
          have hstep : s.shared.Step (.reset n) k := h
          refine hs.operation hstep (.update hp hmap fun q hq => ?_)
          unfold afterReset at hq
          split at hq
          · cases hq
          · obtain rfl := Option.some.inj hq
            exact ⟨rfl, fun _ he => he⟩
  | @markForDeath n _ _ h =>
      obtain ⟨p, hp, hmap⟩ := markForDeath_procAt h
      have hstep : s.shared.Step (.markForDeath n) k := h
      exact hs.operation hstep (.update_space hp hmap rfl)
  | @updateBrk n vaddr valid _ _ h =>
      have hstep : s.shared.Step (.updateBrk n vaddr) k := step_updateBrk h
      obtain ⟨p, space, hp, hmap⟩ := updateBrk_procAt h
      obtain ⟨p', q, t, t', fs, -, hgrown, hreplaced⟩ :=
        updateBrk_spec h hs.invariant.sane hs.invariant.slotted
      obtain rfl := Option.some.inj (hp.symm.trans (procAt_iff.mpr hreplaced.before))
      have hafter := procAt_iff.mpr hreplaced.after
      rw [hmap, Function.update_self] at hafter
      refine hs.operation hstep (.update hp hmap fun q' hq' => ?_)
      obtain rfl := Option.some.inj (hafter.symm.trans hq')
      obtain ⟨t1, ht1, husable⟩ := hs.invariant.sane.tables p (mem_live hreplaced.before)
      obtain ⟨t2, ht2, husable'⟩ := hreplaced.change.tables _ (List.mem_singleton_self _)
      obtain rfl := PageTable.hash.inj (Option.some.inj (ht1.symm.trans hgrown.before))
      obtain rfl := PageTable.hash.inj (Option.some.inj (ht2.symm.trans hgrown.after))
      exact ⟨hreplaced.asid, fun _ he => hgrown.maps husable husable' he⟩
  | @context ref p _ h regCtx =>
      cases ref with
      | kernel =>
          obtain rfl := Except.ok.inj h
          exact hs.extends (invariant_kernelProcess hs.invariant rfl) rfl (.of_eq rfl)
      | process n =>
          have hp := pcb_ok_iff.mp h
          have hinvariant : (s.shared.setPcb n { p with regCtx }).Invariant :=
            hs.invariant.setPcb (procAt_iff.mp hp) rfl rfl
          exact hs.extends hinvariant rfl (.update_space hp (setPcb_procAt hp _) rfl)
  | log _ => exact hs.extends (invariant_log hs.invariant _ _) rfl (.of_eq rfl)

/-- An entry after a refill is the new one or an old one. -/
theorem filled_tlb (entry : TLBEntry) (i : Fin Hardware.tlbEntries) :
    (s.filled entry).tlb i = .ofHiLo entry.hi entry.lo ∨ (s.filled entry).tlb i = s.tlb i := by
  by_cases hi : i = s.random
  · rw [hi]
    exact .inl (Function.update_self ..)
  · exact .inr (Function.update_of_ne hi ..)

/-- It is behind a refill. -/
theorem coherent_filled {ref : GuardRef} {vaddr : Word} {entry : TLBEntry} (hs : Coherent s)
    (hp : ref.pcb s.shared = .ok p) (h : p.addrSpace.translate vaddr = .ok entry) :
    Coherent (s.filled entry) := by
  refine ⟨hs.invariant, hs.kernelASID, fun i slot q hvalid hlocal hq hasid => ?_⟩
  rcases filled_tlb (s := s) entry i with hnew | hold
  · rw [hnew] at hasid ⊢
    rw [asid_translate h] at hasid
    cases ref with
    | kernel =>
        -- the kernel's entries have an identifier of their own
        obtain rfl := Except.ok.inj hp
        exact absurd (hasid.trans hs.kernelASID) (hs.invariant.sane.asid_ne_kernel hq)
    | process n =>
        rw [hs.invariant.sane.asid_inj hq (pcb_ok_iff.mp hp) hasid]
        exact maps_translate hs.invariant.sane (pcb_ok_iff.mp hp) h
  · rw [hold] at hvalid hlocal hasid ⊢
    exact hs.agrees i slot q hvalid hlocal hq hasid

/-- **Steps.**  Everything but `exec` and `fork` keeps the TLB coherent. -/
theorem kept_coherent : Kept Everyone Coherent where
  access _ hs := ⟨hs.invariant, hs.kernelASID, hs.agrees⟩
  control hs hshared htlb _ := by
    refine ⟨hshared ▸ hs.invariant, hshared ▸ hs.kernelASID, ?_⟩
    rw [htlb, hshared]
    exact hs.agrees
  manage := coherent_undisturbed
  fill := coherent_filled

/-- It does not look at the memory. -/
theorem coherent_stores : KeptByStores Coherent := fun physMem hs =>
  hs.extends (invariant_log hs.invariant physMem _) rfl (.of_eq rfl)

/-! ### `exec` and `fork` -/

/-- A process that no entry belongs to gets a page table. -/
theorem Agrees.replace {tlb : Hardware.TLB} {k' : SharedResources} (h : Agrees tlb k)
    (hmap : k'.procAt = Function.update k.procAt n (some q))
    (hunused : ¬ UsesASID tlb (some q.addrSpace.asid)) : Agrees tlb k' := by
  intro i slot r hvalid hlocal hr hasid
  rw [hmap] at hr
  by_cases hslot : slot = n
  · rw [hslot, Function.update_self] at hr
    obtain rfl := Option.some.inj hr
    exact absurd ⟨i, hvalid, hlocal, congrArg some hasid.symm⟩ hunused
  · rw [Function.update_of_ne hslot] at hr
    exact h i slot r hvalid hlocal hr hasid

/-- Only a process that was made gives its image away. -/
theorem exec_makes {path : List Byte} {ctx ctx' : Option RegisterContext} {k' : SharedResources}
    (h : k.exec vm n path brk0 ctx = .ok (true, ctx', k')) :
    ∃ pid k1, k.createProcess vm path brk0 = .ok (pid, k1) ∧ pid ≠ NOPCBEXISTS := by
  rw [SharedResources.exec] at h
  obtain ⟨self, -, h⟩ := Except.bind_ok_iff.mp h
  obtain ⟨_, -, h⟩ := Except.bind_ok_iff.mp h
  obtain ⟨⟨pid, k1⟩, hcreate, h⟩ := Except.bind_ok_iff.mp h
  refine ⟨pid, k1, hcreate, fun hnone => ?_⟩
  simp only [if_pos hnone] at h
  exact absurd (Prod.mk.inj (Except.ok.inj h)).1 Bool.false_ne_true

/-- It is behind an `EXEC` whose identifier no entry has. -/
theorem coherent_exec {path : List Byte} {ctx ctx' : RegisterContext} (hs : Coherent s)
    (hp : s.shared.procAt n = some p)
    (hunused : ∀ pid k1, s.shared.createProcess vm path brk0 = .ok (pid, k1) →
      pid ≠ NOPCBEXISTS → ¬ UsesASID s.tlb (some p.addrSpace.asid))
    (h : Returns (GuardRef.exec vm brk0 (.process n) path ctx) s ctx' s') : Coherent s' := by
  obtain ⟨_, t, htouch, h⟩ := returns_bind.mp h
  obtain ⟨_, rfl⟩ := returns_touchPcb htouch
  obtain ⟨_, t, htouch, h⟩ := returns_bind.mp h
  obtain ⟨accesses, rfl⟩ := returns_touch htouch
  obtain ⟨_, t, hmanage, h⟩ := returns_bind.mp h
  obtain ⟨-, rfl⟩ := returns_pure.mp h
  obtain ⟨k, hk, accesses', rfl⟩ := returns_manage hmanage
  obtain ⟨⟨done, ctx1, k1⟩, hexec, hk⟩ := Except.bind_ok_iff.mp hk
  obtain ⟨-, rfl⟩ := Prod.mk.inj (Except.ok.inj hk)
  replace hexec : s.shared.exec vm n path brk0 (some ctx) = .ok (done, ctx1, k1) := hexec
  have hstep : s.shared.Step (.exec vm n path brk0 (some ctx)) k1 := step_exec hexec
  obtain ⟨-, old, new, leaked, hchange, -⟩ :=
    step_spec hstep hs.invariant.sane hs.invariant.slotted
  refine ⟨invariant_step hs.invariant hstep, ?_, ?_⟩
  · exact (congrArg (fun p : PCB => p.addrSpace.asid) hchange.kernel).trans hs.kernelASID
  · obtain ⟨self, hself, ⟨-, -, hsame⟩ | ⟨rfl, pageTable, regCtx, hmap⟩⟩ :=
      exec_procAt hexec hs.invariant.sane hs.invariant.slotted
    · exact hs.agrees.extends (.of_eq hsame)
    · obtain rfl := Option.some.inj (hp.symm.trans hself)
      obtain ⟨pid, k2, hcreate, hpid⟩ := exec_makes hexec
      exact hs.agrees.replace hmap (hunused pid k2 hcreate hpid)

/-- It is behind a `FORK` whose new identifier no entry has. -/
theorem coherent_fork {ctx ctx' : RegisterContext} (hs : Coherent s)
    (hunused : ¬ UsesASID s.tlb (nextASID s.shared.reservedASIDs))
    (h : Returns (fork brk0 (.process n) ctx) s ctx' s') : Coherent s' := by
  obtain ⟨p, t, hderef, h⟩ := returns_bind.mp h
  obtain ⟨hp, _, rfl⟩ := returns_deref hderef
  obtain ⟨_, t, htouch, h⟩ := returns_bind.mp h
  obtain ⟨accesses, rfl⟩ := returns_touch htouch
  obtain ⟨newPID, t, hmanage, h⟩ := returns_bind.mp h
  obtain ⟨k, hfork, accesses', rfl⟩ := returns_manage hmanage
  replace hfork : s.shared.forkProcess p.PID (some ctx) brk0 = .ok (newPID, k) := hfork
  have hstep : s.shared.Step (.forkProcess p.PID (some ctx) brk0) k := step_forkProcess hfork
  obtain ⟨-, old, new, leaked, hchange, -⟩ :=
    step_spec hstep hs.invariant.sane hs.invariant.slotted
  have hagrees : Agrees s.tlb k := by
    rcases forkProcess_procAt hfork hs.invariant.slotted with
      ⟨-, rfl, -⟩ | ⟨_, child, -, -, -, hmap, asids, hasid⟩
    · exact hs.agrees
    · rw [hasid.next] at hunused
      exact hs.agrees.replace hmap hunused
  have hforked : Coherent { s with shared := k, accesses := accesses' } :=
    ⟨invariant_step hs.invariant hstep,
      (congrArg (fun p : PCB => p.addrSpace.asid) hchange.kernel).trans hs.kernelASID, hagrees⟩
  -- the rest handles guards and the queue only
  exact (kept_coherent.enqueueChild trivial).returns h hforked

/-! ### Traps -/

/-- The string at a user address, as `EXEC` reads its path. -/
def SharedResources.userString (k : SharedResources) (ref : GuardRef) (vaddr : Word) :
    Except Panic (List Byte) := do
  let p ← ref.pcb k
  let entry ← p.addrSpace.translate vaddr
  let paddr := ((entry.lo >>> 6) <<< 12) ||| (vaddr &&& 0xFFF#32)
  cString k.physMem (Hardware.physMemSize - paddr.toNat) paddr.toNat

/-- A string of the user is what the resources read at its address. -/
theorem returns_userString {ref : GuardRef} {vaddr paddr : Word} {text : List Byte}
    {t : KernelState} (h : Returns (physicalAddress ref vaddr) s paddr t)
    (h' : Returns (directString paddr) t text s') :
    s.shared.userString ref vaddr = .ok text ∧ WithShared s s.shared s' := by
  obtain ⟨entry, t1, htranslate, h⟩ := returns_bind.mp h
  obtain ⟨p, hp, hentry, accesses, rfl⟩ := returns_translate htranslate
  obtain ⟨rfl, rfl⟩ := returns_pure.mp h
  obtain ⟨htext, rfl⟩ := returns_check.mp (returns_get_bind.mp h')
  refine ⟨?_, accesses, rfl⟩
  rw [SharedResources.userString, hp, Except.ok_bind, hentry, Except.ok_bind]
  exact htext

namespace KernelState

/-- The identifier of the current thread. -/
def currentASID (s : KernelState) : Option Byte :=
  (s.currentThread.pcb s.shared).toOption.map fun p => p.addrSpace.asid

/-- `createProcess` makes a process from the file that `EXEC` names. -/
def makesImage (s : KernelState) (vm : Tunnel) (brk0 : Word) (ctx : RegisterContext) : Bool :=
  let made := do
    let k ← s.currentThread.borrow s.shared
    let path ← k.userString s.currentThread (ctx.accessRegister Register.A0)
    k.createProcess vm path brk0
  made.toOption.any fun r => r.1 != NOPCBEXISTS

/-- An `EXEC` that makes an image meets no entry of the caller, and a `FORK` none
with the identifier that the child gets. -/
def Careful (s : KernelState) : KernelEvent → Prop
  | .trap vm brk0 _ ctx => ExceptionType.ofCause ctx.cause = .syscall →
      (ctx.accessRegister Register.V0 = EXEC → s.makesImage vm brk0 ctx = true →
        ¬ UsesASID s.tlb s.currentASID) ∧
      (ctx.accessRegister Register.V0 = FORK →
        ¬ UsesASID s.tlb (nextASID s.shared.reservedASIDs))
  | .kernelMiss _ => True

instance (s : KernelState) : (event : KernelEvent) → Decidable (s.Careful event)
  | .trap _ _ _ _ => inferInstanceAs (Decidable (_ → _ ∧ _))
  | .kernelMiss _ => inferInstanceAs (Decidable True)

end KernelState

/-- The call `EXEC`. -/
theorem syscall_exec {ref : GuardRef} {ctx : RegisterContext}
    (h : ctx.accessRegister Register.V0 = EXEC) :
    syscall vm brk0 ref ctx = (do
      let ctx ← execUser vm brk0 ref ctx
      pure (ctx, some ref)) := by
  unfold syscall
  rw [h]
  rfl

/-- The call `FORK`. -/
theorem syscall_fork {ref : GuardRef} {ctx : RegisterContext}
    (h : ctx.accessRegister Register.V0 = FORK) :
    syscall vm brk0 ref ctx = (do
      let ctx ← fork brk0 ref ctx
      pure (ctx, some ref)) := by
  unfold syscall
  rw [h]
  rfl

/-- **Causes.**  `s` is the state of the trap, `t` the one in which the `switch`
starts. -/
theorem coherent_dispatch {badVAddr : Word} {ctx : RegisterContext} {t : KernelState}
    {r : RegisterContext × Option GuardRef} (hthread : s.currentThread = .process n)
    (hborrow : s.shared.borrow n = .ok t.shared) (htlb : t.tlb = s.tlb) (ht : Coherent t)
    (hcareful : s.Careful (.trap vm brk0 badVAddr ctx))
    (h : Returns (dispatch vm brk0 badVAddr (.process n) ctx) t r s') : Coherent s' := by
  obtain ⟨p, hp, hmap⟩ := borrow_procAt hborrow
  have hI := kept_coherent
  by_cases hcause : ExceptionType.ofCause ctx.cause = .syscall
  swap
  · exact (hI.dispatch fun h => absurd h hcause).returns h ht
  obtain ⟨hexec, hfork⟩ := hcareful hcause
  by_cases hcall : ctx.accessRegister Register.V0 = EXEC
  · unfold dispatch at h
    rw [hcause, syscall_exec hcall] at h
    obtain ⟨ctx1, t1, h, hrest⟩ := returns_bind.mp h
    obtain ⟨-, rfl⟩ := returns_pure.mp hrest
    obtain ⟨paddr, t2, haddr, h⟩ := returns_bind.mp h
    obtain ⟨path, t3, hpath, h⟩ := returns_bind.mp h
    obtain ⟨htext, accesses, rfl⟩ := returns_userString haddr hpath
    have hp' : t.shared.procAt n = some { p with refcount := p.refcount + 1 } := by
      rw [hmap, Function.update_self]
    refine coherent_exec (s := { t with accesses }) ⟨ht.invariant, ht.kernelASID, ht.agrees⟩ hp'
      (fun pid k1 hcreate hpid => ?_) h
    have hmakes : s.makesImage vm brk0 ctx = true := by
      rw [KernelState.makesImage, hthread]
      show (Except.toOption (s.shared.borrow n >>= _)).any _ = true
      rw [hborrow, Except.ok_bind, htext, Except.ok_bind, hcreate]
      exact bne_iff_ne.mpr hpid
    have hasid : s.currentASID = some p.addrSpace.asid := by
      rw [KernelState.currentASID, hthread]
      show (Except.toOption (s.shared.pcb n)).map _ = _
      rw [pcb_ok_iff.mpr hp]
      rfl
    have hunused := hexec hcall hmakes
    rw [hasid, ← htlb] at hunused
    exact hunused
  by_cases hcall' : ctx.accessRegister Register.V0 = FORK
  · unfold dispatch at h
    rw [hcause, syscall_fork hcall'] at h
    obtain ⟨ctx1, t1, h, hrest⟩ := returns_bind.mp h
    obtain ⟨-, rfl⟩ := returns_pure.mp hrest
    have hasids : t.shared.reservedASIDs = s.shared.reservedASIDs := by
      obtain ⟨_, -, hk⟩ := Except.bind_ok_iff.mp hborrow
      rw [← Except.ok.inj hk]
      rfl
    have hunused := hfork hcall'
    rw [← htlb, ← hasids] at hunused
    exact coherent_fork ht hunused h
  · exact (hI.dispatch fun _ => hI.syscall (fun _ => trivial)
      (fun _ => hI.readString coherent_stores _)
      (fun h => absurd h hcall) fun h => absurd h hcall').returns h ht

/-- **Trap.** -/
theorem coherent_takeTrap {badVAddr : Word} {ctx ctx' : RegisterContext} (hs : Coherent s)
    (hscheduled : Scheduled 0 s) (hcareful : s.Careful (.trap vm brk0 badVAddr ctx))
    (h : Returns (takeTrap vm brk0 badVAddr ctx) s ctx' s') : Coherent s' := by
  obtain ⟨c, pids, -, hsettled⟩ := hscheduled
  have hI := kept_coherent
  obtain ⟨k, accesses, ctx1, oldThread, t, t1, hk, hdispatch, hfinish, hleave⟩ :=
    returns_takeTrap h
  rw [hsettled.thread] at hk hdispatch
  have hborrowed := coherent_undisturbed hs (.borrow hk)
  have hentered : Coherent (s.entered k accesses) :=
    ⟨hborrowed.invariant, hborrowed.kernelASID, hborrowed.agrees⟩
  have hk' : s.shared.borrow c = .ok (s.entered k accesses).shared := hk
  have ht := coherent_dispatch hsettled.thread hk' rfl hentered hcareful hdispatch
  exact hI.leave.returns hleave ((hI.finish fun ref _ => among_everyone ref).returns hfinish ht)

/-! ### Runs -/

/-- An empty TLB agrees with everything. -/
theorem agrees_empty : Agrees .empty k := fun _ _ _ hvalid => nomatch hvalid

/-- **Boot.** -/
theorem coherent_boot {imageEnd brk1 : Word} {physMem : Hardware.Memory}
    (h : KernelState.boot vm imageEnd brk0 brk1 physMem = some s) : Coherent s := by
  obtain ⟨k0, k, log, accesses, firstPID, hk0, hcreate, h⟩ := boot_spec h
  obtain ⟨hsane, hslotted, -, -⟩ := construct_spec hk0
  have hasid : k0.kernelProcess.addrSpace.asid = KERNEL_ASID := by
    obtain ⟨⟨table, memory⟩, -, hk0⟩ := Except.bind_ok_iff.mp hk0
    rw [← Except.ok.inj hk0]
  have hinvariant := invariant_log ⟨hsane, hslotted⟩ k0.physMem log
  have hstep : SharedResources.Step { k0 with log }
      (.createProcess vm (ascii "programs/shell/shell.elf") brk1) k :=
    step_createProcess hcreate
  obtain ⟨-, old, new, leaked, hchange, -⟩ := step_spec hstep hinvariant.sane hinvariant.slotted
  have hcreated : Coherent { shared := k, accesses } :=
    ⟨invariant_step hinvariant hstep,
      (congrArg (fun p : PCB => p.addrSpace.asid) hchange.kernel).trans hasid, agrees_empty⟩
  exact (kept_coherent.startFirst firstPID).returns h hcreated

/-- **One step** of the kernel keeps the TLB coherent, if the trap is careful. -/
theorem coherent_step {event : KernelEvent} (hs : Coherent s) (hscheduled : Scheduled 0 s)
    (hcareful : s.Careful event) (h : s.Step event s') : Coherent s' := by
  cases event with
  | trap vm brk0 badVAddr trapCtx =>
      obtain ⟨ctx, h⟩ := after_eq_some.mp h
      exact coherent_takeTrap hs hscheduled hcareful h
  | kernelMiss vaddr =>
      obtain ⟨u, h⟩ := after_eq_some.mp h
      exact (kept_coherent.refill vaddr).returns h hs

/-- **Coherence.**  In a run whose `EXEC` and `FORK` traps are careful, every valid
entry of the TLB that is not global and has the identifier of a process says what
`walkTable` on the page table of this process says. -/
theorem tlb_coherent {imageEnd brk1 : Word} {physMem : Hardware.Memory} {s1 : KernelState}
    (hboot : KernelState.boot vm imageEnd brk0 brk1 physMem = some s1)
    (hrun : Reaches KernelState.Step KernelState.Careful s1 s) (i : Fin Hardware.tlbEntries)
    (slot : Nat) (p : PCB) (hvalid : (s.tlb i).valid = true) (hlocal : (s.tlb i).global = false)
    (hp : s.shared.procAt slot = some p) (hasid : p.addrSpace.asid = (s.tlb i).asid) :
    ∃ t pte, p.addrSpace.pageTable = some t ∧
      t.walkTable ((s.tlb i).vpn <<< 12) = .ok (some pte) ∧ pte.present = true ∧
      pte.pfn = (s.tlb i).pfn := by
  have hboth : Coherent s ∧ Scheduled 0 s :=
    hrun.invariant (I := fun s => Coherent s ∧ Scheduled 0 s)
      ⟨coherent_boot hboot, scheduled_boot hboot⟩ fun hs hcareful hstep =>
        ⟨coherent_step hs.1 hs.2 hcareful hstep, scheduled_step hs.2 hstep⟩
  exact hboth.1.agrees i slot p hvalid hlocal hp hasid

/-- The entry that the first refill writes. -/
def firstEntry : Fin Hardware.tlbEntries := ⟨0, Nat.zero_lt_succ 63⟩

/-- A refill of the first text page. -/
def textRefill : KernelEvent := .trap zeroFiles 0 0x400000#32 { cause := 8 }

/-- A system call with the first text page in A0. -/
def textSyscall (call : Word) : KernelEvent :=
  .trap zeroFiles 0 0 (({ cause := 0x20 : RegisterContext }.setRegister Register.V0 call).setRegister
    Register.A0 0x400000#32)

/-- The guarantee for the entry of a refill, after a fork. -/
theorem forked_tlb_coherent :
    ∃ s1 s p, KernelState.boot zeroFiles 0x80001000 0 0 (fun _ => 0) = some s1 ∧
      execute KernelState.step KernelState.Careful s1 [textRefill, textSyscall FORK] = some s ∧
      s.shared.procAt 0 = some p ∧ ∃ t pte, p.addrSpace.pageTable = some t ∧
        t.walkTable ((s.tlb firstEntry).vpn <<< 12) = .ok (some pte) ∧ pte.present = true ∧
        pte.pfn = (s.tlb firstEntry).pfn := by
  have hruns : (KernelState.boot zeroFiles 0x80001000 0 0 (fun _ => 0)).any (fun s1 =>
      (execute KernelState.step KernelState.Careful s1 [textRefill, textSyscall FORK]).any
        fun s => (s.tlb firstEntry).valid && !(s.tlb firstEntry).global &&
          (s.shared.procAt 0).any fun p => p.addrSpace.asid == (s.tlb firstEntry).asid) := by
    decide +kernel
  obtain ⟨s1, hboot, hruns⟩ := (Option.any_eq_true _ _).mp hruns
  obtain ⟨s, hs, hentry⟩ := (Option.any_eq_true _ _).mp hruns
  obtain ⟨hkind, hhere⟩ := (Bool.and_eq_true _ _).mp hentry
  obtain ⟨hvalid, hlocal⟩ := (Bool.and_eq_true _ _).mp hkind
  obtain ⟨p, hp, hasid⟩ := (Option.any_eq_true _ _).mp hhere
  refine ⟨s1, s, p, hboot, hs, hp, ?_⟩
  exact tlb_coherent hboot (reaches_of_execute (R := KernelState.Step) id hs) firstEntry 0 p hvalid
    ((Bool.not_eq_true' _).mp hlocal) hp (beq_iff_eq.mp hasid)

/-- **Failure.**  `EXEC` after a refill: the entry of the old image is still there. -/
theorem exec_leaves_stale_entry :
    ¬ ∀ (vm : Tunnel) (imageEnd brk0 brk1 : Word) (physMem : Hardware.Memory) (s1 s : KernelState),
      KernelState.boot vm imageEnd brk0 brk1 physMem = some s1 →
      Reaches KernelState.Step (fun _ _ => True) s1 s →
      ∀ (i : Fin Hardware.tlbEntries) (slot : Nat) (p : PCB), (s.tlb i).valid = true →
        (s.tlb i).global = false → s.shared.procAt slot = some p →
        p.addrSpace.asid = (s.tlb i).asid → p.addrSpace.Maps (s.tlb i) := by
  intro hall
  have hruns : (KernelState.boot zeroFiles 0x80001000 0 0 (fun _ => 0)).any (fun s1 =>
      (execute KernelState.step (fun _ _ => True) s1 [textRefill, textSyscall EXEC]).any
        fun s => (s.tlb firstEntry).valid && !(s.tlb firstEntry).global &&
          (s.shared.procAt 0).any fun p => p.addrSpace.asid == (s.tlb firstEntry).asid &&
            !decide (p.addrSpace.Maps (s.tlb firstEntry))) := by
    decide +kernel
  obtain ⟨s1, hboot, hruns⟩ := (Option.any_eq_true _ _).mp hruns
  obtain ⟨s, hs, hentry⟩ := (Option.any_eq_true _ _).mp hruns
  obtain ⟨hkind, hhere⟩ := (Bool.and_eq_true _ _).mp hentry
  obtain ⟨hvalid, hlocal⟩ := (Bool.and_eq_true _ _).mp hkind
  obtain ⟨p, hp, hstale⟩ := (Option.any_eq_true _ _).mp hhere
  obtain ⟨hasid, hno⟩ := (Bool.and_eq_true _ _).mp hstale
  have hmaps := hall zeroFiles 0x80001000 0 0 (fun _ => 0) s1 s hboot
    (reaches_of_execute (R := KernelState.Step) id hs) firstEntry 0 p hvalid
    ((Bool.not_eq_true' _).mp hlocal) hp (beq_iff_eq.mp hasid)
  rw [decide_eq_true hmaps] at hno
  cases hno

end Kernel
