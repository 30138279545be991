import BobbyOS.Kernel.Lifecycle

/-!
# Processes that change

A process stays in its slot while its counter, its state, its page table or its
heap change.  `Replaced` says what such an operation does to the process table
and to the resources: `exec` moves the frames of a new process to the old one
and gives the old frames back; `updateBrk` takes a frame for every new heap
page, and loses it when the page is mapped already.
-/

namespace Kernel

open MemoryManager Ledger

/-! ### The heap of an address space -/

namespace AddressSpace

/-- The address is one that `updateBrk` accepts. -/
def InHeap (vaddr : Word) : Prop := BRK_DEFAULT ≤ vaddr ∧ vaddr < HEAP_LIMIT

instance (vaddr : Word) : Decidable (InHeap vaddr) := by
  unfold InHeap
  infer_instance

/-- The test that `updateBrk` starts with. -/
theorem outside_eq (vaddr : Word) :
    (vaddr < BRK_DEFAULT || HEAP_LIMIT ≤ vaddr) = !decide (InHeap vaddr) := by
  rw [Bool.eq_iff_iff, Bool.or_eq_true, decide_eq_true_iff, decide_eq_true_iff,
    Bool.not_eq_true', decide_eq_false_iff_not, InHeap, not_and_or, BitVec.not_le, BitVec.not_lt]

/-- How many pages `updateBrk` tries to map. -/
def growth (s : AddressSpace) (vaddr : Word) : Nat :=
  if InHeap vaddr then (pageBoundary vaddr).toNat - s.brk.toNat else 0

/-- The number of pages up to an address of the heap. -/
theorem pageBoundary_toNat {vaddr : Word} (h : InHeap vaddr) :
    (pageBoundary vaddr).toNat = (vaddr.toNat - 0x10008000) / 4096 + 1 ∧
      (pageBoundary vaddr).toNat ≤ 256 := by
  obtain ⟨hlow, hhigh⟩ := h
  rw [BitVec.le_def, show BRK_DEFAULT.toNat = 0x10008000 from rfl] at hlow
  rw [BitVec.lt_def, show HEAP_LIMIT.toNat = 0x10108000 from rfl] at hhigh
  have hsub : (vaddr - BRK_DEFAULT).toNat = vaddr.toNat - 0x10008000 := by
    rw [BitVec.toNat_sub, show BRK_DEFAULT.toNat = 0x10008000 from rfl]
    omega
  rw [pageBoundary, BitVec.toNat_add, BitVec.toNat_ushiftRight, hsub, Nat.shiftRight_eq_div_pow,
    show (1#32).toNat = 1 from rfl]
  omega

/-- The heap does not grow over its limit. -/
theorem growth_le (s : AddressSpace) (vaddr : Word) (h : 0 < s.growth vaddr) :
    s.brk.toNat + s.growth vaddr ≤ 256 := by
  rw [growth] at h ⊢
  split at h
  case isTrue hin =>
    have := (pageBoundary_toNat hin).2
    rw [if_pos hin]
    omega
  case isFalse => omega

/-- **Growing the heap.**  `updateBrk` takes a frame for every page it tries to
map; the pages that were mapped already keep their old frames. -/
theorem updateBrk_spec {s s' : AddressSpace} {m m' : MemoryManager} {vaddr : Word} {valid : Bool}
    {t : HashPageTable} (h : s.updateBrk m vaddr = .ok (valid, s', m'))
    (ht : s.pageTable = some (.hash t)) (hwf : t.table.WF) :
    valid = decide (InHeap vaddr) ∧ s'.asid = s.asid ∧ (¬ InHeap vaddr → s' = s) ∧
      ∃ t' fs, s'.pageTable = some (.hash t') ∧ fs.length = s.growth vaddr ∧ Hands m fs m' ∧
        t'.table.WF ∧ t'.entries.Perm ((HashPageTable.pagesAt heapVpn heapEntry s.brk.toNat fs).filter
          (fun kv => kv.1 ∉ t.vpns) ++ t.entries) := by
  rw [updateBrk, outside_eq] at h
  by_cases hin : InHeap vaddr
  · rw [decide_eq_true hin, Bool.not_true, if_neg (by decide)] at h
    by_cases hle : pageBoundary vaddr ≤ s.brk
    · rw [if_pos hle] at h
      obtain ⟨rfl, hrest⟩ := Prod.mk.inj (Except.ok.inj h)
      obtain ⟨rfl, rfl⟩ := Prod.mk.inj hrest
      have hgrowth : s.growth vaddr = 0 := by
        rw [growth, if_pos hin, Nat.sub_eq_zero_of_le hle]
      exact ⟨(decide_eq_true hin).symm, rfl, fun _ => rfl, t, [], ht, hgrowth.symm, rfl, hwf,
        List.Perm.refl _⟩
    · rw [if_neg hle, ht] at h
      have hlt : s.brk.toNat < (pageBoundary vaddr).toNat := BitVec.not_le.mp hle
      have hgrowth : s.growth vaddr = (pageBoundary vaddr).toNat - s.brk.toNat := by
        rw [growth, if_pos hin]
      have hbound := (pageBoundary_toNat hin).2
      obtain ⟨⟨pt, m1⟩, hmap, h⟩ := Except.bind_ok_iff.mp h
      obtain ⟨t', fs, rfl, hlen, hhands, hwf', hperm⟩ :=
        HashPageTable.mapHeap_spec hmap hwf (by omega)
      obtain ⟨rfl, hrest⟩ := Prod.mk.inj (Except.ok.inj h)
      obtain ⟨rfl, rfl⟩ := Prod.mk.inj hrest
      exact ⟨(decide_eq_true hin).symm, rfl, fun hout => absurd hin hout, t', fs, rfl,
        hlen.trans hgrowth.symm, hhands, hwf', hperm⟩
  · rw [decide_eq_false hin, Bool.not_false, if_pos rfl] at h
    obtain ⟨rfl, hrest⟩ := Prod.mk.inj (Except.ok.inj h)
    obtain ⟨rfl, rfl⟩ := Prod.mk.inj hrest
    have hgrowth : s.growth vaddr = 0 := by rw [growth, if_neg hin]
    exact ⟨(decide_eq_false hin).symm, rfl, fun _ => rfl, t, [], ht, hgrowth.symm, rfl, hwf,
      List.Perm.refl _⟩

end AddressSpace

namespace SharedResources

variable {k k' : SharedResources} {slot : Nat} {p q : PCB} {leaked : List Nat}

/-- The process in a slot becomes another one with the same PID and the same
identifier; the other slots keep theirs. -/
structure Replaced (k : SharedResources) (slot : Nat) (p q : PCB) (leaked : List Nat)
    (k' : SharedResources) : Prop where
  change : Change k k' [p] [q] leaked
  slotted : k'.Slotted
  before : k.processes[slot]? = some (some p)
  after : k'.processes[slot]? = some (some q)
  others : ∀ {j : Nat} {r : PCB}, j ≠ slot → k.processes[j]? = some (some r) →
    k'.processes[j]? = some (some r)
  pid : q.PID = p.PID
  asid : q.addrSpace.asid = p.addrSpace.asid

/-- A changed process is in its slot. -/
theorem setPcb_self (hp : k.processes[slot]? = some (some p)) (q : PCB) :
    (k.setPcb slot q).processes[slot]? = some (some q) :=
  List.getElem?_set_self (Slots.lt_of_getElem? hp)

/-- The other slots are as they were. -/
theorem setPcb_ne {j : Nat} (hne : j ≠ slot) (q : PCB) :
    (k.setPcb slot q).processes[j]? = k.processes[j]? := List.getElem?_set_ne hne.symm

/-- Registers, state and counter are no resources. -/
theorem replaced_setPcb (hsane : k.Sane) (hslotted : k.Slotted)
    (hp : k.processes[slot]? = some (some p)) (hspace : q.addrSpace = p.addrSpace)
    (hpid : q.PID = p.PID) : Replaced k slot p q [] (k.setPcb slot q) := by
  obtain ⟨hold, hnew⟩ := live_setPcb hp q
  refine ⟨change_same hold hnew hspace (hsane.tables p (mem_live hp)) rfl rfl rfl,
    hslotted.setPcb hp hpid, hp, setPcb_self hp q, fun hne hr => ?_, hpid, by rw [hspace]⟩
  rw [setPcb_ne hne]
  exact hr

/-! ### Guards -/

/-- A guard is made for a slot with a process. -/
theorem guard_eq {idx : Word} (h : k.processes[idx.toNat]? = some (some p)) :
    k.guard idx = some idx.toNat := by
  rw [guard, h]

/-- A borrow counts one more. -/
theorem borrow_eq (h : k.processes[slot]? = some (some p)) :
    k.borrow slot = .ok (k.setPcb slot { p with refcount := p.refcount + 1 }) := by
  rw [borrow, pcb_eq h]
  rfl

/-- A mark makes a zombie of a user process. -/
theorem markForDeath_eq (h : k.processes[slot]? = some (some p)) (hpid : p.PID ≠ KERNEL_PID) :
    k.markForDeath slot = .ok (k.setPcb slot { p with state := .ZOMBIE }) := by
  rw [markForDeath, pcb_eq h, Except.ok_bind, bne_iff_ne.mpr hpid]
  rfl

/-- The last guard of a process that is marked for death. -/
theorem reset_last (h : k.processes[slot]? = some (some p)) (hpid : p.PID ≠ KERNEL_PID)
    (hstate : p.state = .ZOMBIE) (hcount : p.refcount = 1) :
    k.reset slot = (k.setPcb slot { p with refcount := 0 }).freeProcess p.PID := by
  have hzero : p.refcount - 1 = 0 := by rw [hcount]; decide
  rw [SharedResources.reset, pcb_eq h, Except.ok_bind, if_neg hpid]
  simp only [hzero]
  rw [if_pos ⟨hstate, trivial⟩]

/-- A process in a slot is not the kernel's. -/
theorem Slotted.pid_ne (h : k.Slotted) (hp : k.processes[slot]? = some (some p)) :
    p.PID ≠ KERNEL_PID := by
  intro heq
  have hpid := h.pids hp
  have hlt := Slots.lt_of_getElem? hp
  have hshort := h.short
  rw [heq, show KERNEL_PID.toNat = 0xFFFFFFFF from rfl] at hpid
  unfold numASIDs at hshort
  omega

/-! ### `exec` -/

/-- A new process `new` in slot `n` gives its page table to the process `self`,
and is freed. -/
theorem adopted {k1 k2 : SharedResources} {n : Nat} {self new self' gone : PCB}
    {m : MemoryManager} {t : HashPageTable} (hsane : k.Sane) (hcreated : Created k new n k1)
    (hself : k.processes[slot]? = some (some self))
    (ht : self.addrSpace.pageTable = some (.hash t))
    (hfree : t.destroy k1.memory = .ok m) (h : k2.freeProcess new.PID = .ok k')
    (hspace : self'.addrSpace =
      { self.addrSpace with pageTable := new.addrSpace.pageTable })
    (hpid : self'.PID = self.PID)
    (hgone : gone.addrSpace = { new.addrSpace with pageTable := none })
    (hgonePid : gone.PID = new.PID)
    (hk2 : k2.processes = (k1.processes.set slot (some self')).set n (some gone))
    (hk2kernel : k2.kernelProcess = k1.kernelProcess) (hk2free : k2.freePids = k1.freePids)
    (hk2memory : k2.memory = m) (hk2asids : k2.reservedASIDs = k1.reservedASIDs) :
    Replaced k slot self self' [] k' := by
  obtain ⟨hne, hself1⟩ := hcreated.others hself
  have hltn := Slots.lt_of_getElem? hcreated.here
  have hself2 : (k1.processes.set slot (some self'))[slot]? = some (some self') :=
    List.getElem?_set_self (Slots.lt_of_getElem? hself1)
  have hgone2 : k2.processes[n]? = some (some gone) := by
    rw [hk2]
    exact List.getElem?_set_self (by rw [List.length_set]; exact hltn)
  -- the old page table's frames are free now
  have hlive := mem_live hself
  have hpages : ∀ kv ∈ t.entries, kv.2.pfn.toNat < numPages := by
    intro kv hkv
    refine hsane.frames_lt hlive _ ?_
    rw [PCB.frames_hash ht]
    exact List.mem_map_of_mem (f := fun kv => kv.2.pfn.toNat) hkv
  obtain ⟨m', hfree', hres, hbound⟩ := HashPageTable.freeFrames_spec (m := k1.memory) hpages
  obtain rfl : m' = m := Except.ok.inj (hfree'.symm.trans hfree)
  have hnoframes : gone.frames = [] := by rw [PCB.frames, hgone]; rfl
  have hgoneasid : gone.asidNumber = new.asidNumber := by rw [PCB.asidNumber, hgone, PCB.asidNumber]
  obtain ⟨acquired, released, hframes, hfbounds⟩ := hcreated.change.frames
  obtain ⟨acquired', released', hasids, habounds⟩ := hcreated.change.asids
  have hasidlt : gone.asidNumber < numASIDs := by
    rw [hgoneasid]
    exact (hsane.change hcreated.change).asidBounds new (mem_live hcreated.here)
  rw [← hgonePid] at h
  obtain ⟨hremoved, hkernel, hres', hbound', hbits⟩ :=
    freeProcess_spec h hgone2 (by rw [hgonePid]; exact hcreated.pid)
      (Or.inl (by rw [hgone])) (by simp [hnoframes]) hasidlt
  have hframes' : self'.frames = new.frames := by rw [PCB.frames, PCB.frames, hspace]
  have hasid' : self'.asidNumber = self.asidNumber := by rw [PCB.asidNumber, hspace, PCB.asidNumber]
  have hslotted2 : k2.Slotted := by
    have h1 := hcreated.slotted.setPcb hself1 hpid
    have hnew : (k1.setPcb slot self').processes[n]? = some (some new) := by
      rw [setPcb_ne hne.symm]
      exact hcreated.here
    exact (h1.setPcb hnew hgonePid).of_eq hk2 hk2free
  have hlive' : k'.live.Perm (self' :: Slots.others k.processes slot) := by
    refine hremoved.live.trans ?_
    rw [hk2, Slots.others_set_self]
    refine Slots.others_set_perm hne hself1 hcreated.here ?_
    exact hcreated.live.trans ((Slots.perm_of_some hself).cons new)
  refine ⟨⟨⟨_, Slots.perm_of_some hself, hlive'⟩, ?_, ?_, ⟨acquired, released ++ self.frames, ?_,
    hfbounds⟩, ⟨acquired', released' ++ [new.asidNumber], ?_, habounds⟩, ?_⟩,
    hremoved.slotted hslotted2, hself, ?_, ?_, hpid, by rw [hspace]⟩
  · rw [hkernel, hk2kernel]
    exact hcreated.change.kernel
  · rw [hbound', hk2memory, hbound]
    exact hcreated.change.boundary
  · have h1 : Transfer k.memory.Reserved k'.memory.Reserved (self.frames ++ [])
        ([new].flatMap PCB.frames) acquired (released ++ self.frames) [] :=
      hframes.give_back fun j => by
        rw [hres', hk2memory, hres, hnoframes, PCB.frames_hash ht]
        simp [HashPageTable.frames]
    simpa [hframes'] using h1
  · have h1 : Transfer k.ReservedASID k'.ReservedASID ([new.asidNumber] ++ [])
        ([new.asidNumber] ++ []) acquired' (released' ++ [new.asidNumber]) [] :=
      hasids.give_back fun j => by
        rw [hbits, hgoneasid, ReservedASID, hk2asids, List.mem_singleton]
        rfl
    have h2 : Transfer k.ReservedASID k'.ReservedASID ([self.asidNumber] ++ [])
        ([self.asidNumber] ++ []) acquired' (released' ++ [new.asidNumber]) [] :=
      transfer_cancel.mpr (transfer_cancel.mp h1)
    simpa [hasid'] using h2
  · intro r hr
    obtain rfl := List.mem_singleton.mp hr
    rw [PCB.HasTable, hspace]
    exact hcreated.change.tables new (List.mem_singleton_self _)
  · refine hremoved.others ?_ hne
    rw [hk2, List.getElem?_set_ne hne.symm]
    exact hself2
  · intro j r hj hr
    obtain ⟨hjn, hr1⟩ := hcreated.others hr
    refine hremoved.others ?_ hjn
    rw [hk2, List.getElem?_set_ne hjn.symm, List.getElem?_set_ne hj.symm]
    exact hr1

/-- The PIDs of processes are none of the special values. -/
theorem Created.pid_ne {n : Nat} {new : PCB} (h : Created k new n k') : new.PID ≠ NOPCBEXISTS :=
  h.slotted.pid_ne h.here

/-- **Executing.**  `exec` replaces the page table, or it leaves everything as it
was. -/
theorem exec_spec {vm : Tunnel} {path : List Byte} {brk0 : Word} {done : Bool}
    {ctx ctx' : Option RegisterContext}
    (h : k.exec vm slot path brk0 ctx = .ok (done, ctx', k')) (hsane : k.Sane)
    (hslotted : k.Slotted) :
    ∃ p, k.processes[slot]? = some (some p) ∧
      ((done = false ∧ Undone k k') ∨ (done = true ∧ ∃ q, Replaced k slot p q [] k')) := by
  rw [exec] at h
  obtain ⟨self, hself, h⟩ := Except.bind_ok_iff.mp h
  obtain ⟨_, -, h⟩ := Except.bind_ok_iff.mp h
  obtain ⟨⟨newPID, k1⟩, hcreate, h⟩ := Except.bind_ok_iff.mp h
  have hself' := pcb_spec hself
  refine ⟨self, hself', ?_⟩
  simp only at h
  rcases createProcess_spec hcreate hsane hslotted with ⟨rfl, hundone⟩ | ⟨new, n, rfl, hcreated, -⟩
  · rw [if_pos rfl] at h
    obtain ⟨rfl, hrest⟩ := Prod.mk.inj (Except.ok.inj h)
    obtain ⟨-, rfl⟩ := Prod.mk.inj hrest
    exact Or.inl ⟨rfl, hundone⟩
  · obtain rfl := hcreated.pid
    have hhere := hcreated.here
    obtain ⟨hne, -⟩ := hcreated.others hself'
    obtain ⟨t, ht, -⟩ := hsane.tables self (mem_live hself')
    rw [if_neg hcreated.pid_ne, guard_eq hhere] at h
    simp only [borrow_eq hhere, Except.ok_bind, ht] at h
    obtain ⟨new1, hnew1, h⟩ := Except.bind_ok_iff.mp h
    obtain rfl := Option.some.inj (Option.some.inj ((pcb_spec hnew1).symm.trans (setPcb_self hhere _)))
    obtain ⟨m, hm, h⟩ := Except.bind_ok_iff.mp h
    -- the new process has lost its page table, and its only guard is reset
    let self' : PCB :=
      { self with addrSpace := { self.addrSpace with pageTable := new.addrSpace.pageTable }
                  regCtx := if ctx.isSome then self.regCtx else new.regCtx }
    let left : PCB :=
      { new with refcount := new.refcount + 1
                 addrSpace := { new.addrSpace with pageTable := none } }
    let k3 := SharedResources.setPcb { k1.setPcb new.PID.toNat
      { new with refcount := new.refcount + 1 } with memory := m } slot self'
    have hhere3 : k3.processes[new.PID.toNat]? = some (some
        { new with refcount := new.refcount + 1 }) := by
      rw [setPcb_ne hne.symm]
      exact setPcb_self hhere _
    have hpid : new.PID ≠ KERNEL_PID := hcreated.slotted.pid_ne hhere
    have hleft := setPcb_self hhere3 left
    obtain ⟨k5, hmark, h⟩ := Except.bind_ok_iff.mp h
    rw [markForDeath_eq hleft hpid] at hmark
    obtain rfl := Except.ok.inj hmark
    obtain ⟨k6, hreset, h⟩ := Except.bind_ok_iff.mp h
    have hcount : left.refcount = 1 := by
      show new.refcount + 1 = 1
      rw [hcreated.refcount]
      rfl
    have hdead := setPcb_self hleft { left with state := .ZOMBIE }
    rw [reset_last hdead hpid rfl hcount] at hreset
    obtain ⟨rfl, hrest⟩ := Prod.mk.inj (Except.ok.inj h)
    obtain ⟨-, rfl⟩ := Prod.mk.inj hrest
    refine Or.inr ⟨rfl, self', ?_⟩
    let gone : PCB := { left with state := .ZOMBIE, refcount := 0 }
    have hset : ((((k1.processes.set new.PID.toNat (some
        { new with refcount := new.refcount + 1 })).set slot (some self')).set new.PID.toNat
        (some left)).set new.PID.toNat (some { left with state := .ZOMBIE })).set new.PID.toNat
        (some gone) = (k1.processes.set slot (some self')).set new.PID.toNat (some gone) := by
      rw [List.set_comm _ _ hne.symm]
      simp only [List.set_set]
    have hgone : gone.addrSpace = { new.addrSpace with pageTable := none } := rfl
    exact adopted hsane hcreated hself' ht hm hreset rfl rfl hgone rfl hset rfl rfl rfl rfl

/-! ### The break -/

open AddressSpace (growth heapVpn heapEntry InHeap)

/-- What `updateBrk` does to the page table `t` of `p`: the frames `fs` were
taken for the new heap pages. -/
structure Grown (p : PCB) (t : HashPageTable) (vaddr : Word) (fs : List Nat) (q : PCB)
    (t' : HashPageTable) : Prop where
  before : p.addrSpace.pageTable = some (.hash t)
  after : q.addrSpace.pageTable = some (.hash t')
  length : fs.length = p.addrSpace.growth vaddr
  entries : t'.entries.Perm ((HashPageTable.pagesAt heapVpn heapEntry p.addrSpace.brk.toNat
    fs).filter (fun kv => kv.1 ∉ t.vpns) ++ t.entries)
  refused : ¬ InHeap vaddr → t' = t

/-- The frames taken for pages that were mapped already. -/
def lostFrames (p : PCB) (t : HashPageTable) (fs : List Nat) : List Nat :=
  ((HashPageTable.pagesAt heapVpn heapEntry p.addrSpace.brk.toNat fs).filter
    fun kv => kv.1 ∈ t.vpns).map fun kv => kv.2.pfn.toNat

/-- A growth loses no frame exactly if none of its pages was mapped before. -/
theorem Grown.lostFrames_eq_nil {t t' : HashPageTable} {vaddr : Word} {fs : List Nat}
    (h : Grown p t vaddr fs q t') :
    lostFrames p t fs = [] ↔ ∀ i, p.addrSpace.brk.toNat ≤ i →
      i < p.addrSpace.brk.toNat + p.addrSpace.growth vaddr → heapVpn i ∉ t.vpns := by
  rw [lostFrames, List.map_eq_nil_iff, List.filter_eq_nil_iff]
  constructor
  · intro hnone i hlow hhigh hmem
    have hlt : i - p.addrSpace.brk.toNat < fs.length := by rw [h.length]; omega
    have hin : (heapVpn (p.addrSpace.brk.toNat + (i - p.addrSpace.brk.toNat)),
        heapEntry (BitVec.ofNat 32 fs[i - p.addrSpace.brk.toNat])) ∈
        HashPageTable.pagesAt heapVpn heapEntry p.addrSpace.brk.toNat fs :=
      HashPageTable.mem_pagesAt.mpr ⟨_, _, List.getElem?_eq_getElem hlt, rfl⟩
    rw [Nat.add_sub_cancel' hlow] at hin
    exact hnone _ hin (by simpa using hmem)
  · intro hfree kv hkv hmem
    obtain ⟨j, hlow, hhigh, hkey, -⟩ := HashPageTable.vpn_of_mem_pagesAt hkv
    rw [h.length] at hhigh
    rw [hkey] at hmem
    exact hfree j hlow hhigh (by simpa using hmem)

/-- **Growing.**  The new pages get the new frames; a frame taken for a page that
was mapped is lost. -/
theorem updateBrk_spec {vaddr : Word} {valid : Bool} (h : k.updateBrk slot vaddr = .ok (valid, k'))
    (hsane : k.Sane) (hslotted : k.Slotted) :
    ∃ p q t t' fs, valid = decide (InHeap vaddr) ∧ Grown p t vaddr fs q t' ∧
      Replaced k slot p q (lostFrames p t fs) k' := by
  rw [updateBrk] at h
  obtain ⟨p, hp, h⟩ := Except.bind_ok_iff.mp h
  have hp' := pcb_spec hp
  obtain ⟨t, ht, husable⟩ := hsane.tables p (mem_live hp')
  obtain ⟨⟨valid', space, memory⟩, hbrk, h⟩ := Except.bind_ok_iff.mp h
  obtain ⟨rfl, rfl⟩ := Prod.mk.inj (Except.ok.inj h)
  obtain ⟨hvalid, hasid, hsame, t', fs, ht', hlen, hhands, hwf', hperm⟩ :=
    AddressSpace.updateBrk_spec hbrk ht husable.wf
  let q : PCB := { p with addrSpace := space }
  have hgrown : Grown p t vaddr fs q t' := by
    refine ⟨ht, ht', hlen, hperm, fun hout => ?_⟩
    rw [hsame hout, ht] at ht'
    cases ht'
    rfl
  refine ⟨p, q, t, t', fs, hvalid, hgrown, ?_⟩
  have hfs : ∀ f ∈ fs, k.memory.kernelReservedBoundary ≤ f ∧ f < numPages :=
    fun f hf => (hhands.fresh hf).2
  have hregular : t'.Regular := by
    intro kv hkv
    rcases List.mem_append.mp (hperm.mem_iff.mp hkv) with hnew | hold
    · obtain ⟨_, _, _, _, f, _, heq⟩ :=
        HashPageTable.vpn_of_mem_pagesAt (List.mem_of_mem_filter hnew)
      rw [heq]
      exact ⟨rfl, rfl, fun _ => rfl⟩
    · exact husable.regular kv hold
  have hbounded : t'.Bounded := by
    refine bounded_of_perm hperm fun kv hkv => ?_
    rcases List.mem_append.mp hkv with hnew | hold
    · obtain ⟨j, _, hj, hkey, -⟩ :=
        HashPageTable.vpn_of_mem_pagesAt (List.mem_of_mem_filter hnew)
      have hpages := p.addrSpace.growth_le vaddr (by omega)
      apply bounded_of_toNat
      rw [hkey, HashPageTable.heapVpn_toNat (by omega)]
      omega
    · exact husable.bounded _ (List.mem_map_of_mem hold)
  obtain ⟨hold, hnew⟩ := live_setPcb hp' q
  refine ⟨⟨⟨_, hold, hnew⟩, rfl, hhands.boundary, ⟨fs, [], ⟨hhands.nodup,
    fun f hf => (hhands.fresh hf).1, fun f => ?_, ?_⟩, hfs⟩, ⟨[], [], ⟨List.nodup_nil, by simp,
    fun a => ?_, ?_⟩, by simp⟩, ?_⟩, ?_, hp', setPcb_self hp' q, fun hne hr => ?_, rfl, hasid⟩
  · show memory.Reserved f ↔ _
    simpa using hhands.reserved f
  · -- the frames taken go to the new pages or get lost
    have hframes : (HashPageTable.pagesAt heapVpn heapEntry p.addrSpace.brk.toNat fs).map
        (fun kv => kv.2.pfn.toNat) = fs :=
      HashPageTable.frames_pagesAt (fun _ => rfl) fun f hf => (hfs f hf).2
    have hsplit := (List.filter_append_perm (fun kv : Word × PageTable.Entry => kv.1 ∈ t.vpns)
      (HashPageTable.pagesAt heapVpn heapEntry p.addrSpace.brk.toNat fs)).map
        fun kv => kv.2.pfn.toNat
    rw [hframes, List.map_append] at hsplit
    simp only [← decide_not] at hsplit
    have hentries := hperm.map fun kv => kv.2.pfn.toNat
    rw [List.map_append] at hentries
    have hq : q.frames = t'.frames := PCB.frames_hash ht'
    rw [List.flatMap_singleton, List.flatMap_singleton, List.nil_append, hq, PCB.frames_hash ht]
    refine (hentries.append_right _).trans (List.perm_append_comm.trans ?_)
    rw [← List.append_assoc]
    exact hsplit.append_right _
  · simp [ReservedASID, SharedResources.setPcb]
  · simp [PCB.asidNumber, q, hasid]
  · intro r hr
    obtain rfl := List.mem_singleton.mp hr
    exact ⟨t', ht', hwf', hregular, hbounded⟩
  · exact (hslotted.setPcb (q := q) hp' rfl).of_eq rfl rfl
  · show (k.processes.set slot (some q))[_]? = _
    rw [List.getElem?_set_ne hne.symm]
    exact hr

end SharedResources

end Kernel
