import BobbyOS.Kernel.Replacement

/-!
# The processes as a map

`procAt k` is the process in each slot.  Every operation of the process manager
updates this map at one slot: a creator fills a slot that was empty, `exec` and
`updateBrk` change the address space in one slot, a guard changes a counter or
empties a slot.  The statements here say which slot and what it holds then; the
counters, states and priorities of all other processes stay.
-/

namespace Kernel

namespace SharedResources

/-- The process in a slot. -/
def procAt (k : SharedResources) (slot : Nat) : Option PCB := Slots.get k.processes slot

variable {k k' : SharedResources} {slot : Nat} {p q : PCB}

/-- The process in a slot. -/
theorem procAt_iff : k.procAt slot = some p ↔ k.processes[slot]? = some (some p) :=
  Slots.get_eq_some

/-- A slot without a process. -/
theorem procAt_eq_none : k.procAt slot = none ↔ ∀ p, k.processes[slot]? ≠ some (some p) := by
  rw [Option.eq_none_iff_forall_ne_some]
  exact forall_congr' fun p => not_congr procAt_iff

/-- The map depends on the slots. -/
theorem procAt_of_eq (h : k'.processes = k.processes) : k'.procAt = k.procAt := by
  funext i
  rw [procAt, procAt, h]

/-- A changed process, as an update. -/
theorem setPcb_procAt (h : k.procAt slot = some p) (q : PCB) :
    (k.setPcb slot q).procAt = Function.update k.procAt slot (some q) :=
  Slots.get_set (Slots.lt_of_getElem? (procAt_iff.mp h)) (some q)

/-- A control block is found exactly where a process is. -/
theorem pcb_ok_iff : k.pcb slot = .ok p ↔ k.procAt slot = some p :=
  ⟨fun h => procAt_iff.mpr (pcb_spec h), fun h => pcb_eq (procAt_iff.mp h)⟩

/-- A guard is made exactly for a slot with a process. -/
theorem guard_eq_some {idx : Word} {n : Nat} :
    k.guard idx = some n ↔ n = idx.toNat ∧ ∃ p, k.procAt n = some p := by
  unfold guard
  split
  · rename_i p hp
    constructor
    · intro h
      obtain rfl := Option.some.inj h
      exact ⟨rfl, p, procAt_iff.mpr hp⟩
    · rintro ⟨rfl, -⟩
      rfl
  · rename_i hno
    constructor
    · intro h
      cases h
    · rintro ⟨rfl, p, hp⟩
      exact absurd (procAt_iff.mp hp) (hno p)

/-- For another slot none is. -/
theorem guard_eq_none {idx : Word} : k.guard idx = none ↔ k.procAt idx.toNat = none := by
  constructor
  · intro h
    rw [Option.eq_none_iff_forall_ne_some]
    intro p hp
    rw [guard_eq_some.mpr ⟨rfl, p, hp⟩] at h
    cases h
  · intro h
    rw [Option.eq_none_iff_forall_ne_some]
    intro n hn
    obtain ⟨rfl, p, hp⟩ := guard_eq_some.mp hn
    rw [h] at hp
    cases hp

/-! ### Guards -/

/-- A borrow counts one more. -/
theorem borrow_procAt (h : k.borrow slot = .ok k') :
    ∃ p, k.procAt slot = some p ∧
      k'.procAt = Function.update k.procAt slot (some { p with refcount := p.refcount + 1 }) := by
  obtain ⟨p, hp, h⟩ := Except.bind_ok_iff.mp h
  obtain rfl := Except.ok.inj h
  exact ⟨p, pcb_ok_iff.mp hp, setPcb_procAt (pcb_ok_iff.mp hp) _⟩

/-- A mark makes a zombie. -/
theorem markForDeath_procAt (h : k.markForDeath slot = .ok k') :
    ∃ p, k.procAt slot = some p ∧
      k'.procAt = Function.update k.procAt slot (some { p with state := .ZOMBIE }) := by
  obtain ⟨p, hp, h⟩ := Except.bind_ok_iff.mp h
  obtain ⟨-, -, h⟩ := Except.bind_ok_iff.mp h
  obtain rfl := Except.ok.inj h
  exact ⟨p, pcb_ok_iff.mp hp, setPcb_procAt (pcb_ok_iff.mp hp) _⟩

/-- Destroying the resources of a process leaves the slots. -/
theorem destroy_processes (h : k.destroy p = .ok k') : k'.processes = k.processes := by
  rw [destroy] at h
  obtain ⟨x, -, h⟩ := Except.bind_ok_iff.mp h
  obtain rfl := Except.ok.inj h
  rfl

/-- Freeing empties one slot, whichever way the table takes it. -/
theorem freeProcess_procAt {pid : Word} (h : k.freeProcess pid = .ok k') :
    ∃ p, k.procAt pid.toNat = some p ∧ p.refcount = 0 ∧ p.state = .ZOMBIE ∧
      k'.procAt = Function.update k.procAt pid.toNat none := by
  rw [freeProcess] at h
  split at h
  case h_1 => cases h
  case h_2 => cases h
  case h_3 p hp =>
    obtain ⟨_, hassert, h⟩ := Except.bind_ok_iff.mp h
    have hboth : p.refcount = 0 ∧ p.state = .ZOMBIE := by
      unfold kassert at hassert
      split at hassert
      · rename_i hc
        simpa using hc
      · cases hassert
    have hlt := Slots.lt_of_getElem? hp
    refine ⟨p, procAt_iff.mpr hp, hboth.1, hboth.2, ?_⟩
    split at h
    case isTrue hlast =>
      rw [procAt_of_eq (destroy_processes h)]
      exact Slots.get_dropLast hlt hlast
    case isFalse =>
      rw [procAt_of_eq (destroy_processes h)]
      exact Slots.get_set hlt none

/-- What resetting the guard of a process leaves in its slot: nothing when it was
the last guard of a process marked for death. -/
def afterReset (p : PCB) : Option PCB :=
  if p.state = .ZOMBIE ∧ p.refcount - 1 = 0 then none
  else some { p with refcount := p.refcount - 1 }

/-- A guard that is given back counts one less, and a zombie that nobody holds goes. -/
theorem reset_procAt (h : k.reset slot = .ok k') (hslotted : k.Slotted) :
    ∃ p, k.procAt slot = some p ∧
      k'.procAt = Function.update k.procAt slot (afterReset p) := by
  obtain ⟨p, hp, h⟩ := Except.bind_ok_iff.mp h
  have hp' := pcb_ok_iff.mp hp
  have hpid := hslotted.pids (procAt_iff.mp hp')
  refine ⟨p, hp', ?_⟩
  rw [if_neg (hslotted.pid_ne (procAt_iff.mp hp'))] at h
  simp only at h
  unfold afterReset
  split at h
  case isTrue hlast =>
    obtain ⟨-, -, -, -, hfree⟩ := freeProcess_procAt h
    rw [if_pos hlast, hfree, setPcb_procAt hp', hpid, Function.update_idem]
  case isFalse hmore =>
    obtain rfl := Except.ok.inj h
    rw [if_neg hmore, setPcb_procAt hp']

/-! ### Assertions -/

/-- Freeing fails no assertion once the process is marked for death and no guard
holds it. -/
theorem freeProcess_ok (hp : k.procAt p.PID.toNat = some p) (hcount : p.refcount = 0)
    (hstate : p.state = .ZOMBIE)
    (htable : p.addrSpace.pageTable = none ∨ ∃ t, p.addrSpace.pageTable = some (.hash t))
    (hframes : ∀ f ∈ p.frames, f < numPages) (hasid : p.asidNumber < numASIDs) :
    ∃ k', k.freeProcess p.PID = .ok k' := by
  have hassert : kassert (p.refcount == 0 && p.state == .ZOMBIE)
      "procContainer->refcount == 0 && procContainer->state == ZOMBIE" = .ok () := by
    rw [hcount, hstate]
    rfl
  rw [freeProcess, procAt_iff.mp hp]
  simp only [hassert, Except.ok_bind]
  split
  · obtain ⟨_, _, heq, -⟩ :=
      destroy_spec (k := { k with processes := k.processes.dropLast }) htable hframes hasid
    exact ⟨_, heq⟩
  · obtain ⟨_, _, heq, -⟩ :=
      destroy_spec (k := { k with processes := k.processes.set p.PID.toNat none,
                                  freePids := k.freePids ++ [p.PID] }) htable hframes hasid
    exact ⟨_, heq⟩

/-- Resetting a guard of a process fails no assertion. -/
theorem reset_ok (hp : k.procAt slot = some p) (hsane : k.Sane) (hslotted : k.Slotted) :
    ∃ k', k.reset slot = .ok k' := by
  have hp' := procAt_iff.mp hp
  have hlive := mem_live hp'
  obtain ⟨t, ht, -⟩ := hsane.tables p hlive
  rw [SharedResources.reset, pcb_eq hp', Except.ok_bind, if_neg (hslotted.pid_ne hp')]
  simp only
  split
  · rename_i hlast
    have hframes := hsane.frames_lt hlive
    refine freeProcess_ok (p := { p with refcount := p.refcount - 1 }) ?_ hlast.2 hlast.1
      (.inr ⟨t, ht⟩) hframes (hsane.asidBounds p hlive)
    rw [setPcb_procAt hp, show p.PID.toNat = slot from hslotted.pids hp', Function.update_self]
  · exact ⟨_, rfl⟩

/-! ### Creators -/

/-- A process that was just created: no guard holds it, it is alive, and its
priority is the highest. -/
structure Fresh (p : PCB) (pid : Word) : Prop where
  pid : p.PID = pid
  refcount : p.refcount = 0
  alive : p.state ≠ .ZOMBIE
  priority : p.priority = 0

/-- A new process fills an empty slot. -/
theorem install_procAt {pid : Word} (h : k.install p = .ok (pid, k')) (hpid : p.PID = k.nextPID)
    (hslotted : k.Slotted) :
    pid = p.PID ∧ k.procAt pid.toNat = none ∧
      k'.procAt = Function.update k.procAt pid.toNat (some p) := by
  rw [install] at h
  cases hlast : k.freePids.getLast? with
  | none =>
      rw [hlast] at h
      obtain ⟨rfl, rfl⟩ := Prod.mk.inj (Except.ok.inj h)
      have hslot : p.PID.toNat = k.processes.length := by
        have hshort := hslotted.short
        unfold numASIDs at hshort
        rw [hpid, nextPID, hlast, Option.getD_none, BitVec.toNat_ofNat]
        omega
      rw [hslot]
      refine ⟨rfl, procAt_eq_none.mpr fun q hq => ?_, Slots.get_append _ _⟩
      exact absurd (Slots.lt_of_getElem? hq) (Nat.lt_irrefl _)
  | some last =>
      rw [hlast] at h
      simp only at h
      split at h
      case h_1 => cases h
      case h_2 => cases h
      case h_3 hempty =>
        obtain ⟨rfl, rfl⟩ := Prod.mk.inj (Except.ok.inj h)
        have hslot : p.PID = last := by rw [hpid, nextPID, hlast, Option.getD_some]
        rw [hslot]
        refine ⟨rfl, procAt_eq_none.mpr fun q hq => ?_, Slots.get_set (Slots.lt_of_getElem? hempty) _⟩
        rw [hempty] at hq
        cases hq

/-- A new process has nobody that holds it. -/
theorem newProcess_fresh {info : ExecutableInfo} {brk0 : Word}
    (h : k.newProcess info brk0 = .ok (p, k')) :
    Fresh p k.nextPID ∧ k'.processes = k.processes ∧ k'.freePids = k.freePids := by
  rw [newProcess] at h
  obtain ⟨-, -, h⟩ := Except.bind_ok_iff.mp h
  obtain ⟨⟨pages, memory⟩, -, h⟩ := Except.bind_ok_iff.mp h
  obtain ⟨⟨space, asids⟩, -, h⟩ := Except.bind_ok_iff.mp h
  obtain ⟨rfl, rfl⟩ := Prod.mk.inj (Except.ok.inj h)
  exact ⟨⟨rfl, rfl, by simp, rfl⟩, rfl, rfl⟩

/-- **Creating.** -/
theorem createProcess_procAt {vm : Tunnel} {path : List Byte} {brk0 pid : Word}
    (h : k.createProcess vm path brk0 = .ok (pid, k')) (hslotted : k.Slotted) :
    (pid = NOPCBEXISTS ∧ k'.procAt = k.procAt) ∨
      ∃ p, Fresh p pid ∧ k.procAt pid.toNat = none ∧
        k'.procAt = Function.update k.procAt pid.toNat (some p) := by
  rcases createProcess_cases h with ⟨f, log, -, rfl, rfl⟩ |
    ⟨info, r, p, k1, physMem, f, log, -, hnew, h⟩
  · exact .inl ⟨rfl, rfl⟩
  · obtain ⟨hfresh, hprocesses, hfree⟩ := newProcess_fresh hnew
    rcases h with ⟨-, rfl, k2, hdestroy, rfl⟩ | ⟨-, hinstall⟩
    · refine .inl ⟨rfl, procAt_of_eq ?_⟩
      exact (destroy_processes hdestroy).trans hprocesses
    · have hnext : k1.nextPID = k.nextPID := by rw [nextPID, nextPID, hprocesses, hfree]
      have hslotted1 : k1.Slotted := hslotted.of_eq hprocesses hfree
      have hsame : k1.procAt = k.procAt := procAt_of_eq hprocesses
      obtain ⟨rfl, hempty, hmap⟩ := install_procAt
        (k := { k1 with physMem, log := f.destroy vm log }) hinstall
        (hfresh.pid.trans hnext.symm) (hslotted1.of_eq rfl rfl)
      have hfresh' : Fresh { p with regCtx := { p.regCtx with epc := info.entry - 4#32 } } p.PID :=
        ⟨rfl, hfresh.refcount, hfresh.alive, hfresh.priority⟩
      rw [← hsame]
      exact .inr ⟨_, hfresh', hempty, hmap⟩

/-- **Forking.**  The child has the lowest free identifier. -/
theorem forkProcess_procAt {pid newPID : Word} {ctx : Option RegisterContext} {brk0 : Word}
    (h : k.forkProcess pid ctx brk0 = .ok (newPID, k')) (hslotted : k.Slotted) :
    (newPID = NOPCBEXISTS ∧ k' = k ∧ k.procAt pid.toNat = none) ∨
      ∃ parent p, k.procAt pid.toNat = some parent ∧ Fresh p newPID ∧
        k.procAt newPID.toNat = none ∧
        k'.procAt = Function.update k.procAt newPID.toNat (some p) ∧
        ∃ asids, GivesASID k.reservedASIDs p.addrSpace.asid asids := by
  rw [forkProcess] at h
  split at h
  case h_2 hno =>
    obtain ⟨rfl, rfl⟩ := Prod.mk.inj (Except.ok.inj h)
    exact .inl ⟨rfl, rfl, procAt_eq_none.mpr fun p hp => hno p hp⟩
  case h_1 parent hparent =>
    split at h
    case h_1 => cases h
    case h_2 pages hpages =>
      obtain ⟨⟨pages, memory, physMem⟩, -, h⟩ := Except.bind_ok_iff.mp h
      obtain ⟨⟨space, asids⟩, hspace, h⟩ := Except.bind_ok_iff.mp h
      obtain ⟨rfl, hempty, hmap⟩ := install_procAt
        (k := { k with memory, physMem, reservedASIDs := asids }) h rfl (hslotted.of_eq rfl rfl)
      exact .inr ⟨parent, _, procAt_iff.mpr hparent, ⟨rfl, rfl, by simp, rfl⟩, hempty, hmap,
        asids, (AddressSpace.construct_spec hspace).1⟩

/-! ### Images -/

/-- A borrow keeps the processes in their slots. -/
theorem borrow_slotted (h : k.borrow slot = .ok k') (hslotted : k.Slotted) : k'.Slotted := by
  obtain ⟨p, hp, h⟩ := Except.bind_ok_iff.mp h
  obtain rfl := Except.ok.inj h
  exact hslotted.setPcb (pcb_spec hp) rfl

/-- So does a mark. -/
theorem markForDeath_slotted (h : k.markForDeath slot = .ok k') (hslotted : k.Slotted) :
    k'.Slotted := by
  obtain ⟨p, hp, h⟩ := Except.bind_ok_iff.mp h
  obtain ⟨-, -, h⟩ := Except.bind_ok_iff.mp h
  obtain rfl := Except.ok.inj h
  exact hslotted.setPcb (pcb_spec hp) rfl

/-- `exec` changes two processes in different slots. -/
theorem exchange_procAt {n : Nat} {self new : PCB} (memory : MemoryManager)
    (hself : k.procAt slot = some self) (hnew : k.procAt n = some new) (hne : n ≠ slot)
    (self' new' : PCB) (hslotted : k.Slotted) (hpid : self'.PID = self.PID)
    (hpid' : new'.PID = new.PID) :
    ((SharedResources.setPcb { k with memory } slot self').setPcb n new').procAt =
        Function.update (Function.update k.procAt slot (some self')) n (some new') ∧
      ((SharedResources.setPcb { k with memory } slot self').setPcb n new').Slotted := by
  have hmap : (SharedResources.setPcb { k with memory } slot self').procAt =
      Function.update k.procAt slot (some self') := setPcb_procAt (k := { k with memory }) hself _
  have hnew' : (SharedResources.setPcb { k with memory } slot self').procAt n = some new := by
    rw [hmap, Function.update_of_ne hne, hnew]
  refine ⟨by rw [setPcb_procAt hnew', hmap], ?_⟩
  have hmemory : Slotted { k with memory } := hslotted.of_eq rfl rfl
  have hslotted' : (SharedResources.setPcb { k with memory } slot self').Slotted :=
    hmemory.setPcb (procAt_iff.mp hself) hpid
  exact hslotted'.setPcb (procAt_iff.mp hnew') hpid'

/-- **Executing.**  The new process is gone again; the old one has another page
table, and other registers when no trap context was given. -/
theorem exec_procAt {vm : Tunnel} {path : List Byte} {brk0 : Word} {done : Bool}
    {ctx ctx' : Option RegisterContext}
    (h : k.exec vm slot path brk0 ctx = .ok (done, ctx', k')) (hsane : k.Sane)
    (hslotted : k.Slotted) :
    ∃ self, k.procAt slot = some self ∧
      ((done = false ∧ ctx' = ctx ∧ k'.procAt = k.procAt) ∨
        (done = true ∧ ∃ pageTable regCtx, k'.procAt = Function.update k.procAt slot (some
          { self with addrSpace := { self.addrSpace with pageTable }, regCtx }))) := by
  rw [exec] at h
  obtain ⟨self, hself, h⟩ := Except.bind_ok_iff.mp h
  obtain ⟨_, -, h⟩ := Except.bind_ok_iff.mp h
  obtain ⟨⟨newPID, k1⟩, hcreate, h⟩ := Except.bind_ok_iff.mp h
  have hself' := pcb_ok_iff.mp hself
  refine ⟨self, hself', ?_⟩
  simp only at h
  rcases createProcess_spec hcreate hsane hslotted with ⟨rfl, hundone⟩ | ⟨new, n, rfl, hcreated, -⟩
  · rw [if_pos rfl] at h
    obtain ⟨rfl, hrest⟩ := Prod.mk.inj (Except.ok.inj h)
    obtain ⟨rfl, rfl⟩ := Prod.mk.inj hrest
    exact .inl ⟨rfl, rfl, procAt_of_eq hundone.processes⟩
  · rcases createProcess_procAt hcreate hslotted with ⟨hnone, -⟩ | ⟨new', hfresh, hempty, hmap⟩
    · exact absurd hnone hcreated.pid_ne
    rw [if_neg hcreated.pid_ne] at h
    split at h
    · cases h
    · rename_i newSlot hguard
      obtain ⟨rfl, -⟩ := guard_eq_some.mp hguard
      obtain ⟨k2, hborrow, h⟩ := Except.bind_ok_iff.mp h
      obtain ⟨new2, hnew2, h⟩ := Except.bind_ok_iff.mp h
      obtain ⟨memory, -, h⟩ := Except.bind_ok_iff.mp h
      obtain ⟨k5, hmark, h⟩ := Except.bind_ok_iff.mp h
      obtain ⟨k6, hreset, h⟩ := Except.bind_ok_iff.mp h
      obtain ⟨rfl, hrest⟩ := Prod.mk.inj (Except.ok.inj h)
      obtain ⟨-, rfl⟩ := Prod.mk.inj hrest
      -- the slot of the new process is another one
      have hne : new.PID.toNat ≠ slot := by
        intro heq
        rw [heq, hself'] at hempty
        cases hempty
      obtain ⟨new1, hnew1, hmap2⟩ := borrow_procAt hborrow
      rw [hmap, Function.update_self] at hnew1
      obtain rfl := Option.some.inj hnew1
      rw [hmap, Function.update_idem] at hmap2
      have hnew2' := pcb_ok_iff.mp hnew2
      rw [hmap2, Function.update_self] at hnew2'
      obtain rfl := Option.some.inj hnew2'
      have hself2 : k2.procAt slot = some self := by
        rw [hmap2, Function.update_of_ne hne.symm, hself']
      have hslotted2 := borrow_slotted hborrow hcreated.slotted
      obtain ⟨hmap4, hslotted4⟩ := exchange_procAt memory hself2 (pcb_ok_iff.mp hnew2) hne
        { self with addrSpace := { self.addrSpace with pageTable := new'.addrSpace.pageTable }
                    regCtx := if ctx.isSome then self.regCtx else new'.regCtx }
        { new' with refcount := new'.refcount + 1
                    addrSpace := { new'.addrSpace with pageTable := none } }
        hslotted2 rfl rfl
      obtain ⟨new5, hnew5, hmap5⟩ := markForDeath_procAt hmark
      rw [hmap4, Function.update_self] at hnew5
      obtain rfl := Option.some.inj hnew5
      obtain ⟨new6, hnew6, hmap6⟩ := reset_procAt hreset (markForDeath_slotted hmark hslotted4)
      rw [hmap5, Function.update_self] at hnew6
      obtain rfl := Option.some.inj hnew6
      refine .inr ⟨rfl, new'.addrSpace.pageTable,
        if ctx.isSome then self.regCtx else new'.regCtx, ?_⟩
      have hgone : afterReset
          { new' with refcount := new'.refcount + 1
                      state := .ZOMBIE
                      addrSpace := { new'.addrSpace with pageTable := none } } = none := by
        have hzero : new'.refcount + 1 - 1 = 0 := by rw [hfresh.refcount]; rfl
        rw [afterReset, if_pos ⟨rfl, hzero⟩]
      rw [hmap6, hgone, hmap5, hmap4, hmap2]
      funext j
      by_cases hj : j = new.PID.toNat
      · rw [hj, Function.update_self, Function.update_of_ne hne, hempty]
      · rw [Function.update_of_ne hj, Function.update_of_ne hj, Function.update_of_ne hj]
        by_cases hjs : j = slot
        · rw [hjs, Function.update_self, Function.update_self]
        · rw [Function.update_of_ne hjs, Function.update_of_ne hjs, Function.update_of_ne hj]

/-- A process without a page table that only one guard holds can be marked for
death and released. -/
theorem released_ok (hp : k.processes[slot]? = some (some p)) (hslot : p.PID.toNat = slot)
    (hpid : p.PID ≠ KERNEL_PID) (hcount : p.refcount = 1) (htable : p.addrSpace.pageTable = none)
    (hasid : p.asidNumber < numASIDs) :
    ∃ k1 k2, k.markForDeath slot = .ok k1 ∧ k1.reset slot = .ok k2 := by
  have hdead := setPcb_self hp { p with state := .ZOMBIE }
  have hgone := setPcb_self hdead { p with state := .ZOMBIE, refcount := 0 }
  have hnoframes : ∀ f ∈ PCB.frames { p with state := .ZOMBIE, refcount := 0 }, f < numPages := by
    rw [PCB.frames, htable]
    intro f hf
    cases hf
  rw [markForDeath_eq hp hpid]
  obtain ⟨k2, hk2⟩ := freeProcess_ok (p := { p with state := .ZOMBIE, refcount := 0 })
    (procAt_iff.mpr (hslot ▸ hgone)) rfl rfl (.inl htable) hnoframes hasid
  refine ⟨_, k2, rfl, ?_⟩
  rw [reset_last hdead hpid rfl hcount]
  exact hslot ▸ hk2

/-- `exec` fails no assertion of its own: it returns when creating the new
process does. -/
theorem exec_ok {vm : Tunnel} {path : List Byte} {brk0 pid : Word} {k1 : SharedResources}
    {ctx : Option RegisterContext} (hself : k.procAt slot = some p)
    (hcreate : k.createProcess vm path brk0 = .ok (pid, k1)) (hsane : k.Sane)
    (hslotted : k.Slotted) : ∃ r, k.exec vm slot path brk0 ctx = .ok r := by
  have hself' := procAt_iff.mp hself
  have hpid : (p.PID != KERNEL_PID) = true := bne_iff_ne.mpr (hslotted.pid_ne hself')
  rw [exec, pcb_eq hself', Except.ok_bind, hpid]
  simp only [kassert, if_true, Except.ok_bind, hcreate]
  rcases createProcess_spec hcreate hsane hslotted with ⟨rfl, -⟩ | ⟨new, n, rfl, hcreated, -⟩
  · rw [if_pos rfl]
    exact ⟨_, rfl⟩
  · obtain rfl := hcreated.pid
    have hhere := hcreated.here
    have hne := (hcreated.others hself').1
    obtain ⟨t, ht, -⟩ := hsane.tables p (mem_live hself')
    have hpages : ∀ kv ∈ t.entries, kv.2.pfn.toNat < numPages := by
      intro kv hkv
      apply hsane.frames_lt (mem_live hself')
      rw [PCB.frames_hash ht]
      exact List.mem_map_of_mem (f := fun kv => kv.2.pfn.toNat) hkv
    obtain ⟨m, hm, -⟩ := HashPageTable.freeFrames_spec (m := k1.memory) hpages
    have hhere2 := setPcb_self hhere { new with refcount := new.refcount + 1 }
    rw [if_neg hcreated.pid_ne, guard_eq hhere]
    have hrelease : PageTable.release (some (.hash t)) k1.memory = .ok m := hm
    simp only [borrow_eq hhere, Except.ok_bind, ht, pcb_eq hhere2]
    show ∃ r, (PageTable.release (some (.hash t)) k1.memory >>= _) = Except.ok r
    rw [hrelease, Except.ok_bind]
    have hasid : new.asidNumber < numASIDs :=
      (hsane.change hcreated.change).asidBounds new (mem_live hhere)
    have hhere4 := fun self' => setPcb_self
      (k := SharedResources.setPcb { k1.setPcb new.PID.toNat
        { new with refcount := new.refcount + 1 } with memory := m } slot self')
      ((setPcb_ne hne.symm self').trans hhere2)
      { new with refcount := new.refcount + 1
                 addrSpace := { new.addrSpace with pageTable := none } }
    have hkernel := hcreated.slotted.pid_ne hhere
    have hcount : new.refcount + 1 = 1 := by
      rw [hcreated.refcount]
      rfl
    obtain ⟨k5, k6, hmark, hreset⟩ := released_ok (hhere4 _) rfl hkernel hcount rfl hasid
    show ∃ r, (SharedResources.markForDeath _ _ >>= _) = Except.ok r
    rw [hmark, Except.ok_bind]
    show ∃ r, (SharedResources.reset _ _ >>= _) = Except.ok r
    rw [hreset, Except.ok_bind]
    exact ⟨_, rfl⟩

/-- **Growing.** -/
theorem updateBrk_procAt {vaddr : Word} {valid : Bool}
    (h : k.updateBrk slot vaddr = .ok (valid, k')) :
    ∃ p addrSpace, k.procAt slot = some p ∧
      k'.procAt = Function.update k.procAt slot (some { p with addrSpace }) := by
  obtain ⟨p, hp, h⟩ := Except.bind_ok_iff.mp h
  obtain ⟨⟨valid', space, memory⟩, -, h⟩ := Except.bind_ok_iff.mp h
  obtain ⟨-, rfl⟩ := Prod.mk.inj (Except.ok.inj h)
  have hp' := pcb_ok_iff.mp hp
  exact ⟨p, space, hp', setPcb_procAt (k := { k with memory }) hp' _⟩

end SharedResources

end Kernel
