import BobbyOS.Kernel.Process
import BobbyOS.Kernel.PageLoops
import BobbyOS.Lib.Ledger
import BobbyOS.Lib.Slots

/-!
# What the process operations change

Frames and address space identifiers are resources; the page tables of the
live processes and of the kernel hold the frames, and the address spaces hold
the identifiers.  Each operation of the process manager replaces a few
processes and transfers resources, and `Change` records both.

`Sane` is the invariant of the resources: whatever is held is reserved, once,
and by nobody else.  `Slotted` is the invariant of the process table: a process
sits in the slot of its PID, and the empty slots are listed in `freePids`.
-/

namespace Kernel

open MemoryManager Ledger

/-! ### Holders -/

/-- The frames a page table names. -/
def PageTable.frames : PageTable → List Nat
  | kernel t => t.pt.map fun e => e.pfn.toNat
  | hash t => t.frames

/-- The frames of a process. -/
def PCB.frames (p : PCB) : List Nat := (p.addrSpace.pageTable.map PageTable.frames).getD []

/-- Its identifier, as a number. -/
def PCB.asidNumber (p : PCB) : Nat := p.addrSpace.asid.toNat

/-- Every page of a user process is present and none is global, and from the
static segment on all are writable. -/
def HashPageTable.Regular (t : HashPageTable) : Prop :=
  ∀ kv ∈ t.entries, kv.2.present = true ∧ kv.2.global = false ∧
    (STATIC_START_VPN ≤ kv.1 → kv.2.writable = true)

/-- The pages lie between the start of the text and the end of the stack. -/
def HashPageTable.Bounded (t : HashPageTable) : Prop :=
  ∀ vpn ∈ t.vpns, TEXT_START_VPN ≤ vpn ∧ vpn < STACK_LIMIT_VPN

/-- A page table of a live user process. -/
structure HashPageTable.Usable (t : HashPageTable) : Prop where
  wf : t.table.WF
  regular : t.Regular
  bounded : t.Bounded

/-- The process owns a page table of its own. -/
def PCB.HasTable (p : PCB) : Prop :=
  ∃ t, p.addrSpace.pageTable = some (.hash t) ∧ t.Usable

/-- They are those of its page table. -/
theorem PCB.frames_hash {p : PCB} {t : HashPageTable}
    (h : p.addrSpace.pageTable = some (.hash t)) : p.frames = t.frames := by
  rw [PCB.frames, h]
  rfl

namespace SharedResources

/-- The live user processes. -/
def live (k : SharedResources) : List PCB := k.processes.reduceOption

/-- All frames that some page table names. -/
def frames (k : SharedResources) : List Nat :=
  k.kernelProcess.frames ++ k.live.flatMap PCB.frames

/-- `reservedASIDs[i]`. -/
def ReservedASID (k : SharedResources) (i : Nat) : Prop := k.reservedASIDs.bit i = true

/-- The processes `old` become `new`, resources are transferred to match, and
the frames `leaked` get lost. -/
structure Change (k k' : SharedResources) (old new : List PCB) (leaked : List Nat) : Prop where
  live : ∃ rest, k.live.Perm (old ++ rest) ∧ k'.live.Perm (new ++ rest)
  kernel : k'.kernelProcess = k.kernelProcess
  boundary : k'.memory.kernelReservedBoundary = k.memory.kernelReservedBoundary
  frames : ∃ acquired released,
    Transfer k.memory.Reserved k'.memory.Reserved (old.flatMap PCB.frames)
      (new.flatMap PCB.frames) acquired released leaked ∧
    ∀ f ∈ acquired, k.memory.kernelReservedBoundary ≤ f ∧ f < numPages
  asids : ∃ acquired released,
    Transfer k.ReservedASID k'.ReservedASID (old.map PCB.asidNumber) (new.map PCB.asidNumber)
      acquired released [] ∧ ∀ a ∈ acquired, a < numASIDs
  tables : ∀ p ∈ new, p.HasTable

/-- **Resources.**  What is held is reserved, once, and within the limits. -/
structure Sane (k : SharedResources) : Prop where
  tables : ∀ p ∈ k.live, p.HasTable
  frames : Sound k.memory.Reserved k.frames
  frameBounds : ∀ f ∈ k.frames, k.memory.kernelReservedBoundary ≤ f ∧ f < numPages
  asids : Sound k.ReservedASID (k.live.map PCB.asidNumber)
  asidBounds : ∀ p ∈ k.live, p.asidNumber < numASIDs

/-- **Slots.**  A process is in the slot of its PID, empty slots are listed in
`freePids`, and there are no more slots than identifiers. -/
structure Slotted (k : SharedResources) : Prop where
  pids : ∀ {i : Nat} {p : PCB}, k.processes[i]? = some (some p) → p.PID.toNat = i
  empties : ∀ {i : Nat}, k.processes[i]? = some none → BitVec.ofNat 32 i ∈ k.freePids
  short : k.processes.length ≤ numASIDs

variable {k k' : SharedResources} {old new : List PCB} {leaked : List Nat}

/-- The frames of some processes, in another order. -/
theorem frames_perm {ps qs : List PCB} (h : ps.Perm qs) :
    (ps.flatMap PCB.frames).Perm (qs.flatMap PCB.frames) := h.flatMap_right _

/-- The frames besides those of `old`. -/
theorem frames_split {rest : List PCB} (h : k.live.Perm (old ++ rest)) :
    k.frames.Perm (old.flatMap PCB.frames ++
      (k.kernelProcess.frames ++ rest.flatMap PCB.frames)) := by
  have h1 := frames_perm h
  rw [List.flatMap_append] at h1
  exact (h1.append_left _).trans (List.perm_append_comm_assoc _ _ _)

/-- What the frames are after a change, with the lost ones. -/
theorem Sane.frames_change (h : k.Sane) (hc : Change k k' old new leaked) :
    Sound k'.memory.Reserved (leaked ++ k'.frames) ∧
    ∀ f ∈ k'.frames, k'.memory.kernelReservedBoundary ≤ f ∧ f < numPages := by
  obtain ⟨rest, hold, hnew⟩ := hc.live
  obtain ⟨acquired, released, ht, hbounds⟩ := hc.frames
  have hsound := (h.frames.perm (frames_split hold)).transfer_leaked ht
  have hperm := frames_split hnew
  rw [hc.kernel] at hperm
  refine ⟨hsound.perm (hperm.symm.append_left leaked), fun f hf => ?_⟩
  rw [hc.boundary]
  rcases List.mem_append.mp (hperm.mem_iff.mp hf) with hf' | hf'
  · have hin := (ht.balance.mem_iff (a := f)).mp (List.mem_append_left _ hf')
    rcases List.mem_append.mp hin with hacq | hold'
    · exact hbounds f hacq
    · exact h.frameBounds f ((frames_split hold).mem_iff.mpr (List.mem_append_left _ hold'))
  · exact h.frameBounds f ((frames_split hold).mem_iff.mpr (List.mem_append_right _ hf'))

/-- **Step.**  A change keeps the resources sound. -/
theorem Sane.change (h : k.Sane) (hc : Change k k' old new leaked) : k'.Sane := by
  obtain ⟨hsound, hbounds⟩ := h.frames_change hc
  obtain ⟨rest, hold, hnew⟩ := hc.live
  obtain ⟨acquired, released, ht, hacq⟩ := hc.asids
  have hasids := h.asids.perm (hold.map PCB.asidNumber)
  rw [List.map_append] at hasids
  have hasids' := hasids.transfer ht
  rw [← List.map_append] at hasids'
  have hasids'' := hasids'.perm (hnew.map PCB.asidNumber).symm
  refine ⟨fun p hp => ?_, hsound.right, hbounds, hasids'', fun p hp => ?_⟩
  · rcases List.mem_append.mp (hnew.mem_iff.mp hp) with hp' | hp'
    · exact hc.tables p hp'
    · exact h.tables p (hold.mem_iff.mpr (List.mem_append_right _ hp'))
  · rcases List.mem_append.mp (hnew.mem_iff.mp hp) with hp' | hp'
    · have hin := (ht.balance.mem_iff (a := p.asidNumber)).mp
        (List.mem_append_left _ (List.mem_map_of_mem hp'))
      rcases List.mem_append.mp hin with hin' | hin'
      · exact hacq _ hin'
      · obtain ⟨q, hq, heq⟩ := List.mem_map.mp hin'
        rw [← heq]
        exact h.asidBounds q (hold.mem_iff.mpr (List.mem_append_left _ hq))
    · exact h.asidBounds p (hold.mem_iff.mpr (List.mem_append_right _ hp'))

/-- **Leaks.**  When every reserved frame was named, every one still is exactly
when none got lost. -/
theorem Sane.complete_iff (h : k.Sane) (hc : Change k k' old new leaked)
    (hcomplete : Complete k.memory.Reserved k.frames) :
    Complete k'.memory.Reserved k'.frames ↔ leaked = [] := by
  obtain ⟨rest, hold, hnew⟩ := hc.live
  obtain ⟨acquired, released, ht, -⟩ := hc.frames
  have hperm := frames_split hold
  have hperm' := frames_split hnew
  rw [hc.kernel] at hperm'
  rw [← (hcomplete.perm hperm).transfer_iff (h.frames.perm hperm) ht]
  exact ⟨fun hk => hk.perm hperm', fun hk => hk.perm hperm'.symm⟩

/-- Nothing but the processes' registers, states or counters differs. -/
theorem change_same {p q : PCB} {rest : List PCB} (hold : k.live.Perm (p :: rest))
    (hnew : k'.live.Perm (q :: rest)) (hspace : q.addrSpace = p.addrSpace) (ht : p.HasTable)
    (hkernel : k'.kernelProcess = k.kernelProcess) (hmemory : k'.memory = k.memory)
    (hasids : k'.reservedASIDs = k.reservedASIDs) : Change k k' [p] [q] [] := by
  have hframes : q.frames = p.frames := by rw [PCB.frames, PCB.frames, hspace]
  have hasid : q.asidNumber = p.asidNumber := by rw [PCB.asidNumber, PCB.asidNumber, hspace]
  have hres : ∀ a, k'.ReservedASID a ↔ k.ReservedASID a := fun a => by
    rw [ReservedASID, ReservedASID, hasids]
  refine ⟨⟨rest, hold, hnew⟩, hkernel, by rw [hmemory], ⟨[], [], ⟨List.nodup_nil, by simp, ?_, ?_⟩,
    by simp⟩, ⟨[], [], ⟨List.nodup_nil, by simp, ?_, ?_⟩, by simp⟩, ?_⟩
  · simp [hmemory]
  · simp [hframes]
  · simp [hres]
  · simp [hasid]
  · intro p' hp'
    obtain rfl := List.mem_singleton.mp hp'
    rw [PCB.HasTable, hspace]
    exact ht

/-! ### New page tables -/

/-- A table is regular if its entries are. -/
theorem regular_of_perm {t : HashPageTable} {pages : List (Word × PageTable.Entry)}
    (hp : t.entries.Perm pages)
    (h : ∀ kv ∈ pages, kv.2.present = true ∧ kv.2.global = false ∧
      (STATIC_START_VPN ≤ kv.1 → kv.2.writable = true)) : t.Regular :=
  fun kv hkv => h kv (hp.mem_iff.mp hkv)

/-- The first pages of a process are. -/
theorem initialPages_regular {text static stack : List Nat} (hlen : text.length ≤ numPages) :
    ∀ kv ∈ HashPageTable.initialPages text static stack, kv.2.present = true ∧
      kv.2.global = false ∧ (STATIC_START_VPN ≤ kv.1 → kv.2.writable = true) := by
  intro kv hkv
  have hdata : ∀ {vpn : Nat → Word} {i : Nat} {fs : List Nat},
      kv ∈ HashPageTable.pagesAt vpn HashPageTable.dataEntry i fs → kv.2.present = true ∧
        kv.2.global = false ∧ (STATIC_START_VPN ≤ kv.1 → kv.2.writable = true) := by
    intro vpn i fs h
    obtain ⟨_, _, _, _, f, _, heq⟩ := HashPageTable.vpn_of_mem_pagesAt h
    rw [heq]
    exact ⟨rfl, rfl, fun _ => rfl⟩
  rcases List.mem_append.mp hkv with hstack | hkv
  · exact hdata hstack
  · rcases List.mem_append.mp hkv with hstatic | htext
    · exact hdata hstatic
    · obtain ⟨j, _, hj, hkey, f, _, heq⟩ := HashPageTable.vpn_of_mem_pagesAt htext
      rw [heq]
      refine ⟨rfl, rfl, fun hle => ?_⟩
      unfold numPages at hlen
      rw [hkey, BitVec.le_def, HashPageTable.textVpn_toNat (by omega)] at hle
      have hstart : STATIC_START_VPN.toNat = 0x10000 := rfl
      omega

/-- A page that is in the range of a process. -/
theorem bounded_of_toNat {vpn : Word} (h : 0x400 ≤ vpn.toNat ∧ vpn.toNat < 0x80000) :
    TEXT_START_VPN ≤ vpn ∧ vpn < STACK_LIMIT_VPN := by
  rw [BitVec.le_def, BitVec.lt_def]
  exact h

/-- So are the pages of a new process. -/
theorem initialPages_bounded {text static stack : List Nat}
    (hlen : (text ++ (static ++ stack)).length ≤ numPages) :
    ∀ kv ∈ HashPageTable.initialPages text static stack,
      TEXT_START_VPN ≤ kv.1 ∧ kv.1 < STACK_LIMIT_VPN := by
  intro kv hkv
  rw [List.length_append, List.length_append] at hlen
  unfold numPages at hlen
  apply bounded_of_toNat
  rcases List.mem_append.mp hkv with hstack | hkv
  · obtain ⟨j, _, hj, hkey, -⟩ := HashPageTable.vpn_of_mem_pagesAt hstack
    rw [hkey, HashPageTable.stackVpn_toNat (by omega)]
    omega
  rcases List.mem_append.mp hkv with hstatic | htext
  · obtain ⟨j, _, hj, hkey, -⟩ := HashPageTable.vpn_of_mem_pagesAt hstatic
    rw [hkey, HashPageTable.staticVpn_toNat (by omega)]
    omega
  · obtain ⟨j, _, hj, hkey, -⟩ := HashPageTable.vpn_of_mem_pagesAt htext
    rw [hkey, HashPageTable.textVpn_toNat (by omega)]
    omega

/-- A table is bounded if its entries are. -/
theorem bounded_of_perm {t : HashPageTable} {pages : List (Word × PageTable.Entry)}
    (hp : t.entries.Perm pages)
    (h : ∀ kv ∈ pages, TEXT_START_VPN ≤ kv.1 ∧ kv.1 < STACK_LIMIT_VPN) : t.Bounded := by
  intro vpn hvpn
  obtain ⟨kv, hkv, rfl⟩ := List.mem_map.mp hvpn
  exact h kv (hp.mem_iff.mp hkv)

/-- The frames of the pages of a new process. -/
theorem initialPages_frames {text static stack : List Nat}
    (h : ∀ f ∈ text ++ (static ++ stack), f < numPages) :
    ((HashPageTable.initialPages text static stack).map fun kv => kv.2.pfn.toNat).Perm
      (text ++ (static ++ stack)) := by
  rw [HashPageTable.initialPages, List.map_append, List.map_append,
    HashPageTable.frames_pagesAt (fun _ => rfl) fun f hf => h f (by simp [hf]),
    HashPageTable.frames_pagesAt (fun _ => rfl) fun f hf => h f (by simp [hf]),
    HashPageTable.frames_pagesAt (fun _ => rfl) fun f hf => h f (by simp [hf])]
  exact (List.perm_append_comm.append_left stack).trans
    ((List.perm_append_comm_assoc _ _ _).trans (List.perm_append_comm.append_left text))

/-- A process whose frames and identifier are new. -/
structure Made (k : SharedResources) (p : PCB) (k' : SharedResources) (fs : List Nat) : Prop where
  table : ∃ t, p.addrSpace.pageTable = some (.hash t) ∧ t.Usable
  frames : p.frames.Perm fs
  hands : Hands k.memory fs k'.memory
  asid : GivesASID k.reservedASIDs p.addrSpace.asid k'.reservedASIDs
  pid : p.PID = k.nextPID
  refcount : p.refcount = 0
  kernel : k'.kernelProcess = k.kernelProcess
  processes : k'.processes = k.processes
  freePids : k'.freePids = k.freePids

/-- Frames that were handed out have been acquired. -/
theorem Made.frameTransfer {p : PCB} {fs : List Nat} (h : Made k p k' fs) :
    Transfer k.memory.Reserved k'.memory.Reserved [] p.frames fs [] [] ∧
      ∀ f ∈ fs, k.memory.kernelReservedBoundary ≤ f ∧ f < numPages := by
  refine ⟨⟨h.hands.nodup, fun f hf => (h.hands.fresh hf).1, fun f => ?_, ?_⟩,
    fun f hf => (h.hands.fresh hf).2⟩
  · simpa using h.hands.reserved f
  · simpa using h.frames

/-- A made process has reserved its identifier. -/
theorem Made.asidTransfer {p : PCB} {fs : List Nat} (h : Made k p k' fs) :
    Transfer k.ReservedASID k'.ReservedASID [] [p.asidNumber] [p.asidNumber] [] [] := by
  refine ⟨List.nodup_singleton _, fun a ha => ?_, fun a => ?_, by simp⟩
  · rw [List.mem_singleton.mp ha, ReservedASID, PCB.asidNumber, h.asid.free]
    decide
  · simpa [ReservedASID, PCB.asidNumber] using h.asid.reserved a

/-- **A new process** has pages for text, data and stack in frames of its own, and a new
identifier. -/
theorem newProcess_spec {info : ExecutableInfo} {brk0 : Word} {p : PCB}
    (h : k.newProcess info brk0 = .ok (p, k')) :
    ∃ text static stack, Made k p k' (text ++ (static ++ stack)) ∧
      (∀ t, p.addrSpace.pageTable = some (.hash t) →
        t.entries.Perm (HashPageTable.initialPages text static stack)) ∧
      p.addrSpace.brk = brk0 ∧ k'.physMem = k.physMem := by
  rw [newProcess] at h
  obtain ⟨_, -, h⟩ := Except.bind_ok_iff.mp h
  obtain ⟨⟨table, memory⟩, htable, h⟩ := Except.bind_ok_iff.mp h
  obtain ⟨⟨addrSpace, asids⟩, hspace, h⟩ := Except.bind_ok_iff.mp h
  obtain ⟨rfl, rfl⟩ := Prod.mk.inj (Except.ok.inj h)
  obtain ⟨text, static, stack, -, -, -, hhands, hwf, hperm⟩ :=
    HashPageTable.construct_spec htable (by decide)
  obtain ⟨hasid, hpt, hbrk⟩ := AddressSpace.construct_spec hspace
  have hfs : ∀ f ∈ text ++ (static ++ stack), f < numPages := fun f hf => (hhands.fresh hf).2.2
  have hlen : text.length ≤ numPages := by
    have := hhands.length_le
    rw [List.length_append] at this
    omega
  refine ⟨text, static, stack, ⟨⟨table, hpt, hwf,
    regular_of_perm hperm (initialPages_regular hlen),
    bounded_of_perm hperm (initialPages_bounded hhands.length_le)⟩, ?_, hhands, hasid, rfl, rfl,
    rfl, rfl, rfl⟩,
    fun t ht => ?_, hbrk, rfl⟩
  · show ((addrSpace.pageTable.map PageTable.frames).getD []).Perm _
    rw [hpt]
    exact (hperm.map _).trans (initialPages_frames hfs)
  · rw [hpt] at ht
    cases ht
    exact hperm

/-! ### The end of a process -/

/-- **Destruction.**  Exactly the frames and the identifier are given back. -/
theorem destroy_spec {p : PCB}
    (htable : p.addrSpace.pageTable = none ∨ ∃ t, p.addrSpace.pageTable = some (.hash t))
    (hframes : ∀ f ∈ p.frames, f < numPages) (hasid : p.asidNumber < numASIDs) :
    ∃ memory reservedASIDs, k.destroy p = .ok { k with memory, reservedASIDs } ∧
      (∀ j, memory.Reserved j ↔ k.memory.Reserved j ∧ j ∉ p.frames) ∧
      memory.kernelReservedBoundary = k.memory.kernelReservedBoundary ∧
      ∀ j, reservedASIDs.bit j = true ↔ k.ReservedASID j ∧ j ≠ p.asidNumber := by
  obtain ⟨asids, hset, hbits⟩ := k.reservedASIDs.set_spec (by decide) hasid false
  have hbits' : ∀ j, asids.bit j = true ↔ k.ReservedASID j ∧ j ≠ p.asidNumber := by
    intro j
    rw [hbits, ReservedASID]
    by_cases hj : j = p.asidNumber <;> simp [hj]
  rcases htable with hnone | ⟨t, ht⟩
  · have hempty : p.frames = [] := by rw [PCB.frames, hnone]; rfl
    refine ⟨k.memory, asids, ?_, fun j => by simp [hempty], rfl, hbits'⟩
    rw [SharedResources.destroy, AddressSpace.destroy, hnone]
    simp only [PCB.asidNumber] at hset
    rw [hset]
    rfl
  · rw [PCB.frames_hash ht] at hframes ⊢
    have hpages : ∀ kv ∈ t.entries, kv.2.pfn.toNat < numPages := fun kv hkv =>
      hframes _ (List.mem_map_of_mem (f := fun kv => kv.2.pfn.toNat) hkv)
    obtain ⟨memory, hfree, hres, hbound⟩ := HashPageTable.freeFrames_spec (m := k.memory) hpages
    refine ⟨memory, asids, ?_, hres, hbound, hbits'⟩
    rw [SharedResources.destroy, AddressSpace.destroy, ht]
    simp only [PCB.asidNumber] at hset
    rw [hset]
    simp only [Except.ok_bind, PageTable.release, PageTable.destroy, HashPageTable.destroy]
    rw [HashPageTable.entries] at hfree
    rw [hfree]
    rfl

/-! ### The process table -/

/-- A control block that is found is in its slot. -/
theorem pcb_spec {slot : Nat} {p : PCB} (h : k.pcb slot = .ok p) :
    k.processes[slot]? = some (some p) := by
  rw [pcb] at h
  split at h
  case h_1 q hq => rw [hq, Except.ok.inj h]
  case h_2 => cases h

/-- What is in the slot is found. -/
theorem pcb_eq {slot : Nat} {p : PCB} (h : k.processes[slot]? = some (some p)) :
    k.pcb slot = .ok p := by
  rw [pcb, h]

/-- Changing a process in its slot. -/
theorem live_setPcb {slot : Nat} {p : PCB} (h : k.processes[slot]? = some (some p)) (q : PCB) :
    k.live.Perm (p :: Slots.others k.processes slot) ∧
      (k.setPcb slot q).live.Perm (q :: Slots.others k.processes slot) :=
  ⟨Slots.perm_of_some h, Slots.set_some_perm (Slots.lt_of_getElem? h) q⟩

/-- A changed process keeps its slot. -/
theorem Slotted.setPcb (h : k.Slotted) {slot : Nat} {p q : PCB}
    (hp : k.processes[slot]? = some (some p)) (hq : q.PID = p.PID) : (k.setPcb slot q).Slotted := by
  refine ⟨fun {i r} hr => ?_, fun {i} hi => ?_, ?_⟩
  · rcases Slots.of_getElem?_set hr with ⟨rfl, hr'⟩ | ⟨_, hr'⟩
    · obtain rfl := Option.some.inj hr'
      rw [hq]
      exact h.pids hp
    · exact h.pids hr'
  · rcases Slots.of_getElem?_set hi with ⟨_, hi'⟩ | ⟨_, hi'⟩
    · cases hi'
    · exact h.empties hi'
  · rw [SharedResources.setPcb, List.length_set]
    exact h.short

/-- Only the process table and the free PIDs matter. -/
theorem Slotted.of_eq (h : k.Slotted) (hprocesses : k'.processes = k.processes)
    (hfree : k'.freePids = k.freePids) : k'.Slotted := by
  refine ⟨fun {i q} hq => ?_, fun {i} hi => ?_, ?_⟩
  · rw [hprocesses] at hq
    exact h.pids hq
  · rw [hprocesses] at hi
    rw [hfree]
    exact h.empties hi
  · rw [hprocesses]
    exact h.short

/-- Every slot is in use when there are no free PIDs. -/
theorem live_length_of_full (h : k.Slotted) (hfull : k.freePids = []) :
    k.live.length = k.processes.length := by
  have hall : ∀ x ∈ k.processes, x.isSome = true := by
    intro x hx
    obtain ⟨i, hi⟩ := List.mem_iff_getElem?.mp hx
    cases x with
    | none =>
        have := h.empties hi
        rw [hfull] at this
        cases this
    | some p => rfl
  exact List.reduceOption_length_eq_iff.mpr hall

/-- There are no more processes than identifiers. -/
theorem asidNumbers_length_le (h : k.Sane) : k.live.length ≤ numASIDs := by
  have hsub : k.live.map PCB.asidNumber ⊆ List.range numASIDs := by
    intro a ha
    obtain ⟨p, hp, rfl⟩ := List.mem_map.mp ha
    exact List.mem_range.mpr (h.asidBounds p hp)
  have hle := (h.asids.nodup.subperm hsub).length_le
  rwa [List.length_map, List.length_range] at hle

/-- **Installing.**  The process gets an empty slot, or a new one. -/
theorem install_spec {p : PCB} {pid : Word} (h : k.install p = .ok (pid, k'))
    (hpid : p.PID = k.nextPID) (hslotted : k.Slotted) :
    ∃ slot, pid = p.PID ∧ k'.live.Perm (p :: k.live) ∧ k'.memory = k.memory ∧
      k'.reservedASIDs = k.reservedASIDs ∧ k'.kernelProcess = k.kernelProcess ∧
      k'.physMem = k.physMem ∧ k'.processes[slot]? = some (some p) ∧ pid.toNat = slot ∧
      (∀ j q, k.processes[j]? = some (some q) → j ≠ slot ∧ k'.processes[j]? = some (some q)) ∧
      (k'.live.length ≤ numASIDs → k'.Slotted) := by
  rw [install] at h
  cases hlast : k.freePids.getLast? with
  | none =>
      rw [hlast] at h
      obtain ⟨rfl, rfl⟩ := Prod.mk.inj (Except.ok.inj h)
      have hfull : k.freePids = [] := List.getLast?_eq_none_iff.mp hlast
      have hslot : p.PID.toNat = k.processes.length := by
        have hshort := hslotted.short
        unfold numASIDs at hshort
        rw [hpid, nextPID, hlast, Option.getD_none, BitVec.toNat_ofNat]
        omega
      have hnew : (k.processes ++ [some p])[k.processes.length]? = some (some p) := by simp
      refine ⟨k.processes.length, rfl, ?_, rfl, rfl, rfl, rfl, hnew, hslot, ?_, fun hle => ?_⟩
      · rw [live, live, List.reduceOption_append]
        exact List.perm_append_singleton _ _
      · intro j q hj
        have hlt := Slots.lt_of_getElem? hj
        exact ⟨by omega, by rw [← hj]; exact List.getElem?_append_left hlt⟩
      · have hget : ∀ {i : Nat} {x : Option PCB}, (k.processes ++ [some p])[i]? = some x →
            k.processes[i]? = some x ∨ i = k.processes.length ∧ x = some p := by
          intro i x hx
          rcases Nat.lt_or_ge i k.processes.length with hlt | hge
          · rw [List.getElem?_append_left hlt] at hx
            exact Or.inl hx
          · rw [List.getElem?_append_right hge] at hx
            have hi : i - k.processes.length = 0 := by
              have := Slots.lt_of_getElem? hx
              simpa using this
            rw [hi] at hx
            exact Or.inr ⟨by omega, by simpa using hx.symm⟩
        refine ⟨fun {i q} hq => ?_, fun {i} hi => ?_, ?_⟩
        · rcases hget hq with hq' | ⟨rfl, hq'⟩
          · exact hslotted.pids hq'
          · obtain rfl := Option.some.inj hq'
            exact hslot
        · rcases hget hi with hi' | ⟨_, hi'⟩
          · exact hslotted.empties hi'
          · cases hi'
        · have hlen := live_length_of_full hslotted hfull
          rw [live, List.reduceOption_append, List.length_append] at hle
          simp only [List.length_append, List.length_singleton]
          rw [live] at hlen
          simpa [hlen] using hle
  | some last =>
      rw [hlast] at h
      simp only at h
      split at h
      case h_1 => cases h
      case h_2 => cases h
      case h_3 hempty =>
        obtain ⟨rfl, rfl⟩ := Prod.mk.inj (Except.ok.inj h)
        have hlt := Slots.lt_of_getElem? hempty
        have hpid' : p.PID = last := by rw [hpid, nextPID, hlast, Option.getD_some]
        refine ⟨last.toNat, rfl, ?_, rfl, rfl, rfl, rfl, ?_, by rw [hpid'], ?_, fun _ => ?_⟩
        · rw [live, live, Slots.eq_of_none hempty]
          exact Slots.set_some_perm hlt p
        · rw [List.getElem?_set_self hlt]
        · intro j q hj
          have hne : j ≠ last.toNat := by
            rintro rfl
            rw [hempty] at hj
            cases hj
          exact ⟨hne, by rw [← hj]; exact List.getElem?_set_ne hne.symm⟩
        · refine ⟨fun {i q} hq => ?_, fun {i} hi => ?_, ?_⟩
          · rcases Slots.of_getElem?_set hq with ⟨rfl, hq'⟩ | ⟨_, hq'⟩
            · obtain rfl := Option.some.inj hq'
              rw [hpid']
            · exact hslotted.pids hq'
          · rcases Slots.of_getElem?_set hi with ⟨_, hi'⟩ | ⟨hne, hi'⟩
            · cases hi'
            · have hmem := hslotted.empties hi'
              obtain ⟨init, hinit⟩ := List.getLast?_eq_some_iff.mp hlast
              rw [hinit] at hmem ⊢
              rw [List.dropLast_concat]
              rcases List.mem_append.mp hmem with hmem' | hmem'
              · exact hmem'
              · refine absurd ?_ hne
                rw [← List.mem_singleton.mp hmem', BitVec.toNat_ofNat]
                have hi_lt := Slots.lt_of_getElem? hi'
                have hshort := hslotted.short
                unfold numASIDs at hshort
                omega
          · rw [List.length_set]
            exact hslotted.short

/-! ### Creation -/

/-- A new process in a slot of its own. -/
structure Created (k : SharedResources) (p : PCB) (slot : Nat) (k' : SharedResources) : Prop where
  change : Change k k' [] [p] []
  slotted : k'.Slotted
  live : k'.live.Perm (p :: k.live)
  here : k'.processes[slot]? = some (some p)
  pid : p.PID.toNat = slot
  others : ∀ {j : Nat} {q : PCB}, k.processes[j]? = some (some q) →
    j ≠ slot ∧ k'.processes[j]? = some (some q)
  refcount : p.refcount = 0

/-- A made process that was installed. -/
theorem Made.created {p : PCB} {k1 : SharedResources} {fs : List Nat} {pid : Word}
    (hmade : Made k p k1 fs) (hinstall : k1.install p = .ok (pid, k')) (hsane : k.Sane)
    (hslotted : k.Slotted) :
    ∃ slot, Created k p slot k' ∧ pid = p.PID ∧ k'.physMem = k1.physMem := by
  have hslotted1 : k1.Slotted := hslotted.of_eq hmade.processes hmade.freePids
  have hpid : p.PID = k1.nextPID := by
    rw [hmade.pid, nextPID, nextPID, hmade.processes, hmade.freePids]
  obtain ⟨slot, rfl, hlive, hmemory, hasids, hkernel, hphys, hhere, hslot, hothers, hslotted'⟩ :=
    install_spec hinstall hpid hslotted1
  have hlive1 : k1.live = k.live := by rw [live, live, hmade.processes]
  rw [hlive1] at hlive
  obtain ⟨hframes, hbounds⟩ := hmade.frameTransfer
  have hchange : Change k k' [] [p] [] := by
    refine ⟨⟨k.live, List.Perm.refl _, hlive⟩, hkernel.trans hmade.kernel, ?_,
      ⟨fs, [], ?_, hbounds⟩, ⟨[p.asidNumber], [], ?_, ?_⟩, ?_⟩
    · rw [hmemory, hmade.hands.boundary]
    · rw [hmemory]
      simpa using hframes
    · have hres : k'.ReservedASID = k1.ReservedASID := by
        funext i
        rw [ReservedASID, ReservedASID, hasids]
      rw [hres]
      exact hmade.asidTransfer
    · intro a ha
      rw [List.mem_singleton.mp ha]
      exact hmade.asid.upper
    · intro q hq
      rw [List.mem_singleton.mp hq]
      exact hmade.table
  refine ⟨slot, ⟨hchange, hslotted' (asidNumbers_length_le (hsane.change hchange)), hlive, hhere,
    hslot, fun {j q} hq => hothers j q (by rw [hmade.processes]; exact hq), hmade.refcount⟩, rfl,
    hphys⟩

/-- The entry point of a made process is set. -/
theorem Made.entry {p : PCB} {k1 : SharedResources} {fs : List Nat} {epc : Word}
    {physMem : Hardware.Memory} {log : List VMRequest} (h : Made k p k1 fs) :
    Made k { p with regCtx := { p.regCtx with epc } } { k1 with physMem, log } fs :=
  ⟨h.table, h.frames, h.hands, h.asid, h.pid, h.refcount, h.kernel, h.processes, h.freePids⟩

/-- A change that leaves the processes alone and gives everything back. -/
structure Undone (k k' : SharedResources) : Prop where
  change : Change k k' [] [] []
  processes : k'.processes = k.processes
  freePids : k'.freePids = k.freePids

/-- An undone creation leaves the slots as they were. -/
theorem Undone.slotted (h : Undone k k') (hs : k.Slotted) : k'.Slotted :=
  hs.of_eq h.processes h.freePids

/-- Bit by bit, the frames and the identifiers are those from before. -/
theorem Undone.restored (h : Undone k k') :
    k'.memory = k.memory ∧ k'.reservedASIDs = k.reservedASIDs := by
  obtain ⟨acquired, released, hframes, -⟩ := h.change.frames
  obtain ⟨acquired', released', hasids, -⟩ := h.change.asids
  have hpages : k'.memory.reservedPages = k.memory.reservedPages :=
    Bitset.ext_bit fun i => Bool.eq_iff_iff.mpr (hframes.restored i)
  refine ⟨?_, Bitset.ext_bit fun i => Bool.eq_iff_iff.mpr (hasids.restored i)⟩
  calc k'.memory = ⟨k'.memory.reservedPages, k'.memory.kernelReservedBoundary⟩ := rfl
    _ = k.memory := by rw [hpages, h.change.boundary]

/-- Nothing but the memory contents and the requests differs. -/
theorem undone_rfl {physMem : Hardware.Memory} {log : List VMRequest} :
    Undone k { k with physMem, log } := by
  refine ⟨⟨⟨k.live, List.Perm.refl _, List.Perm.refl _⟩, rfl, rfl, ⟨[], [], ?_, by simp⟩,
    ⟨[], [], ?_, by simp⟩, by simp⟩, rfl, rfl⟩
  · exact ⟨List.nodup_nil, by simp, fun a => by simp, by simp⟩
  · exact ⟨List.nodup_nil, by simp, fun a => by simp [ReservedASID], by simp⟩

/-- A made process that is destroyed again. -/
theorem Made.destroyed {p : PCB} {k1 : SharedResources} {fs : List Nat}
    {physMem : Hardware.Memory} {log : List VMRequest} (hmade : Made k p k1 fs)
    (hdestroy : SharedResources.destroy { k1 with physMem } p = .ok k') :
    Undone k { k' with log } := by
  obtain ⟨hframes, hbounds⟩ := hmade.frameTransfer
  obtain ⟨t, ht, -⟩ := hmade.table
  obtain ⟨memory, asids, heq, hres, hbound, hbits⟩ :=
    destroy_spec (k := { k1 with physMem }) (Or.inr ⟨t, ht⟩)
      (fun f hf => (hbounds f (hmade.frames.mem_iff.mp hf)).2) hmade.asid.upper
  rw [heq] at hdestroy
  obtain rfl := Except.ok.inj hdestroy
  refine ⟨⟨⟨k.live, List.Perm.refl _, ?_⟩, hmade.kernel, ?_, ⟨fs, p.frames, ?_, hbounds⟩,
    ⟨[p.asidNumber], [p.asidNumber], ?_, ?_⟩, by simp⟩, hmade.processes, hmade.freePids⟩
  · rw [live, live]
    show (k1.processes).reduceOption.Perm _
    rw [hmade.processes]
    exact List.Perm.refl _
  · exact hbound.trans hmade.hands.boundary
  · refine ⟨hframes.nodup, hframes.fresh, fun f => ?_, by simpa using hmade.frames⟩
    rw [hres, hmade.hands.reserved]
  · have hasid := hmade.asidTransfer
    refine ⟨hasid.nodup, hasid.fresh, fun a => ?_, by simp⟩
    have := (hasid.taken a)
    simp only [List.not_mem_nil, not_false_eq_true, and_true] at this
    rw [List.mem_singleton, ReservedASID, hbits]
    show k1.ReservedASID a ∧ _ ↔ _
    rw [this, List.mem_singleton]
  · intro a ha
    rw [List.mem_singleton.mp ha]
    exact hmade.asid.upper

/-- **Creating.**  `createProcess` makes a process, or it leaves everything as it
was. -/
theorem createProcess_spec {vm : Tunnel} {path : List Byte} {brk0 pid : Word}
    (h : k.createProcess vm path brk0 = .ok (pid, k')) (hsane : k.Sane) (hslotted : k.Slotted) :
    (pid = NOPCBEXISTS ∧ Undone k k') ∨
    ∃ p slot, pid = p.PID ∧ Created k p slot k' ∧ p.addrSpace.brk = brk0 := by
  rcases createProcess_cases h with ⟨f, log, -, rfl, rfl⟩ |
    ⟨info, r, p, k1, physMem, f, log, -, hnew, h⟩
  · exact Or.inl ⟨rfl, undone_rfl⟩
  · obtain ⟨text, static, stack, hmade, -, hbrk, -⟩ := newProcess_spec hnew
    rcases h with ⟨-, rfl, k2, hdestroy, rfl⟩ | ⟨-, hinstall⟩
    · exact Or.inl ⟨rfl, hmade.destroyed hdestroy⟩
    · obtain ⟨slot, hcreated, rfl, -⟩ := hmade.entry.created hinstall hsane hslotted
      exact Or.inr ⟨_, slot, rfl, hcreated, hbrk⟩

/-- What is in a slot is live. -/
theorem mem_live {slot : Nat} {p : PCB} (h : k.processes[slot]? = some (some p)) : p ∈ k.live :=
  Slots.mem_reduceOption.mpr ⟨slot, h⟩

/-- **Forking.**  `forkProcess` copies a process, or there is none to copy. -/
theorem forkProcess_spec {pid newPID : Word} {ctx : Option RegisterContext} {brk0 : Word}
    (h : k.forkProcess pid ctx brk0 = .ok (newPID, k')) (hsane : k.Sane) (hslotted : k.Slotted) :
    (newPID = NOPCBEXISTS ∧ k' = k) ∨
    ∃ parent p slot, k.processes[pid.toNat]? = some (some parent) ∧ newPID = p.PID ∧
      Created k p slot k' ∧ p.addrSpace.brk = brk0 := by
  rw [forkProcess] at h
  split at h
  case h_2 =>
    obtain ⟨rfl, rfl⟩ := Prod.mk.inj (Except.ok.inj h)
    exact Or.inl ⟨rfl, rfl⟩
  case h_1 parent hparent =>
    obtain ⟨t, ht, husable⟩ := hsane.tables parent (mem_live hparent)
    simp only [ht, Option.bind_some, PageTable.getIterator] at h
    obtain ⟨⟨table, memory, physMem⟩, htable, h⟩ := Except.bind_ok_iff.mp h
    obtain ⟨⟨addrSpace, asids⟩, hspace, h⟩ := Except.bind_ok_iff.mp h
    obtain ⟨fs, hlen, hhands, hwf, hperm, -⟩ :=
      HashPageTable.constructCopy_spec htable husable.wf.distinct
    obtain ⟨hasid, hpt, hbrk⟩ := AddressSpace.construct_spec hspace
    have hregular : table.Regular := by
      intro kv hkv
      obtain ⟨i, hi⟩ := List.mem_iff_getElem?.mp (hperm.mem_iff.mp hkv)
      rw [List.getElem?_zipWith_eq_some] at hi
      obtain ⟨kv', f, hkv', -, rfl⟩ := hi
      exact husable.regular kv' (List.mem_of_getElem? hkv')
    have hbounded : table.Bounded := by
      refine bounded_of_perm hperm fun kv hkv => ?_
      obtain ⟨i, hi⟩ := List.mem_iff_getElem?.mp hkv
      rw [List.getElem?_zipWith_eq_some] at hi
      obtain ⟨kv', f, hkv', -, rfl⟩ := hi
      exact husable.bounded kv'.1 (List.mem_map_of_mem (List.mem_of_getElem? hkv'))
    have hmade : Made k { regCtx := ctx.getD {}, addrSpace, state := .READY, PID := k.nextPID }
        { k with memory, physMem, reservedASIDs := asids } fs := by
      refine ⟨⟨table, hpt, hwf, hregular, hbounded⟩, ?_, hhands, hasid, rfl, rfl, rfl, rfl, rfl⟩
      show ((addrSpace.pageTable.map PageTable.frames).getD []).Perm fs
      rw [hpt]
      have hframes := hperm.map fun kv => kv.2.pfn.toNat
      rw [HashPageTable.frames_copiedPages hlen fun f hf => (hhands.fresh hf).2.2] at hframes
      exact hframes
    obtain ⟨slot, hcreated, rfl, -⟩ := hmade.created h hsane hslotted
    exact Or.inr ⟨parent, _, slot, hparent, rfl, hcreated, hbrk⟩

/-! ### Death -/

/-- The process table without a process that was freed. -/
structure Removed (k : SharedResources) (slot : Nat) (k' : SharedResources) : Prop where
  live : k'.live.Perm (Slots.others k.processes slot)
  slotted : k.Slotted → k'.Slotted
  others : ∀ {j : Nat} {q : PCB}, k.processes[j]? = some (some q) → j ≠ slot →
    k'.processes[j]? = some (some q)

/-- The last slot is dropped with its process. -/
theorem removed_dropLast {slot : Nat} {p : PCB} {memory : MemoryManager}
    {asids : Bitset numASIDs} (hp : k.processes[slot]? = some (some p))
    (hlast : slot = k.processes.length - 1) :
    Removed k slot { k with processes := k.processes.dropLast, memory, reservedASIDs := asids } := by
  have hget : ∀ {i : Nat} {x : Option PCB}, k.processes.dropLast[i]? = some x →
      k.processes[i]? = some x := by
    intro i x hx
    rw [List.dropLast_eq_take, List.getElem?_take] at hx
    split at hx
    · exact hx
    · cases hx
  refine ⟨Slots.dropLast_perm hp hlast, fun h => ⟨fun {i q} hq => h.pids (hget hq),
    fun {i} hi => h.empties (hget hi), ?_⟩, fun {j q} hq hne => ?_⟩
  · rw [List.length_dropLast]
    have := h.short
    omega
  · have hlt := Slots.lt_of_getElem? hq
    show k.processes.dropLast[j]? = _
    rw [List.dropLast_eq_take, List.getElem?_take, if_pos (by omega), hq]

/-- Another slot is emptied. -/
theorem removed_set {slot : Nat} {p : PCB} {memory : MemoryManager} {asids : Bitset numASIDs}
    {pid : Word} (hp : k.processes[slot]? = some (some p)) (hpid : pid.toNat = slot) :
    Removed k slot { k with processes := k.processes.set slot none,
                            freePids := k.freePids ++ [pid], memory, reservedASIDs := asids } := by
  refine ⟨?_, fun h => ⟨fun {i q} hq => ?_, fun {i} hi => ?_, ?_⟩, fun {j q} hq hne => ?_⟩
  · rw [live, Slots.set_none (Slots.lt_of_getElem? hp)]
  · rcases Slots.of_getElem?_set hq with ⟨_, hq'⟩ | ⟨_, hq'⟩
    · cases hq'
    · exact h.pids hq'
  · rcases Slots.of_getElem?_set hi with ⟨rfl, _⟩ | ⟨_, hi'⟩
    · refine List.mem_append_right _ (List.mem_singleton.mpr ?_)
      rw [← hpid, BitVec.ofNat_toNat, BitVec.setWidth_eq]
    · exact List.mem_append_left _ (h.empties hi')
  · rw [List.length_set]
    exact h.short
  · rw [← hq]
    exact List.getElem?_set_ne hne.symm

/-- **Freeing.**  The process disappears with its frames and its identifier. -/
theorem freeProcess_spec {slot : Nat} {p : PCB} (h : k.freeProcess p.PID = .ok k')
    (hp : k.processes[slot]? = some (some p)) (hpid : p.PID.toNat = slot)
    (htable : p.addrSpace.pageTable = none ∨ ∃ t, p.addrSpace.pageTable = some (.hash t))
    (hframes : ∀ f ∈ p.frames, f < numPages) (hasid : p.asidNumber < numASIDs) :
    Removed k slot k' ∧ k'.kernelProcess = k.kernelProcess ∧
      (∀ j, k'.memory.Reserved j ↔ k.memory.Reserved j ∧ j ∉ p.frames) ∧
      k'.memory.kernelReservedBoundary = k.memory.kernelReservedBoundary ∧
      ∀ j, k'.ReservedASID j ↔ k.ReservedASID j ∧ j ≠ p.asidNumber := by
  rw [freeProcess, hpid, hp] at h
  obtain ⟨_, -, h⟩ := Except.bind_ok_iff.mp h
  split at h
  case isTrue hlast =>
    obtain ⟨memory, asids, heq, hres, hbound, hbits⟩ :=
      destroy_spec (k := { k with processes := k.processes.dropLast }) htable hframes hasid
    rw [heq] at h
    obtain rfl := Except.ok.inj h
    exact ⟨removed_dropLast hp hlast, rfl, hres, hbound, hbits⟩
  case isFalse =>
    obtain ⟨memory, asids, heq, hres, hbound, hbits⟩ :=
      destroy_spec (k := { k with processes := k.processes.set slot none,
                                  freePids := k.freePids ++ [p.PID] }) htable hframes hasid
    rw [heq] at h
    obtain rfl := Except.ok.inj h
    exact ⟨removed_set hp hpid, rfl, hres, hbound, hbits⟩

/-- A process that is gone. -/
theorem change_removed {slot : Nat} {p : PCB} (hp : k.processes[slot]? = some (some p))
    (hremoved : k'.live.Perm (Slots.others k.processes slot))
    (hkernel : k'.kernelProcess = k.kernelProcess)
    (hres : ∀ j, k'.memory.Reserved j ↔ k.memory.Reserved j ∧ j ∉ p.frames)
    (hbound : k'.memory.kernelReservedBoundary = k.memory.kernelReservedBoundary)
    (hbits : ∀ j, k'.ReservedASID j ↔ k.ReservedASID j ∧ j ≠ p.asidNumber) :
    Change k k' [p] [] [] := by
  refine ⟨⟨_, Slots.perm_of_some hp, hremoved⟩, hkernel, hbound,
    ⟨[], p.frames, ⟨List.nodup_nil, by simp, ?_, by simp⟩, by simp⟩,
    ⟨[], [p.asidNumber], ⟨List.nodup_nil, by simp, ?_, by simp⟩, by simp⟩, by simp⟩
  · simpa using hres
  · simpa using hbits

/-- Every frame of a process is in the memory. -/
theorem Sane.frames_lt (h : k.Sane) {p : PCB} (hp : p ∈ k.live) : ∀ f ∈ p.frames, f < numPages := by
  intro f hf
  refine (h.frameBounds f (List.mem_append_right _ ?_)).2
  exact List.mem_flatMap.mpr ⟨p, hp, hf⟩

/-- **Releasing.**  Resetting a guard frees a process that is marked for death
and has no other guard, and changes a counter otherwise. -/
theorem reset_spec {slot : Nat} (h : k.reset slot = .ok k') (hsane : k.Sane)
    (hslotted : k.Slotted) :
    ∃ p, k.processes[slot]? = some (some p) ∧
      ((∃ q, q.addrSpace = p.addrSpace ∧ q.PID = p.PID ∧ k' = k.setPcb slot q) ∨
        Change k k' [p] [] [] ∧ Removed k slot k') := by
  rw [SharedResources.reset] at h
  obtain ⟨p, hp, h⟩ := Except.bind_ok_iff.mp h
  have hp' := pcb_spec hp
  have hlive := mem_live hp'
  refine ⟨p, hp', ?_⟩
  split at h
  case isTrue =>
    obtain rfl := Except.ok.inj h
    exact Or.inl ⟨p, rfl, rfl, by rw [setPcb, Slots.set_self hp']⟩
  case isFalse =>
    simp only at h
    split at h
    case isFalse =>
      obtain rfl := Except.ok.inj h
      exact Or.inl ⟨{ p with refcount := p.refcount - 1 }, rfl, rfl, rfl⟩
    case isTrue =>
      have hlt := Slots.lt_of_getElem? hp'
      have hpid : p.PID.toNat = slot := hslotted.pids hp'
      have hbounds := hsane.frames_lt hlive
      have hasid := hsane.asidBounds p hlive
      obtain ⟨t, ht, -⟩ := hsane.tables p hlive
      have hset : (k.setPcb slot { p with refcount := p.refcount - 1 }).processes[slot]? =
          some (some { p with refcount := p.refcount - 1 }) := List.getElem?_set_self hlt
      obtain ⟨hremoved, hkernel, hres, hbound, hbits⟩ :=
        freeProcess_spec (p := { p with refcount := p.refcount - 1 }) h hset
          hpid (Or.inr ⟨t, ht⟩) hbounds hasid
      have hlive' : k'.live.Perm (Slots.others k.processes slot) := by
        rw [← Slots.others_set_self]
        exact hremoved.live
      refine Or.inr ⟨change_removed hp' hlive' hkernel hres hbound hbits,
        ⟨hlive', fun hs => hremoved.slotted (hs.setPcb hp' rfl), fun {j q} hq hne => ?_⟩⟩
      refine hremoved.others ?_ hne
      rw [← hq]
      exact List.getElem?_set_ne hne.symm

end SharedResources

end Kernel
