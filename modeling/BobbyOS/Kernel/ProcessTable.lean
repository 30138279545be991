import BobbyOS.Kernel.FrameOwnership
import BobbyOS.Lib.SlotTable

/-!
# The process table and the free PIDs

`processes` and `freePids` are a table with a stack of free slots.  Every
operation of the process manager is a path of steps of that table: a creator
takes the PID on top of the stack or a new slot, `freeProcess` drops the last
slot or leaves its number, and `exec` does one after the other.  So the stack
lists exactly the empty slots, whatever the order.

* `step_table`: each operation refines the table;
* `free_pids_exact`: what holds after any run.
-/

namespace Kernel

open SlotTable Run

namespace SharedResources

/-- The process table as a table with free slots. -/
def table (k : SharedResources) : Table PCB := ⟨k.processes, k.freePids.map BitVec.toNat⟩

variable {k k' k0 : SharedResources}

/-! ### The operations as steps of the table -/

/-- A changed process is in the same slot. -/
theorem setPcb_table {slot : Nat} {p : PCB} (hp : k.processes[slot]? = some (some p)) (q : PCB) :
    Steps k.table (k.setPcb slot q).table :=
  .of_step (.update slot p q hp)

/-- A new process takes a slot. -/
theorem install_table {p : PCB} {pid : Word} (h : k.install p = .ok (pid, k')) :
    Steps k.table k'.table := by
  rw [install] at h
  cases hlast : k.freePids.getLast? with
  | none =>
      rw [hlast] at h
      obtain ⟨-, rfl⟩ := Prod.mk.inj (Except.ok.inj h)
      have hnone : k.freePids = [] := List.getLast?_eq_none_iff.mp hlast
      rw [table, table, hnone]
      exact .of_step (.append p)
  | some last =>
      rw [hlast] at h
      simp only at h
      split at h
      case h_1 => cases h
      case h_2 => cases h
      case h_3 hempty =>
        obtain ⟨-, rfl⟩ := Prod.mk.inj (Except.ok.inj h)
        obtain ⟨init, hinit⟩ := List.getLast?_eq_some_iff.mp hlast
        rw [table, table, hinit, List.dropLast_concat, List.map_append]
        exact .of_step (.fill last.toNat p hempty)

/-- Destroying a process object does not touch the table. -/
theorem destroy_table {p : PCB} (h : k.destroy p = .ok k') : k'.table = k.table := by
  rw [destroy] at h
  obtain ⟨x, -, h⟩ := Except.bind_ok_iff.mp h
  obtain rfl := Except.ok.inj h
  rfl

/-- A freed process leaves its slot. -/
theorem freeProcess_table {pid : Word} (h : k.freeProcess pid = .ok k') :
    Steps k.table k'.table := by
  rw [freeProcess] at h
  split at h
  case h_1 => cases h
  case h_2 => cases h
  case h_3 p hp =>
    obtain ⟨-, -, h⟩ := Except.bind_ok_iff.mp h
    split at h
    case isTrue hlast =>
      rw [destroy_table h]
      exact .of_step (.drop pid.toNat p hp hlast)
    case isFalse =>
      rw [destroy_table h]
      simp only [table, List.map_append, List.map_singleton]
      exact .of_step (.empty pid.toNat p hp)

/-- A borrow leaves the slots. -/
theorem borrow_table {slot : Nat} (h : k.borrow slot = .ok k') : Steps k.table k'.table := by
  obtain ⟨p, hp, h⟩ := Except.bind_ok_iff.mp h
  obtain rfl := Except.ok.inj h
  exact setPcb_table (pcb_spec hp) _

/-- So does a mark. -/
theorem markForDeath_table {slot : Nat} (h : k.markForDeath slot = .ok k') :
    Steps k.table k'.table := by
  obtain ⟨p, hp, h⟩ := Except.bind_ok_iff.mp h
  obtain ⟨-, -, h⟩ := Except.bind_ok_iff.mp h
  obtain rfl := Except.ok.inj h
  exact setPcb_table (pcb_spec hp) _

/-- A guard that is given back empties its slot or leaves it. -/
theorem reset_table {slot : Nat} (h : k.reset slot = .ok k') : Steps k.table k'.table := by
  obtain ⟨p, hp, h⟩ := Except.bind_ok_iff.mp h
  split at h
  · obtain rfl := Except.ok.inj h
    exact .refl _
  · simp only at h
    split at h
    · exact (setPcb_table (pcb_spec hp) _).trans (freeProcess_table h)
    · obtain rfl := Except.ok.inj h
      exact setPcb_table (pcb_spec hp) _

/-- A process that is made has no slot yet. -/
theorem newProcess_table {info : ExecutableInfo} {brk0 : Word} {p : PCB}
    (h : k.newProcess info brk0 = .ok (p, k')) : k'.table = k.table := by
  rw [newProcess] at h
  obtain ⟨-, -, h⟩ := Except.bind_ok_iff.mp h
  obtain ⟨⟨pages, memory⟩, -, h⟩ := Except.bind_ok_iff.mp h
  obtain ⟨⟨space, asids⟩, -, h⟩ := Except.bind_ok_iff.mp h
  obtain ⟨-, rfl⟩ := Prod.mk.inj (Except.ok.inj h)
  rfl

/-- A creation takes a slot, or takes and empties it. -/
theorem createProcess_table {vm : Tunnel} {path : List Byte} {brk0 pid : Word}
    (h : k.createProcess vm path brk0 = .ok (pid, k')) : Steps k.table k'.table := by
  rcases createProcess_cases h with ⟨f, log, -, -, rfl⟩ |
    ⟨info, r, p, k1, physMem, f, log, -, hnew, h⟩
  · exact .refl _
  · have hsame := newProcess_table hnew
    rcases h with ⟨-, -, k2, hdestroy, rfl⟩ | ⟨-, hinstall⟩
    · have hgone : k2.table = k.table := (destroy_table hdestroy).trans hsame
      show Steps k.table k2.table
      rw [hgone]
      exact .refl _
    · have hinstall' := install_table hinstall
      rw [← hsame]
      exact hinstall'

/-- A fork does, too. -/
theorem forkProcess_table {pid newPID : Word} {ctx : Option RegisterContext} {brk0 : Word}
    (h : k.forkProcess pid ctx brk0 = .ok (newPID, k')) : Steps k.table k'.table := by
  rw [forkProcess] at h
  split at h
  case h_2 =>
    obtain ⟨-, rfl⟩ := Prod.mk.inj (Except.ok.inj h)
    exact .refl _
  case h_1 parent hparent =>
    split at h
    case h_1 => cases h
    case h_2 pages hpages =>
      obtain ⟨⟨pages, memory, physMem⟩, -, h⟩ := Except.bind_ok_iff.mp h
      obtain ⟨⟨space, asids⟩, -, h⟩ := Except.bind_ok_iff.mp h
      have hinstall := install_table (k := { k with memory, physMem, reservedASIDs := asids }) h
      exact hinstall

/-- Changing a process leaves every occupied slot occupied. -/
theorem setPcb_occupied {slot j : Nat} {p q : PCB} (h : k.processes[j]? = some (some p)) :
    ∃ r, (k.setPcb slot q).processes[j]? = some (some r) := by
  by_cases hj : j = slot
  · subst hj
    exact ⟨q, setPcb_self h q⟩
  · exact ⟨p, (setPcb_ne hj q).trans h⟩

/-- A created process leaves the others in their slots. -/
theorem createProcess_occupied {vm : Tunnel} {path : List Byte} {brk0 pid : Word} {slot : Nat}
    {p : PCB} (h : k.createProcess vm path brk0 = .ok (pid, k')) (hsane : k.Sane)
    (hslotted : k.Slotted) (hp : k.processes[slot]? = some (some p)) :
    k'.processes[slot]? = some (some p) := by
  rcases createProcess_spec h hsane hslotted with ⟨-, hundone⟩ | ⟨q, n, -, hcreated, -⟩
  · rw [hundone.processes]
    exact hp
  · exact (hcreated.others hp).2

/-- `exec` creates a process, exchanges two images and lets the new process die. -/
theorem exec_table {vm : Tunnel} {slot : Nat} {path : List Byte} {brk0 : Word}
    {ctx ctx' : Option RegisterContext} {done : Bool}
    (h : k.exec vm slot path brk0 ctx = .ok (done, ctx', k')) (hsane : k.Sane)
    (hslotted : k.Slotted) : Steps k.table k'.table := by
  rw [exec] at h
  obtain ⟨self, hself, h⟩ := Except.bind_ok_iff.mp h
  obtain ⟨-, -, h⟩ := Except.bind_ok_iff.mp h
  obtain ⟨⟨newPID, k1⟩, hcreate, h⟩ := Except.bind_ok_iff.mp h
  have hsteps := createProcess_table hcreate
  have hself1 := createProcess_occupied hcreate hsane hslotted (pcb_spec hself)
  simp only at h
  split at h
  · obtain ⟨-, h⟩ := Prod.mk.inj (Except.ok.inj h)
    obtain ⟨-, rfl⟩ := Prod.mk.inj h
    exact hsteps
  · split at h
    · cases h
    · rename_i newSlot hguard
      obtain ⟨k2, hborrow, h⟩ := Except.bind_ok_iff.mp h
      obtain ⟨new, hnew, h⟩ := Except.bind_ok_iff.mp h
      obtain ⟨memory, -, h⟩ := Except.bind_ok_iff.mp h
      obtain ⟨k5, hmark, h⟩ := Except.bind_ok_iff.mp h
      obtain ⟨k6, hreset, h⟩ := Except.bind_ok_iff.mp h
      obtain ⟨-, h⟩ := Prod.mk.inj (Except.ok.inj h)
      obtain ⟨-, rfl⟩ := Prod.mk.inj h
      -- the borrowed process, then the two exchanged images
      obtain ⟨self2, hself2⟩ : ∃ r, k2.processes[slot]? = some (some r) := by
        obtain ⟨p, -, hk2⟩ := Except.bind_ok_iff.mp hborrow
        obtain rfl := Except.ok.inj hk2
        exact setPcb_occupied hself1
      have hswap : ∀ memory q r, Steps k2.table
          ((SharedResources.setPcb { k2 with memory } slot q).setPcb newSlot r).table := by
        intro memory q r
        obtain ⟨new2, hnew2⟩ : ∃ p,
            (SharedResources.setPcb { k2 with memory } slot q).processes[newSlot]? = some (some p) :=
          setPcb_occupied (pcb_spec hnew)
        exact (setPcb_table (k := { k2 with memory }) hself2 q).trans (setPcb_table hnew2 r)
      exact hsteps.trans ((borrow_table hborrow).trans ((hswap memory _ _).trans
        ((markForDeath_table hmark).trans (reset_table hreset))))

/-- A new break leaves the slots. -/
theorem updateBrk_table {slot : Nat} {vaddr : Word} {valid : Bool}
    (h : k.updateBrk slot vaddr = .ok (valid, k')) : Steps k.table k'.table := by
  obtain ⟨p, hp, h⟩ := Except.bind_ok_iff.mp h
  obtain ⟨⟨valid', space, memory⟩, -, h⟩ := Except.bind_ok_iff.mp h
  obtain ⟨-, rfl⟩ := Prod.mk.inj (Except.ok.inj h)
  exact setPcb_table (k := { k with memory }) (pcb_spec hp) _

/-- **Refinement.**  Each operation is a path of steps of the table. -/
theorem step_table {op : Operation} (h : k.Step op k') (hsane : k.Sane) (hslotted : k.Slotted) :
    Steps k.table k'.table := by
  cases op with
  | createProcess vm executableFile brk0 =>
      obtain ⟨⟨pid, k1⟩, hcreate, h⟩ := Except.bind_ok_iff.mp h
      obtain rfl := Except.ok.inj h
      exact createProcess_table hcreate
  | forkProcess pid ctx brk0 =>
      obtain ⟨⟨newPID, k1⟩, hfork, h⟩ := Except.bind_ok_iff.mp h
      obtain rfl := Except.ok.inj h
      exact forkProcess_table hfork
  | exec vm slot executableFile brk0 trapCtx =>
      obtain ⟨⟨done, ctx, k1⟩, hexec, h⟩ := Except.bind_ok_iff.mp h
      obtain rfl := Except.ok.inj h
      exact exec_table hexec hsane hslotted
  | updateBrk slot vaddr =>
      obtain ⟨⟨valid, k1⟩, hbrk, h⟩ := Except.bind_ok_iff.mp h
      obtain rfl := Except.ok.inj h
      exact updateBrk_table hbrk
  | borrow slot => exact borrow_table h
  | markForDeath slot => exact markForDeath_table h
  | reset slot => exact reset_table h

/-! ### The free PIDs -/

/-- The free PIDs are the empty slots, each once. -/
structure FreePids (k : SharedResources) : Prop where
  nodup : k.freePids.Nodup
  empty : ∀ pid ∈ k.freePids, k.processes[pid.toNat]? = some none
  listed : ∀ i, k.processes[i]? = some none → BitVec.ofNat 32 i ∈ k.freePids

/-- An exact table lists its empty slots. -/
theorem freePids_of_exact (h : Exact k.table) (hslotted : k.Slotted) : k.FreePids where
  nodup := List.Nodup.of_map BitVec.toNat h.nodup
  empty pid hpid := (h.mem_iff pid.toNat).mp (List.mem_map_of_mem hpid)
  listed _ hi := hslotted.empties hi

/-- A free PID is below the number of slots. -/
theorem FreePids.lt (h : k.FreePids) {pid : Word} (hpid : pid ∈ k.freePids) :
    pid.toNat < k.processes.length :=
  Slots.lt_of_getElem? (h.empty pid hpid)

/-- The PID handed out next names no process. -/
theorem FreePids.guard_nextPID (h : k.FreePids) (hslotted : k.Slotted) :
    k.guard k.nextPID = none := by
  have hfree : k.processes[k.nextPID.toNat]? = none ∨ k.processes[k.nextPID.toNat]? = some none := by
    rw [nextPID]
    cases hlast : k.freePids.getLast? with
    | none =>
        left
        have hshort := hslotted.short
        unfold numASIDs at hshort
        rw [Option.getD_none, BitVec.toNat_ofNat, List.getElem?_eq_none_iff]
        omega
    | some last => exact .inr (h.empty last (List.mem_of_getLast? hlast))
  unfold guard
  rcases hfree with hnone | hempty
  · rw [hnone]
  · rw [hempty]

/-- Giving a process its slot fails no assertion. -/
theorem FreePids.install_ok (h : k.FreePids) (p : PCB) : ∃ k', k.install p = .ok (p.PID, k') := by
  rw [install]
  cases hlast : k.freePids.getLast? with
  | none => exact ⟨_, rfl⟩
  | some last =>
      simp only [h.empty last (List.mem_of_getLast? hlast)]
      exact ⟨_, rfl⟩

/-- The table starts without slots. -/
theorem construct_exact {imageEnd brk0 : Word} {physMem : Hardware.Memory}
    (hboot : construct imageEnd brk0 physMem = .ok k) : Exact k.table := by
  rw [construct] at hboot
  obtain ⟨⟨pages, memory⟩, -, hboot⟩ := Except.bind_ok_iff.mp hboot
  obtain rfl := Except.ok.inj hboot
  exact ⟨List.nodup_nil, fun i => by simp [table]⟩

/-- **Run.**  The free PIDs after any operations in any order. -/
theorem freePids_of_reaches {imageEnd brk0 : Word} {physMem : Hardware.Memory}
    {P : SharedResources → Operation → Prop} (hboot : construct imageEnd brk0 physMem = .ok k0)
    (hrun : Reaches Step P k0 k) : k.FreePids := by
  obtain ⟨hsane0, hslotted0, -, -⟩ := construct_spec hboot
  have hboth : k.Invariant ∧ Exact k.table := by
    refine hrun.invariant (I := fun k => k.Invariant ∧ Exact k.table)
      ⟨⟨hsane0, hslotted0⟩, construct_exact hboot⟩ fun ⟨hi, hexact⟩ _ hstep => ?_
    exact ⟨invariant_step hi hstep, hexact.steps (step_table hstep hi.sane hi.slotted)⟩
  exact freePids_of_exact hboth.2 hboth.1.slotted

/-- A PID that was handed out named no process, and names the new one. -/
def HandsOut (k : SharedResources) (pid : Word) (k' : SharedResources) : Prop :=
  pid = NOPCBEXISTS ∨ (k.guard pid = none ∧ pid.toNat < k'.processes.length ∧
    ∃ p, k'.processes[pid.toNat]? = some (some p) ∧ p.PID = pid)

/-- A created process has the PID that is handed out. -/
theorem Created.handsOut {p : PCB} {slot : Nat} (h : Created k p slot k') :
    HandsOut k p.PID k' := by
  have hhere := h.here
  rw [← h.pid] at hhere
  refine .inr ⟨?_, Slots.lt_of_getElem? hhere, p, hhere, rfl⟩
  unfold guard
  split
  · rename_i q hq
    exact absurd h.pid (h.others hq).1
  · rfl

/-- **Exact PIDs.**  After any operations in any order, a process sits in the
slot of its PID, and `freePids` has no duplicates, points only at empty slots
below the end, and lists every empty slot; so the PID a creator takes names no
process, the table accepts it, and it names the new process. -/
theorem free_pids_exact {imageEnd brk0 : Word} {physMem : Hardware.Memory}
    (hboot : construct imageEnd brk0 physMem = .ok k0)
    (hrun : Reaches Step (fun _ _ => True) k0 k) :
    (∀ (i : Nat) (p : PCB), k.processes[i]? = some (some p) → p.PID.toNat = i) ∧ k.freePids.Nodup ∧
    (∀ pid ∈ k.freePids, pid.toNat < k.processes.length ∧ k.processes[pid.toNat]? = some none) ∧
    (∀ i, k.processes[i]? = some none → BitVec.ofNat 32 i ∈ k.freePids) ∧
    (k.guard k.nextPID = none ∧ ∀ p : PCB, ∃ k', k.install p = .ok (p.PID, k')) ∧
    (∀ vm path brk pid k', k.createProcess vm path brk = .ok (pid, k') → HandsOut k pid k') ∧
    ∀ pid ctx brk newPID k', k.forkProcess pid ctx brk = .ok (newPID, k') →
      HandsOut k newPID k' := by
  obtain ⟨hsane, hslotted⟩ := invariant_of_reaches hboot hrun
  have hfree := freePids_of_reaches hboot hrun
  refine ⟨fun i p hp => hslotted.pids hp, hfree.nodup,
    fun pid hpid => ⟨hfree.lt hpid, hfree.empty pid hpid⟩, hfree.listed,
    ⟨hfree.guard_nextPID hslotted, hfree.install_ok⟩, ?_, ?_⟩
  · intro vm path brk pid k' hcreate
    rcases createProcess_spec hcreate hsane hslotted with ⟨rfl, -⟩ | ⟨p, slot, rfl, hcreated, -⟩
    · exact .inl rfl
    · exact hcreated.handsOut
  · intro pid ctx brk newPID k' hfork
    rcases forkProcess_spec hfork hsane hslotted with ⟨rfl, -⟩ | ⟨_, p, slot, -, rfl, hcreated, -⟩
    · exact .inl rfl
    · exact hcreated.handsOut

/-- The guarantee on a run whose first process has died: its PID is free again. -/
theorem shell_free_pids :
    ∃ k, bootedRun (fun _ _ => True) [.createProcess zeroFiles [] 0, .forkProcess 0 none 0,
        .borrow 0, .markForDeath 0, .reset 0] = some k ∧ k.freePids = [0#32] ∧
      k.freePids.Nodup ∧ k.guard k.nextPID = none := by
  have hruns : (bootedRun (fun _ _ => True) [.createProcess zeroFiles [] 0, .forkProcess 0 none 0,
      .borrow 0, .markForDeath 0, .reset 0]).any (fun k => decide (k.freePids = [0#32])) = true := by
    decide +kernel
  obtain ⟨k, hk, hpids⟩ := (Option.any_eq_true _ _).mp hruns
  obtain ⟨k0, hboot, hrun⟩ := reaches_of_bootedRun hk
  obtain ⟨-, hnodup, -, -, ⟨hguard, -⟩, -⟩ := free_pids_exact hboot hrun
  exact ⟨k, hk, of_decide_eq_true hpids, hnodup, hguard⟩

end SharedResources

end Kernel
