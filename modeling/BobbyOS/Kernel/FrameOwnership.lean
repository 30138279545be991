import BobbyOS.Kernel.Replacement
import BobbyOS.Lib.Run

/-!
# Who owns the frames

A run of the process manager starts with the boot and takes any operation in any
order: processes are created, forked, given another image, grown, marked for
death and released.  Two facts about the frames are followed through such runs.

* A frame that a page table names is reserved, lies above the kernel image and
  is named once.
* A reserved frame is named by some page table as long as no heap page that
  `updateBrk` maps was mapped before.  For a page that was mapped the new frame
  is lost for good.
-/

namespace Kernel

open MemoryManager Ledger Run

/-- An operation of the process manager. -/
inductive Operation
  | createProcess (vm : Tunnel) (executableFile : List Byte) (brk0 : Word)
  | forkProcess (pid : Word) (ctx : Option RegisterContext) (brk0 : Word)
  | exec (vm : Tunnel) (slot : Nat) (executableFile : List Byte) (brk0 : Word)
      (trapCtx : Option RegisterContext)
  | updateBrk (slot : Nat) (vaddr : Word)
  | borrow (slot : Nat)
  | markForDeath (slot : Nat)
  | reset (slot : Nat)

namespace SharedResources

/-- The state after an operation. -/
def step (k : SharedResources) : Operation → Except Panic SharedResources
  | .createProcess vm executableFile brk0 => do
      let (_, k) ← k.createProcess vm executableFile brk0
      .ok k
  | .forkProcess pid ctx brk0 => do
      let (_, k) ← k.forkProcess pid ctx brk0
      .ok k
  | .exec vm slot executableFile brk0 trapCtx => do
      let (_, _, k) ← k.exec vm slot executableFile brk0 trapCtx
      .ok k
  | .updateBrk slot vaddr => do
      let (_, k) ← k.updateBrk slot vaddr
      .ok k
  | .borrow slot => k.borrow slot
  | .markForDeath slot => k.markForDeath slot
  | .reset slot => k.reset slot

/-- One operation that returns. -/
def Step (k : SharedResources) (op : Operation) (k' : SharedResources) : Prop := k.step op = .ok k'

/-- The heap pages that an operation is about to map are free. -/
def Clean (k : SharedResources) : Operation → Prop
  | .updateBrk slot vaddr =>
      match k.processes[slot]? with
      | some (some p) =>
          match p.addrSpace.pageTable with
          | some (.hash t) =>
              ∀ i ∈ List.range' p.addrSpace.brk.toNat (p.addrSpace.growth vaddr),
                AddressSpace.heapVpn i ∉ t.vpns
          | _ => True
      | _ => True
  | _ => True

instance (k : SharedResources) (op : Operation) : Decidable (k.Clean op) := by
  unfold Clean
  split
  · split
    · split <;> infer_instance
    · infer_instance
  · infer_instance

variable {k k' k0 : SharedResources} {op : Operation} {old new : List PCB} {leaked : List Nat}
  {imageEnd brk0 : Word} {physMem : Hardware.Memory}

/-! ### Operations that return -/

/-- A creation is a step. -/
theorem step_createProcess {vm : Tunnel} {path : List Byte} {brk pid : Word}
    (h : k.createProcess vm path brk = .ok (pid, k')) : k.Step (.createProcess vm path brk) k' := by
  rw [Step, step, h]
  rfl

/-- So is a fork. -/
theorem step_forkProcess {pid newPID brk : Word} {ctx : Option RegisterContext}
    (h : k.forkProcess pid ctx brk = .ok (newPID, k')) : k.Step (.forkProcess pid ctx brk) k' := by
  rw [Step, step, h]
  rfl

/-- So is an `exec`. -/
theorem step_exec {vm : Tunnel} {slot : Nat} {path : List Byte} {brk : Word} {done : Bool}
    {ctx ctx' : Option RegisterContext} (h : k.exec vm slot path brk ctx = .ok (done, ctx', k')) :
    k.Step (.exec vm slot path brk ctx) k' := by
  rw [Step, step, h]
  rfl

/-- So is a new break. -/
theorem step_updateBrk {slot : Nat} {vaddr : Word} {valid : Bool}
    (h : k.updateBrk slot vaddr = .ok (valid, k')) : k.Step (.updateBrk slot vaddr) k' := by
  rw [Step, step, h]
  rfl

/-! ### Boot -/

/-- The kernel's pages get frames of their own. -/
theorem reservePages_spec {left : Nat} {pt : List PageTable.Entry} {m m' : MemoryManager}
    (h : KernelPageTable.reservePages left m = .ok (pt, m')) :
    Hands m (pt.map fun e => e.pfn.toNat) m' := by
  induction left generalizing m pt with
  | zero =>
      obtain ⟨rfl, rfl⟩ := Prod.mk.inj (Except.ok.inj h)
      exact rfl
  | succ left ih =>
      rw [KernelPageTable.reservePages] at h
      obtain ⟨⟨frame, m1⟩, hframe, h⟩ := Except.bind_ok_iff.mp h
      obtain ⟨⟨rest, m2⟩, hrest, h⟩ := Except.bind_ok_iff.mp h
      obtain ⟨rfl, rfl⟩ := Prod.mk.inj (Except.ok.inj h)
      obtain ⟨f, hgives, hshift⟩ := reserveFrame_spec hframe
      refine ⟨m1, ?_, ih hrest⟩
      simp only [hshift, frame_toNat hgives.upper]
      exact hgives

/-- **Boot.**  There are no processes, and exactly the frames of the kernel heap
are reserved. -/
theorem construct_spec (h : construct imageEnd brk0 physMem = .ok k) :
    k.Sane ∧ k.Slotted ∧ k.live = [] ∧ Complete k.memory.Reserved k.frames := by
  rw [construct, KernelPageTable.construct] at h
  obtain ⟨⟨kpt, memory⟩, hkpt, h⟩ := Except.bind_ok_iff.mp h
  obtain ⟨⟨pt, m1⟩, hpages, hkpt⟩ := Except.bind_ok_iff.mp hkpt
  obtain ⟨rfl, rfl⟩ := Prod.mk.inj (Except.ok.inj hkpt)
  obtain rfl := Except.ok.inj h
  have hands := reservePages_spec hpages
  have hres : ∀ f, m1.Reserved f ↔ f ∈ pt.map fun e => e.pfn.toNat := by
    intro f
    have hzero : ¬ (MemoryManager.construct imageEnd).Reserved f := by
      simp [Reserved, MemoryManager.construct]
    rw [hands.reserved, or_iff_right hzero]
  have hframes : ∀ asids log ps, frames ⟨m1, asids,
      { addrSpace := { pageTable := some (.kernel ⟨pt⟩), brk := brk0, asid := KERNEL_ASID }
        state := .RUNNING, PID := KERNEL_PID }, [], ps, physMem, log⟩ =
        pt.map fun e => e.pfn.toNat := by
    intro asids log ps
    exact List.append_nil _
  refine ⟨⟨by simp [live], ?_, ?_, ?_, by simp [live]⟩, ⟨by simp, by simp, Nat.zero_le _⟩, rfl, ?_⟩
  · rw [hframes]
    exact ⟨hands.nodup, fun f hf => (hres f).mpr hf⟩
  · rw [hframes]
    intro f hf
    rw [hands.boundary]
    exact (hands.fresh hf).2
  · exact ⟨List.nodup_nil, by simp [live]⟩
  · rw [hframes]
    exact fun f hf => (hres f).mp hf

/-! ### One operation -/

/-- An operation that changes no process leaks nothing. -/
theorem change_nothing (hclean : k.Clean op) (hs : k'.Slotted) (h : Change k k' old new []) :
    k'.Slotted ∧ ∃ old new leaked, Change k k' old new leaked ∧ (leaked = [] ↔ k.Clean op) :=
  ⟨hs, old, new, [], h, iff_of_true rfl hclean⟩

/-- **Step.**  An operation is a change, and it loses frames exactly when a page
it maps is not free. -/
theorem step_spec (h : k.Step op k') (hsane : k.Sane) (hslotted : k.Slotted) :
    k'.Slotted ∧ ∃ old new leaked, Change k k' old new leaked ∧ (leaked = [] ↔ k.Clean op) := by
  cases op with
  | createProcess vm executableFile brk0 =>
      obtain ⟨⟨pid, k1⟩, hcreate, h⟩ := Except.bind_ok_iff.mp h
      obtain rfl := Except.ok.inj h
      rcases createProcess_spec hcreate hsane hslotted with ⟨-, hundone⟩ | ⟨p, slot, -, hcreated, -⟩
      · exact change_nothing trivial (hundone.slotted hslotted) hundone.change
      · exact change_nothing trivial hcreated.slotted hcreated.change
  | forkProcess pid ctx brk0 =>
      obtain ⟨⟨newPID, k1⟩, hfork, h⟩ := Except.bind_ok_iff.mp h
      obtain rfl := Except.ok.inj h
      rcases forkProcess_spec hfork hsane hslotted with ⟨-, rfl⟩ | ⟨_, p, slot, -, -, hcreated, -⟩
      · exact change_nothing trivial hslotted undone_rfl.change
      · exact change_nothing trivial hcreated.slotted hcreated.change
  | exec vm slot executableFile brk0 trapCtx =>
      obtain ⟨⟨done, ctx, k1⟩, hexec, h⟩ := Except.bind_ok_iff.mp h
      obtain rfl := Except.ok.inj h
      obtain ⟨p, -, ⟨-, hundone⟩ | ⟨-, q, hreplaced⟩⟩ := exec_spec hexec hsane hslotted
      · exact change_nothing trivial (hundone.slotted hslotted) hundone.change
      · exact change_nothing trivial hreplaced.slotted hreplaced.change
  | updateBrk slot vaddr =>
      obtain ⟨⟨valid, k1⟩, hbrk, h⟩ := Except.bind_ok_iff.mp h
      obtain rfl := Except.ok.inj h
      obtain ⟨p, q, t, t', fs, -, hgrown, hreplaced⟩ := updateBrk_spec hbrk hsane hslotted
      refine ⟨hreplaced.slotted, _, _, _, hreplaced.change, ?_⟩
      rw [hgrown.lostFrames_eq_nil, Clean, hreplaced.before]
      simp only [hgrown.before, List.mem_range'_1]
      exact forall_congr' fun i => and_imp.symm
  | borrow slot =>
      rw [Step, step] at h
      obtain ⟨p, hp, -⟩ := Except.bind_ok_iff.mp h
      rw [borrow_eq (pcb_spec hp)] at h
      obtain rfl := Except.ok.inj h
      have hreplaced := replaced_setPcb (q := { p with refcount := p.refcount + 1 }) hsane hslotted
        (pcb_spec hp) rfl rfl
      exact change_nothing trivial hreplaced.slotted hreplaced.change
  | markForDeath slot =>
      rw [Step, step] at h
      obtain ⟨p, hp, -⟩ := Except.bind_ok_iff.mp h
      rw [markForDeath_eq (pcb_spec hp) (hslotted.pid_ne (pcb_spec hp))] at h
      obtain rfl := Except.ok.inj h
      have hreplaced := replaced_setPcb (q := { p with state := .ZOMBIE }) hsane hslotted
        (pcb_spec hp) rfl rfl
      exact change_nothing trivial hreplaced.slotted hreplaced.change
  | reset slot =>
      obtain ⟨p, hp, ⟨q, hspace, hpid, rfl⟩ | ⟨hchange, hremoved⟩⟩ :=
        reset_spec h hsane hslotted
      · have hreplaced := replaced_setPcb hsane hslotted hp hspace hpid
        exact change_nothing trivial hreplaced.slotted hreplaced.change
      · exact change_nothing trivial (hremoved.slotted hslotted) hchange

/-! ### Runs -/

/-- **Invariant.**  What holds in every state after the boot. -/
structure Invariant (k : SharedResources) : Prop where
  sane : k.Sane
  slotted : k.Slotted

/-- **One operation** keeps the invariant. -/
theorem invariant_step (h : k.Invariant) (hstep : k.Step op k') : k'.Invariant := by
  obtain ⟨hslotted, old, new, leaked, hchange, -⟩ := step_spec hstep h.sane h.slotted
  exact ⟨h.sane.change hchange, hslotted⟩

/-- A process changes apart from its address space and its PID. -/
theorem Invariant.setPcb {slot : Nat} {p q : PCB} (h : k.Invariant)
    (hp : k.processes[slot]? = some (some p)) (hspace : q.addrSpace = p.addrSpace)
    (hpid : q.PID = p.PID) : (k.setPcb slot q).Invariant :=
  have hreplaced := replaced_setPcb h.sane h.slotted hp hspace hpid
  ⟨h.sane.change hreplaced.change, hreplaced.slotted⟩

/-- A borrowed guard keeps it. -/
theorem Invariant.borrow {slot : Nat} (h : k.Invariant) (hk : k.borrow slot = .ok k') :
    k'.Invariant := by
  have hstep : k.Step (.borrow slot) k' := hk
  exact invariant_step h hstep

/-- So does one that is given back. -/
theorem Invariant.reset {slot : Nat} (h : k.Invariant) (hk : k.reset slot = .ok k') :
    k'.Invariant := by
  have hstep : k.Step (.reset slot) k' := hk
  exact invariant_step h hstep

/-- So does a process that is marked for death. -/
theorem Invariant.markForDeath {slot : Nat} (h : k.Invariant) (hk : k.markForDeath slot = .ok k') :
    k'.Invariant := by
  have hstep : k.Step (.markForDeath slot) k' := hk
  exact invariant_step h hstep

/-- **Run.**  Any operations in any order. -/
theorem invariant_of_reaches {P : SharedResources → Operation → Prop}
    (hboot : construct imageEnd brk0 physMem = .ok k0) (hrun : Reaches Step P k0 k) :
    k.Invariant := by
  obtain ⟨hsane, hslotted, -, -⟩ := construct_spec hboot
  exact hrun.invariant ⟨hsane, hslotted⟩ fun h _ hstep => invariant_step h hstep

/-- A machine whose files consist of zeros. -/
def zeroFiles : Tunnel
  | .fread _ nbytes :: _ => { data := List.replicate nbytes.toNat 0, res := nbytes }
  | _ => {}

/-- The state after a boot and a list of operations that all satisfy `P`. -/
def bootedRun (P : SharedResources → Operation → Prop) [∀ k op, Decidable (P k op)]
    (ops : List Operation) : Option SharedResources :=
  (construct 0x80001000 0 fun _ => 0).toOption.bind fun k0 =>
    execute (fun k op => (k.step op).toOption) P k0 ops

/-- A computation that has a value did not fail. -/
theorem toOption_eq_some {ε α : Type} {x : Except ε α} {a : α} (h : x.toOption = some a) :
    x = .ok a := by
  cases x with
  | error e => cases h
  | ok b => rw [Option.some.inj h]

/-- What an executable run reaches is reached. -/
theorem reaches_of_bootedRun {P : SharedResources → Operation → Prop}
    [∀ k op, Decidable (P k op)] {ops : List Operation} (h : bootedRun P ops = some k) :
    ∃ k0, construct 0x80001000 0 (fun _ => 0) = .ok k0 ∧ Reaches Step P k0 k := by
  obtain ⟨k0, hk0, hrun⟩ := Option.bind_eq_some_iff.mp h
  exact ⟨k0, toOption_eq_some hk0, reaches_of_execute toOption_eq_some hrun⟩

/-- A process that grows, is forked, and gets another image; the copy dies. -/
def shellOperations : List Operation :=
  [.createProcess zeroFiles [] 0, .updateBrk 0 0x10009000, .forkProcess 0 none 2,
    .exec zeroFiles 0 [] 0 none, .borrow 1, .markForDeath 1, .reset 1]

/-- **Exclusive frames.**  After any operations in any order, no frame is named
by two page table entries, and every frame that is named is reserved and lies
above the kernel image. -/
theorem mapped_frames_exclusive (hboot : construct imageEnd brk0 physMem = .ok k0)
    (hrun : Reaches Step (fun _ _ => True) k0 k) :
    k.frames.Nodup ∧ ∀ f ∈ k.frames, k.memory.Reserved f ∧
      k.memory.kernelReservedBoundary ≤ f ∧ f < numPages := by
  obtain ⟨hsane, -⟩ := invariant_of_reaches hboot hrun
  exact ⟨hsane.frames.nodup, fun f hf => ⟨hsane.frames.taken f hf, hsane.frameBounds f hf⟩⟩

/-- The guarantee on a run that creates, forks, grows, replaces and frees. -/
theorem shell_frames_exclusive :
    ∃ k, bootedRun (fun _ _ => True) shellOperations = some k ∧ k.frames.Nodup ∧
      ∀ f ∈ k.frames, k.memory.Reserved f ∧ k.memory.kernelReservedBoundary ≤ f ∧ f < numPages := by
  have hruns : (bootedRun (fun _ _ => True) shellOperations).isSome := by decide +kernel
  obtain ⟨k, hk⟩ := Option.isSome_iff_exists.mp hruns
  obtain ⟨k0, hboot, hrun⟩ := reaches_of_bootedRun hk
  exact ⟨k, hk, mapped_frames_exclusive hboot hrun⟩

/-- **Complete frames.**  As long as the heap pages that get mapped were free,
every reserved frame is named by a page table; without processes, by the
kernel's.  An operation that meets a page which is not free loses a frame. -/
theorem reserved_frames_mapped (hboot : construct imageEnd brk0 physMem = .ok k0)
    (hrun : Reaches Step Clean k0 k) :
    Complete k.memory.Reserved k.frames ∧
      (k.live = [] → ∀ f, k.memory.Reserved f ↔ f ∈ k.kernelProcess.frames) ∧
      ∀ op k', k.Step op k' → (Complete k'.memory.Reserved k'.frames ↔ k.Clean op) := by
  obtain ⟨hsane0, hslotted0, -, hcomplete0⟩ := construct_spec hboot
  have hinvariant := invariant_of_reaches hboot hrun
  have hcomplete : Complete k.memory.Reserved k.frames := by
    have hboth : k.Invariant ∧ Complete k.memory.Reserved k.frames := by
      refine hrun.invariant (I := fun k => k.Invariant ∧ Complete k.memory.Reserved k.frames)
        ⟨⟨hsane0, hslotted0⟩, hcomplete0⟩ fun ⟨hi, hc⟩ hclean hstep => ?_
      obtain ⟨-, _, _, _, hchange, hleaked⟩ := step_spec hstep hi.sane hi.slotted
      exact ⟨invariant_step hi hstep, (hi.sane.complete_iff hchange hc).mpr (hleaked.mpr hclean)⟩
    exact hboth.2
  refine ⟨hcomplete, fun hnone f => ?_, fun op k' hstep => ?_⟩
  · have hframes : k.frames = k.kernelProcess.frames := by
      rw [frames, hnone, List.flatMap_nil, List.append_nil]
    rw [← hframes]
    exact ⟨hcomplete f, hinvariant.sane.frames.taken f⟩
  · obtain ⟨-, _, _, _, hchange, hleaked⟩ := step_spec hstep hinvariant.sane hinvariant.slotted
    rw [hinvariant.sane.complete_iff hchange hcomplete, hleaked]

/-- The guarantee on the same run: all its heap pages were free. -/
theorem shell_frames_mapped :
    ∃ k, bootedRun Clean shellOperations = some k ∧ Complete k.memory.Reserved k.frames ∧
      (k.live = [] → ∀ f, k.memory.Reserved f ↔ f ∈ k.kernelProcess.frames) ∧
      ∀ op k', k.Step op k' → (Complete k'.memory.Reserved k'.frames ↔ k.Clean op) := by
  have hruns : (bootedRun Clean shellOperations).isSome := by decide +kernel
  obtain ⟨k, hk⟩ := Option.isSome_iff_exists.mp hruns
  obtain ⟨k0, hboot, hrun⟩ := reaches_of_bootedRun hk
  exact ⟨k, hk, reserved_frames_mapped hboot hrun⟩

/-- A process with one heap page is forked, and the copy asks for that page. -/
def forkedHeap : List Operation :=
  [.createProcess zeroFiles [] 0, .updateBrk 0 0x10008000, .forkProcess 0 none 0,
    .updateBrk 1 0x10008000]

/-- The copy has the heap page already, and the frame taken for it is lost. -/
theorem frames_may_leak :
    ¬ ∀ imageEnd brk0 physMem k0 k, construct imageEnd brk0 physMem = .ok k0 →
      Reaches Step (fun _ _ => True) k0 k → Complete k.memory.Reserved k.frames := by
  intro hall
  have hleak : (bootedRun (fun _ _ => True) forkedHeap).any
      (fun k => k.memory.reservedPages.bit 79 && decide (79 ∉ k.frames)) = true := by
    decide +kernel
  obtain ⟨k, hk, hbits⟩ := (Option.any_eq_true _ _).mp hleak
  obtain ⟨hreserved, hout⟩ := (Bool.and_eq_true _ _).mp hbits
  obtain ⟨k0, hboot, hrun⟩ := reaches_of_bootedRun hk
  exact of_decide_eq_true hout (hall _ _ _ _ _ hboot hrun 79 hreserved)

end SharedResources

end Kernel
