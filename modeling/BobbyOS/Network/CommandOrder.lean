import BobbyOS.Lib.Traces
import BobbyOS.Network.Slicing

/-!
# Commands one after the other

Workers run the tasks of a connection in slices, among the tasks of all other connections,
while new commands come in.  A command that comes while a task has the machine is dropped.
The machine notices nothing of all this: it is what one thread makes of it that carries
out the accepted commands in the order in which they came.

* `Partway.run`: a call of `run` does the next part of a command;
* `Ordered.step`: every step of the server keeps the order;
* `commands_in_order`: the machine after any run.
-/

namespace WorkerLoop

open Hardware Machine MLFQ Run Totals
open Server (VMCommand LoadKernel)

variable {fp : FpArith} {inp : Nat → Nat → HostInput} {elf : KernelElf} {w w' : World}
  {t workers : Nat} {clock : Int} {choice again : Bool} {worker worker' : Worker}
  {job job' : Job} {m m' m₀ : Machine} {a : Action}

/-! ### One thread -/

/-- A command that made a task of the machine, with the identity of the task and with what
was in memory where `writeIdx` came to be. -/
structure Accepted where
  id : Nat
  command : VMCommand
  writeIdx : Word
deriving DecidableEq

variable {c : Accepted} {cs : List Accepted}

/-- The command that a step accepts. -/
def World.accepted (w : World) : Action → Option Accepted
  | .command command writeIdx =>
      if command ≠ .step 0 ∧ w.vm.isSome then some ⟨w.next, command, writeIdx⟩ else none
  | _ => none

section Definitions

variable (fp : FpArith) (inp : Nat → Nat → HostInput) (elf : KernelElf)

/-- What one thread makes of the machine that does nothing but this command. -/
def CarriesOut (c : Accepted) (m m' : Machine) : Prop :=
  match c.command with
  | .step n => ∃ j, cycleN fp (inp c.id) j m = some m' ∧ j ≤ n ∧ (j = n ∨ m'.killed = true)
  | .loadKernel => ∃ fuel, LoadKernel.drive elf fuel { writeIdx := c.writeIdx } m = .ok (some m')

/-- The machine after these commands, one after the other. -/
inductive CarriesOutAll (m₀ : Machine) : List Accepted → Machine → Prop
  | nil : CarriesOutAll m₀ [] m₀
  | next {cs : List Accepted} {c : Accepted} {m m' : Machine} (h : CarriesOutAll m₀ cs m)
      (hc : CarriesOut fp inp elf c m m') : CarriesOutAll m₀ (cs ++ [c]) m'

/-- The task has done a part of the command on the machine `m`. -/
def Partway (c : Accepted) (m : Machine) (job : Job) : Prop :=
  job.id = c.id ∧
    match c.command with
    | .step n => ∃ count m', Follows fp inp n m job count m'
    | .loadKernel => ∃ t m', job.body = .loadKernel t (some m') ∧ ∀ fuel last,
        LoadKernel.drive elf fuel t m' = .ok (some last) →
          ∃ fuel', LoadKernel.drive elf fuel' { writeIdx := c.writeIdx } m = .ok (some last)

end Definitions

/-! ### A task -/

/-- A load that is over stays over. -/
theorem run_over {t t' : LoadKernel} (h : t.run elf m = .ok (false, t', m')) :
    t'.run elf m' = .ok (false, t', m') := by
  have hover {t' : LoadKernel} (hinit : t'.completedInit = true) (htext : t'.state ≠ .TEXT)
      (hdata : t'.state ≠ .DATA) : t'.run elf m' = .ok (false, t', m') := by
    unfold LoadKernel.run LoadKernel.setUp
    rw [if_pos hinit]
    dsimp only
    split
    · exact absurd (by assumption) htext
    · exact absurd (by assumption) hdata
    · rfl
  have hinit : (t.setUp elf m).1.completedInit = true := by
    unfold LoadKernel.setUp
    split
    · assumption
    · rfl
  unfold LoadKernel.run at h
  dsimp only at h
  split at h
  · obtain ⟨m1, -, h⟩ := Except.bind_ok_iff.mp h
    split at h <;> cases h
  · obtain ⟨m1, -, h⟩ := Except.bind_ok_iff.mp h
    split at h
    · cases h
      exact hover hinit (fun h => by cases h) (fun h => by cases h)
    · cases h
  · rename_i htext hdata
    cases h
    exact hover hinit htext hdata

/-- A new task. -/
theorem partway_new (c : Accepted) (m : Machine) :
    Partway fp inp elf c m { id := c.id, body := .make c.writeIdx m c.command } := by
  refine ⟨rfl, ?_⟩
  cases c.command with
  | step n => exact ⟨n, m, rfl, rfl, rfl⟩
  | loadKernel => exact ⟨{ writeIdx := c.writeIdx }, m, rfl, fun fuel last h => ⟨fuel, h⟩⟩

/-- A task that is partway through its command has the machine. -/
theorem Partway.vm (h : Partway fp inp elf c m job) : ∃ m', job.body.vm = some m' := by
  obtain ⟨-, h⟩ := h
  cases hc : c.command with
  | step n =>
      rw [hc] at h
      obtain ⟨count, m', hfollows⟩ := h
      exact ⟨m', by rw [hfollows.body]; rfl⟩
  | loadKernel =>
      rw [hc] at h
      obtain ⟨t, m', hbody, -⟩ := h
      exact ⟨m', by rw [hbody]; rfl⟩

/-- **Step.**  A call of `run` does the next part, and the last one ends the command. -/
theorem Partway.run (h : Partway fp inp elf c m job)
    (hrun : job.run fp inp elf choice = .ok (again, job')) :
    Partway fp inp elf c m job' ∧
      (again = false → ∃ m', job'.body.vm = some m' ∧ CarriesOut fp inp elf c m m') := by
  obtain ⟨hid, h⟩ := h
  have hid' : job'.id = c.id := (Job.run_records hrun).1.trans hid
  unfold Partway CarriesOut
  cases hc : c.command with
  | step n =>
      rw [hc] at h
      obtain ⟨count, m', hfollows⟩ := h
      obtain ⟨hnext, hend⟩ := hfollows.run hrun
      refine ⟨⟨hid', hnext⟩, fun hagain => ?_⟩
      obtain ⟨rfl, hover⟩ := hend hagain
      have hcycles := hfollows.cycles
      refine ⟨m', by rw [hfollows.body]; rfl, job'.cycles, ?_, by omega, ?_⟩
      · rw [← hid]
        exact hfollows.machine
      · rcases hover with rfl | hkilled
        · exact .inl (by omega)
        · exact .inr hkilled
  | loadKernel =>
      rw [hc] at h
      obtain ⟨t, m', hbody, hdrives⟩ := h
      rw [Job.run, hbody] at hrun
      obtain ⟨⟨again', t', m''⟩, hcall, hr⟩ := Except.bind_ok_iff.mp hrun
      obtain ⟨rfl, rfl⟩ := Prod.mk.inj (Except.ok.inj hr)
      have hdrive (fuel : Nat) : LoadKernel.drive elf (fuel + 1) t m' =
          if again' then LoadKernel.drive elf fuel t' m'' else .ok (some m'') := by
        rw [LoadKernel.drive, hcall]
        rfl
      cases again' with
      | true =>
          refine ⟨⟨hid', t', m'', rfl, fun fuel last hlast => ?_⟩, fun h => by cases h⟩
          exact hdrives (fuel + 1) last ((hdrive fuel).trans hlast)
      | false =>
          have hwhole := hdrives 1 m'' (hdrive 0)
          refine ⟨⟨hid', t', m'', rfl, fun fuel last hlast => ?_⟩, fun _ => ⟨m'', rfl, hwhole⟩⟩
          cases fuel with
          | zero => cases hlast
          | succ fuel =>
              rw [LoadKernel.drive, run_over hcall] at hlast
              cases hlast
              exact hwhole

/-! ### All tasks -/

open Classical in
/-- Whether it is a task with a machine that does something else. -/
noncomputable def interferes (fp : FpArith) (inp : Nat → Nat → HostInput) (elf : KernelElf)
    (c : Accepted) (m : Machine) (job : Job) : Nat :=
  if job.body.vm.isSome ∧ ¬ Partway fp inp elf c m job then 1 else 0

/-- A task does not interfere exactly if it has no machine or is partway through the
command. -/
theorem interferes_eq_zero : interferes fp inp elf c m job = 0 ↔
    (job.body.vm.isSome → Partway fp inp elf c m job) := by
  classical
  rw [interferes]
  split
  · rename_i h
    exact iff_of_false Nat.one_ne_zero fun h' => h.2 (h' h.1)
  · rename_i h
    exact iff_of_true rfl fun hvm => not_not.mp fun hnot => h ⟨hvm, hnot⟩

/-- Only a task with a machine interferes. -/
theorem interferes_le (job : Job) : interferes fp inp elf c m job ≤ machines job := by
  classical
  rw [interferes, machines]
  split
  · rename_i h
    rw [h.1]
    exact Nat.le_refl 1
  · exact Nat.zero_le _

/-- Where a task starts does not matter. -/
theorem interferes_begin (task : MLFQ.Task Job) :
    interferes fp inp elf c m (begin task).id = interferes fp inp elf c m task.id := by
  classical
  have hpartway : Partway fp inp elf c m (begin task).id ↔ Partway fp inp elf c m task.id := by
    unfold Partway
    refine and_congr Iff.rfl ?_
    cases c.command with
    | step n =>
        have hfollows (count : Nat) (m' : Machine) :
            Follows fp inp n m (begin task).id count m' ↔ Follows fp inp n m task.id count m' :=
          ⟨fun h => ⟨h.body, h.cycles, h.machine⟩, fun h => ⟨h.body, h.cycles, h.machine⟩⟩
        exact exists₂_congr hfollows
    | loadKernel => rfl
  exact if_congr (and_congr Iff.rfl (not_congr hpartway)) rfl rfl

/-- A task has the machine and does the command `c` on it, which was `m` before. -/
structure Busy (fp : FpArith) (inp : Nat → Nat → HostInput) (elf : KernelElf) (c : Accepted)
    (m : Machine) (w : World) : Prop where
  alone : w.weight (interferes fp inp elf c m) = 0
  finished : ∀ {t : Nat} {job : Job} {m' : Machine}, w.threads[t]? = some (.destroy job) →
    job.body.vm = some m' → CarriesOut fp inp elf c m m'

/-- **Invariant.**  All accepted commands are carried out, or all but the last one. -/
structure Ordered (fp : FpArith) (inp : Nat → Nat → HostInput) (elf : KernelElf) (m₀ : Machine)
    (cs : List Accepted) (w : World) : Prop where
  owned : Owned w
  idle : ∀ {m : Machine}, w.vm = some m → CarriesOutAll fp inp elf m₀ cs m
  busy : w.vm = none → ∃ cs' c m, cs = cs' ++ [c] ∧ CarriesOutAll fp inp elf m₀ cs' m ∧
    Busy fp inp elf c m w

/-- While the connection has the machine no task has one. -/
theorem Owned.weight_machines (h : Owned w) (hvm : w.vm = some m) : w.weight machines = 0 := by
  have howner := h.owner
  rw [hvm] at howner
  have hone : (some m).isSome.toNat = 1 := rfl
  omega

/-- While the connection has the machine, no task interferes. -/
theorem Owned.none_interferes (h : Owned w) (hvm : w.vm = some m) :
    w.weight (interferes fp inp elf c m') = 0 := by
  have hle : w.weight (interferes fp inp elf c m') ≤ w.weight machines + w.weight machines :=
    World.weight_le_add (fun job => Nat.le_add_right_of_le (interferes_le job)) w
  rw [h.weight_machines hvm] at hle
  exact Nat.le_zero.mp hle

/-- While it does, a destroyed task has none. -/
theorem Owned.destroyed_none (h : Owned w) (hvm : w.vm = some m)
    (hthread : w.threads[t]? = some (.destroy job)) : job.body.vm = none := by
  have hle := worker_weight_le (f := machines) hthread
  rw [h.weight_machines hvm] at hle
  have hnone : machines job = 0 := Nat.le_zero.mp hle
  cases hjob : job.body.vm with
  | none => rfl
  | some m' =>
      rw [machines, hjob] at hnone
      cases hnone

/-- A new pool with its machine is in order. -/
theorem ordered_construct (workers : Nat) (clock : Int) (m₀ : Machine) :
    Ordered fp inp elf m₀ [] (.construct workers clock m₀) := by
  refine ⟨owned_construct, fun {m} hm => ?_, fun h => by cases h⟩
  obtain rfl := Option.some.inj hm
  exact .nil

/-- **Commands.** -/
theorem Ordered.accept {writeIdx : Word} {command : VMCommand} (h : Ordered fp inp elf m₀ cs w)
    (hvm : w.vm = some m)
    (howned : Owned ({ w with vm := none }.hand (.make writeIdx m command) 0)) :
    Ordered fp inp elf m₀ (cs ++ [⟨w.next, command, writeIdx⟩])
      ({ w with vm := none }.hand (.make writeIdx m command) 0) := by
  refine ⟨howned, (fun h => by cases h), fun _ => ?_⟩
  refine ⟨cs, ⟨w.next, command, writeIdx⟩, m, rfl, h.idle hvm, ?_, fun {u job m'} hu hjob => ?_⟩
  · have hold : World.weight (interferes fp inp elf ⟨w.next, command, writeIdx⟩ m)
        { w with vm := none } = 0 := h.owned.none_interferes hvm
    have hnew : Partway fp inp elf ⟨w.next, command, writeIdx⟩ m
        { id := w.next, body := .make writeIdx m command } := partway_new _ _
    rw [World.weight_hand, hold, interferes_eq_zero.mpr fun _ => hnew]
  · rcases of_getElem?_append hu with ⟨-, heq⟩ | hold
    · cases heq
    · rw [h.owned.destroyed_none hvm hold] at hjob
      cases hjob

/-- **Threads.**  A step of a thread does the next part of the last command, or gives back
the machine when the command is carried out. -/
theorem Ordered.run (h : Ordered fp inp elf m₀ cs w)
    (hstep : w.Step fp inp elf (.run t choice) w') : Ordered fp inp elf m₀ cs w' := by
  have howned := h.owned.step hstep
  obtain ⟨worker, q', vm', worker', hworker, heffect, rfl⟩ := World.step_run hstep
  cases hvm : w.vm with
  | some m =>
      have hvm' : vm' = some m := by
        rcases heffect.weight_kept (f := machines) h.owned.wf hworker (fun _ => rfl)
          Job.run_machines with ⟨-, rfl⟩ | ⟨job, rfl, rfl, -⟩
        · exact hvm
        · rw [h.owned.destroyed_none hvm hworker, Option.none_or, hvm]
      refine ⟨howned, fun {m'} hm' => ?_, fun hnone => ?_⟩
      · obtain rfl := Option.some.inj (hvm'.symm.trans hm')
        exact h.idle hvm
      · cases hvm'.symm.trans hnone
  | none =>
      obtain ⟨cs', c, m, hcs, hall, hbusy⟩ := h.busy hvm
      have hle := worker_weight_le (f := interferes fp inp elf c m) hworker
      have hzero := hbusy.alone
      have hset := World.weight_set (f := interferes fp inp elf c m) hworker q' vm' worker'
      -- the task of a call of `run` was doing the command
      have hpartway {task : MLFQ.Task Job} {sliceStart : Int} (heq : worker = .run task sliceStart)
          (hjob : task.id.body.vm.isSome) : Partway fp inp elf c m task.id := by
        refine interferes_eq_zero.mp ?_ hjob
        rw [heq] at hle
        change interferes fp inp elf c m task.id ≤ _ at hle
        omega
      have hsome {job job' : Job} {choice again : Bool}
          (hrun : job.run fp inp elf choice = .ok (again, job')) :
          job'.body.vm.isSome = true → job.body.vm.isSome = true := by
        have hkept := Job.run_machines hrun
        rw [machines, machines] at hkept
        intro hjob
        rw [hjob] at hkept
        exact Bool.toNat_eq_one.mp hkept.symm
      have hafter : Busy fp inp elf c m
          { w with queue := q', vm := vm', threads := w.threads.set t worker' } := by
        refine ⟨?_, fun {u job m'} hu hjob => ?_⟩
        · rcases heffect.weight_cases (f := interferes fp inp elf c m) h.owned.wf hworker
            interferes_begin with ⟨hsame, -⟩ |
              ⟨task, sliceStart, choice, again, job, heq, hjob, rfl, -, hweight⟩ |
                ⟨job, -, rfl, -, hweight⟩
          · omega
          · have hnew : interferes fp inp elf c m job = 0 := by
              refine interferes_eq_zero.mpr fun hvm => ?_
              exact ((hpartway heq (hsome hjob hvm)).run hjob).1
            omega
          · omega
        · rcases of_getElem?_set hu with ⟨-, heq⟩ | ⟨-, hold⟩
          · subst heq
            cases heffect with
            | done hrun =>
                have hmachine : job.body.vm.isSome = true := by rw [hjob]; rfl
                obtain ⟨-, hend⟩ := (hpartway rfl (hsome hrun hmachine)).run hrun
                obtain ⟨m'', hm'', hout⟩ := hend rfl
                obtain rfl := Option.some.inj (hjob.symm.trans hm'')
                exact hout
          · exact hbusy.finished hold hjob
      refine ⟨howned, fun {m'} hm' => ?_, fun _ => ⟨cs', c, m, hcs, hall, hafter⟩⟩
      -- the machine comes back with the end of its task
      replace hm' : vm' = some m' := hm'
      rcases heffect.weight_kept (f := machines) h.owned.wf hworker (fun _ => rfl)
        Job.run_machines with ⟨-, hsame⟩ | ⟨job, rfl, hend, -⟩
      · cases (hsame.trans hvm).symm.trans hm'
      · rw [hend, hvm, Option.or_none] at hm'
        rw [hcs]
        exact hall.next (hbusy.finished hworker hm')

/-- **Step.**  Every step of the server keeps the order. -/
theorem Ordered.step (h : Ordered fp inp elf m₀ cs w) (hstep : w.Step fp inp elf a w') :
    Ordered fp inp elf m₀ (cs ++ (w.accepted a).toList) w' := by
  have howned := h.owned.step hstep
  cases a with
  | command command writeIdx =>
      rw [World.Step, World.step] at hstep
      unfold World.accepted
      dsimp only
      split at hstep
      · rename_i hzero
        obtain rfl := Option.some.inj hstep
        rw [if_neg fun hand => hand.1 hzero, Option.toList_none, List.append_nil]
        exact h
      · rename_i hzero
        cases hvm : w.vm with
        | none =>
            rw [hvm] at hstep
            obtain rfl := Option.some.inj hstep
            rw [if_neg fun hand => Bool.false_ne_true hand.2, Option.toList_none, List.append_nil]
            exact h
        | some m =>
            rw [hvm] at hstep
            obtain rfl := Option.some.inj hstep
            rw [if_pos ⟨hzero, rfl⟩, Option.toList_some]
            exact h.accept hvm howned
  | other level =>
      obtain rfl := Option.some.inj hstep
      have hnone : w.accepted (.other level) = none := rfl
      rw [hnone, Option.toList_none, List.append_nil]
      refine ⟨howned, h.idle, fun hvm => ?_⟩
      obtain ⟨cs', c, m, hcs, hall, hbusy⟩ := h.busy hvm
      refine ⟨cs', c, m, hcs, hall, ?_, fun {u job m'} hu hjob => ?_⟩
      · have hnew :
            interferes fp inp elf c m { id := w.next, first := level, body := .other } = 0 :=
          interferes_eq_zero.mpr fun hvm => by cases hvm
        rw [World.weight_hand, hbusy.alone, hnew]
      · rcases of_getElem?_append hu with ⟨-, heq⟩ | hold
        · cases heq
        · exact hbusy.finished hold hjob
  | run t choice =>
      have hnone : w.accepted (.run t choice) = none := rfl
      rw [hnone, Option.toList_none, List.append_nil]
      exact h.run hstep
  | tick ticks =>
      obtain rfl := Option.some.inj hstep
      have hnone : w.accepted (.tick ticks) = none := rfl
      rw [hnone, Option.toList_none, List.append_nil]
      refine ⟨howned, h.idle, fun hvm => ?_⟩
      obtain ⟨cs', c, m, hcs, hall, hbusy⟩ := h.busy hvm
      exact ⟨cs', c, m, hcs, hall, hbusy.alone, hbusy.finished⟩

/-! ### Runs -/

/-- **Order.**  After any run, when the connection has the machine it is what one thread
makes of the first one that carries out the accepted commands in their order.  Otherwise
this holds without the last command, and every task with a machine that a worker runs has
done a part of that. -/
theorem commands_in_order
    (hrun : Traces (World.Step fp inp elf) World.accepted (.construct workers clock m₀) cs w) :
    (∀ m, w.vm = some m → CarriesOutAll fp inp elf m₀ cs m) ∧
      (w.vm = none → ∃ cs' c m, cs = cs' ++ [c] ∧ CarriesOutAll fp inp elf m₀ cs' m ∧
        ∀ (t : Nat) (task : MLFQ.Task Job) (sliceStart : Int),
          w.threads[t]? = some (Worker.run task sliceStart) → task.id.body.vm.isSome →
            Partway fp inp elf c m task.id) := by
  have h : Ordered fp inp elf m₀ cs w :=
    hrun.invariant (ordered_construct workers clock m₀) fun h hstep => h.step hstep
  refine ⟨fun m hm => h.idle hm, fun hvm => ?_⟩
  obtain ⟨cs', c, m, hcs, hall, hbusy⟩ := h.busy hvm
  refine ⟨cs', c, m, hcs, hall, fun t task sliceStart ht hjob => ?_⟩
  have hle := worker_weight_le (f := interferes fp inp elf c m) ht
  rw [hbusy.alone] at hle
  exact interferes_eq_zero.mp (Nat.le_zero.mp hle) hjob

/-- Two steps in two slices, and a command that comes too early. -/
def earlyLoad : List Action :=
  [.command (.step 2) 0, .command .loadKernel 7] ++ twoSlices ++ [.run 0 true]

/-- The early command is dropped, and the machine has made its two steps. -/
theorem earlyLoad_in_order :
    ∃ w m, Traces BareStep World.accepted oneWorker [⟨0, .step 2, 0⟩] w ∧ w.vm = some m ∧
      CarriesOutAll noArith (fun _ _ => {}) Server.LoadKernel.oneInstruction
        (.construct 0 0 (fun _ => 0) {}) [⟨0, .step 2, 0⟩] m := by
  have hruns : (trace (World.step noArith (fun _ _ => {}) Server.LoadKernel.oneInstruction)
      World.accepted oneWorker earlyLoad).any
        (fun r => decide (r.1 = [⟨0, .step 2, 0⟩]) && r.2.vm.isSome) = true := by
    decide +kernel
  obtain ⟨⟨cs, w⟩, htrace, hruns⟩ := (Option.any_eq_true _ _).mp hruns
  obtain ⟨hcs, hvm⟩ := (Bool.and_eq_true _ _).mp hruns
  obtain rfl := of_decide_eq_true hcs
  obtain ⟨m, hm⟩ := Option.isSome_iff_exists.mp hvm
  have hrun : Traces BareStep World.accepted (.construct 1 0 (.construct 0 0 (fun _ => 0) {}))
      [⟨0, .step 2, 0⟩] w := traces_of_trace id htrace
  exact ⟨w, m, hrun, hm, (commands_in_order hrun).1 m hm⟩

end WorkerLoop
