import BobbyOS.Network.WorkerLoop

/-!
# Sinking through the levels

A task sinks by one level with every slice: `dequeue` counts its level up, and
`enqueue` reduces it below the number of levels.  As the level is counted up
before the slice, a task that was made at level 0 runs its first slice with the
quantum of level 1, and its fifth with an index that is behind the quanta; then
it starts anew.

* `step_sinking`: the level of each task follows from the number of its slices;
* `slices_sink_iff`: the levels of a task are valid and never rise exactly as long as
  it has sunk through the four levels that remain.
-/

namespace WorkerLoop

open Hardware MLFQ Run

/-! ### Levels by the number of slices -/

/-- The slices of a task without a boost: one level lower each time, from the level that
the task was made with, and round. -/
def Job.Recorded (job : Job) : Prop :=
  job.slices.map BitVec.toNat =
    (List.range job.slices.length).map fun i => (job.first.toNat + i) % LEVELS + 1

/-- The level before the next slice. -/
def Job.level (job : Job) : Nat := (job.first.toNat + job.slices.length) % LEVELS

/-- A task on its way to `push`; its level is still to be reduced. -/
def Arrives (task : MLFQ.Task Job) : Prop :=
  task.id.Recorded ∧ task.priorityLevel.toNat % LEVELS = task.id.level

/-- A task that waits in the levels. -/
def Waits (task : MLFQ.Task Job) : Prop :=
  task.id.Recorded ∧ task.priorityLevel.toNat = task.id.level

/-- A task that a dequeue has returned. -/
def Leaves (task : MLFQ.Task Job) : Prop :=
  task.id.Recorded ∧ task.priorityLevel.toNat = task.id.level + 1

/-- The task of a call of enqueue. -/
def CallerSinking : Caller Job → Prop
  | .enqueue task => Arrives task
  | .dequeue | .checkQuanta => True

/-- No thread boosts, and its task has the level that belongs to its slices. -/
def ThreadSinking : MLFQ.Thread Job → Prop
  | .readClock caller | .readBoost caller _ => CallerSinking caller
  | .exchange .. | .lockBoost _ | .boost .. => False
  | .push task | .increment (some task) => Waits task
  | .returned task => Leaves task
  | _ => True

/-- What a worker has in hand sinks. -/
def Worker.Sinking : Worker → Prop
  | .queue thread => ThreadSinking thread
  | .run task _ | .check task _ => Arrives task
  | .destroy _ => True

/-- All tasks have the levels that belong to their slices. -/
structure Sinking (w : World) : Prop where
  stored : ∀ {i : Nat} {task : MLFQ.Task Job}, task ∈ w.queue.levels i → Waits task
  threads : ∀ {t : Nat} {worker : Worker}, w.threads[t]? = some worker → worker.Sinking

/-- No thread finds that a boost is due. -/
def World.Quiet (w : World) : Action → Prop
  | .run t _ =>
      match w.threads[t]? with
      | some (.queue (.readBoost _ now)) => now - w.queue.lastBoost < BOOST_QUANTA
      | _ => True
  | _ => True

instance (w : World) (a : Action) : Decidable (w.Quiet a) := by
  unfold World.Quiet
  split
  · split <;> infer_instance
  · infer_instance

/-- Each slice has a quantum, and none is at a higher priority than the one before. -/
def Job.Sinks (job : Job) : Prop :=
  (∀ level ∈ job.slices, level.toNat < LEVELS) ∧
    (job.slices.map BitVec.toNat).Pairwise (· ≤ ·)

/-! ### What a step does -/

variable {fp : FpArith} {inp : Nat → Nat → HostInput} {elf : KernelElf} {w w' : World}
  {q q' : Queue Job} {t : Nat} {clock : Int} {thread thread' : MLFQ.Thread Job}
  {task : MLFQ.Task Job} {job : Job}

/-- The level of a job is one of the queue's. -/
theorem Job.level_lt (job : Job) : job.level < LEVELS := Nat.mod_lt _ (by decide)

/-- A call that goes on keeps its task at the level that belongs to it. -/
theorem resume_sinking {caller : Caller Job} (h : CallerSinking caller) :
    ThreadSinking (caller.resume false) := by
  cases caller with
  | enqueue task =>
      refine ⟨h.1, ?_⟩
      rw [if_neg Bool.false_ne_true, BitVec.toNat_umod]
      exact h.2
  | dequeue => trivial
  | checkQuanta => trivial

/-- A dequeue counts the level up. -/
theorem Waits.leaves (h : Waits task) :
    Leaves { task with priorityLevel := task.priorityLevel + 1 } := by
  refine ⟨h.1, ?_⟩
  have hlevel := h.2
  have hlt := task.id.level_lt
  have hone : (1#8).toNat = 1 := rfl
  have hlevels : LEVELS = 5 := rfl
  show (task.priorityLevel + 1#8).toNat = task.id.level + 1
  rw [BitVec.toNat_add, hone]
  omega

/-- A slice records the level. -/
theorem Leaves.begin (h : Leaves task) : Arrives (begin task) := by
  obtain ⟨hrecorded, hlevel⟩ := h
  have hlength : (WorkerLoop.begin task).id.slices.length = task.id.slices.length + 1 :=
    List.length_append
  constructor
  · show (task.id.slices ++ [task.priorityLevel]).map BitVec.toNat = _
    rw [hlength, List.map_append, hrecorded, List.range_succ, List.map_append, List.map_singleton,
      List.map_singleton, hlevel]
    rfl
  · show task.priorityLevel.toNat % LEVELS =
      (task.id.first.toNat + (WorkerLoop.begin task).id.slices.length) % LEVELS
    rw [hlength, hlevel, Job.level, Nat.mod_add_mod, Nat.add_assoc]

/-- A pushed task is the only new one. -/
theorem mem_push {i level : Nat} {other : MLFQ.Task Job}
    (h : other ∈ (q.push level task).levels i) : other ∈ q.levels i ∨ other = task := by
  change other ∈ Function.update q.levels level (q.levels level ++ [task]) i at h
  by_cases hi : i = level
  · rw [hi, Function.update_self, List.mem_append, List.mem_singleton] at h
    rwa [hi]
  · rw [Function.update_of_ne hi] at h
    exact Or.inl h

/-- What is left after a pop was there before. -/
theorem mem_pop {i j : Nat} {rest : List (MLFQ.Task Job)} {other : MLFQ.Task Job}
    (hlevel : q.levels i = task :: rest) (h : other ∈ (q.pop i rest).levels j) :
    other ∈ q.levels j := by
  change other ∈ Function.update q.levels i rest j at h
  by_cases hj : j = i
  · rw [hj, Function.update_self] at h
    rw [hj, hlevel]
    exact List.mem_cons_of_mem _ h
  · rwa [Function.update_of_ne hj] at h

/-- **Step in the queue.**  Levels are reduced, kept and counted up. -/
theorem step_sinking (h : thread.step q clock t = some (q', thread'))
    (hthread : ThreadSinking thread)
    (hquiet : ∀ caller now, thread = .readBoost caller now → now - q.lastBoost < BOOST_QUANTA)
    (hstored : ∀ {i : Nat} {task : MLFQ.Task Job}, task ∈ q.levels i → Waits task) :
    ThreadSinking thread' ∧
      ∀ {i : Nat} {task : MLFQ.Task Job}, task ∈ q'.levels i → Waits task := by
  cases thread.step_moves h with
  | readClock => exact ⟨hthread, hstored⟩
  | early => exact ⟨resume_sinking hthread, hstored⟩
  | @late caller now hlate => exact absurd (hquiet caller now rfl) hlate
  | win => exact absurd hthread id
  | lose => exact absurd hthread id
  | lock => exact absurd hthread id
  | raise => exact absurd hthread id
  | unlock => exact absurd hthread id
  | push =>
      refine ⟨trivial, fun {i other} hmem => ?_⟩
      rcases mem_push hmem with hold | rfl
      · exact hstored hold
      · exact hthread
  | count => exact ⟨trivial, hstored⟩
  | enter => exact ⟨trivial, hstored⟩
  | pass => exact ⟨trivial, hstored⟩
  | take _ _ htask =>
      exact ⟨hstored (htask ▸ List.mem_cons_self), fun {j other} hmem => hstored (mem_pop htask hmem)⟩
  | miss => exact ⟨trivial, hstored⟩
  | leave => exact ⟨Waits.leaves hthread, hstored⟩
  | crash => exact ⟨trivial, hstored⟩

/-- A task that was made at a level and not run yet. -/
theorem arrives_new (id : Nat) (body : Body) (level : BitVec 8) :
    Arrives ⟨{ id, first := level, body }, level⟩ := ⟨rfl, rfl⟩

/-- Behind its slice a task is on its way to the queue again. -/
theorem Arrives.run {choice again : Bool} (h : Arrives task)
    (hrun : task.id.run fp inp elf choice = .ok (again, job)) :
    Arrives { task with id := job } := by
  obtain ⟨-, hfirst, hslices⟩ := Job.run_records hrun
  obtain ⟨hrecorded, hlevel⟩ := h
  refine ⟨?_, ?_⟩
  · rw [Job.Recorded, hfirst, hslices]
    exact hrecorded
  · rw [Job.level, hfirst, hslices]
    exact hlevel

/-- A new task starts at the level of its job. -/
theorem Sinking.hand (h : Sinking w) (body : Body) (level : BitVec 8) :
    Sinking (w.hand body level) where
  stored := h.stored
  threads {t worker} ht := by
    rcases of_getElem?_append ht with ⟨-, rfl⟩ | hold
    · exact arrives_new w.next body level
    · exact h.threads hold

/-- **Step.**  Without a boost all levels follow from the slices. -/
theorem Sinking.step {a : Action} (h : Sinking w) (hquiet : w.Quiet a)
    (hstep : w.Step fp inp elf a w') : Sinking w' := by
  cases a with
  | command command writeIdx =>
      rcases World.step_command hstep with rfl | ⟨m, -, rfl⟩
      · exact h
      · exact Sinking.hand (w := { w with vm := none }) ⟨h.stored, h.threads⟩ _ _
  | other level =>
      obtain rfl := Option.some.inj hstep
      exact h.hand _ _
  | run t choice =>
      obtain ⟨worker, q', vm', worker', hworker, heffect, rfl⟩ := World.step_run hstep
      have hold := h.threads hworker
      have hnew : worker'.Sinking ∧
          ∀ {i : Nat} {task : MLFQ.Task Job}, task ∈ q'.levels i → Waits task := by
        cases heffect with
        | queue hthread =>
            refine step_sinking hthread hold (fun caller now heq => ?_) h.stored
            subst heq
            rw [World.Quiet, hworker] at hquiet
            exact hquiet
        | begins => exact ⟨Leaves.begin hold, h.stored⟩
        | returns => exact ⟨trivial, h.stored⟩
        | runs hrun => exact ⟨Arrives.run hold hrun, h.stored⟩
        | done hrun => exact ⟨trivial, h.stored⟩
        | continues => exact ⟨hold, h.stored⟩
        | expires => exact ⟨hold, h.stored⟩
        | destroys => exact ⟨trivial, h.stored⟩
      refine ⟨hnew.2, fun {u other} hu => ?_⟩
      rcases of_getElem?_set hu with ⟨-, rfl⟩ | ⟨-, hother⟩
      · exact hnew.1
      · exact h.threads hother
  | tick ticks =>
      obtain rfl := Option.some.inj hstep
      exact ⟨h.stored, h.threads⟩

/-! ### Runs -/

variable {workers : Nat} {m : Machine}

/-- **Run.**  The same after any number of slices. -/
theorem sinking_of_reaches
    (hrun : Reaches (World.Step fp inp elf) World.Quiet (.construct workers clock m) w) :
    Sinking w := by
  refine hrun.invariant ⟨fun hmem => absurd hmem List.not_mem_nil, fun {t worker} h => ?_⟩
    fun h hquiet hstep => h.step hquiet hstep
  obtain rfl := List.eq_of_mem_replicate (List.mem_of_getElem? h)
  trivial

/-- The levels of the slices, one by one. -/
theorem Job.Recorded.sinks_iff (h : job.Recorded) :
    job.Sinks ↔ job.slices.length ≤ 4 - job.first.toNat % LEVELS := by
  have hvalid : (∀ level ∈ job.slices, level.toNat < LEVELS) ↔
      ∀ i < job.slices.length, (job.first.toNat + i) % LEVELS + 1 < LEVELS := by
    rw [← List.forall_mem_map (f := BitVec.toNat) (P := (· < LEVELS)), h, List.forall_mem_map]
    exact forall_congr' fun i => by rw [List.mem_range]
  rw [Job.Sinks, hvalid]
  unfold LEVELS
  constructor
  · intro h
    by_contra hlong
    have hlast := h.1 (4 - job.first.toNat % 5) (by omega)
    omega
  · intro hshort
    refine ⟨fun i hi => by omega, ?_⟩
    rw [h, List.pairwise_map]
    unfold LEVELS
    refine List.pairwise_lt_range.imp_of_mem fun {i j} hi hj hlt => ?_
    have hj' := List.mem_range.mp hj
    omega

/-- **Levels.**  In a run without a boost, the slices of a task that a worker runs are all at
valid levels that never rise exactly as long as the levels below its first one are not used
up: for a task that was made at level 0, during four slices. -/
theorem slices_sink_iff {sliceStart : Int}
    (hrun : Reaches (World.Step fp inp elf) World.Quiet (.construct workers clock m) w)
    (h : w.threads[t]? = some (.run task sliceStart)) :
    task.id.Sinks ↔ task.id.slices.length ≤ 4 - task.id.first.toNat % LEVELS :=
  ((sinking_of_reaches hrun).threads h).1.sinks_iff

/-! ### A task that uses up its quanta -/

/-- A task that takes four slices, each with its quantum used up. -/
def fourSlices : List Action :=
  .other 0 :: arrival ++ slice 0 ++ useUp 5000000 ++ slice 1 ++ useUp 10000000 ++ slice 2 ++
    useUp 20000000 ++ slice 3

/-- A fifth one. -/
def fiveSlices : List Action := fourSlices ++ useUp 0 ++ slice 4

/-- What a worker runs. -/
def Worker.running : Worker → Option Job
  | .run task _ => some task.id
  | _ => none

/-- A task that a run comes to. -/
theorem running_of_execute (is : List Action) (slices : List (BitVec 8))
    (h : (execute (World.step noArith (fun _ _ => {}) Server.LoadKernel.oneInstruction)
      World.Quiet oneWorker is).any (fun w =>
        (w.threads[0]?.bind Worker.running).map (fun job => (job.first, job.slices)) ==
          some (0, slices)) = true) :
    ∃ w task sliceStart, Reaches BareStep World.Quiet oneWorker w ∧
      w.threads[0]? = some (.run task sliceStart) ∧ task.id.first = 0 ∧
      task.id.slices = slices := by
  obtain ⟨w, hw, hslices⟩ := (Option.any_eq_true _ _).mp h
  obtain ⟨job, hjob, hrecords⟩ := Option.map_eq_some_iff.mp (beq_iff_eq.mp hslices)
  obtain ⟨hfirst, rfl⟩ := Prod.mk.inj hrecords
  obtain ⟨worker, hworker, hrunning⟩ := Option.bind_eq_some_iff.mp hjob
  cases worker with
  | run task sliceStart =>
      obtain rfl := Option.some.inj hrunning
      exact ⟨w, task, sliceStart, reaches_of_execute id hw, hworker, hfirst, rfl⟩
  | _ => cases hrunning

/-- Four slices are in order. -/
theorem fourSlices_sink :
    ∃ w task sliceStart, Reaches BareStep World.Quiet oneWorker w ∧
      w.threads[0]? = some (.run task sliceStart) ∧ task.id.slices = [1, 2, 3, 4] ∧
      task.id.Sinks := by
  obtain ⟨w, task, sliceStart, hrun, hthread, hfirst, hslices⟩ :=
    running_of_execute fourSlices [1, 2, 3, 4] (by decide +kernel)
  refine ⟨w, task, sliceStart, hrun, hthread, hslices, (slices_sink_iff hrun hthread).mpr ?_⟩
  rw [hslices, hfirst]
  decide

/-- The fifth slice has no quantum. -/
theorem fifth_slice_has_no_quantum :
    ¬ ∀ w task sliceStart, Reaches BareStep World.Quiet oneWorker w →
      w.threads[0]? = some (.run task sliceStart) → task.id.Sinks := by
  intro hall
  obtain ⟨w, task, sliceStart, hrun, hthread, -, hslices⟩ :=
    running_of_execute fiveSlices [1, 2, 3, 4, 5] (by decide +kernel)
  have hvalid := (hall w task sliceStart hrun hthread).1 5
  rw [hslices] at hvalid
  exact absurd (hvalid (by decide)) (by decide)

end WorkerLoop
