import BobbyOS.Lib.Result
import BobbyOS.Machine.Processors
import BobbyOS.Network.LoadKernel
import BobbyOS.Network.Ownership
import BobbyOS.Network.Workers
import Mathlib.Algebra.Order.BigOperators.Group.Finset

/-!
# The loop of a worker

A worker takes a task out of the queue and calls its `run` until the task is done or
its quantum is over.  A task that is done is destroyed, the other goes back into the
queue.  Here the tasks of one connection that lives, which run its machine, go through
the queue and the workers among the tasks of all other connections; threads take their
steps in any order.

* `step_run`, `step_effect`: what a step of a worker can do;
* `step_weight`: a step keeps the sum of a quantity over all tasks, but for the task
  that it runs or destroys.
-/

namespace MLFQ

open Totals

/-! ### Quantities of tasks -/

variable {τ : Type} (f : τ → Nat)

/-- The quantity of the task that a call of enqueue has. -/
def Caller.weight : Caller τ → Nat
  | .enqueue task => f task.id
  | .dequeue | .checkQuanta => 0

/-- The quantity of the task that a thread has in the queue. -/
def Thread.weight : Thread τ → Nat
  | .readClock caller | .readBoost caller _ | .exchange caller .. | .lockBoost caller
  | .boost caller _ => caller.weight f
  | .push task | .increment (some task) | .returned task => f task.id
  | _ => 0

/-- The sum over the levels. -/
def Queue.weight (q : Queue τ) : Nat :=
  ∑ i ∈ Finset.range LEVELS, Totals.total (fun task => f task.id) (q.levels i)

variable {f} {g k : τ → Nat} {q q' : Queue τ} {clock : Int} {t : Nat} {thread thread' : Thread τ}

/-- A call that goes on carries what it carried. -/
theorem Caller.resume_weight (caller : Caller τ) (res : Bool) :
    (caller.resume res).weight f = caller.weight f := by
  cases caller <;> rfl

/-- A bound on what a task carries bounds a thread. -/
theorem Thread.weight_le_add (h : ∀ x, f x ≤ g x + k x) (thread : Thread τ) :
    thread.weight f ≤ thread.weight g + thread.weight k := by
  have hcaller (caller : Caller τ) : caller.weight f ≤ caller.weight g + caller.weight k := by
    cases caller with
    | enqueue task => exact h task.id
    | _ => exact Nat.zero_le _
  cases thread with
  | readClock caller => exact hcaller caller
  | readBoost caller now => exact hcaller caller
  | exchange caller now prev => exact hcaller caller
  | lockBoost caller => exact hcaller caller
  | boost caller i => exact hcaller caller
  | push task => exact h task.id
  | increment res =>
      cases res with
      | none => exact Nat.zero_le _
      | some task => exact h task.id
  | returned task => exact h task.id
  | _ => exact Nat.zero_le _

/-- It bounds the queue. -/
theorem Queue.weight_le_add (h : ∀ x, f x ≤ g x + k x) (q : Queue τ) :
    q.weight f ≤ q.weight g + q.weight k := by
  rw [Queue.weight, Queue.weight, Queue.weight, ← Finset.sum_add_distrib]
  exact Finset.sum_le_sum fun i _ => total_le_add (fun task => h task.id) (q.levels i)

/-- **Step.**  No task comes or goes in the queue. -/
theorem Thread.step_weight (h : thread.step q clock t = some (q', thread')) (hwf : thread.WF) :
    q'.weight f + thread'.weight f = q.weight f + thread.weight f := by
  cases thread.step_moves h with
  | readClock => rfl
  | @early caller now _ =>
      rw [caller.resume_weight]
      rfl
  | late => rfl
  | win => rfl
  | @lose caller now prev _ =>
      rw [caller.resume_weight]
      rfl
  | lock => rfl
  | @raise caller i hlt =>
      have hraise : (q.raise i).weight f = q.weight f := by
        refine sum_raise (f := total fun task => f task.id) hwf hlt rfl fun l m => ?_
        rw [total, total, total, List.map_append, List.map_map, List.map_reverse,
          List.sum_append, List.sum_reverse]
        rfl
      rw [hraise]
      rfl
  | @unlock caller i _ =>
      rw [caller.resume_weight]
      rfl
  | @push task _ =>
      have hsum := sum_update (total fun task => f task.id) hwf q.levels
        (q.levels task.priorityLevel.toNat ++ [task])
      rw [total_append] at hsum
      show (∑ i ∈ Finset.range LEVELS, total (fun task => f task.id)
        (Function.update q.levels task.priorityLevel.toNat _ i)) + 0 =
          (∑ i ∈ Finset.range LEVELS, total (fun task => f task.id) (q.levels i)) + f task.id
      omega
  | count => rfl
  | enter => rfl
  | pass => rfl
  | @take i task rest hlt _ htask =>
      have hsum := sum_update (total fun task => f task.id) hlt q.levels rest
      have hold : total (fun task => f task.id) (q.levels i) =
          f task.id + total (fun task => f task.id) rest := by
        rw [htask, total, List.map_cons, List.sum_cons]
        rfl
      show (∑ j ∈ Finset.range LEVELS, total (fun task => f task.id)
        (Function.update q.levels i rest j)) + f task.id =
          (∑ j ∈ Finset.range LEVELS, total (fun task => f task.id) (q.levels j)) + 0
      omega
  | miss => rfl
  | leave => rfl
  | crash => rfl

end MLFQ

namespace WorkerLoop

open Hardware MLFQ Run Server Totals

/-! ### Tasks -/

/-- What a task is: one that has the pointer `vm` to the machine of the connection, or
any task of another connection or without a machine. -/
inductive Body
  | step (count : Nat) (vm : Option Machine)
  | loadKernel (t : LoadKernel) (vm : Option Machine)
  | other

/-- A task.  Its identity, the level that it was made with, the levels of its slices and
the number of its cycles are recorded only to speak about them. -/
structure Job where
  id : Nat
  first : BitVec 8 := 0
  body : Body
  slices : List (BitVec 8) := []
  cycles : Nat := 0

/-- The machine of a `VMTask`. -/
def Body.vm : Body → Option Machine
  | .step _ vm | .loadKernel _ vm => vm
  | .other => none

/-- The task that `generateTask` makes with the machine; a new `LoadKernel` leaves
`writeIdx` as it is in memory. -/
def Body.make (writeIdx : Word) (m : Machine) : VMCommand → Body
  | .step count => .step count (some m)
  | .loadKernel => .loadKernel { writeIdx } (some m)

/-- `TIME_QUANTA`, in milliseconds: the fifth entry is not given. -/
def TIME_QUANTA : List Int := [1, 5, 10, 20, 0]

/-- `now - sliceStart < timeLimit`, in the ticks of the clock; what is read behind the
array is anything. -/
def inTime (level : BitVec 8) (elapsed : Int) (anything : Bool) : Bool :=
  match TIME_QUANTA[level.toNat]? with
  | some quantum => decide (elapsed < quantum * 1000000)
  | none => anything

section Definitions

variable (fp : FpArith) (inp : Nat → Nat → HostInput) (elf : KernelElf)

/-- A call of `run`, while the connection lives: whether the task asks for another one.
`inp` has the inputs of each task, cycle by cycle, and `choice` is the answer of a task
of another connection.  There is no task when the call ends the server. -/
def Job.run (job : Job) (choice : Bool) : Except Fault (Bool × Job) :=
  match job.body with
  | .step (count + 1) (some m) =>
      if m.killed then .ok (false, job)
      else do
        let (m, _) ← m.cycle fp (inp job.id job.cycles)
        .ok (true, { job with body := .step count (some m), cycles := job.cycles + 1 })
  | .step _ _ => .ok (false, job)
  | .loadKernel t (some m) => do
      let (again, t, m) ← t.run elf m
      .ok (again, { job with body := .loadKernel t (some m) })
  | .loadKernel _ none => .ok (false, job)
  | .other => .ok (choice, job)

end Definitions

/-- The slice of a task begins. -/
def begin (task : MLFQ.Task Job) : MLFQ.Task Job :=
  { task with id := { task.id with slices := task.id.slices ++ [task.priorityLevel] } }

/-! ### Workers -/

/-- What a thread does next: something in the queue, or in the loop of a worker.  The
main thread enqueues tasks, and each of them is followed by itself. -/
inductive Worker
  | queue (thread : MLFQ.Thread Job)
  | run (task : MLFQ.Task Job) (sliceStart : Int)
  | check (task : MLFQ.Task Job) (sliceStart : Int)
  | destroy (job : Job)

/-- The queue, the clock, the threads, of which the first are the workers, and the pointer
`vm` of the connection. -/
structure World where
  queue : Queue Job
  clock : Int
  workers : Nat
  threads : List Worker
  vm : Option Machine
  next : Nat := 0

/-- The connection gets a command, any other task is enqueued, thread `t` takes a step, or
time passes. -/
inductive Action
  | command (command : VMCommand) (writeIdx : Word)
  | other (level : BitVec 8)
  | run (t : Nat) (choice : Bool)
  | tick (ticks : Nat)

/-- A new task is handed to the queue. -/
def World.hand (w : World) (body : Body) (level : BitVec 8) : World :=
  { w with
    next := w.next + 1
    threads := w.threads ++
      [.queue (Call.enqueue (some ⟨{ id := w.next, first := level, body }, level⟩)).start] }

section Definitions

variable (fp : FpArith) (inp : Nat → Nat → HostInput) (elf : KernelElf)

/-- The next step of thread `t`: the queue, the pointer of the connection, and where the
thread goes on. -/
def Worker.step (w : World) (t : Nat) (choice : Bool) :
    Worker → Option (Queue Job × Option Machine × Worker)
  | .queue (.returned task) => some (w.queue, w.vm, .run (begin task) w.clock)
  | .queue (.enqueued _) =>
      if t < w.workers then some (w.queue, w.vm, .queue Call.dequeue.start) else none
  | .queue thread =>
      (thread.step w.queue w.clock t).map fun (q, thread) => (q, w.vm, .queue thread)
  | .run task sliceStart =>
      match task.id.run fp inp elf choice with
      | .ok (true, job) => some (w.queue, w.vm, .check { task with id := job } sliceStart)
      | .ok (false, job) => some (w.queue, w.vm, .destroy job)
      | .error _ => none
  | .check task sliceStart =>
      if inTime task.priorityLevel (w.clock - sliceStart) choice then
        some (w.queue, w.vm, .run task sliceStart)
      else some (w.queue, w.vm, .queue (Call.enqueue (some task)).start)
  -- `~VMTask` while the connection lives
  | .destroy job => some (w.queue, job.body.vm.or w.vm, .queue Call.dequeue.start)

namespace World

/-- The workers wait for tasks, and the connection has a machine. -/
def construct (workers : Nat) (clock : Int) (m : Machine) : World where
  queue := { lastBoost := clock }
  clock := clock
  workers := workers
  threads := List.replicate workers (.queue Call.dequeue.start)
  vm := some m

/-- The world after an action.  A command that does not find the machine, or asks for no
step, makes no task. -/
def step (w : World) : Action → Option World
  | .command command writeIdx =>
      if command = .step 0 then some w
      else
        match w.vm with
        | none => some w
        | some m => some ({ w with vm := none }.hand (.make writeIdx m command) 0)
  | .other level => some (w.hand .other level)
  | .run t choice =>
      match w.threads[t]? with
      | none => none
      | some worker =>
          (worker.step fp inp elf w t choice).map fun (queue, vm, worker) =>
            { w with queue, vm, threads := w.threads.set t worker }
  | .tick ticks => some { w with clock := w.clock + ticks }

/-- A step of the world is an action. -/
def Step (w : World) (a : Action) (w' : World) : Prop := w.step fp inp elf a = some w'

end World

end Definitions

/-! ### What a step does -/

variable {fp : FpArith} {inp : Nat → Nat → HostInput} {elf : KernelElf} {w w' : World}
  {t : Nat} {choice : Bool} {worker worker' : Worker} {q' : Queue Job} {vm' : Option Machine}
  {job job' : Job}

/-- The steps of a thread. -/
inductive Effect (fp : FpArith) (inp : Nat → Nat → HostInput) (elf : KernelElf) (w : World)
    (t : Nat) : Worker → Queue Job → Option Machine → Worker → Prop
  | queue {thread thread' : MLFQ.Thread Job} {q' : Queue Job}
      (hstep : thread.step w.queue w.clock t = some (q', thread')) :
      Effect fp inp elf w t (.queue thread) q' w.vm (.queue thread')
  | begins {task : MLFQ.Task Job} :
      Effect fp inp elf w t (.queue (.returned task)) w.queue w.vm (.run (begin task) w.clock)
  | returns {job : Job} :
      Effect fp inp elf w t (.queue (.enqueued job)) w.queue w.vm (.queue Call.dequeue.start)
  | runs {task : MLFQ.Task Job} {sliceStart : Int} {choice : Bool} {job : Job}
      (hrun : task.id.run fp inp elf choice = .ok (true, job)) :
      Effect fp inp elf w t (.run task sliceStart) w.queue w.vm
        (.check { task with id := job } sliceStart)
  | done {task : MLFQ.Task Job} {sliceStart : Int} {choice : Bool} {job : Job}
      (hrun : task.id.run fp inp elf choice = .ok (false, job)) :
      Effect fp inp elf w t (.run task sliceStart) w.queue w.vm (.destroy job)
  | continues {task : MLFQ.Task Job} {sliceStart : Int} :
      Effect fp inp elf w t (.check task sliceStart) w.queue w.vm (.run task sliceStart)
  | expires {task : MLFQ.Task Job} {sliceStart : Int} :
      Effect fp inp elf w t (.check task sliceStart) w.queue w.vm
        (.queue (Call.enqueue (some task)).start)
  | destroys {job : Job} :
      Effect fp inp elf w t (.destroy job) w.queue (job.body.vm.or w.vm)
        (.queue Call.dequeue.start)

/-- **Inversion.**  Every step has one of the effects. -/
theorem Worker.step_effect (h : worker.step fp inp elf w t choice = some (q', vm', worker')) :
    Effect fp inp elf w t worker q' vm' worker' := by
  cases worker with
  | queue thread =>
      have hinside (hthread : (thread.step w.queue w.clock t).map
          (fun (q, thread) => (q, w.vm, Worker.queue thread)) = some (q', vm', worker')) :
          Effect fp inp elf w t (.queue thread) q' vm' worker' := by
        obtain ⟨⟨q, thread'⟩, hstep, heq⟩ := Option.map_eq_some_iff.mp hthread
        obtain ⟨rfl, hrest⟩ := Prod.mk.inj heq
        obtain ⟨rfl, rfl⟩ := Prod.mk.inj hrest
        exact .queue hstep
      cases thread with
      | returned task =>
          obtain ⟨rfl, hrest⟩ := Prod.mk.inj (Option.some.inj h)
          obtain ⟨rfl, rfl⟩ := Prod.mk.inj hrest
          exact .begins
      | enqueued id =>
          rw [Worker.step] at h
          split at h
          · obtain ⟨rfl, hrest⟩ := Prod.mk.inj (Option.some.inj h)
            obtain ⟨rfl, rfl⟩ := Prod.mk.inj hrest
            exact .returns
          · cases h
      | _ => exact hinside h
  | run task sliceStart =>
      rw [Worker.step] at h
      split at h
      · rename_i hrun
        obtain ⟨rfl, hrest⟩ := Prod.mk.inj (Option.some.inj h)
        obtain ⟨rfl, rfl⟩ := Prod.mk.inj hrest
        exact .runs hrun
      · rename_i hrun
        obtain ⟨rfl, hrest⟩ := Prod.mk.inj (Option.some.inj h)
        obtain ⟨rfl, rfl⟩ := Prod.mk.inj hrest
        exact .done hrun
      · cases h
  | check task sliceStart =>
      rw [Worker.step] at h
      split at h
      · obtain ⟨rfl, hrest⟩ := Prod.mk.inj (Option.some.inj h)
        obtain ⟨rfl, rfl⟩ := Prod.mk.inj hrest
        exact .continues
      · obtain ⟨rfl, hrest⟩ := Prod.mk.inj (Option.some.inj h)
        obtain ⟨rfl, rfl⟩ := Prod.mk.inj hrest
        exact .expires
  | destroy job =>
      obtain ⟨rfl, hrest⟩ := Prod.mk.inj (Option.some.inj h)
      obtain ⟨rfl, rfl⟩ := Prod.mk.inj hrest
      exact .destroys

/-- A turn of a worker has an effect on the queue and the machine. -/
theorem World.step_run (h : w.Step fp inp elf (.run t choice) w') :
    ∃ worker q' vm' worker', w.threads[t]? = some worker ∧
      Effect fp inp elf w t worker q' vm' worker' ∧
      w' = { w with queue := q', vm := vm', threads := w.threads.set t worker' } := by
  rw [World.Step, World.step] at h
  split at h
  · cases h
  · rename_i worker hworker
    obtain ⟨⟨q', vm', worker'⟩, hstep, rfl⟩ := Option.map_eq_some_iff.mp h
    exact ⟨worker, q', vm', worker', hworker, worker.step_effect hstep, rfl⟩

/-- A command makes a task of the machine, or nothing. -/
theorem World.step_command {command : VMCommand} {writeIdx : Word}
    (h : w.Step fp inp elf (.command command writeIdx) w') :
    w' = w ∨ ∃ m, w.vm = some m ∧
      w' = { w with vm := none }.hand (.make writeIdx m command) 0 := by
  rw [World.Step, World.step] at h
  split at h
  · exact Or.inl (Option.some.inj h).symm
  · split at h
    · exact Or.inl (Option.some.inj h).symm
    · rename_i m hm
      exact Or.inr ⟨m, hm, (Option.some.inj h).symm⟩

/-- A call of `run` changes the machine and the number of the cycles only. -/
theorem Job.run_records {again : Bool} (h : job.run fp inp elf choice = .ok (again, job')) :
    job'.id = job.id ∧ job'.first = job.first ∧ job'.slices = job.slices := by
  rw [Job.run] at h
  split at h
  · split at h
    · obtain ⟨-, rfl⟩ := Prod.mk.inj (Except.ok.inj h)
      exact ⟨rfl, rfl, rfl⟩
    · obtain ⟨r, -, hr⟩ := Except.bind_ok_iff.mp h
      obtain ⟨-, rfl⟩ := Prod.mk.inj (Except.ok.inj hr)
      exact ⟨rfl, rfl, rfl⟩
  · obtain ⟨-, rfl⟩ := Prod.mk.inj (Except.ok.inj h)
    exact ⟨rfl, rfl, rfl⟩
  · obtain ⟨r, -, hr⟩ := Except.bind_ok_iff.mp h
    obtain ⟨-, rfl⟩ := Prod.mk.inj (Except.ok.inj hr)
    exact ⟨rfl, rfl, rfl⟩
  · obtain ⟨-, rfl⟩ := Prod.mk.inj (Except.ok.inj h)
    exact ⟨rfl, rfl, rfl⟩
  · obtain ⟨-, rfl⟩ := Prod.mk.inj (Except.ok.inj h)
    exact ⟨rfl, rfl, rfl⟩

/-! ### Quantities of all tasks -/

/-- The quantity of the task that a thread has. -/
def Worker.weight (f : Job → Nat) : Worker → Nat
  | .queue thread => thread.weight f
  | .run task _ | .check task _ => f task.id
  | .destroy job => f job

/-- The sum over all tasks. -/
def World.weight (f : Job → Nat) (w : World) : Nat :=
  w.queue.weight f + total (Worker.weight f) w.threads

/-- The threads in the queue are where they can be. -/
def World.WF (w : World) : Prop :=
  ∀ {t : Nat} {thread : MLFQ.Thread Job}, w.threads[t]? = some (.queue thread) → thread.WF

variable {f g k : Job → Nat}

/-- A bound on what a task carries bounds the world. -/
theorem World.weight_le_add (h : ∀ job, f job ≤ g job + k job) (w : World) :
    w.weight f ≤ w.weight g + w.weight k := by
  have hworker (worker : Worker) : worker.weight f ≤ worker.weight g + worker.weight k := by
    cases worker with
    | queue thread => exact thread.weight_le_add h
    | run task sliceStart => exact h task.id
    | check task sliceStart => exact h task.id
    | destroy job => exact h job
  have hqueue := w.queue.weight_le_add h
  have hthreads := total_le_add hworker w.threads
  rw [World.weight, World.weight, World.weight]
  omega

/-- A thread takes a step. -/
theorem World.weight_set (hworker : w.threads[t]? = some worker) (q' : Queue Job)
    (vm' : Option Machine) (worker' : Worker) :
    World.weight f { w with queue := q', vm := vm', threads := w.threads.set t worker' } +
        (w.queue.weight f + worker.weight f) =
      w.weight f + (q'.weight f + worker'.weight f) := by
  have hset := total_set (Worker.weight f) hworker worker'
  show q'.weight f + total (Worker.weight f) (w.threads.set t worker') + _ =
    w.queue.weight f + total (Worker.weight f) w.threads + _
  omega

/-- A new task adds its own. -/
theorem World.weight_hand (body : Body) (level : BitVec 8) :
    (w.hand body level).weight f = w.weight f + f { id := w.next, first := level, body } := by
  show w.queue.weight f + total (Worker.weight f) (w.threads ++ [_]) = _
  rw [total_append, World.weight, Nat.add_assoc]
  rfl

/-- **Quantities.**  One that does not look at the slices changes only with a call of `run`
and with the end of a task. -/
theorem Effect.weight_cases (h : Effect fp inp elf w t worker q' vm' worker') (hwf : w.WF)
    (hworker : w.threads[t]? = some worker) (hslices : ∀ task, f (begin task).id = f task.id) :
    (q'.weight f + worker'.weight f = w.queue.weight f + worker.weight f ∧ vm' = w.vm) ∨
      (∃ task sliceStart choice again job, worker = .run task sliceStart ∧
        task.id.run fp inp elf choice = .ok (again, job) ∧ q' = w.queue ∧ vm' = w.vm ∧
        worker'.weight f = f job) ∨
      ∃ job, worker = .destroy job ∧ q' = w.queue ∧ vm' = job.body.vm.or w.vm ∧
        worker'.weight f = 0 := by
  cases h with
  | queue hstep => exact Or.inl ⟨Thread.step_weight hstep (hwf hworker), rfl⟩
  | @begins task =>
      refine Or.inl ⟨?_, rfl⟩
      show _ + f (begin task).id = _ + f task.id
      rw [hslices]
  | returns => exact Or.inl ⟨rfl, rfl⟩
  | runs hrun => exact Or.inr (Or.inl ⟨_, _, _, _, _, rfl, hrun, rfl, rfl, rfl⟩)
  | done hrun => exact Or.inr (Or.inl ⟨_, _, _, _, _, rfl, hrun, rfl, rfl, rfl⟩)
  | continues => exact Or.inl ⟨rfl, rfl⟩
  | expires => exact Or.inl ⟨rfl, rfl⟩
  | destroys => exact Or.inr (Or.inr ⟨_, rfl, rfl, rfl, rfl⟩)

/-- A new world is well formed. -/
theorem wf_construct {workers : Nat} {clock : Int} {m : Machine} :
    (World.construct workers clock m).WF := by
  intro t thread h
  obtain heq := List.eq_of_mem_replicate (List.mem_of_getElem? h)
  obtain rfl := Worker.queue.inj heq
  trivial

/-- A task that is handed over keeps it so. -/
theorem World.WF.hand (h : w.WF) (body : Body) (level : BitVec 8) : (w.hand body level).WF := by
  intro t thread ht
  rcases of_getElem?_append ht with ⟨-, heq⟩ | hold
  · rw [Worker.queue.inj heq]
    exact (Call.start_plain _).1
  · exact h hold

/-- **Step.**  The threads stay where they can be. -/
theorem World.WF.step {a : Action} (h : w.WF) (hstep : w.Step fp inp elf a w') : w'.WF := by
  cases a with
  | command command writeIdx =>
      rcases World.step_command hstep with rfl | ⟨m, -, rfl⟩
      · exact h
      · exact World.WF.hand (w := { w with vm := none }) h _ _
  | other level =>
      obtain rfl := Option.some.inj hstep
      exact h.hand _ _
  | run t choice =>
      obtain ⟨worker, q', vm', worker', hworker, heffect, rfl⟩ := World.step_run hstep
      intro u thread hu
      rcases of_getElem?_set hu with ⟨-, heq⟩ | ⟨-, hold⟩
      · subst heq
        cases heffect with
        | queue hthread => exact (Thread.step_effect hthread).wf (h hworker)
        | returns => exact (Call.start_plain (Call.dequeue : Call Job)).1
        | expires => exact (Call.start_plain (Call.enqueue (some _))).1
        | destroys => exact (Call.start_plain (Call.dequeue : Call Job)).1
      · exact h hold
  | tick ticks =>
      obtain rfl := Option.some.inj hstep
      exact h

/-! ### One worker -/

/-- A server with one worker. -/
def oneWorker : World := .construct 1 0 (.construct 0 0 (fun _ => 0) {})

/-- No floating-point unit. -/
def noArith : FpArith := ⟨fun _ _ _ => 0, fun _ _ _ => 0⟩

/-- The steps on a host without files. -/
abbrev BareStep : World → Action → World → Prop :=
  World.Step noArith (fun _ _ => {}) Server.LoadKernel.oneInstruction

/-- A task comes to level 0. -/
def arrival : List Action := List.replicate 4 (.run 1 true)

/-- The worker dequeues a task from a level and begins its slice. -/
def slice (level : Nat) : List Action := List.replicate (level + 6) (.run 0 true)

/-- The task runs until its quantum is over, and is enqueued again. -/
def useUp (ticks : Nat) : List Action :=
  [.run 0 true, .tick ticks, .run 0 false] ++ List.replicate 5 (.run 0 true)

end WorkerLoop
