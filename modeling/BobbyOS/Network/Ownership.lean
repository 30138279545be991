import BobbyOS.Lib.Run
import BobbyOS.Lib.Totals
import BobbyOS.Network.Connection
import Mathlib.Data.Bool.Basic

/-!
# Who owns the machine

A connection is created with a machine.  A command moves the machine to a task,
the task runs on any worker, a slice at a time, and its destructor moves the
machine back, or deletes it when the connection is gone.  The list of the
server, the main thread and the workers share the connection through counted
references, and the last one to drop its reference runs the destructor of the
connection.  A step here is an access to the counter, to an atomic pointer, to
the list or to the queue, and threads take their steps in any order.  Other
connections share nothing with this one but the threads.

* `machine_owned`: the machine has exactly one owner until it is deleted, and is
  deleted once and in time, in every run in which no event comes to a connection
  that is gone, and none that kills or commands it after it was killed.
-/

namespace Server

open WebSocket Run Totals

/-! ### Commands -/

/-- The commands whose task takes the machine. -/
inductive VMCommand
  | loadKernel
  | step (count : Nat)
deriving DecidableEq

/-- What `generateTask` makes a task of. -/
inductive Command
  | forward (data : List Byte)
  | terminate
  | vm (command : VMCommand)
deriving DecidableEq

/-- `isspace`. -/
def isSpace (c : Byte) : Bool := c = 32 ∨ 9 ≤ c ∧ c ≤ 13

/-- `isdigit`. -/
def isDigit (c : Byte) : Bool := 48 ≤ c ∧ c ≤ 57

/-- `std::atoi`, for numbers that an `int` holds. -/
def atoi (s : List Byte) : Int :=
  let digits (s : List Byte) : Nat :=
    (s.takeWhile isDigit).foldl (fun n c => n * 10 + (c.toNat - 48)) 0
  match s.dropWhile isSpace with
  | 45 :: s => - (digits s : Int)
  | 43 :: s => digits s
  | s => digits s

/-- The part of `generateTask` that reads the string; a command without a task
is none. -/
def Command.parse (str : List Byte) : Option Command :=
  if 32 ∈ str then
    let loc := str.idxOf 32
    let command := str.take loc
    let args := str.drop (loc + 1)
    if command = chars "FORWARD" then some (.forward args)
    else if command = chars "TERMINATE" then some .terminate
    else if command = chars "LOAD_KERNEL" then some (.vm .loadKernel)
    else if command = chars "STEP" then
      let count := (atoi args % 2 ^ 64).toNat
      if count = 0 then none else some (.vm (.step count))
    else none
  else none

/-! ### The system -/

/-- A task; `vm` says whether the pointer of a `VMTask` is the machine or null. -/
inductive Task
  | forward (data : List Byte)
  | terminate
  | vmTask (command : VMCommand) (vm : Bool)

/-- Whether the task has the machine. -/
def Task.vm : Task → Bool
  | .forward _ | .terminate => false
  | .vmTask _ vm => vm

/-- Where a thread stands while it has no reference to the connection.  The first
two are points of the main thread, the others of a worker. -/
inductive Point
  | epoll
  | enqueue (task : Task)
  | ready
  | again (task : Task)
  | destroy (task : Task)

/-- What a thread does next. -/
inductive Thread
  | at (p : Point)
  -- the main thread, in `dispatch` and `generateTask`
  | dispatch
  | handle
  | lock (command : VMCommand)
  | exchange (command : VMCommand)
  | store (command : VMCommand)
  -- a worker, in `run` and in `~VMTask`
  | run (task : Task)
  | running (task : Task)
  | take (vm locked : Bool)
  | settle (m locked : Bool)
  -- the end of a reference, and `~Connection`
  | release (p : Point)
  | close (p : Point)
  | reclaim (p : Point)
  | drop (m : Bool) (p : Point)

/-- What the threads share: whether the list has the connection, the counter of
its references, whether `Connection::vm` is the machine, whether the socket is
open, how often the machine was deleted, the queue, and whether anything
undefined has happened. -/
structure Shared where
  listed : Bool := true
  refs : Nat := 1
  vm : Bool := true
  registered : Bool := true
  deletions : Nat := 0
  queue : List Task := []
  undefined : Bool := false

/-- What an event comes to. -/
inductive Event
  | kill
  | command (str : List Byte)
  | quiet

/-- What is not decided by the state: what an event comes to, which task is next,
and whether a call of `run` asks for another one and is granted it. -/
inductive Choice
  | go
  | event (e : Event)
  | dequeue (i : Nat)
  | more (b : Bool)

/-- `container->erase(self)`; the reference of the list is dropped next. -/
def Shared.kill (s : Shared) : Shared × Thread :=
  if s.listed then ({ s with listed := false }, .release .epoll)
  else ({ s with undefined := true }, .at .epoll)

/-- `generateTask` up to `conn.lock()`; the argument `*self` is read from the
list. -/
def Shared.generate (s : Shared) (command : Command) : Shared × Thread :=
  if s.listed then
    match command with
    | .forward data => (s, .at (.enqueue (.forward data)))
    | .terminate => (s, .at (.enqueue .terminate))
    | .vm command => (s, .lock command)
  else ({ s with undefined := true }, .at .epoll)

/-- A step of the machine, or of its loading; the machine must not be deleted. -/
def Shared.access (s : Shared) : Shared :=
  { s with undefined := s.undefined || decide (0 < s.deletions) }

/-- The rest of `run` once it has its reference, and where the worker goes on. -/
def Task.run (s : Shared) (more : Bool) : Task → Shared × Thread
  | .forward data => (s, .release (.destroy (.forward data)))
  | .terminate => (s, .release (.destroy .terminate))
  | .vmTask command false => (s, .release (.destroy (.vmTask command false)))
  | .vmTask command true =>
      if more then
        match command with
        | .loadKernel => (s.access, .release (.again (.vmTask .loadKernel true)))
        | .step count => (s.access, .release (.again (.vmTask (.step (count - 1)) true)))
      else (s.access, .release (.destroy (.vmTask command true)))

/-- Whether `run` returns before it asks for a reference. -/
def Task.finished : Task → Bool
  | .vmTask (.step count) _ => count = 0
  | _ => false

/-- One atomic step of a worker. -/
def Thread.step (s : Shared) (choice : Choice) : Thread → Option (Shared × Thread)
  | .at .epoll => if s.registered then some (s, .dispatch) else none
  | .dispatch =>
      if 0 < s.refs then some (s, .handle) else some ({ s with undefined := true }, .at .epoll)
  | .handle =>
      match choice with
      | .event e =>
          if 0 < s.refs then
            match e with
            | .kill => some s.kill
            | .command str =>
                match Command.parse str with
                | some command => some (s.generate command)
                | none => some (s, .at .epoll)
            | .quiet => some (s, .at .epoll)
          else some ({ s with undefined := true }, .at .epoll)
      | _ => none
  | .lock command =>
      if s.refs = 0 then some (s, .at .epoll)
      else some ({ s with refs := s.refs + 1 }, .exchange command)
  | .exchange command =>
      some ({ s with vm := false }, if s.vm then .store command else .release .epoll)
  | .store command => some (s, .release (.enqueue (.vmTask command true)))
  | .at (.enqueue task) => some ({ s with queue := s.queue ++ [task] }, .at .epoll)
  | .at .ready =>
      match choice with
      | .dequeue i =>
          s.queue[i]?.map fun task => ({ s with queue := s.queue.eraseIdx i }, .run task)
      | _ => none
  | .run task =>
      if task.finished ∨ s.refs = 0 then some (s, .at (.destroy task))
      else some ({ s with refs := s.refs + 1 }, .running task)
  | .running task =>
      match choice with
      | .more b => some (task.run s b)
      | _ => none
  | .at (.again task) =>
      match choice with
      | .more true => some (s, .run task)
      | .more false => some ({ s with queue := s.queue ++ [task] }, .at .ready)
      | _ => none
  | .at (.destroy task) =>
      match task with
      | .forward _ | .terminate => some (s, .at .ready)
      | .vmTask _ vm =>
          if s.refs = 0 then some (s, .take vm false)
          else some ({ s with refs := s.refs + 1 }, .take vm true)
  | .take vm locked => some (s, .settle vm locked)
  | .settle m locked =>
      if locked then some (if m then { s with vm := true } else s, .release .ready)
      else some (if m then { s with deletions := s.deletions + 1 } else s, .at .ready)
  | .release p =>
      some ({ s with refs := s.refs - 1 }, if s.refs = 1 then .close p else .at p)
  | .close p => some ({ s with registered := false }, .reclaim p)
  | .reclaim p => some ({ s with vm := false }, .drop s.vm p)
  | .drop m p => some (if m then { s with deletions := s.deletions + 1 } else s, .at p)

/-- The connection, its tasks and all threads. -/
structure World where
  shared : Shared
  threads : List Thread

/-- A step of thread `t`. -/
structure Action where
  t : Nat
  choice : Choice

namespace World

/-- The connection is accepted; the main thread is the first. -/
def construct (workers : Nat) : World :=
  ⟨{}, .at .epoll :: List.replicate workers (.at .ready)⟩

/-- The world after an action; nothing goes on after something undefined. -/
def step (w : World) (a : Action) : Option World :=
  if w.shared.undefined then none
  else
    match w.threads[a.t]? with
    | none => none
    | some thread =>
        (thread.step w.shared a.choice).map fun (shared, thread) =>
          ⟨shared, w.threads.set a.t thread⟩

/-- A step of the world is one of a worker. -/
def Step (w : World) (a : Action) (w' : World) : Prop := w.step a = some w'

end World

/-! ### Owners -/

/-- A task holds the machine or not. -/
def Task.holds (task : Task) : Nat := task.vm.toNat

/-- What is held at a point of the worker loop. -/
def Point.holds : Point → Nat
  | .enqueue task | .again task | .destroy task => task.holds
  | .epoll | .ready => 0

/-- Whether the thread has a task with the machine, or the machine in transit. -/
def Thread.holds : Thread → Nat
  | .at p | .release p | .close p | .reclaim p => p.holds
  | .dispatch | .handle | .lock _ | .exchange _ => 0
  | .store _ => 1
  | .run task | .running task => task.holds
  | .take vm _ => vm.toNat
  | .settle m _ => m.toNat
  | .drop m p => m.toNat + p.holds

/-- The owners of the machine: the connection, the tasks in the queue, and the
threads. -/
def World.owners (w : World) : Nat :=
  w.shared.vm.toNat + total Task.holds w.shared.queue + total Thread.holds w.threads

/-- The thread has no task and is not in the destructor of the connection. -/
def Thread.Idle : Thread → Prop
  | .at .epoll | .at .ready | .dispatch | .handle => True
  | _ => False

/-- The connection and all its tasks are gone. -/
def World.Gone (w : World) : Prop :=
  w.shared.refs = 0 ∧ w.shared.queue = [] ∧ ∀ thread ∈ w.threads, thread.Idle

/-- Nothing undefined has happened, the machine has one owner until it is deleted
once, and it is deleted when nobody is left to do it. -/
def World.Owned (w : World) : Prop :=
  w.shared.undefined = false ∧ w.shared.deletions + w.owners = 1 ∧
    (w.Gone → w.shared.deletions = 1)

/-- Whether the list is used for an event. -/
def Event.usesList : Event → Bool
  | .kill => true
  | .command str => (Command.parse str).isSome
  | .quiet => false

/-- An event of the connection is handled only while the connection exists, and
it neither kills nor commands it after it was killed. -/
def World.Careful (w : World) (a : Action) : Prop :=
  match w.threads[a.t]?, a.choice with
  | some .dispatch, _ => 0 < w.shared.refs
  | some .handle, .event e => 0 < w.shared.refs ∧ (e.usesList → w.shared.listed)
  | _, _ => True

instance (w : World) (a : Action) : Decidable (w.Careful a) := by
  unfold World.Careful
  split <;> infer_instance

/-! ### What a step does -/

/-- The owners of the machine that are no threads. -/
def Shared.holds (s : Shared) : Nat := s.vm.toNat + total Task.holds s.queue

/-- Whether the thread has a reference to the connection. -/
def Thread.locks : Thread → Nat
  | .exchange _ | .store _ | .running _ | .release _ => 1
  | .take _ locked | .settle _ locked => locked.toNat
  | _ => 0

/-- Whether the thread is in the destructor of the connection and has not taken
its pointer yet. -/
def Thread.closing : Thread → Nat
  | .close _ | .reclaim _ => 1
  | _ => 0

/-- Whether the step does something undefined: it uses the connection or the
machine after its end, or a place in the list that is gone. -/
def Thread.errs (s : Shared) (choice : Choice) : Thread → Bool
  | .dispatch => s.refs = 0
  | .handle =>
      match choice with
      | .event e => decide (s.refs = 0) || (e.usesList && !s.listed)
      | _ => false
  | .running task => task.vm && decide (0 < s.deletions)
  | _ => false

/-- What every step keeps: the difference between the counter and the references,
the owners and the deletions, and that a pointer of a connection that is gone is
about to be taken. -/
structure Balanced (s : Shared) (thread : Thread) (s' : Shared) (thread' : Thread)
    (errs : Bool) : Prop where
  refs : s'.refs + s.listed.toNat + thread.locks = s.refs + s'.listed.toNat + thread'.locks
  owners : s'.deletions + s'.holds + thread'.holds = s.deletions + s.holds + thread.holds
  closing : s'.refs = 0 → s'.vm = true →
    (s.refs = 0 ∧ s.vm = true ∧ thread.closing ≤ thread'.closing) ∨ 0 < thread'.closing
  undefined : s'.undefined = (s.undefined || errs)

variable {s s' : Shared} {thread thread' : Thread} {choice : Choice} {errs b : Bool}

/-- A thread moves on. -/
theorem Balanced.move (hlocks : thread'.locks = thread.locks)
    (hholds : thread'.holds = thread.holds) (hclosing : thread.closing = 0)
    (hb : b = (s.undefined || errs)) :
    Balanced s thread { s with undefined := b } thread' errs :=
  ⟨by rw [hlocks], by rw [hholds]; rfl, fun hrefs hvm => .inl ⟨hrefs, hvm, by omega⟩, hb⟩

/-- A thread moves on and shares nothing. -/
theorem Balanced.skip (hlocks : thread'.locks = thread.locks)
    (hholds : thread'.holds = thread.holds) (hclosing : thread.closing = 0) :
    Balanced s thread s thread' false :=
  .move hlocks hholds hclosing (Bool.or_false _).symm

/-- A thread takes a reference. -/
theorem Balanced.lock (hlocks : thread'.locks = thread.locks + 1)
    (hholds : thread'.holds = thread.holds) :
    Balanced s thread { s with refs := s.refs + 1 } thread' false := by
  refine ⟨?_, by rw [hholds]; rfl, fun hrefs => absurd hrefs (Nat.succ_ne_zero _),
    (Bool.or_false _).symm⟩
  show s.refs + 1 + s.listed.toNat + thread.locks = s.refs + s.listed.toNat + thread'.locks
  omega

/-- An enqueue hands the machine over to the queue. -/
theorem Balanced.enqueue {task : Task} (hlocks : thread'.locks = thread.locks)
    (hholds : thread.holds = thread'.holds + task.holds) (hclosing : thread.closing = 0) :
    Balanced s thread { s with queue := s.queue ++ [task] } thread' false := by
  refine ⟨by rw [hlocks], ?_, fun hrefs hvm => .inl ⟨hrefs, hvm, by omega⟩,
    (Bool.or_false _).symm⟩
  have htotal := total_append Task.holds s.queue task
  rw [Shared.holds, Shared.holds, hholds]
  show s.deletions + (s.vm.toNat + total Task.holds (s.queue ++ [task])) + thread'.holds = _
  omega

/-- Running a task keeps the machine where it is. -/
theorem Task.run_balanced (task : Task) (choice : Choice) (more : Bool) :
    Balanced s (.running task) (task.run s more).1 (task.run s more).2
      ((Thread.running task).errs s choice) := by
  cases task with
  | forward data => exact .skip rfl rfl rfl
  | terminate => exact .skip rfl rfl rfl
  | vmTask command vm =>
      cases vm with
      | false => exact .skip rfl rfl rfl
      | true =>
          cases more with
          | false => exact .move rfl rfl rfl rfl
          | true =>
              cases command with
              | loadKernel => exact .move rfl rfl rfl rfl
              | step count => exact .move rfl rfl rfl rfl

/-- A kill keeps the accounts. -/
theorem Shared.kill_balanced (s : Shared) : Balanced s .handle s.kill.1 s.kill.2 (!s.listed) := by
  cases hlisted : s.listed with
  | true =>
      have hkill : s.kill = ({ s with listed := false }, .release .epoll) := by
        rw [Shared.kill, if_pos hlisted]
      rw [hkill]
      refine ⟨?_, rfl, fun hrefs hvm => .inl ⟨hrefs, hvm, Nat.zero_le _⟩, (Bool.or_false _).symm⟩
      show s.refs + s.listed.toNat + 0 = s.refs + 0 + 1
      rw [hlisted]
      rfl
  | false =>
      rw [Shared.kill, if_neg (Bool.eq_false_iff.mp hlisted)]
      exact .move rfl rfl rfl (Bool.or_true _).symm

/-- A command hands the machine from the connection to its task. -/
theorem Shared.generate_balanced (s : Shared) (command : Command) :
    Balanced s .handle (s.generate command).1 (s.generate command).2 (!s.listed) := by
  unfold Shared.generate
  split
  · rename_i hlisted
    rw [hlisted]
    cases command with
    | forward data => exact .skip rfl rfl rfl
    | terminate => exact .skip rfl rfl rfl
    | vm command => exact .skip rfl rfl rfl
  · rename_i hlisted
    refine .move rfl rfl rfl ?_
    rw [Bool.eq_false_iff.mpr hlisted]
    exact (Bool.or_true _).symm

/-- Handling an event is balanced. -/
theorem handle_balanced {e : Event} (h : Thread.handle.step s (.event e) = some (s', thread')) :
    Balanced s .handle s' thread' (Thread.handle.errs s (.event e)) := by
  simp only [Thread.step] at h
  split at h
  · rename_i hpos
    have halive : decide (s.refs = 0) = false := decide_eq_false (Nat.ne_of_gt hpos)
    rw [Thread.errs, halive, Bool.false_or]
    cases e with
    | kill =>
        have hbalanced := s.kill_balanced
        rw [Option.some.inj h] at hbalanced
        exact hbalanced
    | command str =>
        dsimp only at h
        rw [Event.usesList]
        split at h
        · rename_i command hcommand
          have hbalanced := s.generate_balanced command
          rw [Option.some.inj h] at hbalanced
          rw [hcommand]
          exact hbalanced
        · rename_i hcommand
          obtain ⟨rfl, rfl⟩ := Prod.mk.inj (Option.some.inj h)
          rw [hcommand]
          exact .skip rfl rfl rfl
    | quiet =>
        obtain ⟨rfl, rfl⟩ := Prod.mk.inj (Option.some.inj h)
        exact .skip rfl rfl rfl
  · rename_i hzero
    have hgone : decide (s.refs = 0) = true := decide_eq_true (Nat.eq_zero_of_not_pos hzero)
    rw [Thread.errs, hgone, Bool.true_or]
    obtain ⟨rfl, rfl⟩ := Prod.mk.inj (Option.some.inj h)
    exact .move rfl rfl rfl (Bool.or_true _).symm

/-- **Step.**  Every step keeps the balance. -/
theorem Thread.step_balanced (h : thread.step s choice = some (s', thread'))
    (hlocks : thread.locks ≤ s.refs) (hone : s.deletions + s.holds + thread.holds ≤ 1) :
    Balanced s thread s' thread' (thread.errs s choice) := by
  cases thread with
  | «at» p =>
      cases p with
      | epoll =>
          rw [Thread.step] at h
          split at h
          · obtain ⟨rfl, rfl⟩ := Prod.mk.inj (Option.some.inj h)
            exact .skip rfl rfl rfl
          · cases h
      | enqueue task =>
          obtain ⟨rfl, rfl⟩ := Prod.mk.inj (Option.some.inj h)
          exact .enqueue rfl (Nat.zero_add _).symm rfl
      | ready =>
          cases choice with
          | dequeue i =>
              obtain ⟨task, htask, h⟩ := Option.map_eq_some_iff.mp h
              obtain ⟨rfl, rfl⟩ := Prod.mk.inj h
              have htotal := total_eraseIdx Task.holds htask
              refine ⟨rfl, ?_, fun hrefs hvm => .inl ⟨hrefs, hvm, Nat.zero_le _⟩,
                (Bool.or_false _).symm⟩
              show s.deletions + (s.vm.toNat + total Task.holds (s.queue.eraseIdx i)) + task.holds =
                s.deletions + (s.vm.toNat + total Task.holds s.queue) + 0
              omega
          | go => cases h
          | event e => cases h
          | more b => cases h
      | again task =>
          cases choice with
          | more b =>
              cases b with
              | true =>
                  obtain ⟨rfl, rfl⟩ := Prod.mk.inj (Option.some.inj h)
                  exact .skip rfl rfl rfl
              | false =>
                  obtain ⟨rfl, rfl⟩ := Prod.mk.inj (Option.some.inj h)
                  exact .enqueue rfl (Nat.zero_add _).symm rfl
          | go => cases h
          | event e => cases h
          | dequeue i => cases h
      | destroy task =>
          cases task with
          | forward data =>
              obtain ⟨rfl, rfl⟩ := Prod.mk.inj (Option.some.inj h)
              exact .skip rfl rfl rfl
          | terminate =>
              obtain ⟨rfl, rfl⟩ := Prod.mk.inj (Option.some.inj h)
              exact .skip rfl rfl rfl
          | vmTask command vm =>
              rw [Thread.step] at h
              split at h
              · obtain ⟨rfl, rfl⟩ := Prod.mk.inj (Option.some.inj h)
                exact .skip rfl rfl rfl
              · obtain ⟨rfl, rfl⟩ := Prod.mk.inj (Option.some.inj h)
                exact .lock rfl rfl
  | dispatch =>
      rw [Thread.step] at h
      split at h
      · rename_i hpos
        obtain ⟨rfl, rfl⟩ := Prod.mk.inj (Option.some.inj h)
        rw [Thread.errs, decide_eq_false (Nat.ne_of_gt hpos)]
        exact .skip rfl rfl rfl
      · rename_i hzero
        obtain ⟨rfl, rfl⟩ := Prod.mk.inj (Option.some.inj h)
        rw [Thread.errs, decide_eq_true (Nat.eq_zero_of_not_pos hzero)]
        exact .move rfl rfl rfl (Bool.or_true _).symm
  | handle =>
      cases choice with
      | event e =>
          exact handle_balanced h
      | go => cases h
      | dequeue i => cases h
      | more b => cases h
  | lock command =>
      rw [Thread.step] at h
      split at h
      · obtain ⟨rfl, rfl⟩ := Prod.mk.inj (Option.some.inj h)
        exact .skip rfl rfl rfl
      · obtain ⟨rfl, rfl⟩ := Prod.mk.inj (Option.some.inj h)
        exact .lock rfl rfl
  | exchange command =>
      obtain ⟨rfl, rfl⟩ := Prod.mk.inj (Option.some.inj h)
      refine ⟨?_, ?_, fun hrefs hvm => (nomatch hvm), (Bool.or_false _).symm⟩
      · cases s.vm with
        | false => rfl
        | true => rfl
      · show s.deletions + (0 + total Task.holds s.queue) + _ = _
        rw [Shared.holds]
        cases s.vm with
        | false => rfl
        | true =>
            show _ + 1 = s.deletions + (1 + _) + 0
            omega
  | store command =>
      obtain ⟨rfl, rfl⟩ := Prod.mk.inj (Option.some.inj h)
      exact .skip rfl rfl rfl
  | run task =>
      rw [Thread.step] at h
      split at h
      · obtain ⟨rfl, rfl⟩ := Prod.mk.inj (Option.some.inj h)
        exact .skip rfl rfl rfl
      · obtain ⟨rfl, rfl⟩ := Prod.mk.inj (Option.some.inj h)
        exact .lock rfl rfl
  | running task =>
      cases choice with
      | more b =>
          have heq := Option.some.inj h
          have hbalanced := task.run_balanced (s := s) (.more b) b
          rw [heq] at hbalanced
          exact hbalanced
      | go => cases h
      | event e => cases h
      | dequeue i => cases h
  | take vm locked =>
      obtain ⟨rfl, rfl⟩ := Prod.mk.inj (Option.some.inj h)
      exact .skip rfl rfl rfl
  | settle m locked =>
      cases locked with
      | true =>
          obtain ⟨rfl, rfl⟩ := Prod.mk.inj (Option.some.inj h)
          cases m with
          | true =>
              -- the pointer of the connection is null while the task has the machine
              have hfree : s.vm.toNat = 0 := by
                have hmine : s.deletions + (s.vm.toNat + total Task.holds s.queue) + 1 ≤ 1 := hone
                omega
              refine ⟨rfl, ?_, fun hrefs => absurd (hrefs ▸ hlocks) (by decide),
                (Bool.or_false _).symm⟩
              show s.deletions + (1 + total Task.holds s.queue) + 0 =
                s.deletions + (s.vm.toNat + total Task.holds s.queue) + 1
              omega
          | false => exact .skip rfl rfl rfl
      | false =>
          obtain ⟨rfl, rfl⟩ := Prod.mk.inj (Option.some.inj h)
          cases m with
          | true =>
              refine ⟨rfl, ?_, fun hrefs hvm => .inl ⟨hrefs, hvm, Nat.zero_le _⟩,
                (Bool.or_false _).symm⟩
              show s.deletions + 1 + s.holds + 0 = s.deletions + s.holds + 1
              omega
          | false => exact .skip rfl rfl rfl
  | release p =>
      obtain ⟨rfl, rfl⟩ := Prod.mk.inj (Option.some.inj h)
      have hpos : 1 ≤ s.refs := hlocks
      refine ⟨?_, ?_, fun hrefs hvm => .inr ?_, (Bool.or_false _).symm⟩
      · have hnone : (if s.refs = 1 then Thread.close p else .at p).locks = 0 := by split <;> rfl
        rw [hnone]
        show s.refs - 1 + s.listed.toNat + 1 = s.refs + s.listed.toNat + 0
        omega
      · have hholds : (if s.refs = 1 then Thread.close p else .at p).holds = p.holds := by
          split <;> rfl
        rw [hholds]
        rfl
      · have hlast : s.refs - 1 = 0 := hrefs
        rw [if_pos (by omega)]
        exact Nat.zero_lt_one
  | close p =>
      obtain ⟨rfl, rfl⟩ := Prod.mk.inj (Option.some.inj h)
      exact ⟨rfl, rfl, fun hrefs hvm => .inr Nat.zero_lt_one, (Bool.or_false _).symm⟩
  | reclaim p =>
      obtain ⟨rfl, rfl⟩ := Prod.mk.inj (Option.some.inj h)
      refine ⟨rfl, ?_, fun hrefs hvm => (nomatch hvm), (Bool.or_false _).symm⟩
      show s.deletions + (0 + total Task.holds s.queue) + (s.vm.toNat + p.holds) =
        s.deletions + (s.vm.toNat + total Task.holds s.queue) + p.holds
      omega
  | drop m p =>
      obtain ⟨rfl, rfl⟩ := Prod.mk.inj (Option.some.inj h)
      cases m with
      | true =>
          refine ⟨rfl, ?_, fun hrefs hvm => .inl ⟨hrefs, hvm, Nat.zero_le _⟩,
            (Bool.or_false _).symm⟩
          show s.deletions + 1 + s.holds + p.holds = s.deletions + s.holds + (1 + p.holds)
          omega
      | false => exact .skip rfl (Nat.zero_add _).symm rfl

/-! ### Runs -/

/-- The accounts of the whole world. -/
structure World.Accounted (w : World) : Prop where
  defined : w.shared.undefined = false
  refs : w.shared.refs = w.shared.listed.toNat + total Thread.locks w.threads
  owners : w.shared.deletions + w.owners = 1
  closing : w.shared.refs = 0 → w.shared.vm = true → 0 < total Thread.closing w.threads

variable {w w' : World} {a : Action}

/-- A new world keeps its accounts. -/
theorem World.accounted_construct (workers : Nat) : (construct workers).Accounted := by
  have hnone : ∀ f : Thread → Nat, f (.at .epoll) = 0 → f (.at .ready) = 0 →
      total f (construct workers).threads = 0 := by
    intro f hepoll hready
    refine total_eq_zero f fun thread hthread => ?_
    rcases List.mem_cons.mp hthread with rfl | hworker
    · exact hepoll
    · obtain rfl := List.eq_of_mem_replicate hworker
      exact hready
  refine ⟨rfl, ?_, ?_, fun hrefs => nomatch hrefs⟩
  · rw [hnone Thread.locks rfl rfl]
    rfl
  · rw [World.owners, hnone Thread.holds rfl rfl]
    rfl

/-- A step of the world is a step of one thread. -/
theorem World.step_thread (hstep : w.Step a w') :
    ∃ thread s' thread', w.threads[a.t]? = some thread ∧
      thread.step w.shared a.choice = some (s', thread') ∧
      w' = ⟨s', w.threads.set a.t thread'⟩ := by
  rw [World.Step, World.step] at hstep
  split at hstep
  · cases hstep
  · split at hstep
    · cases hstep
    · rename_i thread hthread
      obtain ⟨⟨s', thread'⟩, h, rfl⟩ := Option.map_eq_some_iff.mp hstep
      exact ⟨thread, s', thread', hthread, h, rfl⟩

/-- A thread has no more than there is. -/
theorem World.Accounted.thread_le {t : Nat} (h : w.Accounted)
    (hthread : w.threads[t]? = some thread) :
    thread.locks ≤ w.shared.refs ∧ w.shared.deletions + w.shared.holds + thread.holds ≤ 1 := by
  have hlocks := le_total (g := Thread.locks) hthread
  have hholds := le_total (g := Thread.holds) hthread
  have hrefs := h.refs
  have howners := h.owners
  rw [World.owners] at howners
  rw [Shared.holds]
  omega

/-- Who is careful does nothing undefined. -/
theorem World.Careful.errs_eq {thread : Thread} (hcareful : w.Careful a)
    (hthread : w.threads[a.t]? = some thread)
    (hone : w.shared.deletions + w.shared.holds + thread.holds ≤ 1) :
    thread.errs w.shared a.choice = false := by
  rw [World.Careful, hthread] at hcareful
  cases thread with
  | dispatch => exact decide_eq_false (Nat.ne_of_gt hcareful)
  | handle =>
      cases hchoice : a.choice with
      | event e =>
          rw [hchoice] at hcareful
          obtain ⟨halive, hlisted⟩ := hcareful
          rw [Thread.errs, decide_eq_false (Nat.ne_of_gt halive), Bool.false_or]
          cases huses : e.usesList with
          | false => rfl
          | true =>
              rw [hlisted huses]
              rfl
      | go => rfl
      | dequeue i => rfl
      | more b => rfl
  | running task =>
      -- the machine of a task that runs is not deleted
      rw [Thread.errs]
      cases hvm : task.vm with
      | false => rfl
      | true =>
          have hmine : (Thread.running task).holds = 1 := by
            rw [Thread.holds, Task.holds, hvm]
            rfl
          exact decide_eq_false (by omega)
  | _ => rfl

/-- **Step.**  Every careful step keeps the accounts. -/
theorem World.Accounted.step (h : w.Accounted) (hcareful : w.Careful a) (hstep : w.Step a w') :
    w'.Accounted := by
  obtain ⟨thread, s', thread', hthread, hmoves, rfl⟩ := World.step_thread hstep
  obtain ⟨hlocks, hone⟩ := h.thread_le hthread
  have hbalanced := Thread.step_balanced hmoves hlocks hone
  have hrefs := total_set Thread.locks hthread thread'
  have hholds := total_set Thread.holds hthread thread'
  have hclosing := total_set Thread.closing hthread thread'
  refine ⟨?_, ?_, ?_, fun hzero hvm => ?_⟩
  · show s'.undefined = false
    rw [hbalanced.undefined, h.defined, hcareful.errs_eq hthread hone]
    rfl
  · have hbefore := h.refs
    have hbalance := hbalanced.refs
    show s'.refs = s'.listed.toNat + total Thread.locks (w.threads.set a.t thread')
    omega
  · have hbefore := h.owners
    have hbalance := hbalanced.owners
    rw [World.owners] at hbefore ⊢
    rw [Shared.holds, Shared.holds] at hbalance
    show s'.deletions + (s'.vm.toNat + total Task.holds s'.queue +
      total Thread.holds (w.threads.set a.t thread')) = 1
    omega
  · rcases hbalanced.closing hzero hvm with ⟨hzero, hvm, hle⟩ | hpos
    · have hbefore := h.closing hzero hvm
      show 0 < total Thread.closing (w.threads.set a.t thread')
      omega
    · have hle := le_total (g := Thread.closing)
        (List.getElem?_set_self (a := thread') (List.getElem?_eq_some_iff.mp hthread).1)
      exact Nat.lt_of_lt_of_le hpos hle

/-- An idle thread holds nothing. -/
theorem Thread.Idle.nothing (h : thread.Idle) : thread.holds = 0 ∧ thread.closing = 0 := by
  cases thread with
  | «at» p =>
      cases p with
      | epoll => exact ⟨rfl, rfl⟩
      | ready => exact ⟨rfl, rfl⟩
      | _ => exact absurd h id
  | dispatch => exact ⟨rfl, rfl⟩
  | handle => exact ⟨rfl, rfl⟩
  | _ => exact absurd h id

/-- When nobody is left the machine is deleted. -/
theorem World.Accounted.gone (h : w.Accounted) (hgone : w.Gone) : w.shared.deletions = 1 := by
  obtain ⟨hrefs, hqueue, hidle⟩ := hgone
  have hholds : total Thread.holds w.threads = 0 :=
    total_eq_zero _ fun thread hthread => (hidle thread hthread).nothing.1
  have hclosing : total Thread.closing w.threads = 0 :=
    total_eq_zero _ fun thread hthread => (hidle thread hthread).nothing.2
  have hvm : w.shared.vm = false := by
    cases hvm : w.shared.vm with
    | false => rfl
    | true => exact absurd hclosing (Nat.ne_of_gt (h.closing hrefs hvm))
  have howners := h.owners
  rw [World.owners, hholds, hqueue, hvm] at howners
  exact howners

/-- **One owner.**  What is accounted for has one owner, or is deleted once. -/
theorem World.Accounted.owned (h : w.Accounted) : w.Owned := ⟨h.defined, h.owners, h.gone⟩

/-- **Run.**  The accounts hold after careful steps in any order. -/
theorem accounted_of_reaches {workers : Nat}
    (hrun : Reaches World.Step World.Careful (.construct workers) w) : w.Accounted :=
  hrun.invariant (World.accounted_construct workers) fun h hcareful hstep =>
    h.step hcareful hstep

/-- Who is not careful does something undefined. -/
theorem World.Accounted.undefined_of_not_careful (h : w.Accounted) (hcareful : ¬ w.Careful a)
    (hstep : w.Step a w') : w'.shared.undefined = true := by
  obtain ⟨thread, s', thread', hthread, hmoves, rfl⟩ := World.step_thread hstep
  obtain ⟨hlocks, hone⟩ := h.thread_le hthread
  have hbalanced := Thread.step_balanced hmoves hlocks hone
  rw [World.Careful, hthread] at hcareful
  show s'.undefined = true
  rw [hbalanced.undefined, h.defined, Bool.false_or]
  cases thread with
  | dispatch => exact decide_eq_true (Nat.eq_zero_of_not_pos hcareful)
  | handle =>
      cases hchoice : a.choice with
      | event e =>
          rw [hchoice] at hcareful
          rw [Thread.errs, Bool.or_eq_true]
          rcases Nat.eq_zero_or_pos w.shared.refs with hgone | halive
          · exact .inl (decide_eq_true hgone)
          · refine .inr ?_
            obtain ⟨huses, hlisted⟩ :=
              Classical.not_imp.mp fun hlisted => hcareful ⟨halive, hlisted⟩
            rw [huses, Bool.eq_false_iff.mpr hlisted]
            rfl
      | go => rw [hchoice] at hcareful; exact absurd trivial hcareful
      | dequeue i => rw [hchoice] at hcareful; exact absurd trivial hcareful
      | more b => rw [hchoice] at hcareful; exact absurd trivial hcareful
  | _ => exact absurd trivial hcareful

/-- **Ownership.**  With any number of workers, steps in any order keep the
machine owned as long as no event comes to a connection that is gone and none
kills or commands it after it was killed; the first that does is undefined. -/
theorem machine_owned (workers : Nat) :
    (∀ w, Reaches World.Step World.Careful (.construct workers) w → w.Owned) ∧
    ∀ w a w', Reaches World.Step World.Careful (.construct workers) w → w.Step a w' →
      ¬ w.Careful a → ¬ w'.Owned := by
  refine ⟨fun w hrun => (accounted_of_reaches hrun).owned, fun w a w' hrun hstep hcareful => ?_⟩
  have hundefined := (accounted_of_reaches hrun).undefined_of_not_careful hcareful hstep
  rintro ⟨hdefined, -, -⟩
  rw [hundefined] at hdefined
  cases hdefined

/-- The main thread takes an event to `dispatch` and it comes to `e`. -/
def deliver (e : Event) : List Action := [⟨0, .go⟩, ⟨0, .go⟩, ⟨0, .event e⟩]

/-- A step command makes a task, and the worker starts it. -/
def startTask : List Action :=
  deliver (.command (chars "STEP 1")) ++ List.replicate 5 ⟨0, .go⟩ ++ [⟨1, .dequeue 0⟩, ⟨1, .go⟩]

/-- The peer goes while the task runs, and the task is the last to know. -/
def peerGoes : List Action :=
  startTask ++ [⟨1, .more true⟩] ++ deliver .kill ++ [⟨0, .go⟩] ++ List.replicate 4 ⟨1, .go⟩ ++
    [⟨1, .more true⟩] ++ List.replicate 4 ⟨1, .go⟩

/-- The guarantees at the end of this run: the task has deleted the machine. -/
theorem peerGoes_owned :
    ∃ w, Reaches World.Step World.Careful (.construct 1) w ∧ w.shared.deletions = 1 ∧ w.Owned := by
  have hruns : (execute World.step World.Careful (.construct 1) peerGoes).any
      (fun w => decide (w.shared.deletions = 1)) = true := by
    decide +kernel
  obtain ⟨w, hw, hdeleted⟩ := (Option.any_eq_true _ _).mp hruns
  have hreaches := reaches_of_execute (R := World.Step) id hw
  exact ⟨w, hreaches, of_decide_eq_true hdeleted, (machine_owned 1).1 w hreaches⟩

/-- The peer may go twice. -/
theorem machine_may_be_lost :
    ¬ ∀ w, Reaches World.Step (fun _ _ => True) (.construct 1) w → w.Owned := by
  intro hall
  have hruns : (execute World.step (fun _ _ => True) (.construct 1)
      (startTask ++ deliver .kill ++ [⟨0, .go⟩] ++ deliver .kill)).any
      (fun w => w.shared.undefined) = true := by
    decide +kernel
  obtain ⟨w, hw, hundefined⟩ := (Option.any_eq_true _ _).mp hruns
  obtain ⟨hdefined, -, -⟩ := hall w (reaches_of_execute (R := World.Step) id hw)
  rw [hundefined] at hdefined
  cases hdefined

end Server
