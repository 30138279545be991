import BobbyOS.Lib.Run
import BobbyOS.Lib.Totals
import Mathlib.Data.Nat.Find

/-!
# The workers' queue

`MLFQ` keeps tasks in five levels, each under a lock of its own, and their number
in an atomic counter.  Any number of threads enqueue and dequeue tasks, and a
thread that finds the quantum over moves all tasks back to level 0.  A step here
is a critical section, an atomic access or the passage of time, and threads take
their steps in any order.

* `mlfq_exact`: no task is ever lost or doubled, and a dequeue finds a task unless
  a boost takes the last tasks ahead of it back to a level it has passed.
-/

namespace MLFQ

open Run Totals

/-- A task with its identity. -/
structure Task (τ : Type) where
  id : τ
  priorityLevel : BitVec 8 := 0

/-- The levels of the queue. -/
def LEVELS : Nat := 5

/-- 60 milliseconds in ticks of the clock. -/
def BOOST_QUANTA : Int := 60000000

/-- The queue; `emptyMtx` and `qMtx0` name the thread that holds `emptyMtx` or
`qMtx[0]` from one step to another. -/
structure Queue (τ : Type) where
  levels : Nat → List (Task τ) := fun _ => []
  size : Nat := 0
  lastBoost : Int
  emptyMtx : Option Nat := none
  qMtx0 : Option Nat := none

/-- What a thread goes on with after `checkQuanta`. -/
inductive Caller (τ : Type)
  | enqueue (task : Task τ)
  | dequeue
  | checkQuanta

/-- What a thread does next; the last five do nothing any more. -/
inductive Thread (τ : Type)
  | readClock (caller : Caller τ)
  | readBoost (caller : Caller τ) (now : Int)
  | exchange (caller : Caller τ) (now prev : Int)
  | lockBoost (caller : Caller τ)
  | boost (caller : Caller τ) (i : Nat)
  | push (task : Task τ)
  | count (id : τ)
  | wait
  | scan (i : Nat)
  | increment (res : Option (Task τ))
  | enqueued (id : τ)
  | returned (task : Task τ)
  | finished
  | threw
  | crashed

/-- The functions that are called from outside. -/
inductive Call (τ : Type)
  | enqueue (task : Option (Task τ))
  | dequeue
  | checkQuanta
  | boost

variable {τ : Type}

/-- The start of a call; an empty task is refused. -/
def Call.start : Call τ → Thread τ
  | .enqueue none => .threw
  | .enqueue (some task) => .readClock (.enqueue task)
  | .dequeue => .readClock .dequeue
  | .checkQuanta => .readClock .checkQuanta
  | .boost => .lockBoost .checkQuanta

/-- The return of `checkQuanta`. -/
def Caller.resume (res : Bool) : Caller τ → Thread τ
  | .enqueue task =>
      .push { task with
        priorityLevel := if res then 0 else task.priorityLevel % BitVec.ofNat 8 LEVELS }
  | .dequeue => .wait
  | .checkQuanta => .finished

namespace Queue

/-- The `while` loop of `boost`: level `i` goes to the end of level 0, last task
first. -/
def raise (q : Queue τ) (i : Nat) : Queue τ :=
  let tasks := (q.levels i).reverse.map fun task => { task with priorityLevel := 0 }
  { q with levels := Function.update (Function.update q.levels 0 (q.levels 0 ++ tasks)) i [] }

/-- `_levels[level].emplace_back(task)`. -/
def push (q : Queue τ) (level : Nat) (task : Task τ) : Queue τ :=
  { q with levels := Function.update q.levels level (q.levels level ++ [task]) }

/-- `pop_front` and `size.fetch_sub`. -/
def pop (q : Queue τ) (level : Nat) (rest : List (Task τ)) : Queue τ :=
  { q with levels := Function.update q.levels level rest, size := q.size - 1 }

end Queue

/-- The next step of thread `t`, if it is not blocked and not at its end. -/
def Thread.step (q : Queue τ) (clock : Int) (t : Nat) : Thread τ → Option (Queue τ × Thread τ)
  | .readClock caller => some (q, .readBoost caller clock)
  | .readBoost caller now =>
      if now - q.lastBoost < BOOST_QUANTA then some (q, caller.resume false)
      else some (q, .exchange caller now q.lastBoost)
  | .exchange caller now prev =>
      if q.lastBoost = prev then some ({ q with lastBoost := now }, .lockBoost caller)
      else some (q, caller.resume true)
  | .lockBoost caller =>
      if q.qMtx0 = none then some ({ q with qMtx0 := some t }, .boost caller 1) else none
  | .boost caller i =>
      if i < LEVELS then some (q.raise i, .boost caller (i + 1))
      else some ({ q with qMtx0 := none }, caller.resume true)
  | .push task =>
      let level := task.priorityLevel.toNat
      if level = 0 ∧ q.qMtx0 ≠ none then none else some (q.push level task, .count task.id)
  | .count id => some ({ q with size := q.size + 1 }, .enqueued id)
  | .wait =>
      if q.emptyMtx = none ∧ 0 < q.size then some ({ q with emptyMtx := some t }, .scan 0) else none
  | .scan i =>
      if i < LEVELS then
        if i = 0 ∧ q.qMtx0 ≠ none then none
        else
          match q.levels i with
          | [] => some (q, .scan (i + 1))
          | task :: rest => some (q.pop i rest, .increment (some task))
      else some (q, .increment none)
  | .increment (some task) =>
      some ({ q with emptyMtx := none },
        .returned { task with priorityLevel := task.priorityLevel + 1 })
  | .increment none => some (q, .crashed)
  | .enqueued _ | .returned _ | .finished | .threw | .crashed => none

/-- The queue, the clock and all calls that were ever made. -/
structure System (τ : Type) where
  queue : Queue τ
  clock : Int
  threads : List (Thread τ)

/-- A new call, a step of a thread, or the passage of time. -/
inductive Action (τ : Type)
  | call (c : Call τ)
  | run (t : Nat)
  | tick (ticks : Nat)

namespace System

/-- `MLFQ()`. -/
def construct (clock : Int) : System τ := ⟨{ lastBoost := clock }, clock, []⟩

/-- The system after an action. -/
def step (s : System τ) : Action τ → Option (System τ)
  | .call c => some { s with threads := s.threads ++ [c.start] }
  | .run t =>
      match s.threads[t]? with
      | none => none
      | some thread =>
          (thread.step s.queue s.clock t).map fun (queue, thread) =>
            { s with queue, threads := s.threads.set t thread }
  | .tick ticks => some { s with clock := s.clock + ticks }

/-- One action that happens. -/
def Step (s : System τ) (a : Action τ) (s' : System τ) : Prop := s.step a = some s'

end System

/-! ### Where the tasks are -/

section Places

variable [DecidableEq τ] (x : τ)

/-- Whether a thread has enqueued the task. -/
def Thread.enqueues : Thread τ → Nat
  | .count id | .enqueued id => if id = x then 1 else 0
  | _ => 0

/-- Whether a thread has taken the task out, or returned it. -/
def Thread.returns : Thread τ → Nat
  | .increment (some task) | .returned task => if task.id = x then 1 else 0
  | _ => 0

/-- How often the task is in a list. -/
def occurrences (tasks : List (Task τ)) : Nat := tasks.countP fun task => task.id = x

/-- How often the task is in the levels. -/
def Queue.stored (q : Queue τ) : Nat := ∑ i ∈ Finset.range LEVELS, occurrences x (q.levels i)

/-- Every enqueued task is in one level, or one dequeue took it. -/
def System.Conserved (s : System τ) : Prop :=
  ∀ x, total (Thread.enqueues x) s.threads =
    s.queue.stored x + total (Thread.returns x) s.threads

end Places

/-- A thread that has pushed a task and not counted it yet. -/
def Thread.pending : Thread τ → Nat
  | .count _ => 1
  | _ => 0

/-- The number of tasks in the levels. -/
def Queue.total (q : Queue τ) : Nat := ∑ i ∈ Finset.range LEVELS, (q.levels i).length

/-- A dequeue that holds `emptyMtx`. -/
def Thread.Scanning : Thread τ → Prop
  | .scan _ | .increment _ | .crashed => True
  | _ => False

/-- A thread that holds no task that is in the queue, and no lock but `qMtx[0]`. -/
def Thread.Plain : Thread τ → Prop
  | .readClock _ | .readBoost .. | .exchange .. | .lockBoost _ | .boost .. | .push _ | .wait
  | .finished => True
  | _ => False

/-- A task is pushed to a level that exists, and a boost starts at level 1. -/
def Thread.WF : Thread τ → Prop
  | .push task => task.priorityLevel.toNat < LEVELS
  | .boost _ i => 0 < i
  | _ => True

/-! ### What a step does -/

/-- The steps of a thread with the tests that it passed, one for each branch. -/
inductive Moves (q : Queue τ) (clock : Int) (t : Nat) : Thread τ → Queue τ → Thread τ → Prop
  | readClock {caller : Caller τ} :
      Moves q clock t (.readClock caller) q (.readBoost caller clock)
  | early {caller : Caller τ} {now : Int} (hearly : now - q.lastBoost < BOOST_QUANTA) :
      Moves q clock t (.readBoost caller now) q (caller.resume false)
  | late {caller : Caller τ} {now : Int} (hlate : ¬now - q.lastBoost < BOOST_QUANTA) :
      Moves q clock t (.readBoost caller now) q (.exchange caller now q.lastBoost)
  | win {caller : Caller τ} {now prev : Int} (hsame : q.lastBoost = prev) :
      Moves q clock t (.exchange caller now prev) { q with lastBoost := now } (.lockBoost caller)
  | lose {caller : Caller τ} {now prev : Int} (hother : q.lastBoost ≠ prev) :
      Moves q clock t (.exchange caller now prev) q (caller.resume true)
  | lock {caller : Caller τ} (hfree : q.qMtx0 = none) :
      Moves q clock t (.lockBoost caller) { q with qMtx0 := some t } (.boost caller 1)
  | raise {caller : Caller τ} {i : Nat} (hlt : i < LEVELS) :
      Moves q clock t (.boost caller i) (q.raise i) (.boost caller (i + 1))
  | unlock {caller : Caller τ} {i : Nat} (hge : LEVELS ≤ i) :
      Moves q clock t (.boost caller i) { q with qMtx0 := none } (caller.resume true)
  | push {task : Task τ} (hopen : ¬(task.priorityLevel.toNat = 0 ∧ q.qMtx0 ≠ none)) :
      Moves q clock t (.push task) (q.push task.priorityLevel.toNat task) (.count task.id)
  | count {id : τ} : Moves q clock t (.count id) { q with size := q.size + 1 } (.enqueued id)
  | enter (hmtx : q.emptyMtx = none) (hsize : 0 < q.size) :
      Moves q clock t .wait { q with emptyMtx := some t } (.scan 0)
  | pass {i : Nat} (hlt : i < LEVELS) (hopen : ¬(i = 0 ∧ q.qMtx0 ≠ none))
      (hempty : q.levels i = []) : Moves q clock t (.scan i) q (.scan (i + 1))
  | take {i : Nat} {task : Task τ} {rest : List (Task τ)} (hlt : i < LEVELS)
      (hopen : ¬(i = 0 ∧ q.qMtx0 ≠ none)) (htask : q.levels i = task :: rest) :
      Moves q clock t (.scan i) (q.pop i rest) (.increment (some task))
  | miss {i : Nat} (hge : LEVELS ≤ i) : Moves q clock t (.scan i) q (.increment none)
  | leave {task : Task τ} : Moves q clock t (.increment (some task)) { q with emptyMtx := none }
      (.returned { task with priorityLevel := task.priorityLevel + 1 })
  | crash : Moves q clock t (.increment none) q .crashed

/-- The steps that matter to the tasks, and all others. -/
inductive Effect (q : Queue τ) (t : Nat) : Thread τ → Queue τ → Thread τ → Prop
  | plain {q' : Queue τ} {thread thread' : Thread τ} (hlevels : q'.levels = q.levels)
      (hsize : q'.size = q.size) (hmtx : q'.emptyMtx = q.emptyMtx) (hplain : thread.Plain)
      (hplain' : thread'.Plain) (hwf : thread'.WF) : Effect q t thread q' thread'
  | raise {caller : Caller τ} {i : Nat} (hlt : i < LEVELS) :
      Effect q t (.boost caller i) (q.raise i) (.boost caller (i + 1))
  | push {task : Task τ} :
      Effect q t (.push task) (q.push task.priorityLevel.toNat task) (.count task.id)
  | count {id : τ} : Effect q t (.count id) { q with size := q.size + 1 } (.enqueued id)
  | enter (hmtx : q.emptyMtx = none) (hsize : 0 < q.size) :
      Effect q t .wait { q with emptyMtx := some t } (.scan 0)
  | pass {i : Nat} (hlt : i < LEVELS) (hempty : q.levels i = []) :
      Effect q t (.scan i) q (.scan (i + 1))
  | take {i : Nat} {task : Task τ} {rest : List (Task τ)} (hlt : i < LEVELS)
      (htask : q.levels i = task :: rest) :
      Effect q t (.scan i) (q.pop i rest) (.increment (some task))
  | miss {i : Nat} (hge : LEVELS ≤ i) : Effect q t (.scan i) q (.increment none)
  | leave {task : Task τ} : Effect q t (.increment (some task)) { q with emptyMtx := none }
      (.returned { task with priorityLevel := task.priorityLevel + 1 })
  | crash : Effect q t (.increment none) q .crashed

variable {q q' : Queue τ} {t : Nat} {clock : Int} {thread thread' : Thread τ}

/-- A call that goes on is plain and well formed. -/
theorem Caller.resume_plain (caller : Caller τ) (res : Bool) :
    (caller.resume res).Plain ∧ (caller.resume res).WF := by
  cases caller with
  | enqueue task =>
      refine ⟨trivial, ?_⟩
      show (BitVec.toNat _) < LEVELS
      cases res with
      | true => exact Nat.zero_lt_succ _
      | false =>
          rw [if_neg Bool.false_ne_true, BitVec.toNat_umod]
          exact Nat.mod_lt _ (Nat.zero_lt_succ _)
  | dequeue => exact ⟨trivial, trivial⟩
  | checkQuanta => exact ⟨trivial, trivial⟩

/-- **Inversion.**  What a thread does next, with the tests that it passed. -/
theorem Thread.step_moves (h : thread.step q clock t = some (q', thread')) :
    Moves q clock t thread q' thread' := by
  cases thread with
  | readClock caller =>
      obtain ⟨rfl, rfl⟩ := Prod.mk.inj (Option.some.inj h)
      exact .readClock
  | readBoost caller now =>
      rw [Thread.step] at h
      split at h
      · rename_i hearly
        obtain ⟨rfl, rfl⟩ := Prod.mk.inj (Option.some.inj h)
        exact .early hearly
      · rename_i hlate
        obtain ⟨rfl, rfl⟩ := Prod.mk.inj (Option.some.inj h)
        exact .late hlate
  | exchange caller now prev =>
      rw [Thread.step] at h
      split at h
      · rename_i hsame
        obtain ⟨rfl, rfl⟩ := Prod.mk.inj (Option.some.inj h)
        exact .win hsame
      · rename_i hother
        obtain ⟨rfl, rfl⟩ := Prod.mk.inj (Option.some.inj h)
        exact .lose hother
  | lockBoost caller =>
      rw [Thread.step] at h
      split at h
      · rename_i hfree
        obtain ⟨rfl, rfl⟩ := Prod.mk.inj (Option.some.inj h)
        exact .lock hfree
      · cases h
  | boost caller i =>
      rw [Thread.step] at h
      split at h
      · rename_i hlt
        obtain ⟨rfl, rfl⟩ := Prod.mk.inj (Option.some.inj h)
        exact .raise hlt
      · rename_i hge
        obtain ⟨rfl, rfl⟩ := Prod.mk.inj (Option.some.inj h)
        exact .unlock (Nat.le_of_not_lt hge)
  | push task =>
      rw [Thread.step] at h
      split at h
      · cases h
      · rename_i hopen
        obtain ⟨rfl, rfl⟩ := Prod.mk.inj (Option.some.inj h)
        exact .push hopen
  | count id =>
      obtain ⟨rfl, rfl⟩ := Prod.mk.inj (Option.some.inj h)
      exact .count
  | wait =>
      rw [Thread.step] at h
      split at h
      · rename_i hfree
        obtain ⟨rfl, rfl⟩ := Prod.mk.inj (Option.some.inj h)
        exact .enter hfree.1 hfree.2
      · cases h
  | scan i =>
      rw [Thread.step] at h
      split at h
      case isTrue hlt =>
        split at h
        · cases h
        · rename_i hopen
          split at h
          · rename_i hempty
            obtain ⟨rfl, rfl⟩ := Prod.mk.inj (Option.some.inj h)
            exact .pass hlt hopen hempty
          · rename_i htask
            obtain ⟨rfl, rfl⟩ := Prod.mk.inj (Option.some.inj h)
            exact .take hlt hopen htask
      case isFalse hge =>
        obtain ⟨rfl, rfl⟩ := Prod.mk.inj (Option.some.inj h)
        exact .miss (Nat.le_of_not_lt hge)
  | increment res =>
      cases res with
      | none =>
          obtain ⟨rfl, rfl⟩ := Prod.mk.inj (Option.some.inj h)
          exact .crash
      | some task =>
          obtain ⟨rfl, rfl⟩ := Prod.mk.inj (Option.some.inj h)
          exact .leave
  | enqueued id => cases h
  | returned task => cases h
  | finished => cases h
  | threw => cases h
  | crashed => cases h

/-- Every step has one of the effects. -/
theorem Thread.step_effect (h : thread.step q clock t = some (q', thread')) :
    Effect q t thread q' thread' := by
  cases thread.step_moves h with
  | readClock => exact .plain rfl rfl rfl trivial trivial trivial
  | @early caller now _ =>
      obtain ⟨hplain, hwf⟩ := caller.resume_plain false
      exact .plain rfl rfl rfl trivial hplain hwf
  | late => exact .plain rfl rfl rfl trivial trivial trivial
  | win => exact .plain rfl rfl rfl trivial trivial trivial
  | @lose caller now prev _ =>
      obtain ⟨hplain, hwf⟩ := caller.resume_plain true
      exact .plain rfl rfl rfl trivial hplain hwf
  | lock => exact .plain rfl rfl rfl trivial trivial Nat.zero_lt_one
  | raise hlt => exact .raise hlt
  | @unlock caller i _ =>
      obtain ⟨hplain, hwf⟩ := caller.resume_plain true
      exact .plain rfl rfl rfl trivial hplain hwf
  | push => exact .push
  | count => exact .count
  | enter hmtx hsize => exact .enter hmtx hsize
  | pass hlt _ hempty => exact .pass hlt hempty
  | take hlt _ htask => exact .take hlt htask
  | miss hge => exact .miss hge
  | leave => exact .leave
  | crash => exact .crash

/-! ### Balances -/

/-- A boost keeps what is counted task by task, whatever the priority. -/
theorem sum_raise {f : List (Task τ) → Nat} {i : Nat} (hi : 0 < i) (hlt : i < LEVELS)
    (hnil : f [] = 0)
    (hmove : ∀ l m : List (Task τ),
      f (l ++ m.reverse.map fun task => { task with priorityLevel := 0 }) = f l + f m) :
    ∑ j ∈ Finset.range LEVELS, f ((q.raise i).levels j) =
      ∑ j ∈ Finset.range LEVELS, f (q.levels j) := by
  have hzero : 0 < LEVELS := Nat.zero_lt_succ _
  have hfirst := sum_update f hzero q.levels
    (q.levels 0 ++ (q.levels i).reverse.map fun task => { task with priorityLevel := 0 })
  have hsecond := sum_update f hlt (Function.update q.levels 0
    (q.levels 0 ++ (q.levels i).reverse.map fun task => { task with priorityLevel := 0 })) []
  rw [Function.update_of_ne (Nat.ne_of_gt hi), hnil] at hsecond
  rw [hmove] at hfirst
  show ∑ j ∈ Finset.range LEVELS, f (Function.update (Function.update q.levels 0 _) i [] j) = _
  omega

variable [DecidableEq τ] {x : τ}

/-- A reversed list has what it had. -/
theorem occurrences_move (l m : List (Task τ)) :
    occurrences x (l ++ m.reverse.map fun task => { task with priorityLevel := 0 }) =
      occurrences x l + occurrences x m := by
  rw [occurrences, List.countP_append, List.countP_map, List.countP_reverse]
  rfl

/-- No step loses or doubles a task. -/
theorem Effect.conserves (h : Effect q t thread q' thread') (hwf : thread.WF) :
    q'.stored x + thread'.returns x + thread.enqueues x =
      q.stored x + thread.returns x + thread'.enqueues x := by
  cases h with
  | plain hlevels hsize hmtx hplain hplain' hwf' =>
      have hstored : q'.stored x = q.stored x := by rw [Queue.stored, Queue.stored, hlevels]
      have hnone : ∀ {thread : Thread τ}, thread.Plain →
          thread.returns x = 0 ∧ thread.enqueues x = 0 := by
        intro thread hthread
        cases thread <;> first | exact ⟨rfl, rfl⟩ | exact absurd hthread id
      have := hnone hplain
      have := hnone hplain'
      omega
  | @raise caller i hlt =>
      have hstored : (q.raise i).stored x = q.stored x :=
        sum_raise (f := occurrences x) hwf hlt rfl occurrences_move
      rw [hstored]
      rfl
  | @push task =>
      have hsum := sum_update (occurrences x) hwf q.levels
        (q.levels task.priorityLevel.toNat ++ [task])
      have hnew : occurrences x (q.levels task.priorityLevel.toNat ++ [task]) =
          occurrences x (q.levels task.priorityLevel.toNat) + if task.id = x then 1 else 0 := by
        rw [occurrences, List.countP_append, List.countP_singleton]
        simp only [decide_eq_true_eq]
        rfl
      show (∑ i ∈ Finset.range LEVELS, occurrences x (Function.update q.levels _ _ i)) + 0 + 0 =
        (∑ i ∈ Finset.range LEVELS, occurrences x (q.levels i)) + 0 + if task.id = x then 1 else 0
      omega
  | count => rfl
  | enter hmtx hsize => rfl
  | pass hlt hempty => rfl
  | @take i task rest hlt htask =>
      have hsum := sum_update (occurrences x) hlt q.levels rest
      have hold : occurrences x (q.levels i) = occurrences x rest + if task.id = x then 1 else 0 := by
        rw [htask, occurrences, List.countP_cons]
        simp only [decide_eq_true_eq]
        rfl
      show (∑ j ∈ Finset.range LEVELS, occurrences x (Function.update q.levels i rest j)) +
          (if task.id = x then 1 else 0) + 0 =
        (∑ j ∈ Finset.range LEVELS, occurrences x (q.levels j)) + 0 + 0
      omega
  | miss hge => rfl
  | leave => rfl
  | crash => rfl

omit [DecidableEq τ] in
/-- The counter follows the levels, but for tasks that are pushed and not counted. -/
theorem Effect.counts (h : Effect q t thread q' thread') (hwf : thread.WF)
    (hsized : ∀ i, thread = .scan i → 0 < q.size) :
    q'.total + q.size + thread.pending = q.total + q'.size + thread'.pending := by
  cases h with
  | plain hlevels hsize hmtx hplain hplain' hwf' =>
      have htotal : q'.total = q.total := by rw [Queue.total, Queue.total, hlevels]
      have hnone : ∀ {thread : Thread τ}, thread.Plain → thread.pending = 0 := by
        intro thread hthread
        cases thread <;> first | rfl | exact absurd hthread id
      have := hnone hplain
      have := hnone hplain'
      omega
  | @raise caller i hlt =>
      have htotal : (q.raise i).total = q.total := by
        refine sum_raise (f := List.length) hwf hlt rfl fun l m => ?_
        rw [List.length_append, List.length_map, List.length_reverse]
      rw [htotal]
      rfl
  | @push task =>
      have hsum := sum_update List.length hwf q.levels
        (q.levels task.priorityLevel.toNat ++ [task])
      rw [List.length_append, List.length_singleton] at hsum
      show (∑ i ∈ Finset.range LEVELS, (Function.update q.levels _ _ i).length) + q.size + 0 =
        (∑ i ∈ Finset.range LEVELS, (q.levels i).length) + q.size + 1
      omega
  | count =>
      show q.total + q.size + 1 = q.total + (q.size + 1) + 0
      omega
  | enter hmtx hsize => rfl
  | pass hlt hempty => rfl
  | @take i task rest hlt htask =>
      have hsum := sum_update List.length hlt q.levels rest
      have hpos := hsized i rfl
      rw [htask, List.length_cons] at hsum
      show (∑ j ∈ Finset.range LEVELS, (Function.update q.levels i rest j).length) + q.size + 0 =
        (∑ j ∈ Finset.range LEVELS, (q.levels j).length) + (q.size - 1) + 0
      omega
  | miss hge => rfl
  | leave => rfl
  | crash => rfl

omit [DecidableEq τ] in
/-- An effect leaves its thread well formed. -/
theorem Effect.wf (h : Effect q t thread q' thread') (hwf : thread.WF) : thread'.WF := by
  cases h with
  | plain hlevels hsize hmtx hplain hplain' hwf' => exact hwf'
  | raise hlt => exact Nat.succ_pos _
  | _ => trivial

/-! ### What always holds -/

/-- The tasks are conserved, the counter counts them, and the dequeue that scans
holds `emptyMtx` while the counter is positive. -/
structure Accounted (s : System τ) : Prop where
  conserved : s.Conserved
  counted : s.queue.total = s.queue.size + total Thread.pending s.threads
  wf : ∀ {t : Nat} {thread : Thread τ}, s.threads[t]? = some thread → thread.WF
  locked : ∀ {t : Nat} {thread : Thread τ}, s.threads[t]? = some thread →
    (thread.Scanning ↔ s.queue.emptyMtx = some t)
  owner : ∀ {t : Nat}, s.queue.emptyMtx = some t → t < s.threads.length
  sized : ∀ {t i : Nat}, s.threads[t]? = some (.scan i) → 0 < s.queue.size

/-- A new queue holds nothing. -/
theorem accounted_construct (clock : Int) : Accounted (System.construct clock : System τ) where
  conserved x := by simp [System.construct, Queue.stored, occurrences]
  counted := by simp [System.construct, Queue.total]
  wf h := by cases h
  locked h := by cases h
  owner h := by cases h
  sized h := by cases h

omit [DecidableEq τ] in
/-- A call starts with nothing. -/
theorem Call.start_plain (c : Call τ) :
    c.start.WF ∧ ¬ c.start.Scanning ∧ c.start.pending = 0 := by
  cases c with
  | enqueue task => cases task <;> exact ⟨trivial, id, rfl⟩
  | _ => exact ⟨trivial, id, rfl⟩

/-- A call that starts has put no task anywhere. -/
theorem Call.start_places (c : Call τ) : c.start.enqueues x = 0 ∧ c.start.returns x = 0 := by
  cases c with
  | enqueue task => cases task <;> exact ⟨rfl, rfl⟩
  | _ => exact ⟨rfl, rfl⟩

omit [DecidableEq τ] in
/-- A plain thread does not scan. -/
theorem Thread.Plain.not_scanning (h : thread.Plain) : ¬ thread.Scanning := by
  intro hscanning
  cases thread <;> first | exact hscanning | exact h

omit [DecidableEq τ] in
/-- Only the scanning dequeue gives `emptyMtx` back or lowers the counter, and a
dequeue takes `emptyMtx` when it is free. -/
theorem Effect.locks (h : Effect q t thread q' thread')
    (hlocked : thread.Scanning ↔ q.emptyMtx = some t) :
    (thread'.Scanning ↔ q'.emptyMtx = some t) ∧
      (∀ u, u ≠ t → (q'.emptyMtx = some u ↔ q.emptyMtx = some u)) ∧
      (¬ thread.Scanning → q.size ≤ q'.size) := by
  cases h with
  | plain hlevels hsize hmtx hplain hplain' hwf' =>
      rw [hmtx, hsize]
      exact ⟨iff_of_false hplain'.not_scanning fun h => hplain.not_scanning (hlocked.mpr h),
        fun _ _ => Iff.rfl, fun _ => Nat.le_refl _⟩
  | raise hlt => exact ⟨hlocked, fun _ _ => Iff.rfl, fun _ => Nat.le_refl _⟩
  | push => exact ⟨hlocked, fun _ _ => Iff.rfl, fun _ => Nat.le_refl _⟩
  | count => exact ⟨hlocked, fun _ _ => Iff.rfl, fun _ => Nat.le_succ _⟩
  | enter hmtx hsize =>
      refine ⟨iff_of_true trivial rfl, fun u hu => ?_, fun _ => Nat.le_refl _⟩
      rw [hmtx]
      exact iff_of_false (fun h => hu (Option.some.inj h).symm) (fun h => by cases h)
  | pass hlt hempty => exact ⟨hlocked, fun _ _ => Iff.rfl, fun _ => Nat.le_refl _⟩
  | take hlt htask => exact ⟨hlocked, fun _ _ => Iff.rfl, fun h => absurd trivial h⟩
  | miss hge => exact ⟨hlocked, fun _ _ => Iff.rfl, fun _ => Nat.le_refl _⟩
  | leave =>
      have howner := hlocked.mp trivial
      refine ⟨iff_of_false id (fun h => nomatch h), fun u hu => ?_, fun _ => Nat.le_refl _⟩
      rw [howner]
      exact iff_of_false (fun h => by cases h) (fun h => hu (Option.some.inj h).symm)
  | crash => exact ⟨hlocked, fun _ _ => Iff.rfl, fun _ => Nat.le_refl _⟩

variable {s s' : System τ}

omit [DecidableEq τ] in
/-- The step of a thread. -/
theorem System.step_run (h : s.Step (.run t) s') :
    ∃ thread q' thread', s.threads[t]? = some thread ∧ Effect s.queue t thread q' thread' ∧
      s' = ⟨q', s.clock, s.threads.set t thread'⟩ := by
  rw [System.Step, System.step] at h
  split at h
  · cases h
  · rename_i thread hthread
    obtain ⟨⟨q', thread'⟩, hstep, rfl⟩ := Option.map_eq_some_iff.mp h
    exact ⟨thread, q', thread', hthread, thread.step_effect hstep, rfl⟩

omit [DecidableEq τ] in
/-- The threads after one of them has changed. -/
theorem of_getElem?_set {α : Type} {threads : List α} {u : Nat} {thread other : α}
    (h : (threads.set t thread)[u]? = some other) :
    (u = t ∧ other = thread) ∨ (u ≠ t ∧ threads[u]? = some other) := by
  by_cases hu : u = t
  · subst hu
    obtain ⟨hlt, heq⟩ := List.getElem?_eq_some_iff.mp h
    rw [List.getElem_set_self] at heq
    exact .inl ⟨rfl, heq.symm⟩
  · rw [List.getElem?_set_ne (Ne.symm hu)] at h
    exact .inr ⟨hu, h⟩

omit [DecidableEq τ] in
/-- The threads after another call. -/
theorem of_getElem?_append {α : Type} {threads : List α} {u : Nat} {thread other : α}
    (h : (threads ++ [thread])[u]? = some other) :
    (u = threads.length ∧ other = thread) ∨ threads[u]? = some other := by
  rcases Nat.lt_or_ge u threads.length with hlt | hge
  · rw [List.getElem?_append_left hlt] at h
    exact .inr h
  · rw [List.getElem?_append_right hge, List.getElem?_singleton] at h
    split at h
    · rename_i hzero
      exact .inl ⟨by omega, (Option.some.inj h).symm⟩
    · cases h

/-- A call changes nothing but the list of threads. -/
theorem Accounted.call (h : Accounted s) (c : Call τ) :
    Accounted { s with threads := s.threads ++ [c.start] } := by
  obtain ⟨hwf, hscanning, hpending⟩ := c.start_plain
  refine ⟨fun x => ?_, ?_, fun {t thread} ht => ?_, fun {t thread} ht => ?_, fun {t} ht => ?_,
    fun {t i} ht => ?_⟩
  · obtain ⟨henqueues, hreturns⟩ := c.start_places (x := x)
    rw [total_append, total_append, henqueues, hreturns]
    exact h.conserved x
  · rw [total_append, hpending]
    exact h.counted
  · rcases of_getElem?_append ht with ⟨-, rfl⟩ | hold
    · exact hwf
    · exact h.wf hold
  · rcases of_getElem?_append ht with ⟨rfl, rfl⟩ | hold
    · exact iff_of_false hscanning fun howner => Nat.lt_irrefl _ (h.owner howner)
    · exact h.locked hold
  · rw [List.length_append]
    exact Nat.lt_add_right _ (h.owner ht)
  · rcases of_getElem?_append ht with ⟨-, hstart⟩ | hold
    · rw [← hstart] at hscanning
      exact absurd trivial hscanning
    · exact h.sized hold

/-- **Step.**  A step of a thread keeps the account. -/
theorem Accounted.run (h : Accounted s) (hthread : s.threads[t]? = some thread)
    (heffect : Effect s.queue t thread q' thread') :
    Accounted ⟨q', s.clock, s.threads.set t thread'⟩ := by
  have hwf := h.wf hthread
  have hlocked := h.locked hthread
  obtain ⟨hlocked', hothers, hsize⟩ := heffect.locks hlocked
  refine ⟨fun x => ?_, ?_, fun {u other} hu => ?_, fun {u other} hu => ?_, fun {u} hu => ?_,
    fun {u i} hu => ?_⟩
  · have hconserved := h.conserved x
    have hbalance := heffect.conserves (x := x) hwf
    have henqueues := total_set (Thread.enqueues x) hthread thread'
    have hreturns := total_set (Thread.returns x) hthread thread'
    show total (Thread.enqueues x) (s.threads.set t thread') =
      q'.stored x + total (Thread.returns x) (s.threads.set t thread')
    omega
  · have hcounted := h.counted
    have hbalance := heffect.counts hwf fun i hi => h.sized (hi ▸ hthread)
    have hpending := total_set Thread.pending hthread thread'
    show q'.total = q'.size + total Thread.pending (s.threads.set t thread')
    omega
  · rcases of_getElem?_set hu with ⟨-, rfl⟩ | ⟨-, hold⟩
    · exact heffect.wf hwf
    · exact h.wf hold
  · rcases of_getElem?_set hu with ⟨rfl, rfl⟩ | ⟨hne, hold⟩
    · exact hlocked'
    · exact (h.locked hold).trans (hothers u hne).symm
  · rw [List.length_set]
    by_cases hut : u = t
    · rw [hut]
      exact (List.getElem?_eq_some_iff.mp hthread).1
    · exact h.owner ((hothers u hut).mp hu)
  · rcases of_getElem?_set hu with ⟨rfl, hscan⟩ | ⟨hne, hold⟩
    · -- the thread itself starts to scan, or goes on
      subst hscan
      cases heffect with
      | plain hlevels hsize hmtx hplain hplain' hwf' => exact absurd hplain' id
      | enter hmtx hpos => exact hpos
      | pass hlt hempty => exact h.sized hthread
    · -- another one scans, so this one does not lower the counter
      have howner := (h.locked hold).mp trivial
      have hnot : ¬ thread.Scanning := by
        intro hscanning
        have heq := (hlocked.mp hscanning).symm.trans howner
        exact hne (Option.some.inj heq).symm
      exact Nat.lt_of_lt_of_le (h.sized hold) (hsize hnot)

/-- **One step** keeps every task in one place. -/
theorem Accounted.step (h : Accounted s) {a : Action τ} (hstep : s.Step a s') : Accounted s' := by
  cases a with
  | call c =>
      obtain rfl := Option.some.inj hstep
      exact h.call c
  | run t =>
      obtain ⟨thread, q', thread', hthread, heffect, rfl⟩ := System.step_run hstep
      exact h.run hthread heffect
  | tick ticks =>
      obtain rfl := Option.some.inj hstep
      exact ⟨h.conserved, h.counted, h.wf, h.locked, h.owner, h.sized⟩

/-! ### Finding a task -/

omit [DecidableEq τ] in
/-- No dequeue has come to the end of its scan without a task. -/
def System.FindsTask (s : System τ) : Prop :=
  ∀ t : Nat, s.threads[t]? ≠ some (.increment none) ∧ s.threads[t]? ≠ some .crashed

/-- Level `i` has the last tasks ahead of a scan that has passed level 0 and is
at level `p`. -/
def Queue.LastAhead (q : Queue τ) (i p : Nat) : Prop :=
  0 < p ∧ p ≤ i ∧ (q.levels i).length ≠ 0 ∧
    ∀ j ∈ List.range LEVELS, p ≤ j → j ≠ i → (q.levels j).length = 0

instance (q : Queue τ) (i p : Nat) : Decidable (q.LastAhead i p) := by
  unfold Queue.LastAhead
  infer_instance

/-- No boost is about to move the last tasks ahead of a scan behind it. -/
def System.Keeps (s : System τ) : Action τ → Prop
  | .run t =>
      match s.threads[t]? with
      | some (.boost _ i) => i < LEVELS → ∀ thread ∈ s.threads,
          match thread with
          | .scan p => ¬ s.queue.LastAhead i p
          | _ => True
      | _ => True
  | _ => True

instance (s : System τ) (a : Action τ) : Decidable (s.Keeps a) := by
  unfold System.Keeps
  split
  · split
    · refine @instDecidableForall _ _ _ (@List.decidableBAll _ _ (fun thread => ?_) _)
      split <;> infer_instance
    · infer_instance
  · infer_instance

omit [DecidableEq τ] in
/-- A boost that keeps the tasks takes the last one from no scanning thread. -/
theorem System.keeps_boost {caller : Caller τ} {i u p : Nat}
    (hboost : s.threads[t]? = some (.boost caller i)) (hkeeps : s.Keeps (.run t)) (hi : i < LEVELS)
    (hscan : s.threads[u]? = some (.scan p)) : ¬ s.queue.LastAhead i p := by
  rw [System.Keeps, hboost] at hkeeps
  exact hkeeps hi _ (List.mem_of_getElem? hscan)

/-- There is a task at the position of a scan, or ahead of it. -/
def Queue.HasAhead (q : Queue τ) (p : Nat) : Prop := ∃ j, p ≤ j ∧ j < LEVELS ∧ q.levels j ≠ []

/-- Every scan will find a task if nothing is moved. -/
def System.Ahead (s : System τ) : Prop :=
  ∀ {t p : Nat}, s.threads[t]? = some (.scan p) → s.queue.HasAhead p

omit [DecidableEq τ] in
/-- A counted task is in some level. -/
theorem hasAhead_zero (hcounted : q.size ≤ q.total) (hpos : 0 < q.size) : q.HasAhead 0 := by
  by_contra hnone
  have hempty : ∀ j ∈ Finset.range LEVELS, (q.levels j).length = 0 := by
    intro j hj
    rw [List.length_eq_zero_iff]
    by_contra hne
    exact hnone ⟨j, Nat.zero_le j, Finset.mem_range.mp hj, hne⟩
  have hzero : q.total = 0 := Finset.sum_eq_zero hempty
  omega

omit [DecidableEq τ] in
/-- A boost of one level leaves the others. -/
theorem Queue.raise_levels {i j : Nat} (hji : j ≠ i) (hj : j ≠ 0) :
    (q.raise i).levels j = q.levels j := by
  show Function.update (Function.update q.levels 0 _) i [] j = _
  rw [Function.update_of_ne hji, Function.update_of_ne hj]

omit [DecidableEq τ] in
/-- It puts the tasks behind level 0, in reverse. -/
theorem Queue.raise_zero {i : Nat} (hi : 0 < i) :
    (q.raise i).levels 0 =
      q.levels 0 ++ (q.levels i).reverse.map fun task => { task with priorityLevel := 0 } := by
  show Function.update (Function.update q.levels 0 _) i [] 0 = _
  rw [Function.update_of_ne (Nat.ne_of_lt hi), Function.update_self]

omit [DecidableEq τ] in
/-- What a boost moves away was not the last task ahead of the scan. -/
theorem Queue.HasAhead.raise {i p : Nat} (h : q.HasAhead p) (hi : 0 < i)
    (hlast : ¬ q.LastAhead i p) : (q.raise i).HasAhead p := by
  obtain ⟨j, hpj, hj, hne⟩ := h
  by_cases hp : p = 0
  · -- a scan at level 0 finds what was moved there
    subst hp
    by_cases hmoved : j = 0 ∨ j = i
    · refine ⟨0, Nat.le_refl 0, Nat.zero_lt_succ _, ?_⟩
      rw [Queue.raise_zero hi]
      intro hnil
      obtain ⟨hzero, hlevel⟩ := List.append_eq_nil_iff.mp hnil
      rcases hmoved with rfl | rfl
      · exact hne hzero
      · exact hne (List.reverse_eq_nil_iff.mp (List.map_eq_nil_iff.mp hlevel))
    · obtain ⟨hj0, hji⟩ := not_or.mp hmoved
      refine ⟨j, hpj, hj, ?_⟩
      rw [Queue.raise_levels hji hj0]
      exact hne
  · by_cases hji : j = i
    · -- another level ahead has a task too
      subst hji
      by_contra hnone
      refine hlast ⟨Nat.pos_of_ne_zero hp, hpj, fun hlen => hne (List.length_eq_zero_iff.mp hlen),
        fun m hm hpm hmi => ?_⟩
      rw [List.length_eq_zero_iff]
      by_contra hm'
      refine hnone ⟨m, hpm, List.mem_range.mp hm, ?_⟩
      rw [Queue.raise_levels hmi (by omega)]
      exact hm'
    · refine ⟨j, hpj, hj, ?_⟩
      rw [Queue.raise_levels hji (by omega)]
      exact hne

omit [DecidableEq τ] in
/-- What is ahead of a scan stays there while other threads take their steps. -/
theorem Effect.hasAhead {p : Nat} (heffect : Effect q t thread q' thread') (hwf : thread.WF)
    (hother : ¬ thread.Scanning)
    (hkeeps : ∀ caller i, thread = .boost caller i → i < LEVELS → ¬ q.LastAhead i p)
    (h : q.HasAhead p) : q'.HasAhead p := by
  cases heffect with
  | plain hlevels hsize hmtx hplain hplain' hwf' =>
      rw [Queue.HasAhead, hlevels]
      exact h
  | raise hlt => exact h.raise hwf (hkeeps _ _ rfl hlt)
  | @push task =>
      obtain ⟨j, hpj, hj, hne⟩ := h
      refine ⟨j, hpj, hj, ?_⟩
      show Function.update q.levels _ _ j ≠ []
      by_cases hjt : j = task.priorityLevel.toNat
      · rw [hjt, Function.update_self]
        exact List.concat_ne_nil _ _
      · rw [Function.update_of_ne hjt]
        exact hne
  | count => exact h
  | enter hmtx hsize => exact h
  | _ => exact absurd trivial hother

/-- **Step.**  As long as no boost moves the last tasks ahead of a scan, every
scan has a task ahead and none comes to its end. -/
theorem Accounted.ahead_step (h : Accounted s) {a : Action τ} (hahead : s.Ahead)
    (hfinds : s.FindsTask) (hkeeps : s.Keeps a) (hstep : s.Step a s') :
    s'.Ahead ∧ s'.FindsTask := by
  cases a with
  | call c =>
      obtain rfl := Option.some.inj hstep
      obtain ⟨-, hscanning, -⟩ := c.start_plain
      refine ⟨fun {t p} ht => ?_, fun t => ⟨fun ht => ?_, fun ht => ?_⟩⟩
      · rcases of_getElem?_append ht with ⟨-, hstart⟩ | hold
        · rw [← hstart] at hscanning
          exact absurd trivial hscanning
        · exact hahead hold
      · rcases of_getElem?_append ht with ⟨-, hstart⟩ | hold
        · rw [← hstart] at hscanning
          exact hscanning trivial
        · exact (hfinds t).1 hold
      · rcases of_getElem?_append ht with ⟨-, hstart⟩ | hold
        · rw [← hstart] at hscanning
          exact hscanning trivial
        · exact (hfinds t).2 hold
  | tick ticks =>
      obtain rfl := Option.some.inj hstep
      exact ⟨hahead, hfinds⟩
  | run t =>
      obtain ⟨thread, q', thread', hthread, heffect, rfl⟩ := System.step_run hstep
      refine ⟨fun {u p} hu => ?_, fun u => ⟨fun hu => ?_, fun hu => ?_⟩⟩
      · rcases of_getElem?_set hu with ⟨rfl, hscan⟩ | ⟨hne, hold⟩
        · subst hscan
          cases heffect with
          | plain hlevels hsize hmtx hplain hplain' hwf' => exact absurd hplain' id
          | enter hmtx hpos =>
              have hcounted := h.counted
              have hle : s.queue.size ≤ s.queue.total := by omega
              exact hasAhead_zero hle hpos
          | @pass i hlt hempty =>
              -- the level that was empty is not where the task is
              obtain ⟨j, hij, hj, hne⟩ := hahead hthread
              have hji : j ≠ i := by
                intro heq
                rw [heq] at hne
                exact hne hempty
              exact ⟨j, by omega, hj, hne⟩
        · have howner := (h.locked hold).mp trivial
          have hother : ¬ thread.Scanning := by
            intro hscanning
            have heq := ((h.locked hthread).mp hscanning).symm.trans howner
            exact hne (Option.some.inj heq).symm
          refine heffect.hasAhead (h.wf hthread) hother (fun caller i hboost hi => ?_)
            (hahead hold)
          exact System.keeps_boost (hboost ▸ hthread) hkeeps hi hold
      · rcases of_getElem?_set hu with ⟨rfl, hmiss⟩ | ⟨hne, hold⟩
        · subst hmiss
          cases heffect with
          | plain hlevels hsize hmtx hplain hplain' hwf' => exact absurd hplain' id
          | miss hge =>
              obtain ⟨j, hij, hj, -⟩ := hahead hthread
              omega
        · exact (hfinds u).1 hold
      · rcases of_getElem?_set hu with ⟨rfl, hcrash⟩ | ⟨hne, hold⟩
        · subst hcrash
          cases heffect with
          | plain hlevels hsize hmtx hplain hplain' hwf' => exact absurd hplain' id
          | crash => exact (hfinds u).1 hthread
        · exact (hfinds u).2 hold

omit [DecidableEq τ] in
/-- A scan with nothing ahead comes to its end. -/
theorem misses {p : Nat} (hp : 0 < p) (hscan : s.threads[t]? = some (.scan p))
    (hempty : ∀ j, p ≤ j → j < LEVELS → s.queue.levels j = []) :
    ∃ s', Reaches System.Step (fun _ _ => True) s s' ∧ ¬ s'.FindsTask := by
  obtain ⟨left, hleft⟩ : ∃ left, left = LEVELS - p := ⟨_, rfl⟩
  induction left generalizing s p with
  | zero =>
      have hge : ¬ p < LEVELS := by omega
      have hstep : s.Step (.run t)
          ⟨s.queue, s.clock, s.threads.set t (.increment none)⟩ := by
        rw [System.Step, System.step, hscan]
        simp only [Thread.step, if_neg hge, Option.map_some]
      refine ⟨_, Reaches.refl.step trivial hstep, fun hfinds => (hfinds t).1 ?_⟩
      exact List.getElem?_set_self (List.getElem?_eq_some_iff.mp hscan).1
  | succ left ih =>
      have hlt : p < LEVELS := by omega
      have hfree : ¬ (p = 0 ∧ s.queue.qMtx0 ≠ none) := fun h => Nat.ne_of_gt hp h.1
      have hstep : s.Step (.run t) ⟨s.queue, s.clock, s.threads.set t (.scan (p + 1))⟩ := by
        rw [System.Step, System.step, hscan]
        simp only [Thread.step, if_pos hlt, if_neg hfree, hempty p (Nat.le_refl p) hlt,
          Option.map_some]
      have hnext := List.getElem?_set_self (a := Thread.scan (p + 1))
        (List.getElem?_eq_some_iff.mp hscan).1
      obtain ⟨s', hreaches, hmiss⟩ := ih
        (s := ⟨s.queue, s.clock, s.threads.set t (.scan (p + 1))⟩) (Nat.succ_pos p) hnext
        (fun j hj => hempty j (Nat.le_of_succ_le hj)) (by omega)
      exact ⟨s', (Reaches.refl.step trivial hstep).trans hreaches, hmiss⟩

/-! ### Runs -/

/-- **Run.**  The account holds after any steps in any order. -/
theorem accounted_of_reaches {clock : Int} {P : System τ → Action τ → Prop}
    (hrun : Reaches System.Step P (.construct clock) s) : Accounted s :=
  hrun.invariant (accounted_construct clock) fun h _ hstep => h.step hstep

/-- A run in which no boost moves the last tasks ahead of a scan. -/
theorem ahead_of_reaches {clock : Int}
    (hrun : Reaches System.Step System.Keeps (.construct clock) s) : s.Ahead ∧ s.FindsTask := by
  have hstart : (System.construct clock : System τ).Ahead := by
    intro t p h
    cases h
  have hnone : (System.construct clock : System τ).FindsTask := by
    intro t
    constructor
    · intro h
      cases h
    · intro h
      cases h
  have hall : Accounted s ∧ s.Ahead ∧ s.FindsTask := by
    refine hrun.invariant (I := fun s : System τ => Accounted s ∧ s.Ahead ∧ s.FindsTask)
      ⟨accounted_construct clock, hstart, hnone⟩ ?_
    intro s a s' ⟨haccounted, hahead, hfinds⟩ hkeeps hstep
    exact ⟨haccounted.step hstep, haccounted.ahead_step hahead hfinds hkeeps hstep⟩
  exact hall.2

omit [DecidableEq τ] in
/-- Where tasks are not kept, a boost takes the last one from a scanning thread. -/
theorem System.boost_of_not_keeps {a : Action τ} (hkeeps : ¬ s.Keeps a) :
    ∃ (t u p i : Nat) (caller : Caller τ), a = .run t ∧ s.threads[t]? = some (.boost caller i) ∧
      i < LEVELS ∧ s.threads[u]? = some (.scan p) ∧ s.queue.LastAhead i p := by
  cases a with
  | call c => exact absurd trivial hkeeps
  | tick ticks => exact absurd trivial hkeeps
  | run t =>
      rw [System.Keeps] at hkeeps
      split at hkeeps
      · rename_i caller i hboost
        obtain ⟨hi, hkeeps⟩ := Classical.not_imp.mp hkeeps
        obtain ⟨thread, hkeeps⟩ := Classical.not_forall.mp hkeeps
        obtain ⟨hmem, hlast⟩ := Classical.not_imp.mp hkeeps
        obtain ⟨u, hu⟩ := List.mem_iff_getElem?.mp hmem
        split at hlast
        · rename_i p
          exact ⟨t, u, p, i, caller, rfl, hboost, hi, hu, not_not.mp hlast⟩
        · exact absurd trivial hlast
      · exact absurd trivial hkeeps

omit [DecidableEq τ] in
/-- A boost that moves the last tasks ahead of a scan lets it come to nothing. -/
theorem misses_of_not_keeps {a : Action τ} (hkeeps : ¬ s.Keeps a) (hstep : s.Step a s') :
    ∃ s'', Reaches System.Step (fun _ _ => True) s' s'' ∧ ¬ s''.FindsTask := by
  obtain ⟨t, u, p, i, caller, rfl, hboost, hi, hscan, hlast⟩ := System.boost_of_not_keeps hkeeps
  obtain ⟨hp, hpi, -, hothers⟩ := hlast
  have hne : t ≠ u := by
    intro heq
    rw [heq, hscan] at hboost
    cases hboost
  have hs' : s' = ⟨s.queue.raise i, s.clock, s.threads.set t (.boost caller (i + 1))⟩ := by
    rw [System.Step, System.step, hboost] at hstep
    simp only [Thread.step, if_pos hi, Option.map_some] at hstep
    exact (Option.some.inj hstep).symm
  rw [hs']
  refine misses (t := u) hp ?_ fun j hpj hj => ?_
  · rw [List.getElem?_set_ne hne, hscan]
  · show (s.queue.raise i).levels j = []
    by_cases hji : j = i
    · show Function.update (Function.update s.queue.levels 0 _) i [] j = []
      rw [hji, Function.update_self]
    · rw [Queue.raise_levels hji (by omega)]
      exact List.length_eq_zero_iff.mp (hothers j (List.mem_range.mpr hj) hpj hji)

/-- **The queue.**  After any steps in any order every enqueued task is in one
level or was taken by one dequeue.  As long as no boost moves the last tasks
ahead of a scan that has passed level 0, every dequeue finds a task; the first
boost that does can be followed by a dequeue that finds none. -/
theorem mlfq_exact (clock : Int) :
    (∀ s : System τ, Reaches System.Step (fun _ _ => True) (.construct clock) s → s.Conserved) ∧
    (∀ s : System τ, Reaches System.Step System.Keeps (.construct clock) s → s.FindsTask) ∧
    ∀ (s : System τ) a s', Reaches System.Step System.Keeps (.construct clock) s → s.Step a s' →
      ¬ s.Keeps a → ∃ s'', Reaches System.Step (fun _ _ => True) s' s'' ∧ ¬ s''.FindsTask := by
  refine ⟨fun s hrun => (accounted_of_reaches hrun).conserved,
    fun s hrun => (ahead_of_reaches hrun).2, fun s a s' hrun hstep hkeeps => ?_⟩
  exact misses_of_not_keeps hkeeps hstep

/-- A task goes to level 1 and a dequeue passes level 0; then a boost moves the
task to level 0, and the dequeue scans the other levels. -/
def lostTask : List (Action Nat) :=
  [.call (.enqueue (some ⟨0, 1⟩)), .run 0, .run 0, .run 0, .run 0, .call .dequeue, .run 1, .run 1,
    .run 1, .run 1, .tick 60000000, .call .checkQuanta, .run 2, .run 2, .run 2, .run 2, .run 2,
    .run 1, .run 1, .run 1, .run 1, .run 1]

/-- A task is enqueued and dequeued again, while a boost goes on. -/
def foundTask : List (Action Nat) :=
  [.call (.enqueue (some ⟨0, 7⟩)), .run 0, .run 0, .run 0, .run 0, .tick 60000000, .call .checkQuanta,
    .run 1, .run 1, .run 1, .run 1, .run 1, .call .dequeue, .run 2, .run 2, .run 1, .run 2, .run 1,
    .run 1, .run 1, .run 2, .run 2]

/-- The guarantees on the second run: the dequeue has found the task. -/
theorem foundTask_exact :
    ∃ s : System Nat, Reaches System.Step System.Keeps (.construct 0) s ∧
      total (Thread.returns 0) s.threads = 1 ∧ s.FindsTask ∧ s.Conserved := by
  have hruns : (execute System.step System.Keeps (.construct 0) foundTask).any
      (fun s => decide (total (Thread.returns 0) s.threads = 1)) = true := by
    decide +kernel
  obtain ⟨s, hs, hreturned⟩ := (Option.any_eq_true _ _).mp hruns
  have hreaches := reaches_of_execute (R := System.Step) id hs
  obtain ⟨hconserved, hfinds, -⟩ := mlfq_exact (τ := Nat) 0
  exact ⟨s, hreaches, of_decide_eq_true hreturned, hfinds s hreaches,
    hconserved s (hreaches.mono fun _ _ _ => trivial)⟩

/-- The second thread found no task. -/
def foundNothing (s : System Nat) : Bool :=
  match (s.threads[1]? : Option (Thread Nat)) with
  | some (.increment none) => true
  | _ => false

/-- A dequeue may find no task. -/
theorem dequeue_may_miss :
    ¬ ∀ s : System Nat, Reaches System.Step (fun _ _ => True) (.construct 0) s →
      s.Conserved ∧ s.FindsTask := by
  intro hall
  have hruns : (execute System.step (fun _ _ => True) (.construct 0) lostTask).any
      foundNothing = true := by
    decide +kernel
  obtain ⟨s, hs, hmiss⟩ := (Option.any_eq_true _ _).mp hruns
  have hfinds := (hall s (reaches_of_execute (R := System.Step) id hs)).2 1
  unfold foundNothing at hmiss
  split at hmiss
  · rename_i hthread
    exact hfinds.1 hthread
  · cases hmiss

end MLFQ
