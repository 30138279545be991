import BobbyOS.Kernel.Process

/-!
# The scheduler

`MultiLevelQueue` keeps the PIDs of the processes that wait in three levels and
counts them.  A PID goes to the end of the level of its process and comes off
the front of the first level that has one.

`Holds q pids` says that a queue has the PIDs `pids` in the first level and none
in the others, and that it counts them: the priority of a process never changes
from the highest.
-/

namespace Kernel

/-- `NUM_LEVELS`. -/
def NUM_LEVELS : Nat := 3

/-- `MultiLevelQueue`. -/
structure MultiLevelQueue where
  levels : Nat → List Word := fun _ => []
  size : Nat := 0

namespace MultiLevelQueue

/-- `levels[priority].push_back(pid)` and `++_size`. -/
def push (q : MultiLevelQueue) (priority : Nat) (pid : Word) : MultiLevelQueue where
  levels := Function.update q.levels priority (q.levels priority ++ [pid])
  size := q.size + 1

/-- The loop of `dequeue` from level `i` on: the first PID there is, or -1. -/
def popFrom (q : MultiLevelQueue) : Nat → Nat → Word × MultiLevelQueue
  | 0, _ => (0xFFFFFFFF#32, q)
  | left + 1, i =>
      match q.levels i with
      | [] => popFrom q left (i + 1)
      | pid :: rest => (pid, ⟨Function.update q.levels i rest, q.size - 1⟩)

/-- The PID that `dequeue` takes. -/
def pop (q : MultiLevelQueue) : Word × MultiLevelQueue := q.popFrom NUM_LEVELS 0

/-- One round of `boost`: level `i` goes to the end of level 0, last PID first. -/
def raise (q : MultiLevelQueue) (i : Nat) : MultiLevelQueue :=
  let pids := q.levels 0 ++ (q.levels i).reverse
  { q with levels := Function.update (Function.update q.levels 0 pids) i [] }

/-- `boost()`. -/
def boost (q : MultiLevelQueue) : MultiLevelQueue := (q.raise 1).raise 2

/-- `empty`. -/
def empty (q : MultiLevelQueue) : Bool := q.size == 0

/-- All PIDs, level by level. -/
def queued (q : MultiLevelQueue) : List Word := (List.range NUM_LEVELS).flatMap q.levels

/-- The queue has these PIDs in the first level, and counts them. -/
structure Holds (q : MultiLevelQueue) (pids : List Word) : Prop where
  first : q.levels 0 = pids
  others : ∀ i, 0 < i → q.levels i = []
  size : q.size = pids.length

variable {q : MultiLevelQueue} {pid : Word} {pids : List Word}

/-- A new queue is empty. -/
theorem holds_nil : ({} : MultiLevelQueue).Holds [] := ⟨rfl, fun _ _ => rfl, rfl⟩

/-- The waiting PIDs, in order. -/
theorem Holds.queued (h : q.Holds pids) : q.queued = pids := by
  have h1 := h.others 1 Nat.zero_lt_one
  have h2 := h.others 2 (Nat.zero_lt_succ 1)
  show List.flatMap q.levels [0, 1, 2] = pids
  simp [h.first, h1, h2]

/-- A pushed PID waits behind the others. -/
theorem Holds.push (h : q.Holds pids) (pid : Word) : (q.push 0 pid).Holds (pids ++ [pid]) := by
  refine ⟨?_, fun i hi => ?_, ?_⟩
  · show Function.update q.levels 0 (q.levels 0 ++ [pid]) 0 = _
    rw [Function.update_self, h.first]
  · show Function.update q.levels 0 (q.levels 0 ++ [pid]) i = _
    rw [Function.update_of_ne (Nat.ne_of_gt hi)]
    exact h.others i hi
  · show q.size + 1 = _
    rw [List.length_append, h.size]
    rfl

/-- `empty` says whether none waits. -/
theorem Holds.empty_iff (h : q.Holds pids) : q.empty = true ↔ pids = [] := by
  rw [empty, beq_iff_eq, h.size, List.length_eq_zero_iff]

/-- The first one is popped. -/
theorem Holds.pop (h : q.Holds (pid :: pids)) : q.pop.1 = pid ∧ q.pop.2.Holds pids := by
  have hpop : q.pop = (pid, ⟨Function.update q.levels 0 pids, q.size - 1⟩) := by
    rw [MultiLevelQueue.pop, NUM_LEVELS, popFrom, h.first]
  rw [hpop]
  refine ⟨rfl, ?_, fun i hi => ?_, ?_⟩
  · exact Function.update_self 0 pids q.levels
  · show Function.update q.levels 0 pids i = []
    rw [Function.update_of_ne (Nat.ne_of_gt hi)]
    exact h.others i hi
  · show q.size - 1 = pids.length
    rw [h.size]
    rfl

end MultiLevelQueue

end Kernel
