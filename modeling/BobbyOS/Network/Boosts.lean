import BobbyOS.Kernel.Scheduler
import BobbyOS.Lib.Levels
import BobbyOS.Lib.Run
import BobbyOS.Network.Workers

/-!
# Boosts

The queue of the workers and the scheduler of the kernel have the same `boost`: it
takes the tasks of each lower level from the back and appends them to level 0.

* `boost_runs`: the steps of a thread that boosts come to `boost`;
* `boost_inOrder_iff`: the waiting order of a level survives exactly if the level
  reads the same backwards, which of different tasks only one task alone does.
-/

open Levels Run

/-! ### The workers' queue -/

namespace MLFQ

variable {τ : Type} {q : Queue τ} {s : System τ} {t i left : Nat} {caller : Caller τ}

/-- `priorityLevel = 0`. -/
def Task.reset (task : Task τ) : Task τ := { task with priorityLevel := 0 }

/-- `boost()`: the loop over the levels from 1 on. -/
def Queue.boost (q : Queue τ) : Queue τ := (List.range' 1 (LEVELS - 1)).foldl Queue.raise q

/-- A boost as it should be: the levels from 1 on go behind level 0, a higher one ahead of a
lower one, and each in its order. -/
def Queue.BoostedTo (q q' : Queue τ) : Prop :=
  InOrder Task.reset (List.range' 1 (LEVELS - 1)) q.levels q'.levels

/-- The boost of some levels changes the levels only. -/
theorem Queue.foldl_raise (q : Queue τ) (is : List Nat) :
    is.foldl Queue.raise q =
      { q with levels := raiseAll (fun l => l.reverse.map Task.reset) q.levels is } := by
  induction is generalizing q with
  | nil => rfl
  | cons i is ih =>
      rw [List.foldl_cons, ih]
      rfl

/-- One turn of a boosting thread raises one level. -/
theorem System.boost_step (h : s.threads[t]? = some (.boost caller i)) (hi : i < LEVELS) :
    s.Step (.run t)
      ⟨s.queue.raise i, s.clock, s.threads.set t (.boost caller (i + 1))⟩ := by
  rw [System.Step, System.step, h]
  simp only [Thread.step, if_pos hi, Option.map_some]

/-- The rounds of the loop, and the return. -/
theorem System.boost_rounds (h : s.threads[t]? = some (.boost caller i))
    (hleft : i + left = LEVELS) :
    Reaches System.Step (fun _ a => a = .run t) s
      ⟨{ (List.range' i left).foldl Queue.raise s.queue with qMtx0 := none }, s.clock,
        s.threads.set t (caller.resume true)⟩ := by
  induction left generalizing s i with
  | zero =>
      have hge : ¬ i < LEVELS := by omega
      refine Reaches.refl.step rfl ?_
      rw [System.Step, System.step, h]
      simp only [Thread.step, if_neg hge, Option.map_some]
      rfl
  | succ left ih =>
      obtain ⟨s', hs'⟩ : ∃ s' : System τ, s' =
          ⟨s.queue.raise i, s.clock, s.threads.set t (.boost caller (i + 1))⟩ := ⟨_, rfl⟩
      have hround : Reaches System.Step (fun _ a => a = .run t) s s' := by
        rw [hs']
        exact .step .refl rfl (System.boost_step h (by omega))
      have hself : s'.threads[t]? = some (.boost caller (i + 1)) := by
        rw [hs']
        exact List.getElem?_set_self (List.getElem?_eq_some_iff.mp h).1
      have hrest := ih hself (by omega)
      rw [hs', List.set_set] at hrest
      rw [hs'] at hround
      exact hround.trans hrest

/-- **Boosts.**  A thread that starts a boost and is not disturbed boosts the queue. -/
theorem System.boost_runs (h : s.threads[t]? = some (.lockBoost caller))
    (hfree : s.queue.qMtx0 = none) :
    Reaches System.Step (fun _ a => a = .run t) s
      ⟨s.queue.boost, s.clock, s.threads.set t (caller.resume true)⟩ := by
  have hlock : Reaches System.Step (fun _ a => a = .run t) s
      ⟨{ s.queue with qMtx0 := some t }, s.clock, s.threads.set t (.boost caller 1)⟩ := by
    refine .step .refl rfl ?_
    rw [System.Step, System.step, h]
    simp only [Thread.step, if_pos hfree, Option.map_some]
  have hself := List.getElem?_set_self (a := Thread.boost caller 1)
    (List.getElem?_eq_some_iff.mp h).1
  have hleft : 1 + (LEVELS - 1) = LEVELS := rfl
  have hrounds := System.boost_rounds (s := ⟨{ s.queue with qMtx0 := some t }, s.clock,
    s.threads.set t (.boost caller 1)⟩) hself hleft
  have hboost : { (List.range' 1 (LEVELS - 1)).foldl Queue.raise
      { s.queue with qMtx0 := some t } with qMtx0 := none } = s.queue.boost := by
    rw [Queue.boost, Queue.foldl_raise, Queue.foldl_raise, ← hfree]
  rw [hboost, List.set_set] at hrounds
  exact hlock.trans hrounds

/-- The levels that a boost raises. -/
theorem mem_lowerLevels {n : Nat} : i ∈ List.range' 1 (n - 1) ↔ 0 < i ∧ i < n := by
  rw [List.mem_range'_1]
  omega

/-- A boost keeps the order of each level exactly if every level reads the same backwards. -/
theorem Queue.boostedTo_iff (q : Queue τ) :
    q.BoostedTo q.boost ↔
      ∀ i, 0 < i → i < LEVELS → ((q.levels i).map Task.id).Palindrome := by
  have hreset (l : List (Task τ)) :
      (l.map Task.reset).Palindrome ↔ (l.map Task.id).Palindrome := by
    rw [List.Palindrome.iff_reverse_eq, List.Palindrome.iff_reverse_eq, ← List.map_reverse,
      ← List.map_reverse]
    constructor
    · intro h
      have hids := congrArg (List.map Task.id) h
      rwa [List.map_map, List.map_map] at hids
    · intro h
      have htasks := congrArg (List.map fun id => (⟨id, 0⟩ : Task τ)) h
      rwa [List.map_map, List.map_map] at htasks
  rw [Queue.BoostedTo, Queue.boost, Queue.foldl_raise,
    inOrder_raiseAll_iff (by decide) List.nodup_range']
  constructor
  · intro h i hi hlt
    exact (hreset _).mp (h i (mem_lowerLevels.mpr ⟨hi, hlt⟩))
  · intro h i hi
    obtain ⟨hpos, hlt⟩ := mem_lowerLevels.mp hi
    exact (hreset _).mpr (h i hpos hlt)

/-- The same for different tasks. -/
theorem Queue.boostedTo_iff_of_nodup (hnodup : ∀ i, ((q.levels i).map Task.id).Nodup) :
    q.BoostedTo q.boost ↔ ∀ i, 0 < i → i < LEVELS → (q.levels i).length ≤ 1 := by
  rw [q.boostedTo_iff]
  refine forall₃_congr fun i _ _ => ?_
  rw [palindrome_iff_of_nodup (hnodup i), List.length_map]

end MLFQ

/-! ### The kernel's scheduler -/

namespace Kernel.MultiLevelQueue

/-- A boost as it should be. -/
def BoostedTo (q q' : MultiLevelQueue) : Prop :=
  InOrder id (List.range' 1 (NUM_LEVELS - 1)) q.levels q'.levels

/-- The same for the kernel's queue. -/
theorem boostedTo_iff (q : MultiLevelQueue) :
    q.BoostedTo q.boost ↔ ∀ i, 0 < i → i < NUM_LEVELS → (q.levels i).Palindrome := by
  have hboost : q.boost.levels =
      raiseAll (fun l => l.reverse.map id) q.levels (List.range' 1 (NUM_LEVELS - 1)) := by
    simp only [List.map_id]
    rfl
  rw [BoostedTo, hboost, inOrder_raiseAll_iff (by decide) List.nodup_range']
  simp only [List.map_id]
  constructor
  · intro h i hi hlt
    exact h i (MLFQ.mem_lowerLevels.mpr ⟨hi, hlt⟩)
  · intro h i hi
    obtain ⟨hpos, hlt⟩ := MLFQ.mem_lowerLevels.mp hi
    exact h i hpos hlt

end Kernel.MultiLevelQueue

/-- **Order.**  When a boost keeps the waiting order, for any contents of both queues. -/
theorem boost_inOrder_iff {τ : Type} (q : MLFQ.Queue τ) (k : Kernel.MultiLevelQueue) :
    (q.BoostedTo q.boost ↔
      ∀ i, 0 < i → i < MLFQ.LEVELS → ((q.levels i).map MLFQ.Task.id).Palindrome) ∧
    (k.BoostedTo k.boost ↔ ∀ i, 0 < i → i < Kernel.NUM_LEVELS → (k.levels i).Palindrome) :=
  ⟨q.boostedTo_iff, k.boostedTo_iff⟩

/-- Two tasks in one lower level change places, in both queues. -/
theorem boost_not_inOrder :
    (¬ ∀ q : MLFQ.Queue Nat, q.BoostedTo q.boost) ∧
      ¬ ∀ q : Kernel.MultiLevelQueue, q.BoostedTo q.boost := by
  constructor
  · intro hall
    have h := (hall ((({ lastBoost := 0 } : MLFQ.Queue Nat).push 1 ⟨0, 1⟩).push 1 ⟨1, 1⟩)).first
    exact absurd (congrArg (List.map MLFQ.Task.id) h) (by decide)
  · intro hall
    have h := (hall ((({} : Kernel.MultiLevelQueue).push 1 5).push 1 6)).first
    exact absurd h (by decide)
