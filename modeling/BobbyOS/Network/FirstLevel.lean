import BobbyOS.Lib.Turns
import BobbyOS.Network.Workers

/-!
# Level 0 of the workers' queue serves in turn

A dequeue scans level 0 first and takes its front, an enqueue and a boost only add tasks
behind it.  So a task that is in level 0, for instance after a boost, is not overtaken
there, whatever the threads do and in whatever order.

* `System.takesFirst`: the steps that take a task out of level 0;
* `first_serves`: a step serves in turn exactly when it is one of them;
* `first_level_in_turn`: when a task of level 0 is taken, over every run.
-/

namespace MLFQ

open Run

variable {τ : Type} {q q' : Queue τ} {thread thread' : Thread τ} {t i k : Nat} {s s' : System τ}
  {x : τ} {task : Task τ}

/-- The tasks in level 0. -/
def System.first (s : System τ) : List τ := (s.queue.levels 0).map Task.id

/-- A dequeue has taken the task. -/
def Thread.Has (x : τ) : Thread τ → Prop
  | .increment (some task) | .returned task => task.id = x
  | _ => False

/-- Some thread has taken the task. -/
def System.Taken (s : System τ) (x : τ) : Prop :=
  ∃ (t : Nat) (thread : Thread τ), s.threads[t]? = some thread ∧ thread.Has x

/-- The step takes a task out of level 0. -/
def System.takesFirst (s : System τ) : Action τ → Bool
  | .run t =>
      match s.threads[t]? with
      | some (.scan 0) => !(s.queue.levels 0).isEmpty
      | _ => false
  | _ => false

/-! ### One step -/

/-- Another level than 0 changes. -/
theorem first_update {l : List (Task τ)} (hi : i ≠ 0) :
    (Function.update q.levels i l) 0 = q.levels 0 := Function.update_of_ne (Ne.symm hi) _ _

/-- A turn in which nobody is served. -/
theorem serves_same {l l' : List τ} (h : l' = l) : Turns.Serves l none l' := by
  subst h
  have hserves : Turns.Serves l' none (l' ++ []) := .adds []
  rwa [List.append_nil] at hserves

/-- A thread that does not take from level 0 adds to it, if anything. -/
theorem Effect.adds (h : Effect q t thread q' thread') (hwf : thread.WF)
    (hother : thread = .scan 0 → q.levels 0 = []) :
    Turns.Serves ((q.levels 0).map Task.id) none ((q'.levels 0).map Task.id) := by
  cases h with
  | plain hlevels => exact serves_same (by rw [hlevels])
  | @raise caller i hlt =>
      have hi : i ≠ 0 := Nat.ne_of_gt hwf
      show Turns.Serves _ none ((Function.update (Function.update q.levels 0 _) i [] 0).map Task.id)
      rw [Function.update_of_ne (Ne.symm hi), Function.update_self, List.map_append]
      exact .adds _
  | @push task =>
      by_cases hlevel : task.priorityLevel.toNat = 0
      · show Turns.Serves _ none ((Function.update q.levels _ _ 0).map Task.id)
        rw [hlevel, Function.update_self, List.map_append]
        exact .adds _
      · exact serves_same (congrArg (List.map Task.id) (first_update hlevel))
  | @take i task rest hlt htask =>
      by_cases hi : i = 0
      · subst hi
        rw [hother rfl] at htask
        cases htask
      · exact serves_same (congrArg (List.map Task.id) (first_update hi))
  | _ => exact serves_same rfl

/-- A task that was taken stays so. -/
theorem Effect.keepsTaken (h : Effect q t thread q' thread') (hx : thread.Has x) :
    thread'.Has x := by
  cases h with
  | plain hlevels hsize hmtx hplain =>
      cases thread with
      | returned => exact absurd hplain id
      | increment => exact absurd hplain id
      | _ => exact absurd hx id
  | leave => exact hx
  | _ => exact absurd hx id

/-- What a thread has taken stays taken. -/
theorem taken_set (hthread : s.threads[t]? = some thread)
    (hkeeps : ∀ x, thread.Has x → thread'.Has x) (h : s.Taken x) :
    System.Taken { s with queue := q', threads := s.threads.set t thread' } x := by
  obtain ⟨u, other, hu, hx⟩ := h
  obtain ⟨hlt, -⟩ := List.getElem?_eq_some_iff.mp hthread
  by_cases heq : u = t
  · subst heq
    obtain rfl := Option.some.inj (hthread.symm.trans hu)
    exact ⟨u, thread', List.getElem?_set_self hlt, hkeeps x hx⟩
  · exact ⟨u, other, (List.getElem?_set_ne (Ne.symm heq)).trans hu, hx⟩

/-- A turn takes from level 0 exactly if its thread scans there and a task is there. -/
theorem takesFirst_run : s.takesFirst (.run t) = true ↔
    s.threads[t]? = some (.scan 0) ∧ s.queue.levels 0 ≠ [] := by
  have hempty : (!(s.queue.levels 0).isEmpty) = true ↔ s.queue.levels 0 ≠ [] := by simp
  rw [← hempty]
  show (match s.threads[t]? with
    | some (.scan 0) => !(s.queue.levels 0).isEmpty
    | _ => false) = true ↔ _
  split
  case h_1 hscan => exact (and_iff_right hscan).symm
  case h_2 hscan => exact iff_of_false Bool.false_ne_true fun h => hscan h.1

/-- A thread takes the front of level 0. -/
theorem Effect.takes_front (h : Effect q t (.scan 0) q' thread') {rest : List (Task τ)}
    (hfront : q.levels 0 = task :: rest) :
    Turns.Serves ((q.levels 0).map Task.id) (some task.id) ((q'.levels 0).map Task.id) ∧
      thread'.Has task.id := by
  cases h with
  | plain hlevels hsize hmtx hplain => exact absurd hplain id
  | pass _ hempty =>
      rw [hfront] at hempty
      cases hempty
  | @take _ task' rest' _ htask =>
      obtain ⟨rfl, rfl⟩ := List.cons.inj (hfront.symm.trans htask)
      refine ⟨.serves [] ?_, rfl⟩
      show (q.levels 0).map Task.id ++ [] =
        task.id :: (Function.update q.levels 0 rest 0).map Task.id
      rw [hfront, Function.update_self, List.append_nil]
      rfl
  | miss hge => exact absurd hge (by decide)

variable [DecidableEq τ]

/-- **Steps** serve level 0 in turn exactly when they take from it. -/
theorem first_serves {a : Action τ} (hs : Accounted s) (h : s.Step a s') :
    Accounted s' ∧
      if s.takesFirst a then ∃ y, Turns.Serves s.first (some y) s'.first ∧ s'.Taken y
      else Turns.Serves s.first none s'.first ∧ ∀ y, s.Taken y → s'.Taken y := by
  refine ⟨hs.step h, ?_⟩
  cases a with
  | call c =>
      obtain rfl := Option.some.inj h
      refine ⟨serves_same rfl, fun y hy => ?_⟩
      obtain ⟨t, thread, ht, hx⟩ := hy
      obtain ⟨hlt, -⟩ := List.getElem?_eq_some_iff.mp ht
      exact ⟨t, thread, (List.getElem?_append_left hlt).trans ht, hx⟩
  | tick ticks =>
      obtain rfl := Option.some.inj h
      exact ⟨serves_same rfl, fun y hy => hy⟩
  | run t =>
      obtain ⟨thread, q', thread', hthread, heffect, rfl⟩ := System.step_run h
      obtain ⟨hlt, -⟩ := List.getElem?_eq_some_iff.mp hthread
      by_cases htakes : s.takesFirst (.run t) = true
      · rw [if_pos htakes]
        obtain ⟨hscan, hmore⟩ := takesFirst_run.mp htakes
        obtain rfl := Option.some.inj (hthread.symm.trans hscan)
        obtain ⟨task, rest, hfront⟩ := List.exists_cons_of_ne_nil hmore
        obtain ⟨hserves, hhas⟩ := heffect.takes_front hfront
        exact ⟨task.id, hserves, t, thread', List.getElem?_set_self hlt, hhas⟩
      · rw [if_neg htakes]
        have hother : thread = .scan 0 → s.queue.levels 0 = [] := by
          rintro rfl
          by_contra hmore
          exact htakes (takesFirst_run.mpr ⟨hthread, hmore⟩)
        exact ⟨heffect.adds (hs.wf hthread) hother,
          fun y hy => taken_set hthread (fun x hx => heffect.keepsTaken hx) hy⟩

/-- **Turns.**  After any steps of any threads, a task in level 0 moves up by one with each
task that a dequeue takes from there, and the take number `i + 1` returns it. -/
theorem first_level_in_turn {clock : Int}
    (hrun : Reaches System.Step (fun _ _ => True) (.construct clock) s)
    (hwaits : s.first[i]? = some x) (hlater : Turns.Counted System.Step System.takesFirst k s s') :
    (k ≤ i → s'.first[i - k]? = some x) ∧ (k = i + 1 → s'.Taken x) := by
  have hturns : Accounted s' ∧ (k ≤ i → s'.first[i - k]? = some x) ∧
      (k = i + 1 → s'.Taken x) :=
    Turns.Counted.served (R := System.Step) (w := System.takesFirst)
      (fun hs hstep => first_serves hs hstep) (accounted_of_reaches hrun) hwaits hlater
  exact hturns.2

/-- Two tasks in level 0, and a dequeue that is about to scan it. -/
def twoTasks : List (Action Nat) :=
  [.call (.enqueue (some ⟨0, 0⟩)), .run 0, .run 0, .run 0, .run 0,
    .call (.enqueue (some ⟨1, 0⟩)), .run 1, .run 1, .run 1, .run 1,
    .call .dequeue, .run 2, .run 2, .run 2]

/-- The dequeue takes the first task, and the second one has moved up. -/
theorem twoTasks_in_turn :
    ∃ s s' : System Nat, execute System.step (fun _ _ => True) (.construct 0) twoTasks = some s ∧
      s.Step (.run 2) s' ∧ s'.Taken 0 ∧ s'.first[0]? = some 1 := by
  have hruns : (execute System.step (fun _ _ => True) (.construct 0) twoTasks).any
      (fun s =>
        decide (s.first = [0, 1]) && s.takesFirst (.run 2) && (s.step (.run 2)).isSome) := by
    decide +kernel
  obtain ⟨s, hs, hruns⟩ := (Option.any_eq_true _ _).mp hruns
  obtain ⟨hready, hstep⟩ := (Bool.and_eq_true _ _).mp hruns
  obtain ⟨hfirst, htakes⟩ := (Bool.and_eq_true _ _).mp hready
  obtain ⟨s', hstep⟩ := Option.isSome_iff_exists.mp hstep
  have hlist : s.first = [0, 1] := of_decide_eq_true hfirst
  have hreaches := reaches_of_execute (R := System.Step) id hs
  have hcounted : Turns.Counted System.Step System.takesFirst 1 s s' :=
    Turns.Counted.refl.counts htakes hstep
  have hzero : s.first[0]? = some 0 := by
    rw [hlist]
    rfl
  have hone : s.first[1]? = some 1 := by
    rw [hlist]
    rfl
  exact ⟨s, s', hs, hstep, (first_level_in_turn hreaches hzero hcounted).2 rfl,
    (first_level_in_turn hreaches hone hcounted).1 (Nat.le_refl 1)⟩

end MLFQ
