import BobbyOS.Network.Workers

/-!
# Waking the workers

The wait of a dequeue in all its steps: a worker takes `emptyMtx`, looks at the
counter, and blocks if there is nothing, while an enqueue counts its task and
notifies one worker that is blocked, without a lock.  A worker that has looked
and not blocked yet misses the notification.

* `wakeups_exact`: no task is left behind with all workers blocked, in any order
  of the steps, exactly if there are at least two workers.
-/

namespace MLFQ

open Run Totals

/-- What a thread of the server does next.  A thread in the queue goes on as in
`Thread.step`, up to its wait and to the end of its enqueue. -/
inductive Agent (τ : Type)
  | queue (thread : Thread τ)
  | notify (id : τ)
  | lock
  | check
  | block
  | blocked
  | woken

variable {τ : Type}

/-- Where a thread goes on that has taken a step in the queue. -/
def Thread.agent : Thread τ → Agent τ
  | .wait => .lock
  | .enqueued id => .notify id
  | thread => .queue thread

/-- The next step of thread `t`; `notify_one` and what wakes a worker are steps of
their own. -/
def Agent.step (q : Queue τ) (clock : Int) (t : Nat) : Agent τ → Option (Queue τ × Agent τ)
  | .queue .wait => none
  | .queue thread => (thread.step q clock t).map fun (q, thread) => (q, thread.agent)
  | .lock | .woken =>
      if q.emptyMtx = none then some ({ q with emptyMtx := some t }, .check) else none
  | .check => some (q, if 0 < q.size then .queue (.scan 0) else .block)
  | .block => some ({ q with emptyMtx := none }, .blocked)
  | .notify _ | .blocked => none

/-- The thread sleeps on the condition variable. -/
def Agent.isBlocked : Agent τ → Bool
  | .blocked => true
  | _ => false

/-- The queue with its threads; the first ones are the workers. -/
structure Pool (τ : Type) where
  queue : Queue τ
  clock : Int
  workers : Nat
  threads : List (Agent τ)

/-- A thread enqueues a task from outside; thread `t` takes a step, notifies a
worker that is blocked, if there is one, or wakes up by itself; worker `t` is done
with its slice, and the task may ask for another one; time passes. -/
inductive Move (τ : Type)
  | call (task : Option (Task τ))
  | run (t : Nat)
  | notify (t : Nat) (worker : Option Nat)
  | wake (t : Nat)
  | ends (t : Nat) (again : Bool)
  | tick (ticks : Nat)

/-- Where a worker goes on at the end of a call. -/
def Thread.next (again : Bool) : Thread τ → Option (Thread τ)
  | .returned task =>
      some (if again then (Call.enqueue (some task)).start else Call.dequeue.start)
  | .enqueued _ => some Call.dequeue.start
  | _ => none

namespace Pool

/-- All workers start with a dequeue. -/
def construct (workers : Nat) (clock : Int) : Pool τ :=
  ⟨{ lastBoost := clock }, clock, workers, List.replicate workers (.queue Call.dequeue.start)⟩

/-- A worker is asleep. -/
def Blocked (s : Pool τ) (worker : Nat) : Prop :=
  worker < s.workers ∧ (s.threads[worker]?.any Agent.isBlocked)

instance (s : Pool τ) (worker : Nat) : Decidable (s.Blocked worker) :=
  inferInstanceAs (Decidable (_ ∧ _))

/-- The pool after a move. -/
def step (s : Pool τ) : Move τ → Option (Pool τ)
  | .call task => some { s with threads := s.threads ++ [.queue (Call.enqueue task).start] }
  | .run t =>
      match s.threads[t]? with
      | none => none
      | some agent =>
          (agent.step s.queue s.clock t).map fun (queue, agent) =>
            { s with queue, threads := s.threads.set t agent }
  | .notify t worker =>
      match s.threads[t]? with
      | some (.notify id) =>
          let threads := s.threads.set t (.queue (.enqueued id))
          match worker with
          | some worker =>
              if s.Blocked worker then some { s with threads := threads.set worker .woken }
              else none
          | none =>
              if ∀ worker < s.workers, ¬ s.Blocked worker then some { s with threads }
              else none
      | _ => none
  | .wake t =>
      match s.threads[t]? with
      | some .blocked => some { s with threads := s.threads.set t .woken }
      | _ => none
  | .ends t again =>
      match s.threads[t]? with
      | some (.queue thread) =>
          if t < s.workers then
            (thread.next again).map fun thread =>
              { s with threads := s.threads.set t (.queue thread) }
          else none
      | _ => none
  | .tick ticks => some { s with clock := s.clock + ticks }

/-- A step of the pool is a move. -/
def Step (s : Pool τ) (a : Move τ) (s' : Pool τ) : Prop := s.step a = some s'

end Pool

/-- The thread has called enqueue and not notified anybody yet. -/
def Agent.enqueuing : Agent τ → Bool
  | .notify _ => true
  | .queue thread =>
      match thread with
      | .readClock (.enqueue _) | .readBoost (.enqueue _) _ | .exchange (.enqueue _) _ _
      | .lockBoost (.enqueue _) | .boost (.enqueue _) _ | .push _ | .count _ => true
      | _ => false
  | _ => false

/-- A task is in the queue and counted, nobody is about to notify a worker, and
all workers are blocked. -/
def Pool.Stuck (s : Pool τ) : Prop :=
  0 < s.queue.total ∧ 0 < s.queue.size ∧ (∀ agent ∈ s.threads, agent.enqueuing = false) ∧
    ∀ worker < s.workers, s.Blocked worker

instance (s : Pool τ) : Decidable s.Stuck := inferInstanceAs (Decidable (_ ∧ _ ∧ _ ∧ _))

/-! ### What a step does -/

/-- The thread has `emptyMtx`. -/
def Agent.Holding : Agent τ → Prop
  | .check | .block => True
  | .queue thread => thread.Scanning
  | _ => False

/-- The thread does not wait for a notification, and has not decided to. -/
def Agent.Awake : Agent τ → Prop
  | .block | .blocked => False
  | _ => True

variable {q q' : Queue τ} {t : Nat} {clock : Int} {thread : Thread τ} {agent agent' : Agent τ}

/-- A thread holds a wakeup exactly while it scans. -/
theorem Thread.agent_holding : thread.agent.Holding ↔ thread.Scanning := by
  cases thread with
  | wait => exact Iff.rfl
  | enqueued id => exact Iff.rfl
  | _ => exact Iff.rfl

/-- A thread in the queue is awake. -/
theorem Thread.agent_awake : thread.agent.Awake := by
  cases thread with
  | wait => trivial
  | enqueued id => trivial
  | _ => trivial

/-- Only the end of an enqueue raises the counter. -/
theorem Effect.raises {thread' : Thread τ} (h : Effect q t thread q' thread') :
    (∃ id, thread' = .enqueued id) ∨ q'.size ≤ q.size := by
  cases h with
  | plain hlevels hsize => exact .inr (Nat.le_of_eq hsize)
  | count => exact .inl ⟨_, rfl⟩
  | take => exact .inr (Nat.sub_le _ _)
  | _ => exact .inr (Nat.le_refl _)

/-- What a step does to the lock and to the counter.  The counter gets positive
by a thread that is going to notify a worker, and while it is positive no thread
that is awake decides to block. -/
structure Attends (q : Queue τ) (t : Nat) (agent : Agent τ) (q' : Queue τ) (agent' : Agent τ) :
    Prop where
  locked : agent'.Holding ↔ q'.emptyMtx = some t
  others : ∀ u, u ≠ t → (q'.emptyMtx = some u ↔ q.emptyMtx = some u)
  counter : 0 < q'.size →
    (∃ id, agent' = .notify id) ∨ (0 < q.size ∧ (agent.Awake → agent'.Awake))

/-- A thread takes `emptyMtx`. -/
theorem attends_lock (h : q.emptyMtx = none) :
    Attends q t agent { q with emptyMtx := some t } .check := by
  refine ⟨iff_of_true trivial rfl, fun u hu => ?_, fun hpos => .inr ⟨hpos, fun _ => trivial⟩⟩
  rw [h]
  exact iff_of_false (fun h => hu (Option.some.inj h).symm) (Option.some_ne_none u).symm

/-- A thread in the queue makes its own step. -/
theorem Agent.step_queue (h : (Agent.queue thread).step q clock t = some (q', agent')) :
    ∃ thread', thread.step q clock t = some (q', thread') ∧ agent' = thread'.agent := by
  have hmap : (thread.step q clock t).map (fun (q, thread) => (q, thread.agent)) =
      some (q', agent') := by
    cases thread with
    | wait => cases h
    | _ => exact h
  obtain ⟨⟨q₁, thread'⟩, hstep, heq⟩ := Option.map_eq_some_iff.mp hmap
  obtain ⟨rfl, rfl⟩ := Prod.mk.inj heq
  exact ⟨thread', hstep, rfl⟩

/-- **Step.**  Every step of a thread is of this kind. -/
theorem Agent.step_attends (h : agent.step q clock t = some (q', agent'))
    (hlocked : agent.Holding ↔ q.emptyMtx = some t) : Attends q t agent q' agent' := by
  cases agent with
  | queue thread =>
      obtain ⟨thread', hstep, rfl⟩ := Agent.step_queue h
      have heffect := thread.step_effect hstep
      obtain ⟨hscanning, hothers, -⟩ := heffect.locks hlocked
      refine ⟨thread'.agent_holding.trans hscanning, hothers, fun hpos => ?_⟩
      rcases heffect.raises with ⟨id, rfl⟩ | hle
      · exact .inl ⟨id, rfl⟩
      · exact .inr ⟨Nat.lt_of_lt_of_le hpos hle, fun _ => thread'.agent_awake⟩
  | lock =>
      rw [Agent.step] at h
      split at h
      · rename_i hfree
        obtain ⟨rfl, rfl⟩ := Prod.mk.inj (Option.some.inj h)
        exact attends_lock hfree
      · cases h
  | woken =>
      rw [Agent.step] at h
      split at h
      · rename_i hfree
        obtain ⟨rfl, rfl⟩ := Prod.mk.inj (Option.some.inj h)
        exact attends_lock hfree
      · cases h
  | check =>
      obtain ⟨rfl, rfl⟩ := Prod.mk.inj (Option.some.inj h)
      have howner := hlocked.mp trivial
      refine ⟨iff_of_true ?_ howner, fun _ _ => Iff.rfl, fun hpos => .inr ⟨hpos, fun _ => ?_⟩⟩
      · split <;> trivial
      · rw [if_pos hpos]
        trivial
  | block =>
      obtain ⟨rfl, rfl⟩ := Prod.mk.inj (Option.some.inj h)
      have howner := hlocked.mp trivial
      refine ⟨iff_of_false id (fun h => nomatch h), fun u hu => ?_,
        fun hpos => .inr ⟨hpos, fun h => h⟩⟩
      rw [howner]
      exact iff_of_false (fun h => nomatch h) (fun h => hu (Option.some.inj h).symm)
  | notify id => cases h
  | blocked => cases h

/-! ### What always holds -/

/-- Who stands between a look at the counter and the end of the wait holds
`emptyMtx`. -/
structure Orderly (s : Pool τ) : Prop where
  locked : ∀ {t : Nat} {agent : Agent τ}, s.threads[t]? = some agent →
    (agent.Holding ↔ s.queue.emptyMtx = some t)
  owner : ∀ {t : Nat}, s.queue.emptyMtx = some t → t < s.threads.length
  workers : s.workers ≤ s.threads.length

/-- While the counter is positive, somebody is about to notify a worker or some
worker is awake. -/
def Attended (s : Pool τ) : Prop :=
  0 < s.queue.size →
    (∃ (t : Nat) (id : τ), s.threads[t]? = some (.notify id)) ∨
      ∃ (t : Nat) (agent : Agent τ), t < s.workers ∧ s.threads[t]? = some agent ∧ agent.Awake

variable {s s' : Pool τ} {a : Move τ}

/-- A new pool is orderly. -/
theorem orderly_construct (workers : Nat) (clock : Int) :
    Orderly (Pool.construct workers clock : Pool τ) where
  locked h := by
    obtain rfl := List.eq_of_mem_replicate (List.mem_of_getElem? h)
    exact iff_of_false id (fun h => nomatch h)
  owner h := by cases h
  workers := Nat.le_of_eq List.length_replicate.symm

/-- A thread takes a step, and other threads keep what they have. -/
theorem Orderly.set (h : Orderly s) (hthread : s.threads[t]? = some agent)
    (hlocked : agent'.Holding ↔ q'.emptyMtx = some t)
    (hothers : ∀ u, u ≠ t → (q'.emptyMtx = some u ↔ s.queue.emptyMtx = some u)) :
    Orderly { s with queue := q', threads := s.threads.set t agent' } where
  locked {u other} hu := by
    rcases of_getElem?_set hu with ⟨rfl, rfl⟩ | ⟨hne, hold⟩
    · exact hlocked
    · exact (h.locked hold).trans (hothers u hne).symm
  owner {u} hu := by
    rw [List.length_set]
    by_cases hut : u = t
    · rw [hut]
      exact (List.getElem?_eq_some_iff.mp hthread).1
    · exact h.owner ((hothers u hut).mp hu)
  workers := by
    rw [List.length_set]
    exact h.workers

/-- A thread without the lock goes on without it. -/
theorem Orderly.skip (h : Orderly s) (hthread : s.threads[t]? = some agent)
    (hholding : ¬ agent.Holding) (hholding' : ¬ agent'.Holding) :
    Orderly { s with threads := s.threads.set t agent' } :=
  h.set hthread (iff_of_false hholding' fun howner => hholding ((h.locked hthread).mpr howner))
    fun _ _ => Iff.rfl

/-- Of two workers that are not blocked one is awake, as only one has the lock. -/
theorem Orderly.awake (h : Orderly s) (htwo : 2 ≤ s.workers)
    (hnone : ∀ worker < s.workers, s.threads[worker]? ≠ some .blocked) :
    ∃ (t : Nat) (agent : Agent τ), t < s.workers ∧ s.threads[t]? = some agent ∧ agent.Awake := by
  have hworker : ∀ t < s.workers, ∃ agent, s.threads[t]? = some agent ∧ agent ≠ .blocked := by
    intro t ht
    have hlt := Nat.lt_of_lt_of_le ht h.workers
    refine ⟨_, List.getElem?_eq_getElem hlt, fun hblocked => hnone t ht ?_⟩
    rw [List.getElem?_eq_getElem hlt, hblocked]
  by_contra hall
  have hblock : ∀ t < s.workers, s.queue.emptyMtx = some t := by
    intro t ht
    obtain ⟨agent, hagent, hne⟩ := hworker t ht
    have hasleep : ¬ agent.Awake := fun hawake => hall ⟨t, agent, ht, hagent, hawake⟩
    refine (h.locked hagent).mp ?_
    cases agent with
    | block => trivial
    | blocked => exact absurd rfl hne
    | _ => exact absurd trivial hasleep
  have hzero := hblock 0 (by omega)
  rw [hblock 1 (by omega)] at hzero
  cases hzero

/-- A thread that notifies nobody takes a step. -/
theorem Attended.set (h : Attended s) (hthread : s.threads[t]? = some agent)
    (hnotify : ∀ id, agent ≠ .notify id)
    (hcounter : 0 < q'.size →
      (∃ id, agent' = .notify id) ∨ (0 < s.queue.size ∧ (agent.Awake → agent'.Awake))) :
    Attended { s with queue := q', threads := s.threads.set t agent' } := by
  intro hpos
  have hself := List.getElem?_set_self (a := agent') (List.getElem?_eq_some_iff.mp hthread).1
  rcases hcounter hpos with ⟨id, rfl⟩ | ⟨hbefore, hawake⟩
  · exact .inl ⟨t, id, hself⟩
  rcases h hbefore with ⟨u, id, hu⟩ | ⟨u, other, hlt, hu, hother⟩
  · by_cases hut : u = t
    · subst hut
      exact absurd (Option.some.inj (hthread.symm.trans hu)) (hnotify id)
    · exact .inl ⟨u, id, (List.getElem?_set_ne (Ne.symm hut)).trans hu⟩
  · by_cases hut : u = t
    · subst hut
      obtain rfl := Option.some.inj (hthread.symm.trans hu)
      exact .inr ⟨u, agent', hlt, hself, hawake hother⟩
    · exact .inr ⟨u, other, hlt, (List.getElem?_set_ne (Ne.symm hut)).trans hu, hother⟩

/-- A step that notifies nobody and leaves its thread awake. -/
theorem Attended.skip (h : Attended s) (hthread : s.threads[t]? = some agent)
    (hnotify : ∀ id, agent ≠ .notify id) (hawake : agent'.Awake) :
    Attended { s with threads := s.threads.set t agent' } :=
  h.set hthread hnotify fun hpos => .inr ⟨hpos, fun _ => hawake⟩

/-- Another thread calls `enqueue`. -/
theorem Orderly.call {task : Option (Task τ)} (h : Orderly s) :
    Orderly { s with threads := s.threads ++ [.queue (Call.enqueue task).start] } where
  locked ht := by
    rcases of_getElem?_append ht with ⟨rfl, rfl⟩ | hold
    · exact iff_of_false (Call.enqueue task).start_plain.2.1
        fun howner => Nat.lt_irrefl _ (h.owner howner)
    · exact h.locked hold
  owner ht := by
    rw [List.length_append]
    exact Nat.lt_add_right _ (h.owner ht)
  workers := by
    rw [List.length_append]
    exact Nat.le_add_right_of_le h.workers

/-- A new call is attended to. -/
theorem Attended.call (h : Attended s) :
    Attended { s with threads := s.threads ++ [agent] } := by
  have hkept : ∀ {t : Nat} {other : Agent τ}, s.threads[t]? = some other →
      (s.threads ++ [agent])[t]? = some other := fun ht =>
    (List.getElem?_append_left (List.getElem?_eq_some_iff.mp ht).1).trans ht
  intro hpos
  rcases h hpos with ⟨t, id, ht⟩ | ⟨t, other, hlt, ht, hother⟩
  · exact .inl ⟨t, id, hkept ht⟩
  · exact .inr ⟨t, other, hlt, hkept ht, hother⟩

/-- A worker is asleep exactly if its thread is blocked. -/
theorem Pool.blocked_iff {worker : Nat} :
    s.Blocked worker ↔ worker < s.workers ∧ s.threads[worker]? = some .blocked := by
  refine and_congr_right fun _ => ?_
  cases hthread : s.threads[worker]? with
  | none => exact iff_of_false Bool.false_ne_true (fun h => nomatch h)
  | some agent =>
      cases agent with
      | blocked => exact iff_of_true rfl rfl
      | _ => exact iff_of_false Bool.false_ne_true (fun h => nomatch Option.some.inj h)

/-- Going on to the next step is not scanning. -/
theorem Thread.next_not_scanning {again : Bool} {thread' : Thread τ}
    (h : thread.next again = some thread') : ¬ thread.Scanning ∧ ¬ thread'.Scanning := by
  cases thread with
  | returned task =>
      obtain rfl := Option.some.inj h
      refine ⟨id, ?_⟩
      split <;> exact id
  | enqueued id =>
      obtain rfl := Option.some.inj h
      exact ⟨fun h => h, fun h => h⟩
  | _ => cases h

/-- **Step.**  With two workers every move keeps the pool orderly and the counter
attended. -/
theorem Pool.step_attended (htwo : 2 ≤ s.workers) (horderly : Orderly s) (hattended : Attended s)
    (hstep : s.Step a s') : s'.workers = s.workers ∧ Orderly s' ∧ Attended s' := by
  cases a with
  | call task =>
      obtain rfl := Option.some.inj hstep
      exact ⟨rfl, horderly.call, hattended.call⟩
  | run t =>
      rw [Pool.Step, Pool.step] at hstep
      split at hstep
      · cases hstep
      · rename_i agent hthread
        obtain ⟨⟨q', agent'⟩, hagent, rfl⟩ := Option.map_eq_some_iff.mp hstep
        have hattends := agent.step_attends hagent (horderly.locked hthread)
        have hnotify : ∀ id, agent ≠ .notify id := by
          rintro id rfl
          cases hagent
        exact ⟨rfl, horderly.set hthread hattends.locked hattends.others,
          hattended.set hthread hnotify hattends.counter⟩
  | notify t worker =>
      rw [Pool.Step, Pool.step] at hstep
      split at hstep
      · rename_i id hthread
        have hnext : Orderly { s with threads := s.threads.set t (.queue (.enqueued id)) } :=
          horderly.skip hthread (fun h => h) (fun h => h)
        cases worker with
        | some worker =>
            dsimp only at hstep
            split at hstep
            · rename_i hblocked
              obtain rfl := Option.some.inj hstep
              obtain ⟨hlt, hworker⟩ := Pool.blocked_iff.mp hblocked
              have hne : t ≠ worker := by
                rintro rfl
                cases Option.some.inj (hthread.symm.trans hworker)
              have hworker' : (s.threads.set t (.queue (.enqueued id)))[worker]? =
                  some .blocked := (List.getElem?_set_ne hne).trans hworker
              have hwoken := List.getElem?_set_self (a := (Agent.woken : Agent τ))
                (List.getElem?_eq_some_iff.mp hworker').1
              exact ⟨rfl, hnext.skip hworker' (fun h => h) (fun h => h),
                fun _ => .inr ⟨worker, _, hlt, hwoken, trivial⟩⟩
            · cases hstep
        | none =>
            dsimp only at hstep
            split at hstep
            · rename_i hnone
              obtain rfl := Option.some.inj hstep
              refine ⟨rfl, hnext, fun _ => .inr (hnext.awake htwo fun worker hlt hworker => ?_)⟩
              rcases of_getElem?_set hworker with ⟨-, heq⟩ | ⟨-, hold⟩
              · cases heq
              · exact hnone worker hlt (Pool.blocked_iff.mpr ⟨hlt, hold⟩)
            · cases hstep
      · cases hstep
  | wake t =>
      rw [Pool.Step, Pool.step] at hstep
      split at hstep
      · rename_i hthread
        obtain rfl := Option.some.inj hstep
        exact ⟨rfl, horderly.skip hthread id id,
          hattended.skip hthread (fun id h => nomatch h) trivial⟩
      · cases hstep
  | ends t again =>
      rw [Pool.Step, Pool.step] at hstep
      split at hstep
      · rename_i thread hthread
        split at hstep
        · obtain ⟨thread', hnext, rfl⟩ := Option.map_eq_some_iff.mp hstep
          obtain ⟨hbefore, hafter⟩ := Thread.next_not_scanning hnext
          exact ⟨rfl, horderly.skip hthread hbefore hafter,
            hattended.skip hthread (fun id h => nomatch h) trivial⟩
        · cases hstep
      · cases hstep
  | tick ticks =>
      obtain rfl := Option.some.inj hstep
      exact ⟨rfl, ⟨horderly.locked, horderly.owner, horderly.workers⟩, hattended⟩

/-! ### Runs -/

/-- **Run.**  The same after moves in any order. -/
theorem attended_of_reaches {workers : Nat} {clock : Int} (htwo : 2 ≤ workers)
    (hrun : Reaches Pool.Step (fun _ _ => True) (.construct workers clock) s) :
    s.workers = workers ∧ Orderly s ∧ Attended s := by
  refine hrun.invariant (I := fun s : Pool τ => s.workers = workers ∧ Orderly s ∧ Attended s)
    ⟨rfl, orderly_construct workers clock, fun h => absurd h (Nat.lt_irrefl 0)⟩ ?_
  rintro s a s' ⟨hworkers, horderly, hattended⟩ - hstep
  obtain ⟨hsame, horderly', hattended'⟩ :=
    Pool.step_attended (hworkers ▸ htwo) horderly hattended hstep
  exact ⟨hsame.trans hworkers, horderly', hattended'⟩

/-- Where every task is attended to, nothing is stuck. -/
theorem Attended.not_stuck (h : Attended s) : ¬ s.Stuck := by
  rintro ⟨-, hpos, hnone, hblocked⟩
  rcases h hpos with ⟨t, id, ht⟩ | ⟨t, agent, hlt, ht, hawake⟩
  · cases hnone _ (List.mem_of_getElem? ht)
  · obtain ⟨-, hasleep⟩ := Pool.blocked_iff.mp (hblocked t hlt)
    obtain rfl := Option.some.inj (ht.symm.trans hasleep)
    exact hawake

/-- A call of `enqueue` by thread `t`, up to its notification. -/
def enqueueBy (t : Nat) : List (Move Nat) :=
  .call (some ⟨0, 0⟩) :: List.replicate 4 (.run t)

/-- The worker looks at the counter; then the task is counted and nobody is there
to be notified; then the worker blocks. -/
def lostWakeup : List (Move Nat) :=
  List.replicate 4 (.run 0) ++ enqueueBy 1 ++ [.notify 1 none, .run 0]

/-- With fewer than two workers a task may be left behind. -/
theorem stuck_reachable {workers : Nat} (h : workers < 2) :
    ∃ s : Pool Nat, Reaches Pool.Step (fun _ _ => True) (.construct workers 0) s ∧ s.Stuck := by
  have hruns : ∃ moves : List (Move Nat),
      (execute Pool.step (fun _ _ => True) (.construct workers 0) moves).any
        (fun s => decide s.Stuck) = true := by
    match workers, h with
    | 0, _ => exact ⟨enqueueBy 0 ++ [.notify 0 none], by decide +kernel⟩
    | 1, _ => exact ⟨lostWakeup, by decide +kernel⟩
  obtain ⟨moves, hruns⟩ := hruns
  obtain ⟨s, hs, hstuck⟩ := (Option.any_eq_true _ _).mp hruns
  exact ⟨s, reaches_of_execute (R := Pool.Step) id hs, of_decide_eq_true hstuck⟩

/-- **Wakeups.**  In every order of the steps no task is left behind with all
workers blocked, if and only if there are at least two workers. -/
theorem wakeups_exact (workers : Nat) :
    (∀ (τ : Type) (clock : Int) (s : Pool τ),
      Reaches Pool.Step (fun _ _ => True) (.construct workers clock) s → ¬ s.Stuck) ↔
    2 ≤ workers := by
  constructor
  · intro hall
    by_contra hfew
    obtain ⟨s, hrun, hstuck⟩ := stuck_reachable (Nat.lt_of_not_le hfew)
    exact hall Nat 0 s hrun hstuck
  · intro htwo τ clock s hrun
    exact (attended_of_reaches htwo hrun).2.2.not_stuck

/-- One worker may miss the notification. -/
theorem worker_may_miss :
    ¬ ∀ (workers : Nat) (s : Pool Nat),
      Reaches Pool.Step (fun _ _ => True) (.construct workers 0) s → ¬ s.Stuck := by
  intro hall
  obtain ⟨s, hrun, hstuck⟩ := stuck_reachable (Nat.lt_succ_self 1)
  exact hall 1 s hrun hstuck

end MLFQ
