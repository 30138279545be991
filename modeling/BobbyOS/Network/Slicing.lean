import BobbyOS.Network.WorkerLoop

/-!
# Steps in slices

A Step task is run in slices, by any worker, and waits in any level in between.
It has the machine of the connection all the time, and gives it back at its end.

* `Owned.step`: the machine is with the connection or with one task;
* `Follows.run`: a call of `run` makes the next cycle, or none at the end;
* `slicing_irrelevant`: when the task is destroyed the machine has made its
  cycles as in one go, and until then the connection has none.
-/

namespace WorkerLoop

open Hardware Machine MLFQ Run Totals

variable {fp : FpArith} {inp : Nat → Nat → HostInput} {elf : KernelElf} {w w' : World}
  {t x n j k : Nat} {choice again : Bool} {worker worker' : Worker} {q' : Queue Job}
  {vm' : Option Machine} {job job' : Job} {m m' : Machine} {a : Action}

/-! ### The loop in one go -/

/-- `killed` is set after `k` cycles. -/
def KilledAfter (fp : FpArith) (inp : Nat → HostInput) (m : Machine) (k : Nat) : Prop :=
  ∃ m', cycleN fp inp k m = some m' ∧ m'.killed = true

/-- No cycle follows. -/
theorem KilledAfter.le {inp : Nat → HostInput} (h : KilledAfter fp inp m k)
    (hj : cycleN fp inp j m = some m') : j ≤ k := by
  obtain ⟨last, hlast, hkilled⟩ := h
  have hnone (i : Nat) : cycleN fp inp (k + 1 + i) m = none := by
    induction i with
    | zero => rw [Nat.add_zero, cycleN, hlast, Option.bind_some, if_pos hkilled]
    | succ i ih => rw [← Nat.add_assoc, cycleN, ih, Option.bind_none]
  by_contra hlt
  have hj' := hnone (j - (k + 1))
  rw [Nat.add_sub_cancel' (by omega), hj] at hj'
  cases hj'

/-- A machine is killed after one number of cycles. -/
theorem KilledAfter.unique {inp : Nat → HostInput} (h : KilledAfter fp inp m k)
    (h' : KilledAfter fp inp m j) : k = j := by
  obtain ⟨m', hm', -⟩ := id h
  obtain ⟨m'', hm'', -⟩ := id h'
  exact Nat.le_antisymm (h'.le hm') (h.le hm'')

/-! ### Owners -/

/-- Whether a task has the machine. -/
def machines (job : Job) : Nat := job.body.vm.isSome.toNat

/-- Whether it is the task with this identity. -/
def named (x : Nat) (job : Job) : Nat := if job.id = x then 1 else 0

/-- The task is somewhere: in the queue, or with a thread. -/
def World.Alive (w : World) (x : Nat) : Prop := 0 < w.weight (named x)

/-- The machine has one owner, and new tasks have new identities. -/
structure Owned (w : World) : Prop where
  wf : w.WF
  fresh : ∀ {x : Nat}, w.next ≤ x → w.weight (named x) = 0
  owner : w.vm.isSome.toNat + w.weight machines = 1

/-- A new world carries no jobs. -/
theorem weight_construct {workers : Nat} {clock : Int} {f : Job → Nat} :
    (World.construct workers clock m).weight f = 0 := by
  have hqueue : Queue.weight f { lastBoost := clock } = 0 :=
    Finset.sum_eq_zero fun i _ => rfl
  have hthreads : total (Worker.weight f)
      (List.replicate workers (.queue Call.dequeue.start)) = 0 :=
    total_eq_zero _ fun worker hworker => by
      rw [List.eq_of_mem_replicate hworker]
      rfl
  show Queue.weight f { lastBoost := clock } + total (Worker.weight f)
    (List.replicate workers (.queue Call.dequeue.start)) = 0
  rw [hqueue, hthreads]

/-- In a new world the connection has the machine. -/
theorem owned_construct {workers : Nat} {clock : Int} :
    Owned (World.construct workers clock m) where
  wf := wf_construct
  fresh _ := weight_construct
  owner := by rw [weight_construct]; rfl

/-- A call of `run` keeps the machine. -/
theorem Job.run_machines (h : job.run fp inp elf choice = .ok (again, job')) :
    machines job' = machines job := by
  rw [Job.run] at h
  split at h
  · rename_i hbody
    split at h
    · obtain ⟨-, rfl⟩ := Prod.mk.inj (Except.ok.inj h)
      rfl
    · obtain ⟨r, -, hr⟩ := Except.bind_ok_iff.mp h
      obtain ⟨-, rfl⟩ := Prod.mk.inj (Except.ok.inj hr)
      rw [machines, machines, hbody]
      rfl
  · obtain ⟨-, rfl⟩ := Prod.mk.inj (Except.ok.inj h)
    rfl
  · rename_i hbody
    obtain ⟨r, -, hr⟩ := Except.bind_ok_iff.mp h
    obtain ⟨-, rfl⟩ := Prod.mk.inj (Except.ok.inj hr)
    rw [machines, machines, hbody]
    rfl
  · obtain ⟨-, rfl⟩ := Prod.mk.inj (Except.ok.inj h)
    rfl
  · obtain ⟨-, rfl⟩ := Prod.mk.inj (Except.ok.inj h)
    rfl

/-- A slice does not rename its job. -/
theorem named_run (h : job.run fp inp elf choice = .ok (again, job')) :
    named x job' = named x job := by
  rw [named, named, (Job.run_records h).1]

/-- A quantity that a call of `run` keeps changes with the end of a task only. -/
theorem Effect.weight_kept {f : Job → Nat} (h : Effect fp inp elf w t worker q' vm' worker')
    (hwf : w.WF) (hworker : w.threads[t]? = some worker)
    (hslices : ∀ task, f (begin task).id = f task.id)
    (hrun : ∀ {job job' choice again}, job.run fp inp elf choice = .ok (again, job') →
      f job' = f job) :
    (World.weight f { w with queue := q', vm := vm', threads := w.threads.set t worker' } =
        w.weight f ∧ vm' = w.vm) ∨
      ∃ job, worker = .destroy job ∧ vm' = job.body.vm.or w.vm ∧
        World.weight f { w with queue := q', vm := vm', threads := w.threads.set t worker' } +
          f job = w.weight f := by
  have hset := World.weight_set (f := f) hworker q' vm' worker'
  rcases h.weight_cases hwf hworker hslices with
    ⟨hsame, hvm⟩ | ⟨task, sliceStart, choice, again, job, rfl, hjob, rfl, hvm, hweight⟩ |
      ⟨job, rfl, rfl, hvm, hweight⟩
  · exact Or.inl ⟨by omega, hvm⟩
  · have hold : (Worker.run task sliceStart).weight f = f task.id := rfl
    have hnew := hrun hjob
    exact Or.inl ⟨by omega, hvm⟩
  · have hold : (Worker.destroy job).weight f = f job := rfl
    exact Or.inr ⟨job, rfl, hvm, by omega⟩

/-- With one of two at most, the choice is as full as both. -/
theorem isSome_or {α : Type} {a b : Option α} (h : a.isSome.toNat + b.isSome.toNat ≤ 1) :
    (a.or b).isSome.toNat = a.isSome.toNat + b.isSome.toNat := by
  cases a with
  | none => rw [Option.none_or, Option.isSome_none, Bool.toNat_false, Nat.zero_add]
  | some x =>
      cases b with
      | none => rfl
      | some y => simp at h

/-- **Step.**  The machine goes from the connection to a task and back. -/
theorem Owned.step (h : Owned w) (hstep : w.Step fp inp elf a w') : Owned w' := by
  refine ⟨World.WF.step h.wf hstep, fun {x} hx => ?_, ?_⟩
  · cases a with
    | command command writeIdx =>
        rcases World.step_command hstep with rfl | ⟨m, hm, rfl⟩
        · exact h.fresh hx
        · rw [World.weight_hand]
          have hold : World.weight (named x) { w with vm := none } = 0 :=
            h.fresh (Nat.le_of_succ_le hx)
          rw [hold, named, if_neg (Nat.ne_of_lt hx)]
    | other level =>
        obtain rfl := Option.some.inj hstep
        rw [World.weight_hand, h.fresh (Nat.le_of_succ_le hx), named, if_neg (Nat.ne_of_lt hx)]
    | run t choice =>
        obtain ⟨worker, q', vm', worker', hworker, heffect, rfl⟩ := World.step_run hstep
        have hold := h.fresh hx
        rcases heffect.weight_kept (f := named x) h.wf hworker (fun _ => rfl) named_run with
          ⟨hsame, -⟩ | ⟨job, -, -, hless⟩
        · exact hsame.trans hold
        · omega
    | tick ticks =>
        obtain rfl := Option.some.inj hstep
        exact h.fresh hx
  · have howner := h.owner
    have hnone : (none : Option Machine).isSome.toNat = 0 := rfl
    have hsome {m : Machine} : (some m).isSome.toNat = 1 := rfl
    cases a with
    | command command writeIdx =>
        rcases World.step_command hstep with rfl | ⟨m, hm, rfl⟩
        · exact howner
        · rw [hm, hsome] at howner
          have hnew : machines { id := w.next, body := .make writeIdx m command } = 1 := by
            cases command <;> rfl
          have hold : World.weight machines { w with vm := none } = w.weight machines := rfl
          rw [World.weight_hand, hnew, hold]
          show (none : Option Machine).isSome.toNat + _ = 1
          rw [hnone]
          omega
    | other level =>
        obtain rfl := Option.some.inj hstep
        rw [World.weight_hand]
        exact howner
    | run t choice =>
        obtain ⟨worker, q', vm', worker', hworker, heffect, rfl⟩ := World.step_run hstep
        rcases heffect.weight_kept (f := machines) h.wf hworker (fun _ => rfl)
          Job.run_machines with ⟨hsame, rfl⟩ | ⟨job, -, rfl, hless⟩
        · rw [hsame]
          exact howner
        · have hjob : machines job = job.body.vm.isSome.toNat := rfl
          have hor := isSome_or (a := job.body.vm) (b := w.vm) (by omega)
          show (job.body.vm.or w.vm).isSome.toNat + _ = 1
          omega
    | tick ticks =>
        obtain rfl := Option.some.inj hstep
        exact howner

/-! ### The task and its machine -/

/-- The task has the machine `m` after some of its `n` cycles. -/
structure Follows (fp : FpArith) (inp : Nat → Nat → HostInput) (n : Nat) (m : Machine)
    (job : Job) (count : Nat) (m' : Machine) : Prop where
  body : job.body = .step count (some m')
  cycles : count + job.cycles = n
  machine : cycleN fp (inp job.id) job.cycles m = some m'

/-- **Step.**  A call of `run` makes the next cycle, or none when all are made or the machine
was killed. -/
theorem Follows.run {count : Nat} (h : Follows fp inp n m job count m')
    (hrun : job.run fp inp elf choice = .ok (again, job')) :
    (∃ count' m'', Follows fp inp n m job' count' m'') ∧
      (again = false → job' = job ∧ (count = 0 ∨ m'.killed = true)) := by
  rw [Job.run, h.body] at hrun
  cases count with
  | zero =>
      obtain ⟨-, rfl⟩ := Prod.mk.inj (Except.ok.inj hrun)
      exact ⟨⟨0, m', h⟩, fun _ => ⟨rfl, Or.inl rfl⟩⟩
  | succ count =>
      change (if m'.killed then _ else _) = _ at hrun
      split at hrun
      · rename_i hkilled
        obtain ⟨-, rfl⟩ := Prod.mk.inj (Except.ok.inj hrun)
        exact ⟨⟨count + 1, m', h⟩, fun _ => ⟨rfl, Or.inr hkilled⟩⟩
      · rename_i hkilled
        obtain ⟨⟨m'', trap⟩, hcycle, hr⟩ := Except.bind_ok_iff.mp hrun
        obtain ⟨rfl, rfl⟩ := Prod.mk.inj (Except.ok.inj hr)
        refine ⟨⟨count, m'', rfl, ?_, ?_⟩, fun hfalse => by cases hfalse⟩
        · have hcycles := h.cycles
          show count + (job.cycles + 1) = n
          omega
        · show cycleN fp (inp job.id) (job.cycles + 1) m = some m''
          rw [cycleN, h.machine, Option.bind_some, if_neg hkilled, hcycle]
          rfl

open Classical in
/-- Whether it is the task with this identity and does not follow. -/
noncomputable def strays (fp : FpArith) (inp : Nat → Nat → HostInput) (x n : Nat) (m : Machine)
    (job : Job) : Nat :=
  if job.id = x ∧ ¬ ∃ count m', Follows fp inp n m job count m' then 1 else 0

/-- A job strays exactly if it is the one and does not follow the machine. -/
theorem strays_eq_zero : strays fp inp x n m job = 0 ↔
    (job.id = x → ∃ count m', Follows fp inp n m job count m') := by
  classical
  rw [strays]
  split
  · rename_i h
    exact iff_of_false Nat.one_ne_zero fun h' => h.2 (h' h.1)
  · rename_i h
    exact iff_of_true rfl fun hid => not_not.mp fun hnot => h ⟨hid, hnot⟩

/-- Where a task starts does not matter. -/
theorem strays_begin (task : MLFQ.Task Job) :
    strays fp inp x n m (begin task).id = strays fp inp x n m task.id := by
  classical
  have hfollows (count : Nat) (m' : Machine) :
      Follows fp inp n m (begin task).id count m' ↔ Follows fp inp n m task.id count m' :=
    ⟨fun h => ⟨h.body, h.cycles, h.machine⟩, fun h => ⟨h.body, h.cycles, h.machine⟩⟩
  exact if_congr (and_congr Iff.rfl (not_congr (exists₂_congr hfollows))) rfl rfl

/-- The task follows wherever it is, and a thread that destroys it has made all its cycles or
killed the machine. -/
structure Sliced (fp : FpArith) (inp : Nat → Nat → HostInput) (x n : Nat) (m : Machine)
    (w : World) : Prop where
  owned : Owned w
  known : x < w.next
  follows : w.weight (strays fp inp x n m) = 0
  finished : ∀ {t : Nat} {job : Job}, w.threads[t]? = some (.destroy job) → job.id = x →
    ∃ count m', Follows fp inp n m job count m' ∧ (count = 0 ∨ m'.killed = true)

/-- A task follows when no task strays. -/
theorem Sliced.follows_of {f : Nat} (h : Sliced fp inp x n m w) (hid : job.id = x)
    (hle : strays fp inp x n m job ≤ f) (hf : f ≤ w.weight (strays fp inp x n m)) :
    ∃ count m', Follows fp inp n m job count m' := by
  have hzero := h.follows
  exact strays_eq_zero.mp (by omega) hid

/-- A worker carries no more than all do. -/
theorem worker_weight_le {f : Job → Nat} (h : w.threads[t]? = some worker) :
    worker.weight f ≤ w.weight f :=
  Nat.le_trans (le_total (g := Worker.weight f) h) (Nat.le_add_left _ _)

/-- The new task has made no cycle. -/
theorem Sliced.start {writeIdx : Word} (h : Owned w) (hvm : w.vm = some m) (hn : n ≠ 0)
    (hstep : w.Step fp inp elf (.command (.step n) writeIdx) w') :
    Sliced fp inp w.next n m w' ∧ w'.Alive w.next := by
  have howned := h.step hstep
  have hcommand : ¬ Server.VMCommand.step n = .step 0 := fun heq =>
    hn (Server.VMCommand.step.inj heq)
  rw [World.Step, World.step, if_neg hcommand, hvm] at hstep
  obtain rfl := Option.some.inj hstep
  have hnew : strays fp inp w.next n m
      { id := w.next, body := .make writeIdx m (.step n) } = 0 :=
    strays_eq_zero.mpr fun _ => ⟨n, m, rfl, rfl, rfl⟩
  refine ⟨⟨howned, Nat.lt_succ_self _, ?_, fun {t job} ht hid => ?_⟩, ?_⟩
  · have hnone : w.weight (strays fp inp w.next n m) ≤
        w.weight (named w.next) + w.weight (named w.next) := by
      refine World.weight_le_add (fun job => ?_) w
      rw [strays, named]
      split
      · rename_i hstrays
        rw [if_pos hstrays.1]
        exact Nat.le_succ 1
      · exact Nat.zero_le _
    rw [h.fresh (Nat.le_refl _)] at hnone
    rw [World.weight_hand, hnew]
    exact Nat.le_zero.mp hnone
  · rcases of_getElem?_append ht with ⟨-, heq⟩ | hold
    · cases heq
    · have hle := worker_weight_le (f := named w.next) hold
      change _ ≤ w.weight (named w.next) at hle
      have hnamed : (Worker.destroy job).weight (named w.next) = 1 := if_pos hid
      rw [h.fresh (Nat.le_refl _), hnamed] at hle
      cases hle
  · rw [World.Alive, World.weight_hand, named, if_pos rfl]
    exact Nat.succ_pos _

/-- **Step.**  The task follows through the queue and through all slices. -/
theorem Sliced.step (h : Sliced fp inp x n m w) (hstep : w.Step fp inp elf a w') :
    Sliced fp inp x n m w' := by
  have howned := h.owned.step hstep
  have hother (body : Body) (level : BitVec 8) :
      strays fp inp x n m { id := w.next, first := level, body } = 0 :=
    strays_eq_zero.mpr fun hid => absurd hid (Nat.ne_of_gt h.known)
  have hhand (v : World) (hnext : v.next = w.next) (hthreads : v.threads = w.threads)
      (hqueue : v.queue = w.queue) (body : Body) (level : BitVec 8)
      (hv : Owned (v.hand body level)) : Sliced fp inp x n m (v.hand body level) := by
    have hweight : v.weight (strays fp inp x n m) = 0 := by
      rw [World.weight, hqueue, hthreads]
      exact h.follows
    refine ⟨hv, ?_, ?_, fun {t job} ht => ?_⟩
    · show x < v.next + 1
      rw [hnext]
      exact Nat.lt_succ_of_lt h.known
    · rw [World.weight_hand, hweight, hnext, hother]
    · rcases of_getElem?_append ht with ⟨-, heq⟩ | hold
      · cases heq
      · exact h.finished (hthreads ▸ hold)
  cases a with
  | command command writeIdx =>
      rcases World.step_command hstep with rfl | ⟨m', hm', rfl⟩
      · exact h
      · exact hhand { w with vm := none } rfl rfl rfl _ _ howned
  | other level =>
      obtain rfl := Option.some.inj hstep
      exact hhand w rfl rfl rfl _ _ howned
  | tick ticks =>
      obtain rfl := Option.some.inj hstep
      exact ⟨howned, h.known, h.follows, h.finished⟩
  | run t choice =>
      obtain ⟨worker, q', vm', worker', hworker, heffect, rfl⟩ := World.step_run hstep
      have hle := worker_weight_le (f := strays fp inp x n m) hworker
      have hzero := h.follows
      -- the task of a call of `run` followed before
      have hrun {task : MLFQ.Task Job} {sliceStart : Int} (heq : worker = .run task sliceStart)
          (hid : task.id.id = x) : ∃ count m', Follows fp inp n m task.id count m' :=
        h.follows_of hid (Nat.le_refl _) (by rw [heq] at hle; exact hle)
      have hnext : World.weight (strays fp inp x n m)
          { w with queue := q', vm := vm', threads := w.threads.set t worker' } = 0 := by
        have hset := World.weight_set (f := strays fp inp x n m) hworker q' vm' worker'
        rcases heffect.weight_cases (f := strays fp inp x n m) h.owned.wf hworker
          strays_begin with ⟨hsame, -⟩ |
            ⟨task, sliceStart, choice, again, job, heq, hjob, rfl, -, hweight⟩ |
              ⟨job, -, rfl, -, hweight⟩
        · omega
        · have hnew : strays fp inp x n m job = 0 := by
            refine strays_eq_zero.mpr fun hid => ?_
            rw [(Job.run_records hjob).1] at hid
            obtain ⟨count, m', hfollows⟩ := hrun heq hid
            exact (hfollows.run hjob).1
          omega
        · omega
      refine ⟨howned, h.known, hnext, fun {u job} hu hid => ?_⟩
      rcases of_getElem?_set hu with ⟨-, heq⟩ | ⟨-, hold⟩
      · subst heq
        cases heffect with
        | done hjob =>
            rw [(Job.run_records hjob).1] at hid
            obtain ⟨count, m', hfollows⟩ := hrun rfl hid
            obtain ⟨rfl, hend⟩ := (hfollows.run hjob).2 rfl
            exact ⟨count, m', hfollows, hend⟩
      · exact h.finished hold hid

/-! ### Runs -/

variable {w₁ w₂ : World} {m₀ : Machine} {workers : Nat} {clock : Int} {writeIdx : Word}

/-- In every state of a run nobody shares the machine. -/
theorem owned_of_reaches
    (hrun : Reaches (World.Step fp inp elf) (fun _ _ => True) (.construct workers clock m₀) w) :
    Owned w :=
  hrun.invariant owned_construct fun h _ hstep => h.step hstep

/-- **Run.**  The task follows until its end. -/
theorem sliced_of_reaches (h : Sliced fp inp x n m w)
    (hrun : Reaches (World.Step fp inp elf) (fun _ _ => True) w w') : Sliced fp inp x n m w' :=
  hrun.invariant h fun h _ hstep => h.step hstep

/-- As long as the task is there, it has the machine. -/
theorem Sliced.vm_none (h : Sliced fp inp x n m w) (halive : w.Alive x) : w.vm = none := by
  have hle : w.weight (named x) ≤
      w.weight machines + w.weight (strays fp inp x n m) := by
    refine World.weight_le_add (fun job => ?_) w
    by_cases hid : job.id = x
    · by_cases hstrays : strays fp inp x n m job = 0
      · obtain ⟨count, m', hfollows⟩ := strays_eq_zero.mp hstrays hid
        have hmachine : machines job = 1 := by
          rw [machines, hfollows.body]
          rfl
        rw [named, if_pos hid]
        omega
      · rw [named, if_pos hid]
        omega
    · rw [named, if_neg hid]
      exact Nat.zero_le _
  have howner := h.owned.owner
  have hpos : 0 < w.weight (named x) := halive
  have hzero := h.follows
  cases hvm : w.vm with
  | none => rfl
  | some m' =>
      rw [hvm] at howner
      have hone : (some m').isSome.toNat = 1 := rfl
      omega

/-- The step that ends the task gives back its machine. -/
theorem Sliced.ends (h : Sliced fp inp x n m w) (hstep : w.Step fp inp elf a w')
    (halive : w.Alive x) (hgone : ¬ w'.Alive x) :
    ∃ j m', w'.vm = some m' ∧ cycleN fp (inp x) j m = some m' ∧ j ≤ n ∧
      (j = n ∨ m'.killed = true) := by
  have hpos : 0 < w.weight (named x) := halive
  have hzero : w'.weight (named x) = 0 := Nat.eq_zero_of_not_pos hgone
  cases a with
  | command command writeIdx =>
      rcases World.step_command hstep with rfl | ⟨m', hm', rfl⟩
      · exact absurd halive hgone
      · rw [World.weight_hand] at hzero
        have hold : World.weight (named x) { w with vm := none } = w.weight (named x) := rfl
        omega
  | other level =>
      obtain rfl := Option.some.inj hstep
      rw [World.weight_hand] at hzero
      omega
  | tick ticks =>
      obtain rfl := Option.some.inj hstep
      exact absurd halive hgone
  | run t choice =>
      obtain ⟨worker, q', vm', worker', hworker, heffect, rfl⟩ := World.step_run hstep
      rcases heffect.weight_kept (f := named x) h.owned.wf hworker (fun _ => rfl) named_run with
        ⟨hsame, -⟩ | ⟨job, rfl, rfl, hless⟩
      · omega
      · have hid : job.id = x := by
          by_contra hne
          rw [named, if_neg hne] at hless
          omega
        obtain ⟨count, m', hfollows, hend⟩ := h.finished hworker hid
        have hcycles := hfollows.cycles
        refine ⟨job.cycles, m', ?_, hid ▸ hfollows.machine, by omega, ?_⟩
        · show job.body.vm.or w.vm = some m'
          rw [hfollows.body]
          rfl
        · rcases hend with rfl | hkilled
          · exact Or.inl (by omega)
          · exact Or.inr hkilled

/-- **Slices.**  From a command to step `n` times on, as long as the task is there the
connection has no machine, and the step that ends the task gives back the machine after
`n` cycles, or after the first ones until it was killed. -/
theorem slicing_irrelevant
    (hrun : Reaches (World.Step fp inp elf) (fun _ _ => True) (.construct workers clock m₀) w)
    (hvm : w.vm = some m) (hn : n ≠ 0)
    (hcommand : w.Step fp inp elf (.command (.step n) writeIdx) w₁)
    (hrun' : Reaches (World.Step fp inp elf) (fun _ _ => True) w₁ w₂) :
    w₁.Alive w.next ∧ (w₂.Alive w.next → w₂.vm = none) ∧
      ∀ a w₃, w₂.Step fp inp elf a w₃ → w₂.Alive w.next → ¬ w₃.Alive w.next →
        ∃ m', w₃.vm = some m' ∧
          (∀ k, KilledAfter fp (inp w.next) m k →
            cycleN fp (inp w.next) (min n k) m = some m') ∧
          ((∀ k, ¬ KilledAfter fp (inp w.next) m k) →
            cycleN fp (inp w.next) n m = some m') := by
  obtain ⟨hstart, halive⟩ := Sliced.start (owned_of_reaches hrun) hvm hn hcommand
  have hsliced := sliced_of_reaches hstart hrun'
  refine ⟨halive, hsliced.vm_none, fun a w₃ hstep halive' hgone => ?_⟩
  obtain ⟨j, m', hvm', hmachine, hle, hend⟩ := hsliced.ends hstep halive' hgone
  refine ⟨m', hvm', fun k hk => ?_, fun hnever => ?_⟩
  · have hjk := hk.le hmachine
    rcases hend with rfl | hkilled
    · rwa [Nat.min_eq_left hjk]
    · obtain rfl := hk.unique ⟨m', hmachine, hkilled⟩
      rwa [Nat.min_eq_right hle]
  · rcases hend with rfl | hkilled
    · exact hmachine
    · exact absurd ⟨m', hmachine, hkilled⟩ (hnever j)

/-- A task with two steps, up to its end. -/
def twoSlices : List Action :=
  arrival ++ slice 0 ++ useUp 5000000 ++ slice 1 ++ List.replicate 3 (.run 0 true)

/-- Two steps in two slices are two steps. -/
theorem twoSlices_cycles :
    ∃ w₁ w₂ w₃, BareStep oneWorker (.command (.step 2) 0) w₁ ∧
      Reaches BareStep (fun _ _ => True) w₁ w₂ ∧ BareStep w₂ (.run 0 true) w₃ ∧
      w₃.vm = cycleN noArith (fun _ => {}) 2 (.construct 0 0 (fun _ => 0) {}) ∧
      w₃.vm ≠ none := by
  have hruns : ((World.step noArith (fun _ _ => {}) Server.LoadKernel.oneInstruction oneWorker
      (.command (.step 2) 0)).bind fun w₁ =>
        (execute (World.step noArith (fun _ _ => {}) Server.LoadKernel.oneInstruction)
          (fun _ _ => True) w₁ twoSlices).bind fun w₂ =>
            (World.step noArith (fun _ _ => {}) Server.LoadKernel.oneInstruction w₂
              (.run 0 true)).map fun w₃ =>
                decide (0 < w₂.weight (named 0)) && decide (w₃.weight (named 0) = 0)) =
      some true := by
    decide +kernel
  have hcycles : (cycleN noArith (fun _ => {}) 2
      (.construct 0 0 (fun _ => 0) {})).isSome = true := by
    decide +kernel
  obtain ⟨w₁, hcommand, hruns⟩ := Option.bind_eq_some_iff.mp hruns
  obtain ⟨w₂, hw₂, hruns⟩ := Option.bind_eq_some_iff.mp hruns
  obtain ⟨w₃, hend, halive⟩ := Option.map_eq_some_iff.mp hruns
  rw [Bool.and_eq_true, decide_eq_true_iff, decide_eq_true_iff] at halive
  obtain ⟨halive, hgone⟩ := halive
  have hreaches : Reaches BareStep (fun _ _ => True) w₁ w₂ := reaches_of_execute id hw₂
  obtain ⟨m, hm⟩ := Option.isSome_iff_exists.mp hcycles
  have hstart : Reaches BareStep (fun _ _ => True)
      (.construct 1 0 (.construct 0 0 (fun _ => 0) {})) oneWorker := .refl
  obtain ⟨-, -, hends⟩ := slicing_irrelevant hstart rfl (by decide) hcommand hreaches
  obtain ⟨m', hvm, hkilled, hnever⟩ := hends _ w₃ hend halive
    fun h => Nat.ne_of_gt h hgone
  refine ⟨w₁, w₂, w₃, hcommand, hreaches, hend, ?_, ?_⟩
  · rw [hvm]
    by_cases hk : ∃ k, KilledAfter noArith (fun _ => {}) (.construct 0 0 (fun _ => 0) {}) k
    · obtain ⟨k, hk⟩ := hk
      rw [← hkilled k hk, Nat.min_eq_left (hk.le hm)]
    · exact (hnever fun k h => hk ⟨k, h⟩).symm
  · rw [hvm]
    exact Option.some_ne_none m'

end WorkerLoop
