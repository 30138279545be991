import BobbyOS.Kernel.ProcessMap
import BobbyOS.Kernel.FrameOwnership
import BobbyOS.Lib.RefCount

/-!
# Guards

A `PCB::Guard` is an object that refers to a process or to nothing.  Guards are
made by `operator[]`, by `borrow` and by moving, change by assignment and by
`reset`, and end with a `reset`.  A process counts its guards; the kernel's
process is never freed and does not count them down.

A `World` is the process manager together with all guards there are.  Seen as
objects and holders, every operation is at most one step of a counted store.

* `step_change`: each operation as a step of the store;
* `guards_exact`: the counters, the end of a process, and the assertions in
  every reachable world.
-/

namespace Kernel

open Run RefCount

/-- The process a guard refers to. -/
inductive GuardRef
  | kernel
  | process (slot : Nat)
  deriving DecidableEq, Repr

namespace GuardRef

/-- `ref->borrow()`. -/
def borrow (k : SharedResources) : GuardRef → Except Panic SharedResources
  | kernel =>
      .ok { k with kernelProcess :=
              { k.kernelProcess with refcount := k.kernelProcess.refcount + 1 } }
  | process slot => k.borrow slot

/-- `reset()` on a guard that refers to a process; the kernel's stays as it is. -/
def reset (k : SharedResources) : GuardRef → Except Panic SharedResources
  | kernel => .ok k
  | process slot => k.reset slot

/-- `ref->markForDeath()`. -/
def markForDeath (k : SharedResources) : GuardRef → Except Panic SharedResources
  | kernel => do
      kassert (k.kernelProcess.PID != KERNEL_PID) "PID != ProcessManager::KERNEL_PID"
      .ok { k with kernelProcess := { k.kernelProcess with state := .ZOMBIE } }
  | process slot => k.markForDeath slot

end GuardRef

/-- The process manager and the guards; `none` is a guard that refers to nothing. -/
structure World where
  shared : SharedResources
  guards : List (Option GuardRef)

/-- What can be done with guards; `manage` is any other use of the processes. -/
inductive GuardOperation
  | lookup (idx : Word)
  | borrowKernel
  | borrow (guard : Nat)
  | moveConstruct (other : Nat)
  | moveAssign (guard other : Nat)
  | reset (guard : Nat)
  | destroy (guard : Nat)
  | markForDeath (guard : Nat)
  | manage (op : Operation)

/-- The operations that create and change processes. -/
def Operation.Manages : Operation → Prop
  | .createProcess .. | .forkProcess .. | .exec .. | .updateBrk .. => True
  | .borrow _ | .markForDeath _ | .reset _ => False

instance (op : Operation) : Decidable op.Manages :=
  match op with
  | .createProcess .. | .forkProcess .. | .exec .. | .updateBrk .. => isTrue trivial
  | .borrow _ | .markForDeath _ | .reset _ => isFalse id

namespace World

variable (w : World)

/-- `Guard::reset`. -/
def resetGuard (guard : Nat) : Except Panic World :=
  match w.guards[guard]? with
  | none => .error .nullPointer
  | some none => .ok w
  | some (some ref) => do
      let shared ← ref.reset w.shared
      .ok ⟨shared, w.guards.set guard none⟩

/-- The world after an operation; a new guard is the last one. -/
def step : GuardOperation → Except Panic World
  | .lookup idx =>
      match w.shared.guard idx with
      | none => .ok { w with guards := w.guards ++ [none] }
      | some slot => do
          let shared ← w.shared.borrow slot
          .ok ⟨shared, w.guards ++ [some (.process slot)]⟩
  | .borrowKernel => do
      let shared ← GuardRef.kernel.borrow w.shared
      .ok ⟨shared, w.guards ++ [some .kernel]⟩
  | .borrow guard =>
      match w.guards[guard]? with
      | some (some ref) => do
          let shared ← ref.borrow w.shared
          .ok ⟨shared, w.guards ++ [some ref]⟩
      | _ => .error .nullPointer
  | .moveConstruct other =>
      match w.guards[other]? with
      | none => .error .nullPointer
      | some ref => .ok { w with guards := w.guards.set other none ++ [ref] }
  | .moveAssign guard other =>
      if guard = other then .ok w
      else do
        let w ← w.resetGuard guard
        match w.guards[other]? with
        | none => .error .nullPointer
        | some ref => .ok { w with guards := (w.guards.set guard ref).set other none }
  | .reset guard => w.resetGuard guard
  | .destroy guard => do
      let w ← w.resetGuard guard
      .ok { w with guards := w.guards.eraseIdx guard }
  | .markForDeath guard =>
      match w.guards[guard]? with
      | some (some ref) => do
          let shared ← ref.markForDeath w.shared
          .ok { w with shared }
      | _ => .error .nullPointer
  | .manage op => do
      let shared ← w.shared.step op
      .ok { w with shared }

/-- One operation that returns. -/
def Step (w : World) (op : GuardOperation) (w' : World) : Prop := w.step op = .ok w'

/-- How many guards refer to a process. -/
def holding (slot : Nat) : Nat := w.guards.count (some (.process slot))

/-- Another guard on a process can be counted. -/
def Countable : Option GuardRef → Prop
  | some (.process slot) => w.holding slot + 1 < 65536
  | _ => True

instance (ref : Option GuardRef) : Decidable (w.Countable ref) := by
  unfold Countable
  split <;> infer_instance

/-- The operation uses guards that exist, `borrow` and `markForDeath` one that
refers to a process, and no process gets 65536 guards. -/
def Live : GuardOperation → Prop
  | .lookup idx => w.Countable ((w.shared.guard idx).map .process)
  | .borrowKernel => True
  | .borrow guard => (w.guards[guard]?.join).isSome ∧ w.Countable w.guards[guard]?.join
  | .moveConstruct other => other < w.guards.length
  | .moveAssign guard other => guard < w.guards.length ∧ other < w.guards.length
  | .reset guard => guard < w.guards.length
  | .destroy guard => guard < w.guards.length
  | .markForDeath guard => (w.guards[guard]?.join).isSome
  | .manage op => op.Manages

instance (op : GuardOperation) : Decidable (w.Live op) := by
  cases op <;> unfold Live <;> infer_instance

/-! ### The guards on a process -/

variable {w} {w' : World} {slot g : Nat} {x y : Option GuardRef} {guards : List (Option GuardRef)}

/-- One guard on a process, if it refers to it. -/
def weight (x : Option GuardRef) (slot : Nat) : Nat := if x = some (.process slot) then 1 else 0

/-- An empty guard holds nothing. -/
theorem weight_none : weight none slot = 0 := rfl

/-- A guard holds its process. -/
theorem weight_process {n : Nat} :
    weight (some (.process n)) slot = if slot = n then 1 else 0 := by
  unfold weight
  by_cases h : slot = n
  · rw [if_pos h, h, if_pos rfl]
  · rw [if_neg h, if_neg]
    intro heq
    cases heq
    exact h rfl

/-- One more guard in front. -/
theorem count_cons (x : Option GuardRef) (guards : List (Option GuardRef)) :
    (x :: guards).count (some (.process slot)) =
      guards.count (some (.process slot)) + weight x slot := by
  rw [List.count_cons, weight]
  simp only [beq_iff_eq]

/-- One more guard behind. -/
theorem count_append :
    (guards ++ [x]).count (some (.process slot)) =
      guards.count (some (.process slot)) + weight x slot := by
  rw [← count_cons]
  exact (List.perm_append_singleton x guards).count_eq _

/-- One guard less. -/
theorem count_eraseIdx (slot : Nat) (h : guards[g]? = some x) :
    (guards.eraseIdx g).count (some (.process slot)) + weight x slot =
      guards.count (some (.process slot)) := by
  obtain ⟨hlt, rfl⟩ := List.getElem?_eq_some_iff.mp h
  rw [← count_cons]
  exact (List.getElem_cons_eraseIdx_perm hlt).count_eq _

/-- One guard set to another process. -/
theorem count_set (slot : Nat) (y : Option GuardRef) (h : guards[g]? = some x) :
    (guards.set g y).count (some (.process slot)) + weight x slot =
      guards.count (some (.process slot)) + weight y slot := by
  obtain ⟨hlt, -⟩ := List.getElem?_eq_some_iff.mp h
  have herase := count_eraseIdx slot h
  rw [(List.set_perm_cons_eraseIdx hlt y).count_eq, count_cons]
  omega

/-- A process that a guard holds is held. -/
theorem holding_pos (h : w.guards[g]? = some (some (.process slot))) : w.holding slot ≠ 0 :=
  Nat.ne_of_gt (List.count_pos_iff.mpr (List.mem_of_getElem? h))

/-- One more guard on a process. -/
theorem holding_append (h : w'.guards = w.guards ++ [some (.process slot)]) :
    w'.holding = Function.update w.holding slot (w.holding slot + 1) := by
  funext j
  rw [holding, h, count_append, weight_process]
  by_cases hj : j = slot
  · rw [hj, if_pos rfl, Function.update_self, holding]
  · rw [if_neg hj, Function.update_of_ne hj, Nat.add_zero, holding]

/-- One guard less on a process. -/
theorem holding_set_none (hold : w.guards[g]? = some (some (.process slot)))
    (h : w'.guards = w.guards.set g none) :
    ∃ n, w.holding slot = n + 1 ∧ w'.holding = Function.update w.holding slot n := by
  obtain ⟨n, hn⟩ := Nat.exists_eq_succ_of_ne_zero (holding_pos hold)
  refine ⟨n, hn, ?_⟩
  funext j
  have hcount := count_set j none hold
  rw [weight_none, weight_process, ← h] at hcount
  by_cases hj : j = slot
  · subst hj
    rw [if_pos rfl] at hcount
    rw [Function.update_self]
    unfold holding at hn ⊢
    omega
  · rw [if_neg hj] at hcount
    rw [Function.update_of_ne hj]
    exact hcount

/-! ### The world as a counted store -/

/-- The processes and the number of guards on each. -/
def store (w : World) : Store Nat PCB := ⟨w.shared.procAt, w.holding⟩

/-- The counter of a process. -/
def refs (p : PCB) : Nat := p.refcount.toNat

/-- A process that is marked for death. -/
def Dying (p : PCB) : Prop := p.state = .ZOMBIE

/-- A step of the store, or none. -/
def Moves (w w' : World) : Prop := w'.store = w.store ∨ RefCount.Step refs Dying w.store w'.store

/-- A step that changes one slot moves that slot. -/
theorem moves_at {o : Option PCB} {n : Nat}
    (hchange : Change refs Dying (w.shared.procAt slot) (w.holding slot) o n)
    (hobjects : w'.shared.procAt = Function.update w.shared.procAt slot o)
    (hholding : w'.holding = Function.update w.holding slot n) : w.Moves w' := by
  right
  have hstore : w'.store = ⟨Function.update w.shared.procAt slot o,
      Function.update w.holding slot n⟩ := by rw [store, hobjects, hholding]
  rw [hstore]
  exact RefCount.Step.change (s := w.store) slot hchange

/-- A change of a process that touches no guard. -/
theorem moves_modify {o : Option PCB}
    (hchange : Change refs Dying (w.shared.procAt slot) (w.holding slot) o (w.holding slot))
    (hobjects : w'.shared.procAt = Function.update w.shared.procAt slot o)
    (hguards : w'.guards = w.guards) : w.Moves w' := by
  refine moves_at hchange hobjects ?_
  rw [Function.update_eq_self]
  funext j
  rw [holding, holding, hguards]

/-- A step that changes no slot moves nothing. -/
theorem moves_same (hobjects : w'.shared.procAt = w.shared.procAt)
    (hholding : w'.holding = w.holding) : w.Moves w' := by
  left
  rw [store, store, hobjects, hholding]

/-- What holds in every world that is reached. -/
structure Sound (w : World) : Prop where
  invariant : w.shared.Invariant
  counted : Counted refs Dying w.store

/-- A guard refers to a process that is there. -/
theorem Sound.exists_process (h : w.Sound) (hg : w.guards[g]? = some (some (.process slot))) :
    ∃ p, w.shared.procAt slot = some p := h.counted.exists_of_held (holding_pos hg)

/-- The counter does not overflow. -/
theorem Sound.refs_succ (h : w.Sound) {p : PCB} (hp : w.shared.procAt slot = some p)
    (hcountable : w.Countable (some (.process slot))) :
    refs { p with refcount := p.refcount + 1 } = refs p + 1 := by
  have hcount : p.refcount.toNat = w.holding slot := h.counted.count_eq hp
  have hlt : w.holding slot + 1 < 65536 := hcountable
  show (p.refcount + 1).toNat = p.refcount.toNat + 1
  rw [BitVec.toNat_add, show (1 : BitVec 16).toNat = 1 from rfl]
  omega

/-- A new guard on a process. -/
theorem Sound.borrow (h : w.Sound) {shared : SharedResources}
    (hborrow : w.shared.borrow slot = .ok shared) (hcountable : w.Countable (some (.process slot))) :
    w.Moves ⟨shared, w.guards ++ [some (.process slot)]⟩ := by
  obtain ⟨p, hp, hmap⟩ := SharedResources.borrow_procAt hborrow
  have hrefs := h.refs_succ hp hcountable
  refine moves_at ?_ hmap (holding_append rfl)
  rw [hp]
  exact .acquire hrefs Iff.rfl

/-- The end of what a guard refers to. -/
theorem Sound.release (h : w.Sound) {shared : SharedResources}
    (hg : w.guards[g]? = some (some (.process slot))) (hreset : w.shared.reset slot = .ok shared) :
    w.Moves ⟨shared, w.guards.set g none⟩ := by
  obtain ⟨p, hp, hmap⟩ := SharedResources.reset_procAt hreset h.invariant.slotted
  have hafter : ∃ n, w.holding slot = n + 1 ∧ World.holding ⟨shared, w.guards.set g none⟩ =
      Function.update w.holding slot n := holding_set_none hg rfl
  obtain ⟨n, hn, hholding⟩ := hafter
  have hcount : p.refcount.toNat = n + 1 := (h.counted.count_eq hp).trans hn
  have hrefs : (p.refcount - 1).toNat = n := by
    rw [BitVec.toNat_sub, show (1 : BitVec 16).toNat = 1 from rfl]
    omega
  have hzero : p.refcount - 1 = 0 ↔ n = 0 := by
    rw [← hrefs, ← BitVec.toNat_inj]
    rfl
  refine moves_at ?_ hmap hholding
  rw [hp, hn, SharedResources.afterReset]
  split
  · rename_i hlast
    obtain rfl := hzero.mp hlast.2
    exact .destroy hlast.1
  · rename_i hmore
    refine .release ?_ Iff.rfl ?_
    · show p.refcount.toNat = (p.refcount - 1).toNat + 1
      rw [hcount, hrefs]
    · intro hdying hn0
      exact hmore ⟨hdying, hzero.mpr hn0⟩

/-- Creating and changing processes touches no guard. -/
theorem Sound.manage (h : w.Sound) {op : Operation} {shared : SharedResources}
    (hop : op.Manages) (hstep : w.shared.Step op shared) : w.Moves { w with shared } := by
  obtain ⟨⟨hsane, hslotted⟩, -⟩ := h
  cases op with
  | createProcess vm executableFile brk0 =>
      obtain ⟨⟨pid, k1⟩, hcreate, hstep⟩ := Except.bind_ok_iff.mp hstep
      obtain rfl := Except.ok.inj hstep
      rcases SharedResources.createProcess_procAt hcreate hslotted with
        ⟨-, hsame⟩ | ⟨p, hfresh, hempty, hmap⟩
      · exact moves_same hsame rfl
      · refine moves_modify ?_ hmap rfl
        rw [hempty]
        exact .create (by rw [refs, hfresh.refcount]; rfl) hfresh.alive
  | forkProcess pid ctx brk0 =>
      obtain ⟨⟨newPID, k1⟩, hfork, hstep⟩ := Except.bind_ok_iff.mp hstep
      obtain rfl := Except.ok.inj hstep
      rcases SharedResources.forkProcess_procAt hfork hslotted with
        ⟨-, rfl, -⟩ | ⟨_, p, -, hfresh, hempty, hmap, -⟩
      · exact moves_same rfl rfl
      · refine moves_modify ?_ hmap rfl
        rw [hempty]
        exact .create (by rw [refs, hfresh.refcount]; rfl) hfresh.alive
  | exec vm slot executableFile brk0 trapCtx =>
      obtain ⟨⟨done, ctx, k1⟩, hexec, hstep⟩ := Except.bind_ok_iff.mp hstep
      obtain rfl := Except.ok.inj hstep
      obtain ⟨p, hp, ⟨-, -, hsame⟩ | ⟨-, pageTable, regCtx, hmap⟩⟩ :=
        SharedResources.exec_procAt hexec hsane hslotted
      · exact moves_same hsame rfl
      · refine moves_modify ?_ hmap rfl
        rw [hp]
        exact .modify rfl Iff.rfl
  | updateBrk slot vaddr =>
      obtain ⟨⟨valid, k1⟩, hbrk, hstep⟩ := Except.bind_ok_iff.mp hstep
      obtain rfl := Except.ok.inj hstep
      obtain ⟨p, addrSpace, hp, hmap⟩ := SharedResources.updateBrk_procAt hbrk
      refine moves_modify ?_ hmap rfl
      rw [hp]
      exact .modify rfl Iff.rfl
  | borrow slot => exact absurd hop id
  | markForDeath slot => exact absurd hop id
  | reset slot => exact absurd hop id

/-- Who holds what depends on the number of guards only. -/
theorem holding_of_count
    (h : ∀ slot, w'.guards.count (some (.process slot)) = w.guards.count (some (.process slot))) :
    w'.holding = w.holding := by
  funext j
  exact h j

/-- The kernel's counter and state are no resources. -/
theorem invariant_kernel {k : SharedResources} (h : k.Invariant) (refcount : BitVec 16)
    (state : ProcessState) :
    SharedResources.Invariant
      { k with kernelProcess := { k.kernelProcess with refcount, state } } := by
  obtain ⟨⟨htables, hframes, hbounds, hasids, hasidBounds⟩, hslotted⟩ := h
  exact ⟨⟨htables, hframes, hbounds, hasids, hasidBounds⟩, hslotted.of_eq rfl rfl⟩

/-- Resetting a guard: it refers to nothing then. -/
theorem Sound.resetGuard (h : w.Sound) (hreset : w.resetGuard g = .ok w') :
    w'.guards = w.guards.set g none ∧ w'.shared.Invariant ∧ w.Moves w' := by
  rw [World.resetGuard] at hreset
  split at hreset
  · cases hreset
  · rename_i hg
    obtain rfl := Except.ok.inj hreset
    exact ⟨(Slots.set_self hg).symm, h.invariant, moves_same rfl rfl⟩
  · rename_i ref hg
    obtain ⟨shared, href, hreset⟩ := Except.bind_ok_iff.mp hreset
    obtain rfl := Except.ok.inj hreset
    cases ref with
    | kernel =>
        obtain rfl := Except.ok.inj href
        refine ⟨rfl, h.invariant, moves_same rfl (holding_of_count fun slot => ?_)⟩
        exact count_set slot none hg
    | process slot =>
        exact ⟨rfl, h.invariant.reset href,
          h.release hg href⟩

/-- Two guards exchange what they refer to, one of them nothing. -/
theorem holding_move {other : Nat} (hne : g ≠ other) (hg : guards[g]? = some none)
    (ho : guards[other]? = some x) :
    ((guards.set g x).set other none).count (some (.process slot)) =
      guards.count (some (.process slot)) := by
  have ho' : (guards.set g x)[other]? = some x := by rw [List.getElem?_set_ne hne, ho]
  have h1 := count_set slot x hg
  have h2 := count_set slot none ho'
  rw [weight_none] at h1 h2
  omega

/-- What an operation with guards does when it returns, and what it found before. -/
inductive Effect (w : World) : GuardOperation → World → Prop
  | miss {idx : Word} (hguard : w.shared.guard idx = none) :
      Effect w (.lookup idx) { w with guards := w.guards ++ [none] }
  | lookup {idx : Word} {slot : Nat} {shared : SharedResources}
      (hguard : w.shared.guard idx = some slot)
      (hborrow : (GuardRef.process slot).borrow w.shared = .ok shared) :
      Effect w (.lookup idx) ⟨shared, w.guards ++ [some (.process slot)]⟩
  | borrowKernel {shared : SharedResources}
      (hborrow : GuardRef.kernel.borrow w.shared = .ok shared) :
      Effect w .borrowKernel ⟨shared, w.guards ++ [some .kernel]⟩
  | borrow {guard : Nat} {ref : GuardRef} {shared : SharedResources}
      (hg : w.guards[guard]? = some (some ref)) (hborrow : ref.borrow w.shared = .ok shared) :
      Effect w (.borrow guard) ⟨shared, w.guards ++ [some ref]⟩
  | moveConstruct {other : Nat} {ref : Option GuardRef} (hg : w.guards[other]? = some ref) :
      Effect w (.moveConstruct other) { w with guards := w.guards.set other none ++ [ref] }
  | moveSelf {guard : Nat} : Effect w (.moveAssign guard guard) w
  | moveAssign {guard other : Nat} {w1 : World} {ref : Option GuardRef} (hne : guard ≠ other)
      (hreset : w.resetGuard guard = .ok w1) (ho : w1.guards[other]? = some ref) :
      Effect w (.moveAssign guard other)
        { w1 with guards := (w1.guards.set guard ref).set other none }
  | reset {guard : Nat} {w1 : World} (hreset : w.resetGuard guard = .ok w1) :
      Effect w (.reset guard) w1
  | destroy {guard : Nat} {w1 : World} (hreset : w.resetGuard guard = .ok w1) :
      Effect w (.destroy guard) { w1 with guards := w1.guards.eraseIdx guard }
  | markForDeath {guard : Nat} {ref : GuardRef} {shared : SharedResources}
      (hg : w.guards[guard]? = some (some ref)) (hmark : ref.markForDeath w.shared = .ok shared) :
      Effect w (.markForDeath guard) { w with shared }
  | manage {op : Operation} {shared : SharedResources} (hshared : w.shared.step op = .ok shared) :
      Effect w (.manage op) { w with shared }

/-- **Inversion.** -/
theorem step_effect {op : GuardOperation} (hstep : w.Step op w') : Effect w op w' := by
  rw [Step] at hstep
  cases op with
  | lookup idx =>
      rw [World.step] at hstep
      cases hguard : w.shared.guard idx with
      | none =>
          rw [hguard] at hstep
          obtain rfl := Except.ok.inj hstep
          exact .miss hguard
      | some slot =>
          rw [hguard] at hstep
          obtain ⟨shared, hborrow, hstep⟩ := Except.bind_ok_iff.mp hstep
          obtain rfl := Except.ok.inj hstep
          exact .lookup hguard hborrow
  | borrowKernel =>
      obtain ⟨shared, hborrow, hstep⟩ := Except.bind_ok_iff.mp hstep
      obtain rfl := Except.ok.inj hstep
      exact .borrowKernel hborrow
  | borrow guard =>
      rw [World.step] at hstep
      split at hstep
      case h_2 => cases hstep
      case h_1 ref hg =>
        obtain ⟨shared, hborrow, hstep⟩ := Except.bind_ok_iff.mp hstep
        obtain rfl := Except.ok.inj hstep
        exact .borrow hg hborrow
  | moveConstruct other =>
      rw [World.step] at hstep
      split at hstep
      case h_1 => cases hstep
      case h_2 ref hg =>
        obtain rfl := Except.ok.inj hstep
        exact .moveConstruct hg
  | moveAssign guard other =>
      rw [World.step] at hstep
      split at hstep
      case isTrue hsame =>
        obtain rfl := Except.ok.inj hstep
        obtain rfl := hsame
        exact .moveSelf
      case isFalse hne =>
        obtain ⟨w1, hreset, hstep⟩ := Except.bind_ok_iff.mp hstep
        split at hstep
        case h_1 => cases hstep
        case h_2 ref ho =>
          obtain rfl := Except.ok.inj hstep
          exact .moveAssign hne hreset ho
  | reset guard => exact .reset hstep
  | destroy guard =>
      obtain ⟨w1, hreset, hstep⟩ := Except.bind_ok_iff.mp hstep
      obtain rfl := Except.ok.inj hstep
      exact .destroy hreset
  | markForDeath guard =>
      rw [World.step] at hstep
      split at hstep
      case h_2 => cases hstep
      case h_1 ref hg =>
        obtain ⟨shared, hmark, hstep⟩ := Except.bind_ok_iff.mp hstep
        obtain rfl := Except.ok.inj hstep
        exact .markForDeath hg hmark
  | manage op =>
      obtain ⟨shared, hshared, hstep⟩ := Except.bind_ok_iff.mp hstep
      obtain rfl := Except.ok.inj hstep
      exact .manage hshared

/-- **Step.**  Every operation with guards is at most one step of the store. -/
theorem Sound.step (h : w.Sound) {op : GuardOperation} (hlive : w.Live op)
    (hstep : w.Step op w') : w'.shared.Invariant ∧ w.Moves w' := by
  cases step_effect hstep with
  | miss =>
      exact ⟨h.invariant, moves_same rfl (holding_of_count fun slot => count_append)⟩
  | @lookup idx slot shared hguard hborrow =>
      have hcountable : w.Countable (some (.process slot)) := by
        rw [Live, hguard] at hlive
        exact hlive
      exact ⟨h.invariant.borrow hborrow, h.borrow hborrow hcountable⟩
  | borrowKernel hborrow =>
      obtain rfl := Except.ok.inj hborrow
      exact ⟨invariant_kernel h.invariant _ _,
        moves_same rfl (holding_of_count fun slot => count_append)⟩
  | @borrow guard ref shared hg hborrow =>
      cases ref with
      | kernel =>
          obtain rfl := Except.ok.inj hborrow
          exact ⟨invariant_kernel h.invariant _ _,
            moves_same rfl (holding_of_count fun slot => count_append)⟩
      | process slot =>
          have hcountable : w.Countable (some (.process slot)) := by
            rw [Live, hg] at hlive
            exact hlive.2
          exact ⟨h.invariant.borrow hborrow, h.borrow hborrow hcountable⟩
  | moveConstruct hg =>
      refine ⟨h.invariant, moves_same rfl (holding_of_count fun slot => ?_)⟩
      rw [count_append]
      exact count_set slot none hg
  | moveSelf => exact ⟨h.invariant, moves_same rfl rfl⟩
  | @moveAssign guard other w1 ref hne hreset ho =>
      obtain ⟨hguards, hinvariant, hmoves⟩ := h.resetGuard hreset
      refine ⟨hinvariant, ?_⟩
      have hlt : guard < w.guards.length := hlive.1
      have hg : w1.guards[guard]? = some none := by
        rw [hguards, List.getElem?_set_self hlt]
      have hstore : World.store { w1 with guards := (w1.guards.set guard ref).set other none } =
          w1.store := by
        have hholding : World.holding
            { w1 with guards := (w1.guards.set guard ref).set other none } = w1.holding :=
          holding_of_count fun slot => holding_move hne hg ho
        rw [store, store, hholding]
      rw [Moves, hstore]
      exact hmoves
  | reset hreset =>
      obtain ⟨-, hinvariant, hmoves⟩ := h.resetGuard hreset
      exact ⟨hinvariant, hmoves⟩
  | @destroy guard w1 hreset =>
      obtain ⟨hguards, hinvariant, hmoves⟩ := h.resetGuard hreset
      refine ⟨hinvariant, ?_⟩
      have hlt : guard < w.guards.length := hlive
      have hg : w1.guards[guard]? = some none := by rw [hguards, List.getElem?_set_self hlt]
      have hstore : World.store { w1 with guards := w1.guards.eraseIdx guard } = w1.store := by
        have hholding : World.holding { w1 with guards := w1.guards.eraseIdx guard } = w1.holding :=
          holding_of_count fun slot => count_eraseIdx slot hg
        rw [store, store, hholding]
      rw [Moves, hstore]
      exact hmoves
  | @markForDeath guard ref shared hg hmark =>
      cases ref with
      | kernel =>
          obtain ⟨_, -, hmark⟩ := Except.bind_ok_iff.mp hmark
          obtain rfl := Except.ok.inj hmark
          exact ⟨invariant_kernel h.invariant _ _, moves_same rfl rfl⟩
      | process slot =>
          obtain ⟨p, hp, hmap⟩ := SharedResources.markForDeath_procAt hmark
          refine ⟨h.invariant.markForDeath hmark,
            moves_modify ?_ hmap rfl⟩
          obtain ⟨n, hn⟩ := Nat.exists_eq_succ_of_ne_zero (holding_pos hg)
          rw [hp, hn]
          exact .doom rfl rfl
  | manage hshared =>
      exact ⟨SharedResources.invariant_step h.invariant hshared, h.manage hlive hshared⟩

/-- A move keeps the counters right. -/
theorem Moves.counted (hmoves : w.Moves w') (h : Counted refs Dying w.store) :
    Counted refs Dying w'.store := by
  rcases hmoves with hsame | hstep
  · rw [hsame]
    exact h
  · exact h.step hstep

/-- A process goes with its last guard after it was marked for death. -/
theorem Moves.gone_iff (hmoves : w.Moves w') {p : PCB} (hp : w.shared.procAt slot = some p) :
    w'.shared.procAt slot = none ↔
      p.state = .ZOMBIE ∧ w.holding slot ≠ 0 ∧ w'.holding slot = 0 := by
  rcases hmoves with hsame | hstep
  · obtain ⟨hobjects, hholding⟩ := (Store.mk.injEq _ _ _ _).mp hsame
    rw [hobjects, hholding, hp]
    constructor
    · intro h
      cases h
    · intro ⟨_, hheld, hzero⟩
      exact absurd hzero hheld
  · exact hstep.gone_iff hp

/-- Using guards changes at most one process, and none that is not there. -/
def Touches (k k' : SharedResources) : Prop :=
  k'.procAt = k.procAt ∨
    ∃ slot p o, k.procAt slot = some p ∧ k'.procAt = Function.update k.procAt slot o

/-- An empty slot stays empty. -/
theorem Touches.empty {k k' : SharedResources} (h : Touches k k') (hnone : k.procAt slot = none) :
    k'.procAt slot = none := by
  rcases h with hsame | ⟨n, p, o, hp, hmap⟩
  · rw [hsame]
    exact hnone
  · have hne : slot ≠ n := by
      intro heq
      rw [← heq, hnone] at hp
      cases hp
    rw [hmap, Function.update_of_ne hne]
    exact hnone

/-- A borrow touches one counter. -/
theorem touches_borrow {k k' : SharedResources} {ref : GuardRef} (h : ref.borrow k = .ok k') :
    Touches k k' := by
  cases ref with
  | kernel =>
      obtain rfl := Except.ok.inj h
      exact .inl rfl
  | process slot =>
      obtain ⟨p, hp, hmap⟩ := SharedResources.borrow_procAt h
      exact .inr ⟨slot, p, _, hp, hmap⟩

/-- A mark touches one process. -/
theorem touches_markForDeath {k k' : SharedResources} {ref : GuardRef}
    (h : ref.markForDeath k = .ok k') : Touches k k' := by
  cases ref with
  | kernel =>
      obtain ⟨_, -, h⟩ := Except.bind_ok_iff.mp h
      obtain rfl := Except.ok.inj h
      exact .inl rfl
  | process slot =>
      obtain ⟨p, hp, hmap⟩ := SharedResources.markForDeath_procAt h
      exact .inr ⟨slot, p, _, hp, hmap⟩

/-- A guard that is given back touches one process. -/
theorem touches_resetGuard (h : w.resetGuard g = .ok w') (hslotted : w.shared.Slotted) :
    Touches w.shared w'.shared := by
  rw [World.resetGuard] at h
  split at h
  · cases h
  · obtain rfl := Except.ok.inj h
    exact .inl rfl
  · rename_i ref _
    obtain ⟨shared, href, h⟩ := Except.bind_ok_iff.mp h
    obtain rfl := Except.ok.inj h
    cases ref with
    | kernel =>
        obtain rfl := Except.ok.inj href
        exact .inl rfl
    | process slot =>
        obtain ⟨p, hp, hmap⟩ := SharedResources.reset_procAt href hslotted
        exact .inr ⟨slot, p, _, hp, hmap⟩

/-- Only creating fills a slot. -/
theorem step_touches {op : GuardOperation} (hstep : w.Step op w') (hop : ∀ op', op ≠ .manage op')
    (hslotted : w.shared.Slotted) : Touches w.shared w'.shared := by
  cases step_effect hstep with
  | miss => exact .inl rfl
  | lookup _ hborrow => exact touches_borrow hborrow
  | borrowKernel hborrow => exact touches_borrow hborrow
  | borrow _ hborrow => exact touches_borrow hborrow
  | moveConstruct => exact .inl rfl
  | moveSelf => exact .inl rfl
  | moveAssign _ hreset =>
      have htouches := touches_resetGuard hreset hslotted
      exact htouches
  | reset hreset => exact touches_resetGuard hreset hslotted
  | destroy hreset =>
      have htouches := touches_resetGuard hreset hslotted
      exact htouches
  | markForDeath _ hmark => exact touches_markForDeath hmark
  | @manage op' _ _ => exact absurd rfl (hop op')

/-! ### Assertions -/

/-- What a guard holds can be borrowed again. -/
theorem Sound.borrow_ok (h : w.Sound) {ref : GuardRef} (hg : w.guards[g]? = some (some ref)) :
    ∃ k, ref.borrow w.shared = .ok k := by
  cases ref with
  | kernel => exact ⟨_, rfl⟩
  | process slot =>
      obtain ⟨p, hp⟩ := h.exists_process hg
      exact ⟨_, SharedResources.borrow_eq (SharedResources.procAt_iff.mp hp)⟩

/-- A guard can be given back. -/
theorem Sound.resetGuard_ok (h : w.Sound) (hg : g < w.guards.length) :
    ∃ w', w.resetGuard g = .ok w' := by
  rw [World.resetGuard, List.getElem?_eq_getElem hg]
  cases hx : w.guards[g] with
  | none => exact ⟨_, rfl⟩
  | some ref =>
      cases ref with
      | kernel => exact ⟨_, rfl⟩
      | process slot =>
          obtain ⟨p, hp⟩ := h.exists_process (List.getElem?_eq_some_iff.mpr ⟨hg, hx⟩)
          obtain ⟨k, hk⟩ := SharedResources.reset_ok hp h.invariant.sane h.invariant.slotted
          refine ⟨⟨k, w.guards.set g none⟩, ?_⟩
          simp only [GuardRef.reset, hk]
          rfl

/-- Using guards fails no assertion, but the one that keeps the kernel alive. -/
theorem Sound.step_ok (h : w.Sound) {op : GuardOperation} (hlive : w.Live op) :
    (∃ w', w.Step op w') ∨ (∃ op', op = .manage op') ∨
      ∃ guard, op = .markForDeath guard ∧ w.guards[guard]? = some (some .kernel) := by
  cases op with
  | lookup idx =>
      left
      cases hguard : w.shared.guard idx with
      | none => exact ⟨_, by rw [Step, World.step, hguard]⟩
      | some slot =>
          obtain ⟨rfl, p, hp⟩ := SharedResources.guard_eq_some.mp hguard
          have hborrow := SharedResources.borrow_eq (SharedResources.procAt_iff.mp hp)
          exact ⟨_, by rw [Step, World.step, hguard]; simp only [hborrow]; rfl⟩
  | borrowKernel => exact .inl ⟨_, rfl⟩
  | borrow guard =>
      left
      obtain ⟨ref, href⟩ := Option.isSome_iff_exists.mp hlive.1
      have hg := Option.join_eq_some_iff.mp href
      obtain ⟨k, hk⟩ := h.borrow_ok hg
      exact ⟨_, by rw [Step, World.step, hg]; simp only [hk]; rfl⟩
  | moveConstruct other =>
      left
      have hlt : other < w.guards.length := hlive
      exact ⟨_, by rw [Step, World.step, List.getElem?_eq_getElem hlt]⟩
  | moveAssign guard other =>
      left
      by_cases hsame : guard = other
      · exact ⟨_, by rw [Step, World.step, if_pos hsame]⟩
      · obtain ⟨w1, hw1⟩ := h.resetGuard_ok hlive.1
        obtain ⟨hguards, -⟩ := h.resetGuard hw1
        have hlt : other < w1.guards.length := by
          rw [hguards, List.length_set]
          exact hlive.2
        exact ⟨_, by
          rw [Step, World.step, if_neg hsame]
          simp only [hw1, Except.ok_bind, List.getElem?_eq_getElem hlt]; rfl⟩
  | reset guard => exact .inl (h.resetGuard_ok hlive)
  | destroy guard =>
      left
      obtain ⟨w1, hw1⟩ := h.resetGuard_ok hlive
      exact ⟨_, by rw [Step, World.step, hw1]; rfl⟩
  | markForDeath guard =>
      obtain ⟨ref, href⟩ := Option.isSome_iff_exists.mp hlive
      have hg := Option.join_eq_some_iff.mp href
      cases ref with
      | kernel => exact .inr (.inr ⟨guard, rfl, hg⟩)
      | process slot =>
          left
          obtain ⟨p, hp⟩ := h.exists_process hg
          have hp' := SharedResources.procAt_iff.mp hp
          have hmark := SharedResources.markForDeath_eq hp' (h.invariant.slotted.pid_ne hp')
          exact ⟨_, by rw [Step, World.step, hg]; simp only [GuardRef.markForDeath, hmark]; rfl⟩
  | manage op => exact .inr (.inl ⟨op, rfl⟩)

/-! ### Runs -/

/-- **One operation** on live guards keeps the world sound. -/
theorem Sound.next (h : w.Sound) {op : GuardOperation} (hlive : w.Live op) (hstep : w.Step op w') :
    w'.Sound := by
  obtain ⟨hinvariant, hmoves⟩ := h.step hlive hstep
  exact ⟨hinvariant, hmoves.counted h.counted⟩

/-- **Run.** -/
theorem ledger_sound_of_reaches {imageEnd brk0 : Word} {physMem : Hardware.Memory}
    {k0 : SharedResources}
    (hboot : SharedResources.construct imageEnd brk0 physMem = .ok k0)
    (hrun : Reaches Step Live ⟨k0, []⟩ w) : w.Sound := by
  obtain ⟨hsane, hslotted, hlive, -⟩ := SharedResources.construct_spec hboot
  refine hrun.invariant (I := Sound) ⟨⟨hsane, hslotted⟩, fun slot => ?_⟩ fun h hl hs => h.next hl hs
  have hnone : k0.procAt slot = none := by
    rw [Option.eq_none_iff_forall_ne_some]
    intro p hp
    have hmem := SharedResources.mem_live (SharedResources.procAt_iff.mp hp)
    rw [hlive] at hmem
    cases hmem
  show CountedAt refs Dying (k0.procAt slot) _
  rw [hnone]
  rfl

/-- **Guards.**  After any operations in any order, with fewer than 65536 guards
on each process:

* the counter of a process is the number of its guards, and what a guard refers
  to is there;
* a process goes exactly when its last guard does after it was marked for death,
  and its slot stays empty until another process is created;
* no assertion fails, neither in an operation with guards nor in `exec` beyond
  those of `createProcess`; only the kernel's process refuses to be marked. -/
theorem guards_exact {imageEnd brk0 : Word} {physMem : Hardware.Memory} {k0 : SharedResources}
    (hboot : SharedResources.construct imageEnd brk0 physMem = .ok k0)
    (hrun : Reaches Step Live ⟨k0, []⟩ w) :
    (∀ slot p, w.shared.procAt slot = some p → p.refcount.toNat = w.holding slot) ∧
    (∀ slot, w.holding slot ≠ 0 → ∃ p, w.shared.procAt slot = some p) ∧
    (∀ op w', w.Live op → w.Step op w' → ∀ slot p, w.shared.procAt slot = some p →
      (w'.shared.procAt slot = none ↔
        p.state = .ZOMBIE ∧ w.holding slot ≠ 0 ∧ w'.holding slot = 0)) ∧
    (∀ op w', w.Step op w' → (∀ op', op ≠ .manage op') → ∀ slot, w.shared.procAt slot = none →
      w'.shared.procAt slot = none) ∧
    (∀ op, w.Live op → (∃ w', w.Step op w') ∨ (∃ op', op = .manage op') ∨
      ∃ guard, op = .markForDeath guard ∧ w.guards[guard]? = some (some .kernel)) ∧
    ∀ vm slot path brk ctx pid k1, (w.shared.procAt slot).isSome →
      w.shared.createProcess vm path brk = .ok (pid, k1) →
        ∃ r, w.shared.exec vm slot path brk ctx = .ok r := by
  have hsound := ledger_sound_of_reaches hboot hrun
  refine ⟨fun slot p hp => hsound.counted.count_eq hp,
    fun slot hheld => hsound.counted.exists_of_held hheld, ?_, ?_, fun op => hsound.step_ok, ?_⟩
  · intro op w' hlive hstep slot p hp
    exact (hsound.step hlive hstep).2.gone_iff hp
  · intro op w' hstep hop slot hnone
    exact (step_touches hstep hop hsound.invariant.slotted).empty hnone
  · intro vm slot path brk ctx pid k1 hself hcreate
    obtain ⟨p, hp⟩ := Option.isSome_iff_exists.mp hself
    exact SharedResources.exec_ok hp hcreate hsound.invariant.sane hsound.invariant.slotted

/-- A process gets guards in every way, is marked for death through one of them,
and goes with the last. -/
def shellGuards : List GuardOperation :=
  [.manage (.createProcess SharedResources.zeroFiles [] 0), .lookup 0, .borrow 0, .moveConstruct 0,
    .lookup 7, .moveAssign 3 1, .moveAssign 3 3, .borrowKernel, .markForDeath 2, .reset 2,
    .destroy 0]

/-- The guarantee on that run, with one guard left on a dying process. -/
theorem shell_guards_exact :
    ∃ k0 w, Reaches Step Live ⟨k0, []⟩ w ∧ w.holding 0 = 1 ∧
      ∃ p, w.shared.procAt 0 = some p ∧ p.state = .ZOMBIE ∧ p.refcount.toNat = w.holding 0 := by
  have hruns : ((SharedResources.construct 0x80001000 0 fun _ => 0).toOption.bind fun k0 =>
      execute (fun w op => (World.step w op).toOption) Live ⟨k0, []⟩ shellGuards).any
        (fun w => decide (w.holding 0 = 1) &&
          (w.shared.procAt 0).any fun p => decide (p.state = .ZOMBIE)) = true := by
    decide +kernel
  obtain ⟨w, hw, hends⟩ := (Option.any_eq_true _ _).mp hruns
  obtain ⟨hone, hdying⟩ := (Bool.and_eq_true _ _).mp hends
  obtain ⟨k0, hk0, hrun⟩ := Option.bind_eq_some_iff.mp hw
  have hreaches := reaches_of_execute (R := Step) SharedResources.toOption_eq_some hrun
  obtain ⟨p, hp, hstate⟩ := (Option.any_eq_true _ _).mp hdying
  obtain ⟨hcount, -⟩ := guards_exact (SharedResources.toOption_eq_some hk0) hreaches
  exact ⟨k0, w, hreaches, of_decide_eq_true hone, p, hp, of_decide_eq_true hstate, hcount 0 p hp⟩

end World

end Kernel
