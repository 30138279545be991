import Mathlib.Data.List.Basic
import BobbyOS.Lib.Run

/-!
# Queues that serve in turn

A system serves one element at a time and keeps the others in a queue.  A step either adds
elements behind the queue, or adds some, serves the front and takes it out.

* `Serves`: what one step does to the queue;
* `Counted`: runs that count the steps that serve;
* `Counted.served`: an element with `i` others before it is served by the step number
  `i + 1`, and stays in the queue until then.
-/

namespace Turns

variable {σ ι α : Type*}

/-- A step from the queue `q` to the queue `q'`: it serves the element `x`, or none. -/
inductive Serves (q : List α) : Option α → List α → Prop
  | adds (added : List α) : Serves q none (q ++ added)
  | serves {x : α} {q' : List α} (added : List α) (h : q ++ added = x :: q') :
      Serves q (some x) q'

variable {q q' : List α} {x y : α} {i : Nat}

/-- Nobody is overtaken when nobody is served. -/
theorem Serves.kept (h : Serves q none q') (hx : q[i]? = some x) : q'[i]? = some x := by
  cases h with
  | adds added =>
      obtain ⟨hi, -⟩ := List.getElem?_eq_some_iff.mp hx
      rw [List.getElem?_append_left hi]
      exact hx

/-- The front is served. -/
theorem Serves.front (h : Serves q (some y) q') (hx : q[0]? = some x) : y = x := by
  cases h with
  | serves added heq =>
      obtain ⟨hi, -⟩ := List.getElem?_eq_some_iff.mp hx
      have hfront : (q ++ added)[0]? = some x := by
        rw [List.getElem?_append_left hi]
        exact hx
      rw [heq] at hfront
      exact Option.some.inj hfront

/-- The others move up by one. -/
theorem Serves.moved (h : Serves q (some y) q') (hx : q[i + 1]? = some x) : q'[i]? = some x := by
  cases h with
  | serves added heq =>
      obtain ⟨hi, -⟩ := List.getElem?_eq_some_iff.mp hx
      have hlater : (q ++ added)[i + 1]? = some x := by
        rw [List.getElem?_append_left hi]
        exact hx
      rw [heq] at hlater
      exact hlater

/-- The runs with so many steps of which `w` holds. -/
inductive Counted (R : σ → ι → σ → Prop) (w : σ → ι → Bool) : Nat → σ → σ → Prop
  | refl {s : σ} : Counted R w 0 s s
  | other {n : Nat} {s t u : σ} {i : ι} (h : Counted R w n s t) (hi : w t i = false)
      (hstep : R t i u) : Counted R w n s u
  | counts {n : Nat} {s t u : σ} {i : ι} (h : Counted R w n s t) (hi : w t i = true)
      (hstep : R t i u) : Counted R w (n + 1) s u

variable {R : σ → ι → σ → Prop} {w : σ → ι → Bool} {I : σ → Prop} {queue : σ → List α}
  {Served : σ → α → Prop} {s t : σ} {n : Nat}

/-- **Turns.**  In a system whose steps serve in turn exactly when `w` says so, an element
with `i` others before it moves up by one with each of these steps, and the step number
`i + 1` serves it. -/
theorem Counted.served
    (hstep : ∀ {s j t}, I s → R s j t → I t ∧
      if w s j then ∃ y, Serves (queue s) (some y) (queue t) ∧ Served t y
      else Serves (queue s) none (queue t) ∧ ∀ y, Served s y → Served t y)
    (hs : I s) (hx : (queue s)[i]? = some x) (h : Counted R w n s t) :
    I t ∧ (n ≤ i → (queue t)[i - n]? = some x) ∧ (n = i + 1 → Served t x) := by
  induction h with
  | refl =>
      refine ⟨hs, fun _ => hx, fun hn => ?_⟩
      cases hn
  | other _ hj hR ih =>
      obtain ⟨ht, hqueue, hserved⟩ := ih hs hx
      obtain ⟨hu, hserves⟩ := hstep ht hR
      rw [hj] at hserves
      exact ⟨hu, fun hn => hserves.1.kept (hqueue hn), fun hn => hserves.2 _ (hserved hn)⟩
  | @counts n s t u j _ hj hR ih =>
      obtain ⟨ht, hqueue, -⟩ := ih hs hx
      obtain ⟨hu, hserves⟩ := hstep ht hR
      rw [hj, if_pos rfl] at hserves
      obtain ⟨y, hserves, hy⟩ := hserves
      refine ⟨hu, fun hn => ?_, fun hn => ?_⟩
      · have hpos : (queue t)[(i - (n + 1)) + 1]? = some x := by
          have heq : (i - (n + 1)) + 1 = i - n := by omega
          rw [heq]
          exact hqueue (by omega)
        exact hserves.moved hpos
      · have hfront : (queue t)[0]? = some x := by
          have heq : i - n = 0 := by omega
          rw [← heq]
          exact hqueue (by omega)
        rw [← hserves.front hfront]
        exact hy

end Turns
