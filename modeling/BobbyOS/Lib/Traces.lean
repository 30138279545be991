import Mathlib.Data.List.Basic
import BobbyOS.Lib.Run

/-!
# Runs with what they put out

Some steps of a system put something out: an answer, or a record of what was accepted.
A trace is a run with the list of everything that was put out, in order.

* `Traces.invariant`: what every step keeps, of the state and the list together;
* `traces_of_trace`: a computed run is a trace.
-/

namespace Run

variable {σ ι ο : Type*} {R : σ → ι → σ → Prop} {out : σ → ι → Option ο} {s t : σ} {l : List ο}

/-- The runs from `s` to `t` whose steps put out these elements. -/
inductive Traces (R : σ → ι → σ → Prop) (out : σ → ι → Option ο) (s : σ) : List ο → σ → Prop
  | refl : Traces R out s [] s
  | step {l : List ο} {t u : σ} {i : ι} (h : Traces R out s l t) (hstep : R t i u) :
      Traces R out s (l ++ (out t i).toList) u

/-- **Invariants** of the state and of what was put out. -/
theorem Traces.invariant {I : List ο → σ → Prop} (h : Traces R out s l t) (h0 : I [] s)
    (hstep : ∀ {l t i u}, I l t → R t i u → I (l ++ (out t i).toList) u) : I l t := by
  induction h with
  | refl => exact h0
  | step _ hlast ih => exact hstep ih hlast

/-- Two traced runs one after the other. -/
theorem Traces.trans {u : σ} {l' : List ο} (h : Traces R out s l t) (h' : Traces R out t l' u) :
    Traces R out s (l ++ l') u := by
  induction h' with
  | refl =>
      rw [List.append_nil]
      exact h
  | step _ hlast ih =>
      rw [← List.append_assoc]
      exact ih.step hlast

/-- What is put out from a state on, and the state after a list of inputs. -/
def trace (f : σ → ι → Option σ) (out : σ → ι → Option ο) (s : σ) : List ι → Option (List ο × σ)
  | [] => some ([], s)
  | i :: is => (f s i).bind fun t =>
      (trace f out t is).map fun r => ((out s i).toList ++ r.1, r.2)

/-- What an executable step function traces is a traced run. -/
theorem traces_of_trace {f : σ → ι → Option σ} (hf : ∀ {s i t}, f s i = some t → R s i t)
    {is : List ι} (h : trace f out s is = some (l, t)) : Traces R out s l t := by
  induction is generalizing s l with
  | nil =>
      obtain ⟨rfl, rfl⟩ := Prod.mk.inj (Option.some.inj h)
      exact .refl
  | cons i is ih =>
      obtain ⟨u, hu, h⟩ := Option.bind_eq_some_iff.mp h
      obtain ⟨⟨l', t'⟩, ht, h⟩ := Option.map_eq_some_iff.mp h
      obtain ⟨rfl, rfl⟩ := Prod.mk.inj h
      have hfirst : Traces R out s ([] ++ (out s i).toList) u := Traces.refl.step (hf hu)
      exact hfirst.trans (ih ht)

end Run
