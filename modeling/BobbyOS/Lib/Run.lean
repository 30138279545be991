import Mathlib.Logic.Relation

/-!
# Runs of a system

A system takes a step on each input, described by a relation `R` on the state
before, the input and the state after.  `Reaches R P` are the runs whose inputs
satisfy the condition `P` in the state that receives them.  An invariant is
proved for one step and holds after every run.
-/

namespace Run

variable {σ ι : Type*} {R : σ → ι → σ → Prop} {P Q : σ → ι → Prop} {s t u : σ}

/-- The runs from `s` to `t` whose inputs satisfy `P`. -/
def Reaches (R : σ → ι → σ → Prop) (P : σ → ι → Prop) : σ → σ → Prop :=
  Relation.ReflTransGen fun s t => ∃ i, P s i ∧ R s i t

/-- A state is reached from itself. -/
theorem Reaches.refl : Reaches R P s s := Relation.ReflTransGen.refl

/-- One more step behind a run. -/
theorem Reaches.step {i : ι} (h : Reaches R P s t) (hi : P t i) (hstep : R t i u) :
    Reaches R P s u :=
  Relation.ReflTransGen.tail h ⟨i, hi, hstep⟩

/-- Two runs one after the other. -/
theorem Reaches.trans (h : Reaches R P s t) (h' : Reaches R P t u) : Reaches R P s u :=
  Relation.ReflTransGen.trans h h'

/-- Weaker conditions allow more runs. -/
theorem Reaches.mono (h : Reaches R P s t) (hPQ : ∀ s i, P s i → Q s i) : Reaches R Q s t :=
  Relation.ReflTransGen.mono (fun _ _ ⟨i, hi, hstep⟩ => ⟨i, hPQ _ i hi, hstep⟩) _ _ h

/-- **Invariants.**  What every step preserves holds after every run. -/
theorem Reaches.invariant {I : σ → Prop} (h : Reaches R P s t) (h0 : I s)
    (hstep : ∀ {s i t}, I s → P s i → R s i t → I t) : I t := by
  induction h with
  | refl => exact h0
  | tail _ hlast ih =>
      obtain ⟨i, hi, hr⟩ := hlast
      exact hstep ih hi hr

/-- The state after a list of inputs that all satisfy `P`. -/
def execute (f : σ → ι → Option σ) (P : σ → ι → Prop) [∀ s i, Decidable (P s i)] (s : σ) :
    List ι → Option σ
  | [] => some s
  | i :: is => if P s i then (f s i).bind fun t => execute f P t is else none

/-- What an executable step function runs through is a run. -/
theorem reaches_of_execute {f : σ → ι → Option σ} [∀ s i, Decidable (P s i)]
    (hf : ∀ {s i t}, f s i = some t → R s i t) {is : List ι} (h : execute f P s is = some t) :
    Reaches R P s t := by
  induction is generalizing s with
  | nil =>
      obtain rfl := Option.some.inj h
      exact .refl
  | cons i is ih =>
      rw [execute] at h
      split at h
      case isTrue hi =>
        obtain ⟨u, hu, ht⟩ := Option.bind_eq_some_iff.mp h
        exact (Reaches.refl.step hi (hf hu)).trans (ih ht)
      case isFalse => cases h

end Run
