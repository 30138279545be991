import Mathlib.Logic.Basic

/-!
# Computations that can fail

A step that can fail is a value of `Except ε α`, and a run of steps is a chain
of binds.  These rules take a successful chain apart, and put one together, one
step at a time, so that no proof unfolds the monad.  `FailsAs` bounds the errors
of a chain by those of its steps.  A run of operations is a fold: `foldlM_tracks` is the
rule for one in which no step fails, `foldlM_follows` for one that fails where the
reference has no step.
-/

namespace Except

variable {ε α β : Type} {x : Except ε α} {f : α → Except ε β} {E E' : ε → Prop}

/-- A chain succeeds exactly when its first step does and the rest does from
there. -/
theorem bind_ok_iff {b : β} :
    (x >>= f) = .ok b ↔ ∃ a, x = .ok a ∧ f a = .ok b := by
  cases x with
  | error e => simp [bind, Except.bind]
  | ok a => simp [bind, Except.bind]

@[simp] theorem ok_bind {a : α} : (Except.ok a >>= f) = f a := rfl

@[simp] theorem error_bind {e : ε} :
    (Except.error e >>= f) = .error e := rfl

/-- A mapped result is the image of a result. -/
theorem map_ok_iff {g : α → β} {b : β} : x.map g = .ok b ↔ ∃ a, x = .ok a ∧ g a = b := by
  cases x with
  | error e => simp [Except.map]
  | ok a => simp [Except.map]

/-- A computation that is known to succeed has a result. -/
theorem exists_of_isOk (h : x.isOk = true) : ∃ a, x = .ok a := by
  cases x with
  | error e => cases h
  | ok a => exact ⟨a, rfl⟩

/-! ### Errors -/

/-- When the computation fails, its error is as `E` says. -/
def FailsAs (x : Except ε α) (E : ε → Prop) : Prop := ∀ ⦃e : ε⦄, x = .error e → E e

/-- A failure that is allowed. -/
theorem failsAs_error {e : ε} (he : E e) : FailsAs (.error e : Except ε α) E := by
  intro e' h
  obtain rfl := Except.error.inj h
  exact he

/-- More failures allowed. -/
theorem FailsAs.mono (h : FailsAs x E) (hE : ∀ e, E e → E' e) : FailsAs x E' :=
  fun _ he => hE _ (h he)

/-- The errors of a chain are those of its first step and, when it succeeds, of
the rest. -/
theorem FailsAs.bind (hx : FailsAs x E) (hf : ∀ a, x = .ok a → FailsAs (f a) E) :
    FailsAs (x >>= f) E := by
  cases x with
  | error e => exact failsAs_error (hx rfl)
  | ok a => exact hf a rfl

/-! ### Runs -/

section Runs

variable {σ ρ ι : Type} {f : σ → ι → Except ε σ} {g : ρ → ι → Option ρ} {R : σ → ρ → Prop}
  {P : ι → ρ → Prop} {e : ε} {s : σ} {r : ρ}

/-- When no step fails and every step keeps up with a reference, every run does. -/
theorem foldlM_tracks {k : ρ → ι → ρ}
    (hstep : ∀ {s r} i, R s r → ∃ s', f s i = .ok s' ∧ R s' (k r i)) (h : R s r) (is : List ι) :
    ∃ s', is.foldlM f s = .ok s' ∧ R s' (is.foldl k r) := by
  induction is generalizing s r with
  | nil => exact ⟨s, rfl, h⟩
  | cons i is ih =>
      obtain ⟨s₁, hs₁, h₁⟩ := hstep i h
      obtain ⟨s', hs', h'⟩ := ih h₁
      refine ⟨s', ?_, h'⟩
      rw [List.foldlM_cons, hs₁, ok_bind, hs']

/-- The result is related to the one of a reference, and is the error `e` where the
reference has none. -/
def Follows (R : σ → ρ → Prop) (e : ε) (x : Except ε σ) : Option ρ → Prop
  | some r => ∃ s, x = .ok s ∧ R s r
  | none => x = .error e

/-- A weaker relation is followed, too. -/
theorem Follows.imp {R' : σ → ρ → Prop} {x : Except ε σ} {y : Option ρ} (h : Follows R e x y)
    (hR : ∀ {s r}, R s r → R' s r) : Follows R' e x y := by
  cases y with
  | none => exact h
  | some r =>
      obtain ⟨s, hs, hrel⟩ := h
      exact ⟨s, hs, hR hrel⟩

/-- A condition on each operation and the state of the reference before it. -/
def Along (g : ρ → ι → Option ρ) (P : ι → ρ → Prop) : List ι → ρ → Prop
  | [], _ => True
  | i :: is, r => P i r ∧ ∀ r', g r i = some r' → Along g P is r'

/-- One more step in front. -/
theorem Along.cons {i : ι} {is : List ι} {r' : ρ} (hi : P i r) (hg : g r i = some r')
    (h : Along g P is r') : Along g P (i :: is) r := by
  refine ⟨hi, fun r'' hr'' => ?_⟩
  obtain rfl := Option.some.inj (hg.symm.trans hr'')
  exact h

/-- A weaker condition holds along the steps, too. -/
theorem Along.imp {Q : ι → ρ → Prop} {is : List ι} (h : Along g P is r)
    (hPQ : ∀ i ∈ is, ∀ r, P i r → Q i r) : Along g Q is r := by
  induction is generalizing r with
  | nil => trivial
  | cons i is ih =>
      refine ⟨hPQ i List.mem_cons_self r h.1, fun r' hr' => ih (h.2 r' hr') ?_⟩
      exact fun j hj => hPQ j (List.mem_cons_of_mem i hj)

/-- Two conditions along the steps are one. -/
theorem Along.and {Q : ι → ρ → Prop} {is : List ι} (h : Along g P is r) (h' : Along g Q is r) :
    Along g (fun i r => P i r ∧ Q i r) is r := by
  induction is generalizing r with
  | nil => trivial
  | cons i is ih => exact ⟨⟨h.1, h'.1⟩, fun r' hr' => ih (h.2 r' hr') (h'.2 r' hr')⟩

/-- **Refinement.**  When every step follows the reference, every run does. -/
theorem foldlM_follows
    (hstep : ∀ {s r} i, R s r → P i r → Follows R e (f s i) (g r i)) (h : R s r) {is : List ι}
    (halong : Along g P is r) : Follows R e (is.foldlM f s) (is.foldlM g r) := by
  induction is generalizing s r with
  | nil => exact ⟨s, rfl, h⟩
  | cons i is ih =>
      have hfollows := hstep i h halong.1
      rw [List.foldlM_cons, List.foldlM_cons]
      cases hg : g r i with
      | none =>
          rw [hg] at hfollows
          rw [show f s i = .error e from hfollows]
          rfl
      | some r' =>
          rw [hg] at hfollows
          obtain ⟨s', hs', h'⟩ := hfollows
          rw [hs']
          exact ih h' (halong.2 r' hg)

end Runs

end Except
