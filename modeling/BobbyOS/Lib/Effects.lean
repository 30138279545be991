import Mathlib.Logic.Basic

/-!
# Programs that change a state and may stop

A program over a state is an `EStateM`: it returns a value and a new state, or it
stops with an error in the state it had reached.  Three kinds of reasoning are
supported: taking a program that returned apart, step by step; following a
property of the state through all steps, whether the program returns or stops;
and bounding the errors a program stops with by those of its steps.
-/

namespace Effects

variable {ε σ α β : Type} {x : EStateM ε σ α} {f : α → EStateM ε σ β} {s s' : σ} {a : α} {b : β}

/-- The program returns a value and a state. -/
def Returns (x : EStateM ε σ α) (s : σ) (a : α) (s' : σ) : Prop := x s = .ok a s'

/-- A sequence returns where its first part does and the rest from there. -/
theorem returns_bind :
    Returns (x >>= f) s b s' ↔ ∃ a t, Returns x s a t ∧ Returns (f a) t b s' := by
  unfold Returns
  show EStateM.bind x f s = _ ↔ _
  unfold EStateM.bind
  cases hx : x s with
  | ok a t =>
      constructor
      · intro h
        exact ⟨a, t, rfl, h⟩
      · intro ⟨a', t', heq, h⟩
        obtain ⟨rfl, rfl⟩ := EStateM.Result.ok.inj heq
        exact h
  | error e t =>
      constructor
      · intro h
        cases h
      · intro ⟨_, _, heq, _⟩
        cases heq

/-- A first part that returns and a rest that does are a sequence that does. -/
theorem Returns.bind {t : σ} (hx : Returns x s a t) (hf : Returns (f a) t b s') :
    Returns (x >>= f) s b s' := returns_bind.mpr ⟨a, t, hx, hf⟩

/-- After a return the rest goes on from there, however it ends. -/
theorem Returns.bind_eq (h : Returns x s a s') : (x >>= f) s = f a s' := by
  show EStateM.bind x f s = f a s'
  unfold EStateM.bind
  rw [show x s = .ok a s' from h]

/-- A value is returned, and nothing changes. -/
theorem returns_pure {b : α} : Returns (pure a : EStateM ε σ α) s b s' ↔ b = a ∧ s' = s := by
  constructor
  · intro h
    obtain ⟨rfl, rfl⟩ := EStateM.Result.ok.inj h
    exact ⟨rfl, rfl⟩
  · intro ⟨hb, hs⟩
    rw [hb, hs]
    rfl

/-- The state is read, and nothing changes. -/
theorem returns_get {t : σ} : Returns (get : EStateM ε σ σ) s t s' ↔ t = s ∧ s' = s := by
  constructor
  · intro h
    obtain ⟨rfl, rfl⟩ := EStateM.Result.ok.inj h
    exact ⟨rfl, rfl⟩
  · intro ⟨ht, hs⟩
    rw [ht, hs]
    rfl

/-- A modification returns the modified state. -/
theorem returns_modify {g : σ → σ} {u : Unit} :
    Returns (modify g : EStateM ε σ Unit) s u s' ↔ s' = g s := by
  constructor
  · intro h
    obtain ⟨-, rfl⟩ := EStateM.Result.ok.inj h
    rfl
  · intro hs
    rw [hs]
    rfl

/-- Reading the state is no step. -/
theorem returns_get_bind {f : σ → EStateM ε σ β} :
    Returns (get >>= f) s b s' ↔ Returns (f s) s b s' := Iff.rfl

/-- What is done behind a modification starts in the modified state. -/
theorem returns_modify_bind {g : σ → σ} {f : Unit → EStateM ε σ β} :
    Returns (modify g >>= f) s b s' ↔ Returns (f ()) (g s) b s' := Iff.rfl

/-- A failure does not return. -/
theorem not_returns_throw {e : ε} : ¬ Returns (throw e : EStateM ε σ α) s a s' := by
  intro h
  cases h

/-- The state after a program that returns. -/
def after (x : EStateM ε σ α) (s : σ) : Option σ :=
  match x s with
  | .ok _ t => some t
  | .error _ _ => none

/-- The state behind an action is that of its return. -/
theorem after_eq_some : after x s = some s' ↔ ∃ a, Returns x s a s' := by
  unfold after Returns
  cases x s with
  | ok a t =>
      constructor
      · intro h
        rw [Option.some.inj h]
        exact ⟨a, rfl⟩
      · intro ⟨a', h⟩
        rw [(EStateM.Result.ok.inj h).2]
  | error e t =>
      constructor
      · intro h
        cases h
      · intro ⟨_, h⟩
        cases h

/-! ### Triples -/

/-- From a state that satisfies `P`, a program that returns does so as `Q` says. -/
def Triple (P : σ → Prop) (x : EStateM ε σ α) (Q : α → σ → Prop) : Prop :=
  ∀ ⦃s : σ⦄, P s → ∀ ⦃a : α⦄ ⦃s' : σ⦄, Returns x s a s' → Q a s'

variable {P P' : σ → Prop} {Q Q' : α → σ → Prop} {R : β → σ → Prop}

/-- **Sequence.** -/
theorem Triple.bind (hx : Triple P x Q) (hf : ∀ a, Triple (Q a) (f a) R) :
    Triple P (x >>= f) R := by
  intro s hs b s' h
  obtain ⟨a, t, ha, hb⟩ := returns_bind.mp h
  exact hf a (hx hs ha) hb

/-- **Consequence.** -/
theorem Triple.mono (hx : Triple P x Q) (hP : ∀ s, P' s → P s) (hQ : ∀ a s, Q a s → Q' a s) :
    Triple P' x Q' :=
  fun _ hs _ _ h => hQ _ _ (hx (hP _ hs) h)

/-- A stronger precondition. -/
theorem Triple.pre (hx : Triple P x Q) (hP : ∀ s, P' s → P s) : Triple P' x Q :=
  hx.mono hP fun _ _ h => h

/-- A weaker postcondition. -/
theorem Triple.post (hx : Triple P x Q) (hQ : ∀ a s, Q a s → Q' a s) : Triple P x Q' :=
  hx.mono (fun _ h => h) hQ

/-- A value has what its postcondition asks of the state before. -/
theorem Triple.pure (h : ∀ s, P s → Q a s) : Triple P (Pure.pure a : EStateM ε σ α) Q := by
  intro s hs b s' hb
  obtain ⟨rfl, rfl⟩ := returns_pure.mp hb
  exact h s' hs

/-- A read state has it, too. -/
theorem Triple.get {Q : σ → σ → Prop} (h : ∀ s, P s → Q s s) :
    Triple P (MonadState.get : EStateM ε σ σ) Q := by
  intro s hs t s' ht
  obtain ⟨rfl, rfl⟩ := returns_get.mp ht
  exact h s' hs

/-- A modification has what its postcondition asks of the modified state. -/
theorem Triple.modify {Q : Unit → σ → Prop} {g : σ → σ} (h : ∀ s, P s → Q () (g s)) :
    Triple P (modify g : EStateM ε σ Unit) Q := by
  intro s hs u s' hu
  obtain rfl := returns_modify.mp hu
  exact h s hs

/-- A failure has no state behind it. -/
theorem Triple.throw {e : ε} : Triple P (MonadExcept.throw e : EStateM ε σ α) Q :=
  fun _ _ _ _ h => absurd h not_returns_throw

/-- Two triples of one action are one. -/
theorem Triple.and {P₁ P₂ : σ → Prop} {Q₁ Q₂ : α → σ → Prop} (h₁ : Triple P₁ x Q₁)
    (h₂ : Triple P₂ x Q₂) : Triple (fun s => P₁ s ∧ P₂ s) x fun a s => Q₁ a s ∧ Q₂ a s :=
  fun _ hs _ _ h => ⟨h₁ hs.1 h, h₂ hs.2 h⟩

/-- What the last part returns when nothing is known about the state before it. -/
theorem Triple.after (hf : ∀ a, Triple (fun _ => True) (f a) R) : Triple P (x >>= f) R :=
  Triple.bind (Q := fun _ _ => True) (fun _ _ _ _ _ => trivial) hf

/-- A fact about the state before that does not depend on the state. -/
theorem Triple.of_forall {φ : Prop} (h : φ → Triple P x Q) (hφ : ∀ s, P s → φ) : Triple P x Q :=
  fun s hs _ _ hr => h (hφ s hs) hs hr

/-! ### Errors -/

/-- From a state that satisfies `P`, a program that stops does so as `E` says. -/
def Stops (P : σ → Prop) (x : EStateM ε σ α) (E : ε → Prop) : Prop :=
  ∀ ⦃s : σ⦄, P s → ∀ ⦃e : ε⦄ ⦃t : σ⦄, x s = .error e t → E e

variable {E E' : ε → Prop}

/-- **Consequence** for failures. -/
theorem Stops.mono (hx : Stops P x E) (hP : ∀ s, P' s → P s) (hE : ∀ e, E e → E' e) :
    Stops P' x E' :=
  fun _ hs _ _ h => hE _ (hx (hP _ hs) h)

/-- A stronger precondition. -/
theorem Stops.pre (hx : Stops P x E) (hP : ∀ s, P' s → P s) : Stops P' x E :=
  hx.mono hP fun _ h => h

/-- More failures allowed. -/
theorem Stops.post (hx : Stops P x E) (hE : ∀ e, E e → E' e) : Stops P x E' :=
  hx.mono (fun _ h => h) hE

/-- A sequence stops where one of its parts does. -/
theorem error_bind {e : ε} (h : (x >>= f) s = .error e s') :
    x s = .error e s' ∨ ∃ a t, Returns x s a t ∧ f a t = .error e s' := by
  replace h : EStateM.bind x f s = .error e s' := h
  unfold EStateM.bind at h
  cases hx : x s with
  | ok a t =>
      rw [hx] at h
      exact .inr ⟨a, t, hx, h⟩
  | error e' t =>
      rw [hx] at h
      obtain ⟨rfl, rfl⟩ := EStateM.Result.error.inj h
      exact .inl rfl

/-- A sequence stops as its parts do; the second one starts as the first one
returns. -/
theorem Stops.bind (hx : Stops P x E) (hr : Triple P x Q) (hf : ∀ a, Stops (Q a) (f a) E) :
    Stops P (x >>= f) E := by
  intro s hs e t h
  rcases error_bind h with hstop | ⟨a, t1, ha, hstop⟩
  · exact hx hs hstop
  · exact hf a (hr hs ha) hstop

/-- A fact about the state before that does not depend on the state. -/
theorem Stops.of_forall {φ : Prop} (h : φ → Stops P x E) (hφ : ∀ s, P s → φ) : Stops P x E :=
  fun s hs _ _ he => h (hφ s hs) hs he

/-! ### Properties of the state -/

/-- The state a program ends in, whether it returns or stops. -/
def final (x : EStateM ε σ α) (s : σ) : σ :=
  match x s with
  | .ok _ t => t
  | .error _ t => t

/-- The program keeps a property of the state. -/
def Keeps (I : σ → Prop) (x : EStateM ε σ α) : Prop := ∀ s, I s → I (final x s)

variable {I : σ → Prop}

/-- The state behind a return. -/
theorem Returns.final (h : Returns x s a s') : final x s = s' := by
  unfold Effects.final
  rw [h]

/-- What an action keeps holds behind its return. -/
theorem Keeps.returns (h : Keeps I x) (hx : Returns x s a s') (hs : I s) : I s' := by
  rw [← hx.final]
  exact h s hs

/-- A value keeps everything. -/
theorem keeps_pure : Keeps I (pure a : EStateM ε σ α) := fun _ hs => hs

/-- Reading the state keeps everything. -/
theorem keeps_get : Keeps I (get : EStateM ε σ σ) := fun _ hs => hs

/-- A failure leaves no state to ask about. -/
theorem keeps_throw {e : ε} : Keeps I (throw e : EStateM ε σ α) := fun _ hs => hs

/-- A modification keeps what its function does. -/
theorem keeps_modify {g : σ → σ} (h : ∀ s, I s → I (g s)) :
    Keeps I (modify g : EStateM ε σ Unit) := h

/-- A sequence ends where its second part does, or its first when that stops. -/
theorem final_bind : final (x >>= f) s = match x s with
    | .ok a t => final (f a) t
    | .error _ t => t := by
  unfold final
  show (match EStateM.bind x f s with | .ok _ t => t | .error _ t => t) = _
  unfold EStateM.bind
  cases x s <;> rfl

/-- What holds where the first part stops, and where the second part ends. -/
theorem final_bind_of (hx : I (final x s)) (hf : ∀ a t, Returns x s a t → I (final (f a) t)) :
    I (final (x >>= f) s) := by
  rw [final_bind]
  unfold final at hx
  cases hxs : x s with
  | ok a t => exact hf a t hxs
  | error e t =>
      rw [hxs] at hx
      exact hx

/-- What holds where the first part ends is kept by the second. -/
theorem Keeps.final_bind (hx : I (final x s)) (hf : ∀ a, Keeps I (f a)) :
    I (final (x >>= f) s) := by
  refine final_bind_of hx fun a t h => ?_
  rw [h.final] at hx
  exact hf a t hx

/-- A sequence keeps what its parts keep. -/
theorem Keeps.bind (hx : Keeps I x) (hf : ∀ a, Keeps I (f a)) : Keeps I (x >>= f) :=
  fun s hs => Keeps.final_bind (hx s hs) hf

/-- The second part may use what the first one returned. -/
theorem Keeps.bind_of_returns (hx : Keeps I x)
    (hf : ∀ a s t, I s → Returns x s a t → I (final (f a) t)) : Keeps I (x >>= f) :=
  fun s hs => final_bind_of (hx s hs) fun a t h => hf a s t hs h

/-- An invariant that is kept, as a triple. -/
theorem Keeps.triple (hx : Keeps I x) : Triple I x fun _ => I :=
  fun _ hs _ _ h => hx.returns h hs

/-- A state that was reached on the way is kept in what follows it. -/
theorem final_bind_of_returns (h : Returns x s a s') : final (x >>= f) s = final (f a) s' := by
  rw [final_bind, h]

/-! ### Counting loops -/

/-- So many rounds of `for (…; ++i) body(i)`, from `i` on; the counter behind them. -/
def rounds (body : Nat → EStateM ε σ Unit) : Nat → Nat → EStateM ε σ Nat
  | 0, i => pure i
  | n + 1, i => do
      body i
      rounds body n (i + 1)

/-- **The rule of the counting loop.**  When every round returns and moves the
invariant on by one, so does the loop. -/
theorem returns_rounds {body : Nat → EStateM ε σ Unit} {I : Nat → σ → Prop} {n i : Nat}
    (hbody : ∀ j t, i ≤ j → j < i + n → I j t →
      ∃ t', Returns (body j) t () t' ∧ I (j + 1) t') (h : I i s) :
    ∃ s', Returns (rounds body n i) s (i + n) s' ∧ I (i + n) s' := by
  induction n generalizing i s with
  | zero => exact ⟨s, rfl, h⟩
  | succ n ih =>
      obtain ⟨t, ht, hnext⟩ := hbody i s (Nat.le_refl i) (by omega) h
      obtain ⟨s', hs', h'⟩ := ih (fun j t hle hlt => hbody j t (by omega) (by omega)) hnext
      rw [Nat.add_right_comm i 1 n] at hs' h'
      exact ⟨s', ht.bind hs', h'⟩

end Effects
