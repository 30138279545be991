import Mathlib.Logic.Function.Basic

/-!
# Counted objects

A store keeps objects under indices, and every object carries a counter and a
mark.  `holders` is how many references to an index there are outside the
store.  Taking a reference raises the counter, giving one back lowers it, and
the object goes with the last reference once it is marked.

`Counted` says that every counter is right, that only objects are held and that
a marked object is held.  It is a condition on one index at a time, so a step is
described by what it does to the object and the holders of one index.

* `Counted.step`: every step keeps the counters right;
* `Change.gone_iff`: an object goes exactly with the last reference after the
  mark.
-/

namespace RefCount

/-- The objects, and how many references there are to each index. -/
structure Store (ι α : Type*) where
  objects : ι → Option α
  holders : ι → Nat

variable {ι α : Type*} (count : α → Nat) (doomed : α → Prop)

/-- What one step does to the object and the holders of an index. -/
inductive Change : Option α → Nat → Option α → Nat → Prop
  | acquire {a a' : α} {n : Nat} (hcount : count a' = count a + 1)
      (hdoomed : doomed a' ↔ doomed a) : Change (some a) n (some a') (n + 1)
  | release {a a' : α} {n : Nat} (hcount : count a = count a' + 1)
      (hdoomed : doomed a' ↔ doomed a) (hkept : doomed a → n ≠ 0) :
      Change (some a) (n + 1) (some a') n
  | destroy {a : α} (hdoomed : doomed a) : Change (some a) 1 none 0
  | doom {a a' : α} {n : Nat} (hcount : count a' = count a) (hdoomed : doomed a') :
      Change (some a) (n + 1) (some a') (n + 1)
  | create {a : α} {n : Nat} (hcount : count a = 0) (halive : ¬ doomed a) :
      Change none n (some a) n
  | modify {a a' : α} {n : Nat} (hcount : count a' = count a) (hdoomed : doomed a' ↔ doomed a) :
      Change (some a) n (some a') n

/-- One step changes one index. -/
inductive Step [DecidableEq ι] (s : Store ι α) : Store ι α → Prop
  | change (i : ι) {o : Option α} {n : Nat} (h : Change count doomed (s.objects i) (s.holders i) o n) :
      Step s ⟨Function.update s.objects i o, Function.update s.holders i n⟩

/-- An index without an object has no holders; the counter of an object is the
number of its holders, and a marked one has some. -/
def CountedAt : Option α → Nat → Prop
  | none, n => n = 0
  | some a, n => count a = n ∧ (doomed a → n ≠ 0)

/-- All counters are right. -/
def Counted (s : Store ι α) : Prop := ∀ i, CountedAt count doomed (s.objects i) (s.holders i)

variable {count doomed} {s s' : Store ι α} {i : ι} {a : α} {o o' : Option α} {n n' : Nat}

/-- A live object counts its holders. -/
theorem Counted.count_eq (h : Counted count doomed s) (ha : s.objects i = some a) :
    count a = s.holders i := by
  have hi := h i
  rw [ha] at hi
  exact hi.1

/-- What is held is there. -/
theorem Counted.exists_of_held (h : Counted count doomed s) (hi : s.holders i ≠ 0) :
    ∃ a, s.objects i = some a := by
  cases ha : s.objects i with
  | none =>
      have hnone := h i
      rw [ha] at hnone
      exact absurd hnone hi
  | some a => exact ⟨a, rfl⟩

/-- A change keeps the counter of its index right. -/
theorem CountedAt.change (h : CountedAt count doomed o n) (hchange : Change count doomed o n o' n') :
    CountedAt count doomed o' n' := by
  cases hchange with
  | acquire hcount hdoomed => exact ⟨by rw [hcount, h.1], fun _ => Nat.succ_ne_zero _⟩
  | release hcount hdoomed hkept =>
      refine ⟨?_, fun hd => hkept (hdoomed.mp hd)⟩
      have := h.1
      omega
  | destroy hdoomed => exact rfl
  | doom hcount hdoomed => exact ⟨hcount.trans h.1, fun _ => Nat.succ_ne_zero _⟩
  | create hcount halive =>
      have hnone : n = 0 := h
      exact ⟨hcount.trans hnone.symm, fun hd => absurd hd halive⟩
  | modify hcount hdoomed => exact ⟨hcount.trans h.1, fun hd => h.2 (hdoomed.mp hd)⟩

/-- **Step.**  Every step keeps the counters right. -/
theorem Counted.step [DecidableEq ι] (h : Counted count doomed s) (hstep : Step count doomed s s') :
    Counted count doomed s' := by
  obtain ⟨i, hchange⟩ := hstep
  intro j
  by_cases hj : j = i
  · subst hj
    simp only [Function.update_self]
    exact (h j).change hchange
  · simp only [Function.update_of_ne hj]
    exact h j

/-- **Destruction.**  An object goes exactly when the last reference to it is
given back after the mark. -/
theorem Change.gone_iff (hchange : Change count doomed (some a) n o' n') :
    o' = none ↔ doomed a ∧ n ≠ 0 ∧ n' = 0 := by
  cases hchange with
  | acquire => simp
  | release hcount hdoomed hkept =>
      constructor
      · intro h
        cases h
      · intro ⟨hd, _, hzero⟩
        exact absurd hzero (hkept hd)
  | destroy hdoomed => simp [hdoomed]
  | doom => simp
  | modify =>
      constructor
      · intro h
        cases h
      · intro ⟨_, hheld, hzero⟩
        exact absurd hzero hheld

/-- The same for a step of the store, at any index. -/
theorem Step.gone_iff [DecidableEq ι] (hstep : Step count doomed s s') (ha : s.objects i = some a) :
    s'.objects i = none ↔ doomed a ∧ s.holders i ≠ 0 ∧ s'.holders i = 0 := by
  obtain ⟨j, hchange⟩ := hstep
  by_cases hi : i = j
  · subst hi
    simp only [Function.update_self]
    rw [ha] at hchange
    exact hchange.gone_iff
  · simp only [Function.update_of_ne hi, ha]
    constructor
    · intro h
      cases h
    · intro ⟨_, hheld, hzero⟩
      exact absurd hzero hheld

end RefCount
