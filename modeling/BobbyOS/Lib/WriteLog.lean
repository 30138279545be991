import Mathlib.Logic.Function.Basic

/-!
# Logs of writes

A store of values indexed by keys, and a list of writes made to it in order.
What a key holds afterwards is its last write in the log, or what it held
before; so a log leaves the store alone exactly when the last write to each key
repeats the value found there.
-/

namespace WriteLog

variable {K V : Type*} [DecidableEq K]

/-- The store after the writes of the log, first to last. -/
def apply (m : K → V) : List (K × V) → K → V
  | [] => m
  | (k, v) :: log => apply (Function.update m k v) log

/-- The last value written to a key. -/
def last (k : K) : List (K × V) → Option V
  | [] => none
  | (k', v) :: log => (last k log).or (if k' = k then some v else none)

/-- Two logs are applied one after the other. -/
theorem apply_append (m : K → V) (log log' : List (K × V)) :
    apply m (log ++ log') = apply (apply m log) log' := by
  induction log generalizing m with
  | nil => rfl
  | cons e log ih => exact ih _

/-- A key holds its last write, or what it held before. -/
theorem apply_eq (m : K → V) (log : List (K × V)) (k : K) :
    apply m log k = (last k log).getD (m k) := by
  induction log generalizing m with
  | nil => rfl
  | cons e log ih =>
      obtain ⟨k', v⟩ := e
      rw [apply, ih, last]
      cases hlast : last k log with
      | some w => rfl
      | none =>
          by_cases hk : k' = k
          · subst hk
            simp
          · simp [hk, Function.update_of_ne (Ne.symm hk)]

/-- A key without a write in the log. -/
theorem last_eq_none_iff {k : K} {log : List (K × V)} :
    last k log = none ↔ ∀ e ∈ log, e.1 ≠ k := by
  induction log with
  | nil => simp [last]
  | cons e log ih =>
      obtain ⟨k', v⟩ := e
      by_cases hk : k' = k
      · simp [last, hk]
      · simp [last, hk, ih]

/-- A key holds the same over two stores when the log writes it, or when it held
the same before. -/
theorem getD_last_congr_iff {v w : V} {log : List (K × V)} {k : K} :
    (last k log).getD v = (last k log).getD w ↔ (∃ e ∈ log, e.1 = k) ∨ v = w := by
  cases hlast : last k log with
  | none =>
      have hno : ¬ ∃ e ∈ log, e.1 = k := fun ⟨e, he, hkey⟩ => last_eq_none_iff.mp hlast e he hkey
      simp [hno]
  | some u =>
      have hyes : ∃ e ∈ log, e.1 = k := by
        by_contra hno
        rw [last_eq_none_iff.mpr fun e he hkey => hno ⟨e, he, hkey⟩] at hlast
        cases hlast
      simp [hyes]

end WriteLog
