import Mathlib.Algebra.BigOperators.Group.Finset.Basic
import Mathlib.Algebra.BigOperators.Group.List.Basic
import Mathlib.Data.List.Perm.Basic

/-!
# Totals over numbered parts

A quantity of a system is often the sum over its parts: the elements of a list,
or the values of a function on the numbers below `n`.  When one part changes,
the total changes by the difference; as nothing is subtracted here, the old part
is added on one side and the new part on the other.
-/

namespace Totals

variable {α M : Type*} [AddCommMonoid M] (f : α → M)

/-- The sum over the elements of a list. -/
def total (l : List α) : M := (l.map f).sum

@[simp] theorem total_nil : total f [] = 0 := rfl

/-- One more item adds its share. -/
theorem total_append (l : List α) (x : α) : total f (l ++ [x]) = total f l + f x := by
  rw [total, total, List.map_append, List.sum_append]
  simp

/-- One element of a list changes. -/
theorem total_set {l : List α} {t : Nat} {x : α} (h : l[t]? = some x) (y : α) :
    total f (l.set t y) + f x = total f l + f y := by
  obtain ⟨hlt, rfl⟩ := List.getElem?_eq_some_iff.mp h
  have hnew := ((List.set_perm_cons_eraseIdx hlt y).map f).sum_eq
  have hold := ((List.getElem_cons_eraseIdx_perm hlt).map f).sum_eq
  rw [List.map_cons, List.sum_cons] at hnew hold
  rw [total, total, hnew, ← hold]
  ac_rfl

/-- One element of a list goes. -/
theorem total_eraseIdx {l : List α} {t : Nat} {x : α} (h : l[t]? = some x) :
    total f (l.eraseIdx t) + f x = total f l := by
  obtain ⟨hlt, rfl⟩ := List.getElem?_eq_some_iff.mp h
  have hsum := ((List.getElem_cons_eraseIdx_perm hlt).map f).sum_eq
  rw [List.map_cons, List.sum_cons] at hsum
  rw [total, total, ← hsum, add_comm]

/-- A part of a total. -/
theorem le_total {g : α → Nat} {l : List α} {t : Nat} {x : α} (h : l[t]? = some x) :
    g x ≤ total g l := by
  have hsum := total_eraseIdx g h
  omega

/-- Totals of quantities that bound each other. -/
theorem total_le_add {f g k : α → Nat} (h : ∀ x, f x ≤ g x + k x) (l : List α) :
    total f l ≤ total g l + total k l := by
  induction l with
  | nil => exact Nat.zero_le _
  | cons x l ih =>
      have hx := h x
      simp only [total, List.map_cons, List.sum_cons] at ih ⊢
      omega

/-- Where no item has a share the total is zero. -/
theorem total_eq_zero {l : List α} (h : ∀ x ∈ l, f x = 0) : total f l = 0 := by
  refine List.sum_eq_zero fun y hy => ?_
  obtain ⟨x, hx, rfl⟩ := List.mem_map.mp hy
  exact h x hx

/-- One value of a function changes. -/
theorem sum_update {n j : Nat} (hj : j < n) (g : Nat → α) (y : α) :
    ∑ i ∈ Finset.range n, f (Function.update g j y i) + f (g j) =
      ∑ i ∈ Finset.range n, f (g i) + f y := by
  have hmem := Finset.mem_range.mpr hj
  have hrest : ∑ i ∈ (Finset.range n).erase j, f (Function.update g j y i) =
      ∑ i ∈ (Finset.range n).erase j, f (g i) := by
    refine Finset.sum_congr rfl fun i hi => ?_
    rw [Function.update_of_ne (Finset.ne_of_mem_erase hi)]
  have hnew := Finset.add_sum_erase (Finset.range n) (fun i => f (Function.update g j y i)) hmem
  have hold := Finset.add_sum_erase (Finset.range n) (fun i => f (g i)) hmem
  simp only [Function.update_self] at hnew
  rw [← hnew, ← hold, hrest]
  ac_rfl

end Totals
