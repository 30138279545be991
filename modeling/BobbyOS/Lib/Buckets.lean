import Mathlib.Data.List.Perm.Basic
import Mathlib.Data.List.Flatten

/-!
# Rows of elements with a place

A chained hash table keeps its elements in rows, and a function tells the row
of each element.  The rows are compared with the list of all their elements:
appending to a row adds one element up to order, and an element is found in
its own row exactly when it is there at all.
-/

namespace Buckets

variable {α : Type*} {rows : List (List α)} {row : List α} {place : α → Nat} {a : α} {i : Nat}

/-- Every element is in its own row. -/
def Placed (place : α → Nat) (rows : List (List α)) : Prop :=
  ∀ i row, rows[i]? = some row → ∀ a ∈ row, place a = i

/-- Append an element to row `i`. -/
def push (rows : List (List α)) (i : Nat) (a : α) : List (List α) :=
  rows.modify i (· ++ [a])

/-- A pushed item makes no new row. -/
@[simp] theorem length_push : (push rows i a).length = rows.length :=
  List.length_modify _ _ _

/-- The rows have the pushed item and what they had. -/
theorem push_perm (hi : i < rows.length) : (push rows i a).flatten.Perm (a :: rows.flatten) := by
  induction rows generalizing i with
  | nil => simp at hi
  | cons r rest ih =>
      cases i with
      | zero =>
          simp only [push, List.modify_zero_cons, List.flatten_cons, List.append_assoc,
            List.singleton_append]
          exact List.perm_middle
      | succ i =>
          have := ih (i := i) (by simpa using hi)
          simp only [push, List.modify_succ_cons, List.flatten_cons] at this ⊢
          exact (this.append_left r).trans List.perm_middle

/-- Where every item is in its own row, a pushed one is too. -/
theorem Placed.push (h : Placed place rows) : Placed place (push rows (place a) a) := by
  intro i row hrow b hb
  rw [Buckets.push, List.getElem?_modify] at hrow
  obtain ⟨old, hold, heq⟩ := Option.map_eq_some_iff.mp hrow
  by_cases hi : place a = i
  · simp only [if_pos hi] at heq
    subst heq
    rcases List.mem_append.mp hb with hb' | hb'
    · exact h i old hold b hb'
    · rw [List.mem_singleton.mp hb', hi]
  · simp only [if_neg hi] at heq
    subst heq
    exact h i old hold b hb

/-- An element is somewhere exactly when it is in its own row. -/
theorem Placed.mem_flatten_iff (h : Placed place rows) (hrow : rows[place a]? = some row) :
    a ∈ rows.flatten ↔ a ∈ row := by
  rw [List.mem_flatten]
  constructor
  · rintro ⟨r, hr, ha⟩
    obtain ⟨i, hi⟩ := List.mem_iff_getElem?.mp hr
    obtain rfl := h i r hi a ha
    rw [hrow] at hi
    rwa [Option.some.inj hi]
  · intro ha
    exact ⟨row, List.mem_of_getElem? hrow, ha⟩

/-- Append each element to its row. -/
def distribute (place : α → Nat) (rows : List (List α)) (as : List α) : List (List α) :=
  as.foldl (fun rows a => push rows (place a) a) rows

/-- Distributing items makes no new row. -/
theorem length_distribute {as : List α} : (distribute place rows as).length = rows.length := by
  induction as generalizing rows with
  | nil => rfl
  | cons a as ih =>
      rw [distribute, List.foldl_cons]
      exact ih.trans length_push

/-- Distributed items are in their own rows. -/
theorem Placed.distribute {as : List α} (h : Placed place rows) :
    Placed place (distribute place rows as) := by
  induction as generalizing rows with
  | nil => exact h
  | cons a as ih => exact ih h.push

/-- The rows have the items that were distributed and what they had. -/
theorem distribute_perm {as : List α} (h : ∀ a ∈ as, place a < rows.length) :
    (distribute place rows as).flatten.Perm (as ++ rows.flatten) := by
  induction as generalizing rows with
  | nil => exact List.Perm.refl _
  | cons a as ih =>
      have hrest : (distribute place (Buckets.push rows (place a) a) as).flatten.Perm
          (as ++ (Buckets.push rows (place a) a).flatten) := by
        refine ih fun b hb => ?_
        rw [length_push]
        exact h b (List.mem_cons_of_mem _ hb)
      have hpush := push_perm (a := a) (h a List.mem_cons_self)
      exact (hrest.trans (hpush.append_left as)).trans List.perm_middle

/-- Two lists are distributed one after the other. -/
theorem distribute_append {as bs : List α} :
    distribute place rows (as ++ bs) = distribute place (distribute place rows as) bs :=
  List.foldl_append

/-- Empty rows hold nothing out of place. -/
theorem placed_replicate {n : Nat} : Placed place (List.replicate n ([] : List α)) := by
  intro i row hrow a ha
  rw [List.getElem?_replicate] at hrow
  split at hrow
  · cases hrow
    cases ha
  · cases hrow

end Buckets
