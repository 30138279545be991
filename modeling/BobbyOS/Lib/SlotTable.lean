import BobbyOS.Lib.Slots
import Mathlib.Logic.Relation

/-!
# Tables with a stack of free slots

A table keeps its elements in numbered slots and the numbers of its empty slots
on a stack.  A new element takes the slot on top of the stack, or a new slot at
the end when the stack is empty; an element that leaves the last slot takes the
slot with it, and any other leaves its number on the stack.

`Exact` says that the stack lists the empty slots, each once.  Every step keeps
it: the last slot can only go while it is occupied, so no number on the stack
ever points past the end.
-/

namespace SlotTable

/-- The slots, and the stack of free numbers with its top at the end. -/
structure Table (α : Type*) where
  slots : List (Option α)
  free : List Nat

variable {α : Type*} {t t' : Table α} {i : Nat} {a b : α}

/-- One step of a table. -/
inductive Step : Table α → Table α → Prop
  | append {slots : List (Option α)} (a : α) : Step ⟨slots, []⟩ ⟨slots ++ [some a], []⟩
  | fill {slots : List (Option α)} {free : List Nat} (i : Nat) (a : α)
      (hempty : slots[i]? = some none) : Step ⟨slots, free ++ [i]⟩ ⟨slots.set i (some a), free⟩
  | update {slots : List (Option α)} {free : List Nat} (i : Nat) (a b : α)
      (hold : slots[i]? = some (some a)) : Step ⟨slots, free⟩ ⟨slots.set i (some b), free⟩
  | drop {slots : List (Option α)} {free : List Nat} (i : Nat) (a : α)
      (hold : slots[i]? = some (some a)) (hlast : i = slots.length - 1) :
      Step ⟨slots, free⟩ ⟨slots.dropLast, free⟩
  | empty {slots : List (Option α)} {free : List Nat} (i : Nat) (a : α)
      (hold : slots[i]? = some (some a)) : Step ⟨slots, free⟩ ⟨slots.set i none, free ++ [i]⟩

/-- Any number of steps. -/
def Steps : Table α → Table α → Prop := Relation.ReflTransGen Step

/-- No step. -/
theorem Steps.refl (t : Table α) : Steps t t := Relation.ReflTransGen.refl

/-- One step. -/
theorem Steps.of_step (h : Step t t') : Steps t t' := Relation.ReflTransGen.single h

/-- Steps one after the other. -/
theorem Steps.trans {t'' : Table α} (h : Steps t t') (h' : Steps t' t'') : Steps t t'' :=
  Relation.ReflTransGen.trans h h'

/-- The stack lists exactly the empty slots, each once. -/
structure Exact (t : Table α) : Prop where
  nodup : t.free.Nodup
  mem_iff : ∀ i, i ∈ t.free ↔ t.slots[i]? = some none

/-- A free number is below the number of slots. -/
theorem Exact.lt (h : Exact t) (hi : i ∈ t.free) : i < t.slots.length :=
  Slots.lt_of_getElem? ((h.mem_iff i).mp hi)

/-- Dropping a slot that is taken drops no free one. -/
theorem getElem?_dropLast_iff {slots : List (Option α)} (hold : slots[i]? = some (some a))
    (hlast : i = slots.length - 1) (j : Nat) :
    slots.dropLast[j]? = some none ↔ slots[j]? = some none := by
  rw [List.dropLast_eq_take, List.getElem?_take]
  split
  · rfl
  · constructor
    · intro h
      cases h
    · intro hj
      have hlt := Slots.lt_of_getElem? hj
      have hji : j = i := by omega
      rw [hji, hold] at hj
      cases hj

/-- **Step.**  Every step keeps the stack exact. -/
theorem Exact.step (h : Exact t) (hstep : Step t t') : Exact t' := by
  obtain ⟨hnodup, hmem⟩ := h
  cases hstep with
  | append a =>
      refine ⟨List.nodup_nil, fun j => ?_⟩
      have hj := hmem j
      constructor
      · intro hin
        cases hin
      · intro hnone
        rcases Nat.lt_or_ge j _ with hlt | hge
        · rw [List.getElem?_append_left hlt] at hnone
          exact hj.mpr hnone
        · rw [List.getElem?_append_right hge, List.getElem?_singleton] at hnone
          split at hnone <;> cases hnone
  | fill i a hempty =>
      have hparts := List.nodup_append.mp hnodup
      have hlt := Slots.lt_of_getElem? hempty
      refine ⟨hparts.1, fun j => ?_⟩
      have hj := hmem j
      simp only [List.mem_append, List.mem_singleton] at hj
      by_cases hji : j = i
      · subst hji
        constructor
        · intro hin
          exact absurd rfl (hparts.2.2 j hin j (List.mem_singleton_self j))
        · intro hnone
          rw [List.getElem?_set_self hlt] at hnone
          cases hnone
      · simp only [List.getElem?_set_ne (Ne.symm hji), ← hj, hji, or_false]
  | update i a b hold =>
      refine ⟨hnodup, fun j => ?_⟩
      by_cases hji : j = i
      · subst hji
        simp only [hmem j, hold, List.getElem?_set_self (Slots.lt_of_getElem? hold)]
        simp
      · simp only [hmem j, List.getElem?_set_ne (Ne.symm hji)]
  | drop i a hold hlast =>
      refine ⟨hnodup, fun j => ?_⟩
      exact (hmem j).trans (getElem?_dropLast_iff hold hlast j).symm
  | @empty slots free i a hold =>
      have hnot : i ∉ free := by
        intro hin
        have hnone := (hmem i).mp hin
        rw [hold] at hnone
        cases hnone
      refine ⟨List.nodup_append.mpr ⟨hnodup, by simp, ?_⟩, fun j => ?_⟩
      · intro x hx y hy hxy
        rw [hxy, List.mem_singleton.mp hy] at hx
        exact hnot hx
      · simp only [List.mem_append, List.mem_singleton]
        by_cases hji : j = i
        · subst hji
          simp only [List.getElem?_set_self (Slots.lt_of_getElem? hold), or_true]
        · simp only [List.getElem?_set_ne (Ne.symm hji), hji, or_false]
          exact hmem j

/-- **Run.** -/
theorem Exact.steps (h : Exact t) (hsteps : Steps t t') : Exact t' := by
  induction hsteps with
  | refl => exact h
  | tail _ hstep ih => exact ih.step hstep

end SlotTable
