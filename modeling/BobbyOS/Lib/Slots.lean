import Mathlib.Data.List.ReduceOption
import Mathlib.Logic.Function.Basic

/-!
# Tables of slots

A table has slots that are empty or hold an element.  `reduceOption` lists the
elements; filling, changing and emptying one slot changes that list, up to
order, by one element.
-/

namespace Slots

variable {α : Type*} {l : List (Option α)} {i : Nat} {a : α}

/-- What is in the slots after one is set: those before it, it, and those behind it. -/
theorem reduceOption_set (h : i < l.length) (x : Option α) :
    (l.set i x).reduceOption = (l.take i).reduceOption ++ ([x].reduceOption ++
      (l.drop (i + 1)).reduceOption) := by
  rw [List.set_eq_take_append_cons_drop, if_pos h, List.reduceOption_append,
    ← List.reduceOption_append [x], List.singleton_append]

/-- A slot set to what it holds. -/
theorem set_self {x : Option α} (h : l[i]? = some x) : l.set i x = l := by
  obtain ⟨hi, rfl⟩ := List.getElem?_eq_some_iff.mp h
  exact List.set_getElem_self hi

/-- What a changed table has in a slot. -/
theorem of_getElem?_set {x y : Option α} {j : Nat} (h : (l.set i x)[j]? = some y) :
    (j = i ∧ y = x) ∨ (j ≠ i ∧ l[j]? = some y) := by
  by_cases hij : j = i
  · subst hij
    have hlt := List.getElem?_eq_some_iff.mp h |>.1
    rw [List.length_set] at hlt
    rw [List.getElem?_set_self hlt] at h
    exact Or.inl ⟨rfl, (Option.some.inj h).symm⟩
  · rw [List.getElem?_set_ne (Ne.symm hij)] at h
    exact Or.inr ⟨hij, h⟩

/-- The elements besides the one in slot `i`. -/
def others (l : List (Option α)) (i : Nat) : List α :=
  (l.take i).reduceOption ++ (l.drop (i + 1)).reduceOption

/-- The other slots do not see it. -/
theorem others_set_self (x : Option α) : others (l.set i x) i = others l i := by
  rw [others, others, List.take_set_of_le (Nat.le_refl _), List.drop_set_of_lt (Nat.lt_succ_self _)]

/-- Changing a slot. -/
theorem set_some_perm (h : i < l.length) (b : α) :
    (l.set i (some b)).reduceOption.Perm (b :: others l i) := by
  rw [reduceOption_set h, List.reduceOption_singleton, Option.toList_some, List.singleton_append]
  exact List.perm_middle

/-- Emptying a slot. -/
theorem set_none (h : i < l.length) : (l.set i none).reduceOption = others l i := by
  rw [reduceOption_set h, List.reduceOption_singleton, Option.toList_none, List.nil_append, others]

/-- What is there has an index within the slots. -/
theorem lt_of_getElem? {x : Option α} (h : l[i]? = some x) : i < l.length :=
  (List.getElem?_eq_some_iff.mp h).1

/-- A filled slot. -/
theorem perm_of_some (h : l[i]? = some (some a)) : l.reduceOption.Perm (a :: others l i) := by
  have := set_some_perm (lt_of_getElem? h) a
  rwa [set_self h] at this

/-- An empty slot. -/
theorem eq_of_none (h : l[i]? = some none) : l.reduceOption = others l i := by
  rw [← set_none (lt_of_getElem? h), set_self h]

/-- Dropping a filled last slot. -/
theorem dropLast_perm (h : l[i]? = some (some a)) (hi : i = l.length - 1) :
    l.dropLast.reduceOption.Perm (others l i) := by
  have hlt := lt_of_getElem? h
  have hdrop : l.drop (i + 1) = [] := List.drop_eq_nil_of_le (by omega)
  rw [others, hdrop, List.reduceOption_nil, List.append_nil, List.dropLast_eq_take, hi]

/-- Changing one filled slot and emptying another. -/
theorem others_set_perm {j : Nat} {b c : α} {rest : List α} (hne : i ≠ j)
    (hi : l[i]? = some (some a)) (hj : l[j]? = some (some b))
    (hl : l.reduceOption.Perm (b :: a :: rest)) : (others (l.set i (some c)) j).Perm (c :: rest) := by
  have hothers : (others l i).Perm (b :: rest) := by
    have h1 := (perm_of_some hi).symm.trans hl
    exact (h1.trans (List.Perm.swap a b rest)).cons_inv
  have hj' : (l.set i (some c))[j]? = some (some b) := by
    rw [List.getElem?_set_ne hne]
    exact hj
  have h2 := (perm_of_some hj').symm.trans (set_some_perm (lt_of_getElem? hi) c)
  exact (h2.trans ((hothers.cons c).trans (List.Perm.swap b c rest))).cons_inv

/-- An item in the slots is in one of them. -/
theorem mem_reduceOption : a ∈ l.reduceOption ↔ ∃ i : Nat, l[i]? = some (some a) := by
  rw [List.reduceOption_mem_iff, List.mem_iff_getElem?]

/-! ### The table as a map -/

/-- The element in slot `i`, if there is one. -/
def get (l : List (Option α)) (i : Nat) : Option α := l[i]?.join

/-- An item at an index is in that slot. -/
theorem get_eq_some : get l i = some a ↔ l[i]? = some (some a) := by
  simp [get, Option.join_eq_some_iff]

/-- A set slot, as an update. -/
theorem get_set (h : i < l.length) (x : Option α) :
    get (l.set i x) = Function.update (get l) i x := by
  funext j
  by_cases hj : j = i
  · subst hj
    rw [Function.update_self, get, List.getElem?_set_self h, Option.join_some]
  · rw [Function.update_of_ne hj, get, List.getElem?_set_ne (Ne.symm hj), get]

/-- A new slot, as an update. -/
theorem get_append (l : List (Option α)) (x : Option α) :
    get (l ++ [x]) = Function.update (get l) l.length x := by
  funext j
  rcases Nat.lt_trichotomy j l.length with hlt | rfl | hgt
  · rw [Function.update_of_ne (by omega), get, List.getElem?_append_left hlt, get]
  · rw [Function.update_self, get, List.getElem?_concat_length, Option.join_some]
  · rw [Function.update_of_ne (by omega), get, get, List.getElem?_eq_none (by simp; omega),
      List.getElem?_eq_none (by omega)]

/-- A dropped last slot, as an update. -/
theorem get_dropLast (hi : i < l.length) (hlast : i = l.length - 1) :
    get l.dropLast = Function.update (get l) i none := by
  funext j
  rw [get, List.dropLast_eq_take, List.getElem?_take]
  by_cases hj : j = i
  · subst hj
    rw [Function.update_self, if_neg (by omega)]
    rfl
  · rw [Function.update_of_ne hj, get]
    split
    · rfl
    · rw [List.getElem?_eq_none (by omega)]

/-- Elements of different slots with different keys: the keys are listed once. -/
theorem nodup_map_reduceOption {β : Type*} (key : α → β)
    (h : ∀ (i j : Nat) (a b : α), l[i]? = some (some a) → l[j]? = some (some b) →
      key a = key b → i = j) : (l.reduceOption.map key).Nodup := by
  induction l with
  | nil => exact List.nodup_nil
  | cons x rest ih =>
      have hrest : (rest.reduceOption.map key).Nodup := by
        apply ih
        intro i j a b ha hb hab
        have := h (i + 1) (j + 1) a b (by simpa using ha) (by simpa using hb) hab
        omega
      cases x with
      | none => exact hrest
      | some a =>
          rw [List.reduceOption_cons_of_some, List.map_cons, List.nodup_cons]
          refine ⟨fun hmem => ?_, hrest⟩
          obtain ⟨b, hb, hkey⟩ := List.mem_map.mp hmem
          obtain ⟨j, hj⟩ := mem_reduceOption.mp hb
          have := h 0 (j + 1) a b rfl (by simpa using hj) hkey.symm
          omega

end Slots
