import Mathlib.Data.List.FinRange
import Mathlib.Data.List.Nodup
import Mathlib.Logic.Function.Basic

/-!
# Fully associative stores

A store is a row of entries.  An entry covers keys, and a key is looked up by the
first entry that covers it.  In a store where no two entries cover one key, an
entry may be replaced by one whose keys all missed before:

* `Unambiguous.replace`: still no two entries cover one key;
* `find_replace_covered`: a key of the new entry is found in it;
* `find_replace_other`: a key that it does not cover is found where it was, and
  `find_replace_lost`: or, when that was the replaced entry, no more.

`find?_of_nodup` is the look-up in a list whose elements have different keys.
-/

namespace Associative

variable {n : Nat} {ε κ : Type*} {covers : ε → κ → Bool} {t : Fin n → ε} {e : ε} {key : κ}
  {i r : Fin n}

/-- The first entry that covers the key. -/
def find (covers : ε → κ → Bool) (t : Fin n → ε) (key : κ) : Option (Fin n) :=
  (List.finRange n).find? fun i => covers (t i) key

/-- No two entries cover one key. -/
def Unambiguous (covers : ε → κ → Bool) (t : Fin n → ε) : Prop :=
  ∀ key i j, covers (t i) key = true → covers (t j) key = true → i = j

/-- Nothing is found exactly if no entry covers the key. -/
theorem find_eq_none : find covers t key = none ↔ ∀ i, covers (t i) key = false := by
  rw [find, List.find?_eq_none]
  constructor
  · intro h i
    exact Bool.eq_false_iff.mpr (h i (List.mem_finRange i))
  · intro h i _
    exact Bool.eq_false_iff.mp (h i)

/-- The entry that is found covers the key. -/
theorem covers_of_find (h : find covers t key = some i) : covers (t i) key = true := by
  have hcovers := List.find?_some h
  exact hcovers

/-- Where entries do not overlap, an entry that covers the key is the one found. -/
theorem Unambiguous.find_eq_some (h : Unambiguous covers t) :
    find covers t key = some i ↔ covers (t i) key = true := by
  refine ⟨covers_of_find, fun hi => ?_⟩
  cases hfind : find covers t key with
  | none =>
      rw [find_eq_none.mp hfind i] at hi
      cases hi
  | some j => rw [h key j i (covers_of_find hfind) hi]

/-- What an entry of the changed store covers. -/
theorem covers_replace (j : Fin n) :
    covers (Function.update t r e j) key = true ↔
      (j = r ∧ covers e key = true) ∨ (j ≠ r ∧ covers (t j) key = true) := by
  by_cases hj : j = r
  · subst hj
    simp
  · simp [hj]

/-- **Replacing.**  The keys of the new entry missed: entries still do not overlap. -/
theorem Unambiguous.replace (h : Unambiguous covers t)
    (hmiss : ∀ key, covers e key = true → find covers t key = none) :
    Unambiguous covers (Function.update t r e) := by
  intro key i j hi hj
  rcases (covers_replace i).mp hi with ⟨rfl, hei⟩ | ⟨-, hti⟩
  · rcases (covers_replace j).mp hj with ⟨rfl, -⟩ | ⟨-, htj⟩
    · rfl
    · rw [find_eq_none.mp (hmiss key hei) j] at htj
      cases htj
  · rcases (covers_replace j).mp hj with ⟨-, hej⟩ | ⟨-, htj⟩
    · rw [find_eq_none.mp (hmiss key hej) i] at hti
      cases hti
    · exact h key i j hti htj

/-- A key that missed and that the new entry covers. -/
theorem find_replace_covered (hmiss : find covers t key = none) (he : covers e key = true) :
    find covers (Function.update t r e) key = some r := by
  cases hfind : find covers (Function.update t r e) key with
  | none =>
      have hno := find_eq_none.mp hfind r
      rw [Function.update_self, he] at hno
      cases hno
  | some i =>
      rcases (covers_replace i).mp (covers_of_find hfind) with ⟨rfl, -⟩ | ⟨-, hti⟩
      · rfl
      · rw [find_eq_none.mp hmiss i] at hti
        cases hti

/-- A key that the new entry does not cover and the replaced entry did not serve. -/
theorem find_replace_other (h : Unambiguous covers t) (he : covers e key = false)
    (hr : find covers t key ≠ some r) :
    find covers (Function.update t r e) key = find covers t key := by
  have hold : covers (t r) key = false := by
    rw [Bool.eq_false_iff]
    exact fun hcovers => hr (h.find_eq_some.mpr hcovers)
  have hsame : ∀ i, covers (Function.update t r e i) key = covers (t i) key := by
    intro i
    by_cases hi : i = r
    · rw [hi, Function.update_self, he, hold]
    · rw [Function.update_of_ne hi]
  rw [find, find]
  simp only [hsame]

/-- A key that the replaced entry served and the new entry does not cover. -/
theorem find_replace_lost (h : Unambiguous covers t) (he : covers e key = false)
    (hr : find covers t key = some r) : find covers (Function.update t r e) key = none := by
  refine find_eq_none.mpr fun i => ?_
  by_cases hi : i = r
  · rw [hi, Function.update_self, he]
  · rw [Function.update_of_ne hi, Bool.eq_false_iff]
    exact fun hcovers => hi (h key i r hcovers (covers_of_find hr))

/-! ### Lists with different keys -/

section

variable {α : Type*} [DecidableEq κ] {keyOf : α → κ} {l : List α} {a : α}

/-- Where the keys differ, an element is the one found for its key. -/
theorem find?_of_nodup (h : (l.map keyOf).Nodup) (ha : a ∈ l) :
    l.find? (keyOf · = keyOf a) = some a := by
  obtain ⟨b, hfind⟩ : ∃ b, l.find? (keyOf · = keyOf a) = some b :=
    Option.isSome_iff_exists.mp (List.find?_isSome.mpr ⟨a, ha, decide_eq_true rfl⟩)
  have hkey : keyOf b = keyOf a := by simpa using List.find?_some hfind
  rw [hfind, List.inj_on_of_nodup_map h (List.mem_of_find?_eq_some hfind) ha hkey]

/-- An element and those with other keys are all. -/
theorem cons_filter_perm (h : (l.map keyOf).Nodup) (ha : a ∈ l) :
    (a :: l.filter (keyOf · ≠ keyOf a)).Perm l := by
  induction l with
  | nil => cases ha
  | cons b l ih =>
      rw [List.map_cons, List.nodup_cons] at h
      rcases List.mem_cons.mp ha with rfl | ha
      · have hother : ∀ c ∈ l, keyOf c ≠ keyOf a := by
          intro c hc heq
          exact h.1 (heq ▸ List.mem_map_of_mem hc)
        rw [List.filter_cons_of_neg (by simp), List.filter_eq_self.mpr (by simpa using hother)]
      · have hb : keyOf b ≠ keyOf a := by
          intro heq
          exact h.1 (heq ▸ List.mem_map_of_mem ha)
        rw [List.filter_cons_of_pos (by simpa using hb)]
        exact (List.Perm.swap b a _).trans ((ih h.2 ha).cons b)

end

end Associative
