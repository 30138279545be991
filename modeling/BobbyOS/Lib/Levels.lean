import Mathlib.Data.List.Nodup
import Mathlib.Data.List.Palindrome

/-!
# Lists in levels

Lists are kept in numbered levels, and some levels are moved behind level 0, one
after the other.

* `raiseAll_spec`: what this leaves in every level;
* `inOrder_raiseAll_iff`: when elements that are moved last first are still in
  their order.
-/

namespace Levels

variable {α : Type*} {f : α → α} {g : List α → List α} {levels : Nat → List α} {is : List Nat}
  {i j : Nat}

/-- Level `i` goes behind level 0, as `g` arranges it. -/
def raise (g : List α → List α) (levels : Nat → List α) (i : Nat) : Nat → List α :=
  Function.update (Function.update levels 0 (levels 0 ++ g (levels i))) i []

/-- Some levels, one after the other. -/
def raiseAll (g : List α → List α) (levels : Nat → List α) (is : List Nat) : Nat → List α :=
  is.foldl (raise g) levels

/-- Level 0 stays ahead, the other levels follow one after the other, each in its own order
and with all elements changed by `f`, and these levels are empty. -/
structure InOrder (f : α → α) (is : List Nat) (before after : Nat → List α) : Prop where
  first : after 0 = before 0 ++ is.flatMap fun i => (before i).map f
  empty : ∀ i ∈ is, after i = []
  others : ∀ i, i ≠ 0 → i ∉ is → after i = before i

/-- The lowest level gets what another one had, behind its own. -/
theorem raise_zero (hi : i ≠ 0) : raise g levels i 0 = levels 0 ++ g (levels i) := by
  rw [raise, Function.update_of_ne (Ne.symm hi), Function.update_self]

/-- The raised level is empty. -/
theorem raise_self : raise g levels i i = [] := Function.update_self i _ _

/-- The other levels stay. -/
theorem raise_of_ne (hj : j ≠ 0) (hji : j ≠ i) : raise g levels i j = levels j := by
  rw [raise, Function.update_of_ne hji, Function.update_of_ne hj]

/-- **Levels.**  The levels that are moved stand behind level 0 and are empty themselves; all
others stay as they are. -/
theorem raiseAll_spec (g : List α → List α) (levels : Nat → List α) (h0 : 0 ∉ is)
    (hnodup : is.Nodup) :
    (raiseAll g levels is 0 = levels 0 ++ is.flatMap fun i => g (levels i)) ∧
      (∀ i ∈ is, raiseAll g levels is i = []) ∧
      ∀ i, i ≠ 0 → i ∉ is → raiseAll g levels is i = levels i := by
  induction is generalizing levels with
  | nil => exact ⟨(List.append_nil _).symm, fun i hi => absurd hi List.not_mem_nil,
      fun i _ _ => rfl⟩
  | cons k is ih =>
      obtain ⟨hk, h0'⟩ := not_or.mp fun h => h0 (List.mem_cons.mpr h)
      obtain ⟨hfresh, hnodup'⟩ := List.nodup_cons.mp hnodup
      obtain ⟨hfirst, hempty, hothers⟩ := ih (raise g levels k) h0' hnodup'
      have hlater (i : Nat) (hi : i ∈ is) : raise g levels k i = levels i := by
        refine raise_of_ne ?_ ?_
        · intro h
          exact h0' (h ▸ hi)
        · intro h
          exact hfresh (h ▸ hi)
      refine ⟨?_, fun i hi => ?_, fun i hi hout => ?_⟩
      · show raiseAll g (raise g levels k) is 0 = _
        rw [hfirst, raise_zero (Ne.symm hk), List.append_assoc, List.flatMap_cons]
        congr 2
        exact List.flatMap_congr fun i hi => by rw [hlater i hi]
      · show raiseAll g (raise g levels k) is i = []
        rcases List.mem_cons.mp hi with rfl | hi
        · rw [hothers i (Ne.symm hk) hfresh, raise_self]
        · exact hempty i hi
      · show raiseAll g (raise g levels k) is i = levels i
        obtain ⟨hne, hout'⟩ := not_or.mp fun h => hout (List.mem_cons.mpr h)
        rw [hothers i hi hout', raise_of_ne hi hne]

/-- Pieces of the same lengths make the same list only if they are the same. -/
theorem flatMap_eq_iff {β : Type*} {g g' : β → List α} {bs : List β}
    (hlen : ∀ b ∈ bs, (g b).length = (g' b).length) :
    bs.flatMap g = bs.flatMap g' ↔ ∀ b ∈ bs, g b = g' b := by
  induction bs with
  | nil => exact iff_of_true rfl fun b hb => absurd hb List.not_mem_nil
  | cons b bs ih =>
      rw [List.flatMap_cons, List.flatMap_cons, List.forall_mem_cons,
        ← ih fun c hc => hlen c (List.mem_cons_of_mem b hc)]
      constructor
      · intro h
        exact List.append_inj h (hlen b List.mem_cons_self)
      · intro ⟨hhead, htail⟩
        rw [hhead, htail]

/-- **Order.**  Levels that are moved last element first keep their order exactly if each of
them, once changed, reads the same backwards. -/
theorem inOrder_raiseAll_iff (h0 : 0 ∉ is) (hnodup : is.Nodup) :
    InOrder f is levels (raiseAll (fun l => l.reverse.map f) levels is) ↔
      ∀ i ∈ is, ((levels i).map f).Palindrome := by
  obtain ⟨hfirst, hempty, hothers⟩ :=
    raiseAll_spec (fun l => l.reverse.map f) levels h0 hnodup
  have hpieces : (∀ i ∈ is, (levels i).reverse.map f = (levels i).map f) ↔
      ∀ i ∈ is, ((levels i).map f).Palindrome := by
    refine forall₂_congr fun i _ => ?_
    rw [List.Palindrome.iff_reverse_eq, List.map_reverse]
  have hlen (i : Nat) (_ : i ∈ is) :
      ((levels i).reverse.map f).length = ((levels i).map f).length := by
    rw [List.length_map, List.length_map, List.length_reverse]
  rw [← hpieces, ← flatMap_eq_iff hlen]
  constructor
  · intro h
    exact List.append_cancel_left (hfirst.symm.trans h.first)
  · intro h
    exact ⟨by rw [hfirst, h], hempty, hothers⟩

/-- A list of different elements reads the same backwards only if it has at most one. -/
theorem palindrome_iff_of_nodup {l : List α} (h : l.Nodup) : l.Palindrome ↔ l.length ≤ 1 := by
  constructor
  · intro hpal
    cases hpal with
    | nil => exact Nat.zero_le 1
    | singleton x => exact Nat.le_refl 1
    | cons_concat x hpal => simp at h
  · intro hlen
    match l, hlen with
    | [], _ => exact .nil
    | [x], _ => exact .singleton x

end Levels
