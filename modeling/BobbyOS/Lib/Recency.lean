import Mathlib.Data.List.Basic
import Mathlib.Data.List.Nodup

/-!
# Keys in the order of their last touch

A log says which keys were touched, the newest first.  A list of keys follows it if
every key has been touched, and the ones in front were touched later.

* `Ordered.touch`: a touched key goes to the front.
* `Ordered.last`: the last key is the one that was not touched for the longest time.
-/

namespace Recency

variable {α : Type*} [DecidableEq α] {log keys keys' : List α} {k e : α}

/-- The keys, from the most to the least recently touched. -/
structure Ordered (log keys : List α) : Prop where
  touched : ∀ k ∈ keys, k ∈ log
  sorted : keys.Pairwise fun a b => log.idxOf a < log.idxOf b

/-- No other of the keys was left alone for longer than `e`. -/
def Least (log keys : List α) (e : α) : Prop :=
  e ∈ keys ∧ ∀ k ∈ keys, log.idxOf k ≤ log.idxOf e

/-- No keys are in order. -/
theorem ordered_nil : Ordered log [] := ⟨fun _ hk => absurd hk List.not_mem_nil, List.Pairwise.nil⟩

/-- Keys in order of their last use are different. -/
theorem Ordered.nodup (h : Ordered log keys) : keys.Nodup :=
  h.sorted.imp fun hlt heq => by
    rw [heq] at hlt
    exact Nat.lt_irrefl _ hlt

/-- Some of them are in order, too. -/
theorem Ordered.sublist (h : Ordered log keys) (hsub : keys'.Sublist keys) : Ordered log keys' :=
  ⟨fun k hk => h.touched k (hsub.subset hk), h.sorted.sublist hsub⟩

/-- A key that was not there comes to the front. -/
theorem Ordered.enter (h : Ordered log keys) (hk : k ∉ keys) : Ordered (k :: log) (k :: keys) := by
  have hidx : ∀ a ∈ keys, (k :: log).idxOf a = log.idxOf a + 1 := fun a ha =>
    List.idxOf_cons_ne _ fun heq => hk (heq ▸ ha)
  refine ⟨fun a ha => ?_, List.pairwise_cons.mpr ⟨fun b hb => ?_, ?_⟩⟩
  · rcases List.mem_cons.mp ha with rfl | ha
    · exact List.mem_cons_self
    · exact List.mem_cons_of_mem _ (h.touched a ha)
  · rw [List.idxOf_cons_self, hidx b hb]
    exact Nat.succ_pos _
  · refine h.sorted.imp_of_mem fun ha hb hlt => ?_
    rw [hidx _ ha, hidx _ hb]
    exact Nat.succ_lt_succ hlt

/-- **A touched key** is at the front, and the others stay in order. -/
theorem Ordered.touch (h : Ordered log keys) (k : α) :
    Ordered (k :: log) (k :: keys.filter (· ≠ k)) :=
  (h.sublist List.filter_sublist).enter fun hk => by simpa using List.of_mem_filter hk

/-- **The last key** is the one to evict. -/
theorem Ordered.last (h : Ordered log (keys ++ [e])) : Least log (keys ++ [e]) e := by
  refine ⟨List.mem_append_right _ List.mem_cons_self, fun k hk => ?_⟩
  rcases List.mem_append.mp hk with hk | hk
  · have := (List.pairwise_append.mp h.sorted).2.2 k hk e List.mem_cons_self
    exact Nat.le_of_lt this
  · exact Nat.le_of_eq (by rw [List.mem_singleton.mp hk])

end Recency
