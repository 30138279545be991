import Mathlib.Data.List.Nodup
import Mathlib.Data.List.Perm.Lattice

/-!
# Resources and their holders

A pool knows which resources are taken, and holders keep lists of what they
hold.  The ledger is sound when nothing is held twice and everything held is
taken, and complete when nothing is taken that nobody holds.

A transfer takes fresh resources from the pool, gives some back, and replaces
what one group of holders has; the balance says where the resources went.  It
keeps the ledger sound, and it keeps the ledger complete exactly when nothing
leaked.
-/

namespace Ledger

variable {α : Type*} {taken taken' : α → Prop}
  {held held' rest old new acquired released leaked : List α}

/-- Nothing is held twice, and what is held is taken. -/
structure Sound (taken : α → Prop) (held : List α) : Prop where
  nodup : held.Nodup
  taken : ∀ a ∈ held, taken a

/-- What is taken is held. -/
def Complete (taken : α → Prop) (held : List α) : Prop := ∀ a, taken a → a ∈ held

/-- The order of what is held does not matter. -/
theorem Sound.perm (h : Sound taken held) (hp : held.Perm held') : Sound taken held' :=
  ⟨hp.nodup_iff.mp h.nodup, fun a ha => h.taken a (hp.mem_iff.mpr ha)⟩

/-- Nor does it for what is accounted for. -/
theorem Complete.perm (h : Complete taken held) (hp : held.Perm held') : Complete taken held' :=
  fun a ha => hp.mem_iff.mp (h a ha)

/-- Forgetting a holder. -/
theorem Sound.right (h : Sound taken (old ++ rest)) : Sound taken rest :=
  ⟨(List.nodup_append.mp h.nodup).2.1, fun a ha => h.taken a (List.mem_append_right _ ha)⟩

/-- `old` becomes `new`, with fresh resources from the pool and others given
back; `leaked` is lost on the way. -/
structure Transfer (taken taken' : α → Prop) (old new acquired released leaked : List α) :
    Prop where
  nodup : acquired.Nodup
  fresh : ∀ a ∈ acquired, ¬ taken a
  taken : ∀ a, taken' a ↔ (taken a ∨ a ∈ acquired) ∧ a ∉ released
  balance : (new ++ (released ++ leaked)).Perm (acquired ++ old)

/-- What goes to nobody goes back. -/
theorem Transfer.restored (h : Transfer taken taken' [] [] acquired released []) (a : α) :
    taken' a ↔ taken a := by
  have hbalance := h.balance.mem_iff (a := a)
  rw [List.nil_append, List.append_nil, List.append_nil] at hbalance
  rw [h.taken, hbalance]
  constructor
  · rintro ⟨htaken | hfresh, hkept⟩
    · exact htaken
    · exact absurd hfresh hkept
  · intro htaken
    exact ⟨Or.inl htaken, fun hfresh => h.fresh a hfresh htaken⟩

/-- What leaked counts as one more holder. -/
theorem Sound.transfer_leaked (h : Sound taken (old ++ rest))
    (ht : Transfer taken taken' old new acquired released leaked) :
    Sound taken' (leaked ++ (new ++ rest)) := by
  -- everything in use while the transfer goes on
  have hall : Sound (fun a => taken a ∨ a ∈ acquired) (acquired ++ (old ++ rest)) := by
    refine ⟨List.nodup_append.mpr ⟨ht.nodup, h.nodup, ?_⟩, fun a ha => ?_⟩
    · rintro a ha b hb rfl
      exact ht.fresh a ha (h.taken a hb)
    · rcases List.mem_append.mp ha with ha' | ha'
      · exact Or.inr ha'
      · exact Or.inl (h.taken a ha')
  have hperm : (acquired ++ (old ++ rest)).Perm (released ++ (leaked ++ (new ++ rest))) := by
    have h1 : (acquired ++ (old ++ rest)).Perm (new ++ (released ++ (leaked ++ rest))) := by
      have := ht.balance.symm.append_right rest
      rwa [List.append_assoc, List.append_assoc, List.append_assoc] at this
    have h2 : (new ++ (released ++ (leaked ++ rest))).Perm
        (released ++ (new ++ (leaked ++ rest))) := List.perm_append_comm_assoc _ _ _
    have h3 : (new ++ (leaked ++ rest)).Perm (leaked ++ (new ++ rest)) :=
      List.perm_append_comm_assoc _ _ _
    exact h1.trans (h2.trans (h3.append_left released))
  have hall' := hall.perm hperm
  refine ⟨hall'.right.nodup, fun a ha => (ht.taken a).mpr ⟨hall'.right.taken a ha, ?_⟩⟩
  intro hrel
  exact (List.nodup_append.mp hall'.nodup).2.2 a hrel a ha rfl

/-- **Transfer.**  A balanced exchange by one holder keeps the account sound. -/
theorem Sound.transfer (h : Sound taken (old ++ rest))
    (ht : Transfer taken taken' old new acquired released leaked) : Sound taken' (new ++ rest) :=
  (h.transfer_leaked ht).right

/-- What is held before and after does not count. -/
theorem transfer_cancel :
    Transfer taken taken' (held ++ old) (held ++ new) acquired released leaked ↔
      Transfer taken taken' old new acquired released leaked := by
  have hbalance : (held ++ new ++ (released ++ leaked)).Perm (acquired ++ (held ++ old)) ↔
      (new ++ (released ++ leaked)).Perm (acquired ++ old) := by
    have h1 := List.perm_append_comm_assoc acquired held old
    rw [List.append_assoc]
    exact ⟨fun h => (List.perm_append_left_iff held).mp (h.trans h1),
      fun h => ((List.perm_append_left_iff held).mpr h).trans h1.symm⟩
  exact ⟨fun h => ⟨h.nodup, h.fresh, h.taken, hbalance.mp h.balance⟩,
    fun h => ⟨h.nodup, h.fresh, h.taken, hbalance.mpr h.balance⟩⟩

/-- Giving resources back after a transfer. -/
theorem Transfer.give_back {taken'' : α → Prop} {dropped : List α}
    (h : Transfer taken taken' old new acquired released leaked)
    (htaken : ∀ a, taken'' a ↔ taken' a ∧ a ∉ dropped) :
    Transfer taken taken'' (dropped ++ old) new acquired (released ++ dropped) leaked := by
  refine ⟨h.nodup, h.fresh, fun a => ?_, ?_⟩
  · rw [htaken, h.taken, List.mem_append, not_or, and_assoc]
  · have h1 : (new ++ (released ++ dropped ++ leaked)).Perm
        (dropped ++ (new ++ (released ++ leaked))) := by
      rw [List.append_assoc]
      have h2 := (List.perm_append_comm_assoc released dropped leaked).append_left new
      exact h2.trans (List.perm_append_comm_assoc _ _ _)
    exact h1.trans ((h.balance.append_left _).trans (List.perm_append_comm_assoc _ _ _))

/-- **Transfer.**  The ledger stays complete exactly when nothing leaks. -/
theorem Complete.transfer_iff (h : Complete taken (old ++ rest)) (hs : Sound taken (old ++ rest))
    (ht : Transfer taken taken' old new acquired released leaked) :
    Complete taken' (new ++ rest) ↔ leaked = [] := by
  constructor
  · intro hcomplete
    by_contra hne
    obtain ⟨a, ha⟩ := List.exists_mem_of_ne_nil _ hne
    have hs' := hs.transfer_leaked ht
    have hmem := hcomplete a (hs'.taken a (List.mem_append_left _ ha))
    exact (List.nodup_append.mp hs'.nodup).2.2 a ha a hmem rfl
  · rintro rfl a ha
    obtain ⟨hin, hout⟩ := (ht.taken a).mp ha
    have hbalance := ht.balance.mem_iff (a := a)
    simp only [List.append_nil, List.mem_append] at hbalance
    rcases hin with hin | hin
    · rcases List.mem_append.mp (h a hin) with hold | hrest
      · rcases hbalance.mpr (Or.inr hold) with hnew | hrel
        · exact List.mem_append_left _ hnew
        · exact absurd hrel hout
      · exact List.mem_append_right _ hrest
    · rcases hbalance.mpr (Or.inl hin) with hnew | hrel
      · exact List.mem_append_left _ hnew
      · exact absurd hrel hout

end Ledger
