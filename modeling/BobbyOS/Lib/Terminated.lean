import Mathlib.Data.Nat.Notation

/-!
# Sequences that end at a mark

A sequence is read element by element, from a place that may not be there, up to an
element that marks its end.  Two ways of reading have the same sequence exactly when
they agree up to the mark.
-/

namespace Terminated

variable {β : Type*} {stop : β} {read read' : ℕ → Option β} {l : List β}

/-- The elements `l` are read one after the other, none of them the mark, and then
the mark. -/
def Reads (stop : β) : (ℕ → Option β) → List β → Prop
  | read, [] => read 0 = some stop
  | read, b :: rest => read 0 = some b ∧ b ≠ stop ∧ Reads stop (fun i => read (i + 1)) rest

/-- There is something to read. -/
theorem Reads.first (h : Reads stop read l) : ∃ b, read 0 = some b := by
  cases l with
  | nil => exact ⟨stop, h⟩
  | cons b rest => exact ⟨b, h.1⟩

/-- **Agreement.**  Another way of reading has the same sequence exactly when it agrees
up to the mark. -/
theorem Reads.iff_agree (h : Reads stop read l) :
    Reads stop read' l ↔ ∀ i < l.length + 1, read' i = read i := by
  induction l generalizing read read' with
  | nil =>
      have hstop : read 0 = some stop := h
      rw [Nat.forall_lt_succ_left, hstop]
      exact (and_iff_left fun i hi => absurd hi (Nat.not_lt_zero i)).symm
  | cons b rest ih =>
      obtain ⟨h0, hb, hrest⟩ := h
      rw [List.length_cons, Nat.forall_lt_succ_left, ← ih hrest, h0]
      exact and_congr_right fun _ => and_iff_right hb

end Terminated
