import Mathlib.Logic.Function.Basic
import Mathlib.Data.List.Induction
import Mathlib.Data.List.Nodup

/-!
# Moving blocks one after the other

A memory of blocks is a function from block numbers to contents.  A move `(d, s)`
overwrites block `d` with block `s`, and a program is a list of moves.

A program that should copy several blocks at once, each to a target of its own,
is right when every block has the contents of the block it was meant to come
from.  Here the copies go from block to block and drag rows along: the three
blocks behind the source overwrite the three blocks behind the target.

* `run_row`: one row, which may overlap its own target;
* `run_brought`: what a row brings when the rows before it were right;
* `rows_right_iff`: all rows together are right exactly when each of them is
  harmless, which is a condition on single blocks.
-/

namespace BlockMoves

variable {ι α : Type*} [DecidableEq ι]

/-- Overwrite block `m.1` with block `m.2`. -/
def move (c : ι → α) (m : ι × ι) : ι → α := Function.update c m.1 (c m.2)

/-- The contents after a list of moves. -/
def run (ms : List (ι × ι)) (c : ι → α) : ι → α := ms.foldl move c

/-- The block that a simultaneous copy would put there. -/
def target (ms : List (ι × ι)) (g : ι) : ι := (ms.lookup g).getD g

@[simp] theorem run_nil (c : ι → α) : run [] c = c := rfl

@[simp] theorem run_cons (m : ι × ι) (ms : List (ι × ι)) (c : ι → α) :
    run (m :: ms) c = run ms (move c m) := rfl

/-- Two lists of moves run one after the other. -/
theorem run_append (ms ns : List (ι × ι)) (c : ι → α) : run (ms ++ ns) c = run ns (run ms c) :=
  List.foldl_append

/-- A block that no move overwrites keeps its contents. -/
theorem run_of_notMem {ms : List (ι × ι)} {g : ι} (c : ι → α) (h : g ∉ ms.map Prod.fst) :
    run ms c g = c g := by
  induction ms generalizing c with
  | nil => rfl
  | cons m ms ih =>
      rw [List.map_cons, List.mem_cons, not_or] at h
      rw [run_cons, ih _ h.2, move, Function.update_of_ne h.1]

/-- A block that no move overwrites. -/
theorem target_of_notMem {ms : List (ι × ι)} {g : ι} (h : g ∉ ms.map Prod.fst) :
    target ms g = g := by
  have hnone : ms.lookup g = none := by
    refine List.lookup_eq_none_iff.mpr fun p hp => ?_
    have hne : g ≠ p.1 := by
      rintro rfl
      exact h (List.mem_map_of_mem hp)
    simpa using hne
  rw [target, hnone]
  rfl

/-- The source of a block that is overwritten once. -/
theorem target_of_mem {ms : List (ι × ι)} (h : (ms.map Prod.fst).Nodup) {d s : ι}
    (hm : (d, s) ∈ ms) : target ms d = s := by
  induction ms with
  | nil => cases hm
  | cons m ms ih =>
      obtain ⟨d', s'⟩ := m
      rw [List.map_cons, List.nodup_cons] at h
      rcases List.mem_cons.mp hm with heq | hm'
      · obtain ⟨rfl, rfl⟩ := Prod.mk.inj heq
        rw [target, List.lookup_cons_self]
        rfl
      · have hne : d ≠ d' := by
          rintro rfl
          exact h.1 (List.mem_map.mpr ⟨(d, s), hm', rfl⟩)
        have hih := ih h.2 hm'
        rw [target] at hih ⊢
        rw [List.lookup_cons, beq_eq_false_iff_ne.mpr hne]
        exact hih

/-- **Copies.**  The copies have arrived and nothing else changed exactly when
every block has the contents of its target. -/
theorem copied_iff {ms : List (ι × ι)} (h : (ms.map Prod.fst).Nodup) {c c' : ι → α} :
    ((∀ m ∈ ms, c' m.1 = c m.2) ∧ ∀ g, g ∉ ms.map Prod.fst → c' g = c g) ↔
      ∀ g, c' g = c (target ms g) := by
  constructor
  · rintro ⟨hcopied, hothers⟩ g
    by_cases hg : g ∈ ms.map Prod.fst
    · obtain ⟨⟨d, s⟩, hm, rfl⟩ := List.mem_map.mp hg
      rw [target_of_mem h hm]
      exact hcopied _ hm
    · rw [target_of_notMem hg]
      exact hothers g hg
  · intro hall
    refine ⟨fun m hm => ?_, fun g hg => ?_⟩
    · rw [hall, target_of_mem h hm]
    · rw [hall, target_of_notMem hg]

/-- Moves into other blocks do not change what a simultaneous copy puts there. -/
theorem target_append {ms ns : List (ι × ι)} {g : ι} (h : g ∉ ns.map Prod.fst) :
    target (ms ++ ns) g = target ms g := by
  have hnone : ns.lookup g = none := by
    refine List.lookup_eq_none_iff.mpr fun p hp => ?_
    have hne : g ≠ p.1 := by
      rintro rfl
      exact h (List.mem_map_of_mem hp)
    simpa using hne
  rw [target, target, List.lookup_append, hnone, Option.or_none]

/-! ### Rows -/

section Rows

variable {c : ℕ → α} {n f p j g : ℕ}

/-- The moves of `n` blocks in a row. -/
def row : ℕ → ℕ → ℕ → List (ℕ × ℕ)
  | 0, _, _ => []
  | n + 1, f, p => (f, p) :: row n (f + 1) (p + 1)

/-- The block that a row from `p` on brings to the place `j` of its target.  When the target
starts inside of the row, the blocks before it come again and again. -/
def slide (f p j : ℕ) : ℕ := if p < f then p + j % (f - p) else p + j

/-- A row writes to its own blocks only. -/
theorem mem_row (h : g ∈ (row n f p).map Prod.fst) : f ≤ g ∧ g < f + n := by
  induction n generalizing f p with
  | zero => cases h
  | succ n ih =>
      rw [row, List.map_cons, List.mem_cons] at h
      rcases h with rfl | h
      · omega
      · have hbounds := ih h
        omega

/-- The first move of a row and the rest of it bring what the row brings. -/
theorem slide_succ (f p j : ℕ) :
    (if slide (f + 1) (p + 1) j = f then p else slide (f + 1) (p + 1) j) = slide f p (j + 1) := by
  unfold slide
  by_cases hlt : p < f
  · obtain ⟨d, rfl⟩ : ∃ d, f = p + d := ⟨f - p, by omega⟩
    have hsplit : (j + 1) % d = (j % d + 1) % d := by
      conv_lhs => rw [← Nat.mod_add_div j d]
      rw [Nat.add_right_comm, Nat.add_mul_mod_self_left]
    have hmod := Nat.mod_lt j (show 0 < d by omega)
    rw [if_pos (show p + 1 < p + d + 1 by omega), if_pos hlt, Nat.add_sub_add_right,
      Nat.add_sub_cancel_left, hsplit]
    generalize j % d = r at hmod
    by_cases hwrap : r + 1 = d
    · rw [if_pos (by omega), hwrap, Nat.mod_self, Nat.add_zero]
    · rw [if_neg (by omega), Nat.mod_eq_of_lt (by omega)]
      omega
  · rw [if_neg (show ¬ p + 1 < f + 1 by omega), if_neg hlt, if_neg (by omega)]
    omega

/-- **Rows.**  What one row leaves behind. -/
theorem run_row (n f p : ℕ) (c : ℕ → α) (g : ℕ) :
    run (row n f p) c g = if f ≤ g ∧ g < f + n then c (slide f p (g - f)) else c g := by
  induction n generalizing f p c with
  | zero => rw [row, run_nil, if_neg (by omega)]
  | succ n ih =>
      rw [row, run_cons, ih]
      by_cases hlater : f + 1 ≤ g ∧ g < f + 1 + n
      · obtain ⟨j, rfl⟩ : ∃ j, g = f + (j + 1) := ⟨g - (f + 1), by omega⟩
        have hj : f + (j + 1) - (f + 1) = j := by omega
        rw [if_pos hlater, if_pos (by omega), hj, Nat.add_sub_cancel_left, ← slide_succ, move,
          Function.update_apply]
        split <;> rfl
      · rw [if_neg hlater, move]
        by_cases hfirst : g = f
        · have hsource : slide f p (f - f) = p := by
            unfold slide
            split <;> simp
          rw [hfirst, Function.update_self, if_pos (by omega), hsource]
        · rw [Function.update_of_ne hfirst, if_neg (by omega)]

/-- A row never brings the first block of its own target. -/
theorem slide_ne (h : p ≠ f) : slide f p j ≠ f := by
  unfold slide
  split
  · have hmod := Nat.mod_lt j (show 0 < f - p by omega)
    omega
  · omega

/-- A row from behind its target brings the blocks as they come. -/
theorem slide_of_lt (hne : p ≠ f) (h : f < slide f p j) : f < p ∧ slide f p j = p + j := by
  unfold slide at h ⊢
  split at h
  · have hmod := Nat.mod_lt j (show 0 < f - p by omega)
    omega
  · rename_i hle
    rw [if_neg hle]
    exact ⟨by omega, rfl⟩

end Rows

/-! ### Copies that drag rows along -/

section Copies

variable {c : ℕ → α} {ms done rest : List (ℕ × ℕ)} {m last : ℕ × ℕ} {g j : ℕ}

/-- The moves of copies that take three more blocks along each. -/
def rows (ms : List (ℕ × ℕ)) : List (ℕ × ℕ) := ms.flatMap fun m => row 4 m.1 m.2

/-- The copies go to ascending blocks and come from none of them. -/
structure Ascending (ms : List (ℕ × ℕ)) : Prop where
  sorted : (ms.map Prod.fst).Pairwise (· < ·)
  apart : ∀ m ∈ ms, m.2 ∉ ms.map Prod.fst

/-- The block that the copy `m` brings to the place `j` behind its target, when the copies
`done` before it were right.  A block that the last of these has written behind its own
target, and that this copy is going to write again, is still what the last one brought. -/
def brought (done : List (ℕ × ℕ)) (m : ℕ × ℕ) (j : ℕ) : ℕ :=
  match done.getLast? with
  | none => slide m.1 m.2 j
  | some last =>
      if m.1 < slide m.1 m.2 j ∧ slide m.1 m.2 j < last.1 + 4 then
        target done.dropLast (slide last.1 last.2 (slide m.1 m.2 j - last.1))
      else target done (slide m.1 m.2 j)

/-- The copy `m` brings the block it should to its target, and to the blocks behind it,
up to the next target, what is there. -/
def Harmless (c : ℕ → α) (done : List (ℕ × ℕ)) (m : ℕ × ℕ) (rest : List (ℕ × ℕ)) : Prop :=
  c (brought done m 0) = c m.2 ∧
    ∀ j, 0 < j → j < 4 → (∀ m' ∈ rest, m.1 + j < m'.1) → c (brought done m j) = c (m.1 + j)

/-- The rows of two lists, one behind the other. -/
theorem rows_append (ms ns : List (ℕ × ℕ)) : rows (ms ++ ns) = rows ms ++ rows ns :=
  List.flatMap_append

/-- What the rows write is within four blocks of a start. -/
theorem mem_rows (h : g ∈ (rows ms).map Prod.fst) : ∃ m ∈ ms, m.1 ≤ g ∧ g < m.1 + 4 := by
  rw [rows, List.map_flatMap, List.mem_flatMap] at h
  obtain ⟨m, hm, hg⟩ := h
  exact ⟨m, hm, mem_row hg⟩

/-- The copies so far are right below the next target. -/
def RightBelow (c : ℕ → α) (done rest : List (ℕ × ℕ)) : Prop :=
  ∀ g, (∀ m ∈ rest, g < m.1) → run (rows done) c g = c (target done g)

/-- In an ascending list a move lies above those before it and below those behind it. -/
theorem Ascending.below (h : Ascending (done ++ m :: rest)) :
    (∀ m' ∈ done, m'.1 < m.1) ∧ ∀ m' ∈ rest, m.1 < m'.1 := by
  have hsorted := h.sorted
  rw [List.map_append, List.map_cons, List.pairwise_append] at hsorted
  refine ⟨fun m' hm' => ?_, fun m' hm' => ?_⟩
  · exact hsorted.2.2 _ (List.mem_map_of_mem hm') _ (List.mem_cons_self ..)
  · exact (List.pairwise_cons.mp hsorted.2.1).1 _ (List.mem_map_of_mem hm')

/-- What lies below a move lies below those behind it. -/
theorem Ascending.below_rest (h : Ascending (done ++ m :: rest)) (hg : g < m.1) :
    ∀ m' ∈ m :: rest, g < m'.1 := by
  intro m' hm'
  rcases List.mem_cons.mp hm' with rfl | hm'
  · exact hg
  · exact Nat.lt_trans hg (h.below.2 m' hm')

/-- No move brings a block to itself. -/
theorem Ascending.source_ne (h : Ascending (done ++ m :: rest)) : m.2 ≠ m.1 := by
  intro heq
  refine h.apart m (List.mem_append_right _ (List.mem_cons_self ..)) ?_
  rw [heq]
  exact List.mem_map_of_mem (List.mem_append_right _ (List.mem_cons_self ..))

/-- A block above all targets is brought to none of them. -/
theorem target_of_above (h : ∀ m ∈ ms, m.1 < g) : target ms g = g := by
  refine target_of_notMem fun hmem => ?_
  obtain ⟨m, hm, heq⟩ := List.mem_map.mp hmem
  exact absurd heq (Nat.ne_of_lt (h m hm))

/-- Behind the rows that were copied everything is as before. -/
theorem run_beyond (h : ∀ m ∈ done, m.1 + 4 ≤ g) : run (rows done) c g = c g := by
  refine run_of_notMem c fun hmem => ?_
  obtain ⟨m, hm, -, hlt⟩ := mem_rows hmem
  have hle := h m hm
  omega

/-- **Sources.**  When the copies before were right, `brought` says what a copy brings. -/
theorem run_brought (hms : Ascending (done ++ m :: rest)) (hright : RightBelow c done (m :: rest))
    (hbefore : ∀ done' last, done = done' ++ [last] → RightBelow c done' (last :: m :: rest)) :
    run (rows done) c (slide m.1 m.2 j) = c (brought done m j) := by
  have hdone := hms.below.1
  rcases Nat.lt_or_gt_of_ne (slide_ne (j := j) hms.source_ne) with hlow | hhigh
  · -- below its target everything is finished
    rw [hright _ (hms.below_rest hlow), brought]
    cases hlast : done.getLast? with
    | none =>
        rw [List.getLast?_eq_none_iff.mp hlast]
        rfl
    | some last =>
        dsimp only
        rw [if_neg (by omega)]
  · rcases List.eq_nil_or_concat' done with rfl | ⟨done', last, rfl⟩
    · rfl
    have hlast := hdone last (List.mem_append_right _ (List.mem_singleton_self _))
    have hms' : Ascending (done' ++ last :: m :: rest) := by
      rwa [List.append_assoc] at hms
    have hdone' := hms'.below.1
    rw [brought, List.getLast?_concat, List.dropLast_concat, rows_append, run_append]
    dsimp only
    have hrow : rows [last] = row 4 last.1 last.2 := List.append_nil _
    rw [hrow, run_row]
    by_cases hagain : slide m.1 m.2 j < last.1 + 4
    · -- the last copy has written there, from a block that is finished or was never written
      rw [if_pos ⟨by omega, hagain⟩, if_pos ⟨hhigh, hagain⟩]
      obtain ⟨b, hb⟩ : ∃ b, b = slide m.1 m.2 j - last.1 := ⟨_, rfl⟩
      rw [← hb]
      rcases Nat.lt_or_gt_of_ne (slide_ne (j := b) hms'.source_ne) with hlow | hhigh'
      · exact hbefore done' last rfl _ (hms'.below_rest hlow)
      · obtain ⟨hlt, heq⟩ := slide_of_lt hms'.source_ne hhigh'
        have hbeyond : ∀ m' ∈ done', m'.1 + 4 ≤ slide last.1 last.2 b := by
          intro m' hm'
          have hbelow := hdone' m' hm'
          omega
        rw [run_beyond hbeyond, target_of_above fun m' hm' =>
          Nat.lt_of_lt_of_le (Nat.lt_add_of_pos_right (by decide)) (hbeyond m' hm')]
    · rw [if_neg (by omega), if_neg (by omega)]
      have hbeyond : ∀ m' ∈ done', m'.1 + 4 ≤ slide m.1 m.2 j := by
        intro m' hm'
        have hbelow := hdone' m' hm'
        omega
      rw [run_beyond hbeyond,
        target_of_above fun m' hm' => Nat.lt_trans (hdone m' hm') hhigh]

/-- **Steps.**  One more copy is right exactly when it is harmless. -/
theorem rightBelow_append (hms : Ascending (done ++ m :: rest))
    (hright : RightBelow c done (m :: rest))
    (hbefore : ∀ done' last, done = done' ++ [last] → RightBelow c done' (last :: m :: rest)) :
    RightBelow c (done ++ [m]) rest ↔ Harmless c done m rest := by
  obtain ⟨hdone, hrest⟩ := hms.below
  have hrun (g : ℕ) : run (rows (done ++ [m])) c g =
      if m.1 ≤ g ∧ g < m.1 + 4 then c (brought done m (g - m.1)) else run (rows done) c g := by
    have hrow : rows [m] = row 4 m.1 m.2 := List.append_nil _
    rw [rows_append, run_append, hrow, run_row, run_brought hms hright hbefore]
  have hself : target (done ++ [m]) m.1 = m.2 := by
    refine target_of_mem ?_ (List.mem_append_right _ (List.mem_singleton_self _))
    have hsorted := hms.sorted
    rw [List.append_cons, List.map_append] at hsorted
    exact (List.pairwise_append.mp hsorted).1.imp fun h => Nat.ne_of_lt h
  have habove {g : ℕ} (hg : m.1 < g) : target (done ++ [m]) g = g := by
    refine target_of_above fun m' hm' => ?_
    rcases List.mem_append.mp hm' with hm' | hm'
    · exact Nat.lt_trans (hdone m' hm') hg
    · obtain rfl := List.mem_singleton.mp hm'
      exact hg
  constructor
  · intro h
    refine ⟨?_, fun j hpos hlt hnext => ?_⟩
    · have hat := h m.1 hrest
      rw [hrun, if_pos (by omega), Nat.sub_self, hself] at hat
      exact hat
    · have hat := h (m.1 + j) hnext
      rw [hrun, if_pos (by omega), Nat.add_sub_cancel_left, habove (by omega)] at hat
      exact hat
  · intro h g hg
    rw [hrun]
    rcases Nat.lt_trichotomy g m.1 with hlow | rfl | hhigh
    · have hout : g ∉ [m].map Prod.fst := by
        intro hmem
        obtain rfl := List.mem_singleton.mp hmem
        omega
      rw [if_neg (by omega), target_append hout]
      exact hright g (hms.below_rest hlow)
    · rw [if_pos (by omega), Nat.sub_self, hself]
      exact h.1
    · rw [habove hhigh]
      by_cases hrow : g < m.1 + 4
      · obtain ⟨j, rfl⟩ : ∃ j, g = m.1 + j := ⟨g - m.1, by omega⟩
        rw [if_pos ⟨by omega, hrow⟩, Nat.add_sub_cancel_left]
        exact h.2 j (by omega) (by omega) hg
      · rw [if_neg (by omega)]
        refine run_beyond fun m' hm' => ?_
        have hbelow := hdone m' hm'
        omega

/-- The copies so far are right when all of them are. -/
theorem rightBelow_of_right
    (h : ∀ g, run (rows (done ++ rest)) c g = c (target (done ++ rest) g)) :
    RightBelow c done rest := by
  intro g hg
  have hout : g ∉ rest.map Prod.fst := by
    intro hmem
    obtain ⟨m, hm, rfl⟩ := List.mem_map.mp hmem
    exact absurd (hg m hm) (Nat.lt_irrefl _)
  have hall := h g
  rw [rows_append, run_append, target_append hout] at hall
  rw [← hall]
  refine (run_of_notMem _ fun hmem => ?_).symm
  obtain ⟨m, hm, hle, -⟩ := mem_rows hmem
  have hlt := hg m hm
  omega

/-- **Rows.**  Copies that drag rows along leave every block with the contents it should
have exactly when each of them is harmless. -/
theorem rows_right_iff (hms : Ascending ms) : (∀ g, run (rows ms) c g = c (target ms g)) ↔
    ∀ done m rest, ms = done ++ m :: rest → Harmless c done m rest := by
  constructor
  · rintro h done m rest rfl
    have hnext : done ++ m :: rest = (done ++ [m]) ++ rest := List.append_cons ..
    refine (rightBelow_append hms (rightBelow_of_right h) fun done' last heq => ?_).mp
      (rightBelow_of_right (hnext ▸ h))
    have hprevious : done ++ m :: rest = done' ++ last :: m :: rest := by
      rw [heq, List.append_assoc]
      rfl
    exact rightBelow_of_right (hprevious ▸ h)
  · intro h
    have hfront : ∀ done rest, ms = done ++ rest → RightBelow c done rest ∧
        ∀ done' last, done = done' ++ [last] → RightBelow c done' (last :: rest) := by
      intro done
      induction done using List.reverseRecOn with
      | nil =>
          intro rest _
          exact ⟨fun g _ => rfl, fun done' last heq => by simp at heq⟩
      | append_singleton done m ih =>
          intro rest heq
          have hsplit : ms = done ++ m :: rest := by
            rw [heq, List.append_assoc]
            rfl
          obtain ⟨hright, hbefore⟩ := ih (m :: rest) hsplit
          refine ⟨(rightBelow_append (hsplit ▸ hms) hright hbefore).mpr (h done m rest hsplit),
            fun done' last heq' => ?_⟩
          obtain ⟨rfl, hlast⟩ := List.append_inj' heq' rfl
          obtain rfl := List.singleton_inj.mp hlast
          exact hright
    intro g
    exact (hfront ms [] (List.append_nil ms).symm).1 g fun m hm => by cases hm

end Copies

end BlockMoves
