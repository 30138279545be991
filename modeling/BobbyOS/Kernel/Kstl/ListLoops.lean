import BobbyOS.Kernel.Kstl.Chains

/-!
# Lists whose count is right

As long as the count of a list is that of its nodes, none of its operations follows
a null link, and each has the effect on the values that its name says.  Only
`erase` between two other nodes leaves a count that is too high.

* `Becomes`: an operation leaves a list with a right count and these values, and
  touches no node of another list.
-/

namespace Kernel

open DoublyLinked Effects LinkedList

variable {α : Type} {m m' : Memory α} {l other : LinkedList} {c : Chain α}
  {nodes ns : List (Nat × α)} {t : Nat} {x v : α}

/-- The list has a right count and these values, and only the nodes `before` and new
ones were touched. -/
def Becomes (m m' : Memory α) (before : List Nat) (l : LinkedList) (values : List α) : Prop :=
  ∃ c, Stores m' l c ∧ c.Counted ∧ c.values = values ∧ m.Changes m' before c.addresses

namespace Chain

/-- The size is zero exactly without nodes. -/
theorem Counted.size_eq_zero (h : c.Counted) : c.size = 0 ↔ c.nodes = [] := by
  rw [h, List.length_eq_zero_iff]

/-- There are as many values. -/
theorem Counted.length_values (h : c.Counted) : c.values.length = c.size := by
  rw [h, values, List.length_map]

/-- A node goes behind the others. -/
theorem Counted.emplaceBack (h : c.Counted) (a : Nat) :
    c.emplaceBack a v = .ok ⟨c.nodes ++ [(a, v)], c.size + 1⟩ := by
  unfold Chain.emplaceBack
  by_cases hzero : c.size = 0
  · rw [if_pos hzero, h.size_eq_zero.mp hzero]
    rfl
  · rw [if_neg hzero, if_neg (mt h.size_eq_zero.mpr hzero)]

/-- A node goes before the others. -/
theorem Counted.emplaceFront (h : c.Counted) (a : Nat) :
    c.emplaceFront a v = .ok ⟨(a, v) :: c.nodes, c.size + 1⟩ := by
  unfold Chain.emplaceFront
  by_cases hzero : c.size = 0
  · rw [if_pos hzero, h.size_eq_zero.mp hzero]
  · rw [if_neg hzero, if_neg (mt h.size_eq_zero.mpr hzero)]

/-- The last node goes. -/
theorem Counted.popBack (h : c.Counted) (hne : c.nodes ≠ []) :
    c.popBack = .ok ⟨c.nodes.dropLast, c.size - 1⟩ := by
  unfold Chain.popBack
  rw [if_neg (mt h.size_eq_zero.mp hne)]
  by_cases hone : c.size = 1
  · obtain ⟨node, hnode⟩ := List.length_eq_one_iff.mp (h.symm.trans hone)
    rw [if_pos hone, hnode]
    rfl
  · have hpos := List.length_pos_of_ne_nil hne
    rw [if_neg hone, if_neg (by rw [← h]; rw [← h] at hpos; omega)]

/-- The first node goes. -/
theorem Counted.popFront (h : c.Counted) (hne : c.nodes ≠ []) :
    c.popFront = .ok ⟨c.nodes.tail, c.size - 1⟩ := by
  unfold Chain.popFront
  rw [if_neg (mt h.size_eq_zero.mp hne)]
  by_cases hone : c.size = 1
  · obtain ⟨node, hnode⟩ := List.length_eq_one_iff.mp (h.symm.trans hone)
    rw [if_pos hone, hnode]
    rfl
  · have hpos := List.length_pos_of_ne_nil hne
    rw [if_neg hone, if_neg (by rw [← h]; rw [← h] at hpos; omega)]

/-- Without nodes `pop_back` fails its assertion. -/
theorem Counted.popBack_nil (h : c.Counted) (hnil : c.nodes = []) :
    c.popBack = .error (.assertFailed "_size > 0") := by
  rw [Chain.popBack, if_pos (h.size_eq_zero.mpr hnil)]

/-- So does `pop_front`. -/
theorem Counted.popFront_nil (h : c.Counted) (hnil : c.nodes = []) :
    c.popFront = .error (.assertFailed "_size > 0") := by
  rw [Chain.popFront, if_pos (h.size_eq_zero.mpr hnil)]

end Chain

open Chain

/-! ### One node at a time -/

/-- An operation that refines one with a right count. -/
theorem Refines.becomes {op : ListM α LinkedList} {spec : Except Panic (Chain α)} {c' : Chain α}
    (h : Refines m c spec (op m)) (hspec : spec = .ok c') (hc : c'.Counted) :
    ∃ l' m', Returns op m l' m' ∧ Becomes m m' c.addresses l' c'.values := by
  subst hspec
  cases hop : op m with
  | error e m' =>
      rw [hop] at h
      exact h.elim
  | ok l' m' =>
      rw [hop] at h
      exact ⟨l', m', hop, c', h.1, hc, rfl, h.2⟩

/-- Where the chain's operation fails, the list's does. -/
theorem Refines.error {op : ListM α LinkedList} {spec : Except Panic (Chain α)} {e : Panic}
    (h : Refines m c spec (op m)) (hspec : spec = .error e) : ∃ m', op m = .error e m' := by
  subst hspec
  cases hop : op m with
  | ok l' m' =>
      rw [hop] at h
      exact h.elim
  | error e' m' =>
      rw [hop] at h
      exact ⟨m', by rw [show e' = e from h]⟩

/-- `emplace_back` adds a value behind. -/
theorem Stores.pushBack (h : Stores m l c) (hc : c.Counted) (v : α) :
    ∃ l' m', Returns (l.emplaceBack v) m l' m' ∧ Becomes m m' c.addresses l' (c.values ++ [v]) := by
  obtain ⟨l', m', hret, hbec⟩ := (h.emplaceBack v).becomes (hc.emplaceBack m.fresh)
    (by rw [Counted, List.length_append, hc]; rfl)
  refine ⟨l', m', hret, ?_⟩
  simpa only [Chain.values, List.map_append, List.map_cons, List.map_nil] using hbec

/-- `emplace_front` adds one in front. -/
theorem Stores.pushFront (h : Stores m l c) (hc : c.Counted) (v : α) :
    ∃ l' m', Returns (l.emplaceFront v) m l' m' ∧ Becomes m m' c.addresses l' (v :: c.values) :=
  (h.emplaceFront v).becomes (hc.emplaceFront m.fresh) (by rw [Counted, hc]; rfl)

/-- `pop_back` drops the last value. -/
theorem Stores.dropBack (h : Stores m l c) (hc : c.Counted) (hne : c.values ≠ []) :
    ∃ l' m', Returns l.popBack m l' m' ∧ Becomes m m' c.addresses l' c.values.dropLast := by
  obtain ⟨l', m', hret, hbec⟩ := h.popBack.becomes
    (hc.popBack fun hnil => hne (by rw [Chain.values, hnil]; rfl))
    (by rw [Counted, List.length_dropLast, hc])
  refine ⟨l', m', hret, ?_⟩
  simpa only [Chain.values, List.map_dropLast] using hbec

/-- `pop_front` drops the first one. -/
theorem Stores.dropFront (h : Stores m l c) (hc : c.Counted) (hne : c.values ≠ []) :
    ∃ l' m', Returns l.popFront m l' m' ∧ Becomes m m' c.addresses l' c.values.tail := by
  obtain ⟨l', m', hret, hbec⟩ := h.popFront.becomes
    (hc.popFront fun hnil => hne (by rw [Chain.values, hnil]; rfl))
    (by rw [Counted, List.length_tail, hc])
  refine ⟨l', m', hret, ?_⟩
  simpa only [Chain.values, List.map_tail] using hbec

/-! ### Clearing -/

/-- The loop of `clear` deletes all nodes from one on. -/
theorem returns_clearFrom {p : Option Nat} (hm : m.Bounded) (hl : Linked m.cell p nodes none)
    (hnodup : (addresses nodes).Nodup) {fuel : Nat} (hfuel : nodes.length ≤ fuel) :
    ∃ m', Returns (clearFrom fuel (first nodes none)) m () m' ∧
      m.Changes m' (addresses nodes) [] := by
  induction nodes generalizing m p fuel with
  | nil =>
      refine ⟨m, ?_, .refl hm⟩
      cases fuel <;> rfl
  | cons node rest ih =>
      obtain ⟨a, x⟩ := node
      obtain ⟨hcell, hrest⟩ := hl
      obtain ⟨ha, hnodup'⟩ := List.nodup_cons.mp hnodup
      have hlt : a < m.fresh := hm.lt (by rw [hcell]; exact Option.some_ne_none _)
      cases fuel with
      | zero => cases hfuel
      | succ fuel =>
          obtain ⟨m', hclear, hchanges⟩ := ih (hm.set hlt) (hrest.update ha) hnodup'
            (Nat.le_of_succ_le_succ hfuel)
          refine ⟨m', ?_, ?_⟩
          · rw [Returns, clearFrom, first_cons, if_neg (Option.some_ne_none a),
              (returns_deref hcell).bind_eq, (returns_delete hcell).bind_eq]
            exact hclear
          · exact (Memory.Changes.set hm hlt List.mem_cons_self).trans
              (hchanges.mono (List.subset_cons_self _ _))

/-- `clear` deletes all nodes. -/
theorem Stores.clear (h : Stores m l c) :
    ∃ m', Returns l.clear m {} m' ∧ m.Changes m' c.addresses [] := by
  obtain ⟨m', hclear, hchanges⟩ := returns_clearFrom h.segment.bounded h.segment.linked
    h.segment.nodup (h.segment.bounded.length_le h.segment.linked h.segment.nodup)
  refine ⟨m', ?_, hchanges⟩
  unfold LinkedList.clear
  rw [returns_get_bind, h.head]
  exact returns_bind.mpr ⟨(), m', hclear, rfl⟩

/-- A list without nodes is the empty one. -/
theorem becomes_empty {before : List Nat} (h : m.Changes m' before []) :
    Becomes m m' before {} ([] : List α) := ⟨{}, stores_empty h.bounded, rfl, rfl, h⟩

/-! ### New lists -/

/-- Values that are appended one by one are a longer segment. -/
theorem Segment.extend (h : Segment m (ns ++ [(t, x)])) (values : List α) :
    ∃ news m', Returns (extend values (some t)) m (last (some t) news) m' ∧
      Segment m' (ns ++ [(t, x)] ++ news) ∧ news.map Prod.snd = values ∧
      m.Changes m' (addresses (ns ++ [(t, x)])) (addresses (ns ++ [(t, x)] ++ news)) := by
  induction values generalizing m ns t x with
  | nil =>
      refine ⟨[], m, rfl, ?_, rfl, ?_⟩
      · rwa [List.append_nil]
      · rw [List.append_nil]
        exact .refl h.bounded
  | cons v values ih =>
      obtain ⟨m₂, m₃, hnext, hderef, hprev, hderef', hseg, hchanges⟩ := h.link v
      obtain ⟨news, m', hret, hseg', hvalues, hchanges'⟩ := ih hseg
      have hassoc : ns ++ [(t, x)] ++ (m.fresh, v) :: news =
          ns ++ [(t, x)] ++ [(m.fresh, v)] ++ news := (List.append_cons _ _ _)
      refine ⟨(m.fresh, v) :: news, m', ?_, ?_, ?_, ?_⟩
      · rw [Returns, LinkedList.extend, returns_new.bind_eq, hnext.bind_eq, hderef.bind_eq,
          hprev.bind_eq, hderef'.bind_eq]
        exact hret
      · rwa [hassoc]
      · rw [List.map_cons, hvalues]
      · rw [hassoc]
        exact hchanges.trans hchanges'

/-- **Construction from values.** -/
theorem returns_ofValues (hm : m.Bounded) (values : List α) :
    ∃ l m', Returns (ofValues values) m l m' ∧ Becomes m m' [] l values := by
  cases values with
  | nil => exact ⟨{}, m, rfl, becomes_empty (.refl hm)⟩
  | cons v values =>
      have hseg : Segment (m.alloc v) ([] ++ [(m.fresh, v)]) := segment_single hm
      obtain ⟨news, m', hret, hseg', hvalues, hchanges⟩ := hseg.extend values
      refine ⟨⟨some m.fresh, last (some m.fresh) news, values.length + 1⟩, m', ?_,
        ⟨(m.fresh, v) :: news, values.length + 1⟩, ⟨hseg', rfl, rfl, rfl⟩, ?_, ?_, ?_⟩
      · rw [Returns, ofValues, returns_new.bind_eq, hret.bind_eq]
        rfl
      · rw [Counted, List.length_cons, ← hvalues, List.length_map]
      · exact congrArg (v :: ·) hvalues
      · have halloc : m.Changes (m.alloc v) [] [m.fresh] := .alloc hm
        exact halloc.trans hchanges

/-- A copy of the values of some nodes is appended. -/
theorem Segment.copyFrom (h : Segment m (ns ++ [(t, x)])) {p : Option Nat}
    (hl : Linked m.cell p nodes none) (hdisj : ∀ a ∈ addresses nodes, a ∉ addresses (ns ++ [(t, x)]))
    {fuel : Nat} (hfuel : nodes.length ≤ fuel) :
    ∃ news m', Returns (copyFrom fuel (some t) (first nodes none)) m (last (some t) news) m' ∧
      Segment m' (ns ++ [(t, x)] ++ news) ∧ news.map Prod.snd = nodes.map Prod.snd ∧
      m.Changes m' (addresses (ns ++ [(t, x)])) (addresses (ns ++ [(t, x)] ++ news)) := by
  induction nodes generalizing m ns t x p fuel with
  | nil =>
      refine ⟨[], m, ?_, ?_, rfl, ?_⟩
      · cases fuel <;> rfl
      · rwa [List.append_nil]
      · rw [List.append_nil]
        exact .refl h.bounded
  | cons node rest ih =>
      obtain ⟨b, v⟩ := node
      cases fuel with
      | zero => cases hfuel
      | succ fuel =>
      obtain ⟨m₂, m₃, hnext, -, hprev, -, hseg, hchanges⟩ := h.link v
      have hl' := hchanges.linked h.bounded hl hdisj
      have hdisj' := hchanges.disjoint h.bounded hl hdisj
      obtain ⟨news, m', hret, hseg', hvalues, hchanges'⟩ := ih hseg hl'.2
        (fun a ha => hdisj' a (List.mem_cons_of_mem _ ha)) (Nat.le_of_succ_le_succ hfuel)
      have hassoc : ns ++ [(t, x)] ++ (m.fresh, v) :: news =
          ns ++ [(t, x)] ++ [(m.fresh, v)] ++ news := (List.append_cons _ _ _)
      refine ⟨(m.fresh, v) :: news, m', ?_, ?_, ?_, ?_⟩
      · rw [Returns, LinkedList.copyFrom, first_cons, if_neg (Option.some_ne_none b),
          (returns_deref hl.1).bind_eq, returns_new.bind_eq, hnext.bind_eq, hprev.bind_eq,
          (returns_deref hl'.1).bind_eq]
        exact hret
      · rwa [hassoc]
      · rw [List.map_cons, hvalues]
        rfl
      · rw [hassoc]
        exact hchanges.trans hchanges'

/-- **Copying.**  The other list keeps its nodes. -/
theorem Stores.copy (h : Stores m other c) (hc : c.Counted) :
    ∃ l m', Returns (copy other) m l m' ∧ Becomes m m' [] l c.values := by
  obtain ⟨hseg, hhead, htail, hsize⟩ := h
  obtain ⟨nodes, size⟩ := c
  unfold LinkedList.copy
  rw [hhead]
  cases nodes with
  | nil => exact ⟨{}, m, rfl, becomes_empty (.refl hseg.bounded)⟩
  | cons node rest =>
      obtain ⟨b, v⟩ := node
      have hfresh := hseg.fresh_notMem
      have hl : Linked (m.alloc v).cell none ((b, v) :: rest) none :=
        hseg.linked.congr fun a ha => Memory.alloc_cell_of_ne fun heq => hfresh (heq ▸ ha)
      have hnew : Segment (m.alloc v) ([] ++ [(m.fresh, v)]) := segment_single hseg.bounded
      have hdisj : ∀ a ∈ addresses rest, a ∉ addresses ([] ++ [(m.fresh, v)]) := by
        intro a ha hmem
        have hnewest : a = m.fresh := List.mem_singleton.mp hmem
        exact hfresh (hnewest ▸ List.mem_cons_of_mem _ ha)
      have hlength : rest.length ≤ m.fresh :=
        Nat.le_of_succ_le (hseg.bounded.length_le hseg.linked hseg.nodup)
      obtain ⟨news, m', hret, hseg', hvalues, hchanges⟩ := hnew.copyFrom hl.2 hdisj hlength
      refine ⟨⟨some m.fresh, last (some m.fresh) news, other.size⟩, m', ?_,
        ⟨(m.fresh, v) :: news, other.size⟩, ⟨hseg', rfl, rfl, rfl⟩, ?_, ?_, ?_⟩
      · rw [first_cons, if_neg (Option.some_ne_none b), returns_get_bind]
        rw [Returns, (returns_deref hseg.linked.1).bind_eq, returns_new.bind_eq,
          (returns_deref hl.1).bind_eq, hret.bind_eq]
        rfl
      · have hlength := congrArg List.length hvalues
        rw [List.length_map, List.length_map] at hlength
        rw [Counted, hsize, hc, List.length_cons, List.length_cons, hlength]
      · exact congrArg (v :: ·) hvalues
      · have halloc : m.Changes (m.alloc v) [] [m.fresh] := .alloc hseg.bounded
        exact halloc.trans hchanges

/-- The nodes of a list that no change touched. -/
theorem Stores.frame {before after : List Nat} (h : Stores m l c)
    (hchanges : m.Changes m' before after) (hdisj : ∀ a ∈ c.addresses, a ∉ before) :
    Stores m' l c ∧ ∀ a ∈ c.addresses, a ∉ after :=
  ⟨⟨⟨hchanges.bounded, hchanges.linked h.segment.bounded h.segment.linked hdisj,
    h.segment.nodup⟩, h.head, h.tail, h.size⟩,
    hchanges.disjoint h.segment.bounded h.segment.linked hdisj⟩

/-- **Copy assignment** from another list. -/
theorem Stores.assign {co : Chain α} (h : Stores m l c) (ho : Stores m other co)
    (hco : co.Counted) :
    ∃ l' m', Returns (assign l other) m l' m' ∧ Becomes m m' c.addresses l' co.values := by
  unfold LinkedList.assign
  by_cases hhead : other.head = none
  · obtain ⟨m', hclear, hchanges⟩ := h.clear
    have hnil : co.nodes = [] := by
      have := ho.head
      rw [hhead] at this
      cases hnodes : co.nodes with
      | nil => rfl
      | cons node rest =>
          rw [hnodes] at this
          cases this
    refine ⟨{}, m', ?_, ?_⟩
    · rw [if_pos hhead]
      exact hclear
    · rw [Chain.values, hnil]
      exact becomes_empty hchanges
  · rw [if_neg hhead]
    obtain ⟨tmp, m₁, hcopy, c', hstores, hcounted, hvalues, hchanges⟩ := ho.copy hco
    obtain ⟨hl, _⟩ := h.frame hchanges fun _ _ => List.not_mem_nil
    obtain ⟨m', hclear, hchanges'⟩ := hl.clear
    have hapart : ∀ a ∈ c'.addresses, a ∉ c.addresses := by
      intro a ha hmem
      rcases hchanges.within a ha with hnil | hle
      · cases hnil
      · exact absurd (h.segment.bounded.addresses_lt h.segment.linked a hmem)
          (Nat.not_lt_of_le hle)
    obtain ⟨hstores', _⟩ := hstores.frame hchanges' hapart
    refine ⟨tmp, m', ?_, c', hstores', hcounted, hvalues, hchanges'.bounded,
      Nat.le_trans hchanges.fresh_le hchanges'.fresh_le, fun a ha hlt => ?_, fun a ha => ?_⟩
    · rw [Returns, hcopy.bind_eq, hclear.bind_eq]
      rfl
    · rw [hchanges'.frame a ha (Nat.lt_of_lt_of_le hlt hchanges.fresh_le),
        hchanges.frame a List.not_mem_nil hlt]
    · rcases hchanges.within a ha with hnil | hle
      · cases hnil
      · exact .inr hle

/-! ### Resizing -/

/-- The first loop of `resize` drops what is too much. -/
theorem Stores.shrink (h : Stores m l c) (hc : c.Counted) {count fuel : Nat}
    (hfuel : c.size ≤ count + fuel) :
    ∃ l' m', Returns (shrink count fuel l) m l' m' ∧
      Becomes m m' c.addresses l' (c.values.take count) := by
  induction fuel generalizing m l c with
  | zero =>
      refine ⟨l, m, rfl, c, h, hc, ?_, .refl h.segment.bounded⟩
      rw [List.take_of_length_le (by rw [hc.length_values]; omega)]
  | succ fuel ih =>
      by_cases hgt : count < c.size
      · have hne : c.values ≠ [] := by
          rw [← List.length_pos_iff, hc.length_values]
          omega
        obtain ⟨l₁, m₁, hpop, c₁, hstores, hcounted, hvalues, hchanges⟩ := h.dropBack hc hne
        have hsize : c₁.size = c.size - 1 := by
          rw [← hcounted.length_values, hvalues, List.length_dropLast, hc.length_values]
        obtain ⟨l', m', hret, hbec⟩ := ih hstores hcounted (by omega)
        refine ⟨l', m', ?_, ?_⟩
        · rw [Returns, LinkedList.shrink, if_pos (by rw [h.size]; exact hgt), hpop.bind_eq]
          exact hret
        · obtain ⟨c', hs', hc', hv', hch'⟩ := hbec
          refine ⟨c', hs', hc', ?_, hchanges.trans hch'⟩
          rw [hv', hvalues, List.dropLast_eq_take, List.take_take]
          congr 1
          rw [hc.length_values]
          omega
      · refine ⟨l, m, ?_, c, h, hc, ?_, .refl h.segment.bounded⟩
        · rw [Returns, LinkedList.shrink, if_neg (by rw [h.size]; exact hgt)]
          rfl
        · rw [List.take_of_length_le (by rw [hc.length_values]; omega)]

/-- The second loop appends what is missing. -/
theorem Stores.grow (h : Stores m l c) (hc : c.Counted) (v : α) {count fuel : Nat}
    (hfuel : count ≤ c.size + fuel) :
    ∃ l' m', Returns (grow count v fuel l) m l' m' ∧
      Becomes m m' c.addresses l' (c.values ++ List.replicate (count - c.values.length) v) := by
  rw [hc.length_values]
  induction fuel generalizing m l c with
  | zero =>
      refine ⟨l, m, rfl, c, h, hc, ?_, .refl h.segment.bounded⟩
      rw [Nat.sub_eq_zero_of_le (by omega), List.replicate_zero, List.append_nil]
  | succ fuel ih =>
      by_cases hlt : c.size < count
      · obtain ⟨l₁, m₁, hpush, c₁, hstores, hcounted, hvalues, hchanges⟩ := h.pushBack hc v
        have hsize : c₁.size = c.size + 1 := by
          rw [← hcounted.length_values, hvalues, List.length_append, hc.length_values]
          rfl
        obtain ⟨l', m', hret, hbec⟩ := ih hstores hcounted (by omega)
        refine ⟨l', m', ?_, ?_⟩
        · rw [Returns, LinkedList.grow, if_pos (by rw [h.size]; exact hlt), hpush.bind_eq]
          exact hret
        · obtain ⟨c', hs', hc', hv', hch'⟩ := hbec
          refine ⟨c', hs', hc', ?_, hchanges.trans hch'⟩
          rw [hv', hvalues, hsize, List.append_assoc, List.singleton_append, ← List.replicate_succ]
          congr 2
          omega
      · refine ⟨l, m, ?_, c, h, hc, ?_, .refl h.segment.bounded⟩
        · rw [Returns, LinkedList.grow, if_neg (by rw [h.size]; exact hlt)]
          rfl
        · rw [Nat.sub_eq_zero_of_le (by omega), List.replicate_zero, List.append_nil]

/-- **`resize`** cuts the values off or fills them up. -/
theorem Stores.resize (h : Stores m l c) (hc : c.Counted) (count : Nat) (v : α) :
    ∃ l' m', Returns (resize l count v) m l' m' ∧ Becomes m m' c.addresses l'
      (c.values.take count ++ List.replicate (count - c.values.length) v) := by
  have hrounds : c.size ≤ count + l.size := by
    rw [h.size]
    omega
  obtain ⟨l₁, m₁, hshrink, c₁, hstores, hcounted, hvalues, hchanges⟩ := h.shrink hc hrounds
  have hrounds' : count ≤ c₁.size + count := Nat.le_add_left _ _
  obtain ⟨l', m', hgrow, c', hs', hc', hv', hch'⟩ := hstores.grow hcounted v hrounds'
  refine ⟨l', m', ?_, c', hs', hc', ?_, hchanges.trans hch'⟩
  · rw [Returns, LinkedList.resize, hshrink.bind_eq]
    exact hgrow
  · rw [hv', hvalues, List.length_take]
    congr 2
    omega

/-! ### Erasing -/

namespace LinkedList

/-- `it`, moved on `k` times. -/
def advance : Nat → Option Nat → ListM α (Option Nat)
  | 0, it => pure it
  | k + 1, it => do advance k (← increment it)

end LinkedList

/-- The position `k` steps behind the head. -/
def Chain.position (c : Chain α) (k : Nat) : Option Nat := first (c.nodes.drop k) none

/-- A position within the list is its node. -/
theorem Chain.position_eq {k : Nat} (hlt : k < c.nodes.length) :
    c.position k = some c.nodes[k].1 := by
  rw [Chain.position, List.drop_eq_getElem_cons hlt]
  rfl

/-- A position behind it is the end. -/
theorem Chain.position_eq_none {k : Nat} (hle : c.nodes.length ≤ k) : c.position k = none := by
  rw [Chain.position, List.drop_eq_nil_of_le hle]
  rfl

/-- A position is one of the nodes. -/
theorem Chain.mem_of_position {k a : Nat} (ha : c.position k = some a) : a ∈ c.addresses := by
  rcases Nat.lt_or_ge k c.nodes.length with hlt | hle
  · rw [c.position_eq hlt] at ha
    rw [← Option.some.inj ha]
    exact List.mem_map_of_mem (List.getElem_mem hlt)
  · rw [c.position_eq_none hle] at ha
    cases ha

/-- What is before and behind a position. -/
theorem Chain.split_position (hnodup : c.addresses.Nodup) {k : Nat} (hlt : k < c.nodes.length) :
    c.nodes.filter (·.1 ≠ c.nodes[k].1) = c.nodes.eraseIdx k ∧
      c.next c.nodes[k].1 = c.position (k + 1) := by
  have hsplit : c.nodes.take k ++ c.nodes[k] :: c.nodes.drop (k + 1) = c.nodes := by
    rw [← List.drop_eq_getElem_cons hlt, List.take_append_drop]
  have hnodup' := hnodup
  rw [Chain.addresses, ← hsplit] at hnodup'
  obtain ⟨hfilter, hdrop⟩ := filter_dropWhile_append hnodup'
  rw [hsplit] at hfilter hdrop
  constructor
  · rw [hfilter, List.eraseIdx_eq_take_drop_succ]
  · rw [Chain.next, hdrop]
    rfl

/-- An iterator that is moved along. -/
theorem Stores.advance (h : Stores m l c) (k : Nat) {j : Nat} (hk : j + k ≤ c.nodes.length) :
    Returns (advance k (c.position j)) m (c.position (j + k)) m := by
  induction k generalizing j with
  | zero => rfl
  | succ k ih =>
      have hlt : j < c.nodes.length := by omega
      have hpos := c.position_eq hlt
      have hmem := c.mem_of_position hpos
      obtain ⟨-, hnext⟩ := c.split_position h.segment.nodup hlt
      rw [Returns, LinkedList.advance, hpos, (h.increment hmem).bind_eq, hnext]
      have := ih (j := j + 1) (by omega)
      rwa [show j + 1 + k = j + (k + 1) by omega] at this

/-- **Erasing** takes out the node and returns the one behind it; between two other
nodes the count stays what it was. -/
theorem Chain.Counted.erase (hc : c.Counted) (hnodup : c.addresses.Nodup) (k : Nat) :
    ∃ c', c.erase (c.position k) = .ok (c'.position k, c') ∧ c'.nodes = c.nodes.eraseIdx k ∧
      c'.size = if 0 < k ∧ k + 1 < c.nodes.length then c.size else c'.nodes.length := by
  by_cases hlt : k < c.nodes.length
  case neg =>
    have hle := Nat.le_of_not_lt hlt
    refine ⟨c, ?_, (List.eraseIdx_of_length_le hle).symm, ?_⟩
    · rw [c.position_eq_none hle]
      rfl
    · rw [if_neg (by omega), hc]
  have hne : c.nodes ≠ [] := List.ne_nil_of_length_pos (by omega)
  have hhead : first c.nodes none = c.position 0 := by rw [Chain.position, List.drop_zero]
  have hlast : last none c.nodes = c.position (c.nodes.length - 1) := by
    rw [last_eq_getLast?, Option.or_none, List.getLast?_eq_getElem?,
      c.position_eq (by omega), List.getElem?_eq_getElem (by omega)]
    rfl
  -- the address tells the position
  have hinj : ∀ j, j < c.nodes.length → (some c.nodes[k].1 = c.position j ↔ k = j) := by
    intro j hj
    constructor
    · intro heq
      rw [← c.position_eq hlt] at heq
      have hget : ∀ i (hi : i < c.nodes.length), c.addresses[i]? = c.position i := by
        intro i hi
        rw [c.position_eq hi, List.getElem?_map, List.getElem?_eq_getElem hi]
        rfl
      rw [← hget k hlt, ← hget j hj] at heq
      exact (List.getElem?_inj (by rw [List.length_map]; exact hlt) hnodup).mp heq
    · rintro rfl
      exact (c.position_eq hlt).symm
  rw [c.position_eq hlt]
  unfold Chain.erase
  dsimp only
  by_cases hone : c.size = 1
  · have hlength : c.nodes.length = 1 := hc.symm.trans hone
    obtain rfl : k = 0 := by omega
    obtain ⟨node, hnode⟩ := List.length_eq_one_iff.mp hlength
    refine ⟨⟨[], 0⟩, by rw [if_pos hone]; rfl, ?_, rfl⟩
    rw [hnode]
    rfl
  rw [if_neg hone, hhead, hlast]
  by_cases hfirst : k = 0
  · subst hfirst
    refine ⟨⟨c.nodes.tail, c.size - 1⟩, ?_, List.eraseIdx_zero.symm, ?_⟩
    · rw [if_pos ((hinj 0 hlt).mpr rfl), hc.popFront hne]
      show Except.ok (first c.nodes.tail none, _) = Except.ok (first (c.nodes.tail.drop 0) none, _)
      rw [List.drop_zero]
    · rw [if_neg (by omega)]
      show c.size - 1 = c.nodes.tail.length
      rw [List.length_tail, hc]
  rw [if_neg (mt (hinj 0 (by omega)).mp hfirst)]
  by_cases htail : k = c.nodes.length - 1
  · refine ⟨⟨c.nodes.dropLast, c.size - 1⟩, ?_, ?_, ?_⟩
    · rw [if_pos ((hinj _ (by omega)).mpr htail), hc.popBack hne]
      show Except.ok (none, _) = Except.ok (first (c.nodes.dropLast.drop k) none, _)
      rw [List.drop_eq_nil_of_le (by rw [List.length_dropLast]; omega)]
      rfl
    · show c.nodes.dropLast = _
      rw [List.eraseIdx_eq_take_drop_succ, List.drop_eq_nil_of_le (by omega), List.append_nil,
        List.dropLast_eq_take, htail]
    · rw [if_neg (by omega)]
      show c.size - 1 = c.nodes.dropLast.length
      rw [List.length_dropLast, hc]
  obtain ⟨hfilter, hnext⟩ := c.split_position hnodup hlt
  refine ⟨⟨c.nodes.eraseIdx k, c.size⟩, ?_, rfl, ?_⟩
  · rw [if_neg (mt (hinj _ (by omega)).mp htail), hfilter, hnext]
    congr 2
    have hlength : (c.nodes.take k).length = k := List.length_take_of_le (Nat.le_of_lt hlt)
    rw [Chain.position, Chain.position, List.eraseIdx_eq_take_drop_succ, List.drop_left' hlength]
  · rw [if_pos ⟨by omega, by omega⟩]

/-- **Erasing** at the head, at the tail or at the end of the list. -/
theorem Stores.eraseEnd (h : Stores m l c) (hc : c.Counted) {k : Nat}
    (hend : k = 0 ∨ c.nodes.length ≤ k + 1) :
    ∃ it l' m', Returns (l.erase (c.position k)) m (it, l') m' ∧
      Becomes m m' c.addresses l' (c.values.eraseIdx k) := by
  obtain ⟨c', hspec, hnodes, hsize⟩ := hc.erase h.segment.nodup k
  rw [if_neg (by omega)] at hsize
  have href := h.erase fun a ha => c.mem_of_position (k := k) ha
  rw [hspec] at href
  cases hop : l.erase (c.position k) m with
  | error e m' =>
      rw [hop] at href
      exact href.elim
  | ok r m' =>
      obtain ⟨it, l'⟩ := r
      rw [hop] at href
      obtain ⟨-, hstores, hchanges⟩ := href
      refine ⟨it, l', m', hop, c', hstores, hsize, ?_, hchanges⟩
      rw [Chain.values, hnodes, Chain.values, List.eraseIdx_map]

/-! ### Chains without their memory -/

/-- A chain with a right count and nodes of its own, all made before `fresh`. -/
structure Chain.Sound (fresh : Nat) (c : Chain α) : Prop where
  counted : c.Counted
  nodup : c.addresses.Nodup
  below : ∀ a ∈ c.addresses, a < fresh

/-- The empty chain is sound. -/
theorem Chain.sound_empty {fresh : Nat} : ({} : Chain α).Sound fresh :=
  ⟨rfl, List.nodup_nil, fun _ ha => by cases ha⟩

/-- A sound chain stays so when more addresses are used. -/
theorem Chain.Sound.mono {fresh fresh' : Nat} (h : c.Sound fresh) (hle : fresh ≤ fresh') :
    c.Sound fresh' :=
  ⟨h.counted, h.nodup, fun a ha => Nat.lt_of_lt_of_le (h.below a ha) hle⟩

/-- A pushed node keeps it so. -/
theorem Chain.Sound.push {fresh : Nat} (h : c.Sound fresh) (v : α) :
    (⟨c.nodes ++ [(fresh, v)], c.size + 1⟩ : Chain α).Sound (fresh + 1) := by
  refine ⟨?_, ?_, fun a ha => ?_⟩
  · rw [Chain.Counted, List.length_append, h.counted]
    rfl
  · show (DoublyLinked.addresses _).Nodup
    rw [DoublyLinked.addresses, List.map_append]
    refine List.nodup_append.mpr ⟨h.nodup, List.nodup_singleton _, fun a ha b hb heq => ?_⟩
    have hfresh : a = fresh := heq.trans (List.mem_singleton.mp hb)
    exact Nat.lt_irrefl _ (hfresh ▸ h.below a ha)
  · rw [Chain.addresses, DoublyLinked.addresses, List.map_append] at ha
    rcases List.mem_append.mp ha with hmem | hmem
    · exact Nat.lt_succ_of_lt (h.below a hmem)
    · rw [List.mem_singleton.mp hmem]
      exact Nat.lt_succ_self _

/-- A value appended in a new node. -/
theorem Chain.Sound.emplaceBack {fresh : Nat} (h : c.Sound fresh) (v : α) :
    ∃ c', c.emplaceBack fresh v = .ok c' ∧ c'.Sound (fresh + 1) ∧ c'.values = c.values ++ [v] := by
  refine ⟨_, h.counted.emplaceBack fresh, h.push v, ?_⟩
  rw [Chain.values, Chain.values, List.map_append]
  rfl

end Kernel
