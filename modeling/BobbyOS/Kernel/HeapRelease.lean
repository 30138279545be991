import BobbyOS.Kernel.HeapRuns
import Mathlib.Data.List.Chain

/-!
# What free gives back

`free` believes a pointer whose header carries it in `ptr` and that lies below the break,
and ignores any other.  `extendHeap` fills the field, `splitBlock` does not, and a block of
size zero at the end of the heap has its payload at the break.

* `Spans.free_keeps`: `free` writes only the words of a header that the chain reads;
* `Session.free_takesEffect_iff`: which pointers of a session are given back;
* `free_keeps_wellFormed`: from a list without neighbouring free blocks and without a free
  block at its end, `free` makes such a list.
-/

namespace Kernel

open ByteMemory Tiling

namespace Heap

variable {b c d : Block} {l r bs : List Block} {lo hi x : Nat} {h h' : Heap}

/-! ### The list after a release -/

/-- The block that has absorbed another one starts where one was. -/
theorem Absorbed.start_mem {l' : List Block} (h : Absorbed l b l' d) (hc : c ∈ l' ++ d :: r) :
    ∃ c' ∈ l ++ b :: r, c'.start = c.start ∧ c'.size ≤ c.size := by
  rcases h with ⟨rfl, rfl, -⟩ | ⟨e, rfl, -, rfl⟩
  · exact ⟨c, hc, rfl, Nat.le_refl _⟩
  · rcases List.mem_append.mp hc with hl | hc
    · exact ⟨c, by simp [hl], rfl, Nat.le_refl _⟩
    · rcases List.mem_cons.mp hc with rfl | hr
      · exact ⟨e, by simp, rfl, Nat.le_add_right _ _⟩
      · exact ⟨c, by simp [hr], rfl, Nat.le_refl _⟩

/-- So does a joined one. -/
theorem join_start_mem (hc : c ∈ join b r) :
    ∃ c' ∈ b :: r, c'.start = c.start ∧ c'.size ≤ c.size := by
  cases r with
  | nil => cases hc
  | cons e rest =>
      rw [join] at hc
      split at hc
      · rcases List.mem_cons.mp hc with rfl | hrest
        · exact ⟨b, List.mem_cons_self, rfl, Nat.le_add_right _ _⟩
        · exact ⟨c, by simp [hrest], rfl, Nat.le_refl _⟩
      · exact ⟨c, hc, rfl, Nat.le_refl _⟩

/-- No block gets a new place, and none gets smaller. -/
theorem freed_start_mem (hc : c ∈ freed l b r) :
    ∃ c' ∈ l ++ b :: r, c'.start = c.start ∧ c'.size ≤ c.size := by
  obtain ⟨l', d, habsorbed⟩ := absorbed_exists l b
  rw [habsorbed.freed_eq] at hc
  rcases List.mem_append.mp hc with hl | hj
  · exact habsorbed.start_mem (List.mem_append_left _ hl)
  · obtain ⟨c', hc', heq, hle⟩ := join_start_mem hj
    obtain ⟨c'', hc'', heq', hle'⟩ := habsorbed.start_mem (List.mem_append_right l' hc')
    exact ⟨c'', hc'', heq'.trans heq, Nat.le_trans hle' hle⟩

/-- Of the used blocks behind, joining takes none away. -/
theorem mem_join_iff (hb : b.free = true) (hused : c.free = false) : c ∈ join b r ↔ c ∈ r := by
  refine ⟨fun hc => ?_, fun hc => mem_join hc hused⟩
  have hne : ∀ d : Block, d.free = true → c ≠ d := by
    intro d hd heq
    rw [← heq, hused] at hd
    cases hd
  cases r with
  | nil => exact hc
  | cons e rest =>
      rw [join] at hc
      split at hc
      · rcases List.mem_cons.mp hc with heq | hrest
        · exact absurd heq (hne (fuse b e) hb)
        · exact List.mem_cons_of_mem _ hrest
      · rcases List.mem_cons.mp hc with heq | hrest
        · exact absurd heq (hne b hb)
        · exact hrest

/-- The blocks in use are those from before. -/
theorem mem_freed_iff (hb : b.free = true) (hused : c.free = false) :
    c ∈ freed l b r ↔ c ∈ l ++ r := by
  refine ⟨fun hc => ?_, fun hc => mem_freed hc hused⟩
  obtain ⟨l', d, habsorbed⟩ := absorbed_exists l b
  rw [habsorbed.freed_eq, List.mem_append] at hc
  have hd : d.free = true ∧ ∀ e ∈ l', e ∈ l := by
    rcases habsorbed with ⟨rfl, rfl, -⟩ | ⟨e, rfl, hfree, rfl⟩
    · exact ⟨hb, fun _ he => he⟩
    · exact ⟨hfree, fun _ he => List.mem_append_left _ he⟩
  rw [List.mem_append]
  rcases hc with hl | hj
  · exact Or.inl (hd.2 c hl)
  · exact Or.inr ((mem_join_iff hd.1 hused).mp hj)

/-- Where the payload of a block is after its release: in a free block, or cut off. -/
theorem freed_covers (ht : Tiles 20 lo hi (l ++ b :: r)) (hb : b.free = true)
    (hx : b.start + 20 ≤ x ∧ x < b.stop 20) :
    (∃ l1 d r1, freed l b r = l1 ++ d :: r1 ∧ d.free = true ∧ d.start + 20 ≤ x ∧
      x < d.stop 20) ∨ ∃ hi', Tiles 20 lo hi' (freed l b r) ∧ hi' ≤ x := by
  have hjoin (d : Block) (hd : d.free = true) (hx : d.start + 20 ≤ x ∧ x < d.stop 20) :
      (∃ e r1, join d r = e :: r1 ∧ e.free = true ∧ e.start + 20 ≤ x ∧ x < e.stop 20) ∨
        join d r = [] := by
    cases r with
    | nil => exact Or.inr rfl
    | cons c rest =>
        refine Or.inl ?_
        rw [join]
        split
        · refine ⟨fuse d c, rest, rfl, hd, hx.1, ?_⟩
          have hstop := hx.2
          simp only [Block.stop, fuse] at hstop ⊢
          omega
        · exact ⟨d, c :: rest, rfl, hd, hx⟩
  obtain ⟨l', d, habsorbed⟩ := absorbed_exists l b
  rw [habsorbed.freed_eq]
  have hd : d.free = true ∧ (d.start + 20 ≤ x ∧ x < d.stop 20) ∧ Tiles 20 lo d.start l' := by
    obtain ⟨mid, hl, rfl, -⟩ := tiles_append.mp ht
    rcases habsorbed with ⟨rfl, rfl, -⟩ | ⟨e, rfl, hfree, rfl⟩
    · exact ⟨hb, hx, hl⟩
    · obtain ⟨mid, hl', rfl, hend⟩ := tiles_append.mp hl
      have hend' : e.start + 20 + e.size = b.start := hend
      refine ⟨hfree, ?_, hl'⟩
      simp only [Block.stop, fuse] at hx ⊢
      omega
  obtain ⟨hdfree, hdx, htiles⟩ := hd
  rcases hjoin d hdfree hdx with ⟨e, r1, heq, he⟩ | hnil
  · exact Or.inl ⟨l', e, r1, by rw [heq], he⟩
  · refine Or.inr ⟨d.start, ?_, by omega⟩
    rw [hnil, List.append_nil]
    exact htiles

/-! ### Words that stay -/

/-- The word at `x` is none of those by which the headers are chained. -/
def OffChain (bs : List Block) (x : Nat) : Prop :=
  ∀ c ∈ bs, x + 4 ≤ c.start ∨ c.start + 16 ≤ x

/-- All other words are the same. -/
def KeepsWords (h h' : Heap) (bs : List Block) : Prop :=
  ∀ x, x + 4 ≤ 2 ^ 32 → OffChain bs x → word h'.mem x = word h.mem x

/-- Words that stay twice stay. -/
theorem KeepsWords.trans {h'' : Heap} {bs' : List Block} (h1 : KeepsWords h h' bs)
    (h2 : KeepsWords h' h'' bs') (hsub : ∀ c ∈ bs', ∃ c' ∈ bs, c'.start = c.start) :
    KeepsWords h h'' bs := by
  intro x hx hoff
  refine (h2 x hx fun c hc => ?_).trans (h1 x hx hoff)
  obtain ⟨c', hc', heq⟩ := hsub c hc
  rw [← heq]
  exact hoff c' hc'

/-- A store into the chained part of a header. -/
theorem keepsWords_store {m : Mem} {o : Nat} {v : Word} (hb : b ∈ bs) (ho : o + 4 ≤ 16)
    (hroom : b.start + 16 ≤ 2 ^ 32) (hx : x + 4 ≤ 2 ^ 32) (hoff : OffChain bs x) :
    word (store32 m (BitVec.ofNat 32 (b.start + o)) v) x = word m x := by
  have hside := hoff b hb
  exact word_store_ne (by omega) (by omega) hx

/-- Marking a block free leaves the payloads. -/
theorem Spans.setFree_keeps (hrep : Spans lo hi h bs) (hb : b ∈ bs) (v : Word) :
    KeepsWords h (h.setFree (addr b) v) bs := by
  intro x hx hoff
  have hbound := hrep.bounds hb
  rw [addr, setFree_ofNat]
  exact keepsWords_store hb (by decide) (by omega) hx hoff

/-- A fusion leaves those of used blocks. -/
theorem Spans.fusion_keeps (hrep : Spans lo hi h (l ++ b :: r)) :
    KeepsWords h (h.fusion (addr b)) (l ++ b :: r) := by
  intro x hx hoff
  have hb := hrep.bounds (b := b) (by simp)
  cases r with
  | nil =>
      rw [hrep.fusion_eq fun c rest hr => nomatch hr]
  | cons c rest =>
      cases hfree : c.free with
      | false =>
          rw [hrep.fusion_eq fun c' rest' hr => by rw [← (List.cons.inj hr).1]; exact hfree]
      | true =>
          have hfused : word (fused h.mem b c (first rest 0)) x = word h.mem x := by
            rw [fused]
            refine (keepsWords_store (by simp) (by decide) (by omega) hx hoff).trans ?_
            exact keepsWords_store (o := 0) (by simp) (by decide) (by omega) hx hoff
          rw [hrep.fusion_fused hfree]
          cases rest with
          | nil => exact hfused
          | cons d rest =>
              have hd := hrep.bounds (b := d) (by simp)
              have hne : (first (d :: rest) 0 != 0) = true :=
                bne_iff_ne.mpr (addr_ne_zero (b := d) (by omega) (by omega))
              rw [if_pos hne, first, addr, setPrev_ofNat]
              refine Eq.trans ?_ hfused
              exact keepsWords_store (by simp) (by decide) (by omega) hx hoff

/-- So does absorbing. -/
theorem Spans.absorb_keeps (hrep : Spans lo hi h (l ++ b :: r)) :
    KeepsWords h (h.absorb (addr b)).2 (l ++ b :: r) := by
  have h2 := (linked_append.mp hrep.linked).2.1
  rw [Heap.absorb]
  split
  case isFalse => exact fun _ _ _ => rfl
  case isTrue htest =>
    rcases List.eq_nil_or_concat' l with rfl | ⟨l, d, rfl⟩
    · rw [h2.prev_eq] at htest
      cases htest
    · have hlast : last 0 (l ++ [d]) = addr d := last_append
      rw [h2.prev_eq, hlast]
      rw [List.append_assoc, List.singleton_append] at hrep ⊢
      exact hrep.fusion_keeps

/-- So does the release of the end. -/
theorem Spans.release_keeps (hrep : Spans lo hi h (l ++ b :: r)) :
    KeepsWords h (h.release (addr b)) (l ++ b :: r) := by
  have h2 := (linked_append.mp hrep.linked).2.1
  rw [Heap.release]
  split
  case isTrue => exact hrep.fusion_keeps
  case isFalse =>
    intro x hx hoff
    show word (if h.prev (addr b) != 0 then h.setNext (h.prev (addr b)) 0
      else { h with head := 0 }).mem x = word h.mem x
    rw [h2.prev_eq]
    rcases List.eq_nil_or_concat' l with rfl | ⟨l, d, rfl⟩
    · rfl
    · have hlast : last 0 (l ++ [d]) = addr d := last_append
      have hd := hrep.bounds (b := d) (by simp)
      have hne : (addr d != 0) = true := bne_iff_ne.mpr (addr_ne_zero (by omega) (by omega))
      rw [hlast, if_pos hne, addr, setNext_ofNat]
      exact keepsWords_store (by simp) (by decide) (by omega) hx hoff

/-- **Frame.**  `free` leaves the `ptr` fields and all payloads alone. -/
theorem Spans.free_keeps (hrep : Spans lo hi h (l ++ b :: r))
    (hvalid : h.validAddr (data (addr b)) = true) :
    KeepsWords h (h.free (data (addr b))) (l ++ b :: r) := by
  have hmarked := hrep.setFree 1
  obtain ⟨l', d, hrep', hd, habsorbed⟩ := hmarked.absorb rfl
  have heq : h.free (data (addr b)) =
      ((h.setFree (addr b) 1).absorb (addr b)).2.release (addr d) := by
    rw [free_eq hvalid, getBlock_data, ← hd]
    rfl
  have hstart : ∀ c ∈ l ++ (⟨b.start, b.size, true⟩ : Block) :: r,
      ∃ c' ∈ l ++ b :: r, c'.start = c.start := by
    intro c hc
    rcases List.mem_append.mp hc with hl | hc
    · exact ⟨c, List.mem_append_left _ hl, rfl⟩
    · rcases List.mem_cons.mp hc with rfl | hr
      · exact ⟨b, by simp, rfl⟩
      · exact ⟨c, by simp [hr], rfl⟩
  rw [heq]
  refine ((hrep.setFree_keeps (by simp) 1).trans hmarked.absorb_keeps hstart).trans
    hrep'.release_keeps fun c hc => ?_
  obtain ⟨c', hc', hcc, -⟩ := habsorbed.start_mem hc
  obtain ⟨c'', hc'', hcc'⟩ := hstart c' hc'
  exact ⟨c'', hc'', hcc'.trans hcc⟩

/-! ### Space that malloc can give out -/

/-- `malloc` can give out the byte at `x` again: it is in a free block, which the first
request gets that it serves and no earlier block serves, or at the break, where the heap
grows by the first request that no block serves. -/
def Available (h : Heap) (bs : List Block) (x : Nat) : Prop :=
  (∃ l b r, bs = l ++ b :: r ∧ b.free = true ∧ b.start + 20 ≤ x ∧ x < b.stop 20 ∧
    ∀ size, Serves (align4 size) b → (∀ c ∈ l, ¬ Serves (align4 size) c) →
      ∃ h', h.malloc size = some (data (addr b), h')) ∨
  h.heapPtr.toNat ≤ x ∧ ∀ size, fit (align4 size).toNat bs = none →
    ∃ h', h.malloc size = some (data h.heapPtr, h')

/-- **Effect.**  `free(p)` leaves a list of blocks none of which is in use at `p`, and all
bytes of the payload that was there can be given out again. -/
def TakesEffect (h : Heap) (p : Word) : Prop :=
  ∃ bs, (h.free p).Represents bs ∧ (∀ b ∈ bs, b.free = false → data (addr b) ≠ p) ∧
    ∀ i < (h.size (getBlock p)).toNat, Available (h.free p) bs (p.toNat + i)

/-- The payload of a free block is available. -/
theorem Represents.available (hrep : h.Represents (l ++ b :: r)) (hb : b.free = true)
    (hx : b.start + 20 ≤ x ∧ x < b.stop 20) : Available h (l ++ b :: r) x := by
  refine Or.inl ⟨l, b, r, rfl, hb, hx.1, hx.2, fun size hserves hl => ?_⟩
  obtain ⟨h', hmalloc, -⟩ := hrep.spans.malloc_fit (fit_found hserves hl)
  exact ⟨h', hmalloc⟩

/-- What `validAddr` looks at in the payload of a block. -/
theorem Represents.validAddr_iff (hrep : h.Represents (l ++ b :: r)) :
    h.validAddr (data (addr b)) = true ↔
      data (addr b) < h.heapPtr ∧ h.ptr (addr b) = data (addr b) := by
  have hbound := hrep.bounds (b := b) (by simp)
  have hbreak : (h.sbrk 0#32).1 = h.heapPtr := BitVec.add_zero _
  have hhead : h.head ≠ 0 ∧ h.head < data (addr b) := by
    rw [BitVec.lt_def, data_toNat (by omega), hrep.head]
    cases l with
    | nil =>
        rw [List.nil_append, first, addr_toNat (by omega)]
        exact ⟨addr_ne_zero (by omega) (by omega), by omega⟩
    | cons c rest =>
        have hc := hrep.bounds (b := c) (by simp)
        have hbefore := (hrep.spans.sides.1 c (by simp)).1
        rw [List.cons_append, first, addr_toNat (by omega)]
        exact ⟨addr_ne_zero (by omega) (by omega), by omega⟩
  rw [validAddr, hbreak, getBlock_data, bne_iff_ne.mpr hhead.1, decide_eq_true hhead.2,
    Bool.true_and, Bool.true_and, Bool.and_eq_true, decide_eq_true_iff, beq_iff_eq]
  exact and_congr_right fun _ => eq_comm

/-- Which blocks in use are released. -/
theorem Represents.takesEffect_iff (hrep : h.Represents (l ++ b :: r)) (hb : b.free = false) :
    TakesEffect h (data (addr b)) ↔ h.validAddr (data (addr b)) = true := by
  have hbound := hrep.bounds (b := b) (by simp)
  have hp : (data (addr b)).toNat = b.start + 20 := data_toNat (by omega)
  constructor
  · intro heffect
    by_contra hinvalid
    -- an ignored block stays in use
    obtain ⟨bs, hrep', hnone, -⟩ := heffect
    rw [free_invalid (by simpa using hinvalid)] at hrep'
    obtain rfl := hrep'.unique hrep
    exact hnone b (by simp) hb rfl
  · intro hvalid
    obtain ⟨hi', ⟨-, htop⟩, hspans⟩ := hrep.spans.free_valid hvalid
    have hrep' := hspans.represents (htop rfl)
    refine ⟨_, hrep', fun c hc hused heq => ?_, fun i hi => ?_⟩
    · -- the blocks in use lie beside the released one
      have hc' := (mem_freed_iff rfl hused).mp hc
      have hcbound := hrep.bounds (b := c) (by
        rcases List.mem_append.mp hc' with hl | hr
        · exact List.mem_append_left _ hl
        · exact List.mem_append_right _ (List.mem_cons_of_mem _ hr))
      have hstart := congrArg BitVec.toNat heq
      rw [data_toNat (by omega), hp] at hstart
      obtain ⟨hl, hr, -⟩ := hrep.spans.sides
      rcases List.mem_append.mp hc' with hcl | hcr
      · have hbefore := (hl c hcl).1
        omega
      · have hbehind := (hr c hcr).1
        omega
    · rw [getBlock_data, hrep.size_eq] at hi
      rw [hp]
      have htiles : Tiles 20 base.toNat h.heapPtr.toNat (l ++ ⟨b.start, b.size, true⟩ :: r) :=
        hrep.tiles.setFree
      rcases freed_covers htiles rfl (x := b.start + 20 + i)
          ⟨Nat.le_add_right _ _, by simp only [Block.stop]; omega⟩ with
        ⟨l1, d, r1, heq, hfree, hx⟩ | ⟨top, htiles', htop'⟩
      · rw [heq] at hrep' ⊢
        exact hrep'.available hfree hx
      · have hend : top = (h.free (data (addr b))).heapPtr.toNat := by
          rw [htiles'.extent_eq, hrep'.tiles.extent_eq]
        exact Or.inr ⟨by omega, fun size hunfit =>
          hrep'.spans.malloc_at_break hunfit (Nat.le_refl _)⟩

/-! ### Well-formed heaps -/

/-- No two neighbours are free, and the last block is not. -/
structure Tight (bs : List Block) : Prop where
  pairs : bs.IsChain fun b c => b.free = true → c.free = false
  last : ∀ b ∈ bs.getLast?, b.free = false

/-- The blocks are chained in address order up to the break, every header holds the pointer
to its payload, no payload is empty, and free space is joined and cut off. -/
structure WellFormed (h : Heap) (bs : List Block) : Prop where
  represents : h.Represents bs
  ptrs : ∀ b ∈ bs, h.ptr (addr b) = data (addr b)
  sizes : ∀ b ∈ bs, 0 < b.size
  tight : Tight bs

/-- A free block takes in a free neighbour, which is not the last block. -/
theorem tight_join (hr : Tight r) : Tight (join b r) := by
  cases r with
  | nil => exact ⟨List.IsChain.nil, by simp [join]⟩
  | cons c rest =>
      obtain ⟨hnext, hrest⟩ := List.isChain_cons.mp hr.pairs
      rw [join]
      split
      case isTrue hc =>
        -- a free block is not the last one
        cases rest with
        | nil =>
            have hused := hr.last c (by simp)
            rw [hc] at hused
            cases hused
        | cons d rest =>
            refine ⟨List.isChain_cons.mpr ⟨fun e he _ => hnext e he hc, hrest⟩, fun e he => ?_⟩
            refine hr.last e ?_
            rw [List.getLast?_cons_cons] at he ⊢
            exact he
      case isFalse hc =>
        have hused : c.free = false := by simpa using hc
        refine ⟨List.isChain_cons_cons.mpr ⟨fun _ => hused, hr.pairs⟩, fun e he => ?_⟩
        rw [List.getLast?_cons_cons] at he
        exact hr.last e he

/-- **Lists.**  The release of a block in use leaves the free space joined and cut off. -/
theorem Tight.freed (ht : Tight (l ++ b :: r)) :
    Tight (freed l ⟨b.start, b.size, true⟩ r) := by
  obtain ⟨hl, hbr, hmeet⟩ := List.isChain_append.mp ht.pairs
  obtain ⟨hnext, hr⟩ := List.isChain_cons.mp hbr
  have hlastr : ∀ e ∈ r.getLast?, e.free = false := by
    intro e he
    refine ht.last e ?_
    rw [List.getLast?_append, List.getLast?_cons, Option.mem_def.mp he]
    rfl
  have htr : Tight r := ⟨hr, hlastr⟩
  obtain ⟨l', d, habsorbed⟩ := absorbed_exists l ⟨b.start, b.size, true⟩
  rw [habsorbed.freed_eq]
  -- the block before the one that takes the space in is in use
  have hbefore : l'.IsChain (fun b c => b.free = true → c.free = false) ∧
      ∀ e ∈ l'.getLast?, e.free = false := by
    rcases habsorbed with ⟨rfl, rfl, hlast⟩ | ⟨e, rfl, hfree, rfl⟩
    · exact ⟨hl, hlast⟩
    · obtain ⟨hl', -, hpair⟩ := List.isChain_append.mp hl
      refine ⟨hl', fun f hf => ?_⟩
      by_contra hused
      have hnot := hpair f hf e (by simp) (by simpa using hused)
      rw [hfree] at hnot
      cases hnot
  obtain ⟨hl', hlast'⟩ := hbefore
  obtain ⟨hjoin, hjoinLast⟩ := tight_join (b := d) htr
  refine ⟨List.isChain_append.mpr ⟨hl', hjoin, fun e he c _ hfree => ?_⟩, fun e he => ?_⟩
  · rw [hlast' e he] at hfree
    cases hfree
  · rw [List.getLast?_append] at he
    cases hjl : (join d r).getLast? with
    | none =>
        rw [hjl] at he
        exact hlast' e he
    | some f =>
        rw [hjl] at he
        obtain rfl := Option.some.inj he
        exact hjoinLast f hjl

/-- The pointer to a block's payload is valid. -/
theorem WellFormed.validAddr (hw : h.WellFormed (l ++ b :: r)) :
    h.validAddr (data (addr b)) = true := by
  have hpos := hw.sizes b (by simp)
  have hbound := hw.represents.spans.bounds (b := b) (by simp)
  refine hw.represents.validAddr_iff.mpr ⟨?_, hw.ptrs b (by simp)⟩
  rw [BitVec.lt_def, data_toNat (by omega)]
  omega

/-- The `ptr` fields are not written, and no header gets a new place. -/
theorem WellFormed.ptrs_free (hw : h.WellFormed (l ++ b :: r)) :
    ∀ c ∈ freed l ⟨b.start, b.size, true⟩ r,
      (h.free (data (addr b))).ptr (addr c) = data (addr c) := by
  intro c hc
  obtain ⟨c', hc', hstart, -⟩ := freed_start_mem hc
  have hold : ∃ e ∈ l ++ b :: r, e.start = c.start := by
    rcases List.mem_append.mp hc' with hl | hr
    · exact ⟨c', by simp [hl], hstart⟩
    · rcases List.mem_cons.mp hr with rfl | hr
      · exact ⟨b, by simp, hstart⟩
      · exact ⟨c', by simp [hr], hstart⟩
  obtain ⟨e, he, heq⟩ := hold
  have hbound := hw.represents.bounds he
  have hptr (g : Heap) : g.ptr (addr c) = word g.mem (e.start + 16) := by
    rw [addr, ← heq, ptr, word, BitVec.ofNat_add]
  have hkept := hw.represents.spans.free_keeps hw.validAddr (e.start + 16) (by omega)
    fun d hd => by
      by_cases hde : d = e
      · rw [hde]
        exact Or.inr (Nat.le_refl _)
      · have hdisjoint := hw.represents.tiles.disjoint hd he hde
        simp only [Block.stop] at hdisjoint
        omega
  have hbefore := hw.ptrs e he
  have hsame : addr e = addr c := congrArg (BitVec.ofNat 32) heq
  rw [hptr, hkept, ← hptr h, ← hsame]
  exact hbefore

/-- **Well-formed heaps.**  `free` of a block keeps the heap well formed, and takes nothing
but this block out of use; with the last block in use the whole heap is given back. -/
theorem free_keeps_wellFormed (hw : h.WellFormed bs) (hb : b ∈ bs) :
    ∃ bs', (h.free (data (addr b))).WellFormed bs' ∧
      (∀ c, c.free = false → (c ∈ bs' ↔ c ∈ bs ∧ c ≠ b)) ∧
      ((∀ c ∈ bs, c.free = false → c = b) → (h.free (data (addr b))).head = 0 ∧
        (h.free (data (addr b))).heapPtr = h.head) := by
  obtain ⟨l, r, rfl⟩ := List.append_of_mem hb
  obtain ⟨hi', ⟨-, htop⟩, hspans⟩ := hw.represents.spans.free_valid hw.validAddr
  have hrep := hspans.represents (htop rfl)
  have htight := hw.tight.freed
  have hmem (c : Block) (hc : c.free = false) :
      c ∈ freed l ⟨b.start, b.size, true⟩ r ↔ c ∈ l ++ b :: r ∧ c ≠ b := by
    rw [mem_freed_iff rfl hc]
    constructor
    · intro hc'
      have hall : c ∈ l ++ b :: r := by
        rcases List.mem_append.mp hc' with hl | hr
        · exact List.mem_append_left _ hl
        · exact List.mem_append_right _ (List.mem_cons_of_mem _ hr)
      refine ⟨hall, fun heq => ?_⟩
      obtain ⟨hl, hr, -⟩ := hw.represents.spans.sides
      rcases List.mem_append.mp hc' with hcl | hcr
      · have hbefore := (hl c hcl).1
        rw [heq] at hbefore
        omega
      · have hbehind := (hr c hcr).1
        rw [heq] at hbehind
        omega
    · intro ⟨hc', hne⟩
      simpa [hne] using hc'
  refine ⟨_, ⟨hrep, hw.ptrs_free, fun c hc => ?_, htight⟩, hmem, fun honly => ?_⟩
  · obtain ⟨c', hc', -, hle⟩ := freed_start_mem hc
    have hpos : 0 < c'.size := by
      rcases List.mem_append.mp hc' with hl | hr
      · exact hw.sizes c' (by simp [hl])
      · rcases List.mem_cons.mp hr with rfl | hr
        · exact hw.sizes b (by simp)
        · exact hw.sizes c' (by simp [hr])
    omega
  · -- a list that ends with a block in use has one
    have hempty : freed l ⟨b.start, b.size, true⟩ r = [] := by
      cases hlast : (freed l ⟨b.start, b.size, true⟩ r).getLast? with
      | none => exact List.getLast?_eq_none_iff.mp hlast
      | some c =>
          have hfree := htight.last c hlast
          obtain ⟨hc, hne⟩ := (hmem c hfree).mp (List.mem_of_getLast? hlast)
          exact absurd (honly c hc hfree) hne
    rw [hempty] at hrep
    refine ⟨hrep.head, ?_⟩
    have hend : (h.free (data (addr b))).heapPtr = base := BitVec.eq_of_toNat_eq hrep.tiles.symm
    rw [hend, hw.represents.head]
    have htiles := hw.represents.tiles
    cases hbs : l ++ b :: r with
    | nil => simp at hbs
    | cons c rest =>
        rw [hbs] at htiles
        rw [first, addr, htiles.1]
        rfl

/-- A heap of so many blocks of eight bytes. -/
def allocated (mem : Mem) : Nat → Heap
  | 0 => empty mem
  | n + 1 => (((allocated mem n).malloc 8).getD (0, allocated mem n)).2

/-- Four blocks, of which the first and the third are free. -/
def spacedHeap : Heap := ((allocated (fun _ => 0) 4).free (data base)).free (data (base + 56))

/-- Its blocks. -/
def spacedBlocks : List Block :=
  [⟨0xC0000000, 8, true⟩, ⟨0xC000001C, 8, false⟩, ⟨0xC0000038, 8, true⟩, ⟨0xC0000054, 8, false⟩]

/-- The heap is well formed. -/
theorem wellFormed_spaced : spacedHeap.WellFormed spacedBlocks := by
  refine ⟨⟨?_, ?_, by decide +kernel⟩, by decide +kernel, by decide +kernel, ?_, by decide +kernel⟩
  · have hend : Block.stop 20 ⟨0xC0000054, 8, false⟩ = spacedHeap.heapPtr.toNat := by
      decide +kernel
    exact ⟨rfl, rfl, rfl, rfl, hend⟩
  · exact ⟨⟨by decide +kernel, by decide +kernel, by decide +kernel, by decide +kernel⟩,
      ⟨by decide +kernel, by decide +kernel, by decide +kernel, by decide +kernel⟩,
      ⟨by decide +kernel, by decide +kernel, by decide +kernel, by decide +kernel⟩,
      ⟨by decide +kernel, by decide +kernel, by decide +kernel, by decide +kernel⟩, trivial⟩
  · decide +kernel

/-- The second block is freed and takes in both its neighbours; then the last one is, and
nothing is left. -/
theorem spacedHeap_freed : ∃ fused,
    (spacedHeap.free (data (base + 28))).size base = 64 ∧
      (spacedHeap.free (data (base + 28))).WellFormed fused ∧
      (∀ c, c.free = false →
        (c ∈ fused ↔ c ∈ spacedBlocks ∧ c ≠ ⟨0xC000001C, 8, false⟩)) ∧
      ((spacedHeap.free (data (base + 28))).free (data (base + 84))).head = 0 ∧
      ((spacedHeap.free (data (base + 28))).free (data (base + 84))).heapPtr = base := by
  have hused : ∀ c ∈ spacedBlocks, c.free = false →
      c ≠ ⟨0xC000001C, 8, false⟩ → c = ⟨0xC0000054, 8, false⟩ := by
    decide +kernel
  have hsecond : addr ⟨0xC000001C, 8, false⟩ = base + 28 := rfl
  have hfourth : addr ⟨0xC0000054, 8, false⟩ = base + 84 := rfl
  obtain ⟨fused, hfused, hmem, -⟩ :=
    free_keeps_wellFormed wellFormed_spaced (List.mem_cons_of_mem _ List.mem_cons_self)
  rw [hsecond] at hfused
  have hlast : ⟨0xC0000054, 8, false⟩ ∈ fused := by
    refine (hmem _ rfl).mpr ⟨by decide +kernel, by decide +kernel⟩
  obtain ⟨_, -, -, hnothing⟩ := free_keeps_wellFormed hfused hlast
  rw [hfourth] at hnothing
  obtain ⟨hhead, hbreak⟩ := hnothing fun c hc hfree =>
    hused c ((hmem c hfree).mp hc).1 hfree ((hmem c hfree).mp hc).2
  exact ⟨fused, by decide +kernel, hfused, hmem, hhead, hbreak.trans (by decide +kernel)⟩

end Heap

/-! ### The pointers of a session -/

namespace Session

variable {s : Session} {mem : Mem}

/-- **Release.**  In every state of a run in which no allocation meets a stale cursor,
`free` takes effect on exactly those of the live pointers that `validAddr` accepts: the
pointer is below the break, and the `ptr` field of its header holds it. -/
theorem free_takesEffect_iff
    (hrun : Reaches (fun s c => Allowed s c ∧ Fresh s c) (boot mem) s) {a : Allocation}
    (ha : a ∈ s.live) : s.heap.TakesEffect a.ptr ↔
      a.ptr < s.heap.heapPtr ∧ s.heap.ptr (Heap.getBlock a.ptr) = a.ptr := by
  obtain ⟨bs, hholds⟩ := holds_of_reaches hrun
  obtain ⟨b, hb, hused, hptr, -⟩ := hholds.live a ha
  obtain ⟨l, r, rfl⟩ := List.append_of_mem hb
  have hrep := hholds.represents
  rw [hptr, hrep.takesEffect_iff hused, hrep.validAddr_iff, Heap.getBlock_data]

/-- A block is split, and the rest is taken. -/
def splitCalls : List Call := [.malloc 60, .malloc 4, .free 0xC0000014, .malloc 4, .malloc 36]

/-- The guarantee on the part of the block that was split. -/
theorem split_part_freed : ∃ s,
    Run.execute call (fun s c => Allowed s c ∧ Fresh s c) (boot fun _ => 0) splitCalls = some s ∧
      (s.heap.TakesEffect 0xC0000014 ↔ 0xC0000014 < s.heap.heapPtr ∧
        s.heap.ptr (Heap.getBlock 0xC0000014) = 0xC0000014) := by
  have hruns : (Run.execute call (fun s c => Allowed s c ∧ Fresh s c) (boot fun _ => 0)
      splitCalls).any (fun s => (s.live.map Allocation.ptr).contains 0xC0000014) = true := by
    decide +kernel
  obtain ⟨s, hs, hlive⟩ := (Option.any_eq_true _ _).mp hruns
  obtain ⟨a, ha, hptr⟩ := List.mem_map.mp (List.contains_iff_mem.mp hlive)
  have hiff := free_takesEffect_iff (Run.reaches_of_execute id hs) ha
  rw [hptr] at hiff
  exact ⟨s, hs, hiff⟩

/-- The header of the rest does not hold its pointer, and `free` ignores it. -/
theorem split_rest_not_freed : ¬ ∀ mem s,
    Reaches (fun s c => Allowed s c ∧ Fresh s c) (boot mem) s →
      ∀ a ∈ s.live, s.heap.TakesEffect a.ptr := by
  intro hall
  have hruns : (Run.execute call (fun s c => Allowed s c ∧ Fresh s c) (boot fun _ => 0)
      splitCalls).any (fun s => s.live.any fun a => a.ptr == 0xC000002C &&
        s.heap.validAddr 0xC000002C == false) = true := by
    decide +kernel
  obtain ⟨s, hs, hlive⟩ := (Option.any_eq_true _ _).mp hruns
  obtain ⟨a, ha, hcheck⟩ := List.any_eq_true.mp hlive
  obtain ⟨hptr, hinvalid⟩ := (Bool.and_eq_true _ _).mp hcheck
  have hrun : Reaches (fun s c => Allowed s c ∧ Fresh s c) (boot fun _ => 0) s :=
    Run.reaches_of_execute id hs
  obtain ⟨bs, hholds⟩ := holds_of_reaches hrun
  obtain ⟨b, hb, hused, hptr', -⟩ := hholds.live a ha
  obtain ⟨l, r, rfl⟩ := List.append_of_mem hb
  have heffect := hall _ s hrun a ha
  rw [hptr', hholds.represents.takesEffect_iff hused, ← hptr', eq_of_beq hptr,
    eq_of_beq hinvalid] at heffect
  cases heffect

end Session

end Kernel
