import BobbyOS.Kernel.HeapInvariant

/-!
# What the heap routines do to the block list

`malloc` takes the first block that serves the request, or appends one at the
break; `free` marks a block, fuses it with its free neighbours and cuts it off
where it is the last one.  The functions of this file are these changes on
lists of blocks, and the specifications say that the routines make them on any
list, wherever it lies.

* `fit`, `released`: the list after `malloc` in a block and after `free`;
* `Spans.malloc_found`, `Spans.malloc_grows`, `Spans.malloc_empty`: the three
  ways of `malloc`;
* `Spans.free`: the way of `free`.
-/

namespace Kernel

open ByteMemory Tiling

namespace Heap

variable {b c d : Block} {l r bs : List Block} {lo hi : Nat}

/-! ### Lists of blocks -/

/-- The blocks that take the place of a block that serves `s` bytes. -/
def place (s : Nat) (b : Block) : List Block :=
  if 24 ≤ b.size - s then [⟨b.start, s, false⟩, ⟨b.start + 20 + s, b.size - s - 20, true⟩]
  else [⟨b.start, b.size, false⟩]

/-- The first block that serves `s` bytes, and the list with it placed. -/
def fit (s : Nat) : List Block → Option (Nat × List Block)
  | [] => none
  | b :: rest =>
      if b.free = true ∧ s ≤ b.size then some (b.start, place s b ++ rest)
      else (fit s rest).map fun (a, bs) => (a, b :: bs)

/-- The first block that serves the request is taken. -/
theorem fit_found {s : Word} (hb : Serves s b) (hl : ∀ c ∈ l, ¬ Serves s c) :
    fit s.toNat (l ++ b :: r) = some (b.start, l ++ (place s.toNat b ++ r)) := by
  induction l with
  | nil => exact if_pos hb
  | cons c l ih =>
      have hc : ¬ (c.free = true ∧ s.toNat ≤ c.size) := hl c List.mem_cons_self
      rw [List.cons_append, fit, if_neg hc, ih fun d hd => hl d (List.mem_cons_of_mem _ hd)]
      rfl

/-- Where no block serves it, none is. -/
theorem fit_none {s : Word} (h : ∀ c ∈ bs, ¬ Serves s c) : fit s.toNat bs = none := by
  induction bs with
  | nil => rfl
  | cons c rest ih =>
      have hc : ¬ (c.free = true ∧ s.toNat ≤ c.size) := h c List.mem_cons_self
      rw [fit, if_neg hc, ih fun d hd => h d (List.mem_cons_of_mem _ hd)]
      rfl

/-- The placed block is in use and large enough, and what was in use stays. -/
theorem mem_fit {s a : Nat} {bs' : List Block} (h : fit s bs = some (a, bs')) :
    (∃ d ∈ bs', d.start = a ∧ d.free = false ∧ s ≤ d.size) ∧
      ∀ c ∈ bs, c.free = false → c ∈ bs' := by
  induction bs generalizing bs' with
  | nil => cases h
  | cons b rest ih =>
      rw [fit] at h
      split at h
      · rename_i hb
        obtain ⟨rfl, rfl⟩ := Prod.mk.inj (Option.some.inj h)
        refine ⟨?_, fun c hc hused => ?_⟩
        · by_cases hfit : 24 ≤ b.size - s
          · exact ⟨⟨b.start, s, false⟩, by simp [place, hfit], rfl, rfl, Nat.le_refl _⟩
          · exact ⟨⟨b.start, b.size, false⟩, by simp [place, hfit], rfl, rfl, hb.2⟩
        · rcases List.mem_cons.mp hc with rfl | hc'
          · rw [hb.1] at hused
            cases hused
          · exact List.mem_append_right _ hc'
      · obtain ⟨⟨a', bs''⟩, hrest, heq⟩ := Option.map_eq_some_iff.mp h
        obtain ⟨rfl, rfl⟩ := Prod.mk.inj heq
        obtain ⟨⟨d, hd, hstart, hfree, hsize⟩, hkeep⟩ := ih hrest
        refine ⟨⟨d, List.mem_cons_of_mem _ hd, hstart, hfree, hsize⟩, fun c hc hused => ?_⟩
        rcases List.mem_cons.mp hc with rfl | hc'
        · exact List.mem_cons_self
        · exact List.mem_cons_of_mem _ (hkeep c hc' hused)

/-- A moved block is divided alike. -/
theorem place_shift {s k : Nat} : place s (b.shift k) = (place s b).map (Block.shift k) := by
  have hsize : (b.shift k).size = b.size := rfl
  rw [place, place, hsize]
  split
  · simp [Block.shift, Nat.add_assoc]
  · rfl

/-- The search looks at sizes and flags only, so a moved list is served alike. -/
theorem fit_shift {s k : Nat} : fit s (bs.map (Block.shift k)) =
    (fit s bs).map fun (a, bs) => (k + a, bs.map (Block.shift k)) := by
  induction bs with
  | nil => rfl
  | cons b rest ih =>
      rw [List.map_cons, fit, fit, ih]
      by_cases hb : b.free = true ∧ s ≤ b.size
      · have hb' : (b.shift k).free = true ∧ s ≤ (b.shift k).size := hb
        rw [if_pos hb, if_pos hb', place_shift, ← List.map_append]
        rfl
      · have hb' : ¬ ((b.shift k).free = true ∧ s ≤ (b.shift k).size) := hb
        rw [if_neg hb, if_neg hb', Option.map_map, Option.map_map]
        rfl

/-- The block and a neighbour behind it. -/
def fuse (b c : Block) : Block := ⟨b.start, b.size + (20 + c.size), b.free⟩

/-- The end of the list from a freed block on: it goes away where it is the
last one and takes in a free neighbour. -/
def join (b : Block) : List Block → List Block
  | [] => []
  | c :: rest => if c.free = true then fuse b c :: rest else b :: c :: rest

/-- The list after `free` of `b`, which is marked free already. -/
def freed : List Block → Block → List Block → List Block
  | [], b, r => join b r
  | [d], b, r => if d.free = true then join (fuse d b) r else d :: join b r
  | d :: e :: l, b, r => d :: freed (e :: l) b r

/-- The list behind `free`, by its last block before the freed one. -/
theorem freed_concat : freed (l ++ [d]) b r =
    l ++ if d.free = true then join (fuse d b) r else d :: join b r := by
  induction l with
  | nil => rfl
  | cons c l ih =>
      cases l with
      | nil => exact congrArg (c :: ·) ih
      | cons e l => exact congrArg (c :: ·) ih

/-- Behind `l'`, the block `d` takes in a freed block `b` behind `l`: a free block before
it does, or it stays by itself. -/
def Absorbed (l : List Block) (b : Block) (l' : List Block) (d : Block) : Prop :=
  (l' = l ∧ d = b ∧ ∀ e ∈ l.getLast?, e.free = false) ∨
    ∃ e, l = l' ++ [e] ∧ e.free = true ∧ d = fuse e b

/-- A freed block is taken in by a free one before it, or not. -/
theorem absorbed_exists (l : List Block) (b : Block) : ∃ l' d, Absorbed l b l' d := by
  rcases List.eq_nil_or_concat' l with rfl | ⟨l, e, rfl⟩
  · exact ⟨[], b, Or.inl ⟨rfl, rfl, by simp⟩⟩
  · cases hfree : e.free with
    | false => exact ⟨l ++ [e], b, Or.inl ⟨rfl, rfl, by simpa using hfree⟩⟩
    | true => exact ⟨l, fuse e b, Or.inr ⟨e, rfl, hfree, rfl⟩⟩

/-- The list behind `free`, by the block that has taken the freed one in. -/
theorem Absorbed.freed_eq {l' : List Block} (h : Absorbed l b l' d) :
    freed l b r = l' ++ join d r := by
  rcases h with ⟨rfl, rfl, hlast⟩ | ⟨e, rfl, hfree, rfl⟩
  · rcases List.eq_nil_or_concat' l' with rfl | ⟨l, e, rfl⟩
    · rfl
    · have hused : e.free = false := hlast e (by simp)
      rw [freed_concat, hused, if_neg (by decide), List.append_assoc, List.singleton_append]
  · rw [freed_concat, if_pos hfree]

/-- Moved blocks are joined alike. -/
theorem join_shift {k : Nat} :
    join (b.shift k) (r.map (Block.shift k)) = (join b r).map (Block.shift k) := by
  cases r with
  | nil => rfl
  | cons c rest =>
      rw [List.map_cons, join, join]
      have hfree : (c.shift k).free = c.free := rfl
      rw [hfree]
      split <;> rfl

/-- A moved list is released alike. -/
theorem freed_shift {k : Nat} : freed (l.map (Block.shift k)) (b.shift k) (r.map (Block.shift k)) =
    (freed l b r).map (Block.shift k) := by
  rcases List.eq_nil_or_concat' l with rfl | ⟨l, d, rfl⟩
  · exact join_shift
  · rw [List.map_append, List.map_singleton, freed_concat, freed_concat, List.map_append]
    have hfree : (d.shift k).free = d.free := rfl
    have hfuse : fuse (d.shift k) (b.shift k) = (fuse d b).shift k := rfl
    rw [hfree, hfuse]
    split
    · rw [join_shift]
    · rw [join_shift, List.map_cons]

/-- The number of blocks in use. -/
def used (bs : List Block) : Nat := bs.countP fun b => !b.free

/-- The used bytes of two lists. -/
theorem used_append : used (l ++ r) = used l + used r := List.countP_append

/-- Joining free blocks uses nothing. -/
theorem used_join (hb : b.free = true) : used (join b r) = used r := by
  cases r with
  | nil => rfl
  | cons c rest =>
      rw [join]
      split
      · rename_i hc
        simp [used, fuse, hb, hc]
      · simp [used, hb]

/-- Releasing a block that is marked free leaves as many in use. -/
theorem used_freed (hb : b.free = true) : used (freed l b r) = used l + used r := by
  rcases List.eq_nil_or_concat' l with rfl | ⟨l, d, rfl⟩
  · rw [freed, used_join hb]
    simp [used]
  · rw [freed_concat, used_append, used_append]
    split
    · rename_i hd
      rw [used_join (b := fuse d b) hd]
      simp [used, hd]
    · have hcons : used (d :: join b r) = used [d] + used (join b r) :=
        used_append (l := [d])
      rw [hcons, used_join hb, Nat.add_assoc]

/-- A used block stays. -/
theorem mem_join (hc : c ∈ r) (hused : c.free = false) : c ∈ join b r := by
  cases r with
  | nil => cases hc
  | cons e rest =>
      rw [join]
      rcases List.mem_cons.mp hc with rfl | hc'
      · rw [hused, if_neg (by decide)]
        exact List.mem_cons_of_mem _ List.mem_cons_self
      · split
        · exact List.mem_cons_of_mem _ hc'
        · exact List.mem_cons_of_mem _ (List.mem_cons_of_mem _ hc')

/-- Every other used block stays. -/
theorem mem_freed (hc : c ∈ l ++ r) (hused : c.free = false) : c ∈ freed l b r := by
  rcases List.eq_nil_or_concat' l with rfl | ⟨l, d, rfl⟩
  · exact mem_join hc hused
  · rw [freed_concat]
    rcases List.mem_append.mp hc with hc' | hc'
    · rcases List.mem_append.mp hc' with hl | hd
      · exact List.mem_append_left _ hl
      · obtain rfl := List.mem_singleton.mp hd
        rw [hused, if_neg (by decide)]
        exact List.mem_append_right _ List.mem_cons_self
    · refine List.mem_append_right _ ?_
      split
      · exact mem_join hc' hused
      · exact List.mem_cons_of_mem _ (mem_join hc' hused)

/-- The list after `free` of a block in use that `validAddr` accepts or not. -/
def released (valid : Bool) (l : List Block) (b : Block) (r : List Block) : List Block :=
  if valid = true then freed l ⟨b.start, b.size, true⟩ r else l ++ b :: r

/-- So it does behind `free`. -/
theorem mem_released {valid : Bool} (hc : c ∈ l ++ r) (hused : c.free = false) :
    c ∈ released valid l b r := by
  rw [released]
  split
  · exact mem_freed hc hused
  · rcases List.mem_append.mp hc with hc' | hc'
    · exact List.mem_append_left _ hc'
    · exact List.mem_append_right _ (List.mem_cons_of_mem _ hc')

/-- `free` looks at sizes and flags only, so a moved list is left alike. -/
theorem released_shift {valid : Bool} {k : Nat} :
    released valid (l.map (Block.shift k)) (b.shift k) (r.map (Block.shift k)) =
      (released valid l b r).map (Block.shift k) := by
  cases valid with
  | true => exact freed_shift (b := ⟨b.start, b.size, true⟩)
  | false =>
      have happend : (l ++ b :: r).map (Block.shift k) = _ := List.map_append
      exact happend.symm

/-- An accepted block goes out of use, a refused one stays in use. -/
theorem used_released {valid : Bool} (hused : b.free = false) :
    used (released valid l b r) = used l + used r + if valid = true then 0 else 1 := by
  cases valid with
  | true => exact used_freed rfl
  | false =>
      have hcons : used (b :: r) = used r + 1 := by simp [used, hused]
      rw [released, if_neg (by decide), if_neg (by decide), used_append, hcons, Nat.add_assoc]

/-! ### The routines -/

/-- Only the memory and the head carry the list. -/
theorem Spans.of_eq {h h' : Heap} (hs : Spans lo hi h bs) (hmem : h'.mem = h.mem)
    (hhead : h'.head = h.head) : Spans lo hi h' bs :=
  ⟨hs.pos, hs.room, hs.tiles, by rw [hmem]; exact hs.linked, by rw [hhead]; exact hs.head⟩

/-- A store leaves the break. -/
theorem store_heapPtr {h : Heap} {a v : Word} : (h.store a v).heapPtr = h.heapPtr := rfl

/-- It leaves the cursor. -/
theorem store_lastVisited {h : Heap} {a v : Word} :
    (h.store a v).lastVisited = h.lastVisited := rfl

/-- A division leaves the break. -/
theorem splitBlock_heapPtr {h : Heap} {a s : Word} : (h.splitBlock a s).heapPtr = h.heapPtr := by
  rw [Heap.splitBlock]
  split
  · simp only [setPrev, setNext, setFree, setSize, store_heapPtr]
  · simp only [setPrev, setNext, setFree, setSize, store_heapPtr]

/-- It leaves the cursor. -/
theorem splitBlock_lastVisited {h : Heap} {a s : Word} :
    (h.splitBlock a s).lastVisited = h.lastVisited := by
  rw [Heap.splitBlock]
  split
  · simp only [setPrev, setNext, setFree, setSize, store_lastVisited]
  · simp only [setPrev, setNext, setFree, setSize, store_lastVisited]

/-- A fusion leaves the break. -/
theorem fusion_heapPtr {h : Heap} {x : Word} : (h.fusion x).heapPtr = h.heapPtr := by
  rw [Heap.fusion]
  split
  · dsimp only
    split <;> rfl
  · rfl

/-- It leaves the cursor. -/
theorem fusion_lastVisited {h : Heap} {x : Word} : (h.fusion x).lastVisited = h.lastVisited := by
  rw [Heap.fusion]
  split
  · dsimp only
    split <;> rfl
  · rfl

/-- `malloc` in a block of the list. -/
theorem Spans.malloc_found {h : Heap} (hrep : Spans lo hi h (l ++ b :: r)) {size v : Word}
    (hserves : Serves (align4 size) b) (hhead : h.head ≠ 0)
    (hfind : findBlock { h with lastVisited := h.head } (align4 size) =
      some (addr b, { h with lastVisited := v })) :
    ∃ h', h.malloc size = some (data (addr b), h') ∧ h'.lastVisited = v ∧
      h'.heapPtr = h.heapPtr ∧ Spans lo hi h' (l ++ (place (align4 size).toNat b ++ r)) := by
  obtain ⟨hl, hr, hb⟩ := hrep.sides
  obtain ⟨h1, h2, h3⟩ := linked_append.mp hrep.linked
  have hne : (addr b != 0) = true := bne_iff_ne.mpr (addr_ne_zero (by omega) (by omega))
  generalize hs : align4 size = s at *
  have hle := hserves.2
  have hcursor : Spans lo hi { h with lastVisited := v } (l ++ b :: r) := hrep.of_eq rfl rfl
  have hsize : ({ h with lastVisited := v } : Heap).size (addr b) = BitVec.ofNat 32 b.size :=
    h2.size_eq
  have htest : ({ h with lastVisited := v } : Heap).size (addr b) - s ≥ blockheaderOffset + 4#32 ↔
      24 ≤ b.size - s.toNat := by
    have hoff : (blockheaderOffset + 4#32).toNat = 24 := rfl
    have hsub : (BitVec.ofNat 32 b.size - s).toNat = b.size - s.toNat := by
      rw [BitVec.toNat_sub, BitVec.toNat_ofNat]
      omega
    rw [hsize, ge_iff_le, BitVec.le_def, hoff, hsub]
  have hmalloc : h.malloc size = some (data (addr b),
      (if ({ h with lastVisited := v } : Heap).size (addr b) - s ≥ blockheaderOffset + 4#32 then
        ({ h with lastVisited := v } : Heap).splitBlock (addr b) s
      else { h with lastVisited := v }).setFree (addr b) 0) := by
    rw [Heap.malloc, hs, if_pos (bne_iff_ne.mpr hhead), hfind]
    simp only [Option.map_some, if_pos hne]
  refine ⟨_, hmalloc, ?_, ?_, ?_⟩
  · split
    · exact splitBlock_lastVisited
    · rfl
  · split
    · exact splitBlock_heapPtr
    · rfl
  · by_cases hfit : 24 ≤ b.size - s.toNat
    · rw [if_pos (htest.mpr hfit), place, if_pos hfit]
      have := (hcursor.splitBlock (s := s) (by omega)).setFree 0
      exact this
    · rw [if_neg (fun hc => hfit (htest.mp hc)), place, if_neg hfit]
      exact hcursor.setFree 0

/-- `extendHeap` at the break, once the cursor is on the last block. -/
theorem Spans.extendHeap_spans {h : Heap} (hrep : Spans lo hi h bs) {s : Word}
    (htop : h.heapPtr.toNat = hi) (hlast : h.lastVisited = last 0 bs)
    (hfit : hi + 20 + s.toNat < 2 ^ 32) :
    ∃ h', h.extendHeap s = (h.heapPtr, h') ∧ h'.lastVisited = h.lastVisited ∧ h'.head = h.head ∧
      h'.heapPtr.toNat = hi + 20 + s.toNat ∧
      Spans lo (hi + 20 + s.toNat) { h' with head := first (bs ++ [⟨hi, s.toNat, false⟩]) 0 }
        (bs ++ [⟨hi, s.toNat, false⟩]) := by
  obtain ⟨m', hextend, hlinked⟩ := hrep.extendHeap (s := s) htop hlast (by omega)
  rw [htop] at hextend hlinked
  refine ⟨_, hextend, rfl, rfl, ?_, hrep.pos, hfit, hrep.tiles.extend, hlinked, rfl⟩
  rw [BitVec.toNat_ofNat, Nat.mod_eq_of_lt hfit]

/-- The list is null exactly without blocks. -/
theorem Spans.head_eq_zero {h : Heap} (hrep : Spans lo hi h bs) : h.head = 0 ↔ bs = [] := by
  rw [hrep.head]
  cases bs with
  | nil => simp [first]
  | cons b rest =>
      have hb := hrep.bounds (b := b) List.mem_cons_self
      have hne : first (b :: rest) 0 ≠ 0 := addr_ne_zero (b := b) (by omega) (by omega)
      exact ⟨fun h0 => absurd h0 hne, fun h0 => absurd h0 (List.cons_ne_nil _ _)⟩

/-- The break behind a list is not null. -/
theorem Spans.heapPtr_ne_zero {h : Heap} (hrep : Spans lo hi h bs) (htop : hi ≤ h.heapPtr.toNat) :
    h.heapPtr ≠ 0 := by
  intro heq
  have hge := hrep.tiles.le
  have hpos := hrep.pos
  rw [heq] at htop
  simp at htop
  omega

/-- `malloc` on an empty list whose cursor is null. -/
theorem Spans.malloc_empty {h : Heap} (hrep : Spans lo hi h []) {size : Word}
    (htop : h.heapPtr.toNat = hi) (hcursor : h.lastVisited = 0)
    (hfit : hi + 20 + (align4 size).toNat < 2 ^ 32) :
    ∃ h', h.malloc size = some (data h.heapPtr, h') ∧ h'.lastVisited = h.lastVisited ∧
      h'.heapPtr.toNat = hi + 20 + (align4 size).toNat ∧
      Spans lo (hi + 20 + (align4 size).toNat) h' [⟨hi, (align4 size).toNat, false⟩] := by
  obtain ⟨h', hextend, hsame, -, hbreak, hrep'⟩ := hrep.extendHeap_spans htop hcursor hfit
  have hempty : (h.head != 0) = false := by simpa using hrep.head_eq_zero.mpr rfl
  refine ⟨{ h' with head := h.heapPtr }, ?_, hsame, hbreak, ?_⟩
  · rw [Heap.malloc, hempty]
    simp only [Bool.false_eq_true, if_false, hextend, if_neg (hrep.heapPtr_ne_zero (by omega))]
  · have hfirst : first ([] ++ [⟨hi, (align4 size).toNat, false⟩]) 0 = h.heapPtr := by
      rw [← htop]
      exact (BitVec.ofNat_toNat _ _).trans (BitVec.setWidth_eq _)
    rw [← hfirst]
    exact hrep'

/-- `malloc` when no block of the list serves the request. -/
theorem Spans.malloc_grows {h : Heap} (hrep : Spans lo hi h bs) {size : Word}
    (htop : h.heapPtr.toNat = hi) (hhead : h.head ≠ 0)
    (hfind : findBlock { h with lastVisited := h.head } (align4 size) =
      some (0, { h with lastVisited := last h.head bs }))
    (hfit : hi + 20 + (align4 size).toNat < 2 ^ 32) :
    ∃ h', h.malloc size = some (data h.heapPtr, h') ∧ h'.lastVisited = last h.head bs ∧
      h'.heapPtr.toNat = hi + 20 + (align4 size).toNat ∧
      Spans lo (hi + 20 + (align4 size).toNat) h' (bs ++ [⟨hi, (align4 size).toNat, false⟩]) := by
  cases bs with
  | nil => exact absurd (hrep.head_eq_zero.mpr rfl) hhead
  | cons b rest =>
      have hcursor : Spans lo hi { h with lastVisited := last h.head (b :: rest) } (b :: rest) :=
        hrep.of_eq rfl rfl
      obtain ⟨h', hextend, hsame, hhead', hbreak, hrep'⟩ :=
        hcursor.extendHeap_spans htop rfl hfit
      refine ⟨h', ?_, hsame, hbreak, hrep'.of_eq rfl (hhead'.trans hrep.head)⟩
      have hzero : ((0 : Word) != 0) = false := rfl
      rw [Heap.malloc, if_pos (bne_iff_ne.mpr hhead), hfind]
      simp only [Option.map_some, hzero, Bool.false_eq_true, if_false, hextend,
        if_neg (hrep.heapPtr_ne_zero (by omega))]

/-- `malloc` where a block serves the request. -/
theorem Spans.malloc_fit {h : Heap} (hrep : Spans lo hi h bs) {size : Word} {a : Nat}
    {bs' : List Block} (hfit : fit (align4 size).toNat bs = some (a, bs')) :
    ∃ h', h.malloc size = some (data (BitVec.ofNat 32 a), h') ∧ h'.heapPtr = h.heapPtr ∧
      Spans lo hi h' bs' := by
  rcases hrep.findBlock_spec (align4 size) h.head with
    ⟨l, b, r, rfl, hserves, hl, hfind⟩ | ⟨hnone, -⟩
  · have hhead : h.head ≠ 0 := fun h0 => by simpa using hrep.head_eq_zero.mp h0
    rw [fit_found hserves hl] at hfit
    obtain ⟨rfl, rfl⟩ := Prod.mk.inj (Option.some.inj hfit)
    obtain ⟨h', hmalloc, -, hbreak, hrep'⟩ := hrep.malloc_found hserves hhead hfind
    exact ⟨h', hmalloc, hbreak, hrep'⟩
  · rw [fit_none hnone] at hfit
    cases hfit

/-- The heap grows where no block serves the request. -/
theorem Spans.grows_iff {h : Heap} (hrep : Spans lo hi h bs) {s : Word} :
    (h.head = 0 ∨ (findBlock { h with lastVisited := h.head } s).map Prod.fst = some 0) ↔
      fit s.toNat bs = none := by
  rcases hrep.findBlock_spec s h.head with ⟨l, b, r, rfl, hserves, hl, hfind⟩ | ⟨hnone, hfind⟩
  · obtain ⟨-, hpos, -, hroom⟩ := hrep.bounds (b := b) (by simp)
    have hne : addr b ≠ 0 := addr_ne_zero hpos (by omega)
    rw [fit_found hserves hl, hfind, hrep.head_eq_zero]
    simpa using hne
  · rw [fit_none hnone, hfind]
    simp

/-- `malloc` where the heap grows, with the break at the top of the list. -/
theorem Spans.malloc_unfit {h : Heap} (hrep : Spans lo hi h bs) {size : Word}
    (hunfit : fit (align4 size).toNat bs = none) (htop : h.heapPtr.toNat = hi)
    (hcursor : bs = [] → h.lastVisited = 0) (hroom : hi + 20 + (align4 size).toNat < 2 ^ 32) :
    ∃ h', h.malloc size = some (data h.heapPtr, h') ∧
      h'.heapPtr.toNat = hi + 20 + (align4 size).toNat ∧
      Spans lo (hi + 20 + (align4 size).toNat) h' (bs ++ [⟨hi, (align4 size).toNat, false⟩]) := by
  by_cases hhead : h.head = 0
  · obtain rfl := hrep.head_eq_zero.mp hhead
    obtain ⟨h', hmalloc, -, hbreak, hrep'⟩ := hrep.malloc_empty htop (hcursor rfl) hroom
    exact ⟨h', hmalloc, hbreak, hrep'⟩
  · rcases hrep.findBlock_spec (align4 size) h.head with
      ⟨l, b, r, rfl, hserves, hl, -⟩ | ⟨-, hfind⟩
    · rw [fit_found hserves hl] at hunfit
      cases hunfit
    · obtain ⟨h', hmalloc, -, hbreak, hrep'⟩ := hrep.malloc_grows htop hhead hfind hroom
      exact ⟨h', hmalloc, hbreak, hrep'⟩

/-- Wherever the break is, a growing heap returns the payload at the break. -/
theorem Spans.malloc_at_break {h : Heap} (hrep : Spans lo hi h bs) {size : Word}
    (hunfit : fit (align4 size).toNat bs = none) (htop : hi ≤ h.heapPtr.toNat) :
    ∃ h', h.malloc size = some (data h.heapPtr, h') := by
  have hne := hrep.heapPtr_ne_zero htop
  have hit : ∀ v, (Heap.extendHeap { h with lastVisited := v } (align4 size)).1 = h.heapPtr :=
    fun v => BitVec.add_zero _
  by_cases hhead : h.head = 0
  · have hit' := hit h.lastVisited
    have hempty : (h.head != 0) = false := by simpa using hhead
    rw [Heap.malloc, hempty]
    simp only [Bool.false_eq_true, if_false, hit', if_neg hne]
    exact ⟨_, rfl⟩
  · rcases hrep.findBlock_spec (align4 size) h.head with
      ⟨l, b, r, rfl, hserves, hl, -⟩ | ⟨-, hfind⟩
    · rw [fit_found hserves hl] at hunfit
      cases hunfit
    · have hzero : ((0 : Word) != 0) = false := rfl
      rw [Heap.malloc, if_pos (bne_iff_ne.mpr hhead), hfind]
      simp only [Option.map_some, hzero, Bool.false_eq_true, if_false, hit, if_neg hne]
      exact ⟨_, rfl⟩

/-- The header of a payload is its block. -/
theorem getBlock_data (x : Word) : getBlock (data x) = x := by
  rw [getBlock, data, blockheaderOffset, BitVec.add_sub_cancel]

/-- The beginning of `free`: a free block before takes the block in. -/
def absorb (h : Heap) (it : Word) : Word × Heap :=
  if h.prev it != 0 && h.isFree (h.prev it) then (h.prev it, h.fusion (h.prev it)) else (it, h)

/-- The end of `free`, from the block that takes in the freed one. -/
def release (h : Heap) (it : Word) : Heap :=
  if h.next it != 0 then h.fusion it
  else
    let h := if h.prev it != 0 then h.setNext (h.prev it) 0 else { h with head := 0 }
    h.brk it

/-- `free` marks its block, lets a neighbour absorb it and releases the end. -/
theorem free_eq {h : Heap} {p : Word} (hvalid : h.validAddr p = true) :
    h.free p = ((h.setFree (getBlock p) 1).absorb (getBlock p)).2.release
      ((h.setFree (getBlock p) 1).absorb (getBlock p)).1 := by
  rw [Heap.free, if_pos hvalid]
  rfl

/-- Absorbing leaves the break. -/
theorem absorb_heapPtr {h : Heap} {x : Word} : (h.absorb x).2.heapPtr = h.heapPtr := by
  rw [Heap.absorb]
  split
  · exact fusion_heapPtr
  · rfl

/-- `free` leaves the cursor. -/
theorem free_lastVisited {h : Heap} {p : Word} : (h.free p).lastVisited = h.lastVisited := by
  have hrelease : ∀ (h : Heap) x, (h.release x).lastVisited = h.lastVisited := by
    intro h x
    rw [Heap.release]
    split
    · exact fusion_lastVisited
    · dsimp only [brk]
      split <;> rfl
  have habsorb : ∀ (h : Heap) x, (h.absorb x).2.lastVisited = h.lastVisited := by
    intro h x
    rw [Heap.absorb]
    split
    · exact fusion_lastVisited
    · rfl
  cases hvalid : h.validAddr p with
  | true =>
      rw [free_eq hvalid, hrelease, habsorb]
      rfl
  | false =>
      rw [Heap.free, hvalid]
      rfl

/-- The break after a list was cut to `hi'`: it was at the top and still is. -/
def KeepsTop (h h' : Heap) (hi hi' : Nat) : Prop :=
  hi' ≤ hi ∧ (h.heapPtr.toNat = hi → h'.heapPtr.toNat = hi')

/-- The end of `free` joins the block with what is behind it. -/
theorem Spans.release {h : Heap} (hrep : Spans lo hi h (l ++ b :: r)) :
    ∃ hi', KeepsTop h (h.release (addr b)) hi hi' ∧
      Spans lo hi' (h.release (addr b)) (l ++ join b r) := by
  obtain ⟨h1, h2, h3⟩ := linked_append.mp hrep.linked
  obtain ⟨-, hpos, hstop, hroom⟩ := hrep.bounds (b := b) (by simp)
  cases r with
  | nil =>
      have hnext : (h.next (addr b) != 0) = false := by
        rw [h2.next_eq]
        rfl
      have hbreak : (addr b).toNat = b.start := addr_toNat (by omega)
      have hcut : h.release (addr b) = (if h.prev (addr b) != 0 then
          h.setNext (h.prev (addr b)) 0 else { h with head := 0 }).brk (addr b) := by
        rw [Heap.release, hnext]
        rfl
      rw [hcut, join, List.append_nil]
      exact ⟨b.start, ⟨by omega, fun _ => hbreak⟩, hrep.truncate.of_eq rfl rfl⟩
  | cons c rest =>
      have hc := hrep.bounds (b := c) (by simp)
      have hnext : (h.next (addr b) != 0) = true := by
        rw [h2.next_eq]
        exact bne_iff_ne.mpr (addr_ne_zero (b := c) (by omega) (by omega))
      rw [Heap.release, if_pos hnext, join]
      refine ⟨hi, ⟨Nat.le_refl _, fun htop => by rw [fusion_heapPtr]; exact htop⟩, ?_⟩
      cases hfree : c.free with
      | true =>
          rw [if_pos rfl]
          exact hrep.fusion hfree
      | false =>
          rw [if_neg (by decide), hrep.fusion_eq (by rintro _ _ ⟨⟩; exact hfree)]
          exact hrep

/-- A block whose predecessor is free goes into it, any other stays. -/
theorem Spans.absorb {h : Heap} (hrep : Spans lo hi h (l ++ b :: r)) (hb : b.free = true) :
    ∃ l' d, Spans lo hi (h.absorb (addr b)).2 (l' ++ d :: r) ∧ (h.absorb (addr b)).1 = addr d ∧
      Absorbed l b l' d := by
  have h2 := (linked_append.mp hrep.linked).2.1
  rcases List.eq_nil_or_concat' l with rfl | ⟨l, d, rfl⟩
  · have hstay : h.absorb (addr b) = (addr b, h) := by
      rw [Heap.absorb, h2.prev_eq]
      rfl
    rw [hstay]
    exact ⟨[], b, hrep, rfl, Or.inl ⟨rfl, rfl, by simp⟩⟩
  · have hlast : last 0 (l ++ [d]) = addr d := last_append
    have hd := hrep.bounds (b := d) (by simp)
    have hne : (addr d != 0) = true := bne_iff_ne.mpr (addr_ne_zero (by omega) (by omega))
    rw [List.append_assoc, List.singleton_append] at hrep
    have hdfree := ((linked_append.mp hrep.linked).2).1.isFree_eq
    cases hdf : d.free with
    | false =>
        have hstay : h.absorb (addr b) = (addr b, h) := by
          rw [Heap.absorb, h2.prev_eq, hlast, hdfree, hdf, Bool.and_false]
          rfl
        rw [hstay]
        refine ⟨l ++ [d], b, ?_, rfl, Or.inl ⟨rfl, rfl, by simpa using hdf⟩⟩
        rw [List.append_assoc, List.singleton_append]
        exact hrep
    | true =>
        have hfuse : h.absorb (addr b) = (addr d, h.fusion (addr d)) := by
          rw [Heap.absorb, h2.prev_eq, hlast, hdfree, hdf, hne]
          rfl
        rw [hfuse]
        exact ⟨l, fuse d b, hrep.fusion hb, rfl, Or.inr ⟨d, rfl, hdf, rfl⟩⟩

/-- `free` of what `validAddr` refuses does nothing. -/
theorem free_invalid {h : Heap} {p : Word} (hvalid : h.validAddr p = false) : h.free p = h := by
  rw [Heap.free, hvalid]
  rfl

/-- `free` of a block that `validAddr` accepts. -/
theorem Spans.free_valid {h : Heap} (hrep : Spans lo hi h (l ++ b :: r))
    (hvalid : h.validAddr (data (addr b)) = true) :
    ∃ hi', KeepsTop h (h.free (data (addr b))) hi hi' ∧
      Spans lo hi' (h.free (data (addr b))) (freed l ⟨b.start, b.size, true⟩ r) := by
  obtain ⟨l', d, hrep', hd, habsorbed⟩ := (hrep.setFree 1).absorb rfl
  obtain ⟨hi', ⟨hle, htop⟩, hrep''⟩ := hrep'.release
  have haddr : addr ⟨b.start, b.size, true⟩ = addr b := rfl
  have heq : h.free (data (addr b)) = ((h.setFree (addr b) 1).absorb (addr b)).2.release (addr d) := by
    rw [free_eq hvalid, getBlock_data, ← hd]
    rfl
  rw [heq]
  refine ⟨hi', ⟨hle, fun h0 => htop ?_⟩, ?_⟩
  · rw [absorb_heapPtr]
    exact h0
  · have hfreed : freed l ⟨b.start, b.size, true⟩ r = l' ++ join d r := habsorbed.freed_eq
    rw [hfreed]
    exact hrep''

/-- **Release.**  `free` of a block of the list. -/
theorem Spans.free {h : Heap} (hrep : Spans lo hi h (l ++ b :: r)) :
    ∃ hi', KeepsTop h (h.free (data (addr b))) hi hi' ∧ Spans lo hi' (h.free (data (addr b)))
      (released (h.validAddr (data (addr b))) l b r) := by
  cases hvalid : h.validAddr (data (addr b)) with
  | true => exact hrep.free_valid hvalid
  | false =>
      rw [free_invalid hvalid]
      exact ⟨hi, ⟨Nat.le_refl _, id⟩, hrep⟩

/-- The payload lies behind the header. -/
theorem data_toNat (h : b.start + 20 < 2 ^ 32) : (data (addr b)).toNat = b.start + 20 := by
  have h20 : (20#32).toNat = 20 := rfl
  rw [data, BitVec.toNat_add, addr_toNat (by omega), h20, Nat.mod_eq_of_lt h]

/-- Writes between the ends of a payload keep the list. -/
theorem Spans.write_payload {h : Heap} (hrep : Spans lo hi h bs) (hb : b ∈ bs) {m' : Mem}
    {n : Nat} (hn : n ≤ b.size)
    (hm : ∀ x, n ≤ (x - data (addr b)).toNat → m' x = h.mem x) :
    Spans lo hi { h with mem := m' } bs := by
  have hbound := hrep.bounds hb
  refine hrep.write hb fun x hx hout => hm _ ?_
  rw [BitVec.toNat_sub, data_toNat (by omega), BitVec.toNat_ofNat, Nat.mod_eq_of_lt hx]
  omega

end Heap

end Kernel
