import BobbyOS.Kernel.HeapBlocks
import BobbyOS.Lib.Run

/-!
# Runs of the kernel heap

A session is the heap together with the allocations its clients still hold.
The clients call `malloc`, `calloc` and `free` in any order and write into what
they hold.

A block list in good order survives every call but one: `malloc` on an emptied
list links the new block behind the stale cursor `last_visited`.  The main
results are

* `malloc_spec`, `free_spec`: what the routines do to the list of blocks;
* `good_of_reaches`: in every run in which no allocation meets a stale cursor,
  the list is in good order and the allocations are apart;
* `heap_not_always_good`: with a stale cursor the list gets a cycle.
-/

namespace Kernel

open ByteMemory Tiling

namespace Heap

variable {m m' : Mem} {b c : Block} {l r bs : List Block}

/-! ### The whole routines -/

/-- A block that ends an allocation, and the used blocks of `bs` besides. -/
structure Allocated (bs : List Block) (s : Nat) (b : Block) (bs' : List Block) : Prop where
  mem : b ∈ bs'
  used : b.free = false
  size : s ≤ b.size
  others : ∀ c ∈ bs, c.free = false → c ∈ bs' ∧ c ≠ b

/-- A free block that is divided has the allocated one in front. -/
theorem allocated_place {s : Nat} (hfree : b.free = true) (hs : s ≤ b.size)
    (hne : ∀ c ∈ l ++ r, c.start ≠ b.start) :
    ∃ d, d.start = b.start ∧ Allocated (l ++ b :: r) s d (l ++ (place s b ++ r)) := by
  have hothers : ∀ d : Block, d.start = b.start → ∀ c ∈ l ++ b :: r, c.free = false →
      c ∈ l ++ (place s b ++ r) ∧ c ≠ d := by
    intro d hd c hc hused
    rcases List.mem_append.mp hc with hc' | hc'
    · refine ⟨List.mem_append_left _ hc', fun heq => hne c (List.mem_append_left _ hc') ?_⟩
      rw [heq, hd]
    · rcases List.mem_cons.mp hc' with rfl | hc''
      · rw [hfree] at hused
        exact absurd hused (by decide)
      · refine ⟨by simp [hc''], fun heq => hne c (List.mem_append_right _ hc'') ?_⟩
        rw [heq, hd]
  by_cases hfit : 24 ≤ b.size - s
  · exact ⟨⟨b.start, s, false⟩, rfl, by simp [place, hfit], rfl, Nat.le_refl _,
      hothers _ rfl⟩
  · exact ⟨⟨b.start, b.size, false⟩, rfl, by simp [place, hfit], rfl, hs, hothers _ rfl⟩

/-- The heap has to grow for a request of `s` bytes. -/
def Grows (h : Heap) (s : Word) : Prop :=
  h.head = 0 ∨ (findBlock { h with lastVisited := h.head } s).map Prod.fst = some 0

instance (h : Heap) (s : Word) : Decidable (h.Grows s) := inferInstanceAs (Decidable (_ ∨ _))

/-- The request fits the address space. -/
def Fits (h : Heap) (size : Word) : Prop :=
  size.toNat + 3 < 2 ^ 32 ∧
    (h.Grows (align4 size) → h.heapPtr.toNat + 20 + (align4 size).toNat < 2 ^ 32)

instance (h : Heap) (size : Word) : Decidable (h.Fits size) :=
  inferInstanceAs (Decidable (_ ∧ (_ → _)))

/-- The cursor is null where the list is. -/
def CursorReset (h : Heap) : Prop := h.head = 0 → h.lastVisited = 0

instance (h : Heap) : Decidable h.CursorReset := inferInstanceAs (Decidable (_ → _))

/-- The cursor after a search: where it was, or on a block. -/
def CursorMoved (h h' : Heap) (bs : List Block) : Prop :=
  h'.lastVisited = h.lastVisited ∨ ∃ c ∈ bs, h'.lastVisited = addr c

/-- The alignment adds where it does not wrap. -/
theorem le_align4 {size : Word} (h : size.toNat + 3 < 2 ^ 32) :
    size.toNat ≤ (align4 size).toNat := by
  have h3 : (3#32).toNat = 3 := rfl
  have hadd : (size + 3#32).toNat = size.toNat + 3 := by
    rw [BitVec.toNat_add, h3, Nat.mod_eq_of_lt h]
  have hmask : align4 size = (size + 3#32) >>> 2 <<< 2 := by
    rw [BitVec.shiftLeft_ushiftRight]
    rfl
  rw [hmask, BitVec.toNat_shiftLeft, BitVec.toNat_ushiftRight, hadd,
    Nat.shiftRight_eq_div_pow, Nat.shiftLeft_eq]
  omega

/-- The last block is one of the list, or the list is empty. -/
theorem last_mem_or (p : Word) (bs : List Block) : last p bs = p ∨ ∃ c ∈ bs, last p bs = addr c := by
  rcases List.eq_nil_or_concat' bs with rfl | ⟨l, c, rfl⟩
  · exact Or.inl rfl
  · exact Or.inr ⟨c, by simp, last_append⟩

/-- The block that a growing heap gets. -/
def grown (h : Heap) (s : Word) : Block := ⟨h.heapPtr.toNat, s.toNat, false⟩

/-- A grown block is at the break. -/
theorem addr_grown {h : Heap} {s : Word} : addr (h.grown s) = h.heapPtr := by
  rw [addr, grown, BitVec.ofNat_toNat, BitVec.setWidth_eq]

/-- It is allocated behind the others. -/
theorem Represents.allocated_grown {h : Heap} (hrep : Represents h bs) {k : Nat} {s : Word}
    (hs : k ≤ s.toNat) : Allocated bs k (h.grown s) (bs ++ [h.grown s]) := by
  refine ⟨by simp, rfl, hs, fun c hc _ => ⟨List.mem_append_left _ hc, ?_⟩⟩
  rintro rfl
  have := (hrep.tiles.bounds hc).2
  simp only [Block.stop, grown] at this
  omega

/-- The cursor of a search that starts at the head. -/
theorem Represents.last_head_mem {h : Heap} (hrep : Represents h (l ++ b :: r)) :
    ∃ c ∈ l ++ b :: r, last h.head l = addr c := by
  rcases last_mem_or h.head l with hlast | ⟨c, hc, hlast⟩
  · rw [hlast, hrep.head]
    cases l with
    | nil => exact ⟨b, List.mem_cons_self, rfl⟩
    | cons c rest => exact ⟨c, List.mem_cons_self, rfl⟩
  · exact ⟨c, List.mem_append_left _ hc, hlast⟩

/-- **Allocation.**  `malloc` ends, with a used block that is large enough and
is none of the blocks that were in use. -/
theorem Represents.malloc_spec {h : Heap} (hrep : Represents h bs) {size : Word}
    (hfits : Fits h size) (hreset : CursorReset h) :
    ∃ b h' bs', h.malloc size = some (data (addr b), h') ∧ Represents h' bs' ∧
      Allocated bs size.toNat b bs' ∧ CursorMoved h h' bs := by
  obtain ⟨hsmall, hgrow⟩ := hfits
  have halign := le_align4 hsmall
  by_cases hhead : h.head = 0
  · obtain rfl := hrep.spans.head_eq_zero.mp hhead
    obtain ⟨h', hmalloc, hcursor, hbreak, hrep'⟩ :=
      hrep.spans.malloc_empty rfl (hreset hhead) (hgrow (Or.inl hhead))
    rw [← addr_grown (s := align4 size)] at hmalloc
    exact ⟨_, h', _, hmalloc, hrep'.represents hbreak, hrep.allocated_grown halign, Or.inl hcursor⟩
  · rcases hrep.spans.findBlock_spec (align4 size) h.head with
      ⟨l, b, r, rfl, hserves, -, hfind⟩ | ⟨-, hfind⟩
    · obtain ⟨h', hmalloc, hcursor, hbreak, hrep'⟩ :=
        hrep.spans.malloc_found hserves hhead hfind
      obtain ⟨hl, hr, -⟩ := hrep.spans.sides
      have hne : ∀ c ∈ l ++ r, c.start ≠ b.start := by
        intro c hc
        rcases List.mem_append.mp hc with hc' | hc'
        · have := hl c hc'
          omega
        · have := hr c hc'
          omega
      obtain ⟨d, hd, halloc⟩ := allocated_place hserves.1 hserves.2 hne
      have haddr : addr d = addr b := by rw [addr, addr, hd]
      obtain ⟨c, hc, hlast⟩ := hrep.last_head_mem
      exact ⟨d, h', _, by rw [hmalloc, haddr], hrep'.represents (by rw [hbreak]),
        ⟨halloc.mem, halloc.used, Nat.le_trans halign halloc.size, halloc.others⟩,
        Or.inr ⟨c, hc, hcursor.trans hlast⟩⟩
    · have hfit := hgrow (Or.inr (by rw [hfind]; rfl))
      obtain ⟨h', hmalloc, hcursor, hbreak, hrep'⟩ :=
        hrep.spans.malloc_grows rfl hhead hfind hfit
      rw [← addr_grown (s := align4 size)] at hmalloc
      refine ⟨_, h', _, hmalloc, hrep'.represents hbreak, hrep.allocated_grown halign, ?_⟩
      rcases last_mem_or h.head bs with hlast | ⟨c, hc, hlast⟩
      · cases bs with
        | nil => exact absurd (hrep.spans.head_eq_zero.mpr rfl) hhead
        | cons c rest => exact Or.inr ⟨c, List.mem_cons_self, by rw [hcursor, hlast, hrep.head]; rfl⟩
      · exact Or.inr ⟨c, hc, hcursor.trans hlast⟩

/-- `free` of a block keeps every other block in use. -/
theorem Represents.free_spec {h : Heap} (hrep : Represents h bs) (hb : b ∈ bs) :
    ∃ bs', Represents (h.free (data (addr b))) bs' ∧
      ∀ c ∈ bs, c.free = false → c ≠ b → c ∈ bs' := by
  obtain ⟨l, r, rfl⟩ := List.append_of_mem hb
  obtain ⟨hi', ⟨-, htop⟩, hrep'⟩ := hrep.spans.free
  refine ⟨_, hrep'.represents (htop rfl), fun c hc hused hne => mem_released ?_ hused⟩
  simpa [hne] using hc

/-- Allocation with `calloc`: the zeros go into the payload. -/
theorem Represents.calloc_spec {h : Heap} (hrep : Represents h bs) {number size : Word}
    (hfits : Fits h (number * size)) (hreset : CursorReset h) :
    ∃ b h' bs', h.calloc number size = some (data (addr b), h') ∧ Represents h' bs' ∧
      Allocated bs (number * size).toNat b bs' ∧ CursorMoved h h' bs := by
  obtain ⟨b, h', bs', hmalloc, hrep', halloc, hcursor⟩ := hrep.malloc_spec hfits hreset
  refine ⟨b, _, bs', by rw [calloc, hmalloc]; rfl, ?_, halloc, ?_⟩
  · split
    · refine (hrep'.spans.write_payload halloc.mem halloc.size fun x hx => ?_).represents rfl
      rw [zero, if_neg (by omega)]
    · exact hrep'
  · unfold CursorMoved
    split <;> exact hcursor

/-! ### The stale cursor -/

/-- The cursor is null, or on a place where a header has been. -/
def Settled (h : Heap) : Prop :=
  h.lastVisited = 0 ∨ h.lastVisited = base ∨
    base.toNat + 20 ≤ h.lastVisited.toNat ∧ h.lastVisited.toNat + 20 ≤ 2 ^ 32

/-- A cursor that is moved along the blocks is settled. -/
theorem Represents.settled {h h' : Heap} (hrep : Represents h bs) (hs : Settled h)
    (hmoved : CursorMoved h h' bs) : Settled h' := by
  rcases hmoved with heq | ⟨c, hc, heq⟩
  · rw [Settled, heq]
    exact hs
  · have hbound := hrep.bounds hc
    rw [Settled, heq, addr_toNat (by omega)]
    rcases hrep.tiles.start_or hc with h1 | h1
    · refine Or.inr (Or.inl ?_)
      rw [addr, h1, BitVec.ofNat_toNat, BitVec.setWidth_eq]
    · exact Or.inr (Or.inr ⟨h1, by omega⟩)

/-- The first block has no predecessor. -/
theorem Represents.prev_head {h : Heap} (hrep : Represents h bs) (hhead : h.head ≠ 0) :
    h.prev h.head = 0 := by
  cases bs with
  | nil => exact absurd (hrep.spans.head_eq_zero.mpr rfl) hhead
  | cons b rest => rw [hrep.head, first, hrep.linked.1.prev_eq]

/-- On an emptied list `malloc` takes the stale cursor for the predecessor. -/
theorem Represents.malloc_stale {h : Heap} (hrep : Represents h []) (hs : Settled h)
    (hstale : h.lastVisited ≠ 0) (size : Word) :
    ∃ h', h.malloc size = some (data base, h') ∧ h'.head = base ∧
      h'.prev base = h.lastVisited := by
  have hP : h.heapPtr = base := BitVec.eq_of_toNat_eq hrep.tiles.symm
  have hempty : (h.head != 0) = false := by simpa using hrep.spans.head_eq_zero.mpr rfl
  have hit : (h.sbrk 0#32).1 = base := (BitVec.add_zero _).trans hP
  obtain ⟨v, hv, hvb⟩ : ∃ v, h.lastVisited = BitVec.ofNat 32 v ∧
      (v = 0xC0000000 ∨ 0xC0000000 + 20 ≤ v ∧ v + 20 ≤ 2 ^ 32) := by
    refine ⟨h.lastVisited.toNat, by rw [BitVec.ofNat_toNat, BitVec.setWidth_eq], ?_⟩
    rcases hs with h1 | h1 | h1
    · exact absurd h1 hstale
    · exact Or.inl (by rw [h1, base_toNat])
    · exact Or.inr h1
  have hbase : base = BitVec.ofNat 32 0xC0000000 := rfl
  have hdata : data base = BitVec.ofNat 32 (0xC0000000 + 20) := rfl
  have hextend : h.extendHeap (align4 size) =
      (base, ((((((h.sbrk (blockheaderOffset + align4 size)).2.setSize base (align4 size)).setNext
        base 0).setPrev base h.lastVisited).setPtr base (data base)).setNext
          h.lastVisited base).setFree base 0) := by
    rw [Heap.extendHeap, hit]
    exact congrArg (fun g : Heap => (base, g.setFree base 0)) (if_pos (bne_iff_ne.mpr hstale))
  generalize hg : ((((((h.sbrk (blockheaderOffset + align4 size)).2.setSize base
    (align4 size)).setNext base 0).setPrev base h.lastVisited).setPtr base (data base)).setNext
      h.lastVisited base).setFree base 0 = g at hextend
  refine ⟨{ g with head := base }, ?_, rfl, ?_⟩
  · have hne : base ≠ 0 := by decide
    rw [Heap.malloc, hempty]
    simp only [Bool.false_eq_true, if_false, hextend, if_neg hne]
  · show g.prev base = h.lastVisited
    rw [← hg, hdata, hbase, hv, setFree_ofNat, setNext_ofNat, setPtr_ofNat, prev_ofNat]
    simp only []
    rw [word_store_ne (by omega) (by omega) (by omega), word_store_ne (by omega) (by omega) (by omega),
      word_store_ne (by omega) (by omega) (by omega), setPrev_ofNat]
    exact word_store_same

end Heap

/-! ### Sessions -/

/-- An allocation that was not freed since. -/
structure Allocation where
  ptr : Word
  size : Nat

/-- The heap and what its clients hold. -/
structure Session where
  heap : Heap
  live : List Allocation

/-- What a client does. -/
inductive Call
  | malloc (size : Word)
  | calloc (number size : Word)
  | free (ptr : Word)
  | write (a : Word) (v : Byte)

namespace Session

/-- The empty heap of the boot. -/
def boot (mem : Mem) : Session := ⟨Heap.empty mem, []⟩

/-- A new allocation. -/
def hold (s : Session) (size : Nat) (r : Word × Heap) : Session := ⟨r.2, ⟨r.1, size⟩ :: s.live⟩

/-- The session after a call; without a result where `findBlock` never ends. -/
def call (s : Session) : Call → Option Session
  | .malloc size => (s.heap.malloc size).map (s.hold size.toNat)
  | .calloc number size => (s.heap.calloc number size).map (s.hold (number * size).toNat)
  | .free p => some ⟨s.heap.free p, s.live.filter fun a => a.ptr ≠ p⟩
  | .write a v => some { s with heap := { s.heap with mem := Function.update s.heap.mem a v } }

/-- The requests fit the address space, and the clients free and write only
what they hold. -/
def Allowed (s : Session) : Call → Prop
  | .malloc size => s.heap.Fits size
  | .calloc number size => number.toNat * size.toNat < 2 ^ 32 ∧ s.heap.Fits (number * size)
  | .free p => ∃ a ∈ s.live, a.ptr = p
  | .write a _ => ∃ e ∈ s.live, (a - e.ptr).toNat < e.size

/-- An allocation does not meet an empty list with a stale cursor. -/
def Fresh (s : Session) : Call → Prop
  | .malloc _ => s.heap.CursorReset
  | .calloc _ _ => s.heap.CursorReset
  | _ => True

instance : (s : Session) → (c : Call) → Decidable (s.Allowed c)
  | s, .malloc size => inferInstanceAs (Decidable (s.heap.Fits size))
  | s, .calloc number size =>
      inferInstanceAs (Decidable (number.toNat * size.toNat < 2 ^ 32 ∧ s.heap.Fits (number * size)))
  | s, .free p => inferInstanceAs (Decidable (∃ a ∈ s.live, a.ptr = p))
  | s, .write a _ => inferInstanceAs (Decidable (∃ e ∈ s.live, (a - e.ptr).toNat < e.size))

instance : (s : Session) → (c : Call) → Decidable (s.Fresh c)
  | s, .malloc _ => inferInstanceAs (Decidable s.heap.CursorReset)
  | s, .calloc _ _ => inferInstanceAs (Decidable s.heap.CursorReset)
  | _, .free _ => isTrue trivial
  | _, .write _ _ => isTrue trivial

/-- The runs of a session whose calls satisfy `P`. -/
def Reaches (P : Session → Call → Prop) : Session → Session → Prop :=
  Run.Reaches (fun s c t => s.call c = some t) P

/-- The payloads have no byte in common. -/
def Allocation.Apart (a b : Allocation) : Prop :=
  a.ptr.toNat + a.size ≤ b.ptr.toNat ∨ b.ptr.toNat + b.size ≤ a.ptr.toNat

/-- The block list is in good order: it stands for a tiling of the heap, every
search in it ends, and the payloads of the allocations are apart. -/
structure Good (s : Session) : Prop where
  blocks : ∃ bs, s.heap.Represents bs
  ends : ∀ size, ∃ r, Heap.findBlock { s.heap with lastVisited := s.heap.head } size = some r
  apart : s.live.Pairwise Allocation.Apart

/-- **The invariant.**  Each allocation has a used block of its own. -/
structure Holds (s : Session) (bs : List Block) : Prop where
  represents : s.heap.Represents bs
  live : ∀ a ∈ s.live, ∃ b ∈ bs, b.free = false ∧ a.ptr = Heap.data (Heap.addr b) ∧ a.size ≤ b.size
  distinct : (s.live.map Allocation.ptr).Nodup
  settled : s.heap.Settled

variable {s s' : Session} {bs bs' : List Block} {b : Block} {c : Call}

/-- A new session has no blocks. -/
theorem holds_boot (mem : Mem) : (boot mem).Holds [] :=
  ⟨⟨rfl, trivial, rfl⟩, by simp [boot], by simp [boot], Or.inl rfl⟩

/-- Blocks with the same payload are the same. -/
theorem block_eq_of_data {h : Heap} {b c : Block} (hrep : h.Represents bs) (hb : b ∈ bs)
    (hc : c ∈ bs) (heq : Heap.data (Heap.addr b) = Heap.data (Heap.addr c)) : b = c := by
  by_contra hne
  have hbb := hrep.bounds hb
  have hcb := hrep.bounds hc
  have hstart := congrArg BitVec.toNat heq
  rw [Heap.data_toNat (by omega), Heap.data_toNat (by omega)] at hstart
  have := hrep.tiles.disjoint hb hc hne
  simp only [Block.stop] at this
  omega

/-- A session that holds blocks is good. -/
theorem Holds.good (h : Holds s bs) : Good s := by
  refine ⟨⟨bs, h.represents⟩, fun size => ?_, ?_⟩
  · rcases h.represents.spans.findBlock_spec size s.heap.head with
      ⟨l, b, r, -, -, -, hfind⟩ | ⟨-, hfind⟩
    · exact ⟨_, hfind⟩
    · exact ⟨_, hfind⟩
  · refine (List.pairwise_map.mp h.distinct).imp_of_mem fun {a a'} ha ha' hne => ?_
    obtain ⟨b, hb, -, hptr, hsize⟩ := h.live a ha
    obtain ⟨c, hc, -, hptr', hsize'⟩ := h.live a' ha'
    have hbb := h.represents.bounds hb
    have hcb := h.represents.bounds hc
    have hbc : b ≠ c := by
      rintro rfl
      exact hne (hptr.trans hptr'.symm)
    have hdis := h.represents.tiles.disjoint hb hc hbc
    simp only [Block.stop] at hdis
    rw [Allocation.Apart, hptr, hptr', Heap.data_toNat (by omega), Heap.data_toNat (by omega)]
    omega

/-- A new allocation keeps the invariant. -/
theorem Holds.hold (h : Holds s bs) {h' : Heap} {n : Nat} (hrep : h'.Represents bs')
    (halloc : Heap.Allocated bs n b bs') (hmoved : s.heap.CursorMoved h' bs) :
    Holds (s.hold n (Heap.data (Heap.addr b), h')) bs' := by
  refine ⟨hrep, ?_, ?_, h.represents.settled h.settled hmoved⟩
  · intro a ha
    rcases List.mem_cons.mp ha with rfl | ha'
    · exact ⟨b, halloc.mem, halloc.used, rfl, halloc.size⟩
    · obtain ⟨c, hc, hused, hptr, hsize⟩ := h.live a ha'
      exact ⟨c, (halloc.others c hc hused).1, hused, hptr, hsize⟩
  · refine List.nodup_cons.mpr ⟨fun hmem => ?_, h.distinct⟩
    obtain ⟨a, ha, heq⟩ := List.mem_map.mp hmem
    obtain ⟨c, hc, hused, hptr, -⟩ := h.live a ha
    obtain ⟨hc', hne⟩ := halloc.others c hc hused
    exact hne (block_eq_of_data hrep hc' halloc.mem (hptr.symm.trans heq))

/-- A freed allocation keeps the invariant. -/
theorem Holds.free (h : Holds s bs) {a : Allocation} (ha : a ∈ s.live) :
    ∃ bs', Holds ⟨s.heap.free a.ptr, s.live.filter fun x => x.ptr ≠ a.ptr⟩ bs' := by
  obtain ⟨b, hb, -, hptr, -⟩ := h.live a ha
  obtain ⟨bs', hrep, hkeep⟩ := h.represents.free_spec hb
  rw [← hptr] at hrep
  refine ⟨bs', hrep, ?_, ?_, h.represents.settled h.settled (Or.inl Heap.free_lastVisited)⟩
  · intro x hx
    obtain ⟨hx, hne⟩ := List.mem_filter.mp hx
    obtain ⟨c, hc, hused, hptr', hsize⟩ := h.live x hx
    refine ⟨c, hkeep c hc hused ?_, hused, hptr', hsize⟩
    rintro rfl
    simp [hptr', hptr] at hne
  · exact h.distinct.sublist (List.filter_sublist.map _)

/-- A write into an allocation keeps the invariant. -/
theorem Holds.write (h : Holds s bs) {e : Allocation} (he : e ∈ s.live) {a : Word}
    (ha : (a - e.ptr).toNat < e.size) (v : Byte) :
    Holds { s with heap := { s.heap with mem := Function.update s.heap.mem a v } } bs := by
  obtain ⟨b, hb, -, hptr, hsize⟩ := h.live e he
  refine ⟨(h.represents.spans.write_payload hb hsize fun x hx => ?_).represents rfl, h.live,
    h.distinct, h.settled⟩
  refine Function.update_of_ne ?_ _ _
  rintro rfl
  rw [hptr] at ha
  omega

/-- **The step.**  A call that meets no stale cursor ends and keeps the invariant. -/
theorem Holds.call (h : Holds s bs) (hallowed : Allowed s c) (hfresh : Fresh s c) :
    ∃ s' bs', s.call c = some s' ∧ Holds s' bs' := by
  cases c with
  | malloc size =>
      obtain ⟨b, h', bs', hmalloc, hrep, halloc, hmoved⟩ :=
        h.represents.malloc_spec hallowed hfresh
      exact ⟨_, bs', by rw [Session.call, hmalloc]; rfl, h.hold hrep halloc hmoved⟩
  | calloc number size =>
      obtain ⟨b, h', bs', hcalloc, hrep, halloc, hmoved⟩ :=
        h.represents.calloc_spec hallowed.2 hfresh
      exact ⟨_, bs', by rw [Session.call, hcalloc]; rfl, h.hold hrep halloc hmoved⟩
  | free p =>
      obtain ⟨a, ha, rfl⟩ := hallowed
      obtain ⟨bs', hholds⟩ := h.free ha
      exact ⟨_, bs', rfl, hholds⟩
  | write a v =>
      obtain ⟨e, he, ha⟩ := hallowed
      exact ⟨_, bs, rfl, h.write he ha v⟩

/-- The run lemma. -/
theorem holds_of_reaches {mem : Mem}
    (hrun : Reaches (fun s c => Allowed s c ∧ Fresh s c) (boot mem) s) : ∃ bs, Holds s bs := by
  refine Run.Reaches.invariant (I := fun s => ∃ bs, Holds s bs) hrun ⟨[], holds_boot mem⟩ ?_
  rintro s c t ⟨bs, h⟩ ⟨hallowed, hfresh⟩ hcall
  obtain ⟨s', bs', hcall', h'⟩ := h.call hallowed hfresh
  rw [hcall] at hcall'
  obtain rfl := Option.some.inj hcall'
  exact ⟨bs', h'⟩

/-- A list whose first block has a predecessor is not in good order. -/
theorem not_good_of_prev {h : Heap} {live : List Allocation} (hhead : h.head ≠ 0)
    (hprev : h.prev h.head ≠ 0) : ¬ Good ⟨h, live⟩ := by
  rintro ⟨⟨bs, hrep⟩, -, -⟩
  exact hprev (hrep.prev_head hhead)

/-- Zeros behind the first header leave its predecessor. -/
theorem prev_base_zero {h : Heap} {n : Nat} (hn : n < 2 ^ 30) :
    load32 (Heap.zero h.mem (Heap.data Heap.base) n) (Heap.base + 8#32) = h.prev Heap.base := by
  have hdata : (Heap.data Heap.base).toNat = 0xC0000014 := rfl
  have hbase : Heap.base + 8#32 = BitVec.ofNat 32 0xC0000008 := rfl
  refine load32_congr fun i hi => ?_
  rw [Heap.zero, BitVec.toNat_sub, hdata, hbase, ← BitVec.ofNat_add, BitVec.toNat_ofNat,
    if_neg (by omega)]

/-- A call that meets a stale cursor ends too, with a list in bad order. -/
theorem Holds.call_stale (h : Holds s bs) (hallowed : Allowed s c) (hstale : ¬ Fresh s c) :
    ∃ s', s.call c = some s' ∧ ¬ Good s' := by
  have hempty : ∀ size, ¬ s.heap.CursorReset → ∃ h', s.heap.malloc size =
      some (Heap.data Heap.base, h') ∧ h'.head = Heap.base ∧ h'.prev Heap.base ≠ 0 := by
    intro size hreset
    obtain ⟨hhead, hcursor⟩ := Classical.not_imp.mp hreset
    obtain rfl := h.represents.spans.head_eq_zero.mp hhead
    obtain ⟨h', hmalloc, hhead', hprev⟩ := h.represents.malloc_stale h.settled hcursor size
    exact ⟨h', hmalloc, hhead', by rw [hprev]; exact hcursor⟩
  have hbase : Heap.base ≠ 0 := by decide
  cases c with
  | malloc size =>
      obtain ⟨h', hmalloc, hhead, hprev⟩ := hempty size hstale
      refine ⟨_, by rw [Session.call, hmalloc]; rfl, not_good_of_prev ?_ ?_⟩
      · rw [hhead]
        exact hbase
      · rw [hhead]
        exact hprev
  | calloc number size =>
      obtain ⟨h', hmalloc, hhead, hprev⟩ := hempty (number * size) hstale
      have hsmall : (number * size).toNat < 2 ^ 30 := by
        have hge := h.represents.tiles.le
        rw [Heap.base_toNat] at hge
        have hfit := hallowed.2.2 (Or.inl (Classical.not_imp.mp hstale).1)
        have := Heap.le_align4 hallowed.2.1
        omega
      have hdata : (Heap.data Heap.base != 0) = true := by decide
      have hcalloc : s.heap.calloc number size = some (Heap.data Heap.base,
          { h' with mem := Heap.zero h'.mem (Heap.data Heap.base) (number * size).toNat }) := by
        rw [Heap.calloc, hmalloc]
        simp only [Option.map_some, if_pos hdata]
      refine ⟨_, by rw [Session.call, hcalloc]; rfl, not_good_of_prev ?_ ?_⟩
      · show h'.head ≠ 0
        rw [hhead]
        exact hbase
      · show load32 (Heap.zero h'.mem (Heap.data Heap.base) (number * size).toNat)
          (h'.head + 8#32) ≠ 0
        rw [hhead, prev_base_zero hsmall]
        exact hprev
  | free p => exact absurd trivial hstale
  | write a v => exact absurd trivial hstale

/-- **Kernel heap.**  In every run from the empty heap in which no allocation
meets an empty list with a stale cursor, the block list is in good order after
each call, every search ends, and the allocations are apart.  From such a state
every allowed call ends, and leaves the list in good order exactly when it meets
no stale cursor. -/
theorem good_of_reaches {mem : Mem}
    (hrun : Reaches (fun s c => Allowed s c ∧ Fresh s c) (boot mem) s) :
    Good s ∧ ∀ c, Allowed s c → ∃ s', s.call c = some s' ∧ (Good s' ↔ Fresh s c) := by
  obtain ⟨bs, h⟩ := holds_of_reaches hrun
  refine ⟨h.good, fun c hallowed => ?_⟩
  by_cases hfresh : Fresh s c
  · obtain ⟨s', bs', hcall, h'⟩ := h.call hallowed hfresh
    exact ⟨s', hcall, iff_of_true h'.good hfresh⟩
  · obtain ⟨s', hcall, hbad⟩ := h.call_stale hallowed hfresh
    exact ⟨s', hcall, iff_of_false hbad hfresh⟩

/-! ### Sessions on given calls -/

/-- Two allocations, of which the first one is freed. -/
def freshCalls : List Call := [.malloc 4, .calloc 2 8, .free 0xC0000014, .malloc 1]

/-- The guarantee on a session of four calls. -/
theorem fresh_calls_good :
    ∃ s, Run.execute call (fun s c => Allowed s c ∧ Fresh s c) (boot fun _ => 0) freshCalls =
        some s ∧
      Good s ∧ ∀ c, Allowed s c → ∃ s', s.call c = some s' ∧ (Good s' ↔ Fresh s c) := by
  have hruns : (Run.execute call (fun s c => Allowed s c ∧ Fresh s c) (boot fun _ => 0)
      freshCalls).isSome := by
    decide +kernel
  obtain ⟨s, hs⟩ := Option.isSome_iff_exists.mp hruns
  exact ⟨s, hs, good_of_reaches (Run.reaches_of_execute id hs)⟩

/-- Two blocks that are freed again, the last one first, and one more. -/
def staleCalls : List Call :=
  [.malloc 4, .malloc 4, .free 0xC000002C, .free 0xC0000014, .malloc 4]

/-- After a stale cursor the first block is its own predecessor. -/
theorem heap_not_always_good : ¬ ∀ mem s, Reaches Allowed (boot mem) s → Good s := by
  intro hgood
  have hprev : (Run.execute call Allowed (boot fun _ => 0) staleCalls).map
      (fun s => (s.heap.head, s.heap.prev s.heap.head)) = some (Heap.base, Heap.base) := by
    decide +kernel
  obtain ⟨⟨h, live⟩, hs, heq⟩ := Option.map_eq_some_iff.mp hprev
  obtain ⟨hhead, hprev⟩ := Prod.mk.inj heq
  have hbase : Heap.base ≠ 0 := by decide
  refine not_good_of_prev ?_ ?_ (hgood _ _ (Run.reaches_of_execute id hs))
  · rw [hhead]
    exact hbase
  · rw [hprev]
    exact hbase

end Session

end Kernel
