import BobbyOS.Kernel.HeapRuns
import BobbyOS.Kernel.Replacement
import BobbyOS.Programs.HeapManager

/-!
# The two copies of the allocator

The kernel's heap and a program's get the same calls.  As long as the breaks are
equally far from their bases the copies do the same to their lists.  Cutting the
last block off lowers the kernel's break only, so the next growth puts the
blocks at different offsets, and a program that has freed everything starts
again above what it had.

* `Agree`: equal offsets, equal block lists, and an unused heap as at the start;
* `KeepsTogether`: the condition on a call;
* `agree_of_reaches`: in runs of such calls the copies agree, and any other call
  takes them apart.
-/

namespace Programs

open ByteMemory Tiling
open Kernel (Word Heap)
open Kernel.Heap (Spans addr data first fit released mem_released released_shift used
  used_released align4)

/-! ### Block lists -/

/-- The blocks from `it` on: offset, size and flag, with a bound on the steps. -/
def blocksFrom (origin : Word) : Nat → Heap → Word → List (Word × Word × Bool)
  | 0, _, _ => []
  | fuel + 1, h, it =>
      if it = 0 then []
      else (it - origin, h.size it, h.isFree it) :: blocksFrom origin fuel h (h.next it)

/-- The block list of a heap that started at `origin`. -/
def blockList (origin : Word) (h : Heap) : List (Word × Word × Bool) :=
  blocksFrom origin Kernel.Heap.addressCount h h.head

/-- What the list shows of a block. -/
def entry (b : Block) : Word × Word × Bool :=
  (BitVec.ofNat 32 b.start, BitVec.ofNat 32 b.size, b.free)

/-- A moved header, back where it was. -/
theorem addr_shift_sub (k : Nat) (b : Block) :
    addr (b.shift k) - BitVec.ofNat 32 k = BitVec.ofNat 32 b.start := by
  rw [addr, Block.shift, BitVec.ofNat_add, BitVec.add_comm, BitVec.add_sub_cancel]

/-- A moved payload, back where it was. -/
theorem data_shift_sub (k : Nat) (b : Block) :
    data (addr (b.shift k)) - BitVec.ofNat 32 k = data (BitVec.ofNat 32 b.start) := by
  rw [← addr_shift_sub k b, data, data]
  bv_omega

/-- A walk along a chain shows its blocks. -/
theorem blocksFrom_eq {h : Heap} {k fuel : Nat} {p : Word} {bs : List Block}
    (hlinked : Kernel.Heap.Linked h.mem p (bs.map (Block.shift k)) 0)
    (hne : ∀ b ∈ bs, addr (b.shift k) ≠ 0) (hfuel : bs.length < fuel) :
    blocksFrom (BitVec.ofNat 32 k) fuel h (first (bs.map (Block.shift k)) 0) = bs.map entry := by
  induction bs generalizing p fuel with
  | nil =>
      obtain ⟨fuel, rfl⟩ : ∃ n, fuel = n + 1 := ⟨fuel - 1, by simp at hfuel; omega⟩
      exact if_pos rfl
  | cons b rest ih =>
      obtain ⟨fuel, rfl⟩ : ∃ n, fuel = n + 1 := ⟨fuel - 1, by omega⟩
      obtain ⟨hhead, hrest⟩ := hlinked
      have hlen : rest.length < fuel := by
        rw [List.length_cons] at hfuel
        omega
      have hb : addr (b.shift k) ≠ 0 := hne b List.mem_cons_self
      rw [List.map_cons, first, blocksFrom, if_neg hb, hhead.next_eq, hhead.size_eq,
        hhead.isFree_eq, addr_shift_sub,
        ih hrest (fun c hc => hne c (List.mem_cons_of_mem _ hc)) hlen]
      rfl

/-- The list of a heap whose blocks are those of `bs`, from `k` on. -/
theorem blockList_eq {h : Heap} {k hi : Nat} {bs : List Block}
    (hs : Spans k hi h (bs.map (Block.shift k))) :
    blockList (BitVec.ofNat 32 k) h = bs.map entry := by
  have hlen := hs.tiles.length_le
  have hroom := hs.room
  rw [List.length_map] at hlen
  have hfuel : bs.length < Kernel.Heap.addressCount := by
    rw [Kernel.Heap.addressCount]
    omega
  rw [blockList, hs.head]
  generalize Kernel.Heap.addressCount = fuel at hfuel ⊢
  refine blocksFrom_eq hs.linked (fun b hb => ?_) hfuel
  obtain ⟨-, hpos, -, hstop⟩ := hs.bounds (List.mem_map_of_mem hb)
  exact Kernel.Heap.addr_ne_zero hpos (by omega)

/-! ### The copies side by side -/

/-- The program's heap, the kernel's, and the pointers that both calls returned
and nobody freed since. -/
structure Copies where
  user : UserHeap
  kernel : Heap
  live : List (Word × Word)

namespace Copies

/-- A call that both copies get; `free` names a pointer of each. -/
inductive Call
  | malloc (size : Word)
  | calloc (number size : Word)
  | free (p q : Word)

/-- Both heaps are empty, in front of any memory. -/
def boot (mu mk : Mem) : Copies := ⟨UserHeap.empty mu, Heap.empty mk, []⟩

/-- Both copies have returned a pointer. -/
def returned (s : Copies) (r : Word × UserHeap) (r' : Word × Heap) : Copies :=
  ⟨r.2, r'.2, (r.1, r'.1) :: s.live⟩

/-- The state after a call; without a result where a search never ends. -/
def call (s : Copies) : Call → Option Copies
  | .malloc size =>
      (s.user.malloc size).bind fun r => (s.kernel.malloc size).map (s.returned r)
  | .calloc number size =>
      (s.user.calloc number size).bind fun r => (s.kernel.calloc number size).map (s.returned r)
  | .free p q =>
      some ⟨s.user.free p, s.kernel.free q, s.live.filter fun e => e ≠ (p, q)⟩

/-- The requests are within the heap limit, and only live pointers are freed. -/
def Allowed (s : Copies) : Call → Prop
  | .malloc size => size ≤ Kernel.HEAP_LIMIT - Kernel.BRK_DEFAULT
  | .calloc number size => number * size ≤ Kernel.HEAP_LIMIT - Kernel.BRK_DEFAULT
  | .free p q => (p, q) ∈ s.live

/-- Every brk system call was accepted, so the program is alive. -/
def Accepted (s : Copies) : Prop := ∀ a ∈ s.user.brks, Kernel.AddressSpace.InHeap a

/-- The breaks are equally far from their bases. -/
def Level (s : Copies) : Prop :=
  s.user.heap.heapPtr - UserHeap.base = s.kernel.heapPtr - Kernel.Heap.base

/-- A growing heap has its break level with the other one's; a freed pointer is
accepted by `validAddr` in both copies or in neither, and it is not the last
one in use. -/
def KeepsTogether (s : Copies) : Call → Prop
  | .malloc size => s.kernel.Grows (align4 size) → s.Level
  | .calloc number size => s.kernel.Grows (align4 (number * size)) → s.Level
  | .free p q => (s.user.validAddr p).1 = s.kernel.validAddr q ∧ ∃ e ∈ s.live, e ≠ (p, q)

/-- **The agreement.**  The pointers have equal offsets, the block lists are
equal up to the offset, and a program that has freed everything has its heap
back: no blocks, and the breaks at their bases. -/
structure Agree (s : Copies) : Prop where
  offsets : ∀ e ∈ s.live, e.1 - UserHeap.base = e.2 - Kernel.Heap.base
  blocks : blockList UserHeap.base s.user.heap = blockList Kernel.Heap.base s.kernel
  back : s.live = [] → s.user.heap.head = 0 ∧ s.kernel.head = 0 ∧
    s.user.heap.heapPtr = UserHeap.base ∧ s.kernel.heapPtr = Kernel.Heap.base

/-- A step of a run: the call returns in both copies and the program is alive. -/
def Steps (s : Copies) (c : Call) (t : Copies) : Prop := s.call c = some t ∧ t.Accepted

instance (s : Copies) : Decidable s.Accepted := List.decidableBAll _ s.user.brks

instance (s : Copies) : Decidable s.Level := inferInstanceAs (Decidable (_ = _))

instance : (s : Copies) → (c : Call) → Decidable (s.Allowed c)
  | _, .malloc size => inferInstanceAs (Decidable (size ≤ _))
  | _, .calloc number size => inferInstanceAs (Decidable (number * size ≤ _))
  | s, .free p q => inferInstanceAs (Decidable ((p, q) ∈ s.live))

instance : (s : Copies) → (c : Call) → Decidable (s.KeepsTogether c)
  | s, .malloc size => inferInstanceAs (Decidable (s.kernel.Grows (align4 size) → s.Level))
  | s, .calloc number size =>
      inferInstanceAs (Decidable (s.kernel.Grows (align4 (number * size)) → s.Level))
  | s, .free p q => inferInstanceAs (Decidable
      ((s.user.validAddr p).1 = s.kernel.validAddr q ∧ ∃ e ∈ s.live, e ≠ (p, q)))

/-! ### The invariant -/

/-- The alignment adds three bytes at most. -/
theorem align4_le {size : Word} (h : size.toNat + 3 < 2 ^ 32) :
    (align4 size).toNat ≤ size.toNat + 3 := by
  have h3 : (3#32).toNat = 3 := rfl
  have hadd : (size + 3#32).toNat = size.toNat + 3 := by
    rw [BitVec.toNat_add, h3, Nat.mod_eq_of_lt h]
  rw [align4, BitVec.toNat_and, ← hadd]
  exact Nat.and_le_left

/-- The payloads of a block in the two heaps. -/
def pointers (b : Block) : Word × Word :=
  (data (addr (b.shift 0x10008000)), data (addr (b.shift 0xC0000000)))

/-- Both heaps have the blocks of `bs`, each behind its base.  The kernel's break
is at the top of the list, the program's at least there; a program that holds
nothing has never grown its heap. -/
structure Holds (s : Copies) (bs : List Block) : Prop where
  user : Spans 0x10008000 (0x10008000 + extent 20 bs) s.user.heap
    (bs.map (Block.shift 0x10008000))
  kernel : Spans 0xC0000000 (0xC0000000 + extent 20 bs) s.kernel
    (bs.map (Block.shift 0xC0000000))
  kernelTop : s.kernel.heapPtr.toNat = 0xC0000000 + extent 20 bs
  userTop : 0x10008000 + extent 20 bs ≤ s.user.heap.heapPtr.toNat
  room : s.user.heap.heapPtr.toNat < 0x10108000
  live : ∀ e ∈ s.live, ∃ b ∈ bs, b.free = false ∧ e = pointers b
  unused : s.live = [] → s.user.heap.heapPtr = UserHeap.base
  cursors : s.user.heap.heapPtr = UserHeap.base →
    s.user.heap.lastVisited = 0 ∧ s.kernel.lastVisited = 0

variable {s t : Copies} {b : Block} {l r bs bs' : List Block}

/-- Both heaps start without blocks. -/
theorem holds_boot (mu mk : Mem) : (boot mu mk).Holds [] :=
  ⟨⟨by decide, by decide, rfl, trivial, rfl⟩, ⟨by decide, by decide, rfl, trivial, rfl⟩, rfl,
    Nat.le_refl _, (by decide : UserHeap.base.toNat < 0x10108000),
    (fun _ h => absurd h List.not_mem_nil), fun _ => rfl, fun _ => ⟨rfl, rfl⟩⟩

/-- An untouched break belongs to empty lists. -/
theorem Holds.nil_of_base (h : Holds s bs) (hbase : s.user.heap.heapPtr = UserHeap.base) :
    bs = [] := by
  have htop := h.userTop
  have hzero : UserHeap.base.toNat = 0x10008000 := rfl
  rw [hbase, hzero] at htop
  cases bs with
  | nil => rfl
  | cons b rest =>
      simp only [extent, List.map_cons, List.sum_cons] at htop
      omega

/-- The breaks are level where the program's is at the top too. -/
theorem Holds.level_iff (h : Holds s bs) :
    s.Level ↔ s.user.heap.heapPtr.toNat = 0x10008000 + extent 20 bs := by
  have hu : UserHeap.base.toNat = 0x10008000 := rfl
  have hk : Kernel.Heap.base.toNat = 0xC0000000 := rfl
  have htop := h.userTop
  have hroom := h.room
  have hkernel := h.kernelTop
  have hlt := h.kernel.room
  constructor
  · intro hlevel
    have heq := congrArg BitVec.toNat hlevel
    rw [BitVec.toNat_sub, BitVec.toNat_sub, hu, hk] at heq
    omega
  · intro heq
    apply BitVec.eq_of_toNat_eq
    rw [BitVec.toNat_sub, BitVec.toNat_sub, hu, hk]
    omega

/-- Heaps that hold the same blocks agree. -/
theorem Holds.agree (h : Holds s bs) : s.Agree := by
  refine ⟨fun e he => ?_, ?_, fun hlive => ?_⟩
  · obtain ⟨b, -, -, rfl⟩ := h.live e he
    exact (data_shift_sub 0x10008000 b).trans (data_shift_sub 0xC0000000 b).symm
  · exact (blockList_eq h.user).trans (blockList_eq h.kernel).symm
  · have hbase := h.unused hlive
    obtain rfl := h.nil_of_base hbase
    exact ⟨h.user.head, h.kernel.head, hbase, BitVec.eq_of_toNat_eq h.kernelTop⟩

/-- The kernel's heap grows where no block of the list serves the request. -/
theorem Holds.grows_iff (h : Holds s bs) {n : Word} : s.kernel.Grows n ↔ fit n.toNat bs = none := by
  rw [Kernel.Heap.Grows, h.kernel.grows_iff, Kernel.Heap.fit_shift, Option.map_eq_none_iff]

/-- A new allocation in both copies: a block in use for the two pointers. -/
structure Allocates (s : Copies) (size : Word) (t : Copies) (bs' : List Block)
    (d : Block) : Prop where
  live : t.live = pointers d :: s.live
  mem : d ∈ bs'
  used : d.free = false
  size : size.toNat ≤ d.size
  holds : t.Accepted → Holds t bs'

/-- A request within the limit stays within it when it is aligned. -/
theorem request_bounds {size : Word} (hsize : size ≤ Kernel.HEAP_LIMIT - Kernel.BRK_DEFAULT) :
    size.toNat ≤ (align4 size).toNat ∧ (align4 size).toNat ≤ 0x100003 := by
  have hsmall : size.toNat ≤ 0x100000 := hsize
  have hle : (align4 size).toNat ≤ size.toNat + 3 := align4_le (by omega)
  exact ⟨Kernel.Heap.le_align4 (by omega), by omega⟩

/-- A live pointer keeps its block. -/
theorem Holds.live_cons (h : Holds s bs) {d : Block} (hd : d ∈ bs') (hused : d.free = false)
    (hkeep : ∀ c ∈ bs, c.free = false → c ∈ bs') :
    ∀ e ∈ pointers d :: s.live, ∃ b ∈ bs', b.free = false ∧ e = pointers b := by
  intro e he
  rcases List.mem_cons.mp he with rfl | he'
  · exact ⟨d, hd, hused, rfl⟩
  · obtain ⟨b, hb, hbused, heq⟩ := h.live e he'
    exact ⟨b, hkeep b hb hbused, hbused, heq⟩

/-- Allocation in a block that is there. -/
theorem Holds.malloc_fit (h : Holds s bs) {size : Word} {a : Nat}
    (hsize : size ≤ Kernel.HEAP_LIMIT - Kernel.BRK_DEFAULT)
    (hfit : fit (align4 size).toNat bs = some (a, bs')) :
    ∃ r r' d, s.user.malloc size = some r ∧ s.kernel.malloc size = some r' ∧
      Allocates s size (s.returned r r') bs' d := by
  obtain ⟨hge, -⟩ := request_bounds hsize
  have hshift : ∀ k, fit (align4 size).toNat (bs.map (Block.shift k)) =
      some (k + a, bs'.map (Block.shift k)) := by
    intro k
    rw [Kernel.Heap.fit_shift, hfit]
    rfl
  obtain ⟨hu, hmallocu, hbreaku, hrepu⟩ := h.user.malloc_fit (hshift _)
  obtain ⟨hk, hmallock, hbreakk, hrepk⟩ := h.kernel.malloc_fit (hshift _)
  obtain ⟨u', hmallocu', rfl⟩ := UserHeap.malloc_of_heap hmallocu
  obtain ⟨⟨d, hd, rfl, hused, hdsize⟩, hkeep⟩ := Kernel.Heap.mem_fit hfit
  have hextent : extent 20 bs' = extent 20 bs := by
    have := hrepu.tiles.extent_eq
    rw [extent_shift] at this
    omega
  have hpos : 20 ≤ extent 20 bs' := by
    have := (hrepu.bounds (List.mem_map_of_mem hd)).2.2.1
    simp only [Block.shift] at this
    omega
  have huserTop : 0x10008000 + extent 20 bs' ≤ u'.heap.heapPtr.toNat := by
    rw [hbreaku, hextent]
    exact h.userTop
  refine ⟨_, _, d, hmallocu', hmallock, rfl, hd, hused, by omega, fun _ => ?_⟩
  refine ⟨by rw [hextent]; exact hrepu, by rw [hextent]; exact hrepk, ?_, huserTop, ?_,
    h.live_cons hd hused hkeep, (fun hnil => absurd hnil (List.cons_ne_nil _ _)), fun hbase => ?_⟩
  · show hk.heapPtr.toNat = _
    rw [hbreakk, hextent, h.kernelTop]
  · show u'.heap.heapPtr.toNat < _
    rw [hbreaku]
    exact h.room
  · have hbase' : u'.heap.heapPtr = UserHeap.base := hbase
    have hzero : UserHeap.base.toNat = 0x10008000 := rfl
    rw [hbase', hzero] at huserTop
    omega

/-- Allocation behind level breaks. -/
theorem Holds.malloc_grow (h : Holds s bs) {size : Word}
    (hsize : size ≤ Kernel.HEAP_LIMIT - Kernel.BRK_DEFAULT)
    (hfit : fit (align4 size).toNat bs = none) (hlevel : s.Level) :
    ∃ r r' bs' d, s.user.malloc size = some r ∧ s.kernel.malloc size = some r' ∧
      Allocates s size (s.returned r r') bs' d := by
  obtain ⟨hge, hle⟩ := request_bounds hsize
  have htop := h.level_iff.mp hlevel
  have hroom := h.room
  have hshift : ∀ k, fit (align4 size).toNat (bs.map (Block.shift k)) = none := by
    intro k
    rw [Kernel.Heap.fit_shift, hfit]
    rfl
  have hcursors : bs = [] → s.user.heap.lastVisited = 0 ∧ s.kernel.lastVisited = 0 := by
    rintro rfl
    exact h.cursors (BitVec.eq_of_toNat_eq htop)
  obtain ⟨hu, hmallocu, hbreaku, hrepu⟩ := h.user.malloc_unfit (hshift _) htop
    (fun hnil => (hcursors (List.map_eq_nil_iff.mp hnil)).1) (by omega)
  obtain ⟨hk, hmallock, hbreakk, hrepk⟩ := h.kernel.malloc_unfit (hshift _) h.kernelTop
    (fun hnil => (hcursors (List.map_eq_nil_iff.mp hnil)).2) (by omega)
  obtain ⟨u', hmallocu', rfl⟩ := UserHeap.malloc_of_heap hmallocu
  -- the new block, at the top of both lists
  obtain ⟨d, hd⟩ : ∃ d : Block, d = ⟨extent 20 bs, (align4 size).toNat, false⟩ := ⟨_, rfl⟩
  have hextent : extent 20 (bs ++ [d]) = extent 20 bs + 20 + (align4 size).toNat := by
    simp [extent, hd, Nat.add_assoc]
  have hgrown : ∀ k (p : Word), p.toNat = k + extent 20 bs → addr (d.shift k) = p := by
    intro k p hp
    rw [addr, hd, Block.shift, ← hp, BitVec.ofNat_toNat, BitVec.setWidth_eq]
  have hpointers : pointers d = (data s.user.heap.heapPtr, data s.kernel.heapPtr) := by
    rw [pointers, hgrown _ _ htop, hgrown _ _ h.kernelTop]
  have hmap : ∀ k, (bs ++ [d]).map (Block.shift k) =
      bs.map (Block.shift k) ++ [⟨k + extent 20 bs, (align4 size).toNat, false⟩] := by
    intro k
    rw [List.map_append, hd]
    rfl
  refine ⟨_, _, bs ++ [d], d, hmallocu', hmallock, ?_, by simp, by rw [hd], by rw [hd]; exact hge,
    fun haccepted => ?_⟩
  · show (data s.user.heap.heapPtr, data s.kernel.heapPtr) :: s.live = _
    rw [hpointers]
  · have hlast : d ∈ bs ++ [d] := by simp
    have hlive := h.live_cons hlast (by rw [hd]) fun c hc _ => List.mem_append_left _ hc
    rw [hpointers] at hlive
    have hmoved : u'.heap.heapPtr ≠ s.user.heap.heapPtr := by
      intro heq
      rw [heq] at hbreaku
      omega
    have hin := haccepted _ (UserHeap.malloc_brks hmallocu' hmoved)
    refine ⟨?_, ?_, ?_, ?_, hin.2, hlive, (fun hnil => absurd hnil (List.cons_ne_nil _ _)),
      fun hbase => ?_⟩
    · rw [hmap, hextent, ← Nat.add_assoc, ← Nat.add_assoc]
      exact hrepu
    · rw [hmap, hextent, ← Nat.add_assoc, ← Nat.add_assoc]
      exact hrepk
    · rw [hextent]
      show hk.heapPtr.toNat = _
      rw [hbreakk]
      omega
    · rw [hextent]
      show _ ≤ u'.heap.heapPtr.toNat
      rw [hbreaku]
      omega
    · have hbase' : u'.heap.heapPtr = UserHeap.base := hbase
      have hzero : UserHeap.base.toNat = 0x10008000 := rfl
      rw [hbase', hzero] at hbreaku
      omega

/-- **Allocation.**  A call that grows the heaps only from level breaks. -/
theorem Holds.malloc (h : Holds s bs) {size : Word}
    (hsize : size ≤ Kernel.HEAP_LIMIT - Kernel.BRK_DEFAULT)
    (hlevel : s.kernel.Grows (align4 size) → s.Level) :
    ∃ r r' bs' d, s.user.malloc size = some r ∧ s.kernel.malloc size = some r' ∧
      Allocates s size (s.returned r r') bs' d := by
  cases hfit : fit (align4 size).toNat bs with
  | some r =>
      obtain ⟨r, r', d, hmallocu, hmallock, halloc⟩ := h.malloc_fit hsize hfit
      exact ⟨r, r', _, d, hmallocu, hmallock, halloc⟩
  | none => exact h.malloc_grow hsize hfit (hlevel (h.grows_iff.mpr hfit))

/-- Zeros in the payloads of a block. -/
theorem Holds.zero {u : UserHeap} {k : Heap} {live : List (Word × Word)} (h : Holds ⟨u, k, live⟩ bs)
    {d : Block} (hd : d ∈ bs) {n : Nat} (hn : n ≤ d.size) :
    (pointers d).1 ≠ 0 ∧ (pointers d).2 ≠ 0 ∧
      Holds ⟨{ u with heap := { u.heap with mem := Kernel.Heap.zero u.heap.mem (pointers d).1 n } },
        { k with mem := Kernel.Heap.zero k.mem (pointers d).2 n }, live⟩ bs := by
  have hdu := List.mem_map_of_mem (f := Block.shift 0x10008000) hd
  have hdk := List.mem_map_of_mem (f := Block.shift 0xC0000000) hd
  have hne : ∀ b : Block, b.start + 20 + b.size < 2 ^ 32 → data (addr b) ≠ 0 := by
    intro b hb heq
    have := congrArg BitVec.toNat heq
    rw [Kernel.Heap.data_toNat (by omega)] at this
    simp at this
  refine ⟨hne _ (h.user.bounds hdu).2.2.2, hne _ (h.kernel.bounds hdk).2.2.2,
    h.user.write_payload hdu hn fun x hx => ?_, h.kernel.write_payload hdk hn fun x hx => ?_,
    h.kernelTop, h.userTop, h.room, h.live, h.unused, h.cursors⟩
  · exact if_neg (Nat.not_lt.mpr hx)
  · exact if_neg (Nat.not_lt.mpr hx)

/-- The zeros of `calloc` go into the payloads. -/
theorem Holds.calloc (h : Holds s bs) {number size : Word}
    (hsize : number * size ≤ Kernel.HEAP_LIMIT - Kernel.BRK_DEFAULT)
    (hlevel : s.kernel.Grows (align4 (number * size)) → s.Level) :
    ∃ r r' bs', s.user.calloc number size = some r ∧ s.kernel.calloc number size = some r' ∧
      ((s.returned r r').Accepted → Holds (s.returned r r') bs') := by
  obtain ⟨⟨p, u⟩, ⟨q, k⟩, bs', d, hmallocu, hmallock, halloc⟩ := h.malloc hsize hlevel
  have hpq : (p, q) = pointers d := (List.cons.inj halloc.live).1
  refine ⟨_, _, bs', by rw [UserHeap.calloc, hmallocu]; rfl,
    by rw [Kernel.Heap.calloc, hmallock]; rfl, fun haccepted => ?_⟩
  have hholds : Holds ⟨u, k, (p, q) :: s.live⟩ bs' := by
    refine halloc.holds fun a ha => haccepted a ?_
    simp only [returned]
    split <;> exact ha
  obtain ⟨hp, hq, hzero⟩ := hholds.zero halloc.mem halloc.size
  rw [← hpq] at hp hq hzero
  simp only [returned, if_pos (bne_iff_ne.mpr hp), if_pos (bne_iff_ne.mpr hq)]
  exact hzero

/-- The lists after the two copies have freed the pointers of a block. -/
theorem Holds.free_lists (h : Holds s (l ++ b :: r)) :
    (∃ hi', hi' ≤ 0x10008000 + extent 20 (l ++ b :: r) ∧
      Spans 0x10008000 hi' (s.user.free (pointers b).1).heap
        ((released (s.user.validAddr (pointers b).1).1 l b r).map (Block.shift 0x10008000))) ∧
    ∃ hi', (s.kernel.free (pointers b).2).heapPtr.toNat = hi' ∧
      Spans 0xC0000000 hi' (s.kernel.free (pointers b).2)
        ((released (s.kernel.validAddr (pointers b).2) l b r).map (Block.shift 0xC0000000)) := by
  have hu := h.user
  have hk := h.kernel
  rw [List.map_append, List.map_cons] at hu hk
  obtain ⟨hiu, ⟨hle, -⟩, hrepu⟩ := hu.free
  obtain ⟨hik, ⟨-, htop⟩, hrepk⟩ := hk.free
  rw [released_shift] at hrepu hrepk
  refine ⟨⟨hiu, hle, ?_⟩, hik, htop h.kernelTop, hrepk⟩
  rw [UserHeap.free_heap, UserHeap.validAddr_fst]
  exact hrepu.of_eq rfl rfl

/-- **Release.**  A pointer that both copies accept or both refuse. -/
theorem Holds.free (h : Holds s bs) {p q : Word} (hlive : (p, q) ∈ s.live)
    (hvalid : (s.user.validAddr p).1 = s.kernel.validAddr q) (hother : ∃ e ∈ s.live, e ≠ (p, q)) :
    ∃ bs', Holds ⟨s.user.free p, s.kernel.free q, s.live.filter fun e => e ≠ (p, q)⟩ bs' := by
  obtain ⟨b, hb, hused, hpq⟩ := h.live _ hlive
  obtain ⟨rfl, rfl⟩ := Prod.mk.inj hpq
  obtain ⟨l, r, rfl⟩ := List.append_of_mem hb
  have hrest : (s.live.filter fun e => e ≠ pointers b) ≠ [] := by
    obtain ⟨e, he, hne⟩ := hother
    exact List.ne_nil_of_mem (List.mem_filter.mpr ⟨he, decide_eq_true hne⟩)
  obtain ⟨⟨hiu, hle, hrepu⟩, hik, htop, hrepk⟩ := h.free_lists
  have hvalid' : (s.user.validAddr (pointers b).1).1 = s.kernel.validAddr (pointers b).2 := hvalid
  rw [hvalid'] at hrepu
  have hextentu := hrepu.tiles.extent_eq
  have hextentk := hrepk.tiles.extent_eq
  rw [extent_shift] at hextentu hextentk
  subst hextentu
  rw [hextentk] at htop hrepk
  have hbreak : (s.user.free (pointers b).1).heap.heapPtr = s.user.heap.heapPtr := by
    rw [UserHeap.free_heap]
  have hcursor : (s.user.free (pointers b).1).heap.lastVisited = s.user.heap.lastVisited := by
    rw [UserHeap.free_heap]
    exact Kernel.Heap.free_lastVisited
  refine ⟨_, hrepu, hrepk, htop, ?_, ?_, fun e he => ?_, fun hnil => absurd hnil hrest,
    fun hbase => ?_⟩
  · have huserTop := h.userTop
    show _ ≤ (s.user.free (pointers b).1).heap.heapPtr.toNat
    rw [hbreak]
    omega
  · show (s.user.free (pointers b).1).heap.heapPtr.toNat < _
    rw [hbreak]
    exact h.room
  · -- another live pointer has another block
    obtain ⟨he, hne⟩ := List.mem_filter.mp he
    obtain ⟨c, hc, hcused, rfl⟩ := h.live e he
    have hcb : c ≠ b := by
      rintro rfl
      simp [pointers] at hne
    exact ⟨c, mem_released (by simpa [hcb] using hc) hcused, hcused, rfl⟩
  · have hbase' : (s.user.free (pointers b).1).heap.heapPtr = UserHeap.base := hbase
    rw [hbreak] at hbase'
    obtain ⟨hzero, hzero'⟩ := h.cursors hbase'
    exact ⟨hcursor.trans hzero, Kernel.Heap.free_lastVisited.trans hzero'⟩

/-- **The step.**  A call that keeps the copies together. -/
theorem Holds.call (h : Holds s bs) {c : Call} (hallowed : s.Allowed c)
    (htogether : s.KeepsTogether c) :
    ∃ t bs', s.call c = some t ∧ (t.Accepted → Holds t bs') := by
  cases c with
  | malloc size =>
      obtain ⟨r, r', bs', d, hmallocu, hmallock, halloc⟩ := h.malloc hallowed htogether
      exact ⟨_, bs', by rw [Copies.call, hmallocu, Option.bind_some, hmallock]; rfl, halloc.holds⟩
  | calloc number size =>
      obtain ⟨r, r', bs', hcallocu, hcallock, hholds⟩ := h.calloc hallowed htogether
      exact ⟨_, bs', by rw [Copies.call, hcallocu, Option.bind_some, hcallock]; rfl, hholds⟩
  | free p q =>
      obtain ⟨bs', hholds⟩ := h.free hallowed htogether.1 htogether.2
      exact ⟨_, bs', rfl, fun _ => hholds⟩

/-- The run lemma. -/
theorem holds_of_reaches {mu mk : Mem} (hrun : Run.Reaches Steps
    (fun s c => s.Allowed c ∧ s.KeepsTogether c) (boot mu mk) s) : ∃ bs, Holds s bs := by
  refine Run.Reaches.invariant (I := fun s => ∃ bs, Holds s bs) hrun ⟨[], holds_boot mu mk⟩ ?_
  rintro s c t ⟨bs, h⟩ ⟨hallowed, htogether⟩ ⟨hcall, haccepted⟩
  obtain ⟨t', bs', hcall', hholds⟩ := h.call hallowed htogether
  rw [hcall] at hcall'
  obtain rfl := Option.some.inj hcall'
  exact ⟨bs', hholds haccepted⟩

/-! ### Calls that take the copies apart -/

/-- Growing from breaks that are not level. -/
theorem Holds.malloc_apart (h : Holds s bs) {size : Word}
    (hgrows : s.kernel.Grows (align4 size)) (hlevel : ¬ s.Level) :
    ∃ r r', s.user.malloc size = some r ∧ s.kernel.malloc size = some r' ∧
      r.1 - UserHeap.base ≠ r'.1 - Kernel.Heap.base := by
  have hfit := h.grows_iff.mp hgrows
  have hshift : ∀ k, fit (align4 size).toNat (bs.map (Block.shift k)) = none := by
    intro k
    rw [Kernel.Heap.fit_shift, hfit]
    rfl
  have hkernelTop := h.kernelTop
  obtain ⟨hu, hmallocu⟩ := h.user.malloc_at_break (hshift _) h.userTop
  obtain ⟨hk, hmallock⟩ := h.kernel.malloc_at_break (hshift _) (by omega)
  obtain ⟨u', hmallocu', rfl⟩ := UserHeap.malloc_of_heap hmallocu
  refine ⟨_, _, hmallocu', hmallock, fun heq => hlevel ?_⟩
  rw [data, data] at heq
  rw [Level]
  bv_omega

/-- Different answers are no agreement. -/
theorem not_agree_returned {r : Word × UserHeap} {r' : Word × Heap}
    (hne : r.1 - UserHeap.base ≠ r'.1 - Kernel.Heap.base) : ¬ (s.returned r r').Agree :=
  fun hagree => hne (hagree.offsets _ List.mem_cons_self)

/-- The list shows how many blocks are in use. -/
theorem used_of_entries (h : bs.map entry = bs'.map entry) : used bs = used bs' := by
  have hcount : ∀ bs : List Block, used bs = (bs.map entry).countP fun e => !e.2.2 := by
    intro bs
    rw [List.countP_map]
    rfl
  rw [hcount, hcount, h]

/-- A pointer that one copy accepts and the other one refuses, or the last one. -/
theorem Holds.free_apart (h : Holds s bs) {p q : Word} (hlive : (p, q) ∈ s.live)
    (hagree : Agree ⟨s.user.free p, s.kernel.free q, s.live.filter fun e => e ≠ (p, q)⟩) :
    s.KeepsTogether (.free p q) := by
  obtain ⟨b, hb, hused, hpq⟩ := h.live _ hlive
  obtain ⟨rfl, rfl⟩ := Prod.mk.inj hpq
  obtain ⟨l, r, rfl⟩ := List.append_of_mem hb
  constructor
  · obtain ⟨⟨hiu, -, hrepu⟩, hik, -, hrepk⟩ := h.free_lists
    have hblocks : blockList UserHeap.base (s.user.free (pointers b).1).heap =
      blockList Kernel.Heap.base (s.kernel.free (pointers b).2) := hagree.blocks
    have hlists := (blockList_eq hrepu).symm.trans (hblocks.trans (blockList_eq hrepk))
    have hcount := used_of_entries hlists
    rw [used_released hused, used_released hused] at hcount
    show (s.user.validAddr (pointers b).1).1 = s.kernel.validAddr (pointers b).2
    cases hu : (s.user.validAddr (pointers b).1).1 <;>
      cases hk : s.kernel.validAddr (pointers b).2 <;> simp [hu, hk] at hcount ⊢
  · by_contra hlast
    have hnil : (s.live.filter fun e => e ≠ pointers b) = [] :=
      List.filter_eq_nil_iff.mpr fun e he hne => hlast ⟨e, he, of_decide_eq_true hne⟩
    have hbase := (hagree.back hnil).2.2.1
    rw [UserHeap.free_heap] at hbase
    exact absurd (h.nil_of_base hbase) (by simp)

/-- **The copies of the allocator.**  In every run of calls that grow the heaps
from level breaks only, free what both copies accept or refuse, and never free
the last pointer in use, the copies agree in every state.  In each of these
states every allowed call returns in both copies, and while the program is
alive they agree after it exactly when it is such a call. -/
theorem agree_of_reaches {mu mk : Mem} (hrun : Run.Reaches Steps
    (fun s c => s.Allowed c ∧ s.KeepsTogether c) (boot mu mk) s) :
    s.Agree ∧ ∀ c, s.Allowed c →
      ∃ t, s.call c = some t ∧ (t.Accepted → (t.Agree ↔ s.KeepsTogether c)) := by
  obtain ⟨bs, h⟩ := holds_of_reaches hrun
  refine ⟨h.agree, fun c hallowed => ?_⟩
  by_cases htogether : s.KeepsTogether c
  · obtain ⟨t, bs', hcall, hholds⟩ := h.call hallowed htogether
    exact ⟨t, hcall, fun haccepted => iff_of_true (hholds haccepted).agree htogether⟩
  · cases c with
    | malloc size =>
        obtain ⟨hgrows, hlevel⟩ := Classical.not_imp.mp htogether
        obtain ⟨r, r', hu, hk, hne⟩ := h.malloc_apart hgrows hlevel
        exact ⟨_, by rw [Copies.call, hu, Option.bind_some, hk]; rfl,
          fun _ => iff_of_false (not_agree_returned hne) htogether⟩
    | calloc number size =>
        obtain ⟨hgrows, hlevel⟩ := Classical.not_imp.mp htogether
        obtain ⟨r, r', hu, hk, hne⟩ := h.malloc_apart hgrows hlevel
        obtain ⟨u, hcallocu⟩ : ∃ u, s.user.calloc number size = some (r.1, u) :=
          ⟨_, by rw [UserHeap.calloc, hu]; rfl⟩
        obtain ⟨k, hcallock⟩ : ∃ k, s.kernel.calloc number size = some (r'.1, k) :=
          ⟨_, by rw [Kernel.Heap.calloc, hk]; rfl⟩
        exact ⟨s.returned (r.1, u) (r'.1, k),
          by rw [Copies.call, hcallocu, Option.bind_some, hcallock]; rfl,
          fun _ => iff_of_false (not_agree_returned hne) htogether⟩
    | free p q =>
        exact ⟨_, rfl, fun _ => iff_of_false
          (fun hagree => htogether (h.free_apart hallowed hagree)) htogether⟩

/-! ### Given calls -/

/-- `Steps` as a function. -/
def next (s : Copies) (c : Call) : Option Copies := (s.call c).filter fun t => t.Accepted

/-- The next state is a step. -/
theorem steps_of_next {c : Call} (h : s.next c = some t) : s.Steps c t := by
  obtain ⟨hcall, haccepted⟩ := Option.filter_eq_some_iff.mp h
  exact ⟨hcall, of_decide_eq_true haccepted⟩

/-- Two blocks, one of them given back and used again. -/
def togetherCalls : List Call :=
  [.malloc 8, .calloc 2 8, .free 0x10008014 0xC0000014, .malloc 1]

/-- The guarantee on four calls. -/
theorem agree_together :
    ∃ s, Run.execute next (fun s c => s.Allowed c ∧ s.KeepsTogether c)
        (boot (fun _ => 0) fun _ => 0) togetherCalls = some s ∧
      s.Agree ∧ ∀ c, s.Allowed c →
        ∃ t, s.call c = some t ∧ (t.Accepted → (t.Agree ↔ s.KeepsTogether c)) := by
  have hruns : (Run.execute next (fun s c => s.Allowed c ∧ s.KeepsTogether c)
      (boot (fun _ => 0) fun _ => 0) togetherCalls).isSome := by
    decide +kernel
  obtain ⟨s, hs⟩ := Option.isSome_iff_exists.mp hruns
  exact ⟨s, hs, agree_of_reaches (Run.reaches_of_execute steps_of_next hs)⟩

/-- An allocation, its release, and the same request again. -/
def apartCalls : List Call := [.malloc 8, .free 0x10008014 0xC0000014, .malloc 8]

/-- The program's second block lies above its first one. -/
theorem copies_not_always_agree :
    ¬ ∀ mu mk s, Run.Reaches Steps Allowed (boot mu mk) s → s.Agree := by
  intro hagree
  have hlive : (Run.execute next Allowed (boot (fun _ => 0) fun _ => 0) apartCalls).map
      (fun s => s.live) = some [(0x10008030, 0xC0000014)] := by
    decide +kernel
  obtain ⟨s, hs, heq⟩ := Option.map_eq_some_iff.mp hlive
  have hoffsets := (hagree _ _ _ (Run.reaches_of_execute steps_of_next hs)).offsets
  rw [heq] at hoffsets
  exact absurd (hoffsets _ List.mem_cons_self) (by decide)

end Copies

end Programs
