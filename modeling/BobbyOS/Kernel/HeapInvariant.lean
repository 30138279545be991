import BobbyOS.Kernel.HeapManager
import BobbyOS.Lib.Tiling

/-!
# The block list of the kernel heap

The headers in memory represent a tiling of `[0xC0000000, heap_ptr)`: `next`
follows the blocks in address order, `prev` inverts it, and each block ends
where the next one begins.  Every routine is matched with the change it makes
to the tiling.
-/

namespace Kernel

open ByteMemory Tiling

namespace Heap

/-- The address of a block. -/
def addr (b : Block) : Word := BitVec.ofNat 32 b.start

/-- The address of the first block, or `nxt` behind an empty list. -/
def first : List Block → Word → Word
  | [], nxt => nxt
  | b :: _, _ => addr b

/-- The address of the last block, or `prev` before an empty list. -/
def last : Word → List Block → Word
  | prev, [] => prev
  | _, b :: rest => last (addr b) rest

/-- The header of `b` in memory. -/
structure Header (m : Mem) (b : Block) (prev next : Word) : Prop where
  size : word m b.start = BitVec.ofNat 32 b.size
  next : word m (b.start + 4) = next
  prev : word m (b.start + 8) = prev
  free : word m (b.start + 12) ≠ 0 ↔ b.free = true

/-- The headers of `bs` are chained both ways, between `prev` and `nxt`. -/
def Linked (m : Mem) : Word → List Block → Word → Prop
  | _, [], _ => True
  | prev, b :: rest, nxt => Header m b prev (first rest nxt) ∧ Linked m (addr b) rest nxt

/-- The headers stand for the tiling `bs` of `[lo, hi)`, wherever the break is. -/
structure Spans (lo hi : Nat) (h : Heap) (bs : List Block) : Prop where
  pos : 0 < lo
  room : hi < 2 ^ 32
  tiles : Tiles 20 lo hi bs
  linked : Linked h.mem 0 bs 0
  head : h.head = first bs 0

/-- The heap stands for the tiling `bs`. -/
structure Represents (h : Heap) (bs : List Block) : Prop where
  tiles : Tiles 20 base.toNat h.heapPtr.toNat bs
  linked : Linked h.mem 0 bs 0
  head : h.head = first bs 0

/-! ### Chains -/

variable {m m' : Mem} {p q n : Word} {b c : Block} {l r bs : List Block}

/-- The first block of a list with another one behind it. -/
theorem first_append : first (l ++ r) n = first l (first r n) := by
  cases l <;> rfl

/-- The last block of a list with another one before it. -/
theorem last_append : last p (l ++ r) = last (last p l) r := by
  induction l generalizing p with
  | nil => rfl
  | cons b rest ih => exact ih

/-- A chain of two lists is linked in the middle. -/
theorem linked_append :
    Linked m p (l ++ r) n ↔ Linked m p l (first r n) ∧ Linked m (last p l) r n := by
  induction l generalizing p with
  | nil => simp [Linked, last]
  | cons b rest ih =>
      rw [List.cons_append, Linked, Linked, ih, first_append, and_assoc]
      rfl

/-- The four words of a header that the chain reads are the same. -/
structure SameHeader (m m' : Mem) (b : Block) : Prop where
  size : word m' b.start = word m b.start
  next : word m' (b.start + 4) = word m (b.start + 4)
  prev : word m' (b.start + 8) = word m (b.start + 8)
  free : word m' (b.start + 12) = word m (b.start + 12)

/-- A header depends on its words. -/
theorem Header.congr (h : Header m b p n) (hs : SameHeader m m' b) : Header m' b p n :=
  ⟨hs.size.trans h.size, hs.next.trans h.next, hs.prev.trans h.prev, by rw [hs.free, h.free]⟩

/-- A chain survives a change of memory outside its headers. -/
theorem Linked.congr (h : Linked m p bs n) (hs : ∀ b ∈ bs, SameHeader m m' b) :
    Linked m' p bs n := by
  induction bs generalizing p with
  | nil => trivial
  | cons b rest ih =>
      exact ⟨h.1.congr (hs b List.mem_cons_self),
        ih h.2 fun c hc => hs c (List.mem_cons_of_mem _ hc)⟩

/-- A chain whose first `prev` was redirected. -/
theorem Linked.reprev (h : Linked m p (b :: r) n) (hr : ∀ c ∈ r, SameHeader m m' c)
    (hsize : word m' b.start = word m b.start)
    (hnext : word m' (b.start + 4) = word m (b.start + 4))
    (hprev : word m' (b.start + 8) = q)
    (hfree : word m' (b.start + 12) = word m (b.start + 12)) :
    Linked m' q (b :: r) n :=
  ⟨⟨hsize.trans h.1.size, hnext.trans h.1.next, hprev, by rw [hfree, h.1.free]⟩, h.2.congr hr⟩

/-- A chain whose last `next` was redirected. -/
theorem Linked.renext (h : Linked m p (l ++ [b]) n) (hl : ∀ c ∈ l, SameHeader m m' c)
    (hsize : word m' b.start = word m b.start)
    (hnext : word m' (b.start + 4) = q)
    (hprev : word m' (b.start + 8) = word m (b.start + 8))
    (hfree : word m' (b.start + 12) = word m (b.start + 12)) :
    Linked m' p (l ++ [b]) q := by
  obtain ⟨h1, h2, -⟩ := linked_append.mp h
  exact linked_append.mpr ⟨h1.congr hl,
    ⟨hsize.trans h2.size, hnext, hprev.trans h2.prev, by rw [hfree, h2.free]⟩, trivial⟩

/-! ### Addresses -/

/-- Where the heap begins. -/
theorem base_toNat : base.toNat = 0xC0000000 := rfl

/-- A represented heap spans from its base to the break. -/
theorem Represents.spans {h : Heap} (hrep : Represents h bs) :
    Spans base.toNat h.heapPtr.toNat h bs :=
  ⟨by decide, h.heapPtr.isLt, hrep.tiles, hrep.linked, hrep.head⟩

/-- What spans from the base to the break is represented. -/
theorem Spans.represents {hi : Nat} {h : Heap} (hs : Spans base.toNat hi h bs)
    (hbreak : h.heapPtr.toNat = hi) : Represents h bs :=
  ⟨by rw [hbreak]; exact hs.tiles, hs.linked, hs.head⟩

/-- A block lies within the span. -/
theorem Spans.bounds {lo hi : Nat} {h : Heap} (hs : Spans lo hi h bs) (hb : b ∈ bs) :
    lo ≤ b.start ∧ 0 < b.start ∧ b.start + 20 + b.size ≤ hi ∧ b.start + 20 + b.size < 2 ^ 32 := by
  obtain ⟨h1, h2⟩ := hs.tiles.bounds hb
  have hpos := hs.pos
  have hroom := hs.room
  simp only [Block.stop] at h2
  omega

/-- A block lies in the kernel's segment, and does not wrap. -/
theorem Represents.bounds {h : Heap} (hrep : Represents h bs) (hb : b ∈ bs) :
    0xC0000000 ≤ b.start ∧ b.start + 20 + b.size < 2 ^ 32 := by
  obtain ⟨h1, -, -, h2⟩ := hrep.spans.bounds hb
  rw [base_toNat] at h1
  exact ⟨h1, h2⟩

/-- The address of a block is its start. -/
theorem addr_toNat (h : b.start < 2 ^ 32) : (addr b).toNat = b.start := by
  rw [addr, BitVec.toNat_ofNat, Nat.mod_eq_of_lt h]

/-- No block is at null. -/
theorem addr_ne_zero (h0 : 0 < b.start) (h : b.start < 2 ^ 32) : addr b ≠ 0 := by
  intro heq
  have := congrArg BitVec.toNat heq
  rw [addr_toNat h] at this
  simp at this
  omega

/-- The memory has one chain from an address on. -/
theorem linked_unique {p' : Word} {bs' : List Block} (h : Linked m p bs 0)
    (h' : Linked m p' bs' 0) (hfirst : first bs 0 = first bs' 0)
    (hbounds : ∀ b ∈ bs, 0 < b.start ∧ b.start + 20 + b.size < 2 ^ 32)
    (hbounds' : ∀ b ∈ bs', 0 < b.start ∧ b.start + 20 + b.size < 2 ^ 32) : bs = bs' := by
  induction bs generalizing p p' bs' with
  | nil =>
      cases bs' with
      | nil => rfl
      | cons b' rest' =>
          have hb' := hbounds' b' List.mem_cons_self
          exact absurd hfirst.symm (addr_ne_zero (b := b') hb'.1 (by omega))
  | cons b rest ih =>
      have hb := hbounds b List.mem_cons_self
      cases bs' with
      | nil => exact absurd hfirst (addr_ne_zero (b := b) hb.1 (by omega))
      | cons b' rest' =>
          have hb' := hbounds' b' List.mem_cons_self
          have hstart : b.start = b'.start := by
            have hnat := congrArg BitVec.toNat hfirst
            rwa [first, first, addr_toNat (by omega), addr_toNat (by omega)] at hnat
          have hsize : b.size = b'.size := by
            have hword := h.1.size.symm.trans (hstart ▸ h'.1.size)
            have hnat := congrArg BitVec.toNat hword
            rw [BitVec.toNat_ofNat, BitVec.toNat_ofNat] at hnat
            omega
          have hfree : b.free = b'.free := by
            rw [Bool.eq_iff_iff, ← h.1.free, ← h'.1.free, hstart]
          have hnext : first rest 0 = first rest' 0 := h.1.next.symm.trans (hstart ▸ h'.1.next)
          have hrest := ih h.2 h'.2 hnext (fun c hc => hbounds c (List.mem_cons_of_mem _ hc))
            fun c hc => hbounds' c (List.mem_cons_of_mem _ hc)
          obtain ⟨start, size, free⟩ := b
          obtain ⟨start', size', free'⟩ := b'
          obtain rfl := hstart
          obtain rfl := hsize
          obtain rfl := hfree
          rw [hrest]

/-- **Uniqueness.**  A heap stands for one list of blocks. -/
theorem Represents.unique {h : Heap} {bs' : List Block} (hrep : Represents h bs)
    (hrep' : Represents h bs') : bs = bs' := by
  refine linked_unique hrep.linked hrep'.linked (hrep.head.symm.trans hrep'.head) ?_ ?_
  · intro b hb
    have hbound := hrep.bounds hb
    omega
  · intro b hb
    have hbound := hrep'.bounds hb
    omega

/-! ### Fields at block addresses -/

section Fields

variable (h : Heap) (x : Nat)

/-- The size is the first word of a header. -/
theorem size_ofNat : h.size (BitVec.ofNat 32 x) = word h.mem x := rfl

/-- The next block is the second word. -/
theorem next_ofNat : h.next (BitVec.ofNat 32 x) = word h.mem (x + 4) := by
  rw [next, word, BitVec.ofNat_add]

/-- The block before is the third word. -/
theorem prev_ofNat : h.prev (BitVec.ofNat 32 x) = word h.mem (x + 8) := by
  rw [prev, word, BitVec.ofNat_add]

/-- The flag is the fourth word. -/
theorem isFree_ofNat : h.isFree (BitVec.ofNat 32 x) = (word h.mem (x + 12) != 0) := by
  rw [isFree, word, BitVec.ofNat_add]

/-- The first word is written. -/
theorem setSize_ofNat (v : Word) : h.setSize (BitVec.ofNat 32 x) v =
    { h with mem := store32 h.mem (BitVec.ofNat 32 x) v } := rfl

/-- The second word is. -/
theorem setNext_ofNat (v : Word) : h.setNext (BitVec.ofNat 32 x) v =
    { h with mem := store32 h.mem (BitVec.ofNat 32 (x + 4)) v } := by
  rw [setNext, store, BitVec.ofNat_add]

/-- The third word is. -/
theorem setPrev_ofNat (v : Word) : h.setPrev (BitVec.ofNat 32 x) v =
    { h with mem := store32 h.mem (BitVec.ofNat 32 (x + 8)) v } := by
  rw [setPrev, store, BitVec.ofNat_add]

/-- The fourth word is. -/
theorem setFree_ofNat (v : Word) : h.setFree (BitVec.ofNat 32 x) v =
    { h with mem := store32 h.mem (BitVec.ofNat 32 (x + 12)) v } := by
  rw [setFree, store, BitVec.ofNat_add]

/-- The fifth word is. -/
theorem setPtr_ofNat (v : Word) : h.setPtr (BitVec.ofNat 32 x) v =
    { h with mem := store32 h.mem (BitVec.ofNat 32 (x + 16)) v } := by
  rw [setPtr, store, BitVec.ofNat_add]

end Fields

/-! ### Reading a represented header -/

/-- A header has its block's flag. -/
theorem Header.isFree_eq {h : Heap} (hb : Header h.mem b p n) : h.isFree (addr b) = b.free := by
  rw [addr, isFree_ofNat, Bool.eq_iff_iff, bne_iff_ne]
  exact hb.free

/-- It has the link to the next block. -/
theorem Header.next_eq {h : Heap} (hb : Header h.mem b p n) : h.next (addr b) = n := by
  rw [addr, next_ofNat, hb.next]

/-- It has the link to the block before. -/
theorem Header.prev_eq {h : Heap} (hb : Header h.mem b p n) : h.prev (addr b) = p := by
  rw [addr, prev_ofNat, hb.prev]

/-- It has its block's size. -/
theorem Header.size_eq {h : Heap} (hb : Header h.mem b p n) :
    h.size (addr b) = BitVec.ofNat 32 b.size := by
  rw [addr, size_ofNat, hb.size]

/-- The size that is read is the block's. -/
theorem Represents.size_eq {h : Heap} (hrep : Represents h (l ++ b :: r)) :
    (h.size (addr b)).toNat = b.size := by
  have hb := hrep.bounds (b := b) (by simp)
  have hheader := (linked_append.mp hrep.linked).2.1
  rw [hheader.size_eq, BitVec.toNat_ofNat]
  omega

/-- The code compares sizes as numbers. -/
theorem le_ofNat_iff {s : Word} {k : Nat} (hk : k < 2 ^ 32) :
    s ≤ BitVec.ofNat 32 k ↔ s.toNat ≤ k := by
  rw [BitVec.le_def, BitVec.toNat_ofNat, Nat.mod_eq_of_lt hk]

/-! ### The search -/

/-- The block would serve a request of `s` bytes. -/
def Serves (s : Word) (b : Block) : Prop := b.free = true ∧ s.toNat ≤ b.size

/-- **The search.**  The walk over a chain ends at the first block that serves
the request, or at null, and leaves the cursor on the block before. -/
theorem findFrom_spec {h : Heap} {s : Word} (fuel : Nat) (hlinked : Linked h.mem p bs 0)
    (hbounds : ∀ b ∈ bs, 0 < b.start ∧ b.start + 20 + b.size < 2 ^ 32) (hfuel : bs.length < fuel) :
    (∃ l b r, bs = l ++ b :: r ∧ Serves s b ∧ (∀ c ∈ l, ¬ Serves s c) ∧
      findFrom fuel h s (first bs 0) =
        some (addr b, { h with lastVisited := last h.lastVisited l })) ∨
    ((∀ c ∈ bs, ¬ Serves s c) ∧ findFrom fuel h s (first bs 0) =
      some (0, { h with lastVisited := last h.lastVisited bs })) := by
  induction bs generalizing h p fuel with
  | nil =>
      obtain ⟨fuel, rfl⟩ : ∃ k, fuel = k + 1 := ⟨fuel - 1, by simp at hfuel; omega⟩
      exact Or.inr ⟨by simp, by simp [findFrom, first, last]⟩
  | cons b rest ih =>
      obtain ⟨fuel, rfl⟩ : ∃ k, fuel = k + 1 := ⟨fuel - 1, by omega⟩
      obtain ⟨hhead, hrest⟩ := hlinked
      have hb := hbounds b List.mem_cons_self
      have hne : addr b ≠ 0 := addr_ne_zero hb.1 (by omega)
      have htest : (h.isFree (addr b) && decide (s ≤ h.size (addr b))) = true ↔ Serves s b := by
        rw [hhead.isFree_eq, hhead.size_eq, Bool.and_eq_true, decide_eq_true_iff,
          le_ofNat_iff (by omega)]
        rfl
      by_cases hserves : Serves s b
      · refine Or.inl ⟨[], b, rest, rfl, hserves, by simp, ?_⟩
        have h1 := htest.mpr hserves
        rw [first, findFrom, h1]
        simp [last]
      · have h1 : (h.isFree (addr b) && decide (s ≤ h.size (addr b))) = false := by
          rw [← Bool.not_eq_true, htest]
          exact hserves
        have hstep : findFrom (fuel + 1) h s (first (b :: rest) 0) =
            findFrom fuel { h with lastVisited := addr b } s (first rest 0) := by
          have hne' : (addr b != 0) = true := bne_iff_ne.mpr hne
          rw [first, findFrom, h1, hhead.next_eq, hne']
          rfl
        rw [hstep]
        have hlen : rest.length < fuel := by
          rw [List.length_cons] at hfuel
          omega
        rcases ih (h := { h with lastVisited := addr b }) fuel hrest
            (fun c hc => hbounds c (List.mem_cons_of_mem _ hc)) hlen with
          ⟨l, c, r, rfl, hc, hl, hfind⟩ | ⟨hnone, hfind⟩
        · refine Or.inl ⟨b :: l, c, r, rfl, hc, ?_, hfind⟩
          intro d hd
          rcases List.mem_cons.mp hd with rfl | hd'
          · exact hserves
          · exact hl d hd'
        · refine Or.inr ⟨?_, hfind⟩
          intro d hd
          rcases List.mem_cons.mp hd with rfl | hd'
          · exact hserves
          · exact hnone d hd'

variable {lo hi : Nat}

/-- A heap has fewer blocks than addresses, so `findBlock` ends. -/
theorem Spans.findBlock_spec {h : Heap} (hrep : Spans lo hi h bs) (s : Word) (v : Word) :
    (∃ l b r, bs = l ++ b :: r ∧ Serves s b ∧ (∀ c ∈ l, ¬ Serves s c) ∧
      findBlock { h with lastVisited := v } s =
        some (addr b, { h with lastVisited := last v l })) ∨
    ((∀ c ∈ bs, ¬ Serves s c) ∧ findBlock { h with lastVisited := v } s =
      some (0, { h with lastVisited := last v bs })) := by
  have hlen := hrep.tiles.length_le
  have hroom := hrep.room
  have hfuel : bs.length < addressCount := by
    rw [addressCount]
    omega
  have hfind := findFrom_spec (h := { h with lastVisited := v }) (s := s) addressCount
    hrep.linked (fun b hb => ⟨(hrep.bounds hb).2.1, (hrep.bounds hb).2.2.2⟩) hfuel
  have heq : findBlock { h with lastVisited := v } s =
      findFrom addressCount { h with lastVisited := v } s (first bs 0) := by
    rw [findBlock, ← hrep.head]
  rw [heq]
  generalize addressCount = fuel at hfind ⊢
  exact hfind

/-! ### Changes of one header -/

/-- A header that stays twice stays. -/
theorem SameHeader.trans {m'' : Mem} (h : SameHeader m m' b) (h' : SameHeader m' m'' b) :
    SameHeader m m'' b :=
  ⟨h'.size.trans h.size, h'.next.trans h.next, h'.prev.trans h.prev, h'.free.trans h.free⟩

/-- A header from its four words. -/
theorem header_mk {x k : Nat} {f : Bool} (hsize : word m x = BitVec.ofNat 32 k)
    (hnext : word m (x + 4) = n) (hprev : word m (x + 8) = p)
    (hfree : word m (x + 12) ≠ 0 ↔ f = true) : Header m ⟨x, k, f⟩ p n :=
  ⟨hsize, hnext, hprev, hfree⟩

/-- A store beside a header leaves it alone. -/
theorem sameHeader_store {i : Nat} {v : Word} (h : i + 4 ≤ c.start ∨ c.start + 16 ≤ i)
    (hi : i + 4 ≤ 2 ^ 32) (hc : c.start + 16 ≤ 2 ^ 32) :
    SameHeader m (store32 m (BitVec.ofNat 32 i) v) c := by
  constructor <;> exact word_store_ne (by omega) hi (by omega)

/-- The two sides of a block in a heap, and the room they have. -/
theorem Spans.sides {h : Heap} (hrep : Spans lo hi h (l ++ b :: r)) :
    (∀ c ∈ l, c.start + 20 + c.size ≤ b.start ∧ 0 < c.start) ∧
    (∀ c ∈ r, b.start + 20 + b.size ≤ c.start ∧ c.start + 20 + c.size < 2 ^ 32) ∧
    0 < b.start ∧ b.start + 20 + b.size < 2 ^ 32 := by
  obtain ⟨hl, hr⟩ := hrep.tiles.around
  refine ⟨fun c hc => ⟨hl c hc, ?_⟩, fun c hc => ⟨hr c hc, ?_⟩, ?_⟩
  · exact (hrep.bounds (List.mem_append_left _ hc)).2.1
  · exact (hrep.bounds (List.mem_append_right _ (List.mem_cons_of_mem _ hc))).2.2.2
  · obtain ⟨-, h1, -, h2⟩ := hrep.bounds (List.mem_append_right _ List.mem_cons_self)
    exact ⟨h1, h2⟩

/-- **Marking.**  `block->free = v`. -/
theorem Spans.setFree {h : Heap} (hrep : Spans lo hi h (l ++ b :: r)) (v : Word) :
    Spans lo hi (h.setFree (addr b) v) (l ++ ⟨b.start, b.size, v != 0⟩ :: r) := by
  obtain ⟨hl, hr, hb⟩ := hrep.sides
  obtain ⟨h1, h2, h3⟩ := linked_append.mp hrep.linked
  refine ⟨hrep.pos, hrep.room, hrep.tiles.setFree, ?_, ?_⟩
  · rw [addr, setFree_ofNat]
    refine linked_append.mpr ⟨h1.congr fun c hc => ?_, header_mk ?_ ?_ ?_ ?_,
      h3.congr fun c hc => ?_⟩
    · have := hl c hc
      exact sameHeader_store (by omega) (by omega) (by omega)
    · exact (word_store_ne (by omega) (by omega) (by omega)).trans h2.size
    · exact (word_store_ne (by omega) (by omega) (by omega)).trans h2.next
    · exact (word_store_ne (by omega) (by omega) (by omega)).trans h2.prev
    · rw [word_store_same, bne_iff_ne]
    · have := hr c hc
      exact sameHeader_store (by omega) (by omega) (by omega)
  · have hhead := hrep.head
    rw [first_append] at hhead ⊢
    exact hhead

/-- The guarded `next->prev = q` at the head of a chain. -/
theorem setFirstPrev_spec {h : Heap} {lo hi : Nat} (hlinked : Linked h.mem p r 0)
    (htiles : Tiles 20 lo hi r) (hhi : hi < 2 ^ 32) (hpos : 0 < lo) (q : Word) :
    ∃ m', (if first r 0 != 0 then h.setPrev (first r 0) q else h) = { h with mem := m' } ∧
      Linked m' q r 0 ∧ ∀ x, x + 4 ≤ lo → word m' x = word h.mem x := by
  cases r with
  | nil => exact ⟨h.mem, rfl, trivial, fun _ _ => rfl⟩
  | cons d rest =>
      obtain ⟨rfl, hrest⟩ := htiles
      have hd := hrest.le
      simp only [Block.stop] at hd
      have hne : (addr d != 0) = true := bne_iff_ne.mpr (addr_ne_zero hpos (by omega))
      refine ⟨store32 h.mem (BitVec.ofNat 32 (d.start + 8)) q, ?_, ?_, fun x hx => ?_⟩
      · rw [first, if_pos hne, addr, setPrev_ofNat]
      · refine hlinked.reprev (fun c hc => ?_) ?_ ?_ word_store_same ?_
        · obtain ⟨hc1, hc2⟩ := hrest.bounds hc
          simp only [Block.stop] at hc1 hc2
          exact sameHeader_store (by omega) (by omega) (by omega)
        · exact word_store_ne (by omega) (by omega) (by omega)
        · exact word_store_ne (by omega) (by omega) (by omega)
        · exact word_store_ne (by omega) (by omega) (by omega)
      · exact word_store_ne (by omega) (by omega) (by omega)

/-- The guarded `prev->next = q` at the end of a chain. -/
theorem setLastNext_spec {h : Heap} {lo hi : Nat} (hlinked : Linked h.mem 0 bs n)
    (htiles : Tiles 20 lo hi bs) (hhi : hi < 2 ^ 32) (hpos : 0 < lo) (q : Word) :
    ∃ m', (if last 0 bs != 0 then h.setNext (last 0 bs) q else h) = { h with mem := m' } ∧
      Linked m' 0 bs q ∧ ∀ x, hi ≤ x → x + 4 ≤ 2 ^ 32 → word m' x = word h.mem x := by
  rcases List.eq_nil_or_concat' bs with rfl | ⟨l, c, rfl⟩
  · exact ⟨h.mem, rfl, trivial, fun _ _ _ => rfl⟩
  · obtain ⟨mid, hl, rfl, hc⟩ := tiles_append.mp htiles
    have hend : c.start + 20 + c.size = hi := hc
    have hlo := hl.le
    have hlast : last 0 (l ++ [c]) = addr c := last_append
    have hne : (addr c != 0) = true := bne_iff_ne.mpr (addr_ne_zero (by omega) (by omega))
    refine ⟨store32 h.mem (BitVec.ofNat 32 (c.start + 4)) q, ?_, ?_, fun x hx hx' => ?_⟩
    · rw [hlast, if_pos hne, addr, setNext_ofNat]
    · refine hlinked.renext (fun d hd => ?_) ?_ word_store_same ?_ ?_
      · have hbound := hl.bounds hd
        simp only [Block.stop] at hbound
        exact sameHeader_store (by omega) (by omega) (by omega)
      · exact word_store_ne (by omega) (by omega) (by omega)
      · exact word_store_ne (by omega) (by omega) (by omega)
      · exact word_store_ne (by omega) (by omega) (by omega)
    · exact word_store_ne (by omega) (by omega) (by omega)

/-- **Splitting.**  The block keeps `s` bytes, a free block gets the rest. -/
theorem Spans.splitBlock {h : Heap} (hrep : Spans lo hi h (l ++ b :: r)) {s : Word}
    (hs : s.toNat + 20 ≤ b.size) :
    Spans lo hi (h.splitBlock (addr b) s)
      (l ++ ⟨b.start, s.toNat, b.free⟩ ::
        ⟨b.start + 20 + s.toNat, b.size - s.toNat - 20, true⟩ :: r) := by
  obtain ⟨hl, hr, hb⟩ := hrep.sides
  obtain ⟨h1, h2, h3⟩ := linked_append.mp hrep.linked
  have hadd : data (addr b) + s = BitVec.ofNat 32 (b.start + 20 + s.toNat) := by
    rw [data, addr, BitVec.ofNat_add, BitVec.ofNat_add, BitVec.ofNat_toNat, BitVec.setWidth_eq]
  have hrest : BitVec.ofNat 32 b.size - s - blockheaderOffset =
      BitVec.ofNat 32 (b.size - s.toNat - 20) := by
    apply BitVec.eq_of_toNat_eq
    rw [BitVec.toNat_sub, BitVec.toNat_sub, BitVec.toNat_ofNat, BitVec.toNat_ofNat]
    have : blockheaderOffset.toNat = 20 := rfl
    omega
  generalize hA : b.start + 20 + s.toNat = A at *
  -- the memory before `add->next->prev` is set
  obtain ⟨m6, hm6⟩ : ∃ m6, m6 = store32 (store32 (store32 (store32 (store32 (store32 h.mem
      (BitVec.ofNat 32 A) (BitVec.ofNat 32 (b.size - s.toNat - 20)))
      (BitVec.ofNat 32 (A + 4)) (first r 0)) (BitVec.ofNat 32 (A + 8)) (addr b))
      (BitVec.ofNat 32 (A + 12)) 1) (BitVec.ofNat 32 b.start) s)
      (BitVec.ofNat 32 (b.start + 4)) (BitVec.ofNat 32 A) := ⟨_, rfl⟩
  have hword : ∀ x, (x + 4 ≤ b.start ∨ b.start + 8 ≤ x ∧ x + 4 ≤ A ∨ A + 16 ≤ x) →
      x + 4 ≤ 2 ^ 32 → word m6 x = word h.mem x := by
    intro x hx hx'
    rw [hm6]
    simp (disch := omega) only [word_store_ne]
  have hsize : h.size (addr b) = BitVec.ofNat 32 b.size := h2.size_eq
  have hsplit : h.splitBlock (addr b) s =
      if first r 0 != 0 then ({ h with mem := m6 }).setPrev (first r 0) (BitVec.ofNat 32 A)
      else { h with mem := m6 } := by
    rw [Heap.splitBlock, hadd, hsize, hrest, hm6]
    simp (disch := omega) only [addr, setSize_ofNat, setNext_ofNat, setPrev_ofNat, setFree_ofNat,
      next_ofNat, word_store_ne, word_store_same, h2.next]
  have htiles := hrep.tiles.split (f := b.free) (g := true) hs
  obtain ⟨hi, hl', hbstart, hastart, hr'⟩ := tiles_append.mp htiles
  have hstop : Block.stop 20 ⟨b.start + 20 + s.toNat, b.size - s.toNat - 20, true⟩ =
      b.start + 20 + b.size := by
    simp only [Block.stop]
    omega
  rw [hstop] at hr'
  have hlinked6 : Linked m6 (addr b) r 0 := h3.congr fun c hc => by
    have := hr c hc
    exact ⟨hword _ (by omega) (by omega), hword _ (by omega) (by omega),
      hword _ (by omega) (by omega), hword _ (by omega) (by omega)⟩
  obtain ⟨m', hm', hlinked', hsame⟩ := setFirstPrev_spec (h := { h with mem := m6 }) hlinked6 hr'
    hrep.room (by omega) (BitVec.ofNat 32 A)
  have hold : ∀ x, (x + 4 ≤ b.start ∨ b.start + 8 ≤ x ∧ x + 4 ≤ A) →
      x + 4 ≤ b.start + 20 + b.size → word m' x = word h.mem x := by
    intro x hx hx'
    rw [hsame x hx']
    exact hword x (by omega) (by omega)
  have hs' : BitVec.ofNat 32 s.toNat = s := by rw [BitVec.ofNat_toNat, BitVec.setWidth_eq]
  rw [hsplit, hm']
  refine ⟨hrep.pos, hrep.room, ?_, linked_append.mpr ⟨h1.congr fun c hc => ?_, header_mk ?_ ?_ ?_ ?_,
    header_mk ?_ ?_ ?_ ?_, ?_⟩, ?_⟩
  · rw [hA] at htiles
    exact htiles
  · have := hl c hc
    exact ⟨hold _ (by omega) (by omega), hold _ (by omega) (by omega),
      hold _ (by omega) (by omega), hold _ (by omega) (by omega)⟩
  · rw [hsame _ (by omega), hm6, hs']
    simp (disch := omega) only [word_store_ne, word_store_same]
  · rw [hsame _ (by omega), hm6]
    exact word_store_same
  · exact (hold _ (by omega) (by omega)).trans h2.prev
  · rw [hold _ (by omega) (by omega)]
    exact h2.free
  · rw [hsame _ (by omega), hm6]
    simp (disch := omega) only [word_store_ne, word_store_same]
  · rw [hsame _ (by omega), hm6]
    simp (disch := omega) only [word_store_ne, word_store_same]
  · rw [hsame _ (by omega), hm6]
    simp (disch := omega) only [word_store_ne, word_store_same]
    rfl
  · rw [hsame _ (by omega), hm6]
    simp (disch := omega) only [word_store_ne, word_store_same]
    decide
  · exact hlinked'
  · have hhead := hrep.head
    rw [first_append] at hhead ⊢
    exact hhead

/-- The header of `b` after it has swallowed `c`. -/
def fused (m : Mem) (b c : Block) (next : Word) : Mem :=
  store32 (store32 m (BitVec.ofNat 32 b.start) (BitVec.ofNat 32 (b.size + (20 + c.size))))
    (BitVec.ofNat 32 (b.start + 4)) next

/-- What `fusion` does where the neighbour is free. -/
theorem Spans.fusion_fused {h : Heap} (hrep : Spans lo hi h (l ++ b :: c :: r))
    (hfree : c.free = true) : h.fusion (addr b) =
      if first r 0 != 0 then
        ({ h with mem := fused h.mem b c (first r 0) }).setPrev (first r 0) (addr b)
      else { h with mem := fused h.mem b c (first r 0) } := by
  obtain ⟨hl, hr, hb⟩ := hrep.sides
  obtain ⟨h1, h2, h3, h4⟩ := linked_append.mp hrep.linked
  obtain ⟨hc, hcend⟩ := hr c List.mem_cons_self
  have hsizes : BitVec.ofNat 32 b.size + (blockheaderOffset + BitVec.ofNat 32 c.size) =
      BitVec.ofNat 32 (b.size + (20 + c.size)) := by
    rw [BitVec.ofNat_add, BitVec.ofNat_add]
    rfl
  have hcne : addr c ≠ 0 := addr_ne_zero (by omega) (by omega)
  have htest : (h.next (addr b) != 0 && h.isFree (h.next (addr b))) = true := by
    rw [h2.next_eq, first, h3.isFree_eq, hfree, bne_iff_ne.mpr hcne]
    rfl
  have hfirst : first (c :: r) 0 = addr c := rfl
  rw [Heap.fusion, if_pos htest, h2.next_eq, h2.size_eq, hfirst, h3.size_eq, hsizes, fused]
  simp (disch := omega) only [addr, setSize_ofNat, setNext_ofNat, next_ofNat, word_store_ne,
    word_store_same, h2.next, h3.next, hfirst]

/-- **Fusing.**  A free neighbour is swallowed. -/
theorem Spans.fusion {h : Heap} (hrep : Spans lo hi h (l ++ b :: c :: r))
    (hfree : c.free = true) :
    Spans lo hi (h.fusion (addr b)) (l ++ ⟨b.start, b.size + (20 + c.size), b.free⟩ :: r) := by
  obtain ⟨hl, hr, hb⟩ := hrep.sides
  obtain ⟨h1, h2, h3, h4⟩ := linked_append.mp hrep.linked
  obtain ⟨hc, hcend⟩ := hr c List.mem_cons_self
  obtain ⟨m2, hm2⟩ : ∃ m2, m2 = fused h.mem b c (first r 0) := ⟨_, rfl⟩
  have hfusion := hrep.fusion_fused hfree
  rw [← hm2] at hfusion
  rw [fused] at hm2
  have hword : ∀ x, (x + 4 ≤ b.start ∨ b.start + 8 ≤ x) → x + 4 ≤ 2 ^ 32 →
      word m2 x = word h.mem x := by
    intro x hx hx'
    rw [hm2]
    simp (disch := omega) only [word_store_ne]
  have htiles := hrep.tiles.fuse (f := b.free)
  obtain ⟨mid, hl', hbstart, hr'⟩ := tiles_append.mp htiles
  have hlinked2 : Linked m2 (addr c) r 0 := h4.congr fun d hd => by
    have := hr d (List.mem_cons_of_mem _ hd)
    exact ⟨hword _ (by omega) (by omega), hword _ (by omega) (by omega),
      hword _ (by omega) (by omega), hword _ (by omega) (by omega)⟩
  have hstop : Block.stop 20 ⟨b.start, b.size + (20 + c.size), b.free⟩ =
      b.start + 20 + (b.size + (20 + c.size)) := rfl
  rw [hstop] at hr'
  obtain ⟨m', hm', hlinked', hsame⟩ := setFirstPrev_spec (h := { h with mem := m2 }) hlinked2 hr'
    hrep.room (by omega) (addr b)
  have hold : ∀ x, (x + 4 ≤ b.start ∨ b.start + 8 ≤ x) → x + 4 ≤ b.start + 20 →
      word m' x = word h.mem x := by
    intro x hx hx'
    rw [hsame x (by omega)]
    exact hword x hx (by omega)
  rw [hfusion, hm']
  refine ⟨hrep.pos, hrep.room, htiles,
    linked_append.mpr ⟨h1.congr fun d hd => ?_, header_mk ?_ ?_ ?_ ?_, hlinked'⟩, ?_⟩
  · have := hl d hd
    exact ⟨hold _ (by omega) (by omega), hold _ (by omega) (by omega),
      hold _ (by omega) (by omega), hold _ (by omega) (by omega)⟩
  · rw [hsame _ (by omega), hm2]
    simp (disch := omega) only [word_store_ne, word_store_same]
  · rw [hsame _ (by omega), hm2]
    exact word_store_same
  · exact (hold _ (by omega) (by omega)).trans h2.prev
  · rw [hold _ (by omega) (by omega)]
    exact h2.free
  · have hhead := hrep.head
    rw [first_append] at hhead ⊢
    exact hhead

/-- A used neighbour, or none, is left alone. -/
theorem Spans.fusion_eq {h : Heap} (hrep : Spans lo hi h (l ++ b :: r))
    (hused : ∀ c rest, r = c :: rest → c.free = false) : h.fusion (addr b) = h := by
  obtain ⟨h1, h2, h3⟩ := linked_append.mp hrep.linked
  have htest : (h.next (addr b) != 0 && h.isFree (h.next (addr b))) = false := by
    rw [h2.next_eq]
    cases r with
    | nil => simp [first]
    | cons c rest =>
        rw [first, h3.1.isFree_eq, hused c rest rfl, Bool.and_false]
  rw [Heap.fusion, htest]
  rfl

/-- **Extending.**  A block of `s` bytes at the break, behind the cursor. -/
theorem Spans.extendHeap {h : Heap} (hrep : Spans lo hi h bs) {s : Word}
    (htop : h.heapPtr.toNat = hi) (hlast : h.lastVisited = last 0 bs)
    (hfit : h.heapPtr.toNat + 20 + s.toNat < 2 ^ 32) :
    ∃ m', h.extendHeap s = (h.heapPtr, { h with
        heapPtr := BitVec.ofNat 32 (h.heapPtr.toNat + 20 + s.toNat), mem := m' }) ∧
      Linked m' 0 (bs ++ [⟨h.heapPtr.toNat, s.toNat, false⟩]) 0 := by
  have hP : h.heapPtr = BitVec.ofNat 32 h.heapPtr.toNat := by
    rw [BitVec.ofNat_toNat, BitVec.setWidth_eq]
  have hs : s = BitVec.ofNat 32 s.toNat := by rw [BitVec.ofNat_toNat, BitVec.setWidth_eq]
  subst htop
  have hge := hrep.tiles.le
  have hpos := hrep.pos
  have hbreak : h.heapPtr + (blockheaderOffset + s) =
      BitVec.ofNat 32 (h.heapPtr.toNat + 20 + s.toNat) := by
    rw [BitVec.ofNat_add, BitVec.ofNat_add, ← hP, ← hs, BitVec.add_assoc]
    rfl
  have hdata : data h.heapPtr = BitVec.ofNat 32 (h.heapPtr.toNat + 20) := by
    rw [data, BitVec.ofNat_add, ← hP]
  have hbound : ∀ c ∈ bs, c.start + 20 + c.size ≤ h.heapPtr.toNat := fun c hc =>
    (hrep.tiles.bounds hc).2
  have htiles := hrep.tiles
  generalize hPn : h.heapPtr.toNat = P at *
  -- the memory before the cursor's block is linked to the new one
  obtain ⟨m4, hm4⟩ : ∃ m4, m4 = store32 (store32 (store32 (store32 h.mem (BitVec.ofNat 32 P) s)
      (BitVec.ofNat 32 (P + 4)) 0) (BitVec.ofNat 32 (P + 8)) h.lastVisited)
      (BitVec.ofNat 32 (P + 16)) (BitVec.ofNat 32 (P + 20)) := ⟨_, rfl⟩
  have hlinked4 : Linked m4 0 bs 0 := hrep.linked.congr fun c hc => by
    have := hbound c hc
    rw [hm4]
    exact (sameHeader_store (by omega) (by omega) (by omega)).trans
      ((sameHeader_store (by omega) (by omega) (by omega)).trans
        ((sameHeader_store (by omega) (by omega) (by omega)).trans
          (sameHeader_store (by omega) (by omega) (by omega))))
  obtain ⟨m5, hm5, hlinked5, hsame⟩ := setLastNext_spec
    (h := { h with heapPtr := BitVec.ofNat 32 (P + 20 + s.toNat), mem := m4 }) hlinked4 htiles
    (by omega) hpos (BitVec.ofNat 32 P)
  refine ⟨store32 m5 (BitVec.ofNat 32 (P + 12)) 0, ?_, ?_⟩
  · have hit : (h.sbrk 0#32).1 = BitVec.ofNat 32 P := (BitVec.add_zero _).trans hP
    rw [hP] at hdata
    have hnew : ((((h.sbrk (blockheaderOffset + s)).2.setSize (BitVec.ofNat 32 P) s).setNext
        (BitVec.ofNat 32 P) 0).setPrev (BitVec.ofNat 32 P) h.lastVisited).setPtr
        (BitVec.ofNat 32 P) (data (BitVec.ofNat 32 P)) =
        { h with heapPtr := BitVec.ofNat 32 (P + 20 + s.toNat), mem := m4 } := by
      rw [hdata, setSize_ofNat, setNext_ofNat, setPrev_ofNat, setPtr_ofNat, hm4, ← hbreak]
      rfl
    have hcalc : h.extendHeap s = (BitVec.ofNat 32 P, (if last 0 bs != 0 then
        ({ h with heapPtr := BitVec.ofNat 32 (P + 20 + s.toNat), mem := m4 }).setNext
          (last 0 bs) (BitVec.ofNat 32 P)
        else { h with heapPtr := BitVec.ofNat 32 (P + 20 + s.toNat), mem := m4 }).setFree
          (BitVec.ofNat 32 P) 0) := by
      rw [← hnew, ← hlast, Heap.extendHeap, hit]
      rfl
    rw [hcalc, hm5, setFree_ofNat, hP]
  · obtain ⟨x, hx⟩ : ∃ x, x = P + 12 := ⟨_, rfl⟩
    have hcell : ∀ y, y + 4 ≤ P + 12 ∨ P + 16 ≤ y → P ≤ y → y + 4 ≤ 2 ^ 32 →
        word (store32 m5 (BitVec.ofNat 32 x) 0) y = word m4 y := by
      intro y hy hy' hy''
      exact (word_store_ne (by omega) (by omega) hy'').trans (hsame y hy' hy'')
    rw [← hx]
    refine linked_append.mpr ⟨hlinked5.congr fun c hc => ?_, header_mk ?_ ?_ ?_ ?_, trivial⟩
    · have := hbound c hc
      exact sameHeader_store (by omega) (by omega) (by omega)
    · rw [hcell _ (by omega) (by omega) (by omega), hm4, ← hs]
      simp (disch := omega) only [word_store_ne, word_store_same]
    · rw [hcell _ (by omega) (by omega) (by omega), hm4]
      simp (disch := omega) only [word_store_ne, word_store_same]
      rfl
    · rw [hcell _ (by omega) (by omega) (by omega), hm4, hlast]
      simp (disch := omega) only [word_store_ne, word_store_same]
    · rw [hx, word_store_same]
      decide

/-- **Truncating.**  The last block is cut off the list. -/
theorem Spans.truncate {h : Heap} (hrep : Spans lo hi h (l ++ [b])) :
    Spans lo b.start (if h.prev (addr b) != 0 then h.setNext (h.prev (addr b)) 0
      else { h with head := 0 }) l := by
  obtain ⟨hl, -, hb⟩ := hrep.sides
  obtain ⟨h1, h2, -⟩ := linked_append.mp hrep.linked
  have htiles := hrep.tiles.truncate
  rw [h2.prev_eq]
  cases l with
  | nil => exact ⟨hrep.pos, by omega, htiles, trivial, rfl⟩
  | cons c rest =>
      have hne : (last 0 (c :: rest) != 0) = true := by
        rcases List.eq_nil_or_concat' (c :: rest) with hnil | ⟨l, d, hd⟩
        · exact absurd hnil (List.cons_ne_nil _ _)
        · have hlast : last 0 (l ++ [d]) = addr d := last_append
          have hdb := hl d (by rw [hd]; simp)
          rw [hd, hlast]
          exact bne_iff_ne.mpr (addr_ne_zero (by omega) (by omega))
      obtain ⟨m', hm', hlinked', -⟩ := setLastNext_spec h1 htiles (by omega) hrep.pos 0
      rw [if_pos hne] at hm' ⊢
      rw [hm']
      exact ⟨hrep.pos, by omega, htiles, hlinked', hrep.head⟩

/-- Bytes of a payload are not part of any header. -/
theorem Spans.write {h : Heap} (hrep : Spans lo hi h bs) (hb : b ∈ bs) {m' : Mem}
    (hm : ∀ x, x < 2 ^ 32 → (x < b.start + 20 ∨ b.start + 20 + b.size ≤ x) →
      m' (BitVec.ofNat 32 x) = h.mem (BitVec.ofNat 32 x)) :
    Spans lo hi { h with mem := m' } bs := by
  refine ⟨hrep.pos, hrep.room, hrep.tiles, hrep.linked.congr fun c hc => ?_, hrep.head⟩
  have hcb := hrep.bounds hc
  have hside : c.start + 20 ≤ b.start + 20 ∨ b.start + 20 + b.size ≤ c.start := by
    by_cases heq : c = b
    · subst heq
      exact Or.inl (Nat.le_refl _)
    · rcases hrep.tiles.disjoint hc hb heq with h1 | h1
      · simp only [Block.stop] at h1
        omega
      · exact Or.inr h1
  constructor
  all_goals
    refine word_congr fun i hi => hm _ (by omega) (by omega)

end Heap

end Kernel
