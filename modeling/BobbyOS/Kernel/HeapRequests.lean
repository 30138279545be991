import BobbyOS.Kernel.HeapRuns
import BobbyOS.Kernel.VirtualMemory

/-!
# What malloc promises

A request is rounded up, a header is added, and the break moves by the sum: all of this in
32 bits and unchecked.  The kernel's page table maps `KHEAP_SIZE` bytes, which nothing
compares with the break.

* `malloc_result`: what `malloc` returns, also where the break wraps;
* `granted_iff`: when a block that is returned is large enough and inside the heap;
* `allocation_granted_iff`: which requests `malloc` and `calloc` serve as they should.
-/

namespace Kernel

open ByteMemory Tiling

/-- `KHEAP_SIZE`. -/
def KHEAP_SIZE : Nat := 256 * 1024

example : KHEAP_SIZE / 4096 = KHEAP_PAGES := rfl

namespace Heap

variable {b : Block} {l r bs : List Block} {h h' : Heap} {p s : Word} {n : Nat}

/-- **The promise.**  The break does not move down; the pointer is null, or the block it
points into has `n` bytes, which lie between the start of the heap and the break and inside
the mapped pages. -/
structure Granted (h : Heap) (n : Nat) (p : Word) (h' : Heap) : Prop where
  rises : h.heapPtr.toNat ≤ h'.heapPtr.toNat
  block : p = 0 ∨ n ≤ (h'.size (getBlock p)).toNat ∧ base.toNat ≤ p.toNat ∧
    p.toNat + (h'.size (getBlock p)).toNat ≤ h'.heapPtr.toNat ∧
    p.toNat + (h'.size (getBlock p)).toNat ≤ base.toNat + KHEAP_SIZE

/-- The first free block of `s` bytes. -/
def firstFit (s : Nat) (bs : List Block) : Option Block :=
  bs.find? fun b => b.free && decide (s ≤ b.size)

/-- The size of the payload that a request of `s` bytes gets in a block. -/
def placedSize (s : Nat) (b : Block) : Nat := if 24 ≤ b.size - s then s else b.size

/-- A request of `n` bytes, rounded up to `s`, can be served: the rounding does not wrap,
and the payload ends inside the mapped pages, in the first block that fits or behind a new
header at the break.  The last line is a header that ends with the address space: its
payload would be at null. -/
def Grantable (bs : List Block) (top n s : Nat) : Prop :=
  match firstFit s bs with
  | some b => n ≤ 0xFFFFFFFC ∧ b.start + 20 + placedSize s b ≤ base.toNat + KHEAP_SIZE
  | none => (n ≤ 0xFFFFFFFC ∧ top + 20 + s ≤ base.toNat + KHEAP_SIZE) ∨
      (top + 20 = 2 ^ 32 ∧ top ≤ s)

/-! ### Results -/

/-- The test of the search. -/
theorem serves_iff : (b.free && decide (s.toNat ≤ b.size)) = true ↔ Serves s b := by
  rw [Bool.and_eq_true, decide_eq_true_iff]
  exact Iff.rfl

/-- The first block that serves is found. -/
theorem firstFit_found (hb : Serves s b) (hl : ∀ c ∈ l, ¬ Serves s c) :
    firstFit s.toNat (l ++ b :: r) = some b := by
  refine List.find?_eq_some_iff_append.mpr ⟨serves_iff.mpr hb, l, r, rfl, fun c hc => ?_⟩
  rw [Bool.not_eq_true', ← Bool.not_eq_true, serves_iff]
  exact hl c hc

/-- Where none serves, none is found. -/
theorem firstFit_none (h : ∀ c ∈ bs, ¬ Serves s c) : firstFit s.toNat bs = none := by
  refine List.find?_eq_none.mpr fun c hc => ?_
  rw [serves_iff]
  exact h c hc

/-- A new block at the break: its size is not overwritten by the link to it. -/
theorem extendHeap_size (h : Heap) (s : Word)
    (hcursor : h.lastVisited = 0 ∨ ByteMemory.Apart h.heapPtr (h.lastVisited + 4#32)) :
    (h.extendHeap s).1 = h.heapPtr ∧
      (h.extendHeap s).2.heapPtr = h.heapPtr + (blockheaderOffset + s) ∧
      (h.extendHeap s).2.size h.heapPtr = s := by
  have hit : (h.sbrk 0#32).1 = h.heapPtr := BitVec.add_zero _
  have hfield {o : Nat} (ho : o % 4 = 0) (hlt : o < 2 ^ 32) (hne : o ≠ 0) :
      ByteMemory.Apart h.heapPtr (h.heapPtr + BitVec.ofNat 32 o) := by
    have hapart := apart_add h.heapPtr (i := 0) (by decide) ho (by decide) hlt hne.symm
    rwa [BitVec.add_zero] at hapart
  have h4 := hfield (o := 4) rfl (by decide) (by decide)
  have h8 := hfield (o := 8) rfl (by decide) (by decide)
  have h12 := hfield (o := 12) rfl (by decide) (by decide)
  have h16 := hfield (o := 16) rfl (by decide) (by decide)
  have hheader : load32 (store32 (store32 (store32 (store32 h.mem h.heapPtr s)
      (h.heapPtr + 4#32) 0) (h.heapPtr + 8#32) h.lastVisited) (h.heapPtr + 16#32)
      (data h.heapPtr)) h.heapPtr = s := by
    rw [load32_store32_of_apart h16, load32_store32_of_apart h8, load32_store32_of_apart h4,
      load32_store32_same]
  rw [Heap.extendHeap, hit]
  refine ⟨rfl, ?_, ?_⟩
  · dsimp only
    split <;> rfl
  · dsimp only
    split
    case isTrue hne =>
      have hcursor' := hcursor.resolve_left (bne_iff_ne.mp hne)
      show load32 (store32 (store32 _ (h.lastVisited + 4#32) h.heapPtr) (h.heapPtr + 12#32) 0)
        h.heapPtr = s
      rw [load32_store32_of_apart h12, load32_store32_of_apart hcursor']
      exact hheader
    case isFalse =>
      show load32 (store32 _ (h.heapPtr + 12#32) 0) h.heapPtr = s
      rw [load32_store32_of_apart h12]
      exact hheader

/-- The cursor's block does not overlap with the new header. -/
theorem Represents.cursor_apart (hrep : h.Represents bs) {v : Word}
    (hv : (bs = [] ∧ h.Settled ∧ v = h.lastVisited) ∨ ∃ c ∈ bs, v = addr c) :
    v = 0 ∨ ByteMemory.Apart h.heapPtr (v + 4#32) := by
  have htop := h.heapPtr.isLt
  have hfour : (4#32).toNat = 4 := rfl
  rcases hv with ⟨rfl, hs, rfl⟩ | ⟨c, hc, rfl⟩
  · have hbase : h.heapPtr = base := BitVec.eq_of_toNat_eq hrep.tiles.symm
    rw [hbase]
    rcases hs with hzero | hstart | ⟨hlow, hhigh⟩
    · exact Or.inl hzero
    · rw [hstart]
      exact Or.inr (by decide)
    · refine Or.inr (apart_of_le ?_ ?_)
      · rw [BitVec.toNat_add, hfour]
        omega
      · rw [BitVec.toNat_add, hfour]
        omega
  · have hbound := hrep.spans.bounds hc
    refine Or.inr (ByteMemory.Apart.symm ⟨?_, ?_⟩)
    · rw [BitVec.toNat_sub, BitVec.toNat_add, addr_toNat (by omega), hfour]
      omega
    · rw [BitVec.toNat_sub, BitVec.toNat_add, addr_toNat (by omega), hfour]
      omega

/-- **Results.**  `malloc` returns the payload of the first block that fits, or one at the
break, which moves by the header and the rounded request as 32-bit numbers. -/
theorem Represents.malloc_result (hrep : h.Represents bs) (hs : h.Settled) (size : Word) :
    ∃ p h', h.malloc size = some (p, h') ∧
      match firstFit (align4 size).toNat bs with
      | some b => p = data (addr b) ∧ h'.heapPtr = h.heapPtr ∧
          (h'.size (addr b)).toNat = placedSize (align4 size).toNat b
      | none => p = data h.heapPtr ∧ h'.size h.heapPtr = align4 size ∧
          h'.heapPtr = h.heapPtr + (blockheaderOffset + align4 size) := by
  have hne := hrep.spans.heapPtr_ne_zero (Nat.le_refl _)
  rcases hrep.spans.findBlock_spec (align4 size) h.head with
    ⟨l, b, r, rfl, hserves, hl, hfind⟩ | ⟨hnone, hfind⟩
  · have hhead : h.head ≠ 0 := fun h0 => by simpa using hrep.spans.head_eq_zero.mp h0
    obtain ⟨h', hmalloc, -, hbreak, hspans⟩ := hrep.spans.malloc_found hserves hhead hfind
    rw [firstFit_found hserves hl]
    refine ⟨_, h', hmalloc, rfl, hbreak, ?_⟩
    obtain ⟨d, rest, hplace, hstart, hsize⟩ : ∃ d rest,
        place (align4 size).toNat b ++ r = d :: rest ∧ d.start = b.start ∧
          d.size = placedSize (align4 size).toNat b := by
      rw [place, placedSize]
      split
      · exact ⟨_, _, rfl, rfl, rfl⟩
      · exact ⟨_, _, rfl, rfl, rfl⟩
    rw [hplace] at hspans
    have haddr : addr b = addr d := by rw [addr, addr, hstart]
    rw [haddr, (hspans.represents (by rw [hbreak])).size_eq, hsize]
  · rw [firstFit_none hnone]
    by_cases hhead : h.head = 0
    · obtain rfl := hrep.spans.head_eq_zero.mp hhead
      obtain ⟨hit, hbreak, hsize⟩ := extendHeap_size h (align4 size)
        (hrep.cursor_apart (Or.inl ⟨rfl, hs, rfl⟩))
      have hempty : (h.head != 0) = false := by simpa using hhead
      refine ⟨data h.heapPtr, { (h.extendHeap (align4 size)).2 with head := h.heapPtr },
        ?_, rfl, hsize, hbreak⟩
      rw [Heap.malloc, hempty]
      simp only [Bool.false_eq_true, if_false, hit, if_neg hne]
    · have hlast : ∃ c ∈ bs, last h.head bs = addr c := by
        rcases last_mem_or h.head bs with hlast | hlast
        · cases bs with
          | nil => exact absurd (hrep.spans.head_eq_zero.mpr rfl) hhead
          | cons c rest => exact ⟨c, List.mem_cons_self, by rw [hlast, hrep.head]; rfl⟩
        · exact hlast
      obtain ⟨hit, hbreak, hsize⟩ := extendHeap_size
        { h with lastVisited := last h.head bs } (align4 size)
        (hrep.cursor_apart (Or.inr hlast))
      refine ⟨data h.heapPtr, (Heap.extendHeap { h with lastVisited := last h.head bs }
        (align4 size)).2, ?_, rfl, hsize, hbreak⟩
      have hzero : ((0 : Word) != 0) = false := rfl
      rw [Heap.malloc, if_pos (bne_iff_ne.mpr hhead), hfind]
      simp only [Option.map_some, hzero, Bool.false_eq_true, if_false, hit, if_neg hne]

/-! ### Which requests are served -/

/-- The alignment of the largest requests wraps to zero. -/
theorem align4_wraps {size : Word} (h : 0xFFFFFFFC < size.toNat) : (align4 size).toNat = 0 := by
  have h3 : (3#32).toNat = 3 := rfl
  have hlt := size.isLt
  have hmask : align4 size = (size + 3#32) >>> 2 <<< 2 := by
    rw [BitVec.shiftLeft_ushiftRight]
    rfl
  rw [hmask, BitVec.toNat_shiftLeft, BitVec.toNat_ushiftRight, BitVec.toNat_add, h3,
    Nat.shiftRight_eq_div_pow, Nat.shiftLeft_eq]
  omega

/-- **The promise, exactly.**  `s` is the rounded request for `n` bytes, which is zero when
the rounding wraps, or belongs to a product that has wrapped before. -/
theorem Represents.granted_iff (hrep : h.Represents bs) {s : Word}
    (hn : n ≤ 0xFFFFFFFC ∧ n ≤ s.toNat ∨ 0xFFFFFFFC < n ∧ (s.toNat = 0 ∨ 2 ^ 32 ≤ n))
    (hresult : match firstFit s.toNat bs with
      | some b => p = data (addr b) ∧ h'.heapPtr = h.heapPtr ∧
          (h'.size (addr b)).toNat = placedSize s.toNat b
      | none => p = data h.heapPtr ∧ h'.size h.heapPtr = s ∧
          h'.heapPtr = h.heapPtr + (blockheaderOffset + s)) :
    Granted h n p h' ↔ Grantable bs h.heapPtr.toNat n s.toNat := by
  have hslt := s.isLt
  have hbase := base_toNat
  have hgranted : Granted h n p h' ↔ h.heapPtr.toNat ≤ h'.heapPtr.toNat ∧ (p = 0 ∨
      n ≤ (h'.size (getBlock p)).toNat ∧ base.toNat ≤ p.toNat ∧
        p.toNat + (h'.size (getBlock p)).toNat ≤ h'.heapPtr.toNat ∧
        p.toNat + (h'.size (getBlock p)).toNat ≤ base.toNat + KHEAP_SIZE) :=
    ⟨fun hg => ⟨hg.1, hg.2⟩, fun hg => ⟨hg.1, hg.2⟩⟩
  rw [hgranted, Grantable]
  cases hfit : firstFit s.toNat bs with
  | some b =>
      rw [hfit] at hresult
      obtain ⟨rfl, hbreak, hsize⟩ := hresult
      obtain ⟨hserves, l, r, rfl, -⟩ := List.find?_eq_some_iff_append.mp hfit
      have hle := (serves_iff.mp hserves).2
      have hbound := hrep.spans.bounds (b := b) (by simp)
      have hp : (data (addr b)).toNat = b.start + 20 := data_toNat (by omega)
      have hne : data (addr b) ≠ 0 := fun h0 => by
        rw [h0] at hp
        exact absurd hp (by simp)
      have hplaced : placedSize s.toNat b ≤ b.size ∧ s.toNat ≤ placedSize s.toNat b ∧
          placedSize s.toNat b < s.toNat + 24 := by
        rw [placedSize]
        split <;> omega
      rw [getBlock_data, hsize, hp, hbreak]
      simp only [hne, false_or]
      omega
  | none =>
      rw [hfit] at hresult
      obtain ⟨rfl, hsize, hbreak⟩ := hresult
      have htop := h.heapPtr.isLt
      have hge := hrep.tiles.le
      have hoff : blockheaderOffset.toNat = 20 := rfl
      have h20 : (20#32).toNat = 20 := rfl
      have hp : (data h.heapPtr).toNat = (h.heapPtr.toNat + 20) % 2 ^ 32 := by
        rw [data, BitVec.toNat_add, h20]
      have hnew : h'.heapPtr.toNat = (h.heapPtr.toNat + 20 + s.toNat) % 2 ^ 32 := by
        rw [hbreak, BitVec.toNat_add, BitVec.toNat_add, hoff]
        omega
      have hzero : data h.heapPtr = 0 ↔ (data h.heapPtr).toNat = 0 :=
        ⟨fun h0 => by rw [h0]; rfl, fun h0 => BitVec.eq_of_toNat_eq h0⟩
      rw [getBlock_data, hsize, hzero, hp, hnew, hbase]
      unfold KHEAP_SIZE
      omega

/-- Zeros in the payload leave the header alone. -/
theorem granted_zero (hn : n < 2 ^ 32) :
    Granted h n p { h' with mem := zero h'.mem p n } ↔ Granted h n p h' := by
  -- the header lies before a block that the request fits in
  have hsize (hblock : base.toNat + n < 2 ^ 32) :
      size { h' with mem := zero h'.mem p n } (getBlock p) = h'.size (getBlock p) := by
    refine load32_congr fun i hi => ?_
    have hoff : blockheaderOffset.toNat = 20 := rfl
    have hp := p.isLt
    change zero h'.mem p n _ = h'.mem _
    rw [zero, if_neg]
    rw [getBlock, BitVec.toNat_sub, BitVec.toNat_add, BitVec.toNat_sub, BitVec.toNat_ofNat, hoff]
    rw [base_toNat] at hblock
    omega
  have hroom (g : Heap) (hg : Granted h n p g) (hne : p ≠ 0) : base.toNat + n < 2 ^ 32 := by
    obtain ⟨hle, hbase, hbreak, -⟩ := hg.block.resolve_left hne
    have htop := g.heapPtr.isLt
    omega
  by_cases hp : p = 0
  · exact ⟨fun hg => ⟨hg.rises, Or.inl hp⟩, fun hg => ⟨hg.rises, Or.inl hp⟩⟩
  · constructor
    · intro hg
      have hblock := hg.block.resolve_left hp
      rw [hsize (hroom _ hg hp)] at hblock
      exact ⟨hg.rises, Or.inr hblock⟩
    · intro hg
      have hblock := hg.block.resolve_left hp
      rw [← hsize (hroom _ hg hp)] at hblock
      exact ⟨hg.rises, Or.inr hblock⟩

/-- **`malloc`** grants its request exactly where a block or the break serves the aligned
size, and that is no smaller. -/
theorem Represents.malloc_granted_iff (hrep : h.Represents bs) (hs : h.Settled) (size : Word) :
    (∃ p h', h.malloc size = some (p, h') ∧ Granted h size.toNat p h') ↔
      Grantable bs h.heapPtr.toNat size.toNat (align4 size).toNat := by
  obtain ⟨p, h', hmalloc, hresult⟩ := hrep.malloc_result hs size
  have hn : size.toNat ≤ 0xFFFFFFFC ∧ size.toNat ≤ (align4 size).toNat ∨
      0xFFFFFFFC < size.toNat ∧ ((align4 size).toNat = 0 ∨ 2 ^ 32 ≤ size.toNat) := by
    by_cases hsmall : size.toNat ≤ 0xFFFFFFFC
    · exact Or.inl ⟨hsmall, le_align4 (by omega)⟩
    · exact Or.inr ⟨by omega, Or.inl (align4_wraps (by omega))⟩
  rw [← hrep.granted_iff hn hresult, hmalloc]
  constructor
  · intro ⟨p', h'', heq, hg⟩
    obtain ⟨rfl, rfl⟩ := Prod.mk.inj (Option.some.inj heq)
    exact hg
  · intro hg
    exact ⟨p, h', rfl, hg⟩

/-- **`calloc`** does so for the product. -/
theorem Represents.calloc_granted_iff (hrep : h.Represents bs) (hs : h.Settled)
    (number size : Word) :
    (∃ p h', h.calloc number size = some (p, h') ∧
      Granted h (number.toNat * size.toNat) p h') ↔
      Grantable bs h.heapPtr.toNat (number.toNat * size.toNat)
        (align4 (number * size)).toNat := by
  obtain ⟨p, h', hmalloc, hresult⟩ := hrep.malloc_result hs (number * size)
  have htotal : (number * size).toNat = number.toNat * size.toNat % 2 ^ 32 := BitVec.toNat_mul _ _
  generalize hprod : number.toNat * size.toNat = n at htotal ⊢
  have hn : n ≤ 0xFFFFFFFC ∧ n ≤ (align4 (number * size)).toNat ∨
      0xFFFFFFFC < n ∧ ((align4 (number * size)).toNat = 0 ∨ 2 ^ 32 ≤ n) := by
    by_cases hsmall : n ≤ 0xFFFFFFFC
    · have hle : (number * size).toNat ≤ (align4 (number * size)).toNat :=
        le_align4 (by omega)
      exact Or.inl ⟨hsmall, by omega⟩
    · by_cases hwrap : n < 2 ^ 32
      · exact Or.inr ⟨by omega, Or.inl (align4_wraps (by omega))⟩
      · exact Or.inr ⟨by omega, Or.inr (by omega)⟩
  have hcalloc : h.calloc number size = some (p,
      if p != 0 then { h' with mem := zero h'.mem p (number * size).toNat } else h') := by
    rw [calloc, hmalloc]
    rfl
  -- the zeros do not decide anything
  have hzero : Granted h n p
      (if p != 0 then { h' with mem := zero h'.mem p (number * size).toNat } else h') ↔
        Granted h n p h' := by
    split
    case isFalse => exact Iff.rfl
    case isTrue hp =>
      have hne : p ≠ 0 := bne_iff_ne.mp hp
      by_cases hwrap : n < 2 ^ 32
      · rw [htotal, Nat.mod_eq_of_lt hwrap]
        exact granted_zero hwrap
      · have hnone (g : Heap) : ¬ Granted h n p g := by
          intro hg
          have hlt := (g.size (getBlock p)).isLt
          have hle := (hg.block.resolve_left hne).1
          omega
        exact iff_of_false (hnone _) (hnone _)
  rw [← hrep.granted_iff hn hresult, ← hzero, hcalloc]
  constructor
  · rintro ⟨p', h'', heq, hg⟩
    obtain ⟨rfl, rfl⟩ := Prod.mk.inj (Option.some.inj heq)
    exact hg
  · intro hg
    exact ⟨_, _, rfl, hg⟩

/-- **Allocation.**  Which requests are served as promised, in every heap with a list of
blocks, also when the list is empty and the cursor is stale. -/
theorem allocation_granted_iff (hrep : h.Represents bs) (hs : h.Settled) :
    (∀ size : Word, (∃ p h', h.malloc size = some (p, h') ∧ Granted h size.toNat p h') ↔
      Grantable bs h.heapPtr.toNat size.toNat (align4 size).toNat) ∧
    ∀ number size : Word, (∃ p h', h.calloc number size = some (p, h') ∧
        Granted h (number.toNat * size.toNat) p h') ↔
      Grantable bs h.heapPtr.toNat (number.toNat * size.toNat)
        (align4 (number * size)).toNat :=
  ⟨hrep.malloc_granted_iff hs, hrep.calloc_granted_iff hs⟩

/-- A new heap has no blocks. -/
theorem empty_represents (mem : Mem) : (empty mem).Represents [] := ⟨rfl, trivial, rfl⟩

/-- The first allocations: 64 pages hold a header and 262124 bytes, and one more word
does not fit; a product of 2^32 is served with an empty block. -/
theorem first_allocations_granted : let h := empty fun _ => 0
    (∃ p h', h.malloc 262124 = some (p, h') ∧ Granted h 262124 p h') ∧
    (¬ ∃ p h', h.malloc 262128 = some (p, h') ∧ Granted h 262128 p h') ∧
    ¬ ∃ p h', h.calloc 0x10000 0x10000 = some (p, h') ∧ Granted h 0x100000000 p h' := by
  obtain ⟨hmalloc, hcalloc⟩ :=
    allocation_granted_iff (empty_represents fun _ => 0) (Or.inl rfl)
  refine ⟨(hmalloc 262124).mpr (Or.inl (by decide)), fun h => ?_, fun h => ?_⟩
  · obtain ⟨-, hfits⟩ | ⟨htop, -⟩ := (hmalloc 262128).mp h
    · exact absurd hfits (by decide)
    · exact absurd htop (by decide)
  · obtain ⟨hsmall, -⟩ | ⟨htop, -⟩ := (hcalloc 0x10000 0x10000).mp h
    · exact absurd hsmall (by decide)
    · exact absurd htop (by decide)

/-- A request near the end of the address space is rounded up to zero. -/
theorem malloc_wraps_to_nothing : ¬ ∀ h bs, Represents h bs → h.Settled → ∀ size : Word,
    ∃ p h', h.malloc size = some (p, h') ∧ Granted h size.toNat p h' := by
  intro hall
  obtain ⟨p, h', hmalloc, hgranted⟩ :=
    hall (empty fun _ => 0) [] (empty_represents _) (Or.inl rfl) 0xFFFFFFFF
  have hruns : ((empty fun _ => 0).malloc 0xFFFFFFFF).any (fun r =>
      r.1 == data base && r.2.size base == 0) = true := by decide +kernel
  rw [hmalloc, Option.any_some, Bool.and_eq_true, beq_iff_eq, beq_iff_eq] at hruns
  obtain ⟨rfl, hsize⟩ := hruns
  have hblock := hgranted.block.resolve_left (by decide)
  rw [getBlock_data, hsize] at hblock
  exact absurd hblock.1 (by decide)

end Heap

end Kernel
