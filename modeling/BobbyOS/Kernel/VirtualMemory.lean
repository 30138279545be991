import BobbyOS.Kernel.Kstl.Bitset
import BobbyOS.Lib.Result
import Mathlib.Data.List.Nodup
import Mathlib.Data.List.Perm.Subperm

/-!
# Frames, TLB entries and the kernel's page table

`MemoryManager` hands out physical frames: `reserveFrame` takes the first frame
above the kernel image whose bit is clear, `freeFrame` clears a bit.  A page
table entry names a frame and four flags, and `toTLBEntry` packs it for the
hardware.  The kernel's own page table maps the 64 pages of the kernel heap.
-/

namespace Kernel

/-- `NUM_PAGES`: the frames of the physical memory. -/
def numPages : Nat := 1280

/-- The bits of an offset in a page. -/
def BIT_OFFSET : Nat := 12

/-- `MemoryManager`: the reserved frames, and those below which the kernel lies. -/
structure MemoryManager where
  reservedPages : Bitset numPages
  kernelReservedBoundary : Nat

namespace MemoryManager

/-- `MemoryManager()`: the frames of the kernel image, whose end the linker
puts into `_end`, are never handed out. -/
def construct (imageEnd : Word) : MemoryManager where
  reservedPages := .zero
  kernelReservedBoundary := ((imageEnd - 0x80000000#32 + 4096#32 - 1#32) / 4096#32).toNat

/-- The loop of `reserveFrame` from frame `i`, over the frames that are left. -/
def reserveFrom (m : MemoryManager) : Nat → Nat → Except Panic (Word × MemoryManager)
  | 0, _ => .error (.assertFailed "Ran out of available frames!")
  | left + 1, i => do
      if ← m.reservedPages.test i then m.reserveFrom left (i + 1)
      else
        let reservedPages ← m.reservedPages.set i true
        .ok (BitVec.ofNat 32 i <<< BIT_OFFSET, { m with reservedPages })

/-- `reserveFrame`. -/
def reserveFrame (m : MemoryManager) : Except Panic (Word × MemoryManager) :=
  m.reserveFrom (numPages - m.kernelReservedBoundary) m.kernelReservedBoundary

/-- `freeFrame`. -/
def freeFrame (m : MemoryManager) (paddr : Word) : Except Panic MemoryManager := do
  let reservedPages ← m.reservedPages.set (paddr >>> BIT_OFFSET).toNat false
  .ok { m with reservedPages }

end MemoryManager

/-- `kernel::TLBEntry`: the two words for the CP0 registers. -/
structure TLBEntry where
  hi : Word := 0
  lo : Word := 0
  deriving DecidableEq, Repr

namespace TLBEntry

def GLOBAL : Byte := 1
def DIRTY : Byte := 2
def VALID : Byte := 4

/-- `SHIFT_FLAG`. -/
def shiftFlag (flags flag : Byte) (amount : Nat) : Word :=
  (if flags &&& flag != 0 then 1#32 else 0#32) <<< amount

/-- `TLBEntry(vpn, pfn, asid, flags)`. -/
def construct (vpn pfn : Word) (asid flags : Byte) : TLBEntry where
  hi := (vpn <<< 12) ||| shiftFlag flags GLOBAL 11 ||| asid.setWidth 32
  lo := (pfn <<< 6) ||| shiftFlag flags DIRTY 2 ||| shiftFlag flags VALID 1

/-- A flag that is shifted is a one or nothing. -/
theorem shiftFlag_or (flags flag : Byte) (amount : Nat) :
    shiftFlag flags flag amount = 1#32 <<< amount ∨ shiftFlag flags flag amount = 0#32 := by
  unfold shiftFlag
  split
  · exact .inl rfl
  · exact .inr (BitVec.zero_shiftLeft _)

/-- The flags of the low word do not reach into the frame. -/
theorem construct_lo_shift (vpn pfn : Word) (asid flags : Byte) :
    (construct vpn pfn asid flags).lo >>> 6 = (pfn <<< 6) >>> 6 := by
  have hdirty : shiftFlag flags DIRTY 2 >>> 6 = 0#32 := by
    rcases shiftFlag_or flags DIRTY 2 with h | h <;> rw [h] <;> rfl
  have hvalid : shiftFlag flags VALID 1 >>> 6 = 0#32 := by
    rcases shiftFlag_or flags VALID 1 with h | h <;> rw [h] <;> rfl
  show ((pfn <<< 6) ||| shiftFlag flags DIRTY 2 ||| shiftFlag flags VALID 1) >>> 6 = _
  rw [BitVec.ushiftRight_or_distrib, BitVec.ushiftRight_or_distrib, hdirty, hvalid,
    BitVec.or_zero, BitVec.or_zero]

end TLBEntry

/-- `PageTable::Entry`. -/
structure PageTable.Entry where
  pfn : Word := 0
  global : Bool := false
  writable : Bool := false
  user : Bool := false
  present : Bool := false
  deriving DecidableEq, Repr

namespace PageTable.Entry

def PRESENT : Byte := 1
def WRITABLE : Byte := 2
def USER : Byte := 4
def GLOBAL : Byte := 128

/-- `Entry(pfn, flags)`; `present` is read off the `USER` flag. -/
def construct (pfn : Word) (flags : Byte) : Entry where
  pfn := pfn
  global := flags &&& GLOBAL != 0
  writable := flags &&& WRITABLE != 0
  user := flags &&& USER != 0
  present := flags &&& USER != 0

/-- `toTLBEntry`: valid, global like the entry, and never dirty. -/
def toTLBEntry (e : Entry) (vpn : Word) (asid : Byte) : TLBEntry :=
  .construct vpn e.pfn asid (TLBEntry.VALID ||| if e.global then 1 else 0)

end PageTable.Entry

/-- The pages of the kernel heap. -/
def KHEAP_PAGES : Nat := 64
/-- Where the kernel heap begins. -/
def KHEAP_BOUNDARY : Word := 0xC0000000#32

/-- The page table of the kernel heap. -/
structure KernelPageTable where
  pt : List PageTable.Entry

namespace KernelPageTable

/-- The entries of the constructor's loop. -/
def reservePages : Nat → MemoryManager → Except Panic (List PageTable.Entry × MemoryManager)
  | 0, m => .ok ([], m)
  | left + 1, m => do
      let (frame, m) ← m.reserveFrame
      let (rest, m) ← reservePages left m
      .ok ({ pfn := frame >>> 12, global := true, writable := true, present := true } :: rest, m)

/-- `KernelPageTable()`. -/
def construct (m : MemoryManager) : Except Panic (KernelPageTable × MemoryManager) := do
  let (pt, m) ← reservePages KHEAP_PAGES m
  .ok (⟨pt⟩, m)

/-- `KernelPageTable::walkTable`. -/
def walkTable (t : KernelPageTable) (vaddr : Word) : Except Panic (Option PageTable.Entry) :=
  if vaddr < KHEAP_BOUNDARY then .error (.assertFailed "false")
  else
    match t.pt[((vaddr - KHEAP_BOUNDARY) >>> 12).toNat]? with
    | none => .error (.assertFailed "vpn < KHEAP_PAGES")
    | some e => .ok (some e)

/-- `KernelPageTable::mapPTE`. -/
def mapPTE (t : KernelPageTable) (m : MemoryManager) (pte : PageTable.Entry) (vpn : Word) :
    Except Panic (Bool × KernelPageTable × MemoryManager) := do
  kassert (KHEAP_BOUNDARY >>> 12 ≤ vpn) "vpn >= VPN_KHEAP_BOUNDARY"
  let i := (vpn - (KHEAP_BOUNDARY >>> 12)).toNat
  match t.pt[i]? with
  | none => .error (.assertFailed "normalized_vpn < KHEAP_PAGES")
  | some old =>
      let m ← m.freeFrame (old.pfn <<< 12)
      .ok (true, ⟨t.pt.set i { pte with global := true }⟩, m)

end KernelPageTable

/-! ### Frames handed out -/

/-- The word of a frame number. -/
theorem frame_shift {i : Nat} (h : i < numPages) :
    (BitVec.ofNat 32 i <<< BIT_OFFSET) >>> 12 = BitVec.ofNat 32 i := by
  unfold numPages at h
  apply BitVec.eq_of_toNat_eq
  rw [BitVec.toNat_ushiftRight, BitVec.toNat_shiftLeft, BitVec.toNat_ofNat,
    Nat.shiftRight_eq_div_pow, Nat.shiftLeft_eq, BIT_OFFSET]
  omega

/-- A frame number, as a number. -/
theorem frame_toNat {i : Nat} (h : i < numPages) : (BitVec.ofNat 32 i).toNat = i := by
  unfold numPages at h
  rw [BitVec.toNat_ofNat]
  omega

namespace MemoryManager

variable {m m' : MemoryManager} {f : Word} {i : Nat} {is : List Nat}

/-- The bit of a frame is set. -/
def Reserved (m : MemoryManager) (i : Nat) : Prop := m.reservedPages.bit i = true

/-- The first free frame above the boundary goes from free to reserved. -/
structure Gives (m : MemoryManager) (i : Nat) (m' : MemoryManager) : Prop where
  lower : m.kernelReservedBoundary ≤ i
  upper : i < numPages
  free : ¬ m.Reserved i
  lowest : ∀ j, m.kernelReservedBoundary ≤ j → j < i → m.Reserved j
  reserved : ∀ j, m'.Reserved j ↔ m.Reserved j ∨ j = i
  boundary : m'.kernelReservedBoundary = m.kernelReservedBoundary

/-- The search reserves the first free frame. -/
theorem reserveFrom_spec {left : Nat} (h : m.reserveFrom left i = .ok (f, m'))
    (hi : i + left = numPages) (hlow : m.kernelReservedBoundary ≤ i)
    (hbelow : ∀ j, m.kernelReservedBoundary ≤ j → j < i → m.Reserved j) :
    ∃ k, Gives m k m' ∧ f = BitVec.ofNat 32 k <<< BIT_OFFSET := by
  induction left generalizing i with
  | zero => cases h
  | succ left ih =>
      have hlt : i < numPages := by omega
      rw [reserveFrom, Bitset.test_eq _ (by decide) hlt, Except.ok_bind] at h
      cases hbit : m.reservedPages.bit i with
      | true =>
          rw [hbit, if_pos rfl] at h
          refine ih h (by omega) (by omega) fun j hj hji => ?_
          rcases Nat.lt_succ_iff_lt_or_eq.mp hji with hji' | rfl
          · exact hbelow j hj hji'
          · exact hbit
      | false =>
          obtain ⟨b', hset, hb'⟩ := m.reservedPages.set_spec (by decide) hlt true
          rw [hbit, if_neg (by decide), hset, Except.ok_bind] at h
          obtain ⟨rfl, rfl⟩ := Prod.mk.inj (Except.ok.inj h)
          refine ⟨i, ⟨hlow, hlt, by rw [Reserved, hbit]; decide, hbelow, fun j => ?_, rfl⟩, rfl⟩
          rw [Reserved, Reserved, hb']
          by_cases hji : j = i <;> simp [hji]

/-- **Reserving.**  `reserveFrame` returns the address of the first free frame. -/
theorem reserveFrame_spec (h : m.reserveFrame = .ok (f, m')) :
    ∃ i, Gives m i m' ∧ f >>> 12 = BitVec.ofNat 32 i := by
  have hbound : m.kernelReservedBoundary ≤ numPages := by
    by_contra hc
    rw [reserveFrame, Nat.sub_eq_zero_of_le (by omega)] at h
    cases h
  obtain ⟨i, hgives, rfl⟩ := reserveFrom_spec h (by omega) (Nat.le_refl _) fun j h1 h2 => by omega
  exact ⟨i, hgives, frame_shift hgives.upper⟩

/-- **Freeing.**  The bit of the frame is cleared. -/
theorem freeFrame_spec (hi : i < numPages) :
    ∃ m', m.freeFrame (BitVec.ofNat 32 i <<< 12) = .ok m' ∧
      (∀ j, m'.Reserved j ↔ m.Reserved j ∧ j ≠ i) ∧
      m'.kernelReservedBoundary = m.kernelReservedBoundary := by
  obtain ⟨b', hset, hb'⟩ := m.reservedPages.set_spec (by decide) hi false
  refine ⟨{ m with reservedPages := b' }, ?_, fun j => ?_, rfl⟩
  · have hshift : (BitVec.ofNat 32 i <<< 12) >>> BIT_OFFSET = BitVec.ofNat 32 i := frame_shift hi
    rw [freeFrame, hshift, frame_toNat hi, hset, Except.ok_bind]
  · rw [Reserved, Reserved, hb']
    by_cases hji : j = i <;> simp [hji]

/-- The frames handed out one after the other. -/
def Hands (m : MemoryManager) : List Nat → MemoryManager → Prop
  | [], m' => m' = m
  | i :: is, m' => ∃ m1, Gives m i m1 ∧ Hands m1 is m'

/-- Reserving frames leaves the boundary. -/
theorem Hands.boundary (h : Hands m is m') :
    m'.kernelReservedBoundary = m.kernelReservedBoundary := by
  induction is generalizing m with
  | nil => rw [h]
  | cons i is ih =>
      obtain ⟨m1, h1, h2⟩ := h
      exact (ih h2).trans h1.boundary

/-- What is reserved afterwards. -/
theorem Hands.reserved (h : Hands m is m') (j : Nat) :
    m'.Reserved j ↔ m.Reserved j ∨ j ∈ is := by
  induction is generalizing m with
  | nil => simp [show m' = m from h]
  | cons i is ih =>
      obtain ⟨m1, h1, h2⟩ := h
      rw [ih h2, h1.reserved, List.mem_cons, or_assoc]

/-- The frames were free, and they are none of the kernel image's. -/
theorem Hands.fresh (h : Hands m is m') (hi : i ∈ is) :
    ¬ m.Reserved i ∧ m.kernelReservedBoundary ≤ i ∧ i < numPages := by
  induction is generalizing m with
  | nil => cases hi
  | cons k is ih =>
      obtain ⟨m1, h1, h2⟩ := h
      rcases List.mem_cons.mp hi with rfl | hi'
      · exact ⟨h1.free, h1.lower, h1.upper⟩
      · obtain ⟨hfree, hlow, hup⟩ := ih h2 hi'
        refine ⟨fun hres => hfree ((h1.reserved i).mpr (Or.inl hres)), ?_, hup⟩
        rw [← h1.boundary]
        exact hlow

/-- The frames that are handed out are different. -/
theorem Hands.nodup (h : Hands m is m') : is.Nodup := by
  induction is generalizing m with
  | nil => exact List.nodup_nil
  | cons i is ih =>
      obtain ⟨m1, h1, h2⟩ := h
      refine List.nodup_cons.mpr ⟨fun hi => ?_, ih h2⟩
      exact (h2.fresh hi).1 ((h1.reserved i).mpr (Or.inr rfl))

/-- Frames that are handed out one after the other. -/
theorem Hands.append {js : List Nat} {m1 : MemoryManager} (h : Hands m is m1)
    (h' : Hands m1 js m') : Hands m (is ++ js) m' := by
  induction is generalizing m with
  | nil =>
      rw [show m1 = m from h] at h'
      exact h'
  | cons i is ih =>
      obtain ⟨m2, h1, h2⟩ := h
      exact ⟨m2, h1, ih h2⟩

/-- The frames that can be handed out, the next one first. -/
def available (m : MemoryManager) : List Nat :=
  (List.range numPages).filter fun i =>
    decide (m.kernelReservedBoundary ≤ i) && !m.reservedPages.bit i

/-- The frames that are left. -/
theorem mem_available {j : Nat} :
    j ∈ m.available ↔ j < numPages ∧ m.kernelReservedBoundary ≤ j ∧ ¬ m.Reserved j := by
  rw [available, List.mem_filter, List.mem_range, Bool.and_eq_true, decide_eq_true_iff,
    Bool.not_eq_true', Reserved, Bool.not_eq_true]

/-- They are in order. -/
theorem pairwise_available (m : MemoryManager) : m.available.Pairwise (· < ·) :=
  List.Pairwise.filter _ List.pairwise_lt_range

/-- The first available frame is handed out. -/
theorem Gives.available (h : Gives m i m') : m.available = i :: m'.available := by
  have hafter : ∀ j, j ∈ m'.available ↔ j ∈ m.available ∧ j ≠ i := by
    intro j
    rw [mem_available, mem_available, h.boundary, h.reserved]
    tauto
  have hsorted : (i :: m'.available).Pairwise (· < ·) := by
    refine List.pairwise_cons.mpr ⟨fun j hj => ?_, pairwise_available m'⟩
    obtain ⟨hin, hne⟩ := (hafter j).mp hj
    obtain ⟨-, hlow, hfree⟩ := mem_available.mp hin
    by_contra hlt
    exact hfree (h.lowest j hlow (by omega))
  refine List.Perm.eq_of_pairwise (fun a b _ _ hab hba => absurd hab (Nat.lt_asymm hba))
    (pairwise_available m) hsorted ?_
  refine (List.perm_ext_iff_of_nodup (pairwise_available m).nodup hsorted.nodup).mpr fun j => ?_
  rw [List.mem_cons, hafter]
  by_cases hj : j = i
  · rw [hj]
    exact iff_of_true (mem_available.mpr ⟨h.upper, h.lower, h.free⟩) (Or.inl rfl)
  · simp [hj]

/-- **Order.**  The available frames are handed out from the first one on. -/
theorem Hands.eq_take (h : Hands m is m') : is = m.available.take is.length := by
  induction is generalizing m with
  | nil => rfl
  | cons i is ih =>
      obtain ⟨m1, hgives, hrest⟩ := h
      rw [hgives.available, List.length_cons, List.take_succ_cons, ← ih hrest]

/-- They are gone afterwards. -/
theorem Hands.available (h : Hands m is m') : m.available = is ++ m'.available := by
  induction is generalizing m with
  | nil => rw [show m' = m from h, List.nil_append]
  | cons i is ih =>
      obtain ⟨m1, hgives, hrest⟩ := h
      rw [hgives.available, ih hrest, List.cons_append]

/-- There are not more frames than the memory has. -/
theorem Hands.length_le (h : Hands m is m') : is.length ≤ numPages := by
  have hsub : is ⊆ List.range numPages := fun i hi => List.mem_range.mpr (h.fresh hi).2.2
  have hle := (h.nodup.subperm hsub).length_le
  rwa [List.length_range] at hle

end MemoryManager

end Kernel
