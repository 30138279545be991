import BobbyOS.Kernel.PageTables

/-!
# Virtual memory

The memory of a process is what its page table makes of the physical memory: a page
that is present names a frame, and inside the page the addresses follow each other.
-/

namespace Kernel

variable {t : PageTable} {vaddr : Word}

/-! ### The direct map -/

/-- An offset that does not wrap. -/
theorem physAddr_add {a : Word} {n : Nat} (h : physAddr a + n < 2 ^ 32) :
    physAddr (a + BitVec.ofNat 32 n) = physAddr a + n := by
  have ha := a.isLt
  rw [physAddr, BitVec.toNat_sub, BitVec.toNat_ofNat] at h ⊢
  rw [BitVec.toNat_add, BitVec.toNat_ofNat, physAddr, BitVec.toNat_sub, BitVec.toNat_ofNat]
  omega

/-- Where a frame lies. -/
theorem physAddr_frameAddr {g : Nat} (h : g < 2 ^ 19) :
    physAddr (frameAddr (BitVec.ofNat 32 g)) = 4096 * g := by
  rw [physAddr, frameAddr, BitVec.toNat_sub, BitVec.toNat_add, BitVec.toNat_shiftLeft,
    BitVec.toNat_ofNat, BitVec.toNat_ofNat, Nat.shiftLeft_eq]
  omega

/-! ### Pages -/

/-- The byte at a physical address. -/
def physicalByte (mem : Hardware.Memory) (a : Nat) : Option Byte :=
  if a < Hardware.physMemSize then some (mem a) else none

namespace PageTable

/-- The physical address behind a virtual one. -/
def physical (t : PageTable) (vaddr : Word) : Option Nat :=
  match t.walkTable vaddr with
  | .ok (some e) =>
      if e.present then
        some (e.pfn.toNat % 2 ^ 20 * Hardware.pageSize + vaddr.toNat % Hardware.pageSize)
      else none
  | _ => none

/-- The byte of the virtual memory. -/
def virtualByte (t : PageTable) (mem : Hardware.Memory) (vaddr : Word) : Option Byte :=
  (t.physical vaddr).bind (physicalByte mem)

/-- Where an address lies: in the frame of the entry that a walk finds. -/
theorem physical_eq_some {base : Nat} :
    t.physical vaddr = some base ↔ ∃ e, t.walkTable vaddr = .ok (some e) ∧ e.present = true ∧
      base = e.pfn.toNat % 2 ^ 20 * Hardware.pageSize + vaddr.toNat % Hardware.pageSize := by
  unfold physical
  split
  case h_1 e hwalk =>
    constructor
    · intro h
      split at h
      case isTrue hpresent => exact ⟨e, hwalk, hpresent, (Option.some.inj h).symm⟩
      case isFalse => cases h
    · rintro ⟨e', he', hpresent, rfl⟩
      obtain rfl := Option.some.inj (Except.ok.inj (hwalk.symm.trans he'))
      rw [if_pos hpresent]
  case h_2 hwalk =>
    refine iff_of_false (fun h => by cases h) ?_
    rintro ⟨e, he, -⟩
    exact hwalk e he

/-- A table is walked by pages. -/
theorem walkTable_page {w : Word} (hpage : w >>> 12 = vaddr >>> 12) :
    t.walkTable w = t.walkTable vaddr := by
  cases t with
  | hash t => simp only [walkTable, HashPageTable.walkTable, hpage]
  | kernel t =>
      have hnat := congrArg BitVec.toNat hpage
      simp only [BitVec.toNat_ushiftRight, Nat.shiftRight_eq_div_pow] at hnat
      have hbelow : w < KHEAP_BOUNDARY ↔ vaddr < KHEAP_BOUNDARY := by
        simp only [KHEAP_BOUNDARY, BitVec.lt_def, BitVec.toNat_ofNat]
        omega
      have hindex : (w - KHEAP_BOUNDARY) >>> 12 = (vaddr - KHEAP_BOUNDARY) >>> 12 := by
        apply BitVec.eq_of_toNat_eq
        simp only [KHEAP_BOUNDARY, BitVec.toNat_ushiftRight, Nat.shiftRight_eq_div_pow,
          BitVec.toNat_sub, BitVec.toNat_ofNat]
        omega
      simp only [walkTable, KernelPageTable.walkTable, hbelow, hindex]

end PageTable

/-- Inside a page the next address is the next physical address. -/
theorem physical_inside {base i : Nat} (hbase : t.physical vaddr = some base)
    (hi : vaddr.toNat % Hardware.pageSize + i < Hardware.pageSize) :
    t.physical (vaddr + BitVec.ofNat 32 i) = some (base + i) := by
  have hlt := vaddr.isLt
  have hadd : (vaddr + BitVec.ofNat 32 i).toNat = vaddr.toNat + i := by
    rw [BitVec.toNat_add, BitVec.toNat_ofNat]
    unfold Hardware.pageSize at hi
    omega
  have hpage : (vaddr + BitVec.ofNat 32 i) >>> 12 = vaddr >>> 12 := by
    apply BitVec.eq_of_toNat_eq
    rw [BitVec.toNat_ushiftRight, BitVec.toNat_ushiftRight, hadd, Nat.shiftRight_eq_div_pow,
      Nat.shiftRight_eq_div_pow]
    unfold Hardware.pageSize at hi
    omega
  obtain ⟨e, hwalk, hpresent, rfl⟩ := PageTable.physical_eq_some.mp hbase
  refine PageTable.physical_eq_some.mpr ⟨e, ?_, hpresent, ?_⟩
  · rw [PageTable.walkTable_page hpage, hwalk]
  · rw [hadd]
    unfold Hardware.pageSize at hi ⊢
    omega

/-! ### `translate` -/

/-- `translate` packs an entry that is present. -/
theorem translate_of_walk {space : AddressSpace} {e : PageTable.Entry}
    (ht : space.pageTable = some t) (hwalk : t.walkTable vaddr = .ok (some e))
    (hpresent : e.present = true) :
    space.translate vaddr = .ok (e.toTLBEntry (vaddr >>> 12) space.asid) := by
  rw [AddressSpace.translate, ht]
  simp only [hwalk, Except.ok_bind, if_pos hpresent]

/-- It packs nothing else. -/
theorem translate_spec {space : AddressSpace} {entry : TLBEntry}
    (h : space.translate vaddr = .ok entry) :
    ∃ t e, space.pageTable = some t ∧ t.walkTable vaddr = .ok (some e) ∧ e.present = true ∧
      entry = e.toTLBEntry (vaddr >>> 12) space.asid := by
  unfold AddressSpace.translate at h
  cases htable : space.pageTable with
  | none =>
      rw [htable] at h
      cases h
  | some t =>
      rw [htable] at h
      obtain ⟨found, hwalk, h⟩ := Except.bind_ok_iff.mp h
      cases found with
      | none => cases h
      | some e =>
          simp only at h
          split at h
          case isFalse => cases h
          case isTrue hpresent =>
            obtain rfl := Except.ok.inj h
            exact ⟨t, e, rfl, hwalk, hpresent, rfl⟩

end Kernel
