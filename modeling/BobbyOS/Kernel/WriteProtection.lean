import BobbyOS.Kernel.TLBRefill
import BobbyOS.Machine.UserIsolation

/-!
# Read-only pages

A page table entry says whether its page is writable; text pages are not.  The
entry that `toTLBEntry` packs has room for the flag, DIRTY, and the exception
TLB_MOD has a number, but `toTLBEntry` never sets the one and `TLB::translate`
never throws the other.

* `storing_returns_iff`: a store whose address translates returns exactly when the
  address is aligned and inside the memory;
* `respectsPermission_iff`: exactly the stores to writable pages go as the entry says;
* `text_store_returns`: a store of user code to its first text page.
-/

namespace Hardware

variable {op : IMemoryOp} {rt rs : Reg} {imm : HalfWord} {s : Machine} {p : Word}

/-- What `sb` does after a translation into the memory. -/
theorem storeByte_run {r : Reg}
    (hp : s.tlb.translate (accessAddress rs imm s) .store s.asid = .ok p)
    (hin : p.toNat < physMemSize) :
    IMemoryOp.storeByte.run r rs imm s = .next () { s with
      memory := Function.update s.memory p.toNat ((s.registerFile r).setWidth 8) } :=
  ofAccess_next_iff.mpr ⟨_, (setByte_ok_iff hp).mpr ⟨hin, rfl⟩, rfl⟩

/-- **Storing.**  After a translation a store returns exactly when the physical
address is a multiple of the width and the bytes are in the memory. -/
theorem storing_returns_iff (hstore : op.lookupType = .store)
    (hp : accessTranslation op rs imm s = .ok p) :
    (∃ s', op.run rt rs imm s = .next () s') ↔
      p.toNat % op.width = 0 ∧ p.toNat + op.width ≤ physMemSize := by
  have hreturns : ∀ {r : Except Fault Memory}, (∃ s', s.store r (fun s => .next () s) =
      Outcome.next () s') ↔ ∃ m, r = .ok m := by
    intro r
    constructor
    · rintro ⟨s', hs'⟩
      obtain ⟨m, hm, -⟩ := ofAccess_next_iff.mp hs'
      exact ⟨m, hm⟩
    · rintro ⟨m, hm⟩
      exact ⟨_, ofAccess_next_iff.mpr ⟨m, hm, rfl⟩⟩
  have ht : s.tlb.translate (accessAddress rs imm s) .store s.asid = .ok p := by
    rw [← hstore]
    exact hp
  have hword : ∀ w : Word, (∃ m, s.memory.setWord (accessAddress rs imm s) w s.tlb s.asid =
      .ok m) ↔ p.toNat % 4 = 0 ∧ p.toNat + 4 ≤ physMemSize := by
    intro w
    simp only [setWord_ok_iff ht, word_mod_beq_zero p 4 (by decide)]
    exact ⟨fun ⟨_, hmod, hin, _⟩ => ⟨hmod, hin⟩, fun ⟨hmod, hin⟩ => ⟨_, hmod, hin, rfl⟩⟩
  cases op with
  | storeByte =>
      refine hreturns.trans ?_
      show (∃ m, s.memory.setByte (accessAddress rs imm s) _ s.tlb s.asid = .ok m) ↔ _
      simp only [setByte_ok_iff ht, exists_and_left, exists_eq, and_true, IMemoryOp.width]
      omega
  | storeHalfword =>
      refine hreturns.trans ?_
      show (∃ m, s.memory.setHalfWord (accessAddress rs imm s) _ s.tlb s.asid = .ok m) ↔ _
      simp only [setHalfWord_ok_iff ht, word_mod_beq_zero p 2 (by decide), exists_and_left,
        exists_eq, and_true, IMemoryOp.width]
      omega
  | storeWord => exact hreturns.trans (hword _)
  | storeFPSingle => exact hreturns.trans (hword _)
  | _ => cases hstore

end Hardware

namespace Kernel

open Hardware (Instruction IMemoryOp Outcome accessAddress)

/-- The TLB after a refill from an entry, for an address that missed. -/
structure RefilledFrom (e : PageTable.Entry) (vaddr : Word) (asid : Byte) (tlb : Hardware.TLB) :
    Prop where
  present : e.present = true
  fills : ∃ old slot, Hardware.TLB.slotFor old vaddr asid = none ∧
    tlb = old.replace slot (e.unpacked vaddr asid)

variable {e : PageTable.Entry} {vaddr w : Word} {asid : Byte} {tlb : Hardware.TLB}

/-- `writeRandom` makes such a TLB. -/
theorem refilledFrom_writeRandom {fp : Hardware.FpArith} {inp : Hardware.HostInput}
    {s s' : Hardware.Machine} {hiReg loReg : Reg} (hpresent : e.present = true)
    (hexl : s.exl = true)
    (hrandom : (s.cp0 Hardware.SYSRegister.RANDOM).toNat < Hardware.tlbEntries)
    (hmiss : s.tlb.slotFor vaddr asid = none)
    (hhi : s.registerFile hiReg = (e.toTLBEntry (vaddr >>> 12) asid).hi)
    (hlo : s.registerFile loReg = (e.toTLBEntry (vaddr >>> 12) asid).lo)
    (h : Instruction.runAll fp inp (TLBEntry.writeRandom hiReg loReg) s = .next () s') :
    RefilledFrom e vaddr asid s'.tlb := by
  rw [TLBEntry.runAll_writeRandom hexl hrandom, hhi, hlo] at h
  obtain ⟨-, rfl⟩ := Outcome.next.inj h
  exact ⟨hpresent, s.tlb, _, hmiss, rfl⟩

/-- The frame of an unpacked entry, as far as a physical address has it. -/
theorem unpacked_pfn :
    (e.unpacked vaddr asid).pfn.toNat % 2 ^ 20 = e.pfn.toNat % 2 ^ 20 := by
  have hpfn : (e.unpacked vaddr asid).pfn = (e.pfn <<< 6) >>> 6 :=
    TLBEntry.construct_lo_shift _ _ _ _
  rw [hpfn, BitVec.toNat_ushiftRight, BitVec.toNat_shiftLeft, Nat.shiftRight_eq_div_pow,
    Nat.shiftLeft_eq]
  omega

/-- Every address of the page goes to the frame. -/
theorem RefilledFrom.translate (h : RefilledFrom e vaddr asid tlb) (type : Hardware.LookupType)
    (hpage : w >>> 12 = vaddr >>> 12) (hlow : vaddr.toNat < 0x80000000) :
    ∃ p, tlb.translate w type asid = .ok p ∧
      p.toNat = e.pfn.toNat % 2 ^ 20 * Hardware.pageSize + w.toNat % Hardware.pageSize := by
  obtain ⟨old, slot, hmiss, rfl⟩ := h.fills
  refine ⟨_, Hardware.TLB.translate_replace_covered
    ((Hardware.TLB.slotFor_page hpage).trans hmiss) (unpacked_serves_page hpage)
    (mapped_of_page hlow hpage), ?_⟩
  rw [Hardware.frame_offset_toNat, unpacked_pfn]

/-! ### Permissions -/

/-- A store goes as the entry of its page says: it returns when the page is writable,
otherwise it raises a trap and no byte of the frame changes. -/
def RespectsPermission (e : PageTable.Entry) (op : IMemoryOp) (rt rs : Reg)
    (imm : Hardware.HalfWord) (s : Hardware.Machine) : Prop :=
  if e.writable then ∃ s', op.run rt rs imm s = .next () s'
  else ∃ t s', op.run rt rs imm s = .raise t s' ∧ ∀ i, i < Hardware.pageSize →
    s'.memory (e.pfn.toNat * Hardware.pageSize + i) =
      s.memory (e.pfn.toNat * Hardware.pageSize + i)

/-- **Permissions.**  After a refill a store to an address of the page goes as the
entry says exactly when the page is writable, the address is aligned and the frame is
one of the memory. -/
theorem respectsPermission_iff {op : IMemoryOp} {rt rs : Reg} {imm : Hardware.HalfWord}
    {s : Hardware.Machine} (hfilled : RefilledFrom e vaddr s.asid s.tlb)
    (hstore : op.lookupType = .store)
    (hpage : accessAddress rs imm s >>> 12 = vaddr >>> 12) (hlow : vaddr.toNat < 0x80000000) :
    RespectsPermission e op rt rs imm s ↔
      e.writable = true ∧ (accessAddress rs imm s).toNat % op.width = 0 ∧
        e.pfn.toNat % 2 ^ 20 < numPages := by
  obtain ⟨p, hp, hphysical⟩ := hfilled.translate op.lookupType hpage hlow
  have htranslation : Hardware.accessTranslation op rs imm s = .ok p := hp
  unfold RespectsPermission
  cases hwritable : e.writable with
  | false =>
      refine iff_of_false ?_ (fun h => by cases h.1)
      rintro ⟨t, s', hraise, -⟩
      exact Hardware.run_ne_raise htranslation hraise
  | true =>
      rw [if_pos rfl, Hardware.storing_returns_iff hstore htranslation, and_iff_right rfl,
        hphysical]
      simp only [Hardware.pageSize, Hardware.physMemSize, numPages]
      cases op with
      | storeByte | storeHalfword | storeWord | storeFPSingle =>
          simp only [IMemoryOp.width]
          omega
      | _ => cases hstore

/-- User code behind a refill, before `sb $v0, 0($a0)`. -/
def storeMachine (e : PageTable.Entry) (vaddr : Word) : Hardware.Machine :=
  { (((Hardware.Machine.construct 0x400000#32 0x80000100#32 (fun _ => 0) {}).setReg Register.V0
      0xAB#32).setReg Register.A0 vaddr) with
    tlb := Hardware.TLB.replace .empty firstEntry (e.unpacked vaddr 0) }

/-- The TLB of this machine has been refilled from the entry. -/
theorem storeMachine_filled (hpresent : e.present = true) :
    RefilledFrom e vaddr 0 (storeMachine e vaddr).tlb :=
  ⟨hpresent, .empty, firstEntry, Associative.find_eq_none.mpr fun _ => by
    simp [Hardware.TLBEntry.serves, Hardware.TLBEntry.covers, Hardware.TLB.empty], rfl⟩

/-- A store to the first page of the heap. -/
theorem respectsPermission_iff_heap :
    RespectsPermission (AddressSpace.heapEntry 2#32) .storeByte Register.V0 Register.A0 0
      (storeMachine (AddressSpace.heapEntry 2#32) 0x10008000#32) :=
  (respectsPermission_iff (storeMachine_filled rfl) rfl (by decide) (by decide)).mpr
    ⟨rfl, Nat.mod_one _, by decide⟩

/-- **Failure.**  The first text page of a process is not writable, and a store of user
code to it returns and changes its first byte. -/
theorem text_store_returns :
    ∃ t m s', HashPageTable.construct 1 0 0 0 (.construct 0x80001000#32) = .ok (t, m) ∧
      t.walkTable 0x400000#32 = .ok (some textEntry) ∧ textEntry.writable = false ∧
      RefilledFrom textEntry 0x400000#32 0 (storeMachine textEntry 0x400000#32).tlb ∧
      (storeMachine textEntry 0x400000#32).exl = false ∧
      IMemoryOp.storeByte.run Register.V0 Register.A0 0 (storeMachine textEntry 0x400000#32) =
        .next () s' ∧
      (storeMachine textEntry 0x400000#32).memory 4096 = 0 ∧ s'.memory 4096 = 0xAB#8 ∧
      ¬ RespectsPermission textEntry .storeByte Register.V0 Register.A0 0
        (storeMachine textEntry 0x400000#32) := by
  obtain ⟨t, m, ht, hfind⟩ := textTable_made
  have hfilled : RefilledFrom textEntry 0x400000#32 0 (storeMachine textEntry 0x400000#32).tlb :=
    storeMachine_filled rfl
  obtain ⟨p, hp, hphysical⟩ := hfilled.translate (w := 0x400000#32) .store rfl (by decide)
  have haddress : p.toNat = 4096 := hphysical
  have haccess : (storeMachine textEntry 0x400000#32).tlb.translate
      (accessAddress Register.A0 0 (storeMachine textEntry 0x400000#32)) .store
      (storeMachine textEntry 0x400000#32).asid = .ok p := hp
  have hrun := Hardware.storeByte_run (r := Register.V0) haccess (by rw [haddress]; decide)
  rw [haddress] at hrun
  refine ⟨t, m, _, ht, hfind, rfl, hfilled, rfl, hrun, rfl,
    Function.update_self 4096 _ (storeMachine textEntry 0x400000#32).memory, ?_⟩
  rintro ⟨_, s', hraise, -⟩
  rw [hrun] at hraise
  cases hraise

end Kernel
