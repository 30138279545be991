import BobbyOS.Lib.Associative
import BobbyOS.Kernel.TLBCoherence
import BobbyOS.Machine.Hardware
import BobbyOS.Machine.MemorySafety

/-!
# The refill of the TLB

After a miss the kernel walks the page table, packs the entry it finds and writes
the two words with `tlbwr`.  The hardware unpacks them into the slot that RANDOM
names and counts RANDOM up.  The TLB is a fully associative store whose keys are
the addresses with their address spaces: what a refill changes is what replacing
one entry of such a store changes.

* `unpacked`: what the hardware reads off the words of a local entry;
* `runAll_writeRandom`: the inline assembly of `writeRandom`;
* `refill_correct`: a refill after a miss gives the page its frame, and takes at
  most the pages of the replaced slot away.
-/

namespace Hardware

/-- The entry is used for an address and an address space. -/
def TLBEntry.serves (e : TLBEntry) (key : Word × Byte) : Bool := e.covers (key.1 >>> 12) key.2

namespace TLB

variable {tlb : TLB} {vaddr : Word} {asid : Byte} {type : LookupType} {e : TLBEntry}
  {slot : Fin tlbEntries}

/-- At most one valid entry matches a page and an address space. -/
def Unambiguous (tlb : TLB) : Prop := Associative.Unambiguous TLBEntry.serves tlb

/-- The slot that a lookup uses. -/
def slotFor (tlb : TLB) (vaddr : Word) (asid : Byte) : Option (Fin tlbEntries) :=
  Associative.find TLBEntry.serves tlb (vaddr, asid)

/-- The entry that is found is that of its slot. -/
theorem entryFor_eq : tlb.entryFor vaddr asid = (tlb.slotFor vaddr asid).map tlb := rfl

/-- A lookup sees the page of an address only. -/
theorem slotFor_page {w : Word} (hpage : w >>> 12 = vaddr >>> 12) :
    tlb.slotFor w asid = tlb.slotFor vaddr asid := by
  simp only [slotFor, Associative.find, TLBEntry.serves, hpage]

/-- The fault of a lookup that finds nothing. -/
def missFault (vaddr : Word) (type : LookupType) : Fault :=
  .trap ⟨if type = .load then .tlbL else .tlbS, vaddr⟩

/-- An address whose slot is found is translated by it. -/
theorem translate_of_slot (hmapped : directMapped vaddr = false)
    (h : tlb.slotFor vaddr asid = some slot) :
    tlb.translate vaddr type asid = .ok (((tlb slot).pfn <<< 12) ||| (vaddr &&& 0xFFF#32)) := by
  rw [translate_ok_iff]
  refine Or.inr ⟨hmapped, tlb slot, ?_, rfl⟩
  rw [entryFor_eq, h, Option.map_some]

/-- An address without a slot misses. -/
theorem translate_of_miss (hmapped : directMapped vaddr = false)
    (h : tlb.slotFor vaddr asid = none) :
    tlb.translate vaddr type asid = .error (missFault vaddr type) := by
  rw [translate, if_neg (by rw [hmapped]; decide), lookup, entryFor_eq, h]
  rfl

/-- A lookup that fails has found no slot. -/
theorem slotFor_of_lookup {f : Fault} (h : tlb.lookup vaddr type asid = .error f) :
    tlb.slotFor vaddr asid = none := by
  cases hslot : tlb.slotFor vaddr asid with
  | none => rfl
  | some slot =>
      rw [lookup, entryFor_eq, hslot] at h
      cases h

/-- The translation depends on the slot and its entry only. -/
theorem translate_congr {tlb' : TLB} (hslot : tlb'.slotFor vaddr asid = tlb.slotFor vaddr asid)
    (hentry : ∀ slot, tlb.slotFor vaddr asid = some slot → tlb' slot = tlb slot) :
    tlb'.translate vaddr type asid = tlb.translate vaddr type asid := by
  cases hmapped : directMapped vaddr with
  | true => rw [translate, translate, if_pos hmapped, if_pos hmapped]
  | false =>
      cases hold : tlb.slotFor vaddr asid with
      | none => rw [translate_of_miss hmapped hold, translate_of_miss hmapped (hslot.trans hold)]
      | some slot =>
          rw [translate_of_slot hmapped hold, translate_of_slot hmapped (hslot.trans hold),
            hentry slot hold]

/-! ### Replacing an entry -/

/-- `tlb[slot] = e` -/
def replace (tlb : TLB) (slot : Fin tlbEntries) (e : TLBEntry) : TLB := Function.update tlb slot e

/-- **Replacing, other pages.**  A page that the new entry does not serve keeps its
translation, or it was served by the replaced slot and misses. -/
theorem translate_replace_other (h : tlb.Unambiguous) (he : e.serves (vaddr, asid) = false) :
    (tlb.replace slot e).translate vaddr type asid =
        tlb.translate vaddr type asid ∨
      (directMapped vaddr = false ∧ tlb.slotFor vaddr asid = some slot ∧
        (tlb.replace slot e).translate vaddr type asid =
          .error (missFault vaddr type)) := by
  by_cases hslot : tlb.slotFor vaddr asid = some slot
  · have hlost : (tlb.replace slot e).slotFor vaddr asid = none :=
      Associative.find_replace_lost h he hslot
    cases hmapped : directMapped vaddr with
    | true =>
        left
        rw [translate, translate, if_pos hmapped, if_pos hmapped]
    | false => exact Or.inr ⟨rfl, hslot, translate_of_miss hmapped hlost⟩
  · left
    refine translate_congr (Associative.find_replace_other h he hslot) fun other hother => ?_
    rw [replace, Function.update_of_ne]
    rintro rfl
    exact hslot hother

/-- **Replacing, the page.**  A page that missed and that the new entry serves gets
its frame. -/
theorem translate_replace_covered (hmiss : tlb.slotFor vaddr asid = none)
    (he : e.serves (vaddr, asid) = true) (hmapped : directMapped vaddr = false) :
    (tlb.replace slot e).translate vaddr type asid =
      .ok ((e.pfn <<< 12) ||| (vaddr &&& 0xFFF#32)) := by
  have hslot : (tlb.replace slot e).slotFor vaddr asid = some slot :=
    Associative.find_replace_covered hmiss he
  rw [translate_of_slot hmapped hslot, replace, Function.update_self]

end TLB

/-! ### The instructions -/

/-- Instructions one after the other. -/
def Instruction.runAll (fp : FpArith) (inp : HostInput) :
    List Instruction → Machine → Outcome Unit
  | [], s => .next () s
  | i :: rest, s =>
      match i.run fp inp s with
      | .next _ s => runAll fp inp rest s
      | .raise t s => .raise t s
      | .abort f => .abort f

/-- The machine after `tlbwr` wrote the two words. -/
def Machine.refilled (s : Machine) (hi lo : Word) (slot : Fin tlbEntries) : Machine :=
  { s with
    tlb := s.tlb.replace slot (.ofHiLo hi lo)
    cp0 := Function.update (Function.update (Function.update s.cp0 SYSRegister.ENTRYHI hi)
      SYSRegister.ENTRYLO0 lo) SYSRegister.RANDOM
        ((s.cp0 SYSRegister.RANDOM + 1#32) % 64#32) }

end Hardware

namespace Kernel

open Hardware (Instruction Outcome)

namespace TLBEntry

/-- `TLBEntry::writeRandom`: the inline assembly, on the registers that the compiler
chose for `%0` and `%1`. -/
def writeRandom (hiReg loReg : Reg) : List Instruction :=
  [.moveToCoprocessor0 hiReg Hardware.SYSRegister.ENTRYHI,
    .moveToCoprocessor0 loReg Hardware.SYSRegister.ENTRYLO0, .tlbWriteRandom]

variable {fp : Hardware.FpArith} {inp : Hardware.HostInput} {s : Hardware.Machine}
  {hiReg loReg : Reg}

/-- **Writing.**  In the kernel the three instructions write the slot of RANDOM. -/
theorem runAll_writeRandom (hexl : s.exl = true)
    (hrandom : (s.cp0 Hardware.SYSRegister.RANDOM).toNat < Hardware.tlbEntries) :
    Instruction.runAll fp inp (writeRandom hiReg loReg) s =
      .next () (s.refilled (s.registerFile hiReg) (s.registerFile loReg)
        ⟨(s.cp0 Hardware.SYSRegister.RANDOM).toNat, hrandom⟩) := by
  have hexl1 : (s.setCp0 Hardware.SYSRegister.ENTRYHI (s.registerFile hiReg)).exl = true := hexl
  have hexl2 : ((s.setCp0 Hardware.SYSRegister.ENTRYHI (s.registerFile hiReg)).setCp0
      Hardware.SYSRegister.ENTRYLO0 (s.registerFile loReg)).exl = true := hexl
  have hfirst : Instruction.run fp inp
      (.moveToCoprocessor0 hiReg Hardware.SYSRegister.ENTRYHI) s =
        .next () (s.setCp0 Hardware.SYSRegister.ENTRYHI (s.registerFile hiReg)) := by
    rw [Instruction.run, Hardware.Machine.privileged, if_pos hexl]
  have hsecond : Instruction.run fp inp (.moveToCoprocessor0 loReg Hardware.SYSRegister.ENTRYLO0)
      (s.setCp0 Hardware.SYSRegister.ENTRYHI (s.registerFile hiReg)) =
        .next () ((s.setCp0 Hardware.SYSRegister.ENTRYHI (s.registerFile hiReg)).setCp0
          Hardware.SYSRegister.ENTRYLO0 (s.registerFile loReg)) := by
    rw [Instruction.run, Hardware.Machine.privileged, if_pos hexl1]
    rfl
  rw [writeRandom, Instruction.runAll, hfirst]
  simp only []
  rw [Instruction.runAll, hsecond]
  simp only []
  rw [Instruction.runAll, Instruction.run, Hardware.Machine.privileged, if_pos hexl2,
    Hardware.Machine.tlbWrite]
  have hindex : ((s.setCp0 Hardware.SYSRegister.ENTRYHI (s.registerFile hiReg)).setCp0
      Hardware.SYSRegister.ENTRYLO0 (s.registerFile loReg)).cp0 Hardware.SYSRegister.RANDOM =
        s.cp0 Hardware.SYSRegister.RANDOM := rfl
  simp only [hindex, dif_pos hrandom]
  rfl

/-! ### Packing and unpacking -/

variable {vpn pfn : Word} {asid flags : Byte}

/-- An entry made without the global bit belongs to one address space. -/
theorem global_ofHiLo (lo : Word) (h : flags &&& GLOBAL = 0) :
    (Hardware.TLBEntry.ofHiLo (construct vpn pfn asid flags).hi lo).global = false :=
  (Hardware.TLBEntry.decode_global (e := fields vpn pfn asid flags)).trans
    (bne_eq_false_iff_eq.mpr h)

/-- An entry made with the valid bit is valid. -/
theorem valid_ofHiLo (hi : Word) (h : flags &&& VALID ≠ 0) :
    (Hardware.TLBEntry.ofHiLo hi (construct vpn pfn asid flags).lo).valid = true := by
  rw [construct_lo]
  exact (Hardware.TLBEntry.decode_valid (e := fields vpn pfn asid flags)).trans
    (bne_iff_ne.mpr h)

end TLBEntry

variable {vaddr w : Word} {asid b : Byte}

/-- What the hardware makes of the words of a page table entry. -/
def PageTable.Entry.unpacked (e : PageTable.Entry) (vaddr : Word) (asid : Byte) :
    Hardware.TLBEntry :=
  .ofHiLo (e.toTLBEntry (vaddr >>> 12) asid).hi (e.toTLBEntry (vaddr >>> 12) asid).lo

section Packing

variable {e : PageTable.Entry}

/-- An entry that comes through its words is valid. -/
theorem unpacked_valid : (e.unpacked vaddr asid).valid = true :=
  TLBEntry.valid_ofHiLo _ (by cases e.global <;> decide)

/-- It has the page. -/
theorem unpacked_vpn : (e.unpacked vaddr asid).vpn = vaddr >>> 12 :=
  TLBEntry.vpn_ofHiLo _ _ _ _ _

/-- It has the identifier. -/
theorem unpacked_asid : (e.unpacked vaddr asid).asid = asid := TLBEntry.asid_ofHiLo _ _ _ _ _

/-- **Packing.**  The words of an entry serve its page in its address space. -/
theorem unpacked_serves_page (hpage : w >>> 12 = vaddr >>> 12) :
    (e.unpacked vaddr asid).serves (w, asid) = true := by
  rw [Hardware.TLBEntry.serves, Hardware.TLBEntry.covers, unpacked_valid, unpacked_vpn,
    unpacked_asid]
  simp [hpage]

/-- A local entry serves nothing else. -/
theorem unpacked_serves (hlocal : e.global = false) :
    (e.unpacked vaddr asid).serves (w, b) = true ↔ w >>> 12 = vaddr >>> 12 ∧ b = asid := by
  have hglobal : (e.unpacked vaddr asid).global = false :=
    TLBEntry.global_ofHiLo _ (by rw [hlocal]; rfl)
  rw [Hardware.TLBEntry.serves, Hardware.TLBEntry.covers, unpacked_valid, hglobal, unpacked_vpn,
    unpacked_asid, Bool.and_true, Bool.or_false, Bool.and_eq_true, beq_iff_eq, beq_iff_eq,
    eq_comm (b := b)]

end Packing

/-- The pages below the direct map are translated by the TLB. -/
theorem mapped_of_page (hlow : vaddr.toNat < 0x80000000) (hpage : w >>> 12 = vaddr >>> 12) :
    Hardware.directMapped w = false := by
  have hnat := congrArg BitVec.toNat hpage
  rw [BitVec.toNat_ushiftRight, BitVec.toNat_ushiftRight, Nat.shiftRight_eq_div_pow,
    Nat.shiftRight_eq_div_pow] at hnat
  rw [Bool.eq_false_iff]
  intro hdirect
  have hhigh := ((Hardware.directMapped_iff w).mp hdirect).1
  omega

/-- The kernel's own account of a refill is what the instructions do. -/
theorem filled_refilled {k : KernelState} {s : Hardware.Machine} (entry : TLBEntry)
    (htlb : k.tlb = s.tlb)
    (hrandom : s.cp0 Hardware.SYSRegister.RANDOM = BitVec.ofNat 32 k.random.val) :
    (k.filled entry).tlb = (s.refilled entry.hi entry.lo k.random).tlb ∧
      (s.refilled entry.hi entry.lo k.random).cp0 Hardware.SYSRegister.RANDOM =
        BitVec.ofNat 32 (k.filled entry).random.val ∧
      (s.refilled entry.hi entry.lo k.random).asid = (k.filled entry).asid := by
  refine ⟨?_, ?_, ?_⟩
  · show Function.update k.tlb k.random _ = Function.update s.tlb k.random _
    rw [htlb]
  · show (s.cp0 Hardware.SYSRegister.RANDOM + 1#32) % 64#32 = BitVec.ofNat 32 (k.random + 1).val
    rw [hrandom]
    apply BitVec.eq_of_toNat_eq
    have hlt := k.random.isLt
    simp only [BitVec.toNat_umod, BitVec.toNat_add, BitVec.toNat_ofNat, Fin.val_add]
    simp
    omega
  · show (entry.hi &&& 0xFF#32).setWidth 8 = entry.hi.setWidth 8
    rw [BitVec.setWidth_and]
    exact BitVec.and_allOnes

/-- **Refill.**  After a miss on a present local page: the walk finds the entry, and
when its words are written, every address of the page goes to the page's frame; still
at most one entry matches a page and an address space, RANDOM stays a slot, and every
other translation is unchanged, or it used the replaced slot and misses. -/
theorem refill_correct (fp : Hardware.FpArith) (inp : Hardware.HostInput) (s : Hardware.Machine)
    (hiReg loReg : Reg) (space : AddressSpace) (t : PageTable) (e : PageTable.Entry)
    (vaddr : Word) (type : Hardware.LookupType) (f : Hardware.Fault) (hexl : s.exl = true)
    (hunique : s.tlb.Unambiguous)
    (hrandom : (s.cp0 Hardware.SYSRegister.RANDOM).toNat < Hardware.tlbEntries)
    (hlow : vaddr.toNat < 0x80000000) (htable : space.pageTable = some t)
    (hwalk : t.walkTable vaddr = .ok (some e)) (hpresent : e.present = true)
    (hlocal : e.global = false) (hpfn : e.pfn.toNat < 2 ^ 20)
    (hmiss : s.tlb.lookup vaddr type space.asid = .error f)
    (hhi : s.registerFile hiReg = (e.toTLBEntry (vaddr >>> 12) space.asid).hi)
    (hlo : s.registerFile loReg = (e.toTLBEntry (vaddr >>> 12) space.asid).lo) :
    space.translate vaddr = .ok (e.toTLBEntry (vaddr >>> 12) space.asid) ∧
      ∃ s', Instruction.runAll fp inp (TLBEntry.writeRandom hiReg loReg) s = .next () s' ∧
        (∀ (w : Word) type, w >>> 12 = vaddr >>> 12 →
          ∃ p, s'.tlb.translate w type space.asid = .ok p ∧
            p.toNat = e.pfn.toNat * 4096 + w.toNat % 4096) ∧
        s'.tlb.Unambiguous ∧
        (s'.cp0 Hardware.SYSRegister.RANDOM).toNat < Hardware.tlbEntries ∧
        ∀ (w : Word) b type, ¬ (w >>> 12 = vaddr >>> 12 ∧ b = space.asid) →
          s'.tlb.translate w type b = s.tlb.translate w type b ∨
            (Hardware.directMapped w = false ∧ s.tlb.slotFor w b =
                some ⟨(s.cp0 Hardware.SYSRegister.RANDOM).toNat, hrandom⟩ ∧
              s'.tlb.translate w type b = .error (Hardware.TLB.missFault w type)) := by
  refine ⟨?_, _, TLBEntry.runAll_writeRandom hexl hrandom, ?_⟩
  · rw [AddressSpace.translate, htable]
    simp only [hwalk, Except.ok_bind, if_pos hpresent]
  rw [hhi, hlo]
  have hnone := Hardware.TLB.slotFor_of_lookup hmiss
  have hmisses : ∀ key, (e.unpacked vaddr space.asid).serves key = true →
      Associative.find Hardware.TLBEntry.serves s.tlb key = none := by
    intro key hkey
    obtain ⟨w, b⟩ := key
    obtain ⟨hpage, rfl⟩ := (unpacked_serves hlocal).mp hkey
    exact (Hardware.TLB.slotFor_page hpage).trans hnone
  have hunique' := hunique.replace (r := ⟨_, hrandom⟩) hmisses
  refine ⟨fun w type hpage => ?_, hunique', ?_, fun w b type hother => ?_⟩
  · refine ⟨_, Hardware.TLB.translate_replace_covered
      ((Hardware.TLB.slotFor_page hpage).trans hnone) (unpacked_serves_page hpage)
      (mapped_of_page hlow hpage), ?_⟩
    have hframe : (Hardware.TLBEntry.ofHiLo (e.toTLBEntry (vaddr >>> 12) space.asid).hi
        (e.toTLBEntry (vaddr >>> 12) space.asid).lo).pfn = e.pfn :=
      TLBEntry.pfn_ofHiLo _ _ _ _ (Nat.lt_trans hpfn (by decide))
    rw [Hardware.frame_offset_toNat, hframe, Nat.mod_eq_of_lt hpfn]
    rfl
  · show ((s.cp0 Hardware.SYSRegister.RANDOM + 1#32) % 64#32).toNat < 64
    rw [BitVec.toNat_umod]
    exact Nat.mod_lt _ (by decide)
  · refine Hardware.TLB.translate_replace_other hunique ?_
    rw [Bool.eq_false_iff]
    exact fun hserves => hother ((unpacked_serves hlocal).mp hserves)

/-- The page of the first frame behind a kernel image of one page. -/
def textEntry : PageTable.Entry :=
  .construct 1#32 (PageTable.Entry.USER ||| PageTable.Entry.PRESENT)

/-- The kernel before the first instruction of `writeRandom`. -/
def refillMachine : Hardware.Machine :=
  (((Hardware.Machine.construct 0x80000000#32 0x80000100#32 (fun _ => 0) {}).setCp0
    Hardware.SYSRegister.STATUS 2#32).setReg Register.V0
      (textEntry.toTLBEntry (0x400000#32 >>> 12) 0).hi).setReg Register.V1
        (textEntry.toTLBEntry (0x400000#32 >>> 12) 0).lo

/-- The constructor of the page table makes this entry. -/
theorem textTable_made :
    ∃ t m, HashPageTable.construct 1 0 0 0 (.construct 0x80001000#32) = .ok (t, m) ∧
      t.walkTable 0x400000#32 = .ok (some textEntry) := by
  have hmade : (HashPageTable.construct 1 0 0 0 (.construct 0x80001000#32)).toOption.any
      (fun r => (r.1.walkTable 0x400000#32).toOption.join == some textEntry) = true := by
    decide +kernel
  obtain ⟨⟨t, m⟩, ht, hwalk⟩ := (Option.any_eq_true _ _).mp hmade
  exact ⟨t, m, SharedResources.toOption_eq_some ht, SharedResources.toOption_eq_some
    (Option.join_eq_some_iff.mp (beq_iff_eq.mp hwalk))⟩

/-- The first refill of a process with one page of text. -/
theorem refill_correct_text :
    ∃ t m space s', HashPageTable.construct 1 0 0 0 (.construct 0x80001000#32) = .ok (t, m) ∧
      space = ({ pageTable := some (.hash t), brk := 0, asid := 0 } : AddressSpace) ∧
      space.translate 0x400000#32 = .ok (textEntry.toTLBEntry (0x400000#32 >>> 12) 0) ∧
      Instruction.runAll ⟨fun _ a _ => a, fun _ a _ => a⟩ {}
        (TLBEntry.writeRandom Register.V0 Register.V1) refillMachine = .next () s' ∧
      ∃ p, s'.tlb.translate 0x400010#32 .load 0 = .ok p ∧ p.toNat = 4096 + 16 := by
  obtain ⟨t, m, ht, hfind⟩ := textTable_made
  have hunique : refillMachine.tlb.Unambiguous := by
    intro key i j hi
    rw [Hardware.TLBEntry.serves, Hardware.TLBEntry.covers,
      show (refillMachine.tlb i).valid = false from rfl, Bool.and_false, Bool.false_and] at hi
    cases hi
  have hmiss : refillMachine.tlb.lookup 0x400000#32 .load 0 =
      .error (Hardware.TLB.missFault 0x400000#32 .load) := rfl
  obtain ⟨htranslate, s', hrun, hpage, -⟩ :=
    refill_correct ⟨fun _ a _ => a, fun _ a _ => a⟩ {} refillMachine Register.V0 Register.V1
      { pageTable := some (.hash t), brk := 0, asid := 0 } (.hash t) textEntry 0x400000#32
      .load _ rfl hunique (by decide) (by decide) rfl hfind rfl rfl (by decide) hmiss rfl rfl
  exact ⟨t, m, _, s', ht, rfl, htranslate, hrun, hpage 0x400010#32 .load (by decide)⟩

end Kernel
