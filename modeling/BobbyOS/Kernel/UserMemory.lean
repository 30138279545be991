import BobbyOS.Kernel.SparedMemory
import BobbyOS.Machine.Simulation

/-!
# The memory of a process

The bytes that a process has are the ones of its own pages, below the direct map.  The
page table places them in frames of the physical memory, and the TLB shows a part of
that placement.  This is what the machine's side of the development asks of a frame map.

* `exists_placed`: every process of a sound kernel has its pages placed;
* `shows_current`: so the TLB shows them under either identifier that ENTRYHI may have;
* `userMemory_grown`: pages that are added leave the others where they are.
-/

namespace Kernel

open SharedResources

variable {s : KernelState} {k : SharedResources} {t : HashPageTable} {p : PCB}
  {space : AddressSpace} {map : Hardware.FrameMap} {mem mem' : Hardware.Memory}
  {page vaddr : Word} {f n : Nat}

/-- The byte that a process has at an address. -/
def AddressSpace.userMemory (space : AddressSpace) (mem : Hardware.Memory) (vaddr : Word) :
    Option Byte :=
  if Hardware.userAddress vaddr then
    space.pageTable.bind fun t => t.virtualByte mem vaddr
  else none

/-- The frame of a page. -/
def HashPageTable.frameOf (t : HashPageTable) (page : Word) : Option Nat :=
  match t.table.find page with
  | .ok (some e) => some e.pfn.toNat
  | _ => none

/-- The frame of a page is that of its entry. -/
theorem frameOf_eq_some (hwf : t.table.WF) :
    t.frameOf page = some f ↔ ∃ e, (page, e) ∈ t.entries ∧ e.pfn.toNat = f := by
  obtain ⟨o, hfind, ho⟩ := hwf.find page
  rw [HashPageTable.frameOf, hfind]
  constructor
  · intro h
    cases o with
    | none => cases h
    | some e => exact ⟨e, (ho e).mp rfl, Option.some.inj h⟩
  · rintro ⟨e, hentry, rfl⟩
    rw [(ho e).mpr hentry]

/-- The frame of an entry is one of the table's. -/
theorem pfn_mem_frames {e : PageTable.Entry} (h : (page, e) ∈ t.entries) :
    e.pfn.toNat ∈ t.frames :=
  List.mem_map_of_mem (f := fun kv => kv.2.pfn.toNat) h

/-- The address space has its pages where the map has them. -/
structure AddressSpace.Placed (space : AddressSpace) (map : Hardware.FrameMap) : Prop where
  memory : ∀ mem, map.memory mem = space.userMemory mem
  owns : ∀ {f : Nat}, map.Owns f → space.Owns f
  shows : ∀ {tlb : Hardware.TLB}, Truthful space tlb → map.Shows tlb space.asid

/-- A table whose frames are different ones in the memory. -/
def HashPageTable.frameMap (t : HashPageTable) (hwf : t.table.WF)
    (hbound : ∀ f ∈ t.frames, f < numPages) (hnodup : t.frames.Nodup) : Hardware.FrameMap where
  frame := t.frameOf
  bounded h := by
    obtain ⟨e, hentry, rfl⟩ := (frameOf_eq_some hwf).mp h
    have hlt := hbound _ (pfn_mem_frames hentry)
    unfold numPages at hlt
    unfold Hardware.pageSize Hardware.physMemSize
    omega
  injective h h' := by
    obtain ⟨e, hentry, rfl⟩ := (frameOf_eq_some hwf).mp h
    obtain ⟨e', hentry', heq⟩ := (frameOf_eq_some hwf).mp h'
    have hsame := List.inj_on_of_nodup_map hnodup hentry hentry' heq.symm
    exact congrArg Prod.fst hsame

/-- A frame number is not cut off. -/
theorem pfn_mod (h : f < numPages) : f % 2 ^ 20 = f :=
  Nat.mod_eq_of_lt (Nat.lt_trans h (by decide))

/-- What the page table finds is what the map has. -/
theorem location_frameMap (husable : t.Usable) (hbound : ∀ f ∈ t.frames, f < numPages)
    (hnodup : t.frames.Nodup) (vaddr : Word) :
    (t.frameMap husable.wf hbound hnodup).location vaddr = (PageTable.hash t).physical vaddr := by
  apply Option.ext
  intro x
  rw [Hardware.FrameMap.location_eq_some, PageTable.physical_eq_some]
  constructor
  · rintro ⟨f, hf, rfl⟩
    obtain ⟨e, hentry, rfl⟩ := (frameOf_eq_some husable.wf).mp hf
    have hsmall := pfn_mod (hbound _ (pfn_mem_frames hentry))
    refine ⟨e, (HashPageTable.walkTable_eq_some husable.wf).mpr hentry,
      (husable.regular _ hentry).1, ?_⟩
    rw [hsmall]
  · rintro ⟨e, hwalk, -, rfl⟩
    have hentry := (HashPageTable.walkTable_eq_some husable.wf).mp hwalk
    have hsmall := pfn_mod (hbound _ (pfn_mem_frames hentry))
    refine ⟨e.pfn.toNat, (frameOf_eq_some husable.wf).mpr ⟨e, hentry, rfl⟩, ?_⟩
    rw [hsmall]

/-- **Placed.**  The pages of every process are in frames of its own. -/
theorem exists_placed (h : k.Sane) (hp : k.procAt n = some p) :
    ∃ map, p.addrSpace.Placed map := by
  have hlive := mem_live (procAt_iff.mp hp)
  obtain ⟨t, ht, husable⟩ := h.tables p hlive
  have hbound : ∀ f ∈ t.frames, f < numPages := by
    intro f hf
    apply h.frames_lt hlive
    rwa [PCB.frames_hash ht]
  have hnodup : t.frames.Nodup := by
    have hall := (List.nodup_append.mp h.frames.nodup).2.1
    rw [← PCB.frames_hash ht]
    exact (List.nodup_flatMap.mp hall).1 p hlive
  have hlocation := location_frameMap husable hbound hnodup
  refine ⟨t.frameMap husable.wf hbound hnodup, fun mem => ?_, fun {f} hf => ?_,
    fun {tlb} htlb => ?_⟩
  · funext vaddr
    rw [Hardware.FrameMap.memory, AddressSpace.userMemory, ht, hlocation]
    split
    · show _ = ((PageTable.hash t).physical vaddr).bind (physicalByte mem)
      cases hx : (PageTable.hash t).physical vaddr with
      | none => rfl
      | some x =>
          have hroom : vaddr.toNat % Hardware.pageSize + 0 < Hardware.pageSize :=
            Nat.mod_lt _ (by decide)
          have hlt := Hardware.FrameMap.location_bound hroom ((hlocation vaddr).trans hx)
          rw [Nat.add_zero] at hlt
          rw [Option.map_some, Option.bind_some, physicalByte, if_pos hlt]
    · rfl
  · obtain ⟨page, hpage⟩ := hf
    obtain ⟨e, hentry, rfl⟩ := (frameOf_eq_some husable.wf).mp hpage
    exact ⟨t, ht, pfn_mem_frames hentry⟩
  · intro i vaddr hv hcovers
    obtain ⟨t', e, ht', hwalk, -, hpfn⟩ := htlb i vaddr hv hcovers
    obtain rfl := Option.some.inj (ht.symm.trans ht')
    have hentry := (HashPageTable.walkTable_eq_some husable.wf).mp hwalk
    rw [Hardware.covers_page hcovers, TLBEntry.page_page] at hentry
    exact (frameOf_eq_some husable.wf).mpr ⟨e, hentry, congrArg BitVec.toNat hpfn⟩

/-- Under the identifier of the kernel nothing is shown. -/
theorem shows_kernel (hs : Walled s) (map : Hardware.FrameMap) : map.Shows s.tlb KERNEL_ASID := by
  intro i vaddr hv hcovers
  rw [not_covers_kernel hs i hv] at hcovers
  cases hcovers

/-- **Shown.**  The TLB shows the pages of a process, whether ENTRYHI has the identifier of
the process or the one that a miss of the kernel has left there. -/
theorem shows_current (hs : Walled s) (hcoherent : Coherent s) (hp : s.shared.procAt n = some p)
    (hplaced : p.addrSpace.Placed map)
    (hasid : s.asid = p.addrSpace.asid ∨ s.asid = KERNEL_ASID) : map.Shows s.tlb s.asid := by
  rcases hasid with h | h
  · rw [h]
    exact hplaced.shows (truthful_of_walled hs hcoherent hp)
  · rw [h]
    exact shows_kernel hs map

/-- The bytes of the frames decide the bytes of the process. -/
theorem userMemory_congr (h : k.Sane) (hp : k.procAt n = some p)
    (hmem : ∀ x, p.addrSpace.Owns (x / Hardware.pageSize) → mem' x = mem x) :
    p.addrSpace.userMemory mem' = p.addrSpace.userMemory mem := by
  obtain ⟨map, hplaced⟩ := exists_placed h hp
  funext vaddr
  rw [← hplaced.memory, ← hplaced.memory, Hardware.FrameMap.memory, Hardware.FrameMap.memory]
  split
  · cases hx : map.location vaddr with
    | none => rfl
    | some x => rw [Option.map_some, Option.map_some, hmem x (hplaced.owns (map.location_owned hx))]
  · rfl

/-- **Growth.**  A process that gets pages keeps the bytes that it has. -/
theorem userMemory_grown {q : PCB} {t' : HashPageTable} {fs : List Nat} {b : Byte}
    (h : Grown p t vaddr fs q t') (ht : t.Usable) (ht' : t'.Usable) {w : Word}
    (hb : p.addrSpace.userMemory mem w = some b) : q.addrSpace.userMemory mem w = some b := by
  unfold AddressSpace.userMemory at hb ⊢
  split at hb
  case isFalse => cases hb
  case isTrue hv =>
    rw [if_pos hv]
    rw [h.before, Option.bind_some] at hb
    rw [h.after, Option.bind_some]
    obtain ⟨x, hx, hbyte⟩ := Option.bind_eq_some_iff.mp hb
    obtain ⟨e, hwalk, hpresent, rfl⟩ := PageTable.physical_eq_some.mp hx
    have hentry := (HashPageTable.walkTable_eq_some ht.wf).mp hwalk
    have hentry' := h.entries.mem_iff.mpr (List.mem_append_right _ hentry)
    refine Option.bind_eq_some_iff.mpr ⟨_, PageTable.physical_eq_some.mpr ⟨e, ?_, hpresent, rfl⟩,
      hbyte⟩
    exact (HashPageTable.walkTable_eq_some ht'.wf).mpr hentry'

end Kernel
