import BobbyOS.Kernel.Loading

/-!
# The pages of `.bss`

`createProcess` counts the pages of the static segment from the sizes of `.data` and
`.bss` alone; where `.bss` starts is recorded and not used.  The bytes between the two
sections are missing from the count, and so is the wrap of the sum.

* `Pages.mapped_iff`: the addresses that a new process can use;
* `bss_mapped_iff`: when `.bss` is on pages of the static segment.
-/

namespace Kernel

open SharedResources MemoryManager Run

variable {file path : List Byte} {t : HashPageTable} {vaddr : Word}

/-- An address has a byte behind it. -/
def HashPageTable.Mapped (t : HashPageTable) (vaddr : Word) : Prop :=
  ∃ x, (PageTable.hash t).physical vaddr = some x

/-- The linker puts `.data` at the start of the static segment, and `.bss` behind it at
the next multiple of some alignment. -/
structure Executable.LaidOut (file : List Byte) : Prop where
  data : (Executable.data file).addr = STATIC_START
  bss : ∃ align, 0 < align ∧ (Executable.bss file).addr.toNat =
    (STATIC_START.toNat + (Executable.data file).size.toNat + (align - 1)) / align * align

/-- All bytes of `.bss` are there, and on no page of the heap. -/
def BssMapped (file : List Byte) (t : HashPageTable) : Prop :=
  ∀ i < (Executable.bss file).size.toNat,
    let a := (Executable.bss file).addr + BitVec.ofNat 32 i
    t.Mapped a ∧ a >>> 12 < BRK_DEFAULT >>> 12

/-- The end of `.bss` is within the pages that are counted, and before the heap. -/
def BssFits (file : List Byte) : Prop :=
  let s := Executable.bss file
  let pages := ((Executable.data file).size + s.size).toNat / 4096 + 1
  s.size = 0 ∨ s.addr.toNat + s.size.toNat ≤ STATIC_START.toNat + 4096 * pages ∧
    s.addr.toNat + s.size.toNat ≤ BRK_DEFAULT.toNat

/-- The bss begins behind the data. -/
theorem Executable.LaidOut.behind_data (h : Executable.LaidOut file) :
    STATIC_START.toNat + (Executable.data file).size.toNat ≤
      (Executable.bss file).addr.toNat := by
  obtain ⟨align, hpos, heq⟩ := h.bss
  have hup := Nat.lt_div_mul_add (a := STATIC_START.toNat + (Executable.data file).size.toNat +
    (align - 1)) hpos
  omega

/-- It lies in the static pages. -/
theorem Executable.LaidOut.start_le (h : Executable.LaidOut file) :
    STATIC_START.toNat ≤ (Executable.bss file).addr.toNat :=
  Nat.le_trans (Nat.le_add_right _ _) h.behind_data

namespace SharedResources

variable {k k' k0 : SharedResources} {vm : Tunnel} {brk0 pid imageEnd : Word}
  {physMem : Hardware.Memory} {info : ExecutableInfo} {text static stack : List Nat}

/-- **Addresses.**  The text, the static data and four pages of stack. -/
theorem Pages.mapped_iff (h : Pages info t text static stack) : t.Mapped vaddr ↔
    0x400 ≤ vaddr.toNat / 4096 ∧ vaddr.toNat / 4096 < 0x400 + text.length ∨
    0x10000 ≤ vaddr.toNat / 4096 ∧ vaddr.toNat / 4096 < 0x10000 + static.length ∨
    0x7FFFC ≤ vaddr.toNat / 4096 ∧ vaddr.toNat / 4096 < 0x80000 := by
  have hshort := h.short
  have hstack := h.stackPages
  unfold numPages at hshort
  have hpage : (vaddr >>> 12).toNat = vaddr.toNat / 4096 := by
    rw [BitVec.toNat_ushiftRight, Nat.shiftRight_eq_div_pow]
  have hmapped : t.Mapped vaddr ↔
      vaddr >>> 12 ∈ (HashPageTable.initialPages text static stack).map Prod.fst := by
    rw [List.mem_map]
    constructor
    · rintro ⟨x, hx⟩
      obtain ⟨e, he, -⟩ := h.apart.physical_iff.mp hx
      exact ⟨_, h.entries.mem_iff.mp he, rfl⟩
    · rintro ⟨⟨vpn, e⟩, he, rfl⟩
      have hpresent := (initialPages_regular (by unfold numPages; omega) _ he).1
      exact ⟨_, h.apart.physical_iff.mpr ⟨e, h.entries.mem_iff.mpr he, hpresent, rfl⟩⟩
  have hkey {vpn : Nat → Word} {i n base : Nat} (hvpn : ∀ j < i + n, (vpn j).toNat = base + j) :
      (∃ j, i ≤ j ∧ j < i + n ∧ vaddr >>> 12 = vpn j) ↔
        base + i ≤ vaddr.toNat / 4096 ∧ vaddr.toNat / 4096 < base + (i + n) := by
    constructor
    · rintro ⟨j, hij, hj, heq⟩
      rw [← hpage, heq, hvpn j hj]
      omega
    · rintro ⟨hlow, hhigh⟩
      refine ⟨vaddr.toNat / 4096 - base, by omega, by omega, BitVec.eq_of_toNat_eq ?_⟩
      rw [hpage, hvpn _ (by omega)]
      omega
  -- the pages of the stack are counted downwards
  have hstackKey : (∃ j, 1 ≤ j ∧ j < 1 + stack.length ∧
      vaddr >>> 12 = HashPageTable.stackVpn j) ↔
        0x7FFFC ≤ vaddr.toNat / 4096 ∧ vaddr.toNat / 4096 < 0x80000 := by
    constructor
    · rintro ⟨j, hij, hj, heq⟩
      rw [← hpage, heq, HashPageTable.stackVpn_toNat (by omega)]
      omega
    · rintro ⟨hlow, hhigh⟩
      refine ⟨0x80000 - vaddr.toNat / 4096, by omega, by omega, BitVec.eq_of_toNat_eq ?_⟩
      rw [hpage, HashPageTable.stackVpn_toNat (by omega)]
      omega
  have htext := hkey (i := 0) (n := text.length) fun j hj =>
    HashPageTable.textVpn_toNat (i := j) (by omega)
  have hstatic := hkey (i := 0) (n := static.length) fun j hj =>
    HashPageTable.staticVpn_toNat (i := j) (by omega)
  rw [hmapped, HashPageTable.initialPages, List.map_append, List.map_append, List.mem_append,
    List.mem_append, HashPageTable.mem_map_fst_pagesAt, HashPageTable.mem_map_fst_pagesAt,
    HashPageTable.mem_map_fst_pagesAt, hstackKey, htext, hstatic]
  omega

/-- Before the heap only the static pages count. -/
theorem Pages.below_heap_iff (h : Pages info t text static stack)
    (hstart : STATIC_START.toNat ≤ vaddr.toNat) :
    t.Mapped vaddr ∧ vaddr >>> 12 < BRK_DEFAULT >>> 12 ↔
      vaddr.toNat < STATIC_START.toNat + 4096 * static.length ∧
        vaddr.toNat < BRK_DEFAULT.toNat := by
  have hshort := h.short
  unfold numPages at hshort
  have hconst : STATIC_START.toNat = 0x10000000 ∧ BRK_DEFAULT.toNat = 0x10008000 := ⟨rfl, rfl⟩
  have hheap : vaddr >>> 12 < BRK_DEFAULT >>> 12 ↔ vaddr.toNat / 4096 < 0x10008 := by
    rw [BitVec.lt_def, BitVec.toNat_ushiftRight, Nat.shiftRight_eq_div_pow]
    exact Iff.rfl
  rw [h.mapped_iff, hheap, hconst.1, hconst.2]
  omega

/-- The bss has its pages exactly if it fits into those that are made. -/
theorem Pages.bssMapped_iff (h : Pages (Executable.info file) t text static stack)
    (hstart : STATIC_START.toNat ≤ (Executable.bss file).addr.toNat) :
    BssMapped file t ↔ BssFits file := by
  have hconst : STATIC_START.toNat = 0x10000000 ∧ BRK_DEFAULT.toNat = 0x10008000 := ⟨rfl, rfl⟩
  have hstatic : static.length =
      ((Executable.data file).size + (Executable.bss file).size).toNat / 4096 + 1 := h.staticPages
  have haddr := (Executable.bss file).addr.isLt
  have hbyte (i : Nat) (hi : (Executable.bss file).addr.toNat + i < 2 ^ 32) :
      ((Executable.bss file).addr + BitVec.ofNat 32 i).toNat =
        (Executable.bss file).addr.toNat + i := add_ofNat_toNat hi
  constructor
  · intro hmapped
    rw [BssFits, ← hstatic]
    by_cases hempty : (Executable.bss file).size = 0
    · exact Or.inl hempty
    · have hpos : (Executable.bss file).size.toNat ≠ 0 := fun hzero =>
        hempty (BitVec.eq_of_toNat_eq hzero)
      have hnowrap : (Executable.bss file).addr.toNat + (Executable.bss file).size.toNat ≤
          2 ^ 32 := by
        by_contra hwrap
        -- the last address of all is on no page below the heap
        have hlast := hmapped (2 ^ 32 - 1 - (Executable.bss file).addr.toNat) (by omega)
        have htop := hbyte (2 ^ 32 - 1 - (Executable.bss file).addr.toNat) (by omega)
        have hbelow := ((h.below_heap_iff (by omega)).mp hlast).2
        omega
      have hlast := hmapped ((Executable.bss file).size.toNat - 1) (by omega)
      have htop := hbyte ((Executable.bss file).size.toNat - 1) (by omega)
      have hbelow := (h.below_heap_iff (by omega)).mp hlast
      exact Or.inr ⟨by omega, by omega⟩
  · intro hfits i hi
    rw [BssFits, ← hstatic] at hfits
    rcases hfits with hempty | ⟨hpages, hheap⟩
    · rw [hempty] at hi
      exact absurd hi (Nat.not_lt_zero _)
    · have htop := hbyte i (by omega)
      exact (h.below_heap_iff (by omega)).mpr ⟨by omega, by omega⟩

/-- Behind `.data` the frames of a new process keep what they had. -/
theorem Loaded.kept {p : PCB} {r : Reader}
    (h : Loaded k vm path pid k' info r p t text static stack)
    (hserves : Serves vm (.fopen path 0 :: k.log) file)
    (hbehind : STATIC_START.toNat + info.dataSize.toNat ≤ vaddr.toNat) :
    (PageTable.hash t).virtualByte k'.physMem vaddr =
      (PageTable.hash t).virtualByte k.physMem vaddr := by
  have hconst : TEXT_START.toNat = 0x400000 ∧ STATIC_START.toNat = 0x10000000 := ⟨rfl, rfl⟩
  have hshort := h.pages.short
  have hdata := h.pages.data
  rw [h.pages.textPages] at hshort
  unfold numPages at hshort
  rw [PageTable.virtualByte, PageTable.virtualByte]
  cases hx : (PageTable.hash t).physical vaddr with
  | none => rfl
  | some x =>
      have hsame : k'.physMem x = k.physMem x := by
        by_contra hne
        obtain ⟨a, hcovers, ha⟩ := (h.spec hserves).2.2.2 x hne
        obtain rfl := h.pages.apart.injective hx ha
        rcases hcovers with ⟨i, hi, rfl⟩ | ⟨i, hi, rfl⟩
        · rw [add_ofNat_toNat (by omega)] at hbehind
          omega
        · rw [add_ofNat_toNat (by omega)] at hbehind
          omega
      rw [Option.bind_some, Option.bind_some, physicalByte, physicalByte, hsame]

/-- **`.bss`.**  All of `.bss` is mapped, outside the heap, exactly when it ends within
the pages that the sizes of `.data` and `.bss` give, and before the heap. -/
theorem bss_mapped_iff (hboot : construct imageEnd brk0 physMem = .ok k0)
    (hrun : Reaches Step (fun _ _ => True) k0 k)
    (hserves : Serves vm (.fopen path 0 :: k.log) file) (hlaid : Executable.LaidOut file)
    {brk : Word} (hcreate : k.createProcess vm path brk = .ok (pid, k'))
    (hpid : pid ≠ NOPCBEXISTS) :
    ∃ p t, k'.processes[pid.toNat]? = some (some p) ∧ p.addrSpace.pageTable = some (.hash t) ∧
      (BssMapped file t ↔ BssFits file) := by
  obtain ⟨info, r, p, t, text, static, stack, hloaded⟩ :=
    createProcess_loaded hcreate (invariant_of_reaches hboot hrun) hpid
  obtain ⟨rfl, -⟩ := hloaded.spec hserves
  exact ⟨p, t, hloaded.here, hloaded.table, hloaded.pages.bssMapped_iff hlaid.start_le⟩

/-- The sections of the small program fit. -/
theorem smallProgram_bss_mapped : ∃ k0 k' p t,
    firstProcess (fileHost smallProgram 200) = some (k0, 0, k') ∧
    k'.processes[0]? = some (some p) ∧ p.addrSpace.pageTable = some (.hash t) ∧
      BssFits smallProgram ∧ (BssMapped smallProgram t ↔ BssFits smallProgram) := by
  have hruns : (firstProcess (fileHost smallProgram 200)).any (fun r => r.2.1 == 0) = true := by
    decide +kernel
  obtain ⟨⟨k0, pid, k'⟩, hfirst, hpid⟩ := (Option.any_eq_true _ _).mp hruns
  obtain rfl := eq_of_beq hpid
  obtain ⟨hboot, hcreate⟩ := firstProcess_spec hfirst
  have hlaid : Executable.LaidOut smallProgram :=
    ⟨by decide +kernel, 4, by decide, by decide +kernel⟩
  obtain ⟨p, t, hhere, ht, hiff⟩ :=
    bss_mapped_iff hboot .refl fileHost_serves hlaid hcreate (by decide)
  exact ⟨k0, k', p, t, hfirst, hhere, ht, by unfold BssFits; decide +kernel, hiff⟩

/-- One byte of data, and at the next multiple of four 4093 bytes of bss: 4094 bytes are
counted as one page. -/
def paddedProgram : List Byte := Executable.build 0x400000 [] [1] 0x10000004 4093

/-- The last byte of `.bss` is on a page that is not there. -/
theorem padded_bss_not_mapped : ¬ ∀ imageEnd brk0 physMem k0 k vm path file brk pid k',
    construct imageEnd brk0 physMem = .ok k0 → Reaches Step (fun _ _ => True) k0 k →
    Serves vm (.fopen path 0 :: k.log) file → Executable.LaidOut file →
    k.createProcess vm path brk = .ok (pid, k') → pid ≠ NOPCBEXISTS →
    ∃ p t, k'.processes[pid.toNat]? = some (some p) ∧ p.addrSpace.pageTable = some (.hash t) ∧
      BssMapped file t := by
  intro hall
  have hruns : (firstProcess (fileHost paddedProgram 256)).any (fun r => r.2.1 == 0) = true := by
    decide +kernel
  obtain ⟨⟨k0, pid, k'⟩, hfirst, hpid⟩ := (Option.any_eq_true _ _).mp hruns
  obtain rfl := eq_of_beq hpid
  obtain ⟨hboot, hcreate⟩ := firstProcess_spec hfirst
  have hlaid : Executable.LaidOut paddedProgram :=
    ⟨by decide +kernel, 4, by decide, by decide +kernel⟩
  have hnot : ¬ BssFits paddedProgram := by
    unfold BssFits
    decide +kernel
  have hrun : Reaches Step (fun _ _ => True) k0 k0 := .refl
  obtain ⟨info, r, p, t, text, static, stack, hloaded⟩ :=
    createProcess_loaded hcreate (invariant_of_reaches hboot hrun) (by decide)
  obtain ⟨rfl, -⟩ := hloaded.spec fileHost_serves
  obtain ⟨q, t', hq, ht', hmapped⟩ :=
    hall _ _ _ _ _ _ _ _ _ _ _ hboot hrun fileHost_serves hlaid hcreate (by decide)
  obtain rfl := Option.some.inj (Option.some.inj (hloaded.here.symm.trans hq))
  obtain rfl := PageTable.hash.inj (Option.some.inj (hloaded.table.symm.trans ht'))
  exact hnot ((hloaded.pages.bssMapped_iff hlaid.start_le).mp hmapped)

end SharedResources

end Kernel
