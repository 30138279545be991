import BobbyOS.Kernel.BssPages

/-!
# The startup of a user program

The kernel leaves `.bss` as it finds the frames, and `bootuserprog` is meant to clear it
before the first constructor runs.  It declares the linker's symbols as pointers, so that
what it takes for the bounds are the words that are stored at the start and at the end of
`.bss`: whatever is in the frames.

* `zeroLoop_spec`: what the loop leaves in front of the word it compares with;
* `bss_zero_iff`: which earlier contents of the frames end in a `.bss` of zeros.
-/

namespace Programs

open Kernel Kernel.SharedResources Run

/-- A byte store of a process; an address without a page faults. -/
def storeByte (t : PageTable) (mem : Hardware.Memory) (a : Word) (b : Byte) :
    Option Hardware.Memory :=
  (t.physical a).bind fun x =>
    if x < Hardware.physMemSize then some (Function.update mem x b) else none

/-- A word load of a process. -/
def loadWord (t : PageTable) (mem : Hardware.Memory) (a : Word) : Option Word :=
  if a.toNat % 4 = 0 then do
    let b0 ← t.virtualByte mem a
    let b1 ← t.virtualByte mem (a + 1#32)
    let b2 ← t.virtualByte mem (a + 2#32)
    let b3 ← t.virtualByte mem (a + 3#32)
    some (Hardware.loadBigEndian b0 b1 b2 b3)
  else none

/-- `for (; curr < _end; ++curr) *curr = 0;`, where `_end` is the word at `endSymbol`. -/
def zeroLoop (t : PageTable) (endSymbol : Word) :
    Nat → Word → Hardware.Memory → Option Hardware.Memory
  | 0, _, _ => none
  | rounds + 1, curr, mem => do
      let bound ← loadWord t mem endSymbol
      if curr < bound then
        let mem ← storeByte t mem curr 0
        zeroLoop t endSymbol rounds (curr + 1) mem
      else some mem

/-- `bootuserprog` up to the first constructor, for the addresses that the linker gives
to `_bss_start` and `_end`.  There is no such point when an access faults. -/
def bootuserprog (t : PageTable) (startSymbol endSymbol : Word) (mem : Hardware.Memory) :
    Option Hardware.Memory := do
  let curr ← loadWord t mem startSymbol
  zeroLoop t endSymbol (2 ^ 32) curr mem

variable {t : HashPageTable} {mem mem' : Hardware.Memory} {a e curr bound : Word} {b : Byte}

/-! ### The loop -/

/-- The pointer's next address does not wrap. -/
theorem toNat_succ (h : curr < bound) : (curr + 1).toNat = curr.toNat + 1 := by
  have hlt := BitVec.lt_def.mp h
  have hbound := bound.isLt
  rw [BitVec.toNat_add]
  show (curr.toNat + 1) % 2 ^ 32 = curr.toNat + 1
  omega

/-- The pointer cannot go round, so a bound on the rounds is no bound on the loop. -/
theorem zeroLoop_rounds {t : PageTable} {rounds rounds' : Nat}
    (h : 2 ^ 32 - curr.toNat ≤ rounds) (h' : 2 ^ 32 - curr.toNat ≤ rounds') :
    zeroLoop t e rounds curr mem = zeroLoop t e rounds' curr mem := by
  induction rounds generalizing rounds' curr mem with
  | zero =>
      have hcurr := curr.isLt
      omega
  | succ rounds ih =>
      have hcurr := curr.isLt
      obtain ⟨rounds', rfl⟩ : ∃ n, rounds' = n + 1 := ⟨rounds' - 1, by omega⟩
      rw [zeroLoop, zeroLoop]
      cases hload : loadWord t mem e with
      | none => rfl
      | some bound =>
          simp only [Option.bind_eq_bind, Option.bind_some]
          split
          case isFalse => rfl
          case isTrue hlt =>
            have hsucc := toNat_succ hlt
            congr 1
            funext mem1
            exact ih (by omega) (by omega)

/-- One byte of the virtual memory changes. -/
theorem virtualByte_storeByte (hd : t.Apart) (h : storeByte (.hash t) mem curr b = some mem') :
    (PageTable.hash t).virtualByte mem' a =
      if a = curr then some b else (PageTable.hash t).virtualByte mem a := by
  obtain ⟨x, hx, h⟩ := Option.bind_eq_some_iff.mp h
  obtain ⟨hlt, h⟩ := Option.ite_none_right_eq_some.mp h
  obtain rfl := Option.some.inj h
  by_cases ha : a = curr
  · rw [if_pos ha, ha, PageTable.virtualByte, hx, Option.bind_some, physicalByte, if_pos hlt,
      Function.update_self]
  · rw [if_neg ha, PageTable.virtualByte, PageTable.virtualByte]
    cases hy : (PageTable.hash t).physical a with
    | none => rfl
    | some y =>
        have hne : y ≠ x := fun hyx => ha (hd.injective hy (hyx ▸ hx))
        rw [Option.bind_some, Option.bind_some, physicalByte, physicalByte,
          Function.update_of_ne hne]

/-- A loaded word depends on its four bytes. -/
theorem loadWord_congr {t : PageTable} (h : ∀ j < 4, a.toNat % 4 = 0 →
    t.virtualByte mem' (a + BitVec.ofNat 32 j) = t.virtualByte mem (a + BitVec.ofNat 32 j)) :
    loadWord t mem' a = loadWord t mem a := by
  unfold loadWord
  split
  case isFalse => rfl
  case isTrue halign =>
    have h0 := h 0 (by decide) halign
    have h1 := h 1 (by decide) halign
    have h2 := h 2 (by decide) halign
    have h3 := h 3 (by decide) halign
    rw [BitVec.add_zero] at h0
    rw [h0, h1, h2, h3]

/-- A loop that ends has read the word with the bound. -/
theorem zeroLoop_reads {t : PageTable} {rounds : Nat}
    (h : zeroLoop t e rounds curr mem = some mem') : ∃ bound, loadWord t mem e = some bound := by
  cases rounds with
  | zero => cases h
  | succ rounds =>
      obtain ⟨bound, hbound, -⟩ := Option.bind_eq_some_iff.mp h
      exact ⟨bound, hbound⟩

/-- **Loop.**  Below the word with the bound, the bytes from the pointer up to the bound
are zero afterwards and the others are as before: the bound changes only when the pointer
has come to it. -/
theorem zeroLoop_spec {rounds : Nat} (hd : t.Apart)
    (h : zeroLoop (.hash t) e rounds curr mem = some mem')
    (hbound : loadWord (.hash t) mem e = some bound) (ha : a < e) :
    (PageTable.hash t).virtualByte mem' a =
      if curr ≤ a ∧ a < bound then some 0 else (PageTable.hash t).virtualByte mem a := by
  induction rounds generalizing curr mem bound with
  | zero => cases h
  | succ rounds ih =>
      rw [zeroLoop, hbound] at h
      simp only [Option.bind_eq_bind, Option.bind_some] at h
      split at h
      case isFalse hend =>
        obtain rfl := Option.some.inj h
        rw [BitVec.lt_def] at hend
        rw [if_neg]
        intro hin
        exact hend (Nat.lt_of_le_of_lt (BitVec.le_def.mp hin.1) (BitVec.lt_def.mp hin.2))
      case isTrue hlt =>
        obtain ⟨mem1, hstore, h⟩ := Option.bind_eq_some_iff.mp h
        have hsucc := toNat_succ hlt
        have hbyte (a : Word) := virtualByte_storeByte (a := a) hd hstore
        rw [BitVec.lt_def] at hlt ha
        by_cases hbelow : curr < e
        · -- the word with the bound is not touched
          rw [BitVec.lt_def] at hbelow
          have hsame : loadWord (.hash t) mem1 e = some bound := by
            rw [← hbound]
            refine loadWord_congr fun j hj halign => ?_
            rw [hbyte, if_neg]
            intro heq
            have hnat := congrArg BitVec.toNat heq
            have he := e.isLt
            rw [add_ofNat_toNat (by omega)] at hnat
            omega
          rw [ih h hsame, hbyte]
          simp only [BitVec.le_def, BitVec.lt_def, ← BitVec.toNat_inj, hsucc]
          by_cases heq : a.toNat = curr.toNat
          · rw [if_neg (by omega), if_pos heq, if_pos (by omega)]
          · simp only [if_neg heq]
            exact if_congr (by omega) rfl rfl
        · rw [BitVec.lt_def] at hbelow
          obtain ⟨bound1, hnext⟩ := zeroLoop_reads h
          rw [ih h hnext, hbyte]
          simp only [BitVec.le_def, BitVec.lt_def, ← BitVec.toNat_inj, hsucc]
          rw [if_neg (by omega), if_neg (by omega), if_neg (by omega)]

/-! ### The section -/

variable {file path : List Byte} {m m' : Hardware.Memory}

/-- All of `.bss` is zero. -/
def BssZero (file : List Byte) (t : HashPageTable) (mem : Hardware.Memory) : Prop :=
  ∀ i < (Executable.bss file).size.toNat,
    (PageTable.hash t).virtualByte mem ((Executable.bss file).addr + BitVec.ofNat 32 i) = some 0

/-- Each byte of `.bss` is zero already, or lies between the addresses that happen to be
stored at the start and behind the end of `.bss`. -/
def BssCleared (file : List Byte) (t : HashPageTable) (mem : Hardware.Memory) : Prop :=
  let s := Executable.bss file
  s.addr.toNat + s.size.toNat < 2 ^ 32 ∧
    ∀ first bound, loadWord (.hash t) mem s.addr = some first →
      loadWord (.hash t) mem (s.addr + s.size) = some bound → ∀ i < s.size.toNat,
        (PageTable.hash t).virtualByte mem (s.addr + BitVec.ofNat 32 i) = some 0 ∨
          first ≤ s.addr + BitVec.ofNat 32 i ∧ s.addr + BitVec.ofNat 32 i < bound

/-- **Startup.**  The loop ends in a `.bss` of zeros exactly when the bytes are zero
already, or the words that it takes for the bounds are around them. -/
theorem bootuserprog_bssZero_iff (hd : t.Apart)
    (htop : ¬ t.Mapped 0xFFFFFFFF#32) (h : bootuserprog (.hash t) (Executable.bss file).addr
      ((Executable.bss file).addr + (Executable.bss file).size) mem = some mem') :
    BssZero file t mem' ↔ BssCleared file t mem := by
  obtain ⟨first, hfirst, h⟩ := Option.bind_eq_some_iff.mp h
  cases hbound : loadWord (.hash t) mem
      ((Executable.bss file).addr + (Executable.bss file).size) with
  | none =>
      obtain ⟨bound, hsome⟩ := zeroLoop_reads h
      rw [hbound] at hsome
      cases hsome
  | some bound =>
      have haddr := (Executable.bss file).addr.isLt
      by_cases hwrap : (Executable.bss file).addr.toNat + (Executable.bss file).size.toNat < 2 ^ 32
      · have hend : ((Executable.bss file).addr + (Executable.bss file).size).toNat =
            (Executable.bss file).addr.toNat + (Executable.bss file).size.toNat := by
          rw [BitVec.toNat_add, Nat.mod_eq_of_lt hwrap]
        have hbyte (i : Nat) (hi : i < (Executable.bss file).size.toNat) :=
          zeroLoop_spec (a := (Executable.bss file).addr + BitVec.ofNat 32 i) hd h hbound (by
            rw [BitVec.lt_def, hend, add_ofNat_toNat (by omega)]
            omega)
        constructor
        · intro hzero
          refine ⟨hwrap, fun first' bound' hfirst' hbound' i hi => ?_⟩
          obtain rfl := Option.some.inj (hfirst.symm.trans hfirst')
          obtain rfl := Option.some.inj (hbound.symm.trans hbound')
          have hafter := hbyte i hi
          rw [hzero i hi] at hafter
          split at hafter
          case isTrue hin => exact Or.inr hin
          case isFalse => exact Or.inl hafter.symm
        · intro hcleared i hi
          rw [hbyte i hi]
          rcases hcleared.2 first bound hfirst hbound i hi with hbefore | hin
          · rw [hbefore, ite_self]
          · rw [if_pos hin]
      · -- a section that goes round has the last address of all
        refine iff_of_false (fun hzero => htop ?_) fun hcleared => hwrap hcleared.1
        by_cases hempty : (Executable.bss file).size.toNat = 0
        · omega
        · by_cases hlast : 2 ^ 32 - 1 - (Executable.bss file).addr.toNat <
              (Executable.bss file).size.toNat
          · have hbyte := hzero _ hlast
            have htop' : (Executable.bss file).addr +
                BitVec.ofNat 32 (2 ^ 32 - 1 - (Executable.bss file).addr.toNat) =
                  0xFFFFFFFF#32 := by
              apply BitVec.eq_of_toNat_eq
              rw [add_ofNat_toNat (by omega), BitVec.toNat_ofNat]
              omega
            rw [htop'] at hbyte
            obtain ⟨x, hx, -⟩ := Option.bind_eq_some_iff.mp hbyte
            exact ⟨x, hx⟩
          · omega

/-- Whether the bss is cleared depends on its bytes and those behind. -/
theorem bssCleared_congr (h : ∀ a, (Executable.bss file).addr.toNat ≤ a.toNat →
    (PageTable.hash t).virtualByte m' a = (PageTable.hash t).virtualByte m a) :
    BssCleared file t m' ↔ BssCleared file t m := by
  have hword (a : Word) (ha : (Executable.bss file).addr.toNat ≤ a.toNat) :
      loadWord (.hash t) m' a = loadWord (.hash t) m a := by
    refine loadWord_congr fun j hj halign => h _ ?_
    have hlt := a.isLt
    rw [add_ofNat_toNat (by omega)]
    omega
  refine and_congr_right fun hwrap => ?_
  have hend : ((Executable.bss file).addr + (Executable.bss file).size).toNat =
      (Executable.bss file).addr.toNat + (Executable.bss file).size.toNat := by
    rw [BitVec.toNat_add, Nat.mod_eq_of_lt hwrap]
  rw [hword _ (Nat.le_refl _), hword _ (by omega)]
  refine forall_congr' fun first => forall_congr' fun bound => forall_congr' fun _ =>
    forall_congr' fun _ => forall_congr' fun i => forall_congr' fun hi => ?_
  rw [h _ (by rw [add_ofNat_toNat (by omega)]; omega)]

/-- **`.bss`.**  A new process starts its constructors with a `.bss` of zeros exactly when
the frames under it held zeros before, or the words that were left at its start and behind
its end are addresses around it. -/
theorem bss_zero_iff {k k' k0 : SharedResources} {vm : Tunnel}
    {imageEnd brk0 brk pid : Word} {physMem : Hardware.Memory}
    (hboot : construct imageEnd brk0 physMem = .ok k0)
    (hrun : Reaches Step (fun _ _ => True) k0 k)
    (hserves : Serves vm (.fopen path 0 :: k.log) file)
    (hlaid : (Executable.bss file).size ≠ 0 → Executable.LaidOut file)
    (hcreate : k.createProcess vm path brk = .ok (pid, k')) (hpid : pid ≠ NOPCBEXISTS) :
    ∃ p t, k'.processes[pid.toNat]? = some (some p) ∧ p.addrSpace.pageTable = some (.hash t) ∧
      ∀ mem', bootuserprog (.hash t) (Executable.bss file).addr
          ((Executable.bss file).addr + (Executable.bss file).size) k'.physMem = some mem' →
        (BssZero file t mem' ↔ BssCleared file t k.physMem) := by
  obtain ⟨info, r, p, t, text, static, stack, hloaded⟩ :=
    createProcess_loaded hcreate (invariant_of_reaches hboot hrun) hpid
  obtain ⟨rfl, -⟩ := hloaded.spec hserves
  refine ⟨p, t, hloaded.here, hloaded.table, fun mem' hstart => ?_⟩
  have htop : ¬ t.Mapped 0xFFFFFFFF#32 := by
    have hshort := hloaded.pages.short
    unfold numPages at hshort
    have hpage : (0xFFFFFFFF#32).toNat / 4096 = 0xFFFFF := rfl
    rw [hloaded.pages.mapped_iff, hpage]
    omega
  rw [bootuserprog_bssZero_iff hloaded.pages.apart htop hstart]
  by_cases hempty : (Executable.bss file).size = 0
  · have hzero : (Executable.bss file).size.toNat = 0 := congrArg BitVec.toNat hempty
    have haddr := (Executable.bss file).addr.isLt
    have hnone (mem : Hardware.Memory) : BssCleared file t mem :=
      ⟨by omega, fun _ _ _ _ i hi => by omega⟩
    exact iff_of_true (hnone _) (hnone _)
  · refine bssCleared_congr fun a ha => hloaded.kept hserves ?_
    exact Nat.le_trans (hlaid hempty).behind_data ha

/-! ### Recycled frames -/

/-- An executable with nothing but four bytes of bss. -/
def bssProgram : List Byte := Executable.build 0x400000 [] [] 0x10000000 4

/-- A process with the data `old` comes and goes, and `bssProgram` gets its frames. -/
def recycledProcess (old : List Byte) : Option (SharedResources × Word × SharedResources) :=
  (bootedRun (fun _ _ => True)
    [.createProcess (fileHost (Executable.build 0x400000 [] old 0x10000008 0) 256) [] 0,
      .borrow 0, .markForDeath 0, .reset 0]).bind fun k =>
    (k.createProcess (fileHost bssProgram 256) [] 0).toOption.map fun created => (k, created)

/-- The first byte of `.bss` when the constructors are called. -/
def firstBssByte (k : SharedResources) : Option Byte := do
  let p ← k.processes[0]?.join
  let t ← p.addrSpace.pageTable
  let mem ← bootuserprog t 0x10000000 0x10000004 k.physMem
  t.virtualByte mem 0x10000000

/-- The process in recycled frames is made by `createProcess` after a run. -/
theorem recycledProcess_spec {old : List Byte} {k k' : SharedResources} {pid : Word}
    (h : recycledProcess old = some (k, pid, k')) :
    ∃ k0, construct 0x80001000 0 (fun _ => 0) = .ok k0 ∧
      Reaches Step (fun _ _ => True) k0 k ∧
      k.createProcess (fileHost bssProgram 256) [] 0 = .ok (pid, k') := by
  obtain ⟨k1, hk1, h⟩ := Option.bind_eq_some_iff.mp h
  obtain ⟨created, hcreate, heq⟩ := Option.map_eq_some_iff.mp h
  obtain ⟨rfl, rfl⟩ := Prod.mk.inj heq
  obtain ⟨k0, hboot, hrun⟩ := reaches_of_bootedRun hk1
  exact ⟨k0, hboot, hrun, toOption_eq_some hcreate⟩

/-- The program's sections lie where they should. -/
theorem bssProgram_laidOut : Executable.LaidOut bssProgram :=
  ⟨by decide +kernel, 4, by decide, by decide +kernel⟩

/-- Where the old words happen to be the bounds, the loop clears `.bss`. -/
theorem bss_zero_by_chance : ∃ k k' p t,
    recycledProcess [0x10, 0, 0, 0, 0x10, 0, 0, 4] = some (k, 0, k') ∧
    firstBssByte k' = some 0 ∧ k'.processes[0]? = some (some p) ∧
    p.addrSpace.pageTable = some (.hash t) ∧
      ∀ mem', bootuserprog (.hash t) (Executable.bss bssProgram).addr
          ((Executable.bss bssProgram).addr + (Executable.bss bssProgram).size) k'.physMem =
            some mem' →
        (BssZero bssProgram t mem' ↔ BssCleared bssProgram t k.physMem) := by
  have hruns : (recycledProcess [0x10, 0, 0, 0, 0x10, 0, 0, 4]).any (fun r =>
      r.2.1 == 0 && firstBssByte r.2.2 == some 0) = true := by
    decide +kernel
  obtain ⟨⟨k, pid, k'⟩, hrecycled, hcheck⟩ := (Option.any_eq_true _ _).mp hruns
  obtain ⟨hpid, hbyte⟩ := (Bool.and_eq_true _ _).mp hcheck
  obtain rfl := eq_of_beq hpid
  obtain ⟨k0, hboot, hrun, hcreate⟩ := recycledProcess_spec hrecycled
  obtain ⟨p, t, hhere, ht, hiff⟩ := bss_zero_iff hboot hrun fileHost_serves
    (fun _ => bssProgram_laidOut) hcreate (by decide)
  exact ⟨k, k', p, t, hrecycled, eq_of_beq hbyte, hhere, ht, hiff⟩

/-- The constructors find what another process has left. -/
theorem bss_not_zero : ¬ ∀ imageEnd brk0 physMem k0 k vm path file brk pid k',
    construct imageEnd brk0 physMem = .ok k0 → Reaches Step (fun _ _ => True) k0 k →
    Serves vm (.fopen path 0 :: k.log) file → Executable.LaidOut file →
    k.createProcess vm path brk = .ok (pid, k') → pid ≠ NOPCBEXISTS →
    ∃ p t, k'.processes[pid.toNat]? = some (some p) ∧ p.addrSpace.pageTable = some (.hash t) ∧
      ∀ mem', bootuserprog (.hash t) (Executable.bss file).addr
          ((Executable.bss file).addr + (Executable.bss file).size) k'.physMem = some mem' →
        BssZero file t mem' := by
  intro hall
  have hruns : (recycledProcess (List.replicate 8 1)).any (fun r =>
      r.2.1 == 0 && firstBssByte r.2.2 == some 1) = true := by
    decide +kernel
  obtain ⟨⟨k, pid, k'⟩, hrecycled, hcheck⟩ := (Option.any_eq_true _ _).mp hruns
  obtain ⟨hpid, hbyte⟩ := (Bool.and_eq_true _ _).mp hcheck
  obtain rfl := eq_of_beq hpid
  obtain ⟨k0, hboot, hrun, hcreate⟩ := recycledProcess_spec hrecycled
  obtain ⟨p, t, hhere, ht, hzero⟩ := hall _ _ _ _ _ _ _ _ _ _ _ hboot hrun fileHost_serves
    bssProgram_laidOut hcreate (by decide)
  have hbyte' := eq_of_beq hbyte
  simp only [firstBssByte, Option.bind_eq_bind] at hbyte'
  rw [show k'.processes[0]? = some (some p) from hhere, Option.join_some, Option.bind_some, ht,
    Option.bind_some] at hbyte'
  obtain ⟨mem', hstart, hone⟩ := Option.bind_eq_some_iff.mp hbyte'
  have hbss : (Executable.bss bssProgram).addr = 0x10000000#32 ∧
      (Executable.bss bssProgram).addr + (Executable.bss bssProgram).size = 0x10000004#32 ∧
      0 < (Executable.bss bssProgram).size.toNat := by decide +kernel
  have hfirst := hzero mem' (by rw [hbss.2.1, hbss.1]; exact hstart) 0 hbss.2.2
  rw [BitVec.add_zero, hbss.1] at hfirst
  exact absurd (hone.symm.trans hfirst) (by decide)

end Programs
