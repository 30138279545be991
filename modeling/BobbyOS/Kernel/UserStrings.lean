import BobbyOS.Lib.Terminated
import BobbyOS.Kernel.Requests
import BobbyOS.Kernel.Translation
import BobbyOS.Kernel.WriteProtection
import BobbyOS.Machine.TunnelSafety

/-!
# Strings of user code

`PRINT_STRING` and `EXEC` translate the address of the first byte of a string and
let the machine read on from there, in physical memory.  The next page of the process
is wherever its frame is.

* `physicalAddress_returns`: the address that the handler computes;
* `readCString_direct`: what the machine reads from it is what the kernel model reads;
* `exec_asks_first`: an `exec` that returns has asked for its path first;
* `contiguous_of_page`, `contiguous_of_frames`: strings that are read as they are;
* `userStrings_iff`: exactly the strings whose bytes follow each other in memory are;
* `stack_string_misread`: a string on a page boundary of the first stack.
-/

namespace Kernel

open Effects SharedResources
open KernelState (WithShared)
open Terminated (Reads)

variable {s s' : KernelState} {vm : Tunnel} {ref : GuardRef} {p : PCB} {t : PageTable}
  {vaddr : Word} {text : List Byte} {mem : Hardware.Memory}

/-- The string stands in the virtual memory, with its NUL. -/
def HoldsText (t : PageTable) (mem : Hardware.Memory) (vaddr : Word) (text : List Byte) : Prop :=
  Reads 0 (fun i => t.virtualByte mem (vaddr + BitVec.ofNat 32 i)) text

/-- The string stands in the physical memory, with its NUL. -/
def HoldsPhysical (mem : Hardware.Memory) (base : Nat) (text : List Byte) : Prop :=
  Reads 0 (fun i => physicalByte mem (base + i)) text

/-- Behind the first page, what follows in the physical memory is what follows in the
virtual memory, for the `length` bytes of a string and its NUL. -/
def Contiguous (t : PageTable) (mem : Hardware.Memory) (vaddr : Word) (length : Nat) : Prop :=
  ∀ base, t.physical vaddr = some base → ∀ i < length + 1,
    Hardware.pageSize ≤ vaddr.toNat % Hardware.pageSize + i →
      physicalByte mem (base + i) = t.virtualByte mem (vaddr + BitVec.ofNat 32 i)

/-- **Reading on.**  The bytes from the physical address on are the string exactly when
the virtual memory is contiguous there. -/
theorem holdsPhysical_iff {base : Nat} (hbase : t.physical vaddr = some base)
    (htext : HoldsText t mem vaddr text) :
    HoldsPhysical mem base text ↔ Contiguous t mem vaddr text.length := by
  rw [HoldsPhysical, htext.iff_agree]
  constructor
  · intro h base' hbase' i hi _
    obtain rfl := Option.some.inj (hbase.symm.trans hbase')
    exact h i hi
  · intro h i hi
    by_cases hinside : vaddr.toNat % Hardware.pageSize + i < Hardware.pageSize
    · rw [PageTable.virtualByte, physical_inside hbase hinside]
      rfl
    · exact h base hbase i hi (Nat.le_of_not_lt hinside)

/-- A string that stays in its first page. -/
theorem contiguous_of_page {length : Nat}
    (h : vaddr.toNat % Hardware.pageSize + length < Hardware.pageSize) :
    Contiguous t mem vaddr length := by
  intro base _ i hi hbehind
  omega

/-- A string whose pages have frames that follow each other. -/
theorem contiguous_of_frames {length base : Nat} (h : ∀ i < length + 1,
    t.physical (vaddr + BitVec.ofNat 32 i) = some (base + i)) :
    Contiguous t mem vaddr length := by
  intro base' hbase' i hi _
  have hfirst := h 0 (Nat.succ_pos length)
  rw [BitVec.add_zero, Nat.add_zero] at hfirst
  obtain rfl := Option.some.inj (hfirst.symm.trans hbase')
  rw [PageTable.virtualByte, h i hi]
  rfl

/-! ### Reading -/

/-- An empty string is a terminator. -/
theorem holdsPhysical_nil {base : Nat} :
    HoldsPhysical mem base [] ↔ physicalByte mem base = some 0 := Iff.rfl

/-- A string is a character and the rest. -/
theorem holdsPhysical_cons {base : Nat} {b : Byte} :
    HoldsPhysical mem base (b :: text) ↔
      physicalByte mem base = some b ∧ b ≠ 0 ∧ HoldsPhysical mem (base + 1) text := by
  have hshift : (fun i => physicalByte mem (base + (i + 1))) =
      fun i => physicalByte mem (base + 1 + i) := by
    funext i
    rw [Nat.add_comm i 1, Nat.add_assoc]
  rw [HoldsPhysical, Reads, hshift]
  rfl

/-- **The handler.**  The string at a physical address is read to its NUL. -/
theorem cString_eq_ok {left base : Nat} (hleft : left = Hardware.physMemSize - base) :
    cString mem left base = .ok text ↔ HoldsPhysical mem base text := by
  induction left generalizing base text with
  | zero =>
      have hout : physicalByte mem base = none := if_neg (by omega)
      refine iff_of_false (fun h => by cases h) fun h => ?_
      cases text with
      | nil => cases hout.symm.trans (holdsPhysical_nil.mp h)
      | cons b rest => cases hout.symm.trans (holdsPhysical_cons.mp h).1
  | succ left ih =>
      have hin : physicalByte mem base = some (mem base) := if_pos (by omega)
      rw [cString]
      cases text with
      | nil =>
          rw [holdsPhysical_nil, hin, Option.some.injEq]
          by_cases h0 : mem base = 0
          · simp [h0]
          · simp [Except.bind_ok_iff]
      | cons b rest =>
          rw [holdsPhysical_cons, hin, Option.some.injEq, ← ih (by omega)]
          by_cases h0 : mem base = 0
          · rw [if_pos h0]
            exact iff_of_false (fun h => by cases h) fun ⟨hb, hne, _⟩ => hne (hb.symm.trans h0)
          · simp only [if_neg h0, Except.bind_ok_iff, Except.ok.injEq, List.cons.injEq]
            constructor
            · rintro ⟨rest', hrest, rfl, rfl⟩
              exact ⟨rfl, h0, hrest⟩
            · rintro ⟨rfl, -, hrest⟩
              exact ⟨rest, hrest, rfl, rfl⟩

/-- A byte of the direct map. -/
theorem getByte_direct {m : Hardware.Machine} {base : Nat} {b : Byte}
    (hbase : base ≤ Hardware.physMemSize) :
    m.getByte (0x80000000#32 + BitVec.ofNat 32 base) = .ok b ↔
      physicalByte m.memory base = some b := by
  have hsum : (0x80000000#32 + BitVec.ofNat 32 base).toNat = 0x80000000 + base := by
    unfold Hardware.physMemSize at hbase
    rw [BitVec.toNat_add, BitVec.toNat_ofNat, BitVec.toNat_ofNat]
    omega
  have hdirect : Hardware.directMapped (0x80000000#32 + BitVec.ofNat 32 base) = true := by
    unfold Hardware.physMemSize at hbase
    rw [Hardware.directMapped_iff, hsum]
    omega
  have hphysical : (0x80000000#32 + BitVec.ofNat 32 base - 0x80000000#32).toNat = base := by
    unfold Hardware.physMemSize at hbase
    rw [BitVec.add_comm, BitVec.add_sub_cancel, BitVec.toNat_ofNat]
    omega
  rw [Hardware.Machine.getByte, Hardware.Memory.getByte, Hardware.TLB.translate, if_pos hdirect,
    Except.ok_bind, hphysical, Hardware.Memory.read, physicalByte]
  split <;> simp

/-- **The machine.**  From an address of the direct map the machine reads what stands in
the physical memory. -/
theorem holdsString_direct {m : Hardware.Machine} {base : Nat}
    (hbase : base ≤ Hardware.physMemSize) :
    m.HoldsString (0x80000000#32 + BitVec.ofNat 32 base) text ↔
      HoldsPhysical m.memory base text := by
  induction text generalizing base with
  | nil => exact getByte_direct hbase
  | cons b rest ih =>
      rw [Hardware.Machine.HoldsString, getByte_direct hbase, holdsPhysical_cons]
      refine and_congr_right fun hb => and_congr_right fun _ => ?_
      have hin : base < Hardware.physMemSize := by
        by_contra hout
        rw [physicalByte, if_neg hout] at hb
        cases hb
      have hnext : 0x80000000#32 + BitVec.ofNat 32 base + 1#32 =
          0x80000000#32 + BitVec.ofNat 32 (base + 1) := by
        rw [BitVec.ofNat_add, BitVec.add_assoc]
      rw [hnext, ih hin]

/-- What `PrintString(0x80000000 + paddr)` reads on the machine is what `directString`
reads. -/
theorem readCString_direct {m : Hardware.Machine} {base : Nat}
    (hbase : base ≤ Hardware.physMemSize) (hshort : text.length < 2 ^ 32) :
    m.readCString (0x80000000#32 + BitVec.ofNat 32 base) (2 ^ 32) = .ok text ↔
      cString m.memory (Hardware.physMemSize - base) base = .ok text := by
  rw [Hardware.Machine.readCString_ok_iff, and_iff_right hshort, holdsString_direct hbase,
    cString_eq_ok rfl]

/-! ### The two calls -/

/-- The string that the two calls read. -/
def readUserString (ref : GuardRef) (ctx : RegisterContext) : KernelM (List Byte) := do
  let paddr ← physicalAddress ref (ctx.accessRegister Register.A0)
  directString paddr

/-- `PRINT_STRING` reads the string and sends it. -/
theorem printUserString_eq {ctx : RegisterContext} :
    printUserString vm ref ctx =
      readUserString ref ctx >>= fun text => send vm (.printString text) >>= fun _ => pure () := by
  rw [readUserString, bind_assoc]
  rfl

/-- `EXEC` reads its path and goes on with it. -/
theorem execUser_eq {brk0 : Word} {ctx : RegisterContext} :
    execUser vm brk0 ref ctx = readUserString ref ctx >>= fun path => ref.exec vm brk0 path ctx := by
  rw [readUserString, bind_assoc]
  rfl

/-- The physical address that the handler computes. -/
theorem physicalAddress_returns {base : Nat} (hp : ref.pcb s.shared = .ok p)
    (ht : p.addrSpace.pageTable = some t) (hbase : t.physical vaddr = some base) :
    ∃ paddr s1, Returns (physicalAddress ref vaddr) s paddr s1 ∧ WithShared s s.shared s1 ∧
      paddr.toNat = base := by
  obtain ⟨e, hwalk, hpresent, rfl⟩ := PageTable.physical_eq_some.mp hbase
  have htranslate : p.addrSpace.translate vaddr =
      .ok (e.toTLBEntry (vaddr >>> 12) p.addrSpace.asid) :=
    translate_of_walk ht hwalk hpresent
  obtain ⟨s1, htouch⟩ : ∃ s1, Returns (touchPcb ref) s () s1 := by
    cases ref <;> exact ⟨_, rfl⟩
  have hsame := returns_touchPcb htouch
  obtain ⟨s2, htouch2⟩ : ∃ s2, Returns (touchPageTable ref) s1 () s2 := by
    cases ref <;> exact ⟨_, rfl⟩
  have hsame2 := returns_touchPageTable htouch2
  have hderef : Returns (deref ref) s p s1 :=
    htouch.bind (returns_get_bind.mpr (returns_check.mpr ⟨by rw [hsame.shared, hp], rfl⟩))
  have htranslated : Returns (translate ref vaddr) s
      (e.toTLBEntry (vaddr >>> 12) p.addrSpace.asid) s2 :=
    hderef.bind (htouch2.bind (returns_check.mpr ⟨htranslate, rfl⟩))
  rw [hsame.shared] at hsame2
  refine ⟨_, s2, htranslated.bind (returns_pure.mpr ⟨rfl, rfl⟩), hsame.trans hsame2, ?_⟩
  have hframe := Hardware.frame_offset_toNat (e.unpacked vaddr p.addrSpace.asid).pfn vaddr
  rw [unpacked_pfn] at hframe
  exact hframe

/-- **Reading.**  The calls read the string that stands behind the physical address of
its first byte. -/
theorem readUserString_returns_iff {ctx : RegisterContext} {base : Nat}
    (hp : ref.pcb s.shared = .ok p)
    (ht : p.addrSpace.pageTable = some t)
    (hbase : t.physical (ctx.accessRegister Register.A0) = some base) :
    ∃ s1, WithShared s s.shared s1 ∧ ∀ text' s', Returns (readUserString ref ctx) s text' s' ↔
      HoldsPhysical s.shared.physMem base text' ∧ s' = s1 := by
  obtain ⟨paddr, s1, haddress, hsame, rfl⟩ := physicalAddress_returns hp ht hbase
  refine ⟨s1, hsame, fun text' s' => ?_⟩
  rw [← cString_eq_ok rfl, ← hsame.shared]
  constructor
  · intro h
    obtain ⟨paddr', s2, haddress', h⟩ := returns_bind.mp h
    obtain ⟨rfl, rfl⟩ := EStateM.Result.ok.inj (haddress.symm.trans haddress')
    exact returns_check.mp (returns_get_bind.mp h)
  · intro h
    exact haddress.bind (returns_get_bind.mpr (returns_check.mpr h))

/-- `PRINT_STRING` prints the string. -/
def PrintsString (vm : Tunnel) (brk0 : Word) (ref : GuardRef) (ctx : RegisterContext)
    (s : KernelState) (text : List Byte) : Prop :=
  let ctx := ctx.setRegister Register.V0 PRINT_STRING
  ∃ s', Returns (syscall vm brk0 ref ctx) s (ctx, some ref) s' ∧
    s'.shared.log = .printString text :: s.shared.log

/-- `EXEC` opens the path: it goes on as `exec` with this path, and when it returns, its
first request was to open it. -/
def OpensPath (vm : Tunnel) (brk0 : Word) (ref : GuardRef) (ctx : RegisterContext)
    (s : KernelState) (path : List Byte) : Prop :=
  let ctx := ctx.setRegister Register.V0 EXEC
  (∃ s1, Returns (readUserString ref ctx) s path s1 ∧ syscall vm brk0 ref ctx s =
      (ref.exec vm brk0 path ctx >>= fun ctx => pure (ctx, some ref)) s1) ∧
    ∀ r s', Returns (syscall vm brk0 ref ctx) s r s' →
      .fopen path 0 :: s.shared.log <:+ s'.shared.log

section Calls

variable {brk0 : Word} {ctx : RegisterContext}

/-- The call `PRINT_STRING`. -/
theorem syscall_print (hcall : ctx.accessRegister Register.V0 = PRINT_STRING) :
    syscall vm brk0 ref ctx = printUserString vm ref ctx >>= fun _ => pure (ctx, some ref) := by
  unfold syscall
  rw [hcall]
  rfl

/-- A request is put in front of the others. -/
theorem returns_send_iff {req : VMRequest} {reply : VMReply} :
    Returns (send vm req) s reply s' ↔ reply = vm (req :: s.shared.log) ∧
      s' = { s with shared := { s.shared with log := req :: s.shared.log } } := by
  constructor
  · intro h
    exact returns_pure.mp (returns_modify_bind.mp (returns_get_bind.mp h))
  · rintro ⟨rfl, rfl⟩
    rfl

/-- `exec` through a guard that returns has asked for its path first. -/
theorem returns_exec_asks {path : List Byte} {ctx' : RegisterContext}
    (h : Returns (ref.exec vm brk0 path ctx) s ctx' s') :
    .fopen path 0 :: s.shared.log <:+ s'.shared.log := by
  obtain ⟨u, t, htouch, h⟩ := returns_bind.mp h
  obtain ⟨_, rfl⟩ := returns_touchPcb htouch
  cases ref with
  | kernel => exact absurd h not_returns_throw
  | process slot =>
      obtain ⟨u, t, htouch, h⟩ := returns_bind.mp h
      obtain ⟨_, rfl⟩ := returns_touch htouch
      obtain ⟨ctx1, t, hmanage, h⟩ := returns_bind.mp h
      obtain ⟨-, rfl⟩ := returns_pure.mp h
      obtain ⟨k, hk, accesses, rfl⟩ := returns_manage hmanage
      obtain ⟨⟨done, ctx2, k2⟩, hexec, hk⟩ := Except.bind_ok_iff.mp hk
      obtain ⟨-, rfl⟩ := Prod.mk.inj (Except.ok.inj hk)
      exact exec_asks_first hexec

/-- It returns exactly if the string is read, and it is sent. -/
theorem returns_print_iff {r : RegisterContext × Option GuardRef}
    (hcall : ctx.accessRegister Register.V0 = PRINT_STRING) :
    Returns (syscall vm brk0 ref ctx) s r s' ↔ r = (ctx, some ref) ∧
      ∃ text s1, Returns (readUserString ref ctx) s text s1 ∧
        s' = { s1 with shared := { s1.shared with log := .printString text :: s1.shared.log } } := by
  rw [syscall_print hcall, printUserString_eq]
  constructor
  · intro h
    obtain ⟨u, t1, h, hpure⟩ := returns_bind.mp h
    obtain ⟨rfl, rfl⟩ := returns_pure.mp hpure
    obtain ⟨text, s1, hread, h⟩ := returns_bind.mp h
    obtain ⟨reply, t2, hsend, hpure⟩ := returns_bind.mp h
    obtain ⟨-, rfl⟩ := returns_pure.mp hpure
    obtain ⟨-, rfl⟩ := returns_send_iff.mp hsend
    exact ⟨rfl, text, s1, hread, rfl⟩
  · rintro ⟨rfl, text, s1, hread, rfl⟩
    have hsend : Returns (send vm (.printString text)) s1 (vm (.printString text :: s1.shared.log))
        { s1 with shared := { s1.shared with log := .printString text :: s1.shared.log } } :=
      returns_send_iff.mpr ⟨rfl, rfl⟩
    have hprint : Returns (readUserString ref ctx >>= fun text =>
        send vm (.printString text) >>= fun _ => pure ()) s () _ :=
      hread.bind (hsend.bind (returns_pure.mpr ⟨rfl, rfl⟩))
    exact hprint.bind (returns_pure.mpr ⟨rfl, rfl⟩)

/-- A result in `$v0` leaves `$a0`. -/
theorem accessRegister_A0 {v : Word} :
    (ctx.setRegister Register.V0 v).accessRegister Register.A0 = ctx.accessRegister Register.A0 := by
  have hne : Fin.ofNat 31 (Register.A0.val - 1) ≠ Fin.ofNat 31 (Register.V0.val - 1) := by decide
  simp only [RegisterContext.accessRegister, RegisterContext.setRegister,
    Function.update_of_ne hne]

/-- `PRINT_STRING` prints what stands behind the physical address of the first byte. -/
theorem printsString_iff {base : Nat} (hp : ref.pcb s.shared = .ok p)
    (ht : p.addrSpace.pageTable = some t)
    (hbase : t.physical (ctx.accessRegister Register.A0) = some base) :
    PrintsString vm brk0 ref ctx s text ↔ HoldsPhysical s.shared.physMem base text := by
  have hcalled : t.physical ((ctx.setRegister Register.V0 PRINT_STRING).accessRegister
      Register.A0) = some base := by rw [accessRegister_A0, hbase]
  obtain ⟨s1, hsame, hread⟩ := readUserString_returns_iff hp ht hcalled
  constructor
  · rintro ⟨s', h, hlog⟩
    obtain ⟨-, text', s2, hread', rfl⟩ := (returns_print_iff accessRegister_V0).mp h
    obtain ⟨htext', rfl⟩ := (hread text' s2).mp hread'
    obtain rfl := VMRequest.printString.inj (List.cons.inj hlog).1
    exact htext'
  · intro h
    refine ⟨_, (returns_print_iff accessRegister_V0).mpr
      ⟨rfl, text, s1, (hread text s1).mpr ⟨h, rfl⟩, rfl⟩, ?_⟩
    show VMRequest.printString text :: s1.shared.log = _
    rw [hsame.shared]

/-- `EXEC` opens what stands behind the physical address of the first byte. -/
theorem opensPath_iff {base : Nat} (hp : ref.pcb s.shared = .ok p)
    (ht : p.addrSpace.pageTable = some t)
    (hbase : t.physical (ctx.accessRegister Register.A0) = some base) :
    OpensPath vm brk0 ref ctx s text ↔ HoldsPhysical s.shared.physMem base text := by
  have hcalled : t.physical ((ctx.setRegister Register.V0 EXEC).accessRegister Register.A0) =
      some base := by rw [accessRegister_A0, hbase]
  obtain ⟨s1, hsame, hread⟩ := readUserString_returns_iff hp ht hcalled
  constructor
  · rintro ⟨⟨s2, hread', -⟩, -⟩
    exact ((hread text s2).mp hread').1
  · intro h
    have hreturns := (hread text s1).mpr ⟨h, rfl⟩
    have hcall : syscall vm brk0 ref (ctx.setRegister Register.V0 EXEC) s =
        (ref.exec vm brk0 text (ctx.setRegister Register.V0 EXEC) >>=
          fun ctx => pure (ctx, some ref)) s1 := by
      rw [syscall_exec accessRegister_V0, execUser_eq, bind_assoc]
      exact hreturns.bind_eq
    refine ⟨⟨s1, hreturns, hcall⟩, fun r s' hr => ?_⟩
    rw [Returns, hcall] at hr
    obtain ⟨ctx', t1, hexec, hpure⟩ := returns_bind.mp hr
    obtain ⟨-, rfl⟩ := returns_pure.mp hpure
    have hasks := returns_exec_asks hexec
    rwa [hsame.shared] at hasks

/-- **User strings.**  For a string of a process, with all its bytes mapped:
`PRINT_STRING` prints it exactly when the virtual memory is contiguous there, and so
does `EXEC` open it as a path. -/
theorem userStrings_iff (vm : Tunnel) (brk0 : Word) (ref : GuardRef) (ctx : RegisterContext)
    (s : KernelState) (p : PCB) (t : PageTable) (text : List Byte)
    (hp : ref.pcb s.shared = .ok p) (ht : p.addrSpace.pageTable = some t)
    (htext : HoldsText t s.shared.physMem (ctx.accessRegister Register.A0) text) :
    (PrintsString vm brk0 ref ctx s text ↔
        Contiguous t s.shared.physMem (ctx.accessRegister Register.A0) text.length) ∧
      (OpensPath vm brk0 ref ctx s text ↔
        Contiguous t s.shared.physMem (ctx.accessRegister Register.A0) text.length) := by
  obtain ⟨b, hb⟩ := htext.first
  rw [BitVec.add_zero] at hb
  obtain ⟨base, hbase, -⟩ := Option.bind_eq_some_iff.mp hb
  rw [← holdsPhysical_iff hbase htext]
  exact ⟨printsString_iff hp ht hbase, opensPath_iff hp ht hbase⟩

end Calls

/-! ### A string on the stack -/

/-- A memory with `AB` across the boundary of the two highest pages of the first stack,
whose frames are 68 and 67, and an `X` at the beginning of frame 69. -/
def stackMemory : Hardware.Memory := fun a =>
  if a = 68 * 4096 + 4095 then 65 else if a = 67 * 4096 then 66 else if a = 69 * 4096 then 88 else 0

/-- The registers of a call with this address. -/
def stringCall (vaddr : Word) : RegisterContext := ({} : RegisterContext).setRegister Register.A0 vaddr

/-- The pages of the first process. -/
theorem stack_booted :
    ∃ s p t, KernelState.boot zeroFiles 0x80001000 0 0 stackMemory = some s ∧
      (GuardRef.process 0).pcb s.shared = .ok p ∧ p.addrSpace.pageTable = some t ∧
      s.shared.physMem (69 * 4096) = 88 ∧
      t.physical 0x7FFFEFFF#32 = some (68 * 4096 + 4095) ∧
      HoldsText t s.shared.physMem 0x7FFFEFFF#32 [65, 66] ∧
      HoldsText t s.shared.physMem 0x7FFFF000#32 [66] := by
  have hbooted : (KernelState.boot zeroFiles 0x80001000 0 0 stackMemory).any (fun s =>
      ((GuardRef.process 0).pcb s.shared).toOption.any fun p => p.addrSpace.pageTable.any fun t =>
        s.shared.physMem (69 * 4096) == 88 &&
          t.physical 0x7FFFEFFF#32 == some (68 * 4096 + 4095) &&
          t.virtualByte s.shared.physMem 0x7FFFEFFF#32 == some 65 &&
          t.virtualByte s.shared.physMem 0x7FFFF000#32 == some 66 &&
          t.virtualByte s.shared.physMem 0x7FFFF001#32 == some 0) = true := by
    decide +kernel
  obtain ⟨s, hs, hbooted⟩ := (Option.any_eq_true _ _).mp hbooted
  obtain ⟨p, hp, hbooted⟩ := (Option.any_eq_true _ _).mp hbooted
  obtain ⟨t, ht, hbooted⟩ := (Option.any_eq_true _ _).mp hbooted
  simp only [Bool.and_eq_true, beq_iff_eq] at hbooted
  obtain ⟨⟨⟨⟨hmem, hphysical⟩, h0⟩, h1⟩, h2⟩ := hbooted
  refine ⟨s, p, t, hs, SharedResources.toOption_eq_some hp, ht, hmem, hphysical, ?_, ?_⟩
  · exact ⟨h0, by decide, h1, by decide, h2⟩
  · exact ⟨h1, by decide, h2⟩

/-- A string inside a page. -/
theorem userStrings_iff_page :
    ∃ s p t, KernelState.boot zeroFiles 0x80001000 0 0 stackMemory = some s ∧
      (GuardRef.process 0).pcb s.shared = .ok p ∧ p.addrSpace.pageTable = some t ∧
      PrintsString zeroFiles 0 (.process 0) (stringCall 0x7FFFF000#32) s [66] ∧
      OpensPath zeroFiles 0 (.process 0) (stringCall 0x7FFFF000#32) s [66] := by
  obtain ⟨s, p, t, hs, hp, ht, -, -, -, htext⟩ := stack_booted
  obtain ⟨hprints, hopens⟩ := userStrings_iff zeroFiles 0 (.process 0) (stringCall 0x7FFFF000#32)
    s p t [66] hp ht htext
  have hpage : Contiguous t s.shared.physMem 0x7FFFF000#32 1 := contiguous_of_page (by decide)
  exact ⟨s, p, t, hs, hp, ht, hprints.mpr hpage, hopens.mpr hpage⟩

/-- **Failure.**  The string `AB` across two pages of the first stack is neither printed
nor opened: what follows its first byte in memory is an `X`. -/
theorem stack_string_misread :
    ∃ s p t, KernelState.boot zeroFiles 0x80001000 0 0 stackMemory = some s ∧
      (GuardRef.process 0).pcb s.shared = .ok p ∧ p.addrSpace.pageTable = some t ∧
      HoldsText t s.shared.physMem ((stringCall 0x7FFFEFFF#32).accessRegister Register.A0)
        [65, 66] ∧
      ¬ PrintsString zeroFiles 0 (.process 0) (stringCall 0x7FFFEFFF#32) s [65, 66] ∧
      ¬ OpensPath zeroFiles 0 (.process 0) (stringCall 0x7FFFEFFF#32) s [65, 66] := by
  obtain ⟨s, p, t, hs, hp, ht, hmem, hbase, htext, -⟩ := stack_booted
  have hother : ¬ HoldsPhysical s.shared.physMem (68 * 4096 + 4095) [65, 66] := by
    intro h
    have hsecond := (holdsPhysical_cons.mp (holdsPhysical_cons.mp h).2.2).1
    rw [physicalByte, if_pos (by decide), show 68 * 4096 + 4095 + 1 = 69 * 4096 from rfl,
      hmem] at hsecond
    exact absurd hsecond (by decide)
  have hcalled : t.physical ((stringCall 0x7FFFEFFF#32).accessRegister Register.A0) =
      some (68 * 4096 + 4095) := hbase
  exact ⟨s, p, t, hs, hp, ht, htext, (printsString_iff hp ht hcalled).not.mpr hother,
    (opensPath_iff hp ht hcalled).not.mpr hother⟩

end Kernel
