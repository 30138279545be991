import BobbyOS.Kernel.AsmGlue
import BobbyOS.Machine.Hardware
import BobbyOS.Machine.TrapPoint

/-!
# Which traps are transparent

A TLB miss or an interrupt should leave no trace in the code it interrupts: the
instruction that must run next runs next, and every register but `$k0` and
`$k1` is as before.  `handleTrap` moves the saved EPC back by four for these
traps, because the cycle that runs `eret` adds four.  The exit through `jr` does
not need the correction, since `JumpRegister::run` makes its own.

* `saves_spec`, `loads_spec`: the two register tables;
* `kernelTrap_spec`, `kernelTrapReturn_spec`, `runProcess_spec`: one lemma for
  each piece of the glue;
* `trap_transparent_iff`: the exit through `eret` is exact, the exit through
  `jr` resumes one instruction early.
-/

namespace Kernel

open ByteMemory Register

/-! ### Tables of registers -/

/-- Two pieces of code run one after the other. -/
theorem exec_append (l1 l2 : List Asm) (c : Core) : exec (l1 ++ l2) c = exec l2 (exec l1 c) := by
  simp [exec]

@[simp] theorem exec_nil (c : Core) : exec [] c = c := rfl

/-- Stores of a table put the registers at their offsets from the base. -/
theorem saves_eq (table : List (Reg × Nat)) (base : Reg) (c : Core) :
    exec (saves table base) c = c.setMem (storeAll c.mem (c.registerFile base)
      (table.map fun e => (e.2, c.registerFile e.1))) := by
  induction table generalizing c with
  | nil => rfl
  | cons e rest ih => exact ih ((Asm.sw e.1 e.2 base).run c)

/-- Loads of a table change the registers of the table only. -/
theorem loads_frame (table : List (Reg × Nat)) (base : Reg) (c : Core) :
    ∃ regs, exec (loads table base) c = { c with registerFile := regs } ∧
      ∀ r, r ∉ table.map Prod.fst → regs r = c.registerFile r := by
  induction table generalizing c with
  | nil => exact ⟨c.registerFile, rfl, fun _ _ => rfl⟩
  | cons entry rest ih =>
      obtain ⟨regs, heq, hkeep⟩ := ih ((Asm.lw entry.1 entry.2 base).run c)
      refine ⟨regs, heq, fun r hr => ?_⟩
      simp only [List.map_cons, List.mem_cons, not_or] at hr
      rw [hkeep r hr.2]
      exact Function.update_of_ne hr.1 _ _

/-- **Restoring a table.**  Loads of a table of distinct registers, none of them
the base, read each register from its place. -/
theorem loads_spec (table : List (Reg × Nat)) (base : Reg) (c : Core)
    (hbase : base ∉ table.map Prod.fst) (hdistinct : (table.map Prod.fst).Nodup) :
    ∀ e ∈ table, (exec (loads table base) c).registerFile e.1 =
      load32 c.mem (c.registerFile base + BitVec.ofNat 32 e.2) := by
  induction table generalizing c with
  | nil => simp
  | cons entry rest ih =>
      obtain ⟨hnot, hrest⟩ := List.nodup_cons.mp hdistinct
      simp only [List.map_cons, List.mem_cons, not_or] at hbase
      intro e he
      rcases List.mem_cons.mp he with rfl | he'
      · obtain ⟨regs, heq, hkeep⟩ := loads_frame rest base ((Asm.lw e.1 e.2 base).run c)
        calc (exec (loads (e :: rest) base) c).registerFile e.1
            = regs e.1 := by
              show (exec (loads rest base) ((Asm.lw e.1 e.2 base).run c)).registerFile e.1 = _
              rw [heq]
          _ = ((Asm.lw e.1 e.2 base).run c).registerFile e.1 := hkeep _ hnot
          _ = _ := Function.update_self _ _ _
      · have hih := ih ((Asm.lw entry.1 entry.2 base).run c) hbase.2 hrest e he'
        have hkept : ((Asm.lw entry.1 entry.2 base).run c).registerFile base =
            c.registerFile base := Function.update_of_ne hbase.1 _ _
        rw [hkept] at hih
        exact hih

/-! ### The pieces of the glue -/

variable (sym : Symbols)

/-- `lbu` gives a positive number for every byte but zero. -/
theorem bgtz_byte (b : Byte) : bgtz (b.setWidth 32) = decide (b ≠ 0) := by
  have hb := b.isLt
  have h : (b.setWidth 32).toInt = b.toNat := by
    rw [BitVec.toInt_eq_toNat_of_lt]
    · rw [BitVec.toNat_setWidth_of_le (by decide)]
    · rw [BitVec.toNat_setWidth_of_le (by decide)]
      omega
  have h0 : b ≠ 0 ↔ 0 < b.toNat := by
    rw [Ne, ← BitVec.toNat_inj]
    exact Nat.pos_iff_ne_zero.symm
  simp only [bgtz, h, h0]
  simp

/-- The stack pointer that the saved context is put under. -/
def stackTop (c : Core) : Word :=
  if c.mem sym.exceptionDepth = 0 then load32 c.mem sym.topKstack else c.registerFile SP

/-- The choice of the stack: `$k1` has the old stack pointer. -/
theorem chooseStack_spec (c : Core) :
    ∃ regs, chooseStack sym c = { c with registerFile := regs } ∧
      regs SP = stackTop sym c ∧ regs K1 = c.registerFile SP ∧
      ∀ r, r ≠ K0 → r ≠ K1 → r ≠ SP → regs r = c.registerFile r := by
  have htest : bgtz ((exec [.la K0 sym.exceptionDepth, .lbu K0 0 K0, .move K1 SP] c).registerFile
      K0) = decide (c.mem sym.exceptionDepth ≠ 0) := by
    rw [← bgtz_byte]
    simp (disch := decide) [exec, Asm.run, Core.setReg, Function.update_of_ne]
  by_cases h0 : c.mem sym.exceptionDepth = 0
  · refine ⟨(chooseStack sym c).registerFile, ?_, ?_, ?_, ?_⟩ <;>
      simp only [chooseStack, htest, h0, ne_eq, not_true_eq_false, decide_false,
        Bool.false_eq_true, if_false]
    · rfl
    · rw [stackTop, if_pos h0]
      simp (disch := decide) [exec, Asm.run, Core.setReg, Function.update_of_ne]
    · simp (disch := decide) [exec, Asm.run, Core.setReg, Function.update_of_ne]
    · intro r hk0 hk1 hsp
      simp [exec, Asm.run, Core.setReg, Function.update_apply, hk0, hk1, hsp]
  · refine ⟨(chooseStack sym c).registerFile, ?_, ?_, ?_, ?_⟩ <;>
      simp only [chooseStack, htest, h0, ne_eq, not_false_eq_true, decide_true, if_true]
    · rfl
    · rw [stackTop, if_neg h0]
      simp (disch := decide) [exec, Asm.run, Core.setReg, Function.update_of_ne]
    · simp (disch := decide) [exec, Asm.run, Core.setReg, Function.update_of_ne]
    · intro r hk0 hk1 hsp
      simp [exec, Asm.run, Core.setReg, Function.update_apply, hk0, hk1]

/-- The context of the interrupted code, as far as it is saved. -/
structure Saves (c : Core) (ctx : RegisterContext) : Prop where
  general : ∀ r, r ≠ ZERO → r ≠ K0 → r ≠ K1 → ctx.accessRegister r = c.registerFile r
  hi : ctx.hiRegister = c.hi
  lo : ctx.loRegister = c.lo
  epc : ctx.epc = c.cp0 14
  status : ctx.status = c.cp0 12
  cause : ctx.cause = c.cp0 13

/-- Every register but `$zero`, `$k0` and `$k1` has its word in the table. -/
theorem saved_register (r : Reg) (h0 : r ≠ ZERO) (hk0 : r ≠ K0) (hk1 : r ≠ K1) :
    (r ≠ SP → (r, 4 * (r.val - 1)) ∈ savedRegisters) ∧
    (r, 4 * (r.val - 1)) ∈ restoredRegisters := by
  revert r
  decide

/-- A register of the context is a word of it. -/
theorem load_accessRegister (m : Mem) (p : Word) (r : Reg) (h0 : r ≠ ZERO) :
    (RegisterContext.load m p).accessRegister r =
      load32 m (p + BitVec.ofNat 32 (4 * (r.val - 1))) := by
  have hr : r.val ≠ 0 := fun h => h0 (Fin.ext h)
  have hlt := r.isLt
  have hfin : (Fin.ofNat 31 (r.val - 1)).val = r.val - 1 := Nat.mod_eq_of_lt (by omega)
  simp only [RegisterContext.accessRegister, RegisterContext.load, hfin]

/-- The words that `kernel_trap` writes, as offsets and values. -/
def savedWords (regs : Reg → Word) (c : Core) : List (Nat × Word) :=
  savedRegisters.map (fun e => (e.2, regs e.1)) ++
    [(124, c.hi), (128, c.lo), (132, c.cp0 14), (136, c.cp0 12), (140, c.cp0 13)]

/-- Where the words are saved. -/
theorem savedWords_offsets (regs : Reg → Word) (c : Core) :
    (savedWords regs c).map Prod.fst =
      savedRegisters.map Prod.snd ++ [124, 128, 132, 136, 140] := by
  simp [savedWords, Function.comp_def]

/-- They are aligned. -/
theorem savedWords_aligned (regs : Reg → Word) (c : Core) : Aligned (savedWords regs c) := by
  have hall : ∀ o ∈ savedRegisters.map Prod.snd ++ [124, 128, 132, 136, 140],
      o % 4 = 0 ∧ o < 2 ^ 32 := by decide
  intro e he
  exact hall e.1 (savedWords_offsets regs c ▸ List.mem_map_of_mem he)

/-- The special registers go behind the general ones. -/
theorem saveSpecial_eq (c : Core) :
    ∃ regs, exec saveSpecial c = { c with
        registerFile := regs
        mem := storeAll c.mem (c.registerFile SP)
          [(124, c.hi), (128, c.lo), (132, c.cp0 14), (136, c.cp0 12), (140, c.cp0 13)] } ∧
      ∀ r, r ≠ T0 → r ≠ T1 → r ≠ T2 → regs r = c.registerFile r := by
  refine ⟨(exec saveSpecial c).registerFile, ?_, fun r h0 h1 h2 => ?_⟩
  · simp (disch := decide) [saveSpecial, exec, Asm.run, Core.setReg, Core.setMem, storeAll,
      Function.update_of_ne]
  · simp [saveSpecial, exec, Asm.run, Core.setReg, Core.setMem, Function.update_apply, h0, h1, h2]

/-- The trap depth changes by `amount`, modulo 256. -/
theorem addDepth_eq (amount : Word) (c : Core) :
    ∃ regs, exec (addDepth sym amount) c = { c with
        registerFile := regs
        mem := Function.update c.mem sym.exceptionDepth
          (c.mem sym.exceptionDepth + amount.setWidth 8) } ∧
      ∀ r, r ≠ T0 → r ≠ T1 → regs r = c.registerFile r := by
  have hbyte : ((c.mem sym.exceptionDepth).setWidth 32 + amount).setWidth 8 =
      c.mem sym.exceptionDepth + amount.setWidth 8 := by
    rw [BitVec.setWidth_add _ _ (by decide), BitVec.setWidth_setWidth_of_le _ (by decide),
      BitVec.setWidth_eq]
  refine ⟨(exec (addDepth sym amount) c).registerFile, ?_, fun r h0 h1 => ?_⟩
  · simp (disch := decide) [addDepth, exec, Asm.run, Core.setReg, Core.setMem,
      Function.update_of_ne, hbyte]
  · simp [addDepth, exec, Asm.run, Core.setReg, Core.setMem, Function.update_apply, h0, h1]

/-- The registers with which the table is stored: `$k1` stands for `$sp`. -/
def Stored (c : Core) (regs : Reg → Word) : Prop :=
  ∀ e ∈ savedRegisters, regs e.1 = c.registerFile (if e.1 = K1 then SP else e.1)

/-- The whole effect of `kernel_trap` before the call. -/
theorem kernelTrap_eq (c : Core) :
    ∃ stored regs, kernelTrap sym c = { c with
        registerFile := regs
        mem := Function.update
          (storeAll c.mem (stackTop sym c - 144#32) (savedWords stored c)) sym.exceptionDepth
          (storeAll c.mem (stackTop sym c - 144#32) (savedWords stored c) sym.exceptionDepth
            + 1) } ∧
      Stored c stored ∧ regs SP = stackTop sym c - 144#32 ∧ regs K0 = stackTop sym c - 144#32 ∧
      regs ZERO = c.registerFile ZERO := by
  obtain ⟨regs1, hc1, hsp, hk1, hregs1⟩ := chooseStack_spec sym c
  have hframe : stackTop sym c + 4294967152#32 = stackTop sym c - 144#32 := by
    rw [BitVec.sub_eq_add_neg]
    rfl
  generalize hf : stackTop sym c - 144#32 = frame at *
  obtain ⟨stored, hstored⟩ : ∃ stored, stored = Function.update regs1 SP frame := ⟨_, rfl⟩
  have hsp2 : stored SP = frame := by rw [hstored, Function.update_self]
  have hgeneral : Stored c stored := by
    have hne : ∀ e ∈ savedRegisters, e.1 ≠ K0 ∧ e.1 ≠ SP := by decide
    intro e he
    rw [hstored, Function.update_of_ne (hne e he).2]
    by_cases hek1 : e.1 = K1
    · rw [if_pos hek1, hek1, hk1]
    · rw [if_neg hek1, hregs1 e.1 (hne e he).1 hek1 (hne e he).2]
  have hopen : exec [.addiu SP SP (-144)] (chooseStack sym c) =
      { c with registerFile := stored } := by
    rw [hc1, hstored]
    simp [exec, Asm.run, Core.setReg, hsp, hframe]
  obtain ⟨regs3, hc3, hregs3⟩ :=
    saveSpecial_eq (exec (saves savedRegisters SP) { c with registerFile := stored })
  obtain ⟨regs4, hc4, hregs4⟩ := addDepth_eq sym 1
    (exec saveSpecial (exec (saves savedRegisters SP) { c with registerFile := stored }))
  have hsp4 : regs4 SP = frame := by
    rw [hregs4 SP (by decide) (by decide), hc3]
    exact (hregs3 SP (by decide) (by decide) (by decide)).trans
      ((congrArg (fun c : Core => c.registerFile SP) (saves_eq ..)).trans hsp2)
  have hzero4 : regs4 ZERO = c.registerFile ZERO := by
    rw [hregs4 ZERO (by decide) (by decide), hc3]
    refine (hregs3 ZERO (by decide) (by decide) (by decide)).trans
      ((congrArg (fun c : Core => c.registerFile ZERO) (saves_eq ..)).trans ?_)
    show stored ZERO = _
    rw [hstored, Function.update_of_ne (by decide), hregs1 _ (by decide) (by decide) (by decide)]
  refine ⟨stored, Function.update regs4 K0 frame, ?_, hgeneral, ?_, ?_, ?_⟩
  · rw [kernelTrap, exec_append, exec_append, exec_append, exec_append, hopen, hc4, hc3, saves_eq]
    simp [exec, Asm.run, Core.setReg, Core.setMem, hsp4, hsp2, savedWords, storeAll_append]
  · rw [Function.update_of_ne (by decide), hsp4]
  · rw [Function.update_self]
  · rw [Function.update_of_ne (by decide), hzero4]

/-- The context that the saved words make. -/
theorem saves_of_savedWords {c : Core} {stored : Reg → Word} {m m' : Mem} {p : Word}
    (hstored : Stored c stored) (hm' : ∀ o, o + 4 ≤ 144 →
      load32 m' (p + BitVec.ofNat 32 o) =
        load32 (storeAll m p (savedWords stored c)) (p + BitVec.ofNat 32 o)) :
    Saves c (RegisterContext.load m' p) := by
  have hword : ∀ o v, (o, v) ∈ savedWords stored c → o + 4 ≤ 144 →
      load32 m' (p + BitVec.ofNat 32 o) = v := by
    intro o v he ho
    rw [hm' o ho]
    refine load32_storeAll (savedWords_aligned stored c) ?_ (o, v) he
    rw [savedWords_offsets]
    decide
  refine ⟨fun r h0 hk0 hk1 => ?_, ?_, ?_, ?_, ?_, ?_⟩
  · rw [load_accessRegister m' p r h0]
    have hlt : 4 * (r.val - 1) + 4 ≤ 144 := by
      have := r.isLt
      omega
    by_cases hrsp : r = SP
    · subst hrsp
      have hmem : (112, stored K1) ∈ savedWords stored c := by simp [savedWords, savedRegisters]
      exact (hword _ _ hmem (by decide)).trans (hstored (K1, 112) (by decide))
    · have hreg := (saved_register r h0 hk0 hk1).1 hrsp
      have hmem : (4 * (r.val - 1), stored r) ∈ savedWords stored c :=
        List.mem_append_left _ (List.mem_map.mpr ⟨_, hreg, rfl⟩)
      rw [hword _ _ hmem hlt, hstored _ hreg, if_neg hk1]
  · exact hword 124 _ (by simp [savedWords]) (by decide)
  · exact hword 128 _ (by simp [savedWords]) (by decide)
  · exact hword 132 _ (by simp [savedWords]) (by decide)
  · exact hword 136 _ (by simp [savedWords]) (by decide)
  · exact hword 140 _ (by simp [savedWords]) (by decide)

/-- **Saving.**  `kernel_trap` puts the context under the chosen stack top, where
`$sp` and `$k0` point when it calls `handleTrap`, and counts the trap. -/
theorem kernelTrap_spec (c : Core)
    (hout : Outside sym.exceptionDepth (stackTop sym c - 144#32) 144) :
    (kernelTrap sym c).registerFile SP = stackTop sym c - 144#32 ∧
    (kernelTrap sym c).registerFile K0 = stackTop sym c - 144#32 ∧
    (kernelTrap sym c).registerFile ZERO = c.registerFile ZERO ∧
    (kernelTrap sym c).mem sym.exceptionDepth = c.mem sym.exceptionDepth + 1 ∧
    Saves c (RegisterContext.load (kernelTrap sym c).mem (stackTop sym c - 144#32)) := by
  obtain ⟨stored, regs, heq, hstored, hsp, hk0, hzero⟩ := kernelTrap_eq sym c
  rw [heq]
  refine ⟨hsp, hk0, hzero, ?_, ?_⟩
  · have hoffsets : ∀ e ∈ savedWords stored c, e.1 + 4 ≤ 144 := by
      have hall : ∀ o ∈ savedRegisters.map Prod.snd ++ [124, 128, 132, 136, 140],
          o + 4 ≤ 144 := by decide
      intro e he
      exact hall e.1 (savedWords_offsets stored c ▸ List.mem_map_of_mem he)
    show Function.update _ _ _ _ = _
    rw [Function.update_self, storeAll_outside hout hoffsets]
  · exact saves_of_savedWords hstored fun o ho => load32_update_of_outside hout ho _

/-- The return from `handleTrap`: `$a0` is the current thread, one trap less is
counted. -/
theorem kernelTrapReturn_spec (c : Core) :
    ∃ regs, kernelTrapReturn sym c = { c with
        registerFile := regs
        mem := Function.update c.mem sym.exceptionDepth (c.mem sym.exceptionDepth - 1) } ∧
      regs A0 = load32 c.mem sym.currentThread ∧ regs ZERO = c.registerFile ZERO := by
  obtain ⟨regs, hc, hregs⟩ := addDepth_eq sym (-1)
    (exec [.la A0 sym.currentThread, .lw A0 0 A0, .addiu SP SP 144] c)
  refine ⟨regs, ?_, ?_, ?_⟩
  · rw [kernelTrapReturn, exec_append, hc]
    simp [exec, Asm.run, Core.setReg, BitVec.sub_eq_add_neg]
  · rw [hregs A0 (by decide) (by decide)]
    simp (disch := decide) [exec, Asm.run, Core.setReg, Function.update_of_ne]
  · rw [hregs ZERO (by decide) (by decide)]
    simp (disch := decide) [exec, Asm.run, Core.setReg, Function.update_of_ne]

/-- CP0 once `run_process` has restored its three registers. -/
def restoredCp0 (cp0 : Reg → Word) (ctx : RegisterContext) : Reg → Word :=
  Function.update (Function.update (Function.update cp0 14 ctx.epc) 12 (ctx.status ||| 2#32)) 13
    ctx.cause

/-- `run_process` reads the special registers from the context at `$k0`. -/
theorem restoreSpecial_eq (c : Core) :
    ∃ regs, exec restoreSpecial c = { c with
        registerFile := regs
        hi := load32 c.mem (c.registerFile K0 + 124#32)
        lo := load32 c.mem (c.registerFile K0 + 128#32)
        cp0 := restoredCp0 c.cp0 (RegisterContext.load c.mem (c.registerFile K0)) } ∧
      regs K0 = c.registerFile K0 ∧ regs ZERO = c.registerFile ZERO ∧
      regs K1 = load32 c.mem (c.registerFile K0 + 132#32) := by
  refine ⟨(exec restoreSpecial c).registerFile, ?_, ?_, ?_, ?_⟩ <;>
    simp (disch := decide) [restoreSpecial, exec, Asm.run, Core.setReg, Core.setCp0,
      restoredCp0, RegisterContext.load, Function.update_of_ne]

/-- The context of a process in the registers. -/
structure Holds (regs : Reg → Word) (hi lo : Word) (ctx : RegisterContext) : Prop where
  general : ∀ r, r ≠ ZERO → r ≠ K0 → r ≠ K1 → regs r = ctx.accessRegister r
  hi : hi = ctx.hiRegister
  lo : lo = ctx.loRegister

/-- `run_process` before its exits: the context at `$a0` is loaded, `$k1` and
CP0 have its EPC and `$k0` has the trap depth. -/
theorem restoreContext_eq (c : Core) :
    ∃ regs hi lo, exec ([.move K0 A0] ++ restoreSpecial ++ loads restoredRegisters K0 ++
        [.la K0 sym.exceptionDepth, .lbu K0 0 K0]) c =
        { c with
          registerFile := regs
          hi := hi
          lo := lo
          cp0 := restoredCp0 c.cp0 (RegisterContext.load c.mem (c.registerFile A0)) } ∧
      Holds regs hi lo (RegisterContext.load c.mem (c.registerFile A0)) ∧
      regs ZERO = c.registerFile ZERO ∧
      regs K0 = (c.mem sym.exceptionDepth).setWidth 32 ∧
      regs K1 = (RegisterContext.load c.mem (c.registerFile A0)).epc := by
  obtain ⟨c1, hc1⟩ : ∃ c1, c1 = c.setReg K0 (c.registerFile A0) := ⟨_, rfl⟩
  have hmove : exec [.move K0 A0] c = c1 := hc1.symm
  have hc1k0 : c1.registerFile K0 = c.registerFile A0 := by simp [hc1, Core.setReg]
  have hc1zero : c1.registerFile ZERO = c.registerFile ZERO := by
    simp (disch := decide) [hc1, Core.setReg, Function.update_of_ne]
  have hc1mem : c1.mem = c.mem := by rw [hc1]; rfl
  have hc1cp0 : c1.cp0 = c.cp0 := by rw [hc1]; rfl
  obtain ⟨regs2, hc2, hk0, hzero, hk1⟩ := restoreSpecial_eq c1
  rw [hc1k0, hc1mem, hc1cp0] at hc2
  rw [hc1k0, hc1mem] at hk1
  obtain ⟨regs3, hc3, hregs3⟩ := loads_frame restoredRegisters K0 (exec restoreSpecial c1)
  have hload := loads_spec restoredRegisters K0 (exec restoreSpecial c1) (by decide) (by decide)
  have hread : ∀ e ∈ restoredRegisters, regs3 e.1 =
      load32 c.mem (c.registerFile A0 + BitVec.ofNat 32 e.2) := by
    intro e he
    have h := hload e he
    rw [hc3, hc2] at h
    rw [← hc1k0, ← hk0]
    exact h
  rw [hc2] at hregs3
  refine ⟨Function.update (Function.update regs3 K0 sym.exceptionDepth) K0
    ((c.mem sym.exceptionDepth).setWidth 32), _, _, ?_, ⟨?_, rfl, rfl⟩, ?_, ?_, ?_⟩
  · rw [exec_append, exec_append, exec_append, hmove, hc3, hc2]
    simp [exec, Asm.run, Core.setReg, hc1, RegisterContext.load]
  · intro r h0 hr0 hr1
    rw [Function.update_of_ne hr0, Function.update_of_ne hr0, load_accessRegister _ _ r h0]
    exact hread _ (saved_register r h0 hr0 hr1).2
  · rw [Function.update_of_ne (by decide), Function.update_of_ne (by decide),
      hregs3 ZERO (by decide)]
    exact hzero.trans hc1zero
  · rw [Function.update_self]
  · rw [Function.update_of_ne (by decide), Function.update_of_ne (by decide),
      hregs3 K1 (by decide)]
    exact hk1

/-- The registers that `run_process` leaves outside of any trap: `$k0` has STATUS and `$k1`
has EPC. -/
def resumedRegisters (zero : Word) (ctx : RegisterContext) (r : Reg) : Word :=
  if r = ZERO then zero
  else if r = K0 then ctx.status ||| 2#32 ||| 1#32
  else if r = K1 then ctx.epc
  else ctx.accessRegister r

/-- **Leaving.**  Outside of any trap `run_process` loads the context at `$a0`, enables
interrupts and leaves through `eret`. -/
theorem runProcess_eq {ctx : RegisterContext} (c : Core) (h0 : c.mem sym.exceptionDepth = 0)
    (hctx : RegisterContext.load c.mem (c.registerFile A0) = ctx) :
    runProcess sym c = { c with
      registerFile := resumedRegisters (c.registerFile ZERO) ctx
      hi := ctx.hiRegister
      lo := ctx.loRegister
      cp0 := Function.update (restoredCp0 c.cp0 ctx) 12 (ctx.status ||| 2#32 ||| 1#32)
      programCounter := ctx.epc + 4#32 } := by
  obtain ⟨regs, hi, lo, hc, hholds, hzero, hk0, hk1⟩ := restoreContext_eq sym c
  rw [hctx] at hc hholds hk1
  obtain ⟨hgeneral, rfl, rfl⟩ := hholds
  have htest : bgtz (regs K0) = false := by
    rw [hk0, bgtz_byte, h0]
    rfl
  have hstatus : restoredCp0 c.cp0 ctx 12 = ctx.status ||| 2#32 := by
    simp (disch := decide) [restoredCp0, Function.update_of_ne]
  have hepc : restoredCp0 c.cp0 ctx 14 = ctx.epc := by
    simp (disch := decide) [restoredCp0, Function.update_of_ne]
  have hregs : Function.update regs K0 (ctx.status ||| 2#32 ||| 1#32) =
      resumedRegisters (c.registerFile ZERO) ctx := by
    funext r
    unfold resumedRegisters
    by_cases hr0 : r = ZERO
    · rw [if_pos hr0, hr0, Function.update_of_ne (by decide), hzero]
    · rw [if_neg hr0]
      by_cases hrk0 : r = K0
      · rw [if_pos hrk0, hrk0, Function.update_self]
      · rw [if_neg hrk0, Function.update_of_ne hrk0]
        by_cases hrk1 : r = K1
        · rw [if_pos hrk1, hrk1, hk1]
        · rw [if_neg hrk1, hgeneral r hr0 hrk0 hrk1]
  rw [← hregs, runProcess, hc]
  simp (disch := decide) [htest, eret, exec, Asm.run, Core.setReg, Core.setCp0,
    Function.update_of_ne, hstatus, hepc]

/-- **Restoring.**  `run_process` loads the context at `$a0` and leaves for its
EPC: exactly through `jr`, four bytes behind it through `eret`. -/
theorem runProcess_spec (c : Core) :
    Holds (runProcess sym c).registerFile (runProcess sym c).hi (runProcess sym c).lo
      (RegisterContext.load c.mem (c.registerFile A0)) ∧
    (runProcess sym c).registerFile ZERO = c.registerFile ZERO ∧
    (runProcess sym c).programCounter =
      if c.mem sym.exceptionDepth = 0
      then (RegisterContext.load c.mem (c.registerFile A0)).epc + 4#32
      else (RegisterContext.load c.mem (c.registerFile A0)).epc := by
  by_cases h0 : c.mem sym.exceptionDepth = 0
  · -- the exit through `eret`
    rw [runProcess_eq sym c h0 rfl, if_pos h0]
    refine ⟨⟨fun r hr0 hr1 hr2 => ?_, rfl, rfl⟩, ?_, rfl⟩
    · exact ((if_neg hr0).trans (if_neg hr1)).trans (if_neg hr2)
    · show resumedRegisters _ (RegisterContext.load c.mem (c.registerFile A0)) ZERO = _
      exact if_pos rfl
  · -- the exit through `jr`
    obtain ⟨regs, hi, lo, hc, hholds, hzero, hk0, hk1⟩ := restoreContext_eq sym c
    have htest : bgtz (regs K0) = true := by
      rw [hk0, bgtz_byte]
      exact decide_eq_true h0
    rw [if_neg h0]
    unfold runProcess
    rw [hc]
    dsimp only
    rw [if_pos htest]
    refine ⟨hholds, hzero, ?_⟩
    show regs K1 - 4#32 + 4#32 = _
    rw [BitVec.sub_add_cancel, hk1]

/-! ### The handler between the two halves -/

/-- The context of the thread after the handler: INTERRUPT, TLB_L and TLB_S
move EPC back by four. -/
def RegisterContext.handled (ctx : RegisterContext) : RegisterContext :=
  match ExceptionType.ofCause ctx.cause with
  | .interrupt | .tlbL | .tlbS => { ctx with epc := ctx.epc - 4#32 }
  | _ => ctx

/-- What the call of `handleTrap` does to the glue when it returns to the same
thread: the handled copy of the context at `$k0` is in the thread's control
block, `currentThread` points there, and the compiled code keeps `$sp`, `$zero`
and the trap depth. -/
structure HandledTrap (thread : Word) (c c' : Core) : Prop where
  sp : c'.registerFile SP = c.registerFile SP
  zero : c'.registerFile ZERO = c.registerFile ZERO
  depth : c'.mem sym.exceptionDepth = c.mem sym.exceptionDepth
  current : load32 c'.mem sym.currentThread = thread
  context : RegisterContext.load c'.mem thread =
    (RegisterContext.load c.mem (c.registerFile K0)).handled

/-- The interrupted code goes on as if there had been no trap. -/
structure Transparent (before after : Core) : Prop where
  programCounter : after.programCounter = before.programCounter
  general : ∀ r, r ≠ K0 → r ≠ K1 → after.registerFile r = before.registerFile r
  hi : after.hi = before.hi
  lo : after.lo = before.lo

/-- The context does not see a byte write outside it. -/
theorem load_update {m : Mem} {x p : Word} (h : Outside x p 144) (b : Byte) :
    RegisterContext.load (Function.update m x b) p = RegisterContext.load m p := by
  have hword : ∀ o : Nat, o + 4 ≤ 144 →
      load32 (Function.update m x b) (p + BitVec.ofNat 32 o) = load32 m (p + BitVec.ofNat 32 o) :=
    fun o ho => load32_update_of_outside h ho b
  have hregs : ∀ i : Fin 31, load32 (Function.update m x b) (p + BitVec.ofNat 32 (4 * i.val)) =
      load32 m (p + BitVec.ofNat 32 (4 * i.val)) := fun i => hword _ (by omega)
  simp only [RegisterContext.load, hregs, hword 124 (by decide), hword 128 (by decide),
    hword 132 (by decide), hword 136 (by decide), hword 140 (by decide)]

/-- The handler changes EPC only. -/
theorem handled_accessRegister (ctx : RegisterContext) (r : Reg) :
    ctx.handled.accessRegister r = ctx.accessRegister r ∧
    ctx.handled.hiRegister = ctx.hiRegister ∧ ctx.handled.loRegister = ctx.loRegister := by
  unfold RegisterContext.handled
  split <;> exact ⟨rfl, rfl, rfl⟩

/-- The handler moves EPC back for an interrupt and for a miss. -/
theorem handled_epc {ctx : RegisterContext} {t : Hardware.Trap}
    (hcode : t.exceptionCode = .interrupt ∨ t.IsMiss)
    (hcause : ctx.cause = t.exceptionCode.toByte.setWidth 32 <<< 2) :
    ctx.handled.epc = ctx.epc - 4#32 := by
  have htype : ExceptionType.ofCause ctx.cause = .interrupt ∨
      ExceptionType.ofCause ctx.cause = .tlbL ∨ ExceptionType.ofCause ctx.cause = .tlbS := by
    rw [hcause]
    rcases hcode with h | h | h <;> rw [h]
    · exact Or.inl (by decide)
    · exact Or.inr (Or.inl (by decide))
    · exact Or.inr (Or.inr (by decide))
  unfold RegisterContext.handled
  rcases htype with h | h | h <;> rw [h]

/-- The exit through `eret` is the machine's: a privileged ERET and the end of
its cycle. -/
theorem eret_ofMachine {fp : Hardware.FpArith} {inp : Hardware.HostInput} {s : Hardware.Machine}
    (hexl : s.exl = true) (mem : Mem) :
    ∃ s', Hardware.Instruction.exceptionReturn.run fp inp s = .next () s' ∧
      Core.ofMachine { s' with programCounter := s'.programCounter + 4#32 } mem =
        eret (Core.ofMachine s mem) := by
  refine ⟨{ s with programCounter := s.cp0 Hardware.SYSRegister.EPC }, ?_, rfl⟩
  simp [Hardware.Instruction.run, Hardware.Machine.privileged, hexl]

/-- The exit through `jr` is the machine's. -/
theorem jr_ofMachine {fp : Hardware.FpArith} {inp : Hardware.HostInput} {s : Hardware.Machine}
    (rs : Reg) (mem : Mem) :
    ∃ s', (Hardware.Instruction.jumpRegister rs).run fp inp s = .next () s' ∧
      Core.ofMachine { s' with programCounter := s'.programCounter + 4#32 } mem =
        jr rs (Core.ofMachine s mem) :=
  ⟨_, rfl, rfl⟩

/-- The whole path from `raiseTrap` at `mid` to the exit of `run_process`. -/
theorem resumed_context {mid : Hardware.Machine} {t : Hardware.Trap} {mem : Mem} {thread : Word}
    {c : Core} (hcode : t.exceptionCode = .interrupt ∨ t.IsMiss)
    (hframe : Outside sym.exceptionDepth
      (stackTop sym (Core.ofMachine (mid.raiseTrap t) mem) - 144#32) 144)
    (hthread : Outside sym.exceptionDepth thread 144)
    (hhandled : HandledTrap sym thread
      (kernelTrap sym (Core.ofMachine (mid.raiseTrap t) mem)) c) :
    let after := runProcess sym (kernelTrapReturn sym c)
    (∀ r, r ≠ K0 → r ≠ K1 → after.registerFile r = mid.registerFile r) ∧
    after.hi = mid.hi ∧ after.lo = mid.lo ∧
    after.programCounter =
      if mem sym.exceptionDepth = 0 then mid.programCounter else mid.programCounter - 4#32 := by
  obtain ⟨hsp, hk0, hzero, hdepth, hsaves⟩ := kernelTrap_spec sym _ hframe
  obtain ⟨regs, hret, ha0, hzero'⟩ := kernelTrapReturn_spec sym c
  have hcontext := hhandled.context
  rw [hk0] at hcontext
  generalize hctx : RegisterContext.load (kernelTrap sym (Core.ofMachine (mid.raiseTrap t) mem)).mem
    (stackTop sym (Core.ofMachine (mid.raiseTrap t) mem) - 144#32) = ctx at hsaves hcontext
  -- the context that `run_process` loads
  have hdepth' : (kernelTrapReturn sym c).mem sym.exceptionDepth = mem sym.exceptionDepth := by
    rw [hret]
    show Function.update _ _ _ _ = _
    rw [Function.update_self, hhandled.depth, hdepth, BitVec.add_sub_cancel]
    rfl
  have hload : RegisterContext.load (kernelTrapReturn sym c).mem
      ((kernelTrapReturn sym c).registerFile A0) = ctx.handled := by
    rw [hret]
    show RegisterContext.load (Function.update _ _ _) (regs A0) = _
    rw [ha0, hhandled.current, load_update hthread, hcontext]
  obtain ⟨hholds, hz, hpc⟩ := runProcess_spec sym (kernelTrapReturn sym c)
  rw [hload] at hholds hpc
  rw [hdepth'] at hpc
  have hepc : ctx.handled.epc = mid.programCounter - 4#32 := by
    rw [handled_epc hcode (by rw [hsaves.cause]; rfl), hsaves.epc]
    rfl
  refine ⟨fun r hr0 hr1 => ?_, ?_, ?_, ?_⟩
  · by_cases h0 : r = ZERO
    · rw [h0, hz, hret]
      show regs ZERO = _
      rw [hzero', hhandled.zero, hzero]
      rfl
    · rw [hholds.general r h0 hr0 hr1, (handled_accessRegister ctx r).1,
        hsaves.general r h0 hr0 hr1]
      rfl
  · rw [hholds.hi, (handled_accessRegister ctx 0).2.1, hsaves.hi]
    rfl
  · rw [hholds.lo, (handled_accessRegister ctx 0).2.2, hsaves.lo]
    rfl
  · rw [hpc, hepc, BitVec.sub_add_cancel]

/-! ### A handler that copies -/

/-- The words of a context, as offsets and values. -/
def RegisterContext.words (ctx : RegisterContext) : List (Nat × Word) :=
  (List.finRange 31).map (fun i => (4 * i.val, ctx.regs i)) ++
    [(124, ctx.hiRegister), (128, ctx.loRegister), (132, ctx.epc), (136, ctx.status),
     (140, ctx.cause)]

/-- `currentThread->regCtx = *trapCtx` after the correction of EPC, and
`currentThread` set. -/
def copyContext (thread : Word) (c : Core) : Core :=
  let ctx := (RegisterContext.load c.mem (c.registerFile K0)).handled
  c.setMem (storeAll (store32 c.mem sym.currentThread thread) thread ctx.words)

/-- Where the words of a context are. -/
theorem words_offsets (ctx : RegisterContext) :
    ctx.words.map Prod.fst =
      (List.finRange 31).map (fun i => 4 * i.val) ++ [124, 128, 132, 136, 140] := by
  simp [RegisterContext.words, Function.comp_def]

/-- They are aligned and lie in the context. -/
theorem words_bounds (ctx : RegisterContext) :
    ∀ e ∈ ctx.words, e.1 % 4 = 0 ∧ e.1 + 4 ≤ 144 := by
  have hall : ∀ o ∈ (List.finRange 31).map (fun i => 4 * i.val) ++ [124, 128, 132, 136, 140],
      o % 4 = 0 ∧ o + 4 ≤ 144 := by decide
  intro e he
  exact hall e.1 (words_offsets ctx ▸ List.mem_map_of_mem he)

/-- A context stored word by word is loaded again. -/
theorem load_storeAll_words (m : Mem) (p : Word) (ctx : RegisterContext) :
    RegisterContext.load (storeAll m p ctx.words) p = ctx := by
  have hword : ∀ o v, (o, v) ∈ ctx.words →
      load32 (storeAll m p ctx.words) (p + BitVec.ofNat 32 o) = v := by
    intro o v he
    refine load32_storeAll (fun e he => ?_) ?_ (o, v) he
    · have h := words_bounds ctx e he
      exact ⟨h.1, by omega⟩
    · rw [words_offsets]
      decide
  have hregs : ∀ i, load32 (storeAll m p ctx.words) (p + BitVec.ofNat 32 (4 * i.val)) =
      ctx.regs i := fun i => hword _ _ (List.mem_append_left _ (List.mem_map.mpr ⟨i, by simp⟩))
  cases ctx with
  | mk regs hi lo epc status cause =>
      simp only [RegisterContext.load, RegisterContext.mk.injEq]
      exact ⟨funext hregs, hword 124 hi (by simp [RegisterContext.words]),
        hword 128 lo (by simp [RegisterContext.words]),
        hword 132 epc (by simp [RegisterContext.words]),
        hword 136 status (by simp [RegisterContext.words]),
        hword 140 cause (by simp [RegisterContext.words])⟩

/-- A control block that is written, and `currentThread` set to it, when the two variables
lie outside the block. -/
theorem storeAll_words {thread : Word} (m : Mem) (ctx : RegisterContext)
    (hdepth : Outside sym.exceptionDepth thread 144)
    (hdepth' : Outside sym.exceptionDepth sym.currentThread 4)
    (hcurrent : ∀ k : Nat, k < 4 → Outside (sym.currentThread + BitVec.ofNat 32 k) thread 144) :
    let m' := storeAll (store32 m sym.currentThread thread) thread ctx.words
    m' sym.exceptionDepth = m sym.exceptionDepth ∧ load32 m' sym.currentThread = thread ∧
      RegisterContext.load m' thread = ctx := by
  have hbound : ∀ e ∈ ctx.words, e.1 + 4 ≤ 144 := fun e he => (words_bounds ctx e he).2
  refine ⟨?_, ?_, load_storeAll_words _ _ _⟩
  · exact (storeAll_outside hdepth hbound).trans (store32_outside hdepth')
  · rw [load32_congr fun k hk => storeAll_outside (hcurrent k hk) hbound, load32_store32_same]

/-- Copying is a handler, when the two variables lie outside the control block. -/
theorem handledTrap_copyContext {thread : Word} (c : Core)
    (hdepth : Outside sym.exceptionDepth thread 144)
    (hdepth' : Outside sym.exceptionDepth sym.currentThread 4)
    (hcurrent : ∀ k : Nat, k < 4 → Outside (sym.currentThread + BitVec.ofNat 32 k) thread 144) :
    HandledTrap sym thread c (copyContext sym thread c) := by
  obtain ⟨hkept, hset, hcontext⟩ := storeAll_words sym c.mem
    (RegisterContext.load c.mem (c.registerFile K0)).handled hdepth hdepth' hcurrent
  exact ⟨rfl, rfl, hkept, hset, hcontext⟩

/-! ### Transparency -/

/-- **Trap transparency.**  An interrupt or a TLB miss leaves the code it
interrupts as it was exactly when it was taken at depth zero: the exit through
`jr` resumes one instruction before the one that must run next. -/
theorem trap_transparent_iff {fp : Hardware.FpArith} {inp : Hardware.HostInput}
    {s s' : Hardware.Machine} {t : Hardware.Trap} {mem : Mem} {thread : Word} {c : Core}
    (hcycle : s.cycle fp inp = .ok (s', some t))
    (hcode : t.exceptionCode = .interrupt ∨ t.IsMiss)
    (hframe : Outside sym.exceptionDepth (stackTop sym (Core.ofMachine s' mem) - 144#32) 144)
    (hthread : Outside sym.exceptionDepth thread 144)
    (hhandled : HandledTrap sym thread (kernelTrap sym (Core.ofMachine s' mem)) c) :
    ∃ mid, Hardware.TrapPoint fp inp s t mid ∧ (t.IsMiss → Hardware.SameCore s mid) ∧
      (Transparent (Core.ofMachine mid mem) (runProcess sym (kernelTrapReturn sym c)) ↔
        mem sym.exceptionDepth = 0) := by
  obtain ⟨mid, hpoint, rfl⟩ := Hardware.cycle_trap hcycle
  refine ⟨mid, hpoint, Hardware.trapPoint_miss hpoint, ?_⟩
  obtain ⟨hregs, hhi, hlo, hpc⟩ := resumed_context sym hcode hframe hthread hhandled
  constructor
  · intro htrans
    by_contra h0
    have hsame := htrans.programCounter
    rw [hpc, if_neg h0] at hsame
    have hfour : mid.programCounter - 4#32 ≠ mid.programCounter := by
      intro h
      bv_omega
    exact hfour hsame
  · intro h0
    rw [if_pos h0] at hpc
    exact ⟨hpc, hregs, hhi, hlo⟩

/-- A layout of the kernel's variables. -/
def layout : Symbols where
  exceptionDepth := 0x80001000#32
  topKstack := 0x80001004#32
  currentThread := 0x80001008#32

/-- A memory in which one trap is already counted. -/
def nestedMem : Mem := Function.update (fun _ => 0) layout.exceptionDepth 1

/-- A machine that misses on its next fetch. -/
def missing : Hardware.Machine := Hardware.Machine.construct 0 0 (fun _ => 0) {}

/-- The machine after the lookup in its instruction cache. -/
def missed : Hardware.Machine :=
  { missing with instructionCache := (missing.instructionCache.index 0).2 }

/-- The thread whose control block is at `0x80002000`, after its handler. -/
def handledMissing : Core :=
  copyContext layout 0x80002000#32
    (kernelTrap layout (Core.ofMachine (missed.raiseTrap { exceptionCode := .tlbL }) nestedMem))

/-- The handler's part of this trap. -/
theorem handledMissing_handled : HandledTrap layout 0x80002000#32
    (kernelTrap layout (Core.ofMachine (missed.raiseTrap { exceptionCode := .tlbL }) nestedMem))
    handledMissing :=
  handledTrap_copyContext layout _ (by decide) (by decide) (by decide)

/-- The cycle that misses. -/
theorem missing_cycle (fp : Hardware.FpArith) :
    missing.cycle fp {} = .ok (missed.raiseTrap { exceptionCode := .tlbL },
      some { exceptionCode := .tlbL }) := rfl

/-- The theorem at a nested miss. -/
theorem nested_miss_transparent_iff :
    ∃ mid, Hardware.TrapPoint ⟨fun _ a _ => a, fun _ a _ => a⟩ {} missing
        { exceptionCode := .tlbL } mid ∧
      (Hardware.Trap.IsMiss { exceptionCode := .tlbL } → Hardware.SameCore missing mid) ∧
      (Transparent (Core.ofMachine mid nestedMem)
          (runProcess layout (kernelTrapReturn layout handledMissing)) ↔
        nestedMem layout.exceptionDepth = 0) :=
  trap_transparent_iff layout (missing_cycle _) (Or.inr (Or.inl rfl)) (by decide) (by decide)
    handledMissing_handled

/-- Transparency fails for a TLB miss taken at depth one: the kernel resumes four
bytes before the faulting instruction. -/
theorem trap_not_always_transparent :
    ¬ ∀ (fp : Hardware.FpArith) (inp : Hardware.HostInput) (s s' : Hardware.Machine)
        (t : Hardware.Trap) (sym : Symbols) (mem : Mem) (thread : Word) (c : Core),
      s.cycle fp inp = .ok (s', some t) → (t.exceptionCode = .interrupt ∨ t.IsMiss) →
      Outside sym.exceptionDepth (stackTop sym (Core.ofMachine s' mem) - 144#32) 144 →
      Outside sym.exceptionDepth thread 144 →
      HandledTrap sym thread (kernelTrap sym (Core.ofMachine s' mem)) c →
      ∃ mid, Hardware.TrapPoint fp inp s t mid ∧ (t.IsMiss → Hardware.SameCore s mid) ∧
        Transparent (Core.ofMachine mid mem) (runProcess sym (kernelTrapReturn sym c)) := by
  intro h
  have hmiss : Hardware.Trap.IsMiss { exceptionCode := .tlbL } := Or.inl rfl
  obtain ⟨mid, -, hsame, htrans⟩ := h ⟨fun _ a _ => a, fun _ a _ => a⟩ {} missing _ _ layout
    nestedMem 0x80002000#32 handledMissing (missing_cycle _) (Or.inr hmiss) (by decide) (by decide)
    handledMissing_handled
  obtain ⟨-, -, -, hpc⟩ := resumed_context layout (Or.inr hmiss) (by decide) (by decide)
    handledMissing_handled
  have hafter := htrans.programCounter
  rw [hpc, if_neg (by decide)] at hafter
  have hmid : (Core.ofMachine mid nestedMem).programCounter = 0 := (hsame hmiss).programCounter
  rw [hmid] at hafter
  exact absurd hafter (by decide)

end Kernel
