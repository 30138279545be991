import BobbyOS.Machine.TrapPoint

/-!
# What a cycle can change

A cycle fetches, runs and then either goes on or enters the trap handler.  The
rules here reduce a statement about the state behind a cycle to one about the
instruction that was fetched: `Outcome.Ends` is a condition on every state in
which a run can end, whether it returns or throws.

* `cycle_ends`: what the fetch and the instruction establish holds in the state
  that the cycle hands over;
* `run_written`: the one general register that an instruction writes, and the
  value it gets.
-/

namespace Hardware

namespace Outcome

variable {α β : Type} {P Q : Machine → Prop}

/-- Every state in which the outcome ends satisfies `P`. -/
def Ends (P : Machine → Prop) : Outcome α → Prop
  | .next _ s => P s
  | .raise _ s => P s
  | .abort _ => True

/-- An access that fails leaves the machine as it was. -/
theorem ends_ofAccess {s : Machine} {r : Except Fault α} {k : α → Outcome β} (hs : P s)
    (hk : ∀ a, r = .ok a → (k a).Ends P) : (ofAccess s r k).Ends P := by
  unfold ofAccess
  split
  · exact hk _ rfl
  · exact hs
  · trivial

/-- A privileged instruction does nothing where it is refused. -/
theorem ends_privileged {s : Machine} {k : Outcome Unit} (hs : P s)
    (hk : s.exl = true → k.Ends P) : (s.privileged k).Ends P := by
  unfold Machine.privileged
  split
  · rename_i hexl
    exact hk hexl
  · exact hs

/-- A weaker property holds at the end, too. -/
theorem Ends.mono {o : Outcome α} (h : o.Ends P) (hPQ : ∀ s, P s → Q s) : o.Ends Q := by
  cases o with
  | next a s => exact hPQ s h
  | raise t s => exact hPQ s h
  | abort f => trivial

/-- The property of a run that goes on. -/
theorem Ends.of_next {o : Outcome α} {a : α} {s : Machine} (h : o.Ends P) (ho : o = .next a s) :
    P s := by
  subst ho
  exact h

/-- The property of a run that traps. -/
theorem Ends.of_raise {o : Outcome α} {t : Trap} {s : Machine} (h : o.Ends P)
    (ho : o = .raise t s) : P s := by
  subst ho
  exact h

end Outcome

/-- The four CP0 registers that `Core::raiseTrap` writes. -/
def trapRegisters : List Reg :=
  [SYSRegister.EPC, SYSRegister.STATUS, SYSRegister.CAUSE, SYSRegister.BAD_VADDR]

namespace Machine

variable {fp : FpArith} {inp : HostInput} {s s' : Machine} {P : Machine → Prop}

/-- Fetching changes the instruction cache only, also when it throws. -/
theorem fetch_ends : s.fetch.Ends fun mid => ∃ cache, mid = { s with instructionCache := cache } := by
  unfold fetch
  simp only
  split
  · exact ⟨_, rfl⟩
  · apply Outcome.ends_ofAccess ⟨_, rfl⟩
    intro w _
    apply Outcome.ends_ofAccess ⟨_, rfl⟩
    intro i _
    exact ⟨_, rfl⟩

/-- A fetch past the instruction cache decodes the word in memory. -/
theorem fetch_of_word {w : Word}
    (hc : (s.instructionCache.index s.programCounter).1 = none)
    (hw : s.getWord s.programCounter = .ok w) :
    s.fetch =
      let s := { s with instructionCache := (s.instructionCache.index s.programCounter).2 }
      Outcome.ofAccess s (IntegerUnit.decode s.programCounter w) fun i =>
        .next i { s with instructionCache := s.instructionCache.assignFront (some i) } := by
  have hw' : Machine.getWord
      { s with instructionCache := (s.instructionCache.index s.programCounter).2 }
      s.programCounter = .ok w := hw
  unfold fetch
  simp only [hc]
  rw [hw']
  rfl

/-- A cycle without a trap ran the fetched instruction to its end. -/
theorem cycle_next (h : s.cycle fp inp = .ok (s', none)) :
    ∃ i s1 s2, s.fetch = .next i s1 ∧ i.run fp inp s1 = .next () s2 ∧
      s' = { s2 with programCounter := s2.programCounter + 4#32 } := by
  unfold cycle at h
  cases hf : s.fetch with
  | abort f => simp [hf] at h
  | raise t s1 => simp [hf] at h
  | next i s1 =>
      cases hr : i.run fp inp s1 with
      | abort f => simp [hf, hr] at h
      | raise t s2 => simp [hf, hr] at h
      | next u s2 =>
          simp only [hf, hr] at h
          split at h
          · simp at h
          · simp only [Except.ok.injEq, Prod.mk.injEq, and_true] at h
            exact ⟨i, s1, s2, rfl, hr, h.symm⟩

/-- Entering the trap handler writes CP0 registers and the program counter. -/
theorem raiseTrap_eq (s : Machine) (t : Trap) :
    s.raiseTrap t = { s with cp0 := (s.raiseTrap t).cp0, programCounter := s.trapEntry } := by
  simp only [raiseTrap, setCp0]

/-- Entering the trap handler writes four CP0 registers and nothing else of the
system state. -/
theorem raiseTrap_cp0 {s : Machine} {t : Trap} {r : Reg} (hr : r ∉ trapRegisters) :
    (s.raiseTrap t).cp0 r = s.cp0 r := by
  simp only [trapRegisters, List.mem_cons, List.not_mem_nil, or_false, not_or] at hr
  obtain ⟨hepc, hstatus, hcause, hbad⟩ := hr
  simp only [raiseTrap, setCp0]
  rw [Function.update_of_ne hstatus, Function.update_of_ne hcause, Function.update_of_ne hbad,
    Function.update_of_ne hstatus, Function.update_of_ne hepc]

/-- **One cycle.**  A condition that does not look at the program counter, and
that both a failed fetch and the fetched instruction establish, holds in the
state that the cycle hands over to the next one or to the trap entry. -/
theorem cycle_ends {t : Option Trap} (hfetch : ∀ t mid, s.fetch = .raise t mid → P mid)
    (hrun : ∀ i s1, s.fetch = .next i s1 → (i.run fp inp s1).Ends P)
    (hpc : ∀ mid pc, P mid → P { mid with programCounter := pc })
    (h : s.cycle fp inp = .ok (s', t)) :
    ∃ mid, P mid ∧ (t = none → s' = mid) ∧
      ∀ trap, t = some trap → TrapPoint fp inp s trap mid ∧ s' = mid.raiseTrap trap := by
  cases t with
  | none =>
      obtain ⟨i, s1, s2, hf, hr, rfl⟩ := cycle_next h
      have hend : P s2 := (hrun i s1 hf).of_next hr
      exact ⟨_, hpc s2 _ hend, fun _ => rfl, fun _ ht => by cases ht⟩
  | some trap =>
      obtain ⟨mid, hpoint, rfl⟩ := cycle_trap h
      refine ⟨mid, ?_, (fun ht => by cases ht), fun _ ht => ?_⟩
      · cases hpoint with
        | fetch hf => exact hfetch trap mid hf
        | run i s1 hf hr => exact (hrun i s1 hf).of_raise hr
        | interrupt i s1 s2 hf hr hcode hmid =>
            subst hmid
            exact hpc s2 _ ((hrun i s1 hf).of_next hr)
      · cases ht
        exact ⟨hpoint, rfl⟩

end Machine

/-! ### The register an instruction writes -/

/-- The general register that an instruction writes, and the value, from the
state in which it runs.  ADD and SUB name `rt` as their destination. -/
def RVariableOp.written (op : RVariableOp) (rd rt rs : Reg) (s : Machine) : Option (Reg × Word) :=
  let a := s.registerFile rs
  let b := s.registerFile rt
  match op with
  | add => some (rt, a + b)
  | subtract => some (rt, a - b)
  | addUnsigned => some (rd, a + b)
  | and => some (rd, a &&& b)
  | nor => some (rd, ~~~(a ||| b))
  | or => some (rd, a ||| b)
  | xor => some (rd, a ^^^ b)
  | setLessThan => some (rd, wordOfBool (a.slt b))
  | setLessThanUnsigned => some (rd, wordOfBool (a.ult b))
  | subtractUnsigned => some (rd, a - b)
  | shiftLeftLogicalVariable => some (rd, b <<< a.toNat)
  | shiftRightLogicalVariable => some (rd, b >>> a.toNat)
  | shiftRightArithmeticVariable => some (rd, b.sshiftRight a.toNat)
  | moveOnNotZero => if b ≠ 0 then some (rd, a) else none
  | multiplyToGPR => some (rd, (a.signExtend 64 * b.signExtend 64).setWidth 32)

/-- What a shift writes. -/
def RShiftOp.written (op : RShiftOp) (rd rt : Reg) (shamt : Nat) (s : Machine) :
    Option (Reg × Word) :=
  let b := s.registerFile rt
  match op with
  | shiftLeftLogical => some (rd, b <<< shamt)
  | shiftRightLogical => some (rd, b >>> shamt)
  | shiftRightArithmetic => some (rd, b.sshiftRight shamt)

/-- What a move from or to HI and LO writes. -/
def HLMoveOp.written (op : HLMoveOp) (r : Reg) (s : Machine) : Option (Reg × Word) :=
  match op with
  | moveFromHi => some (r, s.hi)
  | moveFromLo => some (r, s.lo)
  | moveToHi => none
  | moveToLo => none

/-- What an instruction with an immediate writes. -/
def IGenericOp.written (op : IGenericOp) (rt rs : Reg) (imm : HalfWord) (s : Machine) :
    Option (Reg × Word) :=
  let a := s.registerFile rs
  match op with
  | addImmediate => some (rt, a + imm.signExtend 32)
  | addImmediateUnsigned => some (rt, a + imm.signExtend 32)
  | andImmediate => some (rt, a &&& imm.setWidth 32)
  | orImmediate => some (rt, a ||| imm.setWidth 32)
  | xorImmediate => some (rt, a ^^^ imm.setWidth 32)
  | setLessThanImmediate => some (rt, wordOfBool (a.slt (imm.signExtend 32)))
  | setLessThanImmediateUnsigned => some (rt, wordOfBool (a.ult (imm.setWidth 32)))

/-- What a load finds at its address; nothing when the access does not succeed. -/
def IMemoryOp.written (op : IMemoryOp) (rt rs : Reg) (imm : HalfWord) (s : Machine) :
    Option (Reg × Word) :=
  let addr := effectiveAddress (s.registerFile rs) imm
  let byte := (s.memory.getByte addr s.tlb s.asid).toOption
  let half := (s.memory.getHalfWord addr s.tlb s.asid).toOption
  let word := (s.memory.getWord addr s.tlb s.asid).toOption
  match op with
  | loadByte => byte.map fun b => (rt, b.signExtend 32)
  | loadByteUnsigned => byte.map fun b => (rt, b.setWidth 32)
  | loadHalfword => half.map fun h => (rt, h.signExtend 32)
  | loadHalfwordUnsigned => half.map fun h => (rt, h.setWidth 32)
  | loadWord => word.map fun w => (rt, w)
  | _ => none

/-- **What an instruction writes** to the registers. -/
def Instruction.written (i : Instruction) (s : Machine) : Option (Reg × Word) :=
  match i with
  | rVariable op rd rt rs => op.written rd rt rs s
  | rShift op rd rt shamt => op.written rd rt shamt s
  | hlMove op r => op.written r s
  | iGeneric op rt rs imm => op.written rt rs imm s
  | iMemory op rt rs imm => op.written rt rs imm s
  | loadUpperImmediate rt imm => some (rt, imm.setWidth 32 <<< 16)
  | jumpAndLink _ ra => some (ra, s.programCounter + 4#32)
  | jumpAndLinkRegister rd _ => some (rd, s.programCounter + 4#32)
  | moveFromCoprocessor0 rt rd => if s.exl then some (rt, s.cp0 rd) else none
  | _ => none

/-- The register file after at most one write. -/
def applyWrite (regs : Reg → Word) : Option (Reg × Word) → Reg → Word
  | some (r, v) => Function.update regs r v
  | none => regs

section Tunnel

variable {α β : Type} {P : Machine → Prop} {s : Machine}

/-- A condition that does not look at the memory or at the devices. -/
def IgnoresDevices (P : Machine → Prop) : Prop :=
  ∀ s m fs h o i k, P s →
    P { s with memory := m, fileSystem := fs, host := h, output := o, input := i, killed := k }

variable (hP : IgnoresDevices P)
include hP

/-- A store keeps a property that does not look at the memory. -/
theorem ends_store {r : Except Fault Memory} {k : Machine → Outcome β} (hs : P s)
    (hk : ∀ s, P s → (k s).Ends P) : (s.store r k).Ends P := by
  apply Outcome.ends_ofAccess hs
  intro m _
  exact hk _ (hP s m _ _ _ _ _ hs)

/-- Stores of bytes do. -/
theorem ends_storeBytes {addr : Word} {bytes : List Byte} {k : Machine → Outcome β} (hs : P s)
    (hk : ∀ s, P s → (k s).Ends P) : (s.storeBytes addr bytes k).Ends P := by
  induction bytes generalizing s addr with
  | nil => exact hk s hs
  | cons b rest ih => exact ends_store hP hs fun _ h => ih h

/-- So does the reply of a request to the host. -/
theorem ends_respond {resAddr res err : Word} (hs : P s) : (s.respond resAddr res err).Ends P :=
  ends_store hP hs fun _ h => ends_store hP h fun _ h => h

/-- So does a seek. -/
theorem ends_fseek {inp : HostInput} {resAddr arg0 arg1 arg2 : Word} (hs : P s) :
    (s.fseek inp resAddr arg0 arg1 arg2).Ends P := by
  apply Outcome.ends_ofAccess hs
  intro file _
  exact ends_respond hP (hP s _ _ _ _ _ _ hs)

/-- So does every request to the host. -/
theorem ends_vmRequest {inp : HostInput} {resAddr req arg0 arg1 arg2 : Word} (hs : P s) :
    (s.vmRequest inp resAddr req arg0 arg1 arg2).Ends P := by
  have hdev := fun m fs h o i k => hP s m fs h o i k hs
  unfold Machine.vmRequest
  split
  · exact ends_respond hP (hdev _ _ _ _ _ _)
  · exact Outcome.ends_ofAccess hs fun _ _ => ends_respond hP (hdev _ _ _ _ _ _)
  · exact ends_respond hP (hdev _ _ _ _ _ _)
  · exact ends_respond hP (hdev _ _ _ _ _ _)
  · exact Outcome.ends_ofAccess hs fun _ _ => Outcome.ends_ofAccess hs fun _ _ =>
      ends_respond hP (hdev _ _ _ _ _ _)
  · exact Outcome.ends_ofAccess hs fun _ _ => Outcome.ends_ofAccess hs fun _ _ =>
      ends_storeBytes hP (hdev _ _ _ _ _ _) fun _ h => ends_respond hP h
  · exact ends_fseek hP hs
  · exact ends_fseek hP hs
  · exact Outcome.ends_ofAccess hs fun _ _ => ends_respond hP (hdev _ _ _ _ _ _)
  · split
    · trivial
    · exact ends_storeBytes hP (hdev _ _ _ _ _ _) fun _ h => ends_respond hP h
  · exact ends_respond hP hs

/-- So does the instruction that sends them. -/
theorem ends_vmTunnel {inp : HostInput} (hs : P s) : (s.vmTunnel inp).Ends P := by
  apply Outcome.ends_privileged hs
  intro _
  exact Outcome.ends_ofAccess hs fun _ _ => Outcome.ends_ofAccess hs fun _ _ =>
    Outcome.ends_ofAccess hs fun _ _ => Outcome.ends_ofAccess hs fun _ _ => ends_vmRequest hP hs

end Tunnel

/-- The general registers are `regs`, whatever else happened. -/
def HoldsRegisters (regs : Reg → Word) (s : Machine) : Prop := s.registerFile = regs

/-- The registers do not depend on the devices. -/
theorem holdsRegisters_ignoresDevices {regs : Reg → Word} :
    IgnoresDevices (HoldsRegisters regs) := fun _ _ _ _ _ _ _ h => h

section Written

variable {rd rt rs : Reg} {imm : HalfWord} {s : Machine}

/-- An arithmetic instruction writes what it says. -/
theorem RVariableOp.run_written (op : RVariableOp) :
    (op.run rd rt rs s).Ends (HoldsRegisters (applyWrite s.registerFile (op.written rd rt rs s))) := by
  cases op with
  | add | subtract =>
      simp only [run]
      split <;> rfl
  | shiftLeftLogicalVariable | shiftRightLogicalVariable | shiftRightArithmeticVariable =>
      simp only [run]
      split
      · rfl
      · trivial
  | moveOnNotZero =>
      simp only [run, written]
      split <;> rfl
  | _ => rfl

/-- A multiplication or a division writes no register. -/
theorem HLOp.run_written (op : HLOp) :
    (op.run rs rt s).Ends (HoldsRegisters s.registerFile) := by
  cases op with
  | multiply | multiplyUnsigned => rfl
  | divide | divideUnsigned =>
      simp only [run]
      split
      · trivial
      · rfl

/-- An instruction with an immediate writes what it says. -/
theorem IGenericOp.run_written (op : IGenericOp) :
    (op.run rt rs imm s).Ends
      (HoldsRegisters (applyWrite s.registerFile (op.written rt rs imm s))) := by
  cases op with
  | addImmediate =>
      simp only [run]
      split <;> rfl
  | _ => rfl

/-- A load that ends in the middle of its access writes nothing. -/
theorem ends_load {α : Type} {r : Except Fault α} {extend : α → Word} :
    (Outcome.ofAccess s r fun a => .next () (s.setReg rt (extend a))).Ends
      (HoldsRegisters (applyWrite s.registerFile (r.toOption.map fun a => (rt, extend a)))) := by
  cases r with
  | ok a => rfl
  | error e => cases e <;> trivial

/-- A load writes the loaded register, and a store none. -/
theorem IMemoryOp.run_written (op : IMemoryOp) :
    (op.run rt rs imm s).Ends
      (HoldsRegisters (applyWrite s.registerFile (op.written rt rs imm s))) := by
  cases op with
  | loadByte | loadByteUnsigned | loadHalfword | loadHalfwordUnsigned | loadWord =>
      exact ends_load
  | loadFPSingle => exact Outcome.ends_ofAccess rfl fun _ _ => rfl
  | storeByte | storeHalfword | storeWord | storeFPSingle =>
      exact ends_store holdsRegisters_ignoresDevices rfl fun _ h => h

/-- **The general registers behind an instruction**: one write at most, made
also when the instruction then reports an overflow. -/
theorem Instruction.run_written (fp : FpArith) (inp : HostInput) (i : Instruction) (s : Machine) :
    (i.run fp inp s).Ends (HoldsRegisters (applyWrite s.registerFile (i.written s))) := by
  cases i with
  | rVariable op rd rt rs => exact op.run_written
  | rShift op => cases op <;> rfl
  | hlMove op => cases op <;> rfl
  | hlOp op => exact op.run_written
  | iGeneric op => exact op.run_written
  | iMemory op => exact op.run_written
  | iBranch | iBranchZero =>
      simp only [run, branchBy]
      split <;> rfl
  | trapIfEqual =>
      simp only [run]
      split <;> rfl
  | moveFromCoprocessor0 =>
      simp only [run, written, Machine.privileged]
      split <;> rfl
  | moveToCoprocessor0 | exceptionReturn | tlbProbe | performCacheOp =>
      exact Outcome.ends_privileged rfl fun _ => rfl
  | tlbReadIndexed =>
      refine Outcome.ends_privileged rfl fun _ => ?_
      simp only [Machine.tlbRead]
      split
      · rfl
      · trivial
  | tlbWriteIndexed | tlbWriteRandom =>
      refine Outcome.ends_privileged rfl fun _ => ?_
      simp only [Machine.tlbWrite]
      split
      · rfl
      · trivial
  | vmTunnel => exact ends_vmTunnel holdsRegisters_ignoresDevices rfl
  | _ => rfl

end Written

end Hardware
