import BobbyOS.Machine.CycleEffects

/-!
# Which traps are precise

The kernel restarts an instruction that faulted, so a trap should find the
machine as it was before the instruction.  All instructions check before they
write, except the three that report an overflow: the host builtin stores the
wrapped result through its pointer and only then says that it overflowed.

* `run_raise`: the state in which an instruction other than VMTUNNEL throws;
* `precise_iff`: for which cycles the trap is precise.
-/

namespace Hardware

/-- The instruction reports an overflow in this state. -/
def Instruction.overflows (i : Instruction) (s : Machine) : Bool :=
  match i with
  | rVariable .add _ rt rs => BitVec.saddOverflow (s.registerFile rs) (s.registerFile rt)
  | rVariable .subtract _ rt rs => BitVec.ssubOverflow (s.registerFile rs) (s.registerFile rt)
  | iGeneric .addImmediate _ rs imm =>
      BitVec.saddOverflow (s.registerFile rs) (imm.signExtend 32)
  | _ => false

/-- Everything but the program counter, the CP0 registers that record a trap and
the host's cache of decoded instructions is the same. -/
structure Precise (s s' : Machine) : Prop where
  registerFile : s'.registerFile = s.registerFile
  hi : s'.hi = s.hi
  lo : s'.lo = s.lo
  fpRegisterFile : s'.fpRegisterFile = s.fpRegisterFile
  tlb : s'.tlb = s.tlb
  memory : s'.memory = s.memory
  fileSystem : s'.fileSystem = s.fileSystem
  host : s'.host = s.host
  output : s'.output = s.output
  input : s'.input = s.input
  trapEntry : s'.trapEntry = s.trapEntry
  killed : s'.killed = s.killed
  cp0 : ∀ r, r ∉ trapRegisters → s'.cp0 r = s.cp0 r

/-- What an overflowing instruction leaves in the general registers is what they
held: the wrapped result is the old value of its destination. -/
def LeavesDestination (i : Instruction) (s : Machine) : Prop :=
  i.overflows s = true → applyWrite s.registerFile (i.written s) = s.registerFile

/-- The state in which an instruction throws: unchanged, except for the result
that an overflowing one has stored. -/
def thrownState (i : Instruction) (s : Machine) : Machine :=
  if i.overflows s then { s with registerFile := applyWrite s.registerFile (i.written s) } else s

section Raise

variable {s mid : Machine} {t : Trap} {rd rt rs : Reg} {imm : HalfWord}

/-- An access that traps has changed nothing. -/
theorem ofAccess_raise {α β : Type} {r : Except Fault α} {k : α → Outcome β}
    (hk : ∀ a, k a ≠ .raise t mid) (h : Outcome.ofAccess s r k = .raise t mid) : mid = s := by
  unfold Outcome.ofAccess at h
  split at h
  · exact absurd h (hk _)
  · cases h
    rfl
  · cases h

/-- Nor has a privileged instruction that is refused. -/
theorem privileged_raise {k : Outcome Unit} (hk : k ≠ .raise t mid)
    (h : s.privileged k = .raise t mid) : mid = s := by
  unfold Machine.privileged at h
  split at h
  · exact absurd h hk
  · cases h
    rfl

/-- What an arithmetic instruction leaves when it traps. -/
theorem RVariableOp.run_raise {op : RVariableOp} (h : op.run rd rt rs s = .raise t mid) :
    mid = thrownState (.rVariable op rd rt rs) s := by
  cases op with
  | add | subtract =>
      simp only [run] at h
      split at h
      · rename_i hoverflow
        cases h
        simp only [thrownState, Instruction.overflows, hoverflow, if_true]
        rfl
      · cases h
  | shiftLeftLogicalVariable | shiftRightLogicalVariable | shiftRightArithmeticVariable =>
      simp only [run] at h
      split at h
      · cases h
      · cases h
  | _ => cases h

/-- What one with an immediate leaves when it traps. -/
theorem IGenericOp.run_raise {op : IGenericOp} (h : op.run rt rs imm s = .raise t mid) :
    mid = thrownState (.iGeneric op rt rs imm) s := by
  cases op with
  | addImmediate =>
      simp only [run] at h
      split at h
      · rename_i hoverflow
        cases h
        simp only [thrownState, Instruction.overflows, hoverflow, if_true]
        rfl
      · cases h
  | _ => cases h

/-- A multiplication or a division does not trap. -/
theorem HLOp.run_ne_raise {op : HLOp} : op.run rs rt s ≠ .raise t mid := by
  cases op with
  | multiply | multiplyUnsigned => simp [run]
  | divide | divideUnsigned =>
      simp only [run]
      split
      · simp
      · simp

/-- A load or store throws before it writes. -/
theorem IMemoryOp.run_raise {op : IMemoryOp} (h : op.run rt rs imm s = .raise t mid) :
    mid = s := by
  cases op <;> exact ofAccess_raise (fun _ hk => by cases hk) h

/-- **One instruction.**  When an instruction other than VMTUNNEL throws, the
state is the old one, up to the result of an overflowing addition. -/
theorem Instruction.run_raise {fp : FpArith} {inp : HostInput} {i : Instruction}
    (htunnel : i ≠ .vmTunnel) (h : i.run fp inp s = .raise t mid) : mid = thrownState i s := by
  cases i with
  | rVariable op => exact op.run_raise h
  | iGeneric op => exact op.run_raise h
  | hlOp op => exact absurd h op.run_ne_raise
  | iMemory op => exact op.run_raise h
  | syscall =>
      cases h
      rfl
  | trapIfEqual =>
      simp only [run] at h
      split at h
      · cases h
        rfl
      · cases h
  | moveToCoprocessor0 | moveFromCoprocessor0 | exceptionReturn | tlbProbe | performCacheOp =>
      exact privileged_raise (by simp) h
  | tlbReadIndexed =>
      refine privileged_raise ?_ h
      simp only [Machine.tlbRead]
      split <;> simp
  | tlbWriteIndexed | tlbWriteRandom =>
      refine privileged_raise ?_ h
      simp only [Machine.tlbWrite]
      split <;> simp
  | vmTunnel => exact absurd rfl htunnel
  | _ => cases h

end Raise

/-- The instruction cache plays no part in what is thrown. -/
theorem thrownState_of_cache {i : Instruction} {s : Machine} {cache : InstructionCache} :
    thrownState i { s with instructionCache := cache } =
      { s with instructionCache := cache,
               registerFile := if i.overflows s then applyWrite s.registerFile (i.written s)
                 else s.registerFile } := by
  have hoverflows : i.overflows { s with instructionCache := cache } = i.overflows s := rfl
  have hwritten : i.written { s with instructionCache := cache } = i.written s := rfl
  unfold thrownState
  rw [hoverflows, hwritten]
  split
  · rfl
  · rfl

/-! ### The cycle -/

variable {fp : FpArith} {inp : HostInput} {s s' : Machine} {t : Trap}

/-- A trap taken in a state that differs from `s` in the registers and the
instruction cache only is precise exactly when it does not differ there. -/
theorem precise_raiseTrap_iff {regs : Reg → Word} {cache : InstructionCache} :
    Precise s (Machine.raiseTrap
      { s with instructionCache := cache, registerFile := regs } t) ↔ regs = s.registerFile := by
  constructor
  · intro h
    have hregs := h.registerFile
    rw [Machine.raiseTrap_eq] at hregs
    exact hregs
  · intro hregs
    have hcp0 : ∀ r, r ∉ trapRegisters → (Machine.raiseTrap
        { s with instructionCache := cache, registerFile := regs } t).cp0 r = s.cp0 r :=
      fun r hr => Machine.raiseTrap_cp0 hr
    rw [Machine.raiseTrap_eq] at hcp0 ⊢
    exact ⟨hregs, rfl, rfl, rfl, rfl, rfl, rfl, rfl, rfl, rfl, rfl, rfl, hcp0⟩

/-- **Precise traps.**  A cycle that raises a synchronous trap, with any
instruction but VMTUNNEL, is precise exactly when the instruction it fetched, if
it overflows, leaves its destination as it was. -/
theorem precise_iff (hcycle : s.cycle fp inp = .ok (s', some t))
    (hsync : t.exceptionCode ≠ .interrupt) (htunnel : ∀ s1, s.fetch ≠ .next .vmTunnel s1) :
    Precise s s' ↔ ∀ i s1, s.fetch = .next i s1 → LeavesDestination i s := by
  obtain ⟨mid, hpoint, rfl⟩ := cycle_trap hcycle
  cases hpoint with
  | fetch hfetch =>
      obtain ⟨cache, rfl⟩ := Machine.fetch_ends.of_raise hfetch
      constructor
      · intro _ i s1 hnext
        rw [hfetch] at hnext
        cases hnext
      · intro _
        exact precise_raiseTrap_iff.mpr rfl
  | interrupt i s1 s2 hfetch hrun hcode hmid => exact absurd hcode hsync
  | run i s1 hfetch hrun =>
      obtain ⟨cache, rfl⟩ := Machine.fetch_next hfetch
      have hne : i ≠ .vmTunnel := by
        intro hi
        subst hi
        exact htunnel _ hfetch
      obtain rfl := Instruction.run_raise hne hrun
      rw [thrownState_of_cache, precise_raiseTrap_iff]
      constructor
      · intro hregs i' s1' hnext hoverflow
        rw [hfetch] at hnext
        obtain ⟨rfl, -⟩ := Outcome.next.inj hnext
        rwa [if_pos hoverflow] at hregs
      · intro h
        split
        · rename_i hoverflow
          exact h i _ hfetch hoverflow
        · rfl

/-- A machine that is about to execute the word of these four bytes. -/
def wordMachine (b0 b1 b2 b3 : Byte) : Machine :=
  Machine.construct 0x80000000#32 0x80000100#32 (fun a => ([b0, b1, b2, b3])[a % 4]?.getD 0) {}

/-- The machine of `addi $1, $2, 1` with the greatest integer in `$2`. -/
def addImmediateMachine : Machine := (wordMachine 0x20 0x41 0 1).setReg 2 0x7FFFFFFF#32

/-- `syscall` is precise. -/
theorem syscall_precise :
    ∃ s', (wordMachine 0 0 0 0x0c).cycle ⟨fun _ a _ => a, fun _ a _ => a⟩ {} =
        .ok (s', some { exceptionCode := .syscall }) ∧ Precise (wordMachine 0 0 0 0x0c) s' := by
  obtain ⟨s1, hfetch⟩ : ∃ s1, (wordMachine 0 0 0 0x0c).fetch = .next .syscall s1 := ⟨_, rfl⟩
  obtain ⟨cache, rfl⟩ := Machine.fetch_next hfetch
  have hcycle : (wordMachine 0 0 0 0x0c).cycle ⟨fun _ a _ => a, fun _ a _ => a⟩ {} =
      .ok (Machine.raiseTrap { wordMachine 0 0 0 0x0c with instructionCache := cache }
        { exceptionCode := .syscall }, some { exceptionCode := .syscall }) := by
    simp only [Machine.cycle, hfetch, Instruction.run]
  refine ⟨_, hcycle, (precise_iff hcycle (by decide) ?_).mpr ?_⟩
  · intro s1 hnext
    rw [hfetch] at hnext
    cases hnext
  · intro i s1 hnext hoverflow
    rw [hfetch] at hnext
    cases hnext
    cases hoverflow

/-- ADDI with the greatest integer overflows, and has already written the least
integer to its destination. -/
theorem addImmediate_not_precise :
    ¬ ∀ (fp : FpArith) (inp : HostInput) (s s' : Machine) (t : Trap),
      s.cycle fp inp = .ok (s', some t) → t.exceptionCode ≠ .interrupt →
      (∀ s1, s.fetch ≠ .next .vmTunnel s1) → Precise s s' := by
  intro h
  obtain ⟨s1, hfetch⟩ : ∃ s1, addImmediateMachine.fetch =
      .next (.iGeneric .addImmediate 1 2 1#16) s1 := ⟨_, rfl⟩
  obtain ⟨cache, rfl⟩ := Machine.fetch_next hfetch
  have hoverflow : BitVec.saddOverflow (addImmediateMachine.registerFile 2)
      ((1#16).signExtend 32) = true := by decide
  have hcycle : addImmediateMachine.cycle ⟨fun _ a _ => a, fun _ a _ => a⟩ {} =
      .ok (Machine.raiseTrap (Machine.setReg { addImmediateMachine with instructionCache := cache } 1
        (addImmediateMachine.registerFile 2 + (1#16).signExtend 32)) { exceptionCode := .overflow },
        some { exceptionCode := .overflow }) := by
    simp only [Machine.cycle, hfetch, Instruction.run, IGenericOp.run, hoverflow, if_true]
  have hprecise := h _ _ addImmediateMachine _ _ hcycle (by decide) (by
    intro s1 hnext
    rw [hfetch] at hnext
    cases hnext)
  have hkept : addImmediateMachine.registerFile 2 + (1#16).signExtend 32 =
      addImmediateMachine.registerFile 1 := by
    have hregs := congrFun hprecise.registerFile 1
    rw [Machine.raiseTrap_eq] at hregs
    simpa [Machine.setReg] using hregs
  exact absurd hkept (by decide)

end Hardware
