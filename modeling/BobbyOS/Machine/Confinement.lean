import BobbyOS.Machine.CycleEffects

/-!
# What code without privilege can change

With EXL clear, the instructions that reach the TLB, the devices and the CP0
registers all refuse to run, and no other instruction holds a reference to
them.  So a cycle leaves the system state alone, apart from what entering the
trap handler itself writes.

* `run_keepsSystem`: every instruction that is not privileged;
* `decode_systemWord`: the words that decode to a privileged instruction, or to
  none;
* `cycle_confined` puts both together for one cycle.
-/

namespace Hardware

/-- The TLB, the devices, the CP0 registers and the trap entry are the same. -/
structure KeepsSystem (s s' : Machine) : Prop where
  tlb : s'.tlb = s.tlb
  fileSystem : s'.fileSystem = s.fileSystem
  host : s'.host = s.host
  output : s'.output = s.output
  input : s'.input = s.input
  killed : s'.killed = s.killed
  trapEntry : s'.trapEntry = s.trapEntry
  cp0 : s'.cp0 = s.cp0

/-- Nothing has changed. -/
theorem KeepsSystem.refl (s : Machine) : KeepsSystem s s := ⟨rfl, rfl, rfl, rfl, rfl, rfl, rfl, rfl⟩

/-- A word of coprocessor 0, CACHE or VMTUNNEL. -/
def systemWord (w : Word) : Bool :=
  (w >>> 26).toNat == 0x10 || (w >>> 26).toNat == 0b101111 ||
    ((w >>> 26).toNat == 0 && w.toNat % 64 == 0x3f)

/-- The cycle executes the word `w`: the instruction cache holds its decoding, or
holds nothing for this address and memory yields `w`. -/
def FetchesWord (s : Machine) (w : Word) : Prop :=
  match (s.instructionCache.index s.programCounter).1 with
  | some i => IntegerUnit.decode s.programCounter w = .ok i
  | none => s.getWord s.programCounter = .ok w

/-- What a cycle without privilege may do.  `trapped`: EPC, STATUS, CAUSE and
BAD_VADDR are those of `raiseTrap` at the trap point. -/
structure Confined (fp : FpArith) (inp : HostInput) (s s' : Machine) (t : Option Trap) : Prop where
  tlb : s'.tlb = s.tlb
  fileSystem : s'.fileSystem = s.fileSystem
  host : s'.host = s.host
  output : s'.output = s.output
  input : s'.input = s.input
  killed : s'.killed = s.killed
  trapEntry : s'.trapEntry = s.trapEntry
  untrapped : t = none → s'.cp0 = s.cp0
  trapped : ∀ trap, t = some trap → s'.programCounter = s.trapEntry ∧
    (∀ r, r ∉ trapRegisters → s'.cp0 r = s.cp0 r) ∧
    ∃ mid, TrapPoint fp inp s trap mid ∧
      s'.cp0 = (Machine.raiseTrap { s with programCounter := mid.programCounter } trap).cp0
  refused : ∀ w, FetchesWord s w → systemWord w = true → t = some { exceptionCode := .ri }

variable {fp : FpArith} {inp : HostInput}

/-! ### The instructions -/

section Instructions

variable {s : Machine} {rd rt rs : Reg} {imm : HalfWord}

/-- An arithmetic instruction changes no system state. -/
theorem RVariableOp.run_keepsSystem (op : RVariableOp) :
    (op.run rd rt rs s).Ends (KeepsSystem s) := by
  have hreg : ∀ r v, KeepsSystem s (s.setReg r v) :=
    fun _ _ => ⟨rfl, rfl, rfl, rfl, rfl, rfl, rfl, rfl⟩
  cases op with
  | add | subtract =>
      simp only [run]
      split
      · exact hreg _ _
      · exact hreg _ _
  | shiftLeftLogicalVariable | shiftRightLogicalVariable | shiftRightArithmeticVariable =>
      simp only [run]
      split
      · exact hreg _ _
      · trivial
  | moveOnNotZero =>
      simp only [run]
      split
      · exact hreg _ _
      · exact .refl s
  | _ => exact hreg _ _

/-- Nor does a multiplication or a division. -/
theorem HLOp.run_keepsSystem (op : HLOp) : (op.run rs rt s).Ends (KeepsSystem s) := by
  cases op with
  | multiply | multiplyUnsigned => exact ⟨rfl, rfl, rfl, rfl, rfl, rfl, rfl, rfl⟩
  | divide | divideUnsigned =>
      simp only [run]
      split
      · trivial
      · exact ⟨rfl, rfl, rfl, rfl, rfl, rfl, rfl, rfl⟩

/-- Nor does one with an immediate. -/
theorem IGenericOp.run_keepsSystem (op : IGenericOp) :
    (op.run rt rs imm s).Ends (KeepsSystem s) := by
  cases op with
  | addImmediate =>
      simp only [run]
      split
      · exact ⟨rfl, rfl, rfl, rfl, rfl, rfl, rfl, rfl⟩
      · exact ⟨rfl, rfl, rfl, rfl, rfl, rfl, rfl, rfl⟩
  | _ => exact ⟨rfl, rfl, rfl, rfl, rfl, rfl, rfl, rfl⟩

/-- Loads and stores go through the accessors, which only read the TLB. -/
theorem IMemoryOp.run_keepsSystem (op : IMemoryOp) :
    (op.run rt rs imm s).Ends (KeepsSystem s) := by
  cases op <;>
    exact Outcome.ends_ofAccess (.refl s) fun _ _ => ⟨rfl, rfl, rfl, rfl, rfl, rfl, rfl, rfl⟩

/-- Nor does a branch. -/
theorem branchBy_keepsSystem {taken : Bool} : KeepsSystem s (branchBy s taken imm) := by
  cases taken <;> exact ⟨rfl, rfl, rfl, rfl, rfl, rfl, rfl, rfl⟩

/-- **Every unprivileged instruction** leaves the system state alone, also when
it throws. -/
theorem Instruction.run_keepsSystem {i : Instruction} (h : i.isPrivileged = false) :
    (i.run fp inp s).Ends (KeepsSystem s) := by
  cases i with
  | rVariable op => exact op.run_keepsSystem
  | rShift op => cases op <;> exact ⟨rfl, rfl, rfl, rfl, rfl, rfl, rfl, rfl⟩
  | hlMove op => cases op <;> exact ⟨rfl, rfl, rfl, rfl, rfl, rfl, rfl, rfl⟩
  | hlOp op => exact op.run_keepsSystem
  | iGeneric op => exact op.run_keepsSystem
  | iMemory op => exact op.run_keepsSystem
  | iBranch => exact branchBy_keepsSystem
  | iBranchZero => exact branchBy_keepsSystem
  | trapIfEqual =>
      simp only [run]
      split
      · exact .refl s
      · exact .refl s
  | loadUpperImmediate | jump | jumpAndLink | jumpRegister | jumpAndLinkRegister | syscall | sync
  | frSingle | frDouble => exact ⟨rfl, rfl, rfl, rfl, rfl, rfl, rfl, rfl⟩
  | moveToCoprocessor0 | moveFromCoprocessor0 | exceptionReturn | tlbProbe | tlbReadIndexed
  | tlbWriteIndexed | tlbWriteRandom | performCacheOp | vmTunnel => cases h

/-- With EXL clear the same holds of every instruction. -/
theorem Instruction.run_keepsSystem_of_exl_clear (i : Instruction) (hexl : s.exl = false) :
    (i.run fp inp s).Ends (KeepsSystem s) := by
  cases hpriv : i.isPrivileged with
  | false => exact run_keepsSystem hpriv
  | true =>
      rw [Machine.run_privileged_of_exl_clear fp hpriv hexl]
      exact .refl s

end Instructions

/-! ### The decoder -/

/-- The decoding names a privileged instruction, or is refused. -/
def DecodesPrivileged (r : Except Fault Instruction) : Prop :=
  r = raiseRI ∨ ∃ i, r = .ok i ∧ i.isPrivileged = true

/-- The moves of coprocessor 0 are privileged. -/
theorem decodeMove_privileged (w : Word) : DecodesPrivileged (SystemControlUnit.decodeMove w) := by
  unfold SystemControlUnit.decodeMove
  simp only
  split
  · exact .inr ⟨_, rfl, rfl⟩
  · split
    · exact .inr ⟨_, rfl, rfl⟩
    · exact .inl rfl

/-- All that the system control unit decodes is. -/
theorem systemControlUnit_privileged (w : Word) :
    DecodesPrivileged (SystemControlUnit.decode w) := by
  unfold SystemControlUnit.decode
  split
  · split <;> first | exact .inr ⟨_, rfl, rfl⟩ | exact decodeMove_privileged w
  · exact decodeMove_privileged w

/-- A word of coprocessor 0, CACHE or VMTUNNEL decodes to a privileged
instruction, or to none. -/
theorem decode_systemWord {pc w : Word} (h : systemWord w = true) :
    DecodesPrivileged (IntegerUnit.decode pc w) := by
  simp only [systemWord, Bool.or_eq_true, Bool.and_eq_true, beq_iff_eq] at h
  rcases h with (hop | hop) | ⟨hop, hfunct⟩
  · simp only [IntegerUnit.decode, hop]
    exact systemControlUnit_privileged w
  · simp only [IntegerUnit.decode, IntegerUnit.decodeIJType, hop]
    exact .inr ⟨_, rfl, rfl⟩
  · simp only [IntegerUnit.decode, IntegerUnit.decodeRType, hop, hfunct]
    exact .inr ⟨_, rfl, rfl⟩

/-- Fetching such a word yields a privileged instruction or throws RI. -/
theorem fetch_systemWord {s : Machine} {w : Word} (hfetch : FetchesWord s w)
    (hword : systemWord w = true) :
    (∃ s1, s.fetch = .raise { exceptionCode := .ri } s1) ∨
      ∃ i s1, s.fetch = .next i s1 ∧ i.isPrivileged = true := by
  have hdecode : DecodesPrivileged (IntegerUnit.decode s.programCounter w) :=
    decode_systemWord hword
  unfold FetchesWord at hfetch
  cases hc : (s.instructionCache.index s.programCounter).1 with
  | some i =>
      simp only [hc] at hfetch
      rcases hdecode with hri | ⟨j, hj, hpriv⟩
      · rw [hri] at hfetch
        cases hfetch
      · rw [hj] at hfetch
        cases hfetch
        exact .inr ⟨i, _, by simp only [Machine.fetch, hc]; rfl, hpriv⟩
  | none =>
      simp only [hc] at hfetch
      rw [Machine.fetch_of_word hc hfetch]
      rcases hdecode with hri | ⟨j, hj, hpriv⟩
      · simp only [hri]
        exact .inl ⟨_, rfl⟩
      · simp only [hj]
        exact .inr ⟨j, _, rfl, hpriv⟩

/-! ### The cycle -/

/-- What a trap writes to the system registers depends on them and the program counter. -/
theorem raiseTrap_cp0_congr {s mid : Machine} {t : Trap} (h : mid.cp0 = s.cp0) :
    (mid.raiseTrap t).cp0 =
      (Machine.raiseTrap { s with programCounter := mid.programCounter } t).cp0 := by
  simp only [Machine.raiseTrap, Machine.setCp0, h]

/-- The fetch leaves the system state alone. -/
theorem fetch_keepsSystem (s : Machine) : s.fetch.Ends (KeepsSystem s) := by
  cases hf : s.fetch with
  | next i s1 =>
      obtain ⟨cache, rfl⟩ := Machine.fetch_next hf
      exact ⟨rfl, rfl, rfl, rfl, rfl, rfl, rfl, rfl⟩
  | raise t s1 =>
      obtain ⟨cache, rfl⟩ := Machine.fetch_ends.of_raise hf
      exact ⟨rfl, rfl, rfl, rfl, rfl, rfl, rfl, rfl⟩
  | abort f => trivial

/-- Two parts that change no system state. -/
theorem KeepsSystem.trans {s1 s2 s3 : Machine} (h : KeepsSystem s1 s2) (h' : KeepsSystem s2 s3) :
    KeepsSystem s1 s3 where
  tlb := h'.tlb.trans h.tlb
  fileSystem := h'.fileSystem.trans h.fileSystem
  host := h'.host.trans h.host
  output := h'.output.trans h.output
  input := h'.input.trans h.input
  killed := h'.killed.trans h.killed
  trapEntry := h'.trapEntry.trans h.trapEntry
  cp0 := h'.cp0.trans h.cp0

/-- The system state up to the point where the cycle ends or traps. -/
theorem cycle_keepsSystem {s s' : Machine} {t : Option Trap} (hexl : s.exl = false)
    (h : s.cycle fp inp = .ok (s', t)) :
    ∃ mid, KeepsSystem s mid ∧ (t = none → s' = mid) ∧
      ∀ trap, t = some trap → TrapPoint fp inp s trap mid ∧ s' = mid.raiseTrap trap := by
  apply Machine.cycle_ends (P := KeepsSystem s) ?_ ?_ ?_ h
  · intro t mid hf
    exact (fetch_keepsSystem s).of_raise hf
  · intro i s1 hf
    obtain ⟨cache, rfl⟩ := Machine.fetch_next hf
    have hrun : (i.run fp inp { s with instructionCache := cache }).Ends
        (KeepsSystem { s with instructionCache := cache }) :=
      i.run_keepsSystem_of_exl_clear hexl
    exact hrun.mono fun mid hmid => ⟨hmid.1, hmid.2, hmid.3, hmid.4, hmid.5, hmid.6, hmid.7, hmid.8⟩
  · intro mid pc hmid
    exact ⟨hmid.1, hmid.2, hmid.3, hmid.4, hmid.5, hmid.6, hmid.7, hmid.8⟩

/-- A cycle that executes a word of coprocessor 0, CACHE or VMTUNNEL with EXL
clear raises RI. -/
theorem cycle_systemWord {s s' : Machine} {t : Option Trap} {w : Word} (hexl : s.exl = false)
    (hfetch : FetchesWord s w) (hword : systemWord w = true)
    (h : s.cycle fp inp = .ok (s', t)) : t = some { exceptionCode := .ri } := by
  rcases fetch_systemWord hfetch hword with ⟨s1, hraise⟩ | ⟨i, s1, hnext, hpriv⟩
  · simp only [Machine.cycle, hraise, Except.ok.injEq, Prod.mk.injEq] at h
    exact h.2.symm
  · have hraised : Machine.raised fp inp s = some (some { exceptionCode := .ri }) :=
      Machine.cycle_privileged_raises_ri fp hnext hpriv hexl
    simpa [Machine.raised, h, Except.toOption] using hraised

/-- **Privilege confinement.**  A cycle that starts with EXL clear and does not
end the host process leaves the TLB, the devices, the killed flag, the trap
entry and the CP0 registers alone, apart from what `raiseTrap` writes; and a
word of coprocessor 0, CACHE or VMTUNNEL raises RI. -/
theorem cycle_confined {s s' : Machine} {t : Option Trap} (hexl : s.exl = false)
    (h : s.cycle fp inp = .ok (s', t)) : Confined fp inp s s' t := by
  obtain ⟨mid, hkeeps, hnone, hsome⟩ := cycle_keepsSystem hexl h
  have hrefused : ∀ w, FetchesWord s w → systemWord w = true → t = some { exceptionCode := .ri } :=
    fun w hfetch hw => cycle_systemWord hexl hfetch hw h
  cases t with
  | none =>
      obtain rfl := hnone rfl
      exact {
        hkeeps with
        untrapped := fun _ => hkeeps.cp0
        trapped := fun _ ht => by cases ht
        refused := hrefused }
  | some trap =>
      obtain ⟨hpoint, hs'⟩ := hsome trap rfl
      have hcp0 : s'.cp0 = (mid.raiseTrap trap).cp0 := by rw [hs']
      rw [Machine.raiseTrap_eq, ← hcp0] at hs'
      have hfour : ∀ r, r ∉ trapRegisters → s'.cp0 r = s.cp0 r := by
        intro r hr
        rw [hcp0, Machine.raiseTrap_cp0 hr, hkeeps.cp0]
      have htrapped : s'.programCounter = s.trapEntry ∧
          (∀ r, r ∉ trapRegisters → s'.cp0 r = s.cp0 r) ∧
          ∃ mid, TrapPoint fp inp s trap mid ∧
            s'.cp0 = (Machine.raiseTrap { s with programCounter := mid.programCounter } trap).cp0 :=
        ⟨by rw [hs']; exact hkeeps.trapEntry, hfour, mid, hpoint,
          by rw [hcp0, raiseTrap_cp0_congr hkeeps.cp0]⟩
      constructor
      case trapped =>
        intro trap' ht
        obtain rfl := Option.some.inj ht
        exact htrapped
      case untrapped =>
        intro ht
        cases ht
      case refused => exact hrefused
      all_goals rw [hs']
      · exact hkeeps.tlb
      · exact hkeeps.fileSystem
      · exact hkeeps.host
      · exact hkeeps.output
      · exact hkeeps.input
      · exact hkeeps.killed
      · exact hkeeps.trapEntry

/-- A machine without privilege whose memory holds `mfc0 $2, $12` at
`0x80000000`: the cycle raises RI. -/
theorem mfc0_confined :
    let s := Machine.construct 0x80000000#32 0x80000100#32
      (fun a => ([0x40#8, 0x02#8, 0x60#8, 0x00#8])[a % 4]?.getD 0) {}
    ∃ s', Confined ⟨fun _ a _ => a, fun _ a _ => a⟩ {} s s' (some { exceptionCode := .ri }) :=
  ⟨_, cycle_confined rfl rfl⟩

end Hardware
