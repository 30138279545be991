import BobbyOS.Machine.IntegerInstructions

/-!
# Guest words and the host process

Every word a guest can put into its memory is decoded and run by host code that
also asserts, divides and indexes arrays.  For the words that are no loads,
stores, TLB operations or VMTUNNEL this module says when that code ends in the
guest, by returning or with a trap.

* `decode_endsInGuest_iff`, with one lemma for each unit;
* `endsInGuest_iff`: for every word and every register file, exactly when the
  word is none of a malformed floating-point word, a division the host cannot
  do, and a variable shift by 32 or more.
-/

namespace Hardware

variable {fp : FpArith} {inp : HostInput} {w : Word} {s : Machine}

namespace Instruction

/-- Loads and stores, the TLB operations and VMTUNNEL. -/
def accessesMemory : Instruction → Bool
  | iMemory .. | tlbProbe | tlbReadIndexed | tlbWriteIndexed | tlbWriteRandom | vmTunnel => true
  | _ => false

/-- The indices at which the instruction looks into a register file; a double
takes up two floating-point registers. -/
def registerIndices : Instruction → List Nat
  | rVariable _ rd rt rs => [rd, rt, rs]
  | rShift _ rd rt _ => [rd, rt]
  | hlMove _ r => [r]
  | hlOp _ rs rt => [rs, rt]
  | iGeneric _ rt rs _ | iMemory _ rt rs _ | iBranch _ rt rs _ => [rt, rs]
  | iBranchZero _ _ rs => [rs]
  | loadUpperImmediate rt _ => [rt]
  | jumpAndLink _ ra | jumpRegister ra => [ra]
  | jumpAndLinkRegister rd rs => [rd, rs]
  | trapIfEqual rs rt => [rs, rt]
  | frSingle _ ft fs fd => [ft, fs, fd]
  | frDouble _ ft fs fd => [ft.val, ft.val + 1, fs.val, fs.val + 1, fd.val, fd.val + 1]
  | moveToCoprocessor0 rt rd | moveFromCoprocessor0 rt rd => [rt, rd]
  | _ => []

/-- The host's shift and division are defined on the operands. -/
def HostDefined (i : Instruction) (gpr : Reg → Word) : Prop :=
  match i with
  | rVariable op _ _ rs =>
      match op with
      | .shiftLeftLogicalVariable | .shiftRightLogicalVariable
      | .shiftRightArithmeticVariable => (gpr rs).toNat < 32
      | _ => True
  | hlOp op rs rt =>
      match op with
      | .divide => ¬ (gpr rt = 0 ∨ (gpr rs = 0x80000000#32 ∧ gpr rt = 0xFFFFFFFF#32))
      | .divideUnsigned => gpr rt ≠ 0
      | _ => True
  | _ => True

end Instruction

/-- The outcome is a return or a trap. -/
def Outcome.InGuest {α : Type} : Outcome α → Prop
  | .abort _ => False
  | _ => True

/-- What `decode` returned, run from `s`: a trap, or an instruction whose register
indices are in range and which returns or traps. -/
def EndsInGuest (fp : FpArith) (inp : HostInput) (s : Machine) :
    Except Fault Instruction → Prop
  | .error (.trap _) => True
  | .error _ => False
  | .ok i => (∀ n ∈ i.registerIndices, n < 32) ∧ (i.run fp inp s).InGuest

/-! ### Running -/

/-- A choice stays in the guest if both branches do. -/
theorem inGuest_ite {c : Prop} [Decidable c] {o o' : Outcome Unit} (ho : o.InGuest)
    (ho' : o'.InGuest) : (if c then o else o').InGuest := by
  split
  · exact ho
  · exact ho'

/-- A branch on whether the host's operation is defined. -/
theorem inGuest_ite_abort {c : Prop} [Decidable c] {o : Outcome Unit} {f : Fault}
    (ho : o.InGuest) : (if c then o else .abort f).InGuest ↔ c := by
  split
  · rename_i hc
    exact iff_of_true ho hc
  · rename_i hc
    exact iff_of_false id hc

/-- Where one branch ends the host, the other one must be taken. -/
theorem inGuest_abort_ite {c : Prop} [Decidable c] {o : Outcome Unit} {f : Fault}
    (ho : o.InGuest) : (if c then .abort f else o).InGuest ↔ ¬ c := by
  rw [← ite_not]
  exact inGuest_ite_abort ho

/-- A privileged instruction that is refused stays in the guest. -/
theorem inGuest_privileged {k : Outcome Unit} (hk : k.InGuest) : (s.privileged k).InGuest :=
  inGuest_ite hk trivial

/-- An arithmetic instruction stays in the guest where the host defines its result. -/
theorem RVariableOp.run_inGuest_iff (op : RVariableOp) {rd rt rs : Reg} :
    (op.run rd rt rs s).InGuest ↔
      (Instruction.rVariable op rd rt rs).HostDefined s.registerFile := by
  cases op with
  | add | subtract => exact iff_of_true (inGuest_ite trivial trivial) trivial
  | shiftLeftLogicalVariable | shiftRightLogicalVariable | shiftRightArithmeticVariable =>
      exact inGuest_ite_abort trivial
  | _ => exact iff_of_true trivial trivial

/-- So does a multiplication or a division. -/
theorem HLOp.run_inGuest_iff (op : HLOp) {rs rt : Reg} :
    (op.run rs rt s).InGuest ↔ (Instruction.hlOp op rs rt).HostDefined s.registerFile := by
  cases op with
  | multiply | multiplyUnsigned => exact iff_of_true trivial trivial
  | divide | divideUnsigned => exact inGuest_abort_ite trivial

/-- An instruction with an immediate always does. -/
theorem IGenericOp.run_inGuest (op : IGenericOp) {rt rs : Reg} {imm : HalfWord} :
    (op.run rt rs imm s).InGuest := by
  cases op with
  | addImmediate => exact inGuest_ite trivial trivial
  | _ => trivial

/-- **Running** an instruction that does not go to memory. -/
theorem Instruction.run_inGuest_iff (i : Instruction) (h : i.accessesMemory = false) :
    (i.run fp inp s).InGuest ↔ i.HostDefined s.registerFile := by
  cases i with
  | rVariable op => exact op.run_inGuest_iff
  | hlOp op => exact op.run_inGuest_iff
  | iGeneric op => exact iff_of_true op.run_inGuest trivial
  | trapIfEqual => exact iff_of_true (inGuest_ite trivial trivial) trivial
  | moveToCoprocessor0 | moveFromCoprocessor0 | exceptionReturn | performCacheOp =>
      exact iff_of_true (inGuest_privileged trivial) trivial
  | iMemory | tlbProbe | tlbReadIndexed | tlbWriteIndexed | tlbWriteRandom | vmTunnel => cases h
  | _ => exact iff_of_true trivial trivial

/-! ### Decoding -/

/-- Only a double reaches beyond the registers it names. -/
theorem Instruction.registerIndices_lt (i : Instruction)
    (h : ∀ op ft fs fd, i ≠ .frDouble op ft fs fd) : ∀ n ∈ i.registerIndices, n < 32 := by
  cases i with
  | frDouble op ft fs fd => exact absurd rfl (h op ft fs fd)
  | _ => simp [registerIndices]

/-- A decoded instruction that does not touch the memory ends in the guest where the host
defines its result. -/
theorem endsInGuest_ok {i : Instruction} (hmem : i.accessesMemory = false)
    (hidx : ∀ n ∈ i.registerIndices, n < 32) :
    EndsInGuest fp inp s (.ok i) ↔ i.HostDefined s.registerFile :=
  (and_iff_right hidx).trans (i.run_inGuest_iff hmem)

/-- The host defining the result is enough for all but the double operations. -/
theorem endsInGuest_of_ok {i : Instruction} (hmem : i.accessesMemory = false)
    (hdouble : ∀ op ft fs fd, i ≠ .frDouble op ft fs fd) (h : i.HostDefined s.registerFile) :
    EndsInGuest fp inp s (.ok i) :=
  (endsInGuest_ok hmem (i.registerIndices_lt hdouble)).mpr h

/-- A word of a load or store, of one of the TLB operations, or of VMTUNNEL. -/
def accessWord (w : Word) : Bool :=
  match (w >>> 26).toNat with
  | 0x20 | 0x21 | 0x23 | 0x24 | 0x25 | 0x28 | 0x29 | 0x2b | 0x31 | 0x39 => true
  | 0x10 =>
      (regField w 21).val == 0x10 &&
        (w.toNat % 64 == 1 || w.toNat % 64 == 2 || w.toNat % 64 == 6 || w.toNat % 64 == 8)
  | 0 => w.toNat % 64 == 0x3f
  | _ => false

/-- The words and operands that are safe for the host.  `floatingPoint`: an
arithmetic word of coprocessor 1 is of format single, or of format double with
even registers. -/
structure HostSafe (w : Word) (gpr : Reg → Word) : Prop where
  floatingPoint : (w >>> 26).toNat = 0x11 → w.toNat % 64 < 4 →
    (regField w 21).val = 0x10 ∨ ((regField w 21).val = 0x11 ∧ (regField w 16).val % 2 = 0 ∧
      (regField w 11).val % 2 = 0 ∧ (regField w 6).val % 2 = 0)
  divide : (w >>> 26).toNat = 0 → w.toNat % 64 = 0x1a →
    ¬ (gpr (regField w 16) = 0 ∨
      (gpr (regField w 21) = 0x80000000#32 ∧ gpr (regField w 16) = 0xFFFFFFFF#32))
  divideUnsigned : (w >>> 26).toNat = 0 → w.toNat % 64 = 0x1b → gpr (regField w 16) ≠ 0
  shift : (w >>> 26).toNat = 0 → w.toNat % 64 = 4 ∨ w.toNat % 64 = 6 ∨ w.toNat % 64 = 7 →
    (gpr (regField w 21)).toNat < 32

/-- The assertions of `FR_INIT`. -/
theorem decodeFR_endsInGuest_iff {op : FROp} {fmt : Nat} {ft fs fd : Reg} :
    EndsInGuest fp inp s (decodeFR op fmt ft fs fd) ↔
      fmt = 0x10 ∨ (fmt = 0x11 ∧ ft.val % 2 = 0 ∧ fs.val % 2 = 0 ∧ fd.val % 2 = 0) := by
  have hdouble : (∀ n ∈ (Instruction.frDouble op ft fs fd).registerIndices, n < 32) ↔
      ft.val + 1 < 32 ∧ fs.val + 1 < 32 ∧ fd.val + 1 < 32 := by
    simp [Instruction.registerIndices]
  by_cases hsingle : fmt = 0x10
  · subst hsingle
    exact iff_of_true ((endsInGuest_ok rfl (by simp [Instruction.registerIndices])).mpr trivial)
      (.inl rfl)
  by_cases hformat : fmt = 0x11
  · subst hformat
    by_cases ht : ft.val % 2 = 0
    · by_cases hs : fs.val % 2 = 0
      · by_cases hd : fd.val % 2 = 0
        · simp only [decodeFR, hostAssert, ht, hs, hd]
          refine iff_of_true ((endsInGuest_ok rfl (hdouble.mpr ?_)).mpr trivial) (.inr ?_)
          · omega
          · simp
        · simp [decodeFR, hostAssert, bind, Except.bind, EndsInGuest, ht, hs, hd]
      · simp [decodeFR, hostAssert, bind, Except.bind, EndsInGuest, ht, hs]
    · simp [decodeFR, hostAssert, bind, Except.bind, EndsInGuest, ht]
  · simp [decodeFR, hostAssert, bind, Except.bind, EndsInGuest, hsingle, hformat]

/-- A floating-point word ends in the guest unless a double operation names an odd register
or an unknown format. -/
theorem floatingPoint_endsInGuest_iff :
    EndsInGuest fp inp s (FloatingPointUnit.decode w) ↔
      (w.toNat % 64 < 4 →
        (regField w 21).val = 0x10 ∨ ((regField w 21).val = 0x11 ∧
          (regField w 16).val % 2 = 0 ∧ (regField w 11).val % 2 = 0 ∧
          (regField w 6).val % 2 = 0)) := by
  unfold FloatingPointUnit.decode
  simp only
  split
  · rename_i h
    simp [decodeFR_endsInGuest_iff, h]
  · rename_i h
    simp [decodeFR_endsInGuest_iff, h]
  · rename_i h
    simp [decodeFR_endsInGuest_iff, h]
  · rename_i h
    simp [decodeFR_endsInGuest_iff, h]
  · rename_i h0 h3 h2 h1
    have hne : w.toNat % 64 ≠ 0 ∧ w.toNat % 64 ≠ 1 ∧ w.toNat % 64 ≠ 2 ∧ w.toNat % 64 ≠ 3 :=
      ⟨h0, h1, h2, h3⟩
    refine iff_of_true trivial (fun h => absurd h ?_)
    omega

/-- A word of the system control unit ends in the guest. -/
theorem systemControl_endsInGuest (h : (w >>> 26).toNat = 0x10) (hword : accessWord w = false) :
    EndsInGuest fp inp s (SystemControlUnit.decode w) := by
  have hmove : EndsInGuest fp inp s (SystemControlUnit.decodeMove w) := by
    unfold SystemControlUnit.decodeMove
    simp only
    split
    · exact endsInGuest_of_ok rfl (fun _ _ _ _ h => nomatch h) trivial
    · split
      · exact endsInGuest_of_ok rfl (fun _ _ _ _ h => nomatch h) trivial
      · trivial
  unfold SystemControlUnit.decode
  split
  · rename_i hrs
    simp only [accessWord, h, hrs] at hword
    split
    · exact endsInGuest_of_ok rfl (fun _ _ _ _ h => nomatch h) trivial
    · rename_i hfunct
      simp [hfunct] at hword
    · rename_i hfunct
      simp [hfunct] at hword
    · rename_i hfunct
      simp [hfunct] at hword
    · rename_i hfunct
      simp [hfunct] at hword
    · exact hmove
  · exact hmove

/-- A SPECIAL word does where the host defines what it computes. -/
theorem rType_endsInGuest_iff (h : (w >>> 26).toNat = 0) (hword : accessWord w = false) :
    EndsInGuest fp inp s (IntegerUnit.decodeRType w) ↔ HostSafe w s.registerFile := by
  have hsafe : HostSafe w s.registerFile ↔
      (w.toNat % 64 = 0x1a → ¬ (s.registerFile (regField w 16) = 0 ∨
        (s.registerFile (regField w 21) = 0x80000000#32 ∧
          s.registerFile (regField w 16) = 0xFFFFFFFF#32))) ∧
      (w.toNat % 64 = 0x1b → s.registerFile (regField w 16) ≠ 0) ∧
      (w.toNat % 64 = 4 ∨ w.toNat % 64 = 6 ∨ w.toNat % 64 = 7 →
        (s.registerFile (regField w 21)).toNat < 32) := by
    constructor
    · intro hs
      exact ⟨hs.divide h, hs.divideUnsigned h, hs.shift h⟩
    · rintro ⟨hdiv, hdivu, hshift⟩
      exact ⟨fun hop => by omega, fun _ => hdiv, fun _ => hdivu, fun _ => hshift⟩
  rw [hsafe]
  unfold IntegerUnit.decodeRType
  simp only
  split
  case h_29 hfunct => simp [accessWord, h, hfunct] at hword
  case h_32 =>
    refine iff_of_true trivial ⟨fun hop => ?_, fun hop => ?_, ?_⟩
    · exact (‹w.toNat % 64 = 0x1a → False› hop).elim
    · exact (‹w.toNat % 64 = 0x1b → False› hop).elim
    · rintro (hop | hop | hop)
      · exact (‹w.toNat % 64 = 0x4 → False› hop).elim
      · exact (‹w.toNat % 64 = 0x6 → False› hop).elim
      · exact (‹w.toNat % 64 = 0x7 → False› hop).elim
  all_goals
    rename_i hfunct
    refine (endsInGuest_ok rfl (Instruction.registerIndices_lt _ (by simp))).trans ?_
    simp [Instruction.HostDefined, hfunct]

/-- A word with an immediate or an index does. -/
theorem ijType_endsInGuest (pc : Word) (hword : accessWord w = false) :
    EndsInGuest fp inp s (IntegerUnit.decodeIJType pc w) := by
  unfold IntegerUnit.decodeIJType
  simp only
  split
  all_goals
    first
    | exact endsInGuest_of_ok rfl (fun _ _ _ _ h => nomatch h) trivial
    | trivial
    | (rename_i hop
       simp [accessWord, hop] at hword)

/-- No word of another opcode is unsafe. -/
theorem hostSafe_of_opcode (h0 : (w >>> 26).toNat ≠ 0) (h11 : (w >>> 26).toNat ≠ 0x11) :
    HostSafe w s.registerFile :=
  ⟨fun h => absurd h h11, fun h => absurd h h0, fun h => absurd h h0, fun h => absurd h h0⟩

/-- **Every word.**  Decoding a word that is no load, store, TLB operation or
VMTUNNEL and running the instruction ends in the guest exactly when the word and
its operands are safe for the host. -/
theorem endsInGuest_iff (fp : FpArith) (inp : HostInput) {w : Word} (s : Machine)
    (hword : accessWord w = false) :
    EndsInGuest fp inp s (IntegerUnit.decode s.programCounter w) ↔
      HostSafe w s.registerFile := by
  unfold IntegerUnit.decode
  simp only
  split
  · rename_i h
    rw [floatingPoint_endsInGuest_iff]
    exact ⟨fun hfp => ⟨fun _ => hfp, by omega, by omega, by omega⟩, fun hs => hs.floatingPoint h⟩
  split
  · rename_i h11 h
    exact iff_of_true (systemControl_endsInGuest h hword) (hostSafe_of_opcode (by omega) h11)
  split
  · rename_i h11 _ h
    refine iff_of_true ?_ (hostSafe_of_opcode (by omega) h11)
    split
    · exact endsInGuest_of_ok rfl (fun _ _ _ _ h => nomatch h) trivial
    · exact endsInGuest_of_ok rfl (fun _ _ _ _ h => nomatch h) trivial
    · trivial
  split
  · rename_i h11 _ _ h
    refine iff_of_true ?_ (hostSafe_of_opcode (by omega) h11)
    split
    · exact endsInGuest_of_ok rfl (fun _ _ _ _ h => nomatch h) trivial
    · trivial
  split
  · rename_i h
    exact rType_endsInGuest_iff h hword
  · rename_i h11 _ _ _ h0
    exact iff_of_true (ijType_endsInGuest _ hword) (hostSafe_of_opcode h0 h11)

/-- `sllv $1, $2, $3` with 31 in `$3`. -/
theorem endsInGuest_iff_sllv :
    EndsInGuest ⟨fun _ a _ => a, fun _ a _ => a⟩ {} ((wordMachine 0 0 0 0).setReg 3 31#32)
      (IntegerUnit.decode ((wordMachine 0 0 0 0).setReg 3 31#32).programCounter 0x00620804#32) :=
  (endsInGuest_iff _ _ _ (by decide)).mpr
    ⟨fun h => absurd h (by decide), fun _ h => absurd h (by decide),
      fun _ h => absurd h (by decide), fun _ _ => by decide +kernel⟩

/-- `div $0, $0` divides by zero in the host. -/
theorem division_by_zero : ¬ ∀ (fp : FpArith) (inp : HostInput) (w : Word) (s : Machine),
    accessWord w = false → EndsInGuest fp inp s (IntegerUnit.decode s.programCounter w) := by
  intro h
  have hclaim := h ⟨fun _ a _ => a, fun _ a _ => a⟩ {} 0x0000001A#32 (wordMachine 0 0 0 0)
    (by decide)
  have hdecode : IntegerUnit.decode (wordMachine 0 0 0 0).programCounter 0x0000001A#32 =
      .ok (.hlOp .divide 0 0) := by decide +kernel
  rw [hdecode] at hclaim
  exact hclaim.2

end Hardware
