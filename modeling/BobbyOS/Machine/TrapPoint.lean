import BobbyOS.Machine.ExceptionLevel

/-!
# The state a trap finds

`Core::raiseTrap` stores the program counter of the moment in EPC.  A TLB miss
is thrown before the instruction did anything to the registers, so EPC is its
own address; the interrupt line is polled behind the instruction and behind the
addition of four, so EPC is the address of the next one.

* `cycle_trap`: a cycle that traps has a trap point, and ends in `raiseTrap`
  there;
* `trapPoint_miss`: at a TLB miss the registers are those before the cycle.
-/

namespace Hardware

/-- The same program counter, general registers, HI and LO. -/
structure SameCore (s s' : Machine) : Prop where
  programCounter : s'.programCounter = s.programCounter
  registerFile : s'.registerFile = s.registerFile
  hi : s'.hi = s.hi
  lo : s'.lo = s.lo

/-- A TLB refill trap. -/
def Trap.IsMiss (t : Trap) : Prop := t.exceptionCode = .tlbL ∨ t.exceptionCode = .tlbS

/-- Every trap that an outcome throws satisfies `P` with the state it leaves. -/
def Outcome.Raises {α : Type} (P : Trap → Machine → Prop) : Outcome α → Prop
  | .raise t s => P t s
  | _ => True

/-- The point at which a cycle of `s` traps: what is thrown, and the state then. -/
inductive TrapPoint (fp : FpArith) (inp : HostInput) (s : Machine) (t : Trap) (mid : Machine) :
    Prop
  | fetch (hfetch : s.fetch = .raise t mid)
  | run (i : Instruction) (s1 : Machine) (hfetch : s.fetch = .next i s1)
      (hrun : i.run fp inp s1 = .raise t mid)
  | interrupt (i : Instruction) (s1 s2 : Machine) (hfetch : s.fetch = .next i s1)
      (hrun : i.run fp inp s1 = .next () s2) (hcode : t.exceptionCode = .interrupt)
      (hmid : mid = { s2 with programCounter := s2.programCounter + 4#32 })

/-- A cycle that traps ends in `raiseTrap` at its trap point. -/
theorem cycle_trap {fp : FpArith} {inp : HostInput} {s s' : Machine} {t : Trap}
    (h : s.cycle fp inp = .ok (s', some t)) :
    ∃ mid, TrapPoint fp inp s t mid ∧ s' = mid.raiseTrap t := by
  unfold Machine.cycle at h
  cases hf : s.fetch with
  | abort f => simp [hf] at h
  | raise t1 s1 =>
      simp only [hf, Except.ok.injEq, Prod.mk.injEq, Option.some.injEq] at h
      obtain ⟨rfl, rfl⟩ := h
      exact ⟨s1, .fetch hf, rfl⟩
  | next i s1 =>
      cases hr : i.run fp inp s1 with
      | abort f => simp [hf, hr] at h
      | raise t1 s2 =>
          simp only [hf, hr, Except.ok.injEq, Prod.mk.injEq, Option.some.injEq] at h
          obtain ⟨rfl, rfl⟩ := h
          exact ⟨s2, .run i s1 hf hr, rfl⟩
      | next u s2 =>
          simp only [hf, hr] at h
          split at h
          · simp only [Except.ok.injEq, Prod.mk.injEq, Option.some.injEq] at h
            obtain ⟨rfl, rfl⟩ := h
            exact ⟨_, .interrupt i s1 s2 hf hr rfl rfl, rfl⟩
          · simp at h

section Raises

variable {α β : Type} {P : Trap → Machine → Prop} {s : Machine}

/-- An access traps in the state before it. -/
theorem raises_ofAccess {r : Except Fault α} {k : α → Outcome β} (hs : ∀ t, P t s)
    (hk : ∀ a, (k a).Raises P) : (Outcome.ofAccess s r k).Raises P := by
  unfold Outcome.ofAccess
  split
  · exact hk _
  · exact hs _
  · trivial

end Raises

/-- At a miss, the registers are those of `s0`. -/
def KeepsAtMiss (s0 : Machine) (t : Trap) (s : Machine) : Prop := t.IsMiss → SameCore s0 s

section Tunnel

variable {s0 s : Machine}

/-- Stores of bytes that miss have changed only the memory and the devices. -/
theorem raises_storeBytes {β : Type} {addr : Word} {bytes : List Byte} {k : Machine → Outcome β}
    (hs : SameCore s0 s) (hk : ∀ s, SameCore s0 s → (k s).Raises (KeepsAtMiss s0)) :
    (s.storeBytes addr bytes k).Raises (KeepsAtMiss s0) := by
  induction bytes generalizing s addr with
  | nil => exact hk s hs
  | cons b rest ih =>
      exact raises_ofAccess (fun _ _ => hs) fun m => ih ⟨hs.1, hs.2, hs.3, hs.4⟩

/-- So has the reply of a request. -/
theorem raises_respond {resAddr res err : Word} (hs : SameCore s0 s) :
    (s.respond resAddr res err).Raises (KeepsAtMiss s0) :=
  raises_ofAccess (fun _ _ => hs) fun _ =>
    raises_ofAccess (fun _ _ => ⟨hs.1, hs.2, hs.3, hs.4⟩) fun _ => trivial

/-- So has a seek. -/
theorem raises_fseek {inp : HostInput} {resAddr arg0 arg1 arg2 : Word} (hs : SameCore s0 s) :
    (s.fseek inp resAddr arg0 arg1 arg2).Raises (KeepsAtMiss s0) :=
  raises_ofAccess (fun _ _ => hs) fun _ => raises_respond ⟨hs.1, hs.2, hs.3, hs.4⟩

/-- Every request of the tunnel stores through the same accessors, and touches
no register. -/
theorem raises_vmRequest {inp : HostInput} {resAddr req arg0 arg1 arg2 : Word}
    (hs : SameCore s0 s) :
    (s.vmRequest inp resAddr req arg0 arg1 arg2).Raises (KeepsAtMiss s0) := by
  have hkeep : ∀ t, KeepsAtMiss s0 t s := fun _ _ => hs
  unfold Machine.vmRequest
  split
  · exact raises_respond ⟨hs.1, hs.2, hs.3, hs.4⟩
  · exact raises_ofAccess hkeep fun _ => raises_respond ⟨hs.1, hs.2, hs.3, hs.4⟩
  · exact raises_respond ⟨hs.1, hs.2, hs.3, hs.4⟩
  · exact raises_respond ⟨hs.1, hs.2, hs.3, hs.4⟩
  · exact raises_ofAccess hkeep fun _ => raises_ofAccess hkeep fun _ =>
      raises_respond ⟨hs.1, hs.2, hs.3, hs.4⟩
  · exact raises_ofAccess hkeep fun _ => raises_ofAccess hkeep fun _ =>
      raises_storeBytes ⟨hs.1, hs.2, hs.3, hs.4⟩ fun _ h => raises_respond h
  · exact raises_fseek hs
  · exact raises_fseek hs
  · exact raises_ofAccess hkeep fun _ => raises_respond ⟨hs.1, hs.2, hs.3, hs.4⟩
  · split
    · trivial
    · exact raises_storeBytes ⟨hs.1, hs.2, hs.3, hs.4⟩ fun _ h => raises_respond h
  · exact raises_respond hs

/-- So has every request to the host. -/
theorem raises_vmTunnel {inp : HostInput} (hs : SameCore s0 s) :
    (s.vmTunnel inp).Raises (KeepsAtMiss s0) := by
  have hkeep : ∀ t, KeepsAtMiss s0 t s := fun _ _ => hs
  unfold Machine.vmTunnel Machine.privileged
  split
  · exact raises_ofAccess hkeep fun _ => raises_ofAccess hkeep fun _ =>
      raises_ofAccess hkeep fun _ => raises_ofAccess hkeep fun _ => raises_vmRequest hs
  · exact hkeep _

end Tunnel

/-- An instruction that misses in the TLB has not changed the registers yet. -/
theorem run_raises (fp : FpArith) (inp : HostInput) (i : Instruction) (s : Machine) :
    (i.run fp inp s).Raises (KeepsAtMiss s) := by
  have hsame : SameCore s s := ⟨rfl, rfl, rfl, rfl⟩
  have hkeep : ∀ t, KeepsAtMiss s t s := fun _ _ => hsame
  have hoverflow : ∀ s', KeepsAtMiss s { exceptionCode := .overflow } s' := by
    rintro s' (h | h) <;> cases h
  have hpriv : ∀ k : Outcome Unit, k.Raises (KeepsAtMiss s) →
      (s.privileged k).Raises (KeepsAtMiss s) := by
    intro k hk
    unfold Machine.privileged
    split
    · exact hk
    · exact hkeep _
  cases i with
  | rVariable op rd rt rs =>
      cases op <;> simp only [Instruction.run, RVariableOp.run] <;>
        first | trivial | (split <;> first | trivial | exact hoverflow _)
  | hlOp op rs rt =>
      cases op <;> simp only [Instruction.run, HLOp.run] <;> first | trivial | (split <;> trivial)
  | iGeneric op rt rs imm =>
      cases op <;> simp only [Instruction.run, IGenericOp.run] <;>
        first | trivial | (split <;> first | trivial | exact hoverflow _)
  | iMemory op rt rs imm =>
      cases op <;> exact raises_ofAccess hkeep fun _ => trivial
  | syscall => exact hkeep _
  | trapIfEqual rs rt =>
      simp only [Instruction.run]
      split
      · exact hkeep _
      · trivial
  | moveToCoprocessor0 | moveFromCoprocessor0 | exceptionReturn | tlbProbe | performCacheOp =>
      exact hpriv _ trivial
  | tlbReadIndexed =>
      refine hpriv _ ?_
      unfold Machine.tlbRead
      simp only
      split <;> trivial
  | tlbWriteIndexed | tlbWriteRandom =>
      refine hpriv _ ?_
      unfold Machine.tlbWrite
      simp only
      split <;> trivial
  | vmTunnel => exact raises_vmTunnel hsame
  | _ => trivial

/-- At a TLB miss the registers are those before the cycle. -/
theorem trapPoint_miss {fp : FpArith} {inp : HostInput} {s mid : Machine} {t : Trap}
    (h : TrapPoint fp inp s t mid) (ht : t.IsMiss) : SameCore s mid := by
  cases h with
  | fetch hfetch =>
      have hraises : s.fetch.Raises (KeepsAtMiss s) := by
        unfold Machine.fetch
        simp only
        split
        · trivial
        · exact raises_ofAccess (fun _ _ => ⟨rfl, rfl, rfl, rfl⟩) fun _ =>
            raises_ofAccess (fun _ _ => ⟨rfl, rfl, rfl, rfl⟩) fun _ => trivial
      rw [hfetch] at hraises
      exact hraises ht
  | run i s1 hfetch hrun =>
      obtain ⟨cache, rfl⟩ := Machine.fetch_next hfetch
      have hraises := run_raises fp inp i { s with instructionCache := cache }
      rw [hrun] at hraises
      have hsame := hraises ht
      exact ⟨hsame.1, hsame.2, hsame.3, hsame.4⟩
  | interrupt i s1 s2 hfetch hrun hcode hmid =>
      rcases ht with ht | ht <;> rw [hcode] at ht <;> cases ht

end Hardware
