import BobbyOS.Machine.Hardware

/-!
# The exception level across ERET

The kernel restores STATUS with EXL set and its comment relies on the hardware
to clear the bit when it executes `eret`.  `ExceptionReturn::run` only writes
the program counter.  So user code runs with EXL set, and the check of the
privileged instructions never refuses it.

* `cycle_eret` gives the whole effect of a cycle that runs ERET;
* `cycle_privileged_raises_ri` is the check that would confine user code;
* `confined_iff_no_user_return` says for which runs the bit is clear whenever
  user code runs: those that never return to user code.
-/

namespace Hardware

/-- The instructions that start with `EXL_CHECK`. -/
def Instruction.isPrivileged : Instruction → Bool
  | moveToCoprocessor0 .. | moveFromCoprocessor0 .. | exceptionReturn | tlbProbe
  | tlbReadIndexed | tlbWriteIndexed | tlbWriteRandom | performCacheOp | vmTunnel => true
  | _ => false

namespace Machine

variable (fp : FpArith)

/-- The trap, if any, that the cycle raises, when the host survives it. -/
def raised (inp : HostInput) (s : Machine) : Option (Option Trap) :=
  ((s.cycle fp inp).toOption).map Prod.snd

/-- The machine is running and this cycle completes an ERET to an address of
user space. -/
def ReturnsToUser (inp : HostInput) (s : Machine) : Prop :=
  s.killed = false ∧ ∃ s1 s2, s.fetch = .next .exceptionReturn s1 ∧ s.cycle fp inp = .ok (s2, none) ∧
    s2.programCounter < 0x80000000#32

/-- From the completion of an ERET to user code until the next trap, EXL is
clear and every privileged instruction that is fetched raises RI. -/
def ConfinedRun (inp : Nat → HostInput) (start : Machine) : Prop :=
  ∀ k cur, cycleN fp inp k start = some cur → ReturnsToUser fp (inp k) cur →
    ∀ j s, k < j → cycleN fp inp j start = some s →
      (∀ i mid, k < i → i < j → cycleN fp inp i start = some mid →
        raised fp (inp i) mid = some none) →
      s.exl = false ∧
        ∀ i s1, s.fetch = .next i s1 → i.isPrivileged = true →
          raised fp (inp j) s = some (some { exceptionCode := .ri })

/-- Fetching changes the instruction cache only. -/
theorem fetch_next {s s1 : Machine} {i : Instruction} (h : s.fetch = .next i s1) :
    ∃ cache, s1 = { s with instructionCache := cache } := by
  unfold fetch at h
  cases hc : (s.instructionCache.index s.programCounter).1 with
  | some j =>
      simp only [hc] at h
      cases h
      exact ⟨_, rfl⟩
  | none =>
      simp only [hc, Outcome.ofAccess] at h
      split at h
      · split at h
        · cases h
          exact ⟨_, rfl⟩
        · cases h
        · cases h
      · cases h
      · cases h

/-- Without EXL a privileged instruction throws RI and changes nothing. -/
theorem run_privileged_of_exl_clear {inp : HostInput} {i : Instruction} {s : Machine}
    (hpriv : i.isPrivileged = true) (hexl : s.exl = false) :
    i.run fp inp s = .raise { exceptionCode := .ri } s := by
  cases i <;> simp [Instruction.isPrivileged] at hpriv <;>
    simp [Instruction.run, vmTunnel, privileged, hexl]

/-- Without EXL a fetched privileged instruction raises RI in its cycle. -/
theorem cycle_privileged_raises_ri {inp : HostInput} {i : Instruction} {s s1 : Machine}
    (hfetch : s.fetch = .next i s1) (hpriv : i.isPrivileged = true) (hexl : s.exl = false) :
    raised fp inp s = some (some { exceptionCode := .ri }) := by
  obtain ⟨cache, rfl⟩ := fetch_next hfetch
  have hrun : i.run fp inp { s with instructionCache := cache } =
      .raise { exceptionCode := .ri } { s with instructionCache := cache } :=
    run_privileged_of_exl_clear fp hpriv hexl
  simp [raised, cycle, hfetch, hrun, Except.toOption]

/-- A cycle that completes ERET ran it with EXL set, moves the program counter
to EPC plus four, and leaves every CP0 register as it was. -/
theorem cycle_eret {inp : HostInput} {s s1 s2 : Machine}
    (hfetch : s.fetch = .next .exceptionReturn s1) (hcycle : s.cycle fp inp = .ok (s2, none)) :
    s.exl = true ∧ s2.programCounter = s.cp0 SYSRegister.EPC + 4#32 ∧ s2.cp0 = s.cp0 := by
  obtain ⟨cache, rfl⟩ := fetch_next hfetch
  cases hexl : s.exl with
  | false =>
      have hraised : raised fp inp s = some (some { exceptionCode := .ri }) :=
        cycle_privileged_raises_ri fp hfetch rfl hexl
      simp [raised, hcycle, Except.toOption] at hraised
  | true =>
      have hexl' : ({ s with instructionCache := cache } : Machine).exl = true := hexl
      simp only [cycle, hfetch, Instruction.run, privileged, hexl', if_true] at hcycle
      split at hcycle
      · simp at hcycle
      · simp only [Except.ok.injEq, Prod.mk.injEq, and_true] at hcycle
        subst hcycle
        exact ⟨rfl, rfl, rfl⟩

/-- ERET never clears EXL: user code starts with the bit set. -/
theorem returnsToUser_exl {inp : HostInput} {s s2 : Machine} {t : Option Trap}
    (h : ReturnsToUser fp inp s) (hcycle : s.cycle fp inp = .ok (s2, t)) : s2.exl = true := by
  obtain ⟨-, s1, s2', hfetch, hcycle', -⟩ := h
  rw [hcycle'] at hcycle
  cases hcycle
  obtain ⟨hexl, -, hcp0⟩ := cycle_eret fp hfetch hcycle'
  rw [exl, hcp0]
  exact hexl

/-- The state after a cycle is the next state of the run. -/
theorem cycleN_succ {inp : Nat → HostInput} {start cur next : Machine} {t : Option Trap} {k : Nat}
    (hcur : cycleN fp inp k start = some cur) (halive : cur.killed = false)
    (hcycle : cur.cycle fp (inp k) = .ok (next, t)) :
    cycleN fp inp (k + 1) start = some next := by
  simp [cycleN, hcur, halive, hcycle, Except.toOption]

/-- The state behind a return to user code has EXL set, so a run with a return
is not confined. -/
theorem ConfinedRun.no_user_return {inp : Nat → HostInput} {start : Machine}
    (hconf : ConfinedRun fp inp start) {k : Nat} {cur : Machine}
    (hcur : cycleN fp inp k start = some cur) : ¬ ReturnsToUser fp (inp k) cur := by
  intro hret
  have ⟨halive, s1, s2, hfetch, hcycle, huser⟩ := hret
  have hnext := cycleN_succ fp hcur halive hcycle
  have hclear : s2.exl = false :=
    (hconf k cur hcur hret (k + 1) s2 (by omega) hnext (fun i mid h1 h2 => by omega)).1
  have hset : s2.exl = true := returnsToUser_exl fp hret hcycle
  rw [hset] at hclear
  cases hclear

/-- **The exact condition.**  A run keeps user code unprivileged exactly when it
never returns to user code: the first completed ERET already leaves EXL set. -/
theorem confined_iff_no_user_return (inp : Nat → HostInput) (start : Machine) :
    ConfinedRun fp inp start ↔
      ∀ k cur, cycleN fp inp k start = some cur → ¬ ReturnsToUser fp (inp k) cur :=
  ⟨fun hconf _ _ hcur => hconf.no_user_return fp hcur,
    fun hno k cur hcur hret => absurd hret (hno k cur hcur)⟩

/-- A kernel image of one instruction, `eret`. -/
def eretImage : KernelBootInformation where
  text := [0x42000018#32]
  data := []
  bootEntry := 0x80000000#32
  trapEntry := 0x80000000#32
  argc := 0x80000100#32
  argv := 0x80000104#32
  textStart := 0x80000000#32
  dataStart := 0x80000100#32

/-- A machine booted on that image returns to address 4 with EXL still set. -/
theorem booted_run_not_always_confined :
    ¬ ∀ (fp : FpArith) (inp : Nat → HostInput) (pc trapEntry : Word) (memory : Memory)
        (host : Host) (info : KernelBootInformation) (args : List (List Byte)) (boot : Machine),
      (construct pc trapEntry memory host).loadKernel info args = .ok boot →
      ConfinedRun fp inp boot := by
  intro h
  have hconf := h ⟨fun _ a _ => a, fun _ a _ => a⟩ (fun _ => {}) 0 0 (fun _ => 0) {} eretImage [] _ rfl
  exact hconf.no_user_return _ (k := 0) rfl ⟨rfl, _, _, rfl, rfl, by decide⟩

end Machine

end Hardware
