import BobbyOS.Machine.PreciseTraps

/-!
# The zero register

`Register::ZERO` is register 0, and compiled code reads it as the constant
zero.  The register file treats it like the others: the decoder hands out a
reference to it, and an instruction that names it as its destination writes it.

* `cycle_registerFile`: the general registers behind a cycle;
* `cycle_zero_iff`: one cycle;
* `zero_register_iff`: every run.
-/

namespace Hardware

/-- What the cycle writes into the general registers: what the fetched
instruction does. -/
def cycleWrite (s : Machine) : Option (Reg × Word) :=
  match s.fetch with
  | .next i _ => i.written s
  | _ => none

/-- The instruction fetched does not write a value other than zero to `$zero`. -/
def KeepsZero (s : Machine) : Prop := ∀ v, cycleWrite s = some (Register.ZERO, v) → v = 0

variable {fp : FpArith} {inp : HostInput} {s s' : Machine} {t : Option Trap}

/-- **The registers behind a cycle**: those of the fetched instruction, whether
it returns, throws or is followed by an interrupt. -/
theorem cycle_registerFile (h : s.cycle fp inp = .ok (s', t)) :
    s'.registerFile = applyWrite s.registerFile (cycleWrite s) := by
  have hends := Machine.cycle_ends
    (P := HoldsRegisters (applyWrite s.registerFile (cycleWrite s))) ?_ ?_ ?_ h
  · obtain ⟨mid, hmid, hnone, hsome⟩ := hends
    cases t with
    | none =>
        rw [hnone rfl]
        exact hmid
    | some trap =>
        rw [(hsome trap rfl).2, Machine.raiseTrap_eq]
        exact hmid
  · intro t mid hf
    obtain ⟨cache, rfl⟩ := Machine.fetch_ends.of_raise hf
    simp only [HoldsRegisters, cycleWrite, hf, applyWrite]
  · intro i s1 hf
    obtain ⟨cache, rfl⟩ := Machine.fetch_next hf
    simp only [cycleWrite, hf]
    exact i.run_written fp inp { s with instructionCache := cache }
  · intro mid pc hmid
    exact hmid

/-- A write leaves `$zero` at zero exactly when it does not put another value
there. -/
theorem applyWrite_zero_iff {regs : Reg → Word} {w : Option (Reg × Word)}
    (h0 : regs Register.ZERO = 0) :
    applyWrite regs w Register.ZERO = 0 ↔ ∀ v, w = some (Register.ZERO, v) → v = 0 := by
  cases w with
  | none => simp [applyWrite, h0]
  | some rv =>
      obtain ⟨r, v⟩ := rv
      by_cases hr : r = Register.ZERO
      · subst hr
        simp [applyWrite]
      · have hkept : applyWrite regs (some (r, v)) Register.ZERO = 0 := by
          rw [applyWrite, Function.update_of_ne (Ne.symm hr), h0]
        simp [hkept, hr]

/-- One cycle. -/
theorem cycle_zero_iff (h0 : s.registerFile Register.ZERO = 0)
    (h : s.cycle fp inp = .ok (s', t)) :
    s'.registerFile Register.ZERO = 0 ↔ KeepsZero s := by
  rw [cycle_registerFile h]
  exact applyWrite_zero_iff h0

namespace Machine

/-- The next state of a run comes from a cycle. -/
theorem cycleN_succ_inv {inp : Nat → HostInput} {start next : Machine} {n : Nat}
    (h : cycleN fp inp (n + 1) start = some next) :
    ∃ cur t, cycleN fp inp n start = some cur ∧ cur.cycle fp (inp n) = .ok (next, t) := by
  obtain ⟨cur, hcur, hstep⟩ := Option.bind_eq_some_iff.mp h
  split at hstep
  · cases hstep
  · obtain ⟨⟨next', t⟩, hcycle, rfl⟩ := Option.map_eq_some_iff.mp hstep
    refine ⟨cur, t, hcur, ?_⟩
    cases hc : cur.cycle fp (inp n) with
    | error f =>
        rw [hc] at hcycle
        cases hcycle
    | ok r =>
        rw [hc] at hcycle
        cases hcycle
        rfl

/-- **The zero register over a run.**  From a state with `$zero` at zero, it
stays zero in every state of the run exactly when no cycle of the run writes
another value to it. -/
theorem zero_register_iff {inp : Nat → HostInput} {start : Machine}
    (h0 : start.registerFile Register.ZERO = 0) :
    (∀ n cur, cycleN fp inp n start = some cur → cur.registerFile Register.ZERO = 0) ↔
      ∀ n cur next, cycleN fp inp n start = some cur → cycleN fp inp (n + 1) start = some next →
        KeepsZero cur := by
  constructor
  · intro hzero n cur next hcur hnext
    obtain ⟨cur', t, hcur', hcycle⟩ := cycleN_succ_inv hnext
    obtain rfl := Option.some.inj (hcur.symm.trans hcur')
    exact (cycle_zero_iff (hzero n cur hcur) hcycle).mp (hzero (n + 1) next hnext)
  · intro hkeeps n
    induction n with
    | zero =>
        intro cur hcur
        obtain rfl := Option.some.inj hcur
        exact h0
    | succ n ih =>
        intro next hnext
        obtain ⟨cur, t, hcur, hcycle⟩ := cycleN_succ_inv hnext
        exact (cycle_zero_iff (ih cur hcur) hcycle).mpr (hkeeps n cur next hcur hnext)

/-- A machine that executes no-operations: `sll $0, $0, 0` names `$zero` as its
destination, and the criterion is about the value. -/
theorem nop_zero_register :
    KeepsZero (wordMachine 0 0 0 0) ∧
    ((∀ n cur, cycleN ⟨fun _ a _ => a, fun _ a _ => a⟩ (fun _ => {}) n (wordMachine 0 0 0 0) =
        some cur → cur.registerFile Register.ZERO = 0) ↔
      ∀ n cur next,
        cycleN ⟨fun _ a _ => a, fun _ a _ => a⟩ (fun _ => {}) n (wordMachine 0 0 0 0) = some cur →
        cycleN ⟨fun _ a _ => a, fun _ a _ => a⟩ (fun _ => {}) (n + 1) (wordMachine 0 0 0 0) =
          some next → KeepsZero cur) := by
  refine ⟨fun v hv => ?_, zero_register_iff rfl⟩
  have hwrite : cycleWrite (wordMachine 0 0 0 0) = some (Register.ZERO, 0) := rfl
  rw [hwrite] at hv
  cases hv
  rfl

/-- `addi $0, $0, 1` puts one into `$zero`. -/
theorem zero_register_may_change :
    ¬ ∀ (fp : FpArith) (inp : Nat → HostInput) (start : Machine),
      start.registerFile Register.ZERO = 0 →
      ∀ n cur, cycleN fp inp n start = some cur → cur.registerFile Register.ZERO = 0 := by
  intro h
  have hwrite : cycleWrite (wordMachine 0x20 0 0 1) = some (Register.ZERO, 1#32) := rfl
  obtain ⟨next, hcycle⟩ : ∃ next, (wordMachine 0x20 0 0 1).cycle
      ⟨fun _ a _ => a, fun _ a _ => a⟩ {} = .ok (next, none) := ⟨_, rfl⟩
  have hnext : cycleN ⟨fun _ a _ => a, fun _ a _ => a⟩ (fun _ => {}) 1 (wordMachine 0x20 0 0 1) =
      some next := cycleN_succ _ rfl rfl hcycle
  have hzero := h _ _ _ rfl 1 next hnext
  have hkeeps := (cycle_zero_iff rfl hcycle).mp hzero
  exact absurd (hkeeps 1#32 hwrite) (by decide)

end Machine

end Hardware
