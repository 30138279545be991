import BobbyOS.Kernel.Answers
import BobbyOS.Kernel.Fairness
import BobbyOS.Kernel.TrapTransparency

/-!
# The system: one core, one kernel, many programs

The core runs the current process until it traps, the trap code and the kernel run, and
the core goes on with the registers of the process that is current then.  The kernel
should give each process a machine of its own.  `System.program` is what a process is at a
given moment, in the core or in its saved registers, and `Goes` is how a program may go on
when it is alone with the kernel.

* `Steady`: the invariant of the system between two events;
* `system_step`: an event keeps it, and moves no program but as `Goes` says.
-/

namespace Kernel

open Effects SharedResources Register
open Hardware (Program Machine)

variable {fp : Hardware.FpArith} {sym : Symbols} {inp : Hardware.HostInput}

/-! ### The system -/

/-- A core and its kernel, which has the core's memory, TLB and ENTRYHI. -/
structure System where
  kernel : KernelState
  core : Machine
  memory : core.memory = kernel.shared.physMem
  tlb : core.tlb = kernel.tlb
  asid : core.asid = kernel.asid

/-- The kernel finds what was stored. -/
def KernelState.stored (s : KernelState) (physMem : Hardware.Memory) : KernelState :=
  { s with shared := { s.shared with physMem } }

/-- The program of a process: it runs on the core, or its registers are saved. -/
def System.program (σ : System) (n : Nat) : Option Program :=
  (σ.kernel.shared.procAt n).map fun p =>
    let memory := p.addrSpace.userMemory σ.kernel.shared.physMem
    if σ.kernel.currentThread = .process n then σ.core.program memory
    else (p.regCtx.program memory).advance

/-- The way of the registers from a core `c` that has trapped into the core `c'` that goes
on: `kernel_trap` saves them as `ctx`, `handleTrap` leaves `regCtx` in the control block
of the current thread, and `run_process` loads these. -/
structure Passes (sym : Symbols) (c c' : Core) (ctx regCtx : RegisterContext) : Prop where
  depth : c.mem sym.exceptionDepth = 0
  frame : ByteMemory.Outside sym.exceptionDepth (stackTop sym c - 144#32) 144
  saved : RegisterContext.load (kernelTrap sym c).mem (stackTop sym c - 144#32) = ctx
  handled : ∃ h : Core, c' = runProcess sym (kernelTrapReturn sym h) ∧
    h.registerFile ZERO = (kernelTrap sym c).registerFile ZERO ∧
    h.mem sym.exceptionDepth = (kernelTrap sym c).mem sym.exceptionDepth ∧
    ByteMemory.Outside sym.exceptionDepth (ByteMemory.load32 h.mem sym.currentThread) 144 ∧
    RegisterContext.load h.mem (ByteMemory.load32 h.mem sym.currentThread) = regCtx

/-- What moves the system: cycles of the core, traps with what the kernel finds, interrupts
that come with the `eret` to a program, misses of the kernel on its heap, and stores of the
kernel to what no process has. -/
inductive SystemEvent
  | cycle (inp : Hardware.HostInput)
  | trap (inp : Hardware.HostInput) (vm : Tunnel) (brk0 badVAddr : Word) (ctx : RegisterContext)
  | interruptedReturn (vm : Tunnel) (brk0 badVAddr : Word) (ctx : RegisterContext)
  | kernelMiss (vaddr : Word)
  | kernelStores (physMem : Hardware.Memory)

/-- The cached instructions at user addresses. -/
def UserCached (c : Hardware.InstructionCache) (a : Word) (i : Hardware.Instruction) : Prop :=
  (a, some i) ∈ c.storage ∧ Hardware.userAddress a

/-- The registers and the cache of a core stay. -/
structure SameProgram (core core' : Machine) : Prop where
  program : ∀ memory, core'.program memory = core.program memory
  cache : core'.instructionCache = core.instructionCache

/-- The trap that a poll of the interrupt device raises. -/
def interrupt : Hardware.Trap := { exceptionCode := .interrupt }

/-- The steps of the system.  `handleTrap` clears the instruction cache unless it goes back
to the process whose miss it has served.  `run_process` enables interrupts before its `eret`,
so one can come before the program has made a step. -/
inductive System.Step (fp : Hardware.FpArith) (sym : Symbols) :
    System → SystemEvent → System → Prop
  | cycle {σ σ' : System} {inp : Hardware.HostInput}
      (hcycle : σ.core.cycle fp inp = .ok (σ'.core, none))
      (hkernel : σ'.kernel = σ.kernel.stored σ'.core.memory) : Step fp sym σ (.cycle inp) σ'
  | trap {σ σ' : System} {inp : Hardware.HostInput} {core : Machine} {t : Hardware.Trap}
      {mem mem' : ByteMemory.Mem} {vm : Tunnel} {brk0 : Word} {ctx regCtx : RegisterContext}
      (hcycle : σ.core.cycle fp inp = .ok (core, some t))
      (hpasses : Passes sym (Core.ofMachine core mem) (Core.ofMachine σ'.core mem') ctx regCtx)
      (hreturns : Returns (takeTrap vm brk0 (core.cp0 Hardware.SYSRegister.BAD_VADDR) ctx)
        (σ.kernel.stored core.memory) regCtx σ'.kernel)
      (hcache : ∀ a i, UserCached σ'.core.instructionCache a i →
        refills (.ofCause ctx.cause) = true ∧ UserCached core.instructionCache a i) :
      Step fp sym σ (.trap inp vm brk0 (core.cp0 Hardware.SYSRegister.BAD_VADDR) ctx) σ'
  | interruptedReturn {σ σ' : System} {mem mem' : ByteMemory.Mem} {vm : Tunnel} {brk0 : Word}
      {ctx regCtx : RegisterContext}
      (hpasses : Passes sym (Core.ofMachine (σ.core.raiseTrap interrupt) mem)
        (Core.ofMachine σ'.core mem') ctx regCtx)
      (hreturns : Returns (takeTrap vm brk0 interrupt.badAddr ctx) σ.kernel regCtx σ'.kernel)
      (hcache : ∀ a i, ¬ UserCached σ'.core.instructionCache a i) :
      Step fp sym σ (.interruptedReturn vm brk0 interrupt.badAddr ctx) σ'
  | kernelMiss {σ σ' : System} {vaddr : Word}
      (hkernel : σ.kernel.Step (.kernelMiss vaddr) σ'.kernel)
      (hcore : SameProgram σ.core σ'.core) : Step fp sym σ (.kernelMiss vaddr) σ'
  | kernelStores {σ σ' : System} {physMem : Hardware.Memory}
      (hkernel : σ'.kernel = σ.kernel.stored physMem)
      (hspares : ∀ n p x, σ.kernel.shared.procAt n = some p →
        p.addrSpace.Owns (x / Hardware.pageSize) → physMem x = σ.kernel.shared.physMem x)
      (hcore : SameProgram σ.core σ'.core) : Step fp sym σ (.kernelStores physMem) σ'

/-! ### Programs alone with the kernel -/

/-- The trap as `handleTrap` reads it. -/
def causeOf (t : Hardware.Trap) : ExceptionType :=
  .ofCause (t.exceptionCode.toByte.setWidth 32 <<< 2)

/-- A miss is refilled, whichever access it was. -/
theorem refills_missTrap (type : Hardware.LookupType) (vaddr : Word) :
    refills (causeOf (Hardware.missTrap type vaddr)) = true := by
  have hcode : (Hardware.missTrap type vaddr).exceptionCode = .tlbL ∨
      (Hardware.missTrap type vaddr).exceptionCode = .tlbS := by
    by_cases h : type = .load
    · exact .inl (if_pos h)
    · exact .inr (if_neg h)
  unfold causeOf
  rcases hcode with h | h
  · rw [h]
    decide
  · rw [h]
    decide

/-- How a program goes on: it waits, it makes a step, it is interrupted behind one, or it
traps and is answered. -/
inductive Goes (fp : Hardware.FpArith) (p p' : Program) : Prop
  | waits (h : saved p' = saved p)
  | steps (h : p.step fp = .next p')
  | interrupted {p1 : Program} (h : p.step fp = .next p1) (h' : saved p' = saved p1)
  | asks {t : Hardware.Trap} {p1 : Program} (h : p.step fp = .raise t p1)
      (h' : Answered (causeOf t) p1 p')

/-- The program stays in its pages, and leaves `$zero` alone. -/
def Behaved (fp : Hardware.FpArith) (p : Program) : Prop :=
  match p.step fp with
  | .next p' | .raise _ p' => p'.registerFile ZERO = p.registerFile ZERO
  | .abort _ => True
  | .escape => False

namespace System

/-- The current process makes its step as a program should. -/
def Behaves (fp : Hardware.FpArith) (σ : System) : Prop :=
  ∀ n p, σ.kernel.currentThread = .process n → σ.program n = some p → Behaved fp p

/-- What is asked of the programs: they stay in their pages, they do not write over
instructions that are cached, and their system calls spare the memory of others. -/
def Allows (fp : Hardware.FpArith) (σ : System) : SystemEvent → Prop
  | .cycle inp => σ.Behaves fp ∧ ∀ core n p p', σ.core.cycle fp inp = .ok (core, none) →
      σ.kernel.currentThread = .process n → σ.program n = some p → p.step fp = .next p' →
      Hardware.SparesCode core.instructionCache p p'
  | .trap inp vm brk0 badVAddr ctx => σ.Behaves fp ∧ ∀ core t,
      σ.core.cycle fp inp = .ok (core, some t) →
      (σ.kernel.stored core.memory).Sparing (.trap vm brk0 badVAddr ctx)
  | .interruptedReturn vm brk0 badVAddr ctx => σ.kernel.Sparing (.trap vm brk0 badVAddr ctx)
  | .kernelMiss _ => True
  | .kernelStores _ => True

end System

/-- **Invariant** of the system. -/
structure Steady (σ : System) : Prop where
  orderly : Orderly σ.kernel
  tagged : ∀ {n : Nat} {p : PCB}, σ.kernel.currentThread = .process n →
    σ.kernel.shared.procAt n = some p →
    σ.kernel.asid = p.addrSpace.asid ∨ σ.kernel.asid = KERNEL_ASID
  cache : ∀ {n : Nat} {p : Program}, σ.kernel.currentThread = .process n →
    σ.program n = some p → Hardware.CacheShows σ.core.instructionCache p
  zero : σ.core.registerFile ZERO = 0

/-! ### Saved programs -/

section Saved

variable {p p' : Program} {ctx regCtx : RegisterContext} {memory : Word → Option Byte}

/-- A result is saved with or without what is not saved. -/
theorem saved_setReg (r : Reg) (v : Word) :
    saved ((saved p).setReg r v) = saved (p.setReg r v) := by
  unfold saved Program.setReg
  congr 1
  funext r'
  dsimp only
  split
  · rfl
  · rename_i hr
    by_cases heq : r' = r
    · rw [heq, Function.update_self, Function.update_self]
    · rw [Function.update_of_ne heq, Function.update_of_ne heq]
      exact if_neg hr

/-- So is the next program counter. -/
theorem saved_advance : saved (saved p).advance = saved p.advance := by
  show (saved (saved p)).advance = (saved p).advance
  rw [saved_saved]

/-- So is received input. -/
theorem saved_received (reply : VMReply) :
    saved (received (saved p) reply) = saved (received p reply) := by
  have hsaved := saved_setReg (p := p) V0 reply.res
  exact congrArg (fun q : Program => { q with memory := (received p reply).memory }) hsaved

/-- An answer depends on what is saved. -/
theorem answeredCall_saved (h : AnsweredCall (saved p) p') : AnsweredCall p p' := by
  unfold AnsweredCall at h ⊢
  have hv0 : (saved p).registerFile V0 = p.registerFile V0 := rfl
  rw [hv0] at h
  dsimp only at h ⊢
  have hadvance : (saved p).advance = saved p.advance := rfl
  rw [hadvance] at h
  split
  case isTrue hcall =>
    rw [if_pos hcall] at h
    obtain ⟨v, h⟩ := h
    exact ⟨v, h.trans (saved_setReg V0 v)⟩
  case isFalse hcall =>
    rw [if_neg hcall] at h
    split
    case isTrue hcall =>
      rw [if_pos hcall] at h
      refine h.imp (fun h => h.trans (saved_setReg V0 0)) ?_
      rintro ⟨reply, h⟩
      exact ⟨reply, h.trans (saved_received reply)⟩
    case isFalse hcall =>
      rw [if_neg hcall] at h
      split
      case isTrue hcall => rwa [if_pos hcall] at h
      case isFalse hcall =>
        rw [if_neg hcall] at h
        split
        case isTrue => trivial
        case isFalse hcall =>
          rw [if_neg hcall] at h
          split
          case isTrue hcall =>
            rw [if_pos hcall] at h
            obtain ⟨memory, hmemory, h⟩ := h
            refine ⟨memory, hmemory, h.trans ?_⟩
            exact congrArg (fun q : Program => { q with memory }) (saved_saved p.advance)
          case isFalse hcall =>
            rw [if_neg hcall] at h
            exact h.trans (saved_saved p.advance)

/-- The answer depends on what is saved. -/
theorem answered_saved {cause : ExceptionType} (h : Answered cause (saved p) p') :
    Answered cause p p' := by
  cases cause with
  | interrupt | tlbL | tlbS => exact h.trans (saved_saved p)
  | syscall => exact answeredCall_saved h
  | ri | overflow => exact h
  | _ => exact h.trans saved_advance

/-- Registers that agree with a context, apart from the ones that are not saved. -/
theorem saved_registers {regs : Reg → Word} (hzero : regs ZERO = 0)
    (h : ∀ r, r ≠ ZERO → r ≠ K0 → r ≠ K1 → ctx.accessRegister r = regs r) (r : Reg) :
    (if Saved r then ctx.accessRegister r else 0) = if r = K0 ∨ r = K1 then 0 else regs r := by
  by_cases hr : r = K0 ∨ r = K1
  · have hnot : ¬ Saved r := fun h => hr.elim h.2.1 h.2.2
    rw [if_pos hr, if_neg hnot]
  · rw [if_neg hr]
    obtain ⟨hk0, hk1⟩ := not_or.mp hr
    by_cases h0 : r = ZERO
    · rw [h0, hzero]
      rfl
    · rw [if_pos ⟨h0, hk0, hk1⟩, h r h0 hk0 hk1]

/-- The registers that the trap code saves are the ones of the program. -/
theorem program_saves {core : Machine} {c : Core} (h : Saves c ctx)
    (hregs : c.registerFile = core.registerFile) (hhi : c.hi = core.hi) (hlo : c.lo = core.lo)
    (hepc : c.cp0 14 = core.programCounter) (hzero : core.registerFile ZERO = 0) :
    ctx.program memory = saved (core.program memory) := by
  have hregisters : (ctx.program memory).registerFile =
      (saved (core.program memory)).registerFile :=
    funext (saved_registers hzero fun r h0 hk0 hk1 =>
      (h.general r h0 hk0 hk1).trans (congrFun hregs r))
  have hother : ctx.program memory = { saved (core.program memory) with
      registerFile := (ctx.program memory).registerFile } := by
    unfold RegisterContext.program saved Machine.program
    rw [h.hi, h.lo, h.epc, hhi, hlo, hepc]
  rw [hother, hregisters]

/-- The registers that `run_process` loads are the ones of the program. -/
theorem saved_holds {core : Machine} (h : Holds core.registerFile core.hi core.lo regCtx)
    (hzero : core.registerFile ZERO = 0) (hpc : core.programCounter = regCtx.epc + 4#32) :
    saved (core.program memory) = (regCtx.program memory).advance := by
  have hregisters : (saved (core.program memory)).registerFile =
      (regCtx.program memory).advance.registerFile :=
    funext fun r =>
      (saved_registers hzero (fun r h0 hk0 hk1 => (h.general r h0 hk0 hk1).symm) r).symm
  have hother : saved (core.program memory) = { (regCtx.program memory).advance with
      registerFile := (saved (core.program memory)).registerFile } := by
    unfold RegisterContext.program saved Machine.program Program.advance
    rw [h.hi, h.lo, hpc]
  rw [hother, hregisters]

/-- **The trap code** saves the registers of the core that trapped, and `run_process` finds
the ones that the handler left, outside of any trap. -/
theorem Passes.loads {c c' : Core} (h : Passes sym c c' ctx regCtx) :
    Saves c ctx ∧ ∃ c1, c' = runProcess sym c1 ∧ c1.mem sym.exceptionDepth = 0 ∧
      RegisterContext.load c1.mem (c1.registerFile A0) = regCtx ∧
      c1.registerFile ZERO = c.registerFile ZERO := by
  obtain ⟨-, -, hzero, hdepth, hsaves⟩ := kernelTrap_spec sym c h.frame
  rw [h.saved] at hsaves
  obtain ⟨handled, rfl, hzero', hdepth', hout, hload⟩ := h.handled
  obtain ⟨regs, hret, ha0, hzero''⟩ := kernelTrapReturn_spec sym handled
  refine ⟨hsaves, kernelTrapReturn sym handled, rfl, ?_, ?_, ?_⟩
  · rw [hret]
    show Function.update _ _ _ _ = _
    rw [Function.update_self, hdepth', hdepth, h.depth]
    rfl
  · rw [hret]
    show RegisterContext.load (Function.update _ _ _) (regs A0) = _
    rw [ha0, load_update hout, hload]
  · rw [hret]
    show regs ZERO = _
    rw [hzero'', hzero', hzero]

/-- The core goes on with the registers that the handler left. -/
theorem passes_spec {c c' : Core} (h : Passes sym c c' ctx regCtx) :
    Saves c ctx ∧ Holds c'.registerFile c'.hi c'.lo regCtx ∧
      c'.registerFile ZERO = c.registerFile ZERO ∧ c'.programCounter = regCtx.epc + 4#32 := by
  obtain ⟨hsaves, c1, rfl, hdepth, hcontext, hzero⟩ := h.loads
  obtain ⟨hholds, hz, hpc⟩ := runProcess_spec sym c1
  rw [hcontext] at hholds hpc
  rw [hdepth, if_pos rfl] at hpc
  exact ⟨hsaves, hholds, hz.trans hzero, hpc⟩

/-- A step that raises a trap leaves the memory. -/
theorem memory_of_raise {t : Hardware.Trap} (h : p.step fp = .raise t p') :
    p'.memory = p.memory := by
  have hstop {stop : Program.Stop} (h : Program.Stop.ending p stop = .raise t p') : p' = p := by
    cases stop with
    | escape => cases h
    | fault f =>
        cases f with
        | trap t =>
            cases h
            rfl
        | _ => cases h
  have haccess {α : Type} {r : Except Program.Stop α} {k : α → Program}
      (h : Program.Ending.ofAccess p r k = .raise t p') : p' = p := by
    cases r with
    | ok a => cases h
    | error stop => exact hstop h
  have houtcome {o : Hardware.Outcome Unit}
      (h : Program.Ending.ofOutcome p.memory o = .raise t p') : p'.memory = p.memory := by
    cases o with
    | raise t s =>
        cases h
        rfl
    | _ => cases h
  unfold Program.step at h
  cases hfetch : p.getWord p.programCounter with
  | error stop =>
      rw [hfetch] at h
      rw [hstop h]
  | ok w =>
      rw [hfetch] at h
      dsimp only at h
      cases hdecode : Hardware.IntegerUnit.decode p.programCounter w with
      | error f =>
          rw [hdecode] at h
          rw [hstop h]
      | ok i =>
          rw [hdecode] at h
          dsimp only at h
          have hraise : p.execute fp i = .raise t p' := by
            generalize p.execute fp i = ending at h
            cases ending with
            | raise t p => exact h
            | _ => cases h
          cases i with
          | iMemory op rt rs imm => cases op <;> rw [haccess hraise]
          | _ =>
              unfold Program.execute at hraise
              dsimp only at hraise
              split at hraise
              · cases hraise
              · exact houtcome hraise

end Saved

/-! ### Steps -/

section Steps

variable {σ σ' : System} {s : KernelState} {n c : Nat} {p p1 : Program} {q q' : PCB}
  {core mid : Machine} {t : Option Hardware.Trap}

/-- The order does not depend on the bytes of the memory. -/
theorem Orderly.stored (h : Orderly s) (physMem : Hardware.Memory) :
    Orderly (s.stored physMem) := by
  obtain ⟨c, pids, hnodup, hs⟩ := h.scheduled
  have hsettled : Settled (.process c) 0 noGuards (withCurrent c pids) pids (s.stored physMem) :=
    ⟨hs.thread, hs.depth, invariant_log hs.invariant physMem _, hs.occupied, hs.counts, hs.alive,
      hs.highest, hs.unheld, hs.queue⟩
  exact ⟨⟨c, pids, hnodup, hsettled⟩, tabled_stores physMem h.tabled,
    coherent_stores physMem h.coherent, walled_stores physMem h.walled⟩

/-- Some process is the current one. -/
theorem Orderly.current (h : Orderly s) :
    ∃ c q, s.currentThread = .process c ∧ s.shared.procAt c = some q := by
  obtain ⟨c, pids, -, hs⟩ := h.scheduled
  obtain ⟨q, hq⟩ := (hs.occupied c).mpr (List.mem_cons_self ..)
  exact ⟨c, q, hs.thread, hq⟩

/-- The resources of an orderly kernel are sane. -/
theorem Orderly.sane (h : Orderly s) : s.shared.Sane := h.walled.invariant.sane

/-- The current process is in the core. -/
theorem program_current (hthread : σ.kernel.currentThread = .process n)
    (hq : σ.kernel.shared.procAt n = some q) : σ.program n =
      some (σ.core.program (q.addrSpace.userMemory σ.kernel.shared.physMem)) := by
  rw [System.program, hq, Option.map_some, if_pos hthread]

/-- A process that waits is in its saved registers. -/
theorem program_waiting (hthread : σ.kernel.currentThread ≠ .process n)
    (hq : σ.kernel.shared.procAt n = some q) : σ.program n =
      some (q.regCtx.program (q.addrSpace.userMemory σ.kernel.shared.physMem)).advance := by
  rw [System.program, hq, Option.map_some, if_neg hthread]

/-- A program is that of a process. -/
theorem exists_process (h : σ.program n = some p) :
    ∃ q, σ.kernel.shared.procAt n = some q := by
  obtain ⟨q, hq, -⟩ := Option.map_eq_some_iff.mp h
  exact ⟨q, hq⟩

/-- How the program comes to the trap `t`, or goes on without one: by a cycle, or with the
`eret` to it. -/
inductive Comes (fp : Hardware.FpArith) (p : Program) : Option Hardware.Trap → Program → Prop
  | cycles {t : Option Hardware.Trap} {p' : Program} (h : p.Cycles fp t p') : Comes fp p t p'
  | returns : Comes fp p (some interrupt) p

/-- What a cycle of the current process `c` has done when it hands over in the state `mid`:
the program `p` has become `p1`, and no other process has changed. -/
structure Cycled (fp : Hardware.FpArith) (σ : System) (t : Option Hardware.Trap)
    (core : Machine) (c : Nat) (q : PCB) (mid : Machine) (p p1 : Program) : Prop where
  thread : σ.kernel.currentThread = .process c
  process : σ.kernel.shared.procAt c = some q
  before : σ.program c = some p
  core : core = mid.handOver t
  comes : Comes fp p t p1
  after : mid.program (q.addrSpace.userMemory mid.memory) = p1
  system : Hardware.KeepsSystem σ.core mid
  cache : Hardware.CacheShows mid.instructionCache p
  zero : p1.registerFile ZERO = 0
  others : ∀ {n : Nat} {q' : PCB}, n ≠ c → σ.kernel.shared.procAt n = some q' →
    q'.addrSpace.userMemory mid.memory = q'.addrSpace.userMemory σ.kernel.shared.physMem

/-- **The current process** makes its step on the core as it does alone. -/
theorem exists_cycled (hs : Steady σ) (hbehaves : σ.Behaves fp)
    (hcycle : σ.core.cycle fp inp = .ok (core, t)) :
    ∃ c q mid p p1, Cycled fp σ t core c q mid p p1 := by
  obtain ⟨c, q, hthread, hq⟩ := hs.orderly.current
  have hsane := hs.orderly.sane
  obtain ⟨map, hplaced⟩ := exists_placed hsane hq
  have hshows : map.Shows σ.core.tlb σ.core.asid := by
    rw [σ.tlb, σ.asid]
    exact shows_current hs.orderly.walled hs.orderly.coherent hq hplaced (hs.tagged hthread hq)
  have hp := program_current hthread hq
  rw [← hplaced.memory, ← σ.memory] at hp
  have hbehaved := hbehaves c _ hthread hp
  unfold Behaved at hbehaved
  have hinside : (σ.core.program (map.memory σ.core.memory)).step fp ≠ .escape := by
    intro hescape
    rw [hescape] at hbehaved
    exact hbehaved
  obtain ⟨mid, p1, hcore, hcycles, hleaves⟩ :=
    Hardware.cycle_simulates hshows (hs.cache hthread hp) rfl hinside hcycle
  refine ⟨c, q, mid, _, p1, hthread, hq, hp, hcore, .cycles hcycles, ?_, hleaves.system,
    hleaves.cache, ?_, fun {n q'} hne hq' => ?_⟩
  · rw [← hplaced.memory]
    exact hleaves.becomes.program
  · have hzero : (σ.core.program (map.memory σ.core.memory)).registerFile ZERO = 0 := hs.zero
    cases hcycles with
    | completes h | interrupted h | raises h =>
        rw [h] at hbehaved
        exact hbehaved.trans hzero
    | misses => exact hzero
  · refine userMemory_congr hsane hq' fun x howns => ?_
    rw [← σ.memory]
    refine hleaves.becomes.frame x fun hmap => ?_
    exact hs.orderly.walled.invariant.owns_apart hq' hq hne howns (hplaced.owns hmap)

/-- **An interrupted return** finds the program as the last trap left it. -/
theorem exists_returned (hs : Steady σ) :
    ∃ c q p, Cycled fp σ (some interrupt) (σ.core.raiseTrap interrupt) c q σ.core p p := by
  obtain ⟨c, q, hthread, hq⟩ := hs.orderly.current
  have hp := program_current hthread hq
  refine ⟨c, q, _, hthread, hq, hp, rfl, .returns, ?_, .refl _, hs.cache hthread hp, hs.zero,
    fun {n q'} _ _ => ?_⟩
  · rw [σ.memory]
  · rw [σ.memory]

/-- An event keeps the invariant, and moves the programs as `Goes` says. -/
def Proceeds (fp : Hardware.FpArith) (σ σ' : System) : Prop :=
  Steady σ' ∧ ∀ n p p', σ.program n = some p → σ'.program n = some p' → Goes fp p p'

/-- **Cycle.** -/
theorem cycle_proceeds (hs : Steady σ) (hallows : σ.Allows fp (.cycle inp))
    (hcycle : σ.core.cycle fp inp = .ok (σ'.core, none))
    (hkernel : σ'.kernel = σ.kernel.stored σ'.core.memory) : Proceeds fp σ σ' := by
  obtain ⟨c, q, mid, p, p1, h⟩ := exists_cycled hs hallows.1 hcycle
  obtain rfl : σ'.core = mid := h.core
  have hstep : p.step fp = .next p1 := by
    cases h.comes with
    | cycles h =>
        cases h with
        | completes h => exact h
  have hthread' : σ'.kernel.currentThread = .process c := by
    rw [hkernel]
    exact h.thread
  have hproc (n : Nat) : σ'.kernel.shared.procAt n = σ.kernel.shared.procAt n := by
    rw [hkernel]
    rfl
  have hmem : σ'.kernel.shared.physMem = σ'.core.memory := σ'.memory.symm
  have hcurrent : σ'.program c = some p1 := by
    rw [program_current hthread' ((hproc c).trans h.process), hmem, h.after]
  refine ⟨⟨?_, fun {n p'} hthread hp' => ?_, fun {n p'} hthread hp' => ?_, ?_⟩,
    fun n r r' hr hr' => ?_⟩
  · rw [hkernel]
    exact hs.orderly.stored _
  · rw [hproc] at hp'
    rw [hkernel] at hthread ⊢
    exact hs.tagged hthread hp'
  · obtain rfl : c = n := GuardRef.process.inj (hthread'.symm.trans hthread)
    obtain rfl := Option.some.inj (hcurrent.symm.trans hp')
    exact h.cache.spared (hallows.2 _ _ _ _ hcycle h.thread h.before hstep)
  · have hzero := h.zero
    rw [← h.after] at hzero
    exact hzero
  · by_cases hn : n = c
    · subst hn
      obtain rfl := Option.some.inj (h.before.symm.trans hr)
      obtain rfl := Option.some.inj (hcurrent.symm.trans hr')
      exact .steps hstep
    · obtain ⟨q', hq'⟩ := exists_process hr
      have hwaits {thread : GuardRef} (h : thread = .process c) : thread ≠ .process n := by
        rintro rfl
        exact hn (GuardRef.process.inj h)
      rw [program_waiting (hwaits h.thread) hq'] at hr
      rw [program_waiting (hwaits hthread') ((hproc n).trans hq'), hmem, h.others hn hq'] at hr'
      rw [← Option.some.inj hr, ← Option.some.inj hr']
      exact .waits rfl

/-- An event of the kernel alone that changes neither processes nor their bytes. -/
theorem Proceeds.of_same (hs : Steady σ) (horderly : Orderly σ'.kernel)
    (hthread : σ'.kernel.currentThread = σ.kernel.currentThread)
    (hproc : σ'.kernel.shared.procAt = σ.kernel.shared.procAt)
    (hasid : σ'.kernel.asid = σ.kernel.asid ∨ σ'.kernel.asid = KERNEL_ASID)
    (hmem : ∀ n q, σ.kernel.shared.procAt n = some q →
      q.addrSpace.userMemory σ'.kernel.shared.physMem =
        q.addrSpace.userMemory σ.kernel.shared.physMem)
    (hcore : SameProgram σ.core σ'.core) : Proceeds fp σ σ' := by
  have hprogram (n : Nat) : σ'.program n = σ.program n := by
    rw [System.program, System.program, hproc, hthread]
    cases hq : σ.kernel.shared.procAt n with
    | none => rfl
    | some q =>
        rw [Option.map_some, Option.map_some, hmem n q hq]
        dsimp only
        rw [hcore.program]
  refine ⟨⟨horderly, fun {n q} hn hq => ?_, fun {n p} hn hp => ?_, ?_⟩, fun n p p' hp hp' => ?_⟩
  · rw [hthread] at hn
    rw [hproc] at hq
    rcases hasid with h | h
    · rw [h]
      exact hs.tagged hn hq
    · exact .inr h
  · rw [hthread] at hn
    rw [hprogram] at hp
    rw [hcore.cache]
    exact hs.cache hn hp
  · have hregs := congrArg Program.registerFile (hcore.program fun _ => none)
    exact (congrFun hregs ZERO).trans hs.zero
  · rw [hprogram, hp] at hp'
    rw [Option.some.inj hp']
    exact .waits rfl

/-- **Misses of the kernel.** -/
theorem kernelMiss_proceeds {vaddr : Word} (hs : Steady σ)
    (hkernel : σ.kernel.Step (.kernelMiss vaddr) σ'.kernel)
    (hcore : SameProgram σ.core σ'.core) : Proceeds fp σ σ' := by
  have hcareful : σ.kernel.Careful (.kernelMiss vaddr) := trivial
  have horderly : Orderly σ'.kernel := orderly_step hs.orderly hcareful hkernel
  obtain ⟨u, hreturns⟩ := after_eq_some.mp hkernel
  obtain ⟨r, entry, hr, hentry, accesses, hfilled⟩ := returns_refill hreturns
  obtain rfl : σ.kernel.shared.kernelProcess = r := Except.ok.inj hr
  have hshared : σ'.kernel.shared = σ.kernel.shared := by rw [hfilled]
  have hasid : σ'.kernel.asid = KERNEL_ASID := by
    rw [hfilled]
    exact (asid_filled (s := σ.kernel) hentry).trans hs.orderly.coherent.kernelASID
  refine .of_same hs horderly ?_ ?_ (.inr hasid) (fun n q _ => ?_) hcore
  · rw [hfilled]
    rfl
  · rw [hshared]
  · rw [hshared]

/-- **Stores of the kernel.** -/
theorem kernelStores_proceeds {physMem : Hardware.Memory} (hs : Steady σ)
    (hkernel : σ'.kernel = σ.kernel.stored physMem)
    (hspares : ∀ n p x, σ.kernel.shared.procAt n = some p →
      p.addrSpace.Owns (x / Hardware.pageSize) → physMem x = σ.kernel.shared.physMem x)
    (hcore : SameProgram σ.core σ'.core) : Proceeds fp σ σ' := by
  have horderly : Orderly σ'.kernel := by
    rw [hkernel]
    exact hs.orderly.stored physMem
  refine .of_same hs horderly ?_ ?_ (.inl ?_) (fun n q hq => ?_) hcore
  · rw [hkernel]
    rfl
  · rw [hkernel]
    rfl
  · rw [hkernel]
    rfl
  · rw [hkernel]
    exact userMemory_congr hs.orderly.sane hq fun x howns => hspares n q x hq howns

/-! ### Traps -/

section Trap

variable {vm : Tunnel} {brk0 badVAddr : Word} {ctx regCtx : RegisterContext} {k k' : KernelState}

/-- The trap returns the registers of the thread that goes on. -/
theorem regCtx_takeTrap (h : Returns (takeTrap vm brk0 badVAddr ctx) k regCtx k')
    (hthread : k'.currentThread = .process n) (hq : k'.shared.procAt n = some q) :
    q.regCtx = regCtx := by
  obtain ⟨k0, accesses, ctx', oldThread, t, t1, -, -, -, h⟩ := returns_takeTrap h
  obtain ⟨_, t2, hleave, h⟩ := returns_bind.mp h
  obtain rfl := returns_modify.mp hleave
  obtain ⟨p, t3, hderef, h⟩ := returns_bind.mp (returns_get_bind.mp h)
  obtain ⟨rfl, rfl⟩ := returns_pure.mp h
  obtain ⟨hp, accesses', rfl⟩ := returns_deref hderef
  replace hthread : t1.currentThread = .process n := hthread
  rw [hthread] at hp
  rw [Option.some.inj ((pcb_ok_iff.mp hp).symm.trans hq)]

/-- A trap that refills the TLB goes back to its process. -/
theorem thread_refills (hcause : refills (.ofCause ctx.cause) = true)
    (hthread : k.currentThread = .process c)
    (h : Returns (takeTrap vm brk0 badVAddr ctx) k regCtx k') : k'.currentThread = .process c := by
  obtain ⟨k0, accesses, ctx', oldThread, t, t1, -, hdispatch, hfinish, h⟩ := returns_takeTrap h
  rw [hthread] at hdispatch
  obtain rfl := oldThread_refills hcause hdispatch
  replace hfinish := returns_get_bind.mp hfinish
  rw [if_pos (by rw [hcause, Bool.or_true])] at hfinish
  obtain ⟨_, t2, hcurrent, hfinish⟩ := returns_bind.mp hfinish
  obtain rfl := returns_modify.mp hcurrent
  obtain ⟨_, t3, hwrite, hreset⟩ := returns_bind.mp hfinish
  obtain ⟨p, -, accesses1, rfl⟩ := returns_writeContext hwrite
  obtain ⟨k1, -, accesses2, rfl⟩ := returns_reset hreset
  obtain ⟨_, t4, hleave, h⟩ := returns_bind.mp h
  obtain rfl := returns_modify.mp hleave
  obtain ⟨p, t5, hderef, h⟩ := returns_bind.mp (returns_get_bind.mp h)
  obtain ⟨-, rfl⟩ := returns_pure.mp h
  obtain ⟨-, accesses3, rfl⟩ := returns_deref hderef
  rfl

/-- Answers say nothing about what is not saved. -/
theorem answered_congr {cause : ExceptionType} {p' p'' : Program} (h : Answered cause p p'')
    (heq : saved p' = saved p'') : Answered cause p p' := by
  cases cause with
  | syscall =>
      show AnsweredCall p p'
      replace h : AnsweredCall p p'' := h
      unfold AnsweredCall at h ⊢
      rwa [heq]
  | ri | overflow => exact h
  | _ => exact heq.trans h

/-- A refill changes nothing that is saved. -/
theorem answered_refills {cause : ExceptionType} {p' : Program} (hcause : refills cause = true)
    (h : Answered cause p p') : saved p' = saved p := by
  cases cause with
  | tlbL | tlbS => exact h
  | _ => cases hcause

/-- A process that was not touched has its bytes. -/
theorem userMemory_untouched {m m' : SharedResources} (h : Untouched n m m')
    (hq : m.procAt n = some q) :
    q.addrSpace.userMemory m'.physMem = q.addrSpace.userMemory m.physMem := by
  funext vaddr
  unfold AddressSpace.userMemory
  cases ht : q.addrSpace.pageTable with
  | none => rfl
  | some t => rw [Option.bind_some, Option.bind_some, h.bytes q t vaddr hq ht]

/-- A word depends on the memory. -/
theorem getWord_congr {p' : Program} (h : p'.memory = p.memory) (a : Word) :
    p'.getWord a = p.getWord a := by
  unfold Program.getWord Program.locate Program.byteAt
  rw [h]

/-- After a trap every process goes on from its saved registers. -/
theorem saved_resumed {p' : Program} (hholds : ∀ memory,
      saved (σ'.core.program memory) = (regCtx.program memory).advance)
    (hreturns : Returns (takeTrap vm brk0 badVAddr ctx) k regCtx σ'.kernel)
    (hq : σ'.kernel.shared.procAt n = some q) (hp' : σ'.program n = some p') :
    saved p' =
      (q.regCtx.program (q.addrSpace.userMemory σ'.kernel.shared.physMem)).advance := by
  by_cases hthread : σ'.kernel.currentThread = .process n
  · rw [program_current hthread hq] at hp'
    rw [← Option.some.inj hp', hholds, regCtx_takeTrap hreturns hthread hq]
  · rw [program_waiting hthread hq] at hp'
    rw [← Option.some.inj hp']
    exact congrArg Program.advance saved_program

/-- The current process is answered. -/
theorem orderly_answers (hk : Orderly k) (hthread : k.currentThread = .process c)
    (hq : k.shared.procAt c = some q) (hsparing : k.Sparing (.trap vm brk0 badVAddr ctx))
    (h : Returns (takeTrap vm brk0 badVAddr ctx) k regCtx k') :
    (∀ q', k'.shared.procAt c = some q' →
      Answered (.ofCause ctx.cause) (ctx.program (q.addrSpace.userMemory k.shared.physMem))
        (q'.regCtx.program (q'.addrSpace.userMemory k'.shared.physMem)).advance) ∧
      Tagged k' := by
  obtain ⟨c', pids, hnodup, hsettled⟩ := hk.scheduled
  obtain rfl : c = c' := GuardRef.process.inj (hthread.symm.trans hsettled.thread)
  have htruthful := truthful_of_walled hk.walled hk.coherent hq
  have hspares := hsparing.2 c q hthread hq
  exact ⟨fun q' hq' => own_takeTrap hnodup hsettled hk.tabled hk.walled hq htruthful hspares h hq',
    tagged_takeTrap hnodup hsettled hk.walled h⟩

/-- What a trap has done when the core goes on: the kernel has handled the trap `t` of the
program `p1`, which `ctx` has the registers of, and the core has loaded `regCtx`. -/
structure Trapped (mid : Machine) (t : Hardware.Trap) (q : PCB) (p1 : Program)
    (ctx regCtx : RegisterContext) (σ' : System) : Prop where
  cause : ExceptionType.ofCause ctx.cause = causeOf t
  own : ctx.program (q.addrSpace.userMemory mid.memory) = saved p1
  resumes : ∀ memory, saved (σ'.core.program memory) = (regCtx.program memory).advance
  zero : σ'.core.registerFile ZERO = 0
  cache : ∀ a i, UserCached σ'.core.instructionCache a i →
    refills (.ofCause ctx.cause) = true ∧ UserCached mid.instructionCache a i

/-- The registers on their way through the trap code. -/
theorem trapped_of_passes {t : Hardware.Trap} {mem mem' : ByteMemory.Mem}
    (h : Cycled fp σ (some t) (mid.raiseTrap t) c q mid p p1)
    (hpasses : Passes sym (Core.ofMachine (mid.raiseTrap t) mem) (Core.ofMachine σ'.core mem')
      ctx regCtx)
    (hcache : ∀ a i, UserCached σ'.core.instructionCache a i →
      refills (.ofCause ctx.cause) = true ∧ UserCached (mid.raiseTrap t).instructionCache a i) :
    Trapped mid t q p1 ctx regCtx σ' := by
  obtain ⟨hsaves, hloads, hzero', hpc⟩ := passes_spec hpasses
  have hzero : mid.registerFile ZERO = 0 := by
    have hzero := h.zero
    rw [← h.after] at hzero
    exact hzero
  have hcoreZero : σ'.core.registerFile ZERO = 0 := hzero'.trans hzero
  refine ⟨?_, ?_, fun memory => saved_holds hloads hcoreZero hpc, hcoreZero, hcache⟩
  · rw [hsaves.cause]
    rfl
  · rw [← h.after]
    exact program_saves hsaves rfl rfl rfl rfl hzero

section Handled

variable {t : Hardware.Trap} {p' : Program}

/-- The program that trapped goes on as it was answered. -/
theorem Trapped.asks (h : Trapped mid t q p1 ctx regCtx σ')
    (hanswers : ∀ q', σ'.kernel.shared.procAt c = some q' →
      Answered (.ofCause ctx.cause) (ctx.program (q.addrSpace.userMemory mid.memory))
        (q'.regCtx.program (q'.addrSpace.userMemory σ'.kernel.shared.physMem)).advance)
    (hreturns : Returns (takeTrap vm brk0 badVAddr ctx) k regCtx σ'.kernel)
    (hp' : σ'.program c = some p') : Answered (causeOf t) p1 p' := by
  obtain ⟨q', hq'⟩ := exists_process hp'
  have hanswered := hanswers q' hq'
  rw [h.own, h.cause] at hanswered
  refine answered_congr (answered_saved hanswered) ?_
  rw [← saved_resumed h.resumes hreturns hq' hp', saved_saved]

/-- The program that trapped has made its step. -/
theorem Cycled.goes (h : Cycled fp σ (some t) core c q mid p p1)
    (hanswered : Answered (causeOf t) p1 p') : Goes fp p p' := by
  cases h.comes with
  | cycles hcycles =>
      cases hcycles with
      | interrupted hnext => exact .interrupted hnext hanswered
      | raises hraise => exact .asks hraise hanswered
      | misses type =>
          exact .waits (answered_refills (refills_missTrap type _) hanswered)
  | returns => exact .waits hanswered

/-- A trap that refills the TLB leaves the bytes of its program. -/
theorem Cycled.memory_refills (h : Cycled fp σ (some t) core c q mid p p1)
    (hrefills : refills (causeOf t) = true) : p1.memory = p.memory := by
  cases h.comes with
  | cycles hcycles =>
      cases hcycles with
      | interrupted => cases hrefills
      | raises hraise => exact memory_of_raise hraise
      | misses => rfl
  | returns => rfl

/-- Another program waits during the trap. -/
theorem Trapped.waits {r r' : Program} (h : Trapped mid t q p1 ctx regCtx σ')
    (hcycled : Cycled fp σ (some t) core c q mid p p1) (hne : n ≠ c)
    (hreturns : Returns (takeTrap vm brk0 badVAddr ctx) k regCtx σ'.kernel)
    (hmem : k.shared.physMem = mid.memory)
    (huntouched : Untouched n k.shared σ'.kernel.shared)
    (hq : σ.kernel.shared.procAt n = some q') (hq' : k.shared.procAt n = some q')
    (hr : σ.program n = some r) (hr' : σ'.program n = some r') : saved r' = saved r := by
  have hwaits : σ.kernel.currentThread ≠ .process n := by
    intro heq
    exact hne (GuardRef.process.inj (heq.symm.trans hcycled.thread))
  obtain ⟨q2, q3, hq2, hq3, -, hregs, hspace⟩ := huntouched.process
  obtain rfl := Option.some.inj (hq'.symm.trans hq2)
  rw [program_waiting hwaits hq] at hr
  have hbytes : q3.addrSpace.userMemory σ'.kernel.shared.physMem =
      q'.addrSpace.userMemory σ.kernel.shared.physMem := by
    rw [hspace, userMemory_untouched huntouched hq', hmem]
    exact hcycled.others hne hq
  rw [saved_resumed h.resumes hreturns hq3 hr', ← Option.some.inj hr, hregs, hbytes]
  exact (congrArg Program.advance saved_program).symm

end Handled

/-- **Trap.** -/
theorem trap_proceeds {t : Hardware.Trap} (hs : Steady σ)
    (hcycled : Cycled fp σ (some t) core c q mid p p1) (h : Trapped mid t q p1 ctx regCtx σ')
    (hsparing : (σ.kernel.stored mid.memory).Sparing (.trap vm brk0 badVAddr ctx))
    (hreturns : Returns (takeTrap vm brk0 badVAddr ctx) (σ.kernel.stored mid.memory) regCtx
      σ'.kernel) : Proceeds fp σ σ' := by
  have hk := hs.orderly.stored mid.memory
  have hthread : (σ.kernel.stored mid.memory).currentThread = .process c := hcycled.thread
  have hstep : (σ.kernel.stored mid.memory).Step (.trap vm brk0 badVAddr ctx) σ'.kernel :=
    after_eq_some.mpr ⟨regCtx, hreturns⟩
  obtain ⟨hanswers, htagged⟩ := orderly_answers hk hthread hcycled.process hsparing hreturns
  have hasks {p' : Program} (hp' : σ'.program c = some p') : Answered (causeOf t) p1 p' :=
    h.asks hanswers hreturns hp'
  refine ⟨⟨orderly_step hk hsparing.careful hstep, fun {n r} hn hr => .inl (htagged.asid hn hr),
    fun {n p'} hn hp' a i hmem hv => ?_, h.zero⟩, fun n r r' hr hr' => ?_⟩
  · obtain ⟨hrefills, hcached, -⟩ := h.cache a i ⟨hmem, hv⟩
    obtain rfl : c = n :=
      GuardRef.process.inj ((thread_refills hrefills hthread hreturns).symm.trans hn)
    rw [h.cause] at hrefills
    have hsaved : saved p' = saved p1 := answered_refills hrefills (hasks hp')
    have hmemory : (saved p').memory = (saved p1).memory := congrArg Program.memory hsaved
    have hsame : p'.memory = p1.memory := hmemory
    rw [getWord_congr (hsame.trans (hcycled.memory_refills hrefills))]
    exact hcycled.cache a i hcached hv
  · by_cases hn : n = c
    · subst hn
      obtain rfl := Option.some.inj (hcycled.before.symm.trans hr)
      exact hcycled.goes (hasks hr')
    · obtain ⟨q1, hq1⟩ := exists_process hr
      have hwaits : (σ.kernel.stored mid.memory).currentThread ≠ .process n := by
        intro heq
        exact hn (GuardRef.process.inj (heq.symm.trans hthread))
      have huntouched := untouched_step hk hsparing hwaits hq1 hstep
      exact .waits (h.waits hcycled hn hreturns rfl huntouched hq1 hq1 hr hr')

end Trap

/-- **Steps.**  An event that the programs allow moves each of them as it may go on alone. -/
theorem system_step {event : SystemEvent} (hs : Steady σ) (hallows : σ.Allows fp event)
    (h : System.Step fp sym σ event σ') : Proceeds fp σ σ' := by
  cases h with
  | cycle hcycle hkernel => exact cycle_proceeds hs hallows hcycle hkernel
  | trap hcycle hpasses hreturns hcache =>
      obtain ⟨c, q, mid, p, p1, hcycled⟩ := exists_cycled hs hallows.1 hcycle
      have hsparing := hallows.2 _ _ hcycle
      obtain rfl := hcycled.core
      exact trap_proceeds hs hcycled (trapped_of_passes hcycled hpasses hcache) hsparing hreturns
  | interruptedReturn hpasses hreturns hcache =>
      obtain ⟨c, q, p, hcycled⟩ := @exists_returned fp _ hs
      have hsame : σ.kernel.stored σ.core.memory = σ.kernel := by
        rw [σ.memory]
        rfl
      have htrapped := trapped_of_passes hcycled hpasses fun a i h => absurd h (hcache a i)
      rw [← hsame] at hreturns
      refine trap_proceeds hs hcycled htrapped ?_ hreturns
      rw [hsame]
      exact hallows
  | kernelMiss hkernel hcore => exact kernelMiss_proceeds hs hkernel hcore
  | kernelStores hkernel hspares hcore => exact kernelStores_proceeds hs hkernel hspares hcore

end Steps

end Kernel
