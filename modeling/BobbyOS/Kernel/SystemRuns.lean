import BobbyOS.Kernel.System

/-!
# Runs of the system

`System.step` executes cycles, traps and interrupted returns, so that a run of the system
can be computed: the core, the trap code, the kernel and the programs together.  What
`System.Step` asks of an event, that some memory of the trap code takes the registers to
the kernel and back, is proved of what is executed.

* `passes_resumes`: every trap can pass through the trap code, and the registers of the core
  behind it are known;
* `step_sound`: what is executed is a step of the system;
* `programs_run_alone`: in every run and with every interleaving each program runs as if it
  were alone with the kernel.
-/

namespace Kernel

open Effects SharedResources Register
open Hardware (Program Machine)

variable {fp : Hardware.FpArith} {sym : Symbols} {inp : Hardware.HostInput}

/-! ### Through the trap code -/

section Glue

variable {core : Machine} {ctx regCtx : RegisterContext} {s : KernelState}
  {cache : Hardware.InstructionCache} {mem mem' : ByteMemory.Mem}

instance decidableSaves (c : Core) (ctx : RegisterContext) : Decidable (Saves c ctx) :=
  decidable_of_iff ((∀ r, r ≠ ZERO → r ≠ K0 → r ≠ K1 → ctx.accessRegister r = c.registerFile r) ∧
      ctx.hiRegister = c.hi ∧ ctx.loRegister = c.lo ∧ ctx.epc = c.cp0 14 ∧ ctx.status = c.cp0 12 ∧
      ctx.cause = c.cp0 13)
    ⟨fun ⟨hgeneral, hhi, hlo, hepc, hstatus, hcause⟩ => ⟨hgeneral, hhi, hlo, hepc, hstatus, hcause⟩,
      fun h => ⟨h.general, h.hi, h.lo, h.epc, h.status, h.cause⟩⟩

/-- The register of a slot of a context. -/
def slotRegister (i : Fin 31) : Reg := ⟨i.val + 1, by omega⟩

/-- A slot of the context is its register's. -/
theorem accessRegister_slot (ctx : RegisterContext) (i : Fin 31) :
    ctx.accessRegister (slotRegister i) = ctx.regs i := by
  have hslot : Fin.ofNat 31 i.val = i := Fin.ext (Nat.mod_eq_of_lt i.isLt)
  exact congrArg ctx.regs hslot

/-- Two contexts of the same core differ in `$k0` and `$k1` at most. -/
theorem Saves.unique {c : Core} {ctx' : RegisterContext} (h : Saves c ctx) (h' : Saves c ctx')
    (hk0 : ctx.accessRegister K0 = ctx'.accessRegister K0)
    (hk1 : ctx.accessRegister K1 = ctx'.accessRegister K1) : ctx = ctx' := by
  have hregs : ctx.regs = ctx'.regs := by
    funext i
    rw [← accessRegister_slot, ← accessRegister_slot]
    have hzero : slotRegister i ≠ ZERO := Fin.ne_of_val_ne (Nat.succ_ne_zero _)
    by_cases hrk0 : slotRegister i = K0
    · rw [hrk0, hk0]
    · by_cases hrk1 : slotRegister i = K1
      · rw [hrk1, hk1]
      · rw [h.general _ hzero hrk0 hrk1, h'.general _ hzero hrk0 hrk1]
  cases ctx
  cases ctx'
  obtain rfl := hregs
  obtain rfl := h.hi.trans h'.hi.symm
  obtain rfl := h.lo.trans h'.lo.symm
  obtain rfl := h.epc.trans h'.epc.symm
  obtain rfl := h.status.trans h'.status.symm
  obtain rfl := h.cause.trans h'.cause.symm
  rfl

/-- The kernel's stack with a context on it, and no trap counted. -/
@[irreducible] def contextMem (ctx : RegisterContext) : ByteMemory.Mem :=
  ByteMemory.storeAll (fun _ => 0) (-144) ctx.words

/-- Outside the context the memory is empty. -/
theorem contextMem_outside {x : Word} (h : ByteMemory.Outside x (-144) 144) :
    contextMem ctx x = 0 := by
  rw [contextMem]
  exact ByteMemory.storeAll_outside h fun e he => (words_bounds ctx e he).2

/-- The context is loaded back from the memory. -/
theorem load_contextMem : RegisterContext.load (contextMem ctx) (-144) = ctx := by
  rw [contextMem]
  exact load_storeAll_words _ _ _

/-- It lies on top of the kernel's stack. -/
theorem stackTop_contextMem :
    stackTop layout (Core.ofMachine core (contextMem ctx)) - 144#32 = -144 := by
  have hdepth : contextMem ctx layout.exceptionDepth = 0 := contextMem_outside (by decide)
  have houtside : ∀ i < 4,
      ByteMemory.Outside (layout.topKstack + BitVec.ofNat 32 i) (-144) 144 := by decide
  have htop : ByteMemory.load32 (contextMem ctx) layout.topKstack = 0 := by
    have hsame : ByteMemory.load32 (contextMem ctx) layout.topKstack =
        ByteMemory.load32 (fun _ => 0) layout.topKstack :=
      ByteMemory.load32_congr fun i hi => contextMem_outside (houtside i hi)
    rw [hsame]
    decide
  have hzero : stackTop layout (Core.ofMachine core (contextMem ctx)) = 0 :=
    (if_pos hdepth).trans htop
  rw [hzero]
  decide

/-- `kernel_trap` stores the context that is there already. -/
theorem load_kernelTrap (h : Saves (Core.ofMachine core (contextMem ctx)) ctx) :
    RegisterContext.load (kernelTrap layout (Core.ofMachine core (contextMem ctx))).mem (-144) =
      ctx := by
  have hspec := kernelTrap_spec layout (Core.ofMachine core (contextMem ctx))
    (by rw [stackTop_contextMem]; decide)
  rw [stackTop_contextMem] at hspec
  obtain ⟨-, -, -, -, hsaves⟩ := hspec
  obtain ⟨stored, regs, htrap, -⟩ := kernelTrap_eq layout (Core.ofMachine core (contextMem ctx))
  rw [stackTop_contextMem] at htrap
  have hword {o : Nat} (ho : o % 4 = 0 ∧ o + 4 ≤ 144)
      (hnot : o ∉ savedRegisters.map Prod.snd ++ [124, 128, 132, 136, 140]) :
      ByteMemory.load32 (kernelTrap layout (Core.ofMachine core (contextMem ctx))).mem
        (-144 + BitVec.ofNat 32 o) =
      ByteMemory.load32 (contextMem ctx) (-144 + BitVec.ofNat 32 o) := by
    rw [htrap]
    show ByteMemory.load32 (Function.update _ _ _) _ = _
    rw [ByteMemory.load32_update_of_outside (n := 144) (by decide) ho.2,
      ByteMemory.load32_storeAll_of_notMem (savedWords_aligned _ _) ⟨ho.1, by omega⟩
        (by rwa [savedWords_offsets])]
    rfl
  refine hsaves.unique h ?_ ?_
  · rw [load_accessRegister _ _ _ (by decide), hword (by decide) (by decide),
      ← load_accessRegister _ _ _ (by decide), load_contextMem]
  · rw [load_accessRegister _ _ _ (by decide), hword (by decide) (by decide),
      ← load_accessRegister _ _ _ (by decide), load_contextMem]

/-- The core that goes on with a context. -/
def KernelState.resumes (s : KernelState) (core : Machine) (ctx : RegisterContext)
    (cache : Hardware.InstructionCache) : Machine :=
  { core with
    programCounter := ctx.epc + 4#32
    tlb := s.tlb
    registerFile := resumedRegisters (core.registerFile ZERO) ctx
    hi := ctx.hiRegister
    lo := ctx.loRegister
    cp0 := Function.update (restoredCp0 (Function.update core.cp0 Hardware.SYSRegister.ENTRYHI
      (s.asid.setWidth 32)) ctx) 12 (ctx.status ||| 2#32 ||| 1#32)
    instructionCache := cache
    memory := s.shared.physMem }

/-- The core has the kernel's identifier. -/
theorem asid_resumes : (s.resumes core ctx cache).asid = s.asid := by
  have hword : ∀ b : Hardware.Byte, (b.setWidth 32 &&& 0xFF#32).setWidth 8 = b := by decide
  have hentryHi : (s.resumes core ctx cache).cp0 Hardware.SYSRegister.ENTRYHI =
      s.asid.setWidth 32 := by
    simp (disch := decide) [KernelState.resumes, restoredCp0, Function.update_of_ne]
  rw [Machine.asid, hentryHi, hword]

/-- The kernel behind the trap code: a handler has left this context in the control block of
the current thread. -/
def handlerCore (c : Core) (ctx : RegisterContext) (asid : Hardware.Byte) : Core :=
  { c with
    cp0 := Function.update c.cp0 Hardware.SYSRegister.ENTRYHI (asid.setWidth 32)
    mem := ByteMemory.storeAll (ByteMemory.store32 c.mem layout.currentThread 0x80002000#32)
      0x80002000#32 ctx.words }

/-- The handler leaves the depth and the context that it returns with. -/
theorem handlerCore_spec (c : Core) (ctx : RegisterContext) (asid : Hardware.Byte) :
    (handlerCore c ctx asid).mem layout.exceptionDepth = c.mem layout.exceptionDepth ∧
      ByteMemory.load32 (handlerCore c ctx asid).mem layout.currentThread = 0x80002000#32 ∧
      RegisterContext.load (handlerCore c ctx asid).mem 0x80002000#32 = ctx := by
  have hstored := @storeAll_words layout 0x80002000#32 c.mem ctx (by decide) (by decide) (by decide)
  dsimp only at hstored
  unfold handlerCore
  dsimp only
  exact hstored

/-- **Through the trap code.**  Whatever context the handler leaves, the core that has loaded
it is one behind the trap code. -/
theorem passes_resumes (s : KernelState) (regCtx : RegisterContext)
    (cache : Hardware.InstructionCache) (h : Saves (Core.ofMachine core (contextMem ctx)) ctx) :
    ∃ mem', Passes layout (Core.ofMachine core (contextMem ctx))
      (Core.ofMachine (s.resumes core regCtx cache) mem') ctx regCtx := by
  have hdepth : contextMem ctx layout.exceptionDepth = 0 := contextMem_outside (by decide)
  have hframe : ByteMemory.Outside layout.exceptionDepth
      (stackTop layout (Core.ofMachine core (contextMem ctx)) - 144#32) 144 := by
    rw [stackTop_contextMem]
    decide
  have htrap := kernelTrap_spec layout (Core.ofMachine core (contextMem ctx)) hframe
  obtain ⟨-, -, hzero, hcount, -⟩ := htrap
  have hcp0 : (kernelTrap layout (Core.ofMachine core (contextMem ctx))).cp0 = core.cp0 := by
    obtain ⟨stored, regs, heq, -⟩ := kernelTrap_eq layout (Core.ofMachine core (contextMem ctx))
    rw [heq]
    rfl
  generalize hc : kernelTrap layout (Core.ofMachine core (contextMem ctx)) = c at hzero hcount hcp0
  obtain ⟨hkept, hset, hcontext⟩ := handlerCore_spec c regCtx s.asid
  obtain ⟨regs, hreturn, ha0, hzero'⟩ := kernelTrapReturn_spec layout (handlerCore c regCtx s.asid)
  rw [hset] at ha0
  have hout : ByteMemory.Outside layout.exceptionDepth 0x80002000#32 144 := by decide
  have hcounted : (handlerCore c regCtx s.asid).mem layout.exceptionDepth = 1 := by
    rw [hkept, hcount,
      show (Core.ofMachine core (contextMem ctx)).mem layout.exceptionDepth = 0 from hdepth]
    decide
  have hleft : (kernelTrapReturn layout (handlerCore c regCtx s.asid)).mem layout.exceptionDepth =
      0 := by
    rw [hreturn]
    dsimp only
    rw [Function.update_self, hcounted]
    decide
  have hloads : RegisterContext.load (kernelTrapReturn layout (handlerCore c regCtx s.asid)).mem
      ((kernelTrapReturn layout (handlerCore c regCtx s.asid)).registerFile A0) = regCtx := by
    rw [hreturn]
    dsimp only
    rw [ha0, load_update hout]
    exact hcontext
  refine ⟨(kernelTrapReturn layout (handlerCore c regCtx s.asid)).mem, hdepth, hframe, ?_,
    handlerCore c regCtx s.asid, ?_, ?_, ?_, ?_, ?_⟩
  · rw [stackTop_contextMem]
    exact load_kernelTrap h
  · rw [runProcess_eq layout _ hleft hloads, hreturn]
    show _ = Core.mk (resumedRegisters (regs ZERO) regCtx) _ _
      (Function.update (restoredCp0 (Function.update c.cp0 _ _) _) _ _) _ _
    rw [hzero', hcp0, show (handlerCore c regCtx s.asid).registerFile ZERO = _ from hzero]
    rfl
  · rw [hc]
    rfl
  · rw [hc]
    exact hkept
  · rw [hset]
    exact hout
  · rw [hset]
    exact hcontext

end Glue

/-! ### Execution -/

/-- Registers without `$k0` and `$k1` do not see the memory of the trap code. -/
theorem Saves.of_mem {core : Machine} {ctx : RegisterContext} {mem : ByteMemory.Mem}
    (h : Saves (Core.ofMachine core mem) ctx) (mem' : ByteMemory.Mem) :
    Saves (Core.ofMachine core mem') ctx :=
  ⟨h.general, h.hi, h.lo, h.epc, h.status, h.cause⟩

namespace System

/-- The core goes on with the registers that the handler left. -/
def resumed (core : Machine) (cache : Hardware.InstructionCache) (ctx : RegisterContext)
    (s : KernelState) : System :=
  ⟨s, s.resumes core ctx cache, rfl, rfl, asid_resumes⟩

/-- The kernel handles a trap of this core. -/
def handle (vm : Tunnel) (brk0 badVAddr : Word) (ctx : RegisterContext) (core : Machine)
    (cache : Hardware.InstructionCache) (s : KernelState) : Option System :=
  if Saves (Core.ofMachine core fun _ => 0) ctx then
    match takeTrap vm brk0 badVAddr ctx s with
    | .ok regCtx s => some (resumed core cache regCtx s)
    | .error _ _ => none
  else none

/-- The system after a cycle, a trap or an interrupted return. -/
def step (fp : Hardware.FpArith) (σ : System) : SystemEvent → Option System
  | .cycle inp =>
      match σ.core.cycle fp inp with
      | .ok (core, none) =>
          if h : (∀ i, core.tlb i = σ.kernel.tlb i) ∧ core.asid = σ.kernel.asid then
            some ⟨σ.kernel.stored core.memory, core, rfl, funext h.1, h.2⟩
          else none
      | _ => none
  | .trap inp vm brk0 badVAddr ctx =>
      match σ.core.cycle fp inp with
      | .ok (core, some _) =>
          if badVAddr = core.cp0 Hardware.SYSRegister.BAD_VADDR then
            handle vm brk0 badVAddr ctx core
              (if refills (.ofCause ctx.cause) then core.instructionCache else {})
              (σ.kernel.stored core.memory)
          else none
      | _ => none
  | .interruptedReturn vm brk0 badVAddr ctx =>
      if badVAddr = interrupt.badAddr then
        handle vm brk0 badVAddr ctx (σ.core.raiseTrap interrupt) {} σ.kernel
      else none
  | _ => none

end System

section Execution

variable {σ σ' : System} {event : SystemEvent} {vm : Tunnel} {brk0 badVAddr : Word}
  {ctx : RegisterContext} {core : Machine} {cache : Hardware.InstructionCache} {s : KernelState}

/-- What is handled passes through the trap code. -/
theorem handle_spec (h : System.handle vm brk0 badVAddr ctx core cache s = some σ') :
    ∃ regCtx mem mem', Passes layout (Core.ofMachine core mem) (Core.ofMachine σ'.core mem') ctx
        regCtx ∧
      Returns (takeTrap vm brk0 badVAddr ctx) s regCtx σ'.kernel ∧
      σ'.core.instructionCache = cache := by
  unfold System.handle at h
  split at h
  case isTrue hsaves =>
    split at h
    case h_1 regCtx s' htrap =>
      obtain rfl := Option.some.inj h
      obtain ⟨mem', hpasses⟩ := passes_resumes s' regCtx cache (hsaves.of_mem (contextMem ctx))
      exact ⟨regCtx, contextMem ctx, mem', hpasses, htrap, rfl⟩
    case h_2 => cases h
  case isFalse => cases h

/-- **Execution.**  What is executed is a step of the system. -/
theorem step_sound (h : σ.step fp event = some σ') : System.Step fp layout σ event σ' := by
  cases event with
  | cycle inp =>
      dsimp only [System.step] at h
      split at h
      case h_1 core hcycle =>
        split at h
        case isTrue hsame =>
          obtain rfl := Option.some.inj h
          exact .cycle hcycle rfl
        case isFalse => cases h
      case h_2 => cases h
  | trap inp vm brk0 badVAddr ctx =>
      dsimp only [System.step] at h
      split at h
      case h_1 core t hcycle =>
        split at h
        case isTrue hbad =>
          subst hbad
          obtain ⟨regCtx, mem, mem', hpasses, hreturns, hcache⟩ := handle_spec h
          refine .trap hcycle hpasses hreturns fun a i hcached => ?_
          rw [hcache] at hcached
          by_cases hrefills : refills (.ofCause ctx.cause) = true
          · rw [if_pos hrefills] at hcached
            exact ⟨hrefills, hcached⟩
          · rw [if_neg hrefills] at hcached
            cases hcached.1
        case isFalse => cases h
      case h_2 => cases h
  | interruptedReturn vm brk0 badVAddr ctx =>
      dsimp only [System.step] at h
      split at h
      case isTrue hbad =>
        subst hbad
        obtain ⟨regCtx, mem, mem', hpasses, hreturns, hcache⟩ := handle_spec h
        refine .interruptedReturn hpasses hreturns fun a i hcached => ?_
        rw [hcache] at hcached
        cases hcached.1
      case isFalse => cases h
  | kernelMiss | kernelStores => cases h

end Execution

/-! ### Conditions -/

section Conditions

instance decidableBehaved (fp : Hardware.FpArith) (p : Program) : Decidable (Behaved fp p) :=
  match hstep : p.step fp with
  | .next p' | .raise _ p' =>
      decidable_of_iff (p'.registerFile ZERO = p.registerFile ZERO) (by rw [Behaved, hstep])
  | .abort _ => isTrue (by rw [Behaved, hstep]; trivial)
  | .escape => isFalse (by rw [Behaved, hstep]; exact id)

namespace System

/-- The program of the current process. -/
def current (σ : System) : Option Program :=
  match σ.kernel.currentThread with
  | .kernel => none
  | .process n => σ.program n

/-- The current program is that of the current process. -/
theorem current_eq_some {σ : System} {p : Program} :
    σ.current = some p ↔ ∃ n, σ.kernel.currentThread = .process n ∧ σ.program n = some p := by
  unfold current
  cases hthread : σ.kernel.currentThread with
  | kernel => exact iff_of_false (fun h => by cases h) fun ⟨n, hn, _⟩ => by cases hn
  | process c =>
      constructor
      · exact fun h => ⟨c, rfl, h⟩
      · rintro ⟨n, hn, hp⟩
        obtain rfl := GuardRef.process.inj hn
        exact hp

instance decidableBehaves (fp : Hardware.FpArith) (σ : System) : Decidable (σ.Behaves fp) :=
  decidable_of_iff (∀ p ∈ σ.current, Behaved fp p)
    ⟨fun h n p hn hp => h p (current_eq_some.mpr ⟨n, hn, hp⟩), fun h p hp => by
      obtain ⟨n, hn, hp⟩ := current_eq_some.mp hp
      exact h n p hn hp⟩

/-- The cached instructions are spared by the step of the current process. -/
def sparesCode (fp : Hardware.FpArith) (σ : System) (cache : Hardware.InstructionCache) : Bool :=
  σ.current.all fun p =>
    match p.step fp with
    | .next p' => decide (Hardware.SparesCode cache p p')
    | _ => true

/-- The condition on an event, as it is computed. -/
def allows (fp : Hardware.FpArith) (σ : System) : SystemEvent → Bool
  | .cycle inp => decide (σ.Behaves fp) &&
      match σ.core.cycle fp inp with
      | .ok (core, none) => σ.sparesCode fp core.instructionCache
      | _ => true
  | .trap inp vm brk0 badVAddr ctx => decide (σ.Behaves fp) &&
      match σ.core.cycle fp inp with
      | .ok (core, some _) =>
          decide ((σ.kernel.stored core.memory).Sparing (.trap vm brk0 badVAddr ctx))
      | _ => true
  | .interruptedReturn vm brk0 badVAddr ctx =>
      decide (σ.kernel.Sparing (.trap vm brk0 badVAddr ctx))
  | .kernelMiss _ | .kernelStores _ => true

/-- What is computed to be allowed is. -/
theorem allows_sound {σ : System} {event : SystemEvent} (h : σ.allows fp event = true) :
    σ.Allows fp event := by
  cases event with
  | cycle inp =>
      obtain ⟨hbehaves, hspares⟩ := (Bool.and_eq_true _ _).mp h
      refine ⟨of_decide_eq_true hbehaves, fun core n p p' hcycle hn hp hstep => ?_⟩
      rw [hcycle] at hspares
      dsimp only at hspares
      rw [sparesCode, current_eq_some.mpr ⟨n, hn, hp⟩, Option.all_some, hstep] at hspares
      exact of_decide_eq_true hspares
  | trap inp vm brk0 badVAddr ctx =>
      obtain ⟨hbehaves, hsparing⟩ := (Bool.and_eq_true _ _).mp h
      refine ⟨of_decide_eq_true hbehaves, fun core t hcycle => ?_⟩
      rw [hcycle] at hsparing
      exact of_decide_eq_true hsparing
  | interruptedReturn vm brk0 badVAddr ctx =>
      have hsparing : σ.kernel.Sparing (.trap vm brk0 badVAddr ctx) := of_decide_eq_true h
      exact hsparing
  | kernelMiss vaddr => trivial
  | kernelStores physMem => trivial

end System

end Conditions

/-! ### Runs -/

section Runs

variable {σ0 σ σ' : System} {n : Nat} {p p' : Program}

/-- The system as `cppmain` leaves it when the first process is started: nothing of it is
cached, and its registers are loaded. -/
structure System.Booted (sym : Symbols) (σ : System) : Prop where
  kernel : ∃ vm imageEnd brk0 brk1 physMem,
    KernelState.boot vm imageEnd brk0 brk1 physMem = some σ.kernel
  registers : ∃ (h : Core) (mem : ByteMemory.Mem), Core.ofMachine σ.core mem = runProcess sym h ∧
    h.mem sym.exceptionDepth = 0 ∧
    ∀ n p, σ.kernel.currentThread = .process n → σ.kernel.shared.procAt n = some p →
      RegisterContext.load h.mem (h.registerFile A0) = p.regCtx
  zero : σ.core.registerFile ZERO = 0
  cache : ∀ a i, ¬ UserCached σ.core.instructionCache a i

/-- The booted system is steady. -/
theorem steady_boot (h : σ.Booted sym) : Steady σ := by
  obtain ⟨vm, imageEnd, brk0, brk1, physMem, hboot⟩ := h.kernel
  refine ⟨orderly_boot hboot, fun {n q} hn hq => .inl ((tagged_boot hboot).asid hn hq),
    fun {n p} _ _ a i hmem hv => ?_, h.zero⟩
  exact absurd ⟨hmem, hv⟩ (h.cache a i)

/-- The first program starts with the registers and the bytes that its loading gave it. -/
theorem program_booted {q : PCB} (h : σ.Booted sym) (hn : σ.kernel.currentThread = .process n)
    (hq : σ.kernel.shared.procAt n = some q) (hp : σ.program n = some p) :
    saved p = (q.regCtx.program (q.addrSpace.userMemory σ.kernel.shared.physMem)).advance := by
  obtain ⟨c, mem, hcore, hdepth, hctx⟩ := h.registers
  obtain ⟨hholds, -, hpc⟩ := runProcess_spec sym c
  rw [hctx n q hn hq, ← hcore] at hholds hpc
  rw [if_pos hdepth] at hpc
  have hrunning : p = σ.core.program (q.addrSpace.userMemory σ.kernel.shared.physMem) := by
    unfold System.program at hp
    rw [hq] at hp
    exact (Option.some.inj hp).symm.trans (if_pos hn)
  rw [hrunning]
  exact saved_holds hholds h.zero hpc

/-- **Every run** keeps it so. -/
theorem steady_of_reaches (hboot : σ0.Booted sym)
    (hrun : Run.Reaches (System.Step fp sym) (System.Allows fp) σ0 σ) : Steady σ :=
  hrun.invariant (steady_boot hboot) fun hs hallows hstep => (system_step hs hallows hstep).1

/-- **Alone.**  After a boot and any events, whatever the other programs and the kernel do
while a process is there, its program runs as it could run alone with the kernel: it makes
its own steps, it waits, and its traps are answered. -/
theorem programs_run_alone (hboot : σ0.Booted sym)
    (hrun : Run.Reaches (System.Step fp sym) (System.Allows fp) σ0 σ)
    (hlives : Run.Reaches (System.Step fp sym)
      (fun τ event => τ.Allows fp event ∧ (τ.program n).isSome) σ σ')
    (hp : σ.program n = some p) (hp' : σ'.program n = some p') :
    Relation.ReflTransGen (Goes fp) p p' := by
  have hs := steady_of_reaches hboot hrun
  have hboth : Steady σ' ∧ ∀ r, σ'.program n = some r → Relation.ReflTransGen (Goes fp) p r := by
    refine hlives.invariant
      (I := fun τ => Steady τ ∧ ∀ r, τ.program n = some r → Relation.ReflTransGen (Goes fp) p r)
      ⟨hs, fun r hr => ?_⟩ fun {τ event τ'} hτ hevent hstep => ?_
    · rw [Option.some.inj (hp.symm.trans hr)]
    · obtain ⟨r, hr⟩ := Option.isSome_iff_exists.mp hevent.2
      obtain ⟨hsteady, hgoes⟩ := system_step hτ.1 hevent.1 hstep
      exact ⟨hsteady, fun r' hr' => (hτ.2 r hr).tail (hgoes n r r' hr hr')⟩
  exact hboth.2 p' hp'

/-! ### A run of two processes -/

/-- The core at the call of `run_process` for this context. -/
def startingCore (ctx : RegisterContext) (asid : Hardware.Byte) : Core where
  registerFile := Function.update (fun _ => 0) A0 0x80002000#32
  hi := 0
  lo := 0
  cp0 := Function.update (fun _ => 0) Hardware.SYSRegister.ENTRYHI (asid.setWidth 32)
  programCounter := 0
  mem := ByteMemory.storeAll (fun _ => 0) 0x80002000#32 ctx.words

/-- The system that has loaded the registers of its first process. -/
def System.start (s : KernelState) (ctx : RegisterContext) : System :=
  .resumed (Machine.construct 0 0x80000000#32 s.shared.physMem {}) {} ctx s

/-- The system at the start of the first process is a booted one. -/
theorem booted_start {s : KernelState} {q : PCB} {vm : Tunnel} {imageEnd brk0 brk1 : Word}
    {physMem : Hardware.Memory} (hboot : KernelState.boot vm imageEnd brk0 brk1 physMem = some s)
    (hn : s.currentThread = .process n) (hq : s.shared.procAt n = some q) :
    (System.start s q.regCtx).Booted layout := by
  have hout : ByteMemory.Outside layout.exceptionDepth 0x80002000#32 144 := by decide
  have hdepth : (startingCore q.regCtx s.asid).mem layout.exceptionDepth = 0 := by
    unfold startingCore
    dsimp only
    rw [ByteMemory.storeAll_outside hout fun e he => (words_bounds q.regCtx e he).2]
  have hblock : (startingCore q.regCtx s.asid).registerFile A0 = 0x80002000#32 := by
    unfold startingCore
    dsimp only
    rw [Function.update_self]
  have hload : RegisterContext.load (startingCore q.regCtx s.asid).mem
      ((startingCore q.regCtx s.asid).registerFile A0) = q.regCtx := by
    rw [hblock]
    exact load_storeAll_words _ _ q.regCtx
  refine ⟨⟨_, _, _, _, _, hboot⟩, ⟨startingCore q.regCtx s.asid,
    (startingCore q.regCtx s.asid).mem, (runProcess_eq layout _ hdepth hload).symm, hdepth,
    fun n' p' hn' hp' => ?_⟩, rfl, fun a i hcached => ?_⟩
  · obtain rfl := GuardRef.process.inj (hn.symm.trans hn')
    obtain rfl := Option.some.inj (hq.symm.trans hp')
    exact hload
  · cases hcached.1

/-- A program that stores a word on its stack and forks: `sw $v0, -4($sp)`,
`li $v0, FORK`, `syscall`. -/
def forkingProgram : List Hardware.Byte :=
  Executable.build 0x400000 ([0xafa2fffc, 0x24020039, 0x0000000c].flatMap (BigEndian.encode 4))
    [] 0x10000000 0

/-- The host with this program as its shell. -/
def forkingHost : Tunnel := fileHost forkingProgram 4096

/-- A context of this program, with `$v0`, EPC and CAUSE. -/
def forkingContext (v0 epc cause : Word) : RegisterContext :=
  { regs := fun i =>
      if slotRegister i = SP then 0x80000000
      else if slotRegister i = GP then 0x10008000
      else if slotRegister i = V0 then v0
      else 0
    epc, status := 2, cause }

/-- The program misses at its first instruction and at its stack. -/
def forkingMisses : List SystemEvent :=
  [.trap {} forkingHost 0 0x400000 (forkingContext 0 0x400000 0x08),
    .trap {} forkingHost 0 0x7FFFFFFC (forkingContext 0 0x400000 0x0C)]

/-- It stores and forks; an interrupt takes the core from the child, and another one from
the parent. -/
def forkingEvents : List SystemEvent :=
  [.cycle {}, .cycle {}, .trap {} forkingHost 0 0 (forkingContext FORK 0x400008 0x20),
    .interruptedReturn forkingHost 0 0 (forkingContext 0 0x40000C 0),
    .interruptedReturn forkingHost 0 0 (forkingContext 1 0x40000C 0)]

/-- No floating-point unit. -/
def noFp : Hardware.FpArith := ⟨fun _ a _ => a, fun _ a _ => a⟩

/-- The parent, while it stores and forks and its child gets the core and loses it and gets
it again. -/
theorem forking_program_alone :
    ∃ σ0 σ σ' p p', σ0.Booted layout ∧
      Run.execute (System.step noFp) (fun τ event => τ.allows noFp event = true) σ0 forkingMisses =
        some σ ∧
      Run.execute (System.step noFp) (fun τ event => τ.allows noFp event = true ∧
        (τ.program 0).isSome) σ forkingEvents = some σ' ∧
      σ'.kernel.currentThread = .process 1 ∧ σ.program 0 = some p ∧ σ'.program 0 = some p' ∧
      Relation.ReflTransGen (Goes noFp) p p' := by
  have hruns : (KernelState.boot forkingHost 0x80001000 0 0 (fun _ => 0)).any (fun s =>
      s.currentThread == .process 0 && (s.shared.procAt 0).any fun q =>
        (Run.execute (System.step noFp) (fun τ event => τ.allows noFp event = true)
          (.start s q.regCtx) forkingMisses).any fun σ => (σ.program 0).isSome &&
          (Run.execute (System.step noFp) (fun τ event => τ.allows noFp event = true ∧
            (τ.program 0).isSome) σ forkingEvents).any fun σ' =>
              σ'.kernel.currentThread == .process 1 && (σ'.program 0).isSome) := by
    decide +kernel
  obtain ⟨s, hboot, hruns⟩ := (Option.any_eq_true _ _).mp hruns
  obtain ⟨hthread, hruns⟩ := (Bool.and_eq_true _ _).mp hruns
  obtain ⟨q, hq, hruns⟩ := (Option.any_eq_true _ _).mp hruns
  obtain ⟨σ, hmisses, hruns⟩ := (Option.any_eq_true _ _).mp hruns
  obtain ⟨hp, hruns⟩ := (Bool.and_eq_true _ _).mp hruns
  obtain ⟨σ', hevents, hruns⟩ := (Option.any_eq_true _ _).mp hruns
  obtain ⟨hchild, hp'⟩ := (Bool.and_eq_true _ _).mp hruns
  obtain ⟨p, hp⟩ := Option.isSome_iff_exists.mp hp
  obtain ⟨p', hp'⟩ := Option.isSome_iff_exists.mp hp'
  have hbooted := booted_start hboot (beq_iff_eq.mp hthread) hq
  have hrun := (Run.reaches_of_execute (R := System.Step noFp layout) step_sound hmisses).mono
    fun _ _ hallows => System.allows_sound hallows
  have hlives := (Run.reaches_of_execute (R := System.Step noFp layout) step_sound hevents).mono
    fun _ _ hevent => And.imp_left System.allows_sound hevent
  exact ⟨_, σ, σ', p, p', hbooted, hmisses, hevents, beq_iff_eq.mp hchild, hp, hp',
    programs_run_alone hbooted hrun hlives hp hp'⟩

end Runs

end Kernel
