import BobbyOS.Kernel.UserMemory

/-!
# What a process gets back from a trap

The registers of a process are saved when it traps, the kernel answers, and the process
goes on from its saved registers.  `Answered` says, in terms of the program alone, how it
goes on: after an interrupt or a refill as it was, after a system call behind the call,
with a result or bytes of input or new pages where the call asks for them.

* `RegisterContext.program`: the program behind saved registers;
* `userMemory_storeBytes`: `READ_STRING` stores the bytes of the input and nothing else;
* `own_takeTrap`: the kernel's answer to every trap of the current process.
-/

namespace Kernel

open Effects SharedResources
open KernelState (WithShared)

variable {s s' : KernelState} {k k' : SharedResources} {vm : Tunnel} {brk0 badVAddr vaddr : Word}
  {m n : Nat} {p q : PCB} {ctx ctx' : RegisterContext} {space : AddressSpace}
  {memory : Word → Option Byte} {ref : GuardRef}

/-! ### Programs behind saved registers -/

/-- The registers that `kernel_trap` saves. -/
def Saved (r : Reg) : Prop := r ≠ Register.ZERO ∧ r ≠ Register.K0 ∧ r ≠ Register.K1

instance decidableSaved : DecidablePred Saved := fun r =>
  inferInstanceAs (Decidable (r ≠ Register.ZERO ∧ r ≠ Register.K0 ∧ r ≠ Register.K1))

/-- The program behind saved registers.  The trap code saves neither `$k0` and `$k1` nor
the floating-point registers, and `$zero` stays in the machine. -/
def RegisterContext.program (ctx : RegisterContext) (memory : Word → Option Byte) :
    Hardware.Program where
  programCounter := ctx.epc
  registerFile r := if Saved r then ctx.accessRegister r else 0
  hi := ctx.hiRegister
  lo := ctx.loRegister
  fpRegisterFile := fun _ => 0
  memory := memory

/-- What is left of a program when it waits. -/
def saved (p : Hardware.Program) : Hardware.Program :=
  { p with
    registerFile := fun r => if r = Register.K0 ∨ r = Register.K1 then 0 else p.registerFile r
    fpRegisterFile := fun _ => 0 }

/-- What is loaded from saved registers is saved as it is. -/
theorem saved_program : saved (ctx.program memory) = ctx.program memory := by
  unfold saved RegisterContext.program
  congr 1
  funext r
  by_cases hr : r = Register.K0 ∨ r = Register.K1
  · have hnot : ¬ Saved r := fun h => hr.elim h.2.1 h.2.2
    rw [if_pos hr, if_neg hnot]
  · rw [if_neg hr]

/-- What is saved is saved once. -/
theorem saved_saved (p : Hardware.Program) : saved (saved p) = saved p := by
  unfold saved
  congr 1
  funext r
  dsimp only
  split
  · rfl
  · rfl

/-- The registers of the context lie apart. -/
theorem accessRegister_setRegister {r : Reg} (hr : r ≠ Register.ZERO) (hne : r ≠ Register.V0)
    (v : Word) : (ctx.setRegister Register.V0 v).accessRegister r = ctx.accessRegister r := by
  have hindex : Fin.ofNat 31 (r.val - 1) ≠ Fin.ofNat 31 (Register.V0.val - 1) := by
    revert r
    decide
  unfold RegisterContext.setRegister RegisterContext.accessRegister
  exact Function.update_of_ne hindex ..

/-- A result in the saved registers is one in the program's. -/
theorem program_setRegister (v : Word) :
    (ctx.setRegister Register.V0 v).program memory =
      (ctx.program memory).setReg Register.V0 v := by
  unfold RegisterContext.program Hardware.Program.setReg
  congr 1
  funext r
  by_cases hv : r = Register.V0
  · rw [hv, if_pos (by decide), Function.update_self, accessRegister_V0]
  · rw [Function.update_of_ne hv]
    dsimp only
    split
    case isTrue hr => rw [accessRegister_setRegister hr.1 hv]
    case isFalse => rfl

/-- An argument of a system call. -/
theorem program_argument {r : Reg} (hr : Saved r) :
    (ctx.program memory).registerFile r = ctx.accessRegister r := if_pos hr

/-! ### Answers -/

/-- The stores of `READ_STRING`: so many bytes of the buffer, from the `i`th on. -/
def pokes (memory : Word → Option Byte) (loc : Word) (buf : List Byte) :
    Nat → Nat → Word → Option Byte
  | 0, _ => memory
  | left + 1, i =>
      pokes (Hardware.Program.poke memory (loc + BitVec.ofNat 32 i) (buf.getD i 0)) loc buf left
        (i + 1)

/-- The program after input: the count in `$v0`, and the bytes where `$a0` points. -/
def received (p : Hardware.Program) (reply : VMReply) : Hardware.Program :=
  { p.setReg Register.V0 reply.res with
    memory := if reply.res = 0 ∨ reply.res = 0xFFFFFFFF#32 then p.memory
      else pokes p.memory (p.registerFile Register.A0) reply.data reply.res.toNat 0 }

/-- How the program `p` goes on after a system call.  Nothing is said about a new image. -/
def AnsweredCall (p p' : Hardware.Program) : Prop :=
  let call := p.registerFile Register.V0
  let q := p.advance
  if call = READ_INTEGER ∨ call = FORK then ∃ v, saved p' = saved (q.setReg Register.V0 v)
  else if call = READ_STRING then
    saved p' = saved (q.setReg Register.V0 0) ∨ ∃ reply, saved p' = saved (received q reply)
  else if call = EXIT then False
  else if call = EXEC then True
  else if call = BRK then
    ∃ memory : Word → Option Byte, (∀ w b, p.memory w = some b → memory w = some b) ∧
      saved p' = saved { q with memory }
  else saved p' = saved q

/-- How the program `p` goes on after a trap. -/
def Answered (cause : ExceptionType) (p p' : Hardware.Program) : Prop :=
  match cause with
  | .interrupt | .tlbL | .tlbS => saved p' = saved p
  | .syscall => AnsweredCall p p'
  | .ri | .overflow => False
  | _ => saved p' = saved p.advance

/-! ### Input -/

section Input

variable {mem : Hardware.Memory} {map : Hardware.FrameMap}

/-- A byte that is written where a user address is. -/
theorem userMemory_writePhysical {paddr : Word} {b : Byte} (hplaced : space.Placed map)
    (hv : Hardware.userAddress vaddr) (hloc : map.location vaddr = some paddr.toNat) {u : Unit}
    (h : Returns (writePhysical paddr b) s u s') :
    space.userMemory s'.shared.physMem =
      Hardware.Program.poke (space.userMemory s.shared.physMem) vaddr b := by
  unfold writePhysical at h
  split at h
  · obtain rfl := returns_modify.mp h
    show space.userMemory (Function.update s.shared.physMem paddr.toNat b) = _
    rw [← hplaced.memory, ← hplaced.memory]
    exact Hardware.FrameMap.memory_update hv hloc b
  · exact absurd h not_returns_throw

/-- The hardware finds a user address where the page table has it. -/
theorem location_of_translate {paddr : Word} (hplaced : space.Placed map)
    (haims : Aims space mem s) (hv : Hardware.userAddress vaddr)
    (h : s.tlb.translate vaddr .store s.asid = .ok paddr) :
    map.location vaddr = some paddr.toNat := by
  have hshows := hplaced.shows haims.truthful
  rw [← haims.asid] at hshows
  rcases map.translate_cases .store hshows hv with ⟨q, hq, hloc⟩ | hmiss
  · obtain rfl := Except.ok.inj (h.symm.trans hq)
    exact hloc
  · rw [h] at hmiss
    cases hmiss

/-- **One byte** of input is one byte of the process. -/
theorem userMemory_storeByte {buf : List Byte} {b : Byte} (hplaced : space.Placed map)
    (hv : Hardware.userAddress vaddr) :
    Triple (fun s => (Storing n space s ∧ Aims space mem s) ∧ Walled s ∧
        space.userMemory s.shared.physMem = memory) (storeByte buf vaddr b)
      fun _ s => (Storing n space s ∧ Aims space mem s) ∧ Walled s ∧
        space.userMemory s.shared.physMem = Hardware.Program.poke memory vaddr b := by
  rintro s ⟨⟨hs, haims⟩, hwalled, rfl⟩ u s' h
  obtain ⟨paddr, htranslate, hwrite⟩ := hit_storeByte hs.runs hwalled h
  refine ⟨aims_storeByte hv ⟨hs, haims⟩ h,
    (kept_walled.storeByte walled_stores buf vaddr b).returns h hwalled, ?_⟩
  exact userMemory_writePhysical hplaced hv
    (location_of_translate hplaced haims hv htranslate) hwrite

/-- **All bytes.**  The loop of `READ_STRING` stores the bytes of the input. -/
theorem userMemory_storeBytes {loc : Word} {buf : List Byte} {left i : Nat}
    (hplaced : space.Placed map)
    (hv : ∀ j, i ≤ j → j < i + left → Hardware.userAddress (loc + BitVec.ofNat 32 j)) :
    Triple (fun s => (Storing n space s ∧ Aims space mem s) ∧ Walled s ∧
        space.userMemory s.shared.physMem = memory) (storeBytes loc buf left i)
      fun _ s => (Storing n space s ∧ Aims space mem s) ∧ Walled s ∧
        space.userMemory s.shared.physMem = pokes memory loc buf left i := by
  induction left generalizing i memory with
  | zero => exact .pure fun _ hs => hs
  | succ left ih =>
      refine (userMemory_storeByte hplaced (hv i (by omega) (by omega))).bind fun _ => ?_
      exact ih fun j hfrom hto => hv j (by omega) (by omega)

end Input

/-! ### System calls -/

section Calls

variable {f : RegisterContext → RegisterContext} {guard : Option GuardRef}

/-- The process in slot `n`, in the state `t` behind the `switch`, goes on as the program
`p` is answered. -/
def GoesOn (n : Nat) (answered : Hardware.Program → Prop) (ctx : RegisterContext)
    (t : KernelState) : Prop :=
  ∃ space, Remaining n (fun _ a => a = space) t ∧
    answered (ctx.program (space.userMemory t.shared.physMem)).advance

/-- The process has its address space, and its bytes. -/
def Intact (n : Nat) (space : AddressSpace) (memory : Word → Option Byte) (s : KernelState) :
    Prop :=
  Remaining n (fun _ a => a = space) s ∧ space.userMemory s.shared.physMem = memory

/-- **Steps.**  What is not about the process leaves it and its bytes alone. -/
theorem kept_intact : Kept (· ≠ n) (Intact n space memory) where
  access _ hs := hs
  control hs hshared _ _ := by
    rw [Intact, Remaining, hshared]
    exact hs
  manage hs h := by
    refine ⟨hs.1.undisturbed h, ?_⟩
    rw [undisturbed_physMem h]
    exact hs.2
  fill hs _ _ := hs

/-- A call that leaves the process alone returns registers. -/
theorem goesOn_of_intact {answered : Hardware.Program → Prop} (h : Intact n space memory s')
    (hanswered : answered (ctx'.program memory).advance) : GoesOn n answered ctx' s' := by
  refine ⟨space, h.1, ?_⟩
  rw [h.2]
  exact hanswered

/-- Two ways to say which address space the process has. -/
theorem housed_iff : Housed n space s ↔ Remaining n (fun _ a => a = space) s := by
  constructor
  · rintro ⟨hinvariant, q, hq, hspace, halive⟩
    exact ⟨hinvariant, q, hq, halive, hspace⟩
  · rintro ⟨hinvariant, q, hq, halive, hspace⟩
    exact ⟨hinvariant, q, hq, hspace, halive⟩

/-- The bytes of the reply, if there are any, are stored where `$a0` points. -/
theorem own_storeInput {reply : VMReply} {map : Hardware.FrameMap} (hplaced : space.Placed map)
    (hlow : ∀ i < reply.res.toNat,
      Hardware.userAddress (ctx.accessRegister Register.A0 + BitVec.ofNat 32 i)) :
    Triple (fun s => Intact n space memory s ∧ Walled s ∧ Truthful space s.tlb)
      (storeInput (.process n) ctx reply) fun ctx' s => ctx' = ctx ∧ Intact n space
        (if reply.res = 0 ∨ reply.res = 0xFFFFFFFF#32 then memory
          else pokes memory (ctx.accessRegister Register.A0) reply.data reply.res.toNat 0) s := by
  have hskips : (reply.res = 0 || reply.res = 0xFFFFFFFF#32) = true ↔
      reply.res = 0 ∨ reply.res = 0xFFFFFFFF#32 := by simp
  unfold storeInput
  split
  case isTrue h =>
    rw [if_pos (hskips.mp h)]
    exact .pure fun _ hs => ⟨rfl, hs.1⟩
  case isFalse h =>
    rw [if_neg fun hskip => h (hskips.mpr hskip)]
    refine Triple.bind (Q := fun _ s => s.currentThread = .process n ∧ Intact n space memory s ∧
      Walled s ∧ Truthful space s.tlb) (.modify fun s hs => ?_) fun _ => ?_
    · exact ⟨rfl, hs.1, kept_walled.control hs.2.1 rfl rfl rfl, hs.2.2⟩
    refine Triple.bind (Q := fun p s => p.addrSpace = space ∧ s.currentThread = .process n ∧
      Intact n space memory s ∧ Walled s ∧ Truthful space s.tlb) ?_ fun p => ?_
    · intro s hs p s' h
      have hspace := (housed_deref (housed_iff.mpr hs.2.1.1) h).2
      have hwalled := kept_walled.deref.returns h hs.2.2.1
      obtain ⟨-, accesses, rfl⟩ := returns_deref h
      exact ⟨hspace, hs.1, hs.2.1, hwalled, hs.2.2.2⟩
    -- `Aims` starts from the memory before the first store
    rintro s ⟨hspace, hthread, hintact, hwalled, htruthful⟩ ctx' s' h
    have haims : Aims space s.shared.physMem { s with asid := p.addrSpace.asid } :=
      ⟨congrArg AddressSpace.asid hspace, htruthful, fun x hx => absurd rfl hx⟩
    have hstart : (Storing n space { s with asid := p.addrSpace.asid } ∧
        Aims space s.shared.physMem { s with asid := p.addrSpace.asid }) ∧
        Walled { s with asid := p.addrSpace.asid } ∧
        space.userMemory s.shared.physMem = memory :=
      ⟨⟨⟨hthread, housed_iff.mpr hintact.1⟩, haims⟩, kept_walled.control hwalled rfl rfl rfl,
        hintact.2⟩
    have hv : ∀ j, 0 ≤ j → j < 0 + reply.res.toNat →
        Hardware.userAddress (ctx.accessRegister Register.A0 + BitVec.ofNat 32 j) :=
      fun j _ hj => hlow j (by omega)
    obtain ⟨_, t, hstores, h⟩ := returns_bind.mp (returns_modify_bind.mp h)
    obtain ⟨⟨hstoring, -⟩, -, hstored⟩ := userMemory_storeBytes hplaced hv hstart hstores
    obtain ⟨_, t1, hcurrent, h⟩ := returns_bind.mp h
    obtain rfl := returns_modify.mp hcurrent
    obtain ⟨rfl, rfl⟩ := returns_pure.mp h
    exact ⟨rfl, housed_iff.mp hstoring.2, hstored⟩

/-- `READ_STRING` without input, or with the bytes of the machine's reply. -/
theorem own_readString (hrem : Remaining n (fun _ a => a = space) s) (hwalled : Walled s)
    (htruthful : Truthful space s.tlb) (hbuffer : UserBuffer s.shared vm ctx)
    (h : Returns (readString vm (.process n) ctx) s ctx' s') :
    GoesOn n (fun p => saved p = saved
          ((ctx.program (space.userMemory s.shared.physMem)).advance.setReg Register.V0 0) ∨
        ∃ reply, saved p = saved
          (received (ctx.program (space.userMemory s.shared.physMem)).advance reply)) ctx' s' := by
  have hstart : Intact n space (space.userMemory s.shared.physMem) s := ⟨hrem, rfl⟩
  obtain ⟨q, hq, -, hspace⟩ := hrem.process
  obtain ⟨map, hplaced⟩ := exists_placed hrem.invariant.sane hq
  rw [hspace] at hplaced
  unfold readString at h
  split at h
  · obtain ⟨_, t, hprint, h⟩ := returns_bind.mp h
    obtain ⟨rfl, rfl⟩ := returns_pure.mp h
    refine goesOn_of_intact ((kept_intact.printString _).returns hprint hstart) (.inl ?_)
    rw [program_setRegister]
    rfl
  · obtain ⟨reply, t, hsend, h⟩ := returns_bind.mp h
    obtain ⟨hreply, ht⟩ := returns_send_iff.mp hsend
    have htruthful' : Truthful space t.tlb := by
      rw [ht]
      exact htruthful
    have hlow : ∀ i < reply.res.toNat, Hardware.userAddress
        ((ctx.setRegister Register.V0 reply.res).accessRegister Register.A0 +
          BitVec.ofNat 32 i) := by
      intro i hi
      rw [hreply] at hi
      rw [accessRegister_A0]
      exact hbuffer i hi
    have hsent : Intact n space (space.userMemory s.shared.physMem) t :=
      (kept_intact.send rfl).returns hsend hstart
    have hwalled' : Walled t := (kept_walled.send rfl).returns hsend hwalled
    obtain ⟨rfl, hintact⟩ := own_storeInput hplaced hlow ⟨hsent, hwalled', htruthful'⟩ h
    refine goesOn_of_intact hintact (.inr ⟨reply, ?_⟩)
    rw [program_setRegister, accessRegister_A0]
    rfl

/-- `BRK` keeps the bytes that the process has. -/
theorem own_updateBrk {valid : Bool} (hrem : Remaining n (fun _ a => a = space) s)
    (h : Returns (updateBrk (.process n) vaddr) s valid s') :
    ∃ space', Remaining n (fun _ a => a = space') s' ∧
      ∀ w b, space.userMemory s.shared.physMem w = some b →
        space'.userMemory s'.shared.physMem w = some b := by
  have hmem := ((kept_physMem _).updateBrk trivial vaddr).returns h rfl
  obtain ⟨_, t, htouch, h⟩ := returns_bind.mp h
  have ht : Remaining n (fun _ a => a = space) t := kept_remaining.touchPcb.returns htouch hrem
  obtain ⟨_, t1, htouch1, h⟩ := returns_bind.mp h
  have ht1 : Remaining n (fun _ a => a = space) t1 :=
    kept_remaining.touchPageTable.returns htouch1 ht
  obtain ⟨k, hk, hs'⟩ := returns_manage h
  obtain ⟨p, q, t0, t0', fs, -, hgrown, hreplaced⟩ :=
    updateBrk_spec hk ht1.invariant.sane ht1.invariant.slotted
  obtain ⟨r, hr, halive, rfl⟩ := ht1.process
  have hp := procAt_iff.mpr hreplaced.before
  obtain rfl := Option.some.inj (hp.symm.trans hr)
  have hinvariant := invariant_step ht1.invariant (step_updateBrk hk)
  obtain ⟨p', space', hp', hmap⟩ := updateBrk_procAt hk
  obtain rfl := Option.some.inj (hp.symm.trans hp')
  have hq := procAt_iff.mpr hreplaced.after
  have hq' : k.procAt n = some { p with addrSpace := space' } := by
    rw [hmap, Function.update_self]
  obtain rfl := Option.some.inj (hq.symm.trans hq')
  obtain ⟨t2, ht2, husable⟩ := ht1.invariant.sane.tables p (mem_live hreplaced.before)
  obtain ⟨t3, ht3, husable'⟩ := hinvariant.sane.tables _ (mem_live hreplaced.after)
  obtain rfl := PageTable.hash.inj (Option.some.inj (ht2.symm.trans hgrown.before))
  obtain rfl := PageTable.hash.inj (Option.some.inj (ht3.symm.trans hgrown.after))
  refine ⟨space', ?_, fun w b hb => ?_⟩
  · rw [Remaining, hs'.shared]
    exact ⟨hinvariant, _, hq', halive, rfl⟩
  · rw [hmem]
    exact userMemory_grown hgrown husable husable' hb

/-- `FORK` returns the PID of the child. -/
theorem returns_fork_reply {I : KernelState → Prop} (hI : I s)
    (h : Returns (fork brk0 ref ctx) s ctx' s') : ∃ v, ctx' = ctx.setRegister Register.V0 v := by
  have hreply : Triple I (fork brk0 ref ctx)
      fun ctx' _ => ∃ v, ctx' = ctx.setRegister Register.V0 v := by
    refine .after fun p => .after fun _ => .after fun newPID => .after fun guard => ?_
    cases guard with
    | none => exact .throw
    | some newProc =>
        exact .after fun _ => .after fun _ => .after fun _ => .after fun _ =>
          .pure fun _ _ => ⟨newPID, rfl⟩
  exact hreply hI h

/-- With room behind its frames, `FORK` leaves the bytes of its caller alone. -/
theorem intact_fork (hrem : Remaining n (fun _ a => a = space) s)
    (hroom : ∀ t, space.pageTable = some (.hash t) → s.shared.RoomBehind t)
    (h : Returns (fork brk0 (.process n) ctx) s ctx' s') :
    Intact n space (space.userMemory s.shared.physMem) s' := by
  refine ⟨remains_fork.returns h hrem, ?_⟩
  obtain ⟨p, newPID, k, hp, hforked, hmem⟩ := fork_physMem h
  obtain ⟨q, hq, -, hspace⟩ := hrem.process
  obtain rfl := Option.some.inj (hp.symm.trans hq)
  subst hspace
  have hpid := hrem.invariant.slotted.pids (procAt_iff.mp hp)
  obtain ⟨t, ht, -⟩ := hrem.invariant.sane.tables p (mem_live (procAt_iff.mp hp))
  refine userMemory_congr hrem.invariant.sane hp fun x howns => ?_
  by_contra hx
  rw [hmem] at hx
  have hp' : s.shared.procAt p.PID.toNat = some p := hpid.symm ▸ hp
  exact forkProcess_spares hrem.invariant hp' ht (hroom t ht) hforked hx
    (hrem.invariant.sane.owns_reserved hp howns)

/-- The calls that change more than the program counter. -/
def effectiveCalls : List Word := [READ_INTEGER, FORK, READ_STRING, EXIT, EXEC, BRK]

/-- A call that has no effect is answered by going on behind it. -/
theorem answeredCall_same {p p' : Hardware.Program}
    (hcall : p.registerFile Register.V0 ∉ effectiveCalls) (h : saved p' = saved p.advance) :
    AnsweredCall p p' := by
  simp only [effectiveCalls, List.mem_cons, List.not_mem_nil, or_false, not_or] at hcall
  obtain ⟨hint, hfork, hstring, hexit, hexec, hbrk⟩ := hcall
  unfold AnsweredCall
  rw [if_neg (not_or_intro hint hfork), if_neg hstring, if_neg hexit, if_neg hexec, if_neg hbrk]
  exact h

/-- A call that does something and returns registers. -/
theorem returns_reply {α : Type} {x : KernelM α} {f : α → RegisterContext}
    (h : Returns (x >>= fun a => pure (f a, some ref)) s (ctx', guard) s') :
    ∃ a, Returns x s a s' ∧ ctx' = f a := by
  obtain ⟨a, t, hx, h⟩ := returns_bind.mp h
  obtain ⟨heq, rfl⟩ := returns_pure.mp h
  exact ⟨a, hx, (Prod.mk.inj heq).1⟩

/-- **System calls.**  Every call but `EXEC` is answered as `AnsweredCall` says. -/
theorem own_syscall (hrem : Remaining n (fun _ a => a = space) s) (hwalled : Walled s)
    (htruthful : Truthful space s.tlb)
    (hcause : ExceptionType.ofCause ctx.cause = .syscall) (hspares : Spares s.shared space vm ctx)
    (hexec : ctx.accessRegister Register.V0 ≠ EXEC)
    (h : Returns (syscall vm brk0 (.process n) ctx) s (ctx', some ref) s') :
    GoesOn n (AnsweredCall (ctx.program (space.userMemory s.shared.physMem))) ctx' s' := by
  have hstart : Intact n space (space.userMemory s.shared.physMem) s := ⟨hrem, rfl⟩
  have hv0 : (ctx.program (space.userMemory s.shared.physMem)).registerFile Register.V0 =
      ctx.accessRegister Register.V0 := program_argument (by decide)
  have hsame {t : KernelState} (hcall : ctx.accessRegister Register.V0 ∉ effectiveCalls)
      (ht : Intact n space (space.userMemory s.shared.physMem) t) :
      GoesOn n (AnsweredCall (ctx.program (space.userMemory s.shared.physMem))) ctx t :=
    goesOn_of_intact ht (answeredCall_same (hv0 ▸ hcall) rfl)
  have hvalue {t : KernelState} {v : Word} (hcall : ctx.accessRegister Register.V0 = READ_INTEGER ∨
      ctx.accessRegister Register.V0 = FORK)
      (ht : Intact n space (space.userMemory s.shared.physMem) t) :
      GoesOn n (AnsweredCall (ctx.program (space.userMemory s.shared.physMem)))
        (ctx.setRegister Register.V0 v) t := by
    refine goesOn_of_intact ht ?_
    unfold AnsweredCall
    rw [if_pos (hv0 ▸ hcall), program_setRegister]
    exact ⟨v, rfl⟩
  unfold syscall at h
  split at h
  case isTrue hcall =>
    obtain ⟨reply, hsend, rfl⟩ := returns_reply h
    exact hsame (hcall ▸ by decide) ((kept_intact.send rfl).returns hsend hstart)
  split at h
  case isTrue hcall =>
    obtain ⟨_, hprint, rfl⟩ := returns_reply h
    exact hsame (hcall ▸ by decide) ((kept_intact.printUserString _).returns hprint hstart)
  split at h
  case isTrue hcall =>
    obtain ⟨reply, hsend, rfl⟩ := returns_reply h
    exact hvalue (.inl hcall) ((kept_intact.send rfl).returns hsend hstart)
  rename_i hint
  split at h
  case isTrue hcall =>
    obtain ⟨ctx1, hread, rfl⟩ := returns_reply h
    obtain ⟨space', hrem', hanswer⟩ :=
      own_readString hrem hwalled htruthful (hspares.input ⟨hcause, hcall⟩) hread
    refine ⟨space', hrem', ?_⟩
    unfold AnsweredCall
    rw [hv0, hcall, if_neg (by decide), if_pos rfl]
    exact hanswer
  rename_i hstring
  split at h
  case isTrue hcall =>
    obtain ⟨_, t, -, h⟩ := returns_bind.mp h
    cases (Prod.mk.inj (returns_pure.mp h).1).2
  rename_i hexit
  -- `EXEC` is excluded
  split at h
  case isTrue hcall =>
    obtain ⟨valid, t, hupdate, h⟩ := returns_bind.mp h
    obtain ⟨space', hrem', hgrown⟩ := own_updateBrk hrem hupdate
    split at h
    · obtain ⟨heq, rfl⟩ := returns_pure.mp h
      obtain ⟨rfl, -⟩ := Prod.mk.inj heq
      refine ⟨space', hrem', ?_⟩
      unfold AnsweredCall
      rw [hv0, hcall, if_neg (by decide), if_neg (by decide), if_neg (by decide),
        if_neg (by decide), if_pos rfl]
      exact ⟨_, hgrown, rfl⟩
    · obtain ⟨_, t1, -, h⟩ := returns_bind.mp h
      obtain ⟨_, t2, -, h⟩ := returns_bind.mp h
      cases (Prod.mk.inj (returns_pure.mp h).1).2
  rename_i hbrk
  split at h
  case isTrue hcall =>
    obtain ⟨ctx1, hfork, rfl⟩ := returns_reply h
    obtain ⟨v, rfl⟩ := returns_fork_reply hrem hfork
    exact hvalue (.inr hcall) (intact_fork hrem (hspares.room ⟨hcause, hcall⟩) hfork)
  case isFalse hfork =>
    obtain ⟨_, hprint, rfl⟩ := returns_reply h
    refine hsame ?_ ((kept_intact.printString _).returns hprint hstart)
    simp only [effectiveCalls, List.mem_cons, List.not_mem_nil, or_false, not_or]
    exact ⟨hint, hfork, hstring, hexit, hexec, hbrk⟩

/-! ### Traps -/

/-- `eret` undoes what the handler does to EPC. -/
theorem program_rewind (ctx : RegisterContext) (memory : Word → Option Byte) :
    ((rewind ctx).program memory).advance = ctx.program memory := by
  unfold rewind RegisterContext.program Hardware.Program.advance
  congr 1
  exact BitVec.sub_add_cancel ..

/-- **The `switch`**, when the process goes on and has no new image. -/
theorem own_dispatch (hrem : Remaining n (fun _ a => a = space) s) (hwalled : Walled s)
    (htruthful : Truthful space s.tlb) (hspares : Spares s.shared space vm ctx)
    (hexec : ¬ Calls ctx EXEC)
    (h : Returns (dispatch vm brk0 badVAddr (.process n) ctx) s (ctx', some ref) s') :
    GoesOn n (Answered (.ofCause ctx.cause) (ctx.program (space.userMemory s.shared.physMem)))
      ctx' s' := by
  have hstart : Intact n space (space.userMemory s.shared.physMem) s := ⟨hrem, rfl⟩
  have hrewound : saved ((rewind ctx).program (space.userMemory s.shared.physMem)).advance =
      saved (ctx.program (space.userMemory s.shared.physMem)) :=
    congrArg saved (program_rewind ctx _)
  unfold dispatch at h
  cases hcause : ExceptionType.ofCause ctx.cause with
  | interrupt =>
      rw [hcause] at h
      obtain ⟨heq, rfl⟩ := returns_pure.mp h
      obtain ⟨rfl, -⟩ := Prod.mk.inj heq
      exact goesOn_of_intact hstart hrewound
  | tlbL | tlbS =>
      rw [hcause] at h
      obtain ⟨_, hrefill, rfl⟩ := returns_reply h
      exact goesOn_of_intact ((kept_intact.refill _).returns hrefill hstart) hrewound
  | syscall =>
      rw [hcause] at h
      exact own_syscall hrem hwalled htruthful hcause hspares (fun hcall => hexec ⟨hcause, hcall⟩) h
  | ri =>
      rw [hcause] at h
      obtain ⟨_, t, -, h⟩ := returns_bind.mp h
      obtain ⟨_, t1, -, h⟩ := returns_bind.mp h
      exact absurd h not_returns_throw
  | overflow =>
      rw [hcause] at h
      obtain ⟨_, t, -, h⟩ := returns_bind.mp h
      exact absurd h not_returns_throw
  | _ =>
      rw [hcause] at h
      obtain ⟨_, t, hprint, h⟩ := returns_bind.mp h
      obtain ⟨_, t1, hsend, h⟩ := returns_bind.mp h
      obtain ⟨_, hprint', rfl⟩ := returns_reply h
      have ht := (kept_intact.printString _).returns hprint hstart
      have ht1 := (kept_intact.send rfl).returns hsend ht
      exact goesOn_of_intact ((kept_intact.printString _).returns hprint' ht1) rfl

/-- After an `EXEC` nothing is said. -/
theorem answered_exec {memory' : Word → Option Byte} (hexec : Calls ctx EXEC)
    (p' : Hardware.Program) : Answered (.ofCause ctx.cause) (ctx.program memory') p' := by
  have hv0 : (ctx.program memory').registerFile Register.V0 = EXEC :=
    (program_argument (by decide)).trans hexec.2
  rw [hexec.1]
  show AnsweredCall (ctx.program memory') p'
  unfold AnsweredCall
  rw [hv0, if_neg (by decide), if_neg (by decide), if_neg (by decide), if_pos rfl]
  trivial

/-- **Own traps.**  A process that is there after its trap goes on as it was answered. -/
theorem own_takeTrap {pids : List Word} {regCtx : RegisterContext}
    (hnodup : (withCurrent n pids).Nodup)
    (hs : Settled (.process n) 0 noGuards (withCurrent n pids) pids s) (htabled : Tabled s)
    (hwalled : Walled s) (hp : s.shared.procAt n = some p)
    (htruthful : Truthful p.addrSpace s.tlb) (hspares : Spares s.shared p.addrSpace vm ctx)
    (h : Returns (takeTrap vm brk0 badVAddr ctx) s regCtx s') (hq : s'.shared.procAt n = some q) :
    Answered (.ofCause ctx.cause) (ctx.program (p.addrSpace.userMemory s.shared.physMem))
      (q.regCtx.program (q.addrSpace.userMemory s'.shared.physMem)).advance := by
  by_cases hexec : Calls ctx EXEC
  · exact answered_exec hexec _
  have hgoes : ¬ Ends ctx := by
    intro hends
    have hnone := (outlived_takeTrap hnodup hs htabled hp h).ended hends
    rw [hq] at hnone
    cases hnone
  obtain ⟨k, accesses, ctx', oldThread, t, t1, hk, hdispatch, hfinish, hleave⟩ :=
    returns_takeTrap h
  rw [hs.thread] at hk hdispatch
  have hentered : Remaining n (fun _ a => a = p.addrSpace) (s.entered k accesses) :=
    SharedResources.Remains.borrow ⟨hs.invariant, p, hp, hs.alive hp, rfl⟩ hk
  have hborrow : s.shared.borrow n = .ok k := hk
  have hwalled' : Walled (s.entered k accesses) := hwalled.entered hk accesses
  rw [borrow_eq (procAt_iff.mp hp)] at hborrow
  obtain rfl := Except.ok.inj hborrow
  rcases oldThread_dispatch hentered hdispatch with hnone | hsome
  · obtain rfl : oldThread = none := hnone
    exact absurd ((ends_dispatch hentered.invariant hdispatch).mp rfl) hgoes
  · obtain rfl : oldThread = some (.process n) := hsome
    obtain ⟨space, hrem, hanswered⟩ :=
      own_dispatch hentered hwalled' htruthful ⟨hspares.input, hspares.room⟩ hexec hdispatch
    have hfinished : Remaining n (fun r a => r = ctx' ∧ a = space) t1 :=
      remains_finish (fun _ _ ha => ⟨rfl, ha⟩) hrem hfinish
    obtain ⟨-, r, hr, -, rfl, rfl⟩ := kept_remaining.leave.returns hleave hfinished
    obtain rfl := Option.some.inj (hq.symm.trans hr)
    have hI := kept_physMem t.shared.physMem
    have hmem : s'.shared.physMem = t.shared.physMem :=
      hI.leave.returns hleave ((hI.finish fun ref _ => among_everyone ref).returns hfinish rfl)
    rw [hmem]
    exact hanswered

end Calls

end Kernel
