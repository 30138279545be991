import BobbyOS.Machine.FrameMap
import BobbyOS.Machine.DecodeCache

/-!
# A cycle of the machine is a step of the program

A process runs on a machine whose TLB shows some of its pages and whose instruction
cache holds some of its instructions.  What the program sees of a cycle is its own step:
the cycle completes it, or raises the trap that the step raises, or is interrupted after
it, or misses a page that is there and changes nothing that the program sees.

* `access_simulates`: loads and stores;
* `run_simulates`: instructions;
* `fetch_simulates`: the fetch through the instruction cache;
* `cycle_simulates`: the cycle.
-/

namespace Hardware

variable {map : FrameMap} {mem : Memory} {tlb : TLB} {asid : Byte} {vaddr : Word} {p : Program}

/-! ### Accessors -/

section Accessors

variable {α β : Type} {R : α → β → Prop} {miss : Trap} {present : Prop} {type : LookupType}

/-- Both sides translate the address of the first byte. -/
theorem answers_locate (hshows : map.Shows tlb asid) (hmem : p.memory = map.memory mem)
    {f : Word → Except Fault α} {g : Except Program.Stop β}
    (hgo : ∀ q, userAddress vaddr → tlb.translate vaddr type asid = .ok q →
      map.location vaddr = some q.toNat →
      Answers R (missTrap type vaddr) (p.memory vaddr).isSome (f q) g) :
    Answers R (missTrap type vaddr) (p.memory vaddr).isSome
      (tlb.translate vaddr type asid >>= f) (p.locate vaddr type >>= fun _ => g) := by
  unfold Program.locate
  by_cases hv : userAddress vaddr
  · rw [if_pos hv]
    rcases map.translate_cases type hshows hv with ⟨q, hq, hloc⟩ | hmiss
    · have hsome : (p.memory vaddr).isSome = true := by
        rw [hmem, FrameMap.memory_of_location hv hloc]
        rfl
      rw [hq, if_pos hsome]
      exact hgo q hv hq hloc
    · rw [hmiss]
      split
      case isTrue hsome => exact .miss hsome
      case isFalse hnone => exact .fault _
  · rw [if_neg hv]
    exact .escape

/-- Both sides assert the alignment. -/
theorem answers_aligned {q : Word} {w : Nat} {message : String} {f : Except Fault α}
    {g : Except Program.Stop β} (hw : w < 2 ^ 32) (hmod : q.toNat % w = vaddr.toNat % w)
    (hgo : vaddr.toNat % w = 0 → Answers R miss present f g) :
    Answers R miss present (hostAssert (q % BitVec.ofNat 32 w == 0#32) message >>= fun _ => f)
      (Program.aligned vaddr w message >>= fun _ => g) := by
  unfold Program.aligned
  by_cases halign : vaddr.toNat % w = 0
  · rw [hostAssert_aligned hw (hmod.trans halign), if_pos halign]
    exact hgo halign
  · have hfalse : (q % BitVec.ofNat 32 w == 0#32) = false := by
      rw [← Bool.not_eq_true, word_mod_beq_zero q w hw, hmod]
      exact halign
    rw [hfalse, if_neg halign]
    exact .fault _

/-- The byte behind an offset in the page. -/
theorem read_byteAt {q i : Nat} (hmem : p.memory = map.memory mem) (hv : userAddress vaddr)
    (hloc : map.location vaddr = some q) (hroom : vaddr.toNat % pageSize + i < pageSize) :
    mem.read (q + i) = .ok (p.byteAt (vaddr + BitVec.ofNat 32 i)) := by
  rw [Memory.read, if_pos (FrameMap.location_bound hroom hloc), Program.byteAt, hmem,
    FrameMap.memory_of_location (FrameMap.userAddress_add hroom hv)
      (FrameMap.location_add hroom hloc)]
  rfl

/-- The offset of an address lies in the page. -/
theorem page_offset_lt (vaddr : Word) : vaddr.toNat % pageSize + 0 < pageSize :=
  Nat.mod_lt _ (by decide)

/-- The machine loads the program's byte, or misses its page. -/
theorem getByte_answers (hshows : map.Shows tlb asid) (hmem : p.memory = map.memory mem) :
    Answers Eq (missTrap .load vaddr) (p.memory vaddr).isSome (mem.getByte vaddr tlb asid)
      (p.getByte vaddr) := by
  refine answers_locate hshows hmem fun q hv _ hloc => ?_
  have hread := read_byteAt hmem hv hloc (page_offset_lt vaddr)
  rw [Nat.add_zero] at hread
  rw [hread, BitVec.add_zero]
  exact .value rfl

/-- The same for a half word. -/
theorem getHalfWord_answers (hshows : map.Shows tlb asid) (hmem : p.memory = map.memory mem) :
    Answers Eq (missTrap .load vaddr) (p.memory vaddr).isSome (mem.getHalfWord vaddr tlb asid)
      (p.getHalfWord vaddr) := by
  refine answers_locate hshows hmem fun q hv ht hloc => ?_
  refine answers_aligned (by decide) (translate_mod (by decide) ht) fun halign => ?_
  have hroom {i : Nat} (hi : i < 2) : vaddr.toNat % pageSize + i < pageSize :=
    offset_lt_page (by decide) halign hi
  have hread := read_byteAt hmem hv hloc (hroom (i := 0) (by decide))
  rw [Nat.add_zero, BitVec.add_zero] at hread
  rw [hread, Except.ok_bind, read_byteAt hmem hv hloc (hroom (i := 1) (by decide))]
  exact .value rfl

/-- The same for a word. -/
theorem getWord_answers (vaddr : Word) (hshows : map.Shows tlb asid)
    (hmem : p.memory = map.memory mem) :
    Answers Eq (missTrap .load vaddr) (p.memory vaddr).isSome (mem.getWord vaddr tlb asid)
      (p.getWord vaddr) := by
  refine answers_locate hshows hmem fun q hv ht hloc => ?_
  refine answers_aligned (by decide) (translate_mod (by decide) ht) fun halign => ?_
  have hroom {i : Nat} (hi : i < 4) : vaddr.toNat % pageSize + i < pageSize :=
    offset_lt_page (by decide) halign hi
  have hread := read_byteAt hmem hv hloc (hroom (i := 0) (by decide))
  rw [Nat.add_zero, BitVec.add_zero] at hread
  rw [hread, Except.ok_bind, read_byteAt hmem hv hloc (hroom (i := 1) (by decide)), Except.ok_bind,
    read_byteAt hmem hv hloc (hroom (i := 2) (by decide)), Except.ok_bind,
    read_byteAt hmem hv hloc (hroom (i := 3) (by decide))]
  exact .value rfl

/-- What a store has to do with the program's: the bytes that the program sees are the
ones that it stored, and no other frame has changed. -/
structure Stores (map : FrameMap) (mem : Memory) (p : Program) (mem' : Memory) (p' : Program) :
    Prop where
  stored : p' = { p with memory := map.memory mem' }
  frame : ∀ x, ¬ map.Owns (x / pageSize) → mem' x = mem x

/-- A byte behind an offset in the page is written. -/
theorem write_stores {q i : Nat} {b : Byte} {mem0 : Memory} {p0 : Program}
    (h : Stores map mem0 p0 mem p) (hv : userAddress vaddr)
    (hloc : map.location vaddr = some q) (hroom : vaddr.toNat % pageSize + i < pageSize) :
    ∃ mem', mem.write (q + i) b = .ok mem' ∧ Stores map mem0 p0 mem'
      { p with memory := Program.poke p.memory (vaddr + BitVec.ofNat 32 i) b } := by
  have hloc' := FrameMap.location_add hroom hloc
  refine ⟨_, by rw [Memory.write, if_pos (FrameMap.location_bound hroom hloc)], ?_, fun x hx => ?_⟩
  · rw [h.stored, FrameMap.memory_update (FrameMap.userAddress_add hroom hv) hloc']
  · have hne : x ≠ q + i := fun heq => hx (heq ▸ FrameMap.location_owned hloc')
    rw [Function.update_of_ne hne]
    exact h.frame x hx

/-- A store of nothing. -/
theorem stores_refl (hmem : p.memory = map.memory mem) : Stores map mem p mem p :=
  ⟨by rw [← hmem], fun _ _ => rfl⟩

/-- The machine stores the program's byte, or misses its page. -/
theorem setByte_answers {b : Byte} (hshows : map.Shows tlb asid)
    (hmem : p.memory = map.memory mem) :
    Answers (Stores map mem p) (missTrap .store vaddr) (p.memory vaddr).isSome
      (mem.setByte vaddr b tlb asid) (p.setByte vaddr b) := by
  refine answers_locate hshows hmem fun q hv _ hloc => ?_
  obtain ⟨mem1, hwrite, hstores⟩ :=
    write_stores (b := b) (stores_refl hmem) hv hloc (page_offset_lt vaddr)
  rw [Nat.add_zero, BitVec.add_zero] at *
  rw [hwrite]
  exact .value hstores

/-- The same for a half word. -/
theorem setHalfWord_answers {h : HalfWord} (hshows : map.Shows tlb asid)
    (hmem : p.memory = map.memory mem) :
    Answers (Stores map mem p) (missTrap .store vaddr) (p.memory vaddr).isSome
      (mem.setHalfWord vaddr h tlb asid) (p.setHalfWord vaddr h) := by
  refine answers_locate hshows hmem fun q hv ht hloc => ?_
  refine answers_aligned (by decide) (translate_mod (by decide) ht) fun halign => ?_
  have hroom {i : Nat} (hi : i < 2) : vaddr.toNat % pageSize + i < pageSize :=
    offset_lt_page (by decide) halign hi
  obtain ⟨mem1, hwrite, h1⟩ := write_stores (b := (h >>> 8).setWidth 8) (stores_refl hmem) hv hloc
    (hroom (i := 0) (by decide))
  obtain ⟨mem2, hwrite2, h2⟩ := write_stores (b := (h &&& 0xFF#16).setWidth 8) h1 hv hloc
    (hroom (i := 1) (by decide))
  rw [Nat.add_zero] at hwrite
  rw [BitVec.add_zero] at h2
  rw [hwrite, Except.ok_bind, hwrite2]
  exact .value h2

/-- The same for a word. -/
theorem setWord_answers {w : Word} (hshows : map.Shows tlb asid)
    (hmem : p.memory = map.memory mem) :
    Answers (Stores map mem p) (missTrap .store vaddr) (p.memory vaddr).isSome
      (mem.setWord vaddr w tlb asid) (p.setWord vaddr w) := by
  refine answers_locate hshows hmem fun q hv ht hloc => ?_
  refine answers_aligned (by decide) (translate_mod (by decide) ht) fun halign => ?_
  have hroom {i : Nat} (hi : i < 4) : vaddr.toNat % pageSize + i < pageSize :=
    offset_lt_page (by decide) halign hi
  obtain ⟨mem1, hwrite, h1⟩ := write_stores (b := (w >>> 24).setWidth 8) (stores_refl hmem) hv hloc
    (hroom (i := 0) (by decide))
  obtain ⟨mem2, hwrite2, h2⟩ := write_stores (b := ((w >>> 16) &&& 0xFF#32).setWidth 8) h1 hv hloc
    (hroom (i := 1) (by decide))
  obtain ⟨mem3, hwrite3, h3⟩ := write_stores (b := ((w >>> 8) &&& 0xFF#32).setWidth 8) h2 hv hloc
    (hroom (i := 2) (by decide))
  obtain ⟨mem4, hwrite4, h4⟩ := write_stores (b := (w &&& 0xFF#32).setWidth 8) h3 hv hloc
    (hroom (i := 3) (by decide))
  rw [Nat.add_zero] at hwrite
  rw [BitVec.add_zero] at h4
  rw [hwrite, Except.ok_bind, hwrite2, Except.ok_bind, hwrite3, Except.ok_bind, hwrite4]
  exact .value h4

end Accessors

/-! ### Instructions -/

variable {s s' : Machine} {p' : Program} {rt rs : Reg} {imm : HalfWord} {fp : FpArith}
  {inp : HostInput}

/-- The machine has become the program `p'`, and no frame of others has changed. -/
structure Becomes (map : FrameMap) (s s' : Machine) (p' : Program) : Prop where
  program : s'.program (map.memory s'.memory) = p'
  frame : ∀ x, ¬ map.Owns (x / pageSize) → s'.memory x = s.memory x

/-- How a run on the machine ends, next to the program's.  Nothing is said where the
program leaves its pages, or the host process ends. -/
inductive Simulates (map : FrameMap) (s : Machine) (p : Program) :
    Outcome Unit → Program.Ending → Prop
  | next {s' : Machine} {p' : Program} (h : Becomes map s s' p') :
      Simulates map s p (.next () s') (.next p')
  | raise {t : Trap} {s' : Machine} {p' : Program} (h : Becomes map s s' p') :
      Simulates map s p (.raise t s') (.raise t p')
  | miss {type : LookupType} {vaddr : Word} {e : Program.Ending}
      (hpage : (p.memory vaddr).isSome) : Simulates map s p (.raise (missTrap type vaddr) s) e
  | abort {f : Fault} {e : Program.Ending} : Simulates map s p (.abort f) e
  | escape {o : Outcome Unit} : Simulates map s p o .escape

/-- A machine that does nothing still shows the program. -/
theorem becomes_refl (hp : s.program (map.memory s.memory) = p) : Becomes map s s p :=
  ⟨hp, fun _ _ => rfl⟩

/-- An access that stops, stops both sides. -/
theorem stop_simulates {f : Fault} (hp : s.program (map.memory s.memory) = p)
    {k : Fault → Outcome Unit}
    (htrap : ∀ t, k (.trap t) = .raise t s) (hends : ∀ f, (∀ t, f ≠ .trap t) → k f = .abort f) :
    Simulates map s p (k f) (Program.Stop.ending p (.fault f)) := by
  cases f with
  | trap t =>
      rw [htrap]
      exact .raise (becomes_refl hp)
  | _ =>
      rw [hends _ (by simp)]
      exact .abort

/-- **Accesses.**  An instruction behind an access simulates the program's if it does so
behind equal answers. -/
theorem ofAccess_simulates {α β : Type} {R : α → β → Prop} {type : LookupType}
    {r : Except Fault α} {r' : Except Program.Stop β} {k : α → Outcome Unit} {k' : β → Program}
    (hp : s.program (map.memory s.memory) = p)
    (h : Answers R (missTrap type vaddr) (p.memory vaddr).isSome r r')
    (hk : ∀ a b, R a b → ∃ s', k a = .next () s' ∧ Becomes map s s' (k' b)) :
    Simulates map s p (Outcome.ofAccess s r k) (Program.Ending.ofAccess p r' k') := by
  cases h with
  | value h =>
      obtain ⟨s', hnext, hbecomes⟩ := hk _ _ h
      rw [Outcome.ofAccess, hnext]
      exact .next hbecomes
  | fault f =>
      refine stop_simulates (k := fun f => Outcome.ofAccess s (.error f) k) hp (fun _ => rfl) ?_
      intro f hf
      cases f with
      | trap t => exact absurd rfl (hf t)
      | _ => rfl
  | miss hpage => exact .miss hpage
  | escape => exact .escape

/-- **Loads and stores.** -/
theorem access_simulates (op : IMemoryOp) (hshows : map.Shows s.tlb s.asid)
    (hp : s.program (map.memory s.memory) = p) :
    Simulates map s p (op.run rt rs imm s) (p.access op rt rs imm) := by
  subst hp
  have hmem : (s.program (map.memory s.memory)).memory = map.memory s.memory := rfl
  -- a load changes a register of both, a store a byte that both see
  have hload {α : Type} {get : Except Fault α} {get' : Except Program.Stop α} {addr : Word}
      (extend : α → Word)
      (h : Answers Eq (missTrap .load addr) ((map.memory s.memory) addr).isSome get get') :
      Simulates map s (s.program (map.memory s.memory))
        (Outcome.ofAccess s get fun a => .next () (s.setReg rt (extend a)))
        (Program.Ending.ofAccess (s.program (map.memory s.memory)) get' fun a =>
          (s.program (map.memory s.memory)).setReg rt (extend a)) := by
    refine ofAccess_simulates rfl h fun a b hab => ⟨_, rfl, ?_⟩
    subst hab
    exact ⟨rfl, fun _ _ => rfl⟩
  have hstore {set : Except Fault Memory} {set' : Except Program.Stop Program} {addr : Word}
      (h : Answers (Stores map s.memory (s.program (map.memory s.memory))) (missTrap .store addr)
        ((map.memory s.memory) addr).isSome set set') :
      Simulates map s (s.program (map.memory s.memory))
        (s.store set fun s => .next () s)
        (Program.Ending.ofAccess (s.program (map.memory s.memory)) set' id) := by
    refine ofAccess_simulates rfl h fun mem' p' hstores => ⟨_, rfl, ?_, hstores.frame⟩
    rw [id, hstores.stored]
    rfl
  cases op with
  | loadByte => exact hload (fun b : Byte => b.signExtend 32) (getByte_answers hshows hmem)
  | loadByteUnsigned => exact hload (fun b : Byte => b.setWidth 32) (getByte_answers hshows hmem)
  | loadHalfword =>
      exact hload (fun h : HalfWord => h.signExtend 32) (getHalfWord_answers hshows hmem)
  | loadHalfwordUnsigned =>
      exact hload (fun h : HalfWord => h.setWidth 32) (getHalfWord_answers hshows hmem)
  | loadWord => exact hload (fun w : Word => w) (getWord_answers _ hshows hmem)
  | loadFPSingle =>
      refine ofAccess_simulates rfl (getWord_answers _ hshows hmem) fun a b hab => ⟨_, rfl, ?_⟩
      subst hab
      exact ⟨rfl, fun _ _ => rfl⟩
  | storeByte => exact hstore (setByte_answers hshows hmem)
  | storeHalfword => exact hstore (setHalfWord_answers hshows hmem)
  | storeWord | storeFPSingle => exact hstore (setWord_answers hshows hmem)

/-- The outcome in another state. -/
def Outcome.inState {α : Type} (f : Machine → Machine) : Outcome α → Outcome α
  | .next a s => .next a (f s)
  | .raise t s => .raise t (f s)
  | .abort e => .abort e

/-- A branch on the registers goes the same way on both machines. -/
theorem Outcome.ite_inState {c : Prop} [Decidable c] {α : Type} {f : Machine → Machine}
    {o o' u u' : Outcome α} (h : o = u.inState f) (h' : o' = u'.inState f) :
    (if c then o else o') = (if c then u else u').inState f := by
  split
  · exact h
  · exact h'

/-- A choice between two states, inside the outcome. -/
theorem Outcome.next_ite_inState {c : Prop} [Decidable c] {f : Machine → Machine}
    {s s' u u' : Machine} (h : s = f u) (h' : s' = f u') :
    Outcome.next () (if c then s else s') = (Outcome.next () (if c then u else u')).inState f := by
  subst h h'
  split <;> rfl

/-- **Registers.**  An instruction that is neither privileged nor a load or store
computes the same on every machine, and leaves everything but the registers alone. -/
theorem run_on {i : Instruction} (hpriv : i.isPrivileged = false)
    (haccess : ∀ op rt rs imm, i ≠ .iMemory op rt rs imm) (p : Program) (s s' : Machine)
    (fp : FpArith) (inp inp' : HostInput) :
    i.run fp inp (p.on s) =
      (i.run fp inp' (p.on s')).inState fun s1 => (s1.program p.memory).on s := by
  cases i with
  | iMemory op rt rs imm => exact absurd rfl (haccess op rt rs imm)
  | rVariable op =>
      cases op with
      | add | subtract | shiftLeftLogicalVariable | shiftRightLogicalVariable
      | shiftRightArithmeticVariable => exact Outcome.ite_inState rfl rfl
      | moveOnNotZero => exact Outcome.next_ite_inState rfl rfl
      | _ => rfl
  | rShift op => cases op <;> rfl
  | hlMove op => cases op <;> rfl
  | hlOp op =>
      cases op with
      | multiply | multiplyUnsigned => rfl
      | divide | divideUnsigned => exact Outcome.ite_inState rfl rfl
  | iGeneric op =>
      cases op with
      | addImmediate => exact Outcome.ite_inState rfl rfl
      | _ => rfl
  | iBranch | iBranchZero => exact Outcome.next_ite_inState rfl rfl
  | trapIfEqual => exact Outcome.ite_inState rfl rfl
  | loadUpperImmediate | jump | jumpAndLink | jumpRegister | jumpAndLinkRegister | syscall | sync
  | frSingle | frDouble => rfl
  | moveToCoprocessor0 | moveFromCoprocessor0 | exceptionReturn | tlbProbe | tlbReadIndexed
  | tlbWriteIndexed | tlbWriteRandom | performCacheOp | vmTunnel => cases hpriv

/-- An outcome in the registers is the same for the program and on the machine. -/
theorem outcome_simulates (hp : s.program (map.memory s.memory) = p) (o : Outcome Unit) :
    Simulates map s p (o.inState fun s1 => (s1.program p.memory).on s)
      (Program.Ending.ofOutcome p.memory o) := by
  subst hp
  cases o with
  | next u s1 => exact .next ⟨rfl, fun _ _ => rfl⟩
  | raise t s1 => exact .raise ⟨rfl, fun _ _ => rfl⟩
  | abort f => exact .abort

/-- **Instructions.** -/
theorem run_simulates (i : Instruction) (fp : FpArith) (inp : HostInput)
    (hshows : map.Shows s.tlb s.asid) (hp : s.program (map.memory s.memory) = p) :
    Simulates map s p (i.run fp inp s) (p.execute fp i) := by
  cases hpriv : i.isPrivileged with
  | true =>
      have hescape : p.execute fp i = .escape := by
        cases i with
        | moveToCoprocessor0 | moveFromCoprocessor0 | exceptionReturn | tlbProbe | tlbReadIndexed
        | tlbWriteIndexed | tlbWriteRandom | performCacheOp | vmTunnel => rfl
        | _ => cases hpriv
      rw [hescape]
      exact .escape
  | false =>
      by_cases haccess : ∃ op rt rs imm, i = .iMemory op rt rs imm
      · obtain ⟨op, rt, rs, imm, rfl⟩ := haccess
        exact access_simulates op hshows hp
      · have hother : ∀ op rt rs imm, i ≠ .iMemory op rt rs imm :=
          fun op rt rs imm heq => haccess ⟨op, rt, rs, imm, heq⟩
        have hexecute : p.execute fp i =
            .ofOutcome p.memory (i.run fp {} (p.on blankMachine)) := by
          cases i with
          | iMemory op rt rs imm => exact absurd rfl (hother op rt rs imm)
          | moveToCoprocessor0 | moveFromCoprocessor0 | exceptionReturn | tlbProbe
          | tlbReadIndexed | tlbWriteIndexed | tlbWriteRandom | performCacheOp | vmTunnel =>
              cases hpriv
          | _ => rfl
        have hrun := run_on hpriv hother p s blankMachine fp inp {}
        have hon : p.on s = s := by rw [← hp]; rfl
        rw [hon] at hrun
        rw [hexecute, hrun]
        exact outcome_simulates hp _

/-! ### The fetch -/

variable {c : InstructionCache}

/-- The cached instructions at user addresses decode the words of the program. -/
def CacheShows (c : InstructionCache) (p : Program) : Prop :=
  ∀ a i, (a, some i) ∈ c.storage → userAddress a →
    ∃ w, p.getWord a = .ok w ∧ IntegerUnit.decode a w = .ok i

/-- An empty cache shows every program. -/
theorem cacheShows_empty : CacheShows {} p := fun _ _ h => absurd h List.not_mem_nil

/-- The rest of the cache was there before; only its front is new. -/
theorem CacheShows.cons {c' : InstructionCache} {kv : Word × Option Instruction}
    {rest : List (Word × Option Instruction)} (h : CacheShows c p)
    (hrest : ∀ kv ∈ rest, kv ∈ c.storage) (hc' : c'.storage = kv :: rest)
    (hkv : ∀ i, kv.2 = some i → ∃ w, p.getWord kv.1 = .ok w ∧ IntegerUnit.decode kv.1 w = .ok i) :
    CacheShows c' p := by
  intro a i hmem hv
  rw [hc'] at hmem
  rcases List.mem_cons.mp hmem with heq | hmem
  · subst heq
    exact hkv i rfl
  · exact h a i (hrest _ hmem) hv

/-- The program reads the same words behind the cached instructions. -/
def SparesCode (c : InstructionCache) (p p' : Program) : Prop :=
  ∀ a i, (a, some i) ∈ c.storage → userAddress a → p'.getWord a = p.getWord a

instance decidableSparesCode (c : InstructionCache) (p p' : Program) :
    Decidable (SparesCode c p p') :=
  decidable_of_iff (∀ e ∈ c.storage, e.2.isSome → userAddress e.1 → p'.getWord e.1 = p.getWord e.1)
    ⟨fun h a i hmem => h (a, some i) hmem rfl, fun h e hmem hi => by
      obtain ⟨i, hi⟩ := Option.isSome_iff_exists.mp hi
      refine h e.1 i ?_
      rwa [← hi]⟩

/-- A cache still shows a program that spares what is cached. -/
theorem CacheShows.spared (h : CacheShows c p) (hspares : SparesCode c p p') :
    CacheShows c p' := by
  intro a i hmem hv
  rw [hspares a i hmem hv]
  exact h a i hmem hv

/-- How the fetch ends, next to the program's: in an instruction that the program runs
too, in a trap that the program's fetch raises too, or in a miss of a page that is there. -/
inductive FetchSimulates (fp : FpArith) (s : Machine) (p : Program) : Outcome Instruction → Prop
  | next {i : Instruction} {c : InstructionCache} (hcache : CacheShows c p)
      (hstep : p.step fp = (p.execute fp i).advance) :
      FetchSimulates fp s p (.next i (s.withCache c))
  | raise {t : Trap} {c : InstructionCache} (hcache : CacheShows c p)
      (hstep : p.step fp = .raise t p) : FetchSimulates fp s p (.raise t (s.withCache c))
  | miss {c : InstructionCache} (hcache : CacheShows c p)
      (hpage : (p.memory p.programCounter).isSome) :
      FetchSimulates fp s p (.raise (missTrap .load p.programCounter) (s.withCache c))
  | abort {f : Fault} : FetchSimulates fp s p (.abort f)

/-- A step is the instruction that the word decodes to. -/
theorem step_of_word {w : Word} (h : p.getWord p.programCounter = .ok w) {i : Instruction}
    (hdec : IntegerUnit.decode p.programCounter w = .ok i) :
    p.step fp = (p.execute fp i).advance := by
  rw [Program.step, h]
  simp only [hdec]

/-- Where there is no word, the step ends as the fetch does. -/
theorem step_of_stop (fp : FpArith) {stop : Program.Stop}
    (h : p.getWord p.programCounter = .error stop) : p.step fp = stop.ending p := by
  rw [Program.step, h]

/-- A program that does not leave its pages fetches from a user address. -/
theorem userAddress_of_step (hinside : p.step fp ≠ .escape) : userAddress p.programCounter := by
  by_contra hv
  have hstop : p.getWord p.programCounter = .error .escape := by
    rw [Program.getWord, Program.locate, if_neg hv]
    rfl
  exact hinside (step_of_stop _ hstop)

/-- **The fetch** from a cache that shows the program. -/
theorem fetch_simulates (hshows : map.Shows s.tlb s.asid)
    (hcache : CacheShows s.instructionCache p) (hp : s.program (map.memory s.memory) = p)
    (hinside : p.step fp ≠ .escape) : FetchSimulates fp s p s.fetch := by
  have hv := userAddress_of_step hinside
  have hpc : s.programCounter = p.programCounter := by rw [← hp]; rfl
  have hmem : p.memory = map.memory s.memory := by rw [← hp]; rfl
  obtain ⟨rest, hfront, hrest⟩ :=
    LRUCache.index_front (c := s.instructionCache) (k := p.programCounter)
  cases hentry : (s.instructionCache.index p.programCounter).1 with
  | some i =>
      -- a hit: the entry decodes the word of the program
      rw [hentry] at hfront
      have hold : (p.programCounter, some i) ∈ s.instructionCache.storage := by
        rcases LRUCache.mem_or_default_of_index (c := s.instructionCache)
          (k := p.programCounter) with h | h
        · rwa [hentry] at h
        · rw [hentry] at h
          cases h
      obtain ⟨w, hw, hdec⟩ := hcache _ _ hold hv
      have hfetch : s.fetch =
          .next i (s.withCache (s.instructionCache.index p.programCounter).2) := by
        rw [← hpc] at hentry ⊢
        simp only [Machine.fetch, hentry]
      rw [hfetch]
      refine .next (hcache.cons hrest hfront fun j hj => ?_) (step_of_word hw hdec)
      cases hj
      exact ⟨w, hw, hdec⟩
  | none =>
      -- a miss, or an entry that a failed fetch left empty
      rw [hentry] at hfront
      have hempty : CacheShows (s.instructionCache.index p.programCounter).2 p :=
        hcache.cons hrest hfront fun j hj => by cases hj
      have hfetch : s.fetch =
          Outcome.ofAccess (s.withCache (s.instructionCache.index p.programCounter).2)
            (s.memory.getWord p.programCounter s.tlb s.asid) fun w =>
              Outcome.ofAccess (s.withCache (s.instructionCache.index p.programCounter).2)
                (IntegerUnit.decode p.programCounter w) fun i => .next i (s.withCache
                  ((s.instructionCache.index p.programCounter).2.assignFront (some i))) := by
        rw [← hpc] at hentry ⊢
        simp only [Machine.fetch, hentry]
        rfl
      rw [hfetch]
      have hanswers := getWord_answers p.programCounter hshows hmem
      revert hanswers
      generalize s.memory.getWord p.programCounter s.tlb s.asid = got
      generalize hown : p.getWord p.programCounter = own
      intro hanswers
      cases hanswers with
      | escape => exact absurd (step_of_stop _ hown) hinside
      | miss hpage => exact .miss hempty hpage
      | fault f =>
          have hstep := step_of_stop fp hown
          cases f with
          | trap t => exact .raise hempty hstep
          | _ => exact .abort
      | value heq =>
          subst heq
          rename_i w
          simp only [Outcome.ofAccess]
          cases hdec : IntegerUnit.decode p.programCounter w with
          | error f =>
              have hstep : p.step fp = Program.Stop.ending p (.fault f) := by
                rw [Program.step, hown]
                simp only [hdec]
              cases f with
              | trap t => exact .raise hempty hstep
              | _ => exact .abort
          | ok i =>
              refine .next ?_ (step_of_word hown hdec)
              refine hcache.cons hrest (LRUCache.assignFront_storage hfront) fun j hj => ?_
              cases hj
              exact ⟨w, hown, hdec⟩

/-! ### The cycle -/

/-- What the program sees of a cycle: its own step, or a miss of a page that is there,
which changes nothing. -/
inductive Program.Cycles (fp : FpArith) (p : Program) : Option Trap → Program → Prop
  | completes {p' : Program} (h : p.step fp = .next p') : Cycles fp p none p'
  | interrupted {p' : Program} (h : p.step fp = .next p') :
      Cycles fp p (some { exceptionCode := .interrupt }) p'
  | raises {t : Trap} {p' : Program} (h : p.step fp = .raise t p') : Cycles fp p (some t) p'
  | misses (type : LookupType) {vaddr : Word} (h : (p.memory vaddr).isSome) :
      Cycles fp p (some (missTrap type vaddr)) p

/-- How a cycle hands over: to the next one, or to the trap handler. -/
def Machine.handOver (s : Machine) : Option Trap → Machine
  | none => s
  | some t => s.raiseTrap t

/-- What a cycle of the program `p` leaves: the program `p'`, the frames of others, the
system state, and a cache that showed `p`. -/
structure Leaves (map : FrameMap) (s s' : Machine) (p p' : Program) : Prop where
  becomes : Becomes map s s' p'
  system : KeepsSystem s s'
  cache : CacheShows s'.instructionCache p

/-- A program that does not leave its pages runs no privileged instruction. -/
theorem unprivileged_of_step {i : Instruction} (hstep : p.step fp = (p.execute fp i).advance)
    (hinside : p.step fp ≠ .escape) : i.isPrivileged = false := by
  rw [← Bool.not_eq_true]
  intro hpriv
  apply hinside
  rw [hstep]
  cases i with
  | moveToCoprocessor0 | moveFromCoprocessor0 | exceptionReturn | tlbProbe | tlbReadIndexed
  | tlbWriteIndexed | tlbWriteRandom | performCacheOp | vmTunnel => rfl
  | _ => cases hpriv

/-- The machine with another cache has the same program. -/
theorem Becomes.withCache (h : Becomes map s s' p') : Becomes map s (s'.withCache c) p' :=
  ⟨h.program, h.frame⟩

/-- The system state does not include the cache. -/
theorem KeepsSystem.withCache (h : KeepsSystem s s') : KeepsSystem s (s'.withCache c) :=
  ⟨h.tlb, h.fileSystem, h.host, h.output, h.input, h.killed, h.trapEntry, h.cp0⟩

/-- The program counter goes on. -/
abbrev Machine.advance (s : Machine) : Machine :=
  { s with programCounter := s.programCounter + 4#32 }

/-- Nor does it include the program counter. -/
theorem KeepsSystem.advance (h : KeepsSystem s s') : KeepsSystem s s'.advance :=
  ⟨h.tlb, h.fileSystem, h.host, h.output, h.input, h.killed, h.trapEntry, h.cp0⟩

/-- The program counter goes on in both. -/
theorem Becomes.advance (h : Becomes map s s' p') : Becomes map s s'.advance p'.advance :=
  ⟨by rw [← h.program]; rfl, h.frame⟩

/-- **The cycle.**  On a machine that shows a program in its TLB and its cache, a cycle is
a step of the program. -/
theorem cycle_simulates {t : Option Trap} (hshows : map.Shows s.tlb s.asid)
    (hcache : CacheShows s.instructionCache p) (hp : s.program (map.memory s.memory) = p)
    (hinside : p.step fp ≠ .escape) (h : s.cycle fp inp = .ok (s', t)) :
    ∃ mid p', s' = mid.handOver t ∧ p.Cycles fp t p' ∧ Leaves map s mid p p' := by
  have hfetch := fetch_simulates hshows hcache hp hinside
  have hsame : KeepsSystem s s := .refl s
  rw [Machine.cycle_eq_runFetched] at h
  generalize s.fetch = fetched at hfetch h
  cases hfetch with
  | abort => cases h
  | raise hcache hstep =>
      cases h
      exact ⟨_, p, rfl, .raises hstep, (becomes_refl hp).withCache, hsame.withCache, hcache⟩
  | miss hcache hpage =>
      cases h
      exact ⟨_, p, rfl, .misses .load hpage, (becomes_refl hp).withCache, hsame.withCache, hcache⟩
  | @next i c hcache hstep =>
      have hpriv := unprivileged_of_step hstep hinside
      have hnotCache : i ≠ .performCacheOp := by
        rintro rfl
        cases hpriv
      have hrun := run_simulates i fp inp hshows hp
      have hkeeps : (i.run fp inp s).Ends (KeepsSystem s) := Instruction.run_keepsSystem hpriv
      unfold Machine.runFetched at h
      dsimp only at h
      rw [Instruction.run_withCache fp inp hnotCache] at h
      rw [hstep] at hinside
      generalize hexecute : p.execute fp i = own at hrun hstep hinside
      generalize i.run fp inp s = o at hrun hkeeps h
      cases hrun with
      | escape => exact absurd rfl hinside
      | abort => cases h
      | raise hbecomes =>
          cases h
          exact ⟨_, _, rfl, .raises hstep, hbecomes.withCache, hkeeps.withCache, hcache⟩
      | miss hpage =>
          cases h
          exact ⟨_, p, rfl, .misses _ hpage, (becomes_refl hp).withCache, hsame.withCache, hcache⟩
      | @next s1 p1 hbecomes =>
          dsimp only [Outcome.withCache] at h
          have hsystem : KeepsSystem s s1.advance := (hkeeps : KeepsSystem s s1).advance
          have hleaves : Leaves map s (s1.advance.withCache c) p p1.advance :=
            ⟨hbecomes.advance.withCache, hsystem.withCache, hcache⟩
          split at h
          · cases h
            exact ⟨_, _, rfl, .interrupted hstep, hleaves⟩
          · cases h
            exact ⟨_, _, rfl, .completes hstep, hleaves⟩

/-- One page, at the start of the memory. -/
def firstPage : FrameMap where
  frame page := if page = 0 then some 0 else none
  bounded h := by
    split at h
    · obtain rfl := Option.some.inj h
      decide
    · cases h
  injective h h' := by
    split at h
    case isTrue hpage =>
      split at h'
      case isTrue hpage' => exact hpage.trans hpage'.symm
      case isFalse => cases h'
    case isFalse => cases h

/-- A machine that has this page in its TLB, and in it the word `sw $1, 16($0)`. -/
def storingMachine : Machine :=
  { blankMachine with
    tlb := fun _ => { valid := true }
    registerFile := fun r => if r = 1 then 0xCAFE else 0
    memory := fun a => [0xAC, 0x01, 0x00, 0x10].getD a 0 }

/-- The TLB of this machine shows its page. -/
theorem shows_firstPage : firstPage.Shows storingMachine.tlb storingMachine.asid := by
  intro i vaddr _ hcovers
  obtain ⟨hvalid, -⟩ := (Bool.and_eq_true _ _).mp hcovers
  have hpage : vaddr >>> 12 = 0 := beq_iff_eq.mp ((Bool.and_eq_true _ _).mp hvalid).1
  exact if_pos hpage

/-- The first cycle of this machine, which stores through the page. -/
theorem store_cycle_simulates :
    ∃ s' mid p', storingMachine.cycle ⟨fun _ a _ => a, fun _ a _ => a⟩ {} = .ok (s', none) ∧
      storingMachine.memory 19 = 0 ∧ s'.memory 19 = 0xFE ∧ s' = mid.handOver none ∧
      (storingMachine.program (firstPage.memory storingMachine.memory)).Cycles
        ⟨fun _ a _ => a, fun _ a _ => a⟩ none p' ∧
      Leaves firstPage storingMachine mid
        (storingMachine.program (firstPage.memory storingMachine.memory)) p' := by
  have hcycle : ∃ s', storingMachine.cycle ⟨fun _ a _ => a, fun _ a _ => a⟩ {} = .ok (s', none) ∧
      s'.memory 19 = 0xFE := ⟨_, rfl, rfl⟩
  obtain ⟨s', hcycle, hstored⟩ := hcycle
  have hstep : ∃ p', (storingMachine.program (firstPage.memory storingMachine.memory)).step
      ⟨fun _ a _ => a, fun _ a _ => a⟩ = .next p' := ⟨_, rfl⟩
  obtain ⟨p', hstep⟩ := hstep
  obtain ⟨mid, p1, hs', hcycles, hleaves⟩ := cycle_simulates shows_firstPage cacheShows_empty rfl
    (fun h => Program.Ending.noConfusion (hstep.symm.trans h)) hcycle
  exact ⟨s', mid, p1, hcycle, rfl, hstored, hs', hcycles, hleaves⟩

end Hardware
