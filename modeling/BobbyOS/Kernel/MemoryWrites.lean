import BobbyOS.Kernel.TrapRefusals
import BobbyOS.Kernel.UserStrings
import BobbyOS.Kernel.Loading

/-!
# What a trap writes

Physical memory is written in three places: an image is loaded into the frames of
a new process, a fork copies pages, and `READ_STRING` stores bytes at user
addresses.  Everything else that the handler does leaves the memory alone.

* `createProcess_writes`: an image is loaded into frames that were free;
* `writesFree_dispatch`: apart from the last two, only free frames are written;
* `writesOwn_dispatch`: input goes into frames of the process that asked for it,
  as long as the TLB tells the truth about its user pages.
-/

namespace Kernel

open Effects SharedResources
open KernelState (WithShared)

variable {s s' : KernelState} {vm : Tunnel} {brk0 badVAddr : Word} {ctx : RegisterContext}
  {n : Nat} {p : PCB}

/-! ### Images -/

namespace SharedResources

variable {k k' : SharedResources} {path : List Byte} {pid : Word} {slot : Nat}

/-- A frame that nobody has. -/
def Free (k : SharedResources) (f : Nat) : Prop :=
  ¬ k.memory.Reserved f ∧ k.memory.kernelReservedBoundary ≤ f ∧ f < numPages

/-- Only bytes of free frames were written. -/
def WritesFree (k : SharedResources) (mem : Hardware.Memory) : Prop :=
  ∀ x, mem x ≠ k.physMem x → k.Free (x / Hardware.pageSize)

/-- Destroying a process writes nothing. -/
theorem destroy_physMem (h : k.destroy p = .ok k') : k'.physMem = k.physMem := by
  obtain ⟨_, -, h⟩ := Except.bind_ok_iff.mp h
  obtain rfl := Except.ok.inj h
  rfl

/-- Nor does giving it its slot. -/
theorem install_physMem (h : k.install p = .ok (pid, k')) : k'.physMem = k.physMem := by
  unfold install at h
  split at h
  · obtain ⟨-, rfl⟩ := Prod.mk.inj (Except.ok.inj h)
    rfl
  · split at h
    · cases h
    · cases h
    · obtain ⟨-, rfl⟩ := Prod.mk.inj (Except.ok.inj h)
      rfl

/-- **Loading.**  An image is loaded into frames that were free, also when the file
ends too early. -/
theorem createProcess_writes (h : k.createProcess vm path brk0 = .ok (pid, k')) :
    k.WritesFree k'.physMem := by
  rcases createProcess_cases h with ⟨f, log, -, -, rfl⟩ |
    ⟨info, r, p, k1, physMem, f, log, -, hnew, h⟩
  · exact fun x hx => absurd rfl hx
  obtain ⟨text, static, stack, hmade, -⟩ := newProcess_spec hnew
  obtain ⟨t, _, _, _, ht, hpages, hsame⟩ := newProcess_pages hnew
  have hshort := hpages.short
  have hdata := hpages.data
  rw [hpages.textPages] at hshort
  unfold numPages at hshort
  have hloaded {loaded : Bool} {r' : Reader}
      (hload : loadImage vm p.addrSpace info k1.physMem r = .ok (loaded, physMem, r')) :
      k.WritesFree physMem := by
    intro x hx
    rw [← hsame] at hx
    obtain ⟨a, -, hphysical⟩ :=
      (loadImage_spec (by omega) (by omega) hpages.apart ht hload).1 x hx
    have hmem := hpages.apart.mem_frames hphysical
    rw [← PCB.frames_hash ht, hmade.frames.mem_iff] at hmem
    exact ⟨(hmade.hands.fresh hmem).1, (hmade.hands.fresh hmem).2⟩
  rcases h with ⟨hload, -, k2, hdestroy, rfl⟩ | ⟨hload, hinstall⟩
  · have hmem : k2.physMem = physMem := destroy_physMem hdestroy
    exact fun x hx => hloaded hload x (hmem ▸ hx)
  · have hmem : k'.physMem = physMem := install_physMem hinstall
    exact fun x hx => hloaded hload x (hmem ▸ hx)

/-- Nor does freeing one. -/
theorem freeProcess_physMem (h : k.freeProcess pid = .ok k') : k'.physMem = k.physMem := by
  unfold freeProcess at h
  split at h
  · cases h
  · cases h
  · obtain ⟨_, -, h⟩ := Except.bind_ok_iff.mp h
    split at h
    · have hmem := destroy_physMem h
      exact hmem
    · have hmem := destroy_physMem h
      exact hmem

/-- Nor does giving a guard back. -/
theorem reset_physMem (h : k.reset slot = .ok k') : k'.physMem = k.physMem := by
  obtain ⟨p, -, h⟩ := Except.bind_ok_iff.mp h
  split at h
  · obtain rfl := Except.ok.inj h
    rfl
  simp only at h
  split at h
  case isTrue =>
    have hmem := freeProcess_physMem h
    exact hmem
  case isFalse =>
    obtain rfl := Except.ok.inj h
    rfl

/-- Nor does borrowing one. -/
theorem borrow_physMem (h : k.borrow slot = .ok k') : k'.physMem = k.physMem := by
  obtain ⟨p, -, h⟩ := Except.bind_ok_iff.mp h
  obtain rfl := Except.ok.inj h
  rfl

/-- Nor does a mark. -/
theorem markForDeath_physMem (h : k.markForDeath slot = .ok k') : k'.physMem = k.physMem := by
  obtain ⟨p, -, h⟩ := Except.bind_ok_iff.mp h
  obtain ⟨_, -, h⟩ := Except.bind_ok_iff.mp h
  obtain rfl := Except.ok.inj h
  rfl

/-- The guards, the break and the registers of a process are not in its memory. -/
theorem undisturbed_physMem {own : Nat → Prop} (h : Undisturbed own k k') :
    k'.physMem = k.physMem := by
  cases h with
  | @borrow ref _ h =>
      cases ref with
      | kernel =>
          obtain rfl := Except.ok.inj h
          rfl
      | process n => exact borrow_physMem h
  | @reset ref _ h =>
      cases ref with
      | kernel =>
          obtain rfl := Except.ok.inj h
          rfl
      | process n => exact reset_physMem h
  | markForDeath _ h => exact markForDeath_physMem h
  | updateBrk _ h =>
      obtain ⟨p, -, h⟩ := Except.bind_ok_iff.mp h
      obtain ⟨_, -, h⟩ := Except.bind_ok_iff.mp h
      obtain ⟨-, rfl⟩ := Prod.mk.inj (Except.ok.inj h)
      rfl
  | @context ref p _ _ regCtx => cases ref <;> rfl
  | log _ => rfl

/-- The new image of a process is all that `exec` writes. -/
theorem exec_writes {ctx' : Option RegisterContext} {done : Option RegisterContext} {made : Bool}
    (h : k.exec vm slot path brk0 ctx' = .ok (made, done, k')) : k.WritesFree k'.physMem := by
  obtain ⟨self, -, h⟩ := Except.bind_ok_iff.mp h
  obtain ⟨_, -, h⟩ := Except.bind_ok_iff.mp h
  obtain ⟨⟨newPID, k1⟩, hcreate, h⟩ := Except.bind_ok_iff.mp h
  have hwrites := createProcess_writes hcreate
  simp only at h
  split at h
  · obtain ⟨-, h⟩ := Prod.mk.inj (Except.ok.inj h)
    obtain ⟨-, rfl⟩ := Prod.mk.inj h
    exact hwrites
  split at h
  · cases h
  obtain ⟨k2, hborrow, h⟩ := Except.bind_ok_iff.mp h
  obtain ⟨newProc, -, h⟩ := Except.bind_ok_iff.mp h
  obtain ⟨memory, -, h⟩ := Except.bind_ok_iff.mp h
  obtain ⟨k3, hmark, h⟩ := Except.bind_ok_iff.mp h
  obtain ⟨k4, hreset, h⟩ := Except.bind_ok_iff.mp h
  obtain ⟨-, h⟩ := Prod.mk.inj (Except.ok.inj h)
  obtain ⟨-, rfl⟩ := Prod.mk.inj h
  have hmarked := markForDeath_physMem hmark
  have hmem : k4.physMem = k2.physMem := (reset_physMem hreset).trans hmarked
  rw [borrow_physMem hborrow] at hmem
  exact fun x hx => hwrites x (hmem ▸ hx)

end SharedResources

/-- The physical memory is not written. -/
theorem kept_physMem (mem : Hardware.Memory) :
    Kept Everyone fun s => s.shared.physMem = mem where
  access _ hs := hs
  control hs hshared _ _ := by
    rw [hshared]
    exact hs
  manage hs h := (undisturbed_physMem h).trans hs
  fill hs _ _ := hs

/-- The call writes to user memory, or copies it. -/
def Writes (ctx : RegisterContext) : Prop :=
  ExceptionType.ofCause ctx.cause = .syscall ∧
    (ctx.accessRegister Register.V0 = READ_STRING ∨ ctx.accessRegister Register.V0 = FORK)

/-- **The `switch`.**  Apart from the calls that write, only free frames are written. -/
theorem writesFree_dispatch {r : RegisterContext × Option GuardRef} (hcalm : ¬ Writes ctx)
    (h : Returns (dispatch vm brk0 badVAddr (.process n) ctx) s r s') :
    s.shared.WritesFree s'.shared.physMem := by
  have hI := kept_physMem s.shared.physMem
  by_cases hexec : ExceptionType.ofCause ctx.cause = .syscall ∧
      ctx.accessRegister Register.V0 = EXEC
  · unfold dispatch at h
    rw [hexec.1, syscall_exec hexec.2] at h
    obtain ⟨ctx1, t1, h, hrest⟩ := returns_bind.mp h
    obtain ⟨-, rfl⟩ := returns_pure.mp hrest
    obtain ⟨paddr, t2, haddr, h⟩ := returns_bind.mp h
    obtain ⟨path, t3, hpath, h⟩ := returns_bind.mp h
    obtain ⟨-, accesses, rfl⟩ := returns_userString haddr hpath
    obtain ⟨_, t, htouch, h⟩ := returns_bind.mp h
    obtain ⟨_, rfl⟩ := returns_touchPcb htouch
    obtain ⟨_, t, htouch, h⟩ := returns_bind.mp h
    obtain ⟨_, rfl⟩ := returns_touch htouch
    obtain ⟨ctx2, t, hmanage, h⟩ := returns_bind.mp h
    obtain ⟨-, rfl⟩ := returns_pure.mp h
    obtain ⟨k, hk, accesses, rfl⟩ := returns_manage hmanage
    obtain ⟨⟨made, done, k1⟩, hdone, hk⟩ := Except.bind_ok_iff.mp hk
    obtain ⟨-, rfl⟩ := Prod.mk.inj (Except.ok.inj hk)
    exact exec_writes hdone
  · have hkept : s'.shared.physMem = s.shared.physMem := by
      refine (hI.dispatch fun hcall => hI.syscall (fun _ => trivial) (fun h => ?_) (fun h => ?_)
        fun h => ?_).returns h rfl
      · exact absurd ⟨hcall, .inl h⟩ hcalm
      · exact absurd ⟨hcall, h⟩ hexec
      · exact absurd ⟨hcall, .inr h⟩ hcalm
    intro x hx
    rw [hkept] at hx
    exact absurd rfl hx

/-! ### Input -/

/-- The trap is this system call. -/
def Calls (ctx : RegisterContext) (call : Word) : Prop :=
  ExceptionType.ofCause ctx.cause = .syscall ∧ ctx.accessRegister Register.V0 = call

instance decidableCalls (ctx : RegisterContext) (call : Word) : Decidable (Calls ctx call) :=
  inferInstanceAs (Decidable (_ ∧ _))

/-- The machine's answer to `READ_STRING`. -/
def inputReply (k : SharedResources) (vm : Tunnel) (ctx : RegisterContext) : VMReply :=
  vm (.stdin (ctx.accessRegister Register.A1) :: k.log)

/-- The bytes that `READ_STRING` stores go to user addresses. -/
def UserBuffer (k : SharedResources) (vm : Tunnel) (ctx : RegisterContext) : Prop :=
  ∀ i < (inputReply k vm ctx).res.toNat,
    (ctx.accessRegister Register.A0 + BitVec.ofNat 32 i).toNat < 2 ^ 31

instance decidableUserBuffer (k : SharedResources) (vm : Tunnel) (ctx : RegisterContext) :
    Decidable (UserBuffer k vm ctx) :=
  inferInstanceAs (Decidable (∀ i < _, _ < _))

section Input

variable {space : AddressSpace} {mem : Hardware.Memory} {vaddr : Word}

/-- What the hardware finds for user addresses of the process is in its page table. -/
def Truthful (space : AddressSpace) (tlb : Hardware.TLB) : Prop :=
  ∀ i (vaddr : Word), vaddr.toNat < 2 ^ 31 →
    (tlb i).covers (vaddr >>> 12) space.asid = true → space.Maps (tlb i)

/-- The frame belongs to the page table. -/
def AddressSpace.Owns (space : AddressSpace) (f : Nat) : Prop :=
  ∃ t, space.pageTable = some (.hash t) ∧ f ∈ t.frames

/-- Only bytes of the address space were written. -/
def WritesOwn (space : AddressSpace) (mem mem' : Hardware.Memory) : Prop :=
  ∀ x, mem' x ≠ mem x → space.Owns (x / Hardware.pageSize)

/-- The stores so far went into the address space, and so does the next one. -/
structure Aims (space : AddressSpace) (mem : Hardware.Memory) (s : KernelState) : Prop where
  asid : s.asid = space.asid
  truthful : Truthful space s.tlb
  writes : WritesOwn space mem s.shared.physMem

/-- A store to a user address reaches a frame of the process. -/
theorem owns_of_translate {paddr : Word} (hs : Housed n space s) (haims : Aims space mem s)
    (hlow : vaddr.toNat < 2 ^ 31) (h : s.tlb.translate vaddr .store s.asid = .ok paddr) :
    space.Owns (paddr.toNat / Hardware.pageSize) := by
  rcases (Hardware.translate_ok_iff _ _ _ _ _).mp h with ⟨hdirect, -⟩ | ⟨-, e, he, rfl⟩
  · have := ((Hardware.directMapped_iff vaddr).mp hdirect).1
    omega
  obtain ⟨i, rfl, hcovers⟩ := Hardware.entryFor_covers he
  rw [haims.asid] at hcovers
  obtain ⟨t', pte, ht', hwalk, -, hpfn⟩ := haims.truthful i vaddr hlow hcovers
  obtain ⟨hinvariant, q, hq, rfl, -⟩ := hs
  have hlive := mem_live (procAt_iff.mp hq)
  obtain ⟨t, ht, husable⟩ := hinvariant.sane.tables q hlive
  obtain rfl := Option.some.inj (ht.symm.trans ht')
  have hentry := (HashPageTable.walkTable_eq_some husable.wf).mp hwalk
  have hframe : pte.pfn.toNat ∈ t.frames :=
    List.mem_map_of_mem (f := fun kv => kv.2.pfn.toNat) hentry
  have hlt := hinvariant.sane.frames_lt hlive
  rw [PCB.frames_hash ht] at hlt
  have hbound := hlt _ hframe
  refine ⟨t, ht, ?_⟩
  rw [hpfn] at hframe hbound
  rw [Hardware.frame_offset_toNat]
  unfold numPages at hbound
  have hdiv : ((s.tlb i).pfn.toNat % 2 ^ 20 * Hardware.pageSize +
      vaddr.toNat % Hardware.pageSize) / Hardware.pageSize = (s.tlb i).pfn.toNat := by
    unfold Hardware.pageSize
    omega
  rw [hdiv]
  exact hframe

/-- A refill leaves the identifier of the address space in ENTRYHI. -/
theorem asid_filled {entry : TLBEntry} (h : space.translate vaddr = .ok entry) :
    (s.filled entry).asid = space.asid := by
  rw [← asid_translate h]
  show entry.hi.setWidth 8 = (entry.hi &&& 0xFF#32).setWidth 8
  rw [BitVec.setWidth_and]
  exact BitVec.and_allOnes.symm

/-- Misses fetch entries of the process's own table. -/
theorem aims_misses (hs : Storing n space s) (haims : Aims space mem s) (h : Misses n s s') :
    Aims space mem s' := by
  induction h with
  | none => exact haims
  | @more t t' p w entry hmisses hp hentry ht' ih =>
      obtain ⟨hinvariant, q, hq, rfl, -⟩ := (hs.onlyStores hmisses.onlyStores).2
      obtain rfl := Option.some.inj (hp.symm.trans hq)
      obtain ⟨accesses, rfl⟩ := ht'
      refine ⟨asid_filled (s := t) hentry, fun i v hlow hcovers => ?_, ih.writes⟩
      rcases filled_tlb (s := t) entry i with hnew | hold
      · show p.addrSpace.Maps ((t.filled entry).tlb i)
        rw [hnew]
        exact maps_translate hinvariant.sane hp hentry
      · replace hcovers : ((t.filled entry).tlb i).covers (v >>> 12) p.addrSpace.asid = true :=
          hcovers
        show p.addrSpace.Maps ((t.filled entry).tlb i)
        rw [hold] at hcovers ⊢
        exact ih.truthful i v hlow hcovers

/-- A store that aims at a frame of the process still does behind the store. -/
theorem aims_writePhysical {paddr : Word} {b : Byte} (haims : Aims space mem s)
    (howns : space.Owns (paddr.toNat / Hardware.pageSize)) {u : Unit}
    (h : Returns (writePhysical paddr b) s u s') : Aims space mem s' := by
  unfold writePhysical at h
  split at h
  · obtain rfl := returns_modify.mp h
    refine ⟨haims.asid, haims.truthful, fun x hx => ?_⟩
    by_cases hthere : x = paddr.toNat
    · rw [hthere]
      exact howns
    · replace hx : Function.update s.shared.physMem paddr.toNat b x ≠ mem x := hx
      rw [Function.update_of_ne hthere] at hx
      exact haims.writes x hx
  · exact absurd h not_returns_throw

/-- One byte. -/
theorem aims_storeByte {buf : List Byte} {b : Byte} (hlow : vaddr.toNat < 2 ^ 31) :
    Triple (fun s => Storing n space s ∧ Aims space mem s) (storeByte buf vaddr b)
      fun _ s => Storing n space s ∧ Aims space mem s := by
  intro s ⟨hs, haims⟩ u s' h
  refine ⟨storing_storeByte hs h, ?_⟩
  obtain ⟨t, paddr, b', hmisses, htranslate, hwrite, -⟩ := returns_storeByte hs.runs h
  have ht := hs.onlyStores hmisses.onlyStores
  have haims' := aims_misses hs haims hmisses
  exact aims_writePhysical haims' (owns_of_translate ht.2 haims' hlow htranslate) hwrite

/-- All bytes. -/
theorem aims_storeBytes {loc : Word} {buf : List Byte} {left i : Nat}
    (hlow : ∀ j, i ≤ j → j < i + left → (loc + BitVec.ofNat 32 j).toNat < 2 ^ 31) :
    Triple (fun s => Storing n space s ∧ Aims space mem s) (storeBytes loc buf left i)
      fun _ s => Storing n space s ∧ Aims space mem s := by
  induction left generalizing i with
  | zero => exact .pure fun _ hs => hs
  | succ left ih =>
      refine (aims_storeByte (hlow i (by omega) (by omega))).bind fun _ => ?_
      exact ih fun j hfrom hto => hlow j (by omega) (by omega)

/-- The input is stored in frames of the process. -/
theorem owns_storeInput {reply : VMReply} (hlow : ∀ i < reply.res.toNat,
    (ctx.accessRegister Register.A0 + BitVec.ofNat 32 i).toNat < 2 ^ 31) :
    Triple (fun s => Housed n space s ∧ Truthful space s.tlb ∧ s.shared.physMem = mem)
      (storeInput (.process n) ctx reply) fun _ s => WritesOwn space mem s.shared.physMem := by
  unfold storeInput
  split
  · refine .pure fun s hs x hx => ?_
    rw [hs.2.2] at hx
    exact absurd rfl hx
  refine Triple.bind (Q := fun _ s => Storing n space s ∧ Truthful space s.tlb ∧
    s.shared.physMem = mem) (.modify fun s hs => ⟨⟨rfl, hs.1⟩, hs.2⟩) fun _ => ?_
  refine Triple.bind (Q := fun p s => p.addrSpace = space ∧ Storing n space s ∧
    Truthful space s.tlb ∧ s.shared.physMem = mem) ?_ fun p => ?_
  · intro s hs p s' h
    have hspace := (housed_deref hs.1.2 h).2
    obtain ⟨-, accesses, rfl⟩ := returns_deref h
    exact ⟨hspace, hs⟩
  refine Triple.bind (Q := fun _ s => Storing n space s ∧ Aims space mem s) ?_ fun _ => ?_
  · refine .modify fun s hs => ?_
    obtain ⟨hspace, hstoring, htruthful, hmem⟩ := hs
    have hstart : WritesOwn space mem s.shared.physMem := fun x hx => absurd (congrFun hmem x) hx
    exact ⟨hstoring, congrArg AddressSpace.asid hspace, htruthful, hstart⟩
  refine (aims_storeBytes fun j _ hto => hlow j (by omega)).bind fun _ => ?_
  refine Triple.bind (Q := fun _ s => WritesOwn space mem s.shared.physMem) ?_
    fun _ => .pure fun _ hs => hs
  exact .modify fun s hs => hs.2.writes

/-- **The `switch`.**  Input goes into frames of the process, when its buffer consists of
user addresses and the TLB tells the truth about them. -/
theorem writesOwn_dispatch {r : RegisterContext × Option GuardRef}
    (hcall : Calls ctx READ_STRING) (hs : Housed n space s) (htruthful : Truthful space s.tlb)
    (hlow : UserBuffer s.shared vm ctx)
    (h : Returns (dispatch vm brk0 badVAddr (.process n) ctx) s r s') :
    WritesOwn space s.shared.physMem s'.shared.physMem := by
  unfold dispatch at h
  rw [hcall.1] at h
  unfold syscall at h
  rw [hcall.2] at h
  obtain ⟨ctx1, t, h, hrest⟩ := returns_bind.mp h
  obtain ⟨-, rfl⟩ := returns_pure.mp hrest
  have hsame (log : List VMRequest) :
      WritesOwn space s.shared.physMem { s.shared with log }.physMem := fun x hx => absurd rfl hx
  unfold readString at h
  split at h
  · obtain ⟨_, t1, hprint, h⟩ := returns_bind.mp h
    obtain ⟨-, rfl⟩ := returns_pure.mp h
    obtain ⟨log, hprinted⟩ := returns_printString hprint
    rw [hprinted.shared]
    exact hsame log
  · obtain ⟨reply, t1, hsend, h⟩ := returns_bind.mp h
    obtain ⟨hreply, ht⟩ := returns_send_iff.mp hsend
    have hstart : Housed n space t1 ∧ Truthful space t1.tlb ∧
        t1.shared.physMem = s.shared.physMem := by
      rw [ht]
      exact ⟨hs.same rfl, htruthful, rfl⟩
    refine owns_storeInput (fun i hi => ?_) hstart h
    rw [hreply] at hi
    rw [accessRegister_A0]
    exact hlow i hi

end Input

end Kernel
