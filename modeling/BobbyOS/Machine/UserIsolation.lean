import BobbyOS.Lib.Result
import BobbyOS.Machine.Hardware
import BobbyOS.Machine.MemorySafety

/-!
# What a load or store of user code can reach

Every load and store computes an address, translates it and touches the
physical bytes behind it.  `TLB::translate` does not look at STATUS: the direct
map and the global entries of the kernel heap serve user code as they serve the
kernel.  This file splits the accesses into those that trap or stay inside a
page of the current address space below `0x80000000`, and the others.

* `run_of_miss` and `run_ne_raise`: a load or store traps exactly when its
  translation misses;
* `run_touches`: otherwise it touches only the `width` bytes from the
  translated address on;
* `isolated_iff` is the characterisation.
-/

namespace Hardware

namespace IMemoryOp

/-- Loads look the address up for reading, stores for writing. -/
def lookupType : IMemoryOp → LookupType
  | loadByte | loadByteUnsigned | loadHalfword | loadHalfwordUnsigned | loadWord
  | loadFPSingle => .load
  | storeByte | storeHalfword | storeWord | storeFPSingle => .store

/-- The number of bytes accessed. -/
def width : IMemoryOp → Nat
  | loadByte | loadByteUnsigned | storeByte => 1
  | loadHalfword | loadHalfwordUnsigned | storeHalfword => 2
  | loadWord | loadFPSingle | storeWord | storeFPSingle => 4

end IMemoryOp

/-- The virtual address of a load or store. -/
def accessAddress (rs : Reg) (imm : HalfWord) (s : Machine) : Word :=
  effectiveAddress (s.registerFile rs) imm

/-- The physical address behind `vaddr` in the frame of an entry. -/
def TLBEntry.physical (e : TLBEntry) (vaddr : Word) : Nat :=
  ((e.pfn <<< 12) ||| (vaddr &&& 0xFFF#32)).toNat

/-- The access writes only the `width` physical bytes from `p` on, and what it
loads depends only on them. -/
structure Touches (op : IMemoryOp) (rt rs : Reg) (imm : HalfWord) (s : Machine) (p : Nat) :
    Prop where
  writes : ∀ s', op.run rt rs imm s = .next () s' →
    ∀ a, (a < p ∨ p + op.width ≤ a) → s'.memory a = s.memory a
  reads : ∀ s', op.run rt rs imm s = .next () s' →
    ∀ m : Memory, (∀ a, p ≤ a → a < p + op.width → m a = s.memory a) →
      ∃ s'', op.run rt rs imm { s with memory := m } = .next () s'' ∧
        s''.registerFile = s'.registerFile ∧ s''.fpRegisterFile = s'.fpRegisterFile

/-- The access goes through the valid entry `e` of its page and of the current
address space, and touches only the frame of that entry at its page offset. -/
structure ThroughEntry (op : IMemoryOp) (rt rs : Reg) (imm : HalfWord) (s : Machine)
    (e : TLBEntry) : Prop where
  picked : s.tlb.entryFor (accessAddress rs imm s) s.asid = some e
  present : ∃ i, s.tlb i = e
  valid : e.valid = true
  page : e.vpn = accessAddress rs imm s >>> 12
  space : e.asid = s.asid
  touches : Touches op rt rs imm s (e.physical (accessAddress rs imm s))

/-- User memory isolation for one load or store: it traps and changes nothing,
or its address is below `0x80000000` and it goes through a valid entry of that
page for the current address space. -/
def Isolated (op : IMemoryOp) (rt rs : Reg) (imm : HalfWord) (s : Machine) : Prop :=
  (∃ t, op.run rt rs imm s = .raise t s) ∨
  ((accessAddress rs imm s).toNat < 0x80000000 ∧ ∃ e, ThroughEntry op rt rs imm s e)

/-- The accesses that are isolated: to a user address whose entry, when there is
one, carries the current ASID, or to a kernel heap address without an entry. -/
def InUserPages (rs : Reg) (imm : HalfWord) (s : Machine) : Prop :=
  ((accessAddress rs imm s).toNat < 0x80000000 ∧
    ∀ e, s.tlb.entryFor (accessAddress rs imm s) s.asid = some e → e.asid = s.asid) ∨
  (0xC0000000 ≤ (accessAddress rs imm s).toNat ∧
    s.tlb.entryFor (accessAddress rs imm s) s.asid = none)

/-! ### The bytes an accessor touches -/

section Accessors

variable {m m' : Memory} {vaddr p : Word} {tlb : TLB} {asid : Byte}

/-- A read depends on its byte. -/
theorem read_congr {i : Nat} (h : m' i = m i) : m'.read i = m.read i := by
  simp [Memory.read, h]

/-- A write changes its byte, which is in the memory. -/
theorem write_ok_iff {i : Nat} {b : Byte} :
    m.write i b = .ok m' ↔ i < physMemSize ∧ m' = Function.update m i b := by
  by_cases hi : i < physMemSize <;> simp [Memory.write, hi, eq_comm]

/-- An assertion passes where it holds. -/
theorem hostAssert_ok_iff {c : Bool} {message : String} {u : Unit} :
    hostAssert c message = .ok u ↔ c = true := by
  cases c <;> simp [hostAssert]

/-- A loaded byte depends on the byte where it lies. -/
theorem getByte_congr (ht : tlb.translate vaddr .load asid = .ok p)
    (h : ∀ a, p.toNat ≤ a → a < p.toNat + 1 → m' a = m a) :
    m'.getByte vaddr tlb asid = m.getByte vaddr tlb asid := by
  have h0 := h p.toNat (by omega) (by omega)
  simp only [Memory.getByte, ht, Except.ok_bind, read_congr h0]

/-- A loaded half word depends on its two bytes. -/
theorem getHalfWord_congr (ht : tlb.translate vaddr .load asid = .ok p)
    (h : ∀ a, p.toNat ≤ a → a < p.toNat + 2 → m' a = m a) :
    m'.getHalfWord vaddr tlb asid = m.getHalfWord vaddr tlb asid := by
  have h0 := h p.toNat (by omega) (by omega)
  have h1 := h (p.toNat + 1) (by omega) (by omega)
  simp only [Memory.getHalfWord, ht, Except.ok_bind, read_congr h0, read_congr h1]

/-- A loaded word depends on its four bytes. -/
theorem getWord_congr (ht : tlb.translate vaddr .load asid = .ok p)
    (h : ∀ a, p.toNat ≤ a → a < p.toNat + 4 → m' a = m a) :
    m'.getWord vaddr tlb asid = m.getWord vaddr tlb asid := by
  have h0 := h p.toNat (by omega) (by omega)
  have h1 := h (p.toNat + 1) (by omega) (by omega)
  have h2 := h (p.toNat + 2) (by omega) (by omega)
  have h3 := h (p.toNat + 3) (by omega) (by omega)
  simp only [Memory.getWord, ht, Except.ok_bind, read_congr h0, read_congr h1,
    read_congr h2, read_congr h3]

/-- A stored byte changes the byte where it lies. -/
theorem setByte_ok_iff {b : Byte} (ht : tlb.translate vaddr .store asid = .ok p) :
    m.setByte vaddr b tlb asid = .ok m' ↔
      p.toNat < physMemSize ∧ m' = Function.update m p.toNat b := by
  simp only [Memory.setByte, ht, Except.ok_bind, write_ok_iff]

/-- A stored half word changes its two bytes. -/
theorem setHalfWord_ok_iff {h : HalfWord} (ht : tlb.translate vaddr .store asid = .ok p) :
    m.setHalfWord vaddr h tlb asid = .ok m' ↔
      (p % 2#32 == 0#32) = true ∧ p.toNat < physMemSize ∧ p.toNat + 1 < physMemSize ∧
      m' = Function.update (Function.update m p.toNat ((h >>> 8).setWidth 8))
        (p.toNat + 1) ((h &&& 0xFF#16).setWidth 8) := by
  simp only [Memory.setHalfWord, ht, Except.ok_bind, Except.bind_ok_iff, hostAssert_ok_iff,
    write_ok_iff]
  constructor
  · rintro ⟨-, hc, m1, ⟨h0, rfl⟩, h1, rfl⟩
    exact ⟨hc, h0, h1, rfl⟩
  · rintro ⟨hc, h0, h1, rfl⟩
    exact ⟨(), hc, _, ⟨h0, rfl⟩, h1, rfl⟩

/-- A stored word changes its four bytes. -/
theorem setWord_ok_iff {w : Word} (ht : tlb.translate vaddr .store asid = .ok p) :
    m.setWord vaddr w tlb asid = .ok m' ↔
      (p % 4#32 == 0#32) = true ∧ p.toNat + 3 < physMemSize ∧
      m' = Function.update (Function.update (Function.update (Function.update m
        p.toNat ((w >>> 24).setWidth 8))
        (p.toNat + 1) (((w >>> 16) &&& 0xFF#32).setWidth 8))
        (p.toNat + 2) (((w >>> 8) &&& 0xFF#32).setWidth 8))
        (p.toNat + 3) ((w &&& 0xFF#32).setWidth 8) := by
  simp only [Memory.setWord, ht, Except.ok_bind, Except.bind_ok_iff, hostAssert_ok_iff,
    write_ok_iff]
  constructor
  · rintro ⟨-, hc, m1, ⟨h0, rfl⟩, m2, ⟨h1, rfl⟩, m3, ⟨h2, rfl⟩, h3, rfl⟩
    exact ⟨hc, h3, rfl⟩
  · rintro ⟨hc, h3, rfl⟩
    exact ⟨(), hc, _, ⟨by omega, rfl⟩, _, ⟨by omega, rfl⟩, _, ⟨by omega, rfl⟩, h3, rfl⟩

end Accessors

/-! ### One load or store -/

/-- The continuation of an accessor that returned. -/
theorem ofAccess_next_iff {α : Type} {s s' : Machine} {r : Except Fault α}
    {k : α → Outcome Unit} :
    Outcome.ofAccess s r k = .next () s' ↔ ∃ a, r = .ok a ∧ k a = .next () s' := by
  unfold Outcome.ofAccess
  split <;> simp


/-- The translation that a load or store makes. -/
def accessTranslation (op : IMemoryOp) (rs : Reg) (imm : HalfWord) (s : Machine) :
    Except Fault Word :=
  s.tlb.translate (accessAddress rs imm s) op.lookupType s.asid

/-- A load or store whose translation misses throws the trap of the lookup. -/
theorem run_of_miss {op : IMemoryOp} {rt rs : Reg} {imm : HalfWord} {s : Machine} {t : Trap}
    (h : accessTranslation op rs imm s = .error (.trap t)) :
    op.run rt rs imm s = .raise t s := by
  cases op <;>
    simp only [accessTranslation, accessAddress, IMemoryOp.lookupType] at h <;>
    simp [IMemoryOp.run, Machine.store, Memory.getByte, Memory.getHalfWord, Memory.getWord,
      Memory.setByte, Memory.setHalfWord, Memory.setWord, h, Outcome.ofAccess]

/-- The computation does not end in a guest trap. -/
def NoTrap {α : Type} (r : Except Fault α) : Prop := ∀ t, r ≠ .error (.trap t)

section NoTrap

variable {α β : Type} {m : Memory} {i : Nat}

/-- A result is no trap. -/
theorem noTrap_ok {a : α} : NoTrap (.ok a) := by
  intro t h
  cases h

/-- A sequence does not trap if its parts do not. -/
theorem noTrap_bind {x : Except Fault α} {f : α → Except Fault β} (hx : NoTrap x)
    (hf : ∀ a, NoTrap (f a)) : NoTrap (x >>= f) := by
  cases x with
  | ok a => exact hf a
  | error e =>
      intro t h
      exact hx t (by simpa using h)

/-- A read does not trap. -/
theorem noTrap_read : NoTrap (m.read i) := by
  by_cases hi : i < physMemSize <;> simp [NoTrap, Memory.read, hi]

/-- Nor does a write. -/
theorem noTrap_write {b : Byte} : NoTrap (m.write i b) := by
  by_cases hi : i < physMemSize <;> simp [NoTrap, Memory.write, hi]

/-- Nor does an assertion. -/
theorem noTrap_assert {c : Bool} {message : String} : NoTrap (hostAssert c message) := by
  cases c <;> simp [NoTrap, hostAssert]

/-- An access that does not trap leaves the trap to what follows it. -/
theorem ofAccess_ne_raise {s s' : Machine} {r : Except Fault α} {k : α → Outcome Unit}
    {t : Trap} (hr : NoTrap r) (hk : ∀ a, k a ≠ .raise t s') :
    Outcome.ofAccess s r k ≠ .raise t s' := by
  cases r with
  | ok a => exact hk a
  | error e =>
      cases e with
      | trap t => exact absurd rfl (hr t)
      | _ => simp [Outcome.ofAccess]

end NoTrap

/-- After a successful translation a load or store throws no trap: it returns,
or the host process ends. -/
theorem run_ne_raise {op : IMemoryOp} {rt rs : Reg} {imm : HalfWord} {s s' : Machine} {t : Trap}
    {p : Word} (h : accessTranslation op rs imm s = .ok p) :
    op.run rt rs imm s ≠ .raise t s' := by
  cases op <;>
    refine ofAccess_ne_raise ?_ (fun _ => by simp) <;>
    simp only [accessTranslation, accessAddress, IMemoryOp.lookupType] at h <;>
    simp only [Memory.getByte, Memory.getHalfWord, Memory.getWord, Memory.setByte,
      Memory.setHalfWord, Memory.setWord, h, Except.ok_bind]
  case loadByte | loadByteUnsigned => exact noTrap_read
  case loadHalfword | loadHalfwordUnsigned =>
    exact noTrap_bind noTrap_assert fun _ => noTrap_bind noTrap_read fun _ =>
      noTrap_bind noTrap_read fun _ => noTrap_ok
  case loadWord | loadFPSingle =>
    exact noTrap_bind noTrap_assert fun _ => noTrap_bind noTrap_read fun _ =>
      noTrap_bind noTrap_read fun _ => noTrap_bind noTrap_read fun _ =>
      noTrap_bind noTrap_read fun _ => noTrap_ok
  case storeByte => exact noTrap_write
  case storeHalfword =>
    exact noTrap_bind noTrap_assert fun _ => noTrap_bind noTrap_write fun _ => noTrap_write
  case storeWord | storeFPSingle =>
    exact noTrap_bind noTrap_assert fun _ => noTrap_bind noTrap_write fun _ =>
      noTrap_bind noTrap_write fun _ => noTrap_bind noTrap_write fun _ => noTrap_write

section Touches

variable {op : IMemoryOp} {rt rs : Reg} {imm : HalfWord} {s : Machine} {p : Nat}

/-- A load touches the bytes its accessor reads. -/
theorem touches_of_load {α : Type} {get : Memory → Except Fault α}
    (assign : α → Machine → Machine)
    (hrun : ∀ m, op.run rt rs imm { s with memory := m } =
      Outcome.ofAccess { s with memory := m } (get m)
        fun a => .next () (assign a { s with memory := m }))
    (hget : ∀ m : Memory, (∀ a, p ≤ a → a < p + op.width → m a = s.memory a) →
      get m = get s.memory)
    (hmemory : ∀ a s, (assign a s).memory = s.memory)
    (hregs : ∀ a m, (assign a { s with memory := m }).registerFile = (assign a s).registerFile ∧
      (assign a { s with memory := m }).fpRegisterFile = (assign a s).fpRegisterFile) :
    Touches op rt rs imm s p where
  writes s' h a _ := by
    have hs := hrun s.memory
    rw [h] at hs
    obtain ⟨v, -, hv⟩ := ofAccess_next_iff.mp hs.symm
    cases hv
    rw [hmemory]
  reads s' h m hm := by
    have hs := hrun s.memory
    rw [h] at hs
    obtain ⟨v, hget', hv⟩ := ofAccess_next_iff.mp hs.symm
    cases hv
    refine ⟨assign v { s with memory := m }, ?_, hregs v m⟩
    rw [hrun m]
    exact ofAccess_next_iff.mpr ⟨v, by rw [hget m hm, hget'], rfl⟩

/-- A store touches the bytes its accessor writes. -/
theorem touches_of_store (set : Memory → Except Fault Memory)
    (hrun : ∀ m, op.run rt rs imm { s with memory := m } =
      ({ s with memory := m } : Machine).store (set m) fun s => .next () s)
    (hset : ∀ m m', set m = .ok m' →
      (∀ a, (a < p ∨ p + op.width ≤ a) → m' a = m a) ∧ ∀ m2, ∃ m2', set m2 = .ok m2') :
    Touches op rt rs imm s p where
  writes s' h a ha := by
    have hs := hrun s.memory
    rw [h] at hs
    obtain ⟨m', hset', hv⟩ := ofAccess_next_iff.mp hs.symm
    cases hv
    exact (hset _ _ hset').1 a ha
  reads s' h m _ := by
    have hs := hrun s.memory
    rw [h] at hs
    obtain ⟨m', hset', hv⟩ := ofAccess_next_iff.mp hs.symm
    cases hv
    obtain ⟨m2, hm2⟩ := (hset _ _ hset').2 m
    exact ⟨{ s with memory := m2 }, by rw [hrun m]; exact ofAccess_next_iff.mpr ⟨m2, hm2, rfl⟩,
      rfl, rfl⟩

end Touches

/-- What a store through `setByte`, `setHalfWord` or `setWord` does to memory:
nothing outside its bytes, and it succeeds on one memory when it does on another. -/
theorem setters_frame {tlb : TLB} {vaddr p : Word} {asid : Byte}
    (ht : tlb.translate vaddr .store asid = .ok p) :
    (∀ b m m', Memory.setByte m vaddr b tlb asid = .ok m' →
      (∀ a, (a < p.toNat ∨ p.toNat + 1 ≤ a) → m' a = m a) ∧
        ∀ m2, ∃ m2', Memory.setByte m2 vaddr b tlb asid = .ok m2') ∧
    (∀ h m m', Memory.setHalfWord m vaddr h tlb asid = .ok m' →
      (∀ a, (a < p.toNat ∨ p.toNat + 2 ≤ a) → m' a = m a) ∧
        ∀ m2, ∃ m2', Memory.setHalfWord m2 vaddr h tlb asid = .ok m2') ∧
    (∀ w m m', Memory.setWord m vaddr w tlb asid = .ok m' →
      (∀ a, (a < p.toNat ∨ p.toNat + 4 ≤ a) → m' a = m a) ∧
        ∀ m2, ∃ m2', Memory.setWord m2 vaddr w tlb asid = .ok m2') := by
  refine ⟨fun b m m' hok => ?_, fun h m m' hok => ?_, fun w m m' hok => ?_⟩
  · obtain ⟨h0, rfl⟩ := (setByte_ok_iff ht).mp hok
    refine ⟨fun a ha => ?_, fun m2 => ⟨_, (setByte_ok_iff ht).mpr ⟨h0, rfl⟩⟩⟩
    rw [Function.update_of_ne (by omega)]
  · obtain ⟨hc, h0, h1, rfl⟩ := (setHalfWord_ok_iff ht).mp hok
    refine ⟨fun a ha => ?_, fun m2 => ⟨_, (setHalfWord_ok_iff ht).mpr ⟨hc, h0, h1, rfl⟩⟩⟩
    rw [Function.update_of_ne (by omega), Function.update_of_ne (by omega)]
  · obtain ⟨hc, h3, rfl⟩ := (setWord_ok_iff ht).mp hok
    refine ⟨fun a ha => ?_, fun m2 => ⟨_, (setWord_ok_iff ht).mpr ⟨hc, h3, rfl⟩⟩⟩
    rw [Function.update_of_ne (by omega), Function.update_of_ne (by omega),
      Function.update_of_ne (by omega), Function.update_of_ne (by omega)]

/-- **One load or store.**  After a successful translation to `p` it touches
only the `width` bytes from `p` on. -/
theorem run_touches {op : IMemoryOp} {rt rs : Reg} {imm : HalfWord} {s : Machine} {p : Word}
    (h : accessTranslation op rs imm s = .ok p) : Touches op rt rs imm s p.toNat := by
  cases op with
  | loadByte =>
      exact touches_of_load (fun b s => s.setReg rt (b.signExtend 32))
        (fun _ => rfl) (fun m hm => getByte_congr h hm) (fun _ _ => rfl) (fun _ _ => ⟨rfl, rfl⟩)
  | loadByteUnsigned =>
      exact touches_of_load (fun b s => s.setReg rt (b.setWidth 32))
        (fun _ => rfl) (fun m hm => getByte_congr h hm) (fun _ _ => rfl) (fun _ _ => ⟨rfl, rfl⟩)
  | loadHalfword =>
      exact touches_of_load (fun v s => s.setReg rt (v.signExtend 32))
        (fun _ => rfl) (fun m hm => getHalfWord_congr h hm) (fun _ _ => rfl)
        (fun _ _ => ⟨rfl, rfl⟩)
  | loadHalfwordUnsigned =>
      exact touches_of_load (fun v s => s.setReg rt (v.setWidth 32))
        (fun _ => rfl) (fun m hm => getHalfWord_congr h hm) (fun _ _ => rfl)
        (fun _ _ => ⟨rfl, rfl⟩)
  | loadWord =>
      exact touches_of_load (fun w s => s.setReg rt w)
        (fun _ => rfl) (fun m hm => getWord_congr h hm) (fun _ _ => rfl) (fun _ _ => ⟨rfl, rfl⟩)
  | loadFPSingle =>
      exact touches_of_load (fun w s => s.setFp rt w)
        (fun _ => rfl) (fun m hm => getWord_congr h hm) (fun _ _ => rfl) (fun _ _ => ⟨rfl, rfl⟩)
  | storeByte =>
      let b : Byte := (s.registerFile rt).setWidth 8
      exact touches_of_store (fun m => m.setByte (accessAddress rs imm s) b s.tlb s.asid)
        (fun _ => rfl) ((setters_frame h).1 b)
  | storeHalfword =>
      let v : HalfWord := (s.registerFile rt).setWidth 16
      exact touches_of_store (fun m => m.setHalfWord (accessAddress rs imm s) v s.tlb s.asid)
        (fun _ => rfl) ((setters_frame h).2.1 v)
  | storeWord =>
      exact touches_of_store
        (fun m => m.setWord (accessAddress rs imm s) (s.registerFile rt) s.tlb s.asid)
        (fun _ => rfl) ((setters_frame h).2.2 _)
  | storeFPSingle =>
      exact touches_of_store
        (fun m => m.setWord (accessAddress rs imm s) (s.fpRegisterFile rt) s.tlb s.asid)
        (fun _ => rfl) ((setters_frame h).2.2 _)

/-- The entry that a lookup picks is one of the TLB and covers the address. -/
theorem entryFor_covers {tlb : TLB} {vaddr : Word} {asid : Byte} {e : TLBEntry}
    (h : tlb.entryFor vaddr asid = some e) :
    ∃ i, tlb i = e ∧ e.covers (vaddr >>> 12) asid = true := by
  obtain ⟨i, hi, rfl⟩ := Option.map_eq_some_iff.mp h
  have hcovers := List.find?_some hi
  exact ⟨i, rfl, hcovers⟩

/-- An entry that covers an address is valid. -/
theorem covers_valid {e : TLBEntry} {vpn : Word} {asid : Byte} (h : e.covers vpn asid = true) :
    e.valid = true := by
  simp only [TLBEntry.covers, Bool.and_eq_true] at h
  exact h.1.2

/-- It is for the address's page. -/
theorem covers_page {e : TLBEntry} {vpn : Word} {asid : Byte} (h : e.covers vpn asid = true) :
    e.vpn = vpn := by
  simp only [TLBEntry.covers, Bool.and_eq_true, beq_iff_eq] at h
  exact h.1.1.symm

/-- An isolated access stays in the user's pages: a trap comes from the
translation, so neither the direct map nor an entry has the address. -/
theorem Isolated.inUserPages {op : IMemoryOp} {rt rs : Reg} {imm : HalfWord} {s : Machine}
    (h : Isolated op rt rs imm s) : InUserPages rs imm s := by
  rcases h with ⟨t, ht⟩ | ⟨hlow, e, he⟩
  · have hno : ∀ p, accessTranslation op rs imm s ≠ .ok p := fun p hp => run_ne_raise hp ht
    cases hd : directMapped (accessAddress rs imm s) with
    | true => exact absurd ((translate_ok_iff ..).mpr (Or.inl ⟨hd, rfl⟩)) (hno _)
    | false =>
        cases he : s.tlb.entryFor (accessAddress rs imm s) s.asid with
        | some e =>
            exact absurd ((translate_ok_iff ..).mpr (Or.inr ⟨hd, e, he, rfl⟩)) (hno _)
        | none =>
            have hrange := (directMapped_iff (accessAddress rs imm s)).not.mp (by simp [hd])
            by_cases hlow : (accessAddress rs imm s).toNat < 0x80000000
            · exact Or.inl ⟨hlow, by simp [he]⟩
            · exact Or.inr ⟨by omega, he⟩
  · refine Or.inl ⟨hlow, fun e' he' => ?_⟩
    rw [he.picked] at he'
    cases he'
    exact he.space

/-- Outside the direct map an address without an entry traps. -/
theorem isolated_of_miss {op : IMemoryOp} {rt rs : Reg} {imm : HalfWord} {s : Machine}
    (hd : directMapped (accessAddress rs imm s) = false)
    (he : s.tlb.entryFor (accessAddress rs imm s) s.asid = none) : Isolated op rt rs imm s := by
  obtain ⟨t, ht⟩ : ∃ t, accessTranslation op rs imm s = .error (.trap t) := by
    simp [accessTranslation, TLB.translate, TLB.lookup, hd, he]
  exact Or.inl ⟨t, run_of_miss ht⟩

/-- An access to the user's own pages traps or goes through the entry found. -/
theorem InUserPages.isolated {op : IMemoryOp} {rt rs : Reg} {imm : HalfWord} {s : Machine}
    (h : InUserPages rs imm s) : Isolated op rt rs imm s := by
  rcases h with ⟨hlow, hspace⟩ | ⟨hhigh, he⟩
  · have hd : directMapped (accessAddress rs imm s) = false := by
      rw [← Bool.not_eq_true, directMapped_iff]
      omega
    cases he : s.tlb.entryFor (accessAddress rs imm s) s.asid with
    | none => exact isolated_of_miss hd he
    | some e =>
        have htrans := (translate_ok_iff s.tlb (accessAddress rs imm s) op.lookupType s.asid
          _).mpr (Or.inr ⟨hd, e, he, rfl⟩)
        obtain ⟨i, hi, hcovers⟩ := entryFor_covers he
        exact Or.inr ⟨hlow, e, he, ⟨i, hi⟩, covers_valid hcovers, covers_page hcovers,
          hspace e he, run_touches htrans⟩
  · refine isolated_of_miss ?_ he
    rw [← Bool.not_eq_true, directMapped_iff]
    omega

/-- **User memory isolation.**  In every state, with EXL clear or set, a load or
store is isolated exactly when it stays in the user's own pages or misses in the
kernel heap: STATUS is never consulted. -/
theorem isolated_iff (op : IMemoryOp) (rt rs : Reg) (imm : HalfWord) (s : Machine) :
    Isolated op rt rs imm s ↔ InUserPages rs imm s :=
  ⟨Isolated.inUserPages, InUserPages.isolated⟩

/-- Isolation fails: with EXL clear, a word load reads the kernel image at
`0x80000000` through the direct map. -/
theorem user_access_not_always_isolated :
    ¬ ∀ (op : IMemoryOp) (rt rs : Reg) (imm : HalfWord) (s : Machine),
      s.exl = false → Isolated op rt rs imm s := by
  intro h
  let s := (Machine.construct 0 0 (fun _ => 0) {}).setReg 1 0x80000000#32
  have hiso := (h .loadWord 2 1 0#16 s (by decide)).inUserPages
  have haddr : accessAddress 1 0#16 s = 0x80000000#32 := by decide
  simp [InUserPages, haddr] at hiso

end Hardware
