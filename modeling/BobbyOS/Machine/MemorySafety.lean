import BobbyOS.Machine.Memory

/-!
# When the memory accessors stay inside the host array

The accessors never compare the translated address with `PHYS_MEM_SIZE`, and a
misaligned halfword or word access fails a host `assert` whose message
announces a trap that does not exist yet.  This file characterises exactly
which accesses end in a value or a guest trap.

* `translate_ok_iff` reads a successful translation back: the direct map, or
  the frame of the first covering entry;
* `accessInMemory_iff` turns the condition on the virtual address into one on
  the physical address;
* `accessors_contained_iff` is the result for all six accessors.
-/

namespace Hardware

/-- The access ended in a value or in a guest trap: no host assertion failed
and no byte outside the host array was touched. -/
def Contained {α : Type} (r : Except Fault α) : Prop :=
  ∀ f, r = .error f → ∃ t, f = .trap t

/-- The accesses of `width` bytes at `vaddr` that the machine can serve: the
TLB has no entry for the page (a trap), or the address is a multiple of the
width and the physical bytes it stands for lie inside `physMem`. -/
def AccessInMemory (tlb : TLB) (asid : Byte) (vaddr : Word) (width : Nat) : Prop :=
  if directMapped vaddr then
    vaddr.toNat % width = 0 ∧ vaddr.toNat - 0x80000000 + width ≤ physMemSize
  else
    ∀ e, tlb.entryFor vaddr asid = some e →
      vaddr.toNat % width = 0 ∧
        e.pfn.toNat % 2 ^ 20 * pageSize + vaddr.toNat % pageSize + width ≤ physMemSize

/-- The physical address that a frame and a page offset make. -/
theorem frame_offset_toNat (pfn vaddr : Word) :
    ((pfn <<< 12) ||| (vaddr &&& 0xFFF#32)).toNat =
      pfn.toNat % 2 ^ 20 * pageSize + vaddr.toNat % pageSize := by
  have hframe : pfn.toNat <<< 12 % 2 ^ 32 = 2 ^ 12 * (pfn.toNat % 2 ^ 20) := by
    rw [Nat.shiftLeft_eq]
    omega
  have hoffset : vaddr.toNat &&& 4095 = vaddr.toNat % 2 ^ 12 :=
    Nat.and_two_pow_sub_one_eq_mod vaddr.toNat 12
  have hlt : vaddr.toNat % 2 ^ 12 < 2 ^ 12 := Nat.mod_lt _ (by decide)
  rw [BitVec.toNat_or, BitVec.toNat_shiftLeft, BitVec.toNat_and, hframe]
  rw [show (0xFFF#32 : Word).toNat = 4095 from rfl, hoffset,
    ← Nat.two_pow_add_eq_or_of_lt hlt]
  simp [pageSize, Nat.mul_comm]

/-- The addresses that are mapped directly, as numbers. -/
theorem directMapped_iff (vaddr : Word) :
    directMapped vaddr = true ↔ 0x80000000 ≤ vaddr.toNat ∧ vaddr.toNat < 0xC0000000 := by
  simp [directMapped, BitVec.le_def, BitVec.lt_def]

/-- A successful translation is the direct map or the first covering entry. -/
theorem translate_ok_iff (tlb : TLB) (vaddr : Word) (type : LookupType) (asid : Byte)
    (p : Word) :
    tlb.translate vaddr type asid = .ok p ↔
      (directMapped vaddr = true ∧ p = vaddr - 0x80000000#32) ∨
      (directMapped vaddr = false ∧ ∃ e, tlb.entryFor vaddr asid = some e ∧
        p = (e.pfn <<< 12) ||| (vaddr &&& 0xFFF#32)) := by
  unfold TLB.translate TLB.lookup
  cases hd : directMapped vaddr with
  | true => simp [eq_comm]
  | false =>
      cases he : tlb.entryFor vaddr asid with
      | none => simp [bind, Except.bind]
      | some e => simp [bind, Except.bind, eq_comm]

/-- A translation fails with a guest trap only. -/
theorem translate_contained (tlb : TLB) (vaddr : Word) (type : LookupType) (asid : Byte) :
    Contained (tlb.translate vaddr type asid) := by
  intro f hf
  unfold TLB.translate TLB.lookup at hf
  cases hd : directMapped vaddr with
  | true => simp [hd] at hf
  | false =>
      cases he : tlb.entryFor vaddr asid with
      | none =>
          simp [hd, he, bind, Except.bind] at hf
          exact ⟨_, hf.symm⟩
      | some e => simp [hd, he, bind, Except.bind] at hf

/-- Whether loads and stores of one address reach the same physical byte does
not depend on the kind of access. -/
theorem translate_ok_type {tlb : TLB} {vaddr : Word} {type : LookupType} (type' : LookupType)
    {asid : Byte} {p : Word} (h : tlb.translate vaddr type asid = .ok p) :
    tlb.translate vaddr type' asid = .ok p :=
  (translate_ok_iff tlb vaddr type' asid p).mpr ((translate_ok_iff tlb vaddr type asid p).mp h)

/-- The direct map only moves the addresses. -/
theorem directMapped_sub_toNat {vaddr : Word} (hd : directMapped vaddr = true) :
    (vaddr - 0x80000000#32).toNat = vaddr.toNat - 0x80000000 := by
  rw [BitVec.toNat_sub_of_le (by simpa [BitVec.le_def] using ((directMapped_iff vaddr).mp hd).1)]
  rfl

/-- A translation keeps the alignment. -/
theorem translate_mod {tlb : TLB} {vaddr : Word} {type : LookupType} {asid : Byte} {p : Word}
    {width : Nat} (hw : width ∣ pageSize) (h : tlb.translate vaddr type asid = .ok p) :
    p.toNat % width = vaddr.toNat % width := by
  obtain ⟨c, hc⟩ := hw
  rcases (translate_ok_iff tlb vaddr type asid p).mp h with ⟨hd, rfl⟩ | ⟨-, e, -, rfl⟩
  · have hrange := (directMapped_iff vaddr).mp hd
    have hbase : 0x80000000 = width * (c * 0x80000) := by
      rw [← Nat.mul_assoc, ← hc]
      rfl
    rw [directMapped_sub_toNat hd, hbase, Nat.sub_mul_mod (by omega)]
  · rw [frame_offset_toNat, hc, Nat.mul_comm, Nat.mul_assoc, Nat.mul_add_mod,
      Nat.mod_mul_right_mod]

/-- The condition on the virtual address, read at the physical address. -/
theorem accessInMemory_iff (tlb : TLB) (asid : Byte) (vaddr : Word) (type : LookupType)
    {width : Nat} (hw : width ∣ pageSize) :
    AccessInMemory tlb asid vaddr width ↔
      ∀ p, tlb.translate vaddr type asid = .ok p →
        p.toNat % width = 0 ∧ p.toNat + width ≤ physMemSize := by
  unfold AccessInMemory
  cases hd : directMapped vaddr with
  | true =>
      have hp := (translate_ok_iff tlb vaddr type asid _).mpr (Or.inl ⟨hd, rfl⟩)
      rw [if_pos rfl, ← translate_mod hw hp, ← directMapped_sub_toNat hd]
      simp [translate_ok_iff, hd]
  | false =>
      rw [if_neg Bool.false_ne_true]
      constructor
      · intro h p hp
        obtain ⟨e, he, rfl⟩ : ∃ e, tlb.entryFor vaddr asid = some e ∧
            p = (e.pfn <<< 12) ||| (vaddr &&& 0xFFF#32) := by
          simpa [translate_ok_iff, hd] using hp
        rw [translate_mod hw hp, frame_offset_toNat]
        exact h e he
      · intro h e he
        have hp := (translate_ok_iff tlb vaddr type asid _).mpr (Or.inr ⟨hd, e, he, rfl⟩)
        rw [← translate_mod hw hp, ← frame_offset_toNat]
        exact h _ hp

/-! ### Results of the primitive steps -/

@[simp] theorem contained_ok {α : Type} (a : α) : Contained (Except.ok a) := by
  intro f hf
  cases hf

/-- A host assertion is the only thing `hostAssert` can end in. -/
theorem contained_assert_bind_iff {α : Type} {c : Bool} {message : String}
    {k : Unit → Except Fault α} :
    Contained (hostAssert c message >>= k) ↔ c = true ∧ Contained (k ()) := by
  cases c with
  | true => simp [hostAssert, bind, Except.bind]
  | false => simp [hostAssert, bind, Except.bind, Contained]

/-- A read and what follows it stay inside if the byte is in the memory and the rest does. -/
theorem contained_read_bind_iff {α : Type} {m : Memory} {i : Nat} {k : Byte → Except Fault α} :
    Contained (m.read i >>= k) ↔ i < physMemSize ∧ Contained (k (m i)) := by
  by_cases hi : i < physMemSize
  · simp [Memory.read, hi, bind, Except.bind]
  · simp [Memory.read, hi, bind, Except.bind, Contained]

/-- A read stays inside exactly in the memory. -/
theorem contained_read_iff {m : Memory} {i : Nat} :
    Contained (m.read i) ↔ i < physMemSize := by
  by_cases hi : i < physMemSize <;> simp [Memory.read, hi, Contained]

/-- A write and what follows it stay inside if the byte is in the memory and the rest does. -/
theorem contained_write_bind_iff {α : Type} {m : Memory} {i : Nat} {b : Byte}
    {k : Memory → Except Fault α} :
    Contained (m.write i b >>= k) ↔
      i < physMemSize ∧ Contained (k (Function.update m i b)) := by
  by_cases hi : i < physMemSize
  · simp [Memory.write, hi, bind, Except.bind]
  · simp [Memory.write, hi, bind, Except.bind, Contained]

/-- A write stays inside exactly in the memory. -/
theorem contained_write_iff {m : Memory} {i : Nat} {b : Byte} :
    Contained (m.write i b) ↔ i < physMemSize := by
  by_cases hi : i < physMemSize <;> simp [Memory.write, hi, Contained]

/-- An accessor is contained exactly when its continuation is at every
physical address the translation can give. -/
theorem contained_translate_bind_iff {α : Type} {tlb : TLB} {vaddr : Word}
    {type : LookupType} {asid : Byte} {k : Word → Except Fault α} :
    Contained (tlb.translate vaddr type asid >>= k) ↔
      ∀ p, tlb.translate vaddr type asid = .ok p → Contained (k p) := by
  cases ht : tlb.translate vaddr type asid with
  | error f =>
      have hcontained := translate_contained tlb vaddr type asid
      rw [ht] at hcontained
      simpa [bind, Except.bind, Contained] using hcontained
  | ok p => simp [bind, Except.bind]

/-- The alignment test, on numbers. -/
theorem word_mod_beq_zero (p : Word) (n : Nat) (hlt : n < 2 ^ 32) :
    (p % BitVec.ofNat 32 n == 0#32) = true ↔ p.toNat % n = 0 := by
  have hmod : (p % BitVec.ofNat 32 n).toNat = p.toNat % n := by
    rw [BitVec.toNat_umod, BitVec.toNat_ofNat, Nat.mod_eq_of_lt hlt]
  rw [beq_iff_eq, ← BitVec.toNat_inj, hmod]
  rfl

/-! ### The six accessors -/

/-- `getByte` stays inside exactly if its byte is in the memory. -/
theorem getByte_contained_iff (m : Memory) (vaddr : Word) (tlb : TLB) (asid : Byte) :
    Contained (m.getByte vaddr tlb asid) ↔ AccessInMemory tlb asid vaddr 1 := by
  rw [accessInMemory_iff tlb asid vaddr .load (by decide), Memory.getByte,
    contained_translate_bind_iff]
  simp only [contained_read_iff, Nat.mod_one, true_and]
  rfl

/-- `getHalfWord` does if its two bytes are, and they are aligned. -/
theorem getHalfWord_contained_iff (m : Memory) (vaddr : Word) (tlb : TLB) (asid : Byte) :
    Contained (m.getHalfWord vaddr tlb asid) ↔ AccessInMemory tlb asid vaddr 2 := by
  rw [accessInMemory_iff tlb asid vaddr .load (by decide), Memory.getHalfWord,
    contained_translate_bind_iff]
  refine forall₂_congr fun p _ => ?_
  rw [contained_assert_bind_iff, contained_read_bind_iff, contained_read_bind_iff,
    word_mod_beq_zero p 2 (by decide)]
  simp only [contained_ok, and_true]
  omega

/-- `getWord` does if its four bytes are. -/
theorem getWord_contained_iff (m : Memory) (vaddr : Word) (tlb : TLB) (asid : Byte) :
    Contained (m.getWord vaddr tlb asid) ↔ AccessInMemory tlb asid vaddr 4 := by
  rw [accessInMemory_iff tlb asid vaddr .load (by decide), Memory.getWord,
    contained_translate_bind_iff]
  refine forall₂_congr fun p _ => ?_
  rw [contained_assert_bind_iff, contained_read_bind_iff, contained_read_bind_iff,
    contained_read_bind_iff, contained_read_bind_iff,
    word_mod_beq_zero p 4 (by decide)]
  simp only [contained_ok, and_true]
  omega

/-- `setByte` does if its byte is. -/
theorem setByte_contained_iff (m : Memory) (vaddr : Word) (b : Byte) (tlb : TLB)
    (asid : Byte) :
    Contained (m.setByte vaddr b tlb asid) ↔ AccessInMemory tlb asid vaddr 1 := by
  rw [accessInMemory_iff tlb asid vaddr .store (by decide), Memory.setByte,
    contained_translate_bind_iff]
  simp only [contained_write_iff, Nat.mod_one, true_and]
  rfl

/-- `setHalfWord` does if its two bytes are. -/
theorem setHalfWord_contained_iff (m : Memory) (vaddr : Word) (h : HalfWord) (tlb : TLB)
    (asid : Byte) :
    Contained (m.setHalfWord vaddr h tlb asid) ↔ AccessInMemory tlb asid vaddr 2 := by
  rw [accessInMemory_iff tlb asid vaddr .store (by decide), Memory.setHalfWord,
    contained_translate_bind_iff]
  refine forall₂_congr fun p _ => ?_
  rw [contained_assert_bind_iff, contained_write_bind_iff, contained_write_iff,
    word_mod_beq_zero p 2 (by decide)]
  omega

/-- `setWord` does if its four bytes are. -/
theorem setWord_contained_iff (m : Memory) (vaddr : Word) (w : Word) (tlb : TLB)
    (asid : Byte) :
    Contained (m.setWord vaddr w tlb asid) ↔ AccessInMemory tlb asid vaddr 4 := by
  rw [accessInMemory_iff tlb asid vaddr .store (by decide), Memory.setWord,
    contained_translate_bind_iff]
  refine forall₂_congr fun p _ => ?_
  rw [contained_assert_bind_iff, contained_write_bind_iff, contained_write_bind_iff,
    contained_write_bind_iff, contained_write_iff,
    word_mod_beq_zero p 4 (by decide)]
  omega

/-- **Containment of guest memory accesses.**  For every memory, TLB, ASID and
address, each accessor ends in a value or a guest trap exactly when the access
is a TLB miss, or is aligned and stands for bytes inside `physMem`. -/
theorem accessors_contained_iff (m : Memory) (tlb : TLB) (asid : Byte) (vaddr : Word) :
    (Contained (m.getByte vaddr tlb asid) ↔ AccessInMemory tlb asid vaddr 1) ∧
    (Contained (m.getHalfWord vaddr tlb asid) ↔ AccessInMemory tlb asid vaddr 2) ∧
    (Contained (m.getWord vaddr tlb asid) ↔ AccessInMemory tlb asid vaddr 4) ∧
    (∀ b, Contained (m.setByte vaddr b tlb asid) ↔ AccessInMemory tlb asid vaddr 1) ∧
    (∀ h, Contained (m.setHalfWord vaddr h tlb asid) ↔ AccessInMemory tlb asid vaddr 2) ∧
    (∀ w, Contained (m.setWord vaddr w tlb asid) ↔ AccessInMemory tlb asid vaddr 4) :=
  ⟨getByte_contained_iff m vaddr tlb asid, getHalfWord_contained_iff m vaddr tlb asid,
    getWord_contained_iff m vaddr tlb asid, fun b => setByte_contained_iff m vaddr b tlb asid,
    fun h => setHalfWord_contained_iff m vaddr h tlb asid,
    fun w => setWord_contained_iff m vaddr w tlb asid⟩

/-- Containment fails: with an empty TLB a byte load at `0x80500000`, the first
address past the end of the direct-mapped memory, leaves the host array. -/
theorem accessors_not_always_contained :
    ¬ ∀ (m : Memory) (tlb : TLB) (asid : Byte) (vaddr : Word),
      Contained (m.getByte vaddr tlb asid) ∧ Contained (m.getHalfWord vaddr tlb asid) ∧
      Contained (m.getWord vaddr tlb asid) ∧
      (∀ b, Contained (m.setByte vaddr b tlb asid)) ∧
      (∀ h, Contained (m.setHalfWord vaddr h tlb asid)) ∧
      (∀ w, Contained (m.setWord vaddr w tlb asid)) := by
  intro h
  have hbyte := (h (fun _ => 0) TLB.empty 0 0x80500000#32).1
  have hin := (getByte_contained_iff _ _ _ _).mp hbyte
  revert hin
  simp [AccessInMemory, directMapped, physMemSize]

end Hardware
