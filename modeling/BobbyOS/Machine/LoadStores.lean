import BobbyOS.Lib.WriteLog
import BobbyOS.Machine.UserIsolation

/-!
# The stores of a load

The stores that a load makes are a log of bytes at virtual addresses: bytes at
consecutive addresses (`bytesAt`), the bytes of a word (`wordBytes`) and those
of the arguments (`argumentsAt`).  On a machine without TLB entries only the
direct map is translated, so a load returns exactly when the addresses of its
log are in the memory, and what it leaves is the log applied to the memory
(`loadBytes_empty`, `setWord_empty`, `loadKernelElf_iff`).
-/

namespace Hardware

/-- The bytes at consecutive addresses. -/
def bytesAt : Word → List Byte → List (Word × Byte)
  | _, [] => []
  | address, b :: rest => (address, b) :: bytesAt (address + 1#32) rest

/-- The bytes of a word as `setWord` stores them. -/
def wordBytes (w : Word) : List Byte :=
  [(w >>> 24).setWidth 8, ((w >>> 16) &&& 0xFF#32).setWidth 8, ((w >>> 8) &&& 0xFF#32).setWidth 8,
    (w &&& 0xFF#32).setWidth 8]

/-- The bytes of the arguments. -/
def argumentsAt : Word → List (List Byte) → List (Word × Byte)
  | _, [] => []
  | indirectPtr, arg :: rest => bytesAt indirectPtr arg ++ argumentsAt (indirectPtr + 64#32) rest

/-- The index of a directly mapped address in the memory. -/
def physical (address : Word) : Nat := (address - 0x80000000#32).toNat

/-- The directly mapped addresses that are in the memory. -/
def InRam (address : Word) : Prop :=
  0x80000000 ≤ address.toNat ∧ address.toNat < 0x80000000 + physMemSize

instance (address : Word) : Decidable (InRam address) := inferInstanceAs (Decidable (_ ∧ _))

/-- Every address of a log is in the memory. -/
def AllInRam (log : List (Word × Byte)) : Prop := ∀ w ∈ log, InRam w.1

instance (log : List (Word × Byte)) : Decidable (AllInRam log) :=
  inferInstanceAs (Decidable (∀ w ∈ log, _))

/-- The memory after the stores of a log. -/
def stores (log : List (Word × Byte)) (m : Memory) : Memory :=
  WriteLog.apply m (log.map fun w => (physical w.1, w.2))

section Stores

variable {m m' : Memory} {address : Word} {log log' : List (Word × Byte)}

/-- The physical address behind a direct one. -/
theorem physical_eq (h : InRam address) : physical address = address.toNat - 0x80000000 := by
  obtain ⟨hlow, -⟩ := h
  rw [physical, BitVec.toNat_sub_of_le (by simpa [BitVec.le_def] using hlow)]
  rfl

/-- Two lists of stores are in the memory if both are. -/
theorem allInRam_append : AllInRam (log ++ log') ↔ AllInRam log ∧ AllInRam log' := by
  simp only [AllInRam, List.mem_append, or_imp, forall_and]

/-- Two lists of stores are made one after the other. -/
theorem stores_append : stores (log ++ log') m = stores log' (stores log m) := by
  rw [stores, List.map_append, WriteLog.apply_append]
  rfl

/-- Without TLB entries only the direct map is translated. -/
theorem translate_empty {p : Word} :
    TLB.empty.translate address .store 0 = .ok p ↔
      directMapped address = true ∧ p = address - 0x80000000#32 := by
  have hnone : TLB.empty.entryFor address 0 = none := by
    rw [TLB.entryFor, Option.map_eq_none_iff, List.find?_eq_none]
    simp [TLB.empty, TLBEntry.covers]
  rw [translate_ok_iff, hnone]
  simp

/-- An address in the memory is a direct one with a byte behind it. -/
theorem inRam_iff :
    InRam address ↔ directMapped address = true ∧ physical address < physMemSize := by
  rw [directMapped_iff, InRam]
  constructor
  · intro h
    rw [physical_eq h]
    unfold physMemSize at *
    omega
  · rintro ⟨⟨hlow, hhigh⟩, hlt⟩
    rw [physical, BitVec.toNat_sub_of_le (by simpa [BitVec.le_def] using hlow),
      show (0x80000000#32).toNat = 0x80000000 from rfl] at hlt
    omega

/-- With an empty TLB a byte is stored exactly in the memory. -/
theorem setByte_empty {b : Byte} :
    m.setByte address b TLB.empty 0 = .ok m' ↔
      InRam address ∧ m' = Function.update m (physical address) b := by
  rw [inRam_iff]
  constructor
  · intro h
    obtain ⟨p, hp, hwrite⟩ := Except.bind_ok_iff.mp h
    obtain ⟨hd, rfl⟩ := translate_empty.mp hp
    obtain ⟨hlt, rfl⟩ := write_ok_iff.mp hwrite
    exact ⟨⟨hd, hlt⟩, rfl⟩
  · rintro ⟨⟨hd, hlt⟩, rfl⟩
    exact (setByte_ok_iff (translate_empty.mpr ⟨hd, rfl⟩)).mpr ⟨hlt, rfl⟩

/-- **Bytes.**  A run of byte stores returns when all of them are in the memory. -/
theorem loadBytes_empty {bytes : List Byte} :
    loadBytes TLB.empty address bytes m = .ok m' ↔
      AllInRam (bytesAt address bytes) ∧ m' = stores (bytesAt address bytes) m := by
  induction bytes generalizing address m with
  | nil =>
      rw [loadBytes, bytesAt]
      simp [AllInRam, stores, WriteLog.apply, eq_comm]
  | cons b rest ih =>
      simp only [loadBytes, Except.bind_ok_iff, setByte_empty, ih, bytesAt, AllInRam,
        List.forall_mem_cons]
      constructor
      · rintro ⟨m1, ⟨hin, rfl⟩, hrest, rfl⟩
        exact ⟨⟨hin, hrest⟩, rfl⟩
      · rintro ⟨⟨hin, hrest⟩, rfl⟩
        exact ⟨_, ⟨hin, rfl⟩, hrest, rfl⟩

/-- With an empty TLB the arguments are stored exactly if they are all in the memory. -/
theorem loadArguments_empty {args : List (List Byte)} :
    loadArguments TLB.empty address args m = .ok m' ↔
      AllInRam (argumentsAt address args) ∧ m' = stores (argumentsAt address args) m := by
  induction args generalizing address m with
  | nil =>
      rw [loadArguments, argumentsAt]
      simp [AllInRam, stores, WriteLog.apply, eq_comm]
  | cons arg rest ih =>
      simp only [loadArguments, Except.bind_ok_iff, loadBytes_empty, ih, argumentsAt,
        allInRam_append, stores_append]
      constructor
      · rintro ⟨m1, ⟨hin, rfl⟩, hrest, rfl⟩
        exact ⟨⟨hin, hrest⟩, rfl⟩
      · rintro ⟨⟨hin, hrest⟩, rfl⟩
        exact ⟨_, ⟨hin, rfl⟩, hrest, rfl⟩

/-- An offset below the memory's size does not wrap. -/
theorem toNat_add_of_inRam (h : InRam address) {k : Nat} (hk : k ≤ physMemSize) :
    (address + BitVec.ofNat 32 k).toNat = address.toNat + k := by
  obtain ⟨-, hhigh⟩ := h
  unfold physMemSize at *
  rw [BitVec.toNat_add, BitVec.toNat_ofNat]
  omega

/-- The four bytes of a word. -/
theorem allInRam_word {w : Word} :
    AllInRam (bytesAt address (wordBytes w)) ↔
      InRam address ∧ address.toNat + 3 < 0x80000000 + physMemSize := by
  simp only [wordBytes, bytesAt, AllInRam, List.forall_mem_cons, List.not_mem_nil, false_implies,
    implies_true, and_true]
  have hadd : ∀ a : Word, a + 1#32 = a + BitVec.ofNat 32 1 := fun _ => rfl
  constructor
  · rintro ⟨h0, h1, h2, h3⟩
    have e1 := toNat_add_of_inRam h0 (k := 1) (by decide)
    have e2 := toNat_add_of_inRam h1 (k := 1) (by decide)
    have e3 := toNat_add_of_inRam h2 (k := 1) (by decide)
    refine ⟨h0, ?_⟩
    have := h3.2
    omega
  · rintro ⟨h0, hhigh⟩
    have e1 := toNat_add_of_inRam h0 (k := 1) (by decide)
    have h1 : InRam (address + 1#32) := ⟨by have := h0.1; omega, by omega⟩
    have e2 := toNat_add_of_inRam h1 (k := 1) (by decide)
    have h2 : InRam (address + 1#32 + 1#32) := ⟨by have := h1.1; omega, by omega⟩
    have e3 := toNat_add_of_inRam h2 (k := 1) (by decide)
    exact ⟨h0, h1, h2, by have := h2.1; omega, by omega⟩

/-- The physical address of an offset. -/
theorem physical_add (h : InRam address) {k : Nat} (hk : k ≤ physMemSize) :
    physical (address + BitVec.ofNat 32 k) = physical address + k := by
  have hadd := toNat_add_of_inRam h hk
  have hlow := h.1
  have hlow' : 0x80000000#32 ≤ address + BitVec.ofNat 32 k := by
    rw [BitVec.le_def, hadd, show (0x80000000#32).toNat = 0x80000000 from rfl]
    omega
  rw [physical_eq h, physical, BitVec.toNat_sub_of_le hlow', hadd,
    show (0x80000000#32).toNat = 0x80000000 from rfl]
  omega

/-- The loader's alignment test, on the address itself. -/
theorem aligned_iff (h : InRam address) :
    ((address - 0x80000000#32) % 4#32 == 0#32) = true ↔ address.toNat % 4 = 0 := by
  have hphys := physical_eq h
  have hlow := h.1
  rw [physical] at hphys
  rw [beq_iff_eq, ← BitVec.toNat_inj, BitVec.toNat_umod, hphys, show (4#32).toNat = 4 from rfl,
    show (0#32).toNat = 0 from rfl]
  omega

/-- The stores of `setWord`. -/
theorem stores_word {w : Word} (h : InRam address) :
    stores (bytesAt address (wordBytes w)) m =
      Function.update (Function.update (Function.update (Function.update m
        (physical address) ((w >>> 24).setWidth 8))
        (physical address + 1) (((w >>> 16) &&& 0xFF#32).setWidth 8))
        (physical address + 2) (((w >>> 8) &&& 0xFF#32).setWidth 8))
        (physical address + 3) ((w &&& 0xFF#32).setWidth 8) := by
  have h1 : physical (address + 1#32) = physical address + 1 := physical_add h (k := 1) (by decide)
  have h2 : physical (address + 1#32 + 1#32) = physical address + 2 := by
    rw [BitVec.add_assoc]
    exact physical_add h (k := 2) (by decide)
  have h3 : physical (address + 1#32 + 1#32 + 1#32) = physical address + 3 := by
    rw [BitVec.add_assoc, BitVec.add_assoc]
    exact physical_add h (k := 3) (by decide)
  simp only [wordBytes, bytesAt, stores, List.map_cons, List.map_nil, WriteLog.apply, h1, h2, h3]

/-- **Words.**  A word store returns when the word is aligned and in the memory. -/
theorem setWord_empty {w : Word} :
    m.setWord address w TLB.empty 0 = .ok m' ↔
      address.toNat % 4 = 0 ∧ AllInRam (bytesAt address (wordBytes w)) ∧
        m' = stores (bytesAt address (wordBytes w)) m := by
  rw [allInRam_word]
  constructor
  · intro h
    obtain ⟨p, hp, -⟩ := Except.bind_ok_iff.mp h
    obtain ⟨hd, rfl⟩ := translate_empty.mp hp
    obtain ⟨halign, hlt, rfl⟩ := (setWord_ok_iff hp).mp h
    have hphys : (address - 0x80000000#32).toNat = physical address := rfl
    rw [hphys] at hlt
    have hin : InRam address := inRam_iff.mpr ⟨hd, by omega⟩
    have hhigh : address.toNat + 3 < 0x80000000 + physMemSize := by
      have := physical_eq hin
      omega
    exact ⟨(aligned_iff hin).mp halign, ⟨hin, hhigh⟩, (stores_word hin).symm⟩
  · rintro ⟨halign, ⟨hin, hhigh⟩, rfl⟩
    have hp := translate_empty.mpr ⟨(inRam_iff.mp hin).1, rfl⟩
    refine (setWord_ok_iff hp).mpr ⟨(aligned_iff hin).mpr halign, ?_, stores_word hin⟩
    have hphys := physical_eq hin
    rw [physical] at hphys
    have hlow := hin.1
    omega

/-- Bytes behind bytes are at the addresses behind. -/
theorem bytesAt_append {bytes bytes' : List Byte} :
    bytesAt address (bytes ++ bytes') =
      bytesAt address bytes ++ bytesAt (address + BitVec.ofNat 32 bytes.length) bytes' := by
  induction bytes generalizing address with
  | nil => simp [bytesAt]
  | cons b bytes ih =>
      rw [List.cons_append, bytesAt, ih, bytesAt, List.cons_append, BitVec.add_assoc,
        List.length_cons, Nat.add_comm, BitVec.ofNat_add]

/-- The consecutive bytes that are in the memory. -/
theorem allInRam_bytesAt {bytes : List Byte} :
    AllInRam (bytesAt address bytes) ↔ bytes = [] ∨
      (0x80000000 ≤ address.toNat ∧ address.toNat + bytes.length ≤ 0x80000000 + physMemSize) := by
  induction bytes generalizing address with
  | nil => simp [bytesAt, AllInRam]
  | cons b rest ih =>
      rw [bytesAt, AllInRam, List.forall_mem_cons, ← AllInRam, ih, List.length_cons,
        or_iff_right (List.cons_ne_nil _ _)]
      constructor
      · rintro ⟨hin, hrest⟩
        replace hin : InRam address := hin
        have hnext : (address + 1#32).toNat = address.toNat + 1 :=
          toNat_add_of_inRam hin (by decide)
        obtain ⟨hlow, hhigh⟩ := hin
        rcases hrest with rfl | ⟨-, hrest⟩
        · simp only [List.length_nil]
          omega
        · omega
      · rintro ⟨hlow, hhigh⟩
        have hin : InRam address := ⟨hlow, by omega⟩
        have hnext : (address + 1#32).toNat = address.toNat + 1 :=
          toNat_add_of_inRam hin (by decide)
        exact ⟨hin, Or.inr ⟨by omega, by omega⟩⟩

/-- Where each of some bytes is stored. -/
theorem mem_bytesAt {bytes : List Byte} {w : Word × Byte} :
    w ∈ bytesAt address bytes ↔
      ∃ i, bytes[i]? = some w.2 ∧ w.1 = address + BitVec.ofNat 32 i := by
  induction bytes generalizing address with
  | nil => simp [bytesAt]
  | cons b rest ih =>
      rw [bytesAt, List.mem_cons, ih]
      constructor
      · rintro (rfl | ⟨i, hi, hw⟩)
        · exact ⟨0, rfl, by simp⟩
        · refine ⟨i + 1, by simpa using hi, ?_⟩
          rw [hw, BitVec.add_assoc, Nat.add_comm, BitVec.ofNat_add]
      · rintro ⟨i, hi, hw⟩
        cases i with
        | zero => exact Or.inl (Prod.ext (by simpa using hw) (by simpa [eq_comm] using hi))
        | succ i =>
            refine Or.inr ⟨i, by simpa using hi, ?_⟩
            rw [hw, BitVec.add_assoc, Nat.add_comm, BitVec.ofNat_add]

/-- Each of the bytes stored is in the memory. -/
theorem inRam_of_bytesAt {bytes : List Byte} (h : AllInRam (bytesAt address bytes)) {i : Nat}
    {b : Byte} (hb : bytes[i]? = some b) : InRam (address + BitVec.ofNat 32 i) :=
  h (address + BitVec.ofNat 32 i, b) (mem_bytesAt.mpr ⟨i, hb, rfl⟩)

/-- Different direct addresses are different bytes. -/
theorem physical_inj {a b : Word} (h : physical a = physical b) : a = b :=
  (BitVec.sub_left_inj 0x80000000#32).mp (BitVec.eq_of_toNat_eq h)

/-- The last store to an address is the last one to its byte. -/
theorem last_physical (log : List (Word × Byte)) (address : Word) :
    WriteLog.last (physical address) (log.map fun w => (physical w.1, w.2)) =
      WriteLog.last address log := by
  induction log with
  | nil => rfl
  | cons w log ih =>
      have hkey : physical w.1 = physical address ↔ w.1 = address :=
        ⟨physical_inj, congrArg physical⟩
      rw [List.map_cons, WriteLog.last, ih, WriteLog.last]
      simp only [hkey]

/-- The byte at an address is the last one stored there, or the old one. -/
theorem stores_eq : stores log m (physical address) =
    (WriteLog.last address log).getD (m (physical address)) := by
  rw [stores, WriteLog.apply_eq, last_physical]

/-- What is not stored to keeps its byte. -/
theorem stores_eq_of_not_mem (h : ∀ w ∈ log, w.1 ≠ address) :
    stores log m (physical address) = m (physical address) := by
  rw [stores_eq, WriteLog.last_eq_none_iff.mpr h, Option.getD_none]

/-- Two memories agree at an address after the same stores. -/
theorem stores_congr_iff :
    stores log m (physical address) = stores log m' (physical address) ↔
      (∃ w ∈ log, w.1 = address) ∨ m (physical address) = m' (physical address) := by
  rw [stores_eq, stores_eq]
  exact WriteLog.getD_last_congr_iff

/-- Consecutive bytes are found where they were stored. -/
theorem stores_bytesAt {bytes : List Byte} (hin : AllInRam (bytesAt address bytes)) {i : Nat}
    {b : Byte} (hb : bytes[i]? = some b) :
    stores (bytesAt address bytes) m (physical (address + BitVec.ofNat 32 i)) = b := by
  induction bytes generalizing address m i with
  | nil => simp at hb
  | cons b' rest ih =>
      obtain ⟨hfirst, hrest⟩ := List.forall_mem_cons.mp hin
      cases i with
      | zero =>
          obtain rfl : b' = b := by simpa using hb
          have hkeep : stores (bytesAt (address + 1#32) rest)
              (Function.update m (physical address) b') (physical address) = _ :=
            stores_eq_of_not_mem fun w hw heq => by
              obtain ⟨j, hj, hw'⟩ := mem_bytesAt.mp hw
              have hlen := (List.getElem?_eq_some_iff.mp hj).1
              rcases allInRam_bytesAt.mp hin with h | ⟨-, hhigh⟩
              · cases h
              rw [heq, BitVec.add_assoc, ← BitVec.ofNat_add] at hw'
              have hnat := toNat_add_of_inRam hfirst (k := 1 + j) (by
                simp only [List.length_cons] at hhigh
                have := hfirst.1
                dsimp only at this
                omega)
              dsimp only at hnat
              rw [← hw'] at hnat
              omega
          rw [show address + BitVec.ofNat 32 0 = address by simp]
          exact hkeep.trans (Function.update_self ..)
      | succ i =>
          have hnext := ih (m := Function.update m (physical address) b') hrest
            (by simpa using hb : rest[i]? = some b)
          rw [BitVec.add_assoc, show 1#32 = BitVec.ofNat 32 1 from rfl, ← BitVec.ofNat_add,
            Nat.add_comm] at hnext
          exact hnext

end Stores

/-! ### Kernels -/

/-- The stores that both loads make after the text. -/
def afterText (dataStart : Word) (data : List Byte) (argc argv : Word) (args : List (List Byte)) :
    List (Word × Byte) :=
  bytesAt dataStart data ++
    (bytesAt argc (wordBytes (BitVec.ofNat 32 args.length)) ++ argumentsAt argv args)

/-- The machine after a load that made the stores of `log`. -/
def loaded (s : Machine) (log : List (Word × Byte)) (trapEntry bootEntry : Word) : Machine :=
  { (s.setCp0 SYSRegister.STATUS 0b10#32) with
    memory := stores log s.memory, trapEntry := trapEntry, programCounter := bootEntry }

section Loads

variable {s s' : Machine} {args : List (List Byte)}

/-- What `loadKernel` does after the text. -/
theorem afterText_iff {m m' : Memory} {dataStart argc argv : Word} {data : List Byte} :
    (∃ m1, loadBytes TLB.empty dataStart data m = .ok m1 ∧
      ∃ m2, m1.setWord argc (BitVec.ofNat 32 args.length) TLB.empty 0 = .ok m2 ∧
        loadArguments TLB.empty argv args m2 = .ok m') ↔
      argc.toNat % 4 = 0 ∧ AllInRam (afterText dataStart data argc argv args) ∧
        m' = stores (afterText dataStart data argc argv args) m := by
  simp only [loadBytes_empty, setWord_empty, loadArguments_empty, afterText, allInRam_append,
    stores_append]
  constructor
  · rintro ⟨m1, ⟨hdata, rfl⟩, m2, ⟨halign, hargc, rfl⟩, hargs, rfl⟩
    exact ⟨halign, ⟨hdata, hargc, hargs⟩, rfl⟩
  · rintro ⟨halign, ⟨hdata, hargc, hargs⟩, rfl⟩
    exact ⟨_, ⟨hdata, rfl⟩, _, ⟨halign, hargc, rfl⟩, hargs, rfl⟩

/-- **Loading bytes.**  `loadKernel(kernelArgs)`. -/
theorem loadKernelElf_iff {elf : KernelElf} {log : List (Word × Byte)} (ht : s.tlb = TLB.empty)
    (hlog : log = bytesAt elf.textStart elf.kernelText ++
      afterText elf.dataStart elf.kernelData elf.argc elf.argv args) :
    s.loadKernelElf elf args = .ok s' ↔
      (elf.argc.toNat % 4 = 0 ∧ AllInRam log) ∧
        s' = loaded s log elf.trapEntry elf.bootEntry := by
  subst hlog
  rw [allInRam_append, loaded, stores_append]
  constructor
  · intro h
    obtain ⟨m0, h0, h⟩ := Except.bind_ok_iff.mp h
    obtain ⟨m1, h1, h⟩ := Except.bind_ok_iff.mp h
    obtain ⟨m2, h2, h⟩ := Except.bind_ok_iff.mp h
    obtain ⟨m3, h3, h⟩ := Except.bind_ok_iff.mp h
    obtain rfl := Except.ok.inj h
    rw [ht] at h0 h1 h2 h3
    obtain ⟨hin, rfl⟩ := loadBytes_empty.mp h0
    obtain ⟨hargc, hafter, rfl⟩ := afterText_iff.mp ⟨m1, h1, m2, h2, h3⟩
    exact ⟨⟨hargc, hin, hafter⟩, rfl⟩
  · rintro ⟨⟨hargc, hin, hafter⟩, rfl⟩
    have h0 := (loadBytes_empty (m := s.memory)).mpr ⟨hin, rfl⟩
    obtain ⟨m1, h1, m2, h2, h3⟩ := (afterText_iff
      (m := stores (bytesAt elf.textStart elf.kernelText) s.memory)).mpr ⟨hargc, hafter, rfl⟩
    rw [← ht] at h0 h1 h2 h3
    exact Except.bind_ok_iff.mpr ⟨_, h0, Except.bind_ok_iff.mpr ⟨_, h1,
      Except.bind_ok_iff.mpr ⟨_, h2, Except.bind_ok_iff.mpr ⟨_, h3, rfl⟩⟩⟩⟩

end Loads

end Hardware
