import BobbyOS.Machine.LoadStores

/-!
# The kernel loader of the server

`LoadKernel` loads the kernel into the machine of a connection one byte at a
time: each `run` makes one store and tells whether it wants to run again.  Its
first run also sets the trap entry, the program counter and STATUS.  It leaves
the rest of the machine as it finds it, while the blocking `loadKernel` is made
on a machine that was just constructed.

* `drive_eq` : driven to its end it makes the stores of the image.
* `matches_iff` : exactly which machines it leaves as a fresh one is left.
-/

namespace Server

open Hardware

/-- `LoadKernel::LoadState`. -/
inductive LoadState
  | TEXT | DATA | ARGUMENTS | COMPLETE
  deriving DecidableEq, Repr

/-- `LoadKernel`: the segment that it writes, and where it writes next. -/
structure LoadKernel where
  completedInit : Bool := false
  state : LoadState := .TEXT
  writeIdx : Word

namespace LoadKernel

variable (elf : KernelElf)

/-- The part under `!completedInit`. -/
def setUp (t : LoadKernel) (m : Machine) : LoadKernel × Machine :=
  if t.completedInit then (t, m)
  else
    ({ t with writeIdx := 0, completedInit := true },
      { (m.setCp0 SYSRegister.STATUS 0b10#32) with
        trapEntry := elf.trapEntry, programCounter := elf.bootEntry })

/-- `setByte(start + writeIdx, image.data()[writeIdx], tlb, 0)`. -/
def writeByte (start : Word) (image : List Byte) (writeIdx : Word) (m : Machine) :
    Except Fault Machine :=
  match image[writeIdx.toNat]? with
  | none => .error (.outOfBounds writeIdx.toNat)
  | some byte => do
      let memory ← m.memory.setByte (start + writeIdx) byte m.tlb 0
      .ok { m with memory }

/-- `LoadKernel::run` while the connection lives and the task has its machine. -/
def run (t : LoadKernel) (m : Machine) : Except Fault (Bool × LoadKernel × Machine) := do
  let (t, m) := t.setUp elf m
  match t.state with
  | .TEXT =>
      let m ← writeByte elf.textStart elf.kernelText t.writeIdx m
      let t := { t with writeIdx := t.writeIdx + 1#32 }
      if elf.kernelText.length ≤ t.writeIdx.toNat then
        .ok (true, { t with state := .DATA, writeIdx := 0 }, m)
      else .ok (true, t, m)
  | .DATA =>
      let m ← writeByte elf.dataStart elf.kernelData t.writeIdx m
      let t := { t with writeIdx := t.writeIdx + 1#32 }
      if elf.kernelData.length ≤ t.writeIdx.toNat then
        .ok (false, { t with state := .COMPLETE }, m)
      else .ok (true, t, m)
  | _ => .ok (false, t, m)

/-- `run` until it returns false, at most `fuel` times. -/
def drive : Nat → LoadKernel → Machine → Except Fault (Option Machine)
  | 0, _, _ => .ok none
  | fuel + 1, t, m => do
      let (again, t, m) ← t.run elf m
      if again then drive fuel t m else .ok (some m)

/-- The bytes of the image. -/
def imageLog : List (Word × Byte) :=
  bytesAt elf.textStart elf.kernelText ++ bytesAt elf.dataStart elf.kernelData

/-! ### One byte and all bytes -/

variable {elf : KernelElf} {m : Machine}

/-- The machine with the stores of a log made. -/
def withStores (m : Machine) (log : List (Word × Byte)) : Machine :=
  { m with memory := stores log m.memory }

/-- A byte of the direct map is stored whatever the TLB holds. -/
theorem writeByte_eq {start : Word} {image : List Byte} {i : Nat} {b : Byte}
    (hb : image[i]? = some b) (hi : i < 2 ^ 32) (hin : InRam (start + BitVec.ofNat 32 i)) :
    writeByte start image (BitVec.ofNat 32 i) m =
      .ok (withStores m [(start + BitVec.ofNat 32 i, b)]) := by
  obtain ⟨hd, hlt⟩ := inRam_iff.mp hin
  have hp : m.tlb.translate (start + BitVec.ofNat 32 i) .store 0 =
      .ok (start + BitVec.ofNat 32 i - 0x80000000#32) :=
    (translate_ok_iff _ _ _ _ _).mpr (Or.inl ⟨hd, rfl⟩)
  have hidx : (BitVec.ofNat 32 i).toNat = i := by
    rw [BitVec.toNat_ofNat, Nat.mod_eq_of_lt hi]
  simp only [writeByte, hidx, hb, (setByte_ok_iff hp).mpr ⟨hlt, rfl⟩, Except.ok_bind]
  rfl

/-- Two lists of stores one after the other. -/
theorem withStores_withStores (log log' : List (Word × Byte)) :
    withStores (withStores m log) log' = withStores m (log ++ log') := by
  rw [withStores, withStores, withStores, stores_append]

section Slices

variable {i : Nat} {b : Byte} {rest : List Byte}

/-- An image that is in the memory can be indexed by a word. -/
theorem length_le_of_allInRam {start : Word} {image : List Byte}
    (hin : AllInRam (bytesAt start image)) : image.length ≤ physMemSize := by
  rcases allInRam_bytesAt.mp hin with rfl | ⟨hlow, hhigh⟩
  · exact Nat.zero_le _
  · omega

/-- The next index does not wrap. -/
theorem succ_toNat (hi : i + 1 ≤ physMemSize) :
    BitVec.ofNat 32 i + 1#32 = BitVec.ofNat 32 (i + 1) ∧
      (BitVec.ofNat 32 (i + 1)).toNat = i + 1 := by
  unfold physMemSize at hi
  refine ⟨(BitVec.ofNat_add i 1).symm, ?_⟩
  rw [BitVec.toNat_ofNat]
  omega

/-- A slice of the text. -/
theorem run_text (hin : AllInRam (bytesAt elf.textStart elf.kernelText))
    (hb : elf.kernelText[i]? = some b) :
    run elf ⟨true, .TEXT, BitVec.ofNat 32 i⟩ m =
      .ok (true, if elf.kernelText.length ≤ i + 1 then ⟨true, .DATA, 0⟩
          else ⟨true, .TEXT, BitVec.ofNat 32 (i + 1)⟩,
        withStores m [(elf.textStart + BitVec.ofNat 32 i, b)]) := by
  have hlen := length_le_of_allInRam hin
  have hi := (List.getElem?_eq_some_iff.mp hb).1
  obtain ⟨hsucc, hnat⟩ := succ_toNat (i := i) (by omega)
  have hwrite := writeByte_eq (m := m) hb (by unfold physMemSize at hlen; omega)
    (inRam_of_bytesAt hin hb)
  simp only [run, setUp, if_true, hwrite, Except.ok_bind, hsucc, hnat]
  split <;> rfl

/-- A slice of the data; the last one ends the task. -/
theorem run_data (hin : AllInRam (bytesAt elf.dataStart elf.kernelData))
    (hb : elf.kernelData[i]? = some b) :
    run elf ⟨true, .DATA, BitVec.ofNat 32 i⟩ m =
      .ok (decide (i + 1 < elf.kernelData.length),
        if elf.kernelData.length ≤ i + 1 then ⟨true, .COMPLETE, BitVec.ofNat 32 (i + 1)⟩
          else ⟨true, .DATA, BitVec.ofNat 32 (i + 1)⟩,
        withStores m [(elf.dataStart + BitVec.ofNat 32 i, b)]) := by
  have hlen := length_le_of_allInRam hin
  have hi := (List.getElem?_eq_some_iff.mp hb).1
  obtain ⟨hsucc, hnat⟩ := succ_toNat (i := i) (by omega)
  have hwrite := writeByte_eq (m := m) hb (by unfold physMemSize at hlen; omega)
    (inRam_of_bytesAt hin hb)
  simp only [run, setUp, if_true, hwrite, Except.ok_bind, hsucc, hnat]
  by_cases hend : elf.kernelData.length ≤ i + 1
  · rw [if_pos hend, if_pos hend, decide_eq_false (by omega)]
  · rw [if_neg hend, if_neg hend, decide_eq_true (by omega)]

/-- One more byte written is one less to be written. -/
theorem bytesAt_split {start : Word} {done : List Byte} :
    [(start + BitVec.ofNat 32 done.length, b)] ++
        bytesAt (start + BitVec.ofNat 32 (done ++ [b]).length) rest =
      bytesAt (start + BitVec.ofNat 32 done.length) (b :: rest) := by
  rw [List.length_append, List.length_singleton, BitVec.ofNat_add, ← BitVec.add_assoc]
  rfl

/-- **The text.**  As many runs as bytes are left store them all. -/
theorem drive_text (done : List Byte) (hin : AllInRam (bytesAt elf.textStart elf.kernelText))
    (htext : elf.kernelText = done ++ b :: rest) (fuel : Nat) :
    drive elf (fuel + (rest.length + 1)) ⟨true, .TEXT, BitVec.ofNat 32 done.length⟩ m =
      drive elf fuel ⟨true, .DATA, 0⟩
        (withStores m (bytesAt (elf.textStart + BitVec.ofNat 32 done.length) (b :: rest))) := by
  induction rest generalizing done b m with
  | nil =>
      have hlen : elf.kernelText.length ≤ done.length + 1 := by simp [htext]
      have hb : elf.kernelText[done.length]? = some b := by simp [htext]
      rw [List.length_nil, drive, run_text hin hb, if_pos hlen]
      rfl
  | cons b' rest ih =>
      have hlen : ¬ elf.kernelText.length ≤ done.length + 1 := by simp [htext]
      have hb : elf.kernelText[done.length]? = some b := by simp [htext]
      have hnext := ih (b := b')
        (m := withStores m [(elf.textStart + BitVec.ofNat 32 done.length, b)]) (done ++ [b])
        (by simp [htext])
      rw [withStores_withStores, bytesAt_split, List.length_append, List.length_singleton] at hnext
      rw [List.length_cons, ← Nat.add_assoc, drive, run_text hin hb, if_neg hlen, Except.ok_bind]
      exact hnext

/-- **The data.**  The run that stores the last byte is the last. -/
theorem drive_data (done : List Byte) (hin : AllInRam (bytesAt elf.dataStart elf.kernelData))
    (hdata : elf.kernelData = done ++ b :: rest) (fuel : Nat) :
    drive elf (fuel + (rest.length + 1)) ⟨true, .DATA, BitVec.ofNat 32 done.length⟩ m =
      .ok (some
        (withStores m (bytesAt (elf.dataStart + BitVec.ofNat 32 done.length) (b :: rest)))) := by
  induction rest generalizing done b m with
  | nil =>
      have hend : ¬ done.length + 1 < elf.kernelData.length := by simp [hdata]
      have hb : elf.kernelData[done.length]? = some b := by simp [hdata]
      rw [List.length_nil, drive, run_data hin hb, decide_eq_false hend]
      rfl
  | cons b' rest ih =>
      have hmore : done.length + 1 < elf.kernelData.length := by simp [hdata]
      have hb : elf.kernelData[done.length]? = some b := by simp [hdata]
      have hnext := ih (b := b')
        (m := withStores m [(elf.dataStart + BitVec.ofNat 32 done.length, b)]) (done ++ [b])
        (by simp [hdata])
      rw [withStores_withStores, bytesAt_split, List.length_append, List.length_singleton] at hnext
      rw [List.length_cons, ← Nat.add_assoc, drive, run_data hin hb, decide_eq_true hmore,
        if_neg (by omega), Except.ok_bind]
      exact hnext

end Slices

/-- **The whole load.**  With an image in the memory, the task ends after as many
runs as the image has bytes, and has made its stores. -/
theorem drive_eq {fuel : Nat} (htext : elf.kernelText ≠ []) (hdata : elf.kernelData ≠ [])
    (hin : AllInRam (imageLog elf)) (writeIdx : Word)
    (hfuel : elf.kernelText.length + elf.kernelData.length ≤ fuel) :
    drive elf fuel { writeIdx } m =
      .ok (some (loaded m (imageLog elf) elf.trapEntry elf.bootEntry)) := by
  obtain ⟨b, text, hb⟩ := List.exists_cons_of_ne_nil htext
  obtain ⟨b', data, hb'⟩ := List.exists_cons_of_ne_nil hdata
  obtain ⟨hin1, hin2⟩ := allInRam_append.mp hin
  obtain ⟨more, rfl⟩ := Nat.exists_eq_add_of_le hfuel
  have hstart (k : Nat) : drive elf (k + 1) { writeIdx } m =
      drive elf (k + 1) ⟨true, .TEXT, 0⟩ { (m.setCp0 SYSRegister.STATUS 0b10#32) with
        trapEntry := elf.trapEntry, programCounter := elf.bootEntry } := rfl
  have hsplit : elf.kernelText.length + elf.kernelData.length + more =
      more + (data.length + 1) + (text.length + 1) := by
    rw [hb, hb', List.length_cons, List.length_cons]
    omega
  rw [hsplit, ← Nat.add_assoc, hstart, Nat.add_assoc]
  refine (drive_text [] hin1 hb _).trans ((drive_data [] hin2 hb' more).trans ?_)
  rw [← hb, ← hb', withStores_withStores, List.length_nil, BitVec.add_zero, BitVec.add_zero]
  rfl

/-! ### What is left of the machine before -/

/-- The machine is as a fresh one on which the kernel was loaded. -/
structure AsFresh (elf : KernelElf) (m fresh : Machine) : Prop where
  programCounter : m.programCounter = fresh.programCounter
  trapEntry : m.trapEntry = fresh.trapEntry
  registerFile : m.registerFile = fresh.registerFile
  /-- STATUS among them -/
  cp0 : m.cp0 = fresh.cp0
  tlb : m.tlb = fresh.tlb
  instructionCache : m.instructionCache = fresh.instructionCache
  killed : m.killed = fresh.killed
  text : ∀ i < elf.kernelText.length,
    m.memory (physical (elf.textStart + BitVec.ofNat 32 i)) =
      fresh.memory (physical (elf.textStart + BitVec.ofNat 32 i))
  data : ∀ i < elf.kernelData.length,
    m.memory (physical (elf.dataStart + BitVec.ofNat 32 i)) =
      fresh.memory (physical (elf.dataStart + BitVec.ofNat 32 i))
  argc : ∀ i < 4, m.memory (physical (elf.argc + BitVec.ofNat 32 i)) =
    fresh.memory (physical (elf.argc + BitVec.ofNat 32 i))

/-- The parts that the task does not touch are as the constructor leaves them,
and each byte of `argc` is zero in the image, or in the memory where the image
has none. -/
structure Untouched (elf : KernelElf) (m : Machine) : Prop where
  registerFile : ∀ r, m.registerFile r = 0
  cp0 : ∀ r, r ≠ SYSRegister.STATUS → m.cp0 r = 0
  tlb : m.tlb = TLB.empty
  instructionCache : m.instructionCache = {}
  killed : m.killed = false
  argc : ∀ i < 4, (WriteLog.last (elf.argc + BitVec.ofNat 32 i) (imageLog elf)).getD
    (m.memory (physical (elf.argc + BitVec.ofNat 32 i))) = 0

/-- **Loading again.**  Driven to its end, the task leaves a machine as a fresh
one is left exactly when the parts it does not touch were as in a fresh one. -/
theorem matches_iff {fuel : Nat} {pc trapEntry : Word} {memory : Memory} {host : Host}
    {fresh : Machine}
    (hfresh : (Machine.construct pc trapEntry memory host).loadKernelElf elf [] = .ok fresh)
    (htext : elf.kernelText ≠ []) (hdata : elf.kernelData ≠ []) (writeIdx : Word)
    (hfuel : elf.kernelText.length + elf.kernelData.length ≤ fuel) (m : Machine) :
    ∃ m', drive elf fuel { writeIdx } m = .ok (some m') ∧
      (AsFresh elf m' fresh ↔ Untouched elf m) := by
  obtain ⟨⟨-, hin⟩, rfl⟩ := (loadKernelElf_iff rfl rfl).mp hfresh
  have hlog : bytesAt elf.textStart elf.kernelText ++
      afterText elf.dataStart elf.kernelData elf.argc elf.argv [] =
      imageLog elf ++ bytesAt elf.argc [0, 0, 0, 0] := by
    simp only [afterText, argumentsAt, List.append_nil, imageLog, List.append_assoc]
    rfl
  rw [hlog] at hin ⊢
  obtain ⟨himage, hargc⟩ := allInRam_append.mp hin
  refine ⟨_, drive_eq htext hdata himage writeIdx hfuel, ?_⟩
  have hzero (i : Nat) (hi : i < 4) : stores (imageLog elf ++ bytesAt elf.argc [0, 0, 0, 0]) memory
      (physical (elf.argc + BitVec.ofNat 32 i)) = 0 := by
    have hbyte : ([0, 0, 0, 0] : List Byte)[i]? = some 0 := by
      revert i
      decide
    rw [stores_append]
    exact stores_bytesAt hargc hbyte
  constructor
  · intro h
    refine ⟨fun r => congrFun h.registerFile r, fun r hr => ?_, h.tlb, h.instructionCache, h.killed,
      fun i hi => ?_⟩
    · have hr' := congrFun h.cp0 r
      simpa only [loaded, Machine.setCp0, Machine.construct, Function.update_of_ne hr] using hr'
    · rw [← stores_eq]
      exact (h.argc i hi).trans (hzero i hi)
  · intro h
    have hargc0 (i : Nat) (hi : i < 4) : stores (imageLog elf) m.memory
        (physical (elf.argc + BitVec.ofNat 32 i)) = 0 := stores_eq.trans (h.argc i hi)
    -- where the image lies over `argc`, both have the zero
    have hsame (a : Word) (ha : ∃ w ∈ imageLog elf, w.1 = a) :
        stores (imageLog elf) m.memory (physical a) =
          stores (imageLog elf ++ bytesAt elf.argc [0, 0, 0, 0]) memory (physical a) := by
      by_cases hw : ∃ w ∈ bytesAt elf.argc [0, 0, 0, 0], w.1 = a
      · obtain ⟨w, hw, rfl⟩ := hw
        obtain ⟨i, hi, hkey⟩ := mem_bytesAt.mp hw
        have hlt := (List.getElem?_eq_some_iff.mp hi).1
        rw [hkey, hzero i hlt, hargc0 i hlt]
      · rw [stores_append, stores_eq_of_not_mem fun w hw' heq => hw ⟨w, hw', heq⟩]
        exact stores_congr_iff.mpr (Or.inl ha)
    refine ⟨rfl, rfl, funext h.registerFile, funext fun r => ?_, h.tlb, h.instructionCache, h.killed,
      fun i hi => hsame _ ?_, fun i hi => hsame _ ?_, fun i hi => (hargc0 i hi).trans
        (hzero i hi).symm⟩
    · by_cases hr : r = SYSRegister.STATUS
      · simp only [loaded, Machine.setCp0, hr, Function.update_self]
      · simpa only [loaded, Machine.setCp0, Machine.construct, Function.update_of_ne hr]
          using h.cp0 r hr
    · exact ⟨(_, elf.kernelText[i]), List.mem_append_left _
        (mem_bytesAt.mpr ⟨i, List.getElem?_eq_getElem hi, rfl⟩), rfl⟩
    · exact ⟨(_, elf.kernelData[i]), List.mem_append_right _
        (mem_bytesAt.mpr ⟨i, List.getElem?_eq_getElem hi, rfl⟩), rfl⟩

/-- A kernel of one instruction and one byte of data. -/
def oneInstruction : KernelElf where
  bootEntry := 0x80000000#32
  trapEntry := 0x80000000#32
  argc := 0x80000010#32
  argv := 0x80000014#32
  textStart := 0x80000000#32
  dataStart := 0x80000008#32
  kernelText := [0x42, 0, 0, 0x18]
  kernelData := [1]

/-- A machine that was just constructed on cleared memory is loaded as well by
the task. -/
theorem matches_constructed :
    ∃ fresh m',
      (Machine.construct 0 0 (fun _ => 0) {}).loadKernelElf oneInstruction [] = .ok fresh ∧
      drive oneInstruction 5 { writeIdx := 7 } (Machine.construct 0 0 (fun _ => 0) {}) =
        .ok (some m') ∧ AsFresh oneInstruction m' fresh := by
  have hok : ((Machine.construct 0 0 (fun _ => 0) {}).loadKernelElf oneInstruction []).isOk =
      true := by decide +kernel
  obtain ⟨fresh, hfresh⟩ := Except.exists_of_isOk hok
  obtain ⟨m', hdrive, hiff⟩ := matches_iff hfresh (by decide) (by decide) 7 (Nat.le_refl 5)
    (Machine.construct 0 0 (fun _ => 0) {})
  refine ⟨fresh, m', hfresh, hdrive, hiff.mpr ⟨fun _ => rfl, fun _ _ => rfl, rfl, rfl, rfl, ?_⟩⟩
  decide

/-- A machine that has halted stays halted. -/
theorem not_matches_killed :
    ∃ fresh m',
      (Machine.construct 0 0 (fun _ => 0) {}).loadKernelElf oneInstruction [] = .ok fresh ∧
      drive oneInstruction 5 { writeIdx := 7 }
        { Machine.construct 0 0 (fun _ => 0) {} with killed := true } = .ok (some m') ∧
      m'.killed = true ∧ ¬ AsFresh oneInstruction m' fresh := by
  have hok : ((Machine.construct 0 0 (fun _ => 0) {}).loadKernelElf oneInstruction []).isOk =
      true := by decide +kernel
  obtain ⟨fresh, hfresh⟩ := Except.exists_of_isOk hok
  have hin : AllInRam (imageLog oneInstruction) :=
    allInRam_append.mpr ⟨allInRam_bytesAt.mpr (Or.inr (by decide)),
      allInRam_bytesAt.mpr (Or.inr (by decide))⟩
  refine ⟨fresh, _, hfresh, drive_eq (by decide) (by decide) hin 7 (Nat.le_refl 5), rfl,
    fun h => ?_⟩
  obtain ⟨-, rfl⟩ := (loadKernelElf_iff rfl rfl).mp hfresh
  cases h.killed

end LoadKernel

end Server
