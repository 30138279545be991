import BobbyOS.Machine.LoadStores
import Mathlib.Tactic.IntervalCases

/-!
# The two ways into the machine

A kernel image reaches the memory either through `KernelLoader`, which regroups
the bytes of the text section into words and has the machine store these again,
or through `kelfparse.py`, which writes every byte as a literal into the header
`KernelElf.h`, from where the machine copies them.  `KernelLoader` reads as many
words as fit into the section, so it drops up to three bytes at its end.

* `literals_hexPair` : the literals of the header are the bytes of the section.
* `loadKernel_iff` : big-endian words are stored as the bytes they were made of.
* `sameLoad_iff` : exactly when the two loads of one image agree.
-/

namespace FileLoader

open Hardware

/-- `ELFDATA2LSB` and `ELFDATA2MSB`. -/
inductive Encoding
  | lsb | msb
  deriving DecidableEq, Repr

/-- A section: `sh_addr` and its bytes. -/
structure ElfSection where
  address : Word
  bytes : List Byte

/-- What the two readers take from a kernel image, the symbols in the order of
the symbol table. -/
structure Elf where
  entry : Word
  encoding : Encoding
  symbols : List (String × Word)
  text : ElfSection
  data : ElfSection

/-! ### `KernelLoader` -/

/-- A word of the text section in the encoding of the file. -/
def regroup (encoding : Encoding) (p0 p1 p2 p3 : Byte) : Word :=
  match encoding with
  | .lsb => p0.setWidth 32 ||| (p1.setWidth 32 <<< 8) ||| (p2.setWidth 32 <<< 16) |||
      (p3.setWidth 32 <<< 24)
  | .msb => (p0.setWidth 32 <<< 24) ||| (p1.setWidth 32 <<< 16) ||| (p2.setWidth 32 <<< 8) |||
      p3.setWidth 32

/-- The `sz / sizeof(unsigned int)` words of a section. -/
def regroupWords (encoding : Encoding) : List Byte → List Word
  | p0 :: p1 :: p2 :: p3 :: rest => regroup encoding p0 p1 p2 p3 :: regroupWords encoding rest
  | _ => []

/-- The body of the loop over the symbols. -/
def readSymbol (info : KernelBootInformation) (symbol : String × Word) : KernelBootInformation :=
  if symbol.1 = "kernel_trap" then { info with trapEntry := symbol.2 }
  else if symbol.1 = "argc" then { info with argc := symbol.2 }
  else if symbol.1 = "argv" then { info with argv := symbol.2 }
  else info

/-- `KernelLoader(path)` on a file that could be read; `kernelInfo` holds the
fields that nothing has set yet. -/
def kernelLoader (elf : Elf) (kernelInfo : KernelBootInformation) : KernelBootInformation :=
  { elf.symbols.foldl readSymbol { kernelInfo with bootEntry := elf.entry } with
    textStart := elf.text.address
    text := regroupWords elf.encoding elf.text.bytes
    dataStart := elf.data.address
    data := elf.data.bytes }

/-! ### `kelfparse.py` -/

/-- The body of the loop over the symbols, on the dictionary `syms`. -/
def addSymbol (syms : String → Option Word) (symbol : String × Word) : String → Option Word :=
  if symbol.1 ∈ ["kernel_trap", "argc", "argv"] then Function.update syms symbol.1 (some symbol.2)
  else syms

/-- The two digits of a byte in `bytes.hex()`. -/
def hexPair (b : Byte) : List Char := [Nat.digitChar (b.toNat / 16), Nat.digitChar (b.toNat % 16)]

/-- `"0x" + s[i:i+2]` for every second `i`. -/
def literals : List Char → List (List Char)
  | c0 :: c1 :: rest => ['0', 'x', c0, c1] :: literals rest
  | [c0] => [['0', 'x', c0]]
  | [] => []

/-- The dictionary that `extract_info` returns. -/
structure Info where
  entry : Word
  textStart : Word
  dataStart : Word
  text : List (List Char)
  data : List (List Char)
  trapEntry : Word
  argc : Word
  argv : Word

/-- `extract_info`: a missing symbol is a `KeyError`. -/
def extractInfo (elf : Elf) : Option Info := do
  let syms := elf.symbols.foldl addSymbol fun _ => none
  let trapEntry ← syms "kernel_trap"
  let argc ← syms "argc"
  let argv ← syms "argv"
  some { entry := elf.entry
         textStart := elf.text.address
         dataStart := elf.data.address
         text := literals (elf.text.bytes.flatMap hexPair)
         data := literals (elf.data.bytes.flatMap hexPair)
         trapEntry, argc, argv }

/-- The value of a hexadecimal digit. -/
def digitValue (c : Char) : Nat := if c ≤ '9' then c.toNat - '0'.toNat else c.toNat - 'a'.toNat + 10

/-- The `uint8_t` that the compiler reads from a literal. -/
def literalValue : List Char → Byte
  | '0' :: 'x' :: digits => BitVec.ofNat 8 (digits.foldl (fun v c => 16 * v + digitValue c) 0)
  | _ => 0

/-- The constants that `format_and_write` puts into the header. -/
def formatAndWrite (info : Info) : KernelElf where
  bootEntry := info.entry
  trapEntry := info.trapEntry
  argc := info.argc
  argv := info.argv
  textStart := info.textStart
  dataStart := info.dataStart
  kernelText := info.text.map literalValue
  kernelData := info.data.map literalValue

/-! ### What the readers extract -/

/-- A byte is read back from its literal. -/
theorem literalValue_hexPair (b : Byte) :
    literalValue ['0', 'x', Nat.digitChar (b.toNat / 16), Nat.digitChar (b.toNat % 16)] = b := by
  revert b
  decide +kernel

/-- **The literals are the bytes of the section.** -/
theorem literals_hexPair (bytes : List Byte) :
    (literals (bytes.flatMap hexPair)).map literalValue = bytes := by
  induction bytes with
  | nil => rfl
  | cons b bytes ih =>
      rw [List.flatMap_cons, hexPair, List.cons_append, List.cons_append, List.nil_append, literals,
        List.map_cons, ih, literalValue_hexPair]

/-- The fields hold what the dictionary has. -/
structure Reads (syms : String → Option Word) (info : KernelBootInformation) : Prop where
  trapEntry : ∀ v, syms "kernel_trap" = some v → info.trapEntry = v
  argc : ∀ v, syms "argc" = some v → info.argc = v
  argv : ∀ v, syms "argv" = some v → info.argv = v

/-- One more symbol is read. -/
theorem Reads.step {syms : String → Option Word} {info : KernelBootInformation}
    (h : Reads syms info) (symbol : String × Word) :
    Reads (addSymbol syms symbol) (readSymbol info symbol) := by
  obtain ⟨name, value⟩ := symbol
  obtain ⟨htrap, hargc, hargv⟩ := h
  by_cases h1 : name = "kernel_trap"
  · subst h1
    constructor <;> simp_all [addSymbol, readSymbol]
  by_cases h2 : name = "argc"
  · subst h2
    constructor <;> simp_all [addSymbol, readSymbol]
  by_cases h3 : name = "argv"
  · subst h3
    constructor <;> simp_all [addSymbol, readSymbol]
  · have hadd : addSymbol syms (name, value) = syms := if_neg (by simp [h1, h2, h3])
    have hread : readSymbol info (name, value) = info := by simp [readSymbol, h1, h2, h3]
    rw [hadd, hread]
    exact ⟨htrap, hargc, hargv⟩

/-- All the symbols are read. -/
theorem reads_foldl {syms : String → Option Word} {info : KernelBootInformation}
    (h : Reads syms info) (symbols : List (String × Word)) :
    Reads (symbols.foldl addSymbol syms) (symbols.foldl readSymbol info) := by
  induction symbols generalizing syms info with
  | nil => exact h
  | cons symbol symbols ih => exact ih (h.step symbol)

/-- The other fields are not read from the symbols. -/
theorem bootEntry_foldl (info : KernelBootInformation) (symbols : List (String × Word)) :
    (symbols.foldl readSymbol info).bootEntry = info.bootEntry := by
  induction symbols generalizing info with
  | nil => rfl
  | cons symbol symbols ih =>
      rw [List.foldl_cons, ih, readSymbol]
      split
      · rfl
      split
      · rfl
      split <;> rfl

/-- **What is extracted.**  Both readers find the same entry points, addresses
and data; one has all bytes of the text, the other the whole words. -/
theorem extracted {elf : Elf} {info : Info} (h : extractInfo elf = some info)
    (kernelInfo : KernelBootInformation) :
    formatAndWrite info =
      { bootEntry := (kernelLoader elf kernelInfo).bootEntry
        trapEntry := (kernelLoader elf kernelInfo).trapEntry
        argc := (kernelLoader elf kernelInfo).argc
        argv := (kernelLoader elf kernelInfo).argv
        textStart := elf.text.address
        dataStart := elf.data.address
        kernelText := elf.text.bytes
        kernelData := elf.data.bytes } := by
  have hreads : Reads (elf.symbols.foldl addSymbol fun _ => none)
      (elf.symbols.foldl readSymbol { kernelInfo with bootEntry := elf.entry }) :=
    reads_foldl (by constructor <;> simp) _
  have hentry := bootEntry_foldl { kernelInfo with bootEntry := elf.entry } elf.symbols
  simp only [extractInfo, Option.bind_eq_bind, Option.bind_eq_some_iff, Option.some.injEq] at h
  obtain ⟨trapEntry, htrap, argc, hargc, argv, hargv, rfl⟩ := h
  simp only [formatAndWrite, kernelLoader, literals_hexPair, hreads.trapEntry _ htrap,
    hreads.argc _ hargc, hreads.argv _ hargv, hentry]

/-! ### Words and bytes -/

section Words

variable {m m' : Memory} {address : Word}

/-- The bytes that fill whole words. -/
def wholeWords (bytes : List Byte) : List Byte := bytes.take (4 * (bytes.length / 4))

/-- A whole word is kept. -/
theorem wholeWords_cons {p0 p1 p2 p3 : Byte} {rest : List Byte} :
    wholeWords (p0 :: p1 :: p2 :: p3 :: rest) = p0 :: p1 :: p2 :: p3 :: wholeWords rest := by
  have hlen : 4 * ((p0 :: p1 :: p2 :: p3 :: rest).length / 4) = 4 * (rest.length / 4) + 4 := by
    simp only [List.length_cons]
    omega
  rw [wholeWords, hlen]
  rfl

/-- A big-endian word is stored as the bytes it was made of. -/
theorem wordBytes_regroup (p0 p1 p2 p3 : Byte) :
    wordBytes (regroup .msb p0 p1 p2 p3) = [p0, p1, p2, p3] := by
  have h0 : (regroup .msb p0 p1 p2 p3 >>> 24).setWidth 8 = p0 := by
    refine BitVec.eq_of_getLsbD_eq fun i hi => ?_
    rw [regroup]
    interval_cases i <;> simp
  have h1 : (regroup .msb p0 p1 p2 p3 >>> 16 &&& 0xFF#32).setWidth 8 = p1 := by
    refine BitVec.eq_of_getLsbD_eq fun i hi => ?_
    rw [regroup]
    interval_cases i <;> simp
  have h2 : (regroup .msb p0 p1 p2 p3 >>> 8 &&& 0xFF#32).setWidth 8 = p2 := by
    refine BitVec.eq_of_getLsbD_eq fun i hi => ?_
    rw [regroup]
    interval_cases i <;> simp
  have h3 : (regroup .msb p0 p1 p2 p3 &&& 0xFF#32).setWidth 8 = p3 := by
    refine BitVec.eq_of_getLsbD_eq fun i hi => ?_
    rw [regroup]
    interval_cases i <;> simp
  rw [wordBytes, h0, h1, h2, h3]

/-- Storing the words of a section stores the bytes that fill whole words. -/
theorem loadWords_empty {bytes : List Byte} (halign : address.toNat % 4 = 0) :
    loadWords TLB.empty address (regroupWords .msb bytes) m = .ok m' ↔
      AllInRam (bytesAt address (wholeWords bytes)) ∧
        m' = stores (bytesAt address (wholeWords bytes)) m := by
  induction bytes using regroupWords.induct generalizing address m with
  | case1 p0 p1 p2 p3 rest ih =>
      have hnext : (address + 4#32).toNat % 4 = 0 := by
        rw [BitVec.toNat_add, show (4#32).toNat = 4 from rfl]
        omega
      have hsplit : bytesAt address (wholeWords (p0 :: p1 :: p2 :: p3 :: rest)) =
          bytesAt address [p0, p1, p2, p3] ++ bytesAt (address + 4#32) (wholeWords rest) := by
        rw [wholeWords_cons]
        have happend : bytesAt address ([p0, p1, p2, p3] ++ wholeWords rest) = _ := bytesAt_append
        exact happend
      simp only [regroupWords, loadWords, Except.bind_ok_iff, setWord_empty, ih hnext,
        wordBytes_regroup, hsplit, allInRam_append, stores_append, halign, true_and]
      constructor
      · rintro ⟨m1, ⟨hin, rfl⟩, hrest, rfl⟩
        exact ⟨⟨hin, hrest⟩, rfl⟩
      · rintro ⟨⟨hin, hrest⟩, rfl⟩
        exact ⟨_, ⟨hin, rfl⟩, hrest, rfl⟩
  | case2 bytes hshort =>
      have hlen : bytes.length / 4 = 0 := by
        rcases bytes with _ | ⟨p0, _ | ⟨p1, _ | ⟨p2, _ | ⟨p3, rest⟩⟩⟩⟩
        case cons.cons.cons.cons => exact absurd rfl (hshort p0 p1 p2 p3 rest)
        all_goals simp
      have hnone : regroupWords .msb bytes = [] := by
        rw [regroupWords]
        exact hshort
      rw [hnone, wholeWords, hlen, Nat.mul_zero, List.take_zero]
      have hempty : loadBytes TLB.empty address [] m = .ok m' ↔ _ := loadBytes_empty
      exact hempty

end Words

/-- **Loading words.**  `loadKernel(kernelInfo, kernelArgs)` on big-endian text. -/
theorem loadKernel_iff {s s' : Machine} {args : List (List Byte)}
    {kernelInfo : KernelBootInformation} {bytes : List Byte}
    {log : List (Word × Byte)} (ht : s.tlb = TLB.empty)
    (htext : kernelInfo.text = regroupWords .msb bytes)
    (halign : kernelInfo.textStart.toNat % 4 = 0)
    (hlog : log = bytesAt kernelInfo.textStart (wholeWords bytes) ++
      afterText kernelInfo.dataStart kernelInfo.data kernelInfo.argc kernelInfo.argv args) :
    s.loadKernel kernelInfo args = .ok s' ↔
      (kernelInfo.argc.toNat % 4 = 0 ∧ AllInRam log) ∧
        s' = loaded s log kernelInfo.trapEntry kernelInfo.bootEntry := by
  subst hlog
  rw [allInRam_append, loaded, stores_append]
  constructor
  · intro h
    obtain ⟨m0, h0, h⟩ := Except.bind_ok_iff.mp h
    obtain ⟨m1, h1, h⟩ := Except.bind_ok_iff.mp h
    obtain ⟨m2, h2, h⟩ := Except.bind_ok_iff.mp h
    obtain ⟨m3, h3, h⟩ := Except.bind_ok_iff.mp h
    obtain rfl := Except.ok.inj h
    rw [ht, htext] at h0
    rw [ht] at h1 h2 h3
    obtain ⟨hin, rfl⟩ := (loadWords_empty halign).mp h0
    obtain ⟨hargc, hafter, rfl⟩ := afterText_iff.mp ⟨m1, h1, m2, h2, h3⟩
    exact ⟨⟨hargc, hin, hafter⟩, rfl⟩
  · rintro ⟨⟨hargc, hin, hafter⟩, rfl⟩
    have h0 := (loadWords_empty (m := s.memory) halign).mpr ⟨hin, rfl⟩
    obtain ⟨m1, h1, m2, h2, h3⟩ := (afterText_iff
      (m := stores (bytesAt kernelInfo.textStart (wholeWords bytes)) s.memory)).mpr
        ⟨hargc, hafter, rfl⟩
    rw [← ht, ← htext] at h0
    rw [← ht] at h1 h2 h3
    exact Except.bind_ok_iff.mpr ⟨_, h0, Except.bind_ok_iff.mpr ⟨_, h1,
      Except.bind_ok_iff.mpr ⟨_, h2, Except.bind_ok_iff.mpr ⟨_, h3, rfl⟩⟩⟩⟩

/-! ### Agreement -/

/-- Two loaded machines agree on the sections and on the two entry points. -/
structure SameContents (elf : Elf) (s1 s2 : Machine) : Prop where
  text : ∀ i < elf.text.bytes.length,
    s1.memory (physical (elf.text.address + BitVec.ofNat 32 i)) =
      s2.memory (physical (elf.text.address + BitVec.ofNat 32 i))
  data : ∀ i < elf.data.bytes.length,
    s1.memory (physical (elf.data.address + BitVec.ofNat 32 i)) =
      s2.memory (physical (elf.data.address + BitVec.ofNat 32 i))
  programCounter : s1.programCounter = s2.programCounter
  trapEntry : s1.trapEntry = s2.trapEntry

/-- Both loads return or neither does, and what they leave is the same. -/
def SameLoad (elf : Elf) (r1 r2 : Except Fault Machine) : Prop :=
  ((∃ s1, r1 = .ok s1) ↔ ∃ s2, r2 = .ok s2) ∧
    ∀ s1 s2, r1 = .ok s1 → r2 = .ok s2 → SameContents elf s1 s2

/-- The kernel is one that `KernelLoader` can load: `argc` is aligned, and the
words of the text, the data and the arguments are in the memory. -/
def Fits (elf : Elf) (argc argv : Word) (args : List (List Byte)) : Prop :=
  argc.toNat % 4 = 0 ∧
    AllInRam (bytesAt elf.text.address (wholeWords elf.text.bytes) ++
      afterText elf.data.address elf.data.bytes argc argv args)

/-- The text byte at an address is stored to again after the text. -/
def Rewritten (elf : Elf) (argc argv : Word) (args : List (List Byte)) (address : Word) : Prop :=
  ∃ w ∈ afterText elf.data.address elf.data.bytes argc argv args, w.1 = address

/-- Each byte after the last whole word of the text is in the memory, and the
memory has it already or it is stored to again. -/
def TailInPlace (elf : Elf) (argc argv : Word) (args : List (List Byte)) (memory : Memory) : Prop :=
  ∀ i b, 4 * (elf.text.bytes.length / 4) ≤ i → elf.text.bytes[i]? = some b →
    InRam (elf.text.address + BitVec.ofNat 32 i) ∧
      (Rewritten elf argc argv args (elf.text.address + BitVec.ofNat 32 i) ∨
        memory (physical (elf.text.address + BitVec.ofNat 32 i)) = b)

section Agreement

variable {elf : Elf} {argc argv : Word} {args : List (List Byte)} {s1 s2 : Machine}

/-- A byte of the whole words is stored by both loads, a later one by one of
them only. -/
theorem text_byte_iff (htext : elf.text.address = 0x80000000#32)
    (hin : AllInRam (bytesAt elf.text.address elf.text.bytes)) {m1 m2 : Memory} {i : Nat} {b : Byte}
    (hb : elf.text.bytes[i]? = some b) :
    stores (bytesAt elf.text.address (wholeWords elf.text.bytes)) m1
        (physical (elf.text.address + BitVec.ofNat 32 i)) =
      stores (bytesAt elf.text.address elf.text.bytes) m2
        (physical (elf.text.address + BitVec.ofNat 32 i)) ↔
      (4 * (elf.text.bytes.length / 4) ≤ i →
        m1 (physical (elf.text.address + BitVec.ofNat 32 i)) = b) := by
  have hlen := (List.getElem?_eq_some_iff.mp hb).1
  have hbound : elf.text.bytes.length ≤ physMemSize := by
    rcases allInRam_bytesAt.mp hin with hnil | ⟨-, hhigh⟩
    · simp [hnil]
    · rw [htext, show (0x80000000#32).toNat = 0x80000000 from rfl] at hhigh
      omega
  rw [stores_bytesAt hin hb]
  by_cases hi : 4 * (elf.text.bytes.length / 4) ≤ i
  · rw [stores_eq_of_not_mem fun w hw heq => ?_]
    · exact ⟨fun h _ => h, fun h => h hi⟩
    · -- the addresses of the whole words are lower
      obtain ⟨j, hj, hw'⟩ := mem_bytesAt.mp hw
      have hjlt := (List.getElem?_eq_some_iff.mp hj).1
      rw [wholeWords, List.length_take] at hjlt
      have hnat := congrArg BitVec.toNat (hw'.symm.trans heq)
      unfold physMemSize at hbound
      rw [htext, BitVec.toNat_add, BitVec.toNat_add, BitVec.toNat_ofNat, BitVec.toNat_ofNat,
        BitVec.toNat_ofNat] at hnat
      omega
  · have hb' : (wholeWords elf.text.bytes)[i]? = some b := by
      rw [wholeWords, List.getElem?_take_of_lt (by omega), hb]
    have hin' : AllInRam (bytesAt elf.text.address (wholeWords elf.text.bytes)) := by
      rw [allInRam_bytesAt] at hin ⊢
      refine hin.imp (fun hnil => by rw [hnil]; rfl) fun hrange => ?_
      rw [wholeWords, List.length_take]
      omega
    rw [stores_bytesAt hin' hb']
    exact iff_of_true rfl fun h => absurd h hi

/-- **Contents.**  What two loads that returned leave is the same when the bytes
after the last whole word are. -/
theorem sameContents_iff {trapEntry bootEntry : Word} (htext : elf.text.address = 0x80000000#32)
    (hin : AllInRam (bytesAt elf.text.address elf.text.bytes)) :
    SameContents elf
      (loaded s1 (bytesAt elf.text.address (wholeWords elf.text.bytes) ++
        afterText elf.data.address elf.data.bytes argc argv args) trapEntry bootEntry)
      (loaded s2 (bytesAt elf.text.address elf.text.bytes ++
        afterText elf.data.address elf.data.bytes argc argv args) trapEntry bootEntry) ↔
      TailInPlace elf argc argv args s1.memory := by
  have hbyte {i : Nat} {b : Byte} (hb : elf.text.bytes[i]? = some b) := calc
    (loaded s1 (bytesAt elf.text.address (wholeWords elf.text.bytes) ++
        afterText elf.data.address elf.data.bytes argc argv args) trapEntry bootEntry).memory
        (physical (elf.text.address + BitVec.ofNat 32 i)) =
      (loaded s2 (bytesAt elf.text.address elf.text.bytes ++
        afterText elf.data.address elf.data.bytes argc argv args) trapEntry bootEntry).memory
        (physical (elf.text.address + BitVec.ofNat 32 i))
    _ ↔ _ := by rw [loaded, loaded, stores_append, stores_append]; exact stores_congr_iff
    _ ↔ _ := or_congr_right (text_byte_iff htext hin hb)
  constructor
  · intro hsame i b hi hb
    have htail := hbyte hb |>.mp (hsame.text i (List.getElem?_eq_some_iff.mp hb).1)
    exact ⟨inRam_of_bytesAt hin hb, htail.imp_right fun h => h hi⟩
  · intro htail
    refine ⟨fun i hi => ?_, fun i hi => ?_, rfl, rfl⟩
    · obtain ⟨b, hb⟩ : ∃ b, elf.text.bytes[i]? = some b := ⟨_, List.getElem?_eq_getElem hi⟩
      refine (hbyte hb).mpr ?_
      by_cases hwhole : 4 * (elf.text.bytes.length / 4) ≤ i
      · exact (htail i b hwhole hb).2.imp_right fun h _ => h
      · exact Or.inr fun h => absurd h hwhole
    · -- the data is stored after the text by both loads
      rw [loaded, loaded, stores_append, stores_append]
      refine stores_congr_iff.mpr (Or.inl ⟨(_, elf.data.bytes[i]), ?_, rfl⟩)
      rw [afterText, List.mem_append]
      exact Or.inl (mem_bytesAt.mpr ⟨i, List.getElem?_eq_getElem hi, rfl⟩)

/-- The text is in the memory when its whole words and the rest are. -/
theorem allInRam_text_iff :
    AllInRam (bytesAt elf.text.address elf.text.bytes) ↔
      AllInRam (bytesAt elf.text.address (wholeWords elf.text.bytes)) ∧
        ∀ i b, 4 * (elf.text.bytes.length / 4) ≤ i → elf.text.bytes[i]? = some b →
          InRam (elf.text.address + BitVec.ofNat 32 i) := by
  constructor
  · intro h
    refine ⟨fun w hw => ?_, fun i b _ hb => inRam_of_bytesAt h hb⟩
    obtain ⟨i, hi, hw'⟩ := mem_bytesAt.mp hw
    have hlt := (List.getElem?_eq_some_iff.mp hi).1
    rw [wholeWords, List.length_take] at hlt
    rw [wholeWords, List.getElem?_take_of_lt (by omega)] at hi
    exact h w (mem_bytesAt.mpr ⟨i, hi, hw'⟩)
  · rintro ⟨hwhole, htail⟩ w hw
    obtain ⟨i, hi, hw'⟩ := mem_bytesAt.mp hw
    by_cases hlt : i < 4 * (elf.text.bytes.length / 4)
    · refine hwhole w (mem_bytesAt.mpr ⟨i, ?_, hw'⟩)
      rwa [wholeWords, List.getElem?_take_of_lt hlt]
    · rw [hw']
      exact htail i _ (by omega) hi

end Agreement

/-- **The two ways of loading.**  On fresh machines the two loads of a
big-endian kernel agree exactly when the bytes of the text after its last whole
word are in place without being loaded. -/
theorem sameLoad_iff {elf : Elf} {info : Info} (hbig : elf.encoding = .msb)
    (htext : elf.text.address = 0x80000000#32) (hinfo : extractInfo elf = some info)
    (kernelInfo : KernelBootInformation) (args : List (List Byte)) (pc pc' trap trap' : Word)
    (memory memory' : Memory) (host host' : Host) :
    SameLoad elf
      ((Machine.construct pc trap memory host).loadKernel (kernelLoader elf kernelInfo) args)
      ((Machine.construct pc' trap' memory' host').loadKernelElf (formatAndWrite info) args) ↔
      (Fits elf info.argc info.argv args → TailInPlace elf info.argc info.argv args memory) := by
  have hx := extracted hinfo kernelInfo
  have hargc : (kernelLoader elf kernelInfo).argc = info.argc := (congrArg KernelElf.argc hx).symm
  have hargv : (kernelLoader elf kernelInfo).argv = info.argv := (congrArg KernelElf.argv hx).symm
  have hregrouped : (kernelLoader elf kernelInfo).text = regroupWords .msb elf.text.bytes := by
    rw [← hbig]
    rfl
  have haligned : (kernelLoader elf kernelInfo).textStart.toNat % 4 = 0 := by
    show elf.text.address.toNat % 4 = 0
    rw [htext]
    rfl
  have hwords (s : Machine) : (Machine.construct pc trap memory host).loadKernel
      (kernelLoader elf kernelInfo) args = .ok s ↔ _ :=
    loadKernel_iff rfl hregrouped haligned rfl
  have hbytes (s : Machine) : (Machine.construct pc' trap' memory' host').loadKernelElf
      (formatAndWrite info) args = .ok s ↔ _ := loadKernelElf_iff rfl rfl
  rw [hargc, hargv] at hwords
  rw [hx, hargc, hargv] at hbytes
  rw [hx, hargc, hargv]
  have hfits_iff (s : Machine) := (hwords s).trans
    (and_congr_left' (Iff.rfl : _ ↔ Fits elf info.argc info.argv args))
  by_cases hfits : Fits elf info.argc info.argv args
  · have h1 := (hfits_iff _).mpr ⟨hfits, rfl⟩
    obtain ⟨hwhole, hafter⟩ := allInRam_append.mp hfits.2
    refine Iff.trans ?_ ⟨fun h _ => h, fun h => h hfits⟩
    constructor
    · rintro ⟨hboth, hsame⟩
      obtain ⟨s2, h2⟩ := hboth.mp ⟨_, h1⟩
      have hsame2 := hsame _ _ h1 h2
      obtain ⟨⟨-, hin⟩, rfl⟩ := (hbytes s2).mp h2
      exact (sameContents_iff htext (allInRam_append.mp hin).1).mp hsame2
    · intro htail
      have hin : AllInRam (bytesAt elf.text.address elf.text.bytes) :=
        allInRam_text_iff.mpr ⟨hwhole, fun i b hi hb => (htail i b hi hb).1⟩
      have h2 := (hbytes _).mpr ⟨⟨hfits.1, allInRam_append.mpr ⟨hin, hafter⟩⟩, rfl⟩
      refine ⟨iff_of_true ⟨_, h1⟩ ⟨_, h2⟩, fun s1 s2 hs1 hs2 => ?_⟩
      obtain ⟨-, rfl⟩ := (hfits_iff s1).mp hs1
      obtain ⟨-, rfl⟩ := (hbytes s2).mp hs2
      exact (sameContents_iff htext hin).mpr htail
  · have hno (s : Machine) := mt (hfits_iff s).mp fun h => hfits h.1
    refine iff_of_true ⟨iff_of_false (fun ⟨s, hs⟩ => hno s hs) fun ⟨s, hs⟩ => ?_,
      fun s _ hs => absurd hs (hno s)⟩ fun h => absurd h hfits
    -- what does not fit without the last bytes does not fit with them
    obtain ⟨⟨hargc', hin⟩, -⟩ := (hbytes s).mp hs
    obtain ⟨htextIn, hafter⟩ := allInRam_append.mp hin
    exact hfits ⟨hargc', allInRam_append.mpr ⟨(allInRam_text_iff.mp htextIn).1, hafter⟩⟩

/-- A kernel with one instruction and one more byte in its text section. -/
def fiveBytes : Elf where
  entry := 0x80000000#32
  encoding := .msb
  symbols := [("kernel_trap", 0x80000000#32), ("argc", 0x80000020#32), ("argv", 0x80000024#32)]
  text := ⟨0x80000000#32, [0x27, 0xbd, 0xff, 0xe8, 0x21]⟩
  data := ⟨0x80000010#32, [0x01]⟩

/-- Boot information with nothing in it. -/
def noInformation : KernelBootInformation := ⟨[], [], 0, 0, 0, 0, 0, 0⟩

/-- With the last byte in the memory already, the two loads agree. -/
theorem sameLoad_fiveBytes :
    ∃ info, extractInfo fiveBytes = some info ∧
      SameLoad fiveBytes
        ((Machine.construct 0 0 (fun _ => 0x21) {}).loadKernel
          (kernelLoader fiveBytes noInformation) [])
        ((Machine.construct 0 0 (fun _ => 0) {}).loadKernelElf (formatAndWrite info) []) := by
  obtain ⟨info, hinfo⟩ := Option.isSome_iff_exists.mp
    (show (extractInfo fiveBytes).isSome = true by decide +kernel)
  refine ⟨info, hinfo, (sameLoad_iff rfl rfl hinfo _ _ _ _ _ _ _ _ _ _).mpr fun _ i b hi hb => ?_⟩
  have hlt := (List.getElem?_eq_some_iff.mp hb).1
  obtain rfl : i = 4 := by
    have h5 : fiveBytes.text.bytes.length = 5 := rfl
    rw [h5] at hi hlt
    omega
  exact ⟨by decide, Or.inr (Option.some.inj hb)⟩

/-- On cleared memory `KernelLoader` leaves a zero where the last byte should be. -/
theorem not_sameLoad_fiveBytes :
    ∃ info, extractInfo fiveBytes = some info ∧
      ¬ SameLoad fiveBytes
        ((Machine.construct 0 0 (fun _ => 0) {}).loadKernel
          (kernelLoader fiveBytes noInformation) [])
        ((Machine.construct 0 0 (fun _ => 0) {}).loadKernelElf (formatAndWrite info) []) := by
  have hbytes : ((extractInfo fiveBytes).map fun info =>
      ((Machine.construct 0 0 (fun _ => 0) {}).loadKernelElf (formatAndWrite info) []).map
        fun s => s.memory 4) = some (.ok 0x21) := by decide +kernel
  have hwords : ((Machine.construct 0 0 (fun _ => 0) {}).loadKernel
      (kernelLoader fiveBytes noInformation) []).map (fun s => s.memory 4) = .ok 0 := by
    decide +kernel
  obtain ⟨info, hinfo, hbytes⟩ := Option.map_eq_some_iff.mp hbytes
  refine ⟨info, hinfo, ?_⟩
  rintro ⟨-, hsame⟩
  obtain ⟨s1, h1, hm1⟩ := Except.map_ok_iff.mp hwords
  obtain ⟨s2, h2, hm2⟩ := Except.map_ok_iff.mp hbytes
  have h4 : s1.memory 4 = s2.memory 4 := (hsame s1 s2 h1 h2).text 4 (by decide)
  rw [hm1, hm2] at h4
  exact absurd h4 (by decide)

end FileLoader
