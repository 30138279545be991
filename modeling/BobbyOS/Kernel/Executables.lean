import BobbyOS.Kernel.Process
import BobbyOS.Lib.BigEndian
import Mathlib.Data.List.Induction

/-!
# Executables

`createProcess` reads an executable piece by piece: the header, the section header of
the section names, and then for each section its header and its name.  The host may
return fewer bytes than it is asked for, so where the next read starts depends on all
answers since the file was opened.

* `readFull_spec`, `readCstr_spec`: the loops over reads return the bytes of the file;
* `readExecutable_spec`: what is gathered is what the last section headers with the
  names `.text`, `.data` and `.bss` say.
-/

namespace Kernel

/-! ### The file behind a descriptor -/

/-- The bytes that a reply to `FREAD` puts into the buffer. -/
def VMReply.bytes (reply : VMReply) (nbytes : Nat) : List Byte :=
  if reply.err != 0 then [] else reply.data.take nbytes

/-- The requests that `read` and `seek` make. -/
def VMRequest.OnFile (fd : Word) : VMRequest → Prop
  | .fread fd' _ => fd' = fd
  | .fseek fd' _ whence => fd' = fd ∧ whence = 0
  | _ => False

/-- The position in a file after some requests, the last one first, since it was opened
with the last of the requests `opened`. -/
def position (vm : Tunnel) (opened : List VMRequest) : List VMRequest → Nat
  | [] => 0
  | .fread fd nbytes :: reqs => position vm opened reqs +
      ((vm (.fread fd nbytes :: (reqs ++ opened))).bytes nbytes.toNat).length
  | .fseek _ offset _ :: _ => offset.toNat
  | _ :: reqs => position vm opened reqs

/-- The host has opened `file`: whatever was read before, a read returns the next bytes
of the file, as many as the host likes, or fails. -/
def Serves (vm : Tunnel) (opened : List VMRequest) (file : List Byte) : Prop :=
  ∀ reqs nbytes, (∀ req ∈ reqs, req.OnFile (vm opened).res) →
    (vm (.fread (vm opened).res nbytes :: (reqs ++ opened))).bytes nbytes.toNat <+:
      file.drop (position vm opened reqs)

/-- The reader has the opened file at position `p`. -/
def Reader.At (vm : Tunnel) (opened : List VMRequest) (r : Reader) (p : Nat) : Prop :=
  r.1.fd = (vm opened).res ∧ ∃ reqs, r.2 = reqs ++ opened ∧
    (∀ req ∈ reqs, req.OnFile (vm opened).res) ∧ position vm opened reqs = p

/-- The first `n` bytes of a file from position `p` on. -/
def slice (file : List Byte) (p n : Nat) : List Byte := (file.drop p).take n

variable {vm : Tunnel} {opened log : List VMRequest} {file got : List Byte} {r r' : Reader}
  {f : File} {p n : Nat}

/-- A slice and the one behind it. -/
theorem slice_append (file : List Byte) (p n m : Nat) :
    slice file p n ++ slice file (p + n) m = slice file p (n + m) := by
  rw [slice, slice, slice, ← List.drop_drop, List.take_add]

/-- What was read, and what is left to be read. -/
theorem append_slice (h : got <+: file.drop p) (hle : got.length ≤ n) :
    got ++ slice file (p + got.length) (n - got.length) = slice file p n := by
  have hgot : slice file p got.length = got := (List.prefix_iff_eq_take.mp h).symm
  have happend := slice_append file p got.length (n - got.length)
  rwa [hgot, Nat.add_sub_cancel' hle] at happend

/-- A byte of a slice is one of the file. -/
theorem getElem?_slice {i : Nat} (h : i < n) : (slice file p n)[i]? = file[p + i]? := by
  rw [slice, List.getElem?_take, if_pos h, List.getElem?_drop]

/-- A file that was just opened. -/
theorem at_construct {path : List Byte} {flags : Word} :
    Reader.At vm (.fopen path flags :: log) (File.construct vm path flags log) 0 :=
  ⟨rfl, [], rfl, by simp, rfl⟩

/-- A seek from the start goes there. -/
theorem Reader.At.seek {offset : Word} (h : Reader.At vm opened r p) :
    Reader.At vm opened (r.1.seek vm offset 0 r.2) offset.toNat := by
  obtain ⟨hfd, reqs, hlog, hreqs, -⟩ := h
  refine ⟨hfd, .fseek r.1.fd offset 0 :: reqs, ?_, ?_, rfl⟩
  · rw [List.cons_append, ← hlog]
    rfl
  · intro req hreq
    rcases List.mem_cons.mp hreq with rfl | hreq
    · exact ⟨hfd, rfl⟩
    · exact hreqs req hreq

/-- A call of `read` that asks the host. -/
theorem read_eq (vm : Tunnel) (f : File) (log : List VMRequest) {bytes : Nat} (hbytes : bytes ≠ 0) :
    ∃ bad, f.read vm bytes log =
    ((vm (.fread f.fd (BitVec.ofNat 32 (min bytes 256)) :: log)).bytes (min bytes 256),
      { f with bad }, .fread f.fd (BitVec.ofNat 32 (min bytes 256)) :: log) := by
  rw [File.read, if_neg hbytes, VMReply.bytes]
  by_cases herr : ((vm (.fread f.fd (BitVec.ofNat 32 (min bytes 256)) :: log)).err != 0) = true
  · rw [if_pos herr]
    exact ⟨true, if_pos herr⟩
  · rw [if_neg herr]
    exact ⟨f.bad, if_neg herr⟩

/-- **Read.**  One call returns the next bytes, at most as many as wanted. -/
theorem Reader.At.read {bytes : Nat} (h : Reader.At vm opened r p) (hserves : Serves vm opened file)
    (hread : r.1.read vm bytes r.2 = (got, r')) :
    got <+: file.drop p ∧ got.length ≤ bytes ∧ Reader.At vm opened r' (p + got.length) := by
  by_cases hbytes : bytes = 0
  · rw [File.read, if_pos hbytes] at hread
    obtain ⟨rfl, rfl⟩ := Prod.mk.inj hread
    exact ⟨List.nil_prefix, Nat.zero_le _, h⟩
  · obtain ⟨bad, heq⟩ := read_eq vm r.1 r.2 hbytes
    rw [heq] at hread
    obtain ⟨rfl, rfl⟩ := Prod.mk.inj hread
    obtain ⟨hfd, reqs, hlog, hreqs, rfl⟩ := h
    have hsize : (BitVec.ofNat 32 (min bytes 256)).toNat = min bytes 256 := by
      rw [BitVec.toNat_ofNat]
      omega
    have hreply := hserves reqs (BitVec.ofNat 32 (min bytes 256)) hreqs
    rw [← hfd, ← hlog, hsize] at hreply
    refine ⟨hreply, ?_, hfd, .fread r.1.fd (BitVec.ofNat 32 (min bytes 256)) :: reqs, ?_, ?_, ?_⟩
    · rw [VMReply.bytes]
      split
      · exact Nat.zero_le _
      · rw [List.length_take]
        omega
    · rw [List.cons_append, ← hlog]
    · intro req hreq
      rcases List.mem_cons.mp hreq with rfl | hreq
      · exact hfd
      · exact hreqs req hreq
    · rw [position, hsize, hlog]

/-- **`read_full`.**  A whole record is the next bytes of the file. -/
theorem readFull_spec {rounds : Nat} {record : List Byte} (hserves : Serves vm opened file)
    (hat : Reader.At vm opened r p) (hrounds : n ≤ rounds)
    (h : readFull vm rounds n r = (some record, r')) :
    record = slice file p n ∧ record.length = n ∧ Reader.At vm opened r' (p + n) := by
  induction rounds generalizing n r p record with
  | zero =>
      obtain ⟨hrecord, rfl⟩ := Prod.mk.inj h
      obtain rfl := Option.some.inj hrecord
      obtain rfl : n = 0 := by omega
      exact ⟨by rw [slice, List.take_zero], rfl, hat⟩
  | succ rounds ih =>
      obtain ⟨f, log⟩ := r
      rw [readFull] at h
      split at h
      case isTrue hzero =>
        obtain ⟨hrecord, rfl⟩ := Prod.mk.inj h
        obtain rfl := Option.some.inj hrecord
        obtain rfl := hzero
        exact ⟨by rw [slice, List.take_zero], rfl, hat⟩
      case isFalse hpos =>
        split at h
        case h_1 => cases h
        case h_2 got f' log' hne hread =>
          obtain ⟨hfront, hle, hat'⟩ := hat.read hserves hread
          have hgot : 0 < got.length := List.length_pos_iff.mpr fun hnil => hne hnil
          obtain ⟨hrecord, rfl⟩ := Prod.mk.inj h
          obtain ⟨rest, hrest, rfl⟩ := Option.map_eq_some_iff.mp hrecord
          obtain ⟨rfl, hlen, hat''⟩ := ih hat' (by omega) (Prod.ext hrest rfl)
          refine ⟨append_slice hfront hle, ?_, ?_⟩
          · rw [List.length_append, hlen]
            omega
          · have hsum : p + got.length + (n - got.length) = p + n := by omega
            rw [hsum] at hat''
            exact hat''

/-- **Names.**  A name ends before the first NUL, or where the buffer is full. -/
theorem readCstr_spec {room : Nat} {scratch name : List Byte} (hserves : Serves vm opened file)
    (hat : Reader.At vm opened r p) (h : readCstr vm room scratch r = (some name, r')) :
    name = scratch ++ (slice file p room).takeWhile (· ≠ 0) ∧
      ∃ p', Reader.At vm opened r' p' := by
  induction room generalizing scratch r p with
  | zero =>
      obtain ⟨hname, rfl⟩ := Prod.mk.inj h
      obtain rfl := Option.some.inj hname
      exact ⟨by rw [slice, List.take_zero, List.takeWhile_nil, List.append_nil], p, hat⟩
  | succ room ih =>
      obtain ⟨f, log⟩ := r
      rw [readCstr] at h
      split at h
      case h_1 => cases h
      case h_2 c got f' log' hread =>
        obtain ⟨hfront, hle, hat'⟩ := hat.read hserves hread
        obtain rfl : got = [] := by simpa using hle
        obtain ⟨rest, hrest⟩ := hfront
        have hslice : slice file p (room + 1) = c :: slice file (p + 1) room := by
          have hnext : file.drop (p + 1) = rest := by
            rw [← List.drop_drop, ← hrest]
            rfl
          rw [slice, slice, hnext, ← hrest]
          rfl
        rw [hslice, List.takeWhile_cons]
        split at h
        case isTrue hzero =>
          obtain ⟨hname, rfl⟩ := Prod.mk.inj h
          obtain rfl := Option.some.inj hname
          exact ⟨by simp [hzero], _, hat'⟩
        case isFalse hchar =>
          obtain ⟨rfl, hat''⟩ := ih hat' h
          refine ⟨?_, hat''⟩
          rw [if_pos (decide_eq_true hchar), List.append_assoc]
          rfl

/-! ### Section headers -/

/-- What `createProcess` looks at in a section header, with the name. -/
structure Section where
  name : List Byte
  addr : Word
  offset : Word
  size : Word

/-- What a section header adds to the information. -/
def ExecutableInfo.add (info : ExecutableInfo) (s : Section) : ExecutableInfo :=
  if s.name = ascii ".text" then { info with textOffset := s.offset, textSize := s.size }
  else if s.name = ascii ".data" then { info with dataOffset := s.offset, dataSize := s.size }
  else if s.name = ascii ".bss" then { info with bssAddr := s.addr, bssSize := s.size }
  else info

namespace Executable

variable (file)

/-- The file from section header number `i` on. -/
def header (i : Word) : List Byte :=
  file.drop (field32 file 32 + i * field16 file 46).toNat

/-- Where the names of the sections are. -/
def namesOffset : Word := field32 (header file (field16 file 50)) 16

/-- Section header number `i`; a name has at most 127 characters. -/
def sectionHeader (i : Nat) : Section :=
  let sh := header file (BitVec.ofNat 32 i)
  { name := (slice file (namesOffset file + field32 sh 0).toNat 127).takeWhile (· ≠ 0)
    addr := field32 sh 12
    offset := field32 sh 16
    size := field32 sh 20 }

/-- The section headers. -/
def sections : List Section :=
  (List.range (field16 file 48).toNat).map (sectionHeader file)

/-- The section with a name; the last one, if there are several. -/
def sectionNamed (name : String) : Option Section :=
  (sections file).reverse.find? fun s => s.name = ascii name

/-- The sections that matter; one that is not there is empty. -/
def text : Section := (sectionNamed file ".text").getD ⟨[], 0, 0, 0⟩
/-- The section `.data`, or none. -/
def data : Section := (sectionNamed file ".data").getD ⟨[], 0, 0, 0⟩
/-- The section `.bss`, or none. -/
def bss : Section := (sectionNamed file ".bss").getD ⟨[], 0, 0, 0⟩

/-- What `createProcess` gathers about an executable, from the bytes of the file. -/
def info : ExecutableInfo where
  entry := field32 file 24
  textOffset := (text file).offset
  textSize := (text file).size
  dataOffset := (data file).offset
  dataSize := (data file).size
  bssAddr := (bss file).addr
  bssSize := (bss file).size

end Executable

/-- A word of a record is in the part that was read. -/
theorem field32_take {record : List Byte} {k : Nat} (hk : k + 4 ≤ n) :
    field32 (record.take n) k = field32 record k := by
  have hget (i : Nat) (hi : i < n) : (record.take n).getD i 0 = record.getD i 0 := by
    rw [List.getD_eq_getElem?_getD, List.getElem?_take, if_pos hi, List.getD_eq_getElem?_getD]
  rw [field32, hget k (by omega), hget (k + 1) (by omega), hget (k + 2) (by omega),
    hget (k + 3) (by omega), field32]

/-- So is a half word. -/
theorem field16_take {record : List Byte} {k : Nat} (hk : k + 2 ≤ n) :
    field16 (record.take n) k = field16 record k := by
  have hget (i : Nat) (hi : i < n) : (record.take n).getD i 0 = record.getD i 0 := by
    rw [List.getD_eq_getElem?_getD, List.getElem?_take, if_pos hi, List.getD_eq_getElem?_getD]
  rw [field16, hget k (by omega), hget (k + 1) (by omega), field16]

/-- **Sections.**  The loop adds one section header after the other. -/
theorem readSections_spec {left i : Nat} {info info' : ExecutableInfo}
    (hserves : Serves vm opened file) (hat : Reader.At vm opened r p)
    (h : readSections vm (field32 file 32) (field16 file 46) (Executable.namesOffset file)
      left i info r = (some info', r')) :
    info' = ((List.range' i left).map (Executable.sectionHeader file)).foldl
      ExecutableInfo.add info ∧ ∃ p', Reader.At vm opened r' p' := by
  induction left generalizing i info r p with
  | zero =>
      obtain ⟨hinfo, rfl⟩ := Prod.mk.inj h
      obtain rfl := Option.some.inj hinfo
      exact ⟨rfl, p, hat⟩
  | succ left ih =>
      obtain ⟨f, log⟩ := r
      rw [readSections] at h
      split at h
      case h_1 => cases h
      case h_2 sh r1 hread =>
        obtain ⟨rfl, -, hat1⟩ := readFull_spec hserves hat.seek (Nat.le_refl _) hread
        split at h
        case h_1 => cases h
        case h_2 name r2 hname =>
          obtain ⟨hname', p2, hat2⟩ := readCstr_spec hserves hat1.seek hname
          have hsh (k : Nat) (hk : k + 4 ≤ 40) :
              field32 ((Executable.header file (BitVec.ofNat 32 i)).take 40) k =
                field32 (Executable.header file (BitVec.ofNat 32 i)) k := field32_take hk
          obtain ⟨rfl, hat'⟩ := ih hat2 h
          refine ⟨?_, hat'⟩
          rw [List.range'_succ, List.map_cons, List.foldl_cons]
          congr 1
          rw [ExecutableInfo.add, Executable.sectionHeader]
          simp only [← hsh _ (show 0 + 4 ≤ 40 by decide), ← hsh _ (show 12 + 4 ≤ 40 by decide),
            ← hsh _ (show 16 + 4 ≤ 40 by decide), ← hsh _ (show 20 + 4 ≤ 40 by decide)]
          rw [hname']
          rfl

/-- The last of several sections with one name counts. -/
theorem foldl_add (info : ExecutableInfo) (l : List Section) :
    let last (name : String) := l.reverse.find? fun s => s.name = ascii name
    l.foldl ExecutableInfo.add info =
      { entry := info.entry
        textOffset := ((last ".text").map Section.offset).getD info.textOffset
        textSize := ((last ".text").map Section.size).getD info.textSize
        dataOffset := ((last ".data").map Section.offset).getD info.dataOffset
        dataSize := ((last ".data").map Section.size).getD info.dataSize
        bssAddr := ((last ".bss").map Section.addr).getD info.bssAddr
        bssSize := ((last ".bss").map Section.size).getD info.bssSize } := by
  have hdata : ascii ".data" ≠ ascii ".text" := by decide
  have hbss : ascii ".bss" ≠ ascii ".text" ∧ ascii ".bss" ≠ ascii ".data" := by decide
  induction l using List.reverseRecOn with
  | nil => rfl
  | append_singleton l s ih =>
      simp only [List.foldl_append, List.foldl_cons, List.foldl_nil, List.reverse_append,
        List.reverse_cons, List.reverse_nil, List.nil_append, List.cons_append, List.find?_cons]
      rw [ih, ExecutableInfo.add]
      split
      case isTrue htext => simp [htext, hdata.symm, hbss.1.symm]
      case isFalse htext =>
        split
        case isTrue hname => simp [hname, hdata, hbss.2.symm]
        case isFalse hname =>
          split
          case isTrue hlast => simp [hlast, hbss]
          case isFalse hlast => simp [htext, hname, hlast]

/-- **Headers.**  What is gathered is what the headers in the file say. -/
theorem readExecutable_spec {info : ExecutableInfo} (hserves : Serves vm opened file)
    (hat : Reader.At vm opened r 0) (h : readExecutable vm r = (some info, r')) :
    info = Executable.info file ∧ ∃ p', Reader.At vm opened r' p' := by
  rw [readExecutable] at h
  split at h
  case h_1 => cases h
  case h_2 ehdr f log hread =>
    obtain ⟨rfl, -, hat1⟩ := readFull_spec hserves hat (Nat.le_refl _) hread
    have hfile : file.drop 0 = file := rfl
    simp only [slice, hfile] at h
    rw [field32_take (by decide), field32_take (by decide), field16_take (by decide),
      field16_take (by decide), field16_take (by decide)] at h
    split at h
    case h_1 => cases h
    case h_2 shstr r1 hshstr =>
      obtain ⟨rfl, -, hat2⟩ := readFull_spec hserves hat1.seek (Nat.le_refl _) hshstr
      rw [slice, field32_take (by decide)] at h
      obtain ⟨hinfo, hat'⟩ := readSections_spec hserves hat2 h
      refine ⟨?_, hat'⟩
      have hfield (f : Section → Word) (hf : f ⟨[], 0, 0, 0⟩ = 0) (o : Option Section) :
          (o.map f).getD 0 = f (o.getD ⟨[], 0, 0, 0⟩) := by
        cases o with
        | none => exact hf.symm
        | some s => rfl
      rw [hinfo, foldl_add, ← List.range_eq_range', ← Executable.sections]
      simp only [hfield Section.offset rfl, hfield Section.size rfl, hfield Section.addr rfl]
      rfl

/-! ### A host with one file -/

/-- Where a host is in the file that it opens on every request. -/
def filePosition (file : List Byte) (most : Nat) : List VMRequest → Nat
  | .fread _ nbytes :: reqs => filePosition file most reqs +
      (slice file (filePosition file most reqs) (min nbytes.toNat most)).length
  | .fseek _ offset _ :: _ => offset.toNat
  | .fopen _ _ :: _ => 0
  | _ :: reqs => filePosition file most reqs
  | [] => 0

/-- A host that opens the same file on every request, and returns at most `most` bytes
for one `FREAD`. -/
def fileHost (file : List Byte) (most : Nat) : Tunnel
  | .fread _ nbytes :: reqs =>
      { data := slice file (filePosition file most reqs) (min nbytes.toNat most) }
  | _ => {}

/-- The host of one file delivers its next bytes. -/
theorem fileHost_bytes {fd nbytes : Word} {reqs : List VMRequest} {most : Nat} :
    (fileHost file most (.fread fd nbytes :: reqs)).bytes nbytes.toNat =
      slice file (filePosition file most reqs) (min nbytes.toNat most) := by
  show (slice file _ _).take nbytes.toNat = _
  rw [List.take_of_length_le]
  rw [slice, List.length_take]
  omega

/-- Its offset is what the requests have made of it. -/
theorem fileHost_position {reqs : List VMRequest} {path : List Byte} {flags fd : Word}
    {most : Nat} (hreqs : ∀ req ∈ reqs, req.OnFile fd) :
    position (fileHost file most) (.fopen path flags :: log) reqs =
      filePosition file most (reqs ++ .fopen path flags :: log) := by
  induction reqs with
  | nil => rfl
  | cons req reqs ih =>
      have hrest := ih fun req' hreq' => hreqs req' (List.mem_cons_of_mem _ hreq')
      have hreq := hreqs req List.mem_cons_self
      cases req with
      | fread fd' nbytes =>
          rw [position, List.cons_append, filePosition, hrest, fileHost_bytes]
      | fseek => rfl
      | _ => exact absurd hreq id

/-- The host returns the bytes of its file. -/
theorem fileHost_serves {path : List Byte} {flags : Word} {most : Nat} :
    Serves (fileHost file most) (.fopen path flags :: log) file := by
  intro reqs nbytes hreqs
  rw [fileHost_bytes, fileHost_position hreqs, slice]
  exact List.take_prefix _ _

namespace Executable

/-- A section header: its name, type, flags, address, offset and size, and four more words. -/
def encodeSection (name addr offset size : Word) : List Byte :=
  [name, 0#32, 0#32, addr, offset, size, 0#32, 0#32, 0#32, 0#32].flatMap
    fun w => BigEndian.encode 4 w.toNat

/-- An executable with a text, a data and a bss section.  The names of the sections start
at byte 212, and the text at byte 232. -/
def build (entry : Word) (text data : List Byte) (bssAddr bssSize : Word) : List Byte :=
  List.replicate 24 0 ++ BigEndian.encode 4 entry.toNat ++ List.replicate 4 0 ++
    BigEndian.encode 4 52 ++ List.replicate 10 0 ++ BigEndian.encode 2 40 ++
    BigEndian.encode 2 4 ++ BigEndian.encode 2 0 ++ encodeSection 0 0 212 20 ++
    encodeSection 1 TEXT_START 232 (BitVec.ofNat 32 text.length) ++
    encodeSection 7 STATIC_START (BitVec.ofNat 32 (232 + text.length))
      (BitVec.ofNat 32 data.length) ++
    encodeSection 13 bssAddr 0 bssSize ++
    ([0] ++ ascii ".text" ++ [0] ++ ascii ".data" ++ [0] ++ ascii ".bss" ++ [0, 0, 0]) ++
    text ++ data

example : (text (build 0x400000 [1, 2, 3, 4] [5, 6] 0x10000004 8)).size = 4 := by decide

end Executable

end Kernel
