import BobbyOS.Kernel.Executables
import BobbyOS.Kernel.FrameOwnership
import BobbyOS.Kernel.Translation

/-!
# Loading an executable

The text and the data of an executable are read into the frames of a new page table:
page by page, a page in pieces of 512 bytes, and a piece in as many reads as the host
makes of it.  The frames are wherever the table has them.

* `streamCopyTo_spec`, `loadPages_spec`: what one page and one segment take from the
  file, and which bytes they write;
* `createProcess_loads`: what the memory of a new process has in its segments, and that
  no other byte was written.
-/

namespace Kernel

open SharedResources MemoryManager Run

variable {vm : Tunnel} {opened : List VMRequest} {file bytes : List Byte} {r r' : Reader}
  {mem mem' : Hardware.Memory} {out : Word} {n p : Nat} {done : Bool}

/-! ### Bytes in the direct map -/

@[simp] theorem writeBytes_nil : writeBytes mem out [] = mem := by
  funext x
  simp [writeBytes]

/-- Bytes behind bytes. -/
theorem writeBytes_append {more : List Byte} (hout : physAddr out + bytes.length < 2 ^ 32) :
    writeBytes (writeBytes mem out bytes) (out + BitVec.ofNat 32 bytes.length) more =
      writeBytes mem out (bytes ++ more) := by
  funext x
  simp only [writeBytes, physAddr_add hout, List.getD_eq_getElem?_getD]
  by_cases hlow : physAddr out ≤ x
  · rw [if_pos hlow, if_pos hlow]
    by_cases hhigh : physAddr out + bytes.length ≤ x
    · have hsub : x - (physAddr out + bytes.length) = x - physAddr out - bytes.length := by omega
      rw [if_pos hhigh, List.getElem?_append_right (by omega), hsub,
        List.getElem?_eq_none (l := bytes) (by omega), Option.getD_none]
    · rw [if_neg hhigh, List.getElem?_append_left (by omega)]
  · rw [if_neg hlow, if_neg hlow, if_neg (by omega)]

/-- Written bytes leave the others. -/
theorem writeBytes_outside {x : Nat} (h : x < physAddr out ∨ physAddr out + bytes.length ≤ x) :
    writeBytes mem out bytes x = mem x := by
  rw [writeBytes]
  split
  · rw [List.getD_eq_getElem?_getD, List.getElem?_eq_none (by omega), Option.getD_none]
  · rfl

/-- A written byte is read back. -/
theorem writeBytes_inside {i : Nat} {b : Byte} (h : bytes[i]? = some b) :
    writeBytes mem out bytes (physAddr out + i) = b := by
  rw [writeBytes, if_pos (Nat.le_add_right _ _), Nat.add_sub_cancel_left,
    List.getD_eq_getElem?_getD, h, Option.getD_some]

/-! ### One page -/

/-- A read delivers no more than asked for. -/
theorem read_length_le {f : File} {log : List VMRequest} {got : List Byte} {k : Nat}
    (h : f.read vm k log = (got, r)) : got.length ≤ k := by
  by_cases hk : k = 0
  · rw [File.read, if_pos hk] at h
    obtain ⟨rfl, -⟩ := Prod.mk.inj h
    exact Nat.zero_le _
  · obtain ⟨bad, heq⟩ := read_eq vm f log hk
    rw [heq] at h
    obtain ⟨rfl, -⟩ := Prod.mk.inj h
    rw [VMReply.bytes]
    split
    · exact Nat.zero_le _
    · rw [List.length_take]
      omega

/-- **One page.**  Some bytes are written one after the other; when all are, they are the
next bytes of the file. -/
theorem streamCopyTo_spec {rounds : Nat} (hrounds : n ≤ rounds) (hout : physAddr out + n < 2 ^ 32)
    (h : streamCopyTo vm rounds n out mem r = (done, mem', r')) :
    ∃ bytes, bytes.length ≤ n ∧ mem' = writeBytes mem out bytes ∧
      ∀ {opened file p}, Serves vm opened file → Reader.At vm opened r p → done = true →
        bytes = slice file p n ∧ bytes.length = n ∧ Reader.At vm opened r' (p + n) := by
  induction rounds generalizing n out mem r with
  | zero =>
      obtain ⟨rfl, hrest⟩ := Prod.mk.inj h
      obtain ⟨rfl, rfl⟩ := Prod.mk.inj hrest
      obtain rfl : n = 0 := by omega
      exact ⟨[], Nat.le_refl _, by rw [writeBytes_nil], fun _ hat _ =>
        ⟨by rw [slice, List.take_zero], rfl, hat⟩⟩
  | succ rounds ih =>
      obtain ⟨f, log⟩ := r
      rw [streamCopyTo] at h
      split at h
      case isTrue hzero =>
        obtain ⟨rfl, hrest⟩ := Prod.mk.inj h
        obtain ⟨rfl, rfl⟩ := Prod.mk.inj hrest
        obtain rfl := hzero
        exact ⟨[], Nat.le_refl _, by rw [writeBytes_nil], fun _ hat _ =>
          ⟨by rw [slice, List.take_zero], rfl, hat⟩⟩
      case isFalse hpos =>
        split at h
        case h_1 =>
          obtain ⟨rfl, hrest⟩ := Prod.mk.inj h
          obtain ⟨rfl, -⟩ := Prod.mk.inj hrest
          exact ⟨[], Nat.zero_le _, by rw [writeBytes_nil],
            fun _ _ hdone => absurd hdone Bool.false_ne_true⟩
        case h_2 got f' log' hne hread =>
          have hle := read_length_le hread
          have hgot : 0 < got.length := List.length_pos_iff.mpr fun hnil => hne hnil
          have hout' : physAddr (out + BitVec.ofNat 32 got.length) = physAddr out + got.length :=
            physAddr_add (by omega)
          obtain ⟨rest, hlen, rfl, hrest⟩ := ih (by omega) (by omega) h
          refine ⟨got ++ rest, ?_, writeBytes_append (by omega),
            fun {opened' file' q} hserves hat hdone => ?_⟩
          · rw [List.length_append]
            omega
          · obtain ⟨hfront, -, hat'⟩ := hat.read hserves hread
            obtain ⟨rfl, hlen', hat''⟩ := hrest hserves hat' hdone
            refine ⟨append_slice hfront (by omega), ?_, ?_⟩
            · rw [List.length_append, hlen']
              omega
            · have hsum : q + got.length + (n - got.length) = q + n := by omega
              rw [hsum] at hat''
              exact hat''

/-! ### One segment -/

/-- A page table whose pages have frames of their own. -/
structure HashPageTable.Apart (t : HashPageTable) : Prop where
  wf : t.table.WF
  frames : t.frames.Nodup
  bounds : ∀ f ∈ t.frames, f < numPages

variable {t : HashPageTable} {space : AddressSpace} {vaddr dst : Word} {x : Nat}

/-- An entry of a table names a frame of the memory. -/
theorem HashPageTable.Apart.pfn_lt {vpn : Word} {e : PageTable.Entry} (h : t.Apart)
    (he : (vpn, e) ∈ t.entries) : e.pfn.toNat < numPages :=
  h.bounds _ (List.mem_map.mpr ⟨_, he, rfl⟩)

/-- Where an address lies: in the frame of its present entry. -/
theorem HashPageTable.Apart.physical_iff (h : t.Apart) :
    (PageTable.hash t).physical vaddr = some x ↔ ∃ e, (vaddr >>> 12, e) ∈ t.entries ∧
      e.present = true ∧ x = e.pfn.toNat * Hardware.pageSize + vaddr.toNat % Hardware.pageSize := by
  obtain ⟨o, hfind, hiff⟩ := h.wf.find (vaddr >>> 12)
  have hwalk (e : PageTable.Entry) :
      (PageTable.hash t).walkTable vaddr = .ok (some e) ↔ (vaddr >>> 12, e) ∈ t.entries := by
    rw [PageTable.walkTable, HashPageTable.walkTable, hfind, HashPageTable.entries, ← hiff,
      Except.ok.injEq]
  have hpfn {e : PageTable.Entry} (he : (vaddr >>> 12, e) ∈ t.entries) :
      e.pfn.toNat % 2 ^ 20 = e.pfn.toNat := by
    have hlt := h.pfn_lt he
    unfold numPages at hlt
    exact Nat.mod_eq_of_lt (by omega)
  rw [PageTable.physical_eq_some]
  constructor
  · rintro ⟨e, he, hpresent, rfl⟩
    exact ⟨e, (hwalk e).mp he, hpresent, by rw [hpfn ((hwalk e).mp he)]⟩
  · rintro ⟨e, he, hpresent, rfl⟩
    exact ⟨e, (hwalk e).mpr he, hpresent, by rw [hpfn he]⟩

/-- Every place in the frames has one address at most. -/
theorem HashPageTable.Apart.injective {a b : Word} (h : t.Apart)
    (ha : (PageTable.hash t).physical a = some x) (hb : (PageTable.hash t).physical b = some x) :
    a = b := by
  obtain ⟨e, he, -, rfl⟩ := h.physical_iff.mp ha
  obtain ⟨e', he', -, heq⟩ := h.physical_iff.mp hb
  unfold Hardware.pageSize at heq
  have hsame := List.inj_on_of_nodup_map h.frames he he' (by
    show e.pfn.toNat = e'.pfn.toNat
    omega)
  have hpage := congrArg BitVec.toNat (Prod.mk.inj hsame).1
  simp only [BitVec.toNat_ushiftRight, Nat.shiftRight_eq_div_pow] at hpage
  exact BitVec.eq_of_toNat_eq (by omega)

/-- The frames that are written are those of the table. -/
theorem HashPageTable.Apart.mem_frames (h : t.Apart)
    (hx : (PageTable.hash t).physical vaddr = some x) : x / Hardware.pageSize ∈ t.frames := by
  obtain ⟨e, he, -, rfl⟩ := h.physical_iff.mp hx
  have hdiv : (e.pfn.toNat * Hardware.pageSize + vaddr.toNat % Hardware.pageSize) /
      Hardware.pageSize = e.pfn.toNat := by
    unfold Hardware.pageSize
    omega
  rw [hdiv]
  exact List.mem_map.mpr ⟨_, he, rfl⟩

/-- The page that `createProcess` writes is the one that the table has. -/
theorem HashPageTable.Apart.segmentAddr {tlbe : TLBEntry} (h : t.Apart)
    (ht : space.pageTable = some (.hash t)) (htranslate : space.translate dst = .ok tlbe)
    (halign : dst.toNat % Hardware.pageSize = 0) :
    (PageTable.hash t).physical dst = some (physAddr (segmentAddr tlbe)) ∧
      physAddr (Kernel.segmentAddr tlbe) + Hardware.pageSize ≤ Hardware.physMemSize := by
  simp only [AddressSpace.translate, ht] at htranslate
  obtain ⟨o, hwalk, htranslate⟩ := Except.bind_ok_iff.mp htranslate
  cases o with
  | none => cases htranslate
  | some e =>
      dsimp only at htranslate
      split at htranslate
      case isFalse => cases htranslate
      case isTrue hpresent =>
        obtain rfl := Except.ok.inj htranslate
        have hphysical := PageTable.physical_eq_some.mpr ⟨e, hwalk, hpresent, rfl⟩
        obtain ⟨e', he', -, heq⟩ := h.physical_iff.mp hphysical
        have hlt := h.pfn_lt he'
        have hlo : (e.toTLBEntry (dst >>> 12) space.asid).lo &&& ~~~0b111111#32 =
            (e.pfn <<< 6) >>> 6 <<< 6 := by
          rw [← TLBEntry.construct_lo_shift, BitVec.shiftLeft_ushiftRight]
          rfl
        have haddr : physAddr (Kernel.segmentAddr (e.toTLBEntry (dst >>> 12) space.asid)) =
            e.pfn.toNat % 2 ^ 20 * Hardware.pageSize := by
          rw [Kernel.segmentAddr, hlo, physAddr, BitVec.toNat_sub, BitVec.toNat_add]
          simp only [BitVec.toNat_shiftLeft, BitVec.toNat_ushiftRight, Nat.shiftLeft_eq,
            Nat.shiftRight_eq_div_pow, BitVec.toNat_ofNat]
          unfold Hardware.pageSize
          omega
        unfold numPages at hlt
        unfold Hardware.pageSize at *
        unfold Hardware.physMemSize
        refine ⟨?_, ?_⟩
        · rw [hphysical, haddr, halign, Nat.add_zero]
        · rw [haddr]
          omega

/-- The `n` bytes of the virtual memory from `dst` on are those of the file from `p` on. -/
def HoldsSlice (t : HashPageTable) (mem : Hardware.Memory) (dst : Word) (file : List Byte)
    (p n : Nat) : Prop :=
  ∀ i < n, ∃ b, file[p + i]? = some b ∧
    (PageTable.hash t).virtualByte mem (dst + BitVec.ofNat 32 i) = some b

/-- Only bytes of `n` addresses from `dst` on were written. -/
def WritesOnly (t : HashPageTable) (dst : Word) (n : Nat) (mem mem' : Hardware.Memory) : Prop :=
  ∀ x, mem' x ≠ mem x →
    ∃ i < n, (PageTable.hash t).physical (dst + BitVec.ofNat 32 i) = some x

/-- An offset that does not wrap. -/
theorem add_ofNat_toNat {i : Nat} (h : dst.toNat + i < 2 ^ 32) :
    (dst + BitVec.ofNat 32 i).toNat = dst.toNat + i := by
  rw [BitVec.toNat_add, BitVec.toNat_ofNat]
  omega

/-- Two offsets. -/
theorem add_ofNat_add (i j : Nat) :
    dst + BitVec.ofNat 32 i + BitVec.ofNat 32 j = dst + BitVec.ofNat 32 (i + j) := by
  rw [BitVec.add_assoc, BitVec.ofNat_add]

/-- The bytes of a page in its frame. -/
theorem writesOnly_page {base : Word} (hbytes : bytes.length ≤ n) (hn : n ≤ Hardware.pageSize)
    (halign : dst.toNat % Hardware.pageSize = 0)
    (hbase : (PageTable.hash t).physical dst = some (physAddr base)) :
    WritesOnly t dst n mem (writeBytes mem base bytes) := by
  intro x hx
  have hin : physAddr base ≤ x ∧ x < physAddr base + bytes.length := by
    by_contra hout
    exact hx (writeBytes_outside (by omega))
  refine ⟨x - physAddr base, by omega, ?_⟩
  rw [physical_inside hbase (by omega), Nat.add_sub_cancel' hin.1]

/-- A page that was written holds its slice of the file. -/
theorem holdsSlice_page {base : Word} (hn : n ≤ Hardware.pageSize)
    (halign : dst.toNat % Hardware.pageSize = 0)
    (hbase : (PageTable.hash t).physical dst = some (physAddr base))
    (hroom : physAddr base + Hardware.pageSize ≤ Hardware.physMemSize)
    (hlen : (slice file p n).length = n) :
    HoldsSlice t (writeBytes mem base (slice file p n)) dst file p n := by
  intro i hi
  obtain ⟨b, hb⟩ : ∃ b, (slice file p n)[i]? = some b :=
    ⟨_, List.getElem?_eq_getElem (by omega)⟩
  refine ⟨b, by rw [← getElem?_slice hi, hb], ?_⟩
  rw [PageTable.virtualByte, physical_inside hbase (by omega)]
  show physicalByte _ (physAddr base + i) = some b
  rw [physicalByte, if_pos (by omega), writeBytes_inside hb]

/-- What was loaded stays when only other addresses are written. -/
theorem HashPageTable.Apart.holdsSlice {dst' : Word} {m : Nat} (h : t.Apart)
    (hslice : HoldsSlice t mem dst file p n) (hwrites : WritesOnly t dst' m mem mem')
    (hother : ∀ i < n, ∀ j < m, dst + BitVec.ofNat 32 i ≠ dst' + BitVec.ofNat 32 j) :
    HoldsSlice t mem' dst file p n := by
  intro i hi
  obtain ⟨b, hb, hvirtual⟩ := hslice i hi
  refine ⟨b, hb, ?_⟩
  obtain ⟨x, hx, hbyte⟩ := Option.bind_eq_some_iff.mp hvirtual
  have hsame : mem' x = mem x := by
    by_contra hne
    obtain ⟨j, hj, hxj⟩ := hwrites x hne
    exact hother i hi j hj (h.injective hx hxj)
  rw [PageTable.virtualByte, hx]
  show physicalByte mem' x = some b
  rw [physicalByte, hsame]
  exact hbyte

/-- **Segment.**  The loop over the pages loads the next bytes of the file, and writes
nothing else. -/
theorem loadPages_spec {pages : Nat} {result : Bool × Hardware.Memory × Reader}
    (hpages : n ≤ pages * Hardware.pageSize) (hpos : 0 < n)
    (halign : dst.toNat % Hardware.pageSize = 0) (hfit : dst.toNat + n < 2 ^ 32) (hd : t.Apart)
    (ht : space.pageTable = some (.hash t))
    (h : loadPages vm space pages n dst mem r = .ok result) :
    WritesOnly t dst n mem result.2.1 ∧
      ∀ {opened file p}, Serves vm opened file → Reader.At vm opened r p → result.1 = true →
        HoldsSlice t result.2.1 dst file p n ∧ Reader.At vm opened result.2.2 (p + n) := by
  induction pages generalizing n dst mem r with
  | zero => omega
  | succ pages ih =>
      rw [loadPages] at h
      obtain ⟨tlbe, htranslate, h⟩ := Except.bind_ok_iff.mp h
      obtain ⟨hbase, hroom⟩ := hd.segmentAddr ht htranslate halign
      have hmin : min n 4096 ≤ Hardware.pageSize := Nat.min_le_right _ _
      have hphys : physAddr (segmentAddr tlbe) + min n 4096 < 2 ^ 32 := by
        unfold Hardware.pageSize Hardware.physMemSize at hroom
        omega
      dsimp only at h
      split at h
      case h_1 mem1 r1 hcopy =>
        obtain rfl := Except.ok.inj h
        obtain ⟨bytes, hlen, rfl, -⟩ := streamCopyTo_spec (Nat.le_refl _) hphys hcopy
        refine ⟨fun x hx => ?_, fun _ _ hdone => nomatch hdone⟩
        obtain ⟨i, hi, hx⟩ := writesOnly_page hlen hmin halign hbase x hx
        exact ⟨i, by omega, hx⟩
      case h_2 mem1 r1 hcopy =>
        obtain ⟨bytes, hlen, rfl, hall⟩ := streamCopyTo_spec (Nat.le_refl _) hphys hcopy
        have hwrites : WritesOnly t dst (min n 4096) mem
            (writeBytes mem (segmentAddr tlbe) bytes) :=
          writesOnly_page hlen hmin halign hbase
        split at h
        case isTrue hlast =>
          obtain rfl := Except.ok.inj h
          have hn : min n 4096 = n := by omega
          rw [hn] at hwrites hmin hall
          refine ⟨hwrites, fun hserves hat _ => ?_⟩
          obtain ⟨rfl, hlen', hat'⟩ := hall hserves hat rfl
          exact ⟨holdsSlice_page hmin halign hbase hroom hlen', hat'⟩
        case isFalse hmore =>
          have hn : min n 4096 = 4096 := by omega
          rw [hn] at h hwrites hmin hall
          unfold Hardware.pageSize at hpages halign
          have hnext : (dst + BitVec.ofNat 32 4096).toNat = dst.toNat + 4096 :=
            add_ofNat_toNat (by omega)
          obtain ⟨hwrites', hrest⟩ := ih (by unfold Hardware.pageSize; omega) (by omega)
            (by unfold Hardware.pageSize; omega) (by omega) h
          refine ⟨fun x hx => ?_, fun {opened' file' q} hserves hat hdone => ?_⟩
          · by_cases hfirst : writeBytes mem (segmentAddr tlbe) bytes x = mem x
            · rw [← hfirst] at hx
              obtain ⟨i, hi, hx⟩ := hwrites' x hx
              rw [add_ofNat_add] at hx
              exact ⟨4096 + i, by omega, hx⟩
            · obtain ⟨i, hi, hx⟩ := hwrites x hfirst
              exact ⟨i, by omega, hx⟩
          · obtain ⟨rfl, hlen', hat1⟩ := hall hserves hat rfl
            obtain ⟨hslice, hat'⟩ := hrest hserves hat1 hdone
            -- the first page is not written again
            have hfirst := hd.holdsSlice
              (holdsSlice_page hmin halign hbase hroom hlen') hwrites' fun i hi j hj heq => by
                have hnat := congrArg BitVec.toNat heq
                rw [add_ofNat_add, add_ofNat_toNat (by omega), add_ofNat_toNat (by omega)] at hnat
                omega
            refine ⟨fun i hi => ?_, ?_⟩
            · by_cases hlow : i < 4096
              · exact hfirst i hlow
              · obtain ⟨b, hb, hvirtual⟩ := hslice (i - 4096) (by omega)
                have hsum : q + 4096 + (i - 4096) = q + i := by omega
                rw [add_ofNat_add, Nat.add_sub_cancel' (by omega)] at hvirtual
                rw [hsum] at hb
                exact ⟨b, hb, hvirtual⟩
            · have hsum : q + 4096 + (n - 4096) = q + n := by omega
              rw [hsum] at hat'
              exact hat'

/-- Nothing is always held. -/
theorem holdsSlice_zero : HoldsSlice t mem dst file p 0 := fun _ hi => absurd hi (Nat.not_lt_zero _)

/-- Nothing is written. -/
theorem writesOnly_rfl : WritesOnly t dst n mem mem := fun _ hx => absurd rfl hx

/-- **A segment** writes only to its own pages, and holds its slice of a file that is
served. -/
theorem loadSegment_spec {offset size : Word} {result : Bool × Hardware.Memory × Reader}
    (halign : dst.toNat % Hardware.pageSize = 0) (hfit : dst.toNat + size.toNat < 2 ^ 32)
    (hd : t.Apart) (ht : space.pageTable = some (.hash t))
    (h : loadSegment vm space dst offset size mem r = .ok result) :
    WritesOnly t dst size.toNat mem result.2.1 ∧
      ∀ {opened file p}, Serves vm opened file → Reader.At vm opened r p → result.1 = true →
        HoldsSlice t result.2.1 dst file offset.toNat size.toNat ∧
          ∃ p', Reader.At vm opened result.2.2 p' := by
  rw [loadSegment] at h
  split at h
  case isTrue hzero =>
    obtain rfl := Except.ok.inj h
    obtain rfl := hzero
    exact ⟨writesOnly_rfl, fun _ hat _ => ⟨holdsSlice_zero, _, hat⟩⟩
  case isFalse hsize =>
    have hpos : size.toNat ≠ 0 := fun hzero => hsize (BitVec.eq_of_toNat_eq hzero)
    obtain ⟨hwrites, hload⟩ := loadPages_spec
      (by unfold Hardware.pageSize; omega) (Nat.pos_of_ne_zero hpos) halign hfit hd ht h
    refine ⟨hwrites, fun hserves hat hdone => ?_⟩
    obtain ⟨hslice, hat'⟩ := hload hserves hat.seek hdone
    exact ⟨hslice, _, hat'⟩

/-- The addresses that an executable has bytes for. -/
def ExecutableInfo.Covers (info : ExecutableInfo) (a : Word) : Prop :=
  (∃ i < info.textSize.toNat, a = TEXT_START + BitVec.ofNat 32 i) ∨
    ∃ i < info.dataSize.toNat, a = STATIC_START + BitVec.ofNat 32 i

/-- **Image.**  The text is not written again when the data is loaded. -/
theorem loadImage_spec {info : ExecutableInfo} {result : Bool × Hardware.Memory × Reader}
    (htext : info.textSize.toNat < 2 ^ 27) (hdata : info.dataSize.toNat < 2 ^ 27) (hd : t.Apart)
    (ht : space.pageTable = some (.hash t))
    (h : loadImage vm space info mem r = .ok result) :
    (∀ x, result.2.1 x ≠ mem x →
      ∃ a, info.Covers a ∧ (PageTable.hash t).physical a = some x) ∧
      ∀ {opened file p}, Serves vm opened file → Reader.At vm opened r p → result.1 = true →
        HoldsSlice t result.2.1 TEXT_START file info.textOffset.toNat info.textSize.toNat ∧
          HoldsSlice t result.2.1 STATIC_START file info.dataOffset.toNat info.dataSize.toNat := by
  have hstart : TEXT_START.toNat = 0x400000 ∧ STATIC_START.toNat = 0x10000000 := ⟨rfl, rfl⟩
  obtain ⟨⟨loaded, mem1, r1⟩, hfirst, h⟩ := Except.bind_ok_iff.mp h
  obtain ⟨hwrites, hload⟩ := loadSegment_spec (by rw [hstart.1]; rfl) (by omega) hd ht hfirst
  have htextWrites (x : Nat) (hx : mem1 x ≠ mem x) :
      ∃ a, info.Covers a ∧ (PageTable.hash t).physical a = some x := by
    obtain ⟨i, hi, hx'⟩ := hwrites x hx
    exact ⟨_, Or.inl ⟨i, hi, rfl⟩, hx'⟩
  cases loaded with
  | false =>
      obtain rfl := Except.ok.inj h
      exact ⟨htextWrites, fun _ _ hdone => nomatch hdone⟩
  | true =>
      obtain ⟨hwrites', hload'⟩ :=
        loadSegment_spec (by rw [hstart.2]; rfl) (by omega) hd ht h
      refine ⟨fun x hx => ?_, fun hserves hat hdone => ?_⟩
      · by_cases hkept : mem1 x = mem x
        · rw [← hkept] at hx
          obtain ⟨i, hi, hx'⟩ := hwrites' x hx
          exact ⟨_, Or.inr ⟨i, hi, rfl⟩, hx'⟩
        · exact htextWrites x hkept
      · obtain ⟨hslice, p', hat'⟩ := hload hserves hat rfl
        obtain ⟨hslice', -⟩ := hload' hserves hat' hdone
        refine ⟨hd.holdsSlice hslice hwrites' fun i hi j hj heq => ?_, hslice'⟩
        have hnat := congrArg BitVec.toNat heq
        rw [add_ofNat_toNat (by omega), add_ofNat_toNat (by omega)] at hnat
        omega

/-! ### The new process -/

namespace SharedResources

variable {k k' k0 : SharedResources} {path : List Byte} {brk0 pid imageEnd : Word}
  {physMem : Hardware.Memory}

/-- The pages of a new process, segment by segment. -/
structure Pages (info : ExecutableInfo) (t : HashPageTable) (text static stack : List Nat) :
    Prop where
  textPages : text.length = info.textSize.toNat / 4096 + 1
  staticPages : static.length = (info.dataSize + info.bssSize).toNat / 4096 + 1
  stackPages : stack.length = 4
  short : text.length + static.length + stack.length ≤ numPages
  data : info.dataSize.toNat < 8192
  entries : t.entries.Perm (HashPageTable.initialPages text static stack)
  apart : t.Apart

/-- The number of pages that the code makes. -/
theorem pageCount_toNat (size : Word) : ((size >>> 12) + 1#32).toNat = size.toNat / 4096 + 1 := by
  rw [BitVec.toNat_add, BitVec.toNat_ushiftRight, Nat.shiftRight_eq_div_pow]
  show (size.toNat / 2 ^ 12 + 1) % 2 ^ 32 = size.toNat / 4096 + 1
  omega

/-- A new process has its pages, and they are not written. -/
theorem newProcess_pages {info : ExecutableInfo} {p : PCB}
    (h : k.newProcess info brk0 = .ok (p, k')) :
    ∃ t text static stack, p.addrSpace.pageTable = some (.hash t) ∧
      Pages info t text static stack ∧ k'.physMem = k.physMem := by
  rw [newProcess] at h
  obtain ⟨_, hdata, h⟩ := Except.bind_ok_iff.mp h
  obtain ⟨⟨t, memory⟩, htable, h⟩ := Except.bind_ok_iff.mp h
  obtain ⟨⟨addrSpace, asids⟩, hspace, h⟩ := Except.bind_ok_iff.mp h
  obtain ⟨rfl, rfl⟩ := Prod.mk.inj (Except.ok.inj h)
  obtain ⟨text, static, stack, htext, hstatic, hstack, hhands, hwf, hperm⟩ :=
    HashPageTable.construct_spec htable (by decide)
  obtain ⟨-, hpt, -⟩ := AddressSpace.construct_spec hspace
  rw [pageCount_toNat] at htext hstatic
  have hfs : ∀ f ∈ text ++ (static ++ stack), f < numPages := fun f hf => (hhands.fresh hf).2.2
  have hlen := hhands.length_le
  rw [List.length_append, List.length_append] at hlen
  have hframes : t.frames.Perm (text ++ (static ++ stack)) :=
    (hperm.map _).trans (initialPages_frames hfs)
  refine ⟨t, text, static, stack, hpt, ⟨htext, hstatic, hstack, by omega, ?_, hperm, hwf,
    hframes.nodup_iff.mpr hhands.nodup, fun f hf => hfs f (hframes.mem_iff.mp hf)⟩, rfl⟩
  have hlt : info.dataSize < 8192#32 := by
    by_contra hge
    rw [kassert, if_neg (by simpa using hge)] at hdata
    cases hdata
  exact BitVec.lt_def.mp hlt

/-- A process that was made, loaded and installed. -/
structure Loaded (k : SharedResources) (vm : Tunnel) (path : List Byte) (pid : Word)
    (k' : SharedResources) (info : ExecutableInfo) (r : Reader) (p : PCB) (t : HashPageTable)
    (text static stack : List Nat) : Prop where
  read : readExecutable vm (File.construct vm path 0 k.log) = (some info, r)
  here : k'.processes[pid.toNat]? = some (some p)
  table : p.addrSpace.pageTable = some (.hash t)
  pages : Pages info t text static stack
  image : ∃ r', loadImage vm p.addrSpace info k.physMem r = .ok (true, k'.physMem, r')

/-- A call of `createProcess` that succeeds has loaded a process. -/
theorem createProcess_loaded (h : k.createProcess vm path brk0 = .ok (pid, k'))
    (hk : k.Invariant) (hpid : pid ≠ NOPCBEXISTS) :
    ∃ info r p t text static stack, Loaded k vm path pid k' info r p t text static stack := by
  rcases createProcess_cases h with ⟨_, _, -, hfail, -⟩ |
    ⟨info, r, p, k1, physMem, f, log, hread, hnew, h⟩
  · exact absurd hfail hpid
  · rcases h with ⟨-, hfail, -⟩ | ⟨hload, hinstall⟩
    · exact absurd hfail hpid
    · obtain ⟨_, _, _, hmade, -⟩ := newProcess_spec hnew
      obtain ⟨t, text, static, stack, ht, hpages, hsame⟩ := newProcess_pages hnew
      obtain ⟨slot, hcreated, rfl, hphys⟩ := hmade.entry.created hinstall hk.sane hk.slotted
      refine ⟨info, r, { p with regCtx := { p.regCtx with epc := info.entry - 4#32 } }, t, text,
        static, stack, hread, ?_, ht, hpages, (f, log), ?_⟩
      · rw [hcreated.pid]
        exact hcreated.here
      · rw [hphys, ← hsame]
        exact hload

/-- **A loaded process** holds text and data of its file, and nothing else was written. -/
theorem Loaded.spec {info : ExecutableInfo} {p : PCB} {text static stack : List Nat}
    (h : Loaded k vm path pid k' info r p t text static stack)
    (hserves : Serves vm (.fopen path 0 :: k.log) file) :
    info = Executable.info file ∧
      HoldsSlice t k'.physMem TEXT_START file info.textOffset.toNat info.textSize.toNat ∧
      HoldsSlice t k'.physMem STATIC_START file info.dataOffset.toNat info.dataSize.toNat ∧
      ∀ x, k'.physMem x ≠ k.physMem x →
        ∃ a, info.Covers a ∧ (PageTable.hash t).physical a = some x := by
  obtain ⟨hinfo, q, hat⟩ := readExecutable_spec hserves at_construct h.read
  obtain ⟨r', hload⟩ := h.image
  have hshort := h.pages.short
  have hdata := h.pages.data
  rw [h.pages.textPages] at hshort
  unfold numPages at hshort
  obtain ⟨hwrites, hslices⟩ := loadImage_spec (by omega) (by omega) h.pages.apart h.table hload
  obtain ⟨htext, hstatic⟩ := hslices hserves hat rfl
  exact ⟨hinfo, htext, hstatic, hwrites⟩

/-- **Loading.**  Whatever the machine has done so far, a process that `createProcess`
makes has the bytes of the `.text` and of the `.data` section at the starts of its
segments, and only frames of its own page table were written. -/
theorem createProcess_loads (hboot : construct imageEnd brk0 physMem = .ok k0)
    (hrun : Reaches Step (fun _ _ => True) k0 k)
    (hserves : Serves vm (.fopen path 0 :: k.log) file) {brk : Word}
    (hcreate : k.createProcess vm path brk = .ok (pid, k')) (hpid : pid ≠ NOPCBEXISTS) :
    ∃ p t, k'.processes[pid.toNat]? = some (some p) ∧ p.addrSpace.pageTable = some (.hash t) ∧
      HoldsSlice t k'.physMem TEXT_START file (Executable.text file).offset.toNat
        (Executable.text file).size.toNat ∧
      HoldsSlice t k'.physMem STATIC_START file (Executable.data file).offset.toNat
        (Executable.data file).size.toNat ∧
      ∀ x, k'.physMem x ≠ k.physMem x → x / Hardware.pageSize ∈ t.frames := by
  obtain ⟨info, r, p, t, text, static, stack, hloaded⟩ :=
    createProcess_loaded hcreate (invariant_of_reaches hboot hrun) hpid
  obtain ⟨rfl, htext, hstatic, hwrites⟩ := hloaded.spec hserves
  refine ⟨p, t, hloaded.here, hloaded.table, htext, hstatic, fun x hx => ?_⟩
  obtain ⟨a, -, hphysical⟩ := hwrites x hx
  exact hloaded.pages.apart.mem_frames hphysical

/-- The first process after the boot. -/
def firstProcess (vm : Tunnel) : Option (SharedResources × Word × SharedResources) :=
  (construct 0x80001000 0 fun _ => 0).toOption.bind fun k0 =>
    (k0.createProcess vm [] 0).toOption.map fun created => (k0, created)

/-- The first process is made right behind the boot. -/
theorem firstProcess_spec (h : firstProcess vm = some (k, pid, k')) :
    construct 0x80001000 0 (fun _ => 0) = .ok k ∧ k.createProcess vm [] 0 = .ok (pid, k') := by
  obtain ⟨k0, hboot, h⟩ := Option.bind_eq_some_iff.mp h
  obtain ⟨created, hcreate, heq⟩ := Option.map_eq_some_iff.mp h
  obtain ⟨rfl, rfl⟩ := Prod.mk.inj heq
  exact ⟨toOption_eq_some hboot, toOption_eq_some hcreate⟩

/-- An executable with text, data and bss. -/
def smallProgram : List Byte :=
  Executable.build 0x400000 (List.replicate 300 7) [1, 2, 3] 0x10000004 8

/-- The text and the data of that executable in the first process, read from a host that
returns at most 200 bytes at a time. -/
theorem smallProgram_loaded : ∃ k0 k', firstProcess (fileHost smallProgram 200) = some (k0, 0, k') ∧
    ∃ p t, k'.processes[0]? = some (some p) ∧ p.addrSpace.pageTable = some (.hash t) ∧
      HoldsSlice t k'.physMem TEXT_START smallProgram 232 300 ∧
      HoldsSlice t k'.physMem STATIC_START smallProgram 532 3 ∧
      ∀ x, k'.physMem x ≠ k0.physMem x → x / Hardware.pageSize ∈ t.frames := by
  have hruns : (firstProcess (fileHost smallProgram 200)).any (fun r => r.2.1 == 0) = true := by
    decide +kernel
  obtain ⟨⟨k0, pid, k'⟩, hfirst, hpid⟩ := (Option.any_eq_true _ _).mp hruns
  obtain rfl := eq_of_beq hpid
  obtain ⟨hboot, hcreate⟩ := firstProcess_spec hfirst
  have htext : (Executable.text smallProgram).offset.toNat = 232 ∧
      (Executable.text smallProgram).size.toNat = 300 := by decide +kernel
  have hdata : (Executable.data smallProgram).offset.toNat = 532 ∧
      (Executable.data smallProgram).size.toNat = 3 := by decide +kernel
  have hloads := createProcess_loads hboot .refl fileHost_serves hcreate (by decide)
  rw [htext.1, htext.2, hdata.1, hdata.2] at hloads
  exact ⟨k0, k', hfirst, hloads⟩

/-- **Failing.**  Wherever the loading of an executable fails, no frame, no identifier
and no slot is taken. -/
theorem failed_createProcess_restores (hboot : construct imageEnd brk0 physMem = .ok k0)
    (hrun : Reaches Step (fun _ _ => True) k0 k) {brk : Word}
    (hcreate : k.createProcess vm path brk = .ok (NOPCBEXISTS, k')) :
    k'.memory.reservedPages = k.memory.reservedPages ∧ k'.reservedASIDs = k.reservedASIDs ∧
      k'.processes = k.processes ∧ k'.freePids = k.freePids := by
  have hk := invariant_of_reaches hboot hrun
  rcases createProcess_spec hcreate hk.sane hk.slotted with ⟨-, hundone⟩ |
    ⟨p, slot, hpid, hcreated, -⟩
  · obtain ⟨hmemory, hasids⟩ := hundone.restored
    exact ⟨congrArg _ hmemory, hasids, hundone.processes, hundone.freePids⟩
  · exact absurd hpid.symm hcreated.pid_ne

/-- The program without the last byte of its data: the text is loaded before that is
found out. -/
theorem truncated_program_restores : ∃ k0 k',
    firstProcess (fileHost smallProgram.dropLast 256) = some (k0, NOPCBEXISTS, k') ∧
    k'.physMem 0x41000 = 7 ∧ k'.memory.reservedPages = k0.memory.reservedPages ∧
      k'.reservedASIDs = k0.reservedASIDs ∧ k'.processes = k0.processes ∧
      k'.freePids = k0.freePids := by
  have hruns : (firstProcess (fileHost smallProgram.dropLast 256)).any (fun r =>
      r.2.1 == NOPCBEXISTS && r.2.2.physMem 0x41000 == 7) = true := by
    decide +kernel
  obtain ⟨⟨k0, pid, k'⟩, hfirst, hcheck⟩ := (Option.any_eq_true _ _).mp hruns
  obtain ⟨hpid, hloaded⟩ := (Bool.and_eq_true _ _).mp hcheck
  obtain rfl := eq_of_beq hpid
  obtain ⟨hboot, hcreate⟩ := firstProcess_spec hfirst
  exact ⟨k0, k', hfirst, eq_of_beq hloaded, failed_createProcess_restores hboot .refl hcreate⟩

end SharedResources

end Kernel
