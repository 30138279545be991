import BobbyOS.Lib.BigEndian
import BobbyOS.Machine.UserIsolation

/-!
# Accesses of several bytes

A halfword or word access translates its first address only, and takes the bytes that
follow in physical memory.  The bytewise access translates every address for itself.

* `translate_offset`: within a page the translations go on byte by byte.
* `accesses_bytewise`: so an aligned access is the bytewise one, and a load finds what
  was stored, by whatever widths and through whatever pages.
-/

namespace Hardware

variable {m : Memory} {tlb : TLB} {asid : Byte} {addr : Word} {n p i : Nat}

/-- The widths of the accessors. -/
inductive Width
  | byte | halfWord | word
deriving DecidableEq

namespace Width

/-- How many bytes an access takes. -/
def bytes : Width → Nat
  | byte => 1
  | halfWord => 2
  | word => 4

/-- `getByte`, `getHalfWord` or `getWord`. -/
def load (w : Width) (m : Memory) (addr : Word) (tlb : TLB) (asid : Byte) : Except Fault Nat :=
  match w with
  | byte => (m.getByte addr tlb asid).map BitVec.toNat
  | halfWord => (m.getHalfWord addr tlb asid).map BitVec.toNat
  | word => (m.getWord addr tlb asid).map BitVec.toNat

/-- `setByte`, `setHalfWord` or `setWord` of the number, as far as it fits. -/
def store (w : Width) (m : Memory) (addr : Word) (v : Nat) (tlb : TLB) (asid : Byte) :
    Except Fault Memory :=
  match w with
  | byte => m.setByte addr (BitVec.ofNat 8 v) tlb asid
  | halfWord => m.setHalfWord addr (BitVec.ofNat 16 v) tlb asid
  | word => m.setWord addr (BitVec.ofNat 32 v) tlb asid

end Width

/-- `getByte` at each of `n` addresses. -/
def Memory.getBytes (m : Memory) (tlb : TLB) (asid : Byte) :
    Nat → Word → Except Fault (List Byte)
  | 0, _ => .ok []
  | n + 1, addr => do
      let b ← m.getByte addr tlb asid
      let bs ← m.getBytes tlb asid n (addr + 1#32)
      return b :: bs

/-- `setByte` at each of the addresses from `addr` on. -/
def Memory.setBytes (tlb : TLB) (asid : Byte) : List Byte → Memory → Word → Except Fault Memory
  | [], m, _ => .ok m
  | b :: bs, m, addr => do
      let m ← m.setByte addr b tlb asid
      Memory.setBytes tlb asid bs m (addr + 1#32)

/-- Each of the `n` addresses translates to a byte of the memory. -/
def ReachesBytes (tlb : TLB) (asid : Byte) (addr : Word) (n : Nat) : Prop :=
  ∀ i < n, ∃ q, tlb.translate (addr + BitVec.ofNat 32 i) .load asid = .ok q ∧
    q.toNat < physMemSize

/-! ### Addresses of one page -/

/-- An aligned access does not leave its page. -/
theorem offset_lt_page {w : Nat} (hw : w ∣ pageSize) (halign : addr.toNat % w = 0) (hi : i < w) :
    addr.toNat % pageSize + i < pageSize := by
  obtain ⟨c, hc⟩ := hw
  have hlt : addr.toNat % pageSize < w * c := hc ▸ Nat.mod_lt _ (by decide)
  have hmod : addr.toNat % pageSize % w = 0 := by
    rw [hc, Nat.mod_mul_right_mod, halign]
  obtain ⟨q, hq⟩ := Nat.dvd_of_mod_eq_zero hmod
  have hqc : q < c := by
    rw [hq] at hlt
    exact Nat.lt_of_mul_lt_mul_left hlt
  calc addr.toNat % pageSize + i < w * q + w := by rw [hq]; exact Nat.add_lt_add_left hi _
    _ = w * (q + 1) := (Nat.mul_succ _ _).symm
    _ ≤ w * c := Nat.mul_le_mul_left _ hqc
    _ = pageSize := hc.symm

/-- An offset within the page does not wrap. -/
theorem toNat_add_offset (hroom : addr.toNat % pageSize + i < pageSize) :
    (addr + BitVec.ofNat 32 i).toNat = addr.toNat + i := by
  have hlt := addr.isLt
  rw [pageSize] at hroom
  rw [BitVec.toNat_add, BitVec.toNat_ofNat]
  omega

/-- **Within a page** the translations go on byte by byte, for loads and stores. -/
theorem translate_offset (hroom : addr.toNat % pageSize + i < pageSize) {type type' : LookupType}
    {q : Word} (h : tlb.translate addr type asid = .ok q) :
    ∃ q', tlb.translate (addr + BitVec.ofNat 32 i) type' asid = .ok q' ∧
      q'.toNat = q.toNat + i := by
  have hadd := toNat_add_offset hroom
  have hlt := addr.isLt
  rw [pageSize] at hroom
  have hpage : (addr + BitVec.ofNat 32 i) >>> 12 = addr >>> 12 := by
    apply BitVec.eq_of_toNat_eq
    rw [BitVec.toNat_ushiftRight, BitVec.toNat_ushiftRight, hadd, Nat.shiftRight_eq_div_pow,
      Nat.shiftRight_eq_div_pow]
    omega
  have hentry : tlb.entryFor (addr + BitVec.ofNat 32 i) asid = tlb.entryFor addr asid := by
    rw [TLB.entryFor, TLB.entryFor, hpage]
  rcases (translate_ok_iff tlb addr type asid q).mp h with ⟨hd, rfl⟩ | ⟨hd, e, he, rfl⟩
  · have hrange := (directMapped_iff addr).mp hd
    refine ⟨_, (translate_ok_iff _ _ _ _ _).mpr (.inl ⟨?_, rfl⟩), ?_⟩
    · rw [directMapped_iff, hadd]
      omega
    · rw [BitVec.toNat_sub, BitVec.toNat_sub, hadd]
      show _ % 2 ^ 32 = _ % 2 ^ 32 + i
      have : (0x80000000#32 : Word).toNat = 0x80000000 := rfl
      omega
  · refine ⟨_, (translate_ok_iff _ _ _ _ _).mpr (.inr ⟨?_, e, hentry.trans he, rfl⟩), ?_⟩
    · rw [Bool.eq_false_iff] at hd ⊢
      rw [ne_eq, directMapped_iff] at hd ⊢
      rw [hadd]
      omega
    · rw [frame_offset_toNat, frame_offset_toNat, hadd, pageSize]
      omega

/-! ### The physical bytes of an access -/

/-- The `n` addresses from `addr` on stand for the bytes from `p` on. -/
structure Maps (tlb : TLB) (asid : Byte) (addr : Word) (n p : Nat) : Prop where
  translated : ∀ i < n, ∀ type, ∃ q,
    tlb.translate (addr + BitVec.ofNat 32 i) type asid = .ok q ∧ q.toNat = p + i
  inside : p + n ≤ physMemSize

/-- An aligned access that reaches the memory. -/
theorem ReachesBytes.maps {w : Nat} (h : ReachesBytes tlb asid addr w) (hw : w ∣ pageSize)
    (halign : addr.toNat % w = 0) (hpos : 0 < w) :
    ∃ p, Maps tlb asid addr w p ∧ p % w = 0 := by
  obtain ⟨q, hq, hlt⟩ := h 0 hpos
  rw [BitVec.add_zero] at hq
  refine ⟨q.toNat, ⟨fun i hi type => translate_offset (offset_lt_page hw halign hi) hq, ?_⟩, ?_⟩
  · obtain ⟨r, hr, hlast⟩ := h (w - 1) (by omega)
    have hlt : w - 1 < w := by omega
    obtain ⟨r', hr', heq⟩ := translate_offset (offset_lt_page hw halign hlt) hq
    obtain rfl := Except.ok.inj (hr.symm.trans hr')
    omega
  · rw [translate_mod hw hq, halign]

/-- The access without its first byte. -/
theorem Maps.tail (h : Maps tlb asid addr (n + 1) p) : Maps tlb asid (addr + 1#32) n (p + 1) := by
  refine ⟨fun i hi type => ?_, ?_⟩
  · obtain ⟨q, hq, heq⟩ := h.translated (i + 1) (Nat.succ_lt_succ hi) type
    refine ⟨q, ?_, ?_⟩
    · rw [BitVec.add_assoc, BitVec.ofNat_add_ofNat, Nat.add_comm 1 i]
      exact hq
    · omega
  · have := h.inside
    omega

/-- The first byte of mapped addresses is translated. -/
theorem Maps.head (h : Maps tlb asid addr (n + 1) p) (type : LookupType) :
    ∃ q, tlb.translate addr type asid = .ok q ∧ q.toNat = p := by
  obtain ⟨q, hq, heq⟩ := h.translated 0 (Nat.succ_pos n) type
  rw [BitVec.add_zero] at hq
  exact ⟨q, hq, heq⟩

/-- It is read there. -/
theorem Maps.getByte (h : Maps tlb asid addr (n + 1) p) :
    m.getByte addr tlb asid = .ok (m p) := by
  obtain ⟨q, hq, rfl⟩ := h.head .load
  have := h.inside
  rw [Memory.getByte, hq, Except.ok_bind, Memory.read, if_pos (by omega)]

/-- It is written there. -/
theorem Maps.setByte (h : Maps tlb asid addr (n + 1) p) (b : Byte) :
    m.setByte addr b tlb asid = .ok (Function.update m p b) := by
  obtain ⟨q, hq, rfl⟩ := h.head .store
  have := h.inside
  rw [Memory.setByte, hq, Except.ok_bind, Memory.write, if_pos (by omega)]

/-- Mapped addresses are read byte for byte. -/
theorem Maps.getBytes (h : Maps tlb asid addr n p) :
    m.getBytes tlb asid n addr = .ok ((List.range' p n).map m) := by
  induction n generalizing addr p with
  | zero => rfl
  | succ n ih =>
      rw [Memory.getBytes, h.getByte, Except.ok_bind, ih h.tail]
      rfl

/-- The bytes written from `p` on. -/
def putBytes : List Byte → Memory → Nat → Memory
  | [], m, _ => m
  | b :: bs, m, p => putBytes bs (Function.update m p b) (p + 1)

/-- What stands at an address after bytes have been put in a row. -/
theorem putBytes_apply {bs : List Byte} {j : Nat} :
    putBytes bs m p j = if p ≤ j then (bs[j - p]?).getD (m j) else m j := by
  induction bs generalizing m p with
  | nil => simp [putBytes]
  | cons b bs ih =>
      rw [putBytes, ih]
      rcases Nat.lt_trichotomy j p with hlt | rfl | hlt
      · rw [if_neg (by omega), if_neg (by omega), Function.update_of_ne (by omega)]
      · rw [if_neg (by omega), if_pos (Nat.le_refl _), Nat.sub_self, Function.update_self]
        rfl
      · rw [if_pos (by omega), if_pos (by omega), Function.update_of_ne (by omega),
          show j - p = j - (p + 1) + 1 by omega, List.getElem?_cons_succ]

/-- Mapped addresses are written byte for byte. -/
theorem Maps.setBytes {bs : List Byte} (h : Maps tlb asid addr bs.length p) :
    Memory.setBytes tlb asid bs m addr = .ok (putBytes bs m p) := by
  induction bs generalizing m addr p with
  | nil => rfl
  | cons b bs ih =>
      rw [Memory.setBytes, h.setByte, Except.ok_bind, ih h.tail]
      rfl

/-! ### The accessors -/

/-- An aligned access does not cross a page. -/
theorem width_dvd (w : Width) : w.bytes ∣ pageSize := by
  cases w <;> decide

/-- No access is empty. -/
theorem width_pos (w : Width) : 0 < w.bytes := by
  cases w <;> decide

/-- The alignment assertion holds of an aligned address. -/
theorem hostAssert_aligned {q : Word} {k : Nat} {message : String} (hk : k < 2 ^ 32)
    (h : q.toNat % k = 0) : hostAssert (q % BitVec.ofNat 32 k == 0#32) message = .ok () := by
  rw [(word_mod_beq_zero q k hk).mpr h]
  rfl

/-- A byte shifted to its place in a wider word. -/
theorem toNat_byte_shift {k l : Nat} (b : Byte) (h : 8 + l ≤ k) :
    (b.setWidth k <<< l).toNat = b.toNat <<< l := by
  have hk : 2 ^ 8 ≤ 2 ^ k := Nat.pow_le_pow_right (by decide) (by omega)
  have hlt : b.toNat * 2 ^ l < 2 ^ k := by
    calc b.toNat * 2 ^ l < 2 ^ 8 * 2 ^ l := Nat.mul_lt_mul_of_pos_right b.isLt (Nat.two_pow_pos l)
      _ = 2 ^ (8 + l) := (Nat.pow_add _ _ _).symm
      _ ≤ 2 ^ k := Nat.pow_le_pow_right (by decide) h
  rw [BitVec.toNat_shiftLeft, BitVec.toNat_setWidth, Nat.mod_eq_of_lt (Nat.lt_of_lt_of_le b.isLt hk),
    Nat.shiftLeft_eq, Nat.mod_eq_of_lt hlt]

/-- A byte of a wider word. -/
theorem byte_ofNat_shift {k l v : Nat} (h : 8 + l ≤ k) :
    (BitVec.ofNat k v >>> l).setWidth 8 = BitVec.ofNat 8 (v >>> l) := by
  refine BitVec.eq_of_getLsbD_eq fun i hi => ?_
  rw [BitVec.getLsbD_setWidth, BitVec.getLsbD_ushiftRight, BitVec.getLsbD_ofNat,
    BitVec.getLsbD_ofNat, Nat.testBit_shiftRight, decide_eq_true (show l + i < k by omega),
    Bool.true_and]

/-- The mask before the cast to a byte does nothing. -/
theorem setWidth_and_mask (x : HalfWord) : (x &&& 0xFF#16).setWidth 8 = x.setWidth 8 := by
  rw [BitVec.setWidth_and, show (0xFF#16).setWidth 8 = BitVec.allOnes 8 by decide,
    BitVec.and_allOnes]

/-- Nor does it for a word. -/
theorem word_and_mask (x : Word) : (x &&& 0xFF#32).setWidth 8 = x.setWidth 8 := by
  rw [BitVec.setWidth_and, show (0xFF#32).setWidth 8 = BitVec.allOnes 8 by decide,
    BitVec.and_allOnes]

/-- **A load** reads the bytes that the address stands for. -/
theorem Maps.load {w : Width} (h : Maps tlb asid addr w.bytes p) (halign : p % w.bytes = 0) :
    w.load m addr tlb asid = .ok (BigEndian.value ((List.range' p w.bytes).map m)) := by
  have hin := h.inside
  cases w with
  | byte =>
      rw [Width.load, h.getByte]
      simp [Width.bytes, BigEndian.value_cons, Except.map]
  | halfWord =>
      obtain ⟨q, hq, rfl⟩ := h.head .load
      replace hin : q.toNat + 2 ≤ physMemSize := hin
      replace halign : q.toNat % 2 = 0 := halign
      rw [Width.load, Memory.getHalfWord, hq, Except.ok_bind, hostAssert_aligned (by decide) halign,
        Except.ok_bind, Memory.read, if_pos (by omega), Except.ok_bind, Memory.read,
        if_pos (by omega), Except.ok_bind]
      refine congrArg Except.ok ?_
      show _ = BigEndian.value [m q.toNat, m (q.toNat + 1)]
      have hlow := toNat_byte_shift (l := 0) (m (q.toNat + 1)) (show 8 + 0 ≤ 16 by decide)
      rw [BitVec.shiftLeft_zero, Nat.shiftLeft_zero] at hlow
      rw [BitVec.toNat_or, toNat_byte_shift _ (by decide), hlow, BigEndian.value_pair]
  | word =>
      obtain ⟨q, hq, rfl⟩ := h.head .load
      replace hin : q.toNat + 4 ≤ physMemSize := hin
      replace halign : q.toNat % 4 = 0 := halign
      rw [Width.load, Memory.getWord, hq, Except.ok_bind, hostAssert_aligned (by decide) halign,
        Except.ok_bind, Memory.read, if_pos (by omega), Except.ok_bind, Memory.read,
        if_pos (by omega), Except.ok_bind, Memory.read, if_pos (by omega), Except.ok_bind,
        Memory.read, if_pos (by omega), Except.ok_bind]
      refine congrArg Except.ok ?_
      show _ = BigEndian.value
        [m q.toNat, m (q.toNat + 1), m (q.toNat + 2), m (q.toNat + 3)]
      have hlow := toNat_byte_shift (l := 0) (m (q.toNat + 3)) (show 8 + 0 ≤ 32 by decide)
      rw [BitVec.shiftLeft_zero, Nat.shiftLeft_zero] at hlow
      rw [loadBigEndian, BitVec.toNat_or, BitVec.toNat_or, BitVec.toNat_or,
        toNat_byte_shift _ (by decide), toNat_byte_shift _ (by decide),
        toNat_byte_shift _ (by decide), hlow]
      simp [BigEndian.value_cons, Nat.or_assoc]

/-- **A store** writes the bytes of the number where the address stands for. -/
theorem Maps.store {w : Width} (h : Maps tlb asid addr w.bytes p) (halign : p % w.bytes = 0)
    (v : Nat) : w.store m addr v tlb asid = .ok (putBytes (BigEndian.encode w.bytes v) m p) := by
  have hin := h.inside
  cases w with
  | byte => exact h.setByte _
  | halfWord =>
      obtain ⟨q, hq, rfl⟩ := h.head .store
      replace hin : q.toNat + 2 ≤ physMemSize := hin
      have hlow := byte_ofNat_shift (l := 0) (v := v) (show 8 + 0 ≤ 16 by decide)
      rw [BitVec.ushiftRight_zero] at hlow
      refine (setHalfWord_ok_iff hq).mpr ⟨(word_mod_beq_zero q 2 (by decide)).mpr halign,
        by omega, by omega, ?_⟩
      rw [setWidth_and_mask, byte_ofNat_shift (by decide), hlow]
      rfl
  | word =>
      obtain ⟨q, hq, rfl⟩ := h.head .store
      replace hin : q.toNat + 4 ≤ physMemSize := hin
      have hlow := byte_ofNat_shift (l := 0) (v := v) (show 8 + 0 ≤ 32 by decide)
      rw [BitVec.ushiftRight_zero] at hlow
      refine (setWord_ok_iff hq).mpr ⟨(word_mod_beq_zero q 4 (by decide)).mpr halign,
        by omega, ?_⟩
      rw [word_and_mask, word_and_mask, word_and_mask, byte_ofNat_shift (by decide),
        byte_ofNat_shift (by decide), byte_ofNat_shift (by decide), hlow]
      rfl

/-! ### The bytewise accesses -/

/-- The two addresses translate to one byte of the memory. -/
def SameByte (tlb : TLB) (asid : Byte) (addr : Word) (tlb' : TLB) (asid' : Byte)
    (addr' : Word) : Prop :=
  ∃ q, tlb.translate addr .store asid = .ok q ∧ tlb'.translate addr' .load asid' = .ok q

/-- **Aligned accesses are bytewise.**  A load gives the number that the bytes at the
consecutive addresses spell, and a store does what the stores of the bytes do.  It
changes no other byte, whatever pages a later load of any width goes through. -/
theorem accesses_bytewise (m : Memory) {w : Width} (halign : addr.toNat % w.bytes = 0)
    (hreach : ReachesBytes tlb asid addr w.bytes) :
    (∃ bs, m.getBytes tlb asid w.bytes addr = .ok bs ∧
      w.load m addr tlb asid = .ok (BigEndian.value bs)) ∧
    ∀ v, ∃ m', w.store m addr v tlb asid = .ok m' ∧
      Memory.setBytes tlb asid (BigEndian.encode w.bytes v) m addr = .ok m' ∧
      (∀ j, (∀ i < w.bytes, ∀ q, tlb.translate (addr + BitVec.ofNat 32 i) .store asid = .ok q →
        q.toNat ≠ j) → m' j = m j) ∧
      ∀ (tlb' : TLB) (asid' : Byte) (addr' : Word) (w' : Width), addr'.toNat % w'.bytes = 0 →
        ReachesBytes tlb' asid' addr' w'.bytes →
        ∃ bs, w'.load m' addr' tlb' asid' = .ok (BigEndian.value bs) ∧ bs.length = w'.bytes ∧
          ∀ j < w'.bytes,
            (∀ i < w.bytes, SameByte tlb asid (addr + BitVec.ofNat 32 i) tlb' asid'
              (addr' + BitVec.ofNat 32 j) → bs[j]? = (BigEndian.encode w.bytes v)[i]?) ∧
            ((∀ i < w.bytes, ¬ SameByte tlb asid (addr + BitVec.ofNat 32 i) tlb' asid'
              (addr' + BitVec.ofNat 32 j)) →
              ∃ b, m.getByte (addr' + BitVec.ofNat 32 j) tlb' asid' = .ok b ∧
                bs[j]? = some b) := by
  obtain ⟨p, hmaps, hp⟩ := hreach.maps (width_dvd w) halign (width_pos w)
  refine ⟨⟨_, hmaps.getBytes, hmaps.load hp⟩, fun v => ?_⟩
  have hlength : (BigEndian.encode w.bytes v).length = w.bytes := BigEndian.length_encode
  have hmaps' := hmaps
  rw [← hlength] at hmaps'
  refine ⟨_, hmaps.store hp v, hmaps'.setBytes, fun j hj => ?_, ?_⟩
  · rw [putBytes_apply]
    split
    case isFalse => rfl
    case isTrue hle =>
      rcases Nat.lt_or_ge (j - p) w.bytes with hlt | hge
      · obtain ⟨q, hq, heq⟩ := hmaps.translated (j - p) hlt .store
        exact absurd (show q.toNat = j by omega) (hj _ hlt q hq)
      · rw [List.getElem?_eq_none (by omega)]
        rfl
  · intro tlb' asid' addr' w' halign' hreach'
    obtain ⟨p', hmaps₁, hp'⟩ := hreach'.maps (width_dvd w') halign' (width_pos w')
    refine ⟨_, hmaps₁.load hp', by rw [List.length_map, List.length_range'], fun j hj => ?_⟩
    obtain ⟨r, hr, hrp⟩ := hmaps₁.translated j hj .load
    have hget : ((List.range' p' w'.bytes).map
        (putBytes (BigEndian.encode w.bytes v) m p))[j]? =
          some (putBytes (BigEndian.encode w.bytes v) m p (p' + j)) := by
      rw [List.getElem?_map, List.getElem?_range' hj, Nat.one_mul]
      rfl
    rw [hget, putBytes_apply]
    constructor
    · rintro i hi ⟨q, hq, hq'⟩
      obtain ⟨q', hq'', heq⟩ := hmaps.translated i hi .store
      obtain rfl := Except.ok.inj (hq.symm.trans hq'')
      obtain rfl := Except.ok.inj (hr.symm.trans hq')
      rw [if_pos (by omega), show p' + j - p = i by omega,
        List.getElem?_eq_getElem (by omega)]
      rfl
    · intro hother
      refine ⟨m (p' + j), ?_, ?_⟩
      · have hlt := hmaps₁.inside
        rw [Memory.getByte, hr, Except.ok_bind, Memory.read, if_pos (by omega), hrp]
      · split
        case isFalse => rfl
        case isTrue hle =>
          rcases Nat.lt_or_ge (p' + j - p) w.bytes with hlt | hge
          · obtain ⟨q, hq, heq⟩ := hmaps.translated _ hlt .store
            have hqr : q = r := BitVec.eq_of_toNat_eq (by omega)
            exact absurd ⟨q, hq, hqr ▸ hr⟩ (hother _ hlt)
          · rw [List.getElem?_eq_none (by omega)]
            rfl

/-- Two pages with one frame. -/
def sharedFrame : TLB := fun i =>
  if i.val = 0 then { vpn := 0, pfn := 5, valid := true, dirty := true, global := true }
  else if i.val = 1 then { vpn := 1, pfn := 5, valid := true, dirty := true, global := true }
  else {}

/-- A word stored through one page, and its lower half loaded through the other. -/
theorem accesses_bytewise_shared : ∃ m',
    Width.word.store (fun _ => 0) 0x10#32 0x01020304 sharedFrame 0 = .ok m' ∧
    ∃ bs, Width.halfWord.load m' 0x1012#32 sharedFrame 0 = .ok (BigEndian.value bs) ∧
      bs[0]? = some 3 ∧ bs[1]? = some 4 := by
  have hreach : ReachesBytes sharedFrame 0 0x10#32 Width.word.bytes := fun i hi =>
    match i, hi with
    | 0, _ => ⟨0x5010#32, rfl, by decide⟩
    | 1, _ => ⟨0x5011#32, rfl, by decide⟩
    | 2, _ => ⟨0x5012#32, rfl, by decide⟩
    | 3, _ => ⟨0x5013#32, rfl, by decide⟩
  have hreach' : ReachesBytes sharedFrame 0 0x1012#32 Width.halfWord.bytes := fun i hi =>
    match i, hi with
    | 0, _ => ⟨0x5012#32, rfl, by decide⟩
    | 1, _ => ⟨0x5013#32, rfl, by decide⟩
  obtain ⟨m', hstore, -, -, hload⟩ :=
    (accesses_bytewise (fun _ => 0) (by decide) hreach).2 0x01020304
  obtain ⟨bs, hbs, -, hbytes⟩ := hload sharedFrame 0 0x1012#32 .halfWord (by decide) hreach'
  exact ⟨m', hstore, bs, hbs, (hbytes 0 (by decide)).1 2 (by decide) ⟨0x5012#32, rfl, rfl⟩,
    (hbytes 1 (by decide)).1 3 (by decide) ⟨0x5013#32, rfl, rfl⟩⟩

end Hardware
