import BobbyOS.Lib.BigEndian
import BobbyOS.Lib.Result
import Mathlib.Data.Fin.VecNotation
import Mathlib.Data.List.GetD

/-!
# WebSocket frames

`parse` takes apart what a client sends, with a length in one of three forms and
a key that masks the payload; `convertToPacket` puts together what the server
sends, once at run time and once at compile time.  A `size_t` wraps at `2 ^ 64`.

* `parse_exact`: a parse fails on the vectors that are cut off and otherwise
  gives the announced payload, exactly as long as the announced length does not
  wrap around.
* `convertToPacket_exact`: what the server sends is parsed to the same bytes, and
  both encoders agree.
-/

namespace WebSocket

abbrev Byte := BitVec 8

scoped instance : LawfulBEq Byte := inferInstance

/-- What a parse can run into: a size that no vector has, and a read past the end
of a vector. -/
inductive Exception
  | lengthError
  | outOfBounds
deriving DecidableEq

/-- `std::vector<char>::max_size()`. -/
def maxSize : Nat := 2 ^ 63 - 1

/-- `std::vector<char>`. -/
abbrev Bytes := { bytes : List Byte // bytes.length ≤ maxSize }

/-- The opcode of a text frame. -/
def TEXT_FRAME : Byte := 1

/-- `ClientToServerPacket`. -/
structure ClientToServerPacket where
  payload : List Byte := []
  opcode : Byte := 0
  fin : Bool := false
  mask : Bool := false
  failedParse : Bool := false
deriving DecidableEq

/-- `bytes[i]`. -/
def read (bytes : List Byte) (i : Nat) : Except Exception Byte :=
  match bytes[i % 2 ^ 64]? with
  | some b => .ok b
  | none => .error .outOfBounds

namespace ClientToServerPacket

/-- `payloadLen` and the offset behind it, if the vector reaches that far. -/
def payloadLen (bytes : List Byte) (tpayload : Nat) : Except Exception (Option (Nat × Nat)) :=
  if tpayload ≤ 125 then .ok (some (tpayload, 2))
  else if tpayload = 126 then
    if bytes.length < 4 then .ok none
    else do
      let b2 ← read bytes 2
      let b3 ← read bytes 3
      .ok (some (b2.toNat <<< 8 ||| b3.toNat, 4))
  else if bytes.length < 10 then .ok none
  else do
    let b2 ← read bytes 2
    let b3 ← read bytes 3
    let b4 ← read bytes 4
    let b5 ← read bytes 5
    let b6 ← read bytes 6
    let b7 ← read bytes 7
    let b8 ← read bytes 8
    let b9 ← read bytes 9
    .ok (some (b2.toNat <<< 56 ||| b3.toNat <<< 48 ||| b4.toNat <<< 40 ||| b5.toNat <<< 32 |||
      b6.toNat <<< 24 ||| b7.toNat <<< 16 ||| b8.toNat <<< 8 ||| b9.toNat, 10))

/-- `maskKey` and the offset behind it, if the vector reaches that far. -/
def maskKey (bytes : List Byte) (mask : Bool) (offset : Nat) :
    Except Exception (Option ((Fin 4 → Byte) × Nat)) :=
  if mask then
    if bytes.length < offset + 4 then .ok none
    else do
      let k0 ← read bytes offset
      let k1 ← read bytes (offset + 1)
      let k2 ← read bytes (offset + 2)
      let k3 ← read bytes (offset + 3)
      .ok (some (![k0, k1, k2, k3], offset + 4))
  else .ok (some (fun _ => 0, offset))

/-- The last `count` turns of the loop that fills the payload, from index `i` on. -/
def unmask (bytes : List Byte) (mask : Bool) (maskKey : Fin 4 → Byte) (offset : Nat) :
    Nat → Nat → Except Exception (List Byte)
  | 0, _ => .ok []
  | count + 1, i => do
      let b ← read bytes (offset + i)
      let rest ← unmask bytes mask maskKey offset count (i + 1)
      .ok ((if mask then b ^^^ maskKey (Fin.ofNat 4 i) else b) :: rest)

/-- The constructor. -/
def parse (bytes : List Byte) : Except Exception ClientToServerPacket :=
  if bytes.length < 2 then .ok { failedParse := true }
  else do
    let first ← read bytes 0
    let second ← read bytes 1
    let packet : ClientToServerPacket :=
      { fin := first &&& 0x80 ≠ 0, opcode := first &&& 0x0F, mask := second &&& 0x80 ≠ 0 }
    match ← payloadLen bytes (second &&& 0x7F).toNat with
    | none => .ok { packet with failedParse := true }
    | some (payloadLen, offset) =>
        match ← maskKey bytes packet.mask offset with
        | none => .ok { packet with failedParse := true }
        | some (maskKey, offset) =>
            if bytes.length < (offset + payloadLen) % 2 ^ 64 then
              .ok { packet with failedParse := true }
            else if maxSize < payloadLen then .error .lengthError
            else do
              let payload ← unmask bytes packet.mask maskKey offset payloadLen 0
              .ok { packet with payload }

end ClientToServerPacket

open ClientToServerPacket

/-- The largest length of two bytes. -/
def UINT16_MAX : Nat := 65535

/-- `convertToPacket(const std::string&)`. -/
def convertToPacket (str : List Byte) : List Byte :=
  let size := str.length
  let first := 1 <<< 7 ||| TEXT_FRAME
  if size ≤ 125 then [first, BitVec.ofNat 8 size] ++ str
  else if size ≤ UINT16_MAX then
    [first, 126, BitVec.ofNat 8 (size >>> 8), BitVec.ofNat 8 (size &&& 0xFF)] ++ str
  else
    [first, 127, BitVec.ofNat 8 (size >>> 56), BitVec.ofNat 8 (size >>> 48 &&& 0xFF),
      BitVec.ofNat 8 (size >>> 40 &&& 0xFF), BitVec.ofNat 8 (size >>> 32 &&& 0xFF),
      BitVec.ofNat 8 (size >>> 24 &&& 0xFF), BitVec.ofNat 8 (size >>> 16 &&& 0xFF),
      BitVec.ofNat 8 (size >>> 8 &&& 0xFF), BitVec.ofNat 8 (size &&& 0xFF)] ++ str

/-- The loop of the compile-time encoder that copies the characters to `frame`. -/
def copy (frame : List Byte) (start : Nat) : List Byte → List Byte
  | [] => frame
  | c :: str => copy (frame.set start c) (start + 1) str

/-- The loop that writes the eight bytes of the length. -/
def writeLength (frame : List Byte) (payload_len : Nat) : List Byte :=
  (List.range 8).foldl
    (fun frame i =>
      frame.set (2 + i) (BitVec.ofNat 8 (payload_len >>> (56 - i * 8) &&& 0xFF)))
    frame

/-- `convertToPacket(const char (&str)[N])`, without the terminator. -/
def convertLiteralToPacket (str : List Byte) : List Byte :=
  let payload_len := str.length
  if payload_len ≤ 125 then
    let frame := List.replicate (2 + payload_len) 0
    let frame := frame.set 0 0x81
    let frame := frame.set 1 (BitVec.ofNat 8 payload_len)
    copy frame 2 str
  else if payload_len ≤ 0xFFFF then
    let frame := List.replicate (4 + payload_len) 0
    let frame := frame.set 0 0x81
    let frame := frame.set 1 126
    let frame := frame.set 2 (BitVec.ofNat 8 (payload_len >>> 8 &&& 0xFF))
    let frame := frame.set 3 (BitVec.ofNat 8 (payload_len &&& 0xFF))
    copy frame 4 str
  else
    let frame := List.replicate (10 + payload_len) 0
    let frame := frame.set 0 0x81
    let frame := frame.set 1 127
    copy (writeLength frame payload_len) 10 str

/-! ### What a vector announces -/

/-- How many bytes after the second one spell the length. -/
def extension (tpayload : Nat) : Nat :=
  if tpayload ≤ 125 then 0 else if tpayload = 126 then 2 else 8

section Announced

variable (bytes : List Byte)

/-- The length in the second byte, or the code of one of the longer forms. -/
def tpayload : Nat := (bytes.getD 1 0 &&& 0x7F).toNat

/-- The mask bit. -/
def masked : Bool := bytes.getD 1 0 &&& 0x80 ≠ 0

/-- The size of the header, without the mask key. -/
def headerSize : Nat := 2 + extension (tpayload bytes)

/-- The bytes of the key. -/
def keySize : Nat := if masked bytes then 4 else 0

/-- The announced payload length, as a natural number. -/
def announced : Nat :=
  if tpayload bytes ≤ 125 then tpayload bytes
  else BigEndian.value ((bytes.drop 2).take (extension (tpayload bytes)))

/-- The length of the whole frame. -/
def required : Nat := headerSize bytes + keySize bytes + announced bytes

/-- Byte `i` of the payload: the byte of the frame, under the mask key if there
is one. -/
def payloadByte (i : Nat) : Byte :=
  let b := bytes.getD (headerSize bytes + keySize bytes + i) 0
  if masked bytes then b ^^^ bytes.getD (headerSize bytes + i % 4) 0 else b

/-- The announced payload. -/
def content : List Byte := (List.range (announced bytes)).map (payloadByte bytes)

/-- What the constructor makes of the first two bytes. -/
def flags : ClientToServerPacket :=
  { fin := bytes.getD 0 0 &&& 0x80 ≠ 0, opcode := bytes.getD 0 0 &&& 0x0F, mask := masked bytes }

/-- The whole header and key are there, and the end of the payload is at `2 ^ 64`
or above. -/
def Wraps : Prop :=
  headerSize bytes + keySize bytes ≤ bytes.length ∧ 2 ^ 64 ≤ required bytes

end Announced

/-! ### The parse, step by step -/

variable {bytes str : List Byte}

/-- A byte of the vector is read. -/
theorem read_of_lt {i : Nat} (hlen : bytes.length ≤ 2 ^ 64) (hi : i < bytes.length) :
    read bytes i = .ok (bytes.getD i 0) := by
  rw [read, Nat.mod_eq_of_lt (Nat.lt_of_lt_of_le hi hlen), List.getElem?_eq_getElem hi,
    List.getD_eq_getElem _ _ hi]

/-- Some bytes of the vector, one by one. -/
theorem take_drop_eq {start count : Nat} (h : start + count ≤ bytes.length) :
    (bytes.drop start).take count =
      (List.range count).map fun i => bytes.getD (start + i) 0 := by
  refine List.ext_getElem ?_ fun i hi hi' => ?_
  · rw [List.length_take, List.length_drop, List.length_map, List.length_range]
    omega
  · rw [List.length_map, List.length_range] at hi'
    rw [List.getElem_take, List.getElem_drop, List.getElem_map, List.getElem_range,
      List.getD_eq_getElem]

/-- The announced length, or nothing where its bytes are missing. -/
theorem payloadLen_eq (hlen : bytes.length ≤ 2 ^ 64) (htwo : 2 ≤ bytes.length) :
    payloadLen bytes (tpayload bytes) =
      .ok (if bytes.length < headerSize bytes then none
        else some (announced bytes, headerSize bytes)) := by
  have hread : ∀ {i : Nat}, i < bytes.length → read bytes i = .ok (bytes.getD i 0) :=
    read_of_lt hlen
  by_cases hshort : tpayload bytes ≤ 125
  · have hsize : headerSize bytes = 2 := by rw [headerSize, extension, if_pos hshort]
    rw [payloadLen, if_pos hshort, hsize, announced, if_pos hshort, if_neg (Nat.not_lt.mpr htwo)]
  · by_cases hmedium : tpayload bytes = 126
    · have hext : extension (tpayload bytes) = 2 := by
        rw [extension, if_neg hshort, if_pos hmedium]
      have hsize : headerSize bytes = 4 := by rw [headerSize, hext]
      rw [payloadLen, if_neg hshort, if_pos hmedium, hsize]
      split
      · rfl
      · rename_i hfour
        have hfour : 4 ≤ bytes.length := Nat.le_of_not_lt hfour
        rw [announced, if_neg hshort, hext, take_drop_eq hfour]
        simp only [hread (show 2 < bytes.length by omega), hread (show 3 < bytes.length by omega),
          Except.ok_bind]
        rw [← BigEndian.value_pair]
        rfl
    · have hext : extension (tpayload bytes) = 8 := by
        rw [extension, if_neg hshort, if_neg hmedium]
      have hsize : headerSize bytes = 10 := by rw [headerSize, hext]
      rw [payloadLen, if_neg hshort, if_neg hmedium, hsize]
      split
      · rfl
      · rename_i hten
        have hten : 10 ≤ bytes.length := Nat.le_of_not_lt hten
        rw [announced, if_neg hshort, hext, take_drop_eq hten]
        simp only [hread (show 2 < bytes.length by omega), hread (show 3 < bytes.length by omega),
          hread (show 4 < bytes.length by omega), hread (show 5 < bytes.length by omega),
          hread (show 6 < bytes.length by omega), hread (show 7 < bytes.length by omega),
          hread (show 8 < bytes.length by omega), hread (show 9 < bytes.length by omega),
          Except.ok_bind]
        rw [← BigEndian.value_eight]
        rfl

/-- The mask key, or zeros. -/
def key (bytes : List Byte) (i : Fin 4) : Byte :=
  if masked bytes then bytes.getD (headerSize bytes + i) 0 else 0

/-- The key, or nothing where its bytes are missing. -/
theorem maskKey_eq (hlen : bytes.length ≤ 2 ^ 64) (hheader : headerSize bytes ≤ bytes.length) :
    maskKey bytes (masked bytes) (headerSize bytes) =
      .ok (if bytes.length < headerSize bytes + keySize bytes then none
        else some (key bytes, headerSize bytes + keySize bytes)) := by
  have hread : ∀ {i : Nat}, i < bytes.length → read bytes i = .ok (bytes.getD i 0) :=
    read_of_lt hlen
  cases hmask : masked bytes with
  | false =>
      have hkey : key bytes = fun _ => 0 := by
        funext i
        rw [key, if_neg (Bool.eq_false_iff.mp hmask)]
      rw [maskKey, if_neg Bool.false_ne_true, keySize, if_neg (Bool.eq_false_iff.mp hmask), hkey,
        Nat.add_zero, if_neg (Nat.not_lt.mpr hheader)]
  | true =>
      rw [maskKey, if_pos rfl, keySize, if_pos hmask]
      split
      · rfl
      · have hkey : key bytes = ![bytes.getD (headerSize bytes) 0,
            bytes.getD (headerSize bytes + 1) 0, bytes.getD (headerSize bytes + 2) 0,
            bytes.getD (headerSize bytes + 3) 0] := by
          funext i
          rw [key, if_pos hmask]
          match i with
          | 0 | 1 | 2 | 3 => rfl
        rw [hkey]
        simp only [hread (show headerSize bytes < bytes.length by omega),
          hread (show headerSize bytes + 1 < bytes.length by omega),
          hread (show headerSize bytes + 2 < bytes.length by omega),
          hread (show headerSize bytes + 3 < bytes.length by omega), Except.ok_bind]

/-- The loop reads no byte past the end. -/
theorem unmask_eq {mask : Bool} {maskKey : Fin 4 → Byte} {offset : Nat}
    (hlen : bytes.length ≤ 2 ^ 64) (count : Nat) :
    ∀ i, offset + i + count ≤ bytes.length →
      unmask bytes mask maskKey offset count i = .ok ((List.range' i count).map fun i =>
        if mask then bytes.getD (offset + i) 0 ^^^ maskKey (Fin.ofNat 4 i)
        else bytes.getD (offset + i) 0) := by
  induction count with
  | zero =>
      intro i _
      rfl
  | succ count ih =>
      intro i hi
      rw [unmask, read_of_lt hlen (by omega), Except.ok_bind, ih (i + 1) (by omega)]
      rfl

/-- The announced length has 64 bits. -/
theorem announced_lt : announced bytes < 2 ^ 64 := by
  rw [announced]
  split
  · omega
  · have hlen : ((bytes.drop 2).take (extension (tpayload bytes))).length ≤ 8 := by
      rw [List.length_take, extension]
      split
      · omega
      · split <;> omega
    exact Nat.lt_of_lt_of_le (BigEndian.value_lt _)
      (Nat.pow_le_pow_right Nat.zero_lt_two (Nat.mul_le_mul_left 8 hlen))

/-- The header takes at most ten bytes. -/
theorem headerSize_le : headerSize bytes ≤ 10 := by
  rw [headerSize, extension]
  split
  · omega
  · split <;> omega

/-- The key takes at most four. -/
theorem keySize_le : keySize bytes ≤ 4 := by
  rw [keySize]
  split <;> omega

/-- **The constructor.**  What it makes of a vector, in terms of what the vector
announces. -/
theorem parse_eq (hlen : bytes.length ≤ 2 ^ 64) :
    parse bytes =
      if bytes.length < 2 then .ok { failedParse := true }
      else if bytes.length < headerSize bytes + keySize bytes then
        .ok { flags bytes with failedParse := true }
      else if bytes.length < required bytes % 2 ^ 64 then
        .ok { flags bytes with failedParse := true }
      else if maxSize < announced bytes then .error .lengthError
      else .ok { flags bytes with payload := content bytes } := by
  rw [parse]
  split
  · rfl
  rename_i htwo
  have htwo : 2 ≤ bytes.length := Nat.le_of_not_lt htwo
  rw [read_of_lt hlen (show 0 < bytes.length by omega),
    read_of_lt hlen (show 1 < bytes.length by omega), Except.ok_bind, Except.ok_bind]
  show (payloadLen bytes (tpayload bytes) >>= _) = _
  rw [payloadLen_eq hlen htwo, Except.ok_bind]
  by_cases hheader : bytes.length < headerSize bytes
  · rw [if_pos hheader, if_pos (Nat.lt_of_lt_of_le hheader (Nat.le_add_right _ _))]
    rfl
  rw [if_neg hheader]
  show (maskKey bytes (masked bytes) (headerSize bytes) >>= _) = _
  rw [maskKey_eq hlen (Nat.le_of_not_lt hheader), Except.ok_bind]
  by_cases hkey : bytes.length < headerSize bytes + keySize bytes
  · rw [if_pos hkey, if_pos hkey]
    rfl
  rw [if_neg hkey, if_neg hkey]
  show (if bytes.length < required bytes % 2 ^ 64 then _ else _) = _
  by_cases hpayload : bytes.length < required bytes % 2 ^ 64
  · rw [if_pos hpayload, if_pos hpayload]
    rfl
  rw [if_neg hpayload, if_neg hpayload]
  by_cases hsize : maxSize < announced bytes
  · rw [if_pos hsize, if_pos hsize]
  rw [if_neg hsize, if_neg hsize]
  -- a length that a vector can have does not wrap, so the payload is all there
  have hheader : headerSize bytes ≤ 10 := headerSize_le
  have hkey : keySize bytes ≤ 4 := keySize_le
  rw [maxSize] at hsize
  rw [required] at hpayload
  have hall : headerSize bytes + keySize bytes + 0 + announced bytes ≤ bytes.length := by omega
  show (unmask bytes (masked bytes) (key bytes) (headerSize bytes + keySize bytes)
    (announced bytes) 0 >>= _) = _
  rw [unmask_eq hlen _ _ hall, Except.ok_bind, ← List.range_eq_range']
  have hcontent : (List.range (announced bytes)).map (fun i =>
      if masked bytes then
        bytes.getD (headerSize bytes + keySize bytes + i) 0 ^^^ key bytes (Fin.ofNat 4 i)
      else bytes.getD (headerSize bytes + keySize bytes + i) 0) = content bytes := by
    refine List.map_congr_left fun i _ => ?_
    cases hmask : masked bytes with
    | false =>
        rw [payloadByte, hmask]
        rfl
    | true =>
        rw [payloadByte, key, hmask]
        rfl
  rw [hcontent]
  rfl

/-! ### The constructor -/

/-- The parse fails exactly on what is cut off, and gives the announced payload
otherwise. -/
def ParsesAsAnnounced (bytes : List Byte) : Prop :=
  ∃ packet, parse bytes = .ok packet ∧
    (packet.failedParse = true ↔ bytes.length < required bytes) ∧
    (packet.failedParse = false → packet.payload = content bytes)

/-- A frame that is cut short is marked, and has no payload. -/
theorem parse_short (hlen : bytes.length ≤ 2 ^ 64) (hwraps : ¬ Wraps bytes)
    (hshort : bytes.length < required bytes) :
    ∃ packet, parse bytes = .ok packet ∧ packet.failedParse = true ∧ packet.payload = [] := by
  rw [parse_eq hlen]
  split
  · exact ⟨_, rfl, rfl, rfl⟩
  split
  · exact ⟨_, rfl, rfl, rfl⟩
  · rename_i hkey
    have hword : required bytes < 2 ^ 64 :=
      Nat.lt_of_not_le fun h => hwraps ⟨Nat.le_of_not_lt hkey, h⟩
    rw [Nat.mod_eq_of_lt hword, if_pos hshort]
    exact ⟨_, rfl, rfl, rfl⟩

/-- A complete frame is parsed. -/
theorem parse_complete (hlen : bytes.length ≤ 2 ^ 64) (hall : required bytes ≤ bytes.length)
    (hsize : announced bytes ≤ maxSize) :
    parse bytes = .ok { flags bytes with payload := content bytes } := by
  have hkey : headerSize bytes + keySize bytes ≤ bytes.length :=
    Nat.le_trans (Nat.le_add_right _ _) hall
  have htwo : 2 ≤ headerSize bytes := Nat.le_add_right _ _
  have hrequired : required bytes % 2 ^ 64 ≤ bytes.length := Nat.le_trans (Nat.mod_le _ _) hall
  rw [parse_eq hlen, if_neg (by omega), if_neg (Nat.not_lt.mpr hkey),
    if_neg (Nat.not_lt.mpr hrequired), if_neg (Nat.not_lt.mpr hsize)]

/-- A complete frame does not announce more than a vector can hold. -/
theorem announced_le (hlen : bytes.length ≤ maxSize) (hall : required bytes ≤ bytes.length) :
    announced bytes ≤ maxSize :=
  Nat.le_trans (Nat.le_trans (Nat.le_add_left _ _) hall) hlen

/-- A length that wraps around passes the check and is no size of a vector. -/
theorem parse_wraps (hlen : bytes.length ≤ 2 ^ 64) (hwraps : Wraps bytes) :
    parse bytes = .error .lengthError := by
  obtain ⟨hkey, hwraps⟩ := hwraps
  have hheader : headerSize bytes ≤ 10 := headerSize_le
  have hkeySize : keySize bytes ≤ 4 := keySize_le
  have hbound : announced bytes < 2 ^ 64 := announced_lt
  rw [required] at hwraps
  have htwo : 2 ≤ headerSize bytes := Nat.le_add_right _ _
  rw [parse_eq hlen, if_neg (by omega), if_neg (Nat.not_lt.mpr hkey), required,
    if_neg (by omega), maxSize, if_pos (by omega)]

/-- A packet with a payload was parsed from a whole frame. -/
theorem parse_payload {packet : ClientToServerPacket} (hlen : bytes.length ≤ maxSize)
    (hparse : parse bytes = .ok packet) (hpayload : packet.payload ≠ []) :
    required bytes ≤ bytes.length ∧ packet.payload = content bytes := by
  have hword : bytes.length ≤ 2 ^ 64 := Nat.le_trans hlen (by decide)
  by_cases hwraps : Wraps bytes
  · rw [parse_wraps hword hwraps] at hparse
    cases hparse
  by_cases hshort : bytes.length < required bytes
  · obtain ⟨_, hparse', -, hempty⟩ := parse_short hword hwraps hshort
    rw [hparse'] at hparse
    obtain rfl := Except.ok.inj hparse
    exact absurd hempty hpayload
  · have hall : required bytes ≤ bytes.length := Nat.le_of_not_lt hshort
    rw [parse_complete hword hall (announced_le hlen hall)] at hparse
    obtain rfl := Except.ok.inj hparse
    exact ⟨hall, rfl⟩

/-- **Constructor.**  For every vector the parse fails exactly on what is cut off
and gives the announced payload otherwise, if and only if the announced length
does not wrap around. -/
theorem parse_exact (bytes : Bytes) : ParsesAsAnnounced bytes.1 ↔ ¬ Wraps bytes.1 := by
  obtain ⟨bytes, hlen⟩ := bytes
  have hword : bytes.length ≤ 2 ^ 64 := Nat.le_trans hlen (by decide)
  constructor
  · rintro ⟨packet, hparse, -⟩ hwraps
    rw [parse_wraps hword hwraps] at hparse
    cases hparse
  · intro hwraps
    by_cases hshort : bytes.length < required bytes
    · obtain ⟨packet, hparse, hfailed, -⟩ := parse_short hword hwraps hshort
      refine ⟨packet, hparse, iff_of_true hfailed hshort, fun h => ?_⟩
      rw [hfailed] at h
      cases h
    · have hall : required bytes ≤ bytes.length := Nat.le_of_not_lt hshort
      have hparse := parse_complete hword hall (announced_le hlen hall)
      exact ⟨_, hparse, iff_of_false Bool.false_ne_true hshort, fun _ => rfl⟩

/-- A header without a payload, whose length is the largest one. -/
def wrapping : Bytes :=
  ⟨[0x81, 127, 0xFF, 0xFF, 0xFF, 0xFF, 0xFF, 0xFF, 0xFF, 0xFF], by decide⟩

/-- The constructor may throw. -/
theorem parse_may_throw : ¬ ∀ bytes : Bytes, ParsesAsAnnounced bytes.1 := by
  intro hall
  obtain ⟨packet, hparse, -⟩ := hall wrapping
  have hthrows : parse wrapping.1 = .error .lengthError := by decide +kernel
  rw [hthrows] at hparse
  cases hparse

/-! ### What the server sends -/

/-- A frame without a key, in any of the three forms, is parsed to its payload. -/
theorem parse_frame {first second : Byte} {ext str : List Byte} (hstr : str.length ≤ maxSize)
    (hmask : second &&& 0x80 = 0) (hext : ext.length = extension (second &&& 0x7F).toNat)
    (hsize : if (second &&& 0x7F).toNat ≤ 125 then (second &&& 0x7F).toNat = str.length
      else BigEndian.value ext = str.length) :
    parse (first :: second :: (ext ++ str)) =
      .ok { payload := str, opcode := first &&& 0x0F, fin := first &&& 0x80 ≠ 0 } := by
  obtain ⟨bytes, hbytes⟩ : ∃ bytes, bytes = first :: second :: (ext ++ str) := ⟨_, rfl⟩
  have hform : tpayload bytes = (second &&& 0x7F).toNat := by rw [hbytes]; rfl
  have hmasked : masked bytes = false := by
    rw [hbytes]
    exact decide_eq_false (not_not.mpr hmask)
  have hheader : headerSize bytes = 2 + ext.length := by rw [headerSize, hform, hext]
  have hkey : keySize bytes = 0 := by rw [keySize, hmasked]; rfl
  have hannounced : announced bytes = str.length := by
    rw [announced, hform, ← hext]
    split
    · rename_i hshort
      rw [if_pos hshort] at hsize
      exact hsize
    · rename_i hlong
      rw [if_neg hlong] at hsize
      rw [hbytes, List.drop_succ_cons, List.drop_succ_cons, List.drop_zero, List.take_left, hsize]
  have hlen : bytes.length = required bytes := by
    rw [required, hheader, hkey, hannounced, hbytes, List.length_cons, List.length_cons,
      List.length_append]
    omega
  have hcontent : content bytes = str := by
    refine List.ext_getElem ?_ fun i hi hi' => ?_
    · rw [content, List.length_map, List.length_range, hannounced]
    · have hbyte : bytes.getD (headerSize bytes + keySize bytes + i) 0 = str[i] := by
        have hindex : headerSize bytes + keySize bytes + i = ext.length + i + 1 + 1 := by omega
        rw [hindex, hbytes, List.getD_cons_succ, List.getD_cons_succ,
          List.getD_append_right _ _ _ _ (Nat.le_add_right _ _), Nat.add_sub_cancel_left,
          List.getD_eq_getElem _ _ hi']
      simp only [content, List.getElem_map, List.getElem_range, payloadByte, hmasked, hbyte,
        Bool.false_eq_true, if_false]
  have hflags : flags bytes = { opcode := first &&& 0x0F, fin := first &&& 0x80 ≠ 0 } := by
    rw [flags, hmasked, hbytes]
    rfl
  have hbound : ext.length ≤ 8 := by
    have hle : headerSize bytes ≤ 10 := headerSize_le
    omega
  rw [maxSize] at hstr
  have hword : bytes.length ≤ 2 ^ 64 := by
    rw [hlen, required, hheader, hkey, hannounced]
    omega
  rw [← hbytes, parse_complete hword (Nat.le_of_eq hlen.symm) (hannounced ▸ hstr), hcontent,
    hflags]

/-- The mask before the cast to a byte does nothing. -/
theorem ofNat_and_byte (n : Nat) : BitVec.ofNat 8 (n &&& 0xFF) = BitVec.ofNat 8 n := by
  have hmask : n &&& 0xFF = n % 2 ^ 8 := Nat.and_two_pow_sub_one_eq_mod n 8
  rw [hmask]
  exact BitVec.eq_of_toNat_eq (by simp)

/-- The run-time encoder writes a big-endian length. -/
theorem convertToPacket_eq (str : List Byte) :
    convertToPacket str = 0x81 ::
      if str.length ≤ 125 then BitVec.ofNat 8 str.length :: ([] ++ str)
      else if str.length ≤ 65535 then 126 :: (BigEndian.encode 2 str.length ++ str)
      else 127 :: (BigEndian.encode 8 str.length ++ str) := by
  rw [convertToPacket]
  simp only [ofNat_and_byte]
  split
  · rfl
  split
  · rw [UINT16_MAX] at *
    rw [if_pos (by assumption)]
    rfl
  · rw [UINT16_MAX] at *
    rw [if_neg (by assumption)]
    rfl

/-- The loop replaces what is there by the characters. -/
theorem copy_eq {str : List Byte} :
    ∀ {done old : List Byte}, old.length = str.length →
      copy (done ++ old) done.length str = done ++ str := by
  induction str with
  | nil =>
      intro done old h
      rw [List.length_eq_zero_iff.mp h]
      rfl
  | cons c str ih =>
      intro done old h
      cases old with
      | nil => cases h
      | cons b old =>
          have hset : (done ++ b :: old).set done.length c = done ++ [c] ++ old := by simp
          rw [copy, hset]
          have hnext : copy (done ++ [c] ++ old) (done ++ [c]).length str = _ :=
            ih (Nat.succ.inj h)
          rw [List.length_append, List.length_singleton] at hnext
          rw [hnext, List.append_assoc]
          rfl

/-- The length is written into its eight bytes. -/
theorem writeLength_eq (rest : List Byte) (n : Nat) :
    writeLength (0x81 :: 127 :: (List.replicate 8 0 ++ rest)) n =
      0x81 :: 127 :: (BigEndian.encode 8 n ++ rest) := by
  simp only [writeLength, ofNat_and_byte]
  rfl

/-- The compile-time encoder writes the same bytes. -/
theorem convertLiteralToPacket_eq (str : List Byte) :
    convertLiteralToPacket str = convertToPacket str := by
  have hzeros : ∀ k, List.replicate (k + str.length) (0 : Byte) =
      List.replicate k 0 ++ List.replicate str.length 0 :=
    fun k => List.replicate_append_replicate.symm
  have hcopy : ∀ done : List Byte,
      copy (done ++ List.replicate str.length 0) done.length str = done ++ str :=
    fun _ => copy_eq List.length_replicate
  rw [convertToPacket_eq, convertLiteralToPacket]
  simp only [ofNat_and_byte, hzeros]
  split
  · exact hcopy [_, _]
  split
  · exact hcopy [_, _, _, _]
  · have hlength := hcopy (0x81 :: 127 :: BigEndian.encode 8 str.length)
    rw [List.cons_append, List.cons_append, ← writeLength_eq] at hlength
    exact hlength

/-- A length byte has no mask bit. -/
theorem lengthByte_eq :
    ∀ {n : Nat}, n < 126 →
      BitVec.ofNat 8 n &&& 0x80 = 0 ∧ (BitVec.ofNat 8 n &&& 0x7F).toNat = n := by
  decide

/-- **Round trip.**  What the server sends is parsed to the string it was made
from, and the compile-time encoder makes the same bytes. -/
theorem convertToPacket_exact :
    (∀ str : List Byte, str.length < 2 ^ 63 →
      parse (convertToPacket str) =
        .ok { payload := str, opcode := TEXT_FRAME, fin := true, mask := false,
              failedParse := false }) ∧
    ∀ str : List Byte, convertLiteralToPacket str = convertToPacket str := by
  refine ⟨fun str hstr => ?_, convertLiteralToPacket_eq⟩
  have hmax : str.length ≤ maxSize := Nat.le_sub_one_of_lt hstr
  rw [convertToPacket_eq]
  split
  · rename_i hshort
    obtain ⟨hmask, hform⟩ := lengthByte_eq (Nat.lt_succ_of_le hshort)
    refine parse_frame hmax hmask ?_ ?_
    · rw [hform, extension, if_pos hshort]
      rfl
    · rw [hform, if_pos hshort]
  split
  · rename_i hlong hmedium
    refine parse_frame hmax rfl rfl ?_
    exact BigEndian.value_encode_of_lt (by omega)
  · refine parse_frame hmax rfl rfl ?_
    exact BigEndian.value_encode_of_lt (by omega)

/-- Two characters, and what comes back of them. -/
theorem convertToPacket_pair :
    parse (convertToPacket [0x4F, 0x4B]) =
      .ok { payload := [0x4F, 0x4B], opcode := TEXT_FRAME, fin := true, mask := false,
            failedParse := false } :=
  convertToPacket_exact.1 _ (by decide)

end WebSocket
