import BobbyOS.Lib.Traces
import BobbyOS.Network.Connection

/-!
# What the peer receives

Several threads send to the peer of one connection: the workers that run its machine or
forward its texts, and the main thread.  Each goes through the loop of `send`, which the
host may cut short: it may take only some of the bytes, and `send` gives up where it would
block.  The peer reads frame by frame with the length that each frame announces.

* `required_append`: the length of a frame is in the frame;
* `Stream.step`: what one call of `::send` adds to the frames;
* `messages_arrive`: the peer reads the messages as they were begun, in every
  interleaving of the threads that does not break into a frame.
-/

namespace Server

open WebSocket Run

/-! ### Messages -/

/-- What the server sends after the handshake. -/
inductive Message
  | text (str : Bytes)
  | disconnect
deriving DecidableEq

/-- The bytes that `send` is called with. -/
def Message.bytes : Message → List Byte
  | .text str => convertToPacket str.1
  | .disconnect => disconnectHeader

/-- What the peer should read. -/
def Message.packet : Message → ClientToServerPacket
  | .text str => { payload := str.1, opcode := TEXT_FRAME, fin := true }
  | .disconnect => { payload := [0x03, 0xE8], opcode := 8, fin := true }

/-- The frames that a peer reads from what it has received, and what is left: as long as a
whole frame is there it is parsed. -/
def readFrames : Nat → List Byte → List ClientToServerPacket × List Byte
  | 0, bytes => ([], bytes)
  | fuel + 1, bytes =>
      if bytes.length < required bytes then ([], bytes)
      else
        match ClientToServerPacket.parse (bytes.take (required bytes)) with
        | .error _ => ([], bytes)
        | .ok packet =>
            let (packets, rest) := readFrames fuel (bytes.drop (required bytes))
            (packet :: packets, rest)

/-! ### Frames in a stream -/

section Frames

variable {bytes rest : List Byte}

/-- A frame announces its length, whatever follows. -/
theorem required_append (h : required bytes ≤ bytes.length) :
    required (bytes ++ rest) = required bytes := by
  have htwo : 2 ≤ headerSize bytes := Nat.le_add_right _ _
  have hheader : headerSize bytes ≤ bytes.length := by
    rw [required] at h
    omega
  have hsecond : (bytes ++ rest).getD 1 0 = bytes.getD 1 0 :=
    List.getD_append _ _ _ _ (by omega)
  have hform : tpayload (bytes ++ rest) = tpayload bytes := by
    rw [tpayload, tpayload, hsecond]
  have hmasked : masked (bytes ++ rest) = masked bytes := by
    rw [masked, masked, hsecond]
  have hlength : announced (bytes ++ rest) = announced bytes := by
    rw [announced, announced, hform]
    split
    · rfl
    · rw [headerSize] at hheader
      rw [List.drop_append_of_le_length (by omega), List.take_append_of_le_length]
      rw [List.length_drop]
      omega
  rw [required, required, headerSize, headerSize, keySize, keySize, hform, hmasked, hlength]

/-- A frame without a key. -/
theorem required_frame {first second : Byte} {ext str : List Byte} (hmask : second &&& 0x80 = 0)
    (hext : ext.length = extension (second &&& 0x7F).toNat)
    (hsize : if (second &&& 0x7F).toNat ≤ 125 then (second &&& 0x7F).toNat = str.length
      else BigEndian.value ext = str.length) :
    required (first :: second :: (ext ++ str)) = (first :: second :: (ext ++ str)).length := by
  obtain ⟨bytes, hbytes⟩ : ∃ bytes, bytes = first :: second :: (ext ++ str) := ⟨_, rfl⟩
  have hform : tpayload bytes = (second &&& 0x7F).toNat := by rw [hbytes]; rfl
  have hmasked : masked bytes = false := by
    rw [hbytes]
    exact decide_eq_false (not_not.mpr hmask)
  have hannounced : announced bytes = str.length := by
    rw [announced, hform, ← hext]
    split
    · rename_i hshort
      rw [if_pos hshort] at hsize
      exact hsize
    · rename_i hlong
      rw [if_neg hlong] at hsize
      rw [hbytes, List.drop_succ_cons, List.drop_succ_cons, List.drop_zero, List.take_left, hsize]
  rw [← hbytes, required, headerSize, hform, ← hext, keySize, hmasked, hannounced, hbytes,
    List.length_cons, List.length_cons, List.length_append]
  show 2 + ext.length + 0 + str.length = _
  omega

/-- A message's header announces its length. -/
theorem required_bytes (message : Message) : required message.bytes = message.bytes.length := by
  cases message with
  | disconnect => rfl
  | text str =>
      obtain ⟨str, hstr⟩ := str
      show required (convertToPacket str) = (convertToPacket str).length
      rw [convertToPacket_eq]
      split
      · rename_i hshort
        obtain ⟨hmask, hform⟩ := lengthByte_eq (Nat.lt_succ_of_le hshort)
        refine required_frame hmask ?_ ?_
        · rw [hform, extension, if_pos hshort]
          rfl
        · rw [hform, if_pos hshort]
      split
      · refine required_frame rfl rfl ?_
        exact BigEndian.value_encode_of_lt (by omega)
      · have hle : str.length ≤ 2 ^ 63 - 1 := hstr
        refine required_frame rfl rfl ?_
        exact BigEndian.value_encode_of_lt (by omega)

/-- **Round trip.**  A message that was sent is parsed. -/
theorem parse_bytes (message : Message) :
    ClientToServerPacket.parse message.bytes = .ok message.packet := by
  cases message with
  | disconnect => decide +kernel
  | text str =>
      have hle : str.1.length ≤ 2 ^ 63 - 1 := str.2
      exact convertToPacket_exact.1 str.1 (by omega)

/-- The beginning of a frame is not read. -/
theorem length_lt_required {message : Message} {n : Nat} (h : n < message.bytes.length) :
    (message.bytes.take n).length < required (message.bytes.take n) := by
  by_contra hle
  have happend : required (message.bytes.take n ++ message.bytes.drop n) =
      required (message.bytes.take n) := required_append (Nat.le_of_not_lt hle)
  rw [List.take_append_drop, required_bytes] at happend
  rw [← happend, List.length_take] at hle
  omega

/-- **Frames.**  The peer reads whole frames one by one, and keeps what has not come
completely. -/
theorem readFrames_eq {part : List Byte} (hpart : part.length < required part) :
    ∀ (messages : List Message) {fuel : Nat}, messages.length < fuel →
      readFrames fuel ((messages.map Message.bytes).flatten ++ part) =
        (messages.map Message.packet, part) := by
  intro messages
  induction messages with
  | nil =>
      intro fuel hfuel
      obtain ⟨fuel, rfl⟩ := Nat.exists_eq_add_of_lt hfuel
      rw [List.map_nil, List.flatten_nil, List.nil_append, List.length_nil, Nat.zero_add,
        readFrames, if_pos hpart]
      rfl
  | cons message messages ih =>
      intro fuel hfuel
      obtain ⟨fuel, rfl⟩ := Nat.exists_eq_add_of_lt hfuel
      have hrequired := required_bytes message
      have hwhole : required (message.bytes ++ ((messages.map Message.bytes).flatten ++ part)) =
          message.bytes.length := by
        rw [required_append (Nat.le_of_eq hrequired), hrequired]
      rw [List.map_cons, List.flatten_cons, List.append_assoc, readFrames, hwhole, if_neg,
        List.take_left, List.drop_left, parse_bytes]
      · rw [ih (by rw [List.length_cons]; omega)]
        rfl
      · rw [List.length_append]
        omega

end Frames

/-! ### Threads in `send` -/

/-- What `::send` answers: how many of the offered bytes it took, or an error. -/
inductive SendResult
  | sent (count : Nat)
  | wouldBlock
  | failed
deriving DecidableEq

/-- A call of `Connection::send`, whose three overloads are the same loop. -/
structure Sending where
  message : Message
  totalBytesSent : Nat := 0
deriving DecidableEq

namespace Sending

/-- The bytes that `::send` is offered. -/
def offered (sending : Sending) : List Byte :=
  sending.message.bytes.drop sending.totalBytesSent

/-- `::send` takes no more than it is offered. -/
def Possible (sending : Sending) : SendResult → Prop
  | .sent count => count ≤ sending.offered.length
  | .wouldBlock | .failed => True

instance (sending : Sending) : DecidablePred sending.Possible := fun result =>
  match result with
  | .sent count => inferInstanceAs (Decidable (count ≤ sending.offered.length))
  | .wouldBlock | .failed => inferInstanceAs (Decidable True)

/-- A turn of the loop: what goes out, and the call behind it, unless `send` has returned or
thrown. -/
def turn (sending : Sending) : SendResult → List Byte × Option Sending
  | .sent count =>
      let totalBytesSent := sending.totalBytesSent + count
      (sending.offered.take count,
        if totalBytesSent < sending.message.bytes.length then
          some { sending with totalBytesSent }
        else none)
  | .wouldBlock => ([], none)
  | .failed => ([], none)

end Sending

/-- What has gone out to the peer, and the calls of `send`, thread by thread. -/
structure Stream where
  wire : List Byte := []
  threads : List (Option Sending)

/-- A thread calls `send`, or makes a turn of its loop. -/
inductive StreamEvent
  | call (t : Nat) (message : Message)
  | turn (t : Nat) (result : SendResult)

namespace Stream

/-- A connection, and threads that send nothing. -/
def start (threads : Nat) : Stream where
  threads := List.replicate threads none

/-- The call that a thread is in. -/
def inSend (s : Stream) (t : Nat) : Option Sending := s.threads[t]?.join

/-- One turn of a sending thread, with what `send` gives back. -/
def step (s : Stream) : StreamEvent → Option Stream
  | .call t message =>
      match s.threads[t]? with
      | some none => some { s with threads := s.threads.set t (some { message }) }
      | _ => none
  | .turn t result =>
      match s.inSend t with
      | none => none
      | some sending =>
          if sending.Possible result then
            let (bytes, sending) := sending.turn result
            some { wire := s.wire ++ bytes, threads := s.threads.set t sending }
          else none

/-- The message whose first byte goes out. -/
def begun (s : Stream) : StreamEvent → Option Message
  | .turn t (.sent count) =>
      (s.inSend t).bind fun sending =>
        if sending.totalBytesSent = 0 ∧ 0 < count then some sending.message else none
  | _ => none

/-- The event does not break into a message: once it is begun its thread goes on with it. -/
def Spares (s : Stream) : StreamEvent → Prop
  | .call _ _ => True
  | .turn t result => ∀ u < s.threads.length, ∀ sending ∈ s.inSend u,
      0 < sending.totalBytesSent → u = t ∧ result ≠ .wouldBlock ∧ result ≠ .failed

/-! ### Whole messages -/

variable {s s' : Stream} {t u : Nat} {sending sending' : Sending} {result : SendResult}
  {message : Message} {messages : List Message} {event : StreamEvent}

/-- Nobody is inside a message. -/
def Between (s : Stream) : Prop :=
  ∀ {u : Nat} {sending : Sending}, s.inSend u = some sending → sending.totalBytesSent = 0

/-- Thread `t` is inside a message, and nobody else. -/
def Inside (s : Stream) (t : Nat) (sending : Sending) : Prop :=
  s.inSend t = some sending ∧ 0 < sending.totalBytesSent ∧
    ∀ {u : Nat} {sending : Sending}, u ≠ t → s.inSend u = some sending →
      sending.totalBytesSent = 0

/-- **Invariant.**  What has gone out is the begun messages, and a part of the last one when
a thread is inside it. -/
structure Whole (messages : List Message) (s : Stream) : Prop where
  unsent : ∀ {u : Nat} {sending : Sending}, s.inSend u = some sending →
    sending.totalBytesSent < sending.message.bytes.length
  wire : (s.Between ∧ s.wire = (messages.map Message.bytes).flatten) ∨
    ∃ t sending done, s.Inside t sending ∧ messages = done ++ [sending.message] ∧
      s.wire = (done.map Message.bytes).flatten ++
        sending.message.bytes.take sending.totalBytesSent

/-- No message is empty. -/
theorem bytes_ne_nil (message : Message) : 0 < message.bytes.length := by
  have htwo : 2 ≤ headerSize message.bytes := Nat.le_add_right _ _
  have hrequired := required_bytes message
  rw [required] at hrequired
  omega

/-- A thread that was set is sending what it was set to. -/
theorem inSend_set {wire : List Byte} {x : Option Sending} (ht : t < s.threads.length) :
    inSend { wire, threads := s.threads.set t x } u = if u = t then x else s.inSend u := by
  unfold inSend
  dsimp only
  by_cases hu : u = t
  · rw [hu, if_pos rfl, List.getElem?_set_self ht]
    rfl
  · rw [if_neg hu, List.getElem?_set_ne fun h => hu h.symm]

/-- At the start no thread sends. -/
theorem inSend_replicate {wire : List Byte} {threads : Nat} :
    inSend { wire, threads := List.replicate threads none } u = none := by
  unfold inSend
  dsimp only
  cases hu : (List.replicate threads (none : Option Sending))[u]? with
  | none => rfl
  | some x =>
      rw [List.eq_of_mem_replicate (List.mem_of_getElem? hu)]
      rfl

/-- A thread that sends is one of them. -/
theorem lt_of_inSend (h : s.inSend t = some sending) : t < s.threads.length := by
  have hsome := Option.join_eq_some_iff.mp h
  exact (List.getElem?_eq_some_iff.mp hsome).1

/-- **Calls.** -/
theorem Whole.call (h : Whole messages s) (hstep : s.step (.call t message) = some s') :
    Whole messages s' := by
  unfold step at hstep
  dsimp only at hstep
  split at hstep
  case h_2 => cases hstep
  case h_1 hidle =>
    obtain rfl := Option.some.inj hstep
    have ht := (List.getElem?_eq_some_iff.mp hidle).1
    have hnone : s.inSend t = none := by
      unfold inSend
      rw [hidle]
      rfl
    have hzero {u : Nat} {sending : Sending}
        (hu : inSend { s with threads := s.threads.set t (some { message }) } u = some sending)
        (hold : s.inSend u = some sending → sending.totalBytesSent = 0) :
        sending.totalBytesSent = 0 := by
      rw [inSend_set ht] at hu
      split at hu
      · rw [← Option.some.inj hu]
      · exact hold hu
    refine ⟨fun {u sending} hu => ?_, ?_⟩
    · rw [inSend_set ht] at hu
      split at hu
      · rw [← Option.some.inj hu]
        exact bytes_ne_nil message
      · exact h.unsent hu
    · rcases h.wire with ⟨hbetween, hwire⟩ | ⟨u, sending, done, ⟨hu, hpos, hothers⟩, hdone, hwire⟩
      · exact .inl ⟨fun {u sending} hu => hzero hu hbetween, hwire⟩
      · have hne : u ≠ t := by
          rintro rfl
          cases hnone.symm.trans hu
        refine .inr ⟨u, sending, done, ⟨?_, hpos, fun {v x} hv hx => hzero hx (hothers hv)⟩, hdone,
          hwire⟩
        rw [inSend_set ht, if_neg hne]
        exact hu

/-- A turn that sends nothing while nobody is inside a message. -/
theorem Whole.still {x : Option Sending} (h : Whole messages s) (hbetween : s.Between)
    (ht : t < s.threads.length) (hx : ∀ {sending : Sending}, x = some sending →
      s.inSend t = some sending) :
    Whole messages { wire := s.wire ++ [], threads := s.threads.set t x } := by
  have hwire : s.wire = (messages.map Message.bytes).flatten := by
    rcases h.wire with ⟨-, hwire⟩ | ⟨u, sending, done, ⟨hu, hpos, -⟩, -⟩
    · exact hwire
    · exact absurd (hbetween hu) (Nat.ne_of_gt hpos)
  have hold {wire : List Byte} {u : Nat} {sending : Sending}
      (hu : inSend { wire, threads := s.threads.set t x } u = some sending) :
      s.inSend u = some sending := by
    rw [inSend_set ht] at hu
    split at hu
    · rename_i heq
      rw [heq]
      exact hx hu
    · exact hu
  rw [List.append_nil]
  exact ⟨fun {u sending} hu => h.unsent (hold hu),
    .inl ⟨fun {u sending} hu => hbetween (hold hu), hwire⟩⟩

/-- A turn that sends something of a message while nobody is inside another one. -/
theorem whole_advance {count : Nat} (hsending : s.inSend t = some sending)
    (hunsent : ∀ {u : Nat} {x : Sending}, s.inSend u = some x →
      x.totalBytesSent < x.message.bytes.length)
    (hothers : ∀ {u : Nat} {x : Sending}, u ≠ t → s.inSend u = some x → x.totalBytesSent = 0)
    (hpos : 0 < sending.totalBytesSent + count)
    (hwire : s.wire = (messages.map Message.bytes).flatten ++
      sending.message.bytes.take sending.totalBytesSent) :
    Whole (messages ++ [sending.message])
      { wire := s.wire ++ (sending.turn (.sent count)).1
        threads := s.threads.set t (sending.turn (.sent count)).2 } := by
  have ht := lt_of_inSend hsending
  have hsent : s.wire ++ (sending.turn (.sent count)).1 = (messages.map Message.bytes).flatten ++
      sending.message.bytes.take (sending.totalBytesSent + count) := by
    rw [hwire, List.append_assoc, List.take_add]
    rfl
  rw [hsent]
  by_cases hmore : sending.totalBytesSent + count < sending.message.bytes.length
  · have hturn : (sending.turn (.sent count)).2 =
        some { sending with totalBytesSent := sending.totalBytesSent + count } := if_pos hmore
    rw [hturn]
    refine ⟨fun {u x} hu => ?_,
      .inr ⟨t, { sending with totalBytesSent := sending.totalBytesSent + count }, messages,
        ⟨?_, hpos, fun {u x} hne hu => ?_⟩, rfl, rfl⟩⟩
    · rw [inSend_set ht] at hu
      split at hu
      · rw [← Option.some.inj hu]
        exact hmore
      · exact hunsent hu
    · rw [inSend_set ht, if_pos rfl]
    · rw [inSend_set ht, if_neg hne] at hu
      exact hothers hne hu
  · have hturn : (sending.turn (.sent count)).2 = none := if_neg hmore
    have hold {wire : List Byte} {u : Nat} {x : Sending}
        (hu : inSend { wire, threads := s.threads.set t none } u = some x) :
        u ≠ t ∧ s.inSend u = some x := by
      rw [inSend_set ht] at hu
      split at hu
      · cases hu
      · exact ⟨by assumption, hu⟩
    rw [hturn]
    refine ⟨fun {u x} hu => hunsent (hold hu).2, .inl ⟨fun {u x} hu => ?_, ?_⟩⟩
    · exact hothers (hold hu).1 (hold hu).2
    · rw [List.take_of_length_le (Nat.le_of_not_lt hmore), List.map_append, List.flatten_append]
      simp

/-- **Turns.**  A turn of the loop that spares the messages of others goes on with a begun
message, or begins one when nobody is inside a message. -/
theorem Whole.turn (h : Whole messages s) (hspares : s.Spares (.turn t result))
    (hstep : s.step (.turn t result) = some s') :
    Whole (messages ++ (s.begun (.turn t result)).toList) s' := by
  unfold step at hstep
  dsimp only at hstep
  split at hstep
  case h_1 => cases hstep
  case h_2 sending hsending =>
    split at hstep
    case isFalse => cases hstep
    case isTrue hpossible =>
      obtain rfl := Option.some.inj hstep
      have ht := lt_of_inSend hsending
      have hbegun (count : Nat) : s.begun (.turn t (.sent count)) =
          if sending.totalBytesSent = 0 ∧ 0 < count then some sending.message else none := by
        unfold begun
        dsimp only
        rw [hsending, Option.bind_some]
      rcases h.wire with ⟨hbetween, hwire⟩ | ⟨u, x, done, ⟨hu, hpos, hothers⟩, hdone, hwire⟩
      · -- nobody is inside a message
        have hzero := hbetween hsending
        cases result with
        | sent count =>
            rw [hbegun]
            by_cases hcount : 0 < count
            · rw [if_pos ⟨hzero, hcount⟩, Option.toList_some]
              refine whole_advance hsending h.unsent (fun _ hx => hbetween hx) (by omega) ?_
              rw [hwire, hzero, List.take_zero, List.append_nil]
            · obtain rfl : count = 0 := Nat.eq_zero_of_not_pos hcount
              rw [if_neg fun hand => hcount hand.2, Option.toList_none, List.append_nil]
              have hturn : sending.turn (.sent 0) = ([], some sending) := by
                have hnothing : sending.offered.take 0 = [] := List.take_zero
                exact Prod.ext hnothing (if_pos (h.unsent hsending))
              rw [hturn]
              exact h.still hbetween ht fun hx => hx ▸ hsending
        | wouldBlock =>
            have hnone : s.begun (.turn t .wouldBlock) = none := rfl
            rw [hnone, Option.toList_none, List.append_nil]
            exact h.still hbetween ht fun hx => by cases hx
        | failed =>
            have hnone : s.begun (.turn t .failed) = none := rfl
            rw [hnone, Option.toList_none, List.append_nil]
            exact h.still hbetween ht fun hx => by cases hx
      · -- thread `u` is inside a message, so this is its turn
        obtain ⟨rfl, hblock, hfail⟩ := hspares u (lt_of_inSend hu) x hu hpos
        obtain rfl := Option.some.inj (hsending.symm.trans hu)
        cases result with
        | sent count =>
            rw [hbegun, if_neg fun hand => Nat.ne_of_gt hpos hand.1, Option.toList_none,
              List.append_nil, hdone]
            exact whole_advance hsending h.unsent hothers (by omega) hwire
        | wouldBlock => exact absurd rfl hblock
        | failed => exact absurd rfl hfail

/-- **Step.** -/
theorem Whole.step (h : Whole messages s) (hspares : s.Spares event)
    (hstep : s.step event = some s') : Whole (messages ++ (s.begun event).toList) s' := by
  cases event with
  | call t message =>
      have hnone : s.begun (.call t message) = none := rfl
      rw [hnone, Option.toList_none, List.append_nil]
      exact h.call hstep
  | turn t result => exact h.turn hspares hstep

end Stream

/-! ### Runs -/

/-- What the peer makes of all that it has received. -/
def peerReads (bytes : List Byte) : List ClientToServerPacket × List Byte :=
  readFrames (bytes.length + 1) bytes

/-- The peer reads whole messages and keeps the rest. -/
theorem peerReads_eq {messages : List Message} {part : List Byte}
    (hpart : part.length < required part) :
    peerReads ((messages.map Message.bytes).flatten ++ part) =
      (messages.map Message.packet, part) := by
  refine readFrames_eq hpart messages ?_
  rw [List.length_append]
  have hle : messages.length ≤ (messages.map Message.bytes).flatten.length := by
    induction messages with
    | nil => exact Nat.zero_le _
    | cons message messages ih =>
        have hpos := Stream.bytes_ne_nil message
        rw [List.map_cons, List.flatten_cons, List.length_append, List.length_cons]
        omega
  omega

/-- The steps of threads that spare the messages of others. -/
def Stream.Sparing (s : Stream) (event : StreamEvent) (s' : Stream) : Prop :=
  s.Spares event ∧ s.step event = some s'

/-- **Messages.**  In every interleaving of threads that does not break into a message, the
peer reads the messages in the order in which they were begun, each whole and once.  As long
as a thread is inside a message, the peer has read all others and has its first bytes. -/
theorem messages_arrive {threads : Nat} {messages : List Message} {s : Stream}
    (hrun : Traces Stream.Sparing Stream.begun (.start threads) messages s) :
    (s.Between → peerReads s.wire = (messages.map Message.packet, [])) ∧
      ∀ t sending, s.inSend t = some sending → 0 < sending.totalBytesSent →
        ∃ done, messages = done ++ [sending.message] ∧ peerReads s.wire =
          (done.map Message.packet, sending.message.bytes.take sending.totalBytesSent) := by
  have h : Stream.Whole messages s := by
    refine hrun.invariant ⟨fun hu => ?_, .inl ⟨fun hu => ?_, rfl⟩⟩ fun h hstep =>
      h.step hstep.1 hstep.2
    · cases Stream.inSend_replicate.symm.trans hu
    · cases Stream.inSend_replicate.symm.trans hu
  refine ⟨fun hbetween => ?_, fun t sending ht hpos => ?_⟩
  · rcases h.wire with ⟨-, hwire⟩ | ⟨t, sending, done, ⟨ht, hpos, -⟩, -⟩
    · have hread : peerReads ((messages.map Message.bytes).flatten ++ []) =
          (messages.map Message.packet, []) := peerReads_eq (by decide)
      rw [List.append_nil] at hread
      rw [hwire, hread]
    · exact absurd (hbetween ht) (Nat.ne_of_gt hpos)
  · rcases h.wire with ⟨hbetween, -⟩ | ⟨u, x, done, ⟨hu, -, hothers⟩, hdone, hwire⟩
    · exact absurd (hbetween ht) (Nat.ne_of_gt hpos)
    · obtain rfl : t = u := by
        by_contra hne
        exact Nat.ne_of_gt hpos (hothers hne ht)
      obtain rfl := Option.some.inj (hu.symm.trans ht)
      refine ⟨done, hdone, ?_⟩
      rw [hwire, peerReads_eq (length_lt_required (h.unsent ht))]

instance (s : Stream) : DecidablePred s.Spares := fun event =>
  match event with
  | .call _ _ => inferInstanceAs (Decidable True)
  | .turn t result => inferInstanceAs (Decidable (∀ u < s.threads.length, ∀ sending ∈ s.inSend u,
      0 < sending.totalBytesSent → u = t ∧ result ≠ .wouldBlock ∧ result ≠ .failed))

/-- A step that spares the messages of others. -/
def Stream.sparingStep (s : Stream) (event : StreamEvent) : Option Stream :=
  if s.Spares event then s.step event else none

/-- A short message. -/
def okMessage : Message := .text ⟨[0x4F, 0x4B], by decide⟩

/-- Two threads send, one of them in two pieces. -/
def twoSenders : List StreamEvent :=
  [.call 0 okMessage, .call 1 .disconnect, .turn 0 (.sent 1), .turn 0 (.sent 3), .turn 1 (.sent 4)]

/-- Both messages arrive. -/
theorem twoSenders_arrive :
    ∃ s, Traces Stream.Sparing Stream.begun (.start 2) [okMessage, .disconnect] s ∧ s.Between ∧
      peerReads s.wire = ([okMessage.packet, Message.disconnect.packet], []) := by
  have hruns : (trace Stream.sparingStep Stream.begun (.start 2) twoSenders).any
      (fun r => decide (r.1 = [okMessage, .disconnect]) &&
        decide (r.2.threads = List.replicate 2 none)) = true := by
    decide +kernel
  obtain ⟨⟨messages, s⟩, htrace, hruns⟩ := (Option.any_eq_true _ _).mp hruns
  obtain ⟨hmessages, hthreads⟩ := (Bool.and_eq_true _ _).mp hruns
  obtain rfl := of_decide_eq_true hmessages
  have hrun : Traces Stream.Sparing Stream.begun (.start 2) [okMessage, .disconnect] s := by
    refine traces_of_trace (fun {s event s'} h => ?_) htrace
    unfold Stream.sparingStep at h
    split at h
    · exact ⟨by assumption, h⟩
    · cases h
  have hbetween : s.Between := by
    intro u sending hu
    obtain ⟨wire, threads⟩ := s
    obtain rfl := of_decide_eq_true hthreads
    cases Stream.inSend_replicate.symm.trans hu
  exact ⟨s, hrun, hbetween, (messages_arrive hrun).1 hbetween⟩

end Server
