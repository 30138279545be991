import BobbyOS.Network.WebSocket
import Mathlib.Data.List.Forall2
import Mathlib.Data.List.TakeWhile

/-!
# A connection of the server

Each time the socket of a connection has something to read, `dispatch` takes all
of it, answers the handshake or takes the bytes for one frame, and hands the
payload to `generateTask`.

* `dispatch_exact`: the payloads of the client's frames are handed over one by
  one, and the peer is kept, exactly if every delivery begins with a whole frame
  that carries the next payload.
-/

namespace Server

open WebSocket

/-- The characters of a string literal. -/
def chars (s : String) : List Byte := s.toList.map fun c => BitVec.ofNat 8 c.toNat

/-- `std::string(const char*)`. -/
def cString (s : List Byte) : List Byte := s.takeWhile (· ≠ 0)

/-- What a dispatch can throw; `popBack` takes the last character of an empty
string, which C++ leaves undefined. -/
inductive Exception
  | runtimeError (what : String)
  | badWebSocketRequest (field : String)
  | popBack
  | packet (e : WebSocket.Exception)
deriving DecidableEq

/-! ### The handshake -/

/-- The lines that `std::getline` reads one after the other. -/
def lines : List Byte → List (List Byte)
  | [] => []
  | c :: s =>
      if c = 10 then [] :: lines s
      else
        match lines s with
        | [] => [[c]]
        | line :: rest => (c :: line) :: rest

/-- Whether `s.find(pattern, pos)` finds anything. -/
def finds (s pattern : List Byte) (pos : Nat := 0) : Bool :=
  (List.range (s.length + 1)).any fun i => pos ≤ i && pattern.isPrefixOf (s.drop i)

/-- The loop that collects the header lines, up to the first without a blank. -/
def readHeaders (headers : List Byte → Option (List Byte)) :
    List (List Byte) → Except Exception (List Byte → Option (List Byte))
  | [] => .ok headers
  | val :: rest =>
      if val = [] then .error .popBack
      else
        let val := val.dropLast
        if 32 ∈ val then
          let loc := val.idxOf 32
          let left := val.take loc
          let right := val.drop (loc + 1)
          readHeaders (fun name => if name = left then some right else headers name) rest
        else .ok headers

/-- `parseWebSocketRequest`. -/
def parseWebSocketRequest (req expectedRoute : List Byte) : Except Exception (List Byte) :=
  if 10 ∉ req then .error (.badWebSocketRequest "Empty request")
  else
    let val := (lines req).headD []
    if !finds val (chars "GET") then .error (.badWebSocketRequest "Bad or no method")
    else if !finds val expectedRoute 3 then .error (.badWebSocketRequest "Bad or no route")
    else if !finds val (chars "HTTP/1.1") 3 then
      .error (.badWebSocketRequest "Bad or no HTTP version")
    else do
      let headers ← readHeaders (fun _ => none) (lines req).tail
      if headers (chars "Sec-WebSocket-Version:") ≠ some (chars "13") then
        .error (.badWebSocketRequest "Bad or no websocket version")
      else if headers (chars "Sec-WebSocket-Key:") = none then
        .error (.badWebSocketRequest "No websocket key")
      else if headers (chars "Connection:") ≠ some (chars "Upgrade") then
        .error (.badWebSocketRequest "Bad or no connection header")
      else if headers (chars "Upgrade:") = none ∨
          headers (chars "websocket:") = some (chars "13") then
        .error (.badWebSocketRequest "Bad or no websocket upgrade header")
      else .ok ((headers (chars "Sec-WebSocket-Key:")).getD [])

/-- `digest` is the SHA-1 of a string in Base64, if the library makes one. -/
def buildWebSocketResponse (digest : List Byte → Option (List Byte)) (key : List Byte) :
    Except Exception (List Byte) :=
  match digest (key ++ chars "258EAFA5-E914-47DA-95CA-C5AB0DC85B11") with
  | none => .error (.runtimeError "BIO_flush failed")
  | some accept_key =>
      .ok (chars "HTTP/1.1 101 Switching Protocols\r\nUpgrade: websocket\r\n" ++
        chars "Connection: Upgrade\r\nSec-WebSocket-Accept: " ++ accept_key ++ chars "\r\n\r\n")

/-! ### Dispatch -/

/-- `disconnectHeader`: a close frame with status 1000. -/
def disconnectHeader : List Byte := [0x88, 0x02, 0x03, 0xE8]

def EPOLLIN : BitVec 32 := 1
def EPOLLERR : BitVec 32 := 8
def EPOLLHUP : BitVec 32 := 16

/-- `Connection`: whether the handshake is behind it, and its socket. -/
structure Connection where
  handshakeStarted : Bool := false
  sockfd : BitVec 32

/-- What `recv` returns, unless it would block. -/
inductive Recv
  | bytes (buf : List Byte)
  | closed
  | failed

/-- What a dispatch does outside its connection. -/
inductive Effect
  | send (bytes : List Byte)
  | kill
  | generateTask (str : List Byte)
deriving DecidableEq

namespace Connection

/-- The loop over `recv`, which ends with the list; none if the peer has closed
the connection. -/
def receive (conn : Connection) (data : List Byte) :
    List Recv → Except Exception (Option (List Byte))
  | [] => .ok (some data)
  | .closed :: _ => .ok none
  | .failed :: _ =>
      .error (.runtimeError
        ("Bad error with loading data into conn " ++ toString conn.sockfd.toNat))
  | .bytes buf :: recvs =>
      if maxSize < data.length + buf.length then .error (.packet .lengthError)
      else receive conn (data ++ buf) recvs

/-- The part of `dispatch` before `handshakeStarted`; what the parse or the
response throws is caught. -/
def handshake (digest : List Byte → Option (List Byte)) (conn : Connection) (data : List Byte) :
    Except Exception (Connection × List Effect) :=
  let response := do
    let key ← parseWebSocketRequest (cString (data ++ [0])) (chars "/res")
    buildWebSocketResponse digest key
  match response with
  | .ok response => .ok ({ conn with handshakeStarted := true }, [.send response])
  | .error .popBack => .error .popBack
  | .error _ =>
      .ok (conn, [.send (chars "HTTP/1.1 400 Bad Request\r\nContent-Length: 0\r\n"), .kill])

/-- `Connection::dispatch`, with what the calls of `recv` give. -/
def dispatch (digest : List Byte → Option (List Byte)) (conn : Connection) (event : BitVec 32)
    (recvs : List Recv) : Except Exception (Connection × List Effect) :=
  if event &&& EPOLLERR ≠ 0 ∨ event &&& EPOLLHUP ≠ 0 then .ok (conn, [.kill])
  else if event &&& EPOLLIN = 0 then
    .error (.runtimeError ("Connection dispatch had no incoming data: " ++ toString event.toNat))
  else do
    match ← conn.receive [] recvs with
    | none => .ok (conn, [.kill])
    | some data =>
        if !conn.handshakeStarted then conn.handshake digest data
        else
          match ClientToServerPacket.parse data with
          | .error e => .error (.packet e)
          | .ok packet =>
              if packet.payload = [] then .ok (conn, [.send disconnectHeader])
              else .ok (conn, [.generateTask (cString (packet.payload ++ [0]))])

/-- A connection behind its handshake. -/
def afterHandshake (sockfd : BitVec 32) : Connection := ⟨true, sockfd⟩

end Connection

/-! ### The frames of a client -/

/-- A whole masked frame with a payload. -/
structure Frame where
  bytes : List Byte
  masked : masked bytes = true
  complete : bytes.length = required bytes
  nonempty : 0 < announced bytes

/-- What the client has sent in a frame. -/
def Frame.payload (frame : Frame) : List Byte := content frame.bytes

/-- What is there to read when a dispatch starts, in the pieces in which `recv`
returns it. -/
structure Delivery where
  pieces : List (List Byte)
  fits : pieces.flatten.length ≤ maxSize

/-- The bytes of a delivery, whatever its pieces are. -/
def Delivery.bytes (delivery : Delivery) : List Byte := delivery.pieces.flatten

/-- The dispatches of the deliveries, one after the other. -/
def Connection.run (digest : List Byte → Option (List Byte)) (conn : Connection) :
    List Delivery → Except Exception (List Effect)
  | [] => .ok []
  | delivery :: rest => do
      let (conn, effects) ← conn.dispatch digest EPOLLIN (delivery.pieces.map .bytes)
      let effects' ← run digest conn rest
      .ok (effects ++ effects')

/-- The payloads are handed over, each once and in order, and nothing is sent to
the peer. -/
def HandsOver (digest : List Byte → Option (List Byte)) (sockfd : BitVec 32)
    (deliveries : List Delivery) (frames : List Frame) : Prop :=
  (Connection.afterHandshake sockfd).run digest deliveries =
    .ok (frames.map fun frame => .generateTask frame.payload)

/-- The delivery begins with a whole frame that carries the payload of this one,
up to the first zero. -/
def Carries (delivery : Delivery) (frame : Frame) : Prop :=
  required delivery.bytes ≤ delivery.bytes.length ∧
    cString (content delivery.bytes) = frame.payload

variable {digest : List Byte → Option (List Byte)} {sockfd : BitVec 32} {conn : Connection}
  {deliveries : List Delivery} {frames : List Frame}

/-- No frame is empty. -/
theorem Frame.payload_ne_nil (frame : Frame) : frame.payload ≠ [] := by
  rw [Frame.payload, content]
  intro hnil
  have hlen := congrArg List.length hnil
  rw [List.length_map, List.length_range] at hlen
  exact Nat.ne_of_gt frame.nonempty hlen

/-- A terminator ends the C string. -/
theorem cString_append_zero (s : List Byte) : cString (s ++ [0]) = cString s := by
  induction s with
  | nil => rfl
  | cons c s ih =>
      rw [cString, cString, List.cons_append, List.takeWhile_cons, List.takeWhile_cons]
      split
      · exact congrArg (c :: ·) ih
      · rfl

/-- A text is its C string exactly if it has no terminator. -/
theorem cString_eq_self {s : List Byte} : cString s = s ↔ 0 ∉ s := by
  rw [cString, List.takeWhile_eq_self_iff]
  constructor
  · intro h hzero
    exact of_decide_eq_true (h 0 hzero) rfl
  · intro h c hc
    refine decide_eq_true ?_
    rintro rfl
    exact h hc

/-- The loop over `recv` collects all pieces. -/
theorem receive_pieces {pieces : List (List Byte)} :
    ∀ {data : List Byte}, data.length + pieces.flatten.length ≤ maxSize →
      conn.receive data (pieces.map .bytes) = .ok (some (data ++ pieces.flatten)) := by
  induction pieces with
  | nil =>
      intro data _
      rw [List.flatten_nil, List.append_nil]
      rfl
  | cons piece pieces ih =>
      intro data hfits
      rw [List.flatten_cons, List.length_append] at hfits
      rw [List.map_cons, Connection.receive, if_neg (by omega), ih, List.flatten_cons,
        List.append_assoc]
      rw [List.length_append]
      omega

/-- What a delivery leads to, after the handshake. -/
def Delivery.outcome (delivery : Delivery) : Except Exception Effect :=
  match ClientToServerPacket.parse delivery.bytes with
  | .error e => .error (.packet e)
  | .ok packet =>
      if packet.payload = [] then .ok (.send disconnectHeader)
      else .ok (.generateTask (cString packet.payload))

/-- One delivery has the effect that it should have. -/
theorem dispatch_delivery (delivery : Delivery) :
    (Connection.afterHandshake sockfd).dispatch digest EPOLLIN (delivery.pieces.map .bytes) =
      delivery.outcome.map fun effect => (Connection.afterHandshake sockfd, [effect]) := by
  have hfits : ([] : List Byte).length + delivery.pieces.flatten.length ≤ maxSize := by
    rw [List.length_nil, Nat.zero_add]
    exact delivery.fits
  have hquiet : ¬ (EPOLLIN &&& EPOLLERR ≠ 0 ∨ EPOLLIN &&& EPOLLHUP ≠ 0) := by decide
  have hinput : ¬ EPOLLIN &&& EPOLLIN = 0 := by decide
  rw [Connection.dispatch, if_neg hquiet, if_neg hinput, receive_pieces hfits, Except.ok_bind,
    List.nil_append, Delivery.outcome]
  show (match ClientToServerPacket.parse delivery.bytes with
    | .error e => _
    | .ok packet => _) = _
  cases ClientToServerPacket.parse delivery.bytes with
  | error e => rfl
  | ok packet =>
      show (if packet.payload = [] then _ else _) = Except.map _ (if _ then _ else _)
      rw [cString_append_zero]
      split
      · rfl
      · rfl

/-- **Step.**  A delivery hands over a payload exactly if it carries it. -/
theorem outcome_eq_iff {delivery : Delivery} {frame : Frame} :
    delivery.outcome = .ok (.generateTask frame.payload) ↔ Carries delivery frame := by
  have hlen : delivery.bytes.length ≤ maxSize := delivery.fits
  constructor
  · intro h
    rw [Delivery.outcome] at h
    split at h
    · cases h
    · rename_i packet hparse
      split at h
      · cases h
      · rename_i hpayload
        obtain ⟨hall, hcontent⟩ := WebSocket.parse_payload hlen hparse hpayload
        rw [hcontent] at h
        exact ⟨hall, Effect.generateTask.inj (Except.ok.inj h)⟩
  · rintro ⟨hall, hpayload⟩
    have hne : content delivery.bytes ≠ [] := by
      intro hnil
      rw [hnil] at hpayload
      exact frame.payload_ne_nil hpayload.symm
    have hword : delivery.bytes.length ≤ 2 ^ 64 := Nat.le_trans hlen (by decide)
    rw [Delivery.outcome, parse_complete hword hall (announced_le hlen hall)]
    show (if content delivery.bytes = [] then _ else _) = _
    rw [if_neg hne, hpayload]

/-- A run dispatches one delivery and goes on. -/
theorem run_cons (delivery : Delivery) :
    (Connection.afterHandshake sockfd).run digest (delivery :: deliveries) =
      delivery.outcome >>= fun effect =>
        (Connection.afterHandshake sockfd).run digest deliveries >>= fun effects =>
          .ok (effect :: effects) := by
  rw [Connection.run, dispatch_delivery]
  cases delivery.outcome with
  | error e => rfl
  | ok effect => rfl

/-- **Run.**  The same for all deliveries, one by one. -/
theorem handsOver_iff :
    HandsOver digest sockfd deliveries frames ↔ List.Forall₂ Carries deliveries frames := by
  induction deliveries generalizing frames with
  | nil =>
      rw [List.forall₂_nil_left_iff, HandsOver]
      constructor
      · intro h
        exact List.map_eq_nil_iff.mp (Except.ok.inj h).symm
      · rintro rfl
        rfl
  | cons delivery deliveries ih =>
      rw [HandsOver, run_cons, Except.bind_ok_iff]
      constructor
      · rintro ⟨effect, houtcome, h⟩
        obtain ⟨effects, hrun, h⟩ := Except.bind_ok_iff.mp h
        cases frames with
        | nil => cases Except.ok.inj h
        | cons frame frames =>
            obtain ⟨rfl, rfl⟩ := List.cons.inj (Except.ok.inj h)
            exact .cons (outcome_eq_iff.mp houtcome) (ih.mp hrun)
      · intro h
        cases h with
        | @cons _ frame _ frames hcarries hrest =>
            exact ⟨_, outcome_eq_iff.mpr hcarries,
              Except.bind_ok_iff.mpr ⟨_, ih.mpr hrest, rfl⟩⟩

/-- A frame that is delivered alone is carried, unless its payload has a zero. -/
theorem carries_of_alone {delivery : Delivery} {frame : Frame}
    (hbytes : delivery.bytes = frame.bytes) (hzero : 0 ∉ frame.payload) :
    Carries delivery frame := by
  rw [Carries, hbytes]
  exact ⟨Nat.le_of_eq frame.complete.symm, cString_eq_self.mpr hzero⟩

/-- No terminator is in a C string. -/
theorem zero_notMem_cString (s : List Byte) : 0 ∉ cString s := by
  intro hmem
  rw [cString] at hmem
  have hkept := List.mem_takeWhile_imp hmem
  exact of_decide_eq_true hkept rfl

/-- What is carried has no zero. -/
theorem zero_notMem_of_carries (h : List.Forall₂ Carries deliveries frames) :
    ∀ frame ∈ frames, 0 ∉ frame.payload := by
  induction h with
  | nil =>
      intro frame hframe
      cases hframe
  | cons hcarries _ ih =>
      intro frame hframe
      rcases List.mem_cons.mp hframe with rfl | hrest
      · rw [← hcarries.2]
        exact zero_notMem_cString _
      · exact ih frame hrest

/-- Frames that are delivered one by one. -/
theorem carries_of_alone_all :
    ∀ {deliveries : List Delivery} {frames : List Frame},
      deliveries.map Delivery.bytes = frames.map Frame.bytes →
      (∀ frame ∈ frames, 0 ∉ frame.payload) → List.Forall₂ Carries deliveries frames
  | [], [], _, _ => .nil
  | delivery :: deliveries, frame :: frames, hbytes, hzero => by
      obtain ⟨hhead, htail⟩ := List.cons.inj hbytes
      refine .cons (carries_of_alone hhead (hzero frame List.mem_cons_self)) ?_
      exact carries_of_alone_all htail fun frame hframe =>
        hzero frame (List.mem_cons_of_mem _ hframe)

/-- **Dispatch.**  The payloads of the frames are handed over and the peer is
kept if and only if there are as many deliveries as frames and each begins with a
whole frame that carries the next payload.  No payload has a zero then, and
deliveries of one frame each suffice. -/
theorem dispatch_exact (digest : List Byte → Option (List Byte)) (sockfd : BitVec 32)
    (frames : List Frame) (deliveries : List Delivery) :
    (HandsOver digest sockfd deliveries frames ↔ List.Forall₂ Carries deliveries frames) ∧
    (HandsOver digest sockfd deliveries frames → ∀ frame ∈ frames, 0 ∉ frame.payload) ∧
    (deliveries.map Delivery.bytes = frames.map Frame.bytes →
      (∀ frame ∈ frames, 0 ∉ frame.payload) → HandsOver digest sockfd deliveries frames) :=
  ⟨handsOver_iff, fun h => zero_notMem_of_carries (handsOver_iff.mp h),
    fun hbytes hzero => handsOver_iff.mpr (carries_of_alone_all hbytes hzero)⟩

/-- A frame with the text `A` under a mask key of zeros. -/
def letterFrame : Frame :=
  ⟨[0x81, 0x81, 0, 0, 0, 0, 0x41], by decide, by decide, by decide⟩

/-- The frame on its own, in two pieces. -/
def letterDelivery : Delivery :=
  ⟨[letterFrame.bytes.take 3, letterFrame.bytes.drop 3], by decide⟩

/-- Two frames that arrive one after the other are handed over. -/
theorem letters_handed_over :
    HandsOver (fun _ => none) 5 [letterDelivery, letterDelivery] [letterFrame, letterFrame] :=
  (dispatch_exact (fun _ => none) 5 [letterFrame, letterFrame]
    [letterDelivery, letterDelivery]).2.2 rfl (by decide)

/-- Frames that arrive together may get lost. -/
theorem dispatch_may_drop :
    ¬ ∀ (frames : List Frame) (deliveries : List Delivery),
      (deliveries.map Delivery.bytes).flatten = (frames.map Frame.bytes).flatten →
      HandsOver (fun _ => none) 5 deliveries frames := by
  intro hall
  have hruns := hall [letterFrame, letterFrame]
    [⟨[letterFrame.bytes ++ letterFrame.bytes], by decide⟩] (by decide)
  have hone : (Connection.afterHandshake 5).run (fun _ => none)
      [⟨[letterFrame.bytes ++ letterFrame.bytes], by decide⟩] = .ok [.generateTask [0x41]] := by
    decide +kernel
  rw [HandsOver, hone] at hruns
  cases Except.ok.inj hruns

end Server
