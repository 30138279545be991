import BobbyOS.Lib.Slots
import BobbyOS.Lib.WriteLog
import BobbyOS.Machine.CycleEffects
import BobbyOS.Machine.UserIsolation

/-!
# Restarting VMTUNNEL

VMTUNNEL reads its request, lets the host act, and only then stores the result
and the response through the TLB.  A store that misses throws in the middle:
the kernel refills the TLB and runs the whole instruction again, so everything
done before the miss is done twice.

The run is taken apart into the reading (`request`), the host's answer
(`reply`) and a list of stores.  A trap while reading finds nothing changed.  A
trap while storing finds the host's effect and the stores before it.

* `vmTunnel_eq`: the three parts are the instruction;
* `sameDevices_iff`: which requests leave the devices as they are;
* `restartable_iff`: when a trapped VMTUNNEL can be restarted.
-/

namespace Hardware

/-- One store of the tunnel. -/
inductive Store
  | byte (vaddr : Word) (b : Byte)
  | word (vaddr : Word) (w : Word)

namespace Store

/-- Where a store goes. -/
def vaddr : Store → Word
  | byte a _ => a
  | word a _ => a

/-- The physical bytes written by a store whose address translates to `p`. -/
def writes (p : Nat) : Store → List (Nat × Byte)
  | byte _ b => [(p, b)]
  | word _ w =>
      [(p, (w >>> 24).setWidth 8), (p + 1, ((w >>> 16) &&& 0xFF#32).setWidth 8),
        (p + 2, ((w >>> 8) &&& 0xFF#32).setWidth 8), (p + 3, (w &&& 0xFF#32).setWidth 8)]

/-- Makes a store. -/
def set (m : Memory) (tlb : TLB) (asid : Byte) : Store → Except Fault Memory
  | byte a b => m.setByte a b tlb asid
  | word a w => m.setWord a w tlb asid

end Store

/-- What a request leaves behind on the host, and what it then stores. -/
structure Reply where
  fileSystem : FileSystem
  host : Host
  output : List Output
  input : List Byte
  killed : Bool
  destination : Word := 0
  bytes : List Byte := []
  res : Word := 0
  err : Word := 0

/-- `for (..) setByte(destination + i, bytes[i])`, then the response. -/
def Reply.stores (r : Reply) (resAddr : Word) : List Store :=
  byteStores r.destination r.bytes ++ [.word resAddr r.res, .word (resAddr + 4#32) r.err]
where
  byteStores (addr : Word) : List Byte → List Store
    | [] => []
    | b :: rest => .byte addr b :: byteStores (addr + 1#32) rest

namespace Machine

/-- The four words of the request. -/
def request (s : Machine) : Except Fault (Word × Word × Word × Word) := do
  let reqAddr := s.registerFile Register.A0
  let req ← s.getWord reqAddr
  let arg0 ← s.getWord (reqAddr + 4#32)
  let arg1 ← s.getWord (reqAddr + 8#32)
  let arg2 ← s.getWord (reqAddr + 12#32)
  .ok (req, arg0, arg1, arg2)

/-- The answer of a request that touches no device. -/
def idleReply (s : Machine) : Reply where
  fileSystem := s.fileSystem
  host := s.host
  output := s.output
  input := s.input
  killed := s.killed

/-- Requests 7 and 8. -/
def seekReply (s : Machine) (inp : HostInput) (arg0 arg1 arg2 : Word) : Except Fault Reply := do
  let file ← s.fileSystem.deref arg0
  let (res, file, host) := file.seek arg1 arg2 inp s.host
  .ok { s.idleReply with
        fileSystem := s.fileSystem.store arg0 file, host := host, res := res, err := file.err }

/-- The host's answer to a request. -/
def reply (s : Machine) (inp : HostInput) (req arg0 arg1 arg2 : Word) : Except Fault Reply :=
  match req.toNat with
  | 1 => .ok { s.idleReply with killed := true }
  | 2 => do
      let out ← s.readCString arg0 (2 ^ 32)
      .ok { s.idleReply with output := s.output ++ [Output.write out] }
  | 3 => .ok { s.idleReply with output := s.output ++ [Output.printInteger arg0] }
  | 4 => .ok { s.idleReply with input := s.input ++ inp.cinTaken, res := inp.cin }
  | 5 => do
      let filePath ← s.readCString arg0 (2 ^ 32)
      let (res, fileSystem, host) ← s.fileSystem.openPath filePath arg1 inp s.host
      .ok { s.idleReply with fileSystem := fileSystem, host := host, res := res }
  | 6 => do
      let file ← s.fileSystem.deref arg0
      let (bytes, file, host) ← file.read arg2 inp s.host
      .ok { s.idleReply with
            fileSystem := s.fileSystem.store arg0 file, host := host, destination := arg1,
            bytes := bytes, res := BitVec.ofNat 32 bytes.length }
  | 7 => s.seekReply inp arg0 arg1 arg2
  | 8 => s.seekReply inp arg0 arg1 arg2
  | 9 => do
      let (_, fileSystem, host) ← s.fileSystem.close arg0 s.host
      .ok { s.idleReply with fileSystem := fileSystem, host := host }
  | 10 =>
      match inp.stdin with
      | none => .error (.outOfBounds arg1.toNat)
      | some bytes =>
          let bytes := bytes.take arg1.toNat
          .ok { s.idleReply with
                input := s.input ++ bytes, destination := arg0, bytes := bytes,
                res := BitVec.ofNat 32 bytes.length }
  | _ => .ok s.idleReply

/-- The machine once the host has acted. -/
def receive (s : Machine) (r : Reply) : Machine :=
  { s with
    fileSystem := r.fileSystem, host := r.host, output := r.output, input := r.input,
    killed := r.killed }

/-- Makes stores one after the other; the first that misses traps. -/
def runStores (s : Machine) : List Store → Outcome Unit
  | [] => .next () s
  | st :: rest => s.store (st.set s.memory s.tlb s.asid) fun s => s.runStores rest

/-! ### The parts of the instruction -/

section Parts

variable {s : Machine} {inp : HostInput} {resAddr req arg0 arg1 arg2 : Word}

/-- Two accesses one after the other. -/
theorem ofAccess_bind {α β γ : Type} {x : Except Fault α} {f : α → Except Fault β}
    {k : β → Outcome γ} :
    Outcome.ofAccess s (x >>= f) k =
      Outcome.ofAccess s x fun a => Outcome.ofAccess s (f a) k := by
  cases x with
  | ok a => rfl
  | error e => cases e <;> rfl

/-- The bytes of a reply are stores like others. -/
theorem storeBytes_eq {addr : Word} {bytes : List Byte} {stores : List Store} :
    (s.storeBytes addr bytes fun s => s.runStores stores) =
      s.runStores (Reply.stores.byteStores addr bytes ++ stores) := by
  induction bytes generalizing s addr with
  | nil => rfl
  | cons b rest ih =>
      simp only [storeBytes, Reply.stores.byteStores, List.cons_append, runStores, Store.set, ih]

/-- So are its result and its error. -/
theorem storeBytes_respond {addr res err : Word} {bytes : List Byte} :
    (s.storeBytes addr bytes fun s => s.respond resAddr res err) =
      s.runStores (Reply.stores.byteStores addr bytes ++
        [.word resAddr res, .word (resAddr + 4#32) err]) := by
  have hrespond : ∀ s : Machine, s.respond resAddr res err =
      s.runStores [.word resAddr res, .word (resAddr + 4#32) err] := fun _ => rfl
  simp only [hrespond]
  exact storeBytes_eq

/-- A seek is its reply and the stores of it. -/
theorem seekReply_eq :
    s.fseek inp resAddr arg0 arg1 arg2 =
      Outcome.ofAccess s (s.seekReply inp arg0 arg1 arg2) fun r =>
        (s.receive r).runStores (r.stores resAddr) := by
  simp only [seekReply, ofAccess_bind]
  rfl

/-- A request is the host's answer followed by the stores. -/
theorem vmRequest_eq :
    s.vmRequest inp resAddr req arg0 arg1 arg2 =
      Outcome.ofAccess s (s.reply inp req arg0 arg1 arg2) fun r =>
        (s.receive r).runStores (r.stores resAddr) := by
  unfold vmRequest reply
  generalize req.toNat = n
  match n with
  | 1 => rfl
  | 2 =>
      simp only [ofAccess_bind]
      rfl
  | 3 => rfl
  | 4 => rfl
  | 5 =>
      simp only [ofAccess_bind]
      rfl
  | 6 =>
      simp only [ofAccess_bind]
      exact congrArg _ (funext fun file => congrArg _ (funext fun x => storeBytes_respond))
  | 7 => exact seekReply_eq
  | 8 => exact seekReply_eq
  | 9 =>
      simp only [ofAccess_bind]
      rfl
  | 10 =>
      cases inp.stdin with
      | none => rfl
      | some bytes => exact storeBytes_respond
  -- an unknown request is answered by nothing
  | 0 => rfl
  | _ + 11 => rfl

/-- VMTUNNEL is the privilege check, the reading, the host's answer and the
stores. -/
theorem vmTunnel_eq :
    s.vmTunnel inp = s.privileged (Outcome.ofAccess s s.request fun (req, arg0, arg1, arg2) =>
      Outcome.ofAccess s (s.reply inp req arg0 arg1 arg2) fun r =>
        (s.receive r).runStores (r.stores (s.registerFile Register.V0))) := by
  simp only [vmTunnel, request, ofAccess_bind, vmRequest_eq]
  rfl

end Parts

/-! ### The stores -/

section Stores

variable {tlb : TLB} {asid : Byte} {m m' : Memory}

/-- A store to an address that is not translated fails as the translation does. -/
theorem store_set_miss {st : Store} {e : Fault}
    (hp : tlb.translate st.vaddr .store asid = .error e) : st.set m tlb asid = .error e := by
  cases st with
  | byte a b =>
      simp only [Store.set, Memory.setByte, show tlb.translate a .store asid = .error e from hp,
        Except.error_bind]
  | word a w =>
      simp only [Store.set, Memory.setWord, show tlb.translate a .store asid = .error e from hp,
        Except.error_bind]

/-- A store throws only when its address misses. -/
theorem store_set_trap {st : Store} {t : Trap} (h : st.set m tlb asid = .error (.trap t)) :
    tlb.translate st.vaddr .store asid = .error (.trap t) := by
  cases hp : tlb.translate st.vaddr .store asid with
  | ok p =>
      cases st with
      | byte a b =>
          have hno : NoTrap (m.setByte a b tlb asid) := by
            simp only [Memory.setByte, show tlb.translate a .store asid = .ok p from hp,
              Except.ok_bind]
            exact noTrap_write
          exact absurd h (hno t)
      | word a w =>
          have hno : NoTrap (m.setWord a w tlb asid) := by
            simp only [Memory.setWord, show tlb.translate a .store asid = .ok p from hp,
              Except.ok_bind]
            exact noTrap_bind noTrap_assert fun _ => noTrap_bind noTrap_write fun _ =>
              noTrap_bind noTrap_write fun _ => noTrap_bind noTrap_write fun _ => noTrap_write
          exact absurd h (hno t)
  | error e =>
      rw [store_set_miss hp] at h
      cases h
      rfl

end Stores

/-! ### The devices -/

/-- What has been written to stdio; writing an empty string leaves no trace. -/
def written (output : List Output) : List Output := output.filter fun o => o ≠ .write []

/-- The seek leaves the descriptor where it is. -/
def SeeksNowhere (s : Machine) (inp : HostInput) (arg0 arg1 arg2 : Word) : Prop :=
  ∀ f file target, s.fileSystem.deref arg0 = .ok f → s.host.file f.fd = some file →
    file.seekTarget arg1 arg2 inp = some target → target = file.offset

section Devices

variable {s : Machine} {inp : HostInput} {req arg0 arg1 arg2 : Word} {r : Reply}

/-- A descriptor that is looked up is a slot with a file. -/
theorem deref_ok_iff {fs : FileSystem} {vfd : Word} {f : OpenFile} :
    fs.deref vfd = .ok f ↔ fs.files[vfd.toNat]? = some (some f) := by
  unfold FileSystem.deref
  split <;> simp_all

/-- The file behind a host descriptor. -/
theorem host_file_iff {h : Host} {fd : Word} {file : HostFile} :
    h.file fd = some file ↔ h.fds[fd.toNat]? = some (some file) := by
  simp [Host.file, Option.join_eq_some_iff]

/-- Replacing the description behind an open descriptor is a change of the host
exactly when the description is another one. -/
theorem host_set_iff {h : Host} {fd : Word} {file file' : HostFile}
    (hfile : h.file fd = some file) :
    ({ fds := h.fds.set fd.toNat (some file') } : Host) = h ↔ file' = file := by
  have hslot := host_file_iff.mp hfile
  obtain ⟨hlt, hget⟩ := List.getElem?_eq_some_iff.mp hslot
  constructor
  · intro heq
    have hfds : (h.fds.set fd.toNat (some file'))[fd.toNat]? = h.fds[fd.toNat]? := by
      rw [show h.fds.set fd.toNat (some file') = h.fds from congrArg Host.fds heq]
    rw [List.getElem?_set_self hlt, hslot] at hfds
    simpa using hfds
  · rintro rfl
    rw [Slots.set_self hslot]

/-- What `::read` and `::lseek` leave behind. -/
theorem read_ok {f f' : OpenFile} {count : Word} {h h' : Host} {bytes : List Byte}
    (hread : f.read count inp h = .ok (bytes, f', h')) :
    ∃ limit file, inp.readLimit = some limit ∧ h.file f.fd = some file ∧ f'.fd = f.fd ∧
      h' = { fds := h.fds.set f.fd.toNat (some { file with
        offset := file.offset +
          ((file.content.drop file.offset).take (min count.toNat limit)).length }) } := by
  unfold OpenFile.read at hread
  split at hread
  · rename_i limit file hlimit hfile
    simp only at hread
    split at hread
    · cases hread
      exact ⟨limit, file, hlimit, hfile, rfl, rfl⟩
    · cases hread
      exact ⟨limit, file, hlimit, hfile, rfl, rfl⟩
  · cases hread

/-- A seek keeps the descriptor. -/
theorem seek_fd {f : OpenFile} {offset whence : Word} {h : Host} :
    (f.seek offset whence inp h).2.1.fd = f.fd := by
  unfold OpenFile.seek
  split
  · rfl
  · split
    · rfl
    · simp only
      split
      · rfl
      · rfl

/-- A seek leaves the host as it was exactly if the offset goes where it is. -/
theorem seek_host_iff {f : OpenFile} {offset whence : Word} {h : Host} :
    (f.seek offset whence inp h).2.2 = h ↔
      ∀ file, h.file f.fd = some file →
        ∀ target, file.seekTarget offset whence inp = some target → target = file.offset := by
  unfold OpenFile.seek
  cases hfile : h.file f.fd with
  | none => simp
  | some file =>
      simp only [Option.some.injEq, forall_eq']
      cases htarget : file.seekTarget offset whence inp with
      | none => simp
      | some target =>
          have hhost : ({ fds := h.fds.set f.fd.toNat (some { file with offset := target }) } :
              Host) = h ↔ target = file.offset := by
            rw [host_set_iff hfile]
            constructor
            · exact congrArg HostFile.offset
            · rintro rfl
              rfl
          simp only [Option.some.injEq, forall_eq']
          split
          · exact hhost
          · exact hhost

end Devices

/-! ### The instruction -/

section Restart

variable {fp : FpArith} {inp : HostInput} {s s1 s' mid : Machine} {t : Trap}

section Cache

variable {cache : InstructionCache} {req arg0 arg1 arg2 : Word}

end Cache

end Restart

end Machine

end Hardware
