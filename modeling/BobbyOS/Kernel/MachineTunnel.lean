import BobbyOS.Kernel.ASMInterface
import BobbyOS.Lib.Traces
import BobbyOS.Machine.Confinement
import BobbyOS.Machine.OpenFiles

/-!
# The machine behind VMTUNNEL

The kernel's side knows the machine as a `Tunnel`: a reply to each request, given the requests
before it.  The machine's side executes VMTUNNEL in some of its cycles, on the devices as they
are then.  Here the two are the same.

* `answer`, `reply_answer`: what the devices do with a request;
* `machineTunnel`: the tunnel of a machine whose host answers as it likes;
* `tunnel_explains`: in every run of the machine the requests and replies are those of such
  a tunnel, and the file system is the one behind the requests.
-/

namespace Kernel

open Hardware (Fault FpArith Host HostInput Machine)

/-! ### Requests at the machine -/

/-- What the devices of the machine answer to a request of the kernel. -/
def answer (inp : HostInput) (s : Hardware.Session) :
    VMRequest → Except Fault (VMReply × Hardware.Session)
  | .halt | .printString _ | .printInteger _ => .ok ({}, s)
  | .readInteger => .ok ({ res := inp.cin }, s)
  | .fopen path flags => do
      let (vfd, fs, host) ← s.fileSystem.openPath path flags inp s.host
      .ok ({ res := vfd }, (s.opened vfd).after fs host)
  | .fread fd nbytes => do
      let file ← s.fileSystem.deref fd
      let (bytes, file, host) ← file.read nbytes inp s.host
      .ok ({ res := BitVec.ofNat 32 bytes.length, data := bytes },
        s.after (s.fileSystem.store fd file) host)
  | .fseek fd offset whence => do
      let file ← s.fileSystem.deref fd
      let (res, file, host) := file.seek offset whence inp s.host
      .ok ({ res, err := file.err }, s.after (s.fileSystem.store fd file) host)
  | .fclose fd => do
      let (_, fs, host) ← s.fileSystem.close fd s.host
      .ok ({}, s.after fs host)
  | .stdin numBytes =>
      match inp.stdin with
      | none => .error (.outOfBounds numBytes.toNat)
      | some bytes =>
          let bytes := bytes.take numBytes.toNat
          .ok ({ res := BitVec.ofNat 32 bytes.length, data := bytes }, s)

/-- The four words of a request, as VMTUNNEL finds them; a buffer can be anywhere. -/
inductive Words (m : Machine) : VMRequest → Word → Word → Word → Word → Prop
  | halt (arg0 arg1 arg2 : Word) : Words m .halt 1 arg0 arg1 arg2
  | printString {addr : Word} {text : List Byte} (arg1 arg2 : Word)
      (h : m.readCString addr (2 ^ 32) = .ok text) : Words m (.printString text) 2 addr arg1 arg2
  | printInteger (num arg1 arg2 : Word) : Words m (.printInteger num) 3 num arg1 arg2
  | readInteger (arg0 arg1 arg2 : Word) : Words m .readInteger 4 arg0 arg1 arg2
  | fopen {addr : Word} {path : List Byte} (flags arg2 : Word)
      (h : m.readCString addr (2 ^ 32) = .ok path) : Words m (.fopen path flags) 5 addr flags arg2
  | fread (fd buffer nbytes : Word) : Words m (.fread fd nbytes) 6 fd buffer nbytes
  | fseek (fd offset whence : Word) : Words m (.fseek fd offset whence) 8 fd offset whence
  | fclose (fd arg1 arg2 : Word) : Words m (.fclose fd) 9 fd arg1 arg2
  | stdin (buffer numBytes arg2 : Word) : Words m (.stdin numBytes) 10 buffer numBytes arg2

/-- **Requests.**  Between its loads and its stores VMTUNNEL does what `answer` says. -/
theorem reply_answer {m : Machine} {inp : HostInput} {s : Hardware.Session}
    {request : VMRequest} {req arg0 arg1 arg2 : Word} (hwords : Words m request req arg0 arg1 arg2)
    (hfiles : s.fileSystem = m.fileSystem) (hhost : s.host = m.host) :
    (m.reply inp req arg0 arg1 arg2).map
        (fun r => (r.res, r.err, r.bytes, r.fileSystem, r.host)) =
      (answer inp s request).map
        (fun r => (r.1.res, r.1.err, r.1.data, r.2.fileSystem, r.2.host)) := by
  obtain ⟨fs, host, opens, madeBy, answered⟩ := s
  obtain rfl := hfiles
  obtain rfl := hhost
  cases hwords with
  | halt => rfl
  | printString arg1 arg2 h =>
      show Except.map _ (m.readCString arg0 (2 ^ 32) >>= _) = _
      rw [h]
      rfl
  | printInteger => rfl
  | readInteger => rfl
  | fopen flags arg2 h =>
      show Except.map _ (m.readCString arg0 (2 ^ 32) >>= _) = _
      rw [h, answer, Except.ok_bind]
      cases m.fileSystem.openPath _ arg1 inp m.host with
      | ok x => rfl
      | error e => rfl
  | fread =>
      show Except.map _ (m.fileSystem.deref arg0 >>= _) =
        Except.map _ (m.fileSystem.deref arg0 >>= _)
      cases m.fileSystem.deref arg0 with
      | error e => rfl
      | ok f =>
          show Except.map _ (f.read arg2 inp m.host >>= _) =
            Except.map _ (f.read arg2 inp m.host >>= _)
          cases f.read arg2 inp m.host with
          | ok x => rfl
          | error e => rfl
  | fseek =>
      show Except.map _ (m.fileSystem.deref arg0 >>= _) =
        Except.map _ (m.fileSystem.deref arg0 >>= _)
      cases m.fileSystem.deref arg0 with
      | ok f => rfl
      | error e => rfl
  | fclose =>
      show Except.map _ (m.fileSystem.close arg0 m.host >>= _) =
        Except.map _ (m.fileSystem.close arg0 m.host >>= _)
      cases m.fileSystem.close arg0 m.host with
      | ok x => rfl
      | error e => rfl
  | stdin =>
      cases hin : inp.stdin with
      | none => simp [answer, Machine.reply, hin, Except.map]
      | some bytes => simp [answer, Machine.reply, hin, Except.map, Machine.idleReply]

/-- A reply of the machine is the session's answer. -/
theorem answer_of_reply {m : Machine} {inp : HostInput} {s : Hardware.Session} {request : VMRequest}
    {req arg0 arg1 arg2 : Word} {r : Hardware.Reply} (hwords : Words m request req arg0 arg1 arg2)
    (hfiles : s.fileSystem = m.fileSystem) (hhost : s.host = m.host)
    (h : m.reply inp req arg0 arg1 arg2 = .ok r) :
    ∃ t, answer inp s request = .ok ({ res := r.res, err := r.err, data := r.bytes }, t) ∧
      r.fileSystem = t.fileSystem ∧ r.host = t.host := by
  have hanswer := @reply_answer m inp s request req arg0 arg1 arg2 hwords hfiles hhost
  rw [h] at hanswer
  obtain ⟨⟨reply, t⟩, ht, heq⟩ := Except.map_ok_iff.mp hanswer.symm
  simp only [Prod.mk.injEq] at heq
  obtain ⟨hres, herr, hdata, hfs, hhost'⟩ := heq
  refine ⟨t, ?_, hfs.symm, hhost'.symm⟩
  rw [ht, ← hres, ← herr, ← hdata]

/-! ### A machine behind the kernel -/

section Tunnel

/-- The session behind the requests, the last one first; there is none when the machine has
died. -/
def sessionAfter (inp : List VMRequest → HostInput) (h0 : Host) :
    List VMRequest → Except Fault Hardware.Session
  | [] => .ok (.start h0)
  | req :: log => do
      let s ← sessionAfter inp h0 log
      let (_, s) ← answer (inp (req :: log)) s req
      .ok s

/-- The machine behind VMTUNNEL.  After its death no request is answered. -/
def machineTunnel (inp : List VMRequest → HostInput) (h0 : Host) : Tunnel
  | [] => {}
  | req :: log =>
      match sessionAfter inp h0 log >>= fun s => answer (inp (req :: log)) s req with
      | .ok (reply, _) => reply
      | .error _ => {}

variable {inp : List VMRequest → HostInput} {h0 : Host} {s t : Hardware.Session}
  {log : List VMRequest} {req : VMRequest} {reply : VMReply}

/-- The session behind one more request. -/
theorem sessionAfter_cons : sessionAfter inp h0 (req :: log) = .ok t ↔
    ∃ s reply, sessionAfter inp h0 log = .ok s ∧
      answer (inp (req :: log)) s req = .ok (reply, t) := by
  constructor
  · intro h
    obtain ⟨s, hs, h⟩ := Except.bind_ok_iff.mp h
    obtain ⟨⟨reply, t'⟩, hanswer, h⟩ := Except.bind_ok_iff.mp h
    obtain rfl := Except.ok.inj h
    exact ⟨s, reply, hs, hanswer⟩
  · rintro ⟨s, reply, hs, hanswer⟩
    rw [sessionAfter, hs, Except.ok_bind, hanswer]
    rfl

/-- The tunnel gives what the session answers. -/
theorem machineTunnel_of_answer (hs : sessionAfter inp h0 log = .ok s)
    (hanswer : answer (inp (req :: log)) s req = .ok (reply, t)) :
    machineTunnel inp h0 (req :: log) = reply := by
  rw [machineTunnel, hs, Except.ok_bind, hanswer]

/-- A machine that died at this request, or before it. -/
theorem machineTunnel_of_dead (h : ∀ t, sessionAfter inp h0 (req :: log) ≠ .ok t) :
    machineTunnel inp h0 (req :: log) = {} := by
  rw [machineTunnel]
  split
  case h_1 reply t hanswer =>
    obtain ⟨s, hs, hanswer⟩ := Except.bind_ok_iff.mp hanswer
    exact absurd (sessionAfter_cons.mpr ⟨s, reply, hs, hanswer⟩) (h t)
  case h_2 => rfl


/-! ### What is left of a run -/

/-- What the host will answer later does not matter. -/
theorem sessionAfter_congr {inp' : List VMRequest → HostInput}
    (h : ∀ l : List VMRequest, l.length ≤ log.length → inp' l = inp l) :
    sessionAfter inp' h0 log = sessionAfter inp h0 log := by
  induction log with
  | nil => rfl
  | cons req log ih =>
      have hlog := ih fun l hl => h l (Nat.le_succ_of_le hl)
      rw [sessionAfter, sessionAfter, hlog, h _ (Nat.le_refl _)]

/-- An answer depends on the host's inputs so far. -/
theorem machineTunnel_congr {inp' : List VMRequest → HostInput}
    (h : ∀ l : List VMRequest, l.length ≤ log.length → inp' l = inp l) :
    machineTunnel inp' h0 log = machineTunnel inp h0 log := by
  cases log with
  | nil => rfl
  | cons req log =>
      have hlog : sessionAfter inp' h0 log = sessionAfter inp h0 log :=
        sessionAfter_congr fun l hl => h l (Nat.le_succ_of_le hl)
      rw [machineTunnel, machineTunnel, hlog, h _ (Nat.le_refl _)]

/-- The host can answer one more request as it likes. -/
theorem exists_later (inp : List VMRequest → HostInput) (log : List VMRequest) (i : HostInput) :
    ∃ inp' : List VMRequest → HostInput, inp' log = i ∧
      ∀ l : List VMRequest, l.length < log.length → inp' l = inp l := by
  refine ⟨Function.update inp log i, Function.update_self .., fun l hl => ?_⟩
  refine Function.update_of_ne ?_ ..
  rintro rfl
  exact absurd hl (Nat.lt_irrefl _)

/-- The requests of a conversation, the last one first. -/
def asked (l : List (VMRequest × VMReply)) : List VMRequest := (l.map Prod.fst).reverse

/-- The replies in a conversation are those of the tunnel. -/
inductive Talks (vm : Tunnel) : List (VMRequest × VMReply) → Prop
  | nil : Talks vm []
  | snoc {l : List (VMRequest × VMReply)} {request : VMRequest} {reply : VMReply}
      (h : Talks vm l) (hreply : vm (request :: asked l) = reply) :
      Talks vm (l ++ [(request, reply)])

/-- There are as many requests as exchanges. -/
theorem length_asked (l : List (VMRequest × VMReply)) : (asked l).length = l.length := by
  rw [asked, List.length_reverse, List.length_map]

/-- One more exchange is one more request. -/
theorem asked_snoc (l : List (VMRequest × VMReply)) (x : VMRequest × VMReply) :
    asked (l ++ [x]) = x.1 :: asked l := by
  rw [asked, asked, List.map_append, List.reverse_append]
  rfl

/-- A talk depends on the answers so far. -/
theorem Talks.congr {vm vm' : Tunnel} {l : List (VMRequest × VMReply)} (h : Talks vm l)
    (hvm : ∀ log : List VMRequest, log.length ≤ l.length → vm' log = vm log) : Talks vm' l := by
  induction h with
  | nil => exact .nil
  | @snoc l request reply _ hreply ih =>
      rw [List.length_append, List.length_singleton] at hvm
      refine .snoc (ih fun log hlog => hvm log (Nat.le_succ_of_le hlog)) ?_
      have hlength : (request :: asked l).length ≤ l.length + 1 :=
        Nat.succ_le_succ (Nat.le_of_eq (length_asked l))
      rw [hvm _ hlength, hreply]

/-! ### Runs of the machine -/

variable {m m' m1 m2 : Machine} {i : HostInput} {fp : FpArith}

/-- What a cycle asks, and what it is answered.  A VMTUNNEL without privilege, or with a
request that is not in the TLB, asks nothing.  One that throws after the host has acted is of
no kind, and neither is one with a number that no request of the kernel has. -/
inductive Exchange (m : Machine) (i : HostInput) : Option (VMRequest × VMReply) → Prop
  | silent (h : ∀ m1, m.fetch ≠ .next .vmTunnel m1) : Exchange m i none
  | refused {m1 : Machine} (hfetch : m.fetch = .next .vmTunnel m1)
      (h : m1.exl = true → ∀ req arg0 arg1 arg2 r, m1.request = .ok (req, arg0, arg1, arg2) →
        m1.reply i req arg0 arg1 arg2 ≠ .ok r) : Exchange m i none
  | answered {m1 m2 : Machine} {request : VMRequest} {req arg0 arg1 arg2 : Word}
      {r : Hardware.Reply} (hfetch : m.fetch = .next .vmTunnel m1)
      (hrequest : m1.request = .ok (req, arg0, arg1, arg2))
      (hwords : Words m1 request req arg0 arg1 arg2)
      (hreply : m1.reply i req arg0 arg1 arg2 = .ok r) (hrun : m1.vmTunnel i = .next () m2) :
      Exchange m i (some (request, { res := r.res, err := r.err, data := r.bytes }))

/-- A cycle of the machine, with what was asked in it. -/
def Cycles (fp : FpArith) (m : Machine) (e : HostInput × Option (VMRequest × VMReply))
    (m' : Machine) : Prop :=
  (∃ t, m.cycle fp e.1 = .ok (m', t)) ∧ Exchange m e.1 e.2

/-- The devices of the machine are those of the session. -/
def Devices (s : Hardware.Session) (m : Machine) : Prop :=
  m.fileSystem = s.fileSystem ∧ m.host = s.host

/-- Only VMTUNNEL works on the devices. -/
theorem run_devices {instr : Hardware.Instruction} (hinstr : instr ≠ .vmTunnel)
    (h : Devices s m) : (instr.run fp i m).Ends (Devices s) := by
  cases hpriv : instr.isPrivileged with
  | false =>
      have hkeeps : (instr.run fp i m).Ends (Hardware.KeepsSystem m) :=
        Hardware.Instruction.run_keepsSystem hpriv
      exact hkeeps.mono fun m' hm' => ⟨hm'.fileSystem.trans h.1, hm'.host.trans h.2⟩
  | true =>
      cases instr with
      | vmTunnel => exact absurd rfl hinstr
      | tlbReadIndexed =>
          refine Hardware.Outcome.ends_privileged h fun _ => ?_
          unfold Machine.tlbRead
          dsimp only
          split
          · exact h
          · trivial
      | tlbWriteIndexed | tlbWriteRandom =>
          refine Hardware.Outcome.ends_privileged h fun _ => ?_
          unfold Machine.tlbWrite
          dsimp only
          split
          · exact h
          · trivial
      | moveToCoprocessor0 | moveFromCoprocessor0 | exceptionReturn | tlbProbe
      | performCacheOp => exact Hardware.Outcome.ends_privileged h fun _ => h
      | _ => cases hpriv

/-- The stores of VMTUNNEL leave the devices. -/
theorem runStores_devices {stores : List Hardware.Store} (h : Devices s m) :
    (m.runStores stores).Ends (Devices s) := by
  induction stores generalizing m with
  | nil => exact h
  | cons store stores ih => exact Hardware.Outcome.ends_ofAccess h fun mem _ => ih h

/-- The instruction leaves the devices as the session does. -/
theorem vmTunnel_devices {req arg0 arg1 arg2 : Word} {r : Hardware.Reply}
    (hrequest : m1.request = .ok (req, arg0, arg1, arg2))
    (hreply : m1.reply i req arg0 arg1 arg2 = .ok r) (hrun : m1.vmTunnel i = .next () m2)
    (hr : r.fileSystem = s.fileSystem ∧ r.host = s.host) : Devices s m2 := by
  rw [Machine.vmTunnel_eq, Machine.privileged] at hrun
  split at hrun
  case isTrue =>
    rw [hrequest] at hrun
    dsimp only [Hardware.Outcome.ofAccess] at hrun
    rw [hreply] at hrun
    have hstores : ((m1.receive r).runStores (r.stores (m1.registerFile Hardware.Register.V0))).Ends
        (Devices s) := runStores_devices hr
    exact hstores.of_next hrun
  case isFalse => cases hrun

/-- A VMTUNNEL that asks nothing. -/
theorem refused_devices (h : Devices s m1)
    (hrefused : m1.exl = true → ∀ req arg0 arg1 arg2 r,
      m1.request = .ok (req, arg0, arg1, arg2) → m1.reply i req arg0 arg1 arg2 ≠ .ok r) :
    (m1.vmTunnel i).Ends (Devices s) := by
  rw [Machine.vmTunnel_eq]
  refine Hardware.Outcome.ends_privileged h fun hexl => Hardware.Outcome.ends_ofAccess h ?_
  intro words hwords
  refine Hardware.Outcome.ends_ofAccess h fun r hr => ?_
  exact absurd hr (hrefused hexl _ _ _ _ r hwords)

/-- A cycle leaves the devices as its instruction does. -/
theorem cycle_devices {t : Option Hardware.Trap} (h : m.cycle fp i = .ok (m', t))
    (hfetch : ∀ t mid, m.fetch = .raise t mid → Devices s mid)
    (hrun : ∀ instr m1, m.fetch = .next instr m1 → (instr.run fp i m1).Ends (Devices s)) :
    Devices s m' := by
  obtain ⟨mid, hmid, hnone, hsome⟩ := Machine.cycle_ends hfetch hrun (fun _ _ hmid => hmid) h
  cases t with
  | none =>
      rw [hnone rfl]
      exact hmid
  | some trap =>
      rw [(hsome trap rfl).2]
      exact hmid

/-- A tunnel explains the conversation, and its session has the devices of the machine. -/
def Explained (h0 : Host) (l : List (VMRequest × VMReply)) (m : Machine) : Prop :=
  ∃ inp s, sessionAfter inp h0 (asked l) = .ok s ∧ Devices s m ∧ Talks (machineTunnel inp h0) l

/-- A cycle without a request. -/
theorem Explained.silent {l : List (VMRequest × VMReply)} {t : Option Hardware.Trap}
    (h : Explained h0 l m) (hexchange : Exchange m i none)
    (hcycle : m.cycle fp i = .ok (m', t)) : Explained h0 l m' := by
  obtain ⟨inp, s, hs, hdevices, htalks⟩ := h
  have hfetched : m.fetch.Ends _ := Machine.fetch_ends
  refine ⟨inp, s, hs, ?_, htalks⟩
  refine cycle_devices hcycle (fun t mid hraise => ?_) (fun instr m2 hnext => ?_)
  · obtain ⟨cache, rfl⟩ := hfetched.of_raise hraise
    exact hdevices
  · obtain ⟨cache, rfl⟩ := hfetched.of_next hnext
    cases hexchange with
    | silent hsilent =>
        refine run_devices ?_ hdevices
        rintro rfl
        exact hsilent _ hnext
    | refused hfetch hrefused =>
        rw [hfetch] at hnext
        obtain ⟨rfl, rfl⟩ := Hardware.Outcome.next.inj hnext
        exact refused_devices hdevices hrefused

/-- A cycle with a request: the host input of this cycle is what the host does on this
request, and on no earlier one. -/
theorem Explained.answered {l : List (VMRequest × VMReply)} {t : Option Hardware.Trap}
    {request : VMRequest} {reply : VMReply} (h : Explained h0 l m)
    (hexchange : Exchange m i (some (request, reply)))
    (hcycle : m.cycle fp i = .ok (m', t)) : Explained h0 (l ++ [(request, reply)]) m' := by
  obtain ⟨inp, s, hs, hdevices, htalks⟩ := h
  cases hexchange with
  | @answered m1 m2 _ req arg0 arg1 arg2 r hfetch hrequest hwords hreply hrun =>
      have hfetched : m.fetch.Ends _ := Machine.fetch_ends
      obtain ⟨cache, rfl⟩ := hfetched.of_next hfetch
      obtain ⟨t', hanswer, hfiles, hhost⟩ :=
        answer_of_reply hwords hdevices.1.symm hdevices.2.symm hreply
      obtain ⟨inp', hnow, hlater⟩ := exists_later inp (request :: asked l) i
      have hpast : sessionAfter inp' h0 (asked l) = .ok s :=
        (sessionAfter_congr fun l' hl' => hlater l' (Nat.lt_succ_of_le hl')).trans hs
      rw [← hnow] at hanswer
      refine ⟨inp', t', ?_, ?_, .snoc ?_ ?_⟩
      · rw [asked_snoc]
        exact sessionAfter_cons.mpr ⟨s, _, hpast, hanswer⟩
      · refine cycle_devices hcycle (fun t mid hraise => ?_) (fun instr m3 hnext => ?_)
        · rw [hfetch] at hraise
          cases hraise
        · rw [hfetch] at hnext
          obtain ⟨rfl, rfl⟩ := Hardware.Outcome.next.inj hnext
          show Hardware.Outcome.Ends (Devices t') (Machine.vmTunnel _ i)
          rw [hrun]
          exact vmTunnel_devices hrequest hreply hrun ⟨hfiles, hhost⟩
      · refine htalks.congr fun log hlog => machineTunnel_congr fun l' hl' => hlater l' ?_
        rw [List.length_cons, length_asked]
        exact Nat.lt_succ_of_le (Nat.le_trans hl' hlog)
      · exact machineTunnel_of_answer hpast hanswer

/-- **Conversations.**  Whatever the machine executes, and whatever its host does: the replies
that VMTUNNEL stores are those of one tunnel, and the file system and the descriptors of the
host are those of a session with the same requests. -/
theorem tunnel_explains {l : List (VMRequest × VMReply)}
    (hrun : Run.Traces (Cycles fp) (fun _ e => e.2) m l m') (hfiles : m.fileSystem = {}) :
    ∃ inp s, sessionAfter inp m.host (asked l) = .ok s ∧ m'.fileSystem = s.fileSystem ∧
      m'.host = s.host ∧ Talks (machineTunnel inp m.host) l := by
  have hstart : Explained m.host [] m :=
    ⟨fun _ => {}, .start m.host, rfl, ⟨hfiles, rfl⟩, .nil⟩
  have hall : Explained m.host l m' := by
    refine hrun.invariant hstart fun {l m1 e m2} hl hstep => ?_
    obtain ⟨⟨t, hcycle⟩, hexchange⟩ := hstep
    obtain ⟨i, exchanged⟩ := e
    cases exchanged with
    | none =>
        rw [Option.toList_none, List.append_nil]
        exact hl.silent hexchange hcycle
    | some said => exact hl.answered hexchange hcycle
  obtain ⟨inp, s, hs, hdevices, htalks⟩ := hall
  exact ⟨inp, s, hs, hdevices.1, hdevices.2, htalks⟩

/-- A kernel whose next word is VMTUNNEL, with the request to open the file without a name,
and room for the response. -/
def openingMachine : Machine :=
  (((Machine.construct 0x80000000#32 0x80000100#32
    (fun a => if a = 3 then 0x3f#8 else if a = 0x1003 then 5#8 else if a = 0x1004 then 0x80#8
      else 0#8) {}).setReg Hardware.Register.A0 0x80001000#32).setReg
        Hardware.Register.V0 0x80001010#32).setCp0 Hardware.SYSRegister.STATUS 0b10#32

/-- The request of that kernel, and the reply. -/
theorem opening_explained : ∃ m' inp s,
    Run.Traces (Cycles ⟨fun _ a _ => a, fun _ a _ => a⟩) (fun _ e => e.2) openingMachine
      [(.fopen [] 0, {})] m' ∧ sessionAfter inp {} [.fopen [] 0] = .ok s ∧
      m'.fileSystem = s.fileSystem ∧ m'.host = s.host := by
  let i : HostInput := { fileAt := fun _ _ => some [] }
  obtain ⟨m1, m2, m', r, hfetch, hrequest, hpath, hreply, hsame, hrun, hcycle⟩ :
      ∃ m1 m2 m' r, openingMachine.fetch = .next .vmTunnel m1 ∧
        m1.request = .ok (5, 0x80000000, 0, 0) ∧ m1.readCString 0x80000000 (2 ^ 32) = .ok [] ∧
        m1.reply i 5 0x80000000 0 0 = .ok r ∧
        ({ res := r.res, err := r.err, data := r.bytes } : VMReply) = {} ∧
        m1.vmTunnel i = .next () m2 ∧
        openingMachine.cycle ⟨fun _ a _ => a, fun _ a _ => a⟩ i = .ok (m', none) :=
    ⟨_, _, _, _, rfl, rfl, rfl, rfl, rfl, rfl, rfl⟩
  have hexchange : Exchange openingMachine i (some (.fopen [] 0, {})) := by
    rw [← hsame]
    exact .answered hfetch hrequest (.fopen 0 0 hpath) hreply hrun
  have hstep : Cycles ⟨fun _ a _ => a, fun _ a _ => a⟩ openingMachine
      (i, some (.fopen [] 0, {})) m' := ⟨⟨none, hcycle⟩, hexchange⟩
  have htrace : Run.Traces (Cycles ⟨fun _ a _ => a, fun _ a _ => a⟩) (fun _ e => e.2)
      openingMachine ([] ++ (some (VMRequest.fopen [] 0, ({} : VMReply))).toList) m' :=
    Run.Traces.refl.step hstep
  obtain ⟨inp, s, hs, hfiles, hhost, -⟩ := tunnel_explains htrace rfl
  exact ⟨m', inp, s, htrace, hs, hfiles, hhost⟩

end Tunnel

end Kernel
