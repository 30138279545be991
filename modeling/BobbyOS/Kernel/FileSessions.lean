import BobbyOS.Kernel.RequestLog
import BobbyOS.Kernel.TLBCoherence
import BobbyOS.Machine.OpenFiles

/-!
# The kernel's files

The kernel opens files in `createProcess` only, one at a time: it reads and seeks with the
descriptor that the machine answered, and closes it on every path, also when an executable
cannot be read.  The machine's `FileSystem` needs exactly this, for an open beside an open
file closes the file behind the kernel's back.

* `OneFile`: the requests of a kernel that works on one file at a time;
* `allClosed_createProcess`, `allClosed_of_reaches`: the kernel's requests are of this kind;
* `Served`: a file system that has served these requests;
* `kernel_files_sound`: it stays sound, and no descriptor of the host is left open.
-/

namespace Kernel

open Effects

variable {vm : Tunnel} {f : File} {r : Reader} {log : List VMRequest}

/-! ### One file at a time -/

/-- The requests of a kernel that works on one file at a time, with the descriptor of the
file that is open. -/
inductive OneFile (vm : Tunnel) : List VMRequest → Option Word → Prop
  | start : OneFile vm [] none
  | console {log : List VMRequest} {req : VMRequest} (h : OneFile vm log none)
      (hreq : req.isConsole = true) : OneFile vm (req :: log) none
  | fopen {log : List VMRequest} (path : List Byte) (flags : Word) (h : OneFile vm log none) :
      OneFile vm (.fopen path flags :: log) (some (vm (.fopen path flags :: log)).res)
  | fread {log : List VMRequest} {fd : Word} (nbytes : Word) (h : OneFile vm log (some fd)) :
      OneFile vm (.fread fd nbytes :: log) (some fd)
  | fseek {log : List VMRequest} {fd : Word} (offset whence : Word)
      (h : OneFile vm log (some fd)) : OneFile vm (.fseek fd offset whence :: log) (some fd)
  | fclose {log : List VMRequest} {fd : Word} (h : OneFile vm log (some fd)) :
      OneFile vm (.fclose fd :: log) none

/-- No file is open. -/
def AllClosed (vm : Tunnel) (log : List VMRequest) : Prop := OneFile vm log none

/-- The file is the one that is open. -/
def OnFile (vm : Tunnel) (r : Reader) : Prop := OneFile vm r.2 (some r.1.fd)

/-- Opening a file where all are closed leaves one open. -/
theorem onFile_construct {path : List Byte} {flags : Word} (h : AllClosed vm log) :
    OnFile vm (File.construct vm path flags log) := .fopen path flags h

/-- Closing it leaves none. -/
theorem allClosed_destroy (h : OnFile vm (f, log)) : AllClosed vm (f.destroy vm log) := .fclose h

/-- A read goes to the open file. -/
theorem onFile_read {bytes : Nat} (h : OnFile vm (f, log)) : OnFile vm (f.read vm bytes log).2 := by
  unfold File.read
  split
  · exact h
  · dsimp only [Tunnel.send]
    split
    · exact .fread _ h
    · exact .fread _ h

/-- So does a seek. -/
theorem onFile_seek {offset whence : Word} (h : OnFile vm (f, log)) :
    OnFile vm (f.seek vm offset whence log) := .fseek _ _ h

/-- So do the reads of a record. -/
theorem onFile_readFull {rounds remaining : Nat} (h : OnFile vm r) :
    OnFile vm (readFull vm rounds remaining r).2 := by
  induction rounds generalizing remaining r with
  | zero => exact h
  | succ rounds ih =>
      obtain ⟨f, log⟩ := r
      rw [readFull]
      split
      · exact h
      · have hread : OnFile vm (f.read vm remaining log).2 := onFile_read h
        split
        case h_1 heq =>
          rw [heq] at hread
          exact hread
        case h_2 heq =>
          rw [heq] at hread
          exact ih hread

/-- So do those of a name. -/
theorem onFile_readCstr {room : Nat} {scratch : List Byte} (h : OnFile vm r) :
    OnFile vm (readCstr vm room scratch r).2 := by
  induction room generalizing scratch r with
  | zero => exact h
  | succ room ih =>
      obtain ⟨f, log⟩ := r
      have hread : OnFile vm (f.read vm 1 log).2 := onFile_read h
      rw [readCstr]
      split
      case h_1 heq =>
        rw [heq] at hread
        exact hread
      case h_2 heq =>
        rw [heq] at hread
        split
        · exact hread
        · exact ih hread

/-! ### Executables -/

/-- So do those of the section headers. -/
theorem onFile_readSections {shoff shentsize shstrOffset : Word} {left i : Nat}
    {info : ExecutableInfo} (h : OnFile vm r) :
    OnFile vm (readSections vm shoff shentsize shstrOffset left i info r).2 := by
  induction left generalizing i info r with
  | zero => exact h
  | succ left ih =>
      obtain ⟨f, log⟩ := r
      rw [readSections]
      have hheader : OnFile vm (readFull vm 40 40
          (f.seek vm (shoff + BitVec.ofNat 32 i * shentsize) 0 log)).2 :=
        onFile_readFull (onFile_seek h)
      split
      case h_1 heq =>
        rw [heq] at hheader
        exact hheader
      case h_2 sh r1 heq =>
        rw [heq] at hheader
        have hname : OnFile vm (readCstrFromShstr vm shstrOffset (field32 sh 0) r1).2 :=
          onFile_readCstr (onFile_seek hheader)
        split
        case h_1 heq' =>
          rw [heq'] at hname
          exact hname
        case h_2 heq' =>
          rw [heq'] at hname
          exact ih hname

/-- So does all that reads an executable. -/
theorem onFile_readExecutable (h : OnFile vm r) : OnFile vm (readExecutable vm r).2 := by
  unfold readExecutable
  have hheader : OnFile vm (readFull vm 52 52 r).2 := onFile_readFull h
  split
  case h_1 heq =>
    rw [heq] at hheader
    exact hheader
  case h_2 ehdr f log heq =>
    rw [heq] at hheader
    have hstrings : OnFile vm (readFull vm 40 40
        (f.seek vm (field32 ehdr 32 + field16 ehdr 50 * field16 ehdr 46) 0 log)).2 :=
      onFile_readFull (onFile_seek hheader)
    dsimp only
    split
    case h_1 heq' =>
      rw [heq'] at hstrings
      exact hstrings
    case h_2 heq' =>
      rw [heq'] at hstrings
      exact onFile_readSections hstrings

/-- So do the reads of a page. -/
theorem onFile_streamCopyTo {rounds remaining : Nat} {out : Word} {mem : Hardware.Memory}
    (h : OnFile vm r) : OnFile vm (streamCopyTo vm rounds remaining out mem r).2.2 := by
  induction rounds generalizing remaining out mem r with
  | zero => exact h
  | succ rounds ih =>
      obtain ⟨f, log⟩ := r
      have hread : OnFile vm (f.read vm (min remaining 512) log).2 := onFile_read h
      rw [streamCopyTo]
      split
      · exact h
      · split
        case h_1 heq =>
          rw [heq] at hread
          exact hread
        case h_2 heq =>
          rw [heq] at hread
          exact ih hread

/-- So do those of a segment's pages. -/
theorem onFile_loadPages {space : AddressSpace} {pages bytesLeft : Nat} {dst : Word}
    {mem : Hardware.Memory} {done : Bool × Hardware.Memory × Reader} (hr : OnFile vm r)
    (h : loadPages vm space pages bytesLeft dst mem r = .ok done) : OnFile vm done.2.2 := by
  induction pages generalizing bytesLeft dst mem r with
  | zero =>
      obtain rfl := Except.ok.inj h
      exact hr
  | succ pages ih =>
      obtain ⟨tlbe, -, h⟩ := Except.bind_ok_iff.mp h
      have hcopy : OnFile vm (streamCopyTo vm (min bytesLeft 4096) (min bytesLeft 4096)
          (segmentAddr tlbe) mem r).2.2 := onFile_streamCopyTo hr
      dsimp only at h
      split at h
      case h_1 heq =>
        rw [heq] at hcopy
        obtain rfl := Except.ok.inj h
        exact hcopy
      case h_2 heq =>
        rw [heq] at hcopy
        split at h
        · obtain rfl := Except.ok.inj h
          exact hcopy
        · exact ih hcopy h

/-- So do those of a segment. -/
theorem onFile_loadSegment {space : AddressSpace} {start offset size : Word}
    {mem : Hardware.Memory} {done : Bool × Hardware.Memory × Reader} (hr : OnFile vm r)
    (h : loadSegment vm space start offset size mem r = .ok done) : OnFile vm done.2.2 := by
  unfold loadSegment at h
  split at h
  · obtain rfl := Except.ok.inj h
    exact hr
  · exact onFile_loadPages (onFile_seek hr) h

/-- So do those of an image. -/
theorem onFile_loadImage {space : AddressSpace} {info : ExecutableInfo} {mem : Hardware.Memory}
    {done : Bool × Hardware.Memory × Reader} (hr : OnFile vm r)
    (h : loadImage vm space info mem r = .ok done) : OnFile vm done.2.2 := by
  obtain ⟨⟨loaded, mem', r'⟩, htext, h⟩ := Except.bind_ok_iff.mp h
  have hloaded : OnFile vm r' := onFile_loadSegment hr htext
  cases loaded with
  | false =>
      obtain rfl := Except.ok.inj h
      exact hloaded
  | true => exact onFile_loadSegment hloaded h

/-! ### Processes -/

section Processes

open SharedResources

variable {k k' : SharedResources} {path : List Byte} {brk0 pid : Word} {slot : Nat}

/-- **Creating.**  The file is closed again, whether a process was made or not. -/
theorem allClosed_createProcess (h : k.createProcess vm path brk0 = .ok (pid, k'))
    (hk : AllClosed vm k.log) : AllClosed vm k'.log := by
  have hread : OnFile vm (readExecutable vm (File.construct vm path 0 k.log)).2 :=
    onFile_readExecutable (onFile_construct hk)
  rcases createProcess_cases h with ⟨f, log, hfile, -, rfl⟩ |
    ⟨info, r, p, k1, physMem, f, log, hfile, -, h⟩
  all_goals
    rw [hfile] at hread
  · exact allClosed_destroy hread
  · rcases h with ⟨hload, -, k2, -, rfl⟩ | ⟨hload, hinstall⟩
    · exact allClosed_destroy (onFile_loadImage hread hload)
    · rw [install_log hinstall]
      exact allClosed_destroy (onFile_loadImage hread hload)

/-- `exec` asks for what `createProcess` asks for. -/
theorem exec_log {ctx ctx' : Option RegisterContext} {done : Bool}
    (h : k.exec vm slot path brk0 ctx = .ok (done, ctx', k')) :
    ∃ pid k1, k.createProcess vm path brk0 = .ok (pid, k1) ∧ k'.log = k1.log := by
  obtain ⟨self, -, h⟩ := Except.bind_ok_iff.mp h
  obtain ⟨-, -, h⟩ := Except.bind_ok_iff.mp h
  obtain ⟨⟨newPID, k1⟩, hcreate, h⟩ := Except.bind_ok_iff.mp h
  refine ⟨newPID, k1, hcreate, ?_⟩
  dsimp only at h
  split at h
  · obtain ⟨-, -, rfl⟩ := Except.ok.inj h
    rfl
  · split at h
    · cases h
    · obtain ⟨k2, hborrow, h⟩ := Except.bind_ok_iff.mp h
      obtain ⟨newProc, -, h⟩ := Except.bind_ok_iff.mp h
      obtain ⟨memory, -, h⟩ := Except.bind_ok_iff.mp h
      obtain ⟨k3, hmark, h⟩ := Except.bind_ok_iff.mp h
      obtain ⟨k4, hreset, h⟩ := Except.bind_ok_iff.mp h
      obtain ⟨-, -, rfl⟩ := Except.ok.inj h
      rw [reset_log hreset, markForDeath_log hmark]
      show k2.log = k1.log
      exact borrow_log hborrow

/-- `exec` closes what it opens. -/
theorem allClosed_exec {ctx ctx' : Option RegisterContext} {done : Bool}
    (h : k.exec vm slot path brk0 ctx = .ok (done, ctx', k')) (hk : AllClosed vm k.log) :
    AllClosed vm k'.log := by
  obtain ⟨pid, k1, hcreate, hlog⟩ := exec_log h
  rw [hlog]
  exact allClosed_createProcess hcreate hk

end Processes

/-! ### Runs of the kernel -/

/-- The requests of the event go to this machine. -/
def KernelEvent.AsksOf (vm : Tunnel) : KernelEvent → Prop
  | .trap vm' _ _ _ => vm' = vm
  | .kernelMiss _ => True

/-- Requests to the console open nothing. -/
theorem keptByConsole_allClosed : KeptByConsole (AllClosed vm) := fun hreq h => .console h hreq

/-- The boot closes what it opens. -/
theorem allClosed_boot {imageEnd brk0 brk1 : Word} {physMem : Hardware.Memory} {s : KernelState}
    (h : KernelState.boot vm imageEnd brk0 brk1 physMem = some s) :
    AllClosed vm s.shared.log := by
  obtain ⟨s0, hconstruct, h⟩ := Option.bind_eq_some_iff.mp h
  obtain ⟨u, hboot⟩ := after_eq_some.mp h
  obtain ⟨k, hk, hs0⟩ := Except.bind_ok_iff.mp (SharedResources.toOption_eq_some hconstruct)
  obtain ⟨kernelTable, -, hk⟩ := Except.bind_ok_iff.mp hk
  obtain rfl := Except.ok.inj hs0
  obtain rfl := Except.ok.inj hk
  have hlogged : Keeps (Logged (AllClosed vm)) (cppmain vm brk1) :=
    logged_cppmain keptByConsole_allClosed allClosed_createProcess
  exact hlogged.returns hboot OneFile.start

/-- One event.  `EXEC` closes its file again. -/
theorem allClosed_step {s s' : KernelState} {event : KernelEvent} (hs : AllClosed vm s.shared.log)
    (hscheduled : Scheduled 0 s) (hevent : event.AsksOf vm) (h : s.Step event s') :
    AllClosed vm s'.shared.log := by
  cases event with
  | trap vm' brk0 badVAddr ctx =>
      obtain rfl := hevent
      obtain ⟨regCtx, h⟩ := after_eq_some.mp h
      obtain ⟨c, pids, -, hsettled⟩ := hscheduled
      exact logged_takeTrap (L := AllClosed vm') keptByConsole_allClosed hsettled.thread
        allClosed_exec hs h
  | kernelMiss vaddr =>
      obtain ⟨u, h⟩ := after_eq_some.mp h
      have hI : Kept Everyone (Logged (AllClosed vm)) := kept_logged keptByConsole_allClosed
      exact (hI.refill vaddr).returns h hs

/-- **Requests.**  Between two traps no file is open, and every file was used alone. -/
theorem allClosed_of_reaches {imageEnd brk0 brk1 : Word} {physMem : Hardware.Memory}
    {s1 s : KernelState} (hboot : KernelState.boot vm imageEnd brk0 brk1 physMem = some s1)
    (hrun : Run.Reaches KernelState.Step (fun _ event => event.AsksOf vm) s1 s) :
    AllClosed vm s.shared.log := by
  have hboth : AllClosed vm s.shared.log ∧ Scheduled 0 s :=
    hrun.invariant (I := fun s => AllClosed vm s.shared.log ∧ Scheduled 0 s)
      ⟨allClosed_boot hboot, scheduled_boot hboot⟩ fun hs hevent hstep =>
        ⟨allClosed_step hs.1 hs.2 hevent hstep, scheduled_step hs.2 hstep⟩
  exact hboth.1

/-! ### The machine's files -/

section Machine

open Hardware (Host HostInput OpenFile FileSystem)
open Hardware.Machine (deref_ok_iff host_file_iff)

variable {h0 host : Host} {inp : HostInput} {s t : Hardware.Session} {fs : FileSystem} {d : Nat}

/-- A file system that has served these requests: it answered each open with the descriptor
that the kernel saw, and it served every request without failing. -/
inductive Served (vm : Tunnel) (h0 : Host) : List VMRequest → Hardware.Session → Prop
  | start : Served vm h0 [] (.start h0)
  | console {log : List VMRequest} {req : VMRequest} {s : Hardware.Session} (h : Served vm h0 log s)
      (hreq : req.isConsole = true) : Served vm h0 (req :: log) s
  | fopen {log : List VMRequest} {s : Hardware.Session} {path : List Byte} {flags : Word}
      {inp : HostInput} {fs : FileSystem} {host : Host} (h : Served vm h0 log s)
      (hopens : s.HostOpens inp (.open path flags))
      (hopen : s.fileSystem.openPath path flags inp s.host =
        .ok ((vm (.fopen path flags :: log)).res, fs, host)) :
      Served vm h0 (.fopen path flags :: log)
        ((s.opened (vm (.fopen path flags :: log)).res).after fs host)
  | fread {log : List VMRequest} {s t : Hardware.Session} {fd nbytes : Word} {inp : HostInput}
      (h : Served vm h0 log s) (hstep : s.step inp (.read fd nbytes) = .ok t) :
      Served vm h0 (.fread fd nbytes :: log) t
  | fseek {log : List VMRequest} {s t : Hardware.Session} {fd offset whence : Word}
      {inp : HostInput} (h : Served vm h0 log s)
      (hstep : s.step inp (.seek fd offset whence) = .ok t) :
      Served vm h0 (.fseek fd offset whence :: log) t
  | fclose {log : List VMRequest} {s t : Hardware.Session} {fd : Word} {inp : HostInput}
      (h : Served vm h0 log s) (hstep : s.step inp (.close fd) = .ok t) :
      Served vm h0 (.fclose fd :: log) t

/-- A file of the machine has this host descriptor. -/
def Uses (s : Hardware.Session) (d : Nat) : Prop := ∃ i f, s.Live i f ∧ f.fd.toNat = d

/-- The host has open what it had open before, and the files of the machine. -/
structure Clean (h0 : Host) (s : Hardware.Session) : Prop where
  isOpen : ∀ d, s.host.IsOpen d ↔ h0.IsOpen d ∨ Uses s d
  apart : ∀ d, Uses s d → ¬ h0.IsOpen d

/-- What was clean stays so where the same descriptors are used and open. -/
theorem Clean.same (h : Clean h0 s) (huses : ∀ d, Uses t d ↔ Uses s d)
    (hopen : ∀ d, t.host.IsOpen d ↔ s.host.IsOpen d) : Clean h0 t :=
  ⟨fun d => by rw [hopen, huses]; exact h.isOpen d, fun d hd => h.apart d ((huses d).mp hd)⟩

/-- An open in a table without files: there is one file then, behind the descriptor that is
answered. -/
theorem openPath_idle {path : List Byte} {flags vfd : Word} (hs : s.Small) (hidle : s.Idle)
    (hopens : s.HostOpens inp (.open path flags))
    (h : s.fileSystem.openPath path flags inp s.host = .ok (vfd, fs, host)) :
    (∃ content, inp.fileAt path flags = some content ∧ host = (s.host.allocate content).2) ∧
      ∀ i f, fs.files[i]? = some (some f) ↔
        i = vfd.toNat ∧ f = { fd := BitVec.ofNat 32 s.host.lowestFree } := by
  obtain ⟨⟨content, hcontent⟩, -⟩ := hopens
  cases hlast : s.fileSystem.freeVFDs.getLast? with
  | some last =>
      have hempty : s.fileSystem.files[last.toNat]? = some none :=
        (hs.sound.free.mem_iff _).mp
          (List.mem_map_of_mem (List.mem_of_getLast? hlast))
      simp only [FileSystem.openPath, hlast, hempty, Hardware.Session.construct_ok hcontent] at h
      obtain ⟨rfl, rfl, rfl⟩ := Except.ok.inj h
      refine ⟨⟨content, hcontent, rfl⟩, fun i f => ?_⟩
      dsimp only
      constructor
      · intro hf
        rcases Slots.of_getElem?_set hf with ⟨rfl, heq⟩ | ⟨-, hold⟩
        · exact ⟨rfl, Option.some.inj heq⟩
        · exact absurd hold (hidle i f)
      · rintro ⟨rfl, rfl⟩
        exact List.getElem?_set_self (Slots.lt_of_getElem? hempty)
  | none =>
      have hnone := List.getLast?_eq_none_iff.mp hlast
      have hfiles : s.fileSystem.files = [] := by
        refine List.eq_nil_of_length_eq_zero ?_
        by_contra hne
        obtain ⟨f, hf⟩ := hs.sound.live_of_noneFree hnone (Nat.pos_of_ne_zero hne)
        exact hidle 0 f hf
      rw [Hardware.Session.openPath_append hnone hcontent] at h
      have hsame : host = (s.host.allocate content).2 ∧ vfd = 0 ∧
          fs.files = [some { fd := BitVec.ofNat 32 s.host.lowestFree }] := by
        rw [hfiles] at h
        dsimp only at h
        split at h
        · cases h
          exact ⟨rfl, rfl, rfl⟩
        · cases h
          exact ⟨rfl, rfl, rfl⟩
      obtain ⟨rfl, rfl, hnew⟩ := hsame
      refine ⟨⟨content, hcontent, rfl⟩, fun i f => ?_⟩
      rw [hnew, List.getElem?_singleton]
      constructor
      · intro hf
        split at hf
        · rename_i hi
          exact ⟨hi, (Option.some.inj (Option.some.inj hf)).symm⟩
        · cases hf
      · rintro ⟨rfl, rfl⟩
        rfl

/-- What a file system has done for a kernel with this file open. -/
structure Serving (h0 : Host) (fd? : Option Word) (s : Hardware.Session) : Prop where
  small : s.Small
  clean : Clean h0 s
  alone : Run.Reaches Hardware.Session.Steps (fun s r => s.HostOpens r.1 r.2 ∧ s.OpensAlone r.2)
    (.start h0) s
  only : ∀ i f, s.Live i f → ∃ fd, fd? = some fd ∧ i = fd.toNat

/-- Between two files nothing is open. -/
theorem Serving.idle (h : Serving h0 none s) : s.Idle := by
  intro i f hf
  obtain ⟨fd, hfd, -⟩ := h.only i f hf
  cases hfd

/-- A new session serves no file. -/
theorem serving_start : Serving h0 none (.start h0) := by
  have hnone : ∀ d, ¬ Uses (.start h0) d := by
    rintro d ⟨i, f, hf, -⟩
    cases hf
  refine ⟨Hardware.Session.small_start, ⟨fun d => ?_, fun d hd => absurd hd (hnone d)⟩, .refl, ?_⟩
  · exact (or_iff_left (hnone d)).symm
  · intro i f hf
    cases hf

/-- **Open.** -/
theorem Serving.open {path : List Byte} {flags vfd : Word} (hs : Serving h0 none s)
    (hopens : s.HostOpens inp (.open path flags))
    (h : s.fileSystem.openPath path flags inp s.host = .ok (vfd, fs, host)) :
    Serving h0 (some vfd) ((s.opened vfd).after fs host) := by
  have hstep : s.step inp (.open path flags) = .ok ((s.opened vfd).after fs host) := by
    rw [Hardware.Session.step, h]
    rfl
  obtain ⟨⟨content, -, rfl⟩, hlive⟩ := openPath_idle hs.small hs.idle hopens h
  obtain ⟨t, ht, hsmall, -⟩ := hs.small.open hopens
  obtain rfl := Except.ok.inj (hstep.symm.trans ht)
  have hword : (BitVec.ofNat 32 s.host.lowestFree).toNat = s.host.lowestFree := by
    have hlt := hopens.2
    rw [BitVec.toNat_ofNat, Nat.mod_eq_of_lt (by omega)]
  have huses : ∀ d, Uses ((s.opened vfd).after fs (s.host.allocate content).2) d ↔
      d = s.host.lowestFree := by
    intro d
    constructor
    · rintro ⟨i, f, hf, rfl⟩
      obtain ⟨-, rfl⟩ := (hlive i f).mp hf
      exact hword
    · rintro rfl
      exact ⟨vfd.toNat, _, (hlive _ _).mpr ⟨rfl, rfl⟩, hword⟩
  have hold : ∀ d, s.host.IsOpen d ↔ h0.IsOpen d := fun d =>
    (hs.clean.isOpen d).trans (or_iff_left (by rintro ⟨i, f, hf, -⟩; exact hs.idle i f hf))
  refine ⟨hsmall hs.idle, ⟨fun d => ?_, fun d hd => ?_⟩,
    hs.alone.step (i := (inp, .open path flags)) ⟨hopens, hs.idle⟩ hstep, fun i f hf => ?_⟩
  · rw [huses]
    exact (Host.allocate_isOpen_iff ..).trans (by rw [hold]; exact or_comm)
  · rw [(huses d).mp hd, ← hold]
    exact s.host.lowestFree_not_open
  · exact ⟨vfd, rfl, ((hlive i f).mp hf).1⟩

/-- What is written back uses the descriptor that was there. -/
theorem uses_store {vfd : Word} {f f' : OpenFile} (hf : s.fileSystem.deref vfd = .ok f)
    (hfd : f'.fd = f.fd) : Uses (s.after (s.fileSystem.store vfd f') host) d ↔ Uses s d := by
  have hslot : s.Live vfd.toNat f := deref_ok_iff.mp hf
  constructor
  · rintro ⟨i, g, hg, rfl⟩
    rcases Hardware.Session.live_set rfl hg with ⟨rfl, hx⟩ | ⟨-, hold⟩
    · obtain rfl := Option.some.inj hx
      exact ⟨_, f, hslot, by rw [hfd]⟩
    · exact ⟨i, g, hold, rfl⟩
  · rintro ⟨i, g, hg, rfl⟩
    by_cases hi : i = vfd.toNat
    · subst hi
      obtain rfl := Option.some.inj (Option.some.inj (hg.symm.trans hslot))
      exact ⟨_, f', List.getElem?_set_self (Slots.lt_of_getElem? hslot), by rw [hfd]⟩
    · exact ⟨i, g, (List.getElem?_set_ne (Ne.symm hi)).trans hg, rfl⟩

/-- A file that is written back is in its slot. -/
theorem Serving.stored {vfd : Word} {f f' : OpenFile} {fd? : Option Word}
    {r : HostInput × Hardware.FileRequest} (hs : Serving h0 fd? s)
    (hf : s.fileSystem.deref vfd = .ok f) (hfd : f'.fd = f.fd)
    (hopen : ∀ d, host.IsOpen d ↔ s.host.IsOpen d)
    (hsmall : (s.after (s.fileSystem.store vfd f') host).Small)
    (hopens : s.HostOpens r.1 r.2) (halone : s.OpensAlone r.2)
    (hstep : s.step r.1 r.2 = .ok (s.after (s.fileSystem.store vfd f') host)) :
    Serving h0 fd? (s.after (s.fileSystem.store vfd f') host) := by
  refine ⟨hsmall, hs.clean.same (fun d => uses_store hf hfd) hopen,
    hs.alone.step ⟨hopens, halone⟩ hstep, fun i g hg => ?_⟩
  rcases Hardware.Session.live_set rfl hg with ⟨rfl, -⟩ | ⟨-, hold⟩
  · exact hs.only _ f (deref_ok_iff.mp hf)
  · exact hs.only i g hold

/-- A read keeps the file that is served. -/
theorem Serving.read {vfd count : Word} {fd? : Option Word} (hs : Serving h0 fd? s)
    (h : s.step inp (.read vfd count) = .ok t) : Serving h0 fd? t := by
  have hsmall := hs.small.read.2 t h
  have hstep := h
  obtain ⟨f, hf, h⟩ := Except.bind_ok_iff.mp h
  obtain ⟨⟨bytes, f', host⟩, hread, h⟩ := Except.bind_ok_iff.mp h
  obtain rfl := Except.ok.inj h
  obtain ⟨limit, file, -, hfile, hfd, rfl⟩ := Hardware.Machine.read_ok hread
  exact hs.stored (r := (inp, .read vfd count)) hf hfd
    (fun d => Hardware.set_some_isOpen_iff (host_file_iff.mp hfile)) hsmall trivial trivial hstep

/-- So does a seek. -/
theorem Serving.seek {vfd offset whence : Word} {fd? : Option Word} (hs : Serving h0 fd? s)
    (h : s.step inp (.seek vfd offset whence) = .ok t) : Serving h0 fd? t := by
  have hsmall := hs.small.seek.2 t h
  have hstep := h
  obtain ⟨f, hf, h⟩ := Except.bind_ok_iff.mp h
  obtain rfl := Except.ok.inj h
  exact hs.stored (r := (inp, .seek vfd offset whence)) hf Hardware.Machine.seek_fd
    (fun d => Hardware.seek_isOpen_iff) hsmall trivial trivial hstep

/-- **Close.**  The file that was open is closed in the host. -/
theorem Serving.close {vfd : Word} (hs : Serving h0 (some vfd) s)
    (h : s.step inp (.close vfd) = .ok t) : Serving h0 none t := by
  have hsmall := hs.small.close.2 t h
  have halone : Run.Reaches Hardware.Session.Steps
      (fun s r => s.HostOpens r.1 r.2 ∧ s.OpensAlone r.2) (.start h0) t :=
    hs.alone.step (i := (inp, .close vfd)) ⟨trivial, trivial⟩ h
  obtain ⟨⟨res, fs, host⟩, hclose, h⟩ := Except.bind_ok_iff.mp h
  obtain rfl := Except.ok.inj h
  have hnotLive : (∀ f, s.fileSystem.files[vfd.toNat]? ≠ some (some f)) → s.Idle := by
    intro hnot i f hf
    obtain ⟨fd, hfd, rfl⟩ := hs.only i f hf
    obtain rfl := Option.some.inj hfd
    exact hnot f hf
  have hidle (hnot : s.Idle) (hfs : fs = s.fileSystem) (hhost : host = s.host) :
      Serving h0 none (s.after fs host) := by
    subst hfs
    subst hhost
    exact ⟨hsmall, hs.clean.same (fun d => Iff.rfl) fun d => Iff.rfl, halone,
      fun i f hf => absurd hf (hnot i f)⟩
  unfold FileSystem.close at hclose
  split at hclose
  case h_1 hslot =>
    cases hclose
    refine hidle (hnotLive fun f hf => ?_) rfl rfl
    rw [hslot] at hf
    cases hf
  case h_2 hslot =>
    cases hclose
    refine hidle (hnotLive fun f hf => ?_) rfl rfl
    rw [hslot] at hf
    cases hf
  case h_3 f hslot =>
    obtain ⟨h1, hdestroy, hrest⟩ := Except.bind_ok_iff.mp hclose
    obtain ⟨-, rfl⟩ := Hardware.destroy_ok_iff.mp hdestroy
    cases hrest
    have hempty : ∀ i g, ¬ (s.after { s.fileSystem with
        files := s.fileSystem.files.set vfd.toNat none
        freeVFDs := s.fileSystem.freeVFDs ++ [vfd] }
        { fds := s.host.fds.set f.fd.toNat none }).Live i g := by
      intro i g hg
      rcases Hardware.Session.live_set rfl hg with ⟨-, hx⟩ | ⟨hne, hold⟩
      · cases hx
      · obtain ⟨fd, hfd, rfl⟩ := hs.only i g hold
        obtain rfl := Option.some.inj hfd
        exact hne rfl
    have hused : Uses s f.fd.toNat := ⟨_, f, hslot, rfl⟩
    refine ⟨hsmall, ⟨fun d => ?_, fun d hd => ?_⟩, halone, fun i g hg => absurd hg (hempty i g)⟩
    · refine Hardware.set_none_isOpen_iff.trans ?_
      rw [hs.clean.isOpen]
      constructor
      · rintro ⟨hne, hopen | ⟨i, g, hg, rfl⟩⟩
        · exact .inl hopen
        · obtain ⟨fd, hfd, rfl⟩ := hs.only i g hg
          obtain rfl := Option.some.inj hfd
          obtain rfl := Option.some.inj (Option.some.inj (hg.symm.trans hslot))
          exact absurd rfl hne
      · rintro (hopen | ⟨i, g, hg, -⟩)
        · refine ⟨?_, .inl hopen⟩
          rintro rfl
          exact hs.clean.apart _ hused hopen
        · exact absurd hg (hempty i g)
    · obtain ⟨i, g, hg, -⟩ := hd
      exact absurd hg (hempty i g)

/-- A file system that serves a kernel with one file at a time. -/
theorem serving {log : List VMRequest} {fd? : Option Word} (hone : OneFile vm log fd?)
    (hserved : Served vm h0 log s) : Serving h0 fd? s := by
  induction hone generalizing s with
  | start =>
      cases hserved with
      | start => exact serving_start
  | console _ hreq ih =>
      cases hserved with
      | console h _ => exact ih h
      | _ => cases hreq
  | fopen path flags _ ih =>
      cases hserved with
      | console _ hreq => cases hreq
      | fopen h hopens hopen => exact (ih h).open hopens hopen
  | fread nbytes _ ih =>
      cases hserved with
      | console _ hreq => cases hreq
      | fread h hstep => exact (ih h).read hstep
  | fseek offset whence _ ih =>
      cases hserved with
      | console _ hreq => cases hreq
      | fseek h hstep => exact (ih h).seek hstep
  | fclose _ ih =>
      cases hserved with
      | console _ hreq => cases hreq
      | fclose h hstep => exact (ih h).close hstep

/-- **Files.**  After a boot and any traps, each open of the kernel found no file open and each
other request named the file that was open, so the file system that has served it is sound;
no file is open, and the host has the descriptors open that it had before. -/
theorem kernel_files_sound {imageEnd brk0 brk1 : Word} {physMem : Hardware.Memory}
    {s1 s : KernelState} (hboot : KernelState.boot vm imageEnd brk0 brk1 physMem = some s1)
    (hrun : Run.Reaches KernelState.Step (fun _ event => event.AsksOf vm) s1 s)
    (hserved : Served vm h0 s.shared.log t) :
    AllClosed vm s.shared.log ∧ t.Sound ∧ t.Idle ∧ (∀ d, t.host.IsOpen d ↔ h0.IsOpen d) ∧
      Run.Reaches Hardware.Session.Steps (fun s r => s.HostOpens r.1 r.2 ∧ s.OpensAlone r.2)
        (.start h0) t := by
  have hclosed := allClosed_of_reaches hboot hrun
  have hserving := serving hclosed hserved
  refine ⟨hclosed, hserving.small.sound, hserving.idle, fun d => ?_, hserving.alone⟩
  rw [hserving.clean.isOpen, or_iff_left]
  rintro ⟨i, f, hf, -⟩
  exact hserving.idle i f hf

/-- The file system behind these requests, when the host opens every path and answers each
request in the same way. -/
def serve (vm : Tunnel) (inp : HostInput) (h0 : Host) : List VMRequest → Option Hardware.Session
  | [] => some (.start h0)
  | req :: log => (serve vm inp h0 log).bind fun s =>
      match req with
      | .fopen path flags =>
          match s.fileSystem.openPath path flags inp s.host with
          | .ok (vfd, fs, host) =>
              if vfd = (vm (.fopen path flags :: log)).res ∧ (inp.fileAt path flags).isSome ∧
                  s.host.lowestFree < 2 ^ 31
              then some ((s.opened vfd).after fs host) else none
          | .error _ => none
      | .fread fd nbytes => (s.step inp (.read fd nbytes)).toOption
      | .fseek fd offset whence => (s.step inp (.seek fd offset whence)).toOption
      | .fclose fd => (s.step inp (.close fd)).toOption
      | .halt | .printString _ | .printInteger _ | .readInteger | .stdin _ => some s

/-- A result that is there is a result. -/
theorem ok_of_toOption {x : Except Hardware.Fault Hardware.Session}
    (h : x.toOption = some t) : x = .ok t := by
  cases x with
  | ok a => exact congrArg Except.ok (Option.some.inj h)
  | error e => cases h

/-- What an executable session serves is served. -/
theorem served_of_serve {log : List VMRequest} (h : serve vm inp h0 log = some t) :
    Served vm h0 log t := by
  induction log generalizing t with
  | nil =>
      obtain rfl := Option.some.inj h
      exact .start
  | cons req log ih =>
      obtain ⟨s, hs, h⟩ := Option.bind_eq_some_iff.mp h
      cases req with
      | fopen path flags =>
          dsimp only at h
          split at h
          case h_1 vfd fs host hopen =>
            split at h
            case isTrue hreply =>
              obtain ⟨rfl, hfile, hfd⟩ := hreply
              obtain rfl := Option.some.inj h
              exact .fopen (ih hs) ⟨Option.isSome_iff_exists.mp hfile, hfd⟩ hopen
            case isFalse => cases h
          case h_2 => cases h
      | fread fd nbytes => exact .fread (ih hs) (ok_of_toOption h)
      | fseek fd offset whence => exact .fseek (ih hs) (ok_of_toOption h)
      | fclose fd => exact .fclose (ih hs) (ok_of_toOption h)
      | halt | printString | printInteger | readInteger | stdin =>
          obtain rfl := Option.some.inj h
          exact .console (ih hs) rfl

/-- A host whose files are empty. -/
def emptyFiles : HostInput := { fileAt := fun _ _ => some [], readLimit := some 0 }

/-- The files behind a boot and an `EXEC`. -/
theorem exec_files_sound :
    ∃ s1 s t, KernelState.boot SharedResources.zeroFiles 0x80001000 0 0 (fun _ => 0) = some s1 ∧
      s1.Step (textSyscall EXEC) s ∧ Served SharedResources.zeroFiles {} s.shared.log t ∧
      t.Sound ∧ t.Idle := by
  have hruns : (KernelState.boot SharedResources.zeroFiles 0x80001000 0 0 (fun _ => 0)).any
      (fun s1 => (s1.step (textSyscall EXEC)).any fun s =>
        (serve SharedResources.zeroFiles emptyFiles {} s.shared.log).isSome) := by
    decide +kernel
  obtain ⟨s1, hboot, hruns⟩ := (Option.any_eq_true _ _).mp hruns
  obtain ⟨s, hstep, hserve⟩ := (Option.any_eq_true _ _).mp hruns
  obtain ⟨t, ht⟩ := Option.isSome_iff_exists.mp hserve
  have hserved := served_of_serve ht
  have hasks : (textSyscall EXEC).AsksOf SharedResources.zeroFiles := rfl
  obtain ⟨-, hsound, hidle, -⟩ :=
    kernel_files_sound hboot (Run.Reaches.refl.step hasks hstep) hserved
  exact ⟨s1, s, t, hboot, hstep, hserved, hsound, hidle⟩

end Machine

end Kernel
