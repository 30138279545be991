import BobbyOS.Kernel.FileSessions
import BobbyOS.Kernel.Loading
import BobbyOS.Kernel.MachineTunnel

/-!
# The files that the kernel loads

`createProcess` reads an executable through VMTUNNEL, and the machine reads it from the host.
What the kernel relies on is that a read returns the next bytes of the file that it has
opened.  With the machine behind the kernel, and any host behind the machine, this is so.

* `HasOpen`: a file is open at a position, which reads and seeks move as the kernel expects;
* `machine_serves`: what the kernel reads are the bytes of the file on the host;
* `machine_loads_file`: so a process has the bytes that the host had under its name.
-/

namespace Kernel

open Hardware (Fault Host HostFile HostInput OpenFile FileSystem)
open Hardware.Machine (deref_ok_iff host_file_iff)

section Machine

variable {inp : List VMRequest → HostInput} {h0 : Host} {s t : Hardware.Session}
  {log opened reqs : List VMRequest} {req : VMRequest} {reply : VMReply} {file : List Byte}
  {vfd : Word} {p : Nat}

/-! ### A file that is open -/

/-- The file is open, and so far read. -/
def HasOpen (s : Hardware.Session) (vfd : Word) (file : List Byte) (p : Nat) : Prop :=
  ∃ f, s.fileSystem.deref vfd = .ok f ∧ s.host.file f.fd = some { content := file, offset := p }

/-- What a read or a seek writes back is what is found then. -/
theorem hasOpen_store {f f' : OpenFile} {host : Host} {h : HostFile}
    (hf : s.fileSystem.deref vfd = .ok f) (hfd : f'.fd = f.fd)
    (hfile : s.host.file f.fd = some h)
    (hhost : host = { fds := s.host.fds.set f.fd.toNat (some { content := file, offset := p }) }) :
    HasOpen (s.after (s.fileSystem.store vfd f') host) vfd file p := by
  refine ⟨f', deref_ok_iff.mpr ?_, ?_⟩
  · exact List.getElem?_set_self (Slots.lt_of_getElem? (deref_ok_iff.mp hf))
  · rw [hfd]
    refine host_file_iff.mpr ?_
    rw [hhost]
    exact List.getElem?_set_self (Slots.lt_of_getElem? (host_file_iff.mp hfile))

/-- `::read` returns the next bytes, as many as the host likes. -/
theorem read_bytes {f f' : OpenFile} {i : HostInput} {h h' : Host} {count : Word}
    {bytes : List Byte} (hsmall : file.length < 2 ^ 32 - 1)
    (hfile : h.file f.fd = some { content := file, offset := p })
    (hread : f.read count i h = .ok (bytes, f', h')) :
    ∃ limit, bytes = (file.drop p).take (min count.toNat limit) ∧
      h' = ⟨h.fds.set f.fd.toNat (some { content := file, offset := p + bytes.length })⟩ := by
  unfold OpenFile.read at hread
  rw [hfile] at hread
  split at hread
  case h_2 => cases hread
  case h_1 limit file' _ heq =>
    obtain rfl := Option.some.inj heq
    have hlt : ((file.drop p).take (min count.toNat limit)).length ≠ 0xFFFFFFFF := by
      rw [List.length_take, List.length_drop]
      omega
    dsimp only at hread
    rw [if_neg hlt] at hread
    obtain ⟨rfl, -, rfl⟩ := Except.ok.inj hread
    exact ⟨limit, rfl, rfl⟩

/-- **Read.**  It returns the next bytes, at most as many as asked for. -/
theorem HasOpen.fread {i : HostInput} {nbytes : Word} (h : HasOpen s vfd file p)
    (hsmall : file.length < 2 ^ 32 - 1)
    (hanswer : answer i s (.fread vfd nbytes) = .ok (reply, t)) :
    reply.bytes nbytes.toNat <+: file.drop p ∧
      HasOpen t vfd file (p + (reply.bytes nbytes.toNat).length) := by
  obtain ⟨f, hf, hfile⟩ := h
  obtain ⟨f1, hf1, hanswer⟩ := Except.bind_ok_iff.mp hanswer
  obtain rfl := Except.ok.inj (hf.symm.trans hf1)
  obtain ⟨⟨bytes, f', host⟩, hread, hanswer⟩ := Except.bind_ok_iff.mp hanswer
  obtain ⟨rfl, rfl⟩ := Prod.mk.inj (Except.ok.inj hanswer)
  obtain ⟨-, -, -, -, hfd, -⟩ := Hardware.Machine.read_ok hread
  obtain ⟨limit, hbytes, hhost⟩ := read_bytes hsmall hfile hread
  have hdata : bytes.take nbytes.toNat = bytes := by
    refine List.take_of_length_le ?_
    rw [hbytes, List.length_take]
    omega
  have hreply : VMReply.bytes { res := BitVec.ofNat 32 bytes.length, data := bytes } nbytes.toNat =
      bytes := hdata
  rw [hreply]
  refine ⟨hbytes ▸ List.take_prefix _ _, ?_⟩
  exact hasOpen_store hf hfd hfile hhost

/-- `::lseek` moves to the offset. -/
theorem seek_host {f : OpenFile} {i : HostInput} {h : Host} {offset : Word}
    (hseeks : i.seekFails = false) (hfile : h.file f.fd = some { content := file, offset := p }) :
    (f.seek offset 0 i h).2.2 =
      ⟨h.fds.set f.fd.toNat (some { content := file, offset := offset.toNat })⟩ := by
  simp only [OpenFile.seek, hfile, HostFile.seekTarget, hseeks, Bool.false_eq_true, if_false,
    if_true]
  split
  · rfl
  · rfl

/-- **Seek.**  The position is the one asked for. -/
theorem HasOpen.fseek {i : HostInput} {offset : Word} (h : HasOpen s vfd file p)
    (hseeks : i.seekFails = false) (hanswer : answer i s (.fseek vfd offset 0) = .ok (reply, t)) :
    HasOpen t vfd file offset.toNat := by
  obtain ⟨f, hf, hfile⟩ := h
  have hseek : answer i s (.fseek vfd offset 0) =
      .ok ({ res := (f.seek offset 0 i s.host).1, err := (f.seek offset 0 i s.host).2.1.err },
        s.after (s.fileSystem.store vfd (f.seek offset 0 i s.host).2.1)
          (f.seek offset 0 i s.host).2.2) := by
    rw [answer, hf]
    rfl
  obtain ⟨-, rfl⟩ := Prod.mk.inj (Except.ok.inj (hanswer.symm.trans hseek))
  exact hasOpen_store hf Hardware.Machine.seek_fd hfile (seek_host hseeks hfile)

/-! ### Files that were opened -/

/-- What is asked of the host: it has a descriptor left, its files are smaller than 4 GiB,
and it can seek in them. -/
structure Ordinary (inp : List VMRequest → HostInput) (h0 : Host) : Prop where
  room : h0.lowestFree < 2 ^ 31
  small : ∀ {log path flags file}, (inp log).fileAt path flags = some file →
    file.length < 2 ^ 32 - 1
  seeks : ∀ log, (inp log).seekFails = false

/-- After an open, reads and seeks leave the file where the kernel expects it. -/
theorem hasOpen_position (hinp : Ordinary inp h0) (hsmall : file.length < 2 ^ 32 - 1)
    (hopened : ∀ t, sessionAfter inp h0 opened = .ok t → HasOpen t vfd file 0) :
    ∀ reqs : List VMRequest, (∀ req ∈ reqs, req.OnFile vfd) →
      ∀ t, sessionAfter inp h0 (reqs ++ opened) = .ok t →
        HasOpen t vfd file (position (machineTunnel inp h0) opened reqs) := by
  intro reqs
  induction reqs with
  | nil =>
      intro hreqs t ht
      exact hopened t ht
  | cons req reqs ih =>
      intro hreqs t ht
      rw [List.cons_append] at ht
      obtain ⟨s, reply, hs, hanswer⟩ := sessionAfter_cons.mp ht
      have hopen := ih (fun req' hreq' => hreqs req' (List.mem_cons_of_mem _ hreq')) s hs
      have hreq := hreqs req List.mem_cons_self
      cases req with
      | fread fd nbytes =>
          obtain rfl : fd = vfd := hreq
          rw [position, machineTunnel_of_answer hs hanswer]
          exact (hopen.fread hsmall hanswer).2
      | fseek fd offset whence =>
          obtain ⟨rfl, rfl⟩ : fd = vfd ∧ whence = 0 := hreq
          exact hopen.fseek (hinp.seeks _) hanswer
      | _ => exact absurd hreq id

/-- A file that was opened is served. -/
theorem serves_of_hasOpen (hinp : Ordinary inp h0) (hsmall : file.length < 2 ^ 32 - 1)
    (hopened : ∀ t, sessionAfter inp h0 opened = .ok t →
      HasOpen t (machineTunnel inp h0 opened).res file 0) :
    Serves (machineTunnel inp h0) opened file := by
  intro reqs nbytes hreqs
  by_cases hdead : ∀ t, sessionAfter inp h0
      (.fread (machineTunnel inp h0 opened).res nbytes :: (reqs ++ opened)) ≠ .ok t
  · rw [machineTunnel_of_dead hdead]
    show ([] : List Byte).take nbytes.toNat <+: _
    rw [List.take_nil]
    exact List.nil_prefix
  · obtain ⟨t, ht⟩ := not_forall_not.mp hdead
    obtain ⟨s, reply, hs, hanswer⟩ := sessionAfter_cons.mp ht
    have hopen := hasOpen_position hinp hsmall hopened reqs hreqs s hs
    rw [machineTunnel_of_answer hs hanswer]
    exact (hopen.fread hsmall hanswer).1

/-- Requests to the console leave the files. -/
theorem answer_console {i : HostInput} (hreq : req.isConsole = true)
    (h : answer i s req = .ok (reply, t)) : t = s := by
  cases req with
  | stdin numBytes =>
      rw [answer] at h
      split at h
      · cases h
      · exact (Prod.mk.inj (Except.ok.inj h)).2.symm
  | fopen | fread | fseek | fclose => cases hreq
  | _ => exact (Prod.mk.inj (Except.ok.inj h)).2.symm

/-- What the file system does for a read, a seek and a close. -/
theorem step_fread {i : HostInput} {fd nbytes : Word}
    (h : answer i s (.fread fd nbytes) = .ok (reply, t)) : s.step i (.read fd nbytes) = .ok t := by
  obtain ⟨f, hf, h⟩ := Except.bind_ok_iff.mp h
  obtain ⟨⟨bytes, f', host⟩, hread, h⟩ := Except.bind_ok_iff.mp h
  obtain ⟨-, rfl⟩ := Prod.mk.inj (Except.ok.inj h)
  rw [Hardware.Session.step, hf, Except.ok_bind, hread]
  rfl

/-- An answered seek is one of the session. -/
theorem step_fseek {i : HostInput} {fd offset whence : Word}
    (h : answer i s (.fseek fd offset whence) = .ok (reply, t)) :
    s.step i (.seek fd offset whence) = .ok t := by
  obtain ⟨f, hf, h⟩ := Except.bind_ok_iff.mp h
  rw [Hardware.Session.step, hf]
  exact congrArg Except.ok (Prod.mk.inj (Except.ok.inj h)).2

/-- So is an answered close. -/
theorem step_fclose {i : HostInput} {fd : Word} (h : answer i s (.fclose fd) = .ok (reply, t)) :
    s.step i (.close fd) = .ok t := by
  obtain ⟨⟨res, fs, host⟩, hclose, h⟩ := Except.bind_ok_iff.mp h
  rw [Hardware.Session.step, hclose]
  exact congrArg Except.ok (Prod.mk.inj (Except.ok.inj h)).2

/-- An open that returns has found a file. -/
theorem openPath_finds {fs fs' : FileSystem} {i : HostInput} {path : List Byte} {flags : Word}
    {host host' : Host} (h : fs.openPath path flags i host = .ok (vfd, fs', host')) :
    ∃ content, i.fileAt path flags = some content := by
  have hconstruct {f : OpenFile} {host'' : Host}
      (h : OpenFile.construct path flags i host = .ok (f, host'')) :
      ∃ content, i.fileAt path flags = some content := by
    unfold OpenFile.construct at h
    split at h
    case h_1 => cases h
    case h_2 content hfile => exact ⟨content, hfile⟩
  unfold FileSystem.openPath at h
  split at h
  · obtain ⟨⟨f, host''⟩, hfile, -⟩ := Except.bind_ok_iff.mp h
    exact hconstruct hfile
  · split at h
    · cases h
    · cases h
    · obtain ⟨⟨f, host''⟩, hfile, -⟩ := Except.bind_ok_iff.mp h
      exact hconstruct hfile

/-- Below the lowest free descriptor all are open. -/
theorem isOpen_of_lt {h : Host} {d : Nat} (hd : d < h.lowestFree) : h.IsOpen d := by
  have hsome (hlt : d < h.fds.length) (hne : h.fds[d] ≠ none) : h.IsOpen d := by
    obtain ⟨file, hfile⟩ := Option.ne_none_iff_exists'.mp hne
    exact ⟨file, by rw [List.getElem?_eq_getElem hlt, hfile]⟩
  unfold Host.lowestFree at hd
  cases hfind : h.fds.findIdx? (· = none) with
  | none =>
      rw [hfind] at hd
      refine hsome hd fun hnone => ?_
      have hall := List.findIdx?_eq_none_iff.mp hfind h.fds[d] (List.getElem_mem hd)
      simp [hnone] at hall
  | some i =>
      rw [hfind] at hd
      obtain ⟨hlt, -, hbefore⟩ := List.findIdx?_eq_some_iff_getElem.mp hfind
      refine hsome (Nat.lt_trans hd hlt) fun hnone => ?_
      have hnot := hbefore d hd
      simp [hnone] at hnot

/-- The lowest free descriptor depends on which are open. -/
theorem lowestFree_congr {h h' : Host} (hopen : ∀ d, h.IsOpen d ↔ h'.IsOpen d) :
    h.lowestFree = h'.lowestFree := by
  rcases Nat.lt_trichotomy h.lowestFree h'.lowestFree with hlt | heq | hgt
  · exact absurd ((hopen _).mpr (isOpen_of_lt hlt)) h.lowestFree_not_open
  · exact heq
  · exact absurd ((hopen _).mp (isOpen_of_lt hgt)) h'.lowestFree_not_open

/-- The next open finds a descriptor of the host. -/
theorem Serving.hostOpens {i : HostInput} {path : List Byte} {flags : Word} {fs : FileSystem}
    {host : Host} (h : Serving h0 none s) (hinp : Ordinary inp h0)
    (hopen : s.fileSystem.openPath path flags i s.host = .ok (vfd, fs, host)) :
    s.HostOpens i (.open path flags) := by
  refine ⟨openPath_finds hopen, ?_⟩
  have hsame : ∀ d, s.host.IsOpen d ↔ h0.IsOpen d := by
    intro d
    refine (h.clean.isOpen d).trans (or_iff_left ?_)
    rintro ⟨i, f, hf, -⟩
    exact h.idle i f hf
  rw [lowestFree_congr hsame]
  exact hinp.room

/-- **Served.**  The machine serves a kernel that works on one file at a time. -/
theorem served_machine {fd? : Option Word} (hinp : Ordinary inp h0)
    (hone : OneFile (machineTunnel inp h0) log fd?) (hs : sessionAfter inp h0 log = .ok s) :
    Served (machineTunnel inp h0) h0 log s := by
  have hstep {req : VMRequest} {log : List VMRequest} {t : Hardware.Session}
      (ht : sessionAfter inp h0 (req :: log) = .ok t) := sessionAfter_cons.mp ht
  induction hone generalizing s with
  | start =>
      obtain rfl := Except.ok.inj hs
      exact .start
  | console _ hreq ih =>
      obtain ⟨s', reply, hs', hanswer⟩ := hstep hs
      obtain rfl := answer_console hreq hanswer
      exact .console (ih hs') hreq
  | fopen path flags hone ih =>
      obtain ⟨s', reply, hs', hanswer⟩ := hstep hs
      obtain ⟨⟨vfd, fs, host⟩, hopen, heq⟩ := Except.bind_ok_iff.mp hanswer
      obtain ⟨rfl, rfl⟩ := Prod.mk.inj (Except.ok.inj heq)
      have hserved := ih hs'
      have hopens := (serving hone hserved).hostOpens hinp hopen
      have hres := congrArg VMReply.res (machineTunnel_of_answer hs' hanswer)
      dsimp only at hres
      rw [← hres] at hopen ⊢
      exact .fopen hserved hopens hopen
  | fread nbytes _ ih =>
      obtain ⟨s', reply, hs', hanswer⟩ := hstep hs
      exact .fread (ih hs') (step_fread hanswer)
  | fseek offset whence _ ih =>
      obtain ⟨s', reply, hs', hanswer⟩ := hstep hs
      exact .fseek (ih hs') (step_fseek hanswer)
  | fclose _ ih =>
      obtain ⟨s', reply, hs', hanswer⟩ := hstep hs
      exact .fclose (ih hs') (step_fclose hanswer)

/-- **Open.**  The file that the host has under the name is open at its start. -/
theorem Serving.hasOpen {i : HostInput} {path : List Byte} {flags : Word} {fs : FileSystem}
    {host : Host} (h : Serving h0 none s) (hopens : s.HostOpens i (.open path flags))
    (hfile : i.fileAt path flags = some file)
    (hopen : s.fileSystem.openPath path flags i s.host = .ok (vfd, fs, host)) :
    HasOpen ((s.opened vfd).after fs host) vfd file 0 := by
  obtain ⟨⟨content, hcontent, rfl⟩, hlive⟩ := openPath_idle h.small h.idle hopens hopen
  obtain rfl := Option.some.inj (hfile.symm.trans hcontent)
  refine ⟨{ fd := BitVec.ofNat 32 s.host.lowestFree }, deref_ok_iff.mpr ?_, host_file_iff.mpr ?_⟩
  · exact (hlive _ _).mpr ⟨rfl, rfl⟩
  · have hword : (BitVec.ofNat 32 s.host.lowestFree).toNat = s.host.lowestFree := by
      have hlt := hopens.2
      rw [BitVec.toNat_ofNat]
      omega
    rw [hword]
    exact (Host.allocate_getElem? ..).mpr (.inl ⟨rfl, rfl⟩)

/-- **Serving.**  The kernel reads the file that the host has under the name, or nothing if
there is none. -/
theorem machine_serves (hinp : Ordinary inp h0) (hclosed : AllClosed (machineTunnel inp h0) log)
    (path : List Byte) (flags : Word) :
    ∃ file, Serves (machineTunnel inp h0) (.fopen path flags :: log) file ∧
      (file = [] ∨ (inp (.fopen path flags :: log)).fileAt path flags = some file) := by
  by_cases hdead : ∀ t, sessionAfter inp h0 (.fopen path flags :: log) ≠ .ok t
  · refine ⟨[], serves_of_hasOpen hinp (by decide) fun t ht => absurd ht (hdead t), .inl rfl⟩
  · obtain ⟨t, ht⟩ := not_forall_not.mp hdead
    obtain ⟨s, reply, hs, hanswer⟩ := sessionAfter_cons.mp ht
    obtain ⟨⟨vfd, fs, host⟩, hopen, heq⟩ := Except.bind_ok_iff.mp hanswer
    obtain ⟨rfl, rfl⟩ := Prod.mk.inj (Except.ok.inj heq)
    have hserving := serving hclosed (served_machine hinp hclosed hs)
    have hopens := hserving.hostOpens hinp hopen
    obtain ⟨file, hfile⟩ := hopens.1
    refine ⟨file, serves_of_hasOpen hinp (hinp.small hfile) fun u hu => ?_, .inr hfile⟩
    obtain rfl := Except.ok.inj (ht.symm.trans hu)
    rw [machineTunnel_of_answer hs hanswer]
    exact hserving.hasOpen hopens hfile hopen

/-- An executable that was read has a header. -/
theorem header_of_readExecutable {vm : Tunnel} {r r' : Reader} {info : ExecutableInfo}
    (hserves : Serves vm opened file) (hat : Reader.At vm opened r 0)
    (h : readExecutable vm r = (some info, r')) : 52 ≤ file.length := by
  rw [readExecutable] at h
  split at h
  case h_1 => cases h
  case h_2 ehdr f log hread =>
    obtain ⟨rfl, hlength, -⟩ := readFull_spec hserves hat (Nat.le_refl _) hread
    rw [slice, List.length_take, List.drop_zero] at hlength
    omega

/-! ### Processes -/

namespace SharedResources

/-- The requests of the operation go to this machine. -/
def AsksOf (vm : Tunnel) : Operation → Prop
  | .createProcess vm' _ _ | .exec vm' _ _ _ _ => vm' = vm
  | _ => True

variable {k0 k k' : SharedResources} {vm : Tunnel} {op : Operation} {imageEnd brk0 brk pid : Word}
  {physMem : Hardware.Memory} {path : List Byte}

/-- The boot starts with no file open. -/
theorem allClosed_construct (h : construct imageEnd brk0 physMem = .ok k) :
    AllClosed vm k.log := by
  obtain ⟨kernelTable, -, h⟩ := Except.bind_ok_iff.mp h
  obtain rfl := Except.ok.inj h
  exact .start

/-- Between two operations no file is open. -/
theorem allClosed_operation (hk : AllClosed vm k.log) (hasks : AsksOf vm op)
    (hstep : k.Step op k') : AllClosed vm k'.log := by
  cases op with
  | createProcess vm' path brk0 =>
      obtain rfl := hasks
      obtain ⟨⟨pid, k1⟩, hcreate, h⟩ := Except.bind_ok_iff.mp hstep
      obtain rfl := Except.ok.inj h
      exact allClosed_createProcess hcreate hk
  | forkProcess pid ctx brk0 =>
      obtain ⟨⟨pid', k1⟩, hfork, h⟩ := Except.bind_ok_iff.mp hstep
      obtain rfl := Except.ok.inj h
      rw [forkProcess_log hfork]
      exact hk
  | exec vm' slot path brk0 ctx =>
      obtain rfl := hasks
      obtain ⟨⟨done, ctx', k1⟩, hexec, h⟩ := Except.bind_ok_iff.mp hstep
      obtain rfl := Except.ok.inj h
      exact allClosed_exec hexec hk
  | updateBrk slot vaddr =>
      obtain ⟨⟨valid, k1⟩, hbrk, h⟩ := Except.bind_ok_iff.mp hstep
      obtain rfl := Except.ok.inj h
      rw [updateBrk_log hbrk]
      exact hk
  | borrow slot =>
      rw [borrow_log hstep]
      exact hk
  | markForDeath slot =>
      rw [markForDeath_log hstep]
      exact hk
  | reset slot =>
      rw [reset_log hstep]
      exact hk

/-- **The host's files.**  After any operations, a process that is made has the bytes of the
file that the host has under the name then: its text and its data, at the starts of the
segments.  The host may return as few bytes at a time as it likes. -/
theorem machine_loads_file (hboot : construct imageEnd brk0 physMem = .ok k0)
    (hrun : Run.Reaches Step (fun _ op => AsksOf (machineTunnel inp h0) op) k0 k)
    (hinp : Ordinary inp h0)
    (hcreate : k.createProcess (machineTunnel inp h0) path brk = .ok (pid, k'))
    (hpid : pid ≠ NOPCBEXISTS) :
    ∃ file p t, (inp (.fopen path 0 :: k.log)).fileAt path 0 = some file ∧
      k'.processes[pid.toNat]? = some (some p) ∧ p.addrSpace.pageTable = some (.hash t) ∧
      HoldsSlice t k'.physMem TEXT_START file (Executable.text file).offset.toNat
        (Executable.text file).size.toNat ∧
      HoldsSlice t k'.physMem STATIC_START file (Executable.data file).offset.toNat
        (Executable.data file).size.toNat := by
  have hclosed : AllClosed (machineTunnel inp h0) k.log :=
    hrun.invariant (allClosed_construct hboot) allClosed_operation
  have hinvariant := invariant_of_reaches hboot (hrun.mono fun _ _ _ => trivial)
  obtain ⟨file, hserves, hfile⟩ := machine_serves hinp hclosed path 0
  obtain ⟨info, r, p, t, text, static, stack, hloaded⟩ :=
    createProcess_loaded hcreate hinvariant hpid
  have hheader := header_of_readExecutable hserves at_construct hloaded.read
  obtain ⟨rfl, htext, hstatic, -⟩ := hloaded.spec hserves
  refine ⟨file, p, t, hfile.resolve_left ?_, hloaded.here, hloaded.table, htext, hstatic⟩
  rintro rfl
  exact absurd hheader (by decide)

/-- A host that has the same executable under every name, and returns at most 200 bytes at a
time. -/
def smallHost (_ : List VMRequest) : HostInput where
  fileAt _ _ := some smallProgram
  readLimit := some 200

/-- The first process behind that host. -/
theorem machine_loads_smallProgram : ∃ k0 k',
    firstProcess (machineTunnel smallHost {}) = some (k0, 0, k') ∧
    ∃ p t, k'.processes[0]? = some (some p) ∧ p.addrSpace.pageTable = some (.hash t) ∧
      HoldsSlice t k'.physMem TEXT_START smallProgram 232 300 ∧
      HoldsSlice t k'.physMem STATIC_START smallProgram 532 3 := by
  have hruns : (firstProcess (machineTunnel smallHost {})).any (fun r => r.2.1 == 0) = true := by
    decide +kernel
  obtain ⟨⟨k0, pid, k'⟩, hfirst, hpid⟩ := (Option.any_eq_true _ _).mp hruns
  obtain rfl := eq_of_beq hpid
  obtain ⟨hboot, hcreate⟩ := firstProcess_spec hfirst
  have hordinary : Ordinary smallHost {} := by
    refine ⟨by decide, fun {log path flags file} hfile => ?_, fun _ => rfl⟩
    obtain rfl := Option.some.inj hfile
    decide +kernel
  have htext : (Executable.text smallProgram).offset.toNat = 232 ∧
      (Executable.text smallProgram).size.toNat = 300 := by decide +kernel
  have hdata : (Executable.data smallProgram).offset.toNat = 532 ∧
      (Executable.data smallProgram).size.toNat = 3 := by decide +kernel
  obtain ⟨file, p, t, hfile, hloads⟩ :=
    machine_loads_file hboot .refl hordinary hcreate (by decide)
  obtain rfl := Option.some.inj hfile
  rw [htext.1, htext.2, hdata.1, hdata.2] at hloads
  exact ⟨k0, k', hfirst, p, t, hloads⟩

end SharedResources

end Machine

end Kernel
