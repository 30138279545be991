import BobbyOS.Kernel.Process
import BobbyOS.Lib.Result

/-!
# What the kernel asks of the machine

The requests are listed from the last one back, so a computation that only adds to
them leaves the old list as a suffix.  Reading an executable and making, changing and
freeing processes only add.

* `createProcess_asks_first`, `exec_asks_first`: the first request of these two opens
  the path they were given.
-/

namespace Kernel

variable {vm : Tunnel} {f : File} {r : Reader} {log : List VMRequest}

/-! ### Files -/

/-- A read adds requests to the log. -/
theorem File.read_log {bytes : Nat} : log <:+ (f.read vm bytes log).2.2 := by
  unfold File.read
  split
  · exact List.suffix_rfl
  · dsimp only [Tunnel.send]
    split <;> exact List.suffix_cons _ _

/-- So does a seek. -/
theorem File.seek_log (vm : Tunnel) (f : File) (log : List VMRequest) {offset whence : Word} :
    log <:+ (f.seek vm offset whence log).2 :=
  List.suffix_cons _ _

/-- So does the destructor. -/
theorem File.destroy_log (vm : Tunnel) (f : File) (log : List VMRequest) :
    log <:+ f.destroy vm log := List.suffix_cons _ _

/-- So do the reads of a record. -/
theorem readFull_log (vm : Tunnel) (rounds remaining : Nat) (r : Reader) :
    r.2 <:+ (readFull vm rounds remaining r).2.2 := by
  induction rounds generalizing remaining r with
  | zero => exact List.suffix_rfl
  | succ rounds ih =>
      obtain ⟨f, log⟩ := r
      rw [readFull]
      split
      · exact List.suffix_rfl
      · have hread : log <:+ (f.read vm remaining log).2.2 := File.read_log
        split
        case h_1 heq =>
          rw [heq] at hread
          exact hread
        case h_2 heq =>
          rw [heq] at hread
          exact hread.trans (ih _ _)

/-- So do those of a name. -/
theorem readCstr_log {room : Nat} {scratch : List Byte} :
    r.2 <:+ (readCstr vm room scratch r).2.2 := by
  induction room generalizing scratch r with
  | zero => exact List.suffix_rfl
  | succ room ih =>
      obtain ⟨f, log⟩ := r
      have hread : log <:+ (f.read vm 1 log).2.2 := File.read_log
      rw [readCstr]
      split
      case h_1 heq =>
        rw [heq] at hread
        exact hread
      case h_2 heq =>
        rw [heq] at hread
        split
        · exact hread
        · exact hread.trans ih

/-- So do those of a section's name. -/
theorem readCstrFromShstr_log (vm : Tunnel) (shstrOff nameOff : Word) (r : Reader) :
    r.2 <:+ (readCstrFromShstr vm shstrOff nameOff r).2.2 :=
  (File.seek_log vm r.1 r.2).trans readCstr_log

/-! ### Executables -/

/-- So do those of the section headers. -/
theorem readSections_log {shoff shentsize shstrOffset : Word} {left i : Nat}
    {info : ExecutableInfo} :
    r.2 <:+ (readSections vm shoff shentsize shstrOffset left i info r).2.2 := by
  induction left generalizing i info r with
  | zero => exact List.suffix_rfl
  | succ left ih =>
      obtain ⟨f, log⟩ := r
      rw [readSections]
      have hheader := (File.seek_log vm f log).trans
        (readFull_log vm 40 40 (f.seek vm (shoff + BitVec.ofNat 32 i * shentsize) 0 log))
      split
      case h_1 heq =>
        rw [heq] at hheader
        exact hheader
      case h_2 sh r1 heq =>
        rw [heq] at hheader
        have hname := hheader.trans (readCstrFromShstr_log vm shstrOffset (field32 sh 0) r1)
        split
        case h_1 heq' =>
          rw [heq'] at hname
          exact hname
        case h_2 heq' =>
          rw [heq'] at hname
          exact hname.trans ih

/-- So does reading an executable. -/
theorem readExecutable_log : r.2 <:+ (readExecutable vm r).2.2 := by
  unfold readExecutable
  have hheader : r.2 <:+ (readFull vm 52 52 r).2.2 := readFull_log vm 52 52 r
  split
  case h_1 heq =>
    rw [heq] at hheader
    exact hheader
  case h_2 ehdr f log heq =>
    rw [heq] at hheader
    have hstrings := hheader.trans ((File.seek_log vm f log).trans
      (readFull_log vm 40 40
        (f.seek vm (field32 ehdr 32 + field16 ehdr 50 * field16 ehdr 46) 0 log)))
    dsimp only
    split
    case h_1 heq' =>
      rw [heq'] at hstrings
      exact hstrings
    case h_2 heq' =>
      rw [heq'] at hstrings
      exact hstrings.trans readSections_log

/-- So do the reads of a page. -/
theorem streamCopyTo_log (vm : Tunnel) (rounds remaining : Nat) (out : Word)
    (mem : Hardware.Memory) (r : Reader) :
    r.2 <:+ (streamCopyTo vm rounds remaining out mem r).2.2.2 := by
  induction rounds generalizing remaining out mem r with
  | zero => exact List.suffix_rfl
  | succ rounds ih =>
      obtain ⟨f, log⟩ := r
      have hread : log <:+ (f.read vm (min remaining 512) log).2.2 := File.read_log
      rw [streamCopyTo]
      split
      · exact List.suffix_rfl
      · split
        case h_1 heq =>
          rw [heq] at hread
          exact hread
        case h_2 heq =>
          rw [heq] at hread
          exact hread.trans (ih _ _ _ _)

/-- So do those of a segment's pages. -/
theorem loadPages_log {space : AddressSpace} {pages bytesLeft : Nat} {dst : Word}
    {mem : Hardware.Memory} {done : Bool × Hardware.Memory × Reader}
    (h : loadPages vm space pages bytesLeft dst mem r = .ok done) : r.2 <:+ done.2.2.2 := by
  induction pages generalizing bytesLeft dst mem r with
  | zero =>
      obtain rfl := Except.ok.inj h
      exact List.suffix_rfl
  | succ pages ih =>
      obtain ⟨tlbe, -, h⟩ := Except.bind_ok_iff.mp h
      have hcopy :=
        streamCopyTo_log vm (min bytesLeft 4096) (min bytesLeft 4096) (segmentAddr tlbe) mem r
      dsimp only at h
      split at h
      case h_1 heq =>
        rw [heq] at hcopy
        obtain rfl := Except.ok.inj h
        exact hcopy
      case h_2 heq =>
        rw [heq] at hcopy
        split at h
        · obtain rfl := Except.ok.inj h
          exact hcopy
        · exact hcopy.trans (ih h)

/-- So do those of a segment. -/
theorem loadSegment_log {space : AddressSpace} {start offset size : Word} {mem : Hardware.Memory}
    {done : Bool × Hardware.Memory × Reader}
    (h : loadSegment vm space start offset size mem r = .ok done) : r.2 <:+ done.2.2.2 := by
  unfold loadSegment at h
  split at h
  · obtain rfl := Except.ok.inj h
    exact List.suffix_rfl
  · exact (File.seek_log vm r.1 r.2).trans (loadPages_log h)

/-- So do those of an image. -/
theorem loadImage_log {space : AddressSpace} {info : ExecutableInfo} {mem : Hardware.Memory}
    {done : Bool × Hardware.Memory × Reader}
    (h : loadImage vm space info mem r = .ok done) : r.2 <:+ done.2.2.2 := by
  obtain ⟨⟨loaded, mem', r'⟩, htext, h⟩ := Except.bind_ok_iff.mp h
  have htext := loadSegment_log htext
  cases loaded with
  | false =>
      obtain rfl := Except.ok.inj h
      exact htext
  | true => exact htext.trans (loadSegment_log h)

/-! ### Processes -/

namespace SharedResources

variable {k k' : SharedResources} {p : PCB} {path : List Byte} {brk0 : Word} {slot : Nat}

/-- Destroying a process sends nothing. -/
theorem destroy_log (h : k.destroy p = .ok k') : k'.log = k.log := by
  obtain ⟨⟨asids, memory⟩, -, h⟩ := Except.bind_ok_iff.mp h
  rw [← Except.ok.inj h]

/-- Nor does giving it its slot. -/
theorem install_log {pid : Word} (h : k.install p = .ok (pid, k')) : k'.log = k.log := by
  unfold install at h
  split at h
  · rw [← (Prod.mk.inj (Except.ok.inj h)).2]
  · split at h
    · cases h
    · cases h
    · rw [← (Prod.mk.inj (Except.ok.inj h)).2]

/-- **Creating.**  The first request opens the executable. -/
theorem createProcess_asks_first {pid : Word}
    (h : k.createProcess vm path brk0 = .ok (pid, k')) : .fopen path 0 :: k.log <:+ k'.log := by
  have hread : .fopen path 0 :: k.log <:+
      (readExecutable vm (File.construct vm path 0 k.log)).2.2 :=
    readExecutable_log (r := File.construct vm path 0 k.log)
  rcases createProcess_cases h with ⟨f, log, hfile, -, rfl⟩ |
    ⟨info, r, p, k1, physMem, f, log, hfile, -, h⟩
  all_goals
    rw [hfile] at hread
  · exact hread.trans (File.destroy_log vm f log)
  · rcases h with ⟨hload, -, k2, -, rfl⟩ | ⟨hload, hinstall⟩
    · exact (hread.trans (loadImage_log hload)).trans (File.destroy_log vm f log)
    · rw [install_log hinstall]
      exact (hread.trans (loadImage_log hload)).trans (File.destroy_log vm f log)

/-- Nor does freeing one. -/
theorem freeProcess_log {pid : Word} (h : k.freeProcess pid = .ok k') : k'.log = k.log := by
  unfold freeProcess at h
  split at h
  · cases h
  · cases h
  · obtain ⟨-, -, h⟩ := Except.bind_ok_iff.mp h
    split at h
    · rw [destroy_log h]
    · rw [destroy_log h]

/-- Nor does giving a guard back. -/
theorem reset_log (h : k.reset slot = .ok k') : k'.log = k.log := by
  obtain ⟨p, -, h⟩ := Except.bind_ok_iff.mp h
  dsimp only at h
  split at h
  · rw [← Except.ok.inj h]
  · split at h
    · rw [freeProcess_log h]
      rfl
    · rw [← Except.ok.inj h]
      rfl

/-- Nor does borrowing one. -/
theorem borrow_log (h : k.borrow slot = .ok k') : k'.log = k.log := by
  obtain ⟨p, -, h⟩ := Except.bind_ok_iff.mp h
  rw [← Except.ok.inj h]
  rfl

/-- Nor does a mark. -/
theorem markForDeath_log (h : k.markForDeath slot = .ok k') : k'.log = k.log := by
  obtain ⟨p, -, h⟩ := Except.bind_ok_iff.mp h
  obtain ⟨-, -, h⟩ := Except.bind_ok_iff.mp h
  rw [← Except.ok.inj h]
  rfl

/-- **Exec.**  The first request opens the executable. -/
theorem exec_asks_first {ctx ctx' : Option RegisterContext} {done : Bool}
    (h : k.exec vm slot path brk0 ctx = .ok (done, ctx', k')) :
    .fopen path 0 :: k.log <:+ k'.log := by
  obtain ⟨self, -, h⟩ := Except.bind_ok_iff.mp h
  obtain ⟨-, -, h⟩ := Except.bind_ok_iff.mp h
  obtain ⟨⟨newPID, k1⟩, hcreate, h⟩ := Except.bind_ok_iff.mp h
  have hcreated := createProcess_asks_first hcreate
  dsimp only at h
  split at h
  · obtain ⟨-, -, rfl⟩ := Except.ok.inj h
    exact hcreated
  · split at h
    · cases h
    · obtain ⟨k2, hborrow, h⟩ := Except.bind_ok_iff.mp h
      obtain ⟨newProc, -, h⟩ := Except.bind_ok_iff.mp h
      obtain ⟨memory, -, h⟩ := Except.bind_ok_iff.mp h
      obtain ⟨k3, hmark, h⟩ := Except.bind_ok_iff.mp h
      obtain ⟨k4, hreset, h⟩ := Except.bind_ok_iff.mp h
      obtain ⟨-, -, rfl⟩ := Except.ok.inj h
      rw [reset_log hreset, markForDeath_log hmark]
      show .fopen path 0 :: k.log <:+ k2.log
      rw [borrow_log hborrow]
      exact hcreated

end SharedResources

end Kernel
