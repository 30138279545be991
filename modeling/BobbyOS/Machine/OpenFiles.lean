import BobbyOS.Lib.Run
import BobbyOS.Lib.SlotTable
import BobbyOS.Machine.Tunnel

/-!
# Open files over whole runs

A session is a sequence of open, read, seek and close requests on one
`FileSystem`.  Beside the table and the host's descriptors it records, as a
ghost, which open request made the description behind each host descriptor and
which one was answered with each virtual descriptor.  The session is sound when
the two agree on every live slot.

* `relocate_ok_iff`: when the destructors that a reallocation runs succeed;
* `Session.Sound.step`: an open that relocates no live file, a read, a seek and
  a close keep the session sound;
* `Session.sound_of_reaches`: over every run in which each open finds no file
  open; the open that finds one relocates it, which closes its descriptor.
-/

namespace Hardware

open Machine (host_file_iff deref_ok_iff)

/-! ### The host's descriptors -/

/-- Descriptor `d` of the host is open. -/
def Host.IsOpen (h : Host) (d : Nat) : Prop := ∃ file, h.fds[d]? = some (some file)

section HostTable

variable {h h' : Host} {d : Nat} {f : OpenFile} {content : List Byte}

/-- The lowest free descriptor is a closed one or the next new one. -/
theorem Host.lowestFree_cases (h : Host) :
    (h.lowestFree < h.fds.length ∧ h.fds[h.lowestFree]? = some none) ∨
      h.lowestFree = h.fds.length := by
  unfold lowestFree
  cases hfind : h.fds.findIdx? (· = none) with
  | none => exact .inr rfl
  | some i =>
      obtain ⟨hlt, hi, -⟩ := List.findIdx?_eq_some_iff_getElem.mp hfind
      have hnone : h.fds[i] = none := by simpa using hi
      exact .inl ⟨hlt, by simp [hlt, hnone]⟩

/-- A new descriptor was not open. -/
theorem Host.lowestFree_not_open (h : Host) : ¬ h.IsOpen h.lowestFree := by
  rintro ⟨file, hfile⟩
  rcases h.lowestFree_cases with ⟨-, hnone⟩ | hlength
  · rw [hnone] at hfile
    cases hfile
  · rw [hlength] at hfile
    simp at hfile

/-- `::open` adds one description. -/
theorem Host.allocate_getElem? (h : Host) (content : List Byte) (d : Nat) (file : HostFile) :
    (h.allocate content).2.fds[d]? = some (some file) ↔
      (d = h.lowestFree ∧ file = { content }) ∨
        (d ≠ h.lowestFree ∧ h.fds[d]? = some (some file)) := by
  unfold allocate
  rcases h.lowestFree_cases with ⟨hlt, -⟩ | hlength
  · simp only [hlt, if_true]
    by_cases hd : d = h.lowestFree
    · subst hd
      simp [hlt, eq_comm]
    · simp [hd, List.getElem?_set_ne (Ne.symm hd)]
  · simp only [hlength, Nat.lt_irrefl, if_false]
    rcases Nat.lt_trichotomy d h.fds.length with hlt | rfl | hgt
    · simp [List.getElem?_append_left hlt, Nat.ne_of_lt hlt]
    · simp [eq_comm]
    · have hnew : (h.fds ++ [some ({ content } : HostFile)])[d]? = none :=
        List.getElem?_eq_none (by simp; omega)
      have hold : h.fds[d]? = none := List.getElem?_eq_none (by omega)
      simp [hnew, hold, Nat.ne_of_gt hgt]

/-- An allocated descriptor is open, and the others are as before. -/
theorem Host.allocate_isOpen_iff (h : Host) (content : List Byte) (d : Nat) :
    (h.allocate content).2.IsOpen d ↔ d = h.lowestFree ∨ h.IsOpen d := by
  unfold IsOpen
  simp only [allocate_getElem?]
  constructor
  · rintro ⟨file, ⟨rfl, -⟩ | ⟨-, hfile⟩⟩
    · exact .inl rfl
    · exact .inr ⟨file, hfile⟩
  · intro hopen
    by_cases hd : d = h.lowestFree
    · exact ⟨_, .inl ⟨hd, rfl⟩⟩
    · obtain ⟨file, hfile⟩ := hopen.resolve_left hd
      exact ⟨file, .inr ⟨hd, hfile⟩⟩

/-- `~OpenFile` fails its assertion exactly when the descriptor is not open. -/
theorem destroy_ok_iff :
    f.destroy h = .ok h' ↔ h.IsOpen f.fd.toNat ∧ h' = { fds := h.fds.set f.fd.toNat none } := by
  unfold OpenFile.destroy Host.IsOpen
  cases hfile : h.file f.fd with
  | none =>
      simp only [← host_file_iff, hfile]
      simp
  | some file =>
      simp only [← host_file_iff, hfile]
      simp [eq_comm]

/-- A closed descriptor is closed, and the others are as before. -/
theorem set_none_isOpen_iff {e : Nat} :
    Host.IsOpen { fds := h.fds.set e none } d ↔ d ≠ e ∧ h.IsOpen d := by
  unfold Host.IsOpen
  by_cases hd : d = e
  · subst hd
    simp [List.getElem?_set]
  · simp [hd, List.getElem?_set_ne (Ne.symm hd)]

/-- Replacing a description opens and closes nothing. -/
theorem set_some_isOpen_iff {e : Nat} {file file' : HostFile}
    (hfile : h.fds[e]? = some (some file)) :
    Host.IsOpen { fds := h.fds.set e (some file') } d ↔ h.IsOpen d := by
  unfold Host.IsOpen
  by_cases hd : d = e
  · subst hd
    exact iff_of_true ⟨file', by simp [Slots.lt_of_getElem? hfile]⟩ ⟨file, hfile⟩
  · simp [List.getElem?_set_ne (Ne.symm hd)]

/-- A seek opens and closes nothing. -/
theorem seek_isOpen_iff {inp : HostInput} {offset whence : Word} :
    (f.seek offset whence inp h).2.2.IsOpen d ↔ h.IsOpen d := by
  unfold OpenFile.seek
  split
  · rfl
  · rename_i file hfile
    split
    · rfl
    · simp only
      split
      · exact set_some_isOpen_iff (host_file_iff.mp hfile)
      · exact set_some_isOpen_iff (host_file_iff.mp hfile)

/-- The host descriptors of the live slots, in order. -/
def liveFds (files : List (Option OpenFile)) : List Nat :=
  files.reduceOption.map fun f => f.fd.toNat

/-- Relocation closes the descriptors of all live slots. -/
theorem relocate_ok_iff {files : List (Option OpenFile)} :
    (∃ h', relocate files h = .ok h') ↔
      (liveFds files).Nodup ∧ ∀ d ∈ liveFds files, h.IsOpen d := by
  induction files generalizing h with
  | nil => simp [relocate, liveFds]
  | cons slot rest ih =>
      cases slot with
      | none => simpa [relocate, liveFds] using ih
      | some f =>
          have hbind : (∃ h', relocate (some f :: rest) h = .ok h') ↔
              h.IsOpen f.fd.toNat ∧
                ∃ h', relocate rest { fds := h.fds.set f.fd.toNat none } = .ok h' := by
            simp only [relocate, Except.bind_ok_iff, destroy_ok_iff]
            constructor
            · rintro ⟨h', h1, ⟨hopen, rfl⟩, hrest⟩
              exact ⟨hopen, h', hrest⟩
            · rintro ⟨hopen, h', hrest⟩
              exact ⟨h', _, ⟨hopen, rfl⟩, hrest⟩
          have hlive : liveFds (some f :: rest) = f.fd.toNat :: liveFds rest := rfl
          rw [hbind, ih, hlive, List.nodup_cons]
          simp only [set_none_isOpen_iff, List.forall_mem_cons]
          constructor
          · rintro ⟨hopen, hnodup, hrest⟩
            exact ⟨⟨fun hmem => (hrest _ hmem).1 rfl, hnodup⟩, hopen, fun d hd => (hrest d hd).2⟩
          · rintro ⟨⟨hnot, hnodup⟩, hopen, hrest⟩
            exact ⟨hopen, hnodup, fun d hd => ⟨fun heq => hnot (heq ▸ hd), hrest d hd⟩⟩

/-- Relocation closes the descriptors of the live slots and no others. -/
theorem relocate_isOpen_iff {files : List (Option OpenFile)}
    (hrelocate : relocate files h = .ok h') :
    h'.IsOpen d ↔ h.IsOpen d ∧ d ∉ liveFds files := by
  induction files generalizing h with
  | nil =>
      cases hrelocate
      simp [liveFds]
  | cons slot rest ih =>
      cases slot with
      | none => exact ih hrelocate
      | some f =>
          obtain ⟨h1, hdestroy, hrest⟩ := Except.bind_ok_iff.mp hrelocate
          obtain ⟨-, rfl⟩ := destroy_ok_iff.mp hdestroy
          have hlive : liveFds (some f :: rest) = f.fd.toNat :: liveFds rest := rfl
          rw [ih hrest, set_none_isOpen_iff, hlive, List.mem_cons]
          tauto

end HostTable

/-! ### Sessions -/

/-- A request to the file system. -/
inductive FileRequest
  | open (filePath : List Byte) (flags : Word)
  | read (vfd count : Word)
  | seek (vfd offset whence : Word)
  | close (vfd : Word)

/-- The file system in a run.  `madeBy` and `answered` are ghosts: the open
request that made the description behind a host descriptor, as long as it is
open, and the one that was last answered with a virtual descriptor. -/
structure Session where
  fileSystem : FileSystem
  host : Host
  opens : Nat
  madeBy : Nat → Option Nat
  answered : Nat → Option Nat

namespace Session

/-- The session behind a request that made no description. -/
def after (s : Session) (fs : FileSystem) (h : Host) : Session :=
  { s with fileSystem := fs, host := h,
           madeBy := fun d => match h.fds[d]? with
             | some (some _) => s.madeBy d
             | _ => none }

/-- The next open request, which the host has served and which is answered with
`vfd`. -/
def opened (s : Session) (vfd : Word) : Session :=
  { s with opens := s.opens + 1,
           madeBy := Function.update s.madeBy s.host.lowestFree (some s.opens),
           answered := Function.update s.answered vfd.toNat (some s.opens) }

/-- One request. -/
def step (s : Session) (inp : HostInput) : FileRequest → Except Fault Session
  | .open filePath flags => do
      let (vfd, fs, h) ← s.fileSystem.openPath filePath flags inp s.host
      .ok ((s.opened vfd).after fs h)
  | .read vfd count => do
      let file ← s.fileSystem.deref vfd
      let (_, file, h) ← file.read count inp s.host
      .ok (s.after (s.fileSystem.store vfd file) h)
  | .seek vfd offset whence => do
      let file ← s.fileSystem.deref vfd
      let (_, file, h) := file.seek offset whence inp s.host
      .ok (s.after (s.fileSystem.store vfd file) h)
  | .close vfd => do
      let (_, fs, h) ← s.fileSystem.close vfd s.host
      .ok (s.after fs h)

/-- The host's open succeeds: there is a file, and a descriptor for it. -/
def HostOpens (s : Session) (inp : HostInput) : FileRequest → Prop
  | .open filePath flags =>
      (∃ content, inp.fileAt filePath flags = some content) ∧ s.host.lowestFree < 2 ^ 31
  | _ => True

/-- Slot `i` holds a file. -/
def Live (s : Session) (i : Nat) (f : OpenFile) : Prop :=
  s.fileSystem.files[i]? = some (some f)

/-- The table of slots and its stack of free ones. -/
def table (fs : FileSystem) : SlotTable.Table OpenFile :=
  ⟨fs.files, fs.freeVFDs.map BitVec.toNat⟩

/-- Each live slot has an open host descriptor of its own, made by the request
that was answered with the slot and not closed since; the free descriptors are
exactly the empty slots, each once. -/
structure Sound (s : Session) : Prop where
  own : ∀ i f, s.Live i f → s.host.IsOpen f.fd.toNat ∧
    ∃ n, s.answered i = some n ∧ s.madeBy f.fd.toNat = some n
  apart : ∀ i j f g, s.Live i f → s.Live j g → f.fd = g.fd → i = j
  free : SlotTable.Exact (table s.fileSystem)

/-- A request that keeps the descriptors open in the host and in the table. -/
theorem Sound.of_same {s t : Session} (h : s.Sound)
    (hlive : ∀ i f, t.Live i f → ∃ g, s.Live i g ∧ g.fd = f.fd)
    (hopen : ∀ i f, t.Live i f → t.host.IsOpen f.fd.toNat)
    (hghost : ∀ i f, t.Live i f → t.answered i = s.answered i ∧
      t.madeBy f.fd.toNat = s.madeBy f.fd.toNat)
    (hfree : SlotTable.Exact (table t.fileSystem)) : t.Sound := by
  refine ⟨fun i f hf => ?_, fun i j f g hf hg hfd => ?_, hfree⟩
  · obtain ⟨g, hg, hfd⟩ := hlive i f hf
    obtain ⟨-, n, hanswered, hmade⟩ := h.own i g hg
    obtain ⟨ha, hm⟩ := hghost i f hf
    exact ⟨hopen i f hf, n, ha.trans hanswered, hm.trans (hfd ▸ hmade)⟩
  · obtain ⟨f', hf', hff⟩ := hlive i f hf
    obtain ⟨g', hg', hgg⟩ := hlive j g hg
    exact h.apart i j f' g' hf' hg' (hff.trans (hfd.trans hgg.symm))

section Steps

variable {s t : Session} {fs : FileSystem} {h : Host} {inp : HostInput} {d : Nat}

/-- An open descriptor keeps its stamp. -/
theorem after_madeBy (hopen : h.IsOpen d) : (s.after fs h).madeBy d = s.madeBy d := by
  obtain ⟨file, hfile⟩ := hopen
  simp only [after, hfile]

/-- A slot that is set holds what it was set to. -/
theorem live_set {i j : Nat} {x : Option OpenFile} {g : OpenFile}
    (hfiles : fs.files = s.fileSystem.files.set j x) (hlive : (s.after fs h).Live i g) :
    (i = j ∧ x = some g) ∨ (i ≠ j ∧ s.Live i g) := by
  rw [Live, after, hfiles] at hlive
  rcases Slots.of_getElem?_set hlive with ⟨rfl, rfl⟩ | hold
  · exact .inl ⟨rfl, rfl⟩
  · exact .inr hold

/-- What a read or a seek writes back. -/
theorem Sound.stored {vfd : Word} {f f' : OpenFile} (hs : s.Sound)
    (hf : s.fileSystem.deref vfd = .ok f) (hfd : f'.fd = f.fd)
    (hhost : ∀ d, h.IsOpen d ↔ s.host.IsOpen d) :
    (s.after (s.fileSystem.store vfd f') h).Sound := by
  have hslot : s.Live vfd.toNat f := deref_ok_iff.mp hf
  have hlive : ∀ i g, (s.after (s.fileSystem.store vfd f') h).Live i g →
      ∃ g', s.Live i g' ∧ g'.fd = g.fd := by
    intro i g hg
    rcases live_set rfl hg with ⟨rfl, hx⟩ | ⟨-, hold⟩
    · obtain rfl := Option.some.inj hx
      exact ⟨f, hslot, hfd.symm⟩
    · exact ⟨g, hold, rfl⟩
  have hopen : ∀ i g, (s.after (s.fileSystem.store vfd f') h).Live i g →
      h.IsOpen g.fd.toNat := by
    intro i g hg
    obtain ⟨g', hg', hfd'⟩ := hlive i g hg
    exact (hhost _).mpr (hfd' ▸ (hs.own i g' hg').1)
  refine hs.of_same hlive hopen (fun i g hg => ⟨rfl, after_madeBy (hopen i g hg)⟩) ?_
  exact hs.free.step (.update _ f f' hslot)

/-- Closing a live slot.  The files that remain are in other slots and have other
descriptors. -/
theorem Sound.emptied {vfd : Word} {f : OpenFile} (hs : s.Sound) (hslot : s.Live vfd.toNat f)
    (hfiles : fs.files = s.fileSystem.files.set vfd.toNat none)
    (hvfds : fs.freeVFDs = s.fileSystem.freeVFDs ++ [vfd])
    (hhost : h = { fds := s.host.fds.set f.fd.toNat none }) : (s.after fs h).Sound := by
  have hlive : ∀ i g, (s.after fs h).Live i g → i ≠ vfd.toNat ∧ s.Live i g := by
    intro i g hg
    rcases live_set hfiles hg with ⟨-, hx⟩ | hold
    · cases hx
    · exact hold
  have hopen : ∀ i g, (s.after fs h).Live i g → h.IsOpen g.fd.toNat := by
    intro i g hg
    obtain ⟨hne, hold⟩ := hlive i g hg
    rw [hhost, set_none_isOpen_iff]
    refine ⟨fun hfd => hne ?_, (hs.own i g hold).1⟩
    exact hs.apart i _ g f hold hslot (BitVec.eq_of_toNat_eq hfd)
  refine hs.of_same (fun i g hg => ⟨g, (hlive i g hg).2, rfl⟩) hopen
    (fun i g hg => ⟨rfl, after_madeBy (hopen i g hg)⟩) ?_
  have hfree := hs.free.step (.empty vfd.toNat f hslot)
  simpa only [table, after, hfiles, hvfds, List.map_append, List.map_singleton] using hfree

/-- A close, of a live slot or of another one. -/
theorem Sound.closed {vfd res : Word} (hs : s.Sound)
    (hclose : s.fileSystem.close vfd s.host = .ok (res, fs, h)) : (s.after fs h).Sound := by
  have hidle : fs = s.fileSystem → h = s.host → (s.after fs h).Sound := by
    rintro rfl rfl
    refine hs.of_same (fun i f hf => ⟨f, hf, rfl⟩) (fun i f hf => (hs.own i f hf).1)
      (fun i f hf => ⟨rfl, after_madeBy (hs.own i f hf).1⟩) hs.free
  unfold FileSystem.close at hclose
  split at hclose
  · cases hclose
    exact hidle rfl rfl
  · cases hclose
    exact hidle rfl rfl
  · rename_i f hslot
    obtain ⟨h1, hdestroy, hrest⟩ := Except.bind_ok_iff.mp hclose
    obtain ⟨-, rfl⟩ := destroy_ok_iff.mp hdestroy
    cases hrest
    exact hs.emptied hslot rfl rfl rfl

/-- A new file in a slot that was empty. -/
theorem Sound.filled {vfd : Word} {content : List Byte} (hs : s.Sound)
    (hh : h = (s.host.allocate content).2)
    (hlive : ∀ i g, ((s.opened vfd).after fs h).Live i g →
      (i = vfd.toNat ∧ g.fd.toNat = s.host.lowestFree) ∨ (i ≠ vfd.toNat ∧ s.Live i g))
    (hfree : SlotTable.Exact (table fs)) : ((s.opened vfd).after fs h).Sound := by
  have hold : ∀ i g, s.Live i g → g.fd.toNat ≠ s.host.lowestFree := by
    intro i g hg heq
    exact s.host.lowestFree_not_open (heq ▸ (hs.own i g hg).1)
  refine ⟨fun i g hg => ?_, fun i j f g hf hg hfd => ?_, hfree⟩
  · have hopen : h.IsOpen g.fd.toNat := by
      rw [hh, Host.allocate_isOpen_iff]
      rcases hlive i g hg with ⟨-, hnew⟩ | ⟨-, hg'⟩
      · exact .inl hnew
      · exact .inr (hs.own i g hg').1
    refine ⟨hopen, ?_⟩
    rw [after_madeBy hopen]
    rcases hlive i g hg with ⟨rfl, hnew⟩ | ⟨hne, hg'⟩
    · exact ⟨s.opens, Function.update_self .., by rw [hnew]; exact Function.update_self ..⟩
    · obtain ⟨n, hanswered, hmade⟩ := (hs.own i g hg').2
      exact ⟨n, (Function.update_of_ne hne _ _).trans hanswered,
        (Function.update_of_ne (hold i g hg') _ _).trans hmade⟩
  · rcases hlive i f hf with ⟨rfl, hnew⟩ | ⟨-, hf'⟩
    · rcases hlive j g hg with ⟨rfl, -⟩ | ⟨-, hg'⟩
      · rfl
      · exact absurd (hfd ▸ hnew) (hold j g hg')
    · rcases hlive j g hg with ⟨rfl, hnew⟩ | ⟨-, hg'⟩
      · exact absurd (hfd ▸ hnew) (hold i f hf')
      · exact hs.apart i j f g hf' hg' hfd

/-- The open does not relocate a live file: there is a free slot, or room behind
the last one, or nothing to relocate. -/
def HasRoom (fs : FileSystem) : Prop :=
  fs.freeVFDs ≠ [] ∨ fs.files.length < fs.capacity ∨ fs.files = []

variable {filePath : List Byte} {flags vfd : Word}

/-- A file that the host has is opened under the lowest free descriptor. -/
theorem construct_ok {content : List Byte} (hcontent : inp.fileAt filePath flags = some content) :
    OpenFile.construct filePath flags inp s.host =
      .ok ({ fd := BitVec.ofNat 32 s.host.lowestFree }, (s.host.allocate content).2) := by
  simp only [OpenFile.construct, hcontent, Host.allocate]

/-- An open of a table with a free slot. -/
theorem Sound.reused {last : Word} (hs : s.Sound) (hlast : s.fileSystem.freeVFDs.getLast? = some last)
    (hopens : s.HostOpens inp (.open filePath flags)) :
    ∃ fs h, s.fileSystem.openPath filePath flags inp s.host = .ok (last, fs, h) ∧
      fs.files.length = s.fileSystem.files.length ∧ fs.capacity = s.fileSystem.capacity ∧
      ((s.opened last).after fs h).Sound := by
  obtain ⟨⟨content, hcontent⟩, hfd⟩ := hopens
  have hvfds := List.dropLast_append_getLast? last hlast
  have hempty : s.fileSystem.files[last.toNat]? = some none := by
    refine (hs.free.mem_iff _).mp (List.mem_map_of_mem ?_)
    rw [← hvfds]
    simp
  have hlt := Slots.lt_of_getElem? hempty
  have hopen : s.fileSystem.openPath filePath flags inp s.host =
      .ok (last, { s.fileSystem with
        files := s.fileSystem.files.set last.toNat
          (some { fd := BitVec.ofNat 32 s.host.lowestFree }),
        freeVFDs := s.fileSystem.freeVFDs.dropLast }, (s.host.allocate content).2) := by
    simp only [FileSystem.openPath, hlast, hempty, construct_ok hcontent]
    rfl
  refine ⟨_, _, hopen, by simp, rfl, hs.filled rfl (fun i g hg => ?_) ?_⟩
  · rcases live_set rfl hg with ⟨rfl, hx⟩ | hold
    · obtain rfl := Option.some.inj hx
      exact .inl ⟨rfl, by rw [BitVec.toNat_ofNat, Nat.mod_eq_of_lt (by omega)]⟩
    · exact .inr hold
  · have hstep : SlotTable.Step (table s.fileSystem)
        ⟨s.fileSystem.files.set last.toNat
          (some { fd := BitVec.ofNat 32 s.host.lowestFree }),
          s.fileSystem.freeVFDs.dropLast.map BitVec.toNat⟩ := by
      have htable : table s.fileSystem =
          ⟨s.fileSystem.files, s.fileSystem.freeVFDs.dropLast.map BitVec.toNat ++ [last.toNat]⟩ := by
        rw [table, ← List.map_singleton, ← List.map_append, hvfds]
      rw [htable]
      exact .fill _ _ hempty
    exact hs.free.step hstep

/-- The slots when none of them is free: all hold a file. -/
theorem Sound.live_of_noneFree (hs : s.Sound) (hnone : s.fileSystem.freeVFDs = []) {i : Nat}
    (hi : i < s.fileSystem.files.length) : ∃ f, s.Live i f := by
  have hslot : s.fileSystem.files[i]? = some s.fileSystem.files[i] :=
    List.getElem?_eq_getElem hi
  cases hx : s.fileSystem.files[i] with
  | some f => exact ⟨f, hslot.trans (congrArg some hx)⟩
  | none =>
      have hmem := (hs.free.mem_iff i).mpr (hslot.trans (congrArg some hx))
      simp [table, hnone] at hmem

/-- An open of a table without a free slot. -/
theorem openPath_append {content : List Byte} (hnone : s.fileSystem.freeVFDs = [])
    (hcontent : inp.fileAt filePath flags = some content) :
    s.fileSystem.openPath filePath flags inp s.host =
      let file : OpenFile := { fd := BitVec.ofNat 32 s.host.lowestFree }
      let fs : FileSystem :=
        { s.fileSystem with files := s.fileSystem.files ++ [some file] }
      let length := s.fileSystem.files.length
      if length < s.fileSystem.capacity then
        .ok (BitVec.ofNat 32 length, fs, (s.host.allocate content).2)
      else (relocate s.fileSystem.files (s.host.allocate content).2).bind fun h =>
        .ok (BitVec.ofNat 32 length, { fs with capacity := length + max length 1 }, h) := by
  simp only [FileSystem.openPath, hnone, List.getLast?_nil, construct_ok hcontent]
  rfl

/-- A new file behind the last slot. -/
theorem Sound.pushed {content : List Byte} (hs : s.Sound) (hnone : s.fileSystem.freeVFDs = [])
    (hlength : s.fileSystem.files.length < 2 ^ 32) (hfd : s.host.lowestFree < 2 ^ 31)
    (hfiles : fs.files =
      s.fileSystem.files ++ [some { fd := BitVec.ofNat 32 s.host.lowestFree }])
    (hvfds : fs.freeVFDs = []) (hh : h = (s.host.allocate content).2) :
    ((s.opened (BitVec.ofNat 32 s.fileSystem.files.length)).after fs h).Sound := by
  have hvfd : (BitVec.ofNat 32 s.fileSystem.files.length).toNat = s.fileSystem.files.length := by
    rw [BitVec.toNat_ofNat, Nat.mod_eq_of_lt hlength]
  refine hs.filled hh (fun i g hg => ?_) ?_
  · rw [hvfd]
    rw [Live, after, hfiles] at hg
    rcases Nat.lt_or_ge i s.fileSystem.files.length with hlt | hge
    · rw [List.getElem?_append_left hlt] at hg
      exact .inr ⟨Nat.ne_of_lt hlt, hg⟩
    · rw [List.getElem?_append_right hge, List.getElem?_singleton] at hg
      split at hg
      · rename_i hi
        cases hg
        exact .inl ⟨by omega, by rw [BitVec.toNat_ofNat, Nat.mod_eq_of_lt (by omega)]⟩
      · cases hg
  · have htable : table s.fileSystem = ⟨s.fileSystem.files, []⟩ := by
      rw [table, hnone, List.map_nil]
    have hfree := hs.free
    rw [htable] at hfree
    rw [table, hfiles, hvfds, List.map_nil]
    exact hfree.step (.append _)

/-- An open that relocates no file. -/
theorem Sound.appended (hs : s.Sound) (hnone : s.fileSystem.freeVFDs = [])
    (hroom : HasRoom s.fileSystem) (hlength : s.fileSystem.files.length < 2 ^ 32)
    (hopens : s.HostOpens inp (.open filePath flags)) :
    ∃ fs h, s.fileSystem.openPath filePath flags inp s.host =
        .ok (BitVec.ofNat 32 s.fileSystem.files.length, fs, h) ∧
      fs.files.length = s.fileSystem.files.length + 1 ∧
      (s.fileSystem.capacity = s.fileSystem.files.length → fs.capacity = fs.files.length) ∧
      ((s.opened (BitVec.ofNat 32 s.fileSystem.files.length)).after fs h).Sound := by
  obtain ⟨⟨content, hcontent⟩, hfd⟩ := hopens
  have hopen : s.fileSystem.openPath filePath flags inp s.host = _ :=
    openPath_append hnone hcontent
  simp only at hopen
  split at hopen
  · exact ⟨_, _, hopen, by simp, fun hcapacity => by omega,
      hs.pushed hnone hlength hfd rfl hnone rfl⟩
  · rename_i hfull
    have hempty : s.fileSystem.files = [] := by
      rcases hroom with h | h | h
      · exact absurd hnone h
      · exact absurd h hfull
      · exact h
    have hrelocate : relocate s.fileSystem.files (s.host.allocate content).2 =
        .ok (s.host.allocate content).2 := by
      rw [hempty]
      rfl
    rw [hrelocate] at hopen
    exact ⟨_, _, hopen, by simp, fun _ => by simp [hempty],
      hs.pushed hnone hlength hfd rfl hnone rfl⟩

/-- The destructors of all files succeed. -/
theorem Sound.destructible (hs : s.Sound) : ∃ h, relocate s.fileSystem.files s.host = .ok h := by
  refine relocate_ok_iff.mpr ⟨?_, fun d hd => ?_⟩
  · apply Slots.nodup_map_reduceOption
    intro i j f g hf hg hfd
    exact hs.apart i j f g hf hg (BitVec.eq_of_toNat_eq hfd)
  · obtain ⟨f, hf, rfl⟩ := List.mem_map.mp hd
    obtain ⟨i, hi⟩ := Slots.mem_reduceOption.mp hf
    exact (hs.own i f hi).1

/-- An open that relocates a file: it succeeds, and the old files have lost their
descriptors. -/
theorem Sound.relocated (hs : s.Sound) (hroom : ¬ HasRoom s.fileSystem)
    (hopens : s.HostOpens inp (.open filePath flags)) :
    ∃ vfd fs h, s.fileSystem.openPath filePath flags inp s.host = .ok (vfd, fs, h) ∧
      ¬ ((s.opened vfd).after fs h).Sound := by
  simp only [HasRoom, not_or, not_not, Nat.not_lt] at hroom
  obtain ⟨hnone, hfull, hfiles⟩ := hroom
  obtain ⟨⟨content, hcontent⟩, hfd⟩ := hopens
  have hopen : s.fileSystem.openPath filePath flags inp s.host = _ :=
    openPath_append hnone hcontent
  have hrelocate : ∃ h, relocate s.fileSystem.files (s.host.allocate content).2 = .ok h := by
    obtain ⟨hnodup, hall⟩ := relocate_ok_iff.mp hs.destructible
    refine relocate_ok_iff.mpr ⟨hnodup, fun d hd => ?_⟩
    exact (Host.allocate_isOpen_iff ..).mpr (.inr (hall d hd))
  obtain ⟨h, hh⟩ := hrelocate
  simp only [Nat.not_lt.mpr hfull, if_false, hh] at hopen
  refine ⟨_, _, _, hopen, fun hsound => ?_⟩
  obtain ⟨f, hf⟩ := hs.live_of_noneFree hnone (List.length_pos_iff.mpr hfiles)
  have hmem : f.fd.toNat ∈ liveFds s.fileSystem.files :=
    List.mem_map_of_mem (Slots.mem_reduceOption.mpr ⟨0, hf⟩)
  have hclosed := (hsound.own 0 f ?_).1
  · exact ((relocate_isOpen_iff hh).mp hclosed).2 hmem
  · exact (List.getElem?_append_left (List.length_pos_iff.mpr hfiles)).trans hf

end Steps

/-! ### Runs -/

/-- A file system that has just been constructed, in a host with any descriptors
open. -/
def start (h : Host) : Session where
  fileSystem := {}
  host := h
  opens := 0
  madeBy _ := none
  answered _ := none

/-- No file is open. -/
def Idle (s : Session) : Prop := ∀ i f, ¬ s.Live i f

/-- A file is opened only while none is open. -/
def OpensAlone (s : Session) : FileRequest → Prop
  | .open _ _ => s.Idle
  | _ => True

/-- The request, with what the host answers to it, leads to `t`. -/
def Steps (s : Session) (r : HostInput × FileRequest) (t : Session) : Prop :=
  s.step r.1 r.2 = .ok t

/-- What the runs keep: at most one slot, which fills the vector. -/
structure Small (s : Session) : Prop where
  sound : s.Sound
  capacity : s.fileSystem.capacity = s.fileSystem.files.length
  length : s.fileSystem.files.length ≤ 1

section Runs

variable {s t : Session} {inp : HostInput} {filePath : List Byte} {flags : Word} {h0 : Host}

/-- A new table has no slots. -/
theorem small_start : (start h0).Small where
  sound := ⟨fun i f hf => by simp [Live, start] at hf, fun i j f g hf => by simp [Live, start] at hf,
    ⟨List.nodup_nil, fun i => by simp [table, start]⟩⟩
  capacity := rfl
  length := Nat.zero_le _

/-- In a run the condition on the open says that nothing is relocated. -/
theorem Small.hasRoom_iff (h : s.Small) : HasRoom s.fileSystem ↔ s.Idle := by
  constructor
  · rintro (hfree | hcapacity | hempty) i f hlive
    · obtain ⟨vfd, hvfd⟩ := List.exists_mem_of_ne_nil _ hfree
      have hnone := (h.sound.free.mem_iff vfd.toNat).mp (List.mem_map_of_mem hvfd)
      have hi := Slots.lt_of_getElem? hlive
      have hj := Slots.lt_of_getElem? hnone
      have hlength := h.length
      simp only [table] at hj
      have hij : vfd.toNat = i := by omega
      rw [hij] at hnone
      exact absurd (hlive.symm.trans hnone) (by simp)
    · exact absurd hcapacity (by rw [h.capacity]; exact Nat.lt_irrefl _)
    · rw [Live, hempty] at hlive
      simp at hlive
  · intro halone
    by_cases hfree : s.fileSystem.freeVFDs = []
    · refine .inr (.inr (List.eq_nil_of_length_eq_zero ?_))
      by_contra hne
      obtain ⟨f, hf⟩ := h.sound.live_of_noneFree hfree (Nat.pos_of_ne_zero hne)
      exact halone 0 f hf
    · exact .inl hfree

/-- **Open.**  It returns, and the session is sound behind it exactly when no file
was open. -/
theorem Small.open (h : s.Small) (hopens : s.HostOpens inp (.open filePath flags)) :
    ∃ t, s.step inp (.open filePath flags) = .ok t ∧
      (s.Idle → t.Small) ∧
      (¬ s.Idle → ¬ t.Sound) := by
  have hlength := h.length
  by_cases hroom : HasRoom s.fileSystem
  · have halone := h.hasRoom_iff.mp hroom
    cases hlast : s.fileSystem.freeVFDs.getLast? with
    | some last =>
        obtain ⟨fs, host, hopen, hl, hc, hsound⟩ := h.sound.reused hlast hopens
        refine ⟨_, by rw [step, hopen]; rfl, fun _ => ⟨hsound, ?_, ?_⟩, fun hnot => absurd halone hnot⟩
        · exact hc.trans (h.capacity.trans hl.symm)
        · exact Nat.le_trans (Nat.le_of_eq hl) h.length
    | none =>
        have hnone := List.getLast?_eq_none_iff.mp hlast
        obtain ⟨fs, host, hopen, hl, hc, hsound⟩ :=
          h.sound.appended hnone hroom (by omega) hopens
        have hempty : s.fileSystem.files.length = 0 := by
          by_contra hne
          obtain ⟨f, hf⟩ := h.sound.live_of_noneFree hnone (Nat.pos_of_ne_zero hne)
          exact halone 0 f hf
        refine ⟨_, by rw [step, hopen]; rfl, fun _ => ⟨hsound, hc h.capacity, ?_⟩,
          fun hnot => absurd halone hnot⟩
        change fs.files.length ≤ 1
        omega
  · obtain ⟨vfd, fs, host, hopen, hunsound⟩ := h.sound.relocated hroom hopens
    exact ⟨_, by rw [step, hopen]; rfl, fun halone => absurd (h.hasRoom_iff.mpr halone) hroom,
      fun _ => hunsound⟩

/-- The assertion in `~OpenFile` has failed. -/
def closeFailed : Fault := .assertFailed "(close(fd) == 0) && Recieved an error on fileclose"

/-- Looking a descriptor up closes nothing. -/
theorem deref_ne_closeFailed {fs : FileSystem} {vfd : Word} :
    fs.deref vfd ≠ .error closeFailed := by
  unfold FileSystem.deref
  split <;> simp [closeFailed]

/-- A sequence fails with none of the errors that its parts do not fail with. -/
theorem bind_ne_error {α β : Type} {x : Except Fault α} {k : α → Except Fault β} {e : Fault}
    (hx : x ≠ .error e) (hk : ∀ a, x = .ok a → k a ≠ .error e) : (x >>= k) ≠ .error e := by
  cases x with
  | ok a => exact hk a rfl
  | error e' =>
      intro h
      cases h
      exact hx rfl

/-- A read keeps the one slot. -/
theorem Small.read {vfd count : Word} (h : s.Small) :
    s.step inp (.read vfd count) ≠ .error closeFailed ∧
      ∀ t, s.step inp (.read vfd count) = .ok t → t.Small := by
  constructor
  · refine bind_ne_error deref_ne_closeFailed fun f _ => bind_ne_error ?_ fun _ _ => by simp
    unfold OpenFile.read
    split
    · simp only
      split <;> simp
    · simp [closeFailed]
  · intro t ht
    obtain ⟨f, hf, hrest⟩ := Except.bind_ok_iff.mp ht
    obtain ⟨⟨bytes, f', h'⟩, hread, hrest⟩ := Except.bind_ok_iff.mp hrest
    cases hrest
    obtain ⟨limit, file, -, hfile, hfd, rfl⟩ := Machine.read_ok hread
    refine ⟨h.sound.stored hf hfd fun d => set_some_isOpen_iff (host_file_iff.mp hfile), ?_, ?_⟩
    · simpa [after, FileSystem.store] using h.capacity
    · simpa [after, FileSystem.store] using h.length

/-- So does a seek. -/
theorem Small.seek {vfd offset whence : Word} (h : s.Small) :
    s.step inp (.seek vfd offset whence) ≠ .error closeFailed ∧
      ∀ t, s.step inp (.seek vfd offset whence) = .ok t → t.Small := by
  constructor
  · exact bind_ne_error deref_ne_closeFailed fun f _ => by simp
  · intro t ht
    obtain ⟨f, hf, hrest⟩ := Except.bind_ok_iff.mp ht
    cases hrest
    refine ⟨h.sound.stored hf Machine.seek_fd fun d => seek_isOpen_iff, ?_, ?_⟩
    · simpa [after, FileSystem.store] using h.capacity
    · simpa [after, FileSystem.store] using h.length

/-- A close leaves the slot empty. -/
theorem Small.close {vfd : Word} (h : s.Small) :
    s.step inp (.close vfd) ≠ .error closeFailed ∧
      ∀ t, s.step inp (.close vfd) = .ok t → t.Small := by
  constructor
  · refine bind_ne_error ?_ fun _ _ => by simp
    unfold FileSystem.close
    split
    · simp
    · simp
    · rename_i f hslot
      obtain ⟨host, hhost⟩ : ∃ host, f.destroy s.host = .ok host :=
        ⟨_, destroy_ok_iff.mpr ⟨(h.sound.own _ f hslot).1, rfl⟩⟩
      rw [hhost]
      simp
  · intro t ht
    obtain ⟨⟨res, fs, host⟩, hclose, hrest⟩ := Except.bind_ok_iff.mp ht
    cases hrest
    have hsame : fs.capacity = s.fileSystem.capacity ∧
        fs.files.length = s.fileSystem.files.length := by
      unfold FileSystem.close at hclose
      split at hclose
      · cases hclose
        exact ⟨rfl, rfl⟩
      · cases hclose
        exact ⟨rfl, rfl⟩
      · obtain ⟨h1, -, hok⟩ := Except.bind_ok_iff.mp hclose
        cases hok
        exact ⟨rfl, by simp⟩
    refine ⟨h.sound.closed hclose, ?_, ?_⟩
    · exact hsame.1.trans (h.capacity.trans hsame.2.symm)
    · exact Nat.le_trans (Nat.le_of_eq hsame.2) h.length

/-- **One request.** -/
theorem Small.step {r : FileRequest} (h : s.Small) (hopens : s.HostOpens inp r) :
    s.step inp r ≠ .error closeFailed ∧
      ∀ t, s.step inp r = .ok t → (s.OpensAlone r → t.Small) ∧ (¬ s.OpensAlone r → ¬ t.Sound) := by
  cases r with
  | «open» filePath flags =>
      obtain ⟨t, ht, hkept⟩ := h.open hopens
      rw [ht]
      refine ⟨by simp, fun t' ht' => ?_⟩
      cases ht'
      exact hkept
  | read vfd count =>
      exact ⟨h.read.1, fun t ht => ⟨fun _ => h.read.2 t ht, fun hnot => absurd trivial hnot⟩⟩
  | seek vfd offset whence =>
      exact ⟨h.seek.1, fun t ht => ⟨fun _ => h.seek.2 t ht, fun hnot => absurd trivial hnot⟩⟩
  | close vfd =>
      exact ⟨h.close.1, fun t ht => ⟨fun _ => h.close.2 t ht, fun hnot => absurd trivial hnot⟩⟩

/-- **Open files.**  In every run from a new file system in which a file is opened
only while none is open, every live virtual descriptor has the host descriptor
that was opened for it, the free ones are exactly the empty slots, and the
destructors of all open files succeed.  In each of these states no request fails
the assertion of a destructor, and the state behind it is of this kind again
exactly when the request, too, opens no file beside another. -/
theorem sound_of_reaches {h0 : Host} {s : Session}
    (hrun : Run.Reaches Steps (fun s r => s.HostOpens r.1 r.2 ∧ s.OpensAlone r.2) (start h0) s) :
    s.Sound ∧ (∃ h, relocate s.fileSystem.files s.host = .ok h) ∧
      ∀ inp r, s.HostOpens inp r → s.step inp r ≠ .error closeFailed ∧
        ∀ t, s.step inp r = .ok t → (t.Sound ↔ s.OpensAlone r) := by
  have hsmall : s.Small := by
    apply hrun.invariant small_start
    rintro s ⟨inp, r⟩ t hs ⟨hopens, halone⟩ hstep
    exact ((hs.step hopens).2 t hstep).1 halone
  refine ⟨hsmall.sound, hsmall.sound.destructible, fun inp r hopens => ?_⟩
  obtain ⟨hclose, hkept⟩ := hsmall.step hopens
  refine ⟨hclose, fun t ht => ?_⟩
  obtain ⟨hsound, hunsound⟩ := hkept t ht
  exact ⟨fun h => by_contra fun hnot => hunsound hnot h, fun h => (hsound h).sound⟩

/-- A host that opens every path. -/
def openInput : HostInput := { fileAt := fun _ _ => some [] }

/-- One file open. -/
def openedOnce : Session :=
  ((start {}).opened 0).after { files := [some { fd := 0 }], capacity := 1 }
    { fds := [some { content := [] }] }

/-- This file closed, and its slot free again. -/
def closedAgain : Session :=
  openedOnce.after { files := [none], freeVFDs := [0], capacity := 1 } { fds := [none] }

/-- Another one open in the same slot. -/
def reopened : Session :=
  (closedAgain.opened 0).after { files := [some { fd := 0 }], capacity := 1 }
    { fds := [some { content := [] }] }

/-- A file is opened and closed, and the next one gets its slot and its descriptor. -/
theorem sound_of_reaches_reopened : reopened.Sound ∧ reopened.answered 0 = some 1 ∧
    reopened.step openInput (.close 0) ≠ .error closeFailed := by
  have hidle : (start {}).Idle := by
    intro i f h
    cases h
  have hclosed : closedAgain.Idle := by
    intro i f h
    match i, h with
    | 0, h => cases h
  have hopen : Run.Reaches Steps (fun s r => s.HostOpens r.1 r.2 ∧ s.OpensAlone r.2) (start {})
      openedOnce :=
    Run.Reaches.refl.step (i := (openInput, .open [] 0)) ⟨⟨⟨_, rfl⟩, by decide⟩, hidle⟩ rfl
  have hclose : Run.Reaches Steps (fun s r => s.HostOpens r.1 r.2 ∧ s.OpensAlone r.2) (start {})
      closedAgain := hopen.step (i := (openInput, .close 0)) ⟨trivial, trivial⟩ rfl
  have hrun : Run.Reaches Steps (fun s r => s.HostOpens r.1 r.2 ∧ s.OpensAlone r.2) (start {})
      reopened :=
    hclose.step (i := (openInput, .open [] 0)) ⟨⟨⟨_, rfl⟩, by decide⟩, hclosed⟩ rfl
  obtain ⟨hsound, -, hstep⟩ := sound_of_reaches hrun
  exact ⟨hsound, rfl, (hstep openInput (.close 0) trivial).1⟩

/-- The second of two opens relocates the first file, which closes it. -/
theorem second_open_closes_first : ¬ ∀ (h0 : Host) (s : Session),
    Run.Reaches Steps (fun s r => s.HostOpens r.1 r.2) (start h0) s → s.Sound := by
  intro h
  have honce : Run.Reaches Steps (fun s r => s.HostOpens r.1 r.2) (start {}) openedOnce := by
    apply Run.Reaches.refl.step (i := (openInput, .open [] 0))
    · exact ⟨⟨_, rfl⟩, by decide⟩
    · rfl
  have htwice := h {} _ (honce.step (i := (openInput, .open [] 0)) ⟨⟨_, rfl⟩, by decide⟩ rfl)
  obtain ⟨file, hfile⟩ := (htwice.own 0 { fd := 0 } rfl).1
  cases hfile

end Runs

end Session

end Hardware
