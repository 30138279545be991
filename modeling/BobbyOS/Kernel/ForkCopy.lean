import BobbyOS.Kernel.FrameOwnership
import BobbyOS.Kernel.Translation
import BobbyOS.Lib.BlockMoves

/-!
# What a fork copies

A fork gives the child a frame for every page of the parent and copies the page.
The loop copies 4096 integers where a page has 4096 bytes, so each page takes
the three frames behind it along and overwrites the three frames behind its new
one.  Frame by frame the whole fork is a program of block moves, a row of four for each
page in the order of the parent's table.

The pages and flags of the child are right, and so are its frames.  The bytes
are right exactly when each row is harmless: it brings the page itself, and to the
frames behind it, up to the next frame of the child, the bytes that they have.
-/

namespace Kernel

open MemoryManager Ledger Run BlockMoves

/-! ### Copying integers -/

/-- The next frame is a page further on. -/
theorem frameAddr_succ (g : Nat) :
    frameAddr (BitVec.ofNat 32 g) + BitVec.ofNat 32 4096 = frameAddr (BitVec.ofNat 32 (g + 1)) := by
  apply BitVec.eq_of_toNat_eq
  simp only [frameAddr, BitVec.toNat_add, BitVec.toNat_shiftLeft, BitVec.toNat_ofNat,
    Nat.shiftLeft_eq]
  omega

/-- A copy in two parts. -/
theorem copyInts_add (m n : Nat) (mem : Hardware.Memory) (dst src : Word) :
    copyInts (m + n) mem dst src = copyInts n (copyInts m mem dst src)
      (dst + BitVec.ofNat 32 (4 * m)) (src + BitVec.ofNat 32 (4 * m)) := by
  induction m generalizing mem dst src with
  | zero => simp [copyInts]
  | succ m ih =>
      have hnext : ∀ a : Word, a + 4#32 + BitVec.ofNat 32 (4 * m) =
          a + BitVec.ofNat 32 (4 * (m + 1)) := by
        intro a
        rw [BitVec.add_assoc, ← BitVec.ofNat_add, Nat.mul_succ, Nat.add_comm]
      rw [Nat.succ_add, copyInts, ih, copyInts, hnext, hnext]

/-- **Copying.**  Between ranges that are equal or apart, the bytes arrive. -/
theorem copyInts_apply {n : Nat} {mem : Hardware.Memory} {dst src : Word} (x : Nat)
    (hdst : physAddr dst + 4 * n < 2 ^ 32) (hsrc : physAddr src + 4 * n < 2 ^ 32)
    (hapart : physAddr dst = physAddr src ∨ physAddr dst + 4 * n ≤ physAddr src ∨
      physAddr src + 4 * n ≤ physAddr dst) :
    copyInts n mem dst src x =
      if physAddr dst ≤ x ∧ x < physAddr dst + 4 * n then mem (physAddr src + (x - physAddr dst))
      else mem x := by
  induction n generalizing mem dst src with
  | zero => rw [copyInts, if_neg (by omega)]
  | succ n ih =>
      have hdst4 : physAddr (dst + 4#32) = physAddr dst + 4 := physAddr_add (by omega)
      have hsrc4 : physAddr (src + 4#32) = physAddr src + 4 := physAddr_add (by omega)
      rw [copyInts, ih (by omega) (by omega) (by omega), hdst4, hsrc4]
      simp only [copyInt]
      by_cases hrest : physAddr dst + 4 ≤ x ∧ x < physAddr dst + 4 + 4 * n
      · -- a later integer, whose source the first one did not touch
        have heq : physAddr src + 4 + (x - (physAddr dst + 4)) =
            physAddr src + (x - physAddr dst) := by
          omega
        have hall : physAddr dst ≤ x ∧ x < physAddr dst + 4 * (n + 1) := by omega
        rw [if_pos hrest, if_pos hall, heq]
        split
        case isTrue hfirst =>
          have hsame : physAddr dst = physAddr src := by omega
          rw [hsame]
          congr 1
          omega
        case isFalse => rfl
      · rw [if_neg hrest]
        by_cases hfirst : physAddr dst ≤ x ∧ x < physAddr dst + 4
        · rw [if_pos hfirst, if_pos (by omega)]
        · rw [if_neg hfirst, if_neg (by omega)]

/-! ### Frames -/

/-- The bytes of a frame. -/
def frame (mem : Hardware.Memory) (g : Nat) : Fin 4096 → Byte := fun i => mem (4096 * g + i.val)

/-- The word loop over one page copies its frame. -/
theorem frame_copyInts_one {mem : Hardware.Memory} {f p : Nat} (hf : f < 2 ^ 18) (hp : p < 2 ^ 18) :
    frame (copyInts 1024 mem (frameAddr (BitVec.ofNat 32 f)) (frameAddr (BitVec.ofNat 32 p))) =
      move (frame mem) (f, p) := by
  have hdst := physAddr_frameAddr (g := f) (by omega)
  have hsrc := physAddr_frameAddr (g := p) (by omega)
  funext g i
  have hi := i.isLt
  rw [frame, copyInts_apply _ (by omega) (by omega) (by omega), hdst, hsrc, move,
    Function.update_apply]
  by_cases hg : g = f
  · rw [if_pos hg, if_pos (by omega), frame]
    congr 1
    omega
  · rw [if_neg hg, if_neg (by omega), frame]

/-- **Moves.**  A copy of whole frames moves one frame after the other. -/
theorem frame_copyInts {n f p : Nat} {mem : Hardware.Memory} (hf : f + n < 2 ^ 18)
    (hp : p + n < 2 ^ 18) :
    frame (copyInts (1024 * n) mem (frameAddr (BitVec.ofNat 32 f))
      (frameAddr (BitVec.ofNat 32 p))) = BlockMoves.run (row n f p) (frame mem) := by
  induction n generalizing f p mem with
  | zero => rfl
  | succ n ih =>
      have hsplit : 1024 * (n + 1) = 1024 + 1024 * n := by omega
      rw [hsplit, copyInts_add, frameAddr_succ, frameAddr_succ, ih (by omega) (by omega),
        frame_copyInts_one (by omega) (by omega), row, run_cons]

/-- A page and the frame it goes to, as frame numbers. -/
def framePairs (pages : List (Word × PageTable.Entry)) (fs : List Nat) : List (Nat × Nat) :=
  List.zipWith (fun kv f => (f, kv.2.pfn.toNat)) pages fs

@[simp] theorem framePairs_cons (kv : Word × PageTable.Entry) (pages : List (Word × PageTable.Entry))
    (f : Nat) (fs : List Nat) :
    framePairs (kv :: pages) (f :: fs) = (f, kv.2.pfn.toNat) :: framePairs pages fs := rfl

/-- The frames of the pairs are those taken. -/
theorem map_fst_framePairs {pages : List (Word × PageTable.Entry)} {fs : List Nat}
    (hlen : fs.length = pages.length) : (framePairs pages fs).map Prod.fst = fs := by
  induction pages generalizing fs with
  | nil =>
      rw [List.length_nil, List.length_eq_zero_iff] at hlen
      rw [hlen]
      rfl
  | cons kv pages ih =>
      cases fs with
      | nil => cases hlen
      | cons f fs =>
          rw [framePairs_cons, List.map_cons, ih (by simpa using hlen)]

/-- **Moves.**  The copies of a fork, frame by frame. -/
theorem frame_copiedMemory {pages : List (Word × PageTable.Entry)} {fs : List Nat}
    {mem : Hardware.Memory} (hpages : ∀ kv ∈ pages, kv.2.pfn.toNat < numPages)
    (hfs : ∀ f ∈ fs, f < numPages) :
    frame (HashPageTable.copiedMemory pages fs mem) =
      BlockMoves.run (rows (framePairs pages fs)) (frame mem) := by
  induction pages generalizing fs mem with
  | nil => rfl
  | cons kv pages ih =>
      cases fs with
      | nil => rfl
      | cons f fs =>
          have hp := hpages kv List.mem_cons_self
          have hf := hfs f List.mem_cons_self
          unfold numPages at hp hf
          have hpfn : kv.2.pfn = BitVec.ofNat 32 kv.2.pfn.toNat := by simp
          have hone : frame (copyInts (1024 * 4) mem (frameAddr (BitVec.ofNat 32 f))
              (frameAddr (BitVec.ofNat 32 kv.2.pfn.toNat))) =
              BlockMoves.run (row 4 f kv.2.pfn.toNat) (frame mem) :=
            frame_copyInts (by omega) (by omega)
          rw [← hpfn] at hone
          rw [HashPageTable.copiedMemory, ih (fun kv' h => hpages kv' (List.mem_cons_of_mem _ h))
            fun g h => hfs g (List.mem_cons_of_mem _ h), hone, framePairs_cons, rows, rows,
            List.flatMap_cons, run_append]

namespace SharedResources

variable {k k' : SharedResources} {parent child : PCB} {t t' : HashPageTable}
  {pid newPID brk0 : Word} {ctx : Option RegisterContext}

/-! ### The contract -/

/-- A page without its frame. -/
def withoutFrame (kv : Word × PageTable.Entry) : Word × PageTable.Entry :=
  (kv.1, { kv.2 with pfn := 0 })

/-- What a fork should do for the page table `t` of the parent: the child's table
`t'` has the same pages and flags, on fresh frames of its own, none of them the parent's,
with the same bytes; and no other frame changes. -/
structure ForkContract (k : SharedResources) (t : HashPageTable) (k' : SharedResources)
    (t' : HashPageTable) : Prop where
  pages : (t'.entries.map withoutFrame).Perm (t.entries.map withoutFrame)
  distinct : t'.frames.Nodup
  fresh : ∀ f ∈ t'.frames, ¬ k.memory.Reserved f ∧ k.memory.kernelReservedBoundary ≤ f ∧
    f < numPages
  apart : ∀ f ∈ t.frames, f ∉ t'.frames
  copied : ∀ {vpn : Word} {e e' : PageTable.Entry}, (vpn, e) ∈ t.entries →
    (vpn, e') ∈ t'.entries → frame k'.physMem e'.pfn.toNat = frame k.physMem e.pfn.toNat
  others : ∀ g, g ∉ t'.frames → frame k'.physMem g = frame k.physMem g

/-- The frames that a fork of the table is going to take. -/
def forkFrames (k : SharedResources) (t : HashPageTable) : List Nat :=
  k.memory.available.take t.entries.length

/-- The condition of a fork, on the frame numbers and the bytes before it: no frame of the
parent is taken, and each page brings its own bytes to its new frame, and to the frames behind
that one, up to the next new frame, the bytes that they have. -/
structure CopiesHarmlessly (k : SharedResources) (t : HashPageTable) : Prop where
  apart : ∀ f ∈ t.frames, f ∉ k.forkFrames t
  harmless : ∀ done m rest, framePairs t.entries (k.forkFrames t) = done ++ m :: rest →
    Harmless (frame k.physMem) done m rest

/-- A forked table: entries, frames and bytes. -/
structure Forked (k : SharedResources) (t : HashPageTable) (k' : SharedResources)
    (t' : HashPageTable) : Prop where
  length : (k.forkFrames t).length = t.entries.length
  hands : Hands k.memory (k.forkFrames t) k'.memory
  entries : t'.entries.Perm
    (List.zipWith HashPageTable.copiedPage t.entries (k.forkFrames t))
  bytes : frame k'.physMem =
    BlockMoves.run (rows (framePairs t.entries (k.forkFrames t))) (frame k.physMem)

/-- The new process gets its slot, and nothing else of the kernel changes. -/
theorem install_here {p : PCB} (h : k.install p = .ok (newPID, k')) (hpid : p.PID = k.nextPID) :
    ∃ slot : Nat, k'.processes[slot]? = some (some p) ∧ k'.memory = k.memory ∧
      k'.physMem = k.physMem ∧ (k.processes.length < 2 ^ 32 → slot = newPID.toNat) := by
  rw [install] at h
  cases hlast : k.freePids.getLast? with
  | none =>
      rw [hlast] at h
      obtain ⟨rfl, rfl⟩ := Prod.mk.inj (Except.ok.inj h)
      refine ⟨k.processes.length, by simp, rfl, rfl, fun hlt => ?_⟩
      rw [hpid, nextPID, hlast, Option.getD_none, BitVec.toNat_ofNat, Nat.mod_eq_of_lt hlt]
  | some last =>
      rw [hlast] at h
      simp only at h
      split at h
      case h_1 => cases h
      case h_2 => cases h
      case h_3 hempty =>
        obtain ⟨rfl, rfl⟩ := Prod.mk.inj (Except.ok.inj h)
        refine ⟨last.toNat, List.getElem?_set_self (Slots.lt_of_getElem? hempty), rfl, rfl,
          fun _ => ?_⟩
        rw [hpid, nextPID, hlast, Option.getD_some]

/-- **Forking.**  The child's table, and the bytes. -/
theorem forkProcess_forked (hparent : k.processes[pid.toNat]? = some (some parent))
    (ht : parent.addrSpace.pageTable = some (.hash t)) (hwf : t.table.WF)
    (hframes : ∀ f ∈ t.frames, f < numPages)
    (h : k.forkProcess pid ctx brk0 = .ok (newPID, k')) :
    ∃ (slot : Nat) (child : PCB) (t' : HashPageTable),
      k'.processes[slot]? = some (some child) ∧ child.addrSpace.pageTable = some (.hash t') ∧
      Forked k t k' t' ∧ (k.processes.length < 2 ^ 32 → slot = newPID.toNat) := by
  rw [forkProcess, hparent] at h
  simp only [ht, Option.bind_some, PageTable.getIterator] at h
  obtain ⟨⟨table, memory, physMem⟩, htable, h⟩ := Except.bind_ok_iff.mp h
  obtain ⟨⟨addrSpace, asids⟩, hspace, h⟩ := Except.bind_ok_iff.mp h
  obtain ⟨fs, hlen, hhands, -, hperm, hmem⟩ :=
    HashPageTable.constructCopy_spec htable hwf.distinct
  obtain ⟨-, hpt, -⟩ := AddressSpace.construct_spec hspace
  obtain ⟨slot, hslot, hmemory, hphys, hnew⟩ := install_here h rfl
  obtain rfl : fs = k.forkFrames t := by
    rw [forkFrames, ← HashPageTable.entries] at *
    rw [← hlen]
    exact hhands.eq_take
  refine ⟨slot, _, table, hslot, hpt, ⟨hlen, ?_, hperm, ?_⟩, hnew⟩
  · rw [hmemory]
    exact hhands
  · rw [hphys]
    show frame physMem = _
    rw [hmem]
    refine frame_copiedMemory (fun kv hkv => hframes _ ?_) fun f hf => (hhands.fresh hf).2.2
    exact List.mem_map_of_mem (f := fun kv => kv.2.pfn.toNat) hkv

/-- The pages of the child, one by one. -/
theorem Forked.mem_entries (h : Forked k t k' t') {vpn : Word} {e' : PageTable.Entry} :
    (vpn, e') ∈ t'.entries ↔ ∃ (i : Nat) (e : PageTable.Entry) (f : Nat),
      t.entries[i]? = some (vpn, e) ∧ (k.forkFrames t)[i]? = some f ∧
        e' = { e with pfn := BitVec.ofNat 32 f } := by
  rw [h.entries.mem_iff, List.mem_iff_getElem?]
  simp only [List.getElem?_zipWith_eq_some]
  constructor
  · rintro ⟨i, ⟨vpn', e⟩, f, hkv, hf, heq⟩
    obtain ⟨rfl, rfl⟩ := Prod.mk.inj heq
    exact ⟨i, e, f, hkv, hf, rfl⟩
  · rintro ⟨i, e, f, hkv, hf, rfl⟩
    exact ⟨i, (vpn, e), f, hkv, hf, rfl⟩

/-- The child's frames are those that the fork takes. -/
theorem Forked.frames (h : Forked k t k' t') : t'.frames.Perm (k.forkFrames t) := by
  have hp := h.entries.map fun kv => kv.2.pfn.toNat
  rwa [HashPageTable.frames_copiedPages h.length fun f hf => (h.hands.fresh hf).2.2] at hp

/-- The child has the pages and the flags of the parent. -/
theorem Forked.pages (h : Forked k t k' t') :
    (t'.entries.map withoutFrame).Perm (t.entries.map withoutFrame) := by
  have hmap : ∀ (pages : List (Word × PageTable.Entry)) (fs : List Nat),
      fs.length = pages.length →
        (List.zipWith HashPageTable.copiedPage pages fs).map withoutFrame =
          pages.map withoutFrame := by
    intro pages
    induction pages with
    | nil => intro fs _; rfl
    | cons kv pages ih =>
        intro fs hlen
        cases fs with
        | nil => cases hlen
        | cons f fs =>
            rw [List.zipWith_cons_cons, List.map_cons, List.map_cons, ih fs (by simpa using hlen)]
            rfl
  have hp := h.entries.map withoutFrame
  rwa [hmap _ _ h.length] at hp

/-- The bytes of the child's frames, as a simultaneous copy. -/
theorem Forked.copied_iff (h : Forked k t k' t') (hwf : t.table.WF) :
    ((∀ {vpn : Word} {e e' : PageTable.Entry}, (vpn, e) ∈ t.entries → (vpn, e') ∈ t'.entries →
        frame k'.physMem e'.pfn.toNat = frame k.physMem e.pfn.toNat) ∧
      ∀ g, g ∉ t'.frames → frame k'.physMem g = frame k.physMem g) ↔
      ∀ g, frame k'.physMem g =
        frame k.physMem (target (framePairs t.entries (k.forkFrames t)) g) := by
  have hfst := map_fst_framePairs h.length
  have hnodup : ((framePairs t.entries (k.forkFrames t)).map Prod.fst).Nodup := by
    rw [hfst]
    exact h.hands.nodup
  rw [← BlockMoves.copied_iff hnodup, hfst]
  refine and_congr ?_ (forall_congr' fun g => by rw [h.frames.mem_iff])
  constructor
  · intro hcopied m hm
    obtain ⟨i, hi⟩ := List.mem_iff_getElem?.mp hm
    rw [framePairs, List.getElem?_zipWith_eq_some] at hi
    obtain ⟨⟨vpn, e⟩, f, hkv, hf, rfl⟩ := hi
    have hlt := (h.hands.fresh (List.mem_of_getElem? hf)).2.2
    have := hcopied (List.mem_of_getElem? hkv) (h.mem_entries.mpr ⟨i, e, f, hkv, hf, rfl⟩)
    rwa [frame_toNat hlt] at this
  · intro hall vpn e e' he he'
    obtain ⟨i, e1, f, hkv, hf, rfl⟩ := h.mem_entries.mp he'
    obtain rfl : e1 = e := hwf.unique (List.mem_of_getElem? hkv) he
    have hlt := (h.hands.fresh (List.mem_of_getElem? hf)).2.2
    rw [frame_toNat hlt]
    refine hall (f, e1.pfn.toNat) (List.mem_of_getElem? (i := i) ?_)
    rw [framePairs, List.getElem?_zipWith_eq_some]
    exact ⟨(vpn, e1), f, hkv, hf, rfl⟩

/-- The new frames ascend, and no copy comes from one of them. -/
theorem Forked.ascending (h : Forked k t k' t') (hapart : ∀ f ∈ t.frames, f ∉ k.forkFrames t) :
    Ascending (framePairs t.entries (k.forkFrames t)) := by
  have hfst := map_fst_framePairs h.length
  refine ⟨?_, fun m hm hmem => ?_⟩
  · rw [hfst]
    exact (pairwise_available k.memory).sublist (List.take_sublist ..)
  · rw [hfst] at hmem
    obtain ⟨i, hi⟩ := List.mem_iff_getElem?.mp hm
    rw [framePairs, List.getElem?_zipWith_eq_some] at hi
    obtain ⟨kv, f, hkv, -, rfl⟩ := hi
    have hparent : kv.2.pfn.toNat ∈ t.frames :=
      List.mem_map_of_mem (f := fun kv => kv.2.pfn.toNat) (List.mem_of_getElem? hkv)
    exact hapart _ hparent hmem

/-- A fork does what it should exactly when its copies do no harm. -/
theorem Forked.contract_iff (h : Forked k t k' t') (hwf : t.table.WF) :
    ForkContract k t k' t' ↔ k.CopiesHarmlessly t := by
  have hbytes (hapart : ∀ f ∈ t.frames, f ∉ k.forkFrames t) : (∀ g, frame k'.physMem g =
      frame k.physMem (target (framePairs t.entries (k.forkFrames t)) g)) ↔
      ∀ done m rest, framePairs t.entries (k.forkFrames t) = done ++ m :: rest →
        Harmless (frame k.physMem) done m rest := by
    rw [h.bytes]
    exact rows_right_iff (h.ascending hapart)
  have hright := h.copied_iff hwf
  constructor
  · intro hc
    have hapart : ∀ f ∈ t.frames, f ∉ k.forkFrames t :=
      fun f hf hmem => hc.apart f hf (h.frames.mem_iff.mpr hmem)
    exact ⟨hapart, (hbytes hapart).mp (hright.mp ⟨hc.copied, hc.others⟩)⟩
  · intro hcopies
    obtain ⟨hcopied, hothers⟩ := hright.mpr ((hbytes hcopies.apart).mpr hcopies.harmless)
    refine ⟨h.pages, h.frames.nodup_iff.mpr h.hands.nodup, fun f hf => ?_, fun f hf hmem => ?_,
      hcopied, hothers⟩
    · exact h.hands.fresh (h.frames.mem_iff.mp hf)
    · exact hcopies.apart f hf (h.frames.mem_iff.mp hmem)

/-- **Forking.**  A fork of any process, in any state of the memory and of the
frames, does what it should exactly when its copies do no harm. -/
theorem fork_contract_iff (hparent : k.processes[pid.toNat]? = some (some parent))
    (ht : parent.addrSpace.pageTable = some (.hash t)) (hwf : t.table.WF)
    (hframes : ∀ f ∈ t.frames, f < numPages)
    (h : k.forkProcess pid ctx brk0 = .ok (newPID, k')) :
    ∃ (slot : Nat) (child : PCB) (t' : HashPageTable),
      k'.processes[slot]? = some (some child) ∧ child.addrSpace.pageTable = some (.hash t') ∧
      (ForkContract k t k' t' ↔ k.CopiesHarmlessly t) ∧
      (k.processes.length < 2 ^ 32 → slot = newPID.toNat) := by
  obtain ⟨slot, child, t', hslot, ht', hforked, hnew⟩ :=
    forkProcess_forked hparent ht hwf hframes h
  exact ⟨slot, child, t', hslot, ht', hforked.contract_iff hwf, hnew⟩

/-- No fork takes a frame of a parent whose frames are reserved: what is left of the condition
is about bytes. -/
theorem copiesHarmlessly_iff (hreserved : ∀ f ∈ t.frames, k.memory.Reserved f) :
    k.CopiesHarmlessly t ↔
      ∀ done m rest, framePairs t.entries (k.forkFrames t) = done ++ m :: rest →
        Harmless (frame k.physMem) done m rest := by
  refine ⟨fun h => h.harmless, fun h => ⟨fun f hf hmem => ?_, h⟩⟩
  obtain ⟨-, -, hfree⟩ := mem_available.mp (List.mem_of_mem_take hmem)
  exact hfree (hreserved f hf)

/-- The frames of a live process exist and are reserved. -/
theorem Invariant.table {slot : Nat} (h : k.Invariant)
    (hp : k.processes[slot]? = some (some parent)) :
    ∃ t, parent.addrSpace.pageTable = some (.hash t) ∧ t.table.WF ∧
      ∀ f ∈ t.frames, f < numPages ∧ k.memory.Reserved f := by
  obtain ⟨t, ht, husable⟩ := h.sane.tables parent (mem_live hp)
  refine ⟨t, ht, husable.wf, fun f hf => ?_⟩
  have hmem : f ∈ parent.frames := by rwa [PCB.frames_hash ht]
  exact ⟨h.sane.frames_lt (mem_live hp) f hmem,
    h.sane.frames.taken f (List.mem_append_right _ (List.mem_flatMap.mpr ⟨_, mem_live hp, hmem⟩))⟩

/-- Forking a process that was just created. -/
theorem first_fork_contract :
    ∃ k parent t newPID k' slot child t', bootedRun (fun _ _ => True)
        [.createProcess zeroFiles [] 0] = some k ∧ k.processes[0]? = some (some parent) ∧
      k.forkProcess 0 none 0 = .ok (newPID, k') ∧ k'.processes[slot]? = some (some child) ∧
      child.addrSpace.pageTable = some (.hash t') ∧
      (ForkContract k t k' t' ↔ k.CopiesHarmlessly t) ∧
      (k.processes.length < 2 ^ 32 → slot = newPID.toNat) := by
  have hruns : (bootedRun (fun _ _ => True) [.createProcess zeroFiles [] 0]).any (fun k =>
      (k.processes[0]?.join).isSome && (k.forkProcess 0 none 0).toOption.isSome) = true := by
    decide +kernel
  obtain ⟨k, hk, hboth⟩ := (Option.any_eq_true _ _).mp hruns
  obtain ⟨hparent, hfork⟩ := (Bool.and_eq_true _ _).mp hboth
  obtain ⟨parent, hjoin⟩ := Option.isSome_iff_exists.mp hparent
  have hp : k.processes[(0 : Word).toNat]? = some (some parent) := Option.join_eq_some_iff.mp hjoin
  obtain ⟨⟨newPID, k'⟩, hk'⟩ := Option.isSome_iff_exists.mp hfork
  obtain ⟨k0, hboot, hrun⟩ := reaches_of_bootedRun hk
  obtain ⟨t, ht, hwf, hframes⟩ := (invariant_of_reaches hboot hrun).table hp
  obtain ⟨slot, child, t', hchild⟩ :=
    fork_contract_iff hp ht hwf (fun f hf => (hframes f hf).1) (toOption_eq_some hk')
  exact ⟨k, parent, t, newPID, k', slot, child, t', hk, hp, toOption_eq_some hk', hchild⟩

/-- A created process in a memory in which every frame is filled with its number. -/
def numberedFrames (k : SharedResources) : SharedResources :=
  { k with physMem := fun x => BitVec.ofNat 8 (x / 4096) }

/-- The last copy brings the frame `g`, and other bytes than those three frames behind its own. -/
def draggedBehind (k : SharedResources) (t : HashPageTable) : Bool :=
  let pairs := framePairs t.entries (k.forkFrames t)
  match pairs.getLast? with
  | some last => decide ((numberedFrames k).physMem (4096 * brought pairs.dropLast last 3) ≠
      (numberedFrames k).physMem (4096 * (last.1 + 3)))
  | none => false

/-- A fork of the first process overwrites the frames behind the last one of the child. -/
def losesFrame (k : SharedResources) : Bool :=
  match k.processes[0]? with
  | some (some p) =>
      match p.addrSpace.pageTable with
      | some (.hash t) => decide (k.processes.length < 2 ^ 32) && k.draggedBehind t
      | _ => false
  | _ => false

/-- Such a fork does harm. -/
theorem not_harmless_of_dragged {t : HashPageTable} (h : k.draggedBehind t = true) :
    ¬ (numberedFrames k).CopiesHarmlessly t := by
  intro hharmless
  rw [draggedBehind] at h
  cases hlast : (framePairs t.entries (k.forkFrames t)).getLast? with
  | none =>
      rw [hlast] at h
      cases h
  | some last =>
      rw [hlast] at h
      have hne := of_decide_eq_true h
      have hsplit := (List.dropLast_append_getLast? last hlast).symm
      have hlast' := (hharmless.harmless _ last [] hsplit).2 3 (by decide) (by decide) fun m hm => by cases hm
      exact hne (congrFun hlast' 0)

/-- The three frames behind the last frame of the child are overwritten. -/
theorem fork_may_overwrite :
    ¬ ∀ k k' parent t pid newPID ctx brk0, k.processes[pid.toNat]? = some (some parent) →
      parent.addrSpace.pageTable = some (.hash t) → t.table.WF →
      (∀ f ∈ t.frames, f < numPages ∧ k.memory.Reserved f) →
      k.forkProcess pid ctx brk0 = .ok (newPID, k') →
      ∃ child t', k'.processes[newPID.toNat]? = some (some child) ∧
        child.addrSpace.pageTable = some (.hash t') ∧ ForkContract k t k' t' := by
  intro hall
  have hruns : (bootedRun (fun _ _ => True) [.createProcess zeroFiles [] 0]).any (fun k =>
      ((numberedFrames k).forkProcess 0 none 0).toOption.isSome && k.losesFrame) = true := by
    decide +kernel
  obtain ⟨k, hk, hboth⟩ := (Option.any_eq_true _ _).mp hruns
  obtain ⟨hfork, htable⟩ := (Bool.and_eq_true _ _).mp hboth
  unfold losesFrame at htable
  obtain ⟨⟨newPID, k'⟩, hk'⟩ := Option.isSome_iff_exists.mp hfork
  have hstep := toOption_eq_some hk'
  obtain ⟨k0, hboot, hrun⟩ := reaches_of_bootedRun hk
  cases hp : k.processes[0]? with
  | none => rw [hp] at htable; cases htable
  | some o =>
      cases o with
      | none => rw [hp] at htable; cases htable
      | some parent =>
          obtain ⟨t, ht, hwf, hframes⟩ := (invariant_of_reaches hboot hrun).table hp
          rw [hp] at htable
          simp only [ht, Bool.and_eq_true, decide_eq_true_eq] at htable
          obtain ⟨hlen, hdragged⟩ := htable
          have hparent : (numberedFrames k).processes[(0 : Word).toNat]? = some (some parent) := hp
          obtain ⟨child, t', hchild, ht', hcontract⟩ :=
            hall _ _ _ _ _ _ _ _ hparent ht hwf hframes hstep
          obtain ⟨slot, child2, t2, hchild2, ht2, hiff, hslot⟩ :=
            fork_contract_iff hparent ht hwf (fun f hf => (hframes f hf).1) hstep
          obtain rfl : slot = newPID.toNat := hslot hlen
          obtain rfl : child2 = child :=
            Option.some.inj (Option.some.inj (hchild2.symm.trans hchild))
          obtain rfl : t2 = t' := by
            rw [ht2] at ht'
            cases ht'
            rfl
          exact not_harmless_of_dragged hdragged (hiff.mp hcontract)

end SharedResources

end Kernel
