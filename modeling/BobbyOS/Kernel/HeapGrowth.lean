import BobbyOS.Kernel.FrameOwnership

/-!
# What `updateBrk` promises

When `updateBrk` accepts an address, the heap pages up to that address should be
mapped, present and writable, each to a frame of its own.  It only maps the
pages from `brk` on and trusts `brk` for those below.  But `brk` is not set when
an address space is made, and it stays when `exec` replaces the page table.

* In every reachable state the promise is kept exactly when the pages below
  `brk` that it covers are mapped.
* A new process may start with a `brk` that promises pages nobody mapped.
-/

namespace Kernel

open MemoryManager AddressSpace Run

/-! ### Lookups -/

namespace HashPageTable

variable {t : HashPageTable} {vaddr : Word}

/-- `walkTable` finds the entry of the page of an address. -/
theorem walkTable_eq_some (hwf : t.table.WF) {e : PageTable.Entry} :
    t.walkTable vaddr = .ok (some e) ↔ (vaddr >>> 12, e) ∈ t.entries := by
  obtain ⟨o, hfind, ho⟩ := hwf.find (vaddr >>> 12)
  rw [walkTable, hfind]
  constructor
  · intro h
    exact (ho e).mp (Except.ok.inj h)
  · intro h
    rw [(ho e).mpr h]

/-- The page of an address is mapped, present and writable, to a frame that no
other page has. -/
def Ready (t : HashPageTable) (vaddr : Word) : Prop :=
  ∃ e, t.walkTable vaddr = .ok (some e) ∧ e.present = true ∧ e.writable = true ∧
    ∀ kv ∈ t.entries, kv.2.pfn = e.pfn → kv.1 = vaddr >>> 12

/-- Above the text, mapped pages are ready when no frame is named twice. -/
theorem ready_iff (h : t.Usable) (hframes : t.frames.Nodup)
    (hlow : STATIC_START_VPN ≤ vaddr >>> 12) : t.Ready vaddr ↔ vaddr >>> 12 ∈ t.vpns := by
  constructor
  · rintro ⟨e, hwalk, -⟩
    exact List.mem_map_of_mem (f := Prod.fst) ((walkTable_eq_some h.wf).mp hwalk)
  · intro hmem
    obtain ⟨⟨vpn, e⟩, hkv, rfl⟩ := List.mem_map.mp hmem
    obtain ⟨hpresent, -, hwritable⟩ := h.regular _ hkv
    refine ⟨e, (walkTable_eq_some h.wf).mpr hkv, hpresent, hwritable hlow, fun kv' hkv' heq => ?_⟩
    have hsame := List.inj_on_of_nodup_map hframes hkv' hkv (congrArg BitVec.toNat heq)
    rw [hsame]

end HashPageTable

/-! ### The promise -/

namespace AddressSpace

/-- The heap page of an address. -/
def heapPage (vaddr : Word) : Nat := ((vaddr - BRK_DEFAULT) >>> 12).toNat

/-- The page of an address of the heap. -/
theorem heapVpn_heapPage {vaddr : Word} (h : BRK_DEFAULT ≤ vaddr) :
    heapVpn (heapPage vaddr) = vaddr >>> 12 := by
  have hbrk : BRK_DEFAULT.toNat = 0x10008000 := rfl
  rw [BitVec.le_def, hbrk] at h
  have hlt := vaddr.isLt
  have hpage : heapPage vaddr = (vaddr.toNat - 0x10008000) / 4096 := by
    rw [heapPage, BitVec.toNat_ushiftRight, BitVec.toNat_sub, hbrk, Nat.shiftRight_eq_div_pow]
    omega
  apply BitVec.eq_of_toNat_eq
  rw [HashPageTable.heapVpn_toNat (by omega), hpage, BitVec.toNat_ushiftRight,
    Nat.shiftRight_eq_div_pow]
  omega

/-- Pages below the break are below its boundary. -/
theorem heapPage_lt {vaddr a : Word} (h : InHeap vaddr) (hlow : BRK_DEFAULT ≤ a)
    (hle : a ≤ vaddr) : heapPage a < (pageBoundary vaddr).toNat := by
  have hbrk : BRK_DEFAULT.toNat = 0x10008000 := rfl
  rw [(pageBoundary_toNat h).1, heapPage, BitVec.toNat_ushiftRight, BitVec.toNat_sub, hbrk,
    Nat.shiftRight_eq_div_pow]
  rw [BitVec.le_def, hbrk] at hlow
  rw [BitVec.le_def] at hle
  have := vaddr.isLt
  omega

end AddressSpace

/-- `updateBrk(vaddr)` makes every page up to that of `vaddr` ready, or it
refuses and leaves the table as it was. -/
def BrkPromise (t t' : HashPageTable) (vaddr : Word) (valid : Bool) : Prop :=
  (valid = true → ∀ a, BRK_DEFAULT ≤ a → a ≤ vaddr → t'.Ready a) ∧ (valid = false → t' = t)

/-- The pages that `updateBrk(vaddr)` takes for mapped are mapped. -/
def BrkCovered (s : AddressSpace) (t : HashPageTable) (vaddr : Word) : Prop :=
  InHeap vaddr → ∀ a, BRK_DEFAULT ≤ a → a ≤ vaddr → heapPage a < s.brk.toNat → a >>> 12 ∈ t.vpns

namespace SharedResources

variable {k k' k0 : SharedResources} {p q : PCB} {t t' : HashPageTable} {vaddr imageEnd brk0 : Word}
  {fs : List Nat} {slot : Nat} {valid : Bool} {physMem : Hardware.Memory}

/-- The heap pages that are mapped afterwards. -/
theorem Grown.mem_vpns (h : Grown p t vaddr fs q t') {i : Nat} (hi : i < 256) :
    heapVpn i ∈ t'.vpns ↔ heapVpn i ∈ t.vpns ∨
      p.addrSpace.brk.toNat ≤ i ∧ i < p.addrSpace.brk.toNat + p.addrSpace.growth vaddr := by
  rw [HashPageTable.vpns, (h.entries.map Prod.fst).mem_iff, List.map_append, List.mem_append,
    or_comm]
  refine or_congr_right' fun hold => ?_
  constructor
  · intro hmem
    obtain ⟨kv, hkv, hkey⟩ := List.mem_map.mp hmem
    obtain ⟨j, hlow, hhigh, hkey', -⟩ :=
      HashPageTable.vpn_of_mem_pagesAt (List.mem_of_mem_filter hkv)
    rw [h.length] at hhigh
    have hbound := growth_le p.addrSpace vaddr (by omega)
    have hij := congrArg BitVec.toNat (hkey'.symm.trans hkey)
    rw [HashPageTable.heapVpn_toNat (by omega), HashPageTable.heapVpn_toNat (by omega)] at hij
    omega
  · rintro ⟨hlow, hhigh⟩
    have hlt : i - p.addrSpace.brk.toNat < fs.length := by rw [h.length]; omega
    have hin : (heapVpn (p.addrSpace.brk.toNat + (i - p.addrSpace.brk.toNat)),
        heapEntry (BitVec.ofNat 32 fs[i - p.addrSpace.brk.toNat])) ∈
        HashPageTable.pagesAt heapVpn heapEntry p.addrSpace.brk.toNat fs :=
      HashPageTable.mem_pagesAt.mpr ⟨_, _, List.getElem?_eq_getElem hlt, rfl⟩
    rw [Nat.add_sub_cancel' hlow] at hin
    exact List.mem_map.mpr ⟨_, List.mem_filter.mpr ⟨hin, decide_eq_true hold⟩, rfl⟩

/-- A growth keeps the promise exactly when the pages it skips are mapped. -/
theorem Grown.promise_iff (h : Grown p t vaddr fs q t') (husable : t'.Usable)
    (hframes : t'.frames.Nodup) :
    BrkPromise t t' vaddr (decide (InHeap vaddr)) ↔ BrkCovered p.addrSpace t vaddr := by
  by_cases hin : InHeap vaddr
  · have hpages : ∀ a, BRK_DEFAULT ≤ a → a ≤ vaddr →
        (t'.Ready a ↔ (heapPage a < p.addrSpace.brk.toNat → a >>> 12 ∈ t.vpns)) := by
      intro a hlow hle
      have hpage := heapPage_lt hin hlow hle
      have hbound := (pageBoundary_toNat hin).2
      have hstart : STATIC_START_VPN ≤ a >>> 12 := by
        rw [← heapVpn_heapPage hlow, BitVec.le_def, HashPageTable.heapVpn_toNat (by omega)]
        have : STATIC_START_VPN.toNat = 0x10000 := rfl
        omega
      rw [HashPageTable.ready_iff husable hframes hstart, ← heapVpn_heapPage hlow,
        h.mem_vpns (by omega), growth, if_pos hin]
      by_cases hmem : heapVpn (heapPage a) ∈ t.vpns
      · simp [hmem]
      · simp only [hmem, false_or, imp_false, Nat.not_lt]
        omega
    rw [BrkPromise, BrkCovered, decide_eq_true hin]
    simp only [true_imp_iff, reduceCtorEq, false_imp_iff, and_true]
    exact ⟨fun hr _ a hlow hle => (hpages a hlow hle).mp (hr a hlow hle),
      fun hc a hlow hle => (hpages a hlow hle).mpr (hc hin a hlow hle)⟩
  · rw [BrkPromise, decide_eq_false hin]
    exact iff_of_true ⟨fun hc => absurd hc (by decide), fun _ => h.refused hin⟩
      fun hc => absurd hc hin

/-- The table of a live process is usable and names no frame twice. -/
theorem Sane.table (h : k.Sane) (hq : k.processes[slot]? = some (some q))
    (ht : q.addrSpace.pageTable = some (.hash t)) : t.Usable ∧ t.frames.Nodup := by
  have hlive := mem_live hq
  obtain ⟨t1, ht1, husable⟩ := h.tables q hlive
  obtain rfl : t1 = t := by
    rw [ht] at ht1
    cases ht1
    rfl
  have hnodup := (List.nodup_append.mp h.frames.nodup).2.1
  have hframes := (List.nodup_flatMap.mp hnodup).1 q hlive
  rw [PCB.frames_hash ht] at hframes
  exact ⟨husable, hframes⟩

/-- **The promise.**  In every reachable state, `updateBrk` keeps its promise to
a process exactly when the pages below the process's `brk` are mapped, as far as
they are asked for. -/
theorem updateBrk_promise_iff (hboot : construct imageEnd brk0 physMem = .ok k0)
    (hrun : Reaches Step (fun _ _ => True) k0 k)
    (h : k.updateBrk slot vaddr = .ok (valid, k')) :
    ∃ p t q t', k.processes[slot]? = some (some p) ∧ p.addrSpace.pageTable = some (.hash t) ∧
      k'.processes[slot]? = some (some q) ∧ q.addrSpace.pageTable = some (.hash t') ∧
      (BrkPromise t t' vaddr valid ↔ BrkCovered p.addrSpace t vaddr) := by
  obtain ⟨hsane, hslotted⟩ := invariant_of_reaches hboot hrun
  obtain ⟨p, q, t, t', fs, rfl, hgrown, hreplaced⟩ := updateBrk_spec h hsane hslotted
  refine ⟨p, t, q, t', hreplaced.before, hgrown.before, hreplaced.after, hgrown.after, ?_⟩
  obtain ⟨husable, hframes⟩ := (hsane.change hreplaced.change).table hreplaced.after hgrown.after
  exact hgrown.promise_iff husable hframes

/-- The promise to a process that has one heap page and asks for another. -/
theorem second_page_promise :
    ∃ k k', bootedRun (fun _ _ => True) [.createProcess zeroFiles [] 0, .updateBrk 0 0x10008000] =
        some k ∧ k.updateBrk 0 0x10009000 = .ok (true, k') ∧
      ∃ p t q t', k.processes[0]? = some (some p) ∧ p.addrSpace.pageTable = some (.hash t) ∧
        k'.processes[0]? = some (some q) ∧ q.addrSpace.pageTable = some (.hash t') ∧
        (BrkPromise t t' 0x10009000 true ↔ BrkCovered p.addrSpace t 0x10009000) := by
  have hruns : (bootedRun (fun _ _ => True)
      [.createProcess zeroFiles [] 0, .updateBrk 0 0x10008000]).any
      (fun k => (k.updateBrk 0 0x10009000).toOption.any Prod.fst) = true := by
    decide +kernel
  obtain ⟨k, hk, hbrk⟩ := (Option.any_eq_true _ _).mp hruns
  obtain ⟨⟨valid, k'⟩, hk', rfl⟩ := (Option.any_eq_true _ _).mp hbrk
  obtain ⟨k0, hboot, hrun⟩ := reaches_of_bootedRun hk
  have hstep := toOption_eq_some hk'
  exact ⟨k, k', hk, hstep, updateBrk_promise_iff hboot hrun hstep⟩

/-- The first process has a `brk` of five pages and not the first heap page. -/
def startsUnmapped (k : SharedResources) : Bool :=
  match k.processes[0]? with
  | some (some p) =>
      match p.addrSpace.pageTable with
      | some (.hash t) => decide (p.addrSpace.brk = 5 ∧ 0x10008 ∉ t.vpns)
      | _ => false
  | _ => false

/-- A process starts with a `brk` of five pages and no heap page at all: the
first page is promised and not mapped. -/
theorem brk_may_promise_unmapped :
    ¬ ∀ imageEnd brk0 physMem k0 k slot vaddr valid k' p t q t',
      construct imageEnd brk0 physMem = .ok k0 → Reaches Step (fun _ _ => True) k0 k →
      k.updateBrk slot vaddr = .ok (valid, k') → k.processes[slot]? = some (some p) →
      p.addrSpace.pageTable = some (.hash t) → k'.processes[slot]? = some (some q) →
      q.addrSpace.pageTable = some (.hash t') → BrkPromise t t' vaddr valid := by
  intro hall
  have hruns : (bootedRun (fun _ _ => True) [.createProcess zeroFiles [] 5]).any (fun k =>
      (k.updateBrk 0 0x10008000).toOption.any Prod.fst && k.startsUnmapped) = true := by
    decide +kernel
  obtain ⟨k, hk, hboth⟩ := (Option.any_eq_true _ _).mp hruns
  obtain ⟨hbrk, htable⟩ := (Bool.and_eq_true _ _).mp hboth
  unfold startsUnmapped at htable
  obtain ⟨⟨valid, k'⟩, hk', rfl⟩ := (Option.any_eq_true _ _).mp hbrk
  obtain ⟨k0, hboot, hrun⟩ := reaches_of_bootedRun hk
  have hstep := toOption_eq_some hk'
  obtain ⟨hsane, hslotted⟩ := invariant_of_reaches hboot hrun
  obtain ⟨p, q, t, t', fs, -, hgrown, hreplaced⟩ := updateBrk_spec hstep hsane hslotted
  have hpromise := hall _ _ _ _ _ _ _ _ _ _ _ _ _ hboot hrun hstep hreplaced.before
    hgrown.before hreplaced.after hgrown.after
  rw [hreplaced.before] at htable
  simp only [hgrown.before, decide_eq_true_eq] at htable
  obtain ⟨hfive, hout⟩ := htable
  obtain ⟨husable, hframes⟩ := (hsane.change hreplaced.change).table hreplaced.after hgrown.after
  have hcovered := (hgrown.promise_iff husable hframes).mp hpromise
  refine hout (hcovered (by decide) 0x10008000 (by decide) (by decide) ?_)
  rw [hfive]
  decide

end SharedResources

end Kernel
