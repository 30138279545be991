import BobbyOS.Kernel.PageTables

/-!
# What the page loops insert

Every loop over pages reserves a frame, makes an entry for it and inserts the
entry at the next virtual page.  `pagesAt` lists the entries a loop makes for
the frames it is handed.  A table accepts exactly those whose page it does not
map yet.
-/

namespace Kernel

open MemoryManager

namespace HashPageTable

variable {t t' : HashPageTable} {m m' : MemoryManager} {vpn : Nat → Word}
  {entry : Word → PageTable.Entry} {left i : Nat} {fs : List Nat}

/-- The pages with their entries. -/
def entries (t : HashPageTable) : List (Word × PageTable.Entry) := t.table.entries

/-- The mapped pages. -/
def vpns (t : HashPageTable) : List Word := t.entries.map Prod.fst

/-- The frames that the entries name. -/
def frames (t : HashPageTable) : List Nat := t.entries.map fun kv => kv.2.pfn.toNat

/-- The entries for the frames `fs` at the pages `vpn i`, `vpn (i + 1)`, … -/
def pagesAt (vpn : Nat → Word) (entry : Word → PageTable.Entry) :
    Nat → List Nat → List (Word × PageTable.Entry)
  | _, [] => []
  | i, f :: fs => (vpn i, entry (BitVec.ofNat 32 f)) :: pagesAt vpn entry (i + 1) fs

/-- A page of a range has its frame. -/
theorem mem_pagesAt {kv : Word × PageTable.Entry} :
    kv ∈ pagesAt vpn entry i fs ↔
      ∃ j f, fs[j]? = some f ∧ kv = (vpn (i + j), entry (BitVec.ofNat 32 f)) := by
  induction fs generalizing i with
  | nil => simp [pagesAt]
  | cons f fs ih =>
      rw [pagesAt, List.mem_cons, ih]
      constructor
      · rintro (rfl | ⟨j, g, hg, rfl⟩)
        · exact ⟨0, f, rfl, rfl⟩
        · exact ⟨j + 1, g, by simpa using hg, by rw [Nat.add_right_comm, Nat.add_assoc]⟩
      · rintro ⟨j, g, hg, rfl⟩
        cases j with
        | zero =>
            obtain rfl : f = g := by simpa using hg
            exact Or.inl rfl
        | succ j =>
            refine Or.inr ⟨j, g, by simpa using hg, ?_⟩
            rw [Nat.add_right_comm, Nat.add_assoc]

/-- The pages of a loop, with their number. -/
theorem vpn_of_mem_pagesAt {kv : Word × PageTable.Entry} (h : kv ∈ pagesAt vpn entry i fs) :
    ∃ j, i ≤ j ∧ j < i + fs.length ∧ kv.1 = vpn j ∧
      ∃ f ∈ fs, kv.2 = entry (BitVec.ofNat 32 f) := by
  obtain ⟨j, f, hf, rfl⟩ := mem_pagesAt.mp h
  have hj : j < fs.length := (List.getElem?_eq_some_iff.mp hf).1
  exact ⟨i + j, by omega, by omega, rfl, f, List.mem_of_getElem? hf, rfl⟩

/-- The frames of the entries are the frames of the loop. -/
theorem frames_pagesAt (hentry : ∀ p, (entry p).pfn = p) (hfs : ∀ f ∈ fs, f < numPages) :
    (pagesAt vpn entry i fs).map (fun kv => kv.2.pfn.toNat) = fs := by
  induction fs generalizing i with
  | nil => rfl
  | cons f fs ih =>
      rw [pagesAt, List.map_cons, ih fun g hg => hfs g (List.mem_cons_of_mem _ hg), hentry,
        frame_toNat (hfs f List.mem_cons_self)]

/-- **The insertion loop.**  The frames go to the pages that were not mapped. -/
theorem emplacePages_spec (h : emplacePages vpn entry left i t m = .ok (t', m'))
    (hwf : t.table.WF)
    (hinj : ∀ j k, i ≤ j → j < k → k < i + left → vpn j ≠ vpn k) :
    ∃ fs, fs.length = left ∧ Hands m fs m' ∧ t'.table.WF ∧
      t'.entries.Perm ((pagesAt vpn entry i fs).filter (fun kv => kv.1 ∉ t.vpns) ++ t.entries) := by
  induction left generalizing i t m with
  | zero =>
      obtain ⟨rfl, rfl⟩ := Prod.mk.inj (Except.ok.inj h)
      exact ⟨[], rfl, rfl, hwf, List.Perm.refl _⟩
  | succ left ih =>
      rw [emplacePages] at h
      obtain ⟨⟨frame, m1⟩, hframe, h⟩ := Except.bind_ok_iff.mp h
      obtain ⟨f, hgives, hshift⟩ := reserveFrame_spec hframe
      obtain ⟨table, hemplace, hwf1, hperm⟩ := hwf.emplace (vpn i) (entry (frame >>> 12))
      simp only [hemplace, Except.ok_bind] at h
      obtain ⟨fs, hlen, hhands, hwf', hperm'⟩ :=
        ih h hwf1 fun j k hj hjk hk => hinj j k (by omega) hjk (by omega)
      refine ⟨f :: fs, by rw [List.length_cons, hlen], ⟨m1, hgives, hhands⟩, hwf', ?_⟩
      -- later pages are not the one just inserted
      have hmem : ∀ kv ∈ pagesAt vpn entry (i + 1) fs,
          kv.1 ∈ vpns ⟨table⟩ ↔ kv.1 ∈ t.vpns := by
        intro kv hkv
        obtain ⟨j, hj, hjlt, hkey, -⟩ := vpn_of_mem_pagesAt hkv
        have hne : kv.1 ≠ vpn i := by
          rw [hkey]
          exact (hinj i j (Nat.le_refl _) (by omega) (by omega)).symm
        rw [vpns, entries, (hperm.map Prod.fst).mem_iff]
        split
        · rw [List.map_cons, List.mem_cons, or_iff_right hne]
          rfl
        · rfl
      have hfilter : (pagesAt vpn entry (i + 1) fs).filter (fun kv => kv.1 ∉ vpns ⟨table⟩) =
          (pagesAt vpn entry (i + 1) fs).filter (fun kv => kv.1 ∉ t.vpns) :=
        List.filter_congr fun kv hkv => by simp only [hmem kv hkv]
      rw [hfilter] at hperm'
      refine hperm'.trans ((hperm.append_left _).trans ?_)
      rw [hshift, pagesAt, List.filter_cons]
      by_cases hkey : vpn i ∈ t.vpns
      · have hkey' : ¬ vpn i ∉ t.table.keys := not_not.mpr hkey
        rw [if_neg hkey', if_neg (by simpa using hkey)]
        exact List.Perm.refl _
      · have hkey' : vpn i ∉ t.table.keys := hkey
        rw [if_pos hkey', if_pos (by simpa using hkey)]
        exact List.perm_middle

/-- New pages go into the table as they are. -/
theorem filter_pagesAt_eq (hnew : ∀ j, i ≤ j → j < i + fs.length → vpn j ∉ t.vpns) :
    (pagesAt vpn entry i fs).filter (fun kv => kv.1 ∉ t.vpns) = pagesAt vpn entry i fs := by
  refine List.filter_eq_self.mpr fun kv hkv => ?_
  obtain ⟨j, hj, hjlt, hkey, -⟩ := vpn_of_mem_pagesAt hkv
  simpa [hkey] using hnew j hj hjlt

/-- New pages all get a frame. -/
theorem emplacePages_new (h : emplacePages vpn entry left i t m = .ok (t', m'))
    (hwf : t.table.WF) (hinj : ∀ j k, i ≤ j → j < k → k < i + left → vpn j ≠ vpn k)
    (hnew : ∀ j, i ≤ j → j < i + left → vpn j ∉ t.vpns) :
    ∃ fs, fs.length = left ∧ Hands m fs m' ∧ t'.table.WF ∧
      t'.entries.Perm (pagesAt vpn entry i fs ++ t.entries) := by
  obtain ⟨fs, hlen, hhands, hwf', hperm⟩ := emplacePages_spec h hwf hinj
  rw [filter_pagesAt_eq fun j hj hjlt => hnew j hj (by omega)] at hperm
  exact ⟨fs, hlen, hhands, hwf', hperm⟩

/-- The pages of a loop. -/
theorem mem_map_fst_pagesAt {k : Word} :
    k ∈ (pagesAt vpn entry i fs).map Prod.fst ↔ ∃ j, i ≤ j ∧ j < i + fs.length ∧ k = vpn j := by
  constructor
  · intro hk
    obtain ⟨kv, hkv, rfl⟩ := List.mem_map.mp hk
    obtain ⟨j, hj, hjlt, hkey, -⟩ := vpn_of_mem_pagesAt hkv
    exact ⟨j, hj, hjlt, hkey⟩
  · rintro ⟨j, hj, hjlt, hk⟩
    have hf := List.getElem?_eq_getElem (l := fs) (i := j - i) (by omega)
    refine List.mem_map.mpr ⟨_, mem_pagesAt.mpr ⟨j - i, _, hf, rfl⟩, ?_⟩
    simp only [Nat.add_sub_cancel' hj, hk]

/-- The pages mapped after a loop that only met new ones. -/
theorem mem_vpns_of_perm {k : Word} (h : t'.entries.Perm (pagesAt vpn entry i fs ++ t.entries)) :
    k ∈ t'.vpns ↔ (∃ j, i ≤ j ∧ j < i + fs.length ∧ k = vpn j) ∨ k ∈ t.vpns := by
  rw [vpns, (h.map Prod.fst).mem_iff, List.map_append, List.mem_append, mem_map_fst_pagesAt, vpns]

/-- Whatever it inserts, a loop takes a frame for each page. -/
theorem emplacePages_hands (h : emplacePages vpn entry left i t m = .ok (t', m')) :
    ∃ fs, fs.length = left ∧ Hands m fs m' := by
  induction left generalizing i t m with
  | zero =>
      obtain ⟨-, rfl⟩ := Prod.mk.inj (Except.ok.inj h)
      exact ⟨[], rfl, rfl⟩
  | succ left ih =>
      rw [emplacePages] at h
      obtain ⟨⟨frame, m1⟩, hframe, h⟩ := Except.bind_ok_iff.mp h
      obtain ⟨f, hgives, -⟩ := reserveFrame_spec hframe
      obtain ⟨⟨success, table⟩, -, h⟩ := Except.bind_ok_iff.mp h
      obtain ⟨fs, hlen, hhands⟩ := ih h
      exact ⟨f :: fs, by rw [List.length_cons, hlen], m1, hgives, hhands⟩

/-! ### The constructor -/

/-- The pages of the four segments. -/
def textVpn (i : Nat) : Word := TEXT_START_VPN + BitVec.ofNat 32 i
/-- The pages of the data. -/
def staticVpn (i : Nat) : Word := STATIC_START_VPN + BitVec.ofNat 32 i
/-- The pages of the stack, downwards. -/
def stackVpn (i : Nat) : Word := STACK_LIMIT_VPN - BitVec.ofNat 32 i
/-- The pages behind the data. -/
def dynamicVpn (i : Nat) : Word := DYNAMIC_START_VPN + BitVec.ofNat 32 i

/-- The entry of a page of text. -/
def textEntry (pfn : Word) : PageTable.Entry :=
  { pfn := pfn, global := false, writable := false, user := true, present := true }

/-- The entry of a page of data. -/
def dataEntry (pfn : Word) : PageTable.Entry :=
  { pfn := pfn, global := false, writable := true, user := true, present := true }

/-- The pages of the text, as numbers. -/
theorem textVpn_toNat (h : i < 2 ^ 31) : (textVpn i).toNat = 0x400 + i := by
  rw [textVpn, TEXT_START_VPN, BitVec.toNat_add, BitVec.toNat_ofNat, BitVec.toNat_ofNat]
  omega

/-- Those of the data. -/
theorem staticVpn_toNat (h : i < 2 ^ 31) : (staticVpn i).toNat = 0x10000 + i := by
  rw [staticVpn, STATIC_START_VPN, BitVec.toNat_add, BitVec.toNat_ofNat, BitVec.toNat_ofNat]
  omega

/-- Those of the stack. -/
theorem stackVpn_toNat (h : i ≤ 0x80000) : (stackVpn i).toNat = 0x80000 - i := by
  rw [stackVpn, STACK_LIMIT_VPN, BitVec.toNat_sub, BitVec.toNat_ofNat, BitVec.toNat_ofNat]
  omega

/-- Those behind the data. -/
theorem dynamicVpn_toNat (h : i < 2 ^ 31) : (dynamicVpn i).toNat = 0x10008 + i := by
  rw [dynamicVpn, DYNAMIC_START_VPN, BitVec.toNat_add, BitVec.toNat_ofNat, BitVec.toNat_ofNat]
  omega

/-- A table that was built has no more pages than there are frames. -/
theorem construct_count {a b c d : Word} (h : construct a b c d m = .ok (t, m')) :
    ((a + b + c + d) * 2#32).toNat = 2 * (a.toNat + b.toNat + c.toNat + d.toNat) ∧
      a.toNat + b.toNat + c.toNat + d.toNat ≤ numPages := by
  rw [construct] at h
  obtain ⟨⟨t1, m1⟩, h1, h⟩ := Except.bind_ok_iff.mp h
  obtain ⟨⟨t2, m2⟩, h2, h⟩ := Except.bind_ok_iff.mp h
  obtain ⟨⟨t3, m3⟩, h3, h4⟩ := Except.bind_ok_iff.mp h
  obtain ⟨text, htext, hands1⟩ := emplacePages_hands h1
  obtain ⟨static, hstatic, hands2⟩ := emplacePages_hands h2
  obtain ⟨stack, hstack, hands3⟩ := emplacePages_hands h3
  obtain ⟨dynamic, hdynamic, hands4⟩ := emplacePages_hands h4
  have hle := (hands1.append (hands2.append (hands3.append hands4))).length_le
  simp only [List.length_append, htext, hstatic, hstack, hdynamic] at hle
  refine ⟨?_, by omega⟩
  unfold numPages at hle
  rw [BitVec.toNat_mul, BitVec.toNat_add, BitVec.toNat_add, BitVec.toNat_add,
    show (2#32).toNat = 2 from rfl]
  omega

/-- The pages that the constructor makes for three lists of frames. -/
def initialPages (text static stack : List Nat) : List (Word × PageTable.Entry) :=
  pagesAt stackVpn dataEntry 1 stack ++
    (pagesAt staticVpn dataEntry 0 static ++ pagesAt textVpn textEntry 0 text)

/-- **Construction, any segments.**  Unless the heap pages run into the static
ones, the segments are disjoint, so each page gets the frame that was reserved
for it. -/
theorem construct_segments {a b c d : Word} (h : construct a b c d m = .ok (t, m'))
    (hpos : 0 < a.toNat + b.toNat + c.toNat + d.toNat) (hdisj : d = 0 ∨ b.toNat ≤ 8) :
    ∃ text static stack dynamic, text.length = a.toNat ∧ static.length = b.toNat ∧
      stack.length = c.toNat ∧ dynamic.length = d.toNat ∧
      Hands m (text ++ (static ++ (stack ++ dynamic))) m' ∧ t.table.WF ∧
      t.entries.Perm (pagesAt dynamicVpn dataEntry 0 dynamic ++ initialPages text static stack) := by
  obtain ⟨hcount, htotal⟩ := construct_count h
  rw [construct] at h
  obtain ⟨⟨t1, m1⟩, h1, h⟩ := Except.bind_ok_iff.mp h
  obtain ⟨⟨t2, m2⟩, h2, h⟩ := Except.bind_ok_iff.mp h
  obtain ⟨⟨t3, m3⟩, h3, h4⟩ := Except.bind_ok_iff.mp h
  have hwf0 : (UnorderedMap.ofBucketCount ((a + b + c + d) * 2#32).toNat :
      UnorderedMap Word PageTable.Entry).WF := by
    apply UnorderedMap.wf_ofBucketCount
    rw [hcount]
    omega
  have hempty : entries ⟨UnorderedMap.ofBucketCount ((a + b + c + d) * 2#32).toNat⟩ = [] :=
    UnorderedMap.entries_ofBucketCount
  have hnone : ∀ k, k ∉ vpns ⟨UnorderedMap.ofBucketCount ((a + b + c + d) * 2#32).toNat⟩ := by
    intro k hk
    rw [vpns, hempty] at hk
    cases hk
  unfold numPages at htotal
  have text_nat (j : Nat) (hj : j < 0 + a.toNat) : (textVpn j).toNat = 0x400 + j :=
    textVpn_toNat (by omega)
  have static_nat (j : Nat) (hj : j < 0 + b.toNat) : (staticVpn j).toNat = 0x10000 + j :=
    staticVpn_toNat (by omega)
  have stack_nat (j : Nat) (hj : j < 1 + c.toNat) : (stackVpn j).toNat = 0x80000 - j :=
    stackVpn_toNat (by omega)
  have dynamic_nat (j : Nat) (hj : j < 0 + d.toNat) : (dynamicVpn j).toNat = 0x10008 + j :=
    dynamicVpn_toNat (by omega)
  -- no page of a later segment is mapped by an earlier one
  obtain ⟨text, htext, hands1, hwf1, hperm1⟩ := emplacePages_new h1 hwf0
    (fun j k _ hjk hk heq => by
      have := congrArg BitVec.toNat heq
      rw [← textVpn, ← textVpn, text_nat j (by omega), text_nat k hk] at this
      omega)
    (fun j _ _ => hnone _)
  obtain ⟨static, hstatic, hands2, hwf2, hperm2⟩ := emplacePages_new h2 hwf1
    (fun j k _ hjk hk heq => by
      have := congrArg BitVec.toNat heq
      rw [← staticVpn, ← staticVpn, static_nat j (by omega), static_nat k hk] at this
      omega)
    (fun j _ hj hmem => by
      have hj' := static_nat j hj
      rw [← staticVpn] at hmem
      rcases (mem_vpns_of_perm hperm1).mp hmem with ⟨k, -, hk, hkey⟩ | hmem'
      · rw [hkey, ← textVpn, text_nat k (by omega)] at hj'
        omega
      · exact hnone _ hmem')
  obtain ⟨stack, hstack, hands3, hwf3, hperm3⟩ := emplacePages_new h3 hwf2
    (fun j k _ hjk hk heq => by
      have := congrArg BitVec.toNat heq
      rw [← stackVpn, ← stackVpn, stack_nat j (by omega), stack_nat k hk] at this
      omega)
    (fun j _ hj hmem => by
      have hj' := stack_nat j hj
      rw [← stackVpn] at hmem
      rcases (mem_vpns_of_perm hperm2).mp hmem with ⟨k, -, hk, hkey⟩ | hmem
      · rw [hkey, ← staticVpn, static_nat k (by omega)] at hj'
        omega
      rcases (mem_vpns_of_perm hperm1).mp hmem with ⟨k, -, hk, hkey⟩ | hmem'
      · rw [hkey, ← textVpn, text_nat k (by omega)] at hj'
        omega
      · exact hnone _ hmem')
  obtain ⟨dynamic, hdynamic, hands4, hwf4, hperm4⟩ := emplacePages_new h4 hwf3
    (fun j k _ hjk hk heq => by
      have := congrArg BitVec.toNat heq
      rw [← dynamicVpn, ← dynamicVpn, dynamic_nat j (by omega), dynamic_nat k hk] at this
      omega)
    (fun j _ hj hmem => by
      have hj' := dynamic_nat j hj
      rw [← dynamicVpn] at hmem
      rcases (mem_vpns_of_perm hperm3).mp hmem with ⟨k, -, hk, hkey⟩ | hmem
      · rw [hkey, ← stackVpn, stack_nat k (by omega)] at hj'
        omega
      rcases (mem_vpns_of_perm hperm2).mp hmem with ⟨k, -, hk, hkey⟩ | hmem
      · rw [hkey, ← staticVpn, static_nat k (by omega)] at hj'
        rcases hdisj with rfl | hb
        · exact absurd hj (Nat.not_lt_zero _)
        · omega
      rcases (mem_vpns_of_perm hperm1).mp hmem with ⟨k, -, hk, hkey⟩ | hmem'
      · rw [hkey, ← textVpn, text_nat k (by omega)] at hj'
        omega
      · exact hnone _ hmem')
  rw [hempty, List.append_nil] at hperm1
  have hperm : t3.entries.Perm (initialPages text static stack) :=
    hperm3.trans ((hperm2.trans (hperm1.append_left _)).append_left _)
  exact ⟨text, static, stack, dynamic, htext, hstatic, hstack, hdynamic,
    hands1.append (hands2.append (hands3.append hands4)), hwf4, hperm4.trans (hperm.append_left _)⟩

/-- **Construction.**  A new process has no heap pages yet. -/
theorem construct_spec {a b c : Word} (h : construct a b c 0 m = .ok (t, m'))
    (hc : 0 < c.toNat) :
    ∃ text static stack, text.length = a.toNat ∧ static.length = b.toNat ∧
      stack.length = c.toNat ∧ Hands m (text ++ (static ++ stack)) m' ∧ t.table.WF ∧
      t.entries.Perm (initialPages text static stack) := by
  obtain ⟨text, static, stack, dynamic, htext, hstatic, hstack, hdynamic, hhands, hwf, hperm⟩ :=
    construct_segments h (by omega) (Or.inl rfl)
  obtain rfl := List.length_eq_zero_iff.mp hdynamic
  rw [List.append_nil] at hhands
  rw [pagesAt, List.nil_append] at hperm
  exact ⟨text, static, stack, htext, hstatic, hstack, hhands, hwf, hperm⟩

/-! ### Heap pages -/

open AddressSpace

/-- Those of the heap. -/
theorem heapVpn_toNat (h : i < 2 ^ 31) : (heapVpn i).toNat = 0x10008 + i := by
  have hb : (BRK_DEFAULT >>> 12).toNat = 0x10008 := rfl
  rw [heapVpn, BitVec.toNat_add, BitVec.toNat_ofNat, hb]
  omega

/-- On a hash table `updateBrk` runs an insertion loop. -/
theorem mapHeap_hash (hi : i + left ≤ 256) :
    mapHeap left i (.hash t) m =
      (emplacePages heapVpn heapEntry left i t m >>= fun r => .ok (.hash r.1, r.2)) := by
  induction left generalizing i t m with
  | zero => rfl
  | succ left ih =>
      rw [mapHeap, emplacePages]
      cases hframe : m.reserveFrame with
      | error e => rfl
      | ok r =>
          obtain ⟨frame, m1⟩ := r
          have hvpn := heapVpn_toNat (i := i) (by omega)
          have hrange : (heapVpn i < TEXT_START_VPN || STACK_LIMIT_VPN ≤ heapVpn i) = false := by
            rw [Bool.or_eq_false_iff, decide_eq_false_iff_not, decide_eq_false_iff_not,
              BitVec.lt_def, BitVec.le_def, hvpn]
            have h1 : TEXT_START_VPN.toNat = 0x400 := rfl
            have h2 : STACK_LIMIT_VPN.toNat = 0x80000 := rfl
            omega
          simp only [Except.ok_bind, PageTable.mapPTE, HashPageTable.mapPTE, hrange,
            Bool.false_eq_true, if_false]
          cases hemplace : t.table.emplace (heapVpn i) (heapEntry (frame >>> 12)) with
          | error e => rfl
          | ok r =>
              simp only [Except.ok_bind]
              exact ih (by omega)

/-- **Growing the heap.**  The new frames go to the pages that were not mapped. -/
theorem mapHeap_spec {pt : PageTable} (h : mapHeap left i (.hash t) m = .ok (pt, m'))
    (hwf : t.table.WF) (hi : i + left ≤ 256) :
    ∃ t' fs, pt = .hash t' ∧ fs.length = left ∧ Hands m fs m' ∧ t'.table.WF ∧
      t'.entries.Perm
        ((pagesAt heapVpn heapEntry i fs).filter (fun kv => kv.1 ∉ t.vpns) ++ t.entries) := by
  rw [mapHeap_hash hi] at h
  obtain ⟨⟨t', m1⟩, hloop, h⟩ := Except.bind_ok_iff.mp h
  obtain ⟨rfl, rfl⟩ := Prod.mk.inj (Except.ok.inj h)
  obtain ⟨fs, hlen, hhands, hwf', hperm⟩ := emplacePages_spec hloop hwf fun j k hj hjk hk heq => by
    have := congrArg BitVec.toNat heq
    rw [heapVpn_toNat (by omega), heapVpn_toNat (by omega)] at this
    omega
  exact ⟨t', fs, rfl, hlen, hhands, hwf', hperm⟩

/-! ### Copied pages -/

/-- A page of the parent on a frame of the child. -/
def copiedPage (kv : Word × PageTable.Entry) (f : Nat) : Word × PageTable.Entry :=
  (kv.1, { kv.2 with pfn := BitVec.ofNat 32 f })

/-- The memory after the copies of a list of pages to a list of frames. -/
def copiedMemory : List (Word × PageTable.Entry) → List Nat → Hardware.Memory → Hardware.Memory
  | kv :: pages, f :: fs, mem => copiedMemory pages fs
      (copyInts 4096 mem (frameAddr (BitVec.ofNat 32 f)) (frameAddr kv.2.pfn))
  | _, _, mem => mem

/-- **Copying.**  Every page is copied to a frame of its own. -/
theorem copyPages_spec {pages : List (Word × PageTable.Entry)} {mem mem' : Hardware.Memory}
    (h : copyPages pages t m mem = .ok (t', m', mem')) (hwf : t.table.WF)
    (hdistinct : (pages.map Prod.fst).Nodup) (hnew : ∀ k ∈ pages.map Prod.fst, k ∉ t.vpns) :
    ∃ fs, fs.length = pages.length ∧ Hands m fs m' ∧ t'.table.WF ∧
      t'.entries.Perm (List.zipWith copiedPage pages fs ++ t.entries) ∧
      mem' = copiedMemory pages fs mem := by
  induction pages generalizing t m mem with
  | nil =>
      obtain ⟨rfl, hrest⟩ := Prod.mk.inj (Except.ok.inj h)
      obtain ⟨rfl, rfl⟩ := Prod.mk.inj hrest
      exact ⟨[], rfl, rfl, hwf, List.Perm.refl _, rfl⟩
  | cons kv pages ih =>
      obtain ⟨vpn, pte⟩ := kv
      rw [copyPages] at h
      obtain ⟨⟨frame, m1⟩, hframe, h⟩ := Except.bind_ok_iff.mp h
      obtain ⟨f, hgives, hshift⟩ := reserveFrame_spec hframe
      rw [List.map_cons, List.nodup_cons] at hdistinct
      have hkey : vpn ∉ t.table.keys := hnew vpn (by simp)
      obtain ⟨table, hmodify, hwf1, hperm⟩ := hwf.modify hkey {} fun _ =>
        { pfn := frame >>> 12, user := pte.user, present := pte.present, global := pte.global,
          writable := pte.writable }
      simp only [hmodify, Except.ok_bind] at h
      have hnew1 : ∀ k ∈ pages.map Prod.fst, k ∉ vpns ⟨table⟩ := by
        intro k hk hmem
        rw [vpns, entries, (hperm.map Prod.fst).mem_iff, List.map_cons, List.mem_cons] at hmem
        rcases hmem with rfl | hmem
        · exact hdistinct.1 hk
        · exact hnew k (List.mem_cons_of_mem _ hk) hmem
      obtain ⟨fs, hlen, hhands, hwf', hperm', hmem⟩ := ih h hwf1 hdistinct.2 hnew1
      refine ⟨f :: fs, by rw [List.length_cons, List.length_cons, hlen],
        ⟨m1, hgives, hhands⟩, hwf', ?_, ?_⟩
      · refine hperm'.trans ((hperm.append_left _).trans ?_)
        rw [hshift]
        exact List.perm_middle
      · rw [hmem, hshift]
        rfl

/-- The copying constructor starts from an empty table. -/
theorem constructCopy_spec {pages : List (Word × PageTable.Entry)} {mem mem' : Hardware.Memory}
    (h : constructCopy pages m mem = .ok (t', m', mem')) (hdistinct : (pages.map Prod.fst).Nodup) :
    ∃ fs, fs.length = pages.length ∧ Hands m fs m' ∧ t'.table.WF ∧
      t'.entries.Perm (List.zipWith copiedPage pages fs) ∧ mem' = copiedMemory pages fs mem := by
  have hempty : entries ⟨.empty⟩ = [] := UnorderedMap.entries_ofBucketCount
  obtain ⟨fs, hlen, hhands, hwf, hperm, hmem⟩ :=
    copyPages_spec h (UnorderedMap.wf_ofBucketCount (by decide)) hdistinct fun k _ => by
      simp [vpns, hempty]
  rw [hempty, List.append_nil] at hperm
  exact ⟨fs, hlen, hhands, hwf, hperm, hmem⟩

/-- The frames of copied pages. -/
theorem frames_copiedPages {pages : List (Word × PageTable.Entry)}
    (hlen : fs.length = pages.length) (hfs : ∀ f ∈ fs, f < numPages) :
    (List.zipWith copiedPage pages fs).map (fun kv => kv.2.pfn.toNat) = fs := by
  induction pages generalizing fs with
  | nil =>
      rw [List.length_nil, List.length_eq_zero_iff] at hlen
      rw [hlen]
      rfl
  | cons kv pages ih =>
      cases fs with
      | nil => cases hlen
      | cons f fs =>
          rw [List.zipWith_cons_cons, List.map_cons,
            ih (by simpa using hlen) fun g hg => hfs g (List.mem_cons_of_mem _ hg)]
          simp only [copiedPage, frame_toNat (hfs f List.mem_cons_self)]

/-! ### The destructor -/

/-- **Destruction.**  Exactly the frames of the table are given back. -/
theorem freeFrames_spec {pages : List (Word × PageTable.Entry)}
    (hpages : ∀ kv ∈ pages, kv.2.pfn.toNat < numPages) :
    ∃ m', freeFrames pages m = .ok m' ∧
      (∀ j, m'.Reserved j ↔ m.Reserved j ∧ j ∉ pages.map fun kv => kv.2.pfn.toNat) ∧
      m'.kernelReservedBoundary = m.kernelReservedBoundary := by
  induction pages generalizing m with
  | nil => exact ⟨m, rfl, by simp, rfl⟩
  | cons kv pages ih =>
      obtain ⟨vpn, pte⟩ := kv
      obtain ⟨m1, hfree, hres, hbound⟩ := freeFrame_spec (m := m) (hpages _ List.mem_cons_self)
      rw [BitVec.ofNat_toNat, BitVec.setWidth_eq] at hfree
      obtain ⟨m', hrest, hres', hbound'⟩ :=
        ih (m := m1) fun kv hkv => hpages kv (List.mem_cons_of_mem _ hkv)
      refine ⟨m', ?_, fun j => ?_, hbound'.trans hbound⟩
      · rw [freeFrames, hfree, Except.ok_bind, hrest]
      · rw [hres', hres, List.map_cons, List.mem_cons, not_or, and_assoc]

end HashPageTable

/-! ### Identifiers -/

/-- The lowest free identifier goes from free to reserved. -/
structure GivesASID (asids : Bitset numASIDs) (asid : Byte) (asids' : Bitset numASIDs) : Prop where
  upper : asid.toNat < numASIDs
  free : asids.bit asid.toNat = false
  lowest : ∀ j < asid.toNat, asids.bit j = true
  reserved : ∀ j, asids'.bit j = true ↔ asids.bit j = true ∨ j = asid.toNat

/-- An identifier, as a number. -/
theorem asid_toNat {i : Nat} (h : i < numASIDs) : (BitVec.ofNat 8 i).toNat = i := by
  unfold numASIDs at h
  rw [BitVec.toNat_ofNat]
  omega

/-- The first free identifier is given. -/
theorem reserveASID_spec {asids asids' : Bitset numASIDs} {asid : Byte} {left i : Nat}
    (h : AddressSpace.reserveASID asids left i = .ok (asid, asids')) (hi : i + left = numASIDs)
    (hbelow : ∀ j < i, asids.bit j = true) : GivesASID asids asid asids' := by
  induction left generalizing i with
  | zero => cases h
  | succ left ih =>
      have hlt : i < numASIDs := by omega
      rw [AddressSpace.reserveASID, Bitset.test_eq _ (by decide) hlt, Except.ok_bind] at h
      cases hbit : asids.bit i with
      | true =>
          rw [hbit, if_pos rfl] at h
          refine ih h (by omega) fun j hj => ?_
          rcases Nat.lt_succ_iff_lt_or_eq.mp hj with hj' | rfl
          · exact hbelow j hj'
          · exact hbit
      | false =>
          obtain ⟨b', hset, hb'⟩ := asids.set_spec (by decide) hlt true
          rw [hbit, if_neg (by decide), hset, Except.ok_bind] at h
          obtain ⟨rfl, rfl⟩ := Prod.mk.inj (Except.ok.inj h)
          have hi' := asid_toNat hlt
          refine ⟨by rw [hi']; exact hlt, by rw [hi', hbit], by rw [hi']; exact hbelow, fun j => ?_⟩
          rw [hi', hb']
          by_cases hji : j = i <;> simp [hji]

/-- **Construction.**  A new address space has the lowest free identifier. -/
theorem AddressSpace.construct_spec {pt : PageTable} {brk0 : Word} {asids asids' : Bitset numASIDs}
    {s : AddressSpace} (h : AddressSpace.construct pt brk0 asids = .ok (s, asids')) :
    GivesASID asids s.asid asids' ∧ s.pageTable = some pt ∧ s.brk = brk0 := by
  rw [AddressSpace.construct] at h
  obtain ⟨⟨asid, asids1⟩, hreserve, h⟩ := Except.bind_ok_iff.mp h
  obtain ⟨rfl, rfl⟩ := Prod.mk.inj (Except.ok.inj h)
  exact ⟨reserveASID_spec hreserve (by decide) fun j hj => absurd hj (Nat.not_lt_zero _), rfl, rfl⟩

end Kernel
