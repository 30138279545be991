import BobbyOS.Kernel.PageLoops

/-!
# The two user page tables

`SegmentedPageTable` keeps the pages of a process in four vectors, one for each
segment: the stack grows down from `STACK_LIMIT`, the other three grow up.  It
is meant to be exchangeable with `HashPageTable`, and it is so only in part.

* The stack vector is indexed from one, so its lowest page is out of range.
* `mapPTE` frees the frame of the entry that has the page number as its index,
  not the index of the page, and the page after the heap is added without
  reporting it.
* `mapPTE` replaces pages that are mapped and refuses those that are not, where
  the hash table does the opposite.

`HoldsPages` says that a walk finds the pages of a list.  Both constructors make
tables that hold the same pages with different frames (`construct_holds`), and
`interchangeable_iff` says which runs of `mapPTE` keep them alike.
-/

namespace Kernel

open MemoryManager

/-- `pages[i]`, which asserts the index. -/
def vectorAt {α : Type} (pages : List α) (i : Word) : Except Panic α :=
  match pages[i.toNat]? with
  | none => .error (.assertFailed "idx < _size")
  | some a => .ok a

/-- `pages[i] = a`. -/
def vectorSet {α : Type} (pages : List α) (i : Word) (a : α) : Except Panic (List α) :=
  if i.toNat < pages.length then .ok (pages.set i.toNat a)
  else .error (.assertFailed "idx < _size")

/-- `SegmentedPageTable`. -/
structure SegmentedPageTable where
  stackPages : List PageTable.Entry
  dynamicPages : List PageTable.Entry
  staticPages : List PageTable.Entry
  textPages : List PageTable.Entry

namespace SegmentedPageTable

/-- One loop of the constructor. -/
def reservePages (writable : Bool) : Nat → MemoryManager →
    Except Panic (List PageTable.Entry × MemoryManager)
  | 0, m => .ok ([], m)
  | left + 1, m => do
      let (frame, m) ← m.reserveFrame
      let (rest, m) ← reservePages writable left m
      .ok ({ pfn := frame >>> 12, global := false, present := true, user := true,
             writable := writable } :: rest, m)

/-- `SegmentedPageTable(initText, initStatic, initStack, initDynamic)`. -/
def construct (initText initStatic initStack initDynamic : Word) (m : MemoryManager) :
    Except Panic (SegmentedPageTable × MemoryManager) := do
  let (stackPages, m) ← reservePages true initStack.toNat m
  let (dynamicPages, m) ← reservePages true initDynamic.toNat m
  let (staticPages, m) ← reservePages true initStatic.toNat m
  let (textPages, m) ← reservePages false initText.toNat m
  .ok ({ stackPages, dynamicPages, staticPages, textPages }, m)

/-- `stackPages.size() << 12` bytes below the limit. -/
def stackBoundary (t : SegmentedPageTable) : Word :=
  STACK_LIMIT - (BitVec.ofNat 32 t.stackPages.length <<< 12)

/-- The test of a segment that grows up: `addr < boundary && addr >= start`. -/
def inSegment (start : Word) (pages : List PageTable.Entry) (addr : Word) : Bool :=
  addr < start + (BitVec.ofNat 32 pages.length <<< 12) && start ≤ addr

/-- `SegmentedPageTable::walkTable`. -/
def walkTable (t : SegmentedPageTable) (vaddr : Word) : Except Panic (Option PageTable.Entry) :=
  if vaddr < STACK_LIMIT && t.stackBoundary ≤ vaddr then do
    let pte ← vectorAt t.stackPages (0x80000#32 - (vaddr >>> 12))
    .ok (some pte)
  else if inSegment DYNAMIC_START t.dynamicPages vaddr then do
    let pte ← vectorAt t.dynamicPages ((vaddr - DYNAMIC_START) >>> 12)
    .ok (some pte)
  else if inSegment STATIC_START t.staticPages vaddr then do
    let pte ← vectorAt t.staticPages ((vaddr - STATIC_START) >>> 12)
    .ok (some pte)
  else if inSegment TEXT_START t.textPages vaddr then do
    let pte ← vectorAt t.textPages ((vaddr - TEXT_START) >>> 12)
    .ok (some pte)
  else .ok none

/-- A branch of `mapPTE`: `freeFrame(pages[vpn].pfn << 12)` and then
`pages[index] = pte`. -/
def replaceAt (m : MemoryManager) (pages : List PageTable.Entry) (vpn index : Word)
    (pte : PageTable.Entry) : Except Panic (List PageTable.Entry × MemoryManager) := do
  let old ← vectorAt pages vpn
  let m ← m.freeFrame (old.pfn <<< 12)
  let pages ← vectorSet pages index pte
  .ok (pages, m)

/-- The page after the heap is added, and no branch returns for it. -/
def pushDynamic (t : SegmentedPageTable) (pte : PageTable.Entry) (pageBoundary : Word) :
    SegmentedPageTable :=
  if (pageBoundary - DYNAMIC_START) >>> 12 = BitVec.ofNat 32 t.dynamicPages.length then
    { t with dynamicPages := t.dynamicPages ++ [pte] }
  else t

/-- `SegmentedPageTable::mapPTE`. -/
def mapPTE (t : SegmentedPageTable) (m : MemoryManager) (pte : PageTable.Entry) (vpn : Word) :
    Except Panic (Bool × SegmentedPageTable × MemoryManager) :=
  let pageBoundary := vpn <<< 12
  if pageBoundary < STACK_LIMIT && t.stackBoundary ≤ pageBoundary then do
    let (stackPages, m) ← replaceAt m t.stackPages vpn (0x80000#32 - vpn) pte
    .ok (true, { t with stackPages }, m)
  else if inSegment DYNAMIC_START t.dynamicPages pageBoundary then do
    let (dynamicPages, m) ←
      replaceAt m t.dynamicPages vpn ((pageBoundary - DYNAMIC_START) >>> 12) pte
    .ok (true, { t with dynamicPages }, m)
  else
    let t := t.pushDynamic pte pageBoundary
    if inSegment STATIC_START t.staticPages pageBoundary then do
      let (staticPages, m) ←
        replaceAt m t.staticPages vpn ((pageBoundary - STATIC_START) >>> 12) pte
      .ok (true, { t with staticPages }, m)
    else if inSegment TEXT_START t.textPages pageBoundary then do
      let (textPages, m) ← replaceAt m t.textPages vpn ((pageBoundary - TEXT_START) >>> 12) pte
      .ok (true, { t with textPages }, m)
    else .ok (false, t, m)

end SegmentedPageTable

/-! ### Exchanging one table for the other -/

/-- The flags of an entry: global, writable, user and present. -/
def PageTable.Entry.flags (e : PageTable.Entry) : Bool × Bool × Bool × Bool :=
  (e.global, e.writable, e.user, e.present)

/-- Addresses on different pages do not share a frame. -/
def DistinctFrames (walk : Word → Except Panic (Option PageTable.Entry)) : Prop :=
  ∀ a b e e', walk a = .ok (some e) → walk b = .ok (some e') → a >>> 12 ≠ b >>> 12 →
    e.pfn ≠ e'.pfn

/-- Every walk returns, and the two tables map the same addresses with the same
flags, each with different frames for different pages. -/
structure Alike (s : SegmentedPageTable) (h : HashPageTable) : Prop where
  walks : ∀ vaddr, ∃ o o', s.walkTable vaddr = .ok o ∧ h.walkTable vaddr = .ok o' ∧
    o.map PageTable.Entry.flags = o'.map PageTable.Entry.flags
  segmented : DistinctFrames s.walkTable
  hash : DistinctFrames h.walkTable

/-- The tables are alike in every state of a run of `mapPTE` calls: the calls
return, with the same result, and a page that was mapped is found. -/
def Interchangeable : List (PageTable.Entry × Word) → SegmentedPageTable → MemoryManager →
    HashPageTable → Prop
  | [], s, _, h => Alike s h
  | (pte, vpn) :: calls, s, m, h => Alike s h ∧
      ∃ result s' m' h', s.mapPTE m pte vpn = .ok (result, s', m') ∧
        h.mapPTE pte vpn = .ok (result, h') ∧
        (result = true → ∀ vaddr, vaddr >>> 12 = vpn →
          s'.walkTable vaddr = .ok (some pte) ∧ h'.walkTable vaddr = .ok (some pte)) ∧
        Interchangeable calls s' m' h'

/-- The pages that the constructors map when there is no stack. -/
def Initial (initText initStatic initDynamic : Word) (p : Nat) : Prop :=
  (0x400 ≤ p ∧ p < 0x400 + initText.toNat) ∨
    (0x10000 ≤ p ∧ p < 0x10000 + initStatic.toNat) ∨
    (0x10008 ≤ p ∧ p < 0x10008 + initDynamic.toNat)

/-- The calls that both tables refuse without a change: pages outside the user
space that are not, with the low 20 bits of their number, initial pages or the
page after the heap. -/
def Refused (initText initStatic initDynamic : Word) (vpn : Word) : Prop :=
  vpn < TEXT_START_VPN ∨ STACK_LIMIT_VPN ≤ vpn ∧
    ¬ Initial initText initStatic initDynamic (vpn.toNat % 2 ^ 20) ∧
    vpn.toNat % 2 ^ 20 ≠ 0x10008 + initDynamic.toNat

/-! ### The pages that a walk finds -/

/-- Every walk returns, and finds the entry that the list has for the page. -/
def HoldsPages (walk : Word → Except Panic (Option PageTable.Entry))
    (pages : List (Word × PageTable.Entry)) : Prop :=
  ∀ vaddr, ∃ o, walk vaddr = .ok o ∧ ∀ e, o = some e ↔ (vaddr >>> 12, e) ∈ pages

section HoldsPages

variable {walk : Word → Except Panic (Option PageTable.Entry)}
  {pages pages' : List (Word × PageTable.Entry)} {vaddr : Word} {e : PageTable.Entry}

/-- What a walk finds is one of the pages. -/
theorem HoldsPages.mem (h : HoldsPages walk pages) (hwalk : walk vaddr = .ok (some e)) :
    (vaddr >>> 12, e) ∈ pages := by
  obtain ⟨o, ho, hmem⟩ := h vaddr
  rw [hwalk] at ho
  exact (hmem e).mp (Except.ok.inj ho).symm

/-- The order of the pages does not matter. -/
theorem HoldsPages.perm (h : HoldsPages walk pages) (hperm : pages.Perm pages') :
    HoldsPages walk pages' := by
  intro vaddr
  obtain ⟨o, ho, hmem⟩ := h vaddr
  exact ⟨o, ho, fun e => (hmem e).trans hperm.mem_iff⟩

/-- Pages of a list without repeated frames have different frames. -/
theorem HoldsPages.distinctFrames (h : HoldsPages walk pages)
    (hframes : (pages.map fun kv => kv.2.pfn.toNat).Nodup) : DistinctFrames walk := by
  intro a b e e' ha hb hne heq
  refine hne (Prod.mk.inj (List.inj_on_of_nodup_map hframes (h.mem ha) (h.mem hb) ?_)).1
  exact congrArg BitVec.toNat heq

/-- Tables that hold the same pages with the same flags are alike. -/
theorem Alike.of_holds {s : SegmentedPageTable} {h : HashPageTable}
    (hs : HoldsPages s.walkTable pages) (hh : HoldsPages h.walkTable pages')
    (hflags : pages.map (fun kv => (kv.1, kv.2.flags)) = pages'.map fun kv => (kv.1, kv.2.flags))
    (hframes : (pages.map fun kv => kv.2.pfn.toNat).Nodup)
    (hframes' : (pages'.map fun kv => kv.2.pfn.toNat).Nodup) : Alike s h where
  walks vaddr := by
    obtain ⟨o, ho, hmem⟩ := hs vaddr
    obtain ⟨o', ho', hmem'⟩ := hh vaddr
    refine ⟨o, o', ho, ho', ?_⟩
    -- an entry of either list has one with the same flags in the other
    have hcarry (l l' : List (Word × PageTable.Entry))
        (hl : l.map (fun kv => (kv.1, kv.2.flags)) = l'.map fun kv => (kv.1, kv.2.flags))
        (e : PageTable.Entry) (he : (vaddr >>> 12, e) ∈ l) :
        ∃ e', (vaddr >>> 12, e') ∈ l' ∧ e'.flags = e.flags := by
      have hin := List.mem_map_of_mem (f := fun kv => (kv.1, kv.2.flags)) he
      rw [hl] at hin
      obtain ⟨⟨k, e'⟩, he', heq⟩ := List.mem_map.mp hin
      obtain ⟨rfl, hfl⟩ := Prod.mk.inj heq
      exact ⟨e', he', hfl⟩
    cases o with
    | some e =>
        obtain ⟨e', he', hfl⟩ := hcarry _ _ hflags e ((hmem e).mp rfl)
        rw [(hmem' e').mpr he', Option.map_some, Option.map_some, hfl]
    | none =>
        cases o' with
        | none => rfl
        | some e' =>
            obtain ⟨e, he, -⟩ := hcarry _ _ hflags.symm e' ((hmem' e').mp rfl)
            cases (hmem e).mpr he
  segmented := hs.distinctFrames hframes
  hash := hh.distinctFrames hframes'

end HoldsPages

/-- A well-formed hash table holds its pairs. -/
theorem HashPageTable.holds {h : HashPageTable} (hwf : h.table.WF) :
    HoldsPages h.walkTable h.entries := fun vaddr => hwf.find (vaddr >>> 12)

/-! ### The pages of the vectors -/

namespace SegmentedPageTable

open HashPageTable

section Segment

variable {start addr vaddr : Word} {pages : List PageTable.Entry} {k : Nat} {fs : List Nat}
  {vpn : Nat → Word} {entry : Word → PageTable.Entry} {e : PageTable.Entry}

/-- A segment that grows up covers the pages from its start on. -/
theorem inSegment_iff (hstart : start.toNat = 4096 * k) (hfit : k + pages.length < 2 ^ 20) :
    inSegment start pages addr = true ↔
      k ≤ addr.toNat / 4096 ∧ addr.toNat / 4096 < k + pages.length := by
  have hbound : (start + (BitVec.ofNat 32 pages.length <<< 12)).toNat =
      4096 * (k + pages.length) := by
    rw [BitVec.toNat_add, BitVec.toNat_shiftLeft, BitVec.toNat_ofNat, Nat.shiftLeft_eq, hstart]
    omega
  rw [inSegment, Bool.and_eq_true, decide_eq_true_iff, decide_eq_true_iff, BitVec.lt_def,
    BitVec.le_def, hbound, hstart]
  omega

/-- The index of an address in its segment. -/
theorem index_toNat (hstart : start.toNat = 4096 * k) (hlow : k ≤ vaddr.toNat / 4096) :
    ((vaddr - start) >>> 12).toNat = vaddr.toNat / 4096 - k := by
  have hlt := vaddr.isLt
  rw [BitVec.toNat_ushiftRight, BitVec.toNat_sub, Nat.shiftRight_eq_div_pow, hstart]
  omega

/-- An element of a vector below its size. -/
theorem vectorAt_eq {α : Type} {pages : List α} {i : Word} {a : α} :
    vectorAt pages i = .ok a ↔ pages[i.toNat]? = some a := by
  rw [vectorAt]
  cases pages[i.toNat]? with
  | none => simp
  | some b => simp

/-- The vector of a loop's entries answers for exactly the loop's pages. -/
theorem mem_pagesAt_segment (hstart : start.toNat = 4096 * k) (hfit : k + fs.length < 2 ^ 20)
    (hvpn : ∀ j < fs.length, (vpn j).toNat = k + j) :
    (vaddr >>> 12, e) ∈ pagesAt vpn entry 0 fs ↔
      inSegment start (fs.map fun f => entry (BitVec.ofNat 32 f)) vaddr = true ∧
        vectorAt (fs.map fun f => entry (BitVec.ofNat 32 f)) ((vaddr - start) >>> 12) = .ok e := by
  have hpage : (vaddr >>> 12).toNat = vaddr.toNat / 4096 := by
    rw [BitVec.toNat_ushiftRight, Nat.shiftRight_eq_div_pow]
  rw [inSegment_iff hstart (by rwa [List.length_map]), List.length_map, vectorAt_eq, mem_pagesAt]
  constructor
  · rintro ⟨j, f, hf, heq⟩
    obtain ⟨hkey, rfl⟩ := Prod.mk.inj heq
    have hj : j < fs.length := (List.getElem?_eq_some_iff.mp hf).1
    rw [Nat.zero_add] at hkey
    have hnat := congrArg BitVec.toNat hkey
    rw [hpage, hvpn j hj] at hnat
    refine ⟨by omega, ?_⟩
    rw [index_toNat hstart (by omega), show vaddr.toNat / 4096 - k = j by omega, List.getElem?_map,
      hf]
    rfl
  · rintro ⟨⟨hlow, hhigh⟩, he⟩
    rw [index_toNat hstart hlow, List.getElem?_map, Option.map_eq_some_iff] at he
    obtain ⟨f, hf, rfl⟩ := he
    refine ⟨vaddr.toNat / 4096 - k, f, hf, Prod.ext_iff.mpr ⟨?_, rfl⟩⟩
    apply BitVec.eq_of_toNat_eq
    rw [hpage, Nat.zero_add, hvpn _ (by omega)]
    omega

/-- An address of a segment has an entry. -/
theorem vectorAt_segment (hstart : start.toNat = 4096 * k) (hfit : k + pages.length < 2 ^ 20)
    (hin : inSegment start pages vaddr = true) :
    ∃ e, vectorAt pages ((vaddr - start) >>> 12) = .ok e := by
  obtain ⟨hlow, hhigh⟩ := (inSegment_iff hstart hfit).mp hin
  refine ⟨_, vectorAt_eq.mpr (List.getElem?_eq_getElem ?_)⟩
  rw [index_toNat hstart hlow]
  omega

end Segment

/-- The vectors for four lists of frames. -/
def ofFrames (stack dynamic static text : List Nat) : SegmentedPageTable where
  stackPages := stack.map fun f => dataEntry (BitVec.ofNat 32 f)
  dynamicPages := dynamic.map fun f => dataEntry (BitVec.ofNat 32 f)
  staticPages := static.map fun f => dataEntry (BitVec.ofNat 32 f)
  textPages := text.map fun f => textEntry (BitVec.ofNat 32 f)

/-- A loop of the constructor makes an entry for each frame that it takes. -/
theorem reservePages_spec {writable : Bool} {left : Nat} {m m' : MemoryManager}
    {pages : List PageTable.Entry} (h : reservePages writable left m = .ok (pages, m')) :
    ∃ fs, fs.length = left ∧ Hands m fs m' ∧
      pages = fs.map fun f => { textEntry (BitVec.ofNat 32 f) with writable := writable } := by
  induction left generalizing m pages with
  | zero =>
      obtain ⟨rfl, rfl⟩ := Prod.mk.inj (Except.ok.inj h)
      exact ⟨[], rfl, rfl, rfl⟩
  | succ left ih =>
      rw [reservePages] at h
      obtain ⟨⟨frame, m1⟩, hframe, h⟩ := Except.bind_ok_iff.mp h
      obtain ⟨f, hgives, hshift⟩ := reserveFrame_spec hframe
      obtain ⟨⟨rest, m2⟩, hrest, h⟩ := Except.bind_ok_iff.mp h
      obtain ⟨rfl, rfl⟩ := Prod.mk.inj (Except.ok.inj h)
      obtain ⟨fs, hlen, hhands, rfl⟩ := ih hrest
      refine ⟨f :: fs, by rw [List.length_cons, hlen], ⟨m1, hgives, hhands⟩, ?_⟩
      rw [hshift]
      rfl

variable {s ms : SegmentedPageTable} {m m' : MemoryManager} {a b c d : Word}

/-- **Construction.**  Each page of each segment has a frame of its own. -/
theorem construct_spec (h : construct a b c d m = .ok (s, m')) :
    ∃ stack dynamic static text, stack.length = c.toNat ∧ dynamic.length = d.toNat ∧
      static.length = b.toNat ∧ text.length = a.toNat ∧
      Hands m (stack ++ (dynamic ++ (static ++ text))) m' ∧
      s = ofFrames stack dynamic static text := by
  rw [construct] at h
  obtain ⟨⟨stackPages, m1⟩, h1, h⟩ := Except.bind_ok_iff.mp h
  obtain ⟨⟨dynamicPages, m2⟩, h2, h⟩ := Except.bind_ok_iff.mp h
  obtain ⟨⟨staticPages, m3⟩, h3, h⟩ := Except.bind_ok_iff.mp h
  obtain ⟨⟨textPages, m4⟩, h4, h⟩ := Except.bind_ok_iff.mp h
  obtain ⟨rfl, rfl⟩ := Prod.mk.inj (Except.ok.inj h)
  obtain ⟨stack, hstack, hands1, rfl⟩ := reservePages_spec h1
  obtain ⟨dynamic, hdynamic, hands2, rfl⟩ := reservePages_spec h2
  obtain ⟨static, hstatic, hands3, rfl⟩ := reservePages_spec h3
  obtain ⟨text, htext, hands4, rfl⟩ := reservePages_spec h4
  exact ⟨stack, dynamic, static, text, hstack, hdynamic, hstatic, htext,
    hands1.append (hands2.append (hands3.append hands4)), rfl⟩

/-- The pages of a process without a stack. -/
def userPages (dynamic static text : List Nat) : List (Word × PageTable.Entry) :=
  pagesAt dynamicVpn dataEntry 0 dynamic ++
    (pagesAt staticVpn dataEntry 0 static ++ pagesAt textVpn textEntry 0 text)

variable {dynamic static text : List Nat}

/-- Where the dynamic pages begin. -/
theorem dynamicStart : DYNAMIC_START.toNat = 4096 * 0x10008 := rfl
/-- Where the static pages begin. -/
theorem staticStart : STATIC_START.toNat = 4096 * 0x10000 := rfl
/-- Where the text begins. -/
theorem textStart : TEXT_START.toNat = 4096 * 0x400 := rfl

/-- Without stack pages no address is on the stack. -/
theorem not_stack (hstack : s.stackPages = []) (addr : Word) :
    (decide (addr < STACK_LIMIT) && decide (s.stackBoundary ≤ addr)) = false := by
  have hbound : s.stackBoundary = STACK_LIMIT := by
    rw [stackBoundary, hstack]
    rfl
  rw [hbound, Bool.and_eq_false_iff, decide_eq_false_iff_not, decide_eq_false_iff_not,
    BitVec.lt_def, BitVec.le_def]
  omega

section Ranges

variable (hdynamic : dynamic.length ≤ numPages) (hstatic : static.length ≤ 8)
  (htext : text.length ≤ numPages) (addr : Word)

include hdynamic in
/-- The addresses of the dynamic pages. -/
theorem in_dynamic :
    inSegment DYNAMIC_START (ofFrames [] dynamic static text).dynamicPages addr = true ↔
      0x10008 ≤ addr.toNat / 4096 ∧ addr.toNat / 4096 < 0x10008 + dynamic.length := by
  unfold numPages at hdynamic
  have hlen : (ofFrames [] dynamic static text).dynamicPages.length = dynamic.length :=
    List.length_map _
  rw [inSegment_iff dynamicStart (by omega), hlen]

include hstatic in
/-- Those of the static pages. -/
theorem in_static :
    inSegment STATIC_START (ofFrames [] dynamic static text).staticPages addr = true ↔
      0x10000 ≤ addr.toNat / 4096 ∧ addr.toNat / 4096 < 0x10000 + static.length := by
  have hlen : (ofFrames [] dynamic static text).staticPages.length = static.length :=
    List.length_map _
  rw [inSegment_iff staticStart (by omega), hlen]

include htext in
/-- Those of the text. -/
theorem in_text :
    inSegment TEXT_START (ofFrames [] dynamic static text).textPages addr = true ↔
      0x400 ≤ addr.toNat / 4096 ∧ addr.toNat / 4096 < 0x400 + text.length := by
  unfold numPages at htext
  have hlen : (ofFrames [] dynamic static text).textPages.length = text.length :=
    List.length_map _
  rw [inSegment_iff textStart (by omega), hlen]

end Ranges

/-- The pages, by the vector that answers for them. -/
theorem mem_userPages {vaddr : Word} {e : PageTable.Entry} {t : SegmentedPageTable}
    (ht : t = ofFrames [] dynamic static text) (hdynamic : dynamic.length ≤ numPages)
    (hstatic : static.length ≤ 8) (htext : text.length ≤ numPages) :
    (vaddr >>> 12, e) ∈ userPages dynamic static text ↔
      (inSegment DYNAMIC_START t.dynamicPages vaddr = true ∧
        vectorAt t.dynamicPages ((vaddr - DYNAMIC_START) >>> 12) = .ok e) ∨
      (inSegment STATIC_START t.staticPages vaddr = true ∧
        vectorAt t.staticPages ((vaddr - STATIC_START) >>> 12) = .ok e) ∨
      (inSegment TEXT_START t.textPages vaddr = true ∧
        vectorAt t.textPages ((vaddr - TEXT_START) >>> 12) = .ok e) := by
  subst ht
  unfold numPages at hdynamic htext
  rw [userPages, List.mem_append, List.mem_append]
  exact or_congr
    (mem_pagesAt_segment dynamicStart (by omega) fun j hj => dynamicVpn_toNat (by omega))
    (or_congr (mem_pagesAt_segment staticStart (by omega) fun j hj => staticVpn_toNat (by omega))
      (mem_pagesAt_segment textStart (by omega) fun j hj => textVpn_toNat (by omega)))

/-- **Walks.**  Without a stack a walk finds the pages of the three segments. -/
theorem holds_ofFrames (hdynamic : dynamic.length ≤ numPages) (hstatic : static.length ≤ 8)
    (htext : text.length ≤ numPages) :
    HoldsPages (ofFrames [] dynamic static text).walkTable (userPages dynamic static text) := by
  intro vaddr
  have inD : inSegment DYNAMIC_START (ofFrames [] dynamic static text).dynamicPages vaddr = true ↔
      _ := in_dynamic hdynamic vaddr
  have inS : inSegment STATIC_START (ofFrames [] dynamic static text).staticPages vaddr = true ↔
      _ := in_static hstatic vaddr
  have inT : inSegment TEXT_START (ofFrames [] dynamic static text).textPages vaddr = true ↔
      _ := in_text htext vaddr
  have hmem (e : PageTable.Entry) : (vaddr >>> 12, e) ∈ userPages dynamic static text ↔ _ :=
    mem_userPages rfl hdynamic hstatic htext
  unfold numPages at hdynamic htext
  rw [walkTable, not_stack rfl, if_neg Bool.false_ne_true]
  by_cases hD : inSegment DYNAMIC_START (ofFrames [] dynamic static text).dynamicPages vaddr = true
  · have hS := mt inS.mp (by have := inD.mp hD; omega)
    have hT := mt inT.mp (by have := inD.mp hD; omega)
    obtain ⟨e0, he0⟩ := vectorAt_segment dynamicStart (by simp [ofFrames]; omega) hD
    refine ⟨some e0, by rw [if_pos hD, he0]; rfl, fun e => ?_⟩
    simp only [hmem, hD, hS, hT, he0, Bool.false_eq_true, true_and, false_and, or_false,
      Option.some.injEq, Except.ok.injEq]
  · rw [if_neg hD]
    by_cases hS : inSegment STATIC_START (ofFrames [] dynamic static text).staticPages vaddr = true
    · have hT := mt inT.mp (by have := inS.mp hS; omega)
      obtain ⟨e0, he0⟩ := vectorAt_segment staticStart (by simp [ofFrames]; omega) hS
      refine ⟨some e0, by rw [if_pos hS, he0]; rfl, fun e => ?_⟩
      simp only [hmem, hD, hS, hT, he0, Bool.false_eq_true, true_and, false_and, or_false, false_or,
        Option.some.injEq, Except.ok.injEq]
    · rw [if_neg hS]
      by_cases hT : inSegment TEXT_START (ofFrames [] dynamic static text).textPages vaddr = true
      · obtain ⟨e0, he0⟩ := vectorAt_segment textStart (by simp [ofFrames]; omega) hT
        refine ⟨some e0, by rw [if_pos hT, he0]; rfl, fun e => ?_⟩
        simp only [hmem, hD, hS, hT, he0, Bool.false_eq_true, true_and, false_and, false_or,
          Option.some.injEq, Except.ok.injEq]
      · refine ⟨none, by rw [if_neg hT], fun e => ?_⟩
        simp only [hmem, hD, hS, hT, Bool.false_eq_true, false_and, or_false, reduceCtorEq]

/-! ### Tables without a stack -/

/-- The flags of a loop's entries do not depend on the frames. -/
theorem flags_pagesAt {vpn : Nat → Word} {entry : Word → PageTable.Entry} {fs : List Nat} {i : Nat}
    {fl : Bool × Bool × Bool × Bool} (hentry : ∀ p, (entry p).flags = fl) :
    (pagesAt vpn entry i fs).map (fun kv => (kv.1, kv.2.flags)) =
      (List.range' i fs.length).map fun j => (vpn j, fl) := by
  induction fs generalizing i with
  | nil => rfl
  | cons f fs ih =>
      rw [pagesAt, List.map_cons, ih, List.length_cons, List.range'_succ, List.map_cons, hentry]

/-- The flags of a process's pages depend on how many there are. -/
theorem flags_userPages {dynamic' static' text' : List Nat}
    (hdynamic : dynamic.length = dynamic'.length) (hstatic : static.length = static'.length)
    (htext : text.length = text'.length) :
    (userPages dynamic static text).map (fun kv => (kv.1, kv.2.flags)) =
      (userPages dynamic' static' text').map fun kv => (kv.1, kv.2.flags) := by
  have hdata (p : Word) : (dataEntry p).flags = (false, true, true, true) := rfl
  have htxt (p : Word) : (textEntry p).flags = (false, false, true, true) := rfl
  simp only [userPages, List.map_append, flags_pagesAt hdata, flags_pagesAt htxt, hdynamic, hstatic,
    htext]

/-- Their frames are those given. -/
theorem frames_userPages (h : ∀ f ∈ dynamic ++ (static ++ text), f < numPages) :
    (userPages dynamic static text).map (fun kv => kv.2.pfn.toNat) =
      dynamic ++ (static ++ text) := by
  have hin {fs : List Nat} (hsub : fs ⊆ dynamic ++ (static ++ text)) : ∀ f ∈ fs, f < numPages :=
    fun f hf => h f (hsub hf)
  rw [userPages, List.map_append, List.map_append, frames_pagesAt (fun _ => rfl) (hin (by simp)),
    frames_pagesAt (fun _ => rfl) (hin (by simp)), frames_pagesAt (fun _ => rfl) (hin (by simp))]

/-- A segmented table without a stack and a hash table with the same pages. -/
structure Matched (a b d : Word) (s : SegmentedPageTable) (h : HashPageTable) : Prop where
  alike : Alike s h
  vectors : ∃ dynamic static text, dynamic.length = d.toNat ∧ static.length = b.toNat ∧
    text.length = a.toNat ∧ s = ofFrames [] dynamic static text
  wf : h.table.WF
  vpns : ∀ k, k ∈ h.vpns ↔ Initial a b d k.toNat
  few : a.toNat + b.toNat + d.toNat ≤ numPages
  static : b.toNat ≤ 8

variable {h : HashPageTable} {n n' : MemoryManager}

/-- The pages of a loop over consecutive pages. -/
theorem mem_keys_pagesAt {vpn : Nat → Word} {entry : Word → PageTable.Entry} {fs : List Nat}
    {k : Nat} (hvpn : ∀ j < fs.length, (vpn j).toNat = k + j) (page : Word) :
    page ∈ (pagesAt vpn entry 0 fs).map Prod.fst ↔ k ≤ page.toNat ∧ page.toNat < k + fs.length := by
  rw [mem_map_fst_pagesAt]
  constructor
  · rintro ⟨j, -, hj, rfl⟩
    rw [hvpn j (by omega)]
    omega
  · rintro ⟨hlow, hhigh⟩
    refine ⟨page.toNat - k, by omega, by omega, BitVec.eq_of_toNat_eq ?_⟩
    rw [hvpn _ (by omega)]
    omega

/-- **Construction.**  Without a stack, and with at least one page, the two
constructors make matching tables. -/
theorem construct_matched (hs : construct a b 0 d m = .ok (s, m'))
    (hh : HashPageTable.construct a b 0 d n = .ok (h, n')) (hb : b.toNat ≤ 8)
    (hpos : 0 < a.toNat + b.toNat + d.toNat) : Matched a b d s h := by
  obtain ⟨stack, dynamic, static, text, hstack, hdynamic, hstatic, htext, hands, rfl⟩ :=
    construct_spec hs
  obtain ⟨text', static', stack', dynamic', htext', hstatic', hstack', hdynamic', hands', hwf,
    hperm⟩ := HashPageTable.construct_segments hh (by omega) (Or.inr hb)
  obtain rfl := List.length_eq_zero_iff.mp hstack
  obtain rfl := List.length_eq_zero_iff.mp hstack'
  rw [List.nil_append] at hands hands'
  rw [initialPages, pagesAt, List.nil_append, ← userPages] at hperm
  have hlen := hands.length_le
  simp only [List.length_append] at hlen
  have hframes := frames_userPages fun f hf => (hands.fresh hf).2.2
  have hswap : (text' ++ (static' ++ dynamic')).Perm (dynamic' ++ (static' ++ text')) := by
    refine List.perm_append_comm.trans ?_
    rw [List.append_assoc]
    exact (List.perm_append_comm_assoc _ _ _)
  have hframes' := frames_userPages fun f hf => (hands'.fresh (hswap.mem_iff.mpr hf)).2.2
  refine ⟨?_, ⟨dynamic, static, text, hdynamic, hstatic, htext, rfl⟩, hwf, fun k => ?_, by omega,
    hb⟩
  · refine Alike.of_holds (holds_ofFrames (by omega) (by omega) (by omega))
      ((HashPageTable.holds hwf).perm hperm)
      (flags_userPages (by omega) (by omega) (by omega)) ?_ ?_
    · rw [hframes]
      exact hands.nodup
    · rw [hframes']
      exact hswap.nodup_iff.mp hands'.nodup
  · unfold numPages at hlen
    rw [HashPageTable.vpns, (hperm.map Prod.fst).mem_iff, userPages, List.map_append,
      List.map_append, List.mem_append, List.mem_append,
      mem_keys_pagesAt fun j hj => dynamicVpn_toNat (by omega),
      mem_keys_pagesAt fun j hj => staticVpn_toNat (by omega),
      mem_keys_pagesAt fun j hj => textVpn_toNat (by omega), Initial, hdynamic', hstatic', htext']
    tauto

/-! ### Calls -/

/-- The page that a page number names once it is shifted into an address. -/
theorem page_shift (vpn : Word) : (vpn <<< 12).toNat / 4096 = vpn.toNat % 2 ^ 20 := by
  have hlt := vpn.isLt
  rw [BitVec.toNat_shiftLeft, Nat.shiftLeft_eq]
  omega

/-- The page after the heap is the only one that is added. -/
theorem pushDynamic_eq {pte : PageTable.Entry} {vpn : Word} (hlen : s.dynamicPages.length = d.toNat)
    (hd : d.toNat ≤ numPages) :
    s.pushDynamic pte (vpn <<< 12) =
      if vpn.toNat % 2 ^ 20 = 0x10008 + d.toNat then
        { s with dynamicPages := s.dynamicPages ++ [pte] } else s := by
  unfold numPages at hd
  have hlt := vpn.isLt
  have hiff : (vpn <<< 12 - DYNAMIC_START) >>> 12 = BitVec.ofNat 32 s.dynamicPages.length ↔
      vpn.toNat % 2 ^ 20 = 0x10008 + d.toNat := by
    rw [← BitVec.toNat_inj, BitVec.toNat_ushiftRight, BitVec.toNat_sub, BitVec.toNat_shiftLeft,
      BitVec.toNat_ofNat, Nat.shiftRight_eq_div_pow, Nat.shiftLeft_eq, dynamicStart, hlen]
    omega
  rw [pushDynamic]
  split
  case isTrue hpush => rw [if_pos (hiff.mp hpush)]
  case isFalse hpush => rw [if_neg (mt hiff.mpr hpush)]

/-- A new dynamic page leaves the static ones. -/
@[simp] theorem pushDynamic_staticPages (pte : PageTable.Entry) (addr : Word) :
    (s.pushDynamic pte addr).staticPages = s.staticPages := by
  rw [pushDynamic]
  split <;> rfl

/-- It leaves the text. -/
@[simp] theorem pushDynamic_textPages (pte : PageTable.Entry) (addr : Word) :
    (s.pushDynamic pte addr).textPages = s.textPages := by
  rw [pushDynamic]
  split <;> rfl

/-- The initial pages, by the vector that has them. -/
theorem Matched.initial_iff (hm : Matched a b d s h) (vpn : Word) :
    Initial a b d (vpn.toNat % 2 ^ 20) ↔
      inSegment DYNAMIC_START s.dynamicPages (vpn <<< 12) = true ∨
      inSegment STATIC_START s.staticPages (vpn <<< 12) = true ∨
      inSegment TEXT_START s.textPages (vpn <<< 12) = true := by
  obtain ⟨dynamic, static, text, hdynamic, hstatic, htext, rfl⟩ := hm.vectors
  have hfew := hm.few
  have hb := hm.static
  rw [in_dynamic (by omega), in_static (by omega), in_text (by omega), page_shift, hdynamic,
    hstatic, htext, Initial]
  tauto

/-- **A call.**  `mapPTE` maps a page that a segment has, and otherwise refuses,
adding the page if it is the one after the heap. -/
theorem Matched.call (hm : Matched a b d s h) (pte : PageTable.Entry) (vpn : Word) :
    (Initial a b d (vpn.toNat % 2 ^ 20) → ∀ result s' m',
      s.mapPTE m pte vpn = .ok (result, s', m') → result = true) ∧
    (¬ Initial a b d (vpn.toNat % 2 ^ 20) →
      s.mapPTE m pte vpn = .ok (false, s.pushDynamic pte (vpn <<< 12), m)) := by
  rw [hm.initial_iff]
  have hstack : s.stackPages = [] := by
    obtain ⟨dynamic, static, text, -, -, -, rfl⟩ := hm.vectors
    rfl
  simp only [SegmentedPageTable.mapPTE, not_stack hstack, Bool.false_eq_true, if_false,
    pushDynamic_staticPages, pushDynamic_textPages]
  constructor
  · intro hinit result s' m' hcall
    by_cases hD : inSegment DYNAMIC_START s.dynamicPages (vpn <<< 12) = true
    · rw [if_pos hD] at hcall
      obtain ⟨⟨pages, m1⟩, -, hret⟩ := Except.bind_ok_iff.mp hcall
      exact (Prod.mk.inj (Except.ok.inj hret)).1.symm
    rw [if_neg hD] at hcall
    by_cases hS : inSegment STATIC_START s.staticPages (vpn <<< 12) = true
    · rw [if_pos hS] at hcall
      obtain ⟨⟨pages, m1⟩, -, hret⟩ := Except.bind_ok_iff.mp hcall
      exact (Prod.mk.inj (Except.ok.inj hret)).1.symm
    rw [if_neg hS] at hcall
    by_cases hT : inSegment TEXT_START s.textPages (vpn <<< 12) = true
    · rw [if_pos hT] at hcall
      obtain ⟨⟨pages, m1⟩, -, hret⟩ := Except.bind_ok_iff.mp hcall
      exact (Prod.mk.inj (Except.ok.inj hret)).1.symm
    · exact absurd hinit (by simp [hD, hS, hT])
  · intro hout
    obtain ⟨hD, hS, hT⟩ : _ ∧ _ ∧ _ := by simpa only [not_or] using hout
    rw [if_neg hD, if_neg hS, if_neg hT]

/-- What the hash table does with a call. -/
theorem Matched.hash_call (hm : Matched a b d s h) (pte : PageTable.Entry) (vpn : Word) :
    (vpn < TEXT_START_VPN ∨ STACK_LIMIT_VPN ≤ vpn → h.mapPTE pte vpn = .ok (false, h)) ∧
    (¬ (vpn < TEXT_START_VPN ∨ STACK_LIMIT_VPN ≤ vpn) →
      ∃ result h', h.mapPTE pte vpn = .ok (result, h') ∧
        (result = true ↔ ¬ Initial a b d vpn.toNat)) := by
  constructor
  · intro hout
    rw [HashPageTable.mapPTE, if_pos (by simpa using hout)]
  · intro hin
    obtain ⟨table, hemplace, -, -⟩ := hm.wf.emplace vpn pte
    have hkey : vpn ∈ h.table.keys ↔ Initial a b d vpn.toNat := hm.vpns vpn
    rw [HashPageTable.mapPTE, if_neg (by simpa using hin), hemplace]
    exact ⟨_, ⟨table⟩, rfl, by rw [decide_eq_true_iff, hkey]⟩

/-- The page after the heap is found only in the segmented table once it was
added there. -/
theorem Matched.not_alike_push (hm : Matched a b d s h) {pte : PageTable.Entry} :
    ¬ Alike { s with dynamicPages := s.dynamicPages ++ [pte] } h := by
  intro halike
  obtain ⟨dynamic, static, text, hdynamic, -, -, rfl⟩ := hm.vectors
  have hfew := hm.few
  unfold numPages at hfew
  obtain ⟨vaddr, hvaddr⟩ : ∃ vaddr : Word, vaddr.toNat = 4096 * (0x10008 + d.toNat) :=
    ⟨BitVec.ofNat 32 (4096 * (0x10008 + d.toNat)), by rw [BitVec.toNat_ofNat]; omega⟩
  obtain ⟨o, o', ho, ho', hmap⟩ := halike.walks vaddr
  have hlen : ((ofFrames [] dynamic static text).dynamicPages ++ [pte]).length = d.toNat + 1 := by
    rw [List.length_append, ← hdynamic]
    exact congrArg (· + 1) (List.length_map _)
  have hin : inSegment DYNAMIC_START ((ofFrames [] dynamic static text).dynamicPages ++ [pte])
      vaddr = true := by
    rw [inSegment_iff dynamicStart (by omega)]
    omega
  have hstack : ({ ofFrames [] dynamic static text with
      dynamicPages := (ofFrames [] dynamic static text).dynamicPages ++ [pte] } :
        SegmentedPageTable).stackPages = [] := rfl
  obtain ⟨e, he⟩ := vectorAt_segment dynamicStart (by omega) hin
  rw [walkTable, not_stack hstack, if_neg Bool.false_ne_true, if_pos hin, he] at ho
  obtain rfl := Except.ok.inj ho
  cases o' with
  | none => cases hmap
  | some e' =>
      have hmem := (HashPageTable.holds hm.wf).mem ho'
      have hpage : (vaddr >>> 12).toNat = 0x10008 + d.toNat := by
        rw [BitVec.toNat_ushiftRight, Nat.shiftRight_eq_div_pow, hvaddr]
        omega
      have hinit := (hm.vpns _).mp (List.mem_map_of_mem hmem)
      have hb := hm.static
      rw [hpage, Initial] at hinit
      omega

/-- After interchangeable calls both tables walk alike. -/
theorem alike_of_interchangeable {calls : List (PageTable.Entry × Word)}
    (hrun : Interchangeable calls s m h) : Alike s h := by
  cases calls with
  | nil => exact hrun
  | cons call calls => exact hrun.1

/-- A page of the user space is its number. -/
theorem user_page {vpn : Word} (h : ¬ (vpn < TEXT_START_VPN ∨ STACK_LIMIT_VPN ≤ vpn)) :
    vpn.toNat % 2 ^ 20 = vpn.toNat := by
  have hlimit : STACK_LIMIT_VPN.toNat = 0x80000 := rfl
  rw [not_or, BitVec.le_def, hlimit] at h
  omega

/-- What a refused page is not. -/
theorem outside_of_refused {vpn : Word} (h : Refused a b d vpn) :
    (vpn < TEXT_START_VPN ∨ STACK_LIMIT_VPN ≤ vpn) ∧ ¬ Initial a b d (vpn.toNat % 2 ^ 20) ∧
      vpn.toNat % 2 ^ 20 ≠ 0x10008 + d.toNat := by
  rcases h with hlow | ⟨hhigh, hnot⟩
  · have htext : TEXT_START_VPN.toNat = 0x400 := rfl
    have hlt := BitVec.lt_def.mp hlow
    refine ⟨Or.inl hlow, ?_, by omega⟩
    rw [Initial]
    omega
  · exact ⟨Or.inr hhigh, hnot⟩

/-- **A run of calls.**  Matching tables stay alike as long as both refuse. -/
theorem Matched.alike_iff (hm : Matched a b d s h)
    (calls : List (PageTable.Entry × Word)) :
    Interchangeable calls s m h ↔ ∀ call ∈ calls, Refused a b d call.2 := by
  induction calls with
  | nil => exact iff_of_true hm.alike (by simp)
  | cons call calls ih =>
      obtain ⟨pte, vpn⟩ := call
      have hfew := hm.few
      have hlen : s.dynamicPages.length = d.toNat := by
        obtain ⟨dynamic, static, text, hdynamic, -, -, rfl⟩ := hm.vectors
        rw [← hdynamic]
        exact List.length_map _
      have hpush : s.pushDynamic pte (vpn <<< 12) = _ := pushDynamic_eq hlen (by omega)
      obtain ⟨hmapped, hother⟩ := hm.call (m := m) pte vpn
      obtain ⟨hrefuse, haccept⟩ := hm.hash_call pte vpn
      rw [List.forall_mem_cons]
      constructor
      · rintro ⟨-, result, s', m', h', hs, hh, -, hrest⟩
        by_cases hout : vpn < TEXT_START_VPN ∨ STACK_LIMIT_VPN ≤ vpn
        · rw [hrefuse hout] at hh
          obtain ⟨rfl, rfl⟩ := Prod.mk.inj (Except.ok.inj hh)
          have hnot : ¬ Initial a b d (vpn.toNat % 2 ^ 20) := fun hinit =>
            absurd (hmapped hinit _ _ _ hs) Bool.false_ne_true
          rw [hother hnot] at hs
          obtain ⟨-, hst⟩ := Prod.mk.inj (Except.ok.inj hs)
          obtain ⟨rfl, rfl⟩ := Prod.mk.inj hst
          by_cases hnext : vpn.toNat % 2 ^ 20 = 0x10008 + d.toNat
          · rw [hpush, if_pos hnext] at hrest
            exact absurd (alike_of_interchangeable hrest) hm.not_alike_push
          · rw [hpush, if_neg hnext] at hrest
            exact ⟨hout.imp_right fun hhigh => ⟨hhigh, hnot, hnext⟩, ih.mp hrest⟩
        · -- the hash table maps exactly what the vectors do not
          obtain ⟨result', h1, hh1, hiff⟩ := haccept hout
          obtain ⟨rfl, -⟩ := Prod.mk.inj (Except.ok.inj (hh.symm.trans hh1))
          rw [user_page hout] at hmapped hother
          by_cases hinit : Initial a b d vpn.toNat
          · exact absurd hinit (hiff.mp (hmapped hinit _ _ _ hs))
          · rw [hother hinit] at hs
            obtain ⟨rfl, -⟩ := Prod.mk.inj (Except.ok.inj hs)
            exact absurd (hiff.mpr hinit) Bool.false_ne_true
      · rintro ⟨hrefused, hrest⟩
        obtain ⟨hout, hnot, hnext⟩ := outside_of_refused hrefused
        rw [hpush, if_neg hnext] at hother
        exact ⟨hm.alike, false, s, m, h, hother hnot, hrefuse hout,
          fun hfalse => absurd hfalse Bool.false_ne_true, ih.mpr hrest⟩

/-- The lowest page of a stack is out of the range of its vector. -/
theorem stack_eq_zero (hs : construct a b c d m = .ok (s, m'))
    (hwalks : ∀ vaddr, ∃ o, s.walkTable vaddr = .ok o) : c = 0 := by
  obtain ⟨stack, dynamic, static, text, hstack, -, -, -, hands, rfl⟩ := construct_spec hs
  have hlen := hands.length_le
  rw [List.length_append] at hlen
  unfold numPages at hlen
  by_contra hc
  have hpos : 0 < c.toNat := Nat.pos_of_ne_zero fun h0 => hc (BitVec.eq_of_toNat_eq h0)
  have hpages : (ofFrames stack dynamic static text).stackPages.length = c.toNat :=
    (List.length_map _).trans hstack
  obtain ⟨vaddr, hvaddr⟩ : ∃ vaddr : Word, vaddr.toNat = 4096 * (0x80000 - c.toNat) :=
    ⟨BitVec.ofNat 32 (4096 * (0x80000 - c.toNat)), by rw [BitVec.toNat_ofNat]; omega⟩
  have hlimit : STACK_LIMIT.toNat = 4096 * 0x80000 := rfl
  have hbound : (ofFrames stack dynamic static text).stackBoundary.toNat = vaddr.toNat := by
    rw [stackBoundary, hpages, BitVec.toNat_sub, BitVec.toNat_shiftLeft, BitVec.toNat_ofNat,
      Nat.shiftLeft_eq, hlimit, hvaddr]
    omega
  have hon : (decide (vaddr < STACK_LIMIT) &&
      decide ((ofFrames stack dynamic static text).stackBoundary ≤ vaddr)) = true := by
    rw [Bool.and_eq_true, decide_eq_true_iff, decide_eq_true_iff, BitVec.lt_def, BitVec.le_def]
    omega
  have hindex : (0x80000#32 - vaddr >>> 12).toNat = c.toNat := by
    rw [BitVec.toNat_sub, BitVec.toNat_ushiftRight, Nat.shiftRight_eq_div_pow, hvaddr,
      BitVec.toNat_ofNat]
    omega
  obtain ⟨o, ho⟩ := hwalks vaddr
  rw [walkTable, if_pos hon] at ho
  obtain ⟨e, he, -⟩ := Except.bind_ok_iff.mp ho
  have hlt := (List.getElem?_eq_some_iff.mp (vectorAt_eq.mp he)).1
  omega

/-- A hash table for no pages has no buckets, so it cannot be walked. -/
theorem pages_pos (hh : HashPageTable.construct a b 0 d n = .ok (h, n'))
    (hwalks : ∀ vaddr, ∃ o, h.walkTable vaddr = .ok o) : 0 < a.toNat + b.toNat + d.toNat := by
  by_contra hzero
  obtain rfl : a = 0 := BitVec.eq_of_toNat_eq (by simp; omega)
  obtain rfl : b = 0 := BitVec.eq_of_toNat_eq (by simp; omega)
  obtain rfl : d = 0 := BitVec.eq_of_toNat_eq (by simp; omega)
  obtain ⟨rfl, -⟩ := Prod.mk.inj (Except.ok.inj hh)
  obtain ⟨o, ho⟩ := hwalks 0
  cases ho

/-- **Exchanging the tables.**  The two tables are alike over a run of `mapPTE`
calls exactly when there is no stack, there is a page, and both tables refuse
every call. -/
theorem interchangeable_iff (hs : construct a b c d m = .ok (s, m'))
    (hh : HashPageTable.construct a b c d n = .ok (h, n')) (hb : b.toNat ≤ 8)
    (calls : List (PageTable.Entry × Word)) :
    Interchangeable calls s m' h ↔
      c = 0 ∧ (a ≠ 0 ∨ b ≠ 0 ∨ d ≠ 0) ∧ ∀ call ∈ calls, Refused a b d call.2 := by
  have hpos_iff : a ≠ 0 ∨ b ≠ 0 ∨ d ≠ 0 ↔ 0 < a.toNat + b.toNat + d.toNat := by
    rw [← BitVec.toNat_ne_iff_ne, ← BitVec.toNat_ne_iff_ne, ← BitVec.toNat_ne_iff_ne,
      show (0 : Word).toNat = 0 from rfl]
    omega
  rw [hpos_iff]
  constructor
  · intro hrun
    have halike := alike_of_interchangeable hrun
    obtain rfl := stack_eq_zero hs fun vaddr => by
      obtain ⟨o, -, ho, -⟩ := halike.walks vaddr
      exact ⟨o, ho⟩
    have hpos := pages_pos hh fun vaddr => by
      obtain ⟨-, o, -, ho, -⟩ := halike.walks vaddr
      exact ⟨o, ho⟩
    exact ⟨rfl, hpos, ((construct_matched hs hh hb hpos).alike_iff calls).mp hrun⟩
  · rintro ⟨rfl, hpos, hcalls⟩
    exact ((construct_matched hs hh hb hpos).alike_iff calls).mpr hcalls

/-- One page in each segment but the stack, and a call for a kernel page. -/
theorem interchangeable_without_stack :
    ∃ s m' h n', construct 1 1 0 1 (.construct 0x80010000#32) = .ok (s, m') ∧
      HashPageTable.construct 1 1 0 1 (.construct 0x80010000#32) = .ok (h, n') ∧
      Interchangeable [({}, 0x80000#32)] s m' h := by
  have hs : (construct 1 1 0 1 (.construct 0x80010000#32)).isOk = true := by decide +kernel
  have hh : (HashPageTable.construct 1 1 0 1 (.construct 0x80010000#32)).isOk = true := by
    decide +kernel
  obtain ⟨⟨s, m'⟩, hs⟩ := Except.exists_of_isOk hs
  obtain ⟨⟨h, n'⟩, hh⟩ := Except.exists_of_isOk hh
  refine ⟨s, m', h, n', hs, hh, (interchangeable_iff hs hh (by decide) _).mpr ?_⟩
  refine ⟨rfl, Or.inl (by decide), fun call hcall => ?_⟩
  rw [List.mem_singleton.mp hcall, Refused, Initial]
  decide

/-- With the default sizes, a walk of the lowest stack page is out of range. -/
theorem not_interchangeable_stack :
    ∃ s m' h n', construct 1 4 2 0 (.construct 0x80010000#32) = .ok (s, m') ∧
      HashPageTable.construct 1 4 2 0 (.construct 0x80010000#32) = .ok (h, n') ∧
      s.walkTable 0x7FFFE000#32 = .error (.assertFailed "idx < _size") ∧
      ¬ Interchangeable [] s m' h := by
  have hs : (construct 1 4 2 0 (.construct 0x80010000#32)).isOk = true := by decide +kernel
  have hh : (HashPageTable.construct 1 4 2 0 (.construct 0x80010000#32)).isOk = true := by
    decide +kernel
  obtain ⟨⟨s, m'⟩, hs⟩ := Except.exists_of_isOk hs
  obtain ⟨⟨h, n'⟩, hh⟩ := Except.exists_of_isOk hh
  have hwalk : (construct 1 4 2 0 (.construct 0x80010000#32) >>= fun r =>
      r.1.walkTable 0x7FFFE000#32) = .error (.assertFailed "idx < _size") := by decide +kernel
  rw [hs, Except.ok_bind] at hwalk
  refine ⟨s, m', h, n', hs, hh, hwalk, fun halike => ?_⟩
  obtain ⟨o, -, ho, -⟩ := halike.walks 0x7FFFE000#32
  rw [hwalk] at ho
  cases ho

end SegmentedPageTable

end Kernel
