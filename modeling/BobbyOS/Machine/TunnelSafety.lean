import BobbyOS.Machine.HostSafety
import BobbyOS.Machine.MemorySafety
import BobbyOS.Machine.OpenFiles

/-!
# VMTUNNEL and the host process

VMTUNNEL hands words of the guest to the host: addresses to read and to store
at, descriptors, counts, paths.  This module says for which requests and which
answers of the host the instruction responds or traps.

* `runStores_inGuest_iff`, `request_contained_iff`: the accesses to guest memory;
* `readCString_ok_iff`, `readCString_contained_iff`: the strings;
* `openPath_contained_iff`, `reply_contained_iff`: the host's side;
* `tunnelSound_iff`: all of it, and when FWRITE, which falls through into FSEEK,
  leaves the file offset alone.
-/

namespace Hardware

variable {s : Machine} {inp : HostInput}

/-- The accesses up to the first one that misses are aligned and inside the host
array. -/
def AccessesInside (tlb : TLB) (asid : Byte) : List (Word × Nat) → Prop
  | [] => True
  | (addr, width) :: rest =>
      AccessInMemory tlb asid addr width ∧
        ((∃ p, tlb.translate addr .load asid = .ok p) → AccessesInside tlb asid rest)

/-- `n` bytes from `addr` on. -/
def byteAccesses (addr : Word) : Nat → List (Word × Nat)
  | 0 => []
  | n + 1 => (addr, 1) :: byteAccesses (addr + 1#32) n

/-! ### Containment of the pieces -/

/-- An access stays in the guest if it does and what follows it does. -/
theorem ofAccess_inGuest_iff {α β : Type} {x : Except Fault α} {k : α → Outcome β} :
    (Outcome.ofAccess s x k).InGuest ↔ Contained x ∧ ∀ a, x = .ok a → (k a).InGuest := by
  cases x with
  | ok a => simp [Outcome.ofAccess]
  | error e => cases e <;> simp [Outcome.ofAccess, Outcome.InGuest, Contained]

/-- A sequence stays inside if its parts do. -/
theorem contained_bind_iff {α β : Type} {x : Except Fault α} {f : α → Except Fault β} :
    Contained (x >>= f) ↔ Contained x ∧ ∀ a, x = .ok a → Contained (f a) := by
  cases x with
  | ok a => simp
  | error e => simp [Contained, bind, Except.bind]

/-- Whether an address is translated does not depend on the access. -/
theorem translates_iff {tlb : TLB} {asid : Byte} {addr : Word} (type : LookupType) :
    (∃ p, tlb.translate addr .load asid = .ok p) ↔ ∃ p, tlb.translate addr type asid = .ok p :=
  ⟨fun ⟨p, hp⟩ => ⟨p, translate_ok_type type hp⟩, fun ⟨p, hp⟩ => ⟨p, translate_ok_type .load hp⟩⟩

/-- How many bytes a store takes. -/
def Store.width : Store → Nat
  | byte _ _ => 1
  | word _ _ => 4

/-- A store stays inside exactly if its bytes are in the memory. -/
theorem store_contained_iff {st : Store} {m : Memory} {tlb : TLB} {asid : Byte} :
    Contained (st.set m tlb asid) ↔ AccessInMemory tlb asid st.vaddr st.width := by
  cases st with
  | byte a b => exact setByte_contained_iff m a b tlb asid
  | word a w => exact setWord_contained_iff m a w tlb asid

/-- A contained store returns exactly when its address translates. -/
theorem store_ok_iff {st : Store} {m : Memory} {tlb : TLB} {asid : Byte}
    (h : Contained (st.set m tlb asid)) :
    (∃ m', st.set m tlb asid = .ok m') ↔ ∃ p, tlb.translate st.vaddr .store asid = .ok p := by
  cases hset : st.set m tlb asid with
  | ok m' =>
      refine iff_of_true ⟨m', rfl⟩ ?_
      cases hp : tlb.translate st.vaddr .store asid with
      | ok p => exact ⟨p, rfl⟩
      | error e =>
          rw [Machine.store_set_miss hp] at hset
          cases hset
  | error e =>
      obtain ⟨t, rfl⟩ := h e hset
      refine iff_of_false (fun ⟨m', hm'⟩ => by cases hm') (fun ⟨p, hp⟩ => ?_)
      rw [Machine.store_set_trap hset] at hp
      cases hp

namespace Machine

/-- **The stores.** -/
theorem runStores_inGuest_iff {stores : List Store} :
    (s.runStores stores).InGuest ↔
      AccessesInside s.tlb s.asid (stores.map fun st => (st.vaddr, st.width)) := by
  induction stores generalizing s with
  | nil => exact iff_of_true trivial trivial
  | cons st rest ih =>
      rw [runStores, store, ofAccess_inGuest_iff, List.map_cons, AccessesInside,
        store_contained_iff]
      refine and_congr_right fun hin => ?_
      have hok : (∃ m', st.set s.memory s.tlb s.asid = .ok m') ↔ _ :=
        store_ok_iff (store_contained_iff.mpr hin)
      rw [translates_iff .store, ← hok]
      constructor
      · rintro h ⟨m', hm'⟩
        exact (ih (s := { s with memory := m' })).mp (h m' hm')
      · intro h m' hm'
        exact (ih (s := { s with memory := m' })).mpr (h ⟨m', hm'⟩)

/-- The words of a request block. -/
def HoldsRequest (s : Machine) (req arg0 arg1 arg2 : Word) : Prop :=
  let reqAddr := s.registerFile Register.A0
  s.getWord reqAddr = .ok req ∧ s.getWord (reqAddr + 4#32) = .ok arg0 ∧
    s.getWord (reqAddr + 8#32) = .ok arg1 ∧ s.getWord (reqAddr + 12#32) = .ok arg2

/-- The request is read where its four words are. -/
theorem request_ok_iff {req arg0 arg1 arg2 : Word} :
    s.request = .ok (req, arg0, arg1, arg2) ↔ s.HoldsRequest req arg0 arg1 arg2 := by
  simp only [request, Except.bind_ok_iff, HoldsRequest, Except.ok.injEq, Prod.mk.injEq]
  constructor
  · rintro ⟨_, h0, _, h1, _, h2, _, h3, rfl, rfl, rfl, rfl⟩
    exact ⟨h0, h1, h2, h3⟩
  · rintro ⟨h0, h1, h2, h3⟩
    exact ⟨_, h0, _, h1, _, h2, _, h3, rfl, rfl, rfl, rfl⟩

/-- A load that is contained returns exactly when its address translates. -/
theorem getWord_ok_iff {m : Memory} {addr : Word} (h : AccessInMemory s.tlb s.asid addr 4) :
    (∃ w, m.getWord addr s.tlb s.asid = .ok w) ↔
      ∃ p, s.tlb.translate addr .load s.asid = .ok p := by
  cases hp : s.tlb.translate addr .load s.asid with
  | error e =>
      refine iff_of_false (fun ⟨w, hw⟩ => ?_) (fun ⟨p, hp⟩ => by cases hp)
      simp [Memory.getWord, hp] at hw
  | ok p =>
      refine iff_of_true ?_ ⟨p, rfl⟩
      cases hw : m.getWord addr s.tlb s.asid with
      | ok w => exact ⟨w, rfl⟩
      | error e =>
          obtain ⟨t, rfl⟩ := (getWord_contained_iff m addr s.tlb s.asid).mpr h e hw
          have hno : NoTrap (m.getWord addr s.tlb s.asid) := by
            simp only [Memory.getWord, hp, Except.ok_bind]
            exact noTrap_bind noTrap_assert fun _ => noTrap_bind noTrap_read fun _ =>
              noTrap_bind noTrap_read fun _ => noTrap_bind noTrap_read fun _ =>
              noTrap_bind noTrap_read fun _ => noTrap_ok
          exact absurd hw (hno t)

/-- One more word to be read. -/
theorem getWord_bind_contained_iff {α : Type} {addr : Word} {rest : List (Word × Nat)}
    {f : Word → Except Fault α}
    (hf : ∀ w, Contained (f w) ↔ AccessesInside s.tlb s.asid rest) :
    Contained (s.getWord addr >>= f) ↔ AccessesInside s.tlb s.asid ((addr, 4) :: rest) := by
  rw [contained_bind_iff, AccessesInside, getWord, getWord_contained_iff]
  refine and_congr_right fun hin => ?_
  rw [← getWord_ok_iff (m := s.memory) hin]
  constructor
  · rintro h ⟨w, hw⟩
    exact (hf w).mp (h w hw)
  · intro h w hw
    exact (hf w).mpr (h ⟨w, hw⟩)

/-- The request block. -/
def requestAccesses (s : Machine) : List (Word × Nat) :=
  let reqAddr := s.registerFile Register.A0
  [(reqAddr, 4), (reqAddr + 4#32, 4), (reqAddr + 8#32, 4), (reqAddr + 12#32, 4)]

/-- **Reading the request.** -/
theorem request_contained_iff :
    Contained s.request ↔ AccessesInside s.tlb s.asid s.requestAccesses :=
  getWord_bind_contained_iff fun _ => getWord_bind_contained_iff fun _ =>
    getWord_bind_contained_iff fun _ => getWord_bind_contained_iff fun _ =>
      iff_of_true (contained_ok _) trivial

/-! ### Strings -/

/-- The string `bytes` stands at `addr`, with its NUL. -/
def HoldsString (s : Machine) (addr : Word) : List Byte → Prop
  | [] => s.getByte addr = .ok 0
  | b :: rest => s.getByte addr = .ok b ∧ b ≠ 0 ∧ s.HoldsString (addr + 1#32) rest

/-- The bytes stand at `addr`, none of them NUL, and the byte behind them misses
the TLB. -/
def MissesBehind (s : Machine) (addr : Word) : List Byte → Prop
  | [] => ∃ t, s.getByte addr = .error (.trap t)
  | b :: rest => s.getByte addr = .ok b ∧ b ≠ 0 ∧ s.MissesBehind (addr + 1#32) rest

/-- The string is read to its NUL. -/
theorem readCString_ok_iff {addr : Word} {fuel : Nat} {bytes : List Byte} :
    s.readCString addr fuel = .ok bytes ↔ bytes.length < fuel ∧ s.HoldsString addr bytes := by
  induction fuel generalizing addr bytes with
  | zero => simp [readCString]
  | succ fuel ih =>
      cases hb : s.getByte addr with
      | error e => cases bytes <;> simp [readCString, HoldsString, hb]
      | ok b =>
          by_cases h0 : b = 0
          · cases bytes with
            | nil => simp [readCString, HoldsString, hb, h0]
            | cons c rest =>
                subst h0
                simp only [readCString, HoldsString, hb, Except.ok_bind]
                refine iff_of_false (fun h => by cases h) ?_
                rintro ⟨-, hc, hne, -⟩
                exact hne (Except.ok.inj hc).symm
          · cases bytes with
            | nil => simp [readCString, HoldsString, hb, Except.bind_ok_iff]
            | cons c rest =>
                simp only [readCString, HoldsString, hb, Except.ok_bind, if_neg h0,
                  Except.bind_ok_iff, ih, Except.ok.injEq, List.cons.injEq, List.length_cons,
                  Nat.add_lt_add_iff_right]
                constructor
                · rintro ⟨a, ⟨hlt, ha⟩, rfl, rfl⟩
                  exact ⟨hlt, rfl, h0, ha⟩
                · rintro ⟨hlt, rfl, -, hrest⟩
                  exact ⟨rest, ⟨hlt, hrest⟩, rfl, rfl⟩

/-- The loop over a string ends: at its NUL or at a byte that misses. -/
def StringEnds (s : Machine) (addr : Word) (fuel : Nat) : Prop :=
  ∃ bytes, bytes.length < fuel ∧ (s.HoldsString addr bytes ∨ s.MissesBehind addr bytes)

/-- **Reading a string.** -/
theorem readCString_contained_iff {addr : Word} {fuel : Nat} :
    Contained (s.readCString addr fuel) ↔ s.StringEnds addr fuel := by
  induction fuel generalizing addr with
  | zero => simp [readCString, Contained, StringEnds]
  | succ fuel ih =>
      have hcons : ∀ b, s.getByte addr = .ok b → b ≠ 0 →
          (s.StringEnds addr (fuel + 1) ↔ s.StringEnds (addr + 1#32) fuel) := by
        intro b hb h0
        constructor
        · rintro ⟨bytes, hlt, hends⟩
          cases bytes with
          | nil =>
              rcases hends with hnul | ⟨t, hmiss⟩
              · exact absurd (Except.ok.inj (hb.symm.trans hnul)) h0
              · rw [hb] at hmiss
                cases hmiss
          | cons c rest =>
              exact ⟨rest, Nat.lt_of_succ_lt_succ hlt, hends.imp (·.2.2) (·.2.2)⟩
        · rintro ⟨rest, hlt, hends⟩
          exact ⟨b :: rest, Nat.succ_lt_succ hlt, hends.imp (⟨hb, h0, ·⟩) (⟨hb, h0, ·⟩)⟩
      rw [readCString, contained_bind_iff]
      cases hb : s.getByte addr with
      | error e =>
          have hcontained : Contained (Except.error e : Except Fault Byte) ↔ ∃ t, e = .trap t := by
            refine ⟨fun h => h e rfl, fun ht f hf => ?_⟩
            cases hf
            exact ht
          rw [hcontained]
          constructor
          · rintro ⟨⟨t, rfl⟩, -⟩
            exact ⟨[], Nat.succ_pos _, .inr ⟨t, hb⟩⟩
          · rintro ⟨bytes, -, hends⟩
            cases bytes with
            | nil =>
                rcases hends with hnul | ⟨t, hmiss⟩
                · rw [HoldsString, hb] at hnul
                  cases hnul
                · rw [hb] at hmiss
                  cases hmiss
                  exact ⟨⟨t, rfl⟩, fun _ h => by cases h⟩
            | cons c rest =>
                rcases hends with ⟨h, -⟩ | ⟨h, -⟩
                all_goals
                  rw [hb] at h
                  cases h
      | ok b =>
          by_cases h0 : b = 0
          · subst h0
            refine iff_of_true ⟨contained_ok _, fun a ha => ?_⟩ ⟨[], Nat.succ_pos _, .inl hb⟩
            cases ha
            exact contained_ok _
          · rw [hcons b hb h0, ← ih]
            simp only [contained_ok, true_and, Except.ok.injEq, forall_eq', if_neg h0,
              contained_bind_iff, implies_true, and_true]

end Machine

/-! ### Files -/

section Files

variable {fs : FileSystem} {h : Host} {vfd : Word} {f : OpenFile}

/-- What does not trap stays inside exactly if it has a result. -/
theorem contained_iff_of_noTrap {α : Type} {x : Except Fault α} (hx : NoTrap x) :
    Contained x ↔ ∃ a, x = .ok a := by
  cases x with
  | ok a => simp
  | error e =>
      refine iff_of_false (fun h => ?_) (fun ⟨a, ha⟩ => by cases ha)
      obtain ⟨t, rfl⟩ := h e rfl
      exact hx t rfl

/-- A descriptor is looked up where its slot has a file. -/
theorem deref_contained_iff :
    Contained (fs.deref vfd) ↔ ∃ f, fs.files[vfd.toNat]? = some (some f) := by
  unfold FileSystem.deref
  split <;> simp_all [Contained]

/-- A destructor does not trap. -/
theorem noTrap_destroy : NoTrap (f.destroy h) := by
  unfold OpenFile.destroy
  split <;> simp [NoTrap]

/-- A destructor stays inside exactly if the host descriptor is open. -/
theorem destroy_contained_iff : Contained (f.destroy h) ↔ h.IsOpen f.fd.toNat := by
  rw [contained_iff_of_noTrap noTrap_destroy]
  simp only [destroy_ok_iff, exists_and_left, exists_eq, and_true]

/-- A reallocation does not trap. -/
theorem noTrap_relocate {files : List (Option OpenFile)} : NoTrap (relocate files h) := by
  induction files generalizing h with
  | nil => exact noTrap_ok
  | cons slot rest ih =>
      cases slot with
      | none => exact ih
      | some f => exact noTrap_bind noTrap_destroy fun _ => ih

/-- A read stays inside exactly if the host delivers and the descriptor is open. -/
theorem read_contained_iff {count : Word} :
    Contained (f.read count inp h) ↔ inp.readLimit ≠ none ∧ h.IsOpen f.fd.toNat := by
  unfold OpenFile.read Host.IsOpen
  simp only [← Machine.host_file_iff]
  cases inp.readLimit with
  | none => simp [Contained]
  | some limit =>
      cases h.file f.fd with
      | none => simp [Contained]
      | some file =>
          simp only
          split <;> simp

/-- A close does if the descriptor of a file in the slot is open. -/
theorem close_contained_iff :
    Contained (fs.close vfd h) ↔
      ∀ f, fs.files[vfd.toNat]? = some (some f) → h.IsOpen f.fd.toNat := by
  unfold FileSystem.close
  split
  · rename_i hslot
    simp [hslot]
  · rename_i hslot
    simp [hslot]
  · rename_i file hslot
    simp [hslot, contained_bind_iff, destroy_contained_iff]

/-- An open returns: the file exists, and the table has an empty slot for it, or
room behind the last slot, or its files are open under different descriptors, so
that they can be relocated. -/
def OpenReturns (fs : FileSystem) (h : Host) (inp : HostInput) (filePath : List Byte)
    (flags : Word) : Prop :=
  inp.fileAt filePath flags ≠ none ∧
    match fs.freeVFDs.getLast? with
    | some last => fs.files[last.toNat]? = some none
    | none => fs.files.length < fs.capacity ∨
        ((liveFds fs.files).Nodup ∧ ∀ d ∈ liveFds fs.files, d = h.lowestFree ∨ h.IsOpen d)

/-- **Opening a file.** -/
theorem openPath_contained_iff {filePath : List Byte} {flags : Word} :
    Contained (fs.openPath filePath flags inp h) ↔ OpenReturns fs h inp filePath flags := by
  unfold FileSystem.openPath OpenReturns
  cases hcontent : inp.fileAt filePath flags with
  | none =>
      refine iff_of_false (fun hc => ?_) (fun hr => hr.1 rfl)
      split at hc
      · simp [OpenFile.construct, hcontent, Contained] at hc
      · split at hc
        · simp [Contained] at hc
        · simp [Contained] at hc
        · simp [OpenFile.construct, hcontent, Contained] at hc
  | some content =>
      have hconstruct : OpenFile.construct filePath flags inp h =
          .ok ({ fd := BitVec.ofNat 32 h.lowestFree }, (h.allocate content).2) := by
        simp only [OpenFile.construct, hcontent, Host.allocate]
      cases hlast : fs.freeVFDs.getLast? with
      | none =>
          simp only [hconstruct, Except.ok_bind]
          split
          · rename_i hroom
            simp [hroom]
          · rename_i hroom
            rw [contained_bind_iff, contained_iff_of_noTrap noTrap_relocate, relocate_ok_iff]
            simp [hroom, Host.allocate_isOpen_iff]
      | some last =>
          simp only
          split
          · rename_i hslot
            simp [Contained, hslot]
          · rename_i hslot
            simp [Contained, hslot]
          · rename_i hslot
            simp [hconstruct, hslot]

end Files

/-! ### The host's answer -/

namespace Machine

/-- The answer of the host to a request comes without a host exception. -/
def ReplyReturns (s : Machine) (inp : HostInput) (req arg0 arg1 : Word) : Prop :=
  match req.toNat with
  | 2 => s.StringEnds arg0 (2 ^ 32)
  | 5 => s.StringEnds arg0 (2 ^ 32) ∧ ∀ filePath, filePath.length < 2 ^ 32 →
      s.HoldsString arg0 filePath → OpenReturns s.fileSystem s.host inp filePath arg1
  | 6 => ∃ f, s.fileSystem.files[arg0.toNat]? = some (some f) ∧ inp.readLimit ≠ none ∧
      s.host.IsOpen f.fd.toNat
  | 7 => ∃ f, s.fileSystem.files[arg0.toNat]? = some (some f)
  | 8 => ∃ f, s.fileSystem.files[arg0.toNat]? = some (some f)
  | 9 => ∀ f, s.fileSystem.files[arg0.toNat]? = some (some f) → s.host.IsOpen f.fd.toNat
  | 10 => inp.stdin ≠ none
  | _ => True

section Reply

variable {req arg0 arg1 arg2 : Word}

/-- A seek does if the slot has a file. -/
theorem seekReply_contained_iff :
    Contained (s.seekReply inp arg0 arg1 arg2) ↔
      ∃ f, s.fileSystem.files[arg0.toNat]? = some (some f) := by
  rw [seekReply, contained_bind_iff, deref_contained_iff]
  simp

/-- **Replies.**  A request stays inside exactly if the host answers it. -/
theorem reply_contained_iff :
    Contained (s.reply inp req arg0 arg1 arg2) ↔ s.ReplyReturns inp req arg0 arg1 := by
  unfold reply ReplyReturns
  generalize req.toNat = n
  split
  · simp
  · simp [contained_bind_iff, readCString_contained_iff]
  · simp
  · simp
  · simp [contained_bind_iff, readCString_contained_iff, openPath_contained_iff,
      readCString_ok_iff]
  · rw [contained_bind_iff, deref_contained_iff]
    simp only [contained_bind_iff, read_contained_iff, contained_ok, implies_true, and_true,
      deref_ok_iff]
    constructor
    · rintro ⟨⟨f, hf⟩, h⟩
      exact ⟨f, hf, h f hf⟩
    · rintro ⟨f, hf, h⟩
      refine ⟨⟨f, hf⟩, fun g hg => ?_⟩
      cases hf.symm.trans hg
      exact h
  · exact seekReply_contained_iff
  · exact seekReply_contained_iff
  · simp [contained_bind_iff, close_contained_iff]
  · cases inp.stdin <;> simp [Contained]
  · refine iff_of_true (contained_ok _) ?_
    split
    case h_8 => trivial
    all_goals exact absurd rfl ‹_›

/-- How many bytes FREAD delivers: as many as were asked for, as the host is
willing to give and as the file has left.  All ones counts as an error. -/
def readLength (s : Machine) (inp : HostInput) (vfd count : Word) : Nat :=
  match s.fileSystem.files[vfd.toNat]?.join with
  | none => 0
  | some f =>
      match inp.readLimit, s.host.file f.fd with
      | some limit, some file =>
          let length := min (min count.toNat limit) (file.content.length - file.offset)
          if length = 0xFFFFFFFF then 0 else length
      | _, _ => 0

/-- The accesses with which a request ends: the bytes delivered, and the
response. -/
def replyAccesses (s : Machine) (inp : HostInput) (req arg0 arg1 arg2 : Word) :
    List (Word × Nat) :=
  let resAddr := s.registerFile Register.V0
  (match req.toNat with
    | 6 => byteAccesses arg1 (s.readLength inp arg0 arg2)
    | 10 => byteAccesses arg0 (min arg1.toNat (inp.stdin.getD []).length)
    | _ => []) ++ [(resAddr, 4), (resAddr + 4#32, 4)]

/-- The accesses of stored bytes. -/
theorem byteStores_accesses {addr : Word} {bytes : List Byte} :
    (Reply.stores.byteStores addr bytes).map (fun st => (st.vaddr, st.width)) =
      byteAccesses addr bytes.length := by
  induction bytes generalizing addr with
  | nil => rfl
  | cons b rest ih =>
      simp only [Reply.stores.byteStores, List.map_cons, List.length_cons, byteAccesses, ih]
      rfl

/-- The accesses of a stored reply. -/
theorem stores_accesses {r : Reply} {resAddr : Word} :
    (r.stores resAddr).map (fun st => (st.vaddr, st.width)) =
      byteAccesses r.destination r.bytes.length ++ [(resAddr, 4), (resAddr + 4#32, 4)] := by
  rw [Reply.stores, List.map_append, byteStores_accesses]
  rfl

/-- How many bytes a read delivers. -/
theorem read_length {f f' : OpenFile} {h' : Host} {bytes : List Byte}
    (hf : s.fileSystem.files[arg0.toNat]? = some (some f))
    (hread : f.read arg2 inp s.host = .ok (bytes, f', h')) :
    bytes.length = s.readLength inp arg0 arg2 := by
  unfold OpenFile.read at hread
  split at hread
  · rename_i limit file hlimit hfile
    have hlength : s.readLength inp arg0 arg2 =
        if min (min arg2.toNat limit) (file.content.length - file.offset) = 0xFFFFFFFF then 0
        else min (min arg2.toNat limit) (file.content.length - file.offset) := by
      unfold readLength
      simp only [hf, Option.join_some, hlimit, hfile]
    rw [hlength]
    simp only [List.length_take, List.length_drop] at hread
    split at hread
    · rename_i hall
      cases hread
      rw [if_pos hall]
      rfl
    · rename_i hall
      cases hread
      rw [if_neg hall, List.length_take, List.length_drop]
  · cases hread

/-- **The stores of an answer.** -/
theorem reply_stores {r : Reply} (h : s.reply inp req arg0 arg1 arg2 = .ok r) :
    (r.stores (s.registerFile Register.V0)).map (fun st => (st.vaddr, st.width)) =
      s.replyAccesses inp req arg0 arg1 arg2 := by
  rw [stores_accesses]
  unfold reply at h
  unfold replyAccesses
  generalize req.toNat = n at h
  split at h
  · cases h
    rfl
  · obtain ⟨out, -, hr⟩ := Except.bind_ok_iff.mp h
    cases hr
    rfl
  · cases h
    rfl
  · cases h
    rfl
  · obtain ⟨path, -, hr⟩ := Except.bind_ok_iff.mp h
    obtain ⟨x, -, hr⟩ := Except.bind_ok_iff.mp hr
    cases hr
    rfl
  · obtain ⟨f, hf, hr⟩ := Except.bind_ok_iff.mp h
    obtain ⟨x, hread, hr⟩ := Except.bind_ok_iff.mp hr
    cases hr
    simp only [read_length (deref_ok_iff.mp hf) hread]
  · obtain ⟨f, -, hr⟩ := Except.bind_ok_iff.mp h
    cases hr
    rfl
  · obtain ⟨f, -, hr⟩ := Except.bind_ok_iff.mp h
    cases hr
    rfl
  · obtain ⟨x, -, hr⟩ := Except.bind_ok_iff.mp h
    cases hr
    rfl
  · split at h
    · cases h
    · rename_i bytes hstdin
      cases h
      simp [hstdin]
  · cases h
    split
    case h_3 => rfl
    all_goals exact absurd rfl ‹_›

end Reply

/-- Where a request takes a string, the string is there. -/
def StringFound (s : Machine) (req arg0 : Word) : Prop :=
  req.toNat = 2 ∨ req.toNat = 5 → ∃ bytes : List Byte, bytes.length < 2 ^ 32 ∧
    s.HoldsString arg0 bytes

section Found

variable {req arg0 arg1 arg2 : Word}

/-- Looking a descriptor up does not trap. -/
theorem noTrap_deref {fs : FileSystem} {vfd : Word} : NoTrap (fs.deref vfd) := by
  unfold FileSystem.deref
  split <;> simp [NoTrap]

/-- Nor does opening a path. -/
theorem noTrap_openPath {fs : FileSystem} {h : Host} {filePath : List Byte} {flags : Word} :
    NoTrap (fs.openPath filePath flags inp h) := by
  have hconstruct : NoTrap (OpenFile.construct filePath flags inp h) := by
    unfold OpenFile.construct
    split <;> simp [NoTrap]
  unfold FileSystem.openPath
  split
  · refine noTrap_bind hconstruct fun _ => ?_
    simp only
    split
    · exact noTrap_ok
    · exact noTrap_bind noTrap_relocate fun _ => noTrap_ok
  · split
    · simp [NoTrap]
    · simp [NoTrap]
    · exact noTrap_bind hconstruct fun _ => noTrap_ok

/-- Only a string that misses makes the answer throw a guest trap. -/
theorem noTrap_reply (h : s.StringFound req arg0) : NoTrap (s.reply inp req arg0 arg1 arg2) := by
  have hstring : req.toNat = 2 ∨ req.toNat = 5 → NoTrap (s.readCString arg0 (2 ^ 32)) := by
    intro hreq t ht
    obtain ⟨bytes, hbytes⟩ := h hreq
    rw [readCString_ok_iff.mpr hbytes] at ht
    cases ht
  have hread : ∀ f : OpenFile, NoTrap (f.read arg2 inp s.host) := by
    intro f
    unfold OpenFile.read
    split
    · simp only
      split <;> simp [NoTrap]
    · simp [NoTrap]
  have hclose : NoTrap (s.fileSystem.close arg0 s.host) := by
    unfold FileSystem.close
    split
    · simp [NoTrap]
    · simp [NoTrap]
    · exact noTrap_bind noTrap_destroy fun _ => noTrap_ok
  have hseek : NoTrap (s.seekReply inp arg0 arg1 arg2) :=
    noTrap_bind noTrap_deref fun _ => noTrap_ok
  unfold reply
  generalize req.toNat = n at hstring
  split
  · exact noTrap_ok
  · exact noTrap_bind (hstring (.inl rfl)) fun _ => noTrap_ok
  · exact noTrap_ok
  · exact noTrap_ok
  · exact noTrap_bind (hstring (.inr rfl)) fun _ => noTrap_bind noTrap_openPath fun _ => noTrap_ok
  · exact noTrap_bind noTrap_deref fun f => noTrap_bind (hread f) fun _ => noTrap_ok
  · exact hseek
  · exact hseek
  · exact noTrap_bind hclose fun _ => noTrap_ok
  · split
    · simp [NoTrap]
    · exact noTrap_ok
  · exact noTrap_ok

/-- A request with an answer has found its string. -/
theorem stringFound_of_reply {r : Reply} (h : s.reply inp req arg0 arg1 arg2 = .ok r) :
    s.StringFound req arg0 := by
  intro hreq
  unfold reply at h
  rcases hreq with hreq | hreq
  · simp only [hreq] at h
    obtain ⟨bytes, hbytes, -⟩ := Except.bind_ok_iff.mp h
    exact ⟨bytes, readCString_ok_iff.mp hbytes⟩
  · simp only [hreq] at h
    obtain ⟨bytes, hbytes, -⟩ := Except.bind_ok_iff.mp h
    exact ⟨bytes, readCString_ok_iff.mp hbytes⟩

/-- An answer that comes without a host exception. -/
theorem reply_ok_iff (h : s.ReplyReturns inp req arg0 arg1) :
    (∃ r, s.reply inp req arg0 arg1 arg2 = .ok r) ↔ s.StringFound req arg0 :=
  ⟨fun ⟨_, hr⟩ => stringFound_of_reply hr,
    fun hfound => (contained_iff_of_noTrap (noTrap_reply hfound)).mp (reply_contained_iff.mpr h)⟩

end Found

/-! ### The instruction -/

/-- The last two stores before `s'` were the response. -/
def Responded (s s' : Machine) : Prop :=
  ∃ (m m' : Memory) (res err : Word),
    m.setWord (s.registerFile Register.V0) res s.tlb s.asid = .ok m' ∧
    m'.setWord (s.registerFile Register.V0 + 4#32) err s.tlb s.asid = .ok s'.memory

/-- VMTUNNEL responds or raises a guest trap, and a request with the number of
FWRITE leaves the host's files, with their offsets, as they are. -/
structure TunnelSound (inp : HostInput) (s : Machine) : Prop where
  inGuest : (s.vmTunnel inp).InGuest
  responded : ∀ s', s.vmTunnel inp = .next () s' → Responded s s'
  fwrite : ∀ arg0 arg1 arg2, s.HoldsRequest 7 arg0 arg1 arg2 →
    (s.vmTunnel inp).Ends fun s' => s'.host = s.host

/-- The requests and answers that are safe. -/
def TunnelSafe (inp : HostInput) (s : Machine) : Prop :=
  AccessesInside s.tlb s.asid s.requestAccesses ∧
    ∀ req arg0 arg1 arg2, s.HoldsRequest req arg0 arg1 arg2 →
      s.ReplyReturns inp req arg0 arg1 ∧
      (s.StringFound req arg0 →
        AccessesInside s.tlb s.asid (s.replyAccesses inp req arg0 arg1 arg2)) ∧
      (req = 7 → SeeksNowhere s inp arg0 arg1 arg2)

/-- Stores write memory only. -/
theorem runStores_ends {stores : List Store} :
    (s.runStores stores).Ends fun s' => ∃ m, s' = { s with memory := m } := by
  induction stores generalizing s with
  | nil => exact ⟨_, rfl⟩
  | cons st rest ih =>
      refine Outcome.ends_ofAccess ⟨_, rfl⟩ fun m _ => ?_
      exact Outcome.Ends.mono ih fun s' ⟨m', hm'⟩ => ⟨m', hm'⟩

/-- Stores behind stores. -/
theorem runStores_append {l r : List Store} {s' : Machine}
    (h : s.runStores (l ++ r) = .next () s') :
    ∃ s1, s.runStores l = .next () s1 ∧ s1.runStores r = .next () s' := by
  induction l generalizing s with
  | nil => exact ⟨s, rfl, h⟩
  | cons st rest ih =>
      obtain ⟨m, hm, hrest⟩ := ofAccess_next_iff.mp h
      obtain ⟨s1, h1, h2⟩ := ih hrest
      exact ⟨s1, ofAccess_next_iff.mpr ⟨m, hm, h1⟩, h2⟩

/-- The response is stored last. -/
theorem runStores_responded {r : Reply} {s' : Machine}
    (h : (s.receive r).runStores (r.stores (s.registerFile Register.V0)) = .next () s') :
    Responded s s' := by
  obtain ⟨s1, hbytes, hresponse⟩ := runStores_append h
  obtain ⟨m, rfl⟩ := runStores_ends.of_next hbytes
  obtain ⟨m1, h1, hrest⟩ := ofAccess_next_iff.mp hresponse
  obtain ⟨m2, h2, hlast⟩ := ofAccess_next_iff.mp hrest
  cases hlast
  exact ⟨m, m1, r.res, r.err, h1, h2⟩

section Instruction

variable {req arg0 arg1 arg2 : Word}

/-- In the kernel the instruction reads the request, sends it and stores the reply. -/
theorem vmTunnel_of_exl (hexl : s.exl = true) :
    s.vmTunnel inp = Outcome.ofAccess s s.request fun (req, arg0, arg1, arg2) =>
      Outcome.ofAccess s (s.reply inp req arg0 arg1 arg2) fun r =>
        (s.receive r).runStores (r.stores (s.registerFile Register.V0)) := by
  rw [vmTunnel_eq, privileged, if_pos hexl]

/-- **Requests.**  The instruction stays in the guest exactly if the request's words and the
reply's bytes are in the memory and the host answers. -/
theorem vmTunnel_inGuest_iff (hexl : s.exl = true) :
    (s.vmTunnel inp).InGuest ↔
      AccessesInside s.tlb s.asid s.requestAccesses ∧
        ∀ req arg0 arg1 arg2, s.HoldsRequest req arg0 arg1 arg2 →
          s.ReplyReturns inp req arg0 arg1 ∧ (s.StringFound req arg0 →
            AccessesInside s.tlb s.asid (s.replyAccesses inp req arg0 arg1 arg2)) := by
  have hstores : ∀ {req arg0 arg1 arg2 : Word} {r : Reply},
      s.reply inp req arg0 arg1 arg2 = .ok r →
      (((s.receive r).runStores (r.stores (s.registerFile Register.V0))).InGuest ↔
        AccessesInside s.tlb s.asid (s.replyAccesses inp req arg0 arg1 arg2)) := by
    intro req arg0 arg1 arg2 r hr
    rw [runStores_inGuest_iff, reply_stores hr]
    rfl
  rw [vmTunnel_of_exl hexl, ofAccess_inGuest_iff, request_contained_iff]
  refine and_congr_right fun _ => ?_
  constructor
  · intro h req arg0 arg1 arg2 hreq
    have hanswer := ofAccess_inGuest_iff.mp (h _ (request_ok_iff.mpr hreq))
    have hreturns := reply_contained_iff.mp hanswer.1
    refine ⟨hreturns, fun hfound => ?_⟩
    obtain ⟨r, hr⟩ := (reply_ok_iff hreturns).mpr hfound
    exact (hstores hr).mp (hanswer.2 r hr)
  · rintro h ⟨req, arg0, arg1, arg2⟩ hreq
    obtain ⟨hreturns, hinside⟩ := h _ _ _ _ (request_ok_iff.mp hreq)
    refine ofAccess_inGuest_iff.mpr ⟨reply_contained_iff.mpr hreturns, fun r hr => ?_⟩
    exact (hstores hr).mpr (hinside (stringFound_of_reply hr))

/-- A request that was answered has left its result and its error. -/
theorem vmTunnel_responded {s' : Machine} (hexl : s.exl = true)
    (h : s.vmTunnel inp = .next () s') : Responded s s' := by
  rw [vmTunnel_of_exl hexl] at h
  obtain ⟨words, -, h⟩ := ofAccess_next_iff.mp h
  obtain ⟨r, -, h⟩ := ofAccess_next_iff.mp h
  exact runStores_responded h

/-- A seek leaves the host as it was exactly if it seeks nowhere. -/
theorem seekReply_host_iff {r : Reply} (h : s.seekReply inp arg0 arg1 arg2 = .ok r) :
    r.host = s.host ↔ SeeksNowhere s inp arg0 arg1 arg2 := by
  obtain ⟨f, hf, hrest⟩ := Except.bind_ok_iff.mp h
  cases hrest
  refine seek_host_iff.trans ⟨fun hnowhere g file target hg => ?_,
    fun hnowhere file hfile target => hnowhere f file target hf hfile⟩
  cases hf.symm.trans hg
  exact fun hfile => hnowhere file hfile target

/-- A request with the number of FWRITE leaves the files alone when the seek that
it falls into goes nowhere. -/
theorem vmTunnel_fwrite_iff (hexl : s.exl = true) (hin : (s.vmTunnel inp).InGuest)
    (hreq : s.HoldsRequest 7 arg0 arg1 arg2) :
    ((s.vmTunnel inp).Ends fun s' => s'.host = s.host) ↔ SeeksNowhere s inp arg0 arg1 arg2 := by
  obtain ⟨-, hall⟩ := (vmTunnel_inGuest_iff hexl).mp hin
  obtain ⟨r, hr⟩ : ∃ r, s.reply inp 7 arg0 arg1 arg2 = .ok r := by
    refine (reply_ok_iff (hall 7 arg0 arg1 arg2 hreq).1).mpr ?_
    rintro (h | h) <;> cases h
  have hrun : s.vmTunnel inp =
      (s.receive r).runStores (r.stores (s.registerFile Register.V0)) := by
    rw [vmTunnel_of_exl hexl, request_ok_iff.mpr hreq]
    simp only [Outcome.ofAccess, hr]
  have hhost : ((s.vmTunnel inp).Ends fun s' => s'.host = r.host) := by
    rw [hrun]
    refine runStores_ends.mono fun s' hs' => ?_
    obtain ⟨m, hm⟩ := hs'
    rw [hm]
    rfl
  rw [← seekReply_host_iff (r := r) hr]
  constructor
  · intro hsame
    cases ho : s.vmTunnel inp with
    | next u s' => exact (hhost.of_next ho).symm.trans (hsame.of_next ho)
    | raise t s' => exact (hhost.of_raise ho).symm.trans (hsame.of_raise ho)
    | abort f =>
        rw [ho] at hin
        exact hin.elim
  · intro hsame
    exact hhost.mono fun s' hs' => hs'.trans hsame

/-- **VMTUNNEL.**  For every machine with EXL set and every answer of the host: it
responds or raises a guest trap, and FWRITE moves no file offset, exactly when
the accesses stay inside the host array, the answer comes without a host
exception, and a request with the number of FWRITE seeks to where the file
stands. -/
theorem tunnelSound_iff (inp : HostInput) {s : Machine} (hexl : s.exl = true) :
    TunnelSound inp s ↔ TunnelSafe inp s := by
  constructor
  · intro h
    obtain ⟨hrequest, hall⟩ := (vmTunnel_inGuest_iff hexl).mp h.inGuest
    refine ⟨hrequest, fun req arg0 arg1 arg2 hreq => ?_⟩
    obtain ⟨hreturns, hinside⟩ := hall req arg0 arg1 arg2 hreq
    refine ⟨hreturns, hinside, ?_⟩
    rintro rfl
    exact (vmTunnel_fwrite_iff hexl h.inGuest hreq).mp (h.fwrite _ _ _ hreq)
  · rintro ⟨hrequest, hall⟩
    have hin : (s.vmTunnel inp).InGuest := by
      refine (vmTunnel_inGuest_iff hexl).mpr ⟨hrequest, fun req arg0 arg1 arg2 hreq => ?_⟩
      obtain ⟨hreturns, hinside, -⟩ := hall req arg0 arg1 arg2 hreq
      exact ⟨hreturns, hinside⟩
    refine ⟨hin, fun s' => vmTunnel_responded hexl, fun arg0 arg1 arg2 hreq => ?_⟩
    exact (vmTunnel_fwrite_iff hexl hin hreq).mpr ((hall 7 arg0 arg1 arg2 hreq).2.2 rfl)

/-- A kernel with a request of number `n` and arguments 0, and room for the
response behind it. -/
def requestMachine (n : Byte) : Machine :=
  (((construct 0x80000000#32 0x80000100#32 (fun a => if a = 0x1003 then n else 0#8) {}).setReg
    Register.A0 0x80001000#32).setReg Register.V0 0x80001010#32).setCp0 SYSRegister.STATUS 0b10#32

/-- HALT responds. -/
theorem tunnelSound_iff_halt : TunnelSound {} (requestMachine 1) := by
  have haccess : ∀ addr : Word, directMapped addr = true → addr.toNat % 4 = 0 →
      addr.toNat - 0x80000000 + 4 ≤ physMemSize →
      AccessInMemory (requestMachine 1).tlb (requestMachine 1).asid addr 4 := by
    intro addr hd halign hsize
    rw [AccessInMemory, if_pos hd]
    exact ⟨halign, hsize⟩
  refine (tunnelSound_iff {} (by decide +kernel)).mpr ⟨?_, ?_⟩
  · refine ⟨?_, fun _ => ⟨?_, fun _ => ⟨?_, fun _ => ⟨?_, fun _ => trivial⟩⟩⟩⟩
    all_goals exact haccess _ (by decide +kernel) (by decide +kernel) (by decide +kernel)
  · rintro req arg0 arg1 arg2 ⟨hreq, -⟩
    have hword : (requestMachine 1).getWord ((requestMachine 1).registerFile Register.A0) =
        .ok 1 := rfl
    cases hword.symm.trans hreq
    refine ⟨trivial, fun _ => ⟨?_, fun _ => ⟨?_, fun _ => trivial⟩⟩, fun h => by cases h⟩
    all_goals exact haccess _ (by decide +kernel) (by decide +kernel) (by decide +kernel)

/-- FREAD of a file that is not open leaves the `std::vector` of files. -/
theorem fread_not_sound : ¬ ∀ (inp : HostInput) (s : Machine), s.exl = true →
    TunnelSound inp s := by
  intro h
  have hexl : (requestMachine 6).exl = true := by decide +kernel
  obtain ⟨-, hall⟩ := (vmTunnel_inGuest_iff hexl).mp (h {} _ hexl).inGuest
  obtain ⟨f, hf, -⟩ := (hall 6 0 0 0 ⟨rfl, rfl, rfl, rfl⟩).1
  cases hf

end Instruction

end Machine

end Hardware
