import BobbyOS.Machine.CycleEffects
import BobbyOS.Machine.ExceptionLevel
import BobbyOS.Machine.PreciseTraps
import BobbyOS.Machine.UserIsolation

/-!
# Running through the instruction cache

`Core::cycle` decodes a word when its address is not in the instruction cache
and runs the cached object otherwise, also when the TLB or the memory would now
yield another word.  CACHE empties the cache.  This file compares a run with
one that decodes the fetched word in every cycle.

* `run_withCache`: no instruction but CACHE reads or writes the cache;
* `Coherent`: a cached instruction decodes the word behind an address that was
  fetched since the last CACHE, kept by every cycle;
* `cycleN_eq_cycleAfreshN`: while the words that were fetched stay where they
  are, both runs go through the same states up to the cache.
-/

namespace Hardware

/-! ### The cache in an outcome -/

/-- The state with another instruction cache. -/
abbrev Machine.withCache (c : InstructionCache) (s : Machine) : Machine :=
  { s with instructionCache := c }

namespace Outcome

variable {α β : Type} {c : InstructionCache} {s : Machine}

/-- The outcome with another instruction cache in its state. -/
def withCache (c : InstructionCache) : Outcome α → Outcome α
  | .next a s => .next a (s.withCache c)
  | .raise t s => .raise t (s.withCache c)
  | .abort f => .abort f

/-- An access does not look at the cache. -/
theorem withCache_ofAccess {r : Except Fault α} {k k' : α → Outcome β}
    (hk : ∀ a, k' a = (k a).withCache c) :
    ofAccess (s.withCache c) r k' = (ofAccess s r k).withCache c := by
  unfold ofAccess
  split
  · exact hk _
  · rfl
  · rfl

/-- The check for a privileged instruction does not. -/
theorem withCache_privileged {k k' : Outcome Unit} (hk : k' = k.withCache c) :
    (s.withCache c).privileged k' = (s.privileged k).withCache c := by
  subst hk
  have hexl : (s.withCache c).exl = s.exl := rfl
  unfold Machine.privileged
  rw [hexl]
  split <;> rfl

end Outcome

section Tunnel

variable {β : Type} {c : InstructionCache} {s s' : Machine} {inp : HostInput}
  {k : Machine → Outcome β}

/-- A store does not. -/
theorem store_withCache {r : Except Fault Memory} (hs : s' = s.withCache c)
    (hk : ∀ s : Machine, k (s.withCache c) = (k s).withCache c) :
    s'.store r k = (s.store r k).withCache c := by
  subst hs
  exact Outcome.withCache_ofAccess fun m => hk { s with memory := m }

/-- Stores of bytes do not. -/
theorem storeBytes_withCache {addr : Word} {bytes : List Byte} (hs : s' = s.withCache c)
    (hk : ∀ s : Machine, k (s.withCache c) = (k s).withCache c) :
    s'.storeBytes addr bytes k = (s.storeBytes addr bytes k).withCache c := by
  subst hs
  induction bytes generalizing s addr with
  | nil => exact hk s
  | cons b rest ih => exact store_withCache rfl fun _ => ih

/-- The reply of a request does not. -/
theorem respond_withCache {resAddr res err : Word} (hs : s' = s.withCache c) :
    s'.respond resAddr res err = (s.respond resAddr res err).withCache c := by
  subst hs
  refine store_withCache rfl fun s => ?_
  exact store_withCache rfl fun _ => rfl

/-- Reading a C string does not. -/
theorem readCString_withCache {addr : Word} {fuel : Nat} :
    (s.withCache c).readCString addr fuel = s.readCString addr fuel := by
  induction fuel generalizing addr with
  | zero => rfl
  | succ fuel ih =>
      simp only [Machine.readCString, ih]
      rfl

/-- A seek does not. -/
theorem fseek_withCache {resAddr arg0 arg1 arg2 : Word} :
    (s.withCache c).fseek inp resAddr arg0 arg1 arg2 =
      (s.fseek inp resAddr arg0 arg1 arg2).withCache c :=
  Outcome.withCache_ofAccess fun _ => respond_withCache rfl

/-- No request to the host does. -/
theorem vmRequest_withCache {resAddr req arg0 arg1 arg2 : Word} :
    (s.withCache c).vmRequest inp resAddr req arg0 arg1 arg2 =
      (s.vmRequest inp resAddr req arg0 arg1 arg2).withCache c := by
  unfold Machine.vmRequest
  split
  · exact respond_withCache rfl
  · rw [readCString_withCache]
    exact Outcome.withCache_ofAccess fun _ => respond_withCache rfl
  · exact respond_withCache rfl
  · exact respond_withCache rfl
  · rw [readCString_withCache]
    exact Outcome.withCache_ofAccess fun _ => Outcome.withCache_ofAccess fun _ =>
      respond_withCache rfl
  · exact Outcome.withCache_ofAccess fun _ => Outcome.withCache_ofAccess fun _ =>
      storeBytes_withCache rfl fun _ => respond_withCache rfl
  · exact fseek_withCache
  · exact fseek_withCache
  · exact Outcome.withCache_ofAccess fun _ => respond_withCache rfl
  · split
    · rfl
    · exact storeBytes_withCache rfl fun _ => respond_withCache rfl
  · exact respond_withCache rfl

/-- Nor does the instruction that sends them. -/
theorem vmTunnel_withCache : (s.withCache c).vmTunnel inp = (s.vmTunnel inp).withCache c :=
  Outcome.withCache_privileged <| Outcome.withCache_ofAccess fun _ =>
    Outcome.withCache_ofAccess fun _ => Outcome.withCache_ofAccess fun _ =>
      Outcome.withCache_ofAccess fun _ => vmRequest_withCache

end Tunnel

/-! ### The instructions -/

section Instructions

variable {c : InstructionCache} {s : Machine} {rd rt rs : Reg} {imm : HalfWord}

/-- An arithmetic instruction does not look at the cache. -/
theorem RVariableOp.run_withCache (op : RVariableOp) :
    op.run rd rt rs (s.withCache c) = (op.run rd rt rs s).withCache c := by
  cases op with
  | add | subtract | shiftLeftLogicalVariable | shiftRightLogicalVariable
  | shiftRightArithmeticVariable | moveOnNotZero =>
      simp only [run]
      split <;> rfl
  | _ => rfl

/-- A multiplication or a division does not. -/
theorem HLOp.run_withCache (op : HLOp) :
    op.run rs rt (s.withCache c) = (op.run rs rt s).withCache c := by
  cases op with
  | multiply | multiplyUnsigned => rfl
  | divide | divideUnsigned =>
      simp only [run]
      split <;> rfl

/-- An instruction with an immediate does not. -/
theorem IGenericOp.run_withCache (op : IGenericOp) :
    op.run rt rs imm (s.withCache c) = (op.run rt rs imm s).withCache c := by
  cases op with
  | addImmediate =>
      simp only [run]
      split <;> rfl
  | _ => rfl

/-- A load or a store does not. -/
theorem IMemoryOp.run_withCache (op : IMemoryOp) :
    op.run rt rs imm (s.withCache c) = (op.run rt rs imm s).withCache c := by
  cases op <;> exact Outcome.withCache_ofAccess fun _ => rfl

/-- Every instruction but CACHE computes the same next to any instruction cache,
and leaves it as it is. -/
theorem Instruction.run_withCache (fp : FpArith) (inp : HostInput) {i : Instruction}
    (hi : i ≠ .performCacheOp) :
    i.run fp inp (s.withCache c) = (i.run fp inp s).withCache c := by
  cases i with
  | performCacheOp => exact absurd rfl hi
  | rVariable op => exact op.run_withCache
  | rShift op => cases op <;> rfl
  | hlMove op => cases op <;> rfl
  | hlOp op => exact op.run_withCache
  | iGeneric op => exact op.run_withCache
  | iMemory op => exact op.run_withCache
  | iBranch | iBranchZero =>
      simp only [run, branchBy]
      split <;> rfl
  | trapIfEqual =>
      simp only [run]
      split <;> rfl
  | moveToCoprocessor0 | moveFromCoprocessor0 | exceptionReturn | tlbProbe =>
      exact Outcome.withCache_privileged rfl
  | tlbReadIndexed =>
      refine Outcome.withCache_privileged ?_
      simp only [Machine.tlbRead]
      split <;> rfl
  | tlbWriteIndexed | tlbWriteRandom =>
      refine Outcome.withCache_privileged ?_
      simp only [Machine.tlbWrite]
      split <;> rfl
  | vmTunnel => exact vmTunnel_withCache
  | _ => rfl

/-- The instruction empties the cache when it runs in `s`: CACHE, in privileged
mode. -/
def Instruction.clearsCache (i : Instruction) (s : Machine) : Bool :=
  decide (i = .performCacheOp) && s.exl

/-- **The instructions and the cache.**  CACHE leaves an empty cache, and no
other instruction looks at it. -/
theorem Instruction.run_cache (fp : FpArith) (inp : HostInput) (i : Instruction) :
    i.run fp inp (s.withCache c) =
      (i.run fp inp s).withCache (if i.clearsCache s then {} else c) := by
  by_cases hi : i = .performCacheOp
  · subst hi
    have hexl : (s.withCache c).exl = s.exl := rfl
    simp only [run, clearsCache, Machine.privileged, hexl, decide_true, Bool.true_and]
    split <;> rfl
  · have hkeeps : i.clearsCache s = false := by simp [clearsCache, hi]
    rw [hkeeps]
    exact run_withCache fp inp hi

/-- What was fetched is a CACHE that empties the cache. -/
def Outcome.clearsCache : Outcome Instruction → Bool
  | .next i s => i.clearsCache s
  | _ => false

/-- Whether an instruction clears the cache is not for the cache to say. -/
theorem Outcome.clearsCache_withCache {o : Outcome Instruction} :
    (o.withCache c).clearsCache = o.clearsCache := by
  cases o <;> rfl

end Instructions

/-! ### A cycle that decodes afresh -/

/-- The word of physical memory that `getWord` reads behind a translation. -/
def Memory.physWord (m : Memory) (paddr : Word) : Except Fault Word := do
  hostAssert (paddr % 4#32 == 0#32) "Invalid load 4 -> switch to a trap later"
  let b0 ← m.read paddr.toNat
  let b1 ← m.read (paddr.toNat + 1)
  let b2 ← m.read (paddr.toNat + 2)
  let b3 ← m.read (paddr.toNat + 3)
  .ok (loadBigEndian b0 b1 b2 b3)

/-- A word is translated and then read. -/
theorem getWord_eq {m : Memory} {vaddr : Word} {tlb : TLB} {asid : Byte} :
    m.getWord vaddr tlb asid = tlb.translate vaddr .load asid >>= m.physWord := rfl

/-- A word is its four bytes. -/
theorem physWord_congr {m m' : Memory} {p : Word}
    (h : ∀ i < 4, m' (p.toNat + i) = m (p.toNat + i)) : m'.physWord p = m.physWord p := by
  have h0 : m' p.toNat = m p.toNat := h 0 (by omega)
  simp only [Memory.physWord, read_congr h0, read_congr (h 1 (by omega)),
    read_congr (h 2 (by omega)), read_congr (h 3 (by omega))]

namespace Machine

variable {fp : FpArith}

/-- The fetch without an instruction cache. -/
def fetchAfresh (s : Machine) : Outcome Instruction :=
  Outcome.ofAccess s (s.getWord s.programCounter) fun w =>
    Outcome.ofAccess s (IntegerUnit.decode s.programCounter w) fun i => .next i s

/-- The part of `Core::cycle` behind the fetch. -/
def runFetched (fp : FpArith) (inp : HostInput) (oldIE : Bool) :
    Outcome Instruction → Except Fault (Machine × Option Trap)
  | .abort f => .error f
  | .raise t s => .ok (s.raiseTrap t, some t)
  | .next i s =>
      match i.run fp inp s with
      | .abort f => .error f
      | .raise t s => .ok (s.raiseTrap t, some t)
      | .next _ s =>
          let s := { s with programCounter := s.programCounter + 4#32 }
          if inp.poll && oldIE && s.ie then
            .ok (s.raiseTrap { exceptionCode := .interrupt },
              some { exceptionCode := .interrupt })
          else .ok (s, none)

/-- A cycle fetches and then runs. -/
theorem cycle_eq_runFetched (inp : HostInput) (s : Machine) :
    s.cycle fp inp = runFetched fp inp s.ie s.fetch := by
  unfold cycle runFetched
  cases s.fetch <;> rfl

/-- The cycle of a machine that decodes the fetched word every time. -/
def cycleAfresh (fp : FpArith) (inp : HostInput) (s : Machine) :
    Except Fault (Machine × Option Trap) :=
  runFetched fp inp s.ie s.fetchAfresh

/-- The run of that machine, as `cycleN`. -/
def cycleAfreshN (fp : FpArith) (inp : Nat → HostInput) : Nat → Machine → Option Machine
  | 0, s => some s
  | n + 1, s =>
      (cycleAfreshN fp inp n s).bind fun s =>
        if s.killed then none else ((s.cycleAfresh fp (inp n)).toOption).map Prod.fst

/-! ### What has been fetched -/

/-- The address that the cycle fetches and the physical address behind it, when
there is an instruction to run. -/
def fetched (s : Machine) : List (Word × Word) :=
  match s.fetch, s.tlb.translate s.programCounter .load s.asid with
  | .next _ _, .ok p => [(s.programCounter, p)]
  | _, _ => []

/-- The cycle executes CACHE. -/
def executesCache (s : Machine) : Bool := s.fetch.clearsCache

/-- The addresses fetched before cycle `n` and since the last CACHE. -/
def fetchLog (fp : FpArith) (inp : Nat → HostInput) (start : Machine) : Nat → List (Word × Word)
  | 0 => []
  | n + 1 =>
      match cycleN fp inp n start with
      | none => []
      | some s => if s.executesCache then [] else s.fetched ++ fetchLog fp inp start n

/-- In the first `n` cycles, an address that was fetched since the last CACHE
translates to the same physical address when it is fetched again, and no cycle
changes the word there. -/
structure KeepsFetched (fp : FpArith) (inp : Nat → HostInput) (start : Machine) (n : Nat) :
    Prop where
  translation : ∀ k < n, ∀ s, cycleN fp inp k start = some s → s.killed = false →
    ∀ p, (s.programCounter, p) ∈ fetchLog fp inp start k →
      s.tlb.translate s.programCounter .load s.asid = .ok p
  words : ∀ k < n, ∀ s s', cycleN fp inp k start = some s →
    cycleN fp inp (k + 1) start = some s' → ∀ a p, (a, p) ∈ fetchLog fp inp start (k + 1) →
      ∀ i < 4, s'.memory (p.toNat + i) = s.memory (p.toNat + i)

/-- Every cached instruction decodes the word behind an address in the log. -/
def Coherent (log : List (Word × Word)) (m : Memory) (c : InstructionCache) : Prop :=
  ∀ a i, (a, some i) ∈ c.storage →
    ∃ p w, (a, p) ∈ log ∧ m.physWord p = .ok w ∧ IntegerUnit.decode a w = .ok i

/-- An empty cache is coherent. -/
theorem coherent_empty {log : List (Word × Word)} {m : Memory} : Coherent log m {} :=
  fun _ _ h => absurd h List.not_mem_nil

/-- A longer log and a memory with the same words behind it. -/
theorem Coherent.mono {log log' : List (Word × Word)} {m m' : Memory} {c : InstructionCache}
    (h : Coherent log m c) (hlog : ∀ ap ∈ log, ap ∈ log')
    (hwords : ∀ a p, (a, p) ∈ log' → ∀ i < 4, m' (p.toNat + i) = m (p.toNat + i)) :
    Coherent log' m' c := by
  intro a i hmem
  obtain ⟨p, w, hap, hw, hdec⟩ := h a i hmem
  refine ⟨p, w, hlog _ hap, ?_, hdec⟩
  rw [physWord_congr (hwords a p (hlog _ hap))]
  exact hw

/-- The front of the cache after `operator[]` of a coherent cache: the rest of
the entries were there before. -/
theorem Coherent.cons {log : List (Word × Word)} {m : Memory} {c c' : InstructionCache}
    {kv : Word × Option Instruction} {rest : List (Word × Option Instruction)}
    (h : Coherent log m c) (hrest : ∀ kv ∈ rest, kv ∈ c.storage) (hc' : c'.storage = kv :: rest)
    (hkv : ∀ i, kv.2 = some i →
      ∃ p w, (kv.1, p) ∈ log ∧ m.physWord p = .ok w ∧ IntegerUnit.decode kv.1 w = .ok i) :
    Coherent log m c' := by
  intro a i hmem
  rw [hc'] at hmem
  rcases List.mem_cons.mp hmem with heq | hmem
  · subst heq
    exact hkv i rfl
  · exact h a i (hrest _ hmem)

/-- **The fetch.**  From a coherent cache, when a logged address translates as
before, the cached fetch yields what decoding afresh yields, and leaves a
coherent cache. -/
theorem fetch_withCache {s : Machine} {log : List (Word × Word)} {c : InstructionCache}
    (hc : Coherent log s.memory c)
    (ht : ∀ p, (s.programCounter, p) ∈ log →
      s.tlb.translate s.programCounter .load s.asid = .ok p) :
    ∃ c', (s.withCache c).fetch = s.fetchAfresh.withCache c' ∧
      Coherent ((s.withCache c).fetched ++ log) s.memory c' := by
  obtain ⟨rest, hfront, hrest⟩ := LRUCache.index_front (c := c) (k := s.programCounter)
  have hlonger : Coherent ((s.withCache c).fetched ++ log) s.memory c :=
    hc.mono (fun _ h => List.mem_append_right _ h) fun _ _ _ _ _ => rfl
  cases hentry : (c.index s.programCounter).1 with
  | some i =>
      -- a hit: the entry decodes the word that is still behind the address
      have hmem : (s.programCounter, some i) ∈ c.storage := by
        rcases LRUCache.mem_or_default_of_index (c := c) (k := s.programCounter) with h | h
        · rwa [hentry] at h
        · rw [hentry] at h
          cases h
      obtain ⟨p, w, hap, hw, hdec⟩ := hc _ _ hmem
      have hget : s.getWord s.programCounter = .ok w := by
        rw [getWord, getWord_eq, ht p hap]
        exact hw
      refine ⟨(c.index s.programCounter).2, ?_, hlonger.cons hrest hfront ?_⟩
      · simp only [fetch, hentry, fetchAfresh, hget, hdec, Outcome.ofAccess, Outcome.withCache]
      · intro j hj
        rw [hentry] at hj
        cases hj
        exact ⟨p, w, List.mem_append_right _ hap, hw, hdec⟩
  | none =>
      -- a miss, or an entry that a failed fetch left empty
      have hempty : Coherent ((s.withCache c).fetched ++ log) s.memory
          (c.index s.programCounter).2 :=
        hlonger.cons hrest hfront fun i hi => by rw [hentry] at hi; cases hi
      have hfetch : (s.withCache c).fetch =
          Outcome.ofAccess (s.withCache (c.index s.programCounter).2)
            (s.getWord s.programCounter) fun w =>
              Outcome.ofAccess (s.withCache (c.index s.programCounter).2)
                (IntegerUnit.decode s.programCounter w) fun i =>
                  .next i (s.withCache ((c.index s.programCounter).2.assignFront (some i))) := by
        simp only [fetch, hentry]
        rfl
      cases hget : s.getWord s.programCounter with
      | error f =>
          refine ⟨_, ?_, hempty⟩
          rw [hfetch, fetchAfresh, hget]
          cases f <;> rfl
      | ok w =>
          cases hdec : IntegerUnit.decode s.programCounter w with
          | error f =>
              refine ⟨_, ?_, hempty⟩
              simp only [hfetch, fetchAfresh, hget, hdec, Outcome.ofAccess]
              cases f <;> rfl
          | ok i =>
              have hnext : (s.withCache c).fetch =
                  .next i (s.withCache ((c.index s.programCounter).2.assignFront (some i))) := by
                simp only [hfetch, hget, hdec, Outcome.ofAccess]
              rw [getWord, getWord_eq] at hget
              obtain ⟨p, hp, hw⟩ := Except.bind_ok_iff.mp hget
              have hlogged : (s.programCounter, p) ∈ (s.withCache c).fetched := by
                have hp' : (s.withCache c).tlb.translate s.programCounter .load
                    (s.withCache c).asid = .ok p := hp
                simp only [fetched, hnext, hp', List.mem_singleton]
              refine ⟨(c.index s.programCounter).2.assignFront (some i), ?_,
                hlonger.cons hrest (LRUCache.assignFront_storage hfront) ?_⟩
              · rw [hnext, fetchAfresh, getWord, getWord_eq, hp, Except.ok_bind, hw]
                simp only [hdec, Outcome.ofAccess, Outcome.withCache]
              · intro j hj
                cases hj
                exact ⟨p, w, List.mem_append_left _ hlogged, hw, hdec⟩


/-- The part behind the fetch, next to another instruction cache. -/
theorem runFetched_withCache {inp : HostInput} {oldIE : Bool} {c : InstructionCache}
    (o : Outcome Instruction) :
    runFetched fp inp oldIE (o.withCache c) = (runFetched fp inp oldIE o).map
      (Prod.map (withCache (if o.clearsCache then {} else c)) id) := by
  cases o with
  | abort f => rfl
  | raise t s => rfl
  | next i s =>
      have hrun : i.run fp inp (s.withCache c) = (i.run fp inp s).withCache
          (if (Outcome.next i s).clearsCache then {} else c) := i.run_cache fp inp
      generalize (if (Outcome.next i s).clearsCache then {} else c : InstructionCache) = c'
        at hrun ⊢
      simp only [Outcome.withCache, runFetched]
      rw [hrun]
      cases i.run fp inp s with
      | abort f => rfl
      | raise t s2 => rfl
      | next u s2 =>
          have hie : ({ s2 with programCounter := s2.programCounter + 4#32,
                                instructionCache := c' } : Machine).ie =
              ({ s2 with programCounter := s2.programCounter + 4#32 } : Machine).ie := rfl
          simp only [Outcome.withCache, hie]
          generalize (inp.poll && oldIE &&
            ({ s2 with programCounter := s2.programCounter + 4#32 } : Machine).ie) = due
          cases due <;> rfl

/-- **One cycle.**  Next to a coherent cache the cycle is the cycle that decodes
afresh; it leaves an empty cache when it executes CACHE, and a coherent one
otherwise. -/
theorem cycle_withCache {s : Machine} {log : List (Word × Word)} {c : InstructionCache}
    (inp : HostInput) (hc : Coherent log s.memory c)
    (ht : ∀ p, (s.programCounter, p) ∈ log →
      s.tlb.translate s.programCounter .load s.asid = .ok p) :
    ∃ c', (s.withCache c).cycle fp inp =
        (s.cycleAfresh fp inp).map (Prod.map (withCache c') id) ∧
      Coherent (if (s.withCache c).executesCache then []
        else (s.withCache c).fetched ++ log) s.memory c' := by
  obtain ⟨c1, hfetch, hc1⟩ := fetch_withCache hc ht
  refine ⟨if s.fetchAfresh.clearsCache then {} else c1, ?_, ?_⟩
  · rw [cycle_eq_runFetched, hfetch]
    exact runFetched_withCache s.fetchAfresh
  · rw [executesCache, hfetch, Outcome.clearsCache_withCache]
    split
    · exact coherent_empty
    · exact hc1

/-- The states after `n` cycles of the two runs: both have ended, or they agree
up to a cache that is coherent with what has been fetched. -/
theorem cycleN_simulates {inp : Nat → HostInput} {start : Machine} {n : Nat}
    (h0 : start.instructionCache = {}) (h : KeepsFetched fp inp start n) :
    ∀ k ≤ n, (cycleN fp inp k start = none ∧ cycleAfreshN fp inp k start = none) ∨
      ∃ s c, cycleAfreshN fp inp k start = some s ∧ cycleN fp inp k start = some (s.withCache c) ∧
        Coherent (fetchLog fp inp start k) s.memory c := by
  intro k
  induction k with
  | zero =>
      intro _
      refine .inr ⟨start, start.instructionCache, rfl, rfl, ?_⟩
      rw [h0]
      exact coherent_empty
  | succ k ih =>
      intro hk
      rcases ih (by omega) with ⟨hcached, hafresh⟩ | ⟨s, c, hafresh, hcached, hc⟩
      · exact .inl ⟨by simp [cycleN, hcached], by simp [cycleAfreshN, hafresh]⟩
      cases hkilled : s.killed with
      | true =>
          refine .inl ⟨?_, ?_⟩
          · simp [cycleN, hcached, hkilled]
          · simp [cycleAfreshN, hafresh, hkilled]
      | false =>
          obtain ⟨c', hcycle, hc'⟩ := cycle_withCache (inp k) hc
            (h.translation k (by omega) (s.withCache c) hcached hkilled)
          cases hstep : s.cycleAfresh fp (inp k) with
          | error f =>
              rw [hstep] at hcycle
              refine .inl ⟨?_, ?_⟩
              · simp [cycleN, hcached, hkilled, hcycle, Except.toOption, Except.map]
              · simp [cycleAfreshN, hafresh, hkilled, hstep, Except.toOption]
          | ok r =>
              obtain ⟨s', t⟩ := r
              rw [hstep] at hcycle
              have hnext : cycleN fp inp (k + 1) start = some (s'.withCache c') := by
                simp [cycleN, hcached, hkilled, hcycle, Except.toOption, Except.map]
              refine .inr ⟨s', c', ?_, hnext, ?_⟩
              · simp [cycleAfreshN, hafresh, hkilled, hstep, Except.toOption]
              · have hlog : fetchLog fp inp start (k + 1) =
                    if (s.withCache c).executesCache then []
                    else (s.withCache c).fetched ++ fetchLog fp inp start k := by
                  simp only [fetchLog, hcached]
                rw [← hlog] at hc'
                exact hc'.mono (fun _ h => h) 
                  (h.words k (by omega) (s.withCache c) (s'.withCache c') hcached hnext)

/-- **The instruction cache is transparent.**  A run from an empty cache in
which what was fetched since the last CACHE keeps its translation and its word
goes, cycle by cycle and up to the cache, through the states of the run that
decodes the fetched word in every cycle. -/
theorem cycleN_eq_cycleAfreshN {inp : Nat → HostInput} {start : Machine} {n : Nat}
    (h0 : start.instructionCache = {}) (h : KeepsFetched fp inp start n) :
    (cycleN fp inp n start).map (withCache {}) =
      (cycleAfreshN fp inp n start).map (withCache {}) := by
  rcases cycleN_simulates h0 h n (Nat.le_refl n) with
    ⟨hcached, hafresh⟩ | ⟨s, c, hafresh, hcached, -⟩
  · rw [hcached, hafresh]
  · rw [hcached, hafresh]
    rfl

/-- A machine that jumps to its own address: `j 0` in every word. -/
def spinMachine : Machine := wordMachine 0x08 0 0 0

/-- The cache of that machine after its first cycle. -/
def spinCache : InstructionCache :=
  { storage := [(0x80000000#32, some (.jump 0x7FFFFFFC#32))] }

/-- The jump to itself goes on for ever. -/
theorem spin_cycleN (k : Nat) :
    cycleN ⟨fun _ a _ => a, fun _ a _ => a⟩ (fun _ => {}) (k + 1) spinMachine =
      some (spinMachine.withCache spinCache) := by
  induction k with
  | zero => rfl
  | succ k ih =>
      rw [cycleN, ih]
      rfl

/-- Every state of its run is the first one up to the cache. -/
theorem spin_state {k : Nat} {s : Machine}
    (h : cycleN ⟨fun _ a _ => a, fun _ a _ => a⟩ (fun _ => {}) k spinMachine = some s) :
    ∃ c, s = spinMachine.withCache c ∧ s.fetched = [(0x80000000#32, 0#32)] := by
  cases k with
  | zero =>
      obtain rfl := Option.some.inj h
      exact ⟨_, rfl, rfl⟩
  | succ k =>
      rw [spin_cycleN] at h
      obtain rfl := Option.some.inj h
      exact ⟨_, rfl, rfl⟩

/-- It fetches one address. -/
theorem spin_fetchLog {k : Nat} {ap : Word × Word} (h : ap ∈
    fetchLog ⟨fun _ a _ => a, fun _ a _ => a⟩ (fun _ => {}) spinMachine k) :
    ap = (0x80000000#32, 0#32) := by
  induction k with
  | zero => cases h
  | succ k ih =>
      rw [fetchLog] at h
      split at h
      · cases h
      · rename_i s hs
        obtain ⟨c, -, hfetched⟩ := spin_state hs
        split at h
        · cases h
        · rw [hfetched] at h
          rcases List.mem_cons.mp h with h | h
          · exact h
          · exact ih h

/-- It never changes what it fetches. -/
theorem spin_keepsFetched (n : Nat) :
    KeepsFetched ⟨fun _ a _ => a, fun _ a _ => a⟩ (fun _ => {}) spinMachine n where
  translation k _ s hs _ p hp := by
    obtain ⟨c, rfl, -⟩ := spin_state hs
    cases spin_fetchLog hp
    have hdirect : directMapped 0x80000000#32 = true := by decide
    change TLB.translate _ 0x80000000#32 _ _ = _
    rw [TLB.translate, hdirect]
    rfl
  words k _ s s' hs hs' _ _ _ _ _ := by
    obtain ⟨c, rfl, -⟩ := spin_state hs
    obtain ⟨c', rfl, -⟩ := spin_state hs'
    rfl

/-- The jump is decoded once and then runs from the cache. -/
theorem cycleN_eq_cycleAfreshN_spin :
    KeepsFetched ⟨fun _ a _ => a, fun _ a _ => a⟩ (fun _ => {}) spinMachine 3 ∧
    (cycleN ⟨fun _ a _ => a, fun _ a _ => a⟩ (fun _ => {}) 3 spinMachine).map (withCache {}) =
      (cycleAfreshN ⟨fun _ a _ => a, fun _ a _ => a⟩ (fun _ => {}) 3 spinMachine).map
        (withCache {}) :=
  ⟨spin_keepsFetched 3, cycleN_eq_cycleAfreshN rfl (spin_keepsFetched 3)⟩

end Machine

end Hardware
