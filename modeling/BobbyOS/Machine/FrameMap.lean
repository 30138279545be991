import BobbyOS.Machine.ByteAccess
import BobbyOS.Machine.Program

/-!
# The pages of a program in the memory of the machine

A `FrameMap` places the pages of a program in frames, each in a frame of its own.  It
turns the physical memory into the bytes that the program sees.  The TLB shows the map
when the entries that cover user addresses name the frames of the map; it may show any
part of it.

* `memory_update`: a byte that is stored changes one byte of the program;
* `translate_cases`: an access finds the byte of the map, or misses;
* `Answers`: what the machine's accessors and the program's have to do with each other.
-/

namespace Hardware

/-- The frames of the pages of a program. -/
structure FrameMap where
  frame : Word → Option Nat
  bounded : ∀ {page : Word} {f : Nat}, frame page = some f → f * pageSize + pageSize ≤ physMemSize
  injective : ∀ {page page' : Word} {f : Nat}, frame page = some f → frame page' = some f →
    page = page'

namespace FrameMap

variable {map : FrameMap} {vaddr : Word} {x i : Nat} {mem : Memory}

/-- The physical address behind a virtual one. -/
def location (map : FrameMap) (vaddr : Word) : Option Nat :=
  (map.frame (vaddr >>> 12)).map fun f => f * pageSize + vaddr.toNat % pageSize

/-- The bytes that the program sees. -/
def memory (map : FrameMap) (mem : Memory) (vaddr : Word) : Option Byte :=
  if userAddress vaddr then (map.location vaddr).map mem else none

/-- A frame of the map. -/
def Owns (map : FrameMap) (f : Nat) : Prop := ∃ page, map.frame page = some f

/-- Where the byte of an address lies: in the frame of its page. -/
theorem location_eq_some : map.location vaddr = some x ↔
    ∃ f, map.frame (vaddr >>> 12) = some f ∧ f * pageSize + vaddr.toNat % pageSize = x :=
  Option.map_eq_some_iff

/-- The page of an address, as a number. -/
theorem page_toNat (vaddr : Word) : (vaddr >>> 12).toNat = vaddr.toNat / pageSize := by
  rw [BitVec.toNat_ushiftRight, Nat.shiftRight_eq_div_pow]
  rfl

/-- Addresses of one page that do not leave it. -/
theorem page_add (hroom : vaddr.toNat % pageSize + i < pageSize) :
    (vaddr + BitVec.ofNat 32 i) >>> 12 = vaddr >>> 12 := by
  apply BitVec.eq_of_toNat_eq
  rw [page_toNat, page_toNat, toNat_add_offset hroom]
  unfold pageSize at *
  omega

/-- **Within a page** the locations go on byte by byte. -/
theorem location_add (hroom : vaddr.toNat % pageSize + i < pageSize)
    (h : map.location vaddr = some x) :
    map.location (vaddr + BitVec.ofNat 32 i) = some (x + i) := by
  obtain ⟨f, hf, rfl⟩ := location_eq_some.mp h
  refine location_eq_some.mpr ⟨f, ?_, ?_⟩
  · rw [page_add hroom]
    exact hf
  · rw [toNat_add_offset hroom]
    unfold pageSize at *
    omega

/-- The next bytes of a page are at user addresses, too. -/
theorem userAddress_add (hroom : vaddr.toNat % pageSize + i < pageSize)
    (h : userAddress vaddr) : userAddress (vaddr + BitVec.ofNat 32 i) := by
  unfold userAddress at *
  rw [toNat_add_offset hroom]
  unfold pageSize at hroom
  omega

/-- A location and what follows it in its page are in the memory. -/
theorem location_bound (hroom : vaddr.toNat % pageSize + i < pageSize)
    (h : map.location vaddr = some x) : x + i < physMemSize := by
  obtain ⟨f, hf, rfl⟩ := location_eq_some.mp h
  have hbound := map.bounded hf
  omega

/-- A location is in a frame of the map. -/
theorem location_owned (h : map.location vaddr = some x) : map.Owns (x / pageSize) := by
  obtain ⟨f, hf, rfl⟩ := location_eq_some.mp h
  have hlt : vaddr.toNat % pageSize < pageSize := Nat.mod_lt _ (by decide)
  refine ⟨vaddr >>> 12, ?_⟩
  rw [hf, Nat.add_comm, Nat.add_mul_div_right _ _ (by decide), Nat.div_eq_of_lt hlt, Nat.zero_add]

/-- Two addresses have two locations. -/
theorem location_injective {w : Word} (h : map.location vaddr = some x)
    (h' : map.location w = some x) : vaddr = w := by
  obtain ⟨f, hf, rfl⟩ := location_eq_some.mp h
  obtain ⟨g, hg, heq⟩ := location_eq_some.mp h'
  have hv : vaddr.toNat % pageSize < pageSize := Nat.mod_lt _ (by decide)
  have hw : w.toNat % pageSize < pageSize := Nat.mod_lt _ (by decide)
  have hframe : g = f := by
    unfold pageSize at *
    omega
  subst hframe
  have hpage := congrArg BitVec.toNat (map.injective hf hg)
  rw [page_toNat, page_toNat] at hpage
  apply BitVec.eq_of_toNat_eq
  unfold pageSize at *
  omega

/-- A byte of the program is the byte of the memory where it lies. -/
theorem memory_eq_some {b : Byte} : map.memory mem vaddr = some b ↔
    userAddress vaddr ∧ ∃ x, map.location vaddr = some x ∧ mem x = b := by
  unfold memory
  split
  case isTrue h => simp [h, Option.map_eq_some_iff]
  case isFalse h => simp [h]

/-- The program has the bytes of its frames. -/
theorem memory_of_location (hv : userAddress vaddr) (h : map.location vaddr = some x) :
    map.memory mem vaddr = some (mem x) :=
  memory_eq_some.mpr ⟨hv, x, h, rfl⟩

/-- **Stores.**  A byte of the memory is a byte of the program. -/
theorem memory_update (hv : userAddress vaddr) (h : map.location vaddr = some x) (b : Byte) :
    map.memory (Function.update mem x b) = Program.poke (map.memory mem) vaddr b := by
  funext w
  unfold Program.poke
  by_cases hw : w = vaddr
  · rw [hw, Function.update_self, memory_of_location hv h, Function.update_self]
  · rw [Function.update_of_ne hw]
    unfold memory
    split
    · cases hloc : map.location w with
      | none => rfl
      | some y =>
          have hne : y ≠ x := fun heq => hw (location_injective hloc (heq ▸ h))
          rw [Option.map_some, Option.map_some, Function.update_of_ne hne]
    · rfl

/-- The entries of the TLB for user addresses name the frames of the map. -/
def Shows (map : FrameMap) (tlb : TLB) (asid : Byte) : Prop :=
  ∀ i (vaddr : Word), userAddress vaddr → (tlb i).covers (vaddr >>> 12) asid = true →
    map.frame (vaddr >>> 12) = some (tlb i).pfn.toNat

variable {tlb : TLB} {asid : Byte} {type : LookupType}

/-- No user address is mapped directly. -/
theorem not_directMapped (hv : userAddress vaddr) : directMapped vaddr = false := by
  rw [← Bool.not_eq_true, directMapped_iff]
  unfold userAddress at hv
  omega

/-- **Translation.**  A user address is found at its location, or it misses. -/
theorem translate_cases (type : LookupType) (hshows : map.Shows tlb asid) (hv : userAddress vaddr) :
    (∃ p, tlb.translate vaddr type asid = .ok p ∧ map.location vaddr = some p.toNat) ∨
      tlb.translate vaddr type asid = .error (.trap (missTrap type vaddr)) := by
  have hdirect := not_directMapped hv
  cases hentry : tlb.entryFor vaddr asid with
  | none =>
      right
      simp only [TLB.translate, hdirect, TLB.lookup, hentry]
      rfl
  | some e =>
      left
      refine ⟨_, (translate_ok_iff _ _ _ _ _).mpr (.inr ⟨hdirect, e, hentry, rfl⟩), ?_⟩
      obtain ⟨i, rfl, hcovers⟩ := entryFor_covers hentry
      have hframe := hshows i vaddr hv hcovers
      have hbound := map.bounded hframe
      rw [frame_offset_toNat]
      refine location_eq_some.mpr ⟨_, hframe, ?_⟩
      have hsmall : (tlb i).pfn.toNat % 2 ^ 20 = (tlb i).pfn.toNat := by
        unfold pageSize physMemSize at hbound
        omega
      rw [hsmall]

end FrameMap

/-! ### Accessors -/

/-- What an accessor of the machine does, next to the program's: it returns what the
program's returns, it fails as the program's does, or it misses a page that is there.
Nothing is said where the program leaves its pages. -/
inductive Answers {α β : Type} (R : α → β → Prop) (miss : Trap) (present : Prop) :
    Except Fault α → Except Program.Stop β → Prop
  | value {a : α} {b : β} (h : R a b) : Answers R miss present (.ok a) (.ok b)
  | fault (f : Fault) : Answers R miss present (.error f) (.error (.fault f))
  | miss {r : Except Program.Stop β} (h : present) :
      Answers R miss present (.error (.trap miss)) r
  | escape {r : Except Fault α} : Answers R miss present r (.error .escape)

end Hardware
