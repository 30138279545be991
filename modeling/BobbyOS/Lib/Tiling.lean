import Mathlib.Algebra.GroupWithZero.Nat
import Mathlib.Data.List.Basic

/-!
# Cutting an interval into consecutive blocks

A block is a header of fixed length followed by a payload.  `Tiles lo hi bs`
says that the blocks of `bs` follow each other without a gap from `lo` to `hi`.
The four ways in which an allocator changes such a list are splitting a block,
fusing two neighbours, appending a block at the end and cutting the last one
off; each keeps the tiling, and in a tiling different blocks are disjoint.
-/

namespace Tiling

/-- A block: where its header starts, its payload size, and whether it is free. -/
structure Block where
  start : Nat
  size : Nat
  free : Bool
  deriving DecidableEq, Repr

variable {header lo mid hi : Nat} {b c : Block} {l r bs : List Block}

/-- Where the payload starts. -/
def Block.payload (header : Nat) (b : Block) : Nat := b.start + header

/-- The first address behind the block. -/
def Block.stop (header : Nat) (b : Block) : Nat := b.start + header + b.size

/-- The blocks follow each other from `lo` to `hi`. -/
def Tiles (header lo hi : Nat) : List Block → Prop
  | [] => lo = hi
  | b :: rest => b.start = lo ∧ Tiles header (b.stop header) hi rest

/-- A tiling of two lists has a point between them. -/
theorem tiles_append :
    Tiles header lo hi (l ++ r) ↔ ∃ mid, Tiles header lo mid l ∧ Tiles header mid hi r := by
  induction l generalizing lo with
  | nil => simp [Tiles]
  | cons b rest ih => simp [Tiles, ih, and_assoc]

/-- A tiling ends behind its start. -/
theorem Tiles.le (h : Tiles header lo hi bs) : lo ≤ hi := by
  induction bs generalizing lo with
  | nil => exact Nat.le_of_eq h
  | cons b rest ih =>
      obtain ⟨rfl, hrest⟩ := h
      have := ih hrest
      simp only [Block.stop] at this
      omega

/-- Every block of a tiling lies in the interval. -/
theorem Tiles.bounds (h : Tiles header lo hi bs) (hb : b ∈ bs) :
    lo ≤ b.start ∧ b.stop header ≤ hi := by
  induction bs generalizing lo with
  | nil => cases hb
  | cons c rest ih =>
      obtain ⟨rfl, hrest⟩ := h
      rcases List.mem_cons.mp hb with rfl | hb'
      · exact ⟨Nat.le_refl _, hrest.le⟩
      · obtain ⟨h1, h2⟩ := ih hrest hb'
        simp only [Block.stop] at h1
        exact ⟨by omega, h2⟩

/-- A block is the first one, or behind a header. -/
theorem Tiles.start_or (h : Tiles header lo hi bs) (hb : b ∈ bs) :
    b.start = lo ∨ lo + header ≤ b.start := by
  cases bs with
  | nil => cases hb
  | cons c rest =>
      obtain ⟨rfl, hrest⟩ := h
      rcases List.mem_cons.mp hb with rfl | hb'
      · exact Or.inl rfl
      · refine Or.inr ?_
        have := (hrest.bounds hb').1
        simp only [Block.stop] at this
        omega

/-- Different blocks of a tiling are disjoint. -/
theorem Tiles.disjoint (h : Tiles header lo hi bs) (hb : b ∈ bs) (hc : c ∈ bs) (hne : b ≠ c) :
    b.stop header ≤ c.start ∨ c.stop header ≤ b.start := by
  induction bs generalizing lo with
  | nil => cases hb
  | cons d rest ih =>
      obtain ⟨rfl, hrest⟩ := h
      rcases List.mem_cons.mp hb with rfl | hb'
      · rcases List.mem_cons.mp hc with rfl | hc'
        · exact absurd rfl hne
        · exact Or.inl (hrest.bounds hc').1
      · rcases List.mem_cons.mp hc with rfl | hc'
        · exact Or.inr (hrest.bounds hb').1
        · exact ih hrest hb' hc'

/-- The blocks around one of a tiling. -/
theorem Tiles.around (h : Tiles header lo hi (l ++ b :: r)) :
    (∀ c ∈ l, c.stop header ≤ b.start) ∧ ∀ c ∈ r, b.stop header ≤ c.start := by
  obtain ⟨mid, hl, rfl, hr⟩ := tiles_append.mp h
  exact ⟨fun c hc => (hl.bounds hc).2, fun c hc => (hr.bounds hc).1⟩

/-- A tiling has at most one block for each header's length. -/
theorem Tiles.length_le (h : Tiles header lo hi bs) : bs.length * header + lo ≤ hi := by
  induction bs generalizing lo with
  | nil => simpa using Nat.le_of_eq h
  | cons b rest ih =>
      obtain ⟨rfl, hrest⟩ := h
      have := ih hrest
      simp only [Block.stop, List.length_cons, Nat.add_mul] at *
      omega

/-- The bytes that the blocks take, with their headers. -/
def extent (header : Nat) (bs : List Block) : Nat := (bs.map fun b => header + b.size).sum

/-- A tiling ends where its blocks do. -/
theorem Tiles.extent_eq (h : Tiles header lo hi bs) : hi = lo + extent header bs := by
  induction bs generalizing lo with
  | nil => exact h.symm
  | cons b rest ih =>
      obtain ⟨rfl, hrest⟩ := h
      have := ih hrest
      simp only [Block.stop, extent, List.map_cons, List.sum_cons] at *
      omega

/-- The block moved by `k` bytes. -/
def Block.shift (k : Nat) (b : Block) : Block := { b with start := k + b.start }

/-- A moved tiling is as long. -/
theorem extent_shift {k : Nat} : extent header (bs.map (Block.shift k)) = extent header bs := by
  rw [extent, extent, List.map_map]
  rfl

/-- Splitting a block into a used part and a free rest. -/
theorem Tiles.split (h : Tiles header lo hi (l ++ b :: r)) {n : Nat} {f g : Bool}
    (hn : n + header ≤ b.size) :
    Tiles header lo hi
      (l ++ ⟨b.start, n, f⟩ :: ⟨b.start + header + n, b.size - n - header, g⟩ :: r) := by
  obtain ⟨mid, hl, rfl, hr⟩ := tiles_append.mp h
  refine tiles_append.mpr ⟨b.start, hl, rfl, rfl, ?_⟩
  have hstop : Block.stop header ⟨b.start + header + n, b.size - n - header, g⟩ =
      b.stop header := by
    simp only [Block.stop]
    omega
  rwa [hstop]

/-- Fusing two neighbours. -/
theorem Tiles.fuse (h : Tiles header lo hi (l ++ b :: c :: r)) {f : Bool} :
    Tiles header lo hi (l ++ ⟨b.start, b.size + (header + c.size), f⟩ :: r) := by
  obtain ⟨mid, hl, rfl, hc, hr⟩ := tiles_append.mp h
  refine tiles_append.mpr ⟨b.start, hl, rfl, ?_⟩
  have hstop : Block.stop header ⟨b.start, b.size + (header + c.size), f⟩ = c.stop header := by
    simp only [Block.stop] at *
    omega
  rwa [hstop]

/-- Changing whether a block is free. -/
theorem Tiles.setFree (h : Tiles header lo hi (l ++ b :: r)) {f : Bool} :
    Tiles header lo hi (l ++ ⟨b.start, b.size, f⟩ :: r) := by
  obtain ⟨mid, hl, rfl, hr⟩ := tiles_append.mp h
  exact tiles_append.mpr ⟨b.start, hl, rfl, hr⟩

/-- Appending a block at the end. -/
theorem Tiles.extend (h : Tiles header lo hi bs) {n : Nat} {f : Bool} :
    Tiles header lo (hi + header + n) (bs ++ [⟨hi, n, f⟩]) :=
  tiles_append.mpr ⟨hi, h, rfl, rfl⟩

/-- Cutting the last block off. -/
theorem Tiles.truncate (h : Tiles header lo hi (l ++ [b])) : Tiles header lo b.start l := by
  obtain ⟨mid, hl, rfl, -⟩ := tiles_append.mp h
  exact hl

end Tiling
