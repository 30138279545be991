import Mathlib.Algebra.Group.Nat.Defs
import Mathlib.Logic.Function.Basic

/-!
# Big-endian words in a byte memory

A memory maps each 32-bit address to a byte.  A word occupies four consecutive
addresses, most significant byte first, and the addresses wrap around at the
end of the address space.  Two words are `Apart` when no address belongs to
both; the rules below say that a store is read back where it was made and
changes no word apart from it.
-/

namespace ByteMemory

/-- An address of 32 bits. -/
abbrev Address := BitVec 32

/-- A byte memory over the 32-bit address space. -/
abbrev Mem := Address → BitVec 8

/-- The big-endian word at `a`. -/
def load32 (m : Mem) (a : Address) : BitVec 32 := 
  m a ++ m (a + 1#32) ++ m (a + 2#32) ++ m (a + 3#32)

/-- Write the big-endian word `v` at `a`. -/
def store32 (m : Mem) (a : Address) (v : BitVec 32) : Mem := fun x =>
  if x = a then v.extractLsb' 24 8
  else if x = a + 1#32 then v.extractLsb' 16 8
  else if x = a + 2#32 then v.extractLsb' 8 8
  else if x = a + 3#32 then v.extractLsb' 0 8
  else m x

/-- The words at `a` and `b` share no byte. -/
def Apart (a b : Address) : Prop := 4 ≤ (a - b).toNat ∧ 4 ≤ (b - a).toNat

instance (a b : Address) : Decidable (Apart a b) := inferInstanceAs (Decidable (_ ∧ _))

/-- `x` is not one of the `n` addresses from `a` on. -/
def Outside (x a : Address) (n : Nat) : Prop := n ≤ (x - a).toNat

instance (x a : Address) (n : Nat) : Decidable (Outside x a n) :=
  inferInstanceAs (Decidable (_ ≤ _))

variable {m m' : Mem} {a b x : Address} {v : BitVec 32}

/-- Being apart is symmetric. -/
theorem Apart.symm (h : Apart a b) : Apart b a := ⟨h.2, h.1⟩

/-- Words at a distance in an interval that does not wrap are apart. -/
theorem apart_of_le (h : a.toNat + 4 ≤ b.toNat) (hb : b.toNat + 4 ≤ 2 ^ 32) : Apart a b := by
  constructor
  · rw [BitVec.toNat_sub]
    omega
  · rw [BitVec.toNat_sub]
    omega

/-- Words at different multiples of four from one base are apart. -/
theorem apart_add (base : Address) {i j : Nat} (hi : i % 4 = 0) (hj : j % 4 = 0)
    (hil : i < 2 ^ 32) (hjl : j < 2 ^ 32) (hne : i ≠ j) :
    Apart (base + BitVec.ofNat 32 i) (base + BitVec.ofNat 32 j) := by
  constructor
  · rw [BitVec.toNat_sub, BitVec.toNat_add, BitVec.toNat_add, BitVec.toNat_ofNat,
      BitVec.toNat_ofNat]
    omega
  · rw [BitVec.toNat_sub, BitVec.toNat_add, BitVec.toNat_add, BitVec.toNat_ofNat,
      BitVec.toNat_ofNat]
    omega

/-- The bytes of one of two words that are apart are outside the other. -/
theorem outside_of_apart (h : Apart b a) {i : Nat} (hi : i < 4) :
    Outside (b + BitVec.ofNat 32 i) a 4 := by
  obtain ⟨h1, h2⟩ := h
  unfold Outside
  rw [BitVec.toNat_sub] at *
  rw [BitVec.toNat_add, BitVec.toNat_ofNat]
  omega

/-- An address outside an interval is outside the words in it. -/
theorem Outside.word {n : Nat} (h : Outside x a n) {i : Nat} (hi : i + 4 ≤ n) :
    Outside x (a + BitVec.ofNat 32 i) 4 := by
  unfold Outside at *
  rw [BitVec.toNat_sub] at *
  rw [BitVec.toNat_add, BitVec.toNat_ofNat]
  omega

/-- A store changes no byte outside its word. -/
theorem store32_outside (h : Outside x a 4) : store32 m a v x = m x := by
  have hne : ∀ k : Nat, k < 4 → x ≠ a + BitVec.ofNat 32 k := by
    rintro k hk rfl
    unfold Outside at h
    rw [BitVec.toNat_sub, BitVec.toNat_add, BitVec.toNat_ofNat] at h
    omega
  have h0 := hne 0 (by decide)
  rw [BitVec.add_zero] at h0
  simp only [store32, h0, hne 1 (by decide), hne 2 (by decide), hne 3 (by decide), if_false]

/-- Loads agree on memories that agree on the four bytes. -/
theorem load32_congr (h : ∀ i : Nat, i < 4 → m' (a + BitVec.ofNat 32 i) = m (a + BitVec.ofNat 32 i)) :
    load32 m' a = load32 m a := by
  have h0 := h 0 (by decide)
  rw [BitVec.add_zero] at h0
  simp only [load32, h0, h 1 (by decide), h 2 (by decide), h 3 (by decide)]

/-- A byte write outside an interval changes no word in it. -/
theorem load32_update_of_outside {n : Nat} (h : Outside x a n) {i : Nat} (hi : i + 4 ≤ n)
    (b : BitVec 8) :
    load32 (Function.update m x b) (a + BitVec.ofNat 32 i) =
      load32 m (a + BitVec.ofNat 32 i) := by
  refine load32_congr fun k hk => Function.update_of_ne ?_ _ _
  rintro heq
  unfold Outside at h
  rw [← heq, BitVec.toNat_sub, BitVec.toNat_add, BitVec.toNat_add, BitVec.toNat_ofNat,
    BitVec.toNat_ofNat] at h
  have hlt := (x - a).isLt
  have ha := a.isLt
  omega

/-- A store changes no word apart from it. -/
theorem load32_store32_of_apart (h : Apart b a) : load32 (store32 m a v) b = load32 m b :=
  load32_congr fun _ hi => store32_outside (outside_of_apart h hi)

/-- A store is read back. -/
@[simp] theorem load32_store32_same : load32 (store32 m a v) a = v := by
  have hne : ∀ i j : Nat, i < 4 → j < 4 → i ≠ j →
      a + BitVec.ofNat 32 i ≠ a + BitVec.ofNat 32 j := by
    intro i j hi hj hij heq
    rw [← BitVec.toNat_inj, BitVec.toNat_add, BitVec.toNat_add, BitVec.toNat_ofNat,
      BitVec.toNat_ofNat] at heq
    omega
  have h1 : a + 1#32 ≠ a := by simp
  have h2 : a + 2#32 ≠ a := by simp
  have h3 : a + 3#32 ≠ a := by simp
  simp only [load32, store32, h1, h2, h3, hne 2 1 (by decide) (by decide) (by decide),
    hne 3 1 (by decide) (by decide) (by decide), hne 3 2 (by decide) (by decide) (by decide),
    if_true, if_false]
  rw [BitVec.extractLsb'_append_extractLsb'_eq_extractLsb' (by decide : 24 = 16 + 8),
    BitVec.extractLsb'_append_extractLsb'_eq_extractLsb' (by decide : 16 = 8 + 8),
    BitVec.extractLsb'_append_extractLsb'_eq_extractLsb' (by decide : 8 = 0 + 8)]
  exact BitVec.extractLsb'_eq_self

/-! ### Words at numbered addresses -/

/-- The word at address `n`. -/
def word (m : Mem) (n : Nat) : BitVec 32 := load32 m (BitVec.ofNat 32 n)

/-- A stored word is read back. -/
theorem word_store_same {n : Nat} : word (store32 m (BitVec.ofNat 32 n) v) n = v :=
  load32_store32_same

/-- A store that does not overlap leaves the word. -/
theorem word_store_ne {i j : Nat} (h : i + 4 ≤ j ∨ j + 4 ≤ i) (hi : i + 4 ≤ 2 ^ 32)
    (hj : j + 4 ≤ 2 ^ 32) : word (store32 m (BitVec.ofNat 32 i) v) j = word m j := by
  have hin : (BitVec.ofNat 32 i).toNat = i := by
    rw [BitVec.toNat_ofNat]
    omega
  have hjn : (BitVec.ofNat 32 j).toNat = j := by
    rw [BitVec.toNat_ofNat]
    omega
  rcases h with h | h
  · exact load32_store32_of_apart (apart_of_le (by omega) (by omega)).symm
  · exact load32_store32_of_apart (apart_of_le (by omega) (by omega))

/-- Words agree on memories that agree on their bytes. -/
theorem word_congr {n : Nat} (h : ∀ i < 4, m' (BitVec.ofNat 32 (n + i)) =
    m (BitVec.ofNat 32 (n + i))) : word m' n = word m n := by
  refine load32_congr fun i hi => ?_
  have := h i hi
  rwa [BitVec.ofNat_add] at this

/-! ### Several words from one base -/

/-- Store words at offsets from `a`, in order. -/
def storeAll (m : Mem) (a : Address) (l : List (Nat × BitVec 32)) : Mem :=
  l.foldl (fun m e => store32 m (a + BitVec.ofNat 32 e.1) e.2) m

/-- The offsets of a list of stores are aligned and do not wrap. -/
def Aligned (l : List (Nat × BitVec 32)) : Prop := ∀ e ∈ l, e.1 % 4 = 0 ∧ e.1 < 2 ^ 32

variable {l : List (Nat × BitVec 32)}

/-- Two tables of words are stored one after the other. -/
theorem storeAll_append (l1 l2 : List (Nat × BitVec 32)) :
    storeAll m a (l1 ++ l2) = storeAll (storeAll m a l1) a l2 := by
  simp [storeAll]

/-- Stores change no byte outside their words. -/
theorem storeAll_outside {n : Nat} (hx : Outside x a n) (hl : ∀ e ∈ l, e.1 + 4 ≤ n) :
    storeAll m a l x = m x := by
  induction l generalizing m with
  | nil => rfl
  | cons e rest ih =>
      calc storeAll m a (e :: rest) x
          = store32 m (a + BitVec.ofNat 32 e.1) e.2 x :=
            ih fun d hd => hl d (List.mem_cons_of_mem _ hd)
        _ = m x := store32_outside (hx.word (hl e List.mem_cons_self))

/-- Stores keep the word at an offset that is not theirs. -/
theorem load32_storeAll_of_notMem {o : Nat} (hl : Aligned l) (ho : o % 4 = 0 ∧ o < 2 ^ 32)
    (hnot : o ∉ l.map Prod.fst) :
    load32 (storeAll m a l) (a + BitVec.ofNat 32 o) = load32 m (a + BitVec.ofNat 32 o) := by
  induction l generalizing m with
  | nil => rfl
  | cons e rest ih =>
      simp only [List.map_cons, List.mem_cons, not_or] at hnot
      have he := hl e List.mem_cons_self
      calc load32 (storeAll m a (e :: rest)) (a + BitVec.ofNat 32 o)
          = load32 (store32 m (a + BitVec.ofNat 32 e.1) e.2) (a + BitVec.ofNat 32 o) :=
            ih (fun d hd => hl d (List.mem_cons_of_mem _ hd)) hnot.2
        _ = load32 m (a + BitVec.ofNat 32 o) :=
            load32_store32_of_apart (apart_add a ho.1 he.1 ho.2 he.2 hnot.1)

/-- Stores at distinct offsets are all read back. -/
theorem load32_storeAll (hl : Aligned l) (hdistinct : (l.map Prod.fst).Nodup) :
    ∀ e ∈ l, load32 (storeAll m a l) (a + BitVec.ofNat 32 e.1) = e.2 := by
  induction l generalizing m with
  | nil => simp
  | cons e rest ih =>
      obtain ⟨hnot, hrest⟩ := List.nodup_cons.mp hdistinct
      have hl' : Aligned rest := fun d hd => hl d (List.mem_cons_of_mem _ hd)
      intro d hd
      rcases List.mem_cons.mp hd with rfl | hd'
      · exact (load32_storeAll_of_notMem hl' (hl d List.mem_cons_self) hnot).trans
          load32_store32_same
      · exact ih hl' hrest d hd'

end ByteMemory
