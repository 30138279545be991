import BobbyOS.Kernel.Kstl.Vectors

/-!
# `ministl::string`

A string keeps its characters and one terminating NUL in a vector.  The user-space
string is the same text.

* `Holds`: the data are the characters and the terminator.
* `Holds.pushBack`, `Holds.popBack`, `holds_ofCString`, `Holds.assignCString`: the
  operations on one character and the constructions keep that.
* `append_fails`, `appendCString_fails`: `+=` of another string starts behind the
  terminator, and always runs into an assertion.
-/

namespace Kernel

/-- A C string: its characters up to the terminator. -/
structure CString where
  chars : List Byte
  noNul : (0 : Byte) ∉ chars

/-- `s[i]`. -/
def CString.read (s : CString) (i : Nat) : Except Panic Byte :=
  match (s.chars ++ [0])[i]? with
  | none => .error .outOfBounds
  | some c => .ok c

/-- `strlen(s)`: the first `len` with `s[len] == '\\0'`. -/
def strlen (s : CString) : Nat := (s.chars ++ [0]).findIdx (· = 0)

/-- `strlen` counts the characters. -/
theorem strlen_eq (s : CString) : strlen s = s.chars.length := by
  have hchars : s.chars.findIdx (· = 0) = s.chars.length := by
    refine List.findIdx_eq_length.mpr fun c hc => ?_
    rw [decide_eq_false_iff_not]
    rintro rfl
    exact s.noNul hc
  rw [strlen, List.findIdx_append, hchars, if_neg (Nat.lt_irrefl _), List.findIdx_cons]
  exact Nat.zero_add _

/-- A C string takes its length and one more. -/
theorem CString.length_memory (s : CString) : (s.chars ++ [0]).length = strlen s + 1 := by
  rw [strlen_eq, List.length_append]
  rfl

/-- Its characters are read. -/
theorem CString.read_eq {s : CString} {i : Nat} {c : Byte} (h : (s.chars ++ [0])[i]? = some c) :
    s.read i = .ok c := by
  rw [CString.read, h]

/-- `string`, which is its vector of characters. -/
structure MiniString where
  data : MiniVector Byte

namespace MiniString

/-- `string()`. -/
def ofNothing : MiniString := ⟨.ofCount 1 0⟩

/-- `string(const string&)`. -/
def copy (str : MiniString) : MiniString := ⟨str.data⟩

/-- `string(const char*)`. -/
def ofCString (s : CString) : Except Panic MiniString := do
  let data := MiniVector.ofCount (strlen s + 1) 0
  return ⟨← MiniVector.fill s.read 0 data.items.length data⟩

/-- `string(char)`. -/
def ofChar (c : Byte) : Except Panic MiniString := do
  let data ← (MiniVector.ofCount 2 0).set 0 c
  return ⟨← data.set 1 0⟩

/-- `operator=(const string&)`, from another string. -/
def assign (s str : MiniString) : MiniString := ⟨s.data.assign str.data⟩

/-- `operator=(const char*)`. -/
def assignCString (s : MiniString) (t : CString) : Except Panic MiniString := do
  let len := strlen t + 1
  let data ← s.data.resize len 0
  return ⟨← MiniVector.fill t.read 0 len data⟩

/-- `operator=(char)`. -/
def assignChar (s : MiniString) (c : Byte) : Except Panic MiniString := do
  let data ← s.data.resize 2 0
  let data ← data.set 0 c
  return ⟨← data.set 1 0⟩

/-- `size()`; the difference wraps around when a move has taken the data. -/
def size (s : MiniString) : Nat :=
  if s.data.items.length = 0 then 2 ^ 32 - 1 else s.data.items.length - 1

/-- `clear`. -/
def clear (s : MiniString) : MiniString := ⟨s.data.clear.pushBack 0⟩

/-- `empty`. -/
def empty (s : MiniString) : Bool := s.data.items.length = 1

/-- `operator[]` and `at`. -/
def get (s : MiniString) (i : Nat) : Except Panic Byte := do
  kassert (i < s.size) "idx < size()"
  s.data.get i

/-- `s[i] = c`. -/
def set (s : MiniString) (i : Nat) (c : Byte) : Except Panic MiniString := do
  kassert (i < s.size) "idx < size()"
  return ⟨← s.data.set i c⟩

/-- `operator+=(const string&)` of another string.  `str.size() + 1` is the size of
its vector, also when the difference has wrapped around. -/
def append (s str : MiniString) : Except Panic MiniString := do
  let start := s.data.items.length
  let new_size := start + str.data.items.length
  let data ← s.data.resize new_size 0
  let data ← MiniVector.fill str.get start (new_size - start) data
  return ⟨← data.set new_size 0⟩

/-- `operator+=(const char*)`. -/
def appendCString (s : MiniString) (t : CString) : Except Panic MiniString := do
  let start := s.data.items.length
  let new_size := start + strlen t + 1
  let data ← s.data.resize new_size 0
  let data ← MiniVector.fill t.read start (new_size - start) data
  return ⟨← data.set new_size 0⟩

/-- `push_back(c)`, and `operator+=(char)`. -/
def pushBack (s : MiniString) (c : Byte) : Except Panic MiniString := do
  let data ← s.data.setBack c
  return ⟨data.pushBack 0⟩

/-- `pop_back`. -/
def popBack (s : MiniString) : Except Panic MiniString := do
  kassert (0 < s.size) "size() > 0"
  let data ← s.data.popBack
  return ⟨← data.setBack 0⟩

/-! ### What a string holds -/

/-- The data are the characters and the terminator. -/
def Holds (s : MiniString) (text : List Byte) : Prop := s.data.items = text ++ [0]

variable {s str : MiniString} {text : List Byte} {c : Byte}

/-- A string has its text and a terminator. -/
theorem Holds.length (h : s.Holds text) : s.data.items.length = text.length + 1 := by
  rw [h, List.length_append]
  rfl

/-- `size` is the text's length. -/
theorem Holds.size_eq (h : s.Holds text) : s.size = text.length := by
  rw [size, h.length, if_neg (Nat.succ_ne_zero _), Nat.add_sub_cancel]

/-- `empty` says whether the text is. -/
theorem Holds.empty_iff (h : s.Holds text) : s.empty = true ↔ text = [] := by
  rw [empty, h.length, decide_eq_true_iff]
  exact Nat.succ_inj.trans List.length_eq_zero_iff

/-- A new string is empty. -/
theorem holds_ofNothing : ofNothing.Holds [] := rfl

/-- The loop that copies a C string over a vector of its length. -/
theorem fill_cstring {t : CString} {data : MiniVector Byte}
    (hlength : data.items.length = strlen t + 1) :
    ∃ v, MiniVector.fill t.read 0 (strlen t + 1) data = .ok v ∧ v.items = t.chars ++ [0] := by
  have hchars := t.length_memory
  have hread : ∀ i c, (t.chars ++ [0])[i]? = some c → t.read i = .ok c :=
    fun i c h => CString.read_eq h
  obtain ⟨v, hfill, hv⟩ := MiniVector.fill_eq hread (hchars.trans hlength.symm)
    (Nat.le_of_eq hchars.symm)
  refine ⟨v, hfill, ?_⟩
  rw [hv, List.take_of_length_le (Nat.le_of_eq hchars),
    List.drop_eq_nil_of_le (Nat.le_of_eq hlength), List.append_nil]

/-- A string of a C string has its characters. -/
theorem holds_ofCString (t : CString) : ∃ s, ofCString t = .ok s ∧ s.Holds t.chars := by
  have hlength : (MiniVector.ofCount (strlen t + 1) (0 : Byte)).items.length = strlen t + 1 :=
    List.length_replicate
  obtain ⟨v, hfill, hv⟩ := fill_cstring hlength
  refine ⟨⟨v⟩, ?_, hv⟩
  unfold ofCString
  dsimp only
  rw [hlength, hfill]
  rfl

/-- A character and the terminator, written over two elements. -/
theorem set_pair {data : MiniVector Byte} (hlength : data.items.length = 2) (c : Byte) :
    ∃ v, (do MiniVector.set (← data.set 0 c) 1 0) = .ok v ∧ v.items = [c] ++ [0] := by
  obtain ⟨v₁, hset₁, hv₁⟩ := MiniVector.set_ok (v := data) (i := 0) (by omega) c
  obtain ⟨v, hset, hv⟩ := MiniVector.set_ok (v := v₁) (i := 1)
    (by rw [hv₁, List.length_set]; omega) 0
  refine ⟨v, by rw [hset₁, Except.ok_bind, hset], ?_⟩
  obtain ⟨a, b, hab⟩ := List.length_eq_two.mp hlength
  rw [hv, hv₁, hab]
  rfl

/-- A string of a character has it. -/
theorem holds_ofChar (c : Byte) : ∃ s, ofChar c = .ok s ∧ s.Holds [c] := by
  have hlength : (MiniVector.ofCount 2 (0 : Byte)).items.length = 2 := rfl
  obtain ⟨v, hset, hv⟩ := set_pair hlength c
  obtain ⟨v₁, h₁, h₂⟩ := Except.bind_ok_iff.mp hset
  refine ⟨⟨v⟩, ?_, hv⟩
  rw [ofChar, h₁, Except.ok_bind, h₂]
  rfl

/-- An assigned string has the other's text. -/
theorem Holds.assign (h : str.Holds text) (s : MiniString) : (s.assign str).Holds text := h

/-- Any string may be assigned to, also one whose data have been taken. -/
theorem holds_assignCString (s : MiniString) (t : CString) :
    ∃ s', s.assignCString t = .ok s' ∧ s'.Holds t.chars := by
  obtain ⟨data, hresize, hlength⟩ := s.data.length_resize (strlen t + 1) 0
  obtain ⟨v, hfill, hv⟩ := fill_cstring hlength
  refine ⟨⟨v⟩, ?_, hv⟩
  unfold assignCString
  dsimp only
  rw [hresize, Except.ok_bind, hfill]
  rfl

/-- A string that a character is assigned to has it. -/
theorem holds_assignChar (s : MiniString) (c : Byte) :
    ∃ s', s.assignChar c = .ok s' ∧ s'.Holds [c] := by
  obtain ⟨data, hresize, hlength⟩ := s.data.length_resize 2 0
  obtain ⟨v, hset, hv⟩ := set_pair hlength c
  obtain ⟨v₁, h₁, h₂⟩ := Except.bind_ok_iff.mp hset
  refine ⟨⟨v⟩, ?_, hv⟩
  rw [assignChar, hresize, Except.ok_bind, h₁, Except.ok_bind, h₂]
  rfl

/-- A cleared string is empty. -/
theorem holds_clear (s : MiniString) : s.clear.Holds [] := MiniVector.items_pushBack

/-- **Appending a character** writes over the terminator and adds a new one. -/
theorem Holds.pushBack (h : s.Holds text) (c : Byte) :
    ∃ s', s.pushBack c = .ok s' ∧ s'.Holds (text ++ [c]) := by
  obtain ⟨v, hset, hv⟩ := MiniVector.setBack_concat h c
  refine ⟨⟨v.pushBack 0⟩, ?_, ?_⟩
  · rw [MiniString.pushBack, hset]
    rfl
  · rw [Holds, MiniVector.items_pushBack, hv]

/-- **Dropping a character** makes its place the terminator. -/
theorem Holds.popBack (h : s.Holds (text ++ [c])) :
    ∃ s', s.popBack = .ok s' ∧ s'.Holds text := by
  obtain ⟨v₁, hpop, hv₁⟩ := MiniVector.popBack_concat h
  obtain ⟨v, hset, hv⟩ := MiniVector.setBack_concat hv₁ 0
  refine ⟨⟨v⟩, ?_, hv⟩
  have hsize : decide (0 < s.size) = true := by
    rw [h.size_eq, List.length_append]
    exact decide_eq_true (Nat.succ_pos _)
  rw [MiniString.popBack, kassert, if_pos hsize, Except.ok_bind, hpop, Except.ok_bind, hset]
  rfl

/-- `pop_back` of an empty string fails its assertion. -/
theorem Holds.popBack_nil (h : s.Holds []) :
    s.popBack = .error (.assertFailed "size() > 0") := by
  have hsize : ¬ decide (0 < s.size) = true := by
    rw [h.size_eq]
    decide
  rw [MiniString.popBack, kassert, if_neg hsize]
  rfl

/-- A character below the size is read. -/
theorem Holds.get (h : s.Holds text) {i : Nat} (hi : i < text.length) :
    s.get i = .ok text[i] := by
  have hsize : decide (i < s.size) = true := by
    rw [h.size_eq]
    exact decide_eq_true hi
  rw [MiniString.get, kassert, if_pos hsize, Except.ok_bind, MiniVector.get, h,
    List.getElem?_append_left hi, List.getElem?_eq_getElem hi]

/-- It is written over. -/
theorem Holds.set (h : s.Holds text) {i : Nat} (hi : i < text.length) (c : Byte) :
    ∃ s', s.set i c = .ok s' ∧ s'.Holds (text.set i c) := by
  have hsize : decide (i < s.size) = true := by
    rw [h.size_eq]
    exact decide_eq_true hi
  obtain ⟨v, hset, hv⟩ := MiniVector.set_ok (v := s.data) (i := i) (by rw [h.length]; omega) c
  refine ⟨⟨v⟩, ?_, ?_⟩
  · rw [MiniString.set, kassert, if_pos hsize, Except.ok_bind, hset]
    rfl
  · rw [Holds, hv, h, List.set_append_left _ _ hi]

/-- The character between two parts. -/
theorem Holds.get_middle {before rest : List Byte} (h : s.Holds (before ++ c :: rest)) :
    s.get before.length = .ok c := by
  have hi : before.length < (before ++ c :: rest).length := by
    rw [List.length_append, List.length_cons]
    omega
  rw [h.get hi, List.getElem_append_right (Nat.le_refl _)]
  simp

/-- The same, in the middle of the text. -/
theorem Holds.set_middle {before rest : List Byte} (h : s.Holds (before ++ c :: rest))
    (c' : Byte) : ∃ s', s.set before.length c' = .ok s' ∧ s'.Holds (before ++ c' :: rest) := by
  obtain ⟨s', hset, hs'⟩ := h.set (i := before.length) (by simp) c'
  refine ⟨s', hset, ?_⟩
  rwa [List.set_append_right _ _ (Nat.le_refl _), Nat.sub_self] at hs'

/-! ### `+=` of more than a character -/

/-- An assertion fails. -/
def Fails {β : Type} (r : Except Panic β) : Prop := ∃ condition, r = .error (.assertFailed condition)

/-- **`+=` of another string** fails: the copy asks the other string for its terminator,
or the last write is behind the vector. -/
theorem append_fails (s str : MiniString) : Fails (s.append str) := by
  obtain ⟨data, hresize, hlength⟩ :=
    s.data.length_resize (s.data.items.length + str.data.items.length) 0
  unfold append
  dsimp only
  rw [hresize, Except.ok_bind, Nat.add_sub_cancel_left]
  rcases Nat.eq_zero_or_pos str.data.items.length with hzero | hpos
  · rw [hzero]
    refine ⟨"idx < _size", ?_⟩
    rw [MiniVector.fill, Except.ok_bind, MiniVector.set, if_neg (by omega)]
    rfl
  · obtain ⟨n, hn⟩ := Nat.exists_eq_succ_of_ne_zero (Nat.ne_of_gt hpos)
    have hsize : str.size = n := by
      rw [size, if_neg (by omega)]
      omega
    have hread : ∀ i < n, ∃ c, str.get i = .ok c := by
      intro i hi
      refine ⟨str.data.items[i], ?_⟩
      rw [MiniString.get, kassert, if_pos (by simp [hsize, hi]), Except.ok_bind, MiniVector.get,
        List.getElem?_eq_getElem (by omega)]
    have hlast : str.get n = .error (.assertFailed "idx < size()") := by
      rw [MiniString.get, kassert, if_neg (by simp [hsize])]
      rfl
    have hroom : s.data.items.length + n ≤ data.items.length := by omega
    obtain ⟨v, hfill, -⟩ := MiniVector.fill_ok hread hroom
    refine ⟨"idx < size()", ?_⟩
    rw [hn, MiniVector.fill, hfill, Except.ok_bind, hlast]
    rfl

/-- **`+=` of a C string** fails: its last write is behind the vector. -/
theorem appendCString_fails (s : MiniString) (t : CString) : Fails (s.appendCString t) := by
  obtain ⟨data, hresize, hlength⟩ := s.data.length_resize (s.data.items.length + strlen t + 1) 0
  have hread : ∀ i < strlen t + 1, ∃ c, t.read i = .ok c := by
    intro i hi
    have hlt : i < (t.chars ++ [0]).length := by
      rw [t.length_memory]
      exact hi
    exact ⟨_, CString.read_eq (List.getElem?_eq_getElem hlt)⟩
  have hroom : s.data.items.length + (strlen t + 1) ≤ data.items.length := by omega
  obtain ⟨v, hfill, hv⟩ := MiniVector.fill_ok hread hroom
  refine ⟨"idx < _size", ?_⟩
  unfold appendCString
  dsimp only
  rw [hresize, Except.ok_bind, show s.data.items.length + strlen t + 1 - s.data.items.length =
    strlen t + 1 by omega, hfill, Except.ok_bind, MiniVector.set, if_neg (by omega)]
  rfl

end MiniString

end Kernel
