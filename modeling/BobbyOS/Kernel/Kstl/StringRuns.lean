import BobbyOS.Kernel.Kstl.Strings
import Mathlib.Logic.Function.Basic

/-!
# Runs of string operations

Any number of strings are constructed, assigned and changed in any order.  The same
operations on sequences of characters say what they are for; a string that has been
moved from has no value there until it gets a new one.

* `string_runs`: as long as `+=` adds single characters, and what is changed has a
  value, every string is its characters and one terminator after every operation.  A
  pop of an empty string fails its assertion, and nothing else fails.
* `append_never`: `+=` of another string or of a C string always fails.
* `taken_fails`: a character is not added to a string that has been moved from.
-/

namespace Kernel

open Except (Along Follows)

/-- The operations.  A constructor makes a new object in the place of one that is
destroyed first. -/
inductive StringOp
  | ofNothing (i : Nat)
  | ofCString (i : Nat) (t : CString)
  | ofChar (i : Nat) (c : Byte)
  | copyConstruct (i other : Nat)
  | moveConstruct (i other : Nat)
  | copyAssign (i other : Nat)
  | moveAssign (i other : Nat)
  | assignCString (i : Nat) (t : CString)
  | assignChar (i : Nat) (c : Byte)
  | clear (i : Nat)
  | append (i other : Nat)
  | appendCString (i : Nat) (t : CString)
  | appendChar (i : Nat) (c : Byte)
  | pushBack (i : Nat) (c : Byte)
  | popBack (i : Nat)

namespace StringOp

/-! ### On strings -/

/-- One object becomes what the operation makes of it. -/
def onString (i : Nat) (str : Except Panic MiniString) (s : Nat → MiniString) :
    Except Panic (Nat → MiniString) := do
  return Function.update s i (← str)

/-- One object gets the data of another one. -/
def takeData (i other : Nat) (s : Nat → MiniString) : Nat → MiniString :=
  Function.update (Function.update s i (s other)) other ⟨.movedFrom⟩

/-- One operation on the objects. -/
def exec (op : StringOp) (s : Nat → MiniString) : Except Panic (Nat → MiniString) :=
  match op with
  | .ofNothing i => onString i (.ok .ofNothing) s
  | .ofCString i t => onString i (MiniString.ofCString t) s
  | .ofChar i c => onString i (MiniString.ofChar c) s
  | .copyConstruct i other => onString i (.ok (s other).copy) s
  | .moveConstruct i other => .ok (takeData i other s)
  | .copyAssign i other => if i = other then .ok s else onString i (.ok ((s i).assign (s other))) s
  | .moveAssign i other => .ok (if i = other then s else takeData i other s)
  | .assignCString i t => onString i ((s i).assignCString t) s
  | .assignChar i c => onString i ((s i).assignChar c) s
  | .clear i => onString i (.ok (s i).clear) s
  | .append i other => if i = other then .ok s else onString i ((s i).append (s other)) s
  | .appendCString i t => onString i ((s i).appendCString t) s
  | .appendChar i c | .pushBack i c => onString i ((s i).pushBack c) s
  | .popBack i => onString i (s i).popBack s

/-- Operations one after the other. -/
def execAll (ops : List StringOp) (s : Nat → MiniString) : Except Panic (Nat → MiniString) :=
  ops.foldlM (fun s op => op.exec s) s

/-! ### On sequences -/

/-- What the operation does to the sequences; a pop needs a character. -/
def apply (op : StringOp) (r : Nat → Option (List Byte)) : Option (Nat → Option (List Byte)) :=
  match op with
  | .ofNothing i | .clear i => some (Function.update r i (some []))
  | .ofCString i t | .assignCString i t => some (Function.update r i (some t.chars))
  | .ofChar i c | .assignChar i c => some (Function.update r i (some [c]))
  | .copyConstruct i other | .copyAssign i other => some (Function.update r i (r other))
  | .moveConstruct i other => some (Function.update (Function.update r i (r other)) other none)
  | .moveAssign i other =>
      some (if i = other then r else Function.update (Function.update r i (r other)) other none)
  | .append i other => some (Function.update r i (do return (← r i) ++ (← r other)))
  | .appendCString i t => some (Function.update r i ((r i).map (· ++ t.chars)))
  | .appendChar i c | .pushBack i c => some (Function.update r i ((r i).map (· ++ [c])))
  | .popBack i =>
      if r i = some [] then none else some (Function.update r i ((r i).map List.dropLast))

/-- What they do to the texts, where they are defined. -/
def applyAll (ops : List StringOp) (r : Nat → Option (List Byte)) :
    Option (Nat → Option (List Byte)) :=
  ops.foldlM (fun r op => op.apply r) r

/-- A constructor does not read the object it replaces. -/
def Valid (op : StringOp) : Prop :=
  match op with
  | .copyConstruct i other | .moveConstruct i other => i ≠ other
  | _ => True

/-- Only single characters are added, and characters are added to and dropped from
strings that have a value.  What is added to itself is empty. -/
def Sound (op : StringOp) (r : Nat → Option (List Byte)) : Prop :=
  match op with
  | .append i other => i = other ∧ ∀ text, r i = some text → text = []
  | .appendCString _ _ => False
  | .appendChar i _ | .pushBack i _ | .popBack i => r i ≠ none
  | _ => True

end StringOp

/-- The strings that have a value hold it. -/
def Hold (s : Nat → MiniString) (r : Nat → Option (List Byte)) : Prop :=
  ∀ i text, r i = some text → (s i).Holds text

/-- A string is the sequence of characters: the data are the characters and one
terminator, the size is the length, and every index below it reads its character. -/
structure MiniString.Is (s : MiniString) (text : List Byte) : Prop where
  data : s.data.items = text ++ [0]
  size : s.size = text.length
  empty : s.empty = true ↔ text = []
  get : ∀ k c, text[k]? = some c → s.get k = .ok c

variable {s : Nat → MiniString} {r : Nat → Option (List Byte)} {e : Panic} {i other : Nat}

/-- A string that holds a text is it. -/
theorem MiniString.Holds.is {s : MiniString} {text : List Byte} (h : s.Holds text) :
    s.Is text := by
  refine ⟨h, h.size_eq, h.empty_iff, fun k c hk => ?_⟩
  obtain ⟨hlt, hc⟩ := List.getElem?_eq_some_iff.mp hk
  rw [h.get hlt, hc]

/-! ### One operation -/

/-- One object gets a new value, the others keep theirs. -/
theorem Hold.onString (h : Hold s r) {str : Except Panic MiniString} {value : Option (List Byte)}
    (hstr : ∃ s', str = .ok s' ∧ ∀ text, value = some text → s'.Holds text) :
    Follows Hold e (StringOp.onString i str s) (some (Function.update r i value)) := by
  obtain ⟨s', rfl, hs'⟩ := hstr
  refine ⟨Function.update s i s', rfl, fun j text hj => ?_⟩
  by_cases hji : j = i
  · subst hji
    rw [Function.update_self] at hj ⊢
    exact hs' text hj
  · rw [Function.update_of_ne hji] at hj ⊢
    exact h j text hj

/-- The value goes with the data. -/
theorem Hold.takeData (h : Hold s r) (hne : i ≠ other) :
    Hold (StringOp.takeData i other s)
      (Function.update (Function.update r i (r other)) other none) := by
  intro j text hj
  unfold StringOp.takeData
  by_cases hjo : j = other
  · subst hjo
    rw [Function.update_self] at hj
    cases hj
  rw [Function.update_of_ne hjo] at hj ⊢
  by_cases hji : j = i
  · subst hji
    rw [Function.update_self] at hj ⊢
    exact h other text hj
  · rw [Function.update_of_ne hji] at hj ⊢
    exact h j text hj

/-- A string that holds the value, whatever was there before. -/
theorem Hold.becomes (h : Hold s r) {str : Except Panic MiniString} {text : List Byte}
    (hstr : ∃ s', str = .ok s' ∧ s'.Holds text) :
    Follows Hold e (StringOp.onString i str s) (some (Function.update r i (some text))) := by
  obtain ⟨s', hs', hholds⟩ := hstr
  refine h.onString ⟨s', hs', fun text' htext => ?_⟩
  obtain rfl := Option.some.inj htext
  exact hholds

/-- A character is added to a string that has a value. -/
theorem Hold.addChar (h : Hold s r) (hr : r i ≠ none) (c : Byte) :
    Follows Hold e (StringOp.onString i ((s i).pushBack c) s)
      (some (Function.update r i ((r i).map (· ++ [c])))) := by
  obtain ⟨text, htext⟩ := Option.ne_none_iff_exists'.mp hr
  rw [htext]
  exact h.becomes ((h i text htext).pushBack c)

/-- A character is dropped, where there is one. -/
theorem Hold.dropChar (h : Hold s r) (hr : r i ≠ none) :
    Follows Hold (.assertFailed "size() > 0") ((StringOp.popBack i).exec s)
      ((StringOp.popBack i).apply r) := by
  obtain ⟨text, htext⟩ := Option.ne_none_iff_exists'.mp hr
  dsimp only [StringOp.apply, StringOp.exec]
  rw [htext]
  have hholds := h i text htext
  rcases List.eq_nil_or_concat text with rfl | ⟨text', c, rfl⟩
  · rw [if_pos rfl, hholds.popBack_nil]
    rfl
  · rw [List.concat_eq_append] at *
    rw [if_neg (by simp)]
    refine h.becomes ?_
    rw [List.dropLast_concat]
    exact hholds.popBack

/-- **One operation.**  It does to the strings what it does to the sequences, or fails
an assertion where a sequence has nothing to pop. -/
theorem Hold.exec (h : Hold s r) {op : StringOp} (hvalid : op.Valid) (hsound : op.Sound r) :
    Follows Hold (.assertFailed "size() > 0") (op.exec s) (op.apply r) := by
  cases op with
  | ofNothing i => exact h.becomes ⟨_, rfl, MiniString.holds_ofNothing⟩
  | ofCString i t => exact h.becomes (MiniString.holds_ofCString t)
  | ofChar i c => exact h.becomes (MiniString.holds_ofChar c)
  | copyConstruct i other => exact h.onString ⟨_, rfl, h other⟩
  | moveConstruct i other => exact ⟨_, rfl, h.takeData hvalid⟩
  | copyAssign i other =>
      dsimp only [StringOp.exec, StringOp.apply]
      by_cases hi : i = other
      · subst hi
        rw [if_pos rfl, Function.update_eq_self]
        exact ⟨s, rfl, h⟩
      · rw [if_neg hi]
        exact h.onString ⟨_, rfl, fun text htext => (h other text htext).assign _⟩
  | moveAssign i other =>
      dsimp only [StringOp.exec, StringOp.apply]
      by_cases hi : i = other
      · rw [if_pos hi, if_pos hi]
        exact ⟨s, rfl, h⟩
      · rw [if_neg hi, if_neg hi]
        exact ⟨_, rfl, h.takeData hi⟩
  | assignCString i t => exact h.becomes (MiniString.holds_assignCString _ t)
  | assignChar i c => exact h.becomes (MiniString.holds_assignChar _ c)
  | clear i => exact h.becomes ⟨_, rfl, MiniString.holds_clear _⟩
  | append i other =>
      -- only the addition to itself is left, which returns at once
      obtain ⟨rfl, hempty⟩ := hsound
      refine ⟨s, if_pos rfl, fun j text hj => ?_⟩
      by_cases hji : j = i
      · subst hji
        rw [Function.update_self] at hj
        cases hr : r j with
        | none =>
            rw [hr] at hj
            cases hj
        | some text' =>
            obtain rfl := hempty text' hr
            rw [hr] at hj
            obtain rfl := Option.some.inj hj
            exact h j _ hr
      · rw [Function.update_of_ne hji] at hj
        exact h j text hj
  | appendCString i t => exact hsound.elim
  | appendChar i c => exact h.addChar hsound c
  | pushBack i c => exact h.addChar hsound c
  | popBack i => exact h.dropChar hsound

/-! ### What is left out -/

/-- **`+=` of a string or a C string** fails an assertion, unless the string is added
to itself, and that changes nothing. -/
theorem append_never (s : Nat → MiniString) (i other : Nat) (t : CString) :
    (i ≠ other → MiniString.Fails ((StringOp.append i other).exec s)) ∧
    (StringOp.append i i).exec s = .ok s ∧
    MiniString.Fails ((StringOp.appendCString i t).exec s) := by
  refine ⟨fun hne => ?_, if_pos rfl, ?_⟩
  · obtain ⟨condition, hfails⟩ := MiniString.append_fails (s i) (s other)
    refine ⟨condition, ?_⟩
    dsimp only [StringOp.exec, StringOp.onString]
    rw [if_neg hne, hfails]
    rfl
  · obtain ⟨condition, hfails⟩ := MiniString.appendCString_fails (s i) t
    refine ⟨condition, ?_⟩
    dsimp only [StringOp.exec, StringOp.onString]
    rw [hfails]
    rfl

/-- A string that a move has left behind has no last element to write over, and none
to drop. -/
theorem taken_fails (s : Nat → MiniString) (hne : i ≠ other) (c : Byte) :
    ∃ s', (StringOp.moveAssign i other).exec s = .ok s' ∧
      (StringOp.pushBack other c).exec s' = .error (.assertFailed "_size > 0") ∧
      (StringOp.popBack other).exec s' = .error (.assertFailed "_size > 0") := by
  refine ⟨StringOp.takeData i other s, ?_, ?_, ?_⟩
  · dsimp only [StringOp.exec]
    rw [if_neg hne]
  · dsimp only [StringOp.exec, StringOp.takeData]
    rw [Function.update_self]
    rfl
  · dsimp only [StringOp.exec, StringOp.takeData]
    rw [Function.update_self]
    rfl

/-! ### Runs -/

/-- **Runs of string operations.**  After any operations of which none adds more than
a character, every string is its characters; only a pop of an empty string fails, and
that with its assertion. -/
theorem string_runs (ops : List StringOp) (hvalid : ∀ op ∈ ops, op.Valid)
    (hsound : Along (fun r op => op.apply r) StringOp.Sound ops fun _ => some []) :
    match StringOp.applyAll ops fun _ => some [] with
    | some r => ∃ s, StringOp.execAll ops (fun _ => .ofNothing) = .ok s ∧
        ∀ i text, r i = some text → (s i).Is text
    | none => StringOp.execAll ops (fun _ => .ofNothing) = .error (.assertFailed "size() > 0") := by
  have hinitial : Hold (fun _ => .ofNothing) fun _ => some [] := by
    intro i text htext
    obtain rfl := Option.some.inj htext
    exact MiniString.holds_ofNothing
  have hfollows := Except.foldlM_follows (f := fun s op => op.exec s)
    (P := fun op r => op.Valid ∧ op.Sound r) (fun op h hP => h.exec hP.1 hP.2) hinitial
    (hsound.imp fun op hop r hr => ⟨hvalid op hop, hr⟩)
  have h : Follows (fun s r => ∀ i text, r i = some text → (s i).Is text) _
      (StringOp.execAll ops fun _ => .ofNothing) (StringOp.applyAll ops _) :=
    hfollows.imp fun hhold i text htext => (hhold i text htext).is
  generalize StringOp.applyAll ops (fun _ => some []) = r at h ⊢
  cases r with
  | none => exact h
  | some r => exact h

/-- The characters of a small text. -/
def CString.ab : CString := ⟨[97, 98], by decide⟩

/-- A C string gets a character, loses it in a copy, and is taken over by a third
string; the string it is taken from is cleared. -/
theorem string_run_taken : ∃ s, StringOp.execAll [.ofCString 0 .ab, .appendChar 0 99,
      .copyAssign 1 0, .popBack 1, .moveAssign 2 0, .clear 0] (fun _ => .ofNothing) = .ok s ∧
    (s 0).Is [] ∧ (s 1).Is [97, 98] ∧ (s 2).Is [97, 98, 99] := by
  obtain ⟨s, hexec, his⟩ := string_runs [.ofCString 0 .ab, .appendChar 0 99, .copyAssign 1 0,
    .popBack 1, .moveAssign 2 0, .clear 0] (by simp [StringOp.Valid])
    (.cons trivial rfl <| .cons (Option.some_ne_none _) rfl <| .cons trivial rfl <|
      .cons (Option.some_ne_none _) rfl <| .cons trivial rfl <| .cons trivial rfl trivial)
  exact ⟨s, hexec, his 0 _ rfl, his 1 _ rfl, his 2 _ rfl⟩

/-- `+=` of one string to another. -/
theorem string_append_asserts :
    (∃ r, StringOp.applyAll [.ofChar 0 97, .ofChar 1 98, .append 0 1] (fun _ => some []) =
      some r) ∧
    StringOp.execAll [.ofChar 0 97, .ofChar 1 98, .append 0 1] (fun _ => .ofNothing) =
      .error (.assertFailed "idx < size()") :=
  ⟨⟨_, rfl⟩, rfl⟩

end Kernel
