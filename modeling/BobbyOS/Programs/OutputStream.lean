import BobbyOS.Programs.Numerals

/-!
# `std::cout`

An output stream collects characters in a buffer of `MAX_BUF` and one more, and prints
them as one string when the buffer is full or a flush is asked for.  The terminator is
written in front of the stale rest of the buffer just before that.

* `COstream.Sends`: the strings printed and the characters pending make up a text.
* `Sends.flush`, `Sends.appendbuf`: the two operations on the buffer keep that.
* `stream_runs`: after any insertions and manipulators no character is lost, and none is
  printed twice.
-/

namespace Programs

open Kernel (Byte CString MiniString Word Panic)
open Numeral

scoped instance : LawfulBEq Byte := inferInstance

/-- The characters that a stream collects. -/
def MAX_BUF : Nat := 4096

/-- A stream: its buffer, and what it has printed so far. -/
structure COstream where
  streambuf : List Byte
  bufsize : Nat
  printed : List (List Byte)
  room : streambuf.length = MAX_BUF + 1

/-- The C string at the start of some characters. -/
def cstr (chars : List Byte) : List Byte := chars.takeWhile (· ≠ 0)

namespace COstream

/-- `COstream()`.  Nothing is known of the characters in a new buffer. -/
def create (streambuf : { chars : List Byte // chars.length = MAX_BUF + 1 }) : COstream :=
  ⟨streambuf.1, 0, [], streambuf.2⟩

/-- `streambuf[i] = c`. -/
def write (s : COstream) (i : Nat) (c : Byte) : Except Panic COstream :=
  if i ≤ MAX_BUF then
    .ok { s with
      streambuf := s.streambuf.set i c
      room := by rw [List.length_set]; exact s.room }
  else .error .outOfBounds

/-- `printString(streambuf)`, which needs a terminator in the buffer. -/
def printString (s : COstream) : Except Panic COstream :=
  if 0 ∈ s.streambuf then .ok { s with printed := s.printed ++ [cstr s.streambuf] }
  else .error .outOfBounds

/-- `if (streambuf[bufsize] != '\\0') streambuf[bufsize] = '\\0'`. -/
def terminate (s : COstream) : Except Panic COstream :=
  match s.streambuf[s.bufsize]? with
  | none => .error .outOfBounds
  | some c => if c ≠ 0 then s.write s.bufsize 0 else .ok s

/-- `flush`. -/
def flush (s : COstream) : Except Panic COstream := do
  let s ← (← s.terminate).printString
  return { s with bufsize := 0 }

/-- `streambuf[bufsize++] = c`. -/
def put (s : COstream) (c : Byte) : Except Panic COstream := do
  let t ← s.write s.bufsize c
  return { t with bufsize := s.bufsize + 1 }

/-- `appendbuf`: a full buffer is printed first. -/
def appendbuf (s : COstream) (c : Byte) : Except Panic COstream := do
  let s ← if s.bufsize = MAX_BUF then s.flush else .ok s
  s.put c

/-- `<<` of a string: all `i` below its size. -/
def appendString (s : COstream) (other : MiniString) : Except Panic COstream :=
  (List.range other.size).foldlM (fun s i => do s.appendbuf (← other.get i)) s

/-- `<<` of a C string: until a terminator is read. -/
def appendChars (s : COstream) : List Byte → Except Panic COstream
  | [] => .error .outOfBounds
  | c :: rest => if c = 0 then .ok s else do (← s.appendbuf c).appendChars rest

end COstream

/-- A string that has a value. -/
structure HeldString where
  str : MiniString
  text : List Byte
  holds : str.Holds text

/-- What is inserted into a stream: the forms of `<<`, two of them manipulators. -/
inductive StreamOp
  | string (other : HeldString)
  | cstring (other : CString)
  | unsigned (other : Word)
  | int (other : Word)
  | char (c : Byte)
  | flush
  | endl

namespace StreamOp

/-- The end of a line. -/
def newline : Byte := 10

/-- One insertion or manipulator. -/
def exec (op : StreamOp) (s : COstream) : Except Panic COstream :=
  match op with
  | .string other => s.appendString other.str
  | .cstring other => s.appendChars (other.chars ++ [0])
  | .unsigned other => do s.appendString (← toStringUnsigned other)
  | .int other => do s.appendString (← toStringInt other)
  | .char c => s.appendbuf c
  | .flush => s.flush
  | .endl => do (← s.appendbuf newline).flush

/-- Some of them, one after the other. -/
def execAll (ops : List StreamOp) (s : COstream) : Except Panic COstream :=
  ops.foldlM (fun s op => op.exec s) s

/-- The text that is inserted. -/
def text : StreamOp → List Byte
  | .string other => other.text
  | .cstring other => other.chars
  | .unsigned other => signed other.toNat
  | .int other => signed other.toInt
  | .char c => [c]
  | .flush => []
  | .endl => [newline]

/-- No terminator among the characters. -/
def NulFree : StreamOp → Prop
  | .string other => 0 ∉ other.text
  | .char c => c ≠ 0
  | _ => True

end StreamOp

/-! ### The buffer -/

/-- The characters that have not been printed. -/
def COstream.pending (s : COstream) : List Byte := s.streambuf.take s.bufsize

/-- **What a stream sends.**  The buffer is not too full, and the text is in the pieces
that were printed, as far as a C string can hold them, and the pending characters. -/
structure COstream.Sends (s : COstream) (text : List Byte) : Prop where
  le : s.bufsize ≤ MAX_BUF
  sent : ∃ pieces : List (List Byte), s.printed = pieces.map cstr ∧
    pieces.flatten ++ s.pending = text

variable {s : COstream} {text chars : List Byte} {c : Byte}

/-- A terminator ends the C string. -/
theorem cstr_append (chars rest : List Byte) : cstr (chars ++ 0 :: rest) = cstr chars := by
  induction chars with
  | nil => rfl
  | cons c chars ih =>
      unfold cstr at ih ⊢
      rw [List.cons_append, List.takeWhile_cons, List.takeWhile_cons, ih]

/-- Without a terminator among them, the characters are their C string. -/
theorem cstr_eq (h : 0 ∉ chars) : cstr chars = chars := by
  induction chars with
  | nil => rfl
  | cons c chars ih =>
      rw [List.mem_cons, not_or] at h
      unfold cstr at ih ⊢
      rw [List.takeWhile_cons, if_pos (decide_eq_true (Ne.symm h.1)), ih h.2]

namespace COstream

/-- A new stream sends nothing. -/
theorem sends_create (streambuf : { chars : List Byte // chars.length = MAX_BUF + 1 }) :
    (create streambuf).Sends [] :=
  ⟨Nat.zero_le _, [], rfl, rfl⟩

/-- The buffer around a place that is used next. -/
theorem Sends.set_eq (h : s.Sends text) (c : Byte) :
    s.streambuf.set s.bufsize c = s.pending ++ c :: s.streambuf.drop (s.bufsize + 1) := by
  refine (List.set_eq_take_append_cons_drop).trans (if_pos ?_)
  rw [s.room]
  exact Nat.lt_succ_of_le h.le

/-- So many characters are pending. -/
theorem Sends.length_pending (h : s.Sends text) : s.pending.length = s.bufsize := by
  rw [pending, List.length_take, s.room]
  exact Nat.min_eq_left (Nat.le_succ_of_le h.le)

/-- The terminator is behind the pending characters when they are printed. -/
theorem Sends.terminate (h : s.Sends text) : ∃ t, s.terminate = .ok t ∧
    t.printed = s.printed ∧ ∃ rest, t.streambuf = s.pending ++ 0 :: rest := by
  have hlt : s.bufsize < s.streambuf.length := by
    rw [s.room]
    exact Nat.lt_succ_of_le h.le
  unfold COstream.terminate
  rw [List.getElem?_eq_getElem hlt]
  by_cases hc : s.streambuf[s.bufsize] = 0
  · -- the stale character is a terminator already
    refine ⟨s, if_neg (not_not.mpr hc), rfl, s.streambuf.drop (s.bufsize + 1), ?_⟩
    rw [← hc, ← List.drop_eq_getElem_cons hlt]
    exact (List.take_append_drop _ _).symm
  · exact ⟨_, (if_pos hc).trans (if_pos h.le), rfl, _, h.set_eq 0⟩

/-- **A flush** prints what is pending. -/
theorem Sends.flush (h : s.Sends text) :
    ∃ s', s.flush = .ok s' ∧ s'.Sends text ∧ s'.bufsize = 0 := by
  obtain ⟨t, ht, hprinted, rest, hbuf⟩ := h.terminate
  obtain ⟨pieces, hpieces, htext⟩ := h.sent
  have hprint : t.printString = .ok { t with printed := t.printed ++ [cstr t.streambuf] } := by
    refine if_pos ?_
    rw [hbuf]
    simp
  refine ⟨⟨t.streambuf, 0, t.printed ++ [cstr t.streambuf], t.room⟩, ?_,
    ⟨Nat.zero_le _, pieces ++ [s.pending], ?_, ?_⟩, rfl⟩
  · rw [COstream.flush, ht, Except.ok_bind, hprint]
    rfl
  · dsimp only
    rw [hprinted, hpieces, hbuf, cstr_append, List.map_append]
    rfl
  · rw [← htext, List.flatten_append, List.flatten_singleton]
    exact List.append_nil _

/-- A character is put behind the pending ones, where there is room. -/
theorem Sends.put (h : s.Sends text) (hlt : s.bufsize < MAX_BUF) (c : Byte) :
    ∃ s', s.put c = .ok s' ∧ s'.Sends (text ++ [c]) := by
  obtain ⟨pieces, hpieces, htext⟩ := h.sent
  have hroom : (s.streambuf.set s.bufsize c).length = MAX_BUF + 1 := by
    rw [List.length_set]
    exact s.room
  have hwrite : s.write s.bufsize c =
      .ok ⟨s.streambuf.set s.bufsize c, s.bufsize, s.printed, hroom⟩ := if_pos h.le
  have hpending : (s.streambuf.set s.bufsize c).take (s.bufsize + 1) = s.pending ++ [c] := by
    rw [h.set_eq, ← h.length_pending, List.take_length_add_append]
    rfl
  refine ⟨⟨s.streambuf.set s.bufsize c, s.bufsize + 1, s.printed, hroom⟩, ?_, hlt, pieces,
    hpieces, ?_⟩
  · rw [COstream.put, hwrite]
    rfl
  · rw [← htext, List.append_assoc, ← hpending]
    rfl

/-- **Appending a character** prints a full buffer first. -/
theorem Sends.appendbuf (h : s.Sends text) (c : Byte) :
    ∃ s', s.appendbuf c = .ok s' ∧ s'.Sends (text ++ [c]) := by
  unfold COstream.appendbuf
  by_cases hfull : s.bufsize = MAX_BUF
  · obtain ⟨s₁, hflush, h₁, hzero⟩ := h.flush
    rw [if_pos hfull, hflush]
    exact h₁.put (by rw [hzero]; decide) c
  · rw [if_neg hfull]
    exact h.put (Nat.lt_of_le_of_ne h.le hfull) c

/-! ### Insertions -/

/-- **A string** is inserted one character at a time. -/
theorem Sends.appendString (h : s.Sends text) {other : MiniString} (hother : other.Holds chars) :
    ∃ s', s.appendString other = .ok s' ∧ s'.Sends (text ++ chars) := by
  have hrounds : ∀ n ≤ chars.length, ∃ s',
      (List.range n).foldlM (fun s i => do COstream.appendbuf s (← other.get i)) s = .ok s' ∧
        s'.Sends (text ++ chars.take n) := by
    intro n hn
    induction n with
    | zero => exact ⟨s, rfl, by rwa [List.take_zero, List.append_nil]⟩
    | succ n ih =>
        obtain ⟨s₁, hfold, h₁⟩ := ih (Nat.le_of_succ_le hn)
        obtain ⟨s', happend, h'⟩ := h₁.appendbuf chars[n]
        refine ⟨s', ?_, ?_⟩
        · rw [List.range_succ, List.foldlM_append, hfold, Except.ok_bind, List.foldlM_cons,
            hother.get hn, Except.ok_bind, happend]
          rfl
        · rw [List.take_succ_eq_append_getElem hn, ← List.append_assoc]
          exact h'
  obtain ⟨s', hfold, h'⟩ := hrounds chars.length (Nat.le_refl _)
  rw [List.take_length] at h'
  refine ⟨s', ?_, h'⟩
  rw [COstream.appendString, hother.size_eq]
  exact hfold

/-- **A C string** is inserted up to its terminator. -/
theorem Sends.appendChars (h : s.Sends text) (hchars : 0 ∉ chars) :
    ∃ s', s.appendChars (chars ++ [0]) = .ok s' ∧ s'.Sends (text ++ chars) := by
  induction chars generalizing s text with
  | nil => exact ⟨s, rfl, by rwa [List.append_nil]⟩
  | cons c chars ih =>
      rw [List.mem_cons, not_or] at hchars
      obtain ⟨s₁, happend, h₁⟩ := h.appendbuf c
      obtain ⟨s', hrest, h'⟩ := ih h₁ hchars.2
      refine ⟨s', ?_, by rwa [List.append_cons]⟩
      rw [List.cons_append, COstream.appendChars, if_neg (Ne.symm hchars.1), happend]
      exact hrest

/-- **One operation** sends its text. -/
theorem Sends.exec (h : s.Sends text) (op : StreamOp) :
    ∃ s', op.exec s = .ok s' ∧ s'.Sends (text ++ op.text) := by
  cases op with
  | string other => exact h.appendString other.holds
  | cstring other => exact h.appendChars other.noNul
  | unsigned other =>
      obtain ⟨x, hx, hholds⟩ := toStringUnsigned_ok other
      obtain ⟨s', hs', h'⟩ := h.appendString hholds
      exact ⟨s', by rw [StreamOp.exec, hx]; exact hs', h'⟩
  | int other =>
      obtain ⟨x, hx, hholds⟩ := toStringInt_ok other
      obtain ⟨s', hs', h'⟩ := h.appendString hholds
      exact ⟨s', by rw [StreamOp.exec, hx]; exact hs', h'⟩
  | char c => exact h.appendbuf c
  | flush =>
      obtain ⟨s', hs', h', -⟩ := h.flush
      exact ⟨s', hs', by rwa [StreamOp.text, List.append_nil]⟩
  | endl =>
      obtain ⟨s₁, happend, h₁⟩ := h.appendbuf StreamOp.newline
      obtain ⟨s', hs', h', -⟩ := h₁.flush
      exact ⟨s', by rw [StreamOp.exec, happend]; exact hs', h'⟩

/-- **Runs.**  The stream sends the texts, one behind the other. -/
theorem Sends.execAll (h : s.Sends text) (ops : List StreamOp) :
    ∃ s', StreamOp.execAll ops s = .ok s' ∧ s'.Sends (text ++ ops.flatMap StreamOp.text) := by
  obtain ⟨s', hexec, h'⟩ := Except.foldlM_tracks (R := Sends) (fun op h => h.exec op) h ops
  rw [List.foldl_append_eq_append, ← List.flatMap_def] at h'
  exact ⟨s', hexec, h'⟩

/-- Text without a terminator is printed and pending as it is. -/
theorem Sends.printed_pending (h : s.Sends text) (hnul : 0 ∉ text) :
    s.printed.flatten ++ s.pending = text := by
  obtain ⟨pieces, hpieces, htext⟩ := h.sent
  have hcstr : ∀ piece ∈ pieces, cstr piece = id piece := by
    refine fun piece hpiece => cstr_eq fun hmem => hnul ?_
    rw [← htext]
    exact List.mem_append_left _ (List.mem_flatten_of_mem hpiece hmem)
  rw [hpieces, List.map_congr_left hcstr, List.map_id, htext]

end COstream

/-! ### Runs -/

/-- No numeral has a terminator. -/
theorem signed_nulFree (v : Int) : 0 ∉ signed v := by
  intro hmem
  rcases mem_signed hmem with hminus | ⟨d, hd, hdigit⟩
  · cases hminus
  · have := toNat_digitChar hd
    rw [← hdigit] at this
    cases this.trans (Nat.add_comm 48 d)

/-- No inserted text has one. -/
theorem StreamOp.NulFree.notMem {op : StreamOp} (h : op.NulFree) : 0 ∉ op.text := by
  cases op with
  | string other => exact h
  | cstring other => exact other.noNul
  | unsigned other => exact signed_nulFree _
  | int other => exact signed_nulFree _
  | char c => exact fun hmem => h (List.mem_singleton.mp hmem).symm
  | flush => exact List.not_mem_nil
  | endl => decide

/-- **Runs of a stream.**  After any insertions and manipulators the printed strings and
the pending characters are the texts in order, and no write was behind the buffer. -/
theorem stream_runs (streambuf : { chars : List Byte // chars.length = MAX_BUF + 1 })
    (ops : List StreamOp) (hnul : ∀ op ∈ ops, op.NulFree) :
    ∃ s, StreamOp.execAll ops (.create streambuf) = .ok s ∧ s.bufsize ≤ MAX_BUF ∧
      s.printed.flatten ++ s.pending = ops.flatMap StreamOp.text := by
  obtain ⟨s, hexec, hsends⟩ := (COstream.sends_create streambuf).execAll ops
  rw [List.nil_append] at hsends
  refine ⟨s, hexec, hsends.le, hsends.printed_pending fun hmem => ?_⟩
  obtain ⟨op, hop, hmem⟩ := List.mem_flatMap.mp hmem
  exact StreamOp.NulFree.notMem (hnul op hop) hmem

/-- A buffer of stale characters. -/
def staleBuffer : { chars : List Byte // chars.length = MAX_BUF + 1 } :=
  ⟨List.replicate (MAX_BUF + 1) 7, List.length_replicate⟩

/-- A C string that is longer than the buffer. -/
def longString : CString :=
  ⟨List.replicate (MAX_BUF + 2) 97, fun h => absurd (List.eq_of_mem_replicate h) (by decide)⟩

/-- This string and a negative number: the buffer is printed in the middle of the string. -/
theorem stream_runs_long : ∃ s,
    StreamOp.execAll [.cstring longString, .int (-12)] (.create staleBuffer) = .ok s ∧
      s.bufsize ≤ MAX_BUF ∧ s.printed ≠ [] ∧
      s.printed.flatten ++ s.pending = List.replicate (MAX_BUF + 2) 97 ++ [45, 49, 50] := by
  obtain ⟨s, hexec, hle, htext⟩ := stream_runs staleBuffer [.cstring longString, .int (-12)]
    (by simp [StreamOp.NulFree])
  have hnumber : signed (BitVec.toInt (-12 : Word)) = [45, 49, 50] := by
    simp [signed, decimal, minus, digitChar]
  have hsent : s.printed.flatten ++ s.pending =
      List.replicate (MAX_BUF + 2) 97 ++ [45, 49, 50] := by
    rw [htext, List.flatMap_cons, List.flatMap_cons, List.flatMap_nil, List.append_nil, ← hnumber]
    rfl
  refine ⟨s, hexec, hle, fun hprinted => ?_, hsent⟩
  have hshort : s.pending.length ≤ s.bufsize := List.length_take_le ..
  rw [hprinted, List.flatten_nil, List.nil_append] at hsent
  rw [hsent, List.length_append, List.length_replicate] at hshort
  omega

end Programs
