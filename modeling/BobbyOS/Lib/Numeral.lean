import Mathlib.Data.Nat.Digits.Lemmas

/-!
# Decimal numerals

Numerals in ASCII, most significant digit first, with a minus sign in front of the
negative ones.  A numeral is canonical when it has no leading zero; there is one
canonical numeral for every number.

* `readInt`: the value of a text of digits.
* `canonical_signed`, `Canonical.eq`: the canonical numeral of a number is `signed` of
  it, and no other text.
-/

namespace Numeral

/-- The character of a digit. -/
def digitChar (d : Nat) : BitVec 8 := BitVec.ofNat 8 (48 + d)

/-- The sign of a negative number. -/
def minus : BitVec 8 := 45

/-- What a character is worth as a digit. -/
def digitValue (c : BitVec 8) : Option Nat :=
  if 48 ≤ c.toNat ∧ c.toNat ≤ 57 then some (c.toNat - 48) else none

/-- Reads digits behind a number that has been read already. -/
def readOn (n : Nat) (text : List (BitVec 8)) : Option Nat :=
  text.foldlM (fun n c => (digitValue c).map (10 * n + ·)) n

/-- The value of a text of one digit or more. -/
def readNat (text : List (BitVec 8)) : Option Nat := if text = [] then none else readOn 0 text

/-- What stands behind the sign. -/
def unsigned (text : List (BitVec 8)) : List (BitVec 8) :=
  if text.head? = some minus then text.tail else text

/-- The value of a text of digits that may have a sign in front. -/
def readInt (text : List (BitVec 8)) : Option Int :=
  (readNat (unsigned text)).map fun n : Nat => if text.head? = some minus then -(n : Int) else n

/-- **Canonical numerals.**  The text is read as the number, has a sign exactly if that
is negative, and has no leading zero but the one of `0`. -/
structure Canonical (text : List (BitVec 8)) (v : Int) : Prop where
  reads : readInt text = some v
  sign : text.head? = some minus ↔ v < 0
  leading : (unsigned text).head? = some (digitChar 0) → text = [digitChar 0]

/-- The digits of a number. -/
def decimal (n : Nat) : List (BitVec 8) :=
  if n = 0 then [digitChar 0] else (Nat.digits 10 n).reverse.map digitChar

/-- The numeral of a number. -/
def signed (v : Int) : List (BitVec 8) :=
  if v < 0 then minus :: decimal v.natAbs else decimal v.natAbs

variable {d n m : Nat} {text : List (BitVec 8)} {ds : List Nat} {v : Int}

/-! ### Reading -/

/-- The digits are consecutive characters. -/
theorem toNat_digitChar (h : d < 10) : (digitChar d).toNat = 48 + d := by
  rw [digitChar, BitVec.toNat_ofNat]
  omega

/-- No digit is a minus sign. -/
theorem digitChar_ne_minus (h : d < 10) : digitChar d ≠ minus := by
  intro heq
  have := toNat_digitChar h
  rw [heq] at this
  have hminus : minus.toNat = 45 := rfl
  omega

/-- Different digits are different characters. -/
theorem digitChar_inj (hd : d < 10) (hn : n < 10) (h : digitChar d = digitChar n) : d = n := by
  have := toNat_digitChar hd
  rw [h, toNat_digitChar hn] at this
  omega

/-- **Round trip** of a digit. -/
theorem digitValue_digitChar (h : d < 10) : digitValue (digitChar d) = some d := by
  rw [digitValue, toNat_digitChar h, if_pos (by omega), Nat.add_sub_cancel_left]

/-- A character with a value is that digit. -/
theorem digitValue_eq_some {c : BitVec 8} (h : digitValue c = some d) :
    d < 10 ∧ c = digitChar d := by
  unfold digitValue at h
  split at h
  case isFalse => cases h
  case isTrue hc =>
    obtain rfl := Option.some.inj h
    refine ⟨by omega, BitVec.eq_of_toNat_eq ?_⟩
    rw [toNat_digitChar (by omega)]
    omega

/-- Digits are read to their value. -/
theorem readOn_digits (h : ∀ d ∈ ds, d < 10) (n : Nat) :
    readOn n (ds.map digitChar) = some (n * 10 ^ ds.length + Nat.ofDigits 10 ds.reverse) := by
  induction ds generalizing n with
  | nil => simp [readOn]
  | cons d ds ih =>
      have hd := digitValue_digitChar (h d List.mem_cons_self)
      have hrest := ih (fun d' hd' => h d' (List.mem_cons_of_mem d hd')) (10 * n + d)
      unfold readOn at hrest ⊢
      rw [List.map_cons, List.foldlM_cons, hd, Option.map_some, Option.bind_eq_bind,
        Option.bind_some, hrest, List.reverse_cons, Nat.ofDigits_append, Nat.ofDigits_singleton,
        List.length_reverse, List.length_cons, pow_succ]
      congr 1
      ring

/-- Only digits are read. -/
theorem readOn_eq_some (h : readOn n text = some m) :
    ∃ ds : List Nat, (∀ d ∈ ds, d < 10) ∧ text = ds.map digitChar := by
  induction text generalizing n with
  | nil => exact ⟨[], fun _ hd => (List.not_mem_nil hd).elim, rfl⟩
  | cons c text ih =>
      unfold readOn at h
      rw [List.foldlM_cons] at h
      obtain ⟨n', hn', hrest⟩ := Option.bind_eq_some_iff.mp h
      obtain ⟨d, hd, -⟩ := Option.map_eq_some_iff.mp hn'
      obtain ⟨hlt, rfl⟩ := digitValue_eq_some hd
      obtain ⟨ds, hds, rfl⟩ := ih hrest
      refine ⟨d :: ds, fun d' hd' => ?_, rfl⟩
      rcases List.mem_cons.mp hd' with rfl | hmem
      · exact hlt
      · exact hds d' hmem

/-! ### The numeral of a number -/

/-- A decimal is a row of digits, the most significant first, that stands for the number. -/
theorem decimal_eq_digits (n : Nat) : ∃ ds : List Nat, decimal n = ds.map digitChar ∧ ds ≠ [] ∧
    (∀ d ∈ ds, d < 10) ∧ Nat.ofDigits 10 ds.reverse = n := by
  unfold decimal
  split
  case isTrue h => exact ⟨[0], rfl, List.cons_ne_nil _ _, by simp, by simp [h]⟩
  case isFalse h =>
    refine ⟨(Nat.digits 10 n).reverse, rfl, ?_, fun d hd => ?_, ?_⟩
    · exact fun hnil => Nat.digits_ne_nil_iff_ne_zero.mpr h (List.reverse_eq_nil_iff.mp hnil)
    · exact Nat.digits_lt_base (by decide) (List.mem_reverse.mp hd)
    · rw [List.reverse_reverse, Nat.ofDigits_digits]

/-- **Round trip** of a decimal. -/
theorem readNat_decimal (n : Nat) : readNat (decimal n) = some n := by
  obtain ⟨ds, hds, hne, hlt, hvalue⟩ := decimal_eq_digits n
  have hne' : ds.map digitChar ≠ [] := fun h => hne (List.map_eq_nil_iff.mp h)
  rw [hds, readNat, if_neg hne', readOn_digits hlt, hvalue, Nat.zero_mul, Nat.zero_add]

/-- A decimal does not begin with a sign. -/
theorem head?_decimal (n : Nat) : (decimal n).head? ≠ some minus := by
  obtain ⟨ds, hds, -, hlt, -⟩ := decimal_eq_digits n
  rw [hds]
  cases ds with
  | nil => exact fun h => nomatch h
  | cons d ds => exact fun h => digitChar_ne_minus (hlt d List.mem_cons_self) (Option.some.inj h)

/-- Only the numeral of zero starts with a zero. -/
theorem decimal_leading (h : (decimal n).head? = some (digitChar 0)) : n = 0 := by
  by_contra hn
  unfold decimal at h
  rw [if_neg hn, List.head?_map, List.head?_reverse,
    List.getLast?_eq_getLast_of_ne_nil (Nat.digits_ne_nil_iff_ne_zero.mpr hn)] at h
  refine Nat.getLast_digit_ne_zero 10 hn (digitChar_inj ?_ (by decide) (Option.some.inj h))
  exact Nat.digits_lt_base (by decide) (List.getLast_mem _)

/-- Digits without a leading zero are the numeral of what they are read as. -/
theorem eq_decimal (h : readNat text = some n)
    (hlead : text.head? = some (digitChar 0) → text = [digitChar 0]) : text = decimal n := by
  unfold readNat at h
  split at h
  case isTrue => cases h
  case isFalse hne =>
    obtain ⟨ds, hlt, rfl⟩ := readOn_eq_some h
    rw [readOn_digits hlt, Nat.zero_mul, Nat.zero_add] at h
    obtain rfl := Option.some.inj h
    cases ds with
    | nil => exact (hne rfl).elim
    | cons d ds =>
        by_cases hd : d = 0
        · subst hd
          obtain rfl := List.map_eq_nil_iff.mp (List.cons.inj (hlead rfl)).2
          rfl
        · have hdigits := Nat.digits_ofDigits 10 (by decide) (d :: ds).reverse
            (fun d' hd' => hlt d' (List.mem_reverse.mp hd')) (fun _ => by simpa using hd)
          have hn : Nat.ofDigits 10 (d :: ds).reverse ≠ 0 := by
            rw [← Nat.digits_ne_nil_iff_ne_zero, hdigits]
            simp
          rw [decimal, if_neg hn, hdigits, List.reverse_reverse]

/-! ### Signs -/

/-- A text without a sign is all digits. -/
theorem unsigned_of_ne (h : text.head? ≠ some minus) : unsigned text = text := if_neg h

/-- The characters of a numeral. -/
theorem mem_signed {c : BitVec 8} (h : c ∈ signed v) :
    c = minus ∨ ∃ d < 10, c = digitChar d := by
  obtain ⟨ds, hds, -, hlt, -⟩ := decimal_eq_digits v.natAbs
  have hdecimal : ∀ c ∈ decimal v.natAbs, ∃ d < 10, c = digitChar d := by
    intro c hc
    rw [hds] at hc
    obtain ⟨d, hd, rfl⟩ := List.mem_map.mp hc
    exact ⟨d, hlt d hd, rfl⟩
  unfold signed at h
  split at h
  · rcases List.mem_cons.mp h with hminus | hc
    · exact .inl hminus
    · exact .inr (hdecimal c hc)
  · exact .inr (hdecimal c h)

/-- **Every number has a canonical numeral.** -/
theorem canonical_signed (v : Int) : Canonical (signed v) v := by
  unfold signed
  by_cases hv : v < 0
  · rw [if_pos hv]
    refine ⟨?_, ⟨fun _ => hv, fun _ => rfl⟩, fun h => ?_⟩
    · show (readNat (decimal v.natAbs)).map _ = _
      rw [readNat_decimal, Option.map_some, List.head?_cons, if_pos rfl]
      congr 1
      omega
    · have := decimal_leading (n := v.natAbs) h
      omega
  · have hhead := head?_decimal v.natAbs
    rw [if_neg hv]
    refine ⟨?_, ⟨fun h => (hhead h).elim, fun h => (hv h).elim⟩, fun h => ?_⟩
    · rw [readInt, unsigned_of_ne hhead, readNat_decimal, Option.map_some, if_neg hhead]
      congr 1
      omega
    · rw [unsigned_of_ne hhead] at h
      rw [decimal_leading h]
      rfl

/-- **It has no other one.** -/
theorem Canonical.eq (h : Canonical text v) : text = signed v := by
  obtain ⟨n, hread, hv⟩ := Option.map_eq_some_iff.mp h.reads
  unfold signed
  by_cases hhead : text.head? = some minus
  · rw [if_pos hhead] at hv
    rw [if_pos (h.sign.mp hhead)]
    have hlead : (unsigned text).head? ≠ some (digitChar 0) := by
      intro hzero
      rw [h.leading hzero] at hhead
      exact digitChar_ne_minus (by decide) (Option.some.inj hhead)
    have heq := eq_decimal hread fun hzero => (hlead hzero).elim
    obtain ⟨rest, rfl⟩ := List.head?_eq_some_iff.mp hhead
    rw [← hv, Int.natAbs_neg, Int.natAbs_natCast, ← heq]
    rfl
  · rw [if_neg hhead] at hv
    rw [if_neg fun hneg => hhead (h.sign.mpr hneg)]
    have hlead := h.leading
    rw [unsigned_of_ne hhead] at hread hlead
    rw [← hv, Int.natAbs_natCast]
    exact eq_decimal hread hlead

end Numeral
