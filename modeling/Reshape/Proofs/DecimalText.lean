import Mathlib.Data.List.Induction
import Reshape.Proofs.Legible
import Reshape.Proofs.Numeral

/-!
This module contains the decimal texts of integers. A row of digits denotes a number whose own text
is the row without leading zeros, and a signed row likewise. The main statement,
`integer_round_trip`, says that the casts between integers and texts invert each other, on texts up
to this spelling.
-/

namespace Reshape

open Text

theorem Text.digitChar_of_asciiDigit? {c : Char} {d : Nat} (h : asciiDigit? c = some d)
    : digitChar d = c := by
  unfold asciiDigit? at h
  split at h
  · next hbounds =>
    cases h
    unfold digitChar
    rw [Nat.add_sub_cancel' hbounds.1, Char.ofNat_toNat]
  · cases h

theorem Text.not_isBlank_of_isAsciiDigit {c : Char} (h : isAsciiDigit c = true)
    : isBlank c = false := by
  have hdigit : 48 ≤ c.toNat ∧ c.toNat ≤ 57 := by
    simpa [isAsciiDigit, asciiDigit?] using h
  have hapart : ∀ i ∈ blanks, i.2 < 48 ∨ 57 < i.1 := by
    decide
  rw [Bool.eq_false_iff]
  intro hblank
  obtain ⟨i, hi, hlow, hhigh⟩ := Intervals.contains_iff.mp hblank
  have := hapart i hi
  omega

theorem Text.strip_eq_self {cs : List Char} (h : ∀ c ∈ cs, isBlank c = false) : strip cs = cs := by
  have hdrop {cs : List Char} (h : ∀ c ∈ cs, isBlank c = false) : cs.dropWhile isBlank = cs := by
    cases cs with
    | nil => rfl
    | cons c cs =>
      apply List.dropWhile_cons_of_neg
      rw [h c List.mem_cons_self]
      exact Bool.false_ne_true
  unfold strip stripEnd
  rw [hdrop h, hdrop fun c hc => h c (List.mem_reverse.mp hc), List.reverse_reverse]

namespace Decimal

def isZeros (digits : List Char) : Bool :=
  digits.all (· == '0')

/--
A row of digits without its leading zeros. Of a row of zeros a single one is left.
-/
def trimmed (digits : List Char) : List Char :=
  if isZeros digits then ['0'] else digits.dropWhile (· == '0')

/--
The row of a signed integer without a plus sign and leading zeros, and without a minus sign too if
the integer is zero.
-/
def canonical (negative : Bool) (digits : List Char) : List Char :=
  if negative && !isZeros digits then '-' :: trimmed digits else trimmed digits

section Trimmed

variable {digits : List Char}

theorem isZeros_append (digits : List Char) (c : Char)
    : isZeros (digits ++ [c]) = (isZeros digits && c == '0') := by
  unfold isZeros
  rw [List.all_append, List.all_cons, List.all_nil, Bool.and_true]

theorem trimmed_append_of_zeros (h : isZeros digits = true) (c : Char)
    : trimmed (digits ++ [c]) = [c] := by
  have hdrop : (digits ++ [c]).dropWhile (· == '0') = [c].dropWhile (· == '0') :=
    List.dropWhile_append_of_pos (List.all_eq_true.mp h)
  unfold trimmed
  rw [hdrop, isZeros_append, h, Bool.true_and]
  split
  · next hc => rw [beq_iff_eq.mp hc]
  · next hc => exact List.dropWhile_cons_of_neg hc

theorem trimmed_append_of_not_zeros (h : isZeros digits = false) (c : Char)
    : trimmed (digits ++ [c]) = trimmed digits ++ [c] := by
  have hne : ¬(digits.dropWhile (· == '0')).isEmpty = true := by
    rw [List.isEmpty_iff, List.dropWhile_eq_nil_iff, ← List.all_eq_true]
    exact Bool.eq_false_iff.mp h
  unfold trimmed
  rw [isZeros_append, h, List.dropWhile_append, if_neg hne]
  rfl

/--
A row of digits denotes zero iff it has no other digit.
-/
theorem readNat_eq_zero_iff (hdigits : ∀ c ∈ digits, isAsciiDigit c = true)
    : readNat digits = 0 ↔ isZeros digits = true := by
  induction digits using List.reverseRecOn with
  | nil => exact ⟨fun _ => rfl, fun _ => rfl⟩
  | append_singleton digits c ih =>
    obtain ⟨d, hd⟩ := Option.isSome_iff_exists.mp (hdigits c (by simp))
    have hzero : d = 0 ↔ c = '0' := by
      constructor
      · rintro rfl
        exact (digitChar_of_asciiDigit? hd).symm
      · rintro rfl
        exact (Option.some.inj hd).symm
    rw [readNat_append, hd, isZeros_append, Bool.and_eq_true, beq_iff_eq, ← hzero,
      ← ih fun c hc => hdigits c (List.mem_append_left _ hc)]
    simp only [Option.getD_some]
    omega

theorem readNat_ne_zero (hdigits : ∀ c ∈ digits, isAsciiDigit c = true)
    (h : isZeros digits = false) : readNat digits ≠ 0 := by
  rw [ne_eq, readNat_eq_zero_iff hdigits, h]
  exact Bool.false_ne_true

/--
The text of the number that a row denotes is the row without its leading zeros.
-/
theorem natText_readNat (hne : digits ≠ []) (hdigits : ∀ c ∈ digits, isAsciiDigit c = true)
    : natText (readNat digits) = trimmed digits := by
  -- The text of a number ends with its last digit, so the row is taken apart there.
  induction digits using List.reverseRecOn with
  | nil => exact absurd rfl hne
  | append_singleton digits c ih =>
    have hfront : ∀ c ∈ digits, isAsciiDigit c = true :=
      fun c hc => hdigits c (List.mem_append_left _ hc)
    obtain ⟨d, hd⟩ := Option.isSome_iff_exists.mp (hdigits c (by simp))
    have hlt := asciiDigit?_lt hd
    have hchar := digitChar_of_asciiDigit? hd
    rw [readNat_append, hd, Option.getD_some, natText]
    cases hzeros : isZeros digits with
    | true =>
      rw [(readNat_eq_zero_iff hfront).mpr hzeros, Nat.mul_zero, Nat.zero_add, if_pos hlt, hchar,
        trimmed_append_of_zeros hzeros]
    | false =>
      have hpos := readNat_ne_zero hfront hzeros
      have hnil : digits ≠ [] := by
        rintro rfl
        cases hzeros
      have hdiv : (10 * readNat digits + d) / 10 = readNat digits := by
        omega
      have hmod : (10 * readNat digits + d) % 10 = d := by
        omega
      rw [if_neg (by omega), hdiv, hmod, hchar, ih hnil hfront,
        trimmed_append_of_not_zeros hzeros]

end Trimmed

end Decimal

namespace Numeral

variable {negative : Bool} {digits text : List Char}

theorem Written.row (h : Written (.integer negative digits) text) : Row digits := by
  cases h with
  | integer _ hdigits => exact hdigits

theorem intText_integerValue (h : Row digits)
    : Decimal.intText (integerValue negative digits) = Decimal.canonical negative digits := by
  have htext := Decimal.natText_readNat h.ne_nil h.digits
  unfold Decimal.intText integerValue Decimal.canonical
  cases negative with
  | false =>
    rw [if_neg Bool.false_ne_true, if_neg (Int.not_lt.mpr (Int.natCast_nonneg _)),
      Int.natAbs_natCast, htext]
    rfl
  | true =>
    rw [if_pos rfl, Int.natAbs_neg, Int.natAbs_natCast, htext, Bool.true_and]
    cases hzeros : Decimal.isZeros digits with
    | true =>
      rw [(Decimal.readNat_eq_zero_iff h.digits).mpr hzeros]
      rfl
    | false =>
      have hpos := Decimal.readNat_ne_zero h.digits hzeros
      rw [if_pos (by omega)]
      rfl

theorem row_natText (n : Nat) : Row (Decimal.natText n) where
  ne_nil := Decimal.natText_ne_nil n
  digits _ := Decimal.isAsciiDigit_of_mem_natText

theorem integerValue_natText (n : Int)
    : integerValue (decide (n < 0)) (Decimal.natText n.natAbs) = n := by
  unfold integerValue
  rw [Decimal.readNat_natText]
  split
  · next h =>
    rw [decide_eq_true_eq] at h
    omega
  · next h =>
    rw [decide_eq_true_eq] at h
    omega

/--
The text of an integer is a row with no more than a minus sign in front of it and no blanks around
it.
-/
theorem written_intText (n : Int)
    : Written (.integer (decide (n < 0)) (Decimal.natText n.natAbs))
        (Text.strip (Decimal.intText n)) := by
  have hrow := row_natText n.natAbs
  have hblank : ∀ c ∈ Decimal.intText n, isBlank c = false := by
    intro c hc
    unfold Decimal.intText at hc
    split at hc
    · rcases List.mem_cons.mp hc with rfl | hc
      · decide
      · exact not_isBlank_of_isAsciiDigit (hrow.digits c hc)
    · exact not_isBlank_of_isAsciiDigit (hrow.digits c hc)
  rw [strip_eq_self hblank]
  unfold Decimal.intText
  split
  · next h =>
    rw [decide_eq_true h]
    exact .integer .minus hrow
  · next h =>
    rw [decide_eq_false h]
    exact .integer .absent hrow

end Numeral

section Cast

open Numeral

theorem Value.toText_int {n : Int} (h : Decimal.isWritable n = true)
    : (Value.int n).toText = .ok (String.ofList (Decimal.intText n)) := if_pos h

theorem Value.toNumber_intText {n : Int} (h : Decimal.isWritable n = true)
    : (Value.str (String.ofList (Decimal.intText n))).toNumber = .ok (.int n) := by
  have hwritten := written_intText n
  rw [← String.toList_ofList (l := Decimal.intText n)] at hwritten
  rw [toNumber_of_integer hwritten (of_decide_eq_true h), integerValue_natText]

/--
An integer of no more digits than are read comes back from its text. The text of an integer goes by
the number to the text without plus sign and leading zeros, and without the minus sign of a zero.
That text denotes the same integer, and by the number it goes to itself.
-/
theorem Value.integer_round_trip
    : (∀ n : Int, n.natAbs < 10 ^ Decimal.maxDigits →
        ∃ text, (Value.int n).toText = .ok text ∧ (Value.str text).toNumber = .ok (.int n)) ∧
      ∀ (s : String) (negative : Bool) (digits : List Char),
        Written (.integer negative digits) (Text.strip s.toList) →
        digits.length ≤ Decimal.maxDigits →
        let canonical := String.ofList (Decimal.canonical negative digits)
        (Value.str s).toNumber >>= Value.toText = .ok canonical ∧
          (Value.str canonical).toNumber = (Value.str s).toNumber ∧
          (Value.str canonical).toNumber >>= Value.toText = .ok canonical := by
  constructor
  · intro n hn
    have hwritable := Decimal.isWritable_iff_lt.mpr hn
    exact ⟨_, toText_int hwritable, toNumber_intText hwritable⟩
  · intro s negative digits hwritten hlength canonical
    have hwritable := isWritable_integerValue negative hlength
    have hcanonical : String.ofList (Decimal.intText (integerValue negative digits)) = canonical :=
      congrArg String.ofList (intText_integerValue hwritten.row)
    have hback := toNumber_intText hwritable
    have htext := toText_int hwritable
    rw [hcanonical] at hback htext
    rw [hback, toNumber_of_integer hwritten hlength]
    exact ⟨htext, rfl, htext⟩

theorem Value.integer_round_trip_signs
    : (∃ text, (Value.int (-120)).toText = .ok text ∧
        (Value.str text).toNumber = .ok (.int (-120))) ∧
      (Value.str "\t+007 ").toNumber >>= Value.toText = .ok "7" ∧
      (Value.str "-0120").toNumber >>= Value.toText = .ok "-120" ∧
      (Value.str "-000").toNumber >>= Value.toText = .ok "0" := by
  obtain ⟨hnumber, htext⟩ := integer_round_trip
  have hsmall : (-120 : Int).natAbs < 10 ^ Decimal.maxDigits :=
    calc
      _ < 10 ^ 3 := by decide
      _ ≤ 10 ^ Decimal.maxDigits := Nat.pow_le_pow_right (by decide) (by decide)
  refine ⟨hnumber _ hsmall, ?_, ?_, ?_⟩
  · exact (htext "\t+007 " false "007".toList (read?_eq_some_iff.mp (by decide)) (by decide)).1
  · exact (htext "-0120" true "0120".toList (read?_eq_some_iff.mp (by decide)) (by decide)).1
  · exact (htext "-000" true "000".toList (read?_eq_some_iff.mp (by decide)) (by decide)).1

end Cast
end Reshape
