import Mathlib.Algebra.Group.Nat.Defs
import Mathlib.Data.List.TakeWhile
import Reshape.Proofs.Failure
import Reshape.Proofs.Records

/-!
This module contains the values in which no numeral has more digits than are read and written. Casts
keep them so and do not fail on them: an integer that is read has no more digits than its text, and
what is written of anything but integers and texts does not read as an integer.
-/

namespace Reshape

open Text

namespace Decimal

theorem readNat_lt (cs : List Char) : readNat cs < 10 ^ cs.length := by
  have hfold (n : Nat)
      : cs.foldl (fun n c => 10 * n + (asciiDigit? c).getD 0) n < (n + 1) * 10 ^ cs.length := by
    induction cs generalizing n with
    | nil => simp
    | cons c cs ih =>
      have hdigit : (asciiDigit? c).getD 0 < 10 := by
        cases hc : asciiDigit? c with
        | none => decide
        | some d => exact asciiDigit?_lt hc
      rw [List.foldl_cons, List.length_cons]
      calc
        _ < (10 * n + (asciiDigit? c).getD 0 + 1) * 10 ^ cs.length := ih _
        _ ≤ (n + 1) * 10 * 10 ^ cs.length := by
          apply Nat.mul_le_mul_right
          omega
        _ = (n + 1) * 10 ^ (cs.length + 1) := by
          rw [Nat.pow_succ', Nat.mul_assoc]
  have h := hfold 0
  simp only [Nat.zero_add, Nat.one_mul] at h
  exact h

theorem length_natText_le {n k : Nat} (hk : 0 < k) (h : n < 10 ^ k) : (natText n).length ≤ k := by
  induction k generalizing n with
  | zero => cases hk
  | succ k ih =>
    rw [natText]
    split
    · simp
    · next hn =>
      have hdiv : n / 10 < 10 ^ k := by
        rw [Nat.div_lt_iff_lt_mul (by decide), ← Nat.pow_succ]
        exact h
      have hpos : 0 < k := by
        apply Nat.pos_of_ne_zero
        rintro rfl
        omega
      have hlength := ih hpos hdiv
      rw [List.length_append, List.length_singleton]
      omega

theorem isWritable_iff_lt {n : Int} : isWritable n = true ↔ n.natAbs < 10 ^ maxDigits := by
  rw [isWritable, decide_eq_true_eq]
  constructor
  · intro h
    have hlt := readNat_lt (natText n.natAbs)
    rw [readNat_natText] at hlt
    exact Nat.lt_of_lt_of_le hlt (Nat.pow_le_pow_right (by decide) h)
  · intro h
    exact length_natText_le (by decide) h

theorem isWritable_digit {n : Int} (h : n.natAbs < 10) : isWritable n = true := by
  rw [isWritable, decide_eq_true_eq]
  exact Nat.le_trans (length_natText_le (k := 1) Nat.one_pos h) (by decide)

end Decimal

theorem Numeral.isWritable_integerValue (negative : Bool) {digits : List Char}
    (h : digits.length ≤ Decimal.maxDigits)
    : Decimal.isWritable (integerValue negative digits) = true := by
  apply Decimal.isWritable_iff_lt.mpr
  have habs : (integerValue negative digits).natAbs = Decimal.readNat digits := by
    unfold integerValue
    split <;> simp
  rw [habs]
  calc
    _ < 10 ^ digits.length := Decimal.readNat_lt digits
    _ ≤ 10 ^ Decimal.maxDigits := Nat.pow_le_pow_right (by decide) h

namespace Binary64

theorem exponent_le (rank : Fin ranks) : (exponent rank).toNat ≤ 2047 := by
  have hdiv : rank.val / block < 2047 := by
    rw [Nat.div_lt_iff_lt_mul (by decide)]
    exact rank.isLt
  unfold exponent spacing
  omega

theorem ranks_mul_lt {k : Nat} (h : 63 + k ≤ Decimal.maxDigits)
    : ranks * 2 ^ k < 10 ^ Decimal.maxDigits := by
  calc
    _ ≤ 2 ^ 63 * 2 ^ k := Nat.mul_le_mul_right _ (by decide)
    _ = 2 ^ (63 + k) := (Nat.pow_add 2 63 k).symm
    _ ≤ 2 ^ Decimal.maxDigits := Nat.pow_le_pow_right (by decide) h
    _ < 10 ^ Decimal.maxDigits := Nat.pow_lt_pow_left (by decide) (by decide)

theorem magnitude_lt (rank : Fin ranks) : (magnitude rank).1 < 10 ^ Decimal.maxDigits := by
  obtain ⟨k, hk, hroom⟩ : ∃ k, (exponent rank).toNat ≤ k ∧ 63 + k ≤ Decimal.maxDigits :=
    ⟨2047, exponent_le rank, by decide⟩
  have hsignificand : significand rank ≤ ranks := by
    unfold significand
    have hlt := rank.isLt
    omega
  apply Nat.lt_of_le_of_lt _ (ranks_mul_lt hroom)
  unfold magnitude scaleDown
  split
  · calc
      significand rank ≤ ranks := hsignificand
      _ ≤ ranks * 2 ^ k := Nat.le_mul_of_pos_right _ (Nat.two_pow_pos k)
  · apply Nat.mul_le_mul hsignificand
    apply Nat.pow_le_pow_right (by decide)
    rw [Int.neg_neg]
    exact hk

/--
The integers among the floating point numbers have far fewer digits than are written.
-/
theorem isWritable_of_toInt? {x : Binary64} {n : Int} (h : x.toInt? = some n)
    : Decimal.isWritable n = true := by
  cases x with
  | finite negative rank =>
    apply Decimal.isWritable_iff_lt.mpr
    unfold toInt? at h
    dsimp only at h
    split at h
    · have habs : n.natAbs = (magnitude rank).1 / (magnitude rank).2 := by
        split at h
        · cases h
          rw [Int.natAbs_neg, Int.natAbs_natCast]
        · cases h
          rw [Int.natAbs_natCast]
      rw [habs]
      exact Nat.lt_of_le_of_lt (Nat.div_le_self _ _) (magnitude_lt rank)
    · cases h
  | _ => cases h

end Binary64

section Text

variable {c : Char} {cs : List Char}

theorem mem_dropWhile {q : Char → Bool} (h : c ∈ cs) (hc : q c = false) : c ∈ cs.dropWhile q := by
  rw [← List.takeWhile_append_dropWhile (p := q) (l := cs), List.mem_append] at h
  rcases h with h | h
  · rw [List.mem_takeWhile_imp h] at hc
    cases hc
  · exact h

theorem Text.mem_strip (h : c ∈ cs) (hc : isBlank c = false) : c ∈ strip cs := by
  unfold strip stripEnd
  rw [List.mem_reverse]
  apply mem_dropWhile _ hc
  rw [List.mem_reverse]
  exact mem_dropWhile h hc

theorem Text.strip_sublist (cs : List Char) : (strip cs).Sublist cs := by
  unfold strip stripEnd
  have hend := (List.dropWhile_sublist isBlank (l := (cs.dropWhile isBlank).reverse)).reverse
  rw [List.reverse_reverse] at hend
  exact hend.trans (List.dropWhile_sublist isBlank)

theorem Numeral.takeSign_sublist (cs : List Char) : (takeSign cs).2.Sublist cs := by
  unfold takeSign
  split
  · apply List.sublist_cons_self
  · apply List.sublist_cons_self
  · exact List.Sublist.refl _

theorem Numeral.mem_takeSign (h : c ∈ cs) (hminus : c ≠ '-') (hplus : c ≠ '+')
    : c ∈ (takeSign cs).2 := by
  unfold takeSign
  split
  · simpa [hminus] using h
  · simpa [hplus] using h
  · exact h

theorem Numeral.isDecimal_of_decimal? {negative : Bool} {text : List Char} {numeral : Numeral}
    (h : decimal? negative text = some numeral)
    : ∃ digits power, numeral = .decimal negative digits power := by
  have of_parts {b : Bool} {digits : List Char} {scale : Int} {power : Option Int}
      (h : (if b then none else power.map fun n => decimal negative digits (n - scale)) =
        some numeral)
      : ∃ digits power, numeral = .decimal negative digits power := by
    split at h
    · cases h
    · rw [Option.map_eq_some_iff] at h
      obtain ⟨power, -, rfl⟩ := h
      exact ⟨_, _, rfl⟩
  unfold decimal? at h
  dsimp only at h
  split at h
  · exact of_parts h
  · exact of_parts h

theorem Numeral.of_read?_integer {negative : Bool} {digits : List Char}
    (h : read? cs = some (.integer negative digits))
    : digits = (takeSign cs).2 ∧ digits.all isAsciiDigit = true := by
  unfold read? at h
  dsimp only at h
  split at h
  · next hdigits =>
    cases h
    simp only [isDigits, Bool.and_eq_true] at hdigits
    exact ⟨rfl, hdigits.2⟩
  · split at h
    · cases h
    · obtain ⟨_, _, hdecimal⟩ := isDecimal_of_decimal? h
      cases hdecimal

theorem Text.isLegible_iff
    : isLegible cs = true ↔ ∀ negative digits,
        Numeral.read? (strip cs) = some (.integer negative digits) →
          digits.length ≤ Decimal.maxDigits := by
  unfold isLegible
  split
  · next negative digits hread =>
    rw [hread, decide_eq_true_eq]
    constructor
    · rintro h _ _ ⟨⟩
      exact h
    · intro h
      exact h negative digits rfl
  · next hother =>
    constructor
    · intro _ negative digits hread
      exact absurd hread (hother negative digits)
    · intro _
      rfl

/--
A text in which something stands that no integer has.
-/
theorem Text.isLegible_of_mem (h : c ∈ cs)
    (hc : (isBlank c || isAsciiDigit c || c == '-' || c == '+') = false)
    : isLegible cs = true := by
  simp only [Bool.or_eq_false_iff, beq_eq_false_iff_ne] at hc
  obtain ⟨⟨⟨hblank, hdigit⟩, hminus⟩, hplus⟩ := hc
  rw [isLegible_iff]
  intro negative digits hread
  obtain ⟨hdigits, hall⟩ := Numeral.of_read?_integer hread
  have hmem : c ∈ digits := by
    rw [hdigits]
    exact Numeral.mem_takeSign (mem_strip h hblank) hminus hplus
  rw [List.all_eq_true.mp hall c hmem] at hdigit
  cases hdigit

/--
A text that has no more digits than are read.
-/
theorem Text.isLegible_of_countP (h : cs.countP isAsciiDigit ≤ Decimal.maxDigits)
    : isLegible cs = true := by
  rw [isLegible_iff]
  intro negative digits hread
  obtain ⟨hdigits, hall⟩ := Numeral.of_read?_integer hread
  have hsublist : digits.Sublist cs := by
    rw [hdigits]
    exact (Numeral.takeSign_sublist _).trans (strip_sublist cs)
  rw [← List.countP_eq_length.mpr (List.all_eq_true.mp hall)]
  exact Nat.le_trans (hsublist.countP_le) h

theorem isLegible_intText {n : Int} (h : Decimal.isWritable n = true)
    : Text.isLegible (Decimal.intText n) = true := by
  apply Text.isLegible_of_countP
  simp only [Decimal.isWritable, decide_eq_true_eq] at h
  have hle : (Decimal.intText n).countP isAsciiDigit ≤ (Decimal.natText n.natAbs).length := by
    unfold Decimal.intText
    split
    · rw [List.countP_cons_of_neg (by decide)]
      apply List.countP_le_length
    · apply List.countP_le_length
  exact Nat.le_trans hle h

end Text

/--
The leaves and keys without a numeral that has more digits than are read and written.
-/
def Parts.legible : Parts where
  leaf
    | .int n => Decimal.isWritable n
    | .str s => Text.isLegible s.toList
    | .path p => Text.isLegible p.raw.toList
    | _ => true
  key
    | .int n => Decimal.isWritable n
    | _ => true
  leaf_null := rfl
  key_str _ := rfl

namespace Value

theorem madeOf_legible_str (s : String)
    : (Value.str s).madeOf .legible = Text.isLegible s.toList := rfl

theorem madeOf_legible_path (p : Path)
    : (Value.path p).madeOf .legible = Text.isLegible p.raw.toList := rfl

mutual

theorem isWritable_of_legible : ∀ {v : Value}, v.madeOf .legible = true → v.isWritable = true
  | .int _, h => h
  | .list _, h => allWritable_of_legible h
  | .tuple _, h => allWritable_of_legible h
  | .object _, h => fieldsWritable_of_legible h
  | .operationSet _ _, h => allWritable_of_legible h
  | .null, _ | .bool _, _ | .float _, _ | .str _, _ | .function _, _ | .path _, _
  | .missing, _ => rfl

theorem allWritable_of_legible : ∀ {items : List Value}, itemsMadeOf .legible items = true →
    allWritable items = true
  | [], _ => rfl
  | v :: vs, h => by
    rw [itemsMadeOf, Bool.and_eq_true] at h
    rw [allWritable, isWritable_of_legible h.1, allWritable_of_legible h.2]
    rfl

theorem fieldsWritable_of_legible : ∀ {fields : List (Key × Value)},
    fieldsMadeOf .legible fields = true → fieldsWritable fields = true
  | [], _ => rfl
  | (k, v) :: fields, h => by
    rw [fieldsMadeOf, Bool.and_eq_true, Bool.and_eq_true] at h
    obtain ⟨⟨hk, hv⟩, hfields⟩ := h
    have hv := isWritable_of_legible hv
    have hfields := fieldsWritable_of_legible hfields
    cases k with
    | int n =>
      have hn : Decimal.isWritable n = true := hk
      simp [fieldsWritable, hn, hv, hfields]
    | _ => simp [fieldsWritable, hv, hfields]

end

theorem isReadable_of_legible {v : Value} (h : v.madeOf .legible = true) : v.isReadable = true := by
  cases v with
  | str s =>
    rw [madeOf_legible_str] at h
    exact h
  | _ => rfl

end Value

section Text

theorem Binary64.mem_positional (x : Scientific) : '.' ∈ positional x := by
  unfold positional
  split
  · simp
  · dsimp only
    split <;> simp

theorem Binary64.mem_scientific (width : Nat) (x : Scientific) : 'e' ∈ scientific width x := by
  simp [scientific]

theorem Binary64.isLegible_magnitudeText (layout : Layout) (rank : Nat) (front : List Char)
    : Text.isLegible (front ++ magnitudeText layout rank) = true := by
  unfold magnitudeText
  extract_lets x
  split
  · apply isLegible_of_mem (c := '.') _ (by decide)
    exact List.mem_append_right _ (mem_positional x)
  · apply isLegible_of_mem (c := 'e') _ (by decide)
    exact List.mem_append_right _ (mem_scientific _ x)

theorem Binary64.isLegible_text (layout : Layout) (x : Binary64)
    (hnan : isLegible layout.nan.toList = true)
    (hinfinity : ∀ sign ∈ ["-", ""], isLegible (sign ++ layout.infinity).toList = true)
    : isLegible (x.text layout).toList = true := by
  cases x with
  | nan => exact hnan
  | infinite negative =>
    cases negative with
    | false => exact hinfinity "" (by simp)
    | true => exact hinfinity "-" (by simp)
  | finite negative rank =>
    rw [text, String.toList_ofList]
    apply isLegible_magnitudeText

theorem isLegible_tupleLiteral (items : List String)
    : isLegible (Value.tupleLiteral items).toList = true := by
  apply isLegible_of_mem (c := '(') _ (by decide)
  unfold Value.tupleLiteral
  split <;> simp

/--
The text of a value is itself one that is read without failure.
-/
theorem Value.isLegible_text {v : Value} (h : v.madeOf .legible = true)
    : isLegible v.text.toList = true := by
  cases v with
  | null => decide
  | bool b => cases b <;> decide
  | int n =>
    show isLegible (String.ofList (Decimal.intText n)).toList = true
    rw [String.toList_ofList]
    exact isLegible_intText h
  | float x =>
    rw [text]
    split
    · next n hn =>
      rw [intString, String.toList_ofList]
      exact isLegible_intText (Binary64.isWritable_of_toInt? hn)
    · exact Binary64.isLegible_text .json x (by decide) (by decide)
  | str s =>
    rw [madeOf_legible_str] at h
    exact h
  | list items =>
    apply isLegible_of_mem (c := '[') _ (by decide)
    show '[' ∈ (String.ofList ('[' :: (jsonItems items ++ [']']))).toList
    simp
  | object fields =>
    apply isLegible_of_mem (c := '\x7b') _ (by decide)
    show '\x7b' ∈ (String.ofList ('\x7b' :: (jsonFields fields ++ ['\x7d']))).toList
    simp
  | tuple items => exact isLegible_tupleLiteral _
  | function name =>
    apply isLegible_of_mem (c := '<') _ (by decide)
    show '<' ∈ ("<function " ++ name ++ ">").toList
    simp
  | path p =>
    rw [madeOf_legible_path] at h
    exact h
  | missing => decide
  | operationSet handle records =>
    apply isLegible_of_mem (c := 'O') _ (by decide)
    show 'O' ∈ ("OperationSet([" ++ commaSeparated (literals records) ++ "])").toList
    simp

end Text

section Cast

variable {v w : Value}

theorem numberOfText_cases {text : List Char} (h : numberOfText text = .ok w)
    : w = .null ∨ (∃ x, w = .float x) ∨ ∃ n, w = .int n ∧ Decimal.isWritable n = true := by
  unfold numberOfText at h
  dsimp only at h
  split at h
  · cases h
    exact Or.inr (Or.inr ⟨0, rfl, Decimal.isWritable_digit (by decide)⟩)
  · split at h
    · split at h
      · cases h
      · next hlong =>
        cases h
        exact Or.inr (Or.inr ⟨_, rfl, Numeral.isWritable_integerValue _ (Nat.le_of_not_lt hlong)⟩)
    · cases h
      exact Or.inr (Or.inl ⟨_, rfl⟩)
    · cases h
      exact Or.inr (Or.inl ⟨_, rfl⟩)
    · cases h
      exact Or.inl rfl

/--
The number cast makes null, a floating point number, the integer that it has found, or one that has
no more digits than are read.
-/
theorem Value.toNumber_cases (h : v.toNumber = .ok w)
    : w = .null ∨ (∃ x, w = .float x) ∨
        ∃ n, w = .int n ∧ (v = .int n ∨ Decimal.isWritable n = true) := by
  cases v with
  | bool b =>
    cases h
    refine Or.inr (Or.inr ⟨_, rfl, Or.inr ?_⟩)
    apply Decimal.isWritable_digit
    cases b <;> decide
  | null =>
    cases h
    exact Or.inr (Or.inr ⟨0, rfl, Or.inr (Decimal.isWritable_digit (by decide))⟩)
  | int n =>
    cases h
    exact Or.inr (Or.inr ⟨n, rfl, Or.inl rfl⟩)
  | float x =>
    cases x with
    | nan =>
      cases h
      exact Or.inl rfl
    | _ =>
      cases h
      exact Or.inr (Or.inl ⟨_, rfl⟩)
  | str s =>
    rcases numberOfText_cases h with hw | hw | ⟨n, hw, hn⟩
    · exact Or.inl hw
    · exact Or.inr (Or.inl hw)
    · exact Or.inr (Or.inr ⟨n, hw, Or.inr hn⟩)
  | _ =>
    cases h
    exact Or.inl rfl

theorem Cast.apply_cases {cast : Cast} (h : cast.apply v = .ok w)
    : v.toNumber = .ok w ∨ w = .str v.text ∨ ∃ b, w = .bool b := by
  cases cast with
  | number => exact Or.inl h
  | string =>
    rw [apply, except_map_eq_ok_iff] at h
    obtain ⟨text, htext, rfl⟩ := h
    unfold Value.toText at htext
    split at htext
    · cases htext
      exact Or.inr (Or.inl rfl)
    · cases htext
  | boolean =>
    cases h
    exact Or.inr (Or.inr ⟨_, rfl⟩)

theorem Cast.legible_of_apply {cast : Cast} (hv : v.madeOf .legible = true)
    (h : cast.apply v = .ok w) : w.madeOf .legible = true := by
  rcases apply_cases h with h | rfl | ⟨b, rfl⟩
  · rcases Value.toNumber_cases h with rfl | ⟨x, rfl⟩ | ⟨n, rfl, rfl | hn⟩
    · exact Value.madeOf_null
    · rfl
    · exact hv
    · exact hn
  · rw [Value.madeOf_legible_str]
    exact Value.isLegible_text hv
  · rfl

end Cast

end Reshape
