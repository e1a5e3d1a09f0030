import Mathlib.Data.List.Forall2
import Mathlib.Data.List.TakeWhile
import Reshape.Cast

/-!
This module contains the grammar of the texts that denote numbers: a sign and digits, a sign and the
word for infinity, or a sign and digits with a point or an exponent. The main statement,
`toNumber_grammar`, says that the number cast of a text follows this grammar and that every other
text becomes null.
-/

namespace Reshape

open Text

namespace Numeral

/--
The signs that may stand in front of a number, with whether they make it negative.
-/
inductive Sign : Bool → List Char → Prop where
  | absent : Sign false []
  | plus : Sign false ['+']
  | minus : Sign true ['-']

/--
One or more ASCII digits.
-/
structure Row (text : List Char) : Prop where
  ne_nil : text ≠ []
  digits : ∀ c ∈ text, isAsciiDigit c = true

/--
A word whose letters may be capital ones.
-/
def InAnyCase (word text : List Char) : Prop :=
  List.Forall₂ (fun letter c => c = letter ∨ c = letter.toUpper) word text

/--
Digits with an optional point and optional digits after it, or a point with digits after it. What
stands on either side of the point is told apart.
-/
inductive Mantissa : (whole fraction text : List Char) → Prop where
  | integral {whole : List Char} (h : Row whole) : Mantissa whole [] whole
  | pointed {whole fraction : List Char} (h : Row whole)
    (hfraction : ∀ c ∈ fraction, isAsciiDigit c = true) :
    Mantissa whole fraction (whole ++ '.' :: fraction)
  | fractional {fraction : List Char} (h : Row fraction) : Mantissa [] fraction ('.' :: fraction)

/--
The power that an exponent part stands for. The part may be absent.
-/
inductive Exponent : Int → List Char → Prop where
  | absent : Exponent 0 []
  | marked {mark : Char} {negative : Bool} {sign digits : List Char}
    (hmark : mark = 'e' ∨ mark = 'E') (hsign : Sign negative sign) (hdigits : Row digits) :
    Exponent (integerValue negative digits) (mark :: (sign ++ digits))

/--
The texts in which a numeral can be written. A row of digits alone is an integer and no decimal.
-/
inductive Written : Numeral → List Char → Prop where
  | integer {negative : Bool} {sign digits : List Char} (hsign : Sign negative sign)
    (hdigits : Row digits) : Written (.integer negative digits) (sign ++ digits)
  | infinity {negative : Bool} {sign word : List Char} (hsign : Sign negative sign)
    (hword : InAnyCase "infinity".toList word) : Written (.infinity negative) (sign ++ word)
  | decimal {negative : Bool} {sign whole fraction mantissa exponent : List Char} {power : Int}
    (hsign : Sign negative sign) (hmantissa : Mantissa whole fraction mantissa)
    (hexponent : Exponent power exponent) (hrow : ¬Row (mantissa ++ exponent)) :
    Written (.decimal negative (whole ++ fraction) (power - fraction.length))
      (sign ++ (mantissa ++ exponent))

section Sign

/--
No sign stands at the start of the text.
-/
def Unsigned (text : List Char) : Prop :=
  ∀ c, text.head? = some c → c ≠ '-' ∧ c ≠ '+'

variable {negative : Bool} {sign text : List Char}

theorem exists_sign (text : List Char)
    : ∃ sign, Sign (takeSign text).1 sign ∧ text = sign ++ (takeSign text).2 := by
  unfold takeSign
  split
  · exact ⟨_, .minus, rfl⟩
  · exact ⟨_, .plus, rfl⟩
  · exact ⟨_, .absent, rfl⟩

theorem takeSign_append (hsign : Sign negative sign) (h : Unsigned text)
    : takeSign (sign ++ text) = (negative, text) := by
  cases hsign with
  | absent =>
    rw [List.nil_append]
    unfold takeSign
    split
    · exact absurd rfl (h '-' rfl).1
    · exact absurd rfl (h '+' rfl).2
    · rfl
  | plus => rfl
  | minus => rfl

end Sign

section Row

/--
The text starts as a number without a sign does, if it is not empty.
-/
def Numeric (text : List Char) : Prop :=
  ∀ c, text.head? = some c → isAsciiDigit c = true ∨ c = '.'

variable {negative : Bool} {text digits rest : List Char}

theorem isDigits_iff : isDigits text = true ↔ Row text := by
  unfold isDigits
  rw [Bool.and_eq_true, Bool.not_eq_true', List.isEmpty_eq_false_iff, List.all_eq_true]
  exact ⟨fun h => ⟨h.1, h.2⟩, fun h => ⟨h.ne_nil, h.digits⟩⟩

theorem Row.head (h : Row digits) {c : Char} (hc : (digits ++ rest).head? = some c)
    : isAsciiDigit c = true := by
  rw [List.head?_append_of_ne_nil _ h.ne_nil] at hc
  exact h.digits c (List.mem_of_head? hc)

theorem Numeric.unsigned (h : Numeric text) : Unsigned text := by
  intro c hc
  rcases h c hc with hdigit | rfl
  · constructor
    · rintro rfl
      cases hdigit
    · rintro rfl
      cases hdigit
  · decide

theorem Row.numeric (h : Row digits) : Numeric digits :=
  fun c hc => Or.inl (h.digits c (List.mem_of_head? hc))

end Row

section Word

variable {text word : List Char}

theorem bounds_of_isLower {c : Char} (h : c.isLower = true) : 97 ≤ c.toNat ∧ c.toNat ≤ 122 := by
  have hval : (decide (c.val ≥ 'a'.val) && decide (c.val ≤ 'z'.val)) = true := h
  simp only [Bool.and_eq_true, decide_eq_true_eq] at hval
  exact hval

theorem toNat_toLower (c : Char)
    : c.toLower.toNat = if 65 ≤ c.toNat ∧ c.toNat ≤ 90 then c.toNat + 32 else c.toNat := by
  have hcapital : c.val ≥ 'A'.val ∧ c.val ≤ 'Z'.val ↔ 65 ≤ c.toNat ∧ c.toNat ≤ 90 := Iff.rfl
  unfold Char.toLower
  split
  · next h =>
    rw [hcapital] at h
    rw [if_pos h]
    show (c.toNat + 32) % 2 ^ 32 = c.toNat + 32
    omega
  · next h =>
    rw [hcapital] at h
    rw [if_neg h]

theorem toNat_toUpper {c : Char} (h : c.isLower = true) : c.toUpper.toNat = c.toNat - 32 := by
  have hbounds : 97 ≤ c.val.toNat ∧ c.val.toNat ≤ 122 := bounds_of_isLower h
  have hshift : ('A'.val - 'a'.val).toNat = 2 ^ 32 - 32 := by decide
  unfold Char.toUpper
  split
  · show (c.val + ('A'.val - 'a'.val)).toNat = c.val.toNat - 32
    rw [UInt32.toNat_add, hshift]
    omega
  · next hsmall => exact absurd hbounds hsmall

theorem toLower_eq_iff {letter c : Char} (h : letter.isLower = true)
    : c.toLower = letter ↔ c = letter ∨ c = letter.toUpper := by
  have hbounds := bounds_of_isLower h
  rw [← Char.toNat_inj, ← Char.toNat_inj, ← Char.toNat_inj, toNat_toLower, toNat_toUpper h]
  split
  · omega
  · omega

theorem map_toLower_eq_iff (h : ∀ letter ∈ word, letter.isLower = true)
    : text.map Char.toLower = word ↔ InAnyCase word text := by
  unfold InAnyCase
  induction word generalizing text with
  | nil => rw [List.map_eq_nil_iff, List.forall₂_nil_left_iff]
  | cons letter word ih =>
    obtain ⟨hletter, hword⟩ := List.forall_mem_cons.mp h
    rw [List.map_eq_cons_iff, List.forall₂_cons_left_iff]
    constructor
    · rintro ⟨c, cs, rfl, hc, hcs⟩
      exact ⟨c, cs, (toLower_eq_iff hletter).mp hc, (ih hword).mp hcs, rfl⟩
    · rintro ⟨c, cs, hc, hcs, rfl⟩
      exact ⟨c, cs, rfl, (toLower_eq_iff hletter).mpr hc, (ih hword).mpr hcs⟩

theorem map_toLower_infinity
    : text.map Char.toLower = "infinity".toList ↔ InAnyCase "infinity".toList text :=
  map_toLower_eq_iff (List.all_eq_true.mp (by decide))

theorem InAnyCase.head (h : InAnyCase "infinity".toList text)
    : text.head? = some 'i' ∨ text.head? = some 'I' := by
  obtain ⟨c, cs, hc, -, rfl⟩ := List.forall₂_cons_left_iff.mp h
  exact hc.imp (congrArg some) (congrArg some)

theorem InAnyCase.unsigned (h : InAnyCase "infinity".toList text) : Unsigned text := by
  intro c hc
  rcases h.head with hi | hi
  · rw [hi] at hc
    cases hc
    decide
  · rw [hi] at hc
    cases hc
    decide

theorem Numeric.not_inAnyCase (h : Numeric text) : ¬InAnyCase "infinity".toList text := by
  intro hword
  rcases hword.head with hi | hi
  · exact absurd (h _ hi) (by decide)
  · exact absurd (h _ hi) (by decide)

end Word

section Decimal

variable {negative : Bool} {text whole fraction mantissa exponent : List Char} {power : Int}
  {numeral : Numeral}

theorem exponent?_cons (mark : Char) (rest : List Char)
    : exponent? (mark :: rest) =
        if (mark == 'e' || mark == 'E') && isDigits (takeSign rest).2 then
          some (integerValue (takeSign rest).1 (takeSign rest).2)
        else
          none := rfl

theorem exponent?_eq_some_iff : exponent? text = some power ↔ Exponent power text := by
  constructor
  · intro h
    cases text with
    | nil =>
      cases h
      exact .absent
    | cons mark rest =>
      rw [exponent?_cons] at h
      split at h
      · next hpart =>
        simp only [Bool.and_eq_true, Bool.or_eq_true, beq_iff_eq, isDigits_iff] at hpart
        obtain ⟨sign, hsign, hrest⟩ := exists_sign rest
        cases h
        rw [hrest, takeSign_append hsign hpart.2.numeric.unsigned]
        exact .marked hpart.1 hsign hpart.2
      · cases h
  · intro h
    cases h with
    | absent => rfl
    | marked hmark hsign hdigits =>
      rw [exponent?_cons, takeSign_append hsign hdigits.numeric.unsigned, isDigits_iff.mpr hdigits]
      rcases hmark with rfl | rfl
      · rfl
      · rfl

/--
An exponent part begins neither with a digit nor with a point.
-/
theorem Exponent.head (h : Exponent power exponent) {c : Char} (hc : exponent.head? = some c)
    : isAsciiDigit c = false ∧ c ≠ '.' := by
  cases h with
  | absent => cases hc
  | marked hmark hsign hdigits =>
    cases hc
    rcases hmark with rfl | rfl
    · decide
    · decide

theorem Mantissa.numeric (h : Mantissa whole fraction mantissa) (rest : List Char)
    : Numeric (mantissa ++ rest) := by
  intro c hc
  cases h with
  | integral h => exact Or.inl (h.head hc)
  | pointed h hfraction =>
    rw [List.append_assoc] at hc
    exact Or.inl (h.head hc)
  | fractional h =>
    cases hc
    exact Or.inr rfl

theorem span_digits {digits rest : List Char} (h : ∀ c ∈ digits, isAsciiDigit c = true)
    (hrest : ∀ c, rest.head? = some c → isAsciiDigit c = false)
    : (digits ++ rest).takeWhile isAsciiDigit = digits ∧
        (digits ++ rest).dropWhile isAsciiDigit = rest := by
  rw [List.takeWhile_append_of_pos h, List.dropWhile_append_of_pos h]
  cases rest with
  | nil => exact ⟨List.append_nil _, rfl⟩
  | cons c rest =>
    have hc := hrest c rfl
    rw [List.takeWhile_cons_of_neg (by simp [hc]), List.dropWhile_cons_of_neg (by simp [hc])]
    exact ⟨List.append_nil _, rfl⟩

/--
The digits after a point, if there is one, and what follows them.
-/
def fractionPart (text : List Char) : List Char × List Char :=
  match text with
  | '.' :: rest => (rest.takeWhile isAsciiDigit, rest.dropWhile isAsciiDigit)
  | _ => ([], text)

theorem fractionPart_of_ne_point (h : ∀ c, text.head? = some c → c ≠ '.')
    : fractionPart text = ([], text) := by
  unfold fractionPart
  split
  · exact absurd rfl (h '.' rfl)
  · rfl

theorem decimal?_eq (negative : Bool) (text : List Char)
    : decimal? negative text =
        let whole := text.takeWhile isAsciiDigit
        let (fraction, rest) := fractionPart (text.dropWhile isAsciiDigit)
        if whole.isEmpty && fraction.isEmpty then none
        else (exponent? rest).map fun power =>
          .decimal negative (whole ++ fraction) (power - fraction.length) := rfl

theorem decimal?_append (hwhole : ∀ c ∈ whole, isAsciiDigit c = true) {rest : List Char}
    (hrest : ∀ c, rest.head? = some c → isAsciiDigit c = false)
    (hparts : fractionPart rest = (fraction, exponent)) (hne : whole = [] → fraction ≠ [])
    (hexponent : Exponent power exponent)
    : decimal? negative (whole ++ rest) =
        some (.decimal negative (whole ++ fraction) (power - fraction.length)) := by
  obtain ⟨htake, hdrop⟩ := span_digits hwhole hrest
  have hsome : ¬(whole.isEmpty && fraction.isEmpty) = true := by
    simpa using hne
  rw [decimal?_eq, htake, hdrop, hparts]
  dsimp only
  rw [if_neg hsome, exponent?_eq_some_iff.mpr hexponent]
  rfl

theorem decimal?_of_mantissa (hmantissa : Mantissa whole fraction mantissa)
    (hexponent : Exponent power exponent)
    : decimal? negative (mantissa ++ exponent) =
        some (.decimal negative (whole ++ fraction) (power - fraction.length)) := by
  have hhead (c : Char) (hc : exponent.head? = some c) := hexponent.head hc
  have hpoint {digits : List Char} (h : ∀ c ∈ digits, isAsciiDigit c = true)
      : fractionPart ('.' :: (digits ++ exponent)) = (digits, exponent) := by
    obtain ⟨htake, hdrop⟩ := span_digits h fun c hc => (hhead c hc).1
    show (List.takeWhile _ _, List.dropWhile _ _) = _
    rw [htake, hdrop]
  have hdot {rest : List Char} (c : Char) (hc : ('.' :: rest).head? = some c)
      : isAsciiDigit c = false := by
    cases hc
    rfl
  cases hmantissa with
  | integral h =>
    apply decimal?_append h.digits fun c hc => (hhead c hc).1
    · exact fractionPart_of_ne_point fun c hc => (hhead c hc).2
    · exact fun hnil => absurd hnil h.ne_nil
    · exact hexponent
  | pointed h hfraction =>
    rw [List.append_assoc]
    apply decimal?_append h.digits hdot (hpoint hfraction)
    · exact fun hnil => absurd hnil h.ne_nil
    · exact hexponent
  | fractional h =>
    have hnil : ∀ c ∈ ([] : List Char), isAsciiDigit c = true := nofun
    exact decimal?_append hnil hdot (hpoint h.digits) (fun _ => h.ne_nil) hexponent

theorem mantissa_of_parts {rest : List Char} (hwhole : ∀ c ∈ whole, isAsciiDigit c = true)
    (hparts : fractionPart rest = (fraction, exponent)) (hne : whole = [] → fraction ≠ [])
    : ∃ mantissa, Mantissa whole fraction mantissa ∧ whole ++ rest = mantissa ++ exponent := by
  unfold fractionPart at hparts
  split at hparts
  · next rest =>
    cases hparts
    have hfraction : ∀ c ∈ rest.takeWhile isAsciiDigit, isAsciiDigit c = true :=
      fun c hc => List.mem_takeWhile_imp hc
    have hsplit := List.takeWhile_append_dropWhile (p := isAsciiDigit) (l := rest)
    cases whole with
    | nil =>
      refine ⟨_, .fractional ⟨hne rfl, hfraction⟩, ?_⟩
      rw [List.nil_append, List.cons_append, hsplit]
    | cons c whole =>
      refine ⟨_, .pointed ⟨List.cons_ne_nil _ _, hwhole⟩ hfraction, ?_⟩
      rw [List.append_assoc, List.cons_append (a := '.'), hsplit]
  · cases hparts
    exact ⟨whole, .integral ⟨fun hnil => hne hnil rfl, hwhole⟩, rfl⟩

theorem mantissa_of_decimal? (h : decimal? negative text = some numeral)
    : ∃ whole fraction mantissa power exponent, Mantissa whole fraction mantissa ∧
        Exponent power exponent ∧ text = mantissa ++ exponent ∧
        numeral = .decimal negative (whole ++ fraction) (power - fraction.length) := by
  rw [decimal?_eq] at h
  cases hparts : fractionPart (text.dropWhile isAsciiDigit) with
  | mk fraction exponent =>
    rw [hparts] at h
    dsimp only at h
    split at h
    · cases h
    · next hsome =>
      obtain ⟨power, hpower, rfl⟩ := Option.map_eq_some_iff.mp h
      have hne : text.takeWhile isAsciiDigit = [] → fraction ≠ [] := by
        simpa using hsome
      obtain ⟨mantissa, hmantissa, htext⟩ :=
        mantissa_of_parts (fun c hc => List.mem_takeWhile_imp hc) hparts hne
      rw [List.takeWhile_append_dropWhile] at htext
      have hexponent := exponent?_eq_some_iff.mp hpower
      exact ⟨_, _, mantissa, power, exponent, hmantissa, hexponent, htext, rfl⟩

end Decimal

section Read

variable {negative : Bool} {sign text : List Char} {numeral : Numeral}

theorem read?_append (hsign : Sign negative sign) (h : Unsigned text)
    : read? (sign ++ text) =
        if isDigits text then some (.integer negative text)
        else if text.map Char.toLower = "infinity".toList then some (.infinity negative)
        else decimal? negative text := by
  unfold read?
  rw [takeSign_append hsign h]

theorem written_of_read? (h : read? text = some numeral) : Written numeral text := by
  obtain ⟨sign, hsign, htext⟩ := exists_sign text
  unfold read? at h
  rw [htext]
  dsimp only at h
  split at h
  · next hdigits =>
    cases h
    exact .integer hsign (isDigits_iff.mp hdigits)
  · next hdigits =>
    rw [isDigits_iff] at hdigits
    split at h
    · next hword =>
      cases h
      exact .infinity hsign (map_toLower_infinity.mp hword)
    · obtain ⟨whole, fraction, mantissa, power, exponent, hmantissa, hexponent, hrest, rfl⟩ :=
        mantissa_of_decimal? h
      rw [hrest] at hdigits ⊢
      exact .decimal hsign hmantissa hexponent hdigits

theorem read?_of_written (h : Written numeral text) : read? text = some numeral := by
  cases h with
  | integer hsign hdigits =>
    rw [read?_append hsign hdigits.numeric.unsigned, if_pos (isDigits_iff.mpr hdigits)]
  | infinity hsign hword =>
    have hdigits (hrow : Row _) : False := hrow.numeric.not_inAnyCase hword
    rw [read?_append hsign hword.unsigned, if_neg (mt isDigits_iff.mp hdigits),
      if_pos (map_toLower_infinity.mpr hword)]
  | @decimal negative sign whole fraction mantissa exponent power hsign hmantissa hexponent hrow =>
    have hnumeric := hmantissa.numeric exponent
    rw [read?_append hsign hnumeric.unsigned, if_neg (mt isDigits_iff.mp hrow),
      if_neg (mt map_toLower_infinity.mp hnumeric.not_inAnyCase),
      decimal?_of_mantissa hmantissa hexponent]

/--
The reader knows exactly the texts of the grammar, so none of them is that of two numerals.
-/
theorem read?_eq_some_iff : read? text = some numeral ↔ Written numeral text :=
  ⟨written_of_read?, read?_of_written⟩

theorem read?_eq_none_iff : read? text = none ↔ ∀ numeral, ¬Written numeral text := by
  simp only [← read?_eq_some_iff]
  exact Option.eq_none_iff_forall_ne_some

end Read

end Numeral

theorem Binary64.ofDecimal_ne_nan (negative : Bool) (digits : Nat) (power : Int)
    : ofDecimal negative digits power ≠ .nan := by
  have hrank (rank : Nat) : ofRank negative rank ≠ .nan := by
    unfold ofRank
    split
    · exact nofun
    · exact nofun
  unfold ofDecimal
  split
  · apply hrank
  · split
    · exact nofun
    · split
      · apply hrank
      · apply hrank

section Cast

open Numeral

variable {cs : List Char} {numeral : Numeral}

theorem numberOfText_of_blank (h : Text.strip cs = []) : numberOfText cs = .ok (.int 0) := by
  unfold numberOfText
  rw [h]
  rfl

/--
What the number cast makes of a numeral.
-/
def Numeral.cast : Numeral → Except Error Value
  | .integer negative digits =>
    if Decimal.maxDigits < digits.length then .error .tooManyDigits
    else .ok (.int (integerValue negative digits))
  | .infinity negative => .ok (.float (.infinite negative))
  | .decimal negative digits power =>
    .ok (.float (Binary64.ofDecimal negative (Decimal.readNat digits) power))

theorem numberOfText_of_written (h : Written numeral (Text.strip cs))
    : numberOfText cs = numeral.cast := by
  have hread := read?_of_written h
  have hne : (Text.strip cs).isEmpty = false := by
    cases htext : Text.strip cs with
    | nil =>
      rw [htext] at hread
      cases hread
    | cons c text => rfl
  unfold numberOfText
  dsimp only
  rw [hne, hread]
  cases numeral with
  | _ => rfl

theorem numberOfText_of_not_written (hne : Text.strip cs ≠ [])
    (h : ∀ numeral, ¬Written numeral (Text.strip cs)) : numberOfText cs = .ok .null := by
  unfold numberOfText
  dsimp only
  rw [read?_eq_none_iff.mpr h, if_neg (mt List.isEmpty_iff.mp hne)]

theorem Value.toNumber_of_integer {s : String} {negative : Bool} {digits : List Char}
    (h : Written (.integer negative digits) (Text.strip s.toList))
    (hlength : digits.length ≤ Decimal.maxDigits)
    : (Value.str s).toNumber = .ok (.int (integerValue negative digits)) := by
  have hnumber : (Value.str s).toNumber = Numeral.cast (.integer negative digits) :=
    numberOfText_of_written h
  rw [hnumber]
  exact if_neg (Nat.not_lt.mpr hlength)

/--
The number cast of a text, with the blanks around it left out. It is zero for a blank text, the
integer or the infinity that is written, or else the floating point number nearest to the decimal
that is written, which is never the one without a value. All other texts become null. The one
failure is an integer with too many digits.
-/
theorem Value.toNumber_grammar (s : String)
    : let text := Text.strip s.toList
      let number := (Value.str s).toNumber
      (text = [] → number = .ok (.int 0)) ∧
        (∀ negative digits, Written (.integer negative digits) text →
          (digits.length ≤ Decimal.maxDigits →
            number = .ok (.int (integerValue negative digits))) ∧
          (Decimal.maxDigits < digits.length → number = .error .tooManyDigits)) ∧
        (∀ negative, Written (.infinity negative) text →
          number = .ok (.float (.infinite negative))) ∧
        (∀ negative digits power, Written (.decimal negative digits power) text →
          ∃ x, number = .ok (.float x) ∧ x ≠ .nan ∧
            x = Binary64.ofDecimal negative (Decimal.readNat digits) power) ∧
        (text ≠ [] → (∀ numeral, ¬Written numeral text) → number = .ok .null) := by
  intro text number
  refine ⟨numberOfText_of_blank, ?_, ?_, ?_, numberOfText_of_not_written⟩
  · intro negative digits h
    refine ⟨toNumber_of_integer h, fun hlength => ?_⟩
    have hnumber : number = Numeral.cast (.integer negative digits) := numberOfText_of_written h
    rw [hnumber]
    exact if_pos hlength
  · intro negative h
    exact numberOfText_of_written h
  · intro negative digits power h
    exact ⟨_, numberOfText_of_written h, Binary64.ofDecimal_ne_nan _ _ _, rfl⟩

theorem Value.toNumber_grammar_near_misses
    : (Value.str "").toNumber = .ok (.int 0) ∧
        (Value.str " -007\n").toNumber = .ok (.int (-7)) ∧
        (Value.str "+iNFinity").toNumber = .ok (.float (.infinite false)) ∧
        (Value.str "-.5E+1").toNumber = .ok (.float (Binary64.ofDecimal true 5 0)) ∧
        ∀ s ∈ ["1_000", "١٢٣", "1 2", "nan", "inf", "0x10", ".", "+", "1e", "--1", "1.2.3",
          "1e5.0"], (Value.str s).toNumber = .ok .null := by
  have hinteger : Written (.integer true "007".toList) (Text.strip " -007\n".toList) :=
    read?_eq_some_iff.mp (by decide)
  have hinfinity : Written (.infinity false) (Text.strip "+iNFinity".toList) :=
    read?_eq_some_iff.mp (by decide)
  have hdecimal : Written (.decimal true "5".toList 0) (Text.strip "-.5E+1".toList) :=
    read?_eq_some_iff.mp (by decide)
  have hnone : ∀ s ∈ ["1_000", "١٢٣", "1 2", "nan", "inf", "0x10", ".", "+", "1e", "--1", "1.2.3",
      "1e5.0"], Text.strip s.toList ≠ [] ∧ read? (Text.strip s.toList) = none := by
    decide +kernel
  obtain ⟨hblank, -⟩ := toNumber_grammar ""
  obtain ⟨-, hintegers, -⟩ := toNumber_grammar " -007\n"
  obtain ⟨-, -, hinfinities, -⟩ := toNumber_grammar "+iNFinity"
  obtain ⟨-, -, -, hdecimals, -⟩ := toNumber_grammar "-.5E+1"
  refine ⟨hblank rfl, (hintegers _ _ hinteger).1 (by decide), hinfinities _ hinfinity, ?_, ?_⟩
  · obtain ⟨x, hx, -, rfl⟩ := hdecimals _ _ _ hdecimal
    exact hx
  · intro s hs
    obtain ⟨hne, hread⟩ := hnone s hs
    obtain ⟨-, -, -, -, hothers⟩ := toNumber_grammar s
    exact hothers hne (read?_eq_none_iff.mp hread)

end Cast
end Reshape
