import Mathlib.Algebra.Group.Nat.Defs
import Mathlib.Tactic.SplitIfs
import Reshape.Text.JsonString

/-!
This module contains the reading of JSON string literals. The main statement, `readChar_jsonChar`,
says that a character reads back from its escaped form, whatever follows it. So a literal is told
from everything else by its text.
-/

namespace Reshape.Text

def hexValue (c : Char) : Nat :=
  if c.toNat < 58 then c.toNat - 48 else c.toNat - 87

def readHex (cs : List Char) : Nat :=
  cs.foldl (fun n c => 16 * n + hexValue c) 0

/--
The character that is written by a letter after a backslash.
-/
def shortEscape (c : Char) : Char :=
  if c = 'n' then '\n'
  else if c = 'r' then '\r'
  else if c = 't' then '\t'
  else if c = 'b' then Char.ofNat 8
  else if c = 'f' then Char.ofNat 12
  else c

/--
The code point that is written by a high surrogate and a low one.
-/
def joined (high low : Nat) : Nat :=
  0x10000 + (high - 0xd800) * 0x400 + (low - 0xdc00)

/--
The character that is written by units. What follows the first unit is read as a second one if the
first one is a high surrogate.
-/
def readUnits (cs : List Char) : Char × List Char :=
  let high := readHex (cs.take 4)
  let cs := cs.drop 4
  if 0xd800 ≤ high ∧ high < 0xdc00 then
    let cs := cs.drop 2
    (Char.ofNat (joined high (readHex (cs.take 4))), cs.drop 4)
  else
    (Char.ofNat high, cs)

/--
The first character of a text in which characters are escaped, and what follows it.
-/
def readChar : List Char → Char × List Char
  | [] => (default, [])
  | c :: cs =>
    if c = '\\' then
      match cs with
      | [] => (default, [])
      | c :: cs => if c = 'u' then readUnits cs else (shortEscape c, cs)
    else
      (c, cs)

theorem hexValue_hexDigit {n : Nat} (h : n < 16) : hexValue (hexDigit n) = n := by
  decide +revert

theorem readHex_append (cs : List Char) (c : Char)
    : readHex (cs ++ [c]) = 16 * readHex cs + hexValue c := by
  simp [readHex]

theorem readHex_hex {width n : Nat} (h : n < 16 ^ width) : readHex (hex width n) = n := by
  induction width generalizing n with
  | zero =>
    rw [Nat.pow_zero, Nat.lt_one_iff] at h
    rw [h]
    rfl
  | succ width ih =>
    rw [Nat.pow_succ] at h
    rw [hex, readHex_append, ih (by omega), hexValue_hexDigit (by omega)]
    omega

theorem readUnit_hex {n : Nat} (h : n < 0x10000) (rest : List Char)
    : readHex ((hex 4 n ++ rest).take 4) = n ∧ (hex 4 n ++ rest).drop 4 = rest := by
  have hlength := length_hex 4 n
  rw [List.take_left' hlength, List.drop_left' hlength]
  exact ⟨readHex_hex h, rfl⟩

theorem readChar_unit {n : Nat} (h : n < 0x10000) (hn : ¬ (0xd800 ≤ n ∧ n < 0xdc00))
    (rest : List Char) : readChar (unitEscape n ++ rest) = (Char.ofNat n, rest) := by
  obtain ⟨hread, hrest⟩ := readUnit_hex h rest
  show readUnits (hex 4 n ++ rest) = _
  unfold readUnits
  dsimp only
  rw [hread, hrest, if_neg hn]

theorem joined_surrogates (n : Nat)
    : joined (0xd800 + n / 0x400) (0xdc00 + n % 0x400) = 0x10000 + n := by
  unfold joined
  omega

theorem readChar_pair {n : Nat} (h : n < 0x100000) (rest : List Char)
    : readChar (unitEscape (0xd800 + n / 0x400) ++ (unitEscape (0xdc00 + n % 0x400) ++ rest)) =
        (Char.ofNat (0x10000 + n), rest) := by
  rw [← joined_surrogates]
  have hhigh : 0xd800 ≤ 0xd800 + n / 0x400 ∧ 0xd800 + n / 0x400 < 0xdc00 := by omega
  have hlow : 0xdc00 + n % 0x400 < 0x10000 := by omega
  generalize 0xd800 + n / 0x400 = high at *
  generalize 0xdc00 + n % 0x400 = low at *
  obtain ⟨hread, hmid⟩ := @readUnit_hex high (by omega) (unitEscape low ++ rest)
  obtain ⟨hread', hrest⟩ := readUnit_hex hlow rest
  have hunit : (unitEscape low ++ rest).drop 2 = hex 4 low ++ rest := rfl
  show readUnits (hex 4 high ++ (unitEscape low ++ rest)) = _
  unfold readUnits
  dsimp only
  rw [hread, hmid, if_pos hhigh, hunit, hread', hrest]

theorem readChar_short {c : Char} (h : c ≠ 'u') (rest : List Char)
    : readChar ('\\' :: c :: rest) = (shortEscape c, rest) := by
  simp [readChar, h]

theorem readChar_plain {c : Char} (h : c ≠ '\\') (rest : List Char)
    : readChar (c :: rest) = (c, rest) := by
  unfold readChar
  exact if_neg h

theorem ofNat_of_toNat {c : Char} {n : Nat} (h : c.toNat = n) : c = Char.ofNat n := by
  rw [← h, Char.ofNat_toNat]

/--
A character reads back from its form in a literal. Units of a character are never surrogates, so a
pair of surrogates is one character.
-/
theorem readChar_jsonChar (c : Char) (rest : List Char)
    : readChar (jsonChar c ++ rest) = (c, rest) := by
  have hvalid : c.toNat < 0xd800 ∨ 0xdfff < c.toNat ∧ c.toNat < 0x110000 := c.valid
  unfold jsonChar
  dsimp only
  split_ifs with hquote hbackslash hn hr ht hb hf hplain hunit
  · rw [hquote]
    exact readChar_short (by decide) rest
  · rw [hbackslash]
    exact readChar_short (by decide) rest
  · rw [hn]
    exact readChar_short (by decide) rest
  · rw [hr]
    exact readChar_short (by decide) rest
  · rw [ht]
    exact readChar_short (by decide) rest
  · rw [ofNat_of_toNat hb]
    exact readChar_short (by decide) rest
  · rw [ofNat_of_toNat hf]
    exact readChar_short (by decide) rest
  · exact readChar_plain hbackslash rest
  · rw [readChar_unit hunit (by omega), Char.ofNat_toNat]
  · rw [List.append_assoc, readChar_pair (by omega), Nat.add_sub_cancel' (by omega),
      Char.ofNat_toNat]

theorem jsonChar_ne_quote (c : Char) (rest rest' : List Char)
    : jsonChar c ++ rest ≠ '"' :: rest' := by
  unfold jsonChar
  dsimp only
  split_ifs with hquote
  · exact nofun
  · exact nofun
  · exact nofun
  · exact nofun
  · exact nofun
  · exact nofun
  · exact nofun
  · intro h
    exact hquote (List.cons.inj h).1
  · exact nofun
  · exact nofun

theorem jsonChars_append_inj {cs ds rest rest' : List Char}
    (h : cs.flatMap jsonChar ++ '"' :: rest = ds.flatMap jsonChar ++ '"' :: rest')
    : cs = ds ∧ rest = rest' := by
  induction cs generalizing ds with
  | nil =>
    cases ds with
    | nil => exact ⟨rfl, (List.cons.inj h).2⟩
    | cons d ds =>
      rw [List.flatMap_cons, List.append_assoc] at h
      exact absurd h.symm (jsonChar_ne_quote d _ _)
  | cons c cs ih =>
    rw [List.flatMap_cons, List.append_assoc] at h
    cases ds with
    | nil => exact absurd h (jsonChar_ne_quote c _ _)
    | cons d ds =>
      rw [List.flatMap_cons, List.append_assoc] at h
      have hread := congrArg readChar h
      rw [readChar_jsonChar, readChar_jsonChar, Prod.mk.injEq] at hread
      obtain ⟨rfl, hrest⟩ := hread
      obtain ⟨rfl, hend⟩ := ih hrest
      exact ⟨rfl, hend⟩

/--
A literal ends at its closing quote, so no literal is the start of another one.
-/
theorem jsonString_append_inj {cs ds rest rest' : List Char}
    (h : jsonString cs ++ rest = jsonString ds ++ rest') : cs = ds ∧ rest = rest' := by
  apply jsonChars_append_inj
  unfold jsonString at h
  simpa using h

end Reshape.Text
