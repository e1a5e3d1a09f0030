import Reshape.Text.DecimalDigit

/-!
This module contains the decimal text of natural numbers and integers and its reading. The main
statement, `readNat_natText`, says that the text of a number reads back as that number.
-/

namespace Reshape.Decimal

open Text

def natText (n : Nat) : List Char :=
  if n < 10 then [digitChar n] else natText (n / 10) ++ [digitChar (n % 10)]

/--
The decimal text of an integer, with a sign only in front of a negative one.
-/
def intText (n : Int) : List Char :=
  if n < 0 then '-' :: natText n.natAbs else natText n.natAbs

/--
The greatest number of digits of an integer that is read from a text or written as one.
-/
def maxDigits : Nat := 4300

def isWritable (n : Int) : Bool :=
  decide ((natText n.natAbs).length ≤ maxDigits)

/--
The number that a row of ASCII digits denotes. Leading zeros are allowed and the empty row is zero.
-/
def readNat (cs : List Char) : Nat :=
  cs.foldl (fun n c => 10 * n + (asciiDigit? c).getD 0) 0

theorem readNat_append (cs : List Char) (c : Char) :
    readNat (cs ++ [c]) = 10 * readNat cs + (asciiDigit? c).getD 0 := by
  simp [readNat]

theorem readNat_natText (n : Nat) : readNat (natText n) = n := by
  induction n using Nat.strongRecOn with
  | _ n ih =>
    rw [natText]
    split
    · next h => simp [readNat, asciiDigit?_digitChar h]
    · next h =>
      rw [readNat_append, ih (n / 10) (by omega), asciiDigit?_digitChar (by omega)]
      simp only [Option.getD_some]
      omega

theorem natText_ne_nil (n : Nat) : natText n ≠ [] := by
  rw [natText]
  split <;> simp

theorem isAsciiDigit_of_mem_natText {n : Nat} {c : Char} (h : c ∈ natText n) :
    isAsciiDigit c = true := by
  induction n using Nat.strongRecOn with
  | _ n ih =>
    rw [natText] at h
    split at h
    · next hn =>
      simp only [List.mem_singleton] at h
      simp [h, isAsciiDigit, asciiDigit?_digitChar hn]
    · next hn =>
      simp only [List.mem_append, List.mem_singleton] at h
      rcases h with h | h
      · exact ih (n / 10) (by omega) h
      · simp [h, isAsciiDigit, asciiDigit?_digitChar (n := n % 10) (by omega)]

end Reshape.Decimal
