/-!
This module contains the decimal digits: the ASCII ones and those that the character database lists
for every script. Each script has its ten digits in a row, so a table of the zeros describes them.
-/

namespace Reshape.Text

def asciiDigit? (c : Char) : Option Nat :=
  if 48 ≤ c.toNat ∧ c.toNat ≤ 57 then some (c.toNat - 48) else none

def digitChar (n : Nat) : Char :=
  Char.ofNat (48 + n)

def isAsciiDigit (c : Char) : Bool :=
  (asciiDigit? c).isSome

theorem asciiDigit?_digitChar {n : Nat} (h : n < 10) : asciiDigit? (digitChar n) = some n := by
  match n, h with
  | 0, _ | 1, _ | 2, _ | 3, _ | 4, _ | 5, _ | 6, _ | 7, _ | 8, _ | 9, _ => rfl

theorem asciiDigit?_lt {c : Char} {n : Nat} (h : asciiDigit? c = some n) : n < 10 := by
  simp only [asciiDigit?] at h
  split at h
  · simp only [Option.some.injEq] at h; omega
  · simp at h

/--
The code points of the digit zero, script by script.
-/
def zeros : List Nat :=
  [0x30, 0x660, 0x6f0, 0x7c0, 0x966, 0x9e6, 0xa66, 0xae6, 0xb66, 0xbe6, 0xc66, 0xce6, 0xd66,
   0xde6, 0xe50, 0xed0, 0xf20, 0x1040, 0x1090, 0x17e0, 0x1810, 0x1946, 0x19d0, 0x1a80, 0x1a90,
   0x1b50, 0x1bb0, 0x1c40, 0x1c50, 0xa620, 0xa8d0, 0xa900, 0xa9d0, 0xa9f0, 0xaa50, 0xabf0, 0xff10,
   0x104a0, 0x10d30, 0x11066, 0x110f0, 0x11136, 0x111d0, 0x112f0, 0x11450, 0x114d0, 0x11650,
   0x116c0, 0x11730, 0x118e0, 0x11950, 0x11c50, 0x11d50, 0x11da0, 0x16a60, 0x16ac0, 0x16b50,
   0x1d7ce, 0x1d7d8, 0x1d7e2, 0x1d7ec, 0x1d7f6, 0x1e140, 0x1e2f0, 0x1e950, 0x1fbf0]

def decimalDigit? (c : Char) : Option Nat :=
  (zeros.find? fun first => decide (first ≤ c.toNat) && decide (c.toNat < first + 10)).map
    (c.toNat - ·)

end Reshape.Text
