import Reshape.Text.Hex

/-!
This module contains JSON string literals that use ASCII alone.
-/

namespace Reshape.Text

def unitEscape (n : Nat) : List Char :=
  '\\' :: 'u' :: hex 4 n

/--
A character as it stands in a JSON string. Characters outside ASCII and control characters without
a short escape are written by their units, those above `0xffff` by two of them.
-/
def jsonChar (c : Char) : List Char :=
  let n := c.toNat
  if c = '"' then ['\\', '"']
  else if c = '\\' then ['\\', '\\']
  else if c = '\n' then ['\\', 'n']
  else if c = '\r' then ['\\', 'r']
  else if c = '\t' then ['\\', 't']
  else if n = 8 then ['\\', 'b']
  else if n = 12 then ['\\', 'f']
  else if 32 ≤ n ∧ n < 127 then [c]
  else if n < 0x10000 then unitEscape n
  else
    -- The high surrogate and the low one.
    unitEscape (0xd800 + (n - 0x10000) / 0x400) ++ unitEscape (0xdc00 + (n - 0x10000) % 0x400)

def jsonString (cs : List Char) : List Char :=
  '"' :: (cs.flatMap jsonChar ++ ['"'])

end Reshape.Text
