import Reshape.Text.Hex
import Reshape.Text.Printable

/-!
This module contains quoted text as messages show it: between apostrophes, or between quotation
marks if that saves escapes, with an escape for everything that has no visible form.
-/

namespace Reshape.Text

def apostrophe : Char := Char.ofNat 39

def quotationMark : Char := Char.ofNat 34

/--
The mark to put around a text. Quotation marks are for texts with an apostrophe and no quotation
mark.
-/
def quoteFor (cs : List Char) : Char :=
  if cs.contains apostrophe && !cs.contains quotationMark then quotationMark else apostrophe

/--
The escape of a character by its code point, in the shortest of three widths.
-/
def codeEscape (c : Char) : List Char :=
  let n := c.toNat
  if n < 0x100 then '\\' :: 'x' :: hex 2 n
  else if n < 0x10000 then '\\' :: 'u' :: hex 4 n
  else '\\' :: 'U' :: hex 8 n

def quotedChar (mark c : Char) : List Char :=
  if c = mark ∨ c = '\\' then ['\\', c]
  else if c = '\n' then ['\\', 'n']
  else if c = '\r' then ['\\', 'r']
  else if c = '\t' then ['\\', 't']
  else if isPrintable c then [c]
  else codeEscape c

def quoted (s : String) : String :=
  let cs := s.toList
  let mark := quoteFor cs
  String.ofList (mark :: (cs.flatMap (quotedChar mark) ++ [mark]))

end Reshape.Text
