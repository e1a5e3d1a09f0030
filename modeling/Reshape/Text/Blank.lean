import Reshape.Text.Interval

/-!
This module contains the blank characters of the character database, that is white space together
with the four information separators, and the operation that removes them from both ends of a text.
-/

namespace Reshape.Text

/--
The code points that count as blank.
-/
def blanks : Intervals :=
  [(0x09, 0x0d), (0x1c, 0x20), (0x85, 0x85), (0xa0, 0xa0), (0x1680, 0x1680), (0x2000, 0x200a),
   (0x2028, 0x2029), (0x202f, 0x202f), (0x205f, 0x205f), (0x3000, 0x3000)]

def isBlank (c : Char) : Bool :=
  blanks.contains c

def stripEnd (cs : List Char) : List Char :=
  (cs.reverse.dropWhile isBlank).reverse

def strip (cs : List Char) : List Char :=
  stripEnd (cs.dropWhile isBlank)

end Reshape.Text
