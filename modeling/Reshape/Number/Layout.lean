import Reshape.Number.Shortest

/-!
This module contains the written form of floating point numbers: the shortest digits, laid out with
a point or with an exponent as a `Layout` says.
-/

namespace Reshape.Binary64

/--
The decisions of a written form. Exponents from `leastPositional` to `greatestPositional` are
written with the point in its place and the others with at least `exponentWidth` digits after an
`e` and a sign.
-/
structure Layout where
  nan : String
  infinity : String
  leastPositional : Int
  greatestPositional : Int
  exponentWidth : Nat

/--
The form of numbers in messages: positional from `0.0001` up to sixteen digits in front of the
point.
-/
def Layout.plain : Layout where
  nan := "nan"
  infinity := "inf"
  leastPositional := -4
  greatestPositional := 15
  exponentWidth := 2

/--
The form of numbers in JSON text, which differs in the words alone.
-/
def Layout.json : Layout :=
  { Layout.plain with nan := "NaN", infinity := "Infinity" }

/--
Digits with the point in its place. One digit at least stands on either side of it.
-/
def positional (x : Scientific) : List Char :=
  if x.exponent < 0 then
    '0' :: '.' :: (List.replicate (-x.exponent - 1).toNat '0' ++ x.digits)
  else
    let front := x.exponent.toNat + 1
    let digits := x.digits ++ List.replicate (front - x.digits.length) '0'
    match digits.drop front with
    | [] => digits ++ ['.', '0']
    | rest => digits.take front ++ '.' :: rest

/--
Digits with the point after the first one, where others follow, and an exponent.
-/
def scientific (width : Nat) (x : Scientific) : List Char :=
  let power := Decimal.natText x.exponent.natAbs
  let mantissa := match x.digits with
    | first :: second :: rest => first :: '.' :: second :: rest
    | short => short
  mantissa ++ 'e' :: (if x.exponent < 0 then '-' else '+') ::
    (List.replicate (width - power.length) '0' ++ power)

def magnitudeText (layout : Layout) (rank : Nat) : List Char :=
  let x : Scientific := if rank = 0 then ⟨['0'], 0⟩ else shortest rank
  if layout.leastPositional ≤ x.exponent ∧ x.exponent ≤ layout.greatestPositional then
    positional x
  else
    scientific layout.exponentWidth x

/--
The written form of a number. A minus sign stands in front of every negative one, zero included.
-/
def text (layout : Layout) : Binary64 → String
  | .nan => layout.nan
  | .infinite negative => (if negative then "-" else "") ++ layout.infinity
  | .finite negative rank =>
    String.ofList ((if negative then ['-'] else []) ++ magnitudeText layout rank)

end Reshape.Binary64
