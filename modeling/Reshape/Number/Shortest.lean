import Reshape.Number.Binary64
import Reshape.Number.Decimal

/-!
This module contains the shortest decimal that denotes a floating point number: the multiple of the
greatest power of ten that rounds to the number, and of two such multiples the nearer one.
-/

namespace Reshape.Binary64

/--
A positive decimal in scientific form: the first digit stands in front of the point and the whole is
multiplied by ten to the power of the exponent.
-/
structure Scientific where
  digits : List Char
  exponent : Int
  deriving DecidableEq, Inhabited

/--
The decimal `digits * 10 ^ power` in scientific form, without zeros at its end.
-/
def Scientific.ofNat (digits : Nat) (power : Int) : Scientific :=
  let cs := Decimal.natText digits
  ⟨(cs.reverse.dropWhile (· == '0')).reverse, power + cs.length - 1⟩

def roundsTo (rank digits : Nat) (power : Int) : Bool :=
  digits != 0 &&
    let (n, d) := scaleDown 10 digits 1 (-power)
    nearestRank n d == rank

/--
The multiple of `10 ^ power` next to the magnitude of a rank that rounds to it. If both neighbours
do then it is the nearer one, and of two that are equally near the even one.
-/
def multiple? (rank : Nat) (power : Int) : Option Nat :=
  let (n, d) := magnitude rank
  let (n, d) := scaleDown 10 n d power
  let below := n / d
  match roundsTo rank below power, roundsTo rank (below + 1) power with
  | true, true => some (roundDiv n d)
  | true, false => some below
  | false, true => some (below + 1)
  | false, false => none

/--
The shortest decimal of the magnitude of a positive rank. The first power of ten is above the
magnitude and seventeen digits always suffice, so the search meets a multiple in time.
-/
def shortest (rank : Nat) : Scientific :=
  let (n, d) := magnitude rank
  go 21 ((floorLog2 n d + 1) * 30103 / 100000 + 1)
where
  go : Nat → Int → Scientific
    | 0, power => Scientific.ofNat 0 power
    | tries + 1, power =>
      match multiple? rank power with
      | some digits => Scientific.ofNat digits power
      | none => go tries (power - 1)

end Reshape.Binary64
