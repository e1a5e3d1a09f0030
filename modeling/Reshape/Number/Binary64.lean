/-!
This module contains the double precision binary floating point numbers, exactly: what a finite one
denotes, and how a quotient or a decimal is rounded to one.
-/

namespace Reshape

/--
The number of magnitudes in a block of equally spaced ones.
-/
def Binary64.block : Nat :=
  Nat.pow 2 52

/--
The number of finite magnitudes, which make 2047 blocks.
-/
def Binary64.ranks : Nat :=
  2047 * block

/--
A floating point number. A finite one is given by its sign and by the rank of its magnitude, that
is by its place among all finite magnitudes in increasing order; rank zero is the magnitude zero.
All numbers without a value are one `nan`.
-/
inductive Binary64 where
  | nan
  | infinite (negative : Bool)
  | finite (negative : Bool) (rank : Fin Binary64.ranks)
  deriving DecidableEq

namespace Binary64

instance : Inhabited Binary64 := ⟨.nan⟩

/--
The quotient of `n` by `d`, rounded to the nearest integer. A half goes to the even neighbour.
-/
def roundDiv (n d : Nat) : Nat :=
  let q := n / d
  let r := n % d
  if d < 2 * r ∨ (2 * r = d ∧ q % 2 = 1) then q + 1 else q

/--
A quotient `n / d` after division by `base ^ k`, as numerator and denominator.
-/
def scaleDown (base n d : Nat) (k : Int) : Nat × Nat :=
  if 0 ≤ k then (n, d * base.pow k.toNat) else (n * base.pow (-k).toNat, d)

/--
The greatest `k` with `2 ^ k ≤ n / d`.
-/
def floorLog2 (n d : Nat) : Int :=
  let k : Int := (n.log2 : Int) - d.log2
  let (n', d') := scaleDown 2 n d k
  -- The difference of the logarithms is one too large at most.
  if d' ≤ n' then k else k - 1

/--
The rank of the magnitude nearest to a positive quotient. The spacing of magnitudes is a power of
two, never below `2 ^ (-1074)`, that leaves 53 digits to the quotient. The result is not bounded:
from `ranks` on the quotient is too large to be finite.
-/
def nearestRank (n d : Nat) : Nat :=
  let k := max (floorLog2 n d - 52) (-1074)
  let (n', d') := scaleDown 2 n d k
  -- Rounding up at the end of a block leads to the first rank of the next one.
  (k + 1074).toNat * block + roundDiv n' d'

/--
The number of a given rank, which is infinite if the rank is that of no finite number.
-/
def ofRank (negative : Bool) (rank : Nat) : Binary64 :=
  if h : rank < ranks then .finite negative ⟨rank, h⟩ else .infinite negative

def spacing (rank : Nat) : Nat :=
  rank / block - 1

/--
The magnitude of a rank is `significand rank * 2 ^ exponent rank`.
-/
def significand (rank : Nat) : Nat :=
  rank - spacing rank * block

@[inherit_doc significand]
def exponent (rank : Nat) : Int :=
  (spacing rank : Int) - 1074

def magnitude (rank : Nat) : Nat × Nat :=
  scaleDown 2 (significand rank) 1 (-exponent rank)

/--
The number nearest to `digits * 10 ^ power`. Powers that are out of range for every significand of
that size are not evaluated.
-/
def ofDecimal (negative : Bool) (digits : Nat) (power : Int) : Binary64 :=
  if digits = 0 then
    ofRank negative 0
  -- Above every finite magnitude, whatever the digits.
  else if 310 ≤ power then
    .infinite negative
  -- Below half of the least positive magnitude, since ten is above `2 ^ 3`.
  else if (digits.log2 : Int) + 1 + 3 * power ≤ -1076 then
    ofRank negative 0
  else
    let (n, d) := scaleDown 10 digits 1 (-power)
    ofRank negative (nearestRank n d)

def isZero : Binary64 → Bool
  | .finite _ rank => rank.val = 0
  | _ => false

/--
The integer that a number is, if it is one.
-/
def toInt? : Binary64 → Option Int
  | .finite negative rank =>
    let (n, d) := magnitude rank
    if n % d = 0 then
      some (if negative then -((n / d : Nat) : Int) else ((n / d : Nat) : Int))
    else
      none
  | _ => none

end Binary64
end Reshape
