import Reshape.Number.Binary64
import Reshape.Number.Decimal

/-!
This module contains the texts that denote numbers: signed rows of ASCII digits, the word for
infinity, and decimals with a point or an exponent.
-/

namespace Reshape

open Text

/--
What a text denotes as a number, with the digits as they were written.
-/
inductive Numeral where
  /-- A row of digits without point and exponent. -/
  | integer (negative : Bool) (digits : List Char)
  | infinity (negative : Bool)
  /-- The digits times ten to the given power. -/
  | decimal (negative : Bool) (digits : List Char) (power : Int)
  deriving DecidableEq

namespace Numeral

def takeSign : List Char → Bool × List Char
  | '-' :: rest => (true, rest)
  | '+' :: rest => (false, rest)
  | text => (false, text)

def isDigits (text : List Char) : Bool :=
  !text.isEmpty && text.all isAsciiDigit

/--
The power that an exponent part denotes. The part may be absent.
-/
def exponent? : List Char → Option Int
  | [] => some 0
  | mark :: rest =>
    let (negative, digits) := takeSign rest
    if (mark == 'e' || mark == 'E') && isDigits digits then
      some (if negative then -(Decimal.readNat digits : Int) else Decimal.readNat digits)
    else
      none

/--
Reads an unsigned decimal: digits with an optional point and optional digits after it, or a point
with digits after it, and then an optional exponent part.
-/
def decimal? (negative : Bool) (text : List Char) : Option Numeral :=
  let whole := text.takeWhile isAsciiDigit
  let rest := text.dropWhile isAsciiDigit
  let (fraction, rest) := match rest with
    | '.' :: rest => (rest.takeWhile isAsciiDigit, rest.dropWhile isAsciiDigit)
    | _ => ([], rest)
  if whole.isEmpty && fraction.isEmpty then
    none
  else
    (exponent? rest).map fun power =>
      .decimal negative (whole ++ fraction) (power - fraction.length)

def read? (text : List Char) : Option Numeral :=
  let (negative, rest) := takeSign text
  if isDigits rest then
    some (.integer negative rest)
  else if rest.map Char.toLower = "infinity".toList then
    some (.infinity negative)
  else
    decimal? negative rest

def integerValue (negative : Bool) (digits : List Char) : Int :=
  if negative then -(Decimal.readNat digits : Int) else Decimal.readNat digits

end Numeral

/--
Reads the written form of a floating point number: a decimal, a signed infinity or the word for no
number, as `Binary64.text` writes them in messages.
-/
def Binary64.ofText? (text : String) : Option Binary64 :=
  if text = "nan" then
    some .nan
  else
    let (negative, rest) := Numeral.takeSign text.toList
    if rest = "inf".toList then
      some (.infinite negative)
    else
      match Numeral.decimal? negative rest with
      | some (.decimal negative digits power) =>
        some (ofDecimal negative (Decimal.readNat digits) power)
      | _ => none

end Reshape
