import Reshape.Cast
import Reshape.Text.DecimalDigit

/-!
This module contains the choice of the bound on the nesting of procedures: a preference wins, then
the setting of the surroundings, then the default.
-/

namespace Reshape.DepthBound

def default : String := "64"

/--
The blanks that may stand around an integer. The information separators are not among them.
-/
def isPadding (c : Char) : Bool :=
  Text.isBlank c && !(decide (0x1c ≤ c.toNat) && decide (c.toNat ≤ 0x1f))

/--
The digits of an integer, of any script, with single underscores between them. The flag tells
whether a digit has just been read, and the text must not end without one.
-/
def digits? : Bool → List Char → Option (List Nat)
  | afterDigit, [] => if afterDigit then some [] else none
  | afterDigit, c :: cs =>
    if c = '_' then
      if afterDigit then digits? false cs else none
    else
      match Text.decimalDigit? c with
      | some d => (digits? true cs).map (d :: ·)
      | none => none

/--
The integer that a text denotes, with an optional sign and padding around it.
-/
def readInt? (text : List Char) : Option Int :=
  let text := ((text.dropWhile isPadding).reverse.dropWhile isPadding).reverse
  let (negative, rest) := Numeral.takeSign text
  match digits? false rest with
  | none => none
  | some digits =>
    if Decimal.maxDigits < digits.length then
      none
    else
      let n : Nat := digits.foldl (fun n d => 10 * n + d) 0
      some (if negative then -(n : Int) else n)

/--
The integer that a request asks for. Truth values are no integers.
-/
def requested? : Value → Option Int
  | .bool _ => none
  | .int n => some n
  | v => readInt? v.display.toList

/--
What is asked for by a preference, if it is not null, or else by the setting.
-/
def request (setting : Option String) (preference : Value) : Value :=
  if preference = .null then
    .str (String.ofList (Text.strip (setting.getD default).toList))
  else
    preference

/--
The bound, which is a positive integer.
-/
def resolve (setting : Option String) (preference : Value) : Except Error Nat :=
  let asked := request setting preference
  match requested? asked with
  | some n => if 1 ≤ n then .ok n.toNat else .error (.badDepth asked)
  | none => .error (.badDepth asked)

end Reshape.DepthBound
