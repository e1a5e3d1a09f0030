import Reshape.Error
import Reshape.Number.Numeral
import Reshape.Text.Blank
import Reshape.Value.JsonText

/-!
This module contains the three casts, which bring a value to a number, a string or a boolean.
-/

namespace Reshape

inductive Cast where
  | number
  | string
  | boolean
  deriving DecidableEq

/--
The number that a text denotes. Blanks around it do not count, a blank text is zero, and a text that
is no numeral is null.
-/
def numberOfText (text : List Char) : Except Error Value :=
  let text := Text.strip text
  if text.isEmpty then
    .ok (.int 0)
  else
    match Numeral.read? text with
    | some (.integer negative digits) =>
      if Decimal.maxDigits < digits.length then .error .tooManyDigits
      else .ok (.int (Numeral.integerValue negative digits))
    | some (.infinity negative) => .ok (.float (.infinite negative))
    | some (.decimal negative digits power) =>
      .ok (.float (Binary64.ofDecimal negative (Decimal.readNat digits) power))
    | none => .ok .null

namespace Value

/--
The number cast. What denotes no number becomes null.
-/
def toNumber : Value → Except Error Value
  | .null => .ok (.int 0)
  | .bool b => .ok (.int (if b then 1 else 0))
  | .int n => .ok (.int n)
  | .float .nan => .ok .null
  | .float x => .ok (.float x)
  | .str s => numberOfText s.toList
  | _ => .ok .null

/--
The text that the string cast aims at. Floating point numbers without a fraction are written as
integers and containers as compact JSON.
-/
def text : Value → String
  | .null => "null"
  | .bool b => if b then "true" else "false"
  | .float x =>
    match x.toInt? with
    | some n => intString n
    | none => x.text .json
  | .list items => String.ofList (Value.list items).jsonText
  | .object fields => String.ofList (Value.object fields).jsonText
  | v => v.display

/--
The string cast. It fails on values with an integer that has too many digits.
-/
def toText (v : Value) : Except Error String :=
  if v.isWritable then .ok v.text else .error .tooManyDigits

end Value

namespace Cast

def name : Cast → String
  | .number => "number"
  | .string => "string"
  | .boolean => "boolean"

def ofValue (v : Value) : Except OperationError Cast :=
  if v = .str "number" then .ok .number
  else if v = .str "string" then .ok .string
  else if v = .str "boolean" then .ok .boolean
  else .error (.badCast v)

def apply : Cast → Value → Except Error Value
  | .number, v => v.toNumber
  | .string, v => v.toText.map .str
  | .boolean, v => .ok (.bool v.truthy)

end Cast
end Reshape
