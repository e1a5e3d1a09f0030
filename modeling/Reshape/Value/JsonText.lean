import Reshape.Text.JsonString
import Reshape.Value.Literal

/-!
This module contains the compact JSON text of values. Tuples are written as arrays and what JSON has
no form for as the string of its display form.
-/

namespace Reshape

def Key.jsonName : Key → List Char
  | .null => "null".toList
  | .bool b => (if b then "true" else "false").toList
  | .int n => Decimal.intText n
  | .float x => (x.text .json).toList
  | .str s => s.toList

namespace Value

mutual

/--
The JSON text of a value, without blanks and in ASCII alone.
-/
def jsonText : Value → List Char
  | .null => "null".toList
  | .bool b => (if b then "true" else "false").toList
  | .int n => Decimal.intText n
  | .float x => (x.text .json).toList
  | .str s => Text.jsonString s.toList
  | .list items => '[' :: (jsonItems items ++ [']'])
  | .tuple items => '[' :: (jsonItems items ++ [']'])
  | .object fields => '\x7b' :: (jsonFields fields ++ ['\x7d'])
  | v => Text.jsonString v.display.toList

/--
The texts of the items of an array with commas between them.
-/
def jsonItems : List Value → List Char
  | [] => []
  | [v] => jsonText v
  | v :: vs => jsonText v ++ ',' :: jsonItems vs

/--
The texts of the fields of an object with commas between them.
-/
def jsonFields : List (Key × Value) → List Char
  | [] => []
  | [(k, v)] => Text.jsonString k.jsonName ++ ':' :: jsonText v
  | (k, v) :: fields =>
    Text.jsonString k.jsonName ++ ':' :: (jsonText v ++ ',' :: jsonFields fields)

end

end Value
end Reshape
