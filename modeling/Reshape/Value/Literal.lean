import Reshape.Number.Layout
import Reshape.Text.Quoted
import Reshape.Value.Basic

/-!
This module contains the text of values in messages: the literal form, which quotes text, and the
display form, which shows the text of a string or a path as it is.
-/

namespace Reshape

def intString (n : Int) : String :=
  String.ofList (Decimal.intText n)

/--
The items of a list, tuple or object one after the other.
-/
def commaSeparated (items : List String) : String :=
  String.intercalate ", " items

def braced (s : String) : String :=
  "\x7b" ++ s ++ "\x7d"

namespace Value

/--
The literal form of the tuple of the given items. A lone item is followed by a comma.
-/
def tupleLiteral : List String → String
  | [item] => "(" ++ item ++ ",)"
  | items => "(" ++ commaSeparated items ++ ")"

def boolLiteral (b : Bool) : String :=
  if b then "True" else "False"

def keyLiteral : Key → String
  | .null => "None"
  | .bool b => boolLiteral b
  | .int n => intString n
  | .float x => x.text .plain
  | .str s => Text.quoted s

def pathLiteral (p : Path) : String :=
  "Path(raw=" ++ Text.quoted p.raw ++ ", segments=" ++
    tupleLiteral (p.segments.map Text.quoted) ++ ")"

mutual

/--
The literal form of a value.
-/
def literal : Value → String
  | .null => "None"
  | .bool b => boolLiteral b
  | .int n => intString n
  | .float x => x.text .plain
  | .str s => Text.quoted s
  | .list items => "[" ++ commaSeparated (literals items) ++ "]"
  | .object fields => braced (commaSeparated (fieldLiterals fields))
  | .tuple items => tupleLiteral (literals items)
  | .function name => "<function " ++ name ++ ">"
  | .path p => pathLiteral p
  | .missing => "MISSING"
  | .operationSet _ records => "OperationSet([" ++ commaSeparated (literals records) ++ "])"

@[inherit_doc literal]
def literals : List Value → List String
  | [] => []
  | v :: vs => literal v :: literals vs

@[inherit_doc literal]
def fieldLiterals : List (Key × Value) → List String
  | [] => []
  | (k, v) :: fields => (keyLiteral k ++ ": " ++ literal v) :: fieldLiterals fields

end

mutual

/--
Whether all integers in a value have few enough digits to be written.
-/
def isWritable : Value → Bool
  | .int n => Decimal.isWritable n
  | .list items => allWritable items
  | .tuple items => allWritable items
  | .object fields => fieldsWritable fields
  | .operationSet _ records => allWritable records
  | _ => true

@[inherit_doc isWritable]
def allWritable : List Value → Bool
  | [] => true
  | v :: vs => isWritable v && allWritable vs

@[inherit_doc isWritable]
def fieldsWritable : List (Key × Value) → Bool
  | [] => true
  | (.int n, v) :: fields => Decimal.isWritable n && isWritable v && fieldsWritable fields
  | (_, v) :: fields => isWritable v && fieldsWritable fields

end

/--
The display form of a value.
-/
def display : Value → String
  | .str s => s
  | .path p => p.raw
  | v => literal v

end Value

@[inherit_doc Value.display]
def Key.display (k : Key) : String :=
  k.toValue.display

end Reshape
