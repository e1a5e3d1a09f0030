import Reshape.Value.Basic

/-!
This module contains the making of objects from lists of fields in which keys may repeat.
-/

namespace Reshape

/--
The integer that a key denotes, where truth values denote zero and one.
-/
def Key.toInt? : Key → Option Int
  | .bool b => some (if b then 1 else 0)
  | .int n => some n
  | .float x => x.toInt?
  | _ => none

/--
Whether two keys are one in an object. Keys that denote the same integer are, and what is no number
is no key twice.
-/
def Key.same (a b : Key) : Bool :=
  match a.toInt?, b.toInt? with
  | some m, some n => m == n
  | _, _ => a == b && a != .float .nan

namespace Value

/--
Adds a field, or replaces the value of the field that has the same key.
-/
def addField (field : Key × Value) : List (Key × Value) → List (Key × Value)
  | [] => [field]
  | (k, v) :: rest =>
    if k.same field.1 then (k, field.2) :: rest else (k, v) :: addField field rest

/--
The object with the given fields. Of fields with the same key the first one gives the place and the
last one the value.
-/
def ofFields (fields : List (Key × Value)) : Value :=
  .object (fields.foldl (fun acc field => addField field acc) [])

end Value
end Reshape
