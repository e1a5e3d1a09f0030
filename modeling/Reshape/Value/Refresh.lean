import Reshape.Value.Basic

/-!
This module contains the refreshment of values, which brings the operation sets in a value to the
records that they have by now.
-/

namespace Reshape.Value

mutual

/--
A value with the present records of the operation sets in it. Sets that are not known any more keep
the records that they had.
-/
def refresh (records : Nat → Option (List Value)) : Value → Value
  | .list items => .list (refreshItems records items)
  | .tuple items => .tuple (refreshItems records items)
  | .object fields => .object (refreshFields records fields)
  | .operationSet handle old => .operationSet handle ((records handle).getD old)
  | v => v

@[inherit_doc refresh]
def refreshItems (records : Nat → Option (List Value)) : List Value → List Value
  | [] => []
  | v :: vs => refresh records v :: refreshItems records vs

@[inherit_doc refresh]
def refreshFields (records : Nat → Option (List Value)) : List (Key × Value) → List (Key × Value)
  | [] => []
  | (k, v) :: fields => (k, refresh records v) :: refreshFields records fields

end

end Reshape.Value
