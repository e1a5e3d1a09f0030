import Reshape.Cast
import Reshape.Walk

/-!
This module contains the edits of single fields: setting, removing, casting, substituting through a
table and wrapping.
-/

namespace Reshape

abbrev Table := Assoc String Value

namespace Table

/--
The table that an object describes. Keys with the same string cast are one, and the last one wins.
-/
def ofValue : Value → Except Error Table
  | .object fields => do
    let entries ← fields.mapM fun field => do pure (← field.1.toValue.toText, field.2)
    pure (Assoc.ofList entries)
  | v => .error (.operation (.badTable v))

/--
The entry for a text: its own one, else that of the empty text.
-/
def find? (table : Table) (text : String) : Option Value :=
  (Assoc.get? text table).or (Assoc.get? "" table)

/--
The substitute of a value, which is the value itself where the table has no entry for its text.
-/
def substitute (table : Table) (v : Value) : Except Error Value := do
  pure ((table.find? (← v.toText)).getD v)

end Table

/--
What a value is wrapped into: an object with one field, or a list.
-/
inductive Wrapper where
  | field (name : String)
  | list
  deriving DecidableEq

namespace Wrapper

def ofValue : Value → Except OperationError Wrapper
  | .str s => .ok (.field s)
  | .list _ => .ok .list
  | v => .error (.badWrapper v)

def wrap : Wrapper → Value → Value
  | .field name, v => .object [(.str name, v)]
  | .list, v => .list [v]

def slot : Wrapper → Slot
  | .field name => .key (.str name)
  | .list => .index 0

end Wrapper

inductive Edit where
  | put (v : Value)
  | erase
  | cast (cast : Cast)
  | substitute (table : Table)
  | wrap (wrapper : Wrapper)

namespace Edit

/--
The new content of a field. Casts and substitutions keep absent fields absent, and wrapping takes
them for null.
-/
def apply : Edit → Value → Except Error Value
  | .put v, _ => .ok v
  | .erase, _ => .ok .missing
  | .cast _, .missing => .ok .missing
  | .cast c, v => c.apply v
  | .substitute _, .missing => .ok .missing
  | .substitute t, v => t.substitute v
  | .wrap w, v => .ok (w.wrap v.orNull)

def applyAt (edit : Edit) (path : Path) (root : Value) : Outcome Value :=
  Reshape.applyAt path (fun _ v => Outcome.ofExcept (edit.apply v)) root

end Edit

end Reshape
