import Reshape.Edit
import Reshape.Relocate

/-!
This module contains single operations on a value outside of any record. Arguments are checked in a
fixed order before anything else happens.
-/

namespace Reshape.Direct

def editAt (edit : Except Error Edit) (path root : Value) : Outcome Value := do
  let edit ← edit
  let path ← Path.ofValue path
  edit.applyAt path root

def setAt (root path v : Value) : Outcome Value :=
  editAt (.ok (.put v)) path root

def unsetAt (root path : Value) : Outcome Value :=
  editAt (.ok .erase) path root

def castAt (root path cast : Value) : Outcome Value :=
  editAt (do pure (.cast (← Cast.ofValue cast))) path root

def mapAt (root path table : Value) : Outcome Value :=
  editAt ((Table.ofValue table).map .substitute) path root

def wrapAt (root path wrapper : Value) : Outcome Value :=
  editAt (do pure (.wrap (← Wrapper.ofValue wrapper))) path root

def relocateTo (keep : Bool) (root source target : Value) : Outcome Value := do
  let source ← relocationEnd keep .source source
  let target ← relocationEnd keep .target target
  (relocate keep source.segments target.segments root).outcome

def castValue (v cast : Value) : Outcome Value := do
  let cast ← Cast.ofValue cast
  cast.apply v

def mapValue (v table : Value) : Outcome Value := do
  let table ← Table.ofValue table
  table.substitute v

def wrapValue (v wrapper : Value) : Outcome Value := do
  let wrapper ← Wrapper.ofValue wrapper
  pure (wrapper.wrap v)

end Reshape.Direct
