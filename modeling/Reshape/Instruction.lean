import Reshape.Edit
import Reshape.Record
import Reshape.Relocate

/-!
This module contains the instructions that a step stands for. A payload is not checked as a whole:
what is wrong with one of its items stops the run only when the items before it have run, so it
becomes an instruction of its own.
-/

namespace Reshape

inductive Instruction where
  /-- Edit every field that a path resolves to. -/
  | edit (path : Path) (edit : Edit)
  | relocate (keep : Bool) (source target : Path)
  /-- Replace the whole value, absent or not, with what a function makes of it. -/
  | callWhole (function : String)
  /-- Call a function on every present field that a path resolves to. -/
  | call (path : Path) (function : String)
  /-- Go on only if a procedure of that name is registered. -/
  | require (name : String)
  /-- Run a procedure on every present field that a path resolves to. -/
  | invoke (path : Path) (name : String)
  /-- End the run with a failure. -/
  | reject (cause : Error)

namespace Instruction

/--
The instructions of a part of a payload, or the one that rejects it.
-/
def orReject : Except Error (List Instruction) → List Instruction
  | .ok instructions => instructions
  | .error cause => [.reject cause]

/--
The items of a payload that lists fields, in their order. All keys are checked before any item.
-/
def items (op : Op) (payload : Value) : Except OperationError (List (String × Value)) :=
  match payload with
  | .object fields => fields.mapM fun field =>
    match field.1 with
    | .str name => .ok (name, field.2)
    | key => .error (.badField op key)
  | payload => .error (.badPayload op payload)

/--
The instructions of a payload that lists fields, item by item.
-/
def perItem (op : Op) (payload : Value)
    (instruct : String → Value → Except Error (List Instruction)) : List Instruction :=
  orReject do
    let fields ← items op payload
    pure (fields.flatMap fun field => orReject (instruct field.1 field.2))

/--
The texts that a value lists: itself, or all items of a list or tuple of texts.
-/
def texts? : Value → Option (List String)
  | .str s => some [s]
  | .list items => items.mapM text?
  | .tuple items => items.mapM text?
  | _ => none
where
  text? : Value → Option String
    | .str s => some s
    | _ => none

def ofUnset (payload : Value) : List Instruction :=
  match texts? payload with
  | some fields => fields.map fun field => .edit ⟨field⟩ .erase
  | none => [.reject (.operation (.badUnset payload))]

def ofRelocation (keep : Bool) (payload : Value) : List Instruction :=
  perItem (relocationOp keep) payload fun field destination => do
    let source ← relocationEnd keep .source (.str field)
    let target ← relocationEnd keep .target destination
    pure [.relocate keep source target]

def ofWrap (payload : Value) : List Instruction :=
  match Wrapper.ofValue payload with
  | .ok wrapper => [.edit .root (.wrap wrapper)]
  | .error _ => perItem .wrap payload fun field wrapper => do
    pure [.edit ⟨field⟩ (.wrap (← Wrapper.ofValue wrapper))]

def ofFunc (payload : Value) : List Instruction :=
  match payload with
  | .function name => [.callWhole name]
  | payload => perItem .func payload fun field function =>
    match function with
    | .function name => .ok [.call ⟨field⟩ name]
    | function => .error (.operation (.badFunction field function))

/--
All names of an item are looked up before the first of its procedures runs.
-/
def ofProcedures (op : Op) (payload : Value) : List Instruction :=
  perItem op payload fun field names =>
    match texts? names with
    | some names => .ok (names.map .require ++ names.map (.invoke ⟨field⟩))
    | none => .error (.operation (.badNames op field names))

def ofStep (step : Step) : List Instruction :=
  match step.op with
  | .set => perItem .set step.payload fun field v => .ok [.edit ⟨field⟩ (.put v)]
  | .unset => ofUnset step.payload
  | .move => ofRelocation false step.payload
  | .copy => ofRelocation true step.payload
  | .cast => perItem .cast step.payload fun field v => do
    pure [.edit ⟨field⟩ (.cast (← Cast.ofValue v))]
  | .map => perItem .map step.payload fun field v => do
    pure [.edit ⟨field⟩ (.substitute (← Table.ofValue v))]
  | .wrap => ofWrap step.payload
  | .func => ofFunc step.payload
  | .procedure => ofProcedures .procedure step.payload
  | .model => ofProcedures .model step.payload

end Instruction
end Reshape
