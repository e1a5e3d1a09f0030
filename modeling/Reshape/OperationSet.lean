import Reshape.Record

/-!
This module contains operation sets, the lists of records that can be changed by position and by
tag. The steps of a set are those of its present records.
-/

namespace Reshape

structure OperationSet where
  records : List Record
  registry : Nat
  copyInput : Bool
  maxDepth : Nat
  deriving DecidableEq

/--
Where records are added. What is null is not given, `index` goes before `after` and that before
`before`.
-/
structure Position where
  before : Value := .null
  after : Value := .null
  index : Value := .null
  deriving DecidableEq

def lastIndex? {α : Type} (p : α → Bool) : List α → Option Nat
  | [] => none
  | a :: as =>
    match lastIndex? p as with
    | some i => some (i + 1)
    | none => if p a then some 0 else none

namespace Record

/--
The tag of a record as a value, which is null for an untagged one.
-/
def tagValue (record : Record) : Value :=
  match record.tag? with
  | some label => .str label
  | none => .null

end Record

namespace OperationSet

def steps (set : OperationSet) : List Step :=
  compiledSteps set.records

def size (set : OperationSet) : Nat :=
  set.records.length

def recordValues (set : OperationSet) : List Value :=
  set.records.map Record.toValue

/--
The record at an index. Values that are no index have none.
-/
def get? (set : OperationSet) : Value → Option Record
  | .int n => if 0 ≤ n then set.records[n.toNat]? else none
  | _ => none

/--
The last record whose tag, which is null for an untagged one, is what is asked for.
-/
def indexOfTag? (set : OperationSet) (tag : Value) : Option Nat :=
  lastIndex? (fun record => record.tagValue == tag) set.records

def anchor (set : OperationSet) (tag : Value) : Except FormatError Nat :=
  match tag with
  | .str label =>
    match set.indexOfTag? tag with
    | some i => .ok i
    | none => .error (.unknownTag label)
  | tag => .error (.badAnchor tag)

def insertionIndex (set : OperationSet) (position : Position) : Except FormatError Nat :=
  if position.index ≠ .null then
    match position.index with
    | .int n =>
      if 0 ≤ n ∧ n ≤ set.size then .ok n.toNat
      else .error (.badInsertionIndex position.index set.size)
    | index => .error (.badInsertionIndex index set.size)
  else if position.after ≠ .null then
    (set.anchor position.after).map (· + 1)
  else if position.before ≠ .null then
    set.anchor position.before
  else
    .ok set.size

def add (set : OperationSet) (operations : Value) (position : Position) :
    Except FormatError (Nat × OperationSet) := do
  let added ← declaredRecords operations
  let index ← set.insertionIndex position
  pure (index, { set with records := set.records.take index ++ added ++ set.records.drop index })

/--
The index of the record that a key asks for, by index or by tag.
-/
def removalIndex? (set : OperationSet) : Value → Except FormatError (Option Nat)
  | .str label => .ok (set.indexOfTag? (.str label))
  | .int n => .ok (if 0 ≤ n ∧ n < set.size then some n.toNat else none)
  | key => .error (.badRemovalKey key)

/--
Removes a record by index or by tag and tells which one it was, if there was one.
-/
def remove (set : OperationSet) (key : Value) :
    Except FormatError (Option Record × OperationSet) := do
  match ← set.removalIndex? key with
  | some i => pure (set.records[i]?, { set with records := set.records.eraseIdx i })
  | none => pure (none, set)

/--
The set as a value, given its handle.
-/
def toValue (set : OperationSet) (handle : Nat) : Value :=
  .operationSet handle set.recordValues

end OperationSet
end Reshape
