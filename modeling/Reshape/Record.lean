import Reshape.Error

/-!
This module contains operation records: which values are records and which steps a list of records
stands for.
-/

namespace Reshape

inductive Spelling where
  | sigil
  | bare
  deriving DecidableEq

def Spelling.spell : Spelling → String → String
  | .sigil, word => "$" ++ word
  | .bare, word => word

inductive Heading where
  | tag
  | operation (op : Op)
  deriving DecidableEq

namespace Heading

def word : Heading → String
  | .tag => tagWord
  | .operation op => op.word

def all : List Heading :=
  .tag :: Op.all.map .operation

def ofKey? : Key → Option (Spelling × Heading)
  | .str s =>
    match all.find? fun heading => heading.word == s with
    | some heading => some (.bare, heading)
    | none =>
      (all.find? fun heading => Spelling.sigil.spell heading.word == s).map fun heading =>
        (.sigil, heading)
  | _ => none

end Heading

/--
An entry of a record: the tag, or an operation with its payload.
-/
inductive Entry where
  | tag (spelling : Spelling) (label : String)
  | operation (spelling : Spelling) (op : Op) (payload : Value)
  deriving DecidableEq

namespace Entry

def heading : Entry → Heading
  | .tag _ _ => .tag
  | .operation _ op _ => .operation op

def toField : Entry → Key × Value
  | .tag spelling label => (.str (spelling.spell tagWord), .str label)
  | .operation spelling op payload => (.str (spelling.spell op.word), payload)

def tag? : Entry → Option String
  | .tag _ label => some label
  | .operation _ _ _ => none

def operation? : Entry → Option (Op × Value)
  | .tag _ _ => none
  | .operation _ op payload => some (op, payload)

def mapPayload (f : Value → Value) : Entry → Entry
  | .tag spelling label => .tag spelling label
  | .operation spelling op payload => .operation spelling op (f payload)

end Entry

/--
A record, with its entries in the order of their keys.
-/
structure Record where
  entries : List Entry
  deriving DecidableEq, Inhabited

/--
An operation of a list of records with its payload and the position of its record.
-/
structure Step where
  op : Op
  payload : Value
  record : Nat
  deriving DecidableEq

namespace Record

/--
Reads the fields of an object as entries, given the headings of the fields before them. The first
field that is out of order decides the failure.
-/
def readEntries (record : Value) :
    List Heading → List (Key × Value) → Except FormatError (List Entry)
  | _, [] => .ok []
  | seen, (key, payload) :: fields =>
    match Heading.ofKey? key with
    | none => .error (.unknownOperation record key)
    | some (spelling, .tag) =>
      if Heading.tag ∈ seen then
        .error (.secondTag record)
      else
        match payload with
        | .str label =>
          (readEntries record (.tag :: seen) fields).map (.tag spelling label :: ·)
        | payload => .error (.badTag record payload)
    | some (spelling, .operation op) =>
      if Heading.operation op ∈ seen then
        .error (.repeatedOperation record op)
      else
        let entry := Entry.operation spelling op payload
        (readEntries record (.operation op :: seen) fields).map (entry :: ·)

def ofValue (v : Value) : Except FormatError Record :=
  match v with
  | .object fields => (readEntries v [] fields).map Record.mk
  | v => .error (.notRecord v)

def toValue (record : Record) : Value :=
  .object (record.entries.map Entry.toField)

def tag? (record : Record) : Option String :=
  record.entries.findSome? Entry.tag?

def mapPayloads (f : Value → Value) (record : Record) : Record :=
  ⟨record.entries.map (Entry.mapPayload f)⟩

def operations (record : Record) : List (Op × Value) :=
  record.entries.filterMap Entry.operation?

/--
The steps of a record at a position, in the order of the vocabulary.
-/
def steps (record : Record) (position : Nat) : List Step :=
  Op.all.filterMap fun op =>
    (Assoc.get? op record.operations).map fun payload => ⟨op, payload, position⟩

end Record

/--
The values that declare records one by one: a single record, a list or tuple of them, or none.
-/
def recordValues : Value → Except FormatError (List Value)
  | .null => .ok []
  | .object fields => .ok [.object fields]
  | .list items => .ok items
  | .tuple items => .ok items
  | v => .error (.notRecords v)

def readRecords (values : List Value) : Except FormatError (List Record) :=
  values.mapM Record.ofValue

def declaredRecords (operations : Value) : Except FormatError (List Record) := do
  readRecords (← recordValues operations)

def stepsFrom : Nat → List Record → List Step
  | _, [] => []
  | position, record :: records => record.steps position ++ stepsFrom (position + 1) records

/--
The steps that a list of records stands for, in the order in which they run.
-/
def compiledSteps (records : List Record) : List Step :=
  stepsFrom 0 records

end Reshape
