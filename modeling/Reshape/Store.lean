import Reshape.DepthBound
import Reshape.OperationSet
import Reshape.Value.Refresh

/-!
This module contains the store of operation sets and procedure registries. Sets and registries are
shared: they are known by handles, and what happens to one is seen by everyone who holds its handle,
payloads that hold a set as plain data among them.
-/

namespace Reshape

/--
Procedures by name, in the order of their first registration. A procedure is the handle of a set.
-/
structure Registry where
  procedures : Assoc String Nat := []
  deriving DecidableEq, Inhabited

namespace Registry

def names (registry : Registry) : List String :=
  registry.procedures.map (·.1)

/--
The literal form of a registry, with its names in the order of their code points.
-/
def literal (registry : Registry) : String :=
  let names := registry.names.mergeSort fun a b => decide (a ≤ b)
  "ProcedureRegistry([" ++ commaSeparated (names.map Text.quoted) ++ "])"

/--
The handle of a procedure. Values that are no text name none.
-/
def find? (registry : Registry) : Value → Option Nat
  | .str name => Assoc.get? name registry.procedures
  | _ => none

end Registry

/--
All sets and registries by handle, and the setting of the bound on nesting.
-/
structure Store where
  /-- The handle of the first set. Values may hold sets of elsewhere, which have lower handles. -/
  start : Nat := 0
  sets : List OperationSet := []
  registries : List Registry := []
  depthSetting : Option String := none
  deriving DecidableEq, Inhabited

namespace Store

def held? (store : Store) (handle : Nat) : Option OperationSet :=
  if store.start ≤ handle then store.sets[handle - store.start]? else none

/--
The present records of the set behind a handle as values. The sets in their payloads are followed as
deep as told.
-/
def recordValues? (store : Store) : (depth handle : Nat) → Option (List Value)
  | 0, _ => none
  | depth + 1, handle =>
    (store.held? handle).map fun set =>
      set.recordValues.map (Value.refresh (store.recordValues? depth))

/--
The set behind a handle. The sets in its payloads have their present records. A chain of sets none
of which holds itself is no longer than there are sets.
-/
def set? (store : Store) (handle : Nat) : Option OperationSet :=
  (store.held? handle).map fun set =>
    let refresh := Record.mapPayloads (Value.refresh (store.recordValues? store.sets.length))
    { set with records := set.records.map refresh }

def registry (store : Store) (handle : Nat) : Registry :=
  (store.registries[handle]?).getD {}

def setValue (store : Store) (handle : Nat) : Value :=
  match store.set? handle with
  | some set => set.toValue handle
  | none => .null

def addSet (store : Store) (set : OperationSet) : Nat × Store :=
  (store.start + store.sets.length, { store with sets := store.sets ++ [set] })

def putSet (store : Store) (handle : Nat) (set : OperationSet) : Store :=
  if store.start ≤ handle then { store with sets := store.sets.set (handle - store.start) set }
  else store

def addRegistry (store : Store) : Nat × Store :=
  (store.registries.length, { store with registries := store.registries ++ [{}] })

def putRegistry (store : Store) (handle : Nat) (registry : Registry) : Store :=
  { store with registries := store.registries.set handle registry }

def buildSet (store : Store) (operations : Value) (registry : Nat) (copyInput : Bool)
    (maxDepth : Value) : Except Error (Nat × Store) := do
  let records ← (declaredRecords operations).mapError .format
  let bound ← DepthBound.resolve store.depthSetting maxDepth
  pure (store.addSet ⟨records, registry, copyInput, bound⟩)

/--
The set that a procedure is: the given one, or a new one of declared records or of a function.
-/
def procedureSet (store : Store) (registry : Nat) (name : String) (procedure : Value) :
    Except Error (Nat × Store) :=
  match procedure with
  | .operationSet handle _ => .ok (handle, store)
  | .object _ | .list _ | .tuple _ => store.buildSet procedure registry true .null
  | .function _ => store.buildSet (.object [(.str Op.func.key, procedure)]) registry true .null
  | procedure => .error (.format (.badProcedure name procedure))

def register (store : Store) (registry : Nat) (name procedure : Value) :
    Except Error (Nat × Store) :=
  match name with
  | .str label =>
    if label = "" then
      .error (.format (.badProcedureName name))
    else do
      let (handle, store) ← store.procedureSet registry label procedure
      let procedures := Assoc.insert label handle (store.registry registry).procedures
      pure (handle, store.putRegistry registry ⟨procedures⟩)
  | name => .error (.format (.badProcedureName name))

/--
Registers names with procedures one after the other, up to the first one that cannot be registered.
-/
def registerAll (store : Store) (registry : Nat) :
    List (Except Error (Value × Value)) → Store × Except Error Unit
  | [] => (store, .ok ())
  | .error e :: _ => (store, .error e)
  | .ok (name, procedure) :: rest =>
    match store.register registry name procedure with
    | .ok (_, store) => store.registerAll registry rest
    | .error e => (store, .error e)

/--
The fields of an object as names with procedures. What counts as false has none, of whatever type it
is, and other values have no fields to go through.
-/
def fieldPairs (procedures : Value) : List (Except Error (Value × Value)) :=
  match procedures with
  | .object fields => fields.map fun field => .ok (field.1.toValue, field.2)
  | procedures => if procedures.truthy then [.error (.notMapping procedures)] else []

def pair (item : Value) : Except Error (Value × Value) :=
  match item.items? with
  | some [name, procedure] => .ok (name, procedure)
  | some parts => .error (.wrongPairSize parts.length)
  | none => .error (.notPair item)

/--
The names with procedures that a value lists: the fields of an object, or else item by item.
-/
def listedPairs (procedures : Value) : List (Except Error (Value × Value)) :=
  match procedures with
  | .object _ => fieldPairs procedures
  | procedures =>
    match procedures.items? with
    | some items => items.map pair
    | none => [.error (.notListing procedures)]

def buildRegistry (store : Store) (procedures : Value) : Except Error (Nat × Store) :=
  let (handle, store) := store.addRegistry
  match store.registerAll handle (fieldPairs procedures) with
  | (store, .ok ()) => .ok (handle, store)
  -- A registry that cannot be filled is not kept.
  | (_, .error e) => .error e

def unregister (store : Store) (registry : Nat) (name : Value) : Except Error (Nat × Store) :=
  match name, (store.registry registry).find? name with
  | .str label, some handle =>
    .ok (handle, store.putRegistry registry
      ⟨Assoc.erase label (store.registry registry).procedures⟩)
  | name, _ => .error (.notFound name (.unknownName name))

def procedureSteps? (store : Store) (registry : Nat) (name : String) : Option (List Step) :=
  ((store.registry registry).find? (.str name)).bind fun handle =>
    (store.set? handle).map OperationSet.steps

end Store
end Reshape
