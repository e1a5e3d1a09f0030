import Reshape.Store

/-!
This module contains endpoints, which have an operation set for every medium of every phase. All
sets of an endpoint look up procedures in one registry.
-/

namespace Reshape

/--
An endpoint, with the handles of its sets by medium.
-/
structure Endpoint where
  registry : Nat
  description : Value
  request : Assoc String Nat
  response : Assoc String Nat
  error : Assoc String Nat
  deriving DecidableEq

namespace Endpoint

def mediums (endpoint : Endpoint) : Phase → Assoc String Nat
  | .request => endpoint.request
  | .response => endpoint.response
  | .error => endpoint.error

def medium (endpoint : Endpoint) (phase : Phase) (medium : Value) : Except Error Nat :=
  match medium with
  | .str name =>
    match Assoc.get? name (endpoint.mediums phase) with
    | some handle => .ok handle
    | none => .error (.unknownMedium phase medium)
  | medium => .error (.notFound medium (.unknownMedium phase medium))

/--
The operations that a phase declares by medium. What counts as false declares none.
-/
def phaseFields (phase : Phase) (operations : Value) :
    Except FormatError (List (Key × Value)) :=
  if operations.truthy then
    match operations with
    | .object fields =>
      let unknown := (fields.map (·.1)).filter fun key =>
        !(phase.mediums.any fun medium => key == .str medium)
      if unknown.isEmpty then .ok fields else .error (.unknownMediums phase operations unknown)
    | operations => .error (.badPhase phase operations)
  else
    .ok []

/--
Builds the sets of the given mediums, in their order.
-/
def buildMediums (store : Store) (registry : Nat) (fields : List (Key × Value)) :
    List String → Except Error (Assoc String Nat × Store)
  | [] => .ok ([], store)
  | medium :: rest => do
    let operations := (Assoc.get? (.str medium) fields).getD .null
    let (handle, store) ← store.buildSet operations registry true .null
    let (sets, store) ← buildMediums store registry fields rest
    pure ((medium, handle) :: sets, store)

def buildPhase (store : Store) (registry : Nat) (phase : Phase) (operations : Value) :
    Except Error (Assoc String Nat × Store) := do
  let fields ← (phaseFields phase operations).mapError .format
  buildMediums store registry fields phase.mediums

/--
Builds an endpoint. The phases are checked one after the other.
-/
def build (store : Store) (registry : Nat) (description request response error : Value) :
    Except Error (Endpoint × Store) := do
  let (request, store) ← buildPhase store registry .request request
  let (response, store) ← buildPhase store registry .response response
  let (error, store) ← buildPhase store registry .error error
  pure (⟨registry, description, request, response, error⟩, store)

end Endpoint
end Reshape
