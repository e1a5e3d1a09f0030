import Reshape.Endpoint
import Reshape.InPlace.Run

/-!
This module contains workspaces, in which sets, registries and endpoints are kept under ids, and the
commands on them. A command that fails leaves what it was about to change as it was, except that a
list of registrations stands up to the first failing one.
-/

namespace Reshape

/--
A store whose sets and registries are known by ids, with endpoints beside it.
-/
structure Workspace where
  store : Store := {}
  sets : Assoc String Nat := []
  registries : Assoc String Nat := []
  endpoints : Assoc String Endpoint := []
  deriving Inhabited

inductive Command where
  | setDepthSetting (setting : Option String)
  | resolveDepth (preference : Value)
  /-- Without a registry the set gets an empty one of its own. -/
  | newSet (id : String) (operations : Value) (registry : Option String) (copyInput : Bool)
    (maxDepth : Value)
  | process (id : String) (value : Value)
  | addRecords (id : String) (operations : Value) (position : Position)
  | removeRecord (id : String) (key : Value)
  | getRecord (id : String) (index : Value)
  | indexOfTag (id : String) (tag : Value)
  | describeSet (id : String)
  | newRegistry (id : String) (procedures : Value)
  | register (id : String) (name procedure : Value)
  | assign (id : String) (name procedure : Value)
  | registerAll (id : String) (procedures : Value)
  | getProcedure (id : String) (name : Value)
  | getItem (id : String) (name : Value)
  | deleteItem (id : String) (name : Value)
  | popItem (id : String) (name : Value)
  | hasItem (id : String) (name : Value)
  | describeRegistry (id : String)
  | callProcedure (id : String) (name value : Value)
  | newEndpoint (id : String) (request response error : Value) (registry : Option String)
    (description : Value)
  | getMedium (id : String) (phase : Phase) (medium : Value)
  | processMedium (id : String) (phase : Phase) (medium value : Value)
  | registerAt (id : String) (name procedure : Value)

/--
What a command answers. After a run in place it tells what is left of the value that was passed in.
-/
structure Reply where
  outcome : Outcome Value
  left : Option Value := none

namespace Reply

def ok (v : Value) : Reply := ⟨.ok v, none⟩

def fail (e : Error) : Reply := ⟨.fail e, none⟩

end Reply

namespace Workspace

def processSet (host : InPlaceHost) (store : Store) (set : OperationSet) (v : Value) : Reply :=
  let procedure? := store.procedureSteps? set.registry
  if set.copyInput then
    ⟨Surroundings.process ⟨host.toHost, procedure?⟩ set.maxDepth set.steps v, none⟩
  else
    let passage := host.process procedure? set.maxDepth set.steps v
    ⟨passage.outcome, some (passage.left v)⟩

def processHandle (host : InPlaceHost) (store : Store) (handle : Nat) (v : Value) : Reply :=
  match store.set? handle with
  | some set => processSet host store set v
  | none => .ok v

/--
Runs declared operations on a value, with a registry of declared procedures.
-/
def processOnce (host : InPlaceHost) (operations procedures maxDepth value : Value) : Reply :=
  let built : Except Error (Nat × Store) := do
    let (registry, store) ← Store.buildRegistry {} procedures
    store.buildSet operations registry true maxDepth
  match built with
  | .ok (handle, store) => processHandle host store handle value
  | .error e => .fail e

def set? (w : Workspace) (id : String) : Option OperationSet :=
  (Assoc.get? id w.sets).bind w.store.set?

def registry? (w : Workspace) (id : String) : Option Registry :=
  (Assoc.get? id w.registries).map w.store.registry

def endpoint? (w : Workspace) (id : String) : Option Endpoint :=
  Assoc.get? id w.endpoints

def setValue (w : Workspace) (id : String) : Option Value :=
  (Assoc.get? id w.sets).map w.store.setValue

def endpointNames (w : Workspace) (endpoint : Endpoint) : List String :=
  (w.store.registry endpoint.registry).names

def withId {α : Type} (w : Workspace) (table : Assoc String α) (id : String)
    (go : α → Reply × Workspace) : Reply × Workspace :=
  match Assoc.get? id table with
  | some a => go a
  | none => (.fail (.unknownId id), w)

def withSet (w : Workspace) (id : String) (go : Nat → OperationSet → Reply × Workspace) :
    Reply × Workspace :=
  w.withId w.sets id fun handle =>
    match w.store.set? handle with
    | some set => go handle set
    | none => (.fail (.unknownId id), w)

/--
Answers with what a change of the store yields, or fails and keeps the store.
-/
def commit {α : Type} (w : Workspace) (change : Except Error (α × Store))
    (go : α → Workspace → Reply × Workspace) : Reply × Workspace :=
  match change with
  | .ok (a, store) => go a { w with store := store }
  | .error e => (.fail e, w)

/--
The registry under an id, or a new one if no id is given.
-/
def chooseRegistry (w : Workspace) (id : Option String) : Except Error (Nat × Store) :=
  match id with
  | none => .ok w.store.addRegistry
  | some id =>
    match Assoc.get? id w.registries with
    | some handle => .ok (handle, w.store)
    | none => .error (.unknownId id)

/--
The record as a value, where none is null.
-/
def recordOrNull : Option Record → Value
  | some record => record.toValue
  | none => .null

def newSet (w : Workspace) (id : String) (operations : Value) (registry : Option String)
    (copyInput : Bool) (maxDepth : Value) : Reply × Workspace :=
  let change : Except Error (Nat × Store) := do
    let (registry, store) ← w.chooseRegistry registry
    store.buildSet operations registry copyInput maxDepth
  w.commit change fun handle w =>
    let bound := (w.store.set? handle).map (·.maxDepth)
    (.ok (.int (bound.getD 0)), { w with sets := Assoc.insert id handle w.sets })

def addRecords (w : Workspace) (id : String) (operations : Value) (position : Position) :
    Reply × Workspace :=
  w.withSet id fun handle set =>
    match set.add operations position with
    | .ok (index, set) => (.ok (.int index), { w with store := w.store.putSet handle set })
    | .error cause => (.fail (.format cause), w)

def removeRecord (w : Workspace) (id : String) (key : Value) : Reply × Workspace :=
  w.withSet id fun handle set =>
    match set.remove key with
    | .ok (removed, set) =>
      (.ok (recordOrNull removed), { w with store := w.store.putSet handle set })
    | .error cause => (.fail (.format cause), w)

def replySet (handle : Nat) (w : Workspace) : Reply × Workspace :=
  (.ok (w.store.setValue handle), w)

def replyNull {α : Type} (_ : α) (w : Workspace) : Reply × Workspace :=
  (.ok .null, w)

def registerAll (w : Workspace) (registry : Nat) (procedures : Value) : Reply × Workspace :=
  let (store, result) := w.store.registerAll registry (Store.listedPairs procedures)
  let w := { w with store := store }
  match result with
  | .ok () => (.ok .null, w)
  | .error e => (.fail e, w)

/--
Goes on with the procedure of a name, or fails, as told if the name is one that can be looked up.
-/
def withProcedure (w : Workspace) (registry : Nat) (name : Value) (e : Error)
    (go : Nat → Reply) : Reply × Workspace :=
  match (w.store.registry registry).find? name with
  | some handle => (go handle, w)
  | none => (.fail (.notFound name e), w)

/--
Whether a name is bound. It has to be one that can be looked up.
-/
def hasProcedure (w : Workspace) (registry : Nat) (name : Value) : Reply :=
  match name.unhashable? with
  | some part => .fail (.unhashable part)
  | none => .ok (.bool ((w.store.registry registry).find? name).isSome)

def newEndpoint (w : Workspace) (id : String) (request response error : Value)
    (registry : Option String) (description : Value) : Reply × Workspace :=
  let change : Except Error (Endpoint × Store) := do
    let (registry, store) ← w.chooseRegistry registry
    Endpoint.build store registry description request response error
  w.commit change fun endpoint w =>
    (.ok description, { w with endpoints := Assoc.insert id endpoint w.endpoints })

/--
The set of a medium of an endpoint, or all sets of a phase with their mediums if none is asked for.
-/
def mediumReply (w : Workspace) (endpoint : Endpoint) (phase : Phase) (medium : Value) : Reply :=
  if medium = .null then
    .ok (.list ((endpoint.mediums phase).map fun entry =>
      .list [.str entry.1, w.store.setValue entry.2]))
  else
    match endpoint.medium phase medium with
    | .ok handle => .ok (w.store.setValue handle)
    | .error e => .fail e

def execute (host : InPlaceHost) (w : Workspace) : Command → Reply × Workspace
  | .setDepthSetting setting =>
    (.ok .null, { w with store := { w.store with depthSetting := setting } })
  | .resolveDepth preference =>
    match DepthBound.resolve w.store.depthSetting preference with
    | .ok n => (.ok (.int n), w)
    | .error e => (.fail e, w)
  | .newSet id operations registry copyInput maxDepth =>
    w.newSet id operations registry copyInput maxDepth
  | .process id v => w.withSet id fun _ set => (processSet host w.store set v, w)
  | .addRecords id operations position => w.addRecords id operations position
  | .removeRecord id key => w.removeRecord id key
  | .getRecord id index => w.withSet id fun _ set => (.ok (recordOrNull (set.get? index)), w)
  | .indexOfTag id tag => w.withSet id fun _ set =>
    (.ok (((set.indexOfTag? tag).map fun i => Value.int i).getD .null), w)
  | .describeSet id => w.withSet id fun handle set =>
    (.ok (.str (set.toValue handle).literal), w)
  | .newRegistry id procedures =>
    w.commit (w.store.buildRegistry procedures) fun handle w =>
      (.ok .null, { w with registries := Assoc.insert id handle w.registries })
  | .register id name procedure => w.withId w.registries id fun registry =>
    w.commit (w.store.register registry name procedure) replySet
  | .assign id name procedure => w.withId w.registries id fun registry =>
    w.commit (w.store.register registry name procedure) replyNull
  | .registerAll id procedures => w.withId w.registries id fun registry =>
    w.registerAll registry procedures
  | .getProcedure id name => w.withId w.registries id fun registry =>
    w.withProcedure registry name (.operation (.unregistered name)) fun handle =>
      .ok (w.store.setValue handle)
  | .getItem id name => w.withId w.registries id fun registry =>
    w.withProcedure registry name (.unknownName name) fun handle => .ok (w.store.setValue handle)
  | .deleteItem id name => w.withId w.registries id fun registry =>
    w.commit (w.store.unregister registry name) replyNull
  | .popItem id name => w.withId w.registries id fun registry =>
    w.commit (w.store.unregister registry name) replySet
  | .hasItem id name => w.withId w.registries id fun registry =>
    (w.hasProcedure registry name, w)
  | .describeRegistry id => w.withId w.registries id fun registry =>
    (.ok (.str (w.store.registry registry).literal), w)
  | .callProcedure id name v => w.withId w.registries id fun registry =>
    w.withProcedure registry name (.operation (.unregistered name)) fun handle =>
      { processHandle host w.store handle v with left := none }
  | .newEndpoint id request response error registry description =>
    w.newEndpoint id request response error registry description
  | .getMedium id phase medium => w.withId w.endpoints id fun endpoint =>
    (w.mediumReply endpoint phase medium, w)
  | .processMedium id phase medium v => w.withId w.endpoints id fun endpoint =>
    match endpoint.medium phase medium with
    | .ok handle => ({ processHandle host w.store handle v with left := none }, w)
    | .error e => (.fail e, w)
  | .registerAt id name procedure => w.withId w.endpoints id fun endpoint =>
    w.commit (w.store.register endpoint.registry name procedure) replySet

end Workspace
end Reshape
