import Reshape.InPlace.Shadow
import Reshape.Walk

/-!
This module contains passages, which are changes of a value in place: the value that results, what
has become of the containers of the value before, and the walk along a path as one passage.
-/

namespace Reshape

/--
A change of a value in place. If it fails then the value is what the failure leaves where the value
stood.
-/
structure Passage where
  log : List Event
  value : Value
  moved : Movement
  failure : Option Error

namespace Passage

def stay (v : Value) : Passage := ⟨[], v, .still, none⟩

def fail (v : Value) (e : Error) : Passage := ⟨[], v, .still, some e⟩

def note (event : Event) (v : Value) : Passage := ⟨[event], v, .still, none⟩

/--
Goes on with a further passage, unless the first one failed.
-/
def andThen (x : Passage) (next : Value → Passage) : Passage :=
  match x.failure with
  | some _ => x
  | none =>
    let y := next x.value
    ⟨x.log ++ y.log, y.value, fun a => (x.moved a).follow y.moved, y.failure⟩

/--
What is left at an address of a value after a passage of it. Leaves do not change in place.
-/
def leftAt (x : Passage) (v : Value) (address : Address) : Value :=
  let before := v.look address
  if before.isContainer then (x.moved address).content x.value.look else before

def left (x : Passage) (v : Value) : Value :=
  x.leftAt v []

def result (x : Passage) : Except Error Value :=
  match x.failure with
  | some e => .error e
  | none => .ok x.value

def outcome (x : Passage) : Outcome Value := ⟨x.log, x.result⟩

structure Visit where
  address : Address
  value : Value
  moved : Movement

/--
The visits of a walk so far, with what they reported.
-/
structure Journal where
  log : List Event
  visits : List Visit

/--
Walks that keep a journal, also of what happened before a failure.
-/
abbrev Recorder := ExceptT Error (StateM Journal)

/--
Notes a passage in the journal. A visit that fails leaves its containers as they are by then.
-/
def visit (change : Value → Passage) (address : Address) (v : Value) : Recorder Value := do
  let x := change v
  match x.failure with
  | none =>
    modify fun journal => ⟨journal.log ++ x.log, journal.visits ++ [⟨address, x.value, x.moved⟩]⟩
    pure x.value
  | some e =>
    let rest : Visit := ⟨address, x.left v, fun a => .apart (x.leftAt v a)⟩
    modify fun journal => ⟨journal.log ++ x.log, journal.visits ++ [rest]⟩
    throw e

namespace Journal

/--
The movement of a walk: containers at or below a visited place move as the visit says.
-/
def moved (journal : Journal) : Movement :=
  journal.visits.foldr (fun visit outer =>
    .split visit.address (fun a => (visit.moved a).follow (.below visit.address)) outer) .still

def written (journal : Journal) (v : Value) : Value :=
  journal.visits.foldl (fun v visit => v.storeAt visit.value visit.address) v

end Journal

def along (path : Path) (change : Value → Passage) (v : Value) : Passage :=
  let (result, journal) := (applyAt path (visit change) v).run.run ⟨[], []⟩
  match result with
  | .ok new => ⟨journal.log, new, journal.moved, none⟩
  | .error e => ⟨journal.log, journal.written v, journal.moved, some e⟩

def ofPresent (change : Value → Passage) : Value → Passage
  | .missing => stay .missing
  | v => change v

end Passage
end Reshape
