import Reshape.Outcome
import Reshape.Value.Slot

/-!
This module contains the walk along a path: every place that the path resolves to is visited, in the
order of the document, and takes what the visit yields as its new content. The walk is generic in
the monad of the visits, which may fail.
-/

namespace Reshape

def Path.ofValue : Value → Except OperationError Path
  | .str s => .ok ⟨s⟩
  | .path p => .ok p
  | v => .error (.badPath v)

/--
Whether a walk goes on into a value, given the segments after the one that led there. The last
segment leads everywhere and the others lead into containers only.
-/
def entered (rest : List String) (v : Value) : Bool :=
  rest.isEmpty || v.isContainer

def visitItems {m : Type → Type} [Monad m] (visit : Nat → Value → m Value) :
    Nat → List Value → m (List Value)
  | _, [] => pure []
  | i, v :: vs => do
    let v ← visit i v
    let vs ← visitItems visit (i + 1) vs
    pure (v :: vs)

def visitSlot {m : Type → Type} [Monad m] (visit : Value → m Value) (rest : List String)
    (container : Value) (slot : Slot) : m Value :=
  let content := (container.get? slot).getD .missing
  if entered rest content then do
    let new ← visit content
    pure (container.store slot new)
  else
    pure container

/--
Walks along the segments from a value. The wildcard fans out over the elements of a list, and every
other segment, as well as a wildcard that meets an object, leads into the slot that it names.
Branches that end early stay as they are. A list that cannot look up a segment ends the whole walk.
A visit learns the address of its place.
-/
def walk {m : Type → Type} [Monad m] [MonadExcept Error m] (visit : Address → Value → m Value) :
    List String → Value → m Value
  | [], v => visit [] v
  | segment :: rest, .list items =>
    if segment = Path.wildcard then do
      let items ← visitItems (fun i item =>
        if entered rest item then do
          let new ← walk (fun address => visit (.index i :: address)) rest item
          -- Elements are not removed, so that the others keep their positions.
          pure new.orNull
        else
          pure item) 0 items
      pure (.list items)
    else if (Value.list items).refuses segment then
      throw Error.tooManyDigits
    else
      match (Value.list items).slot? segment with
      | some slot =>
        visitSlot (walk (fun address => visit (slot :: address)) rest) rest (.list items) slot
      | none => pure (.list items)
  | segment :: rest, v =>
    match v.slot? segment with
    | some slot => visitSlot (walk (fun address => visit (slot :: address)) rest) rest v slot
    | none => pure v

/--
Walks along a path. What the value itself is replaced with is never missing.
-/
def applyAt {m : Type → Type} [Monad m] [MonadExcept Error m] (path : Path)
    (visit : Address → Value → m Value) (root : Value) : m Value :=
  match path.segments with
  | [] => do
    let new ← visit [] root
    pure new.orNull
  | segments => walk visit segments root

def skipMissing {m : Type → Type} [Monad m] (visit : Value → m Value) : Value → m Value
  | .missing => pure .missing
  | v => visit v

theorem skipMissing_of_ne {m : Type → Type} [Monad m] {visit : Value → m Value} {v : Value}
    (h : v ≠ .missing) : skipMissing visit v = visit v := by
  cases v with
  | missing => exact absurd rfl h
  | _ => rfl

end Reshape
