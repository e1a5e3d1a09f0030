import Reshape.Outcome
import Reshape.Value.Slot

/-!
This module contains relocation, which moves or copies what stands at one path to another one. Both
paths are followed from the segments that they share, at least one segment of each left over. A move
whose target turns out to be unreachable has given its source up by then.
-/

namespace Reshape

namespace Value

/--
Follows segments through containers into a container.
-/
def descend (v : Value) : List String → Except Error (Option Value)
  | [] => .ok (some v)
  | segment :: rest =>
    let inner := v.child segment
    if v.refuses segment then .error .tooManyDigits
    else if inner.isContainer then inner.descend rest
    else .ok none

/--
What stands under segments that lead through containers.
-/
def read (v : Value) : List String → Except Error Value
  | [] => .ok v
  | segment :: rest =>
    let inner := v.child segment
    if v.refuses segment then .error .tooManyDigits
    else if rest.isEmpty || inner.isContainer then inner.read rest
    else .ok .missing

/--
Gives up what stands under segments.
-/
def detach (v : Value) : List String → Value
  | [] => v
  | [segment] =>
    match v.slot? segment with
    | some slot => v.clear slot
    | none => v
  | segment :: rest => v.assign segment ((v.child segment).detach rest)

/--
Replaces the container under segments.
-/
def replace (v : Value) (new : Value) : List String → Value
  | [] => new
  | segment :: rest => v.assign segment ((v.child segment).replace new rest)

/--
A value under segments in objects of its own.
-/
def nest (v : Value) : List String → Value
  | [] => v
  | segment :: rest => .object [(.str segment, v.nest rest)]

/--
Puts a value under segments, of which the first one is accepted. What stands on the way and cannot
be descended into makes way for an object, which is reported unless nothing stood there.
-/
def place (new : Value) (destination : String) :
    List String → Value → Except Error (Value × List Event)
  | [], v => .ok (v, [])
  | [segment], v => .ok (v.assign segment new, [])
  | segment :: next :: rest, v =>
    let inner := v.child segment
    if inner.refuses next then
      .error .tooManyDigits
    else if inner.accepts next then do
      let (inner, log) ← place new destination (next :: rest) inner
      pure (v.assign segment inner, log)
    else
      let log := if inner = .missing then [] else [.overwrote inner.typeName segment destination]
      .ok (v.assign segment (new.nest (next :: rest)), log)

def placeAt (v : Value) (segments : List String) (new : Value) :
    Except Error (Value × List Event) :=
  place new (String.intercalate "." segments) segments v

end Value

/--
What a relocation comes to. If it fails then the value is what the failure leaves.
-/
structure Relocation where
  value : Value
  log : List Event
  failure : Option Error

namespace Relocation

def stay (v : Value) : Relocation := ⟨v, [], none⟩

def fail (v : Value) (e : Error) : Relocation := ⟨v, [], some e⟩

def result (x : Relocation) : Except Error Value :=
  match x.failure with
  | some e => .error e
  | none => .ok x.value

def outcome (x : Relocation) : Outcome Value := ⟨x.log, x.result⟩

def ofPlaced (left : Value) (whole : Value → Value) :
    Except Error (Value × List Event) → Relocation
  | .ok (v, log) => ⟨whole v, log, none⟩
  | .error e => fail left e

end Relocation

/--
The segments up to where two paths are followed separately: what they share, but for each path
without its last segment.
-/
def pivot (source target : List String) : List String :=
  (sharedStart source target).take (min source.length target.length - 1)

/--
Moves the value itself below a fresh object, or copies it into itself.
-/
def relocateRoot (keep : Bool) (target : List String) (root : Value) : Relocation :=
  match target with
  | [] => .stay root
  | segment :: _ =>
    if !keep then .stay (root.nest target)
    else if root.refuses segment then .fail root .tooManyDigits
    else if root.accepts segment then .ofPlaced root id (root.placeAt target root)
    else .stay root

/--
The container from which two paths are followed and what the source leads to from there. There are
none, and nothing is relocated, if the source leads nowhere or the container does not accept the
target. Lists that cannot look up a segment make it fail.
-/
def relocated? (source target : List String) (root : Value) :
    Except Error (Option (Value × Value)) :=
  let shared := pivot source target
  if !root.isContainer then
    .ok none
  else do
    match ← root.descend shared with
    | none => pure none
    | some start =>
      let found ← start.read (source.drop shared.length)
      if found = .missing then
        pure none
      else
        match target.drop shared.length with
        -- The target is the value itself, which can always be replaced.
        | [] => pure (some (start, found))
        | segment :: _ =>
          if start.refuses segment then .error .tooManyDigits
          else pure (if start.accepts segment then some (start, found) else none)

/--
Moves, or copies if `keep` is set, what stands under the segments of the source to the segments of
the target. A move gives the source up before the target is reached.
-/
def relocate (keep : Bool) (source target : List String) (root : Value) : Relocation :=
  if source.isEmpty then
    relocateRoot keep target root
  else
    match relocated? source target root with
    | .error e => .fail root e
    | .ok none => .stay root
    | .ok (some (start, found)) =>
      if target.isEmpty then
        .stay found
      else
        let shared := pivot source target
        -- The container at the pivot is changed on its own and then put back.
        let start := if keep then start else start.detach (source.drop shared.length)
        .ofPlaced (root.replace start shared) (root.replace · shared)
          (start.placeAt (target.drop shared.length) found)

/--
The end of a relocation that a value gives. Ends stand for single places, so wildcards are refused.
-/
def relocationEnd (keep : Bool) (side : Side) : Value → Except OperationError Path
  | .str s => check ⟨s⟩
  | .path p => check p
  | v => .error (.badEnd keep side v)
where
  check (path : Path) : Except OperationError Path :=
    if path.hasWildcard then .error (.wildcardEnd side path) else .ok path

end Reshape
