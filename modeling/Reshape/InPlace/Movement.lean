import Reshape.Edit
import Reshape.Host
import Reshape.InPlace.Shadow
import Reshape.Relocate

/-!
This module contains what becomes of the containers of a value that a function is called on, that is
edited, or in which something is relocated.
-/

namespace Reshape

namespace CommonFunction

/--
What an object with a flag shares with the object that it was made of: what the other fields hold.
-/
def flagMoved (fields : List (Key × Value)) : Movement
  | [] => .shallow (fields.map fun field =>
    (field.1, if field.2.isContainer && field.1 ≠ flagKey then .within [.key field.1]
      else .apart field.2))
  | .key k :: rest =>
    if k = flagKey then Movement.leave (.object fields) (.key k :: rest)
    else .within (.key k :: rest)
  | address => .within address

/--
The containers of a value that a function is called on. A function that does not apply to the value
yields the value itself.
-/
def moved : CommonFunction → Value → Movement
  | .box, _ => .below [.index 0]
  | .flag, .object fields => flagMoved fields
  | .null, v => .leave v
  | .type, v => .leave v
  | .len, v => .leave v
  | .drop, v => .leave v
  | _, _ => .still

end CommonFunction

/--
The containers of a field that is edited. What a field held is left behind, but a wrapper and a
table without an entry for it keep it.
-/
def Edit.moved : Edit → Value → Movement
  | .wrap wrapper, _ => .below [wrapper.slot]
  | .substitute table, v =>
    if (table.find? v.text).isNone then .still else .leave v
  | _, v => .leave v

namespace Value

/--
The address of what segments lead to, as far as they lead.
-/
def address (v : Value) : List String → Address
  | [] => []
  | segment :: rest =>
    match v.slot? segment with
    | some slot => slot :: (v.child segment).address rest
    | none => []

def overwritten (v : Value) : List String → Address
  | segment :: next :: rest =>
    let inner := v.child segment
    if inner.accepts next then
      v.address [segment] ++ inner.overwritten (next :: rest)
    else
      v.address [segment]
  | segments => v.address segments

end Value

/--
The containers of a value that is moved below a fresh object or copied into itself.
-/
def rootMoved (keep : Bool) (target : List String) (root : Value) : Movement :=
  match target with
  | [] => if keep then .leave root else .still
  | segment :: _ =>
    if !keep then .below ((root.nest target).address target)
    else if (relocateRoot keep target root).failure.isNone && root.accepts segment then
      .cut root (root.overwritten target)
    else .still

/--
The containers of a value in which something is relocated. What is moved goes along to the target,
and what it is put in the place of is left behind. If the target cannot be reached then what was
given up is left behind.
-/
def relocationMoved (keep : Bool) (source target : List String) (root : Value) : Movement :=
  if source.isEmpty then
    rootMoved keep target root
  else
    match relocated? source target root with
    | .ok (some _) =>
      let x := relocate keep source target root
      if x.failure.isSome then
        if keep then .still else .cut root (root.address source)
      else
        let rest := if keep then root else root.detach source
        let outer : Movement :=
          if target.isEmpty then .leave rest else .cut rest (rest.overwritten target)
        if keep then outer
        else .split (root.address source) (.below (x.value.address target)) outer
    | _ => .still

end Reshape
