import Reshape.Value.Slot

/-!
This module contains shadows, which tell what has become of the containers of a value that was
changed in place: where they now stand, or what they were when they were left behind.
-/

namespace Reshape

/--
What has become of a container, told relative to a value that it may be part of.
-/
inductive Shadow where
  /-- It is the container that stands at an address of the value. -/
  | within (address : Address)
  /-- It is no part of the value any more and does not change with it. -/
  | apart (content : Value)
  /-- It is an object that is no part of the value, but what its fields hold may be. -/
  | shallow (fields : List (Key × Shadow))

/--
What has become of each container, by the address that it had.
-/
abbrev Movement := Address → Shadow

namespace Shadow

mutual

/--
Follows a shadow through a further movement.
-/
def follow (move : Movement) : Shadow → Shadow
  | .within address => move address
  | .apart content => .apart content
  | .shallow fields => .shallow (followFields move fields)

@[inherit_doc follow]
def followFields (move : Movement) : List (Key × Shadow) → List (Key × Shadow)
  | [] => []
  | (k, s) :: fields => (k, follow move s) :: followFields move fields

end

mutual

/--
The container behind a shadow, given what stands at the addresses of the value.
-/
def content (look : Address → Value) : Shadow → Value
  | .within address => look address
  | .apart v => v
  | .shallow fields => .object (contentFields look fields)

@[inherit_doc content]
def contentFields (look : Address → Value) : List (Key × Shadow) → List (Key × Value)
  | [] => []
  | (k, s) :: fields => (k, content look s) :: contentFields look fields

end

end Shadow

/--
What stands at an address, or `missing` if nothing does.
-/
def Value.look (v : Value) (address : Address) : Value :=
  (v.at? address).getD .missing

namespace Movement

def still : Movement := .within

def below (address : Address) : Movement := fun a => .within (address ++ a)

def leave (v : Value) : Movement := fun a => .apart (v.look a)

/--
Containers at or below an address move in their own way and the others in another one.
-/
def split (address : Address) (inner outer : Movement) : Movement := fun a =>
  if address.isPrefixOf a then inner (a.drop address.length) else outer a

def cut (v : Value) (address : Address) : Movement :=
  split address (fun a => .apart (v.look (address ++ a))) still

end Movement
end Reshape
