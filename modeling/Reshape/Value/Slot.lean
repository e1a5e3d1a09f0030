import Reshape.Number.Numeral
import Reshape.Value.Basic

/-!
This module contains the places inside containers: which place a path segment names, what stands
there, and how it is replaced or given up.
-/

namespace Reshape

inductive Slot where
  | key (k : Key)
  | index (i : Nat)
  deriving DecidableEq

/--
A place inside a value, from its outermost container inwards.
-/
abbrev Address := List Slot

/--
The position that a segment denotes in a list. It is written in ASCII digits, leading zeros allowed.
-/
def listIndex? (segment : String) : Option Nat :=
  if Numeral.isDigits segment.toList then some (Decimal.readNat segment.toList) else none

namespace Value

/--
Whether a value cannot look a segment up: a list, if the segment has more digits than are read.
-/
def refuses : Value → String → Bool
  | .list _, segment =>
    Numeral.isDigits segment.toList && decide (Decimal.maxDigits < segment.length)
  | _, _ => false

/--
The slot that a segment names in a value. An object has a slot for every text and a list one for
every position below its length.
-/
def slot? : Value → String → Option Slot
  | .object _, segment => some (.key (.str segment))
  | .list items, segment =>
    (listIndex? segment).bind fun i => if i < items.length then some (.index i) else none
  | _, _ => none

def accepts (v : Value) (segment : String) : Bool :=
  (v.slot? segment).isSome

def get? : Value → Slot → Option Value
  | .object fields, .key k => Assoc.get? k fields
  | .list items, .index i => items[i]?
  | _, _ => none

def put : Value → Slot → Value → Value
  | .object fields, .key k, v => .object (Assoc.insert k v fields)
  | .list items, .index i, v => .list (items.set i v)
  | container, _, _ => container

/--
Gives up the content of a slot. A field goes away and an element leaves a null behind, so that lists
never shift.
-/
def clear : Value → Slot → Value
  | .object fields, .key k => .object (Assoc.erase k fields)
  | .list items, .index i => .list (items.set i .null)
  | container, _ => container

/--
Fills a slot with a new content, or clears it if there is none.
-/
def store (container : Value) (slot : Slot) : Value → Value
  | .missing => container.clear slot
  | v => container.put slot v

def child (v : Value) (segment : String) : Value :=
  ((v.slot? segment).bind v.get?).getD .missing

/--
Fills the slot that a segment names, if there is one.
-/
def assign (container : Value) (segment : String) (v : Value) : Value :=
  match container.slot? segment with
  | some slot => container.put slot v
  | none => container

def at? (v : Value) : Address → Option Value
  | [] => some v
  | slot :: rest => (v.get? slot).bind (·.at? rest)

/--
Stores a value at an address, where `missing` clears the place.
-/
def storeAt (v : Value) (new : Value) : Address → Value
  | [] => new
  | [slot] => v.store slot new
  | slot :: rest =>
    match v.get? slot with
    | some inner => v.put slot (inner.storeAt new rest)
    | none => v

end Value
end Reshape
