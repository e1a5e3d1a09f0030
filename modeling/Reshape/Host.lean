import Reshape.Value.Basic

/-!
This module contains the functions that operations may call. They belong to the host, so everything
else takes a `Host` as an argument; `Host.standard` is the host with the common functions.
-/

namespace Reshape

/--
The functions of a host by name. A call may give up with a message.
-/
structure Host where
  call : String → Value → Except String Value

inductive CommonFunction where
  | id
  | null
  | upper
  | inc
  | type
  /-- The number of characters, items or fields. -/
  | len
  | box
  | flag
  /-- Nothing, which removes the field. -/
  | drop
  | fill
  | fail
  deriving DecidableEq

namespace CommonFunction

def name : CommonFunction → String
  | .id => "id"
  | .null => "null"
  | .upper => "upper"
  | .inc => "inc"
  | .type => "type"
  | .len => "len"
  | .box => "box"
  | .flag => "flag"
  | .drop => "drop"
  | .fill => "fill"
  | .fail => "fail"

def all : List CommonFunction :=
  [.id, .null, .upper, .inc, .type, .len, .box, .flag, .drop, .fill, .fail]

def ofName? (s : String) : Option CommonFunction :=
  all.find? fun f => f.name == s

def flagKey : Key := .str "flag"

def length : Value → Value
  | .str s => .int s.length
  | .list items => .int items.length
  | .object fields => .int fields.length
  | _ => .null

/--
Calls a function. Functions for some kinds of values leave the others as they are.
-/
def apply : CommonFunction → Value → Except String Value
  | .null, _ => .ok .null
  | .upper, .str s => .ok (.str (String.ofList (s.toList.map Char.toUpper)))
  | .inc, .int n => .ok (.int (n + 1))
  | .type, v => .ok (.str v.typeName)
  | .len, v => .ok (length v)
  | .box, v => .ok (.list [v])
  | .flag, .object fields => .ok (.object (Assoc.insert flagKey (.bool true) fields))
  | .drop, _ => .ok .missing
  | .fill, .missing => .ok (.str "filled")
  | .fail, _ => .error "boom"
  | _, v => .ok v

end CommonFunction

def Host.standard : Host where
  call name v :=
    match CommonFunction.ofName? name with
    | some f => f.apply v
    | none => .error ("unknown function " ++ name)

end Reshape
