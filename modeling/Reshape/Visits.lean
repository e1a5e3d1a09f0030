import Reshape.Edit
import Reshape.Host

/-!
This module contains the application of a function of the host at a path that also tells what the
function was called with.
-/

namespace Reshape

abbrev Collector := ExceptT Error (StateM (List Value))

def Host.visit (host : Host) (function : String) (v : Value) : Collector Value := do
  modify (· ++ [v])
  match host.call function v with
  | .ok v => pure v
  | .error message => throw (.raised message)

/--
Calls a function on everything that a path resolves to, absent fields included, and tells the values
that it was called with in their order.
-/
def Host.visits (host : Host) (function : String) (path root : Value) :
    Except Error Value × List Value :=
  match Path.ofValue path with
  | .ok path => (applyAt path (fun _ => host.visit function) root).run.run []
  | .error cause => (.error (.operation cause), [])

end Reshape
