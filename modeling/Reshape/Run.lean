import Reshape.Host
import Reshape.Instruction

/-!
This module contains the run of steps on a value. Procedures nest up to a bound: the remaining depth
decreases with every invocation, so every run ends, also where procedures invoke one another.
-/

namespace Reshape

/--
What a run takes from its surroundings: the functions of the host and the steps of the registered
procedures.
-/
structure Surroundings where
  host : Host
  procedure? : String → Option (List Step)

namespace Surroundings

variable (s : Surroundings)

def callHost (function : String) (v : Value) : Outcome Value :=
  match s.host.call function v with
  | .ok v => .ok v
  | .error message => .fail (.raised message)

/--
Runs an instruction, where `invoke` runs a procedure of a given name on a field.
-/
def runInstruction (invoke : String → Value → Outcome Value) (v : Value) :
    Instruction → Outcome Value
  | .edit path edit => edit.applyAt path v
  | .relocate keep source target =>
    (Reshape.relocate keep source.segments target.segments v).outcome
  | .callWhole function => s.callHost function v
  | .call path function => applyAt path (fun _ => skipMissing (s.callHost function)) v
  | .require name =>
    match s.procedure? name with
    | some _ => .ok v
    | none => .fail (.operation (.unregistered (.str name)))
  | .invoke path name => applyAt path (fun _ => skipMissing (invoke name)) v
  | .reject cause => .fail cause

def runStep (invoke : String → Value → Outcome Value) (depth : Nat) (v : Value) (step : Step) :
    Outcome Value := do
  Outcome.note (.running step.op step.record depth)
  (Instruction.ofStep step).foldlM (s.runInstruction invoke) v

def runSteps (invoke : String → Value → Outcome Value) (depth : Nat) (steps : List Step)
    (v : Value) : Outcome Value :=
  steps.foldlM (s.runStep invoke depth) v

/--
Runs a procedure on a value from a depth, with the given number of further levels below it.
-/
def invoke : (remaining depth : Nat) → String → Value → Outcome Value
  | 0, depth, name, _ => .fail (.operation (.tooDeep name depth))
  | remaining + 1, depth, name, v => do
    Outcome.note (.invoking name (depth + 1))
    s.runSteps (invoke remaining (depth + 1)) (depth + 1) ((s.procedure? name).getD []) v

/--
Runs steps on a value, with procedures nested at most as deep as the bound.
-/
def process (bound : Nat) (steps : List Step) (v : Value) : Outcome Value :=
  s.runSteps (s.invoke bound 0) 0 steps v

end Surroundings
end Reshape
