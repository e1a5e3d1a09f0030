import Reshape.InPlace.Movement
import Reshape.InPlace.Passage
import Reshape.Run

/-!
This module contains the run of steps on a value in place, which tells besides the outcome what is
left of the value that was passed in.
-/

namespace Reshape

/--
A host that also tells what becomes of the containers of a value that a function is called on.
-/
structure InPlaceHost extends Host where
  moved : String → Value → Movement

def InPlaceHost.standard : InPlaceHost where
  toHost := Host.standard
  moved name v :=
    match CommonFunction.ofName? name with
    | some f => f.moved v
    | none => .still

def Edit.inPlace (edit : Edit) (v : Value) : Passage :=
  match edit.apply v with
  | .ok new => ⟨[], new, edit.moved v, none⟩
  | .error e => .fail v e

namespace InPlaceHost

variable (host : InPlaceHost)

def change (function : String) (v : Value) : Passage :=
  match host.call function v with
  | .ok new => ⟨[], new, host.moved function v, none⟩
  | .error message => .fail v (.raised message)

variable (procedure? : String → Option (List Step))

/--
Runs an instruction in place, where `invoke` runs a procedure of a given name on a field.
-/
def runInstruction (invoke : String → Value → Passage) (v : Value) : Instruction → Passage
  | .edit path edit => .along path edit.inPlace v
  | .relocate keep source target =>
    let x := relocate keep source.segments target.segments v
    ⟨x.log, x.value, relocationMoved keep source.segments target.segments v, x.failure⟩
  | .callWhole function => host.change function v
  | .call path function => .along path (.ofPresent (host.change function)) v
  | .require name =>
    match procedure? name with
    | some _ => .stay v
    | none => .fail v (.operation (.unregistered (.str name)))
  | .invoke path name => .along path (.ofPresent (invoke name)) v
  | .reject cause => .fail v cause

def runStep (invoke : String → Value → Passage) (depth : Nat) (v : Value) (step : Step) : Passage :=
  (Instruction.ofStep step).foldl
    (fun x instruction => x.andThen (host.runInstruction procedure? invoke · instruction))
    (.note (.running step.op step.record depth) v)

def runSteps (invoke : String → Value → Passage) (depth : Nat) (steps : List Step) (v : Value) :
    Passage :=
  steps.foldl (fun x step => x.andThen (host.runStep procedure? invoke depth · step)) (.stay v)

/--
Runs a procedure in place from a depth, with the given number of further levels below it.
-/
def invoke : (remaining depth : Nat) → String → Value → Passage
  | 0, depth, name, v => .fail v (.operation (.tooDeep name depth))
  | remaining + 1, depth, name, v =>
    (Passage.note (.invoking name (depth + 1)) v).andThen
      (host.runSteps procedure? (invoke remaining (depth + 1)) (depth + 1)
        ((procedure? name).getD []))

/--
Runs steps on a value in place, with procedures nested at most as deep as the bound.
-/
def process (bound : Nat) (steps : List Step) (v : Value) : Passage :=
  host.runSteps procedure? (host.invoke procedure? bound 0) 0 steps v

end InPlaceHost
end Reshape
