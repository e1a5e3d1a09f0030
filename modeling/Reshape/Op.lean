/-!
This module contains the vocabulary of operation records and of endpoints: the operations, the
phases with their mediums, and the two ends of a relocation.
-/

namespace Reshape

/--
The operations, in the order in which those of one record run.
-/
inductive Op where
  | set
  | unset
  | move
  | copy
  | cast
  | map
  | wrap
  | func
  | procedure
  | model
  deriving DecidableEq, Inhabited

namespace Op

def all : List Op :=
  [.set, .unset, .move, .copy, .cast, .map, .wrap, .func, .procedure, .model]

theorem mem_all (op : Op) : op ∈ all := by
  cases op <;> decide

/--
The bare spelling of an operation.
-/
def word : Op → String
  | .set => "set"
  | .unset => "unset"
  | .move => "move"
  | .copy => "copy"
  | .cast => "cast"
  | .map => "map"
  | .wrap => "wrap"
  | .func => "func"
  | .procedure => "procedure"
  | .model => "model"

def key (op : Op) : String :=
  "$" ++ op.word

end Op

def tagWord : String := "tag"

inductive Phase where
  | request
  | response
  | error
  deriving DecidableEq, Inhabited

namespace Phase

def word : Phase → String
  | .request => "request"
  | .response => "response"
  | .error => "error"

def mediums : Phase → List String
  | .request => ["body", "headers", "query", "params"]
  | .response => ["body", "headers"]
  | .error => ["body", "headers"]

end Phase

inductive Side where
  | source
  | target
  deriving DecidableEq, Inhabited

def Side.word : Side → String
  | .source => "from"
  | .target => "to"

end Reshape
