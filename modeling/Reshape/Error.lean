import Reshape.Op
import Reshape.Value.Literal

/-!
This module contains the ways in which building and running operations may fail, the message of each
and the values that it concerns.
-/

namespace Reshape

/--
Malformed declarations: records, tags, registrations and endpoint bundles.
-/
inductive FormatError where
  | notRecords (operations : Value)
  | notRecord (record : Value)
  | secondTag (record : Value)
  | badTag (record tag : Value)
  | unknownOperation (record : Value) (key : Key)
  | repeatedOperation (record : Value) (op : Op)
  | badInsertionIndex (index : Value) (length : Nat)
  | badAnchor (tag : Value)
  | unknownTag (tag : String)
  | badRemovalKey (key : Value)
  | badProcedureName (name : Value)
  | badProcedure (name : String) (procedure : Value)
  | badPhase (phase : Phase) (operations : Value)
  | unknownMediums (phase : Phase) (operations : Value) (unknown : List Key)
  deriving DecidableEq

inductive OperationError where
  | badPath (path : Value)
  | badCast (cast : Value)
  | badTable (table : Value)
  | badWrapper (wrapper : Value)
  | badEnd (keep : Bool) (side : Side) (path : Value)
  | wildcardEnd (side : Side) (path : Path)
  | badPayload (op : Op) (payload : Value)
  | badField (op : Op) (field : Key)
  | badUnset (payload : Value)
  | badFunction (field : String) (function : Value)
  | badNames (op : Op) (field : String) (names : Value)
  | unregistered (name : Value)
  /-- An invocation from depth `bound`, the greatest allowed one. -/
  | tooDeep (name : String) (bound : Nat)
  deriving DecidableEq

inductive Error where
  | format (cause : FormatError)
  | operation (cause : OperationError)
  | unknownName (name : Value)
  | unknownMedium (phase : Phase) (medium : Value)
  | unknownId (id : String)
  /-- A look-up by a value that cannot be a key, because of a part of it. -/
  | unhashable (part : Value)
  | badDepth (requested : Value)
  /-- A text or an integer has more digits than are read or written. -/
  | tooManyDigits
  /-- What should map names to procedures has no fields. -/
  | notMapping (procedures : Value)
  /-- What should list pairs of a name and a procedure has no items. -/
  | notListing (listing : Value)
  /-- An item has no parts that could be a name and a procedure. -/
  | notPair (item : Value)
  /-- An item has another number of parts than a name and a procedure. -/
  | wrongPairSize (size : Nat)
  /-- A function of the host gave up. -/
  | raised (message : String)
  deriving DecidableEq

def relocationOp (keep : Bool) : Op :=
  if keep then .copy else .move

def expectedKeys : String :=
  commaSeparated (Op.all.map Op.key ++ ["$" ++ tagWord])

namespace FormatError

def message : FormatError → String
  | .notRecords operations =>
    "Operations must be a record or a list of records, got " ++ operations.typeName ++ "."
  | .notRecord record => "Operation records must be objects, got " ++ record.typeName ++ "."
  | .secondTag _ => "Operation record has more than one tag."
  | .badTag _ tag => "Invalid value for $tag. Expected string, got " ++ tag.typeName ++ "."
  | .unknownOperation _ key =>
    "Unknown operation '" ++ key.display ++ "'. Expected one of: " ++ expectedKeys ++ "."
  | .repeatedOperation _ op =>
    "Operation '" ++ op.key ++ "' appears more than once in one record."
  | .badInsertionIndex index length =>
    "Invalid insertion index " ++ index.literal ++ ". Expected an integer from 0 to " ++
      intString length ++ "."
  | .badAnchor tag => "Invalid tag. Expected string, got " ++ tag.typeName ++ "."
  | .unknownTag tag => "No operation tagged '" ++ tag ++ "'."
  | .badRemovalKey key => "Expected an index or a tag, got " ++ key.typeName ++ "."
  | .badProcedureName name =>
    "Procedure names must be non-empty strings, got " ++ name.literal ++ "."
  | .badProcedure _ procedure =>
    "Procedure must be an operation set, operation records or a function, got " ++
      procedure.typeName ++ "."
  | .badPhase phase operations =>
    "Invalid " ++ phase.word ++ " operations. Expected object, got " ++ operations.typeName ++ "."
  | .unknownMediums phase _ unknown =>
    "Unknown " ++ phase.word ++ " medium(s): " ++ commaSeparated (unknown.map Key.display) ++
      ". Expected any of: " ++ commaSeparated phase.mediums ++ "."

/--
The values that a failure concerns, by name.
-/
def context : FormatError → List (String × Value)
  | .notRecords operations => [("operations", operations)]
  | .notRecord record => [("record", record)]
  | .secondTag record => [("record", record)]
  | .badTag record _ => [("record", record)]
  | .unknownOperation record _ => [("record", record)]
  | .repeatedOperation record _ => [("record", record)]
  | .badInsertionIndex index _ => [("at", index)]
  | .badAnchor tag => [("tag", tag)]
  | .unknownTag tag => [("tag", .str tag)]
  | .badRemovalKey key => [("id", key)]
  | .badProcedureName _ => []
  | .badProcedure name _ => [("name", .str name)]
  | .badPhase phase operations => [(phase.word, operations)]
  | .unknownMediums phase operations _ => [(phase.word, operations)]

/--
Whether all integers in the message have few enough digits to be written.
-/
def isWritable : FormatError → Bool
  | .unknownOperation _ key => key.toValue.isWritable
  | .badInsertionIndex index _ => index.isWritable
  | .badProcedureName name => name.isWritable
  | .unknownMediums _ _ unknown => unknown.all fun key => key.toValue.isWritable
  | _ => true

end FormatError

namespace OperationError

def message : OperationError → String
  | .badPath path => "Invalid path. Expected string, got " ++ path.typeName ++ "."
  | .badCast cast =>
    "Invalid type value for $cast. Expected one of: number, string, boolean, got " ++
      cast.literal ++ "."
  | .badTable table => "Invalid map value for $map. Expected object, got " ++ table.typeName ++ "."
  | .badWrapper wrapper =>
    "Invalid value for $wrap. Expected string or array, got " ++ wrapper.typeName ++ "."
  | .badEnd keep side path =>
    "Invalid " ++ side.word ++ " key for " ++ (relocationOp keep).key ++
      ". Expected string, got " ++ path.typeName ++ "."
  | .wildcardEnd side _ =>
    "Cannot use $ iterator in " ++ side.word ++ " key for $copy and $move."
  | .badPayload op payload =>
    "Invalid value for " ++ op.key ++ ". Expected object, got " ++ payload.typeName ++ "."
  | .badField op field =>
    "Invalid field key for " ++ op.key ++ ". Expected string, got " ++ field.toValue.typeName ++ "."
  | .badUnset _ => "Invalid value for $unset. Expected a string or a list of strings."
  | .badFunction field function =>
    "Invalid function for $func at '" ++ field ++ "'. Expected callable, got " ++
      function.typeName ++ "."
  | .badNames op field _ =>
    "Invalid value for " ++ op.key ++ " at '" ++ field ++ "'. Expected a name or a list of names."
  | .unregistered name => "Procedure '" ++ name.display ++ "' is not registered."
  | .tooDeep name bound =>
    "Procedure '" ++ name ++ "' exceeds the maximum nesting depth of " ++ intString bound ++ "."

@[inherit_doc FormatError.context]
def context : OperationError → List (String × Value)
  | .badPath path => [("path", path)]
  | .badCast cast => [("type", cast)]
  | .badTable table => [("table", table)]
  | .badWrapper wrapper => [("wrapper", wrapper)]
  | .badEnd _ side path => [(side.word, path)]
  | .wildcardEnd side path => [(side.word, .str path.raw)]
  | .badPayload _ payload => [("payload", payload)]
  | .badField _ field => [("field", field.toValue)]
  | .badUnset payload => [("payload", payload)]
  | .badFunction field _ => [("field", .str field)]
  | .badNames _ field names => [("field", .str field), ("names", names)]
  | .unregistered name => [("name", name)]
  | .tooDeep name bound => [("name", .str name), ("depth", .int (bound + 1))]

@[inherit_doc FormatError.isWritable]
def isWritable : OperationError → Bool
  | .badCast cast => cast.isWritable
  | .unregistered name => name.isWritable
  | .tooDeep _ bound => Decimal.isWritable bound
  | _ => true

end OperationError

instance : MonadLift (Except OperationError) (Except Error) := ⟨Except.mapError .operation⟩

instance : MonadLift (Except FormatError) (Except Error) := ⟨Except.mapError .format⟩

namespace Error

/--
The message of a failure, where there is one.
-/
def message? : Error → Option String
  | .format cause => some cause.message
  | .operation cause => some cause.message
  | .unknownName name => some name.display
  | .unknownMedium phase medium =>
    some ("Unknown " ++ phase.word ++ " medium: " ++ medium.display)
  | .unknownId id => some id
  | .unhashable part => some ("unhashable type: '" ++ part.typeName ++ "'")
  | .badDepth requested =>
    some ("Invalid procedure depth '" ++ requested.display ++ "'. Expected a positive integer.")
  | .tooManyDigits => none
  | .notMapping procedures =>
    some ("'" ++ procedures.typeName ++ "' object has no attribute 'items'")
  | .notListing listing => some ("'" ++ listing.typeName ++ "' object is not iterable")
  | .notPair item => some ("cannot unpack non-iterable " ++ item.typeName ++ " object")
  | .wrongPairSize size =>
    some (if size < 2 then "not enough values to unpack (expected 2, got " ++ intString size ++ ")"
      else "too many values to unpack (expected 2)")
  | .raised message => some message

/--
The failure of a look-up that finds nothing, which is as told if the value could be a key.
-/
def notFound (v : Value) (e : Error) : Error :=
  match v.unhashable? with
  | some part => .unhashable part
  | none => e

/--
What a failure is to the outside, where its message has been made. A message with an integer that
has too many digits cannot be made.
-/
def shown (e : Error) : Error :=
  let isWritable := match e with
    | .format cause => cause.isWritable
    | .operation cause => cause.isWritable
    | .unknownMedium _ medium => medium.isWritable
    | .badDepth requested => requested.isWritable
    | _ => true
  if isWritable then e else .tooManyDigits

end Error
end Reshape
