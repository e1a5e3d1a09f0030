import Reshape.Assoc
import Reshape.Number.Binary64
import Reshape.Path

/-!
This module contains the values that operations reshape: plain data, the containers that paths
descend into, and the few further things that operation records and procedures may hold. A value is a
tree, so no two places of it share a container, and the keys of objects are scalars.
-/

namespace Reshape

/--
The keys that an object may have. Paths reach the text keys alone.
-/
inductive Key where
  | null
  | bool (b : Bool)
  | int (n : Int)
  | float (x : Binary64)
  | str (s : String)
  deriving DecidableEq, Inhabited

/--
A value. The containers are `list` and `object`; every other value is a leaf for paths.
-/
inductive Value where
  | null
  | bool (b : Bool)
  | int (n : Int)
  | float (x : Binary64)
  | str (s : String)
  | list (items : List Value)
  /-- Fields in the order of their insertion. -/
  | object (fields : List (Key × Value))
  | tuple (items : List Value)
  /-- A function, known by the name under which the host provides it. -/
  | function (name : String)
  | path (path : Path)
  /-- What stands for the content of an absent field. -/
  | missing
  /-- An operation set, known by its handle, with the records that it had when it was taken up. -/
  | operationSet (handle : Nat) (records : List Value)
  deriving Inhabited

def Key.toValue : Key → Value
  | .null => .null
  | .bool b => .bool b
  | .int n => .int n
  | .float x => .float x
  | .str s => .str s

def Value.toKey? : Value → Option Key
  | .null => some .null
  | .bool b => some (.bool b)
  | .int n => some (.int n)
  | .float x => some (.float x)
  | .str s => some (.str s)
  | _ => none

namespace Value

mutual

/--
Structural equality.
-/
def beq : Value → Value → Bool
  | .null, .null => true
  | .bool a, .bool b => a == b
  | .int a, .int b => a == b
  | .float a, .float b => a == b
  | .str a, .str b => a == b
  | .list as, .list bs => beqItems as bs
  | .object as, .object bs => beqFields as bs
  | .tuple as, .tuple bs => beqItems as bs
  | .function a, .function b => a == b
  | .path a, .path b => a == b
  | .missing, .missing => true
  | .operationSet h as, .operationSet h' bs => h == h' && beqItems as bs
  | _, _ => false

@[inherit_doc beq]
def beqItems : List Value → List Value → Bool
  | [], [] => true
  | a :: as, b :: bs => beq a b && beqItems as bs
  | _, _ => false

@[inherit_doc beq]
def beqFields : List (Key × Value) → List (Key × Value) → Bool
  | [], [] => true
  | (k, a) :: as, (k', b) :: bs => k == k' && beq a b && beqFields as bs
  | _, _ => false

end

mutual

theorem eq_of_beq : ∀ {a b : Value}, beq a b = true → a = b
  | .null, b | .bool _, b | .int _, b | .float _, b | .str _, b | .function _, b | .path _, b
  | .missing, b => by cases b <;> simp [beq]
  | .list as, b => by
    cases b <;> simp only [beq, list.injEq, reduceCtorEq, Bool.false_eq_true, imp_self]
    exact eq_of_beqItems
  | .tuple as, b => by
    cases b <;> simp only [beq, tuple.injEq, reduceCtorEq, Bool.false_eq_true, imp_self]
    exact eq_of_beqItems
  | .object as, b => by
    cases b <;> simp only [beq, object.injEq, reduceCtorEq, Bool.false_eq_true, imp_self]
    exact eq_of_beqFields
  | .operationSet h as, b => by
    cases b <;> simp only [beq, operationSet.injEq, reduceCtorEq, Bool.false_eq_true, imp_self,
      Bool.and_eq_true, beq_iff_eq]
    exact fun h => ⟨h.1, eq_of_beqItems h.2⟩

theorem eq_of_beqItems : ∀ {as bs : List Value}, beqItems as bs = true → as = bs
  | [], bs => by cases bs <;> simp [beqItems]
  | a :: as, [] => by simp [beqItems]
  | a :: as, b :: bs => by
    simp only [beqItems, Bool.and_eq_true, List.cons.injEq]
    exact fun h => ⟨eq_of_beq h.1, eq_of_beqItems h.2⟩

theorem eq_of_beqFields : ∀ {as bs : List (Key × Value)}, beqFields as bs = true → as = bs
  | [], bs => by cases bs <;> simp [beqFields]
  | _ :: _, [] => by simp [beqFields]
  | (k, a) :: as, (k', b) :: bs => by
    simp only [beqFields, Bool.and_eq_true, List.cons.injEq, Prod.mk.injEq, beq_iff_eq]
    exact fun h => ⟨⟨h.1.1, eq_of_beq h.1.2⟩, eq_of_beqFields h.2⟩

end

mutual

theorem beq_refl : ∀ a : Value, beq a a = true
  | .null | .bool _ | .int _ | .float _ | .str _ | .function _ | .path _ | .missing => by
    simp [beq]
  | .list as | .tuple as => by simp [beq, beqItems_refl as]
  | .object as => by simp [beq, beqFields_refl as]
  | .operationSet _ as => by simp [beq, beqItems_refl as]

theorem beqItems_refl : ∀ as : List Value, beqItems as as = true
  | [] => rfl
  | a :: as => by simp [beqItems, beq_refl a, beqItems_refl as]

theorem beqFields_refl : ∀ as : List (Key × Value), beqFields as as = true
  | [] => rfl
  | (_, a) :: as => by simp [beqFields, beq_refl a, beqFields_refl as]

end

instance : BEq Value := ⟨beq⟩

instance : LawfulBEq Value where
  eq_of_beq := eq_of_beq
  rfl := beq_refl _

instance : DecidableEq Value := fun a b =>
  if h : beq a b = true then isTrue (eq_of_beq h)
  else isFalse fun e => h (e ▸ beq_refl a)

def typeName : Value → String
  | .null => "NoneType"
  | .bool _ => "bool"
  | .int _ => "int"
  | .float _ => "float"
  | .str _ => "str"
  | .list _ => "list"
  | .object _ => "dict"
  | .tuple _ => "tuple"
  | .function _ => "function"
  | .path _ => "Path"
  | .missing => "_Missing"
  | .operationSet _ _ => "OperationSet"

def isContainer : Value → Bool
  | .list _ => true
  | .object _ => true
  | _ => false

/--
Whether a value counts as true: numbers other than zero, everything with a part, and functions.
-/
def truthy : Value → Bool
  | .null => false
  | .bool b => b
  | .int n => n != 0
  | .float x => !x.isZero
  | .str s => s != ""
  | .list items => !items.isEmpty
  | .object fields => !fields.isEmpty
  | .tuple items => !items.isEmpty
  | .function _ => true
  | .path p => !p.isRoot
  | .missing => false
  | .operationSet _ records => !records.isEmpty

/--
What a value consists of where it is gone through: characters, items, keys or records. Other values
cannot be gone through.
-/
def items? : Value → Option (List Value)
  | .str s => some (s.toList.map fun c => .str (String.singleton c))
  | .list items => some items
  | .tuple items => some items
  | .object fields => some (fields.map fun field => field.1.toValue)
  | .operationSet _ records => some records
  | _ => none

mutual

/--
The part of a value because of which nothing can be looked up by the value: a list or an object, also
as an item of a tuple.
-/
def unhashable? : Value → Option Value
  | .list items => some (.list items)
  | .object fields => some (.object fields)
  | .tuple items => unhashableItem? items
  | _ => none

def unhashableItem? : List Value → Option Value
  | [] => none
  | item :: items => (unhashable? item).or (unhashableItem? items)

end

/--
A value as a field or slot holds it: what is missing leaves nothing behind.
-/
def orNull : Value → Value
  | .missing => .null
  | v => v

@[simp]
theorem orNull_missing : orNull .missing = .null := rfl

theorem orNull_of_ne {v : Value} (h : v ≠ .missing) : v.orNull = v := by
  cases v with
  | missing => exact absurd rfl h
  | _ => rfl

end Value
end Reshape
