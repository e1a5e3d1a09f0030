import Reshape.Error

/-!
This module contains what a run yields: the events that it reported, in their order, and its value
or the failure that ended it. Outcomes form a lawful monad whose binding joins the reports.
-/

namespace Reshape

inductive Event where
  /-- A value had to make way for an object, so that the rest of a destination could be reached. -/
  | overwrote (typeName key destination : String)
  | running (op : Op) (record depth : Nat)
  | invoking (name : String) (depth : Nat)
  deriving DecidableEq

namespace Event

def isWarning : Event → Bool
  | .overwrote _ _ _ => true
  | _ => false

def message : Event → String
  | .overwrote typeName key destination =>
    "Overwriting " ++ typeName ++ " at '" ++ key ++ "' with an object to reach '" ++
      destination ++ "'."
  | .running op record depth =>
    "Running " ++ op.key ++ " from record " ++ intString record ++ " at depth " ++
      intString depth ++ "."
  | .invoking name depth =>
    "Invoking procedure '" ++ name ++ "' at depth " ++ intString depth ++ "."

end Event

structure Outcome (α : Type) where
  log : List Event
  result : Except Error α

namespace Outcome

variable {α β : Type}

@[ext]
theorem ext {x y : Outcome α} (hl : x.log = y.log) (hr : x.result = y.result) : x = y := by
  cases x
  cases y
  simp_all

def ok (a : α) : Outcome α := ⟨[], .ok a⟩

def fail (e : Error) : Outcome α := ⟨[], .error e⟩

def note (event : Event) : Outcome Unit := ⟨[event], .ok ()⟩

def ofExcept (result : Except Error α) : Outcome α := ⟨[], result⟩

/--
Continues with the value of a run. The report of the second run follows that of the first.
-/
def bind (x : Outcome α) (f : α → Outcome β) : Outcome β :=
  match x.result with
  | .error e => ⟨x.log, .error e⟩
  | .ok a => ⟨x.log ++ (f a).log, (f a).result⟩

instance : Monad Outcome where
  pure := ok
  bind := bind

theorem bind_eq (x : Outcome α) (f : α → Outcome β) : (x >>= f) = bind x f := rfl

@[simp]
theorem bind_ok (a : α) (f : α → Outcome β) : bind (ok a) f = f a := by
  simp [bind, ok]

theorem bind_of_error {x : Outcome α} {e : Error} (h : x.result = .error e) (f : α → Outcome β)
    : x >>= f = ⟨x.log, .error e⟩ := by
  rw [bind_eq, bind, h]

theorem bind_of_ok {x : Outcome α} {a : α} (h : x.result = .ok a) (f : α → Outcome β)
    : x >>= f = ⟨x.log ++ (f a).log, (f a).result⟩ := by
  rw [bind_eq, bind, h]

@[simp]
theorem bind_fail (e : Error) (f : α → Outcome β) : bind (fail e) f = fail e := rfl

instance : LawfulMonad Outcome := LawfulMonad.mk' Outcome
  (by
    intro α x
    obtain ⟨log, result⟩ := x
    cases result <;> simp [Functor.map, bind, ok])
  (by
    intro α β a f
    exact bind_ok a f)
  (by
    intro α β γ x f g
    obtain ⟨log, result⟩ := x
    cases result with
    | error e => rfl
    | ok a =>
      simp only [bind_eq, bind]
      cases (f a).result <;> simp)

instance : MonadLift (Except Error) Outcome := ⟨ofExcept⟩

instance : MonadExcept Error Outcome where
  throw := fail
  tryCatch x handle :=
    match x.result with
    | .ok _ => x
    | .error e => ⟨x.log ++ (handle e).log, (handle e).result⟩

end Outcome
end Reshape
