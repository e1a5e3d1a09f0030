import Reshape.Instruction
import Reshape.Proofs.Failure
import Reshape.Proofs.Records

/-!
This module contains what the instructions of a step arise from: `arises_of_mem_ofStep` tells for
every kind of instruction which operation and which part of the payload it stands for. What holds of
all instructions of a step is read off from it, without a look at how payloads are gone through.
-/

namespace Reshape

theorem mem_of_mapM {ε α β : Type} {f : α → Except ε β} {as : List α} {bs : List β} {b : β}
    (h : as.mapM f = .ok bs) (hb : b ∈ bs) : ∃ a ∈ as, f a = .ok b := by
  induction as generalizing bs with
  | nil =>
    cases h
    cases hb
  | cons a as ih =>
    rw [List.mapM_cons, except_bind_eq_ok_iff] at h
    obtain ⟨first, hfirst, h⟩ := h
    rw [except_bind_eq_ok_iff] at h
    obtain ⟨rest, hrest, h⟩ := h
    cases h
    rw [List.mem_cons] at hb
    rcases hb with rfl | hb
    · exact ⟨a, List.mem_cons_self, hfirst⟩
    · obtain ⟨a', ha', hb⟩ := ih hrest hb
      exact ⟨a', List.mem_cons_of_mem _ ha', hb⟩

/--
Whether the payload of a step lists a field with a value.
-/
def Step.Lists (step : Step) (field : String) (v : Value) : Prop :=
  ∃ fields, step.payload = .object fields ∧ (.str field, v) ∈ fields

/--
Whether a failure is about the shape of a payload, so that its message tells of types alone.
-/
def OperationError.isShape : OperationError → Bool
  | .badCast _ => false
  | .unregistered _ => false
  | .tooDeep _ _ => false
  | _ => true

namespace Instruction

inductive Arises (step : Step) : Instruction → Prop where
  | put {field : String} {v : Value} (h : step.Lists field v) :
    Arises step (.edit ⟨field⟩ (.put v))
  | erase (path : Path) : Arises step (.edit path .erase)
  | cast (path : Path) (cast : Cast) : Arises step (.edit path (.cast cast))
  | substitute {field : String} {v : Value} {table : Table} (h : step.Lists field v)
    (htable : Table.ofValue v = .ok table) : Arises step (.edit ⟨field⟩ (.substitute table))
  | wrap (path : Path) (wrapper : Wrapper) : Arises step (.edit path (.wrap wrapper))
  | relocate (keep : Bool) (source target : Path) : Arises step (.relocate keep source target)
  | callWhole {function : String} (hop : step.op = .func)
    (h : step.payload = .function function) : Arises step (.callWhole function)
  | call {field function : String} (hop : step.op = .func)
    (h : step.Lists field (.function function)) : Arises step (.call ⟨field⟩ function)
  | require (name : String) (hop : step.op = .procedure ∨ step.op = .model) :
    Arises step (.require name)
  | invoke (path : Path) (name : String) (hop : step.op = .procedure ∨ step.op = .model) :
    Arises step (.invoke path name)
  | rejectShape {cause : OperationError} (h : cause.isShape = true) :
    Arises step (.reject (.operation cause))
  | rejectCast {field : String} {v : Value} (h : step.Lists field v) :
    Arises step (.reject (.operation (.badCast v)))
  | rejectTable {field : String} {v : Value} {e : Error} (h : step.Lists field v)
    (htable : Table.ofValue v = .error e) : Arises step (.reject e)

section Items

variable {op : Op} {payload : Value}

theorem mem_orReject_bind {α : Type} {x : Except Error α}
    {f : α → Except Error (List Instruction)} {instruction : Instruction}
    (h : instruction ∈ orReject (x >>= f))
    : (∃ e, x = .error e ∧ instruction = .reject e) ∨
        ∃ a, x = .ok a ∧ instruction ∈ orReject (f a) := by
  cases x with
  | error e => exact Or.inl ⟨e, rfl, List.mem_singleton.mp h⟩
  | ok a => exact Or.inr ⟨a, rfl, h⟩

theorem mem_orReject_lift {α : Type} {x : Except OperationError α}
    {f : α → Except Error (List Instruction)} {instruction : Instruction}
    (h : instruction ∈ orReject (liftM x >>= f))
    : (∃ cause, x = .error cause ∧ instruction = .reject (.operation cause)) ∨
        ∃ a, x = .ok a ∧ instruction ∈ orReject (f a) := by
  cases x with
  | error cause => exact Or.inl ⟨cause, rfl, List.mem_singleton.mp h⟩
  | ok a => exact Or.inr ⟨a, rfl, h⟩

theorem items_fails (op : Op) (payload : Value)
    : FailsOnly (fun cause => cause.isShape = true) (items op payload) := by
  unfold items
  split
  · apply FailsOnly.mapM
    intro field _
    split
    · apply FailsOnly.ok
    · exact FailsOnly.error rfl
  · exact FailsOnly.error rfl

theorem listed_of_items {named : List (String × Value)} {item : String × Value}
    (h : items op payload = .ok named) (hitem : item ∈ named)
    : ∃ fields, payload = .object fields ∧ (.str item.1, item.2) ∈ fields := by
  unfold items at h
  split at h
  · next fields =>
    obtain ⟨field, hfield, hnamed⟩ := mem_of_mapM h hitem
    refine ⟨fields, rfl, ?_⟩
    split at hnamed
    · next name hname =>
      cases hnamed
      dsimp only
      rw [← hname]
      exact hfield
    · cases hnamed
  · cases h

/--
An instruction of a payload that lists fields is one of an item or rejects the payload.
-/
theorem mem_perItem {instruct : String → Value → Except Error (List Instruction)}
    {instruction : Instruction} (h : instruction ∈ perItem op payload instruct)
    : (∃ cause, cause.isShape = true ∧ instruction = .reject (.operation cause)) ∨
        ∃ fields field v, payload = .object fields ∧ (.str field, v) ∈ fields ∧
          instruction ∈ orReject (instruct field v) := by
  unfold perItem at h
  rcases mem_orReject_lift h with ⟨cause, hcause, rfl⟩ | ⟨named, hitems, h⟩
  · exact Or.inl ⟨cause, items_fails op payload cause hcause, rfl⟩
  · obtain ⟨item, hitem, hmem⟩ := List.mem_flatMap.mp h
    obtain ⟨fields, hpayload, hfield⟩ := listed_of_items hitems hitem
    exact Or.inr ⟨fields, item.1, item.2, hpayload, hfield, hmem⟩

end Items

section Ends

theorem relocationEnd_fails (keep : Bool) (side : Side) (v : Value)
    : FailsOnly (fun cause => cause.isShape = true) (relocationEnd keep side v) := by
  have check (path : Path)
      : FailsOnly (fun cause => cause.isShape = true) (relocationEnd.check side path) := by
    unfold relocationEnd.check
    split
    · exact FailsOnly.error rfl
    · apply FailsOnly.ok
  cases v with
  | str s => apply check
  | path p => apply check
  | _ => exact FailsOnly.error rfl

theorem wrapper_fails (v : Value)
    : FailsOnly (fun cause => cause.isShape = true) (Wrapper.ofValue v) := by
  cases v with
  | str s => apply FailsOnly.ok
  | list items => apply FailsOnly.ok
  | _ => exact FailsOnly.error rfl

theorem cast_fails (v : Value) : FailsOnly (fun cause => cause = .badCast v) (Cast.ofValue v) := by
  unfold Cast.ofValue
  split
  · apply FailsOnly.ok
  · split
    · apply FailsOnly.ok
    · split
      · apply FailsOnly.ok
      · exact FailsOnly.error rfl

/--
A value is no table if it is no object, or if one of its keys has too many digits.
-/
theorem table_fails (v : Value)
    : FailsOnly (fun e => e = .operation (.badTable v) ∨ e = .tooManyDigits ∧
        ∃ fields k w, v = .object fields ∧ (k, w) ∈ fields ∧ k.toValue.isWritable = false)
        (Table.ofValue v) := by
  cases v with
  | object fields =>
    apply FailsOnly.bind
    · apply FailsOnly.mapM
      intro field hfield
      apply FailsOnly.bind
      · refine (Value.toText_fails field.1.toValue).mono ?_
        rintro e ⟨rfl, hlong⟩
        exact Or.inr ⟨rfl, fields, field.1, field.2, rfl, hfield, hlong⟩
      · intro s
        apply FailsOnly.ok
    · intro entries
      apply FailsOnly.ok
  | _ => exact FailsOnly.error (Or.inl rfl)

end Ends

section Steps

variable {step : Step} {instruction : Instruction}

theorem arises_of_perItem {op : Op} {instruct : String → Value → Except Error (List Instruction)}
    (h : instruction ∈ perItem op step.payload instruct)
    (hitem : ∀ field v, step.Lists field v → instruction ∈ orReject (instruct field v) →
      instruction.Arises step)
    : instruction.Arises step := by
  rcases mem_perItem h with ⟨cause, hcause, rfl⟩ | ⟨fields, field, v, hpayload, hfield, hmem⟩
  · exact .rejectShape hcause
  · exact hitem field v ⟨fields, hpayload, hfield⟩ hmem

theorem arises_of_ofRelocation {keep : Bool} (h : instruction ∈ ofRelocation keep step.payload)
    : instruction.Arises step := by
  apply arises_of_perItem h
  intro field v _ hmem
  rcases mem_orReject_lift hmem with ⟨cause, hcause, rfl⟩ | ⟨source, -, hmem⟩
  · exact .rejectShape (relocationEnd_fails _ _ _ cause hcause)
  · rcases mem_orReject_lift hmem with ⟨cause, hcause, rfl⟩ | ⟨target, -, hmem⟩
    · exact .rejectShape (relocationEnd_fails _ _ _ cause hcause)
    · rw [List.mem_singleton.mp hmem]
      exact .relocate keep source target

theorem arises_of_ofUnset (h : instruction ∈ ofUnset step.payload) : instruction.Arises step := by
  unfold ofUnset at h
  split at h
  · obtain ⟨field, -, rfl⟩ := List.mem_map.mp h
    exact .erase _
  · rw [List.mem_singleton.mp h]
    exact .rejectShape rfl

theorem arises_of_ofWrap (h : instruction ∈ ofWrap step.payload) : instruction.Arises step := by
  unfold ofWrap at h
  split at h
  · rw [List.mem_singleton.mp h]
    exact .wrap _ _
  · apply arises_of_perItem h
    intro field v _ hmem
    rcases mem_orReject_lift hmem with ⟨cause, hcause, rfl⟩ | ⟨wrapper, -, hmem⟩
    · exact .rejectShape (wrapper_fails v cause hcause)
    · rw [List.mem_singleton.mp hmem]
      exact .wrap _ wrapper

theorem arises_of_ofFunc (hop : step.op = .func) (h : instruction ∈ ofFunc step.payload)
    : instruction.Arises step := by
  unfold ofFunc at h
  split at h
  · next function hpayload =>
    rw [List.mem_singleton.mp h]
    exact .callWhole hop hpayload
  · apply arises_of_perItem h
    intro field v hlists hmem
    split at hmem
    · rw [List.mem_singleton.mp hmem]
      exact .call hop hlists
    · rw [List.mem_singleton.mp hmem]
      exact .rejectShape rfl

theorem arises_of_ofProcedures {op : Op} (hop : step.op = .procedure ∨ step.op = .model)
    (h : instruction ∈ ofProcedures op step.payload) : instruction.Arises step := by
  apply arises_of_perItem h
  intro field v _ hmem
  split at hmem
  · rw [orReject, List.mem_append, List.mem_map, List.mem_map] at hmem
    rcases hmem with ⟨name, -, rfl⟩ | ⟨name, -, rfl⟩
    · exact .require name hop
    · exact .invoke _ name hop
  · rw [List.mem_singleton.mp hmem]
    exact .rejectShape rfl

theorem arises_of_mem_ofStep (h : instruction ∈ ofStep step) : instruction.Arises step := by
  unfold ofStep at h
  cases hop : step.op with
  | set =>
    rw [hop] at h
    apply arises_of_perItem h
    intro field v hlists hmem
    rw [List.mem_singleton.mp hmem]
    exact .put hlists
  | unset =>
    rw [hop] at h
    exact arises_of_ofUnset h
  | move =>
    rw [hop] at h
    exact arises_of_ofRelocation h
  | copy =>
    rw [hop] at h
    exact arises_of_ofRelocation h
  | cast =>
    rw [hop] at h
    apply arises_of_perItem h
    intro field v hlists hmem
    rcases mem_orReject_lift hmem with ⟨cause, hcause, rfl⟩ | ⟨cast, -, hmem⟩
    · rw [cast_fails v cause hcause]
      exact .rejectCast hlists
    · rw [List.mem_singleton.mp hmem]
      exact .cast _ cast
  | map =>
    rw [hop] at h
    apply arises_of_perItem h
    intro field v hlists hmem
    rcases mem_orReject_bind hmem with ⟨e, htable, rfl⟩ | ⟨table, htable, hmem⟩
    · exact .rejectTable hlists htable
    · rw [List.mem_singleton.mp hmem]
      exact .substitute hlists htable
  | wrap =>
    rw [hop] at h
    exact arises_of_ofWrap h
  | func =>
    rw [hop] at h
    exact arises_of_ofFunc hop h
  | procedure =>
    rw [hop] at h
    exact arises_of_ofProcedures (Or.inl hop) h
  | model =>
    rw [hop] at h
    exact arises_of_ofProcedures (Or.inr hop) h

theorem ofStep_of_invokes (hop : step.op = .procedure ∨ step.op = .model)
    : ofStep step = ofProcedures step.op step.payload := by
  unfold ofStep
  rcases hop with hop | hop
  · rw [hop]
  · rw [hop]

end Steps

end Instruction
end Reshape
