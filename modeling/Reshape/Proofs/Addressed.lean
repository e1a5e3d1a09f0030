import Reshape.Proofs.Contract
import Reshape.Proofs.Provenance

/-!
This module contains the paths that operations address. They are told by the payload alone, and
`reach_of_mem_ofStep` says that the instructions of a step work at no other ones.
-/

namespace Reshape

namespace Value

/--
The paths that a payload lists fields for.
-/
def fieldPaths : Value → List Path
  | .object fields => fields.filterMap fun field =>
    match field.1 with
    | .str name => some ⟨name⟩
    | _ => none
  | _ => []

/--
The paths at which a payload has functions called. A lone function is called at the root.
-/
def callPaths : Value → List Path
  | .function _ => [.root]
  | payload => payload.fieldPaths

theorem callPaths_of_ne {payload : Value} (h : ∀ name, payload ≠ .function name)
    : payload.callPaths = payload.fieldPaths := by
  cases payload with
  | function name => exact absurd rfl (h name)
  | _ => rfl

/--
The paths that a payload lists fields with.
-/
def targetPaths : Value → List Path
  | .object fields => fields.filterMap fun field => (Path.ofValue field.2).toOption
  | _ => []

end Value

/--
The paths that the operation of a step itself addresses. A function and a wrapper that are given
without a path address the root.
-/
def Step.addressed (step : Step) : List Path :=
  match step.op with
  | .unset => ((Instruction.texts? step.payload).getD []).map Path.mk
  | .move => step.payload.fieldPaths ++ step.payload.targetPaths
  | .copy => step.payload.fieldPaths ++ step.payload.targetPaths
  | .wrap =>
    match Wrapper.ofValue step.payload with
    | .ok _ => [.root]
    | .error _ => step.payload.fieldPaths
  | .func => step.payload.callPaths
  | _ => step.payload.fieldPaths

namespace Instruction

/--
The paths at which an instruction works on a value.
-/
def reach : Instruction → List Path
  | .callWhole _ => [.root]
  | instruction => instruction.paths

section Reach

variable {op : Op} {payload : Value} {instruction : Instruction} {path : Path}
variable {instruct : String → Value → Except Error (List Instruction)}

theorem reach_of_perItem (h : instruction ∈ perItem op payload instruct)
    (hpath : path ∈ instruction.reach)
    (hitem : ∀ field v, instruction ∈ orReject (instruct field v) → path = ⟨field⟩)
    : path ∈ payload.fieldPaths := by
  rcases mem_perItem h with ⟨cause, -, rfl⟩ | ⟨fields, field, v, rfl, hfield, hmem⟩
  · cases hpath
  · rw [hitem field v hmem]
    exact List.mem_filterMap.mpr ⟨_, hfield, rfl⟩

theorem reach_of_edit {α : Type} {x : Except Error α} {edit : α → Edit} {field : String}
    (h : instruction ∈ orReject (x >>= fun a => pure [.edit ⟨field⟩ (edit a)]))
    (hpath : path ∈ instruction.reach) : path = ⟨field⟩ := by
  rcases mem_orReject_bind h with ⟨e, -, rfl⟩ | ⟨a, -, hmem⟩
  · cases hpath
  · rw [List.mem_singleton.mp hmem] at hpath
    exact List.mem_singleton.mp hpath

theorem path_of_relocationEnd {keep : Bool} {side : Side} {v : Value}
    (h : relocationEnd keep side v = .ok path) : Path.ofValue v = .ok path := by
  have check (p : Path) (h : relocationEnd.check side p = .ok path) : p = path := by
    unfold relocationEnd.check at h
    split at h
    · cases h
    · cases h
      rfl
  cases v with
  | str s => rw [Path.ofValue, check ⟨s⟩ h]
  | path p => rw [Path.ofValue, check p h]
  | _ => cases h

theorem reach_of_ofRelocation {keep : Bool} (h : instruction ∈ ofRelocation keep payload)
    (hpath : path ∈ instruction.reach) : path ∈ payload.fieldPaths ++ payload.targetPaths := by
  rcases mem_perItem h with ⟨cause, -, rfl⟩ | ⟨fields, field, v, rfl, hfield, hmem⟩
  · cases hpath
  · rcases mem_orReject_lift hmem with ⟨cause, -, rfl⟩ | ⟨source, hsource, hmem⟩
    · cases hpath
    · rcases mem_orReject_lift hmem with ⟨cause, -, rfl⟩ | ⟨target, htarget, hmem⟩
      · cases hpath
      · rw [List.mem_singleton.mp hmem] at hpath
        rw [List.mem_append]
        cases hpath with
        | head =>
          cases path_of_relocationEnd hsource
          exact Or.inl (List.mem_filterMap.mpr ⟨_, hfield, rfl⟩)
        | tail _ hpath =>
          rw [List.mem_singleton.mp hpath]
          refine Or.inr (List.mem_filterMap.mpr ⟨_, hfield, ?_⟩)
          rw [path_of_relocationEnd htarget]
          rfl

theorem reach_of_ofFunc (h : instruction ∈ ofFunc payload) (hpath : path ∈ instruction.reach)
    : path ∈ payload.callPaths := by
  unfold ofFunc at h
  split at h
  · rw [List.mem_singleton.mp h] at hpath
    exact hpath
  · next hfunction =>
    rw [Value.callPaths_of_ne hfunction]
    apply reach_of_perItem h hpath
    intro field v hmem
    split at hmem
    · rw [List.mem_singleton.mp hmem] at hpath
      exact List.mem_singleton.mp hpath
    · rw [List.mem_singleton.mp hmem] at hpath
      cases hpath

theorem reach_of_ofProcedures (h : instruction ∈ ofProcedures op payload)
    (hpath : path ∈ instruction.reach) : path ∈ payload.fieldPaths := by
  apply reach_of_perItem h hpath
  intro field v hmem
  split at hmem
  · rw [orReject, List.mem_append, List.mem_map, List.mem_map] at hmem
    rcases hmem with ⟨name, -, rfl⟩ | ⟨name, -, rfl⟩
    · cases hpath
    · exact List.mem_singleton.mp hpath
  · rw [List.mem_singleton.mp hmem] at hpath
    cases hpath

end Reach

/--
The instructions of a step work at the paths that its operation addresses.
-/
theorem reach_of_mem_ofStep {step : Step} {instruction : Instruction} {path : Path}
    (h : instruction ∈ ofStep step) (hpath : path ∈ instruction.reach) : path ∈ step.addressed := by
  unfold ofStep at h
  unfold Step.addressed
  cases hop : step.op with
  | set =>
    rw [hop] at h
    apply reach_of_perItem h hpath
    intro field v hmem
    rw [List.mem_singleton.mp hmem] at hpath
    exact List.mem_singleton.mp hpath
  | unset =>
    rw [hop] at h
    dsimp only at h ⊢
    unfold ofUnset at h
    split at h
    · next fields htexts =>
      obtain ⟨field, hfield, rfl⟩ := List.mem_map.mp h
      rw [htexts, List.mem_singleton.mp hpath]
      exact List.mem_map_of_mem hfield
    · rw [List.mem_singleton.mp h] at hpath
      cases hpath
  | move =>
    rw [hop] at h
    exact reach_of_ofRelocation h hpath
  | copy =>
    rw [hop] at h
    exact reach_of_ofRelocation h hpath
  | cast =>
    rw [hop] at h
    apply reach_of_perItem h hpath
    intro field v hmem
    exact reach_of_edit hmem hpath
  | map =>
    rw [hop] at h
    apply reach_of_perItem h hpath
    intro field v hmem
    exact reach_of_edit hmem hpath
  | wrap =>
    rw [hop] at h
    dsimp only at h ⊢
    unfold ofWrap at h
    cases hwrapper : Wrapper.ofValue step.payload with
    | ok wrapper =>
      rw [hwrapper] at h
      rw [List.mem_singleton.mp h] at hpath
      exact hpath
    | error cause =>
      rw [hwrapper] at h
      apply reach_of_perItem h hpath
      intro field v hmem
      exact reach_of_edit hmem hpath
  | func =>
    rw [hop] at h
    exact reach_of_ofFunc h hpath
  | procedure =>
    rw [hop] at h
    exact reach_of_ofProcedures h hpath
  | model =>
    rw [hop] at h
    exact reach_of_ofProcedures h hpath

end Instruction

end Reshape
