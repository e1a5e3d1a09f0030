import Reshape.Proofs.Provenance
import Reshape.Proofs.Simulation
import Reshape.Run

/-!
This module contains the runs that procedures have no part in: they report warnings alone and do not
fail because of nesting. A relation between runs that respects sequencing, and in which quiet runs are
related to themselves, holds of all runs whose invocations are related.
-/

namespace Reshape

/--
Whether a failure is that of procedures that nest too deep.
-/
def Error.isNesting : Error → Bool
  | .operation (.tooDeep _ _) => true
  | _ => false

abbrev Plain {α : Type} (x : Except Error α) : Prop :=
  FailsOnly (fun e => e.isNesting = false) x

/--
A run that reports warnings alone and does not fail because of nesting.
-/
structure Quiet {α : Type} (x : Outcome α) : Prop where
  log : ∀ event ∈ x.log, event.isWarning = true
  failure : Plain x.result

theorem FailsOnly.plain {α : Type} {q : Error → Prop} {x : Except Error α}
    (h : FailsOnly (fun e => e = .tooManyDigits ∧ q e) x) : Plain x := by
  intro e he
  rw [(h e he).1]
  rfl

theorem quiet_ofExcept {α : Type} {x : Except Error α} (h : Plain x) : Quiet (Outcome.ofExcept x) where
  log := by
    intro event hevent
    cases hevent
  failure := h

section Relocate

theorem Value.warnings_place {new : Value} {destination : String} {segments : List String}
    {v w : Value} {log : List Event} (h : Value.place new destination segments v = .ok (w, log))
    : ∀ event ∈ log, event.isWarning = true := by
  induction segments generalizing v w log with
  | nil =>
    cases h
    rintro event ⟨⟩
  | cons segment rest ih =>
    cases rest with
    | nil =>
      cases h
      rintro event ⟨⟩
    | cons next rest =>
      rw [Value.place] at h
      dsimp only at h
      split at h
      · cases h
      · split at h
        · cases hplace : Value.place new destination (next :: rest) (v.child segment) with
          | error e =>
            rw [hplace] at h
            cases h
          | ok placed =>
            rw [hplace] at h
            cases h
            exact ih hplace
        · cases h
          intro event hevent
          split at hevent
          · cases hevent
          · rw [List.mem_singleton] at hevent
            rw [hevent]
            rfl

theorem warnings_relocate (keep : Bool) (source target : List String) (root : Value)
    : ∀ event ∈ (relocate keep source target root).log, event.isWarning = true := by
  have stay (v : Value) : ∀ event ∈ (Relocation.stay v).log, event.isWarning = true := by
    rintro event ⟨⟩
  have placed (left : Value) (whole : Value → Value) (v new : Value) (segments : List String)
      : ∀ event ∈ (Relocation.ofPlaced left whole (v.placeAt segments new)).log,
          event.isWarning = true := by
    cases hplace : v.placeAt segments new with
    | error e => rintro event ⟨⟩
    | ok placed => exact Value.warnings_place hplace
  unfold relocate
  split
  · unfold relocateRoot
    split
    · apply stay
    · split
      · apply stay
      · split
        · rintro event ⟨⟩
        · split
          · apply placed
          · apply stay
  · split
    · rintro event ⟨⟩
    · apply stay
    · split
      · apply stay
      · apply placed

theorem quiet_relocate (keep : Bool) (source target : List String) (root : Value)
    : Quiet (relocate keep source target root).outcome where
  log := warnings_relocate keep source target root
  failure := by
    intro e he
    unfold Relocation.outcome Relocation.result at he
    dsimp only at he
    split at he
    · next e' hfailure =>
      cases he
      rw [(relocate_failure keep source target root hfailure).1]
      rfl
    · cases he

end Relocate

theorem OperationError.not_isNesting_of_isShape {cause : OperationError} (h : cause.isShape = true)
    : (Error.operation cause).isNesting = false := by
  cases cause with
  | tooDeep name bound => cases h
  | _ => rfl

/--
No step is rejected because of nesting.
-/
theorem not_isNesting_of_reject {step : Step} {cause : Error}
    (h : .reject cause ∈ Instruction.ofStep step) : cause.isNesting = false := by
  cases Instruction.arises_of_mem_ofStep h with
  | rejectShape hshape => exact OperationError.not_isNesting_of_isShape hshape
  | rejectCast hlists => rfl
  | rejectTable hlists htable =>
    rcases Instruction.table_fails _ _ htable with rfl | ⟨rfl, -⟩
    · rfl
    · rfl

theorem quiet_callHost (s : Surroundings) (function : String) (v : Value)
    : Quiet (s.callHost function v) := by
  unfold Surroundings.callHost
  split
  · exact quiet_ofExcept (FailsOnly.ok _)
  · exact quiet_ofExcept (FailsOnly.error rfl)

/--
A relation between runs that respects what they are made of, procedures apart.
-/
structure RunCongruence (rel : (α : Type) → Outcome α → Outcome α → Prop) : Prop
    extends Simulation rel where
  quiet : ∀ {α : Type} {x : Outcome α}, Quiet x → rel α x x

namespace RunCongruence

variable (s : Surroundings) {rel : (α : Type) → Outcome α → Outcome α → Prop}
variable {invoke invoke' : String → Value → Outcome Value}

theorem runInstruction (cong : RunCongruence rel)
    (hinvoke : ∀ name v, rel _ (invoke name v) (invoke' name v)) {instruction : Instruction}
    (hreject : ∀ cause, instruction = .reject cause → cause.isNesting = false) (v : Value)
    : rel _ (s.runInstruction invoke v instruction) (s.runInstruction invoke' v instruction) := by
  unfold Surroundings.runInstruction
  cases instruction with
  | edit path edit =>
    unfold Edit.applyAt
    apply cong.applyAt
    intro a w
    apply cong.quiet
    apply quiet_ofExcept
    exact (edit.apply_fails w).plain
  | relocate keep source target =>
    apply cong.quiet
    apply quiet_relocate
  | callWhole function =>
    apply cong.quiet
    apply quiet_callHost
  | call path function =>
    apply cong.applyAt
    intro a w
    apply cong.skipMissing
    intro w
    apply cong.quiet
    apply quiet_callHost
  | require name =>
    apply cong.quiet
    dsimp only
    split
    · exact quiet_ofExcept (FailsOnly.ok _)
    · exact quiet_ofExcept (FailsOnly.error rfl)
  | invoke path name =>
    apply cong.applyAt
    intro a w
    apply cong.skipMissing
    apply hinvoke
  | reject cause =>
    apply cong.quiet
    apply quiet_ofExcept
    apply FailsOnly.error
    exact hreject cause rfl

theorem runStep (cong : RunCongruence rel)
    (hinvoke : ∀ name v, rel _ (invoke name v) (invoke' name v)) {depth depth' record : Nat}
    {step : Step}
    (hnote : rel _ (Outcome.note (.running step.op step.record depth))
      (Outcome.note (.running step.op record depth')))
    (v : Value)
    : rel _ (s.runStep invoke depth v step)
        (s.runStep invoke' depth' v { step with record := record }) := by
  apply cong.bind hnote
  intro u
  apply cong.foldlM
  intro instruction hinstruction w
  apply cong.runInstruction s hinvoke
  intro cause heq
  rw [heq] at hinstruction
  exact not_isNesting_of_reject hinstruction

theorem runSteps (cong : RunCongruence rel)
    (hinvoke : ∀ name v, rel _ (invoke name v) (invoke' name v)) {depth depth' : Nat}
    (hnote : ∀ op record, rel _ (Outcome.note (.running op record depth))
      (Outcome.note (.running op record depth')))
    (steps : List Step) (v : Value)
    : rel _ (s.runSteps invoke depth steps v) (s.runSteps invoke' depth' steps v) := by
  apply cong.foldlM
  intro step _ w
  exact cong.runStep s hinvoke (hnote step.op step.record) w

end RunCongruence
end Reshape
