import Reshape.Proofs.Recording
import Reshape.Proofs.Simulation
import Reshape.Workspace

/-!
This module contains the agreement of runs in place with runs on a copy: both report the same events
and come to the same value or failure. So what is proved of the outcome of one kind of run holds for
both.
-/

namespace Reshape

namespace Passage

/--
A walk that keeps a journal comes to the same end, with the same report, as one that does not.
-/
def Records (α : Type) (x : Recorder α) (y : Outcome α) : Prop :=
  ∀ journal, (x.run.run journal).1 = y.result ∧ (x.run.run journal).2.log = journal.log ++ y.log

theorem records_simulation : Simulation Records where
  pure a := by
    intro journal
    exact ⟨rfl, (List.append_nil _).symm⟩
  bind := by
    intro α β x y f g hx hf journal
    have hx := hx journal
    rw [run_bind, Outcome.bind_eq, Outcome.bind]
    cases hrun : x.run.run journal with
    | mk r journal' =>
      rw [hrun] at hx
      obtain ⟨hresult, hlog⟩ := hx
      cases r with
      | error e =>
        rw [← hresult]
        exact ⟨rfl, hlog⟩
      | ok a =>
        obtain ⟨hresult', hlog'⟩ := hf a journal'
        rw [← hresult]
        refine ⟨hresult', ?_⟩
        rw [← List.append_assoc, ← hlog]
        exact hlog'
  refusal := by
    intro α journal
    exact ⟨rfl, (List.append_nil _).symm⟩

theorem visit_records (change : Value → Passage) (address : Address) (v : Value)
    : Records Value (visit change address v) (change v).outcome := by
  intro journal
  unfold visit outcome result
  cases hfailure : (change v).failure with
  | none =>
    simp only [hfailure]
    exact ⟨rfl, rfl⟩
  | some e =>
    simp only [hfailure]
    exact ⟨rfl, rfl⟩

theorem outcome_along (path : Path) (change : Value → Passage) (v : Value)
    : (along path change v).outcome = applyAt path (fun _ w => (change w).outcome) v := by
  have h := records_simulation.applyAt path (visit_records change) v ⟨[], []⟩
  unfold along
  cases hrun : (applyAt path (visit change) v).run.run ⟨[], []⟩ with
  | mk r journal =>
    rw [hrun] at h
    cases r with
    | ok new => exact Outcome.ext h.2 h.1
    | error e => exact Outcome.ext h.2 h.1

theorem andThen_of_failure {x : Passage} {e : Error} (h : x.failure = some e)
    (next : Value → Passage) : x.andThen next = x := by
  unfold andThen
  rw [h]

theorem andThen_of_none {x : Passage} (h : x.failure = none) (next : Value → Passage)
    : x.andThen next = ⟨x.log ++ (next x.value).log, (next x.value).value,
        fun a => (x.moved a).follow (next x.value).moved, (next x.value).failure⟩ := by
  unfold andThen
  rw [h]

theorem outcome_andThen (x : Passage) (next : Value → Passage)
    : (x.andThen next).outcome = x.outcome >>= fun v => (next v).outcome := by
  unfold andThen outcome result
  rw [Outcome.bind_eq, Outcome.bind]
  cases hfailure : x.failure with
  | none => rfl
  | some e => simp only [hfailure]

theorem outcome_foldl {α : Type} (next : α → Value → Passage) (items : List α) (x : Passage)
    : (items.foldl (fun x item => x.andThen (next item)) x).outcome =
        x.outcome >>= fun v => items.foldlM (fun v item => (next item v).outcome) v := by
  induction items generalizing x with
  | nil => exact (bind_pure x.outcome).symm
  | cons item items ih =>
    rw [List.foldl_cons, ih, outcome_andThen, bind_assoc]
    rfl

theorem outcome_ofPresent (change : Value → Passage) (v : Value)
    : (ofPresent change v).outcome = skipMissing (fun w => (change w).outcome) v := by
  cases v <;> rfl

end Passage

theorem Edit.outcome_inPlace (edit : Edit) (v : Value)
    : (edit.inPlace v).outcome = Outcome.ofExcept (edit.apply v) := by
  unfold Edit.inPlace
  cases edit.apply v <;> rfl

namespace InPlaceHost

variable (host : InPlaceHost) (procedure? : String → Option (List Step))

theorem outcome_change (function : String) (v : Value)
    : (host.change function v).outcome =
        Surroundings.callHost ⟨host.toHost, procedure?⟩ function v := by
  unfold change Surroundings.callHost
  cases host.call function v <;> rfl

theorem outcome_runInstruction (invoke : String → Value → Passage) (v : Value)
    (instruction : Instruction)
    : (host.runInstruction procedure? invoke v instruction).outcome =
        Surroundings.runInstruction ⟨host.toHost, procedure?⟩
          (fun name w => (invoke name w).outcome) v instruction := by
  cases instruction with
  | edit path edit =>
    rw [runInstruction, Passage.outcome_along]
    simp only [Edit.outcome_inPlace]
    rfl
  | relocate keep source target => rfl
  | callWhole function => apply outcome_change
  | call path function =>
    rw [runInstruction, Passage.outcome_along]
    simp only [Passage.outcome_ofPresent, outcome_change host procedure?]
    rfl
  | require name =>
    unfold runInstruction Surroundings.runInstruction
    dsimp only
    cases procedure? name <;> rfl
  | invoke path name =>
    rw [runInstruction, Passage.outcome_along]
    simp only [Passage.outcome_ofPresent]
    rfl
  | reject cause => rfl

theorem outcome_runStep (invoke : String → Value → Passage) (depth : Nat) (v : Value) (step : Step)
    : (host.runStep procedure? invoke depth v step).outcome =
        Surroundings.runStep ⟨host.toHost, procedure?⟩ (fun name w => (invoke name w).outcome)
          depth v step := by
  rw [runStep, Passage.outcome_foldl fun instruction v =>
    host.runInstruction procedure? invoke v instruction]
  simp only [outcome_runInstruction]
  rfl

theorem outcome_runSteps (invoke : String → Value → Passage) (depth : Nat) (steps : List Step)
    (v : Value)
    : (host.runSteps procedure? invoke depth steps v).outcome =
        Surroundings.runSteps ⟨host.toHost, procedure?⟩ (fun name w => (invoke name w).outcome)
          depth steps v := by
  rw [runSteps, Passage.outcome_foldl fun step v => host.runStep procedure? invoke depth v step]
  simp only [outcome_runStep]
  exact pure_bind v _

theorem outcome_invoke (remaining depth : Nat) (name : String) (v : Value)
    : (host.invoke procedure? remaining depth name v).outcome =
        Surroundings.invoke ⟨host.toHost, procedure?⟩ remaining depth name v := by
  induction remaining generalizing depth name v with
  | zero => rfl
  | succ remaining ih =>
    rw [invoke, Passage.outcome_andThen]
    simp only [outcome_runSteps, ih]
    rfl

theorem outcome_process (bound : Nat) (steps : List Step) (v : Value)
    : (host.process procedure? bound steps v).outcome =
        Surroundings.process ⟨host.toHost, procedure?⟩ bound steps v := by
  rw [process, outcome_runSteps]
  simp only [outcome_invoke]
  rfl

end InPlaceHost

/--
The outcome of a set does not depend on whether it copies its input.
-/
theorem Workspace.outcome_processSet (host : InPlaceHost) (store : Store) (set : OperationSet)
    (v : Value)
    : (processSet host store set v).outcome =
        Surroundings.process ⟨host.toHost, store.procedureSteps? set.registry⟩ set.maxDepth
          set.steps v := by
  unfold processSet
  dsimp only
  split
  · rfl
  · apply InPlaceHost.outcome_process

end Reshape
