import Mathlib.Control.Monad.Basic
import Reshape.Proofs.InPlace
import Reshape.Proofs.Relabel

/-!
This module contains the invocation of procedures. A run that starts one level deeper, with a bound
that is one greater, is the same run but for the depths that it tells. So an invocation at a path is a
walk with the run of the procedure's set as its visit, which is the main statement,
`processSet_procedure`.
-/

namespace Reshape

def Event.deepen : Event → Event
  | .overwrote typeName key destination => .overwrote typeName key destination
  | .running op record depth => .running op record (depth + 1)
  | .invoking name depth => .invoking name (depth + 1)

def Error.deepen : Error → Error
  | .operation (.tooDeep name bound) => .operation (.tooDeep name (bound + 1))
  | e => e

/--
The same run one level deeper.
-/
def Outcome.deepen {α : Type} (x : Outcome α) : Outcome α :=
  x.relabel Event.deepen Error.deepen

/--
The run of a set as that of a procedure, which is announced and takes place one level deeper.
-/
def Outcome.invoked {α : Type} (name : String) (x : Outcome α) : Outcome α :=
  Outcome.note (.invoking name 1) >>= fun _ => x.deepen

section Deepen

theorem Event.deepen_of_isWarning (event : Event) (h : event.isWarning = true)
    : event.deepen = event := by
  cases event with
  | overwrote typeName key destination => rfl
  | _ => cases h

theorem Error.deepen_of_not_isNesting (e : Error) (h : e.isNesting = false) : e.deepen = e := by
  unfold Error.deepen
  split
  · cases h
  · rfl

theorem deepen_congruence : RunCongruence (Relabelled Event.deepen Error.deepen) :=
  relabelled_congruence Event.deepen_of_isWarning Error.deepen_of_not_isNesting

end Deepen

namespace Surroundings

variable (s : Surroundings)

theorem invoke_deepen (remaining depth : Nat) (name : String) (v : Value)
    : s.invoke remaining (depth + 1) name v = (s.invoke remaining depth name v).deepen := by
  induction remaining generalizing depth name v with
  | zero => rfl
  | succ remaining ih =>
    apply deepen_congruence.bind
    · rfl
    · intro u
      apply deepen_congruence.runSteps
      · apply ih
      · intro op record
        rfl

theorem runSteps_deepen (bound : Nat) (steps : List Step) (v : Value)
    : s.runSteps (s.invoke bound 1) 1 steps v = (s.process bound steps v).deepen := by
  apply deepen_congruence.runSteps
  · intro name w
    apply s.invoke_deepen
  · intro op record
    rfl

theorem invoke_eq_invoked {name : String} {steps : List Step} (h : s.procedure? name = some steps)
    (bound : Nat)
    : s.invoke (bound + 1) 0 name = fun v => (s.process bound steps v).invoked name := by
  funext v
  unfold invoke
  rw [h, Option.getD_some]
  simp only [Nat.zero_add, runSteps_deepen]
  rfl

theorem process_procedure {name : String} {steps : List Step} (h : s.procedure? name = some steps)
    (path : String) (bound : Nat) (v : Value)
    : s.process (bound + 1) [⟨.procedure, .object [(.str path, .str name)], 0⟩] v =
        Outcome.note (.running .procedure 0 0) >>= fun _ =>
          applyAt ⟨path⟩ (fun _ => skipMissing fun w => (s.process bound steps w).invoked name) v := by
  have hinstructions : Instruction.ofStep ⟨.procedure, .object [(.str path, .str name)], 0⟩ =
      [.require name, .invoke ⟨path⟩ name] := rfl
  have hrequire : s.runInstruction (s.invoke (bound + 1) 0) v (.require name) = pure v := by
    unfold runInstruction
    dsimp only
    rw [h]
    rfl
  rw [process, runSteps, List.foldlM_cons, runStep, hinstructions, List.foldlM_cons, hrequire,
    pure_bind, List.foldlM_cons]
  simp only [List.foldlM_nil, bind_pure, runInstruction, s.invoke_eq_invoked h]

end Surroundings

section Traced

/--
The visit that notes a place and then ends as told.
-/
def traced (visit : Value → Outcome Value) (address : Address) (v : Value) : Recording Value := do
  modify (· ++ [(address, v)])
  ExceptT.mk (pure (visit v).result)

/--
The places that a walk visits, with their contents. If a visit fails then it is the last one.
-/
def visited (visit : Value → Outcome Value) (path : Path) (root : Value) : List (Address × Value) :=
  ((applyAt path (traced visit) root).run.run []).2

def SameResult (α : Type) (x : Recording α) (y : Outcome α) : Prop :=
  ∀ log, (x.run.run log).1 = y.result

def SamePlaces (g : Error → Error) (α : Type) (x y : Recording α) : Prop :=
  ∀ log, y.run.run log = (((x.run.run log).1).mapError g, (x.run.run log).2)

theorem sameResult_simulation : Simulation SameResult where
  pure a := by
    intro log
    rfl
  bind := by
    intro α β x y f k hx hf log
    have hx := hx log
    rw [run_bind]
    cases hrun : x.run.run log with
    | mk r log' =>
      rw [hrun] at hx
      cases r with
      | error e => rw [Outcome.bind_of_error hx.symm]
      | ok a =>
        rw [Outcome.bind_of_ok hx.symm]
        exact hf a log'
  refusal := by
    intro α log
    rfl

theorem samePlaces_simulation {g : Error → Error} (hg : g .tooManyDigits = .tooManyDigits)
    : Simulation (SamePlaces g) where
  pure a := by
    intro log
    rfl
  bind := by
    intro α β x y f k hx hf log
    rw [run_bind, run_bind, hx log]
    cases x.run.run log with
    | mk r log' =>
      cases r with
      | error e => rfl
      | ok a => exact hf a log'
  refusal := by
    intro α log
    show (Except.error Error.tooManyDigits, log) = (Except.error (g .tooManyDigits), log)
    rw [hg]

variable {visit visit' : Value → Outcome Value}

theorem run_traced (visit : Value → Outcome Value) (path : Path) (root : Value)
    : (applyAt path (traced visit) root).run.run [] =
        ((applyAt path (fun _ => visit) root).result, visited visit path root) := by
  have h : SameResult Value (applyAt path (traced visit) root)
      (applyAt path (fun _ => visit) root) := by
    apply sameResult_simulation.applyAt
    intro a v log
    rfl
  rw [← h []]
  rfl

/--
Walks whose visits end alike end alike, and at the same place.
-/
theorem walk_ends_alike {g : Error → Error} (hg : g .tooManyDigits = .tooManyDigits)
    (h : ∀ w, (visit' w).result = (visit w).result.mapError g) (path : Path) (root : Value)
    : (applyAt path (fun _ => visit') root).result =
          (applyAt path (fun _ => visit) root).result.mapError g ∧
        visited visit' path root = visited visit path root := by
  have hplaces : SamePlaces g Value (applyAt path (traced visit) root)
      (applyAt path (traced visit') root) := by
    apply (samePlaces_simulation hg).applyAt
    intro a v log
    show ((visit' v).result, log ++ [(a, v)]) = ((visit v).result.mapError g, log ++ [(a, v)])
    rw [h v]
  have hrun := hplaces []
  rw [run_traced, run_traced, Prod.mk.injEq] at hrun
  exact hrun

end Traced

theorem result_invoked (name : String) (run : Value → Outcome Value) (v : Value)
    : (skipMissing (fun w => (run w).invoked name) v).result =
        (skipMissing run v).result.mapError Error.deepen := by
  have h (w : Value) : ((run w).invoked name).result = (run w).result.mapError Error.deepen := rfl
  cases v with
  | missing => rfl
  | _ => apply h

/--
Invoking a registered procedure at a path is a walk along the path whose visit runs the set of the
procedure on what is present, with the same registry and a bound that is one smaller. The run reports
the step and then what the walk does, each visit announced and one level deeper. It yields what the
walk yields, or it fails at the same place and alike: failures differ in the bound that they tell, and
that only if they are due to nesting.
-/
theorem Workspace.processSet_procedure (host : InPlaceHost) (store : Store) {registry handle : Nat}
    {name : String} {procedure : OperationSet}
    (hname : (store.registry registry).find? (.str name) = some handle)
    (hset : store.set? handle = some procedure) (path : String) (bound : Nat)
    (copyInput copyInput' : Bool) (v : Value)
    : let call : OperationSet :=
        ⟨[⟨[.operation .sigil .procedure (.object [(.str path, .str name)])]⟩], registry, copyInput,
          bound + 1⟩
      let run (w : Value) :=
        (processSet host store ⟨procedure.records, registry, copyInput', bound⟩ w).outcome
      let leaf := skipMissing run
      let invocation := skipMissing fun w => (run w).invoked name
      let x := (processSet host store call v).outcome
      declaredRecords (.object [(.str "$procedure", .object [(.str path, .str name)])]) =
          .ok call.records ∧
        x = (Outcome.note (.running .procedure 0 0) >>= fun _ =>
          applyAt ⟨path⟩ (fun _ => invocation) v) ∧
        x.result = (applyAt ⟨path⟩ (fun _ => leaf) v).result.mapError Error.deepen ∧
        visited invocation ⟨path⟩ v = visited leaf ⟨path⟩ v := by
  intro call run leaf invocation x
  have hsteps : store.procedureSteps? registry name = some (compiledSteps procedure.records) := by
    rw [Store.procedureSteps?, hname, Option.bind_some, hset]
    rfl
  have hrun : run = Surroundings.process ⟨host.toHost, store.procedureSteps? registry⟩ bound
      (compiledSteps procedure.records) := by
    funext w
    apply outcome_processSet
  have hx : x = (Outcome.note (.running .procedure 0 0) >>= fun _ =>
      applyAt ⟨path⟩ (fun _ => invocation) v) := by
    show (processSet host store call v).outcome = _
    rw [outcome_processSet]
    show Surroundings.process _ (bound + 1) [⟨.procedure, .object [(.str path, .str name)], 0⟩] v = _
    rw [Surroundings.process_procedure _ hsteps, ← hrun]
  obtain ⟨hresult, hvisited⟩ :=
    walk_ends_alike (g := Error.deepen) rfl (result_invoked name run) ⟨path⟩ v
  refine ⟨?_, hx, ?_, hvisited⟩
  · rfl
  · rw [hx, ← hresult]
    rfl

theorem Workspace.processSet_procedure_nested
    : let again : Record := ⟨[.operation .sigil .procedure (.object [(.str "$", .str "again")])]⟩
      let store : Store :=
        { sets := [⟨[again], 0, true, 64⟩], registries := [⟨[("again", 0)]⟩] }
      let v : Value := .list [.list [], .list [.list [.list []]], .null]
      let run (bound : Nat) (w : Value) :=
        (processSet .standard store ⟨[again], 0, true, bound⟩ w).outcome
      (store.registry 0).find? (.str "again") = some 0 ∧
        store.set? 0 = some ⟨[again], 0, true, 64⟩ ∧
        (run 2 v).result =
          (applyAt ⟨"$"⟩ (fun _ => skipMissing (run 1)) v).result.mapError Error.deepen ∧
        (applyAt ⟨"$"⟩ (fun _ => skipMissing (run 1)) v).result =
          .error (.operation (.tooDeep "again" 1)) ∧
        visited (skipMissing (run 1)) ⟨"$"⟩ v =
          [([.index 0], .list []), ([.index 1], .list [.list [.list []]])] := by
  intro again store v run
  have hname : (store.registry 0).find? (.str "again") = some 0 := by decide +kernel
  have hset : store.set? 0 = some ⟨[again], 0, true, 64⟩ := by decide +kernel
  obtain ⟨-, -, hresult, -⟩ :=
    processSet_procedure .standard store hname hset "$" 1 true true v
  refine ⟨hname, hset, hresult, ?_, ?_⟩
  · decide +kernel
  · decide +kernel

end Reshape
