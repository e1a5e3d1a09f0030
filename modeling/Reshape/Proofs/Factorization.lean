import Mathlib.Control.Monad.Basic
import Reshape.Proofs.InPlace
import Reshape.Proofs.Records
import Reshape.Proofs.Relabel

/-!
This module contains the parts of a run. The run of a list of records is that of its parts one after
the other, and the run of a record is that of its operations one after the other, each of them in a
record of its own. The main statement is `processDeclared_factors`.
-/

namespace Reshape

def Event.unnumbered : Event → Event
  | .running op _ depth => .running op 0 depth
  | event => event

def Step.unnumbered (step : Step) : Step :=
  { step with record := 0 }

/--
Two runs that end alike and report the same, but for the positions of the records that they run.
-/
structure Outcome.Alike {α : Type} (x y : Outcome α) : Prop where
  result : x.result = y.result
  log : x.log.map Event.unnumbered = y.log.map Event.unnumbered

section Alike

theorem Event.unnumbered_of_isWarning (event : Event) (h : event.isWarning = true)
    : event.unnumbered = event := by
  cases event with
  | overwrote typeName key destination => rfl
  | _ => cases h

theorem unnumbered_congruence : RunCongruence (Relabelled Event.unnumbered id) :=
  relabelled_congruence Event.unnumbered_of_isWarning fun _ _ => rfl

theorem Outcome.alike_iff {α : Type} {x y : Outcome α}
    : Alike x y ↔ x.relabel Event.unnumbered id = y.relabel Event.unnumbered id := by
  have hid (r : Except Error α) : r.mapError id = r := by
    cases r <;> rfl
  unfold relabel
  rw [hid, hid, Outcome.mk.injEq]
  constructor
  · rintro ⟨hresult, hlog⟩
    exact ⟨hlog, hresult⟩
  · rintro ⟨hlog, hresult⟩
    exact ⟨hresult, hlog⟩

end Alike

namespace Surroundings

variable (s : Surroundings)

theorem relabel_runSteps (invoke : String → Value → Outcome Value) (depth : Nat) (steps : List Step)
    (v : Value)
    : (s.runSteps invoke depth steps v).relabel Event.unnumbered id =
        s.runSteps (fun name w => (invoke name w).relabel Event.unnumbered id) depth
          (steps.map Step.unnumbered) v := by
  unfold runSteps
  rw [List.foldlM_map]
  symm
  apply unnumbered_congruence.foldlM
  intro step _ w
  apply unnumbered_congruence.runStep
  · intro name u
    rfl
  · rfl

theorem process_alike (bound : Nat) {steps steps' : List Step}
    (h : steps.map Step.unnumbered = steps'.map Step.unnumbered) (v : Value)
    : Outcome.Alike (s.process bound steps v) (s.process bound steps' v) := by
  rw [Outcome.alike_iff]
  unfold process
  rw [relabel_runSteps, relabel_runSteps, h]

theorem process_append (bound : Nat) (steps steps' : List Step) (v : Value)
    : s.process bound (steps ++ steps') v =
        s.process bound steps v >>= fun w => s.process bound steps' w :=
  List.foldlM_append

theorem process_singletons (bound : Nat) (steps : List Step) (v : Value)
    : s.process bound steps v = steps.foldlM (fun w step => s.process bound [step] w) v := by
  have hstep (step : Step) (w : Value)
      : s.process bound [step] w = s.runStep (s.invoke bound 0) 0 w step := by
    rw [process, runSteps, List.foldlM_cons]
    exact bind_pure _
  simp only [hstep]
  rfl

end Surroundings

section Steps

theorem Record.unnumbered_steps (record : Record) (position position' : Nat)
    : (record.steps position).map Step.unnumbered = (record.steps position').map Step.unnumbered := by
  unfold Record.steps
  rw [List.map_filterMap, List.map_filterMap]
  congr 1
  funext op
  rw [Option.map_map, Option.map_map]
  rfl

theorem stepsFrom_append (records records' : List Record) (position : Nat)
    : stepsFrom position (records ++ records') =
        stepsFrom position records ++ stepsFrom (position + records.length) records' := by
  induction records generalizing position with
  | nil => rfl
  | cons record records ih =>
    rw [List.cons_append, stepsFrom, ih, stepsFrom, List.append_assoc, List.length_cons]
    congr 3
    omega

theorem unnumbered_stepsFrom (records : List Record) (position position' : Nat)
    : (stepsFrom position records).map Step.unnumbered =
        (stepsFrom position' records).map Step.unnumbered := by
  induction records generalizing position position' with
  | nil => rfl
  | cons record records ih =>
    rw [stepsFrom, stepsFrom, List.map_append, List.map_append, record.unnumbered_steps, ih]

theorem unnumbered_compiledSteps_append (records records' : List Record)
    : (compiledSteps (records ++ records')).map Step.unnumbered =
        (compiledSteps records ++ compiledSteps records').map Step.unnumbered := by
  unfold compiledSteps
  rw [stepsFrom_append, List.map_append, List.map_append, unnumbered_stepsFrom records']

end Steps

section Operations

/--
What a record holds under an operation, in whichever spelling.
-/
def Value.payload? (op : Op) : Value → Option Value
  | .object fields =>
    (fields.find? fun field => decide (field.1 = .str op.key ∨ field.1 = .str op.word)).map (·.2)
  | _ => none

/--
The operations of a record with their payloads, in the order of the vocabulary.
-/
def Value.operations (record : Value) : List (Op × Value) :=
  Op.all.filterMap fun op => (record.payload? op).map fun payload => (op, payload)

/--
The record of a single operation.
-/
def Record.single (spelling : Op → Spelling) (operation : Op × Value) : Record :=
  ⟨[.operation (spelling operation.1) operation.1 operation.2]⟩

theorem Entry.key_toField_iff (entry : Entry) (op : Op)
    : entry.toField.1 = .str op.key ∨ entry.toField.1 = .str op.word ↔
        entry.heading = .operation op := by
  constructor
  · intro h
    apply entry.spells_toField.unique
    rcases h with h | h
    · exact ⟨.sigil, h⟩
    · exact ⟨.bare, h⟩
  · intro h
    obtain ⟨spelling, hkey⟩ := entry.spells_toField
    rw [h] at hkey
    cases spelling with
    | sigil => exact Or.inl hkey
    | bare => exact Or.inr hkey

theorem Record.payload?_toValue (record : Record) (op : Op)
    : record.toValue.payload? op = Assoc.get? op record.operations := by
  have hkey : (fun field : Key × Value =>
      decide (field.1 = .str op.key ∨ field.1 = .str op.word)) ∘ Entry.toField =
      fun entry => decide (entry.heading = .operation op) := by
    funext entry
    simp only [Function.comp_apply, entry.key_toField_iff]
  unfold toValue Value.payload? operations
  dsimp only
  rw [List.find?_map, hkey]
  induction record.entries with
  | nil => rfl
  | cons entry entries ih =>
    cases entry with
    | tag spelling label =>
      rw [List.find?_cons_of_neg (by simp [Entry.heading]), ih]
      rfl
    | operation spelling op' payload =>
      by_cases hop : op' = op
      · rw [List.find?_cons_of_pos (by simp [Entry.heading, hop])]
        simp [hop, Entry.operation?, Entry.toField, Assoc.get?]
      · rw [List.find?_cons_of_neg (by simp [Entry.heading, hop]), ih]
        simp [hop, Entry.operation?, Assoc.get?]

theorem Record.steps_eq (record : Record) (position : Nat)
    : record.steps position =
        record.toValue.operations.map fun operation => ⟨operation.1, operation.2, position⟩ := by
  unfold steps Value.operations
  rw [List.map_filterMap]
  congr 1
  funext op
  rw [record.payload?_toValue, Option.map_map]
  rfl

theorem Record.steps_single (spelling : Op → Spelling) (operation : Op × Value) (position : Nat)
    : (single spelling operation).steps position = [⟨operation.1, operation.2, position⟩] := by
  obtain ⟨op, payload⟩ := operation
  cases op <;> rfl

theorem Record.distinct_single (spelling : Op → Spelling) (operation : Op × Value)
    : (single spelling operation).Distinct :=
  List.pairwise_singleton _ _

theorem unnumbered_compiledSteps_singles (spelling : Op → Spelling) (operations : List (Op × Value))
    : (compiledSteps (operations.map (Record.single spelling))).map Step.unnumbered =
        operations.map fun operation => ⟨operation.1, operation.2, 0⟩ := by
  unfold compiledSteps
  induction operations with
  | nil => rfl
  | cons operation operations ih =>
    rw [List.map_cons, stepsFrom, List.map_append, unnumbered_stepsFrom _ _ 0, ih,
      Record.steps_single]
    rfl

end Operations

namespace Workspace

/--
The outcome of running declared operations as a set of their own.
-/
def processDeclared (host : InPlaceHost) (store : Store) (registry bound : Nat)
    (operations v : Value) : Outcome Value := do
  let records ← Outcome.ofExcept ((declaredRecords operations).mapError .format)
  (processSet host store ⟨records, registry, true, bound⟩ v).outcome

variable (host : InPlaceHost) (store : Store) (registry bound : Nat)

theorem processDeclared_eq {operations : Value} {records : List Record}
    (h : declaredRecords operations = .ok records) (v : Value)
    : processDeclared host store registry bound operations v =
        Surroundings.process ⟨host.toHost, store.procedureSteps? registry⟩ bound
          (compiledSteps records) v := by
  unfold processDeclared
  rw [h]
  refine (pure_bind records _).trans ?_
  apply outcome_processSet

theorem processDeclared_single (spelling : Op → Spelling) (operation : Op × Value) (v : Value)
    : processDeclared host store registry bound (Record.single spelling operation).toValue v =
        Surroundings.process ⟨host.toHost, store.procedureSteps? registry⟩ bound
          [⟨operation.1, operation.2, 0⟩] v := by
  have hdeclared := declaredRecords_single (Record.distinct_single spelling operation)
  rw [processDeclared_eq host store registry bound hdeclared, compiledSteps, stepsFrom,
    Record.steps_single]
  rfl

theorem processDeclared_append {as bs : List Value} (has : ∀ record ∈ as, record.IsRecord)
    (hbs : ∀ record ∈ bs, record.IsRecord) (v : Value)
    : let run := processDeclared host store registry bound
      (∃ records, declaredRecords (.list (as ++ bs)) = .ok records) ∧
        Outcome.Alike (run (.list (as ++ bs)) v) (run (.list as) v >>= run (.list bs)) := by
  dsimp only
  obtain ⟨records, hrecords⟩ := exists_readRecords_iff.mpr has
  obtain ⟨records', hrecords'⟩ := exists_readRecords_iff.mpr hbs
  have happend : declaredRecords (.list (as ++ bs)) = .ok (records ++ records') := by
    obtain ⟨rfl, hdistinct⟩ := readRecords_eq_ok_iff.mp hrecords
    obtain ⟨rfl, hdistinct'⟩ := readRecords_eq_ok_iff.mp hrecords'
    rw [← List.map_append]
    exact declaredRecords_toValue (List.forall_mem_append.mpr ⟨hdistinct, hdistinct'⟩)
  refine ⟨⟨_, happend⟩, ?_⟩
  have hrun (w : Value) := processDeclared_eq host store registry bound
    (show declaredRecords (.list bs) = .ok records' from hrecords') w
  rw [processDeclared_eq host store registry bound happend,
    processDeclared_eq host store registry bound
      (show declaredRecords (.list as) = .ok records from hrecords),
    funext hrun, ← Surroundings.process_append]
  apply Surroundings.process_alike
  apply unnumbered_compiledSteps_append

theorem declaredRecords_singles (spelling : Op → Spelling) (operations : List (Op × Value))
    : declaredRecords
        (.list (operations.map fun operation => (Record.single spelling operation).toValue)) =
          .ok (operations.map (Record.single spelling)) := by
  have hmap : (operations.map fun operation => (Record.single spelling operation).toValue) =
      (operations.map (Record.single spelling)).map Record.toValue := by
    rw [List.map_map]
    rfl
  rw [hmap]
  apply declaredRecords_toValue
  rw [List.forall_mem_map]
  intro operation _
  exact Record.distinct_single spelling operation

theorem processDeclared_operations (spelling : Op → Spelling) {record : Value} (h : record.IsRecord)
    (v : Value)
    : let run := processDeclared host store registry bound
      let singles := record.operations.map fun operation =>
        (Record.single spelling operation).toValue
      run record v = singles.foldlM (fun w single => run single w) v ∧
        Outcome.Alike (run record v) (run (.list singles) v) := by
  dsimp only
  obtain ⟨record, rfl, hdistinct⟩ := Value.isRecord_iff.mp h
  have hsteps : compiledSteps [record] =
      record.toValue.operations.map fun operation => ⟨operation.1, operation.2, 0⟩ := by
    rw [compiledSteps, stepsFrom, record.steps_eq]
    exact List.append_nil _
  rw [processDeclared_eq host store registry bound (declaredRecords_single hdistinct)]
  constructor
  · rw [Surroundings.process_singletons, hsteps, List.foldlM_map, List.foldlM_map]
    simp only [processDeclared_single]
  · rw [processDeclared_eq host store registry bound
      (declaredRecords_singles spelling record.toValue.operations)]
    apply Surroundings.process_alike
    rw [hsteps, unnumbered_compiledSteps_singles, List.map_map]
    rfl

/--
A list of records runs as its parts do one after the other, and a record runs as its operations do,
each of them in a record of its own and in the order of the vocabulary, whatever the order and the
spelling of its keys. The runs come to the same value or the same failure, and what they report
differs in the positions of records alone.
-/
theorem processDeclared_factors
    : let run := processDeclared host store registry bound
      (∀ (as bs : List Value) (v : Value), (∀ record ∈ as ++ bs, record.IsRecord) →
        (∃ records, declaredRecords (.list (as ++ bs)) = .ok records) ∧
          Outcome.Alike (run (.list (as ++ bs)) v) (run (.list as) v >>= run (.list bs))) ∧
      (∀ (record v : Value) (spelling : Op → Spelling), record.IsRecord →
        let singles := record.operations.map fun operation =>
          (Record.single spelling operation).toValue
        run record v = singles.foldlM (fun w single => run single w) v ∧
          Outcome.Alike (run record v) (run (.list singles) v)) := by
  dsimp only
  constructor
  · intro as bs v h
    obtain ⟨has, hbs⟩ := List.forall_mem_append.mp h
    exact processDeclared_append host store registry bound has hbs v
  · intro record v spelling h
    exact processDeclared_operations host store registry bound spelling h v

theorem processDeclared_factors_shuffled
    : let record : Value := .object
        [(.str "$cast", .object [(.str "a", .str "number")]), (.str "tag", .str "t"),
          (.str "set", .object [(.str "a", .str "1")])]
      let run := processDeclared .standard {} 0 1
      let set : Value := .object [(.str "$set", .object [(.str "a", .str "1")])]
      let cast : Value := .object [(.str "$cast", .object [(.str "a", .str "number")])]
      (run record (.object [])).result = .ok (.object [(.str "a", .int 1)]) ∧
        (run set (.object [])).result = .ok (.object [(.str "a", .str "1")]) ∧
        run record (.object []) = [set, cast].foldlM (fun w single => run single w) (.object []) ∧
        Outcome.Alike (run (.list ([record] ++ [cast])) (.object []))
          (run (.list [record]) (.object []) >>= run (.list [cast])) := by
  intro record run set cast
  have hrecord : record.IsRecord := Value.isRecord_iff.mpr
    ⟨⟨[.operation .sigil .cast (.object [(.str "a", .str "number")]), .tag .bare "t",
      .operation .bare .set (.object [(.str "a", .str "1")])]⟩, by decide +kernel, by decide +kernel⟩
  have hcast : cast.IsRecord := Value.isRecord_iff.mpr
    ⟨⟨[.operation .sigil .cast (.object [(.str "a", .str "number")])]⟩, by decide +kernel,
      by decide +kernel⟩
  obtain ⟨hlists, hsingles⟩ := processDeclared_factors .standard {} 0 1
  obtain ⟨hsingles, -⟩ := hsingles record (.object []) (fun _ => .sigil) hrecord
  have hoperations : (record.operations.map fun operation =>
      (Record.single (fun _ => .sigil) operation).toValue) = [set, cast] := by
    decide +kernel
  rw [hoperations] at hsingles
  refine ⟨by decide +kernel, by decide +kernel, hsingles, ?_⟩
  refine (hlists [record] [cast] (.object []) ?_).2
  intro other hother
  rcases List.mem_cons.mp hother with rfl | hother
  · exact hrecord
  · rw [List.mem_singleton.mp hother]
    exact hcast

end Workspace
end Reshape
