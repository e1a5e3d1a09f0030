import Mathlib.Control.Monad.Basic
import Mathlib.Data.List.InsertIdx
import Reshape.Proofs.Soundness

/-!
This module contains what becomes of a set whose records are changed again and again, where changes
may fail. The set keeps the steps that were compiled from its records beside them, and compiles all of
them anew with every change. The main statement, `run_actsAsList`, says that such a set does what a
plain list of records does.
-/

namespace Reshape

/--
The steps of records that are given as values, of which any may turn out to be no record.
-/
def compile (values : List Value) : Except FormatError (List Step) :=
  (readRecords values).map compiledSteps

theorem compile_recordValues {set : OperationSet} (h : set.Sound)
    : compile set.recordValues = .ok set.steps := by
  unfold compile OperationSet.recordValues
  rw [readRecords_toValue h.distinct]
  rfl

/--
A set that keeps the steps of its records beside them.
-/
structure CompiledSet where
  set : OperationSet
  steps : List Step
  deriving DecidableEq

inductive Mutation where
  | add (operations : Value) (position : Position)
  | remove (key : Value)

def Mutation.command (id : String) : Mutation → Command
  | .add operations position => .addRecords id operations position
  | .remove key => .removeRecord id key

namespace CompiledSet

def build (setting : Option String) (operations : Value) (registry : Nat) (copyInput : Bool)
    (maxDepth : Value) : Except Error CompiledSet := do
  let records ← (declaredRecords operations).mapError .format
  let steps ← (compile (records.map Record.toValue)).mapError .format
  let bound ← DepthBound.resolve setting maxDepth
  pure ⟨⟨records, registry, copyInput, bound⟩, steps⟩

/--
Adds records. All steps are compiled anew, and nothing is changed if that fails.
-/
def add (c : CompiledSet) (operations : Value) (position : Position)
    : Except FormatError (Nat × CompiledSet) := do
  let (i, set) ← c.set.add operations position
  let steps ← compile set.recordValues
  pure (i, ⟨set, steps⟩)

/--
Removes the record that a key finds, if there is one. Changes are made as for `add`.
-/
def remove (c : CompiledSet) (key : Value) : Except FormatError (Option Record × CompiledSet) := do
  match ← c.set.remove key with
  | (none, _) => pure (none, c)
  | (some record, set) =>
    let steps ← compile set.recordValues
    pure (some record, ⟨set, steps⟩)

/--
What a change answers, and what has become of the set.
-/
def apply (c : CompiledSet) : Mutation → Except FormatError Value × CompiledSet
  | .add operations position =>
    match c.add operations position with
    | .ok (i, c') => (.ok (.int i), c')
    | .error cause => (.error cause, c)
  | .remove key =>
    match c.remove key with
    | .ok (removed, c') => (.ok (Workspace.recordOrNull removed), c')
    | .error cause => (.error cause, c)

def run (c : CompiledSet) (history : List Mutation) : CompiledSet :=
  history.foldl (fun c mutation => (c.apply mutation).2) c

/--
The kept steps are those of the records.
-/
structure Consistent (c : CompiledSet) : Prop where
  sound : c.set.Sound
  steps : c.steps = c.set.steps

variable {c : CompiledSet}

theorem consistent_of_sound {set : OperationSet} (h : set.Sound)
    : Consistent ⟨set, set.steps⟩ :=
  ⟨h, rfl⟩

/--
What is built has the steps of the declared records, and its set is the one that a store builds.
-/
theorem build_eq_ok {setting : Option String} {operations maxDepth : Value} {registry : Nat}
    {copyInput : Bool}
    (h : build setting operations registry copyInput maxDepth = .ok c)
    : recordValues operations = .ok c.set.recordValues ∧ c.Consistent ∧
        ∀ store : Store, store.depthSetting = setting →
          store.buildSet operations registry copyInput maxDepth = .ok (store.addSet c.set) := by
  unfold build at h
  simp only [except_bind_eq_ok_iff, except_mapError_eq_ok_iff] at h
  obtain ⟨records, hdeclared, steps, hcompile, bound, hbound, ⟨⟩⟩ := h
  obtain ⟨hvalues, hdistinct⟩ := declaredRecords_eq_ok_iff.mp hdeclared
  have hsound : OperationSet.Sound ⟨records, registry, copyInput, bound⟩ :=
    ⟨hdistinct, DepthBound.one_le_of_resolve hbound⟩
  have hsteps := compile_recordValues hsound
  refine ⟨hvalues, ⟨hsound, ?_⟩, ?_⟩
  · rw [OperationSet.recordValues, hcompile, Except.ok.injEq] at hsteps
    exact hsteps
  · rintro store rfl
    unfold Store.buildSet
    rw [hdeclared, hbound]
    rfl

/--
Once the records have been added compiling them cannot fail, as all of them have been read before.
-/
theorem add_eq (h : c.Consistent) (operations : Value) (position : Position)
    : c.add operations position =
        (c.set.add operations position).map fun added => (added.1, ⟨added.2, added.2.steps⟩) := by
  unfold add
  cases hadd : c.set.add operations position with
  | error cause => rfl
  | ok added =>
    obtain ⟨i, set⟩ := added
    have hcompile := compile_recordValues (OperationSet.add_sound h.sound hadd)
    show (compile set.recordValues >>= fun steps => Except.ok (i, CompiledSet.mk set steps)) = _
    rw [hcompile]
    rfl

theorem add_eq_ok_iff (h : c.Consistent) {operations : Value} {position : Position} {i : Nat}
    {c' : CompiledSet}
    : c.add operations position = .ok (i, c') ↔
        c.set.add operations position = .ok (i, c'.set) ∧ c'.steps = c'.set.steps := by
  rw [add_eq h, except_map_eq_ok_iff]
  constructor
  · rintro ⟨added, hadd, ⟨⟩⟩
    exact ⟨hadd, rfl⟩
  · rintro ⟨hadd, hsteps⟩
    refine ⟨_, hadd, ?_⟩
    dsimp only
    rw [← hsteps]

theorem remove_of_found (h : c.Consistent) {key : Value} {record : Record} {set : OperationSet}
    (hremove : c.set.remove key = .ok (some record, set))
    : c.remove key = .ok (some record, ⟨set, set.steps⟩) := by
  have hcompile := compile_recordValues (OperationSet.remove_sound h.sound hremove)
  unfold remove
  rw [hremove]
  show (compile set.recordValues >>= fun steps =>
    Except.ok (some record, CompiledSet.mk set steps)) = _
  rw [hcompile]
  rfl

theorem remove_of_nothing {key : Value} (hremove : c.set.remove key = .ok (none, c.set))
    : c.remove key = .ok (none, c) := by
  unfold remove
  rw [hremove]
  rfl

theorem remove_of_error {key : Value} {cause : FormatError}
    (hremove : c.set.remove key = .error cause) : c.remove key = .error cause := by
  unfold remove
  rw [hremove]
  rfl

theorem apply_consistent (h : c.Consistent) (mutation : Mutation)
    : (c.apply mutation).2.Consistent := by
  cases mutation with
  | add operations position =>
    unfold apply
    dsimp only
    rw [add_eq h]
    cases hadd : c.set.add operations position with
    | error cause => exact h
    | ok added => exact consistent_of_sound (OperationSet.add_sound h.sound hadd)
  | remove key =>
    unfold apply
    dsimp only
    rcases c.set.remove_cases key with ⟨i, record, -, -, hremove⟩ | hremove | ⟨cause, hremove⟩
    · rw [remove_of_found h hremove]
      exact consistent_of_sound (OperationSet.remove_sound h.sound hremove)
    · rw [remove_of_nothing hremove]
      exact h
    · rw [remove_of_error hremove]
      exact h

theorem run_consistent (h : c.Consistent) (history : List Mutation) : (c.run history).Consistent := by
  induction history generalizing c with
  | nil => exact h
  | cons mutation history ih => exact ih (apply_consistent h mutation)

/--
What a set that keeps its steps has in common with a plain list of records.
-/
structure ActsAsList (c : CompiledSet) : Prop where
  grammar : ∀ record ∈ c.set.recordValues, record.IsRecord
  compiled : compile c.set.recordValues = .ok c.steps
  /-- The kept steps are those that a run of the set takes. -/
  taken : c.set.steps = c.steps
  adds : ∀ operations position, (∃ i c', c.add operations position = .ok (i, c')) ↔
    (∃ new, recordValues operations = .ok new ∧ ∀ record ∈ new, record.IsRecord) ∧
      ∃ i, InsertsAt c.set.records position i
  added : ∀ operations position i c', c.add operations position = .ok (i, c') →
    InsertsAt c.set.records position i ∧ ∃ new, recordValues operations = .ok new ∧
      c'.set.recordValues = c.set.recordValues.take i ++ new ++ c.set.recordValues.drop i ∧
      compile c'.set.recordValues = .ok c'.steps
  removed : ∀ key i, Finds c.set.records key i → ∃ record c',
    c.set.records[i]? = some record ∧ c.remove key = .ok (some record, c') ∧
      c'.set.recordValues = c.set.recordValues.eraseIdx i ∧
      compile c'.set.recordValues = .ok c'.steps
  nothing : ∀ key, ((∃ n, key = .int n) ∨ ∃ label, key = .str label) →
    (∀ i, ¬Finds c.set.records key i) → c.remove key = .ok (none, c)
  refused : ∀ key, (∀ n, key ≠ .int n) → (∀ label, key ≠ .str label) →
    c.remove key = .error (.badRemovalKey key)
  unchanged : ∀ mutation, (∀ v, (c.apply mutation).1 = .ok v → v = .null) →
    (c.apply mutation).2 = c

theorem apply_unchanged (hc : c.Consistent) (mutation : Mutation)
    (h : ∀ v, (c.apply mutation).1 = .ok v → v = .null) : (c.apply mutation).2 = c := by
  cases mutation with
  | add operations position =>
    unfold apply at h ⊢
    dsimp only at h ⊢
    split
    · next i c' hadd =>
      rw [hadd] at h
      cases h _ rfl
    · rfl
  | remove key =>
    unfold apply at h ⊢
    dsimp only at h ⊢
    rcases c.set.remove_cases key with ⟨i, record, -, -, hremove⟩ | hremove | ⟨cause, hremove⟩
    · -- What is removed is an object, so the answer is not null.
      rw [remove_of_found hc hremove] at h
      cases h _ rfl
    · rw [remove_of_nothing hremove]
    · rw [remove_of_error hremove]

theorem Consistent.actsAsList (h : c.Consistent) : c.ActsAsList where
  grammar := by
    intro v hv
    obtain ⟨record, hrecord, rfl⟩ := List.mem_map.mp hv
    exact Value.isRecord_iff.mpr ⟨record, rfl, h.sound.distinct record hrecord⟩
  compiled := by
    rw [compile_recordValues h.sound, h.steps]
  taken := h.steps.symm
  adds := by
    intro operations position
    show _ ↔ operations.Compiles ∧ _
    rw [← exists_declaredRecords_iff]
    constructor
    · rintro ⟨i, c', hadd⟩
      obtain ⟨added, hadded, hindex, -⟩ :=
        OperationSet.add_eq_ok_iff.mp ((add_eq_ok_iff h).mp hadd).1
      exact ⟨⟨added, hadded⟩, i, hindex⟩
    · rintro ⟨⟨added, hadded⟩, i, hindex⟩
      have hadd := OperationSet.add_eq_ok_iff.mpr ⟨added, hadded, hindex, rfl⟩
      exact ⟨i, ⟨_, OperationSet.steps _⟩, (add_eq_ok_iff h).mpr ⟨hadd, rfl⟩⟩
  added := by
    intro operations position i c' hadd
    obtain ⟨hset, hsteps⟩ := (add_eq_ok_iff h).mp hadd
    obtain ⟨added, hadded, hindex, hrecords⟩ := OperationSet.add_eq_ok_iff.mp hset
    refine ⟨hindex, _, (declaredRecords_eq_ok_iff.mp hadded).1, ?_, ?_⟩
    · rw [hrecords]
      simp [OperationSet.recordValues, List.map_take, List.map_drop]
    · rw [compile_recordValues (OperationSet.add_sound h.sound hset), hsteps]
  removed := by
    intro key i hfinds
    obtain ⟨record, hrecord⟩ := OperationSet.exists_of_finds hfinds
    have hremove := OperationSet.remove_of_finds hfinds
    rw [hrecord] at hremove
    refine ⟨record, _, hrecord, remove_of_found h hremove, ?_, ?_⟩
    · exact (List.eraseIdx_map Record.toValue c.set.records i).symm
    · exact compile_recordValues (OperationSet.remove_sound h.sound hremove)
  nothing := by
    intro key hkey hfinds
    exact remove_of_nothing (OperationSet.remove_of_finds_nothing hkey hfinds)
  refused := by
    intro key hint hstr
    apply remove_of_error
    rw [OperationSet.remove, OperationSet.removalIndex?_eq_error hint hstr]
    rfl
  unchanged := apply_unchanged h

/--
A workspace does to a set what the change does to it, and keeps all else.
-/
theorem execute_command (h : c.Consistent) (host : InPlaceHost) {w : Workspace} {id : String}
    {handle : Nat} (hid : Assoc.get? id w.sets = some handle)
    (hset : w.store.set? handle = some c.set) (mutation : Mutation)
    : (w.execute host (mutation.command id)).1.outcome.result =
          (c.apply mutation).1.mapError .format ∧
        (w.execute host (mutation.command id)).2 =
          match (c.apply mutation).1 with
          | .ok _ => { w with store := w.store.putSet handle (c.apply mutation).2.set }
          | .error _ => w := by
  cases mutation with
  | add operations position =>
    simp only [Mutation.command, Workspace.execute, Workspace.addRecords, Workspace.withSet,
      Workspace.withId, hid, hset, apply, add_eq h]
    cases c.set.add operations position with
    | error cause => exact ⟨rfl, rfl⟩
    | ok added => exact ⟨rfl, rfl⟩
  | remove key =>
    simp only [Mutation.command, Workspace.execute, Workspace.removeRecord, Workspace.withSet,
      Workspace.withId, hid, hset, apply]
    rcases c.set.remove_cases key with ⟨i, record, -, -, hremove⟩ | hremove | ⟨cause, hremove⟩
    · rw [remove_of_found h hremove, hremove]
      exact ⟨rfl, rfl⟩
    · rw [remove_of_nothing hremove, hremove]
      exact ⟨rfl, rfl⟩
    · rw [remove_of_error hremove, hremove]
      exact ⟨rfl, rfl⟩

/--
A set that has been built holds the records that were declared, and after whatever changes, also after
changes that have failed, it acts as a list of records with the steps of these records. Stores build
the same set, and commands on a workspace that holds it come to the same answers and to the same set.
-/
theorem run_actsAsList {setting : Option String} {operations maxDepth : Value} {registry : Nat}
    {copyInput : Bool} {built : CompiledSet}
    (h : build setting operations registry copyInput maxDepth = .ok built) (history : List Mutation)
    : recordValues operations = .ok built.set.recordValues ∧
        (∀ store : Store, store.depthSetting = setting →
          store.buildSet operations registry copyInput maxDepth = .ok (store.addSet built.set)) ∧
        (built.run history).ActsAsList ∧
        ∀ (host : InPlaceHost) (w : Workspace) (id : String) (handle : Nat) (mutation : Mutation),
          Assoc.get? id w.sets = some handle →
            w.store.set? handle = some (built.run history).set →
              let changed := (built.run history).apply mutation
              (w.execute host (mutation.command id)).1.outcome.result =
                  changed.1.mapError .format ∧
                (w.execute host (mutation.command id)).2 =
                  match changed.1 with
                  | .ok _ => { w with store := w.store.putSet handle changed.2.set }
                  | .error _ => w := by
  obtain ⟨hvalues, hbuilt, hstore⟩ := build_eq_ok h
  have hconsistent := run_consistent hbuilt history
  refine ⟨hvalues, hstore, hconsistent.actsAsList, ?_⟩
  intro host w id handle mutation hid hset
  exact execute_command hconsistent host hid hset mutation

theorem run_actsAsList_tagged
    : let first : Value := .object
        [(.str "$set", .object [(.str "a", .int 1)]), (.str "tag", .str "t")]
      let second : Value := .object [(.str "$tag", .str "t"), (.str "unset", .str "a")]
      let third : Value := .object [(.str "$unset", .str "b")]
      let built : CompiledSet :=
        ⟨⟨[⟨[.operation .sigil .set (.object [(.str "a", .int 1)]), .tag .bare "t"]⟩,
          ⟨[.tag .sigil "t", .operation .bare .unset (.str "a")]⟩], 0, true, 8⟩,
          [⟨.set, .object [(.str "a", .int 1)], 0⟩, ⟨.unset, .str "a", 1⟩]⟩
      let history : List Mutation :=
        [.add (.list [third, .object [(.str "$bad", .null)]]) {},
          .add third { before := .str "t", after := .str "u" },
          .add third { before := .str "t" }, .remove (.str "t"), .remove (.int 9)]
      build none (.list [first, second]) 0 true (.int 8) = .ok built ∧
        (built.run history).set.recordValues = [first, third] ∧
        (built.run history).ActsAsList ∧
        (built.run history).remove (.str "u") = .ok (none, built.run history) := by
  intro first second third built history
  have hbuild : build none (.list [first, second]) 0 true (.int 8) = .ok built := by decide +kernel
  obtain ⟨-, -, hacts, -⟩ := run_actsAsList hbuild history
  refine ⟨hbuild, by decide +kernel, hacts, ?_⟩
  apply hacts.nothing
  · exact Or.inr ⟨"u", rfl⟩
  · intro i hfinds
    have hindex : (built.run history).set.removalIndex? (.str "u") = .ok none := by decide +kernel
    rw [OperationSet.removalIndex?_eq_some_iff.mpr hfinds] at hindex
    cases hindex

end CompiledSet
end Reshape
