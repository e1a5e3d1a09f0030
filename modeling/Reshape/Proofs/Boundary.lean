import Reshape.Proofs.Rejection

/-!
This module contains the failures that callers of operation sets see. Building a set fails because
of malformed records alone, and a run without functions because of the operations alone, unless a
numeral has too many digits.
-/

namespace Reshape

/--
All leaves but functions.
-/
def Parts.inert : Parts where
  leaf
    | .function _ => false
    | _ => true
  key _ := true
  leaf_null := rfl
  key_str _ := rfl

/--
The contract of runs on all values: they fail because of an operation or of too many digits.
-/
def Contract.foreseen : Contract where
  parts := .any
  fails e := e = .tooManyDigits ∨ ∃ cause, e = .operation cause
  casts _ _ w _ _ := w.madeOf_any
  digits _ _ _ := Or.inl rfl

/--
The contract of runs on legible values that fail because of an operation, with a message.
-/
def Contract.told : Contract :=
  .legible fun e => ∃ cause, e = .operation cause ∧ cause.isWritable = true

section Step

variable {s : Surroundings} {step : Step}

theorem Instruction.Arises.operation_or_digits_of_reject {e : Error} (h : Arises step (.reject e))
    : e = .tooManyDigits ∨ ∃ cause, e = .operation cause := by
  cases h with
  | rejectShape hshape => exact Or.inr ⟨_, rfl⟩
  | rejectCast hlists => exact Or.inr ⟨_, rfl⟩
  | rejectTable hlists htable =>
    rcases table_fails _ _ htable with rfl | ⟨rfl, -⟩
    · exact Or.inr ⟨_, rfl⟩
    · exact Or.inl rfl

theorem Instruction.Arises.not_callWhole (hinert : step.payload.madeOf .inert = true)
    {function : String} : ¬ Arises step (.callWhole function) := by
  rintro ⟨⟩
  next hop hpayload =>
    rw [hpayload] at hinert
    cases hinert

theorem Instruction.Arises.not_call (hinert : step.payload.madeOf .inert = true) {path : Path}
    {function : String} : ¬ Arises step (.call path function) := by
  rintro ⟨⟩
  next hop hlists => cases hlists.madeOf hinert

/--
A step without functions fits a contract that its payload and its paths meet, and that foresees what
it is rejected with and names that nothing is registered under.
-/
theorem Step.fits_of_inert {c : Contract} (hinert : step.payload.madeOf .inert = true)
    (hpayload : step.payload.madeOf c.parts = true)
    (hpaths : ∀ i ∈ Instruction.ofStep step, ∀ path ∈ i.paths, c.Passes path)
    (hreject : ∀ e, Instruction.Arises step (.reject e) → c.fails e)
    (hrequire : ∀ name, c.fails (.operation (.unregistered (.str name)))) : step.Fits c s := by
  intro instruction hmem
  have passes := hpaths instruction hmem
  have harises := Instruction.arises_of_mem_ofStep hmem
  cases instruction with
  | edit path edit =>
    exact ⟨passes path (by simp [Instruction.paths]), harises.edit_fits hpayload⟩
  | relocate keep source target =>
    exact ⟨passes source (by simp [Instruction.paths]), passes target (by simp [Instruction.paths])⟩
  | callWhole function => exact absurd harises (Instruction.Arises.not_callWhole hinert)
  | call path function => exact absurd harises (Instruction.Arises.not_call hinert)
  | require name => exact fun _ => hrequire name
  | invoke path name => exact passes path (by simp [Instruction.paths])
  | reject cause => exact hreject cause harises

theorem Step.fits_foreseen (hinert : step.payload.madeOf .inert = true)
    : step.Fits .foreseen s := by
  apply fits_of_inert hinert (Value.madeOf_any _)
  · intro i _ path _ segment _ _
    exact Or.inl rfl
  · intro e harises
    exact harises.operation_or_digits_of_reject
  · intro name
    exact Or.inr ⟨_, rfl⟩

theorem Step.fits_told (hinert : step.payload.madeOf .inert = true) (hlegible : step.isLegible = true)
    : step.Fits .told s := by
  have hpayload := payload_of_isLegible hlegible
  apply fits_of_inert hinert hpayload
  · intro i hi path hpath
    exact passes_of_isLegible hlegible hi hpath
  · intro e harises
    exact harises.operation_of_reject hpayload
  · intro name
    exact ⟨_, rfl, rfl⟩

end Step

section Records

theorem Record.Disorder.isWritable {v : Value} {cause : FormatError} (h : Disorder v cause)
    : cause.isWritable = true := by
  cases h with
  | _ => rfl

theorem Record.readEntries_fails (v : Value) (seen : List Heading) (fields : List (Key × Value))
    : FailsOnly (fun cause => (∃ field ∈ fields, cause = .unknownOperation v field.1) ∨
        Disorder v cause) (readEntries v seen fields) := by
  induction fields generalizing seen with
  | nil => apply FailsOnly.ok
  | cons field fields ih =>
    rcases readEntries_cons_cases v seen field with
      ⟨entry, rfl, hseen⟩ | ⟨-, hread⟩ | ⟨-, cause, hcause, hread⟩
    · rw [readEntries_toField_cons v hseen]
      apply FailsOnly.map
      refine (ih _).mono ?_
      rintro cause (⟨other, hother, hunknown⟩ | hdisorder)
      · exact Or.inl ⟨other, List.mem_cons_of_mem _ hother, hunknown⟩
      · exact Or.inr hdisorder
    · rw [hread]
      exact FailsOnly.error (Or.inl ⟨field, List.mem_cons_self, rfl⟩)
    · rw [hread]
      exact FailsOnly.error (Or.inr hcause)

theorem Record.ofValue_fails {v : Value} (hv : v.madeOf .legible = true)
    : FailsOnly (fun cause => cause.isWritable = true) (ofValue v) := by
  cases v with
  | object fields =>
    apply FailsOnly.map
    refine (readEntries_fails _ [] fields).mono ?_
    rintro cause (⟨field, hfield, rfl⟩ | hdisorder)
    · exact Key.isWritable_of_legible (Value.madeOf_object.mp hv field hfield).1
    · exact hdisorder.isWritable
  | _ => exact FailsOnly.error rfl

theorem declaredRecords_fails {operations : Value} (h : operations.madeOf .legible = true)
    : FailsOnly (fun cause => cause.isWritable = true) (declaredRecords operations) := by
  have read {values : List Value} (hvalues : ∀ v ∈ values, v.madeOf .legible = true)
      : FailsOnly (fun cause => cause.isWritable = true) (readRecords values) := by
    apply FailsOnly.mapM
    intro v hv
    exact Record.ofValue_fails (hvalues v hv)
  unfold declaredRecords
  cases operations with
  | null => exact read nofun
  | object fields => exact read (List.forall_mem_singleton.mpr h)
  | list items => exact read (Value.madeOf_list.mp h)
  | tuple items => exact read (Value.itemsMadeOf_iff.mp h)
  | _ => exact FailsOnly.error rfl

theorem Store.buildSet_fails (store : Store) (operations : Value) (registry : Nat)
    (copyInput : Bool) {maxDepth : Value} {bound : Nat}
    (hbound : DepthBound.resolve store.depthSetting maxDepth = .ok bound)
    : FailsOnly (fun e => ∃ cause, e = .format cause ∧
        (operations.madeOf .legible = true → cause.isWritable = true))
        (store.buildSet operations registry copyInput maxDepth) := by
  unfold buildSet
  rw [hbound]
  cases hrecords : declaredRecords operations with
  | ok records => apply FailsOnly.ok
  | error cause =>
    apply FailsOnly.error
    exact ⟨cause, rfl, fun h => declaredRecords_fails h cause hrecords⟩

end Records

theorem Error.shown_format {cause : FormatError} (h : cause.isWritable = true)
    : (Error.format cause).shown = .format cause :=
  if_pos h

/--
Two kinds of failures cross the boundary. With a valid bound on nesting, a set is built or its
records are malformed. A run of a set, where neither its records nor the registered procedures
contain a function, comes to a value or fails because of an operation. The only other failure is
that of a numeral with too many digits, in a run or in the making of a message, and it does not come
up where there is none in the operations, in the procedures, in the bound and in the value.
-/
theorem Workspace.processSet_boundary (host : InPlaceHost) (store : Store) {maxDepth : Value}
    {bound : Nat} (hbound : DepthBound.resolve store.depthSetting maxDepth = .ok bound)
    : (∀ operations registry copyInput e,
        store.buildSet operations registry copyInput maxDepth = .error e →
          ∃ cause, e = .format cause ∧ (operations.madeOf .legible = true → e.shown = e)) ∧
      ∀ set : OperationSet,
        let procedure? := store.procedureSteps? set.registry
        (∀ step ∈ set.steps, step.payload.madeOf .inert = true) →
        (∀ name steps, procedure? name = some steps →
          ∀ step ∈ steps, step.payload.madeOf .inert = true) →
        ∀ v e, (processSet host store set v).outcome.result = .error e →
          (e = .tooManyDigits ∨ ∃ cause, e = .operation cause) ∧
            ((∀ step ∈ set.steps, step.isLegible = true) →
              (∀ name steps, procedure? name = some steps →
                ∀ step ∈ steps, step.isLegible = true) →
              Decimal.isWritable set.maxDepth = true → v.madeOf .legible = true →
              ∃ cause, e = .operation cause ∧ e.shown = e) := by
  refine ⟨?_, ?_⟩
  · intro operations registry copyInput e he
    obtain ⟨cause, rfl, hwritable⟩ := store.buildSet_fails operations registry copyInput hbound e he
    exact ⟨cause, rfl, fun h => Error.shown_format (hwritable h)⟩
  · intro set procedure? hinert hprocedures v e he
    rw [outcome_processSet] at he
    refine ⟨?_, ?_⟩
    · refine Contract.foreseen.process_fails ?_ ?_ ?_ v.madeOf_any e he
      · intro name steps hsteps step hstep
        exact Step.fits_foreseen (hprocedures name steps hsteps step hstep)
      · intro step hstep
        exact Step.fits_foreseen (hinert step hstep)
      · intro name
        exact Or.inr ⟨_, rfl⟩
    · intro hlegible hlegible' hmaxDepth hv
      obtain ⟨cause, rfl, hwritable⟩ : Contract.told.fails e := by
        refine Contract.told.process_fails ?_ ?_ ?_ hv e he
        · intro name steps hsteps step hstep
          exact Step.fits_told (hprocedures name steps hsteps step hstep)
            (hlegible' name steps hsteps step hstep)
        · intro step hstep
          exact Step.fits_told (hinert step hstep) (hlegible step hstep)
        · intro name
          exact ⟨_, rfl, hmaxDepth⟩
      exact ⟨cause, rfl, Error.shown_operation hwritable⟩

theorem Workspace.processSet_boundary_cast
    : let e : Error := .operation (.badCast (.str "text"))
      let set : OperationSet :=
        ⟨[⟨[.operation .sigil .cast (.object [(.str "a", .str "text")])]⟩], 0, true, 64⟩
      DepthBound.resolve none .null = .ok 64 ∧
        (Store.buildSet {} (.int 3) 0 true .null) = .error (.format (.notRecords (.int 3))) ∧
        (Error.format (.notRecords (.int 3))).shown = .format (.notRecords (.int 3)) ∧
        (processSet .standard {} set .null).outcome.result = .error e ∧
        ∃ cause, e = .operation cause ∧ e.shown = e := by
  intro e set
  have hbound : DepthBound.resolve none .null = .ok 64 := by decide +kernel
  obtain ⟨hbuild, hrun⟩ := processSet_boundary .standard {} hbound
  have hsteps : set.steps = [⟨.cast, .object [(.str "a", .str "text")], 0⟩] := by decide +kernel
  have hno (name : String) : Store.procedureSteps? {} 0 name = none := rfl
  have hresult : (processSet .standard {} set .null).outcome.result = .error e := by decide +kernel
  obtain ⟨-, hshown⟩ := hrun set
    (by
      rw [hsteps]
      decide +kernel)
    (by
      intro name steps hsteps
      rw [hno] at hsteps
      cases hsteps)
    .null e hresult
  have hbuilt : Store.buildSet {} (.int 3) 0 true .null = .error (.format (.notRecords (.int 3))) :=
    rfl
  obtain ⟨-, -, hformat⟩ := hbuild (.int 3) 0 true _ hbuilt
  refine ⟨hbound, hbuilt, hformat (by decide +kernel), hresult, ?_⟩
  apply hshown
  · rw [hsteps]
    decide +kernel
  · intro name steps hsteps
    rw [hno] at hsteps
    cases hsteps
  · decide +kernel
  · rfl

end Reshape
