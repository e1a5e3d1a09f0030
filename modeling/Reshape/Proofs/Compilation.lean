import Reshape.Proofs.Boundary
import Reshape.Proofs.Mutation

/-!
This module contains what compiling a list of values accepts and what it yields. The main statement,
`compile_grammar`, says that it accepts exactly the records, that it fails because of the first value
that is none, and that the steps are the operations of the records in the order in which they run.
What is wrong with a value is told in a message unless its fields are in order up to an integer key
that has too many digits to be written (`shown_of_ofValue`).
-/

namespace Reshape

/--
The place of an operation in the vocabulary.
-/
def Op.rank (op : Op) : Nat :=
  Op.all.idxOf op

/--
Whether a step runs before another one: that of an earlier record does, and of one record that of the
operation which comes first in the vocabulary.
-/
def Step.Before (a b : Step) : Prop :=
  a.record < b.record ∨ a.record = b.record ∧ a.op.rank < b.op.rank

theorem Op.all_pairwise_rank : Op.all.Pairwise fun a b => a.rank < b.rank := by
  decide

/--
An object whose fields are in order up to an integer key, which has too many digits to be shown in a
message.
-/
def Value.LongKeyed (v : Value) : Prop :=
  ∃ before n payload after, v = .object (before ++ (.int n, payload) :: after) ∧
    Grammatical before ∧ Decimal.isWritable n = false

theorem Assoc.get?_of_mem {κ α : Type} [DecidableEq κ] {k : κ} {a : α} {entries : Assoc κ α}
    (hnodup : (entries.map (·.1)).Nodup) (h : (k, a) ∈ entries) : Assoc.get? k entries = some a := by
  induction entries with
  | nil => cases h
  | cons entry entries ih =>
    rw [List.map_cons, List.nodup_cons] at hnodup
    rw [Assoc.get?]
    rcases List.mem_cons.mp h with rfl | h
    · exact if_pos rfl
    · have hne : entry.1 ≠ k := by
        rintro rfl
        exact hnodup.1 (List.mem_map.mpr ⟨_, h, rfl⟩)
      rw [if_neg hne]
      exact ih hnodup.2 h

theorem except_mapM_eq_error_iff {ε α β : Type} {f : α → Except ε β} {as : List α} {e : ε}
    : as.mapM f = .error e ↔
        ∃ before a after, as = before ++ a :: after ∧ (∀ a' ∈ before, ∃ b, f a' = .ok b) ∧
          f a = .error e := by
  induction as with
  | nil =>
    constructor
    · rintro ⟨⟩
    · rintro ⟨before, a, after, h, -⟩
      simp at h
  | cons first as ih =>
    rw [List.mapM_cons]
    cases hfirst : f first with
    | error e' =>
      constructor
      · rintro ⟨⟩
        exact ⟨[], first, as, rfl, nofun, hfirst⟩
      · rintro ⟨before, a, after, h, hbefore, ha⟩
        cases before with
        | nil =>
          cases h
          rw [hfirst] at ha
          cases ha
          rfl
        | cons first' before =>
          cases h
          obtain ⟨b, hb⟩ := hbefore first List.mem_cons_self
          rw [hfirst] at hb
          cases hb
    | ok b =>
      have hrest : (Except.ok b >>= fun b => as.mapM f >>= fun bs => pure (b :: bs)) = .error e ↔
          as.mapM f = .error e := by
        show (as.mapM f >>= fun bs => pure (b :: bs)) = .error e ↔ _
        cases as.mapM f with
        | ok bs =>
          constructor
          · rintro ⟨⟩
          · rintro ⟨⟩
        | error e' => exact Iff.rfl
      rw [hrest, ih]
      constructor
      · rintro ⟨before, a, after, rfl, hbefore, ha⟩
        exact ⟨first :: before, a, after, rfl, List.forall_mem_cons.mpr ⟨⟨b, hfirst⟩, hbefore⟩, ha⟩
      · rintro ⟨before, a, after, h, hbefore, ha⟩
        cases before with
        | nil =>
          cases h
          rw [hfirst] at ha
          cases ha
        | cons first' before =>
          cases h
          exact ⟨before, a, after, rfl, (List.forall_mem_cons.mp hbefore).2, ha⟩

namespace Record

variable {record : Record}

theorem exists_ofValue_iff {v : Value} : (∃ record, ofValue v = .ok record) ↔ v.IsRecord := by
  simp only [ofValue_eq_ok_iff, Value.isRecord_iff]

theorem grammatical_iff_read (v : Value) {fields : List (Key × Value)}
    : Grammatical fields ↔ ∃ entries, readEntries v [] fields = .ok entries := by
  simp only [readEntries_eq_ok_iff]
  constructor
  · intro h
    obtain ⟨entries, hfields, hnodup⟩ := h.exists_entries
    exact ⟨entries, hfields, hnodup, fun _ _ => List.not_mem_nil⟩
  · rintro ⟨entries, rfl, hnodup, -⟩
    exact @grammatical_of_distinct ⟨entries⟩ hnodup

theorem not_isRecord_iff {v : Value}
    : ¬v.IsRecord ↔ ∃ cause, ofValue v = .error cause := by
  rw [← exists_ofValue_iff]
  cases ofValue v with
  | ok record => simp
  | error cause => simp

/--
An unknown key decides the failure if and only if the fields before it are read.
-/
theorem readEntries_eq_unknown_iff {v : Value} {seen : List Heading}
    {fields : List (Key × Value)} {key : Key}
    : readEntries v seen fields = .error (.unknownOperation v key) ↔
        Heading.ofKey? key = none ∧ ∃ before payload after entries,
          fields = before ++ (key, payload) :: after ∧ readEntries v seen before = .ok entries := by
  induction fields generalizing seen with
  | nil =>
    constructor
    · rintro ⟨⟩
    · rintro ⟨-, before, payload, after, entries, h, -⟩
      simp at h
  | cons field fields ih =>
    rcases readEntries_cons_cases v seen field with
      ⟨entry, rfl, hseen⟩ | ⟨hkey, hread⟩ | ⟨hkey, cause, hcause, hread⟩
    · rw [readEntries_toField_cons v hseen, except_map_eq_error_iff, ih]
      constructor
      · rintro ⟨hnone, before, payload, after, entries, rfl, hbefore⟩
        refine ⟨hnone, entry.toField :: before, payload, after, entry :: entries, rfl, ?_⟩
        rw [readEntries_toField_cons v hseen, hbefore]
        rfl
      · rintro ⟨hnone, before, payload, after, entries, hfields, hbefore⟩
        cases before with
        | nil =>
          obtain ⟨spelling, hspelling⟩ := entry.spells_toField
          rw [List.nil_append, List.cons.injEq] at hfields
          rw [hfields.1] at hspelling
          dsimp only at hspelling
          rw [hspelling, Heading.ofKey?_spell] at hnone
          cases hnone
        | cons first before =>
          cases hfields
          rw [readEntries_toField_cons v hseen] at hbefore
          obtain ⟨rest, hrest, -⟩ := except_map_eq_ok_iff.mp hbefore
          exact ⟨hnone, before, payload, after, rest, rfl, hrest⟩
    · rw [hread]
      constructor
      · rintro ⟨⟩
        exact ⟨hkey, [], field.2, fields, [], rfl, rfl⟩
      · rintro ⟨-, before, payload, after, entries, hfields, hbefore⟩
        cases before with
        | nil =>
          cases hfields
          rfl
        | cons first before =>
          cases hfields
          rw [hread] at hbefore
          cases hbefore
    · rw [hread]
      constructor
      · rintro ⟨⟩
        cases hcause
      · rintro ⟨hnone, before, payload, after, entries, hfields, hbefore⟩
        cases before with
        | nil =>
          cases hfields
          rw [hnone] at hkey
          cases hkey
        | cons first before =>
          cases hfields
          rw [hread] at hbefore
          cases hbefore

/--
What is wrong with a value is told as such, except for an integer key of too many digits.
-/
theorem message_of_ofValue (v : Value)
    : FailsOnly (fun cause => (Error.format cause).shown = .format cause ∨
        ∃ n, cause = .unknownOperation v (.int n) ∧ Decimal.isWritable n = false) (ofValue v) := by
  cases v with
  | object fields =>
    apply FailsOnly.map
    refine (readEntries_fails _ [] fields).mono ?_
    rintro cause (⟨⟨key, payload⟩, -, rfl⟩ | hdisorder)
    · cases hkey : key.toValue.isWritable with
      | true => exact Or.inl (Error.shown_format hkey)
      | false =>
        cases key with
        | int n => exact Or.inr ⟨n, rfl, hkey⟩
        | _ => cases hkey
    · exact Or.inl (Error.shown_format hdisorder.isWritable)
  | _ => exact FailsOnly.error (Or.inl rfl)

theorem ofValue_eq_unknown_iff {v : Value} {key : Key}
    : ofValue v = .error (.unknownOperation v key) ↔
        Heading.ofKey? key = none ∧ ∃ before payload after,
          v = .object (before ++ (key, payload) :: after) ∧ Grammatical before := by
  cases v with
  | object fields =>
    simp only [ofValue, except_map_eq_error_iff, readEntries_eq_unknown_iff, Value.object.injEq,
      grammatical_iff_read (.object fields)]
    constructor
    · rintro ⟨hkey, before, payload, after, entries, hfields, hbefore⟩
      exact ⟨hkey, before, payload, after, hfields, entries, hbefore⟩
    · rintro ⟨hkey, before, payload, after, hfields, entries, hbefore⟩
      exact ⟨hkey, before, payload, after, entries, hfields, hbefore⟩
  | _ =>
    constructor
    · rintro ⟨⟩
    · rintro ⟨-, before, payload, after, ⟨⟩, -⟩

/--
What is wrong with a value can be told unless its fields are in order up to an integer key of too
many digits.
-/
theorem shown_of_ofValue {v : Value} {cause : FormatError} (h : ofValue v = .error cause)
    : v.LongKeyed ∧ (Error.format cause).shown = .tooManyDigits ∨
        ¬v.LongKeyed ∧ (Error.format cause).shown = .format cause := by
  by_cases hlong : v.LongKeyed
  · obtain ⟨before, n, payload, after, hv, hbefore, hn⟩ := hlong
    rw [ofValue_eq_unknown_iff.mpr ⟨rfl, before, payload, after, hv, hbefore⟩] at h
    cases h
    refine Or.inl ⟨⟨before, n, payload, after, hv, hbefore, hn⟩, ?_⟩
    apply if_neg
    rw [Bool.not_eq_true]
    exact hn
  · refine Or.inr ⟨hlong, ?_⟩
    rcases message_of_ofValue v cause h with hshown | ⟨n, rfl, hn⟩
    · exact hshown
    · obtain ⟨-, before, payload, after, hv, hbefore⟩ := ofValue_eq_unknown_iff.mp h
      exact absurd ⟨before, n, payload, after, hv, hbefore, hn⟩ hlong

theorem nodup_operations (h : record.Distinct) : (record.operations.map (·.1)).Nodup := by
  unfold operations
  rw [List.Nodup, List.pairwise_map, List.pairwise_filterMap]
  apply (List.pairwise_map.mp h).imp
  intro a b hne x hx y hy heq
  apply hne
  cases a with
  | tag spelling label => cases hx
  | operation spelling op payload =>
    cases b with
    | tag spelling' label => cases hy
    | operation spelling' op' payload' =>
      cases hx
      cases hy
      exact congrArg Heading.operation heq

/--
A record has an operation with a payload if one of its fields spells the operation and holds the
payload.
-/
theorem get?_operations_iff (h : record.Distinct) {op : Op} {payload : Value}
    : Assoc.get? op record.operations = some payload ↔
        ∃ key, (key, payload) ∈ record.entries.map Entry.toField ∧ key.Spells (.operation op) := by
  constructor
  · intro hget
    obtain ⟨entry, hentry, hoperation⟩ := List.mem_filterMap.mp (Assoc.mem_of_get? hget)
    cases entry with
    | tag spelling label => cases hoperation
    | operation spelling op' payload' =>
      cases hoperation
      exact ⟨_, List.mem_map_of_mem hentry, spelling, rfl⟩
  · rintro ⟨key, hmem, hspells⟩
    obtain ⟨entry, hentry, hfield⟩ := List.mem_map.mp hmem
    have hheading := entry.spells_toField
    rw [hfield] at hheading
    apply Assoc.get?_of_mem (nodup_operations h)
    cases entry with
    | tag spelling label => cases hheading.unique hspells
    | operation spelling op' payload' =>
      cases hheading.unique hspells
      cases hfield
      exact List.mem_filterMap.mpr ⟨_, hentry, rfl⟩

theorem mem_steps_iff {position : Nat} {step : Step}
    : step ∈ record.steps position ↔
        step.record = position ∧ Assoc.get? step.op record.operations = some step.payload := by
  unfold steps
  rw [List.mem_filterMap]
  constructor
  · rintro ⟨op, -, hstep⟩
    obtain ⟨payload, hpayload, rfl⟩ := Option.map_eq_some_iff.mp hstep
    exact ⟨rfl, hpayload⟩
  · rintro ⟨rfl, hpayload⟩
    refine ⟨step.op, Op.mem_all step.op, ?_⟩
    rw [hpayload]
    rfl

theorem steps_pairwise (record : Record) (position : Nat)
    : (record.steps position).Pairwise Step.Before := by
  unfold steps
  rw [List.pairwise_filterMap]
  apply Op.all_pairwise_rank.imp
  intro op op' hrank a ha b hb
  obtain ⟨payload, -, rfl⟩ := Option.map_eq_some_iff.mp ha
  obtain ⟨payload', -, rfl⟩ := Option.map_eq_some_iff.mp hb
  exact Or.inr ⟨rfl, hrank⟩

end Record

theorem mem_stepsFrom_iff {position : Nat} {records : List Record} {step : Step}
    : step ∈ stepsFrom position records ↔
        ∃ (i : Nat) (record : Record), records[i]? = some record ∧
          step ∈ record.steps (position + i) := by
  induction records generalizing position with
  | nil => simp [stepsFrom]
  | cons first records ih =>
    rw [stepsFrom, List.mem_append, ih]
    constructor
    · rintro (h | ⟨i, record, hi, h⟩)
      · exact ⟨0, first, rfl, h⟩
      · refine ⟨i + 1, record, hi, ?_⟩
        rw [show position + (i + 1) = position + 1 + i by omega]
        exact h
    · rintro ⟨i, record, hi, h⟩
      cases i with
      | zero =>
        cases hi
        exact Or.inl h
      | succ i =>
        refine Or.inr ⟨i, record, hi, ?_⟩
        rw [show position + 1 + i = position + (i + 1) by omega]
        exact h

theorem stepsFrom_pairwise (position : Nat) (records : List Record)
    : (stepsFrom position records).Pairwise Step.Before := by
  induction records generalizing position with
  | nil => exact List.Pairwise.nil
  | cons record records ih =>
    rw [stepsFrom, List.pairwise_append]
    refine ⟨record.steps_pairwise position, ih (position + 1), ?_⟩
    intro a ha b hb
    -- The steps of the later records have greater positions.
    obtain ⟨i, record', -, hb⟩ := mem_stepsFrom_iff.mp hb
    left
    rw [(Record.mem_steps_iff.mp ha).1, (Record.mem_steps_iff.mp hb).1]
    omega

theorem mem_compiledSteps_iff {records : List Record} (h : ∀ record ∈ records, record.Distinct)
    {op : Op} {payload : Value} {i : Nat}
    : ⟨op, payload, i⟩ ∈ compiledSteps records ↔
        ∃ fields key, (records.map Record.toValue)[i]? = some (.object fields) ∧
          (key, payload) ∈ fields ∧ key.Spells (.operation op) := by
  unfold compiledSteps
  simp only [mem_stepsFrom_iff, Record.mem_steps_iff, Nat.zero_add, List.getElem?_map,
    Option.map_eq_some_iff]
  constructor
  · rintro ⟨_, record, hi, rfl, hget⟩
    obtain ⟨key, hmem, hspells⟩ :=
      (Record.get?_operations_iff (h record (List.mem_of_getElem? hi))).mp hget
    exact ⟨_, key, ⟨record, hi, rfl⟩, hmem, hspells⟩
  · rintro ⟨fields, key, ⟨record, hi, hfields⟩, hmem, hspells⟩
    refine ⟨i, record, hi, rfl, ?_⟩
    rw [Record.get?_operations_iff (h record (List.mem_of_getElem? hi))]
    cases hfields
    exact ⟨key, hmem, hspells⟩

theorem compile_eq_ok_iff {values : List Value} {steps : List Step}
    : compile values = .ok steps ↔
        ∃ records, readRecords values = .ok records ∧ compiledSteps records = steps :=
  except_map_eq_ok_iff

theorem exists_compile_iff {values : List Value}
    : (∃ steps, compile values = .ok steps) ↔ ∀ v ∈ values, v.IsRecord := by
  simp only [← exists_readRecords_iff, compile_eq_ok_iff]
  constructor
  · rintro ⟨steps, records, hrecords, -⟩
    exact ⟨records, hrecords⟩
  · rintro ⟨records, hrecords⟩
    exact ⟨_, records, hrecords, rfl⟩

theorem compile_eq_error_iff {values : List Value} {cause : FormatError}
    : compile values = .error cause ↔
        ∃ before v after, values = before ++ v :: after ∧ (∀ u ∈ before, u.IsRecord) ∧
          Record.ofValue v = .error cause := by
  unfold compile readRecords
  simp only [except_map_eq_error_iff, except_mapM_eq_error_iff, Record.exists_ofValue_iff]

/--
A list of values compiles if and only if all of them are records: objects whose keys spell operations
or the tag, no two of them the same one, with a text as the tag. Otherwise it fails because of the
first value that is no record. That is told as a malformed declaration unless the fields of the value
are in order up to an integer key of too many digits: then the message cannot be made. The steps come
in the order of the records and, within a record, of the vocabulary, none of them twice; there is a
step for every operation that a record has under one of the spellings, with the payload that it has
there, and no other one.
-/
theorem compile_grammar (values : List Value)
    : ((∃ steps, compile values = .ok steps) ↔ ∀ v ∈ values, v.IsRecord) ∧
        (∀ cause : FormatError, compile values = .error cause ↔
          ∃ before v after, values = before ++ v :: after ∧ (∀ u ∈ before, u.IsRecord) ∧
            ¬v.IsRecord ∧ Record.ofValue v = .error cause) ∧
        (∀ before v after, values = before ++ v :: after → (∀ u ∈ before, u.IsRecord) →
          ¬v.IsRecord → ∃ cause : FormatError, compile values = .error cause ∧
            (v.LongKeyed ∧ (Error.format cause).shown = .tooManyDigits ∨
              ¬v.LongKeyed ∧ (Error.format cause).shown = .format cause)) ∧
        ∀ steps, compile values = .ok steps →
          steps.Pairwise Step.Before ∧
            ∀ op payload i, ⟨op, payload, i⟩ ∈ steps ↔
              ∃ fields key, values[i]? = some (.object fields) ∧ (key, payload) ∈ fields ∧
                key.Spells (.operation op) := by
  refine ⟨exists_compile_iff, ?_, ?_, ?_⟩
  · intro cause
    rw [compile_eq_error_iff]
    constructor
    · rintro ⟨before, v, after, hvalues, hbefore, hv⟩
      exact ⟨before, v, after, hvalues, hbefore, Record.not_isRecord_iff.mpr ⟨cause, hv⟩, hv⟩
    · rintro ⟨before, v, after, hvalues, hbefore, -, hv⟩
      exact ⟨before, v, after, hvalues, hbefore, hv⟩
  · intro before v after hvalues hbefore hv
    obtain ⟨cause, hcause⟩ := Record.not_isRecord_iff.mp hv
    refine ⟨cause, ?_, Record.shown_of_ofValue hcause⟩
    exact compile_eq_error_iff.mpr ⟨before, v, after, hvalues, hbefore, hcause⟩
  · intro steps hsteps
    obtain ⟨records, hrecords, rfl⟩ := compile_eq_ok_iff.mp hsteps
    obtain ⟨rfl, hdistinct⟩ := readRecords_eq_ok_iff.mp hrecords
    refine ⟨stepsFrom_pairwise 0 records, ?_⟩
    intro op payload i
    exact mem_compiledSteps_iff hdistinct

theorem compile_grammar_spellings
    : let values : List Value :=
        [.object [(.str "tag", .str "t"), (.str "wrap", .str "w"), (.str "$set", .null)],
          .object [(.str "move", .null)]]
      let steps : List Step := [⟨.set, .null, 0⟩, ⟨.wrap, .str "w", 0⟩, ⟨.move, .null, 1⟩]
      let twice : Value := .object [(.str "set", .null), (.str "$set", .null)]
      let long : Value := .object [(.int (10 ^ Decimal.maxDigits : Nat), .null)]
      compile values = .ok steps ∧ (∀ v ∈ values, v.IsRecord) ∧ steps.Pairwise Step.Before ∧
        (∃ fields key, values[1]? = some (.object fields) ∧ (key, .null) ∈ fields ∧
          key.Spells (.operation .move)) ∧
        compile (values ++ [twice]) = .error (.repeatedOperation twice .set) ∧
        (∃ v ∈ values ++ [twice], ¬v.IsRecord) ∧
        ∃ cause, compile (values ++ [long]) = .error cause ∧
          (Error.format cause).shown = .tooManyDigits := by
  intro values steps twice long
  have hcompile : compile values = .ok steps := by decide +kernel
  have htwice : compile (values ++ [twice]) = .error (.repeatedOperation twice .set) := by
    decide +kernel
  obtain ⟨haccepts, -, -, hyields⟩ := compile_grammar values
  obtain ⟨-, hrejects, -⟩ := compile_grammar (values ++ [twice])
  obtain ⟨-, -, htold, -⟩ := compile_grammar (values ++ [long])
  obtain ⟨horder, hmem⟩ := hyields steps hcompile
  have hvalues := haccepts.mp ⟨steps, hcompile⟩
  obtain ⟨before, v, after, hsplit, -, hv, -⟩ := (hrejects _).mp htwice
  have hmove : ⟨.move, .null, 1⟩ ∈ steps := by decide
  have hn : Decimal.isWritable (10 ^ Decimal.maxDigits : Nat) = false := by
    rw [← Bool.not_eq_true, Decimal.isWritable_iff_lt, Int.natAbs_natCast]
    exact Nat.lt_irrefl _
  have hlong : long.LongKeyed :=
    ⟨[], _, .null, [], rfl, (Record.grammatical_iff_read long).mpr ⟨[], rfl⟩, hn⟩
  have hrecord : ¬long.IsRecord := Record.not_isRecord_iff.mpr ⟨_, rfl⟩
  refine ⟨hcompile, hvalues, horder, (hmem _ _ _).mp hmove, htwice, ⟨v, ?_, hv⟩, ?_⟩
  · rw [hsplit]
    simp
  · rcases htold values long [] rfl hvalues hrecord with ⟨cause, hcause, ⟨-, hshown⟩ | ⟨hshort, -⟩⟩
    · exact ⟨cause, hcause, hshown⟩
    · exact absurd hlong hshort

end Reshape
