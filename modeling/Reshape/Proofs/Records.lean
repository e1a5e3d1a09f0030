import Reshape.OperationSet
import Reshape.Value.Refresh

/-!
This module contains the records that can be read from values: no heading occurs in them twice, which
is also enough for a record to be read back from its value. Changing payloads keeps that. Values that
are records by their grammar, and no others, can be read.
-/

namespace Reshape

section Except

variable {ε ε' α β : Type} {x : Except ε α}

theorem except_bind_eq_ok_iff {f : α → Except ε β} {b : β}
    : x >>= f = .ok b ↔ ∃ a, x = .ok a ∧ f a = .ok b := by
  cases x with
  | error e =>
    constructor
    · rintro ⟨⟩
    · rintro ⟨a, ⟨⟩, -⟩
  | ok a =>
    constructor
    · intro h
      exact ⟨a, rfl, h⟩
    · rintro ⟨a', ⟨⟩, h⟩
      exact h

theorem except_bind_eq_error_iff {f : α → Except ε β} {e : ε}
    : x >>= f = .error e ↔ x = .error e ∨ ∃ a, x = .ok a ∧ f a = .error e := by
  cases x with
  | error e' =>
    constructor
    · rintro ⟨⟩
      exact Or.inl rfl
    · rintro (⟨⟨⟩⟩ | ⟨a, ⟨⟩, -⟩)
      rfl
  | ok a =>
    constructor
    · intro h
      exact Or.inr ⟨a, rfl, h⟩
    · rintro (⟨⟨⟩⟩ | ⟨a', ⟨⟩, h⟩)
      exact h

theorem except_map_eq_ok_iff {f : α → β} {b : β}
    : x.map f = .ok b ↔ ∃ a, x = .ok a ∧ f a = b := by
  cases x with
  | error e =>
    constructor
    · rintro ⟨⟩
    · rintro ⟨a, ⟨⟩, -⟩
  | ok a => simp [Except.map]

theorem except_map_eq_error_iff {f : α → β} {e : ε} : x.map f = .error e ↔ x = .error e := by
  cases x with
  | error e' =>
    constructor
    · rintro ⟨⟩
      rfl
    · rintro ⟨⟩
      rfl
  | ok a =>
    constructor
    · rintro ⟨⟩
    · rintro ⟨⟩

theorem except_mapError_eq_ok_iff {f : ε → ε'} {a : α} : x.mapError f = .ok a ↔ x = .ok a := by
  cases x with
  | error e =>
    constructor
    · rintro ⟨⟩
    · rintro ⟨⟩
  | ok a' =>
    constructor
    · rintro ⟨⟩
      rfl
    · rintro ⟨⟩
      rfl

theorem except_mapError_eq_error_iff {f : ε → ε'} {e' : ε'}
    : x.mapError f = .error e' ↔ ∃ e, x = .error e ∧ f e = e' := by
  cases x with
  | error e =>
    constructor
    · rintro ⟨⟩
      exact ⟨e, rfl, rfl⟩
    · rintro ⟨e'', ⟨⟩, rfl⟩
      rfl
  | ok a =>
    constructor
    · rintro ⟨⟩
    · rintro ⟨e, ⟨⟩, -⟩

end Except

namespace Record

def Distinct (record : Record) : Prop :=
  (record.entries.map Entry.heading).Nodup

instance (record : Record) : Decidable record.Distinct :=
  inferInstanceAs (Decidable (record.entries.map Entry.heading).Nodup)

end Record

theorem Heading.ofKey?_spell (spelling : Spelling) (heading : Heading)
    : Heading.ofKey? (.str (spelling.spell heading.word)) = some (spelling, heading) := by
  cases heading with
  | tag => cases spelling <;> decide +kernel
  | operation op => cases spelling <;> cases op <;> decide +kernel

theorem Heading.eq_of_ofKey? {key : Key} {spelling : Spelling} {heading : Heading}
    (h : Heading.ofKey? key = some (spelling, heading)) : key = .str (spelling.spell heading.word) := by
  cases key with
  | str s =>
    unfold Heading.ofKey? at h
    dsimp only at h
    split at h
    · next found hfound =>
      have hword := List.find?_some hfound
      cases h
      exact congrArg Key.str (eq_of_beq hword).symm
    · rw [Option.map_eq_some_iff] at h
      obtain ⟨found, hfound, h⟩ := h
      have hword := List.find?_some hfound
      cases h
      exact congrArg Key.str (eq_of_beq hword).symm
  | _ => cases h

namespace Record

theorem readEntries_toField_cons (record : Value) {seen : List Heading} {entry : Entry}
    (h : entry.heading ∉ seen) (fields : List (Key × Value))
    : readEntries record seen (entry.toField :: fields) =
        (readEntries record (entry.heading :: seen) fields).map (entry :: ·) := by
  cases entry with
  | tag spelling label =>
    have hkey : Heading.ofKey? (.str (spelling.spell tagWord)) = some (spelling, .tag) :=
      Heading.ofKey?_spell spelling .tag
    have h : Heading.tag ∉ seen := h
    simp only [Entry.toField, readEntries, hkey, h, ↓reduceIte]
    rfl
  | operation spelling op payload =>
    have hkey : Heading.ofKey? (.str (spelling.spell op.word)) = some (spelling, .operation op) :=
      Heading.ofKey?_spell spelling (.operation op)
    have h : Heading.operation op ∉ seen := h
    simp only [Entry.toField, readEntries, hkey, h, ↓reduceIte]
    rfl

/--
What may be wrong in a record with a field whose key is known.
-/
inductive Disorder (v : Value) : FormatError → Prop where
  | secondTag : Disorder v (.secondTag v)
  | badTag (tag : Value) : Disorder v (.badTag v tag)
  | repeatedOperation (op : Op) : Disorder v (.repeatedOperation v op)

/--
A field is read as an entry with a new heading, or else it decides the failure, whatever comes after
it.
-/
theorem readEntries_cons_cases (v : Value) (seen : List Heading) (field : Key × Value)
    : (∃ entry : Entry, field = entry.toField ∧ entry.heading ∉ seen) ∨
        (Heading.ofKey? field.1 = none ∧ ∀ fields : List (Key × Value),
          readEntries v seen (field :: fields) = .error (.unknownOperation v field.1)) ∨
        (Heading.ofKey? field.1).isSome ∧ ∃ cause, Disorder v cause ∧
          ∀ fields : List (Key × Value), readEntries v seen (field :: fields) = .error cause := by
  obtain ⟨key, payload⟩ := field
  simp only [readEntries]
  cases hkey : Heading.ofKey? key with
  | none => exact Or.inr (Or.inl ⟨rfl, fun _ => rfl⟩)
  | some read =>
    obtain ⟨spelling, heading⟩ := read
    obtain rfl := Heading.eq_of_ofKey? hkey
    by_cases hseen : heading ∈ seen
    · refine Or.inr (Or.inr ⟨rfl, ?_⟩)
      cases heading with
      | tag => exact ⟨_, .secondTag, fun _ => if_pos hseen⟩
      | operation op => exact ⟨_, .repeatedOperation op, fun _ => if_pos hseen⟩
    · cases heading with
      | tag =>
        cases payload with
        | str label => exact Or.inl ⟨.tag spelling label, rfl, hseen⟩
        | _ => exact Or.inr (Or.inr ⟨rfl, _, .badTag _, fun _ => if_neg hseen⟩)
      | operation op => exact Or.inl ⟨.operation spelling op payload, rfl, hseen⟩

theorem exists_of_readEntries_cons {record : Value} {seen : List Heading} {field : Key × Value}
    {fields : List (Key × Value)} {entries : List Entry}
    (h : readEntries record seen (field :: fields) = .ok entries)
    : ∃ entry rest, field = entry.toField ∧ entry.heading ∉ seen ∧
        readEntries record (entry.heading :: seen) fields = .ok rest ∧ entries = entry :: rest := by
  rcases readEntries_cons_cases record seen field with
    ⟨entry, rfl, hseen⟩ | ⟨-, hread⟩ | ⟨-, cause, -, hread⟩
  · rw [readEntries_toField_cons record hseen] at h
    obtain ⟨rest, hrest, rfl⟩ := except_map_eq_ok_iff.mp h
    exact ⟨entry, rest, rfl, hseen, hrest, rfl⟩
  · rw [hread] at h
    cases h
  · rw [hread] at h
    cases h

theorem readEntries_eq_ok_iff {record : Value} {seen : List Heading} {fields : List (Key × Value)}
    {entries : List Entry}
    : readEntries record seen fields = .ok entries ↔
        fields = entries.map Entry.toField ∧ (entries.map Entry.heading).Nodup ∧
          ∀ entry ∈ entries, entry.heading ∉ seen := by
  induction fields generalizing seen entries with
  | nil =>
    constructor
    · intro h
      cases h
      simp
    · rintro ⟨h, -⟩
      rw [List.map_eq_nil_iff.mp h.symm]
      rfl
  | cons field fields ih =>
    constructor
    · intro h
      obtain ⟨entry, rest, rfl, hseen, hrest, rfl⟩ := exists_of_readEntries_cons h
      obtain ⟨rfl, hnodup, hnew⟩ := ih.mp hrest
      simp only [List.mem_cons, not_or] at hnew
      refine ⟨rfl, ?_, ?_⟩
      · rw [List.map_cons, List.nodup_cons, List.mem_map]
        refine ⟨?_, hnodup⟩
        rintro ⟨other, hother, heq⟩
        exact (hnew other hother).1 heq
      · intro other hother
        rcases List.mem_cons.mp hother with rfl | hother
        · exact hseen
        · exact (hnew other hother).2
    · rintro ⟨hfields, hnodup, hseen⟩
      cases entries with
      | nil => cases hfields
      | cons entry rest =>
        rw [List.map_cons, List.cons.injEq] at hfields
        rw [List.map_cons, List.nodup_cons] at hnodup
        have hrest : readEntries record (entry.heading :: seen) fields = .ok rest := by
          rw [ih]
          refine ⟨hfields.2, hnodup.2, ?_⟩
          intro other hother
          rw [List.mem_cons, not_or]
          constructor
          · intro heq
            apply hnodup.1
            rw [← heq]
            exact List.mem_map_of_mem hother
          · exact hseen other (List.mem_cons_of_mem _ hother)
        rw [hfields.1, readEntries_toField_cons record (hseen entry List.mem_cons_self), hrest]
        rfl

/--
Reading accepts exactly the values of the records in which no heading occurs twice.
-/
theorem ofValue_eq_ok_iff {v : Value} {record : Record}
    : ofValue v = .ok record ↔ v = record.toValue ∧ record.Distinct := by
  have hmk (entries : List Entry) : Record.mk entries = record ↔ entries = record.entries := by
    constructor
    · rintro rfl
      rfl
    · rintro rfl
      rfl
  unfold ofValue toValue
  split
  · simp [except_map_eq_ok_iff, readEntries_eq_ok_iff, hmk, Distinct]
  · next hobject =>
    constructor
    · rintro ⟨⟩
    · rintro ⟨rfl, -⟩
      exact absurd rfl (hobject _)

theorem distinct_mapPayloads (f : Value → Value) {record : Record} (h : record.Distinct)
    : (record.mapPayloads f).Distinct := by
  have heading (entry : Entry) : (entry.mapPayload f).heading = entry.heading := by
    cases entry <;> rfl
  unfold Distinct mapPayloads
  rw [List.map_map, Function.comp_def]
  simp only [heading]
  exact h

end Record

theorem readRecords_eq_ok_iff {values : List Value} {records : List Record}
    : readRecords values = .ok records ↔
        values = records.map Record.toValue ∧ ∀ record ∈ records, record.Distinct := by
  unfold readRecords
  induction values generalizing records with
  | nil =>
    constructor
    · intro h
      cases h
      simp
    · rintro ⟨h, -⟩
      rw [List.map_eq_nil_iff.mp h.symm]
      rfl
  | cons v values ih =>
    simp only [List.mapM_cons, except_bind_eq_ok_iff, Record.ofValue_eq_ok_iff, ih]
    constructor
    · rintro ⟨first, ⟨rfl, hfirst⟩, rest, ⟨rfl, hrest⟩, ⟨⟩⟩
      exact ⟨rfl, List.forall_mem_cons.mpr ⟨hfirst, hrest⟩⟩
    · rintro ⟨hvalues, hdistinct⟩
      cases records with
      | nil => cases hvalues
      | cons first rest =>
        rw [List.map_cons, List.cons.injEq] at hvalues
        obtain ⟨hfirst, hrest⟩ := List.forall_mem_cons.mp hdistinct
        exact ⟨first, ⟨hvalues.1, hfirst⟩, rest, ⟨hvalues.2, hrest⟩, rfl⟩

theorem readRecords_toValue {records : List Record} (h : ∀ record ∈ records, record.Distinct)
    : readRecords (records.map Record.toValue) = .ok records :=
  readRecords_eq_ok_iff.mpr ⟨rfl, h⟩

theorem declaredRecords_eq_ok_iff {operations : Value} {records : List Record}
    : declaredRecords operations = .ok records ↔
        recordValues operations = .ok (records.map Record.toValue) ∧
          ∀ record ∈ records, record.Distinct := by
  unfold declaredRecords
  simp only [except_bind_eq_ok_iff, readRecords_eq_ok_iff]
  constructor
  · rintro ⟨values, hvalues, rfl, hdistinct⟩
    exact ⟨hvalues, hdistinct⟩
  · rintro ⟨hvalues, hdistinct⟩
    exact ⟨_, hvalues, rfl, hdistinct⟩

theorem distinct_of_declaredRecords {operations : Value} {records : List Record}
    (h : declaredRecords operations = .ok records) : ∀ record ∈ records, record.Distinct :=
  (declaredRecords_eq_ok_iff.mp h).2

theorem declaredRecords_toValue {records : List Record} (h : ∀ record ∈ records, record.Distinct)
    : declaredRecords (.list (records.map Record.toValue)) = .ok records :=
  readRecords_toValue h

theorem declaredRecords_single {record : Record} (h : record.Distinct)
    : declaredRecords record.toValue = .ok [record] := by
  rw [declaredRecords_eq_ok_iff, List.forall_mem_singleton]
  exact ⟨rfl, h⟩

section Grammar

def Key.Spells (key : Key) (heading : Heading) : Prop :=
  ∃ spelling : Spelling, key = .str (spelling.spell heading.word)

/--
The grammar of records: every key spells a heading, no heading is spelt by two keys, be it in one
spelling or in both, and a tag is a text.
-/
structure Grammatical (fields : List (Key × Value)) : Prop where
  known : ∀ field ∈ fields, ∃ heading, field.1.Spells heading
  once : fields.Pairwise fun a b => ∀ heading, a.1.Spells heading → ¬b.1.Spells heading
  label : ∀ field ∈ fields, field.1.Spells .tag → ∃ label, field.2 = .str label

def Value.IsRecord (v : Value) : Prop :=
  ∃ fields, v = .object fields ∧ Grammatical fields

theorem Entry.spells_toField (entry : Entry) : entry.toField.1.Spells entry.heading := by
  cases entry with
  | tag spelling label => exact ⟨spelling, rfl⟩
  | operation spelling op payload => exact ⟨spelling, rfl⟩

theorem Key.Spells.unique {key : Key} {heading heading' : Heading} (h : key.Spells heading)
    (h' : key.Spells heading') : heading = heading' := by
  obtain ⟨spelling, rfl⟩ := h
  obtain ⟨spelling', heq⟩ := h'
  have hkey := Heading.ofKey?_spell spelling heading
  rw [heq, Heading.ofKey?_spell, Option.some.injEq, Prod.mk.injEq] at hkey
  exact hkey.2.symm

theorem Grammatical.exists_entries {fields : List (Key × Value)} (h : Grammatical fields)
    : ∃ entries : List Entry,
        fields = entries.map Entry.toField ∧ (entries.map Entry.heading).Nodup := by
  induction fields with
  | nil => exact ⟨[], rfl, List.nodup_nil⟩
  | cons field fields ih =>
    have honce := List.pairwise_cons.mp h.once
    obtain ⟨entries, rfl, hnodup⟩ := ih
      ⟨fun other hother => h.known other (List.mem_cons_of_mem _ hother), honce.2,
        fun other hother => h.label other (List.mem_cons_of_mem _ hother)⟩
    have hentry : ∃ entry : Entry, field = entry.toField := by
      obtain ⟨key, payload⟩ := field
      obtain ⟨heading, spelling, rfl⟩ := h.known (key, payload) List.mem_cons_self
      cases heading with
      | tag =>
        obtain ⟨label, rfl⟩ := h.label _ List.mem_cons_self ⟨spelling, rfl⟩
        exact ⟨.tag spelling label, rfl⟩
      | operation op => exact ⟨.operation spelling op payload, rfl⟩
    obtain ⟨entry, rfl⟩ := hentry
    refine ⟨entry :: entries, rfl, ?_⟩
    rw [List.map_cons, List.nodup_cons]
    refine ⟨?_, hnodup⟩
    rw [List.mem_map]
    rintro ⟨other, hother, heq⟩
    apply honce.1 other.toField (List.mem_map_of_mem hother) entry.heading entry.spells_toField
    rw [← heq]
    exact other.spells_toField

theorem Record.grammatical_of_distinct {record : Record} (h : record.Distinct)
    : Grammatical (record.entries.map Entry.toField) where
  known := by
    intro field hfield
    obtain ⟨entry, -, rfl⟩ := List.mem_map.mp hfield
    exact ⟨entry.heading, entry.spells_toField⟩
  once := by
    rw [List.pairwise_map]
    have hpairwise := List.pairwise_map.mp h
    apply hpairwise.imp
    intro a b hne heading ha hb
    apply hne
    rw [a.spells_toField.unique ha, b.spells_toField.unique hb]
  label := by
    intro field hfield htag
    obtain ⟨entry, -, rfl⟩ := List.mem_map.mp hfield
    cases entry with
    | tag spelling label => exact ⟨label, rfl⟩
    | operation spelling op payload => cases (Entry.spells_toField _).unique htag

theorem Value.isRecord_iff {v : Value}
    : v.IsRecord ↔ ∃ record : Record, v = record.toValue ∧ record.Distinct := by
  constructor
  · rintro ⟨fields, rfl, h⟩
    obtain ⟨entries, rfl, hnodup⟩ := h.exists_entries
    exact ⟨⟨entries⟩, rfl, hnodup⟩
  · rintro ⟨record, rfl, h⟩
    exact ⟨_, rfl, record.grammatical_of_distinct h⟩

theorem exists_readRecords_iff {values : List Value}
    : (∃ records, readRecords values = .ok records) ↔ ∀ v ∈ values, v.IsRecord := by
  constructor
  · rintro ⟨records, h⟩ v hv
    obtain ⟨rfl, hdistinct⟩ := readRecords_eq_ok_iff.mp h
    obtain ⟨record, hrecord, rfl⟩ := List.mem_map.mp hv
    exact Value.isRecord_iff.mpr ⟨record, rfl, hdistinct record hrecord⟩
  · intro h
    induction values with
    | nil => exact ⟨[], rfl⟩
    | cons v values ih =>
      obtain ⟨hv, hvalues⟩ := List.forall_mem_cons.mp h
      obtain ⟨record, rfl, hrecord⟩ := Value.isRecord_iff.mp hv
      obtain ⟨records, hrecords⟩ := ih hvalues
      obtain ⟨rfl, hdistinct⟩ := readRecords_eq_ok_iff.mp hrecords
      refine ⟨record :: records, ?_⟩
      rw [← List.map_cons]
      exact readRecords_toValue (List.forall_mem_cons.mpr ⟨hrecord, hdistinct⟩)

/--
Whether operations compile: null, a record or a list of records.
-/
def Value.Compiles (operations : Value) : Prop :=
  ∃ values, recordValues operations = .ok values ∧ ∀ v ∈ values, v.IsRecord

theorem exists_declaredRecords_iff {operations : Value}
    : (∃ records, declaredRecords operations = .ok records) ↔ operations.Compiles := by
  unfold declaredRecords Value.Compiles
  simp only [except_bind_eq_ok_iff, ← exists_readRecords_iff]
  constructor
  · rintro ⟨records, values, hvalues, hrecords⟩
    exact ⟨values, hvalues, records, hrecords⟩
  · rintro ⟨values, hvalues, records, hrecords⟩
    exact ⟨records, values, hvalues, hrecords⟩

end Grammar
end Reshape
