import Mathlib.Data.List.Nodup
import Reshape.Proofs.Soundness

/-!
This module contains the lookup of tags. What a record carries is told by its fields, in either
spelling. The main statement, `run_indexOfTag`, says what the lookup finds in the sets that sessions
lead to, whatever records they have added and removed.
-/

namespace Reshape

/--
A field of the record is its tag, in either spelling, with the label as its content.
-/
def Value.Carries (record : Value) (label : String) : Prop :=
  ∃ fields, record = .object fields ∧
    ((.str "$tag", .str label) ∈ fields ∨ (.str "tag", .str label) ∈ fields)

/--
The last position in a list at which a property holds, or none if it holds nowhere.
-/
def LastIfAny {α : Type} (p : α → Prop) (as : List α) : Option Nat → Prop
  | some i => IsLast p as i
  | none => ∀ a ∈ as, ¬p a

section LastIfAny

variable {α β : Type} {as : List α}

theorem LastIfAny.unique {p : α → Prop} {i? j? : Option Nat} (hi : LastIfAny p as i?)
    (hj : LastIfAny p as j?) : i? = j? := by
  cases i? with
  | none =>
    cases j? with
    | none => rfl
    | some j =>
      obtain ⟨a, ha, hpa⟩ := hj.found
      exact absurd hpa (hi a (List.mem_of_getElem? ha))
  | some i =>
    cases j? with
    | none =>
      obtain ⟨a, ha, hpa⟩ := hi.found
      exact absurd hpa (hj a (List.mem_of_getElem? ha))
    | some j => rw [IsLast.unique hi hj]

/--
The search for a test finds the last place of the property that the test decides on images.
-/
theorem lastIfAny_lastIndex? {p : α → Bool} {q : β → Prop} {f : α → β}
    (h : ∀ a ∈ as, p a = true ↔ q (f a)) : LastIfAny q (as.map f) (lastIndex? p as) := by
  cases hindex : lastIndex? p as with
  | none =>
    intro b hb
    obtain ⟨a, ha, rfl⟩ := List.mem_map.mp hb
    rw [← h a ha, lastIndex?_eq_none_iff.mp hindex a ha]
    exact Bool.false_ne_true
  | some i =>
    have hlast := isLast_of_lastIndex? hindex
    constructor
    · obtain ⟨a, ha, hpa⟩ := hlast.found
      refine ⟨f a, ?_, (h a (List.mem_of_getElem? ha)).mp hpa⟩
      rw [List.getElem?_map, ha, Option.map_some]
    · intro j b hj hb
      rw [List.getElem?_map, Option.map_eq_some_iff] at hb
      obtain ⟨a, ha, rfl⟩ := hb
      rw [← h a (List.mem_of_getElem? ha)]
      exact hlast.last j a hj ha

theorem lastIndex?_eq_iff {p : α → Bool} {q : β → Prop} {f : α → β}
    (h : ∀ a ∈ as, p a = true ↔ q (f a)) {found : Option Nat}
    : lastIndex? p as = found ↔ LastIfAny q (as.map f) found := by
  have hlast := lastIfAny_lastIndex? h
  constructor
  · rintro rfl
    exact hlast
  · exact hlast.unique

end LastIfAny

section Tag

variable {record : Record} {label : String}

theorem Entry.eq_tag_of_toField {entry : Entry} {spelling : Spelling}
    (h : entry.toField = (.str (spelling.spell tagWord), .str label))
    : ∃ spelling', entry = .tag spelling' label := by
  have hspells := entry.spells_toField
  rw [h] at hspells
  have hheading : Heading.tag = entry.heading := Key.Spells.unique ⟨spelling, rfl⟩ hspells
  cases entry with
  | tag spelling' label' =>
    cases (Prod.mk.inj h).2
    exact ⟨spelling', rfl⟩
  | operation spelling' op payload => cases hheading

theorem Record.carries_toValue_iff
    : record.toValue.Carries label ↔ ∃ spelling, Entry.tag spelling label ∈ record.entries := by
  constructor
  · rintro ⟨fields, hfields, hmem⟩
    cases hfields
    have hfield : ∃ spelling : Spelling,
        (.str (spelling.spell tagWord), .str label) ∈ record.entries.map Entry.toField :=
      hmem.elim (fun h => ⟨.sigil, h⟩) (fun h => ⟨.bare, h⟩)
    obtain ⟨spelling, hfield⟩ := hfield
    obtain ⟨entry, hentry, heq⟩ := List.mem_map.mp hfield
    obtain ⟨spelling', rfl⟩ := Entry.eq_tag_of_toField heq
    exact ⟨spelling', hentry⟩
  · rintro ⟨spelling, hentry⟩
    have hfield := List.mem_map_of_mem (f := Entry.toField) hentry
    refine ⟨_, rfl, ?_⟩
    cases spelling with
    | sigil => exact Or.inl hfield
    | bare => exact Or.inr hfield

/--
The tag of a record is the one that it carries.
-/
theorem Record.tag?_eq_some_iff (h : record.Distinct)
    : record.tag? = some label ↔ record.toValue.Carries label := by
  have hcarries {other : String} (htag : record.tag? = some other)
      : ∃ spelling, Entry.tag spelling other ∈ record.entries := by
    obtain ⟨entry, hentry, hother⟩ := List.exists_of_findSome?_eq_some htag
    cases entry with
    | tag spelling label =>
      cases hother
      exact ⟨spelling, hentry⟩
    | operation spelling op payload => cases hother
  rw [carries_toValue_iff]
  constructor
  · exact hcarries
  · rintro ⟨spelling, hentry⟩
    cases htag : record.tag? with
    | none => cases List.findSome?_eq_none_iff.mp htag _ hentry
    | some other =>
      -- Two tags would be one heading twice.
      obtain ⟨spelling', hother⟩ := hcarries htag
      cases List.inj_on_of_nodup_map h hentry hother rfl
      rfl

theorem Record.tag?_eq_none_iff (h : record.Distinct)
    : record.tag? = none ↔ ∀ label, ¬record.toValue.Carries label := by
  simp only [← tag?_eq_some_iff h]
  exact Option.eq_none_iff_forall_ne_some

end Tag

namespace OperationSet

variable {set : OperationSet}

theorem indexOfTag?_str_eq_iff (h : ∀ record ∈ set.records, record.Distinct) (label : String)
    {found : Option Nat}
    : set.indexOfTag? (.str label) = found ↔
        LastIfAny (fun record => record.Carries label) set.recordValues found := by
  apply lastIndex?_eq_iff
  intro record hrecord
  rw [Record.tagValue_beq_str, Record.tag?_eq_some_iff (h record hrecord)]

theorem indexOfTag?_null_eq_iff (h : ∀ record ∈ set.records, record.Distinct) {found : Option Nat}
    : set.indexOfTag? .null = found ↔
        LastIfAny (fun record => ∀ label, ¬record.Carries label) set.recordValues found := by
  apply lastIndex?_eq_iff
  intro record hrecord
  rw [Record.tagValue_beq_null, Record.tag?_eq_none_iff (h record hrecord)]

theorem indexOfTag?_of_no_tag {query : Value} (hstr : ∀ label, query ≠ .str label)
    (hnull : query ≠ .null) : set.indexOfTag? query = none := by
  unfold indexOfTag?
  rw [lastIndex?_eq_none_iff]
  intro record _
  rw [beq_eq_false_iff_ne]
  unfold Record.tagValue
  split
  · exact (hstr _).symm
  · exact hnull.symm

end OperationSet

namespace Workspace

/--
After any session, the lookup of a text in a set finds the last record that carries it as its tag,
and nothing if no record does. The lookup of null finds the last record that carries no tag, and
nothing only if every record carries one. Other values are no tags, and their lookup finds nothing.
-/
theorem run_indexOfTag (host : InPlaceHost) (commands : List Command)
    : let w := (run host {} commands).2
      ∀ handle set, w.store.set? handle = some set →
        (∀ label found, set.indexOfTag? (.str label) = found ↔
          LastIfAny (fun record => record.Carries label) set.recordValues found) ∧
        (∀ found, set.indexOfTag? .null = found ↔
          LastIfAny (fun record => ∀ label, ¬record.Carries label) set.recordValues found) ∧
        (∀ query, (∀ label, query ≠ .str label) → query ≠ .null →
          set.indexOfTag? query = none) ∧
        ∀ id query, Assoc.get? id w.sets = some handle →
          (w.execute host (.indexOfTag id query)).1 =
            .ok (((set.indexOfTag? query).map fun i => Value.int i).getD .null) := by
  intro w handle set hset
  have hsound : w.store.Sound := run_sound host (Store.empty_sound 0) commands
  have hdistinct := (Store.set?_sound hsound hset).distinct
  refine ⟨fun label _ => OperationSet.indexOfTag?_str_eq_iff hdistinct label,
    fun _ => OperationSet.indexOfTag?_null_eq_iff hdistinct,
    fun _ => OperationSet.indexOfTag?_of_no_tag, ?_⟩
  intro id query hid
  simp only [execute, withSet, withId, hid, hset]

theorem run_indexOfTag_changed
    : let plain : Value := .object [(.str "$set", .object [])]
      let first : Value := .object [(.str "$tag", .str "a")]
      let second : Value := .object [(.str "unset", .str "x"), (.str "tag", .str "a")]
      let commands : List Command :=
        [.newSet "s" (.list [first, second, second]) none true .null,
          .addRecords "s" (.list [plain, plain]) { after := .str "a" },
          .addRecords "s" first { index := .int 0 }, .removeRecord "s" (.int 3)]
      let w := (run .standard {} commands).2
      ∃ set, w.store.set? 0 = some set ∧
        set.recordValues = [first, first, second, plain, plain] ∧
        set.indexOfTag? (.str "a") = some 2 ∧
        IsLast (fun record => record.Carries "a") set.recordValues 2 ∧
        set.indexOfTag? (.str "b") = none ∧
        (∀ record ∈ set.recordValues, ¬record.Carries "b") ∧
        set.indexOfTag? .null = some 4 ∧
        IsLast (fun record => ∀ label, ¬record.Carries label) set.recordValues 4 := by
  intro plain first second commands w
  obtain ⟨set, hset, hrecords, ha, hb, hnull⟩ : ∃ set, w.store.set? 0 = some set ∧
      set.recordValues = [first, first, second, plain, plain] ∧
      set.indexOfTag? (.str "a") = some 2 ∧ set.indexOfTag? (.str "b") = none ∧
      set.indexOfTag? .null = some 4 :=
    ⟨_, rfl, by decide +kernel, by decide +kernel, by decide +kernel, by decide +kernel⟩
  obtain ⟨hlabel, huntagged, -⟩ := run_indexOfTag .standard commands 0 set hset
  exact ⟨set, hset, hrecords, ha, (hlabel "a" (some 2)).mp ha, hb, (hlabel "b" none).mp hb, hnull,
    (huntagged (some 4)).mp hnull⟩

end Workspace
end Reshape
