import Reshape.Proofs.Records

/-!
This module contains the places in a list of records: where a position lets records be added, and
which record a key finds. A tag stands for the last record that has it. Adding and removing records
is told by these places.
-/

namespace Reshape

/--
The last position in a list at which a property holds.
-/
structure IsLast {α : Type} (p : α → Prop) (as : List α) (i : Nat) : Prop where
  found : ∃ a, as[i]? = some a ∧ p a
  last : ∀ j a, i < j → as[j]? = some a → ¬p a

section IsLast

variable {α : Type} {p : α → Bool} {as : List α} {i : Nat}

theorem IsLast.unique {q : α → Prop} {j : Nat} (hi : IsLast q as i) (hj : IsLast q as j) : i = j := by
  obtain ⟨a, ha, hqa⟩ := hi.found
  obtain ⟨b, hb, hqb⟩ := hj.found
  rcases Nat.lt_trichotomy i j with hlt | heq | hlt
  · exact absurd hqb (hi.last j b hlt hb)
  · exact heq
  · exact absurd hqa (hj.last i a hlt ha)

theorem lastIndex?_eq_none_iff : lastIndex? p as = none ↔ ∀ a ∈ as, p a = false := by
  induction as with
  | nil => simp [lastIndex?]
  | cons a as ih =>
    rw [List.forall_mem_cons, ← ih, lastIndex?]
    cases lastIndex? p as with
    | some i => simp
    | none => cases p a <;> simp

theorem isLast_of_lastIndex? (h : lastIndex? p as = some i) : IsLast (fun a => p a = true) as i := by
  induction as generalizing i with
  | nil => cases h
  | cons a as ih =>
    rw [lastIndex?] at h
    cases hrest : lastIndex? p as with
    | some k =>
      rw [hrest] at h
      cases h
      have hk := ih hrest
      refine ⟨hk.found, ?_⟩
      intro j b hj hb
      cases j with
      | zero => omega
      | succ j => exact hk.last j b (by omega) hb
    | none =>
      -- Nothing of the rest has the property, so it is the first element if any.
      rw [hrest] at h
      dsimp only at h
      split at h
      · next ha =>
        cases h
        refine ⟨⟨a, rfl, ha⟩, ?_⟩
        intro j b hj hb
        cases j with
        | zero => omega
        | succ j =>
          rw [lastIndex?_eq_none_iff.mp hrest b (List.mem_of_getElem? hb)]
          exact Bool.false_ne_true
      · cases h

theorem lastIndex?_eq_some_iff : lastIndex? p as = some i ↔ IsLast (fun a => p a = true) as i := by
  constructor
  · exact isLast_of_lastIndex?
  · intro h
    cases hindex : lastIndex? p as with
    | some k => rw [h.unique (isLast_of_lastIndex? hindex)]
    | none =>
      obtain ⟨a, ha, hpa⟩ := h.found
      rw [lastIndex?_eq_none_iff.mp hindex a (List.mem_of_getElem? ha)] at hpa
      cases hpa

end IsLast

def LastTagged (records : List Record) (tag : String) (i : Nat) : Prop :=
  IsLast (fun record => record.tag? = some tag) records i

/--
The places at which a position lets records be added: its index, if it has one, or else the place
after the last record with the one tag, or that of the last record with the other one, or the end.
-/
def InsertsAt (records : List Record) (position : Position) (i : Nat) : Prop :=
  if position.index ≠ .null then
    position.index = .int i ∧ i ≤ records.length
  else if position.after ≠ .null then
    ∃ tag last, position.after = .str tag ∧ LastTagged records tag last ∧ i = last + 1
  else if position.before ≠ .null then
    ∃ tag, position.before = .str tag ∧ LastTagged records tag i
  else
    i = records.length

/--
The record that a key finds, by index or by tag.
-/
inductive Finds (records : List Record) : Value → Nat → Prop where
  | index (i : Nat) (h : i < records.length) : Finds records (.int i) i
  | tag (label : String) (i : Nat) (h : LastTagged records label i) : Finds records (.str label) i

section TagValue

variable {record : Record}

theorem Record.tagValue_beq_str {label : String}
    : (record.tagValue == .str label) = true ↔ record.tag? = some label := by
  rw [beq_iff_eq, tagValue]
  cases record.tag? with
  | none => simp
  | some other => simp

theorem Record.tagValue_beq_null : (record.tagValue == .null) = true ↔ record.tag? = none := by
  rw [beq_iff_eq, tagValue]
  cases record.tag? with
  | none => simp
  | some label => simp

end TagValue

namespace OperationSet

variable {set : OperationSet}

theorem indexOfTag?_eq_some_iff {tag : String} {i : Nat}
    : set.indexOfTag? (.str tag) = some i ↔ LastTagged set.records tag i := by
  unfold indexOfTag? LastTagged
  rw [lastIndex?_eq_some_iff]
  simp only [Record.tagValue_beq_str]

theorem anchor_eq_ok_iff {tag : Value} {i : Nat}
    : set.anchor tag = .ok i ↔ ∃ label, tag = .str label ∧ LastTagged set.records label i := by
  unfold anchor
  split
  · next label =>
    simp only [Value.str.injEq, exists_eq_left', ← indexOfTag?_eq_some_iff]
    cases set.indexOfTag? (.str label) with
    | none => simp
    | some k => simp
  · next hstr =>
    constructor
    · rintro ⟨⟩
    · rintro ⟨label, rfl, -⟩
      exact absurd rfl (hstr label)

theorem insertionIndex_eq_ok_iff {position : Position} {i : Nat}
    : set.insertionIndex position = .ok i ↔ InsertsAt set.records position i := by
  have hlength : set.size = set.records.length := rfl
  unfold insertionIndex InsertsAt
  split
  · split
    · next n hn =>
      rw [hn, Value.int.injEq]
      split
      · rw [Except.ok.injEq]
        omega
      · constructor
        · rintro ⟨⟩
        · omega
    · next hint =>
      constructor
      · rintro ⟨⟩
      · rintro ⟨h, -⟩
        exact absurd h (hint i)
  · split
    · simp only [except_map_eq_ok_iff, anchor_eq_ok_iff]
      constructor
      · rintro ⟨last, ⟨label, hlabel, hlast⟩, hi⟩
        exact ⟨label, last, hlabel, hlast, hi.symm⟩
      · rintro ⟨label, last, hlabel, hlast, hi⟩
        exact ⟨last, ⟨label, hlabel, hlast⟩, hi.symm⟩
    · split
      · exact anchor_eq_ok_iff
      · rw [Except.ok.injEq, hlength]
        exact eq_comm

theorem removalIndex?_eq_some_iff {key : Value} {i : Nat}
    : set.removalIndex? key = .ok (some i) ↔ Finds set.records key i := by
  have hlength : set.size = set.records.length := rfl
  constructor
  · intro h
    cases key with
    | str label =>
      rw [removalIndex?, Except.ok.injEq] at h
      exact .tag label i (indexOfTag?_eq_some_iff.mp h)
    | int n =>
      rw [removalIndex?, Except.ok.injEq] at h
      split at h
      · next hn =>
        cases h
        have hcast : (n.toNat : Int) = n := Int.toNat_of_nonneg hn.1
        have hfinds : Finds set.records (.int n.toNat) n.toNat := .index n.toNat (by omega)
        rw [hcast] at hfinds
        exact hfinds
      · cases h
    | _ => cases h
  · intro h
    cases h with
    | index i h =>
      rw [removalIndex?, if_pos (by omega)]
      rfl
    | tag label i h => rw [removalIndex?, indexOfTag?_eq_some_iff.mpr h]

theorem removalIndex?_eq_none {key : Value}
    (hkey : (∃ n, key = .int n) ∨ ∃ label, key = .str label)
    (h : ∀ i, ¬Finds set.records key i) : set.removalIndex? key = .ok none := by
  cases hindex : set.removalIndex? key with
  | error e =>
    rcases hkey with ⟨n, rfl⟩ | ⟨label, rfl⟩
    · cases hindex
    · cases hindex
  | ok index? =>
    cases index? with
    | none => rfl
    | some i => exact absurd (removalIndex?_eq_some_iff.mp hindex) (h i)

theorem removalIndex?_eq_error {key : Value} (hint : ∀ n, key ≠ .int n)
    (hstr : ∀ label, key ≠ .str label) : set.removalIndex? key = .error (.badRemovalKey key) := by
  unfold removalIndex?
  split
  · next label => exact absurd rfl (hstr label)
  · next n => exact absurd rfl (hint n)
  · rfl

theorem add_eq_ok_iff {operations : Value} {position : Position} {i : Nat} {set' : OperationSet}
    : set.add operations position = .ok (i, set') ↔
        ∃ added, declaredRecords operations = .ok added ∧ InsertsAt set.records position i ∧
          set' = { set with records := set.records.take i ++ added ++ set.records.drop i } := by
  unfold add
  simp only [except_bind_eq_ok_iff, insertionIndex_eq_ok_iff]
  constructor
  · rintro ⟨added, hadded, index, hindex, ⟨⟩⟩
    exact ⟨added, hadded, hindex, rfl⟩
  · rintro ⟨added, hadded, hindex, rfl⟩
    exact ⟨added, hadded, i, hindex, rfl⟩

theorem remove_of_finds {key : Value} {i : Nat} (h : Finds set.records key i)
    : set.remove key =
        .ok (set.records[i]?, { set with records := set.records.eraseIdx i }) := by
  unfold remove
  rw [removalIndex?_eq_some_iff.mpr h]
  rfl

theorem exists_of_finds {records : List Record} {key : Value} {i : Nat} (h : Finds records key i)
    : ∃ record, records[i]? = some record := by
  cases h with
  | index i h => exact ⟨records[i], List.getElem?_eq_getElem h⟩
  | tag label i h =>
    obtain ⟨record, hrecord, -⟩ := h.found
    exact ⟨record, hrecord⟩

theorem remove_cases (set : OperationSet) (key : Value)
    : (∃ i record, Finds set.records key i ∧ set.records[i]? = some record ∧
          set.remove key = .ok (some record, { set with records := set.records.eraseIdx i })) ∨
        set.remove key = .ok (none, set) ∨ ∃ cause, set.remove key = .error cause := by
  cases hindex : set.removalIndex? key with
  | error cause =>
    right
    right
    refine ⟨cause, ?_⟩
    rw [remove, hindex]
    rfl
  | ok index? =>
    cases index? with
    | none =>
      right
      left
      rw [remove, hindex]
      rfl
    | some i =>
      left
      have hfinds := removalIndex?_eq_some_iff.mp hindex
      obtain ⟨record, hrecord⟩ := exists_of_finds hfinds
      refine ⟨i, record, hfinds, hrecord, ?_⟩
      rw [remove_of_finds hfinds, hrecord]

theorem remove_of_finds_nothing {key : Value}
    (hkey : (∃ n, key = .int n) ∨ ∃ label, key = .str label)
    (h : ∀ i, ¬Finds set.records key i) : set.remove key = .ok (none, set) := by
  unfold remove
  rw [removalIndex?_eq_none hkey h]
  rfl

end OperationSet

end Reshape
