import Reshape.Proofs.Relocation

/-!
This module contains conditions on what is found in a value at any depth. What such a condition says
of a value it says of everything that can be reached in it, and it is kept where a place is filled
with something that meets it, where a place is given up and where something is relocated.
-/

namespace Reshape

/--
Which leaves and which keys a value may have. Null and text keys are always allowed, because
reshaping makes them by itself.
-/
structure Parts where
  leaf : Value → Bool
  key : Key → Bool
  leaf_null : leaf .null = true
  key_str : ∀ s, key (.str s) = true

/--
The condition that all values meet.
-/
def Parts.any : Parts where
  leaf _ := true
  key _ := true
  leaf_null := rfl
  key_str _ := rfl

namespace Value

mutual

/--
Whether a value has the given parts alone, at any depth.
-/
def madeOf (p : Parts) : Value → Bool
  | .list items => itemsMadeOf p items
  | .tuple items => itemsMadeOf p items
  | .object fields => fieldsMadeOf p fields
  | .operationSet _ records => itemsMadeOf p records
  | v => p.leaf v

@[inherit_doc madeOf]
def itemsMadeOf (p : Parts) : List Value → Bool
  | [] => true
  | v :: vs => madeOf p v && itemsMadeOf p vs

@[inherit_doc madeOf]
def fieldsMadeOf (p : Parts) : List (Key × Value) → Bool
  | [] => true
  | (k, v) :: fields => p.key k && madeOf p v && fieldsMadeOf p fields

end

/--
What a place of a value with the given parts may hold: such a value or nothing.
-/
def Fills (p : Parts) (v : Value) : Prop :=
  v = .missing ∨ v.madeOf p = true

variable {p : Parts}

theorem itemsMadeOf_iff {items : List Value}
    : itemsMadeOf p items = true ↔ ∀ v ∈ items, v.madeOf p = true := by
  induction items with
  | nil => simp [itemsMadeOf]
  | cons v vs ih => simp [itemsMadeOf, ih]

theorem fieldsMadeOf_iff {fields : List (Key × Value)}
    : fieldsMadeOf p fields = true ↔
        ∀ field ∈ fields, p.key field.1 = true ∧ field.2.madeOf p = true := by
  induction fields with
  | nil => simp [fieldsMadeOf]
  | cons field fields ih =>
    obtain ⟨k, v⟩ := field
    simp [fieldsMadeOf, ih]

@[simp]
theorem madeOf_null : madeOf p .null = true := p.leaf_null

@[simp]
theorem madeOf_list {items : List Value}
    : (list items).madeOf p = true ↔ ∀ v ∈ items, v.madeOf p = true := by
  rw [madeOf, itemsMadeOf_iff]

@[simp]
theorem madeOf_object {fields : List (Key × Value)}
    : (object fields).madeOf p = true ↔
        ∀ field ∈ fields, p.key field.1 = true ∧ field.2.madeOf p = true := by
  rw [madeOf, fieldsMadeOf_iff]

theorem Fills.orNull {v : Value} (h : v.Fills p) : v.orNull.madeOf p = true := by
  rcases h with rfl | h
  · exact madeOf_null
  · cases v with
    | missing => exact madeOf_null
    | _ => exact h

theorem Fills.madeOf_of_ne {v : Value} (h : v.Fills p) (hne : v ≠ .missing)
    : v.madeOf p = true := by
  rcases h with h | h
  · exact absurd h hne
  · exact h

mutual

theorem madeOf_any : ∀ v : Value, v.madeOf .any = true
  | .list items | .tuple items | .operationSet _ items => itemsMadeOf_any items
  | .object fields => fieldsMadeOf_any fields
  | .null | .bool _ | .int _ | .float _ | .str _ | .function _ | .path _ | .missing => rfl

theorem itemsMadeOf_any : ∀ items : List Value, itemsMadeOf .any items = true
  | [] => rfl
  | v :: vs => by
    rw [itemsMadeOf, madeOf_any v, itemsMadeOf_any vs]
    rfl

theorem fieldsMadeOf_any : ∀ fields : List (Key × Value), fieldsMadeOf .any fields = true
  | [] => rfl
  | (k, v) :: fields => by
    rw [fieldsMadeOf, madeOf_any v, fieldsMadeOf_any fields]
    rfl

end

section Places

variable {v new : Value} {slot : Slot} {segment : String}

theorem madeOf_of_get? (hv : v.madeOf p = true) {w : Value} (h : v.get? slot = some w)
    : w.madeOf p = true := by
  cases v <;> cases slot <;> simp only [get?, reduceCtorEq] at h
  next items i =>
    rw [madeOf_list] at hv
    apply hv
    exact List.mem_of_getElem? h
  next fields k =>
    rw [madeOf_object] at hv
    exact (hv _ (Assoc.mem_of_get? h)).2

theorem fills_content (hv : v.madeOf p = true) (slot : Slot)
    : ((v.get? slot).getD .missing).Fills p := by
  cases h : v.get? slot with
  | none => exact Or.inl rfl
  | some w => exact Or.inr (madeOf_of_get? hv h)

theorem madeOf_put (hv : v.madeOf p = true) (hnew : new.madeOf p = true)
    (hslot : ∀ k, slot = .key k → p.key k = true) : (v.put slot new).madeOf p = true := by
  cases v with
  | list items =>
    cases slot with
    | key k => exact hv
    | index i =>
      rw [put, madeOf_list]
      rw [madeOf_list] at hv
      intro w hw
      rcases List.mem_or_eq_of_mem_set hw with hw | rfl
      · exact hv w hw
      · exact hnew
  | object fields =>
    cases slot with
    | index i => exact hv
    | key k =>
      rw [put, madeOf_object]
      rw [madeOf_object] at hv
      intro field hfield
      rcases Assoc.mem_of_mem_insert hfield with rfl | hfield
      · exact ⟨hslot k rfl, hnew⟩
      · exact hv field hfield
  | _ => exact hv

theorem madeOf_clear (hv : v.madeOf p = true) (slot : Slot) : (v.clear slot).madeOf p = true := by
  cases v with
  | list items =>
    cases slot with
    | key k => exact hv
    | index i =>
      show ((list items).put (.index i) .null).madeOf p = true
      apply madeOf_put hv madeOf_null
      rintro k ⟨⟩
  | object fields =>
    cases slot with
    | index i => exact hv
    | key k =>
      rw [clear, madeOf_object]
      rw [madeOf_object] at hv
      intro field hfield
      apply hv
      exact (List.mem_filter.mp hfield).1
  | _ => exact hv

theorem key_of_slot? (p : Parts) (h : v.slot? segment = some slot)
    : ∀ k, slot = .key k → p.key k = true := by
  rintro k rfl
  cases v with
  | object fields =>
    cases h
    apply p.key_str
  | list items => simp [slot?, Option.bind_eq_some_iff] at h
  | _ => cases h

theorem madeOf_store (hv : v.madeOf p = true) (hslot : v.slot? segment = some slot)
    (hnew : new.Fills p) : (v.store slot new).madeOf p = true := by
  unfold store
  split
  · apply madeOf_clear hv
  · next hne =>
    exact madeOf_put hv (hnew.madeOf_of_ne hne) (key_of_slot? p hslot)

theorem fills_child (hv : v.madeOf p = true) (segment : String) : (v.child segment).Fills p := by
  cases h : v.slot? segment with
  | none => exact Or.inl (child_of_slot?_eq_none h)
  | some slot =>
    rw [child_of_slot? h]
    apply fills_content hv

theorem madeOf_assign (hv : v.madeOf p = true) (segment : String) (hnew : new.madeOf p = true)
    : (v.assign segment new).madeOf p = true := by
  unfold assign
  split
  · next slot hslot => exact madeOf_put hv hnew (key_of_slot? p hslot)
  · exact hv

end Places

section Relocate

variable {v new : Value}

theorem fills_seek (hv : v.Fills p) (segments : List String) : (v.seek segments).Fills p := by
  induction segments generalizing v with
  | nil => exact hv
  | cons segment rest ih =>
    apply ih
    rcases hv with rfl | hv
    · exact Or.inl rfl
    · exact fills_child hv segment

theorem madeOf_detach (hv : v.madeOf p = true) {segments : List String}
    (hfound : v.seek segments ≠ .missing) : (v.detach segments).madeOf p = true := by
  induction segments generalizing v with
  | nil => exact hv
  | cons segment rest ih =>
    cases rest with
    | nil =>
      rw [detach]
      split
      · apply madeOf_clear hv
      · exact hv
    | cons next rest =>
      have hchild := child_ne_of_seek_ne hfound
      rw [detach]
      · apply madeOf_assign hv segment
        exact ih ((fills_child hv segment).madeOf_of_ne hchild) hfound
      · simp

theorem madeOf_room (hv : v.Fills p) (segment : String) (rest : List String)
    : (v.room (segment :: rest)).madeOf p = true := by
  by_cases h : v.admits (segment :: rest)
  · rw [room_of_admits h]
    obtain ⟨slot, hslot⟩ := Option.isSome_iff_exists.mp h
    apply hv.madeOf_of_ne
    apply ne_missing_of_isContainer
    exact isContainer_of_slot? hslot
  · rw [room_of_not_admits h, madeOf_object]
    rintro field ⟨⟩

theorem madeOf_placed (hv : v.madeOf p = true) (hnew : new.madeOf p = true)
    (segments : List String) : (placed new segments v).madeOf p = true := by
  induction segments generalizing v with
  | nil => exact hnew
  | cons segment rest ih =>
    rw [placed]
    apply madeOf_assign hv segment
    cases rest with
    | nil => exact hnew
    | cons next rest =>
      apply ih
      exact madeOf_room (fills_child hv segment) next rest

theorem madeOf_nest (hnew : new.madeOf p = true) (segments : List String)
    : (new.nest segments).madeOf p = true := by
  cases segments with
  | nil => exact hnew
  | cons segment rest =>
    rw [nest_eq]
    apply madeOf_placed _ hnew
    rw [madeOf_object]
    rintro field ⟨⟩

end Relocate

end Value

section Relocate

variable {root : Value}

/--
A relocation that makes the value itself what the source leads to.
-/
theorem relocate_to_root (keep : Bool) {source : List String} (hs : source ≠ []) (root : Value)
    : relocate keep source [] root =
        if root.blocked source then .fail root .tooManyDigits
        else .stay (if root.seek source = .missing then root else root.seek source) := by
  have hlookup : relocated? source [] root =
      if root.blocked source then .error .tooManyDigits
      else .ok (if root.seek source = .missing then none else some (root, root.seek source)) := by
    have hpivot : pivot source [] = [] := by
      simp [pivot]
    unfold relocated?
    rw [hpivot]
    by_cases hc : root.isContainer
    · by_cases hb : root.blocked source
      · simp [hc, hb, Value.descend, Value.read_eq, bind, Except.bind]
      · by_cases hf : root.seek source = .missing
        · simp [hc, hb, hf, Value.descend, Value.read_eq, bind, Except.bind, pure, Except.pure]
        · simp [hc, hb, hf, Value.descend, Value.read_eq, bind, Except.bind, pure, Except.pure]
    · have hleaf : root.isContainer = false := by simpa using hc
      simp [hleaf, Value.blocked_of_not_container hleaf, Value.seek_of_not_container hleaf hs]
  unfold relocate
  rw [hlookup]
  by_cases hb : root.blocked source
  · simp [hs, hb]
  · by_cases hf : root.seek source = .missing
    · simp [hs, hb, hf]
    · simp [hs, hb, hf]

theorem relocate_of_root (keep : Bool) (target : List String) (root : Value)
    : ∃ log, relocate keep [] target root =
        if keep = true ∧ target ≠ [] ∧ root.blocked target = true then .fail root .tooManyDigits
        else if target = [] ∨ keep = true ∧ root.admits target = false then .stay root
        else if keep then ⟨Value.placed root target root, log, none⟩
        else .stay (root.nest target) := by
  unfold relocate relocateRoot
  cases target with
  | nil => exact ⟨[], by simp⟩
  | cons segment rest =>
    cases keep with
    | false => exact ⟨[], by simp⟩
    | true =>
      by_cases hr : root.refuses segment
      · exact ⟨[], by simp [hr, Value.blocked]⟩
      · by_cases ha : root.accepts segment
        · obtain ⟨log, hplace⟩ := @Value.place_eq root root segment rest
            (String.intercalate "." (segment :: rest)) (by simpa using hr)
          refine ⟨log, ?_⟩
          have hadmits : root.admits (segment :: rest) = true := ha
          by_cases hb : root.blocked (segment :: rest)
          · simp [hr, ha, hb, Value.placeAt, hplace, Relocation.ofPlaced]
          · simp [hr, ha, hb, hadmits, Value.placeAt, hplace, Relocation.ofPlaced]
        · have hadmits : root.admits (segment :: rest) = false := by
            rw [Value.admits]
            simpa using ha
          have hblocked : root.blocked (segment :: rest) = false := by
            rw [Value.blocked, Value.child_of_not_accepts ha, Value.blocked_missing]
            simpa using hr
          exact ⟨[], by simp [hr, ha, hadmits, hblocked]⟩

theorem madeOf_remainder {p : Parts} (keep : Bool) {source : List String}
    (hroot : root.madeOf p = true) (hfound : root.seek source ≠ .missing)
    : (root.remainder keep source).madeOf p = true := by
  unfold Value.remainder
  split
  · exact hroot
  · exact Value.madeOf_detach hroot hfound

/--
A relocation that does not fail keeps the parts of a value.
-/
theorem madeOf_relocate {p : Parts} (keep : Bool) (source target : List String)
    (hroot : root.madeOf p = true) (h : (relocate keep source target root).failure = none)
    : (relocate keep source target root).value.madeOf p = true := by
  by_cases hs : source = []
  · subst hs
    obtain ⟨log, hrelocate⟩ := relocate_of_root keep target root
    rw [hrelocate] at h ⊢
    split at h
    · cases h
    · next hb =>
      rw [if_neg hb]
      split
      · exact hroot
      · split
        · exact Value.madeOf_placed hroot hroot target
        · exact Value.madeOf_nest hroot target
  · by_cases ht : target = []
    · subst ht
      rw [relocate_to_root keep hs] at h ⊢
      split at h
      · cases h
      · next hb =>
        rw [if_neg hb]
        show (if root.seek source = .missing then root else root.seek source).madeOf p = true
        split
        · exact hroot
        · next hf => exact (Value.fills_seek (Or.inr hroot) source).madeOf_of_ne hf
    · by_cases hr : root.blocked source ∨ root.seek source ≠ .missing ∧
          (root.seek (pivot source target)).refuses (fork source target)
      · rw [relocate_of_refused keep hs ht hr] at h
        cases h
      · by_cases hu : root.seek source = .missing ∨
            (root.seek (pivot source target)).accepts (fork source target) = false
        · rw [relocate_of_unreachable keep hs ht hr hu]
          exact hroot
        · obtain ⟨-, log, hrelocate⟩ := relocate_of_found keep hs ht hr hu
          rw [hrelocate] at h ⊢
          rw [not_or] at hu
          split at h
          · cases h
          · next hb =>
            rw [if_neg hb]
            apply Value.madeOf_placed (madeOf_remainder keep hroot hu.1)
            exact (Value.fills_seek (Or.inr hroot) source).madeOf_of_ne hu.1

end Relocate

end Reshape
