import Reshape.Value.Slot

/-!
This module contains the laws of the places inside containers: what a place holds after something
has been stored there, which places do not notice it, and what about a container never changes.
-/

namespace Reshape

/--
What a slot holds once a value has been stored in it.
-/
def Slot.kept : Slot → Value → Option Value
  | .key _, .missing => none
  | .index _, .missing => some .null
  | _, v => some v

/--
The kind of a value as far as paths are concerned. A list never changes its length.
-/
inductive Frame where
  | leaf
  | object
  | list (length : Nat)
  deriving DecidableEq

def keysWith (k : Key) (keys : List Key) : List Key :=
  if k ∈ keys then keys else keys ++ [k]

def keysWithout (k : Key) (keys : List Key) : List Key :=
  keys.filter fun k' => decide (k' ≠ k)

/--
The keys of an object after a value has been stored under a key.
-/
def keysAfter (k : Key) (new : Value) (keys : List Key) : List Key :=
  if new = .missing then keysWithout k keys else keysWith k keys

theorem Slot.kept_of_ne {slot : Slot} {v : Value} (h : v ≠ .missing) : slot.kept v = some v := by
  cases slot <;> cases v <;> first | rfl | exact absurd rfl h

namespace Value

def frame : Value → Frame
  | .list items => .list items.length
  | .object _ => .object
  | _ => .leaf

def keys? : Value → Option (List Key)
  | .object fields => some (fields.map (·.1))
  | _ => none

/--
Whether a container has a slot. An object has one for every key.
-/
def hasSlot : Value → Slot → Bool
  | .object _, .key _ => true
  | .list items, .index i => decide (i < items.length)
  | _, _ => false

section Frame

variable {v w : Value}

theorem slot?_congr (h : v.frame = w.frame) (segment : String)
    : v.slot? segment = w.slot? segment := by
  cases v <;> cases w <;> simp_all [frame, slot?]

theorem accepts_congr (h : v.frame = w.frame) (segment : String)
    : v.accepts segment = w.accepts segment := by
  unfold accepts
  rw [slot?_congr h]

theorem refuses_congr (h : v.frame = w.frame) (segment : String)
    : v.refuses segment = w.refuses segment := by
  cases v <;> cases w <;> simp_all [frame, refuses]

theorem isContainer_congr (h : v.frame = w.frame) : v.isContainer = w.isContainer := by
  cases v <;> cases w <;> simp_all [frame, isContainer]

end Frame

theorem isContainer_of_hasSlot {v : Value} {slot : Slot} (h : v.hasSlot slot = true)
    : v.isContainer = true := by
  cases v <;> simp_all [hasSlot, isContainer]

theorem hasSlot_of_slot? {v : Value} {segment : String} {slot : Slot}
    (h : v.slot? segment = some slot) : v.hasSlot slot = true := by
  cases v with
  | object fields =>
    simp only [slot?, Option.some.injEq] at h
    rw [← h]
    rfl
  | list items =>
    simp only [slot?, Option.bind_eq_some_iff] at h
    obtain ⟨i, -, hi⟩ := h
    split at hi
    · next hlt =>
      cases hi
      simp [hasSlot, hlt]
    · cases hi
  | _ => simp [slot?] at h

theorem isContainer_of_slot? {v : Value} {segment : String} {slot : Slot}
    (h : v.slot? segment = some slot) : v.isContainer = true := by
  apply isContainer_of_hasSlot
  apply hasSlot_of_slot? h

theorem ne_missing_of_isContainer {v : Value} (h : v.isContainer = true) : v ≠ .missing := by
  intro hv
  rw [hv] at h
  cases h

section Update

variable {v : Value} {slot other : Slot}

@[simp]
theorem frame_put (new : Value) : (v.put slot new).frame = v.frame := by
  cases v <;> cases slot <;> simp [put, frame]

@[simp]
theorem frame_clear : (v.clear slot).frame = v.frame := by
  cases v <;> cases slot <;> simp [clear, frame]

@[simp]
theorem frame_store (new : Value) : (v.store slot new).frame = v.frame := by
  unfold store
  split
  · apply frame_clear
  · apply frame_put

theorem get?_put_self (h : v.hasSlot slot = true) (new : Value)
    : (v.put slot new).get? slot = some new := by
  cases v <;> cases slot <;> simp_all [put, get?, hasSlot]

theorem get?_put_of_ne (h : other ≠ slot) (new : Value)
    : (v.put slot new).get? other = v.get? other := by
  cases v <;> cases slot <;> cases other <;> simp_all [put, get?]
  next items i i' =>
    rw [List.getElem?_set_ne]
    exact fun e => h e.symm
  next fields k k' => apply Assoc.get?_insert_of_ne h

theorem get?_clear_self (h : v.hasSlot slot = true)
    : (v.clear slot).get? slot = slot.kept .missing := by
  cases v <;> cases slot <;> simp_all [clear, get?, hasSlot, Slot.kept]

theorem get?_clear_of_ne (h : other ≠ slot) : (v.clear slot).get? other = v.get? other := by
  cases v <;> cases slot <;> cases other <;> simp_all [clear, get?]
  next items i i' =>
    rw [List.getElem?_set_ne]
    exact fun e => h e.symm
  next fields k k' => apply Assoc.get?_erase_of_ne h

theorem get?_store_self (h : v.hasSlot slot = true) (new : Value)
    : (v.store slot new).get? slot = slot.kept new := by
  unfold store
  split
  · apply get?_clear_self h
  · next hne =>
    rw [get?_put_self h]
    rw [Slot.kept_of_ne]
    exact hne

theorem get?_store_of_ne (h : other ≠ slot) (new : Value)
    : (v.store slot new).get? other = v.get? other := by
  unfold store
  split
  · apply get?_clear_of_ne h
  · apply get?_put_of_ne h

theorem store_of_ne {new : Value} (h : new ≠ .missing) : v.store slot new = v.put slot new := by
  unfold store
  split
  · exact absurd rfl h
  · rfl

theorem put_of_get? {c : Value} (h : v.get? slot = some c) : v.put slot c = v := by
  cases v <;> cases slot <;> simp_all [put, get?]
  next items i =>
    obtain ⟨hi, rfl⟩ := List.getElem?_eq_some_iff.mp h
    apply List.set_getElem_self
  next fields k => apply Assoc.insert_of_get? h

@[simp]
theorem put_put (a b : Value) : (v.put slot a).put slot b = v.put slot b := by
  cases v <;> cases slot <;> simp [put, Assoc.insert_insert]

@[simp]
theorem clear_put (new : Value) : (v.put slot new).clear slot = v.clear slot := by
  cases v <;> cases slot <;> simp [put, clear, Assoc.erase_insert]

theorem clear_of_get?_eq_none (h : v.get? slot = none) : v.clear slot = v := by
  cases v <;> cases slot <;> simp only [get?] at h <;> simp only [clear]
  next items i =>
    rw [List.getElem?_eq_none_iff] at h
    rw [List.set_eq_of_length_le h]
  next fields k => rw [Assoc.erase_of_get?_eq_none h]

theorem store_put (a b : Value) : (v.put slot a).store slot b = v.store slot b := by
  unfold store
  split
  · apply clear_put
  · apply put_put

theorem clear_clear : (v.clear slot).clear slot = v.clear slot := by
  cases v <;> cases slot <;> simp [clear, Assoc.erase_erase]

/--
Of two values that are stored in one slot the second one stays. It takes the place of the first one,
so the first one must not have given up a field that the second one makes again.
-/
theorem store_store {a b : Value}
    (h : a ≠ .missing ∨ v.get? slot = none ∨ (slot.kept .missing = none → b = .missing))
    : (v.store slot a).store slot b = v.store slot b := by
  by_cases ha : a = .missing
  · subst ha
    show (v.clear slot).store slot b = v.store slot b
    rcases h with h | h | h
    · exact absurd rfl h
    · rw [clear_of_get?_eq_none h]
    · cases slot with
      | key k =>
        rw [h rfl]
        exact clear_clear
      | index i =>
        have hnull : v.clear (.index i) = v.put (.index i) .null := by
          cases v <;> rfl
        rw [hnull, store_put]
  · rw [store_of_ne ha, store_put]

theorem clear_comm (slot other : Slot)
    : (v.clear slot).clear other = (v.clear other).clear slot := by
  by_cases h : slot = other
  · rw [h]
  · cases v <;> cases slot <;> cases other <;> simp_all [clear]
    next items i i' => rw [List.set_comm _ _ h]
    next fields k k' => rw [Assoc.erase_comm]

theorem clear_put_of_ne (h : slot ≠ other) (a : Value)
    : (v.put other a).clear slot = (v.clear slot).put other a := by
  cases v <;> cases slot <;> cases other <;> simp_all [clear, put]
  next items i i' => rw [List.set_comm _ _ h]
  next fields k k' => rw [Assoc.erase_insert_of_ne h]

theorem put_comm_of_get? (h : slot ≠ other) (hslot : v.get? slot ≠ none) (a b : Value)
    : (v.put slot a).put other b = (v.put other b).put slot a := by
  cases v <;> cases slot <;> cases other <;> simp_all [put, get?]
  next items i i' => rw [List.set_comm _ _ h]
  next fields k k' => rw [Assoc.insert_comm_of_mem h hslot]

/--
Values that are stored in two slots may be stored in any order, unless both of them make a field.
-/
theorem store_comm {a b : Value} (h : slot ≠ other)
    (hnew : (v.get? slot = none → a = .missing) ∨ (v.get? other = none → b = .missing))
    : (v.store slot a).store other b = (v.store other b).store slot a := by
  by_cases ha : a = .missing
  · subst ha
    show (v.clear slot).store other b = (v.store other b).clear slot
    by_cases hb : b = .missing
    · subst hb
      exact clear_comm slot other
    · rw [store_of_ne hb, store_of_ne hb, clear_put_of_ne h]
  · by_cases hb : b = .missing
    · subst hb
      show (v.store slot a).clear other = (v.clear other).store slot a
      rw [store_of_ne ha, store_of_ne ha, clear_put_of_ne h.symm]
    · rw [store_of_ne ha, store_of_ne ha, store_of_ne hb, store_of_ne hb]
      rcases hnew with hnew | hnew
      · exact put_comm_of_get? h (fun hnone => ha (hnew hnone)) a b
      · exact (put_comm_of_get? h.symm (fun hnone => hb (hnew hnone)) b a).symm

theorem keys?_put_key (k : Key) (new : Value)
    : (v.put (.key k) new).keys? = v.keys?.map (keysWith k) := by
  cases v <;> simp only [put, keys?, Option.map_none, Option.map_some]
  rw [Assoc.keys_insert, keysWith]

theorem keys?_put_index (i : Nat) (new : Value) : (v.put (.index i) new).keys? = v.keys? := by
  cases v <;> rfl

theorem keys?_store_key (k : Key) (new : Value)
    : (v.store (.key k) new).keys? = v.keys?.map (keysAfter k new) := by
  unfold store keysAfter
  split
  · cases v <;> simp only [clear, keys?, ↓reduceIte, Option.map_none, Option.map_some]
    rw [Assoc.keys_erase, keysWithout]
  · next hne =>
    have hne : new ≠ .missing := hne
    simp only [hne, ↓reduceIte]
    apply keys?_put_key

theorem keys?_put_of_get? {c : Value} (h : v.get? slot = some c) (new : Value)
    : (v.put slot new).keys? = v.keys? := by
  cases v <;> cases slot <;> simp_all [put, get?, keys?]
  next fields k =>
    rw [Assoc.keys_insert]
    have hk : k ∈ fields.map (·.1) := by
      apply Decidable.of_not_not
      rw [← Assoc.get?_eq_none_iff]
      simp [h]
    rw [if_pos hk]

end Update

theorem child_of_slot? {v : Value} {segment : String} {slot : Slot}
    (h : v.slot? segment = some slot) : v.child segment = (v.get? slot).getD .missing := by
  simp [child, h]

theorem child_of_slot?_eq_none {v : Value} {segment : String} (h : v.slot? segment = none)
    : v.child segment = .missing := by
  simp [child, h]

theorem get?_of_child_ne {v : Value} {segment : String} {slot : Slot}
    (h : v.slot? segment = some slot) (hc : v.child segment ≠ .missing)
    : v.get? slot = some (v.child segment) := by
  rw [child_of_slot? h] at hc ⊢
  cases hg : v.get? slot with
  | none => simp [hg] at hc
  | some c => rfl

theorem slot?_of_child_ne {v : Value} {segment : String} (hc : v.child segment ≠ .missing)
    : ∃ slot, v.slot? segment = some slot := by
  cases h : v.slot? segment with
  | none => exact absurd (child_of_slot?_eq_none h) hc
  | some slot => exact ⟨slot, rfl⟩

end Value
end Reshape
