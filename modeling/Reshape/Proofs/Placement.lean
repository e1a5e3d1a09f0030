import Reshape.InPlace.Movement
import Reshape.Proofs.Slot

/-!
This module contains what it means to follow segments through a value and to put something under
them. A placement is first told from the refusals of lists, and then described by the address that
it writes to and the address of what had to make way.
-/

namespace Reshape

/--
The slot in which a longer address goes on after another one.
-/
def Address.next? : Address → Address → Option Slot
  | [], slot :: _ => some slot
  | slot :: a, slot' :: b => if slot = slot' then Address.next? a b else none
  | _, [] => none

/--
The keys of an object through which something has been put in a slot.
-/
def Slot.gained : Option Slot → List Key → List Key
  | some (.key k), keys => keysWith k keys
  | _, keys => keys

@[simp]
theorem Slot.gained_none : Slot.gained none = id := rfl

@[simp]
theorem Slot.gained_index (i : Nat) : Slot.gained (some (.index i)) = id := rfl

namespace Value

/--
What segments lead to, or `missing` if they lead nowhere.
-/
def seek (v : Value) : List String → Value
  | [] => v
  | segment :: rest => (v.child segment).seek rest

/--
Whether there is a list on the way of the segments that cannot look its segment up.
-/
def blocked (v : Value) : List String → Bool
  | [] => false
  | segment :: rest => v.refuses segment || (v.child segment).blocked rest

/--
Whether a value has a place for the first of some segments.
-/
def admits (v : Value) : List String → Bool
  | [] => true
  | segment :: _ => v.accepts segment

/--
The container that a placement goes on in: what stands there, or else a fresh object.
-/
def room (v : Value) (segments : List String) : Value :=
  if v.admits segments then v else .object []

/--
A value with something put under segments of which the first one is accepted.
-/
def placed (new : Value) : List String → Value → Value
  | [], _ => new
  | segment :: rest, v => v.assign segment (placed new rest ((v.child segment).room rest))

/--
The address of what makes way for a fresh object when something is put under segments.
-/
def obstacle? (v : Value) : List String → Option Address
  | [] => none
  | segment :: rest =>
    let inner := v.child segment
    if inner.admits rest then
      (inner.obstacle? rest).map (v.address [segment] ++ ·)
    else if inner = .missing then
      none
    else
      some (v.address [segment])

section Leaf

variable {v : Value}

theorem slot?_of_not_container (h : v.isContainer = false) (segment : String)
    : v.slot? segment = none := by
  cases hs : v.slot? segment with
  | none => rfl
  | some slot =>
    rw [isContainer_of_slot? hs] at h
    cases h

theorem child_of_not_container (h : v.isContainer = false) (segment : String)
    : v.child segment = .missing := by
  apply child_of_slot?_eq_none
  apply slot?_of_not_container h

theorem refuses_of_not_container (h : v.isContainer = false) (segment : String)
    : v.refuses segment = false := by
  cases v <;> first | rfl | cases h

@[simp]
theorem seek_missing (segments : List String) : seek .missing segments = .missing := by
  induction segments with
  | nil => rfl
  | cons segment rest ih => exact ih

@[simp]
theorem blocked_missing (segments : List String) : blocked .missing segments = false := by
  induction segments with
  | nil => rfl
  | cons segment rest ih => exact ih

theorem child_ne_of_seek_ne {segment : String} {rest : List String}
    (h : v.seek (segment :: rest) ≠ .missing) : v.child segment ≠ .missing := by
  intro hmissing
  apply h
  rw [seek, hmissing, seek_missing]

theorem seek_of_not_container (h : v.isContainer = false) {segments : List String}
    (hne : segments ≠ []) : v.seek segments = .missing := by
  obtain ⟨segment, rest, rfl⟩ := List.exists_cons_of_ne_nil hne
  rw [seek, child_of_not_container h, seek_missing]

theorem isContainer_of_seek_ne {segments : List String} (h : v.seek segments ≠ .missing)
    (hne : segments ≠ []) : v.isContainer = true := by
  apply Decidable.of_not_not
  intro hleaf
  apply h
  apply seek_of_not_container (by simpa using hleaf) hne

theorem blocked_of_not_container (h : v.isContainer = false) (segments : List String)
    : v.blocked segments = false := by
  cases segments with
  | nil => rfl
  | cons segment rest =>
    rw [blocked, child_of_not_container h, refuses_of_not_container h, blocked_missing]
    rfl

end Leaf

theorem seek_append (v : Value) (p q : List String) : v.seek (p ++ q) = (v.seek p).seek q := by
  induction p generalizing v with
  | nil => rfl
  | cons segment rest ih => apply ih

theorem blocked_append (v : Value) (p q : List String)
    : v.blocked (p ++ q) = (v.blocked p || (v.seek p).blocked q) := by
  induction p generalizing v with
  | nil => rfl
  | cons segment rest ih => simp only [List.cons_append, blocked, seek, ih, Bool.or_assoc]

theorem descend_eq {v : Value} (h : v.isContainer = true) (segments : List String)
    : v.descend segments =
        if v.blocked segments then .error .tooManyDigits
        else .ok (if (v.seek segments).isContainer then some (v.seek segments) else none) := by
  induction segments generalizing v with
  | nil => simp [descend, blocked, seek, h]
  | cons segment rest ih =>
    unfold descend blocked seek
    dsimp only
    by_cases hr : v.refuses segment
    · simp [hr]
    · by_cases hc : (v.child segment).isContainer
      · simp [hr, hc, ih hc]
      · have hleaf : ((v.child segment).seek rest).isContainer = false := by
          cases rest with
          | nil => simpa [seek] using hc
          | cons => rw [seek_of_not_container (by simpa using hc) (by simp)]; rfl
        simp [hr, hc, hleaf, blocked_of_not_container]

theorem read_eq (v : Value) (segments : List String)
    : v.read segments =
        if v.blocked segments then .error .tooManyDigits else .ok (v.seek segments) := by
  induction segments generalizing v with
  | nil => rfl
  | cons segment rest ih =>
    unfold read blocked seek
    dsimp only
    by_cases hr : v.refuses segment
    · simp [hr]
    · by_cases hc : rest.isEmpty || (v.child segment).isContainer
      · simp only [hr, hc, ih]
        simp
      · simp only [Bool.or_eq_true, List.isEmpty_iff, not_or, Bool.not_eq_true] at hc
        simp [hr, hc, blocked_of_not_container, seek_of_not_container]

section Assign

variable {v : Value} {segment : String}

theorem assign_of_slot? {slot : Slot} (h : v.slot? segment = some slot) (new : Value)
    : v.assign segment new = v.put slot new := by
  unfold assign
  rw [h]

@[simp]
theorem frame_assign (new : Value) : (v.assign segment new).frame = v.frame := by
  unfold assign
  split
  · apply frame_put
  · rfl

@[simp]
theorem child_assign (h : v.accepts segment = true) (new : Value)
    : (v.assign segment new).child segment = new := by
  obtain ⟨slot, hslot⟩ := Option.isSome_iff_exists.mp h
  have hnew : (v.put slot new).slot? segment = some slot := by
    rw [slot?_congr (frame_put new)]
    exact hslot
  rw [assign_of_slot? hslot, child_of_slot? hnew, get?_put_self (hasSlot_of_slot? hslot)]
  rfl

theorem assign_assign (a b : Value)
    : (v.assign segment a).assign segment b = v.assign segment b := by
  cases h : v.slot? segment with
  | none =>
    unfold assign
    simp only [h]
  | some slot =>
    have ha : (v.put slot a).slot? segment = some slot := by
      rw [slot?_congr (frame_put a)]
      exact h
    rw [assign_of_slot? h, assign_of_slot? h, assign_of_slot? ha, put_put]

theorem accepts_of_child_ne (h : v.child segment ≠ .missing) : v.accepts segment = true := by
  obtain ⟨slot, hslot⟩ := slot?_of_child_ne h
  simp [accepts, hslot]

theorem assign_child (h : v.child segment ≠ .missing)
    : v.assign segment (v.child segment) = v := by
  obtain ⟨slot, hslot⟩ := slot?_of_child_ne h
  rw [assign_of_slot? hslot, put_of_get? (get?_of_child_ne hslot h)]

end Assign

theorem room_of_admits {v : Value} {segments : List String} (h : v.admits segments = true)
    : v.room segments = v := if_pos h

theorem room_of_not_admits {v : Value} {segments : List String} (h : ¬ v.admits segments = true)
    : v.room segments = .object [] := if_neg h

@[simp]
theorem admits_room (v : Value) (segments : List String)
    : (v.room segments).admits segments = true := by
  unfold room
  split
  · assumption
  · cases segments <;> rfl

/--
Whether segments lead through containers, and past no list that cannot look them up, to a container.
-/
def leads (v : Value) (segments : List String) (w : Value) : Prop :=
  v.descend segments = .ok (some w)

section Leads

variable {v w : Value} {segment : String} {p q : List String}

theorem leads_nil : v.leads [] w ↔ w = v := by
  simp [leads, descend, eq_comm]

theorem leads_cons
    : v.leads (segment :: p) w ↔ v.refuses segment = false ∧
        (v.child segment).isContainer = true ∧ (v.child segment).leads p w := by
  unfold leads
  rw [descend]
  split
  · next h => simp [h]
  · next h =>
    split
    · next hc => simp [h, hc]
    · next hc => simp [hc]

theorem blocked_of_leads (h : v.leads p w) : v.blocked p = false := by
  induction p generalizing v with
  | nil => rfl
  | cons segment p ih =>
    obtain ⟨hr, -, h⟩ := leads_cons.mp h
    rw [blocked, hr, ih h]
    rfl

theorem child_ne_of_leads (h : v.leads (segment :: p) w) : v.child segment ≠ .missing :=
  ne_missing_of_isContainer (leads_cons.mp h).2.1

theorem admits_of_leads (h : v.leads p w) (hq : w.admits q = true)
    : v.admits (p ++ q) = true := by
  cases p with
  | nil =>
    rw [leads_nil] at h
    rw [← h]
    exact hq
  | cons segment' p =>
    apply accepts_of_child_ne
    exact child_ne_of_leads h

theorem replace_self (h : v.leads p w) : v.replace w p = v := by
  induction p generalizing v with
  | nil => exact leads_nil.mp h
  | cons segment p ih =>
    rw [replace, ih (leads_cons.mp h).2.2]
    apply assign_child
    exact child_ne_of_leads h

theorem replace_replace (h : v.leads p w) (a b : Value)
    : (v.replace a p).replace b p = v.replace b p := by
  induction p generalizing v with
  | nil => rfl
  | cons segment p ih =>
    have hs := accepts_of_child_ne (child_ne_of_leads h)
    rw [replace, replace, replace, child_assign hs, ih (leads_cons.mp h).2.2, assign_assign]

theorem frame_replace (h : v.leads p w) {new : Value} (hn : new.frame = w.frame)
    : (v.replace new p).frame = v.frame := by
  cases p with
  | nil =>
    rw [leads_nil] at h
    rw [replace, hn, h]
  | cons segment p => apply frame_assign

theorem isContainer_replace (h : v.leads p w) {new : Value}
    (hn : new.isContainer = w.isContainer)
    : (v.replace new p).isContainer = v.isContainer := by
  cases p with
  | nil =>
    rw [leads_nil] at h
    rw [replace, hn, h]
  | cons segment p =>
    apply isContainer_congr
    apply frame_assign

theorem leads_replace_of_isContainer (h : v.leads p w) {new : Value}
    (hn : new.isContainer = w.isContainer)
    : (v.replace new p).leads p new := by
  induction p generalizing v with
  | nil => exact leads_nil.mpr rfl
  | cons segment p ih =>
    have hs := accepts_of_child_ne (child_ne_of_leads h)
    rw [leads_cons] at h
    obtain ⟨hr, hc, h⟩ := h
    rw [replace, leads_cons, child_assign hs, refuses_congr (frame_assign _)]
    refine ⟨hr, ?_, ih h⟩
    rw [isContainer_replace h hn]
    exact hc

theorem leads_replace (h : v.leads p w) {new : Value} (hn : new.frame = w.frame)
    : (v.replace new p).leads p new :=
  leads_replace_of_isContainer h (isContainer_congr hn)

theorem detach_append (hq : q ≠ []) (v : Value)
    : v.detach (p ++ q) = v.replace ((v.seek p).detach q) p := by
  induction p generalizing v with
  | nil => rfl
  | cons segment p ih =>
    obtain ⟨next, rest, hcons⟩ := List.exists_cons_of_ne_nil (List.append_ne_nil_of_right_ne_nil p hq)
    rw [List.cons_append, hcons, detach, ← hcons, ih]
    · rfl
    · simp

theorem frame_detach (hq : q ≠ []) (v : Value) : (v.detach q).frame = v.frame := by
  cases q with
  | nil => exact absurd rfl hq
  | cons segment q =>
    cases q with
    | nil =>
      rw [detach]
      split
      · apply frame_clear
      · rfl
    | cons next q => apply frame_assign

theorem seek_of_leads (h : v.leads p w) : v.seek p = w := by
  induction p generalizing v with
  | nil => exact (leads_nil.mp h).symm
  | cons segment p ih => exact ih (leads_cons.mp h).2.2

theorem leads_seek (hb : v.blocked p = false) (hc : (v.seek p).isContainer = true)
    : v.leads p (v.seek p) := by
  induction p generalizing v with
  | nil => exact leads_nil.mpr rfl
  | cons segment p ih =>
    rw [blocked, Bool.or_eq_false_iff] at hb
    rw [leads_cons]
    refine ⟨hb.1, ?_, ih hb.2 hc⟩
    cases hleaf : (v.child segment).isContainer with
    | true => rfl
    | false =>
      cases p with
      | nil => exact hleaf.symm.trans hc
      | cons next p =>
        rw [seek, seek_of_not_container hleaf (List.cons_ne_nil next p)] at hc
        cases hc

theorem leads_append : v.leads (p ++ q) w ↔ ∃ u, v.leads p u ∧ u.leads q w := by
  induction p generalizing v with
  | nil =>
    constructor
    · intro h
      exact ⟨v, leads_nil.mpr rfl, h⟩
    · rintro ⟨u, hu, h⟩
      rw [leads_nil] at hu
      rw [← hu]
      exact h
  | cons segment p ih =>
    rw [List.cons_append, leads_cons, ih]
    constructor
    · rintro ⟨hr, hc, u, hu, h⟩
      exact ⟨u, leads_cons.mpr ⟨hr, hc, hu⟩, h⟩
    · rintro ⟨u, hu, h⟩
      obtain ⟨hr, hc, hu⟩ := leads_cons.mp hu
      exact ⟨hr, hc, u, hu, h⟩

theorem replace_append (new : Value) (p q : List String) (v : Value)
    : v.replace new (p ++ q) = v.replace ((v.seek p).replace new q) p := by
  induction p generalizing v with
  | nil => rfl
  | cons segment p ih =>
    rw [List.cons_append, replace, ih]
    rfl

theorem placed_append (h : v.leads p w) (hq : w.admits q = true) (new : Value)
    : placed new (p ++ q) v = v.replace (placed new q w) p := by
  induction p generalizing v with
  | nil =>
    rw [leads_nil] at h
    rw [h]
    rfl
  | cons segment p ih =>
    obtain ⟨-, -, hp⟩ := leads_cons.mp h
    rw [replace, ← ih hp, List.cons_append, placed, room_of_admits (admits_of_leads hp hq)]

theorem address_append (h : v.leads p w) (q : List String)
    : v.address (p ++ q) = v.address p ++ w.address q := by
  induction p generalizing v with
  | nil =>
    rw [leads_nil] at h
    rw [h]
    rfl
  | cons segment p ih =>
    obtain ⟨slot, hslot⟩ := slot?_of_child_ne (child_ne_of_leads h)
    simp only [List.cons_append, address, hslot, ih (leads_cons.mp h).2.2]

/--
What is found at the end of segments stands in the container that the ones before the last lead to.
-/
theorem parent_of_found (hb : v.blocked (p ++ [k]) = false) (hfound : v.seek (p ++ [k]) ≠ .missing)
    : v.leads p (v.seek p) ∧ (v.seek p).refuses k = false ∧
        (v.seek p).child k = v.seek (p ++ [k]) := by
  rw [blocked_append, Bool.or_eq_false_iff, blocked, Bool.or_eq_false_iff] at hb
  rw [seek_append] at hfound ⊢
  have hchild : (v.seek p).child k ≠ .missing := hfound
  obtain ⟨slot, hslot⟩ := slot?_of_child_ne hchild
  exact ⟨leads_seek hb.1 (isContainer_of_slot? hslot), hb.2.1, rfl⟩

end Leads

section Place

variable {v new : Value} {segment : String} {rest : List String}

theorem nest_eq (new : Value) (segment : String) (rest : List String)
    : new.nest (segment :: rest) = placed new (segment :: rest) (.object []) := by
  induction rest generalizing segment with
  | nil => rfl
  | cons next rest ih =>
    rw [nest, ih]
    rfl

theorem obstacle?_empty (segments : List String) : obstacle? (.object []) segments = none := by
  cases segments with
  | nil => rfl
  | cons segment rest =>
    cases rest with
    | nil => rfl
    | cons next rest => rfl

theorem child_of_not_accepts (h : ¬ v.accepts segment = true) : v.child segment = .missing := by
  apply child_of_slot?_eq_none
  simpa [accepts] using h

theorem place_eq (destination : String) (hr : v.refuses segment = false)
    : ∃ log, place new destination (segment :: rest) v =
        if v.blocked (segment :: rest) then .error .tooManyDigits
        else .ok (placed new (segment :: rest) v, log) := by
  induction rest generalizing v segment with
  | nil => exact ⟨[], by simp [place, blocked, hr, placed]⟩
  | cons next rest ih =>
    rw [place]
    dsimp only
    rw [blocked, hr, Bool.false_or]
    by_cases hn : (v.child segment).refuses next
    · exact ⟨[], by simp [hn, blocked]⟩
    · rw [if_neg hn]
      by_cases ha : (v.child segment).admits (next :: rest)
      · obtain ⟨log, hlog⟩ := @ih (v.child segment) next (by simpa using hn)
        refine ⟨log, ?_⟩
        have hp : placed new (segment :: next :: rest) v =
            v.assign segment (placed new (next :: rest) (v.child segment)) := by
          rw [placed, room_of_admits ha]
        rw [if_pos (show (v.child segment).accepts next = true from ha), hlog, hp]
        split
        · rfl
        · rfl
      -- What stands there makes way, and nothing below a fresh object refuses a segment.
      · rw [if_neg (show ¬ (v.child segment).accepts next = true from ha), blocked,
          child_of_not_accepts ha, blocked_missing]
        have hp : placed new (segment :: next :: rest) v =
            v.assign segment (new.nest (next :: rest)) := by
          rw [placed, room_of_not_admits ha, nest_eq]
        refine ⟨if v.child segment = .missing then []
          else [.overwrote (v.child segment).typeName segment destination], ?_⟩
        rw [hp]
        simp [hn]

theorem address_ne_nil (h : v.accepts segment = true) (rest : List String)
    : v.address (segment :: rest) ≠ [] := by
  obtain ⟨slot, hslot⟩ := Option.isSome_iff_exists.mp h
  rw [address, hslot]
  exact List.cons_ne_nil slot _

theorem address_placed {slot : Slot} (h : v.slot? segment = some slot)
    : (placed new (segment :: rest) v).address (segment :: rest) =
        slot :: (placed new rest ((v.child segment).room rest)).address rest := by
  have ha : v.accepts segment = true := by simp [accepts, h]
  rw [placed, address, slot?_congr (frame_assign _), h, child_assign ha]

theorem at?_cons_of_child_ne {slot : Slot} (h : v.slot? segment = some slot)
    (hc : v.child segment ≠ .missing) (a : Address)
    : v.at? (slot :: a) = (v.child segment).at? a := by
  rw [at?, get?_of_child_ne h hc]
  rfl

theorem at?_cons_of_child_eq {slot : Slot} (h : v.slot? segment = some slot)
    (hc : v.child segment = .missing) (next : Slot) (a : Address)
    : v.at? (slot :: next :: a) = none := by
  rw [child_of_slot? h] at hc
  rw [at?]
  cases hg : v.get? slot with
  | none => rfl
  | some c =>
    rw [hg] at hc
    have hc : c = .missing := hc
    rw [hc]
    rfl

theorem child_of_at? {slot : Slot} {w : Value} (h : v.slot? segment = some slot)
    (hw : v.at? [slot] = some w) : v.child segment = w := by
  rw [child_of_slot? h]
  cases hg : v.get? slot with
  | none => simp [at?, hg] at hw
  | some c => simpa [at?, hg] using hw

end Place

end Value

/--
What a placement leaves behind: the new value at an address, with everything else in its place.
-/
structure Placement (new : Value) (segments : List String) (old result : Value) : Prop where
  /-- The segments lead to the new value. -/
  reads : result.seek segments = new
  /-- So does their address. -/
  holds : result.at? (result.address segments) = some new
  /-- What is neither above, at nor below the target and has not made way stays as it is. -/
  untouched : ∀ a, ¬ result.address segments <+: a → ¬ a <+: result.address segments →
    (∀ o, old.obstacle? segments = some o → ¬ o <+: a) → result.at? a = old.at? a
  /-- Lists keep their length, and objects their keys but for a new one that leads to the target. -/
  containers : ∀ a w, old.at? a = some w → w.isContainer = true →
    ¬ result.address segments <+: a → (∀ o, old.obstacle? segments = some o → ¬ o <+: a) →
    ∃ w', result.at? a = some w' ∧ w'.frame = w.frame ∧
      w'.keys? = w.keys?.map (Slot.gained (a.next? (result.address segments)))

namespace Value

section Placement

variable {v new : Value} {segment : String} {rest : List String} {slot : Slot}

theorem seek_placed (new : Value) {segments : List String} {v : Value}
    (h : v.admits segments = true) : (placed new segments v).seek segments = new := by
  induction segments generalizing v with
  | nil => rfl
  | cons segment rest ih =>
    rw [placed, seek, child_assign h]
    apply ih
    apply admits_room

theorem at?_placed_self (h : v.slot? segment = some slot) (new : Value) (a : Address)
    : (placed new (segment :: rest) v).at? (slot :: a) =
        (placed new rest ((v.child segment).room rest)).at? a := by
  rw [placed, assign_of_slot? h, at?, get?_put_self (hasSlot_of_slot? h)]
  rfl

theorem at?_placed_of_ne (h : v.slot? segment = some slot) (new : Value) {other : Slot}
    (ho : other ≠ slot) (a : Address)
    : (placed new (segment :: rest) v).at? (other :: a) = v.at? (other :: a) := by
  rw [placed, assign_of_slot? h, at?, at?, get?_put_of_ne ho]

theorem at?_address_placed (new : Value) {segments : List String} {v : Value}
    (h : v.admits segments = true)
    : (placed new segments v).at? ((placed new segments v).address segments) = some new := by
  induction segments generalizing v with
  | nil => rfl
  | cons segment rest ih =>
    obtain ⟨slot, hslot⟩ := Option.isSome_iff_exists.mp h
    rw [address_placed hslot, at?_placed_self hslot]
    apply ih
    apply admits_room

theorem at?_room (h : v.slot? segment = some slot) {a : Address} (hr : rest ≠ [])
    (ha : a ≠ [] ∨ v.child segment ≠ .missing)
    (ho : ∀ o, v.obstacle? (segment :: rest) = some o → ¬ o <+: slot :: a)
    : v.at? (slot :: a) = ((v.child segment).room rest).at? a ∧
      ∀ o, ((v.child segment).room rest).obstacle? rest = some o → ¬ o <+: a := by
  -- What stands in the slot is gone on with, or there is nothing, or it is the obstacle itself.
  have hs : v.address [segment] = [slot] := by simp [address, h]
  by_cases hadmits : (v.child segment).admits rest
  · have hc : v.child segment ≠ .missing := by
      intro hc
      obtain ⟨next, rest, rfl⟩ := List.exists_cons_of_ne_nil hr
      rw [hc] at hadmits
      cases hadmits
    rw [room_of_admits hadmits, at?_cons_of_child_ne h hc]
    refine ⟨rfl, ?_⟩
    intro o hobstacle hprefix
    apply ho (slot :: o)
    · rw [obstacle?, if_pos hadmits, hobstacle, hs]
      rfl
    · rw [List.cons_prefix_cons]
      exact ⟨rfl, hprefix⟩
  · by_cases hc : v.child segment = .missing
    · obtain ⟨next, a, rfl⟩ := List.exists_cons_of_ne_nil (ha.resolve_right (by simpa using hc))
      rw [room_of_not_admits hadmits, at?_cons_of_child_eq h hc, obstacle?_empty]
      refine ⟨?_, ?_⟩
      · cases next <;> rfl
      · intro o hobstacle
        cases hobstacle
    · exfalso
      -- What makes way here is at or above the address, which is excluded.
      apply ho [slot]
      · rw [obstacle?, if_neg hadmits, if_neg hc, hs]
      · simp

theorem ne_nil_of_not_prefix (h : v.slot? segment = some slot) {a : Address}
    (hb : ¬ (placed new (segment :: rest) v).address (segment :: rest) <+: slot :: a)
    : rest ≠ [] := by
  intro hr
  apply hb
  rw [address_placed h, hr]
  simp [address]

theorem at?_placed (new : Value) {segments : List String} {v : Value}
    (h : v.admits segments = true) (a : Address)
    (hb : ¬ (placed new segments v).address segments <+: a)
    (ha : ¬ a <+: (placed new segments v).address segments)
    (ho : ∀ o, v.obstacle? segments = some o → ¬ o <+: a)
    : (placed new segments v).at? a = v.at? a := by
  induction segments generalizing v a with
  | nil => exact (hb List.nil_prefix).elim
  | cons segment rest ih =>
    obtain ⟨slot, hslot⟩ := Option.isSome_iff_exists.mp h
    cases a with
    | nil => exact (ha List.nil_prefix).elim
    | cons other a =>
      by_cases heq : other = slot
      · subst heq
        have hr := ne_nil_of_not_prefix hslot hb
        rw [address_placed hslot, List.cons_prefix_cons] at ha hb
        simp only [true_and] at ha hb
        have hne : a ≠ [] := by
          intro hnil
          apply ha
          rw [hnil]
          apply List.nil_prefix
        obtain ⟨hroom, hobstacle⟩ := at?_room hslot hr (Or.inl hne) ho
        rw [at?_placed_self hslot, hroom]
        apply ih (admits_room _ _) _ hb ha hobstacle
      · apply at?_placed_of_ne hslot _ heq

theorem keys?_placed (h : v.slot? segment = some slot)
    : (placed new (segment :: rest) v).keys? = v.keys?.map (Slot.gained (some slot)) := by
  rw [placed, assign_of_slot? h]
  cases slot with
  | key k => apply keys?_put_key
  | index i =>
    rw [keys?_put_index, Slot.gained_index, Option.map_id]
    rfl

theorem containers_placed (new : Value) {segments : List String} {v : Value}
    (h : v.admits segments = true) (a : Address) (w : Value) (hw : v.at? a = some w)
    (hc : w.isContainer = true)
    (hb : ¬ (placed new segments v).address segments <+: a)
    (ho : ∀ o, v.obstacle? segments = some o → ¬ o <+: a)
    : ∃ w', (placed new segments v).at? a = some w' ∧ w'.frame = w.frame ∧
        w'.keys? = w.keys?.map (Slot.gained (a.next? ((placed new segments v).address segments))) := by
  induction segments generalizing v a with
  | nil => exact (hb List.nil_prefix).elim
  | cons segment rest ih =>
    obtain ⟨slot, hslot⟩ := Option.isSome_iff_exists.mp h
    rw [address_placed hslot]
    cases a with
    | nil =>
      cases hw
      refine ⟨_, rfl, ?_, ?_⟩
      · apply frame_assign
      · rw [keys?_placed hslot]
        rfl
    | cons other a =>
      by_cases heq : other = slot
      · subst heq
        have hr := ne_nil_of_not_prefix hslot hb
        rw [address_placed hslot, List.cons_prefix_cons] at hb
        simp only [true_and] at hb
        have hne : a ≠ [] ∨ v.child segment ≠ .missing := by
          cases a with
          | nil =>
            right
            rw [child_of_at? hslot hw]
            apply ne_missing_of_isContainer hc
          | cons next a =>
            left
            apply List.cons_ne_nil
        obtain ⟨hroom, hobstacle⟩ := at?_room hslot hr hne ho
        rw [at?_placed_self hslot]
        rw [hroom] at hw
        have hnext : Address.next? (other :: a)
            (other :: (placed new rest ((v.child segment).room rest)).address rest) =
              Address.next? a ((placed new rest ((v.child segment).room rest)).address rest) :=
          if_pos rfl
        rw [hnext]
        apply ih (admits_room _ _) _ hw hb hobstacle
      · rw [at?_placed_of_ne hslot _ heq]
        refine ⟨w, hw, rfl, ?_⟩
        have hnext : Address.next? (other :: a)
            (slot :: (placed new rest ((v.child segment).room rest)).address rest) = none :=
          if_neg heq
        rw [hnext, Slot.gained_none, Option.map_id]
        rfl

theorem placement_placed (new : Value) {segments : List String} (h : v.admits segments = true)
    : Placement new segments v (placed new segments v) where
  reads := seek_placed new h
  holds := at?_address_placed new h
  untouched := at?_placed new h
  containers := containers_placed new h

end Placement

end Value
end Reshape
