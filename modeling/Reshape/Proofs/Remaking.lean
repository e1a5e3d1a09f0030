import Reshape.Proofs.Recording

/-!
This module contains the walk with functions that cannot fail and that may depend on the place. The
main statements are `walk_ok`, which says what such a walk yields, and `balks_remade`, which says that
another walk along the same path fails after it only if it would have failed before it.
-/

namespace Reshape

/--
Whether an address is that of a field of an object.
-/
def Address.isField (a : Address) : Bool :=
  match a.getLast? with
  | some (.key _) => true
  | _ => false

/--
What is found at an address where a walk has stored a value. Only fields of objects go away.
-/
def Address.settle (a : Address) (v : Value) : Value :=
  if a.isField then v else v.orNull

/--
What a walk makes of a value if its visits replace contents by a function of the place and of what
stands there.
-/
def remade (f : Address → Value → Value) : List String → Value → Value
  | [], v => f [] v
  | segment :: rest, .list items =>
    if segment = Path.wildcard then
      .list (items.mapIdx fun i item =>
        if entered rest item then (remade (fun a => f (.index i :: a)) rest item).orNull else item)
    else
      match (Value.list items).slot? segment with
      | some slot => editedSlot (remade (fun a => f (slot :: a)) rest) rest (.list items) slot
      | none => .list items
  | segment :: rest, v =>
    match v.slot? segment with
    | some slot => editedSlot (remade (fun a => f (slot :: a)) rest) rest v slot
    | none => v

/--
What a walk yields that may meet a list that cannot look its segment up.
-/
def unlessBalked {α : Type} (balked : Bool) (a : α) : Except Error α :=
  if balked then .error .tooManyDigits else .ok a

theorem bind_unlessBalked {α β : Type} {a : α} {b : β} {k : α → Except Error β} {balked' : Bool}
    (h : k a = unlessBalked balked' b) (balked : Bool)
    : (unlessBalked balked a >>= k) = unlessBalked (balked || balked') b := by
  cases balked with
  | false => exact h
  | true => rfl

theorem map_unlessBalked {α β : Type} (g : α → β) (balked : Bool) (a : α)
    : (unlessBalked balked a >>= fun a => pure (g a)) = unlessBalked balked (g a) := by
  cases balked <;> rfl

section Settle

variable {a : Address} {slot : Slot} {v : Value}

theorem Address.isField_cons (h : a ≠ []) (slot : Slot) : isField (slot :: a) = a.isField := by
  obtain ⟨next, a, rfl⟩ := List.exists_cons_of_ne_nil h
  unfold isField
  rw [List.getLast?_cons_cons]

theorem Address.settle_of_ne (h : v ≠ .missing) (a : Address) : a.settle v = v := by
  unfold settle
  rw [Value.orNull_of_ne h, ite_self]

theorem Address.settle_of_isField (h : a.isField = true) (v : Value) : a.settle v = v :=
  if_pos h

theorem Address.settle_of_met (h : v = .missing → a.isField = true) : a.settle v = v := by
  by_cases hv : v = .missing
  · exact settle_of_isField (h hv) v
  · exact settle_of_ne hv a

theorem Address.settle_cons (h : a ≠ []) (slot : Slot) (v : Value)
    : settle (slot :: a) v = a.settle v := by
  unfold settle
  rw [isField_cons h]

theorem Slot.getD_kept (slot : Slot) (v : Value)
    : (slot.kept v).getD .missing = Address.settle [slot] v := by
  cases slot <;> cases v <;> rfl

end Settle

/--
Whether a segment fans out over the elements of a value.
-/
def Value.fans (segment : String) : Value → Bool
  | .list _ => segment = Path.wildcard
  | _ => false

section Fans

variable {segment : String} {v w : Value}

theorem Value.fans_congr (h : v.frame = w.frame) (segment : String)
    : v.fans segment = w.fans segment := by
  cases v <;> cases w <;> simp_all [frame, fans]

theorem Value.eq_list_of_fans (h : v.fans segment = true)
    : segment = Path.wildcard ∧ ∃ items, v = .list items := by
  cases v with
  | list items =>
    rw [fans, decide_eq_true_eq] at h
    exact ⟨h, items, rfl⟩
  | _ => cases h

theorem Value.not_fans (h : segment ≠ Path.wildcard) (v : Value)
    : v.fans segment = false := by
  cases v with
  | list items =>
    rw [fans, decide_eq_false_iff_not]
    exact h
  | _ => rfl

theorem Value.ne_wildcard_of_not_fans {items : List Value}
    (h : (list items).fans segment = false) : segment ≠ Path.wildcard := by
  rw [fans, decide_eq_false_iff_not] at h
  exact h

theorem branches_of_not_fans (h : v.fans segment = false)
    : branches segment v = branches.named segment v := by
  cases v with
  | list items => rw [branches_list, if_neg (Value.ne_wildcard_of_not_fans h)]
  | _ => rfl

theorem any_elements (p : Value → Bool) (items : List Value)
    : (branches Path.wildcard (.list items)).any (fun branch => p branch.2) = items.any p := by
  have hmap : items.any p = (items.zipIdx.map Prod.fst).any p := by
    rw [List.zipIdx_map_fst]
  rw [branches_list, if_pos rfl, List.any_map, hmap, List.any_map]
  rfl

theorem balks_elements (rest : List String) (items : List Value)
    : balks (Path.wildcard :: rest) (.list items) =
        items.any fun item => entered rest item && balks rest item := by
  rw [balks, refuses_wildcard, Bool.false_or,
    any_elements fun item => entered rest item && balks rest item]

theorem balks_of_slot {slot : Slot} (h : v.fans segment = false)
    (hslot : v.slot? segment = some slot) (rest : List String)
    : balks (segment :: rest) v =
        (v.refuses segment || (entered rest ((v.get? slot).getD .missing) &&
          balks rest ((v.get? slot).getD .missing))) := by
  rw [balks, branches_of_not_fans h, branches.named_of_slot? hslot, List.any_cons, List.any_nil,
    Bool.or_false]

theorem balks_of_no_slot (h : v.fans segment = false) (hslot : v.slot? segment = none)
    (rest : List String)
    : balks (segment :: rest) v = v.refuses segment := by
  rw [balks, branches_of_not_fans h, branches.named_of_none hslot, List.any_nil, Bool.or_false]

/--
What a segment enters does not depend on what stands there.
-/
theorem mem_branches_congr {slot : Slot} {content former : Value}
    (hframe : w.frame = v.frame) (h : (slot, content) ∈ branches segment w)
    (hget : v.get? slot = some former)
    : (slot, former) ∈ branches segment v := by
  have hfans' := Value.fans_congr hframe segment
  cases hfans : v.fans segment with
  | true =>
    obtain ⟨rfl, items, rfl⟩ := Value.eq_list_of_fans hfans
    cases slot with
    | key k => cases hget
    | index i =>
      rw [branches_list, if_pos rfl, List.mem_map]
      refine ⟨(former, i), ?_, rfl⟩
      rw [List.mk_mem_zipIdx_iff_getElem?]
      exact hget
  | false =>
    have hslot' := Value.slot?_congr hframe segment
    rw [branches_of_not_fans (hfans'.trans hfans)] at h
    rw [branches_of_not_fans hfans]
    cases hslot : v.slot? segment with
    | none =>
      rw [branches.named_of_none (hslot'.trans hslot)] at h
      cases h
    | some other =>
      rw [branches.named_of_slot? (hslot'.trans hslot), List.mem_singleton] at h
      cases h
      rw [branches.named_of_slot? hslot, hget]
      apply List.mem_singleton_self

end Fans

section Remade

variable {f : Address → Value → Value} {segment : String} {rest : List String} {v : Value}
variable {slot : Slot}

theorem remade_of_slot (h : v.fans segment = false) (hslot : v.slot? segment = some slot)
    (f : Address → Value → Value) (rest : List String)
    : remade f (segment :: rest) v =
        editedSlot (remade (fun a => f (slot :: a)) rest) rest v slot := by
  cases v with
  | list items => rw [remade, if_neg (Value.ne_wildcard_of_not_fans h), hslot]
  | object fields =>
    rw [remade, hslot]
    intro items hitems
    cases hitems
  | _ => cases hslot

theorem remade_of_no_slot (h : v.fans segment = false) (hslot : v.slot? segment = none)
    (f : Address → Value → Value) (rest : List String)
    : remade f (segment :: rest) v = v := by
  cases v with
  | list items => rw [remade, if_neg (Value.ne_wildcard_of_not_fans h), hslot]
  | object fields => cases hslot
  | _ => rfl

theorem remade_elements (f : Address → Value → Value) (rest : List String) (items : List Value)
    : remade f (Path.wildcard :: rest) (.list items) =
        .list (items.mapIdx fun i item =>
          if entered rest item then (remade (fun a => f (.index i :: a)) rest item).orNull
          else item) := by
  rw [remade, if_pos rfl]

theorem editedSlot_of_entered (edit : Value → Value)
    (he : entered rest ((v.get? slot).getD .missing) = true)
    : editedSlot edit rest v slot = v.store slot (edit ((v.get? slot).getD .missing)) :=
  if_pos he

theorem editedSlot_of_not_entered (edit : Value → Value)
    (he : entered rest ((v.get? slot).getD .missing) = false)
    : editedSlot edit rest v slot = v := by
  unfold editedSlot
  dsimp only
  rw [he]
  rfl

theorem frame_remade (f : Address → Value → Value) (segment : String) (rest : List String)
    (v : Value)
    : (remade f (segment :: rest) v).frame = v.frame := by
  cases hfans : v.fans segment with
  | true =>
    obtain ⟨rfl, items, rfl⟩ := Value.eq_list_of_fans hfans
    rw [remade_elements, Value.frame, Value.frame, List.length_mapIdx]
  | false =>
    cases hslot : v.slot? segment with
    | none => rw [remade_of_no_slot hfans hslot]
    | some slot =>
      rw [remade_of_slot hfans hslot]
      cases he : entered rest ((v.get? slot).getD .missing) with
      | false => rw [editedSlot_of_not_entered _ he]
      | true => rw [editedSlot_of_entered _ he, Value.frame_store]

theorem entered_remade (f : Address → Value → Value) (rest : List String) (v : Value)
    : entered rest (remade f rest v) = entered rest v := by
  cases rest with
  | nil => rfl
  | cons segment rest =>
    unfold entered
    rw [Value.isContainer_congr (frame_remade f segment rest v)]

theorem remade_ne_missing (f : Address → Value → Value) (hrest : rest ≠ [])
    (he : entered rest v = true)
    : remade f rest v ≠ .missing := by
  obtain ⟨segment, rest, rfl⟩ := List.exists_cons_of_ne_nil hrest
  apply Value.ne_missing_of_isContainer
  rw [Value.isContainer_congr (frame_remade f segment rest v)]
  simpa [entered] using he

theorem remade_const (f : Value → Value) (segments : List String) (v : Value)
    : remade (fun _ => f) segments v = edited f segments v := by
  induction segments generalizing v with
  | nil => rfl
  | cons segment rest ih =>
    have hrest : remade (fun _ => f) rest = edited f rest := funext ih
    cases v with
    | list items =>
      rw [remade, edited]
      simp only [hrest]
      split
      · rw [Value.list.injEq]
        apply List.ext_getElem
        · rw [List.length_mapIdx, List.length_map]
        · intro i hi hi'
          rw [List.getElem_mapIdx, List.getElem_map]
      · rfl
    | object fields =>
      show editedSlot _ _ _ _ = editedSlot _ _ _ _
      rw [hrest]
    | _ => rfl

theorem visitItems_unlessBalked {visit : Nat → Value → Except Error Value} {balked : Value → Bool}
    {new : Nat → Value → Value} (h : ∀ i v, visit i v = unlessBalked (balked v) (new i v)) (i : Nat)
    (items : List Value)
    : visitItems visit i items =
        unlessBalked (items.any balked) (items.mapIdx fun j v => new (i + j) v) := by
  induction items generalizing i with
  | nil => rfl
  | cons item items ih =>
    rw [visitItems, h, List.any_cons, List.mapIdx_cons]
    apply bind_unlessBalked
    have hindex : (fun j v => new (i + 1 + j) v) = fun j v => new (i + (j + 1)) v := by
      funext j v
      rw [Nat.add_assoc, Nat.add_comm 1 j]
    rw [ih (i + 1), hindex]
    apply map_unlessBalked

theorem visitElement_unlessBalked {visit : Value → Except Error Value} {new : Value → Value}
    (h : ∀ v, visit v = unlessBalked (balks rest v) (new v)) (v : Value)
    : (if entered rest v then do
          let new ← visit v
          pure new.orNull
        else
          pure v) =
        unlessBalked (entered rest v && balks rest v)
          (if entered rest v then (new v).orNull else v) := by
  cases he : entered rest v with
  | false => rfl
  | true =>
    rw [h]
    apply map_unlessBalked

theorem visitSlot_unlessBalked {visit : Value → Except Error Value} {new : Value → Value}
    (h : ∀ v, visit v = unlessBalked (balks rest v) (new v)) (v : Value) (slot : Slot)
    : visitSlot visit rest v slot =
        unlessBalked
          (entered rest ((v.get? slot).getD .missing) && balks rest ((v.get? slot).getD .missing))
          (editedSlot new rest v slot) := by
  unfold visitSlot
  dsimp only
  cases he : entered rest ((v.get? slot).getD .missing) with
  | false =>
    rw [editedSlot_of_not_entered _ he]
    rfl
  | true =>
    rw [if_pos rfl, h, editedSlot_of_entered _ he]
    apply map_unlessBalked

theorem walk_of_not_fans {m : Type → Type} [Monad m] [MonadExcept Error m]
    (h : v.fans segment = false) (visit : Address → Value → m Value) (rest : List String)
    : walk visit (segment :: rest) v =
        if v.refuses segment then
          throw Error.tooManyDigits
        else
          (v.slot? segment).elim (pure v) fun slot =>
            visitSlot (walk (fun a => visit (slot :: a)) rest) rest v slot := by
  cases v with
  | list items =>
    rw [walk, if_neg (Value.ne_wildcard_of_not_fans h)]
    cases (Value.list items).slot? segment <;> rfl
  | _ => rfl

/--
A walk with functions that cannot fail gives up only where it meets a list that cannot look up its
segment.
-/
theorem walk_ok (f : Address → Value → Value) (segments : List String) (v : Value)
    : walk (fun a w => Except.ok (f a w)) segments v =
        unlessBalked (balks segments v) (remade f segments v) := by
  induction segments generalizing f v with
  | nil => rfl
  | cons segment rest ih =>
    cases hfans : v.fans segment with
    | true =>
      obtain ⟨rfl, items, rfl⟩ := Value.eq_list_of_fans hfans
      have hvisit (i : Nat) := visitElement_unlessBalked (ih fun a => f (.index i :: a))
      rw [walk, if_pos rfl, balks_elements, remade_elements, visitItems_unlessBalked hvisit]
      simp only [Nat.zero_add]
      apply map_unlessBalked
    | false =>
      rw [walk_of_not_fans hfans]
      cases hslot : v.slot? segment with
      | none =>
        rw [balks_of_no_slot hfans hslot, remade_of_no_slot hfans hslot]
        rfl
      | some slot =>
        rw [balks_of_slot hfans hslot, remade_of_slot hfans hslot, Option.elim_some,
          visitSlot_unlessBalked (ih _)]
        cases v.refuses segment <;> rfl

theorem remade_settle_of_ne (hrest : rest ≠ []) (he : entered rest v = true) (a : Address)
    : a.settle (remade f rest v) = remade f rest v :=
  Address.settle_of_ne (remade_ne_missing f hrest he) a

theorem entered_settle (he : entered rest v = true) (f : Address → Value → Value) (a : Address)
    : entered rest (a.settle (remade f rest v)) = true := by
  by_cases hrest : rest = []
  · rw [hrest]
    rfl
  · rw [remade_settle_of_ne hrest he, entered_remade, he]

theorem balks_settle (ih : ∀ f v, balks rest (remade f rest v) = balks rest v)
    (he : entered rest v = true) (f : Address → Value → Value) (a : Address)
    : balks rest (a.settle (remade f rest v)) = balks rest v := by
  by_cases hrest : rest = []
  · rw [hrest]
    rfl
  · rw [remade_settle_of_ne hrest he, ih]

theorem any_mapIdx {p : Value → Bool} {new : Nat → Value → Value} (h : ∀ i v, p (new i v) = p v)
    (items : List Value)
    : (items.mapIdx new).any p = items.any p := by
  induction items generalizing new with
  | nil => rfl
  | cons item items ih =>
    rw [List.mapIdx_cons, List.any_cons, List.any_cons, h, ih fun i v => h (i + 1) v]

/--
Where a walk meets a list that cannot look up its segment does not depend on what has been stored at
its places.
-/
theorem balks_remade (f : Address → Value → Value) (segments : List String) (v : Value)
    : balks segments (remade f segments v) = balks segments v := by
  induction segments generalizing f v with
  | nil => rfl
  | cons segment rest ih =>
    have hframe := frame_remade f segment rest v
    have hfans' := Value.fans_congr hframe segment
    cases hfans : v.fans segment with
    | true =>
      obtain ⟨rfl, items, rfl⟩ := Value.eq_list_of_fans hfans
      rw [remade_elements, balks_elements, balks_elements]
      apply any_mapIdx
      intro i item
      cases he : entered rest item with
      | false =>
        rw [if_neg Bool.false_ne_true, he]
      | true =>
        rw [if_pos rfl]
        show (entered rest (Address.settle [.index i] _) &&
          balks rest (Address.settle [.index i] _)) = _
        rw [entered_settle he, balks_settle ih he]
    | false =>
      rw [hfans] at hfans'
      have hslot' := Value.slot?_congr hframe segment
      cases hslot : v.slot? segment with
      | none => rw [remade_of_no_slot hfans hslot]
      | some slot =>
        rw [hslot] at hslot'
        rw [balks_of_slot hfans' hslot', balks_of_slot hfans hslot, Value.refuses_congr hframe,
          remade_of_slot hfans hslot]
        cases he : entered rest ((v.get? slot).getD .missing) with
        | false => rw [editedSlot_of_not_entered _ he, he]
        | true =>
          rw [editedSlot_of_entered _ he, Value.get?_store_self (Value.hasSlot_of_slot? hslot),
            Slot.getD_kept, entered_settle he, balks_settle ih he]

end Remade

end Reshape
