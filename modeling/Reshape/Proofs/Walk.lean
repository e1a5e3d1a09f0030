import Reshape.Proofs.Recording

/-!
This module contains what a walk with a function that cannot fail leaves behind. The main statement,
`applyAt_recording`, says which places such a function is called on, with what, and what has become
of every address of the value in the end.
-/

namespace Reshape

/--
What a function leaves behind that has been applied at addresses of a value.
-/
structure Applied (f : Value → Value) (addresses : List Address) (root new : Value) : Prop where
  /-- Every address holds what the function makes of what stood there before. -/
  stored : ∀ a ∈ addresses, new.at? a = Address.kept a (f (root.look a))
  /-- What is neither above, at nor below one of the addresses stays as it is. -/
  untouched : ∀ a, (∀ r ∈ addresses, ¬ r <+: a ∧ ¬ a <+: r) → new.at? a = root.at? a
  /-- Containers above the addresses stay containers, and lists keep their length. -/
  frames : ∀ a, (∀ r ∈ addresses, ¬ r <+: a) →
    (new.at? a).map Value.frame = (root.at? a).map Value.frame
  /-- An object none of whose own keys is addressed keeps its keys in their order. -/
  keys : ∀ a, (∀ r ∈ addresses, ¬ r <+: a) → (∀ k, a ++ [.key k] ∉ addresses) →
    (new.at? a).bind Value.keys? = (root.at? a).bind Value.keys?
  /-- Of the keys of an object only the addressed one goes away, or comes last if it is new. -/
  keysAfter : ∀ a k, a ++ [.key k] ∈ addresses →
    (new.at? a).bind Value.keys? =
      ((root.at? a).bind Value.keys?).map (keysAfter k (f (root.look (a ++ [.key k]))))
  /-- Without addresses nothing changes. -/
  unresolved : addresses = [] → new = root

section Step

variable {f : Value → Value} {segment : String} {rest : List String} {v : Value}

theorem edited_cases (f : Value → Value) (segment : String) (rest : List String) (v : Value)
    : (∃ items, v = .list items ∧ branches segment v = items.zipIdx.map (fun p => (.index p.2, p.1)) ∧
        edited f (segment :: rest) v =
          .list (items.map fun item =>
            if entered rest item then (edited f rest item).orNull else item)) ∨
      (∃ slot, v.slot? segment = some slot ∧
        branches segment v = [(slot, (v.get? slot).getD .missing)] ∧
        edited f (segment :: rest) v = editedSlot (edited f rest) rest v slot) ∨
      (branches segment v = [] ∧ edited f (segment :: rest) v = v) := by
  -- What does not fan out enters at most one slot.
  have named (h : branches segment v = branches.named segment v)
      (hsome : ∀ slot, v.slot? segment = some slot →
        edited f (segment :: rest) v = editedSlot (edited f rest) rest v slot)
      (hnone : v.slot? segment = none → edited f (segment :: rest) v = v) :
      (∃ slot, v.slot? segment = some slot ∧
        branches segment v = [(slot, (v.get? slot).getD .missing)] ∧
        edited f (segment :: rest) v = editedSlot (edited f rest) rest v slot) ∨
      (branches segment v = [] ∧ edited f (segment :: rest) v = v) := by
    cases hs : v.slot? segment with
    | none =>
      refine Or.inr ⟨?_, hnone hs⟩
      rw [h, branches.named_of_none hs]
    | some slot =>
      refine Or.inl ⟨slot, rfl, ?_, hsome slot hs⟩
      rw [h, branches.named_of_slot? hs]
  cases v with
  | list items =>
    by_cases hw : segment = Path.wildcard
    · left
      refine ⟨items, rfl, ?_, ?_⟩
      · rw [branches_list, if_pos hw]
      · rw [edited, if_pos hw]
    · right
      apply named
      · rw [branches_list, if_neg hw]
      · intro slot hs
        rw [edited, if_neg hw, hs]
      · intro hs
        rw [edited, if_neg hw, hs]
  | object fields =>
    right
    apply named
    · rfl
    · rintro slot ⟨⟩
      rfl
    · rintro ⟨⟩
  | _ =>
    right
    apply named
    · rfl
    · rintro slot ⟨⟩
    · intro hs
      rfl

theorem edited_of_slot? (f : Value → Value) (rest : List String) {slot : Slot}
    (hw : segment ≠ Path.wildcard) (h : v.slot? segment = some slot)
    : branches segment v = [(slot, v.child segment)] ∧
        edited f (segment :: rest) v = editedSlot (edited f rest) rest v slot := by
  have hnamed : branches.named segment v = [(slot, v.child segment)] := by
    rw [branches.named_of_slot? h, Value.child_of_slot? h]
  cases v with
  | list items =>
    rw [branches_list, if_neg hw, edited, if_neg hw, h]
    exact ⟨hnamed, rfl⟩
  | object fields =>
    refine ⟨hnamed, ?_⟩
    rw [edited, h]
    intro items hitems
    cases hitems
  | _ => cases h

@[simp]
theorem frame_edited_cons : (edited f (segment :: rest) v).frame = v.frame := by
  rcases edited_cases f segment rest v with ⟨items, rfl, -, he⟩ | ⟨slot, -, -, he⟩ | ⟨-, he⟩
  · rw [he]
    simp [Value.frame]
  · rw [he]
    unfold editedSlot
    dsimp only
    split
    · apply Value.frame_store
    · rfl
  · rw [he]

theorem edited_ne_missing (f : Value → Value) (hr : rest ≠ []) (hc : v.isContainer = true)
    : edited f rest v ≠ .missing := by
  obtain ⟨next, rest, rfl⟩ := List.exists_cons_of_ne_nil hr
  apply Value.ne_missing_of_isContainer
  rw [Value.isContainer_congr frame_edited_cons]
  exact hc

theorem get?_edited_of_mem {branch : Slot × Value} (hb : branch ∈ branches segment v)
    (he : entered rest branch.2 = true)
    : (edited f (segment :: rest) v).get? branch.1 = branch.1.kept (edited f rest branch.2) := by
  rcases edited_cases f segment rest v with ⟨items, rfl, hbs, hv⟩ | ⟨slot, hslot, hbs, hv⟩ | ⟨hbs, -⟩
  · rw [hbs] at hb
    simp only [List.mem_map, Prod.exists, List.mk_mem_zipIdx_iff_getElem?] at hb
    obtain ⟨item, i, hi, rfl⟩ := hb
    rw [hv, Value.get?, List.getElem?_map, hi, Option.map_some, if_pos he]
    cases edited f rest item <;> rfl
  · rw [hbs, List.mem_singleton] at hb
    rw [hv, hb]
    rw [hb] at he
    unfold editedSlot
    dsimp only
    rw [if_pos he]
    apply Value.get?_store_self
    exact Value.hasSlot_of_slot? hslot
  · rw [hbs] at hb
    cases hb

theorem get?_edited_of_not_entered {slot : Slot}
    (h : ∀ branch ∈ branches segment v, branch.1 = slot → entered rest branch.2 = false)
    : (edited f (segment :: rest) v).get? slot = v.get? slot := by
  rcases edited_cases f segment rest v with ⟨items, rfl, hbs, hv⟩ | ⟨slot', hslot, hbs, hv⟩ | ⟨-, hv⟩
  · rw [hv]
    cases slot with
    | key k => rfl
    | index i =>
      rw [Value.get?, Value.get?, List.getElem?_map]
      cases hi : items[i]? with
      | none => rfl
      | some item =>
        have hmem : (.index i, item) ∈ branches segment (.list items) := by
          rw [hbs, List.mem_map]
          refine ⟨(item, i), ?_, rfl⟩
          rw [List.mk_mem_zipIdx_iff_getElem?]
          exact hi
        have hne := h _ hmem rfl
        simp [hne]
  · rw [hv]
    unfold editedSlot
    dsimp only
    split
    · next he =>
      apply Value.get?_store_of_ne
      intro heq
      have hne := h (slot', (v.get? slot').getD .missing) (by rw [hbs]; simp) heq.symm
      rw [hne] at he
      cases he
    · rfl
  · rw [hv]

theorem at?_edited_of_mem {branch : Slot × Value} (hb : branch ∈ branches segment v)
    (hr : rest ≠ []) (he : entered rest branch.2 = true) (a : Address)
    : (edited f (segment :: rest) v).at? (branch.1 :: a) = (edited f rest branch.2).at? a ∧
      v.at? (branch.1 :: a) = branch.2.at? a := by
  obtain ⟨hget, hcontainer⟩ := get?_of_entered hb hr he
  constructor
  · -- the walk hands a container up, so the slot keeps it as it is
    rw [Value.at?, get?_edited_of_mem hb he, Slot.kept_of_ne (edited_ne_missing f hr hcontainer)]
    rfl
  · rw [Value.at?, hget]
    rfl

theorem at?_edited_of_not_entered {slot : Slot}
    (h : ∀ branch ∈ branches segment v, branch.1 = slot → entered rest branch.2 = false)
    (a : Address)
    : (edited f (segment :: rest) v).at? (slot :: a) = v.at? (slot :: a) := by
  rw [Value.at?, Value.at?, get?_edited_of_not_entered h]

theorem resolved_nil (v : Value) : resolved [] v = [[]] := rfl

theorem ne_nil_of_mem_resolved (hr : rest ≠ []) {a : Address} (ha : a ∈ resolved rest v)
    : a ≠ [] := by
  obtain ⟨next, rest, rfl⟩ := List.exists_cons_of_ne_nil hr
  rw [mem_resolved_cons] at ha
  obtain ⟨branch, -, -, b, -, rfl⟩ := ha
  apply List.cons_ne_nil

theorem cons_mem_resolved {branch : Slot × Value} (hb : branch ∈ branches segment v)
    (he : entered rest branch.2 = true) {a : Address} (ha : a ∈ resolved rest branch.2)
    : branch.1 :: a ∈ resolved (segment :: rest) v := by
  rw [mem_resolved_cons]
  exact ⟨branch, hb, he, a, ha, rfl⟩

theorem mem_of_cons_mem_resolved {slot : Slot} {a : Address}
    (h : slot :: a ∈ resolved (segment :: rest) v)
    : ∃ branch ∈ branches segment v, branch.1 = slot ∧ entered rest branch.2 = true ∧
        a ∈ resolved rest branch.2 := by
  rw [mem_resolved_cons] at h
  obtain ⟨branch, hb, he, b, hmem, heq⟩ := h
  rw [List.cons.injEq] at heq
  refine ⟨branch, hb, heq.1.symm, he, ?_⟩
  rw [heq.2]
  exact hmem

theorem look_of_mem {branch : Slot × Value} (hb : branch ∈ branches segment v) (a : Address)
    : v.look (branch.1 :: a) = branch.2.look a := by
  rw [look_cons, ← (mem_branches hb).2]

theorem at?_edited_cases (f : Value → Value) (segment : String) (rest : List String) (v : Value)
    (slot : Slot) (a : Address)
    : (edited f (segment :: rest) v).at? (slot :: a) = v.at? (slot :: a) ∨
      [slot] ∈ resolved (segment :: rest) v ∨
      ∃ branch ∈ branches segment v, branch.1 = slot ∧ entered rest branch.2 = true ∧
        (edited f (segment :: rest) v).at? (slot :: a) = (edited f rest branch.2).at? a ∧
        v.at? (slot :: a) = branch.2.at? a := by
  -- Below the last segment the visit itself is met, so the two cases of `rest` part.
  by_cases hslot : ∃ branch ∈ branches segment v, branch.1 = slot ∧ entered rest branch.2 = true
  · obtain ⟨branch, hb, rfl, he⟩ := hslot
    right
    by_cases hr : rest = []
    · left
      apply cons_mem_resolved hb he
      rw [hr, resolved_nil]
      apply List.mem_singleton_self
    · right
      exact ⟨branch, hb, rfl, he, at?_edited_of_mem hb hr he a⟩
  · left
    apply at?_edited_of_not_entered
    intro branch hb heq
    rw [Bool.eq_false_iff]
    intro he
    exact hslot ⟨branch, hb, heq, he⟩

theorem keys?_edited_of_not_mem (h : ∀ k, [.key k] ∉ resolved (segment :: rest) v)
    : (edited f (segment :: rest) v).keys? = v.keys? := by
  rcases edited_cases f segment rest v with ⟨items, rfl, -, hv⟩ | ⟨slot, hslot, hbs, hv⟩ | ⟨-, hv⟩
  · rw [hv]
    rfl
  · rw [hv]
    unfold editedSlot
    dsimp only
    split
    · next he =>
      have hb : (slot, (v.get? slot).getD .missing) ∈ branches segment v := by
        rw [hbs]
        apply List.mem_singleton_self
      by_cases hr : rest = []
      · cases slot with
        | key k =>
          exfalso
          apply h k
          apply cons_mem_resolved hb he
          rw [hr, resolved_nil]
          apply List.mem_singleton_self
        | index i =>
          have hhas := Value.hasSlot_of_slot? hslot
          unfold Value.store
          cases v <;> simp_all [Value.hasSlot]
          split <;> rfl
      · obtain ⟨hget, hcontainer⟩ := get?_of_entered hb hr he
        rw [Value.store_of_ne (edited_ne_missing f hr hcontainer), Value.keys?_put_of_get? hget]
    · rfl
  · rw [hv]

theorem keys?_edited_of_mem {k : Key} (h : [.key k] ∈ resolved (segment :: rest) v)
    : (edited f (segment :: rest) v).keys? = v.keys?.map (keysAfter k (f (v.look [.key k]))) := by
  obtain ⟨branch, hb, hk, he, hmem⟩ := mem_of_cons_mem_resolved h
  have hr : rest = [] := by
    apply Decidable.of_not_not
    intro hr
    exact ne_nil_of_mem_resolved hr hmem rfl
  subst hr
  rcases edited_cases f segment [] v with ⟨items, rfl, hbs, -⟩ | ⟨slot, hslot, hbs, hv⟩ | ⟨hbs, -⟩
  · rw [hbs, List.mem_map] at hb
    obtain ⟨p, -, rfl⟩ := hb
    cases hk
  · rw [hbs, List.mem_singleton] at hb
    rw [hb] at hk he
    have hk : slot = .key k := hk
    subst hk
    rw [hv, look_cons]
    unfold editedSlot
    dsimp only
    rw [if_pos he]
    apply Value.keys?_store_key
  · rw [hbs] at hb
    cases hb

end Step

theorem at?_edited_of_resolved (f : Value → Value) (segments : List String) (v : Value)
    (a : Address) (ha : a ∈ resolved segments v)
    : (edited f segments v).at? a = Address.kept a (f (v.look a)) := by
  induction segments generalizing v a with
  | nil =>
    rw [resolved_nil, List.mem_singleton] at ha
    rw [ha]
    rfl
  | cons segment rest ih =>
    rw [mem_resolved_cons] at ha
    obtain ⟨branch, hb, he, b, hmem, rfl⟩ := ha
    rw [look_of_mem hb]
    by_cases hr : rest = []
    · subst hr
      rw [resolved_nil, List.mem_singleton] at hmem
      rw [hmem, Value.at?, get?_edited_of_mem hb he]
      show ((branch.1.kept (f branch.2)).bind fun w => some w) = branch.1.kept (f branch.2)
      cases branch.1.kept (f branch.2) <;> rfl
    · rw [(at?_edited_of_mem hb hr he b).1, ih branch.2 b hmem]
      obtain ⟨slot, b, rfl⟩ := List.exists_cons_of_ne_nil (ne_nil_of_mem_resolved hr hmem)
      rfl

theorem edited_of_unresolved (f : Value → Value) (segments : List String) (v : Value)
    (h : resolved segments v = [])
    : edited f segments v = v := by
  induction segments generalizing v with
  | nil => cases h
  | cons segment rest ih =>
    -- No branch leads anywhere, so by the hypothesis none of them is changed.
    have below : ∀ branch ∈ branches segment v, entered rest branch.2 = true →
        edited f rest branch.2 = branch.2 ∧ v.get? branch.1 = some branch.2 ∧
          branch.2 ≠ .missing := by
      intro branch hb he
      have hnil : resolved rest branch.2 = [] := by
        rw [List.eq_nil_iff_forall_not_mem]
        intro a ha
        have := cons_mem_resolved hb he ha
        rw [h] at this
        cases this
      have hr : rest ≠ [] := by
        intro hr
        rw [hr] at hnil
        cases hnil
      obtain ⟨hget, hcontainer⟩ := get?_of_entered hb hr he
      exact ⟨ih branch.2 hnil, hget, Value.ne_missing_of_isContainer hcontainer⟩
    rcases edited_cases f segment rest v with ⟨items, rfl, hbs, hv⟩ | ⟨slot, hslot, hbs, hv⟩ | ⟨-, hv⟩
    · rw [hv]
      congr 1
      conv =>
        rhs
        rw [← List.map_id items]
      apply List.map_congr_left
      intro item hitem
      obtain ⟨i, hi⟩ := List.mem_iff_getElem?.mp hitem
      have hb : (.index i, item) ∈ branches segment (.list items) := by
        rw [hbs, List.mem_map]
        refine ⟨(item, i), ?_, rfl⟩
        rw [List.mk_mem_zipIdx_iff_getElem?]
        exact hi
      split
      · next he =>
        obtain ⟨hsame, -, hne⟩ := below _ hb he
        rw [hsame, Value.orNull_of_ne hne, id_eq]
      · rfl
    · rw [hv]
      unfold editedSlot
      dsimp only
      split
      · next he =>
        obtain ⟨hsame, hget, hne⟩ := below (slot, (v.get? slot).getD .missing) (by rw [hbs]; simp) he
        rw [hsame, Value.store_of_ne hne, Value.put_of_get? hget]
      · rfl
    · exact hv

theorem at?_edited_of_apart (f : Value → Value) (segments : List String) (v : Value)
    (a : Address) (ha : ∀ r ∈ resolved segments v, ¬ r <+: a ∧ ¬ a <+: r)
    : (edited f segments v).at? a = v.at? a := by
  induction segments generalizing v a with
  | nil => exact ((ha [] (by simp [resolved])).1 List.nil_prefix).elim
  | cons segment rest ih =>
    cases a with
    | nil =>
      -- the empty address is above every other one, so there is none
      have hnil : resolved (segment :: rest) v = [] := by
        rw [List.eq_nil_iff_forall_not_mem]
        intro r hr
        exact (ha r hr).2 List.nil_prefix
      rw [edited_of_unresolved f _ v hnil]
    | cons slot a =>
      rcases at?_edited_cases f segment rest v slot a
        with h | h | ⟨branch, hb, rfl, he, hnew, hold⟩
      · exact h
      · exact ((ha _ h).1 (by simp)).elim
      · rw [hnew, hold]
        apply ih
        intro r hr
        have := ha _ (cons_mem_resolved hb he hr)
        simpa only [List.cons_prefix_cons, true_and] using this

theorem frame_edited (f : Value → Value) (segments : List String) (v : Value)
    (a : Address) (ha : ∀ r ∈ resolved segments v, ¬ r <+: a)
    : ((edited f segments v).at? a).map Value.frame = (v.at? a).map Value.frame := by
  induction segments generalizing v a with
  | nil => exact (ha [] (by simp [resolved]) List.nil_prefix).elim
  | cons segment rest ih =>
    cases a with
    | nil =>
      show some (edited f (segment :: rest) v).frame = some v.frame
      rw [frame_edited_cons]
    | cons slot a =>
      rcases at?_edited_cases f segment rest v slot a
        with h | h | ⟨branch, hb, rfl, he, hnew, hold⟩
      · rw [h]
      · exact (ha _ h (by simp)).elim
      · rw [hnew, hold]
        apply ih
        intro r hr
        have := ha _ (cons_mem_resolved hb he hr)
        simpa only [List.cons_prefix_cons, true_and] using this

theorem keys?_edited (f : Value → Value) (segments : List String) (v : Value)
    (a : Address) (ha : ∀ r ∈ resolved segments v, ¬ r <+: a)
    (hk : ∀ k, a ++ [.key k] ∉ resolved segments v)
    : ((edited f segments v).at? a).bind Value.keys? = (v.at? a).bind Value.keys? := by
  induction segments generalizing v a with
  | nil => exact (ha [] (by simp [resolved]) List.nil_prefix).elim
  | cons segment rest ih =>
    cases a with
    | nil =>
      show (edited f (segment :: rest) v).keys? = v.keys?
      apply keys?_edited_of_not_mem hk
    | cons slot a =>
      rcases at?_edited_cases f segment rest v slot a
        with h | h | ⟨branch, hb, rfl, he, hnew, hold⟩
      · rw [h]
      · exact (ha _ h (by simp)).elim
      · rw [hnew, hold]
        apply ih
        · intro r hr
          have := ha _ (cons_mem_resolved hb he hr)
          simpa only [List.cons_prefix_cons, true_and] using this
        · intro k hmem
          exact hk k (cons_mem_resolved hb he hmem)

theorem keys?_edited_of_resolved (f : Value → Value) (segments : List String) (v : Value)
    (a : Address) (k : Key) (h : a ++ [.key k] ∈ resolved segments v)
    : ((edited f segments v).at? a).bind Value.keys? =
        ((v.at? a).bind Value.keys?).map (keysAfter k (f (v.look (a ++ [.key k])))) := by
  induction segments generalizing v a with
  | nil => simp [resolved] at h
  | cons segment rest ih =>
    cases a with
    | nil =>
      show (edited f (segment :: rest) v).keys? = v.keys?.map _
      apply keys?_edited_of_mem h
    | cons slot a =>
      obtain ⟨branch, hb, rfl, he, hmem⟩ := mem_of_cons_mem_resolved h
      have hr : rest ≠ [] := by
        intro hr
        subst hr
        simp [resolved] at hmem
      obtain ⟨hnew, hold⟩ := at?_edited_of_mem (f := f) hb hr he a
      rw [hnew, hold, ih branch.2 a hmem, List.cons_append, look_of_mem hb]

theorem edited_applied (f : Value → Value) (segments : List String) (v : Value)
    : Applied f (resolved segments v) v (edited f segments v) where
  stored := at?_edited_of_resolved f segments v
  untouched := at?_edited_of_apart f segments v
  frames := frame_edited f segments v
  keys := keys?_edited f segments v
  keysAfter := keys?_edited_of_resolved f segments v
  unresolved := edited_of_unresolved f segments v

theorem applyAt_of_ne_root {m : Type → Type} [Monad m] [MonadExcept Error m] {path : Path}
    (h : path.isRoot = false) (visit : Address → Value → m Value) (root : Value)
    : applyAt path visit root = walk visit path.segments root := by
  unfold applyAt
  split
  · next hs =>
    rw [Path.isRoot, hs] at h
    cases h
  · rfl

/--
Applying a function at a path calls it on the addresses that the path resolves to, each of them
once, in the order of the document and with what stands there in the original value, and stores what
it yields. Only a list that cannot look up a segment, because it has too many digits, ends a walk
early; it fails then, and has called the function on no more than the first ones of these addresses.
-/
theorem applyAt_recording (f : Value → Value) (path : Path) (root : Value)
    (h : path.isRoot = false)
    : (resolved path.segments root).Pairwise Address.Before ∧
      let calls := (resolved path.segments root).map fun a => (a, root.look a)
      let run := (applyAt path (recording f) root).run.run []
      if balks path.segments root then
        run.1 = .error .tooManyDigits ∧ run.2 <+: calls
      else
        run.2 = calls ∧
          ∃ new, run.1 = .ok new ∧ Applied f (resolved path.segments root) root new := by
  refine ⟨resolved_pairwise path.segments root, ?_⟩
  dsimp only
  rw [applyAt_of_ne_root h]
  have hrun := @walk_performs _ f id (Performs.recording f) path.segments root []
  split
  · next hb =>
    rw [if_pos hb] at hrun
    obtain ⟨seen, hseen, hrun⟩ := hrun
    rw [hrun]
    exact ⟨rfl, hseen⟩
  · next hb =>
    rw [if_neg hb] at hrun
    rw [hrun]
    exact ⟨rfl, _, rfl, edited_applied f path.segments root⟩

theorem applyAt_recording_elements
    : let f : Value → Value := fun _ => .missing
      let root : Value := .object [(.str "a", .list [.int 1, .int 2]), (.str "b", .int 3)]
      let addresses : List Address := [[.key (.str "a"), .index 0], [.key (.str "a"), .index 1]]
      let run := (applyAt ⟨"a.$"⟩ (recording f) root).run.run []
      Path.isRoot ⟨"a.$"⟩ = false ∧ run.2 = [(addresses[0], .int 1), (addresses[1], .int 2)] ∧
        ∃ new, run.1 = .ok new ∧ Applied f addresses root new := by
  intro f root addresses run
  have hroot : Path.isRoot ⟨"a.$"⟩ = false := by decide +kernel
  have hsegments : Path.segments ⟨"a.$"⟩ = ["a", "$"] := by decide +kernel
  have h := (applyAt_recording f ⟨"a.$"⟩ root hroot).2
  have hresolved : resolved ["a", "$"] root = addresses := by decide +kernel
  have hbalks : balks ["a", "$"] root = false := by decide +kernel
  dsimp only at h
  rw [hsegments, hresolved, hbalks, if_neg Bool.false_ne_true] at h
  exact ⟨hroot, h⟩

end Reshape
