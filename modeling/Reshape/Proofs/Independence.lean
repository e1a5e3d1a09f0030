import Reshape.Proofs.Fusion

/-!
This module contains walks along two paths that lead to different places. Neither of them changes
what the other one resolves to, so they may be made in any order. The main statement,
`applyAt_comm`, says so, and tells when the order shows in that of the keys of an object.
-/

namespace Reshape

/--
Two paths are independent if they first differ at segments that do not fan out and that name
different places in any container. The segments that they share may fan out.
-/
inductive Independent : List String → List String → Prop where
  | parted {a b : String} (p q : List String) (hab : a ≠ b) (hi : ¬ SameIndex a b)
    (ha : a ≠ Path.wildcard) (hb : b ≠ Path.wildcard) : Independent (a :: p) (b :: q)
  | shared (segment : String) {p q : List String} (h : Independent p q) :
    Independent (segment :: p) (segment :: q)

/--
Values that differ at most in the order of the fields of their objects.
-/
inductive Value.Reordered : Value → Value → Prop where
  | refl (v : Value) : Reordered v v
  | trans {u v w : Value} (huv : Reordered u v) (hvw : Reordered v w) : Reordered u w
  | fields {fields fields' : List (Key × Value)} (h : fields.Perm fields') :
    Reordered (.object fields) (.object fields')
  | place (v : Value) (slot : Slot) {a b : Value} (h : Reordered a b) :
    Reordered (v.put slot a) (v.put slot b)

/--
Whether a walk makes a field that was not there.
-/
def Grows (f : Address → Value → Value) (segments : List String) (v : Value) : Prop :=
  ∃ a ∈ resolved segments v, v.at? a = none ∧ f a .missing ≠ .missing

namespace Independent

variable {p q : List String}

theorem symm (h : Independent p q) : Independent q p := by
  induction h with
  | parted p q hab hi ha hb =>
    apply parted _ _ hab.symm _ hb ha
    rintro ⟨i, hb, ha⟩
    exact hi ⟨i, ha, hb⟩
  | shared segment h ih => exact shared segment ih

theorem ne_nil (h : Independent p q) : p ≠ [] := by
  cases h with
  | parted => apply List.cons_ne_nil
  | shared => apply List.cons_ne_nil

end Independent

namespace Value

variable {v : Value} {slot other : Slot}

theorem Reordered.of_eq {v w : Value} (h : v = w) : v.Reordered w := by
  rw [h]
  exact .refl w

theorem Reordered.items {f g : Nat → Value → Value} {items : List Value}
    (h : ∀ i (hi : i < items.length), (f i items[i]).Reordered (g i items[i]))
    : (list (items.mapIdx f)).Reordered (list (items.mapIdx g)) := by
  -- The elements are replaced one after the other, so some of them have been replaced already.
  have replaced (done : List Value)
      : (list (done ++ items.mapIdx f)).Reordered (list (done ++ items.mapIdx g)) := by
    induction items generalizing f g done with
    | nil => exact .refl _
    | cons item items ih =>
      rw [List.mapIdx_cons, List.mapIdx_cons]
      have hplace := Reordered.place (list (done ++ f 0 item :: items.mapIdx fun i => f (i + 1)))
        (.index done.length) (h 0 (Nat.zero_lt_succ _))
      simp only [put, List.set_append_right _ _ (Nat.le_refl _), Nat.sub_self, List.set_cons_zero]
        at hplace
      have hrest := ih (fun i hi => h (i + 1) (Nat.succ_lt_succ hi)) (done ++ [g 0 item])
      simp only [List.append_assoc, List.singleton_append] at hrest
      exact hplace.trans hrest
  exact replaced []

theorem put_comm_reordered (h : slot ≠ other) (a b : Value)
    : ((v.put slot a).put other b).Reordered ((v.put other b).put slot a) := by
  cases v <;> cases slot <;> cases other <;> try exact .refl _
  · next items i j =>
    apply Reordered.of_eq
    simp only [put]
    rw [List.set_comm]
    exact fun hij => h (congrArg Slot.index hij)
  · next fields k k' =>
    apply Reordered.fields
    apply Assoc.insert_comm_perm
    exact fun hk => h (congrArg Slot.key hk.symm)

/--
Values that are the same, unless something has grown, and then differ at most in the order of the
fields of their objects.
-/
def SameUnless (grown : Prop) (v w : Value) : Prop :=
  v.Reordered w ∧ (¬ grown → v = w)

namespace SameUnless

variable {grown : Prop}

theorem refl (grown : Prop) (v : Value) : SameUnless grown v v :=
  ⟨.refl v, fun _ => rfl⟩

theorem mono {grown' : Prop} {v w : Value} (h : grown → grown') (hsame : SameUnless grown v w)
    : SameUnless grown' v w :=
  ⟨hsame.1, fun hnot => hsame.2 fun hgrown => hnot (h hgrown)⟩

theorem place {a b : Value} (v : Value) (slot : Slot) (h : SameUnless grown a b)
    : SameUnless grown (v.put slot a) (v.put slot b) := by
  refine ⟨.place v slot h.1, ?_⟩
  intro hnot
  rw [h.2 hnot]

theorem items {f g : Nat → Value → Value} {items : List Value}
    (h : ∀ i (hi : i < items.length), SameUnless grown (f i items[i]) (g i items[i]))
    : SameUnless grown (list (items.mapIdx f)) (list (items.mapIdx g)) := by
  refine ⟨.items fun i hi => (h i hi).1, ?_⟩
  intro hnot
  rw [list.injEq, List.mapIdx_eq_mapIdx_iff]
  intro i hi
  exact (h i hi).2 hnot

theorem store_comm {a b : Value} (h : slot ≠ other)
    (hgrown : v.get? slot = none → a ≠ .missing → v.get? other = none → b ≠ .missing → grown)
    : SameUnless grown ((v.store slot a).store other b) ((v.store other b).store slot a) := by
  by_cases hslot : v.get? slot = none → a = .missing
  · rw [Value.store_comm h (Or.inl hslot)]
    apply refl
  · by_cases hother : v.get? other = none → b = .missing
    · rw [Value.store_comm h (Or.inr hother)]
      apply refl
    · simp only [Classical.not_imp] at hslot hother
      refine ⟨?_, fun hnot => absurd (hgrown hslot.1 hslot.2 hother.1 hother.2) hnot⟩
      rw [store_of_ne hslot.2, store_of_ne hslot.2, store_of_ne hother.2, store_of_ne hother.2]
      exact put_comm_reordered h a b

end SameUnless

end Value

/--
What a walk makes of what it meets on its way: it goes on into containers only.
-/
def inward (f : Address → Value → Value) (rest : List String) (v : Value) : Value :=
  if v.isContainer then remade f rest v else v

section Inward

variable {f g : Address → Value → Value} {segment : String} {rest : List String} {v : Value}
variable {slot : Slot}

theorem entered_of_ne_nil (hrest : rest ≠ []) (v : Value) : entered rest v = v.isContainer := by
  obtain ⟨next, rest, rfl⟩ := List.exists_cons_of_ne_nil hrest
  rfl

theorem isContainer_inward (f : Address → Value → Value) (hrest : rest ≠ []) (v : Value)
    : (inward f rest v).isContainer = v.isContainer := by
  unfold inward
  split
  · rw [← entered_of_ne_nil hrest, entered_remade, entered_of_ne_nil hrest]
  · rfl

theorem inward_inward {p : List String} (hp : p ≠ []) (f g : Address → Value → Value)
    (q : List String) (v : Value)
    : inward g q (inward f p v) = if v.isContainer then remade g q (remade f p v) else v := by
  rw [inward, isContainer_inward f hp]
  split
  · next hc => rw [inward, if_pos hc]
  · next hc => rw [inward, if_neg hc]

theorem remade_elements_inward (f : Address → Value → Value) (hrest : rest ≠ [])
    (items : List Value)
    : remade f (Path.wildcard :: rest) (.list items) =
        .list (items.mapIdx fun i item => inward (fun a => f (.index i :: a)) rest item) := by
  rw [remade_elements]
  congr 2
  funext i item
  unfold inward
  rw [entered_of_ne_nil hrest]
  split
  · next hc =>
    rw [Value.orNull_of_ne]
    apply remade_ne_missing _ hrest
    rw [entered_of_ne_nil hrest, hc]
  · rfl

theorem remade_slot_inward (hfans : v.fans segment = false) (hslot : v.slot? segment = some slot)
    (f : Address → Value → Value) (hrest : rest ≠ [])
    : remade f (segment :: rest) v =
        (v.get? slot).elim v fun content =>
          v.put slot (inward (fun a => f (slot :: a)) rest content) := by
  rw [remade_of_slot hfans hslot]
  cases hget : v.get? slot with
  | none =>
    apply editedSlot_of_not_entered
    rw [hget, entered_of_ne_nil hrest]
    rfl
  | some content =>
    rw [Option.elim_some]
    unfold inward
    have hentered := entered_of_ne_nil hrest content
    split
    · next hc =>
      rw [editedSlot_of_entered]
      · rw [hget, Option.getD_some]
        apply Value.store_of_ne
        apply remade_ne_missing _ hrest
        rw [hentered, hc]
      · rw [hget, Option.getD_some, hentered, hc]
    · next hc =>
      rw [Value.put_of_get? hget]
      apply editedSlot_of_not_entered
      rw [hget, Option.getD_some, hentered]
      simpa using hc

theorem remade_remade_slot (hfans : v.fans segment = false) (hslot : v.slot? segment = some slot)
    (f g : Address → Value → Value) {p q : List String} (hp : p ≠ []) (hq : q ≠ [])
    : remade g (segment :: q) (remade f (segment :: p) v) =
        (v.get? slot).elim v fun content =>
          v.put slot (inward (fun a => g (slot :: a)) q (inward (fun a => f (slot :: a)) p content)) := by
  have hframe := frame_remade f segment p v
  have hfans' := (Value.fans_congr hframe segment).trans hfans
  have hslot' := (Value.slot?_congr hframe segment).trans hslot
  rw [remade_slot_inward hfans' hslot' g hq, remade_slot_inward hfans hslot f hp]
  cases hget : v.get? slot with
  | none => rw [Option.elim_none, hget, Option.elim_none, Option.elim_none]
  | some content =>
    rw [Option.elim_some, Option.elim_some, Value.get?_put_self (Value.hasSlot_of_slot? hslot),
      Option.elim_some, Value.put_put]

theorem grows_of_inward (f : Address → Value → Value) {branch : Slot × Value}
    (hb : branch ∈ branches segment v) (hrest : rest ≠ []) (hc : branch.2.isContainer = true)
    (h : Grows (fun a => f (branch.1 :: a)) rest branch.2)
    : Grows f (segment :: rest) v := by
  have he : entered rest branch.2 = true := by rw [entered_of_ne_nil hrest, hc]
  obtain ⟨a, ha, hnone, hmade⟩ := h
  refine ⟨branch.1 :: a, cons_mem_resolved hb he ha, ?_, hmade⟩
  rw [Value.at?, (get?_of_entered hb hrest he).1]
  exact hnone

theorem grows_of_absent (hfans : v.fans segment = false) (hslot : v.slot? segment = some slot)
    (f : Address → Value → Value) (hget : v.get? slot = none)
    (he : entered rest ((v.get? slot).getD .missing) = true)
    (hmade : remade (fun a => f (slot :: a)) rest ((v.get? slot).getD .missing) ≠ .missing)
    : Grows f (segment :: rest) v := by
  rw [hget] at he hmade
  cases rest with
  | cons next rest => cases he
  | nil =>
    refine ⟨[slot], ?_, ?_, hmade⟩
    · rw [resolved, branches_of_not_fans hfans, branches.named_of_slot? hslot]
      exact List.mem_singleton_self [slot]
    · rw [Value.at?, hget]
      rfl

end Inward

section Comm

variable {p q : List String} {a b : String} {v : Value}

theorem get?_editedSlot_of_ne {slot other : Slot} (h : other ≠ slot) (edit : Value → Value)
    (rest : List String) (v : Value)
    : (editedSlot edit rest v slot).get? other = v.get? other := by
  unfold editedSlot
  dsimp only
  split
  · apply Value.get?_store_of_ne h
  · rfl

theorem editedSlot_of_get?_eq {w : Value} {slot : Slot} (h : w.get? slot = v.get? slot)
    (edit : Value → Value) (rest : List String)
    : editedSlot edit rest w slot =
        if entered rest ((v.get? slot).getD .missing) then
          w.store slot (edit ((v.get? slot).getD .missing))
        else w := by
  unfold editedSlot
  rw [h]

theorem editedSlot_comm {slot other : Slot} (h : slot ≠ other) {grown : Prop}
    {edit edit' : Value → Value}
    (hgrown : v.get? slot = none → entered p ((v.get? slot).getD .missing) = true →
      edit ((v.get? slot).getD .missing) ≠ .missing →
      v.get? other = none → entered q ((v.get? other).getD .missing) = true →
      edit' ((v.get? other).getD .missing) ≠ .missing → grown)
    : Value.SameUnless grown (editedSlot edit' q (editedSlot edit p v slot) other)
        (editedSlot edit p (editedSlot edit' q v other) slot) := by
  rw [editedSlot_of_get?_eq (get?_editedSlot_of_ne h.symm edit p v),
    editedSlot_of_get?_eq (get?_editedSlot_of_ne h edit' q v)]
  unfold editedSlot
  dsimp only
  split
  · next he' =>
    split
    · next he =>
      apply Value.SameUnless.store_comm h
      intro hget hmade hget' hmade'
      exact hgrown hget he hmade hget' he' hmade'
    · apply Value.SameUnless.refl
  · apply Value.SameUnless.refl

theorem remade_comm_of_parted (hab : a ≠ b) (hi : ¬ SameIndex a b) (ha : a ≠ Path.wildcard)
    (hb : b ≠ Path.wildcard) (f g : Address → Value → Value) (v : Value)
    : Value.SameUnless (Grows f (a :: p) v ∧ Grows g (b :: q) v)
        (remade g (b :: q) (remade f (a :: p) v)) (remade f (a :: p) (remade g (b :: q) v)) := by
  have hframe := frame_remade f a p v
  have hframe' := frame_remade g b q v
  cases hslot : v.slot? a with
  | none =>
    rw [remade_of_no_slot (Value.not_fans ha v) hslot,
      remade_of_no_slot (Value.not_fans ha _) ((Value.slot?_congr hframe' a).trans hslot)]
    apply Value.SameUnless.refl
  | some slot =>
    cases hother : v.slot? b with
    | none =>
      rw [remade_of_no_slot (Value.not_fans hb v) hother,
        remade_of_no_slot (Value.not_fans hb _) ((Value.slot?_congr hframe b).trans hother)]
      apply Value.SameUnless.refl
    | some other =>
      rw [remade_of_slot (Value.not_fans hb _) ((Value.slot?_congr hframe b).trans hother),
        remade_of_slot (Value.not_fans ha _) ((Value.slot?_congr hframe' a).trans hslot),
        remade_of_slot (Value.not_fans ha v) hslot, remade_of_slot (Value.not_fans hb v) hother]
      apply editedSlot_comm (slot?_ne_of_not_sameIndex hab hi hslot hother)
      intro hget he hmade hget' he' hmade'
      exact ⟨grows_of_absent (Value.not_fans ha v) hslot f hget he hmade,
        grows_of_absent (Value.not_fans hb v) hother g hget' he' hmade'⟩

/--
Walks along independent paths may be made in any order, which shows in the order of keys alone, and
only if both of them make fields.
-/
theorem remade_comm (h : Independent p q) (f g : Address → Value → Value) (v : Value)
    : Value.SameUnless (Grows f p v ∧ Grows g q v) (remade g q (remade f p v))
        (remade f p (remade g q v)) := by
  induction h generalizing f g v with
  | parted p q hab hi ha hb => exact remade_comm_of_parted hab hi ha hb f g v
  | @shared segment p q h ih =>
    have hp := h.ne_nil
    have hq := h.symm.ne_nil
    have below (slot : Slot) (content : Value) (hbranch : (slot, content) ∈ branches segment v)
        : Value.SameUnless (Grows f (segment :: p) v ∧ Grows g (segment :: q) v)
            (inward (fun a => g (slot :: a)) q (inward (fun a => f (slot :: a)) p content))
            (inward (fun a => f (slot :: a)) p (inward (fun a => g (slot :: a)) q content)) := by
      rw [inward_inward hp, inward_inward hq]
      split
      · next hc =>
        apply (ih _ _ content).mono
        rintro ⟨hf, hg⟩
        exact ⟨grows_of_inward f hbranch hp hc hf, grows_of_inward g hbranch hq hc hg⟩
      · apply Value.SameUnless.refl
    cases hfans : v.fans segment with
    | true =>
      obtain ⟨rfl, items, rfl⟩ := Value.eq_list_of_fans hfans
      rw [remade_elements_inward f hp, remade_elements_inward g hq, remade_elements_inward g hq,
        remade_elements_inward f hp, List.mapIdx_mapIdx, List.mapIdx_mapIdx]
      apply Value.SameUnless.items
      intro i hi
      apply below
      rw [branches_list, if_pos rfl, List.mem_map]
      refine ⟨(items[i], i), ?_, rfl⟩
      rw [List.mk_mem_zipIdx_iff_getElem?]
      exact List.getElem?_eq_getElem hi
    | false =>
      cases hslot : v.slot? segment with
      | none =>
        rw [remade_of_no_slot hfans hslot, remade_of_no_slot hfans hslot,
          remade_of_no_slot hfans hslot]
        apply Value.SameUnless.refl
      | some slot =>
        rw [remade_remade_slot hfans hslot f g hp hq, remade_remade_slot hfans hslot g f hq hp]
        cases hget : v.get? slot with
        | none => apply Value.SameUnless.refl
        | some content =>
          apply Value.SameUnless.place
          apply below
          rw [branches_of_not_fans hfans, branches.named_of_slot? hslot, hget]
          apply List.mem_singleton_self

theorem get?_remade_of_ne {other : Slot} (ha : a ≠ Path.wildcard)
    (h : ∀ slot, v.slot? a = some slot → other ≠ slot) (f : Address → Value → Value)
    (p : List String)
    : (remade f (a :: p) v).get? other = v.get? other := by
  cases hslot : v.slot? a with
  | none => rw [remade_of_no_slot (Value.not_fans ha v) hslot]
  | some slot =>
    rw [remade_of_slot (Value.not_fans ha v) hslot]
    exact get?_editedSlot_of_ne (h slot hslot) _ p v

theorem balks_inward (hp : p ≠ []) (hq : q ≠ [])
    (ih : ∀ (f : Address → Value → Value) v, balks q (remade f p v) = balks q v)
    (f : Address → Value → Value) (v : Value)
    : (entered q (inward f p v) && balks q (inward f p v)) = (entered q v && balks q v) := by
  rw [entered_of_ne_nil hq, entered_of_ne_nil hq, isContainer_inward f hp]
  cases hc : v.isContainer with
  | false => rw [Bool.false_and, Bool.false_and]
  | true =>
    rw [inward, hc, if_pos rfl, ih]

/--
A walk does not change where a walk along an independent path meets a list that cannot look up its
segment.
-/
theorem balks_remade_of_independent (h : Independent p q) (f : Address → Value → Value) (v : Value)
    : balks q (remade f p v) = balks q v := by
  induction h generalizing f v with
  | @parted a b p q hab hi ha hb =>
    have hframe := frame_remade f a p v
    have hslot' := Value.slot?_congr hframe b
    have hfans (w : Value) := Value.not_fans hb w
    cases hslot : v.slot? b with
    | none =>
      rw [balks_of_no_slot (hfans _) (hslot'.trans hslot), balks_of_no_slot (hfans v) hslot,
        Value.refuses_congr hframe]
    | some other =>
      have hget := get?_remade_of_ne ha (fun slot hslot' =>
        (slot?_ne_of_not_sameIndex hab hi hslot' hslot).symm) f p
      rw [balks_of_slot (hfans _) (hslot'.trans hslot), balks_of_slot (hfans v) hslot, hget,
        Value.refuses_congr hframe]
  | @shared segment p q h ih =>
    have hp := h.ne_nil
    have hq := h.symm.ne_nil
    have hframe := frame_remade f segment p v
    have hfans' := Value.fans_congr hframe segment
    cases hfans : v.fans segment with
    | true =>
      obtain ⟨rfl, items, rfl⟩ := Value.eq_list_of_fans hfans
      rw [remade_elements_inward f hp, balks_elements, balks_elements]
      apply any_mapIdx
      intro i item
      exact balks_inward hp hq ih _ item
    | false =>
      have hslot' := Value.slot?_congr hframe segment
      cases hslot : v.slot? segment with
      | none => rw [remade_of_no_slot hfans hslot]
      | some slot =>
        rw [balks_of_slot (hfans'.trans hfans) (hslot'.trans hslot), balks_of_slot hfans hslot,
          Value.refuses_congr hframe, remade_slot_inward hfans hslot f hp]
        cases hget : v.get? slot with
        | none => rw [Option.elim_none, hget]
        | some content =>
          rw [Option.elim_some, Value.get?_put_self (Value.hasSlot_of_slot? hslot)]
          congr 1
          exact balks_inward hp hq ih _ content

end Comm

theorem applyPure_bind_of_independent {p q : Path} (h : Independent p.segments q.segments)
    (f g : Address → Value → Value) (root : Value)
    : (applyPure p f root >>= applyPure q g) =
        unlessBalked (balks p.segments root || balks q.segments root)
          (remade g q.segments (remade f p.segments root)) := by
  rw [applyPure_of_ne h.ne_nil, ← balks_remade_of_independent h f root]
  apply bind_unlessBalked
  exact applyPure_of_ne h.symm.ne_nil g _

/--
Walks along independent paths with functions that cannot fail may be made in any order. Either both
orders fail, because a list cannot look up a segment of one of the paths, or both yield the same value
but for the order of keys, which shows only where both functions make a field.
-/
theorem applyAt_comm {p q : Path} (h : Independent p.segments q.segments) (f g : Value → Value)
    (root : Value)
    : let pThenQ := do
        let u ← applyPure p (fun _ => f) root
        applyPure q (fun _ => g) u
      let qThenP := do
        let u ← applyPure q (fun _ => g) root
        applyPure p (fun _ => f) u
      if balks p.segments root || balks q.segments root then
        pThenQ = .error .tooManyDigits ∧ qThenP = .error .tooManyDigits
      else
        ∃ u w, pThenQ = .ok u ∧ qThenP = .ok w ∧ u.Reordered w ∧
          (¬ (Grows (fun _ => f) p.segments root ∧ Grows (fun _ => g) q.segments root) → u = w) := by
  intro pThenQ qThenP
  have hpq : pThenQ = _ := applyPure_bind_of_independent h (fun _ => f) (fun _ => g) root
  have hqp : qThenP = _ := applyPure_bind_of_independent h.symm (fun _ => g) (fun _ => f) root
  rw [Bool.or_comm] at hqp
  rw [hpq, hqp]
  cases balks p.segments root || balks q.segments root with
  | true => exact ⟨rfl, rfl⟩
  | false => exact ⟨_, _, rfl, rfl, remade_comm h (fun _ => f) (fun _ => g) root⟩

theorem applyAt_comm_elements
    : let f : Value → Value := fun _ => .int 1
      let g : Value → Value := fun _ => .int 2
      let root : Value := .object [(.str "l", .list [.object [], .object [(.str "b", .null)]])]
      Independent (Path.segments ⟨"l.$.a"⟩) (Path.segments ⟨"l.$.b"⟩) ∧
        ∃ u w,
          (do
            let u ← applyPure ⟨"l.$.a"⟩ (fun _ => f) root
            applyPure ⟨"l.$.b"⟩ (fun _ => g) u) = .ok u ∧
          (do
            let u ← applyPure ⟨"l.$.b"⟩ (fun _ => g) root
            applyPure ⟨"l.$.a"⟩ (fun _ => f) u) = .ok w ∧
          u.Reordered w := by
  intro f g root
  have hp : Path.segments ⟨"l.$.a"⟩ = ["l", "$", "a"] := by decide +kernel
  have hq : Path.segments ⟨"l.$.b"⟩ = ["l", "$", "b"] := by decide +kernel
  have hindependent : Independent (Path.segments ⟨"l.$.a"⟩) (Path.segments ⟨"l.$.b"⟩) := by
    rw [hp, hq]
    apply Independent.shared
    apply Independent.shared
    apply Independent.parted [] [] (by decide) _ (by decide) (by decide)
    rintro ⟨i, ha, -⟩
    have hnone : listIndex? "a" = none := by decide +kernel
    rw [hnone] at ha
    cases ha
  have hcomm := applyAt_comm hindependent f g root
  dsimp only at hcomm
  rw [if_neg (by decide +kernel)] at hcomm
  obtain ⟨u, w, hu, hw, hsame, -⟩ := hcomm
  exact ⟨hindependent, u, w, hu, hw, hsame⟩

end Reshape
