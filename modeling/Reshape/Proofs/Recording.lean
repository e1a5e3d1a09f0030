import Reshape.InPlace.Shadow
import Reshape.Proofs.Resolution

/-!
This module contains the walk with a function that cannot fail, which notes the places that it
visits. The main statement, `walk_performs`, says what such a walk visits and what it yields.
-/

namespace Reshape

/--
Walks that note the address and the content of every place that they visit.
-/
abbrev Recording := ExceptT Error (StateM (List (Address × Value)))

/--
The visit that notes a place and replaces its content by a function.
-/
def recording (f : Value → Value) (address : Address) (v : Value) : Recording Value := do
  modify (· ++ [(address, v)])
  pure (f v)

def editedSlot (edit : Value → Value) (rest : List String) (container : Value) (slot : Slot)
    : Value :=
  let content := (container.get? slot).getD .missing
  if entered rest content then container.store slot (edit content) else container

/--
What a walk makes of a value if its visits replace contents by a function.
-/
def edited (f : Value → Value) : List String → Value → Value
  | [], v => f v
  | segment :: rest, .list items =>
    if segment = Path.wildcard then
      .list (items.map fun item => if entered rest item then (edited f rest item).orNull else item)
    else
      match (Value.list items).slot? segment with
      | some slot => editedSlot (edited f rest) rest (.list items) slot
      | none => .list items
  | segment :: rest, v =>
    match v.slot? segment with
    | some slot => editedSlot (edited f rest) rest v slot
    | none => v

theorem run_bind {σ α β : Type} (x : ExceptT Error (StateM σ) α) (k : α → ExceptT Error (StateM σ) β)
    (s : σ)
    : (x >>= k).run.run s =
        match x.run.run s with
        | (.ok a, s) => (k a).run.run s
        | (.error e, s) => (.error e, s) := by
  rw [ExceptT.run_bind, StateT.run_bind]
  show (match x.run.run s with | (r, s) => _) = _
  cases x.run.run s with
  | mk r s => cases r <;> rfl

/--
A computation notes the given calls and yields the given value, or it gives up because of too many
digits and has noted only the first ones of these calls by then.
-/
def Performs {α : Type} (x : Recording α) (fails : Bool) (a : α) (calls : List (Address × Value))
    : Prop :=
  ∀ log, if fails then
      ∃ seen, seen <+: calls ∧ x.run.run log = (.error .tooManyDigits, log ++ seen)
    else
      x.run.run log = (.ok a, log ++ calls)

namespace Performs

variable {α β : Type}

theorem pure (a : α) : Performs (pure a) false a [] := by
  intro log
  simp only [Bool.false_eq_true, ↓reduceIte, List.append_nil]
  rfl

theorem throw (a : α) (calls : List (Address × Value))
    : Performs (throw Error.tooManyDigits) true a calls := by
  intro log
  refine ⟨[], List.nil_prefix, ?_⟩
  rw [List.append_nil]
  rfl

theorem recording (f : Value → Value) (address : Address) (v : Value)
    : Performs (recording f address v) false (f v) [(address, v)] := by
  intro log
  rfl

theorem bind {x : Recording α} {k : α → Recording β} {fails fails' : Bool} {a : α} {b : β}
    {calls calls' : List (Address × Value)} (hx : Performs x fails a calls)
    (hk : Performs (k a) fails' b calls')
    : Performs (x >>= k) (fails || fails') b (calls ++ calls') := by
  intro log
  rw [run_bind]
  have hx := hx log
  cases fails with
  | true =>
    simp only [Bool.true_or, ↓reduceIte] at hx ⊢
    obtain ⟨seen, hseen, hx⟩ := hx
    -- The first computation gives up, so the second one does not run at all.
    rw [hx]
    refine ⟨seen, ?_, rfl⟩
    apply hseen.trans
    apply List.prefix_append
  | false =>
    simp only [Bool.false_or, Bool.false_eq_true, ↓reduceIte] at hx ⊢
    rw [hx]
    have hk := hk (log ++ calls)
    cases fails' with
    | true =>
      simp only [↓reduceIte] at hk ⊢
      obtain ⟨seen, hseen, hk⟩ := hk
      refine ⟨calls ++ seen, ?_, ?_⟩
      · rw [List.prefix_append_right_inj]
        exact hseen
      · rw [hk, List.append_assoc]
    | false =>
      simp only [Bool.false_eq_true, ↓reduceIte] at hk ⊢
      rw [hk, List.append_assoc]

theorem map {x : Recording α} {fails : Bool} {a : α} {calls : List (Address × Value)}
    (hx : Performs x fails a calls) (g : α → β)
    : Performs (x >>= fun a => Pure.pure (g a)) fails (g a) calls := by
  have h := hx.bind (k := fun a => Pure.pure (g a)) (pure (g a))
  rw [Bool.or_false, List.append_nil] at h
  exact h

theorem visitItems {visit : Nat → Value → Recording Value} {fails : Nat → Value → Bool}
    {new : Nat → Value → Value} {calls : Nat → Value → List (Address × Value)}
    (h : ∀ i v, Performs (visit i v) (fails i v) (new i v) (calls i v)) (i : Nat) (vs : List Value)
    : Performs (visitItems visit i vs) ((vs.zipIdx i).any fun p => fails p.2 p.1)
        ((vs.zipIdx i).map fun p => new p.2 p.1) ((vs.zipIdx i).flatMap fun p => calls p.2 p.1) := by
  induction vs generalizing i with
  | nil => apply pure
  | cons v vs ih =>
    simp only [Reshape.visitItems, List.zipIdx_cons, List.any_cons, List.map_cons,
      List.flatMap_cons]
    apply (h i v).bind
    apply (ih (i + 1)).map

end Performs

theorem look_cons (v : Value) (slot : Slot) (a : Address)
    : v.look (slot :: a) = ((v.get? slot).getD .missing).look a := by
  have hmissing : Value.missing.look a = .missing := by
    cases a with
    | nil => rfl
    | cons => rfl
  unfold Value.look
  rw [Value.at?]
  cases v.get? slot with
  | none => exact hmissing.symm
  | some c => rfl

def resolvedBelow (rest : List String) (branch : Slot × Value) : List Address :=
  if entered rest branch.2 then (resolved rest branch.2).map (branch.1 :: ·) else []

theorem resolved_cons (segment : String) (rest : List String) (v : Value)
    : resolved (segment :: rest) v = (branches segment v).flatMap (resolvedBelow rest) := by
  rw [resolved]
  rfl

section Walk

variable {f : Value → Value} {rest : List String}

theorem visitSlot_performs {visit : Value → Recording Value} {slot : Slot}
    {place : Address → Address}
    (h : ∀ w, Performs (visit w) (balks rest w) (edited f rest w)
      ((resolved rest w).map fun a => (place (slot :: a), w.look a)))
    (v : Value)
    : Performs (visitSlot visit rest v slot)
        (entered rest ((v.get? slot).getD .missing) && balks rest ((v.get? slot).getD .missing))
        (editedSlot (edited f rest) rest v slot)
        ((resolvedBelow rest (slot, (v.get? slot).getD .missing)).map
          fun a => (place a, v.look a)) := by
  unfold visitSlot editedSlot resolvedBelow
  dsimp only
  split
  · next he =>
    rw [he, Bool.true_and, List.map_map]
    simp only [Function.comp_def, look_cons]
    apply (h _).map
  · next he =>
    simp only [he, Bool.false_and, List.map_nil]
    apply Performs.pure

theorem visitElement_performs {visit : Value → Recording Value} {i : Nat}
    {place : Address → Address}
    (h : ∀ w, Performs (visit w) (balks rest w) (edited f rest w)
      ((resolved rest w).map fun a => (place (.index i :: a), w.look a)))
    (item : Value)
    : Performs
        (if entered rest item then do
          let new ← visit item
          pure new.orNull
        else
          pure item)
        (entered rest item && balks rest item)
        (if entered rest item then (edited f rest item).orNull else item)
        (if entered rest item then
          (resolved rest item).map fun a => (place (.index i :: a), item.look a)
        else []) := by
  split
  · next he =>
    rw [he, Bool.true_and]
    apply (h item).map
  · next he =>
    simp only [he, Bool.false_and]
    apply Performs.pure

theorem map_elements (new : Value → Value) (items : List Value)
    : (items.zipIdx.map fun p => new p.1) = items.map new := by
  have h : items.map new = (items.zipIdx.map Prod.fst).map new := by
    rw [List.zipIdx_map_fst]
  rw [h, List.map_map]
  rfl

theorem flatMap_elements (place : Address → Address) (items : List Value)
    : (items.zipIdx.flatMap fun p =>
          if entered rest p.1 then
            (resolved rest p.1).map fun a => (place (.index p.2 :: a), p.1.look a)
          else []) =
        (items.zipIdx.flatMap fun p => resolvedBelow rest (.index p.2, p.1)).map
          fun a => (place a, (Value.list items).look a) := by
  rw [List.map_flatMap, List.flatMap_def, List.flatMap_def]
  congr 1
  apply List.map_congr_left
  intro p hp
  rw [List.mem_zipIdx_iff_getElem?] at hp
  unfold resolvedBelow
  split
  · rw [List.map_map]
    apply List.map_congr_left
    intro a _
    rw [Function.comp_apply, look_cons, Value.get?, hp]
    rfl
  · rfl

end Walk

/--
The visits of a walk are the addresses that the segments resolve to, with what stands there in the
value before the walk.
-/
theorem walk_performs {visit : Address → Value → Recording Value} {f : Value → Value}
    {place : Address → Address}
    (hvisit : ∀ a v, Performs (visit a v) false (f v) [(place a, v)])
    (segments : List String) (v : Value)
    : Performs (walk visit segments v) (balks segments v) (edited f segments v)
        ((resolved segments v).map fun a => (place a, v.look a)) := by
  -- Going down extends the address that the visit is told, so both vary in the induction.
  induction segments generalizing visit place v with
  | nil => apply hvisit
  | cons segment rest ih =>
    have below : ∀ (slot : Slot) (w : Value),
        Performs (walk (fun a => visit (slot :: a)) rest w) (balks rest w) (edited f rest w)
          ((resolved rest w).map fun a => (place (slot :: a), w.look a)) := by
      intro slot w
      apply @ih _ fun a => place (slot :: a)
      intro a u
      apply hvisit
    have named : ∀ v : Value,
        -- Objects and lists alike are entered by name, and only lists fan out.
        Performs
          (match v.slot? segment with
            | some slot => visitSlot (walk (fun a => visit (slot :: a)) rest) rest v slot
            | none => pure v)
          ((branches.named segment v).any fun b => entered rest b.2 && balks rest b.2)
          (match v.slot? segment with
            | some slot => editedSlot (edited f rest) rest v slot
            | none => v)
          (((branches.named segment v).flatMap (resolvedBelow rest)).map
            fun a => (place a, v.look a)) := by
      intro v
      cases hs : v.slot? segment with
      | none =>
        rw [branches.named_of_none hs]
        apply Performs.pure
      | some slot =>
        rw [branches.named_of_slot? hs]
        simp only [List.any_cons, List.any_nil, Bool.or_false, List.flatMap_cons, List.flatMap_nil,
          List.append_nil]
        apply visitSlot_performs (below slot)
    rw [resolved_cons]
    cases v with
    | list items =>
      by_cases hw : segment = Path.wildcard
      · have hitems := (Performs.visitItems (fun i => visitElement_performs (below (.index i)))
          0 items).map Value.list
        rw [map_elements (fun item => if entered rest item then (edited f rest item).orNull else item),
          flatMap_elements] at hitems
        simp only [walk, edited, balks, branches_list, hw, ↓reduceIte, refuses_wildcard,
          Bool.false_or, List.any_map, List.flatMap_map]
        exact hitems
      · cases hr : (Value.list items).refuses segment with
        | true =>
          simp only [walk, edited, balks, hw, hr, ↓reduceIte, Bool.true_or]
          apply Performs.throw
        | false =>
          simp only [walk, edited, balks, branches_list, hw, hr, ↓reduceIte, Bool.false_or,
            Bool.false_eq_true]
          exact named (.list items)
    | _ =>
      simp only [walk, edited, balks, Value.refuses, Bool.false_or]
      exact named _

end Reshape
