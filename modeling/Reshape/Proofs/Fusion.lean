import Reshape.Direct
import Reshape.Proofs.Presence
import Reshape.Proofs.Remaking

/-!
This module contains the fusion of walks along one path. The first of two walks does not change what
the path resolves to, so both of them do what one walk does that puts their functions together. The
main statement, `applyAt_fusion`, draws from it what setting a field twice, setting and removing it,
and invoking several procedures on it comes to.
-/

namespace Reshape

/--
Whether a function gives nothing up that is there.
-/
def Retains (f : Value → Value) : Prop :=
  ∀ v, v ≠ .missing → f v ≠ .missing

/--
What a second function makes of what a first one has left at an address is what a third one makes of
the address, and the second one does not make again what the first one has given up.
-/
def Fuses (f g h : Address → Value → Value) (a : Address) : Prop :=
  ∀ v : Value, (v = .missing → a.isField = true) →
    h a v = g a (a.settle (f a v)) ∧ (f a v ≠ .missing ∨ v = .missing ∨ g a .missing = .missing)

theorem Value.ne_missing_of_present {v : Value} (h : v.madeOf .present = true) : v ≠ .missing := by
  rintro rfl
  cases h

section Twice

variable {f g h : Address → Value → Value} {rest : List String} {v : Value} {slot : Slot}

theorem Value.content_of_get? (hv : v.madeOf .present = true) (hslot : v.hasSlot slot = true)
    (hcontent : (v.get? slot).getD .missing = .missing)
    : v.get? slot = none ∧ Address.isField [slot] = true := by
  cases hget : v.get? slot with
  | none =>
    refine ⟨rfl, ?_⟩
    cases slot with
    | key k => rfl
    | index i => cases v <;> simp_all [get?, hasSlot]
  | some w =>
    rw [hget] at hcontent
    exact absurd hcontent (ne_missing_of_present (madeOf_of_get? hv hget))

theorem Fuses.shift {a : Address} (ha : a ≠ []) (hfuses : Fuses f g h (slot :: a))
    : Fuses (fun a => f (slot :: a)) (fun a => g (slot :: a)) (fun a => h (slot :: a)) a := by
  intro v hv
  rw [← Address.isField_cons ha slot] at hv
  have hhere := hfuses v hv
  rw [Address.settle_cons ha] at hhere
  exact hhere

/--
What two walks make of a place that the first one has visited.
-/
theorem remade_settle (slot : Slot) (hfuses : ∀ a, a ≠ [] → Fuses f g h a)
    (ih : ∀ {f g h : Address → Value → Value} {v : Value}, (∀ a, a ≠ [] → Fuses f g h a) →
      rest ≠ [] → v.Fills .present → remade g rest (remade f rest v) = remade h rest v)
    (hv : v.Fills .present) (hslot : v = .missing → Address.isField [slot] = true)
    (he : entered rest v = true)
    : let f' := remade (fun a => f (slot :: a)) rest
      let g' := remade (fun a => g (slot :: a)) rest
      let h' := remade (fun a => h (slot :: a)) rest
      entered rest (Address.settle [slot] (f' v)) = true ∧
        h' v = g' (Address.settle [slot] (f' v)) ∧
        (f' v ≠ .missing ∨ v = .missing ∨ g' .missing = .missing) := by
  intro f' g' h'
  refine ⟨entered_settle he _ _, ?_⟩
  by_cases hrest : rest = []
  · subst hrest
    exact hfuses [slot] (List.cons_ne_nil _ _) v hslot
  · refine ⟨?_, Or.inl (remade_ne_missing _ hrest he)⟩
    rw [remade_settle_of_ne hrest he]
    symm
    apply ih _ hrest hv
    intro a ha
    exact (hfuses (slot :: a) (List.cons_ne_nil _ _)).shift ha

theorem editedSlot_editedSlot {f' g' h' : Value → Value} (hslot : v.hasSlot slot = true)
    (hv : v.madeOf .present = true)
    (hplace : let w := (v.get? slot).getD .missing
      entered rest w = true →
        entered rest (Address.settle [slot] (f' w)) = true ∧
          h' w = g' (Address.settle [slot] (f' w)) ∧
          (f' w ≠ .missing ∨ w = .missing ∨ g' .missing = .missing))
    : editedSlot g' rest (editedSlot f' rest v slot) slot = editedSlot h' rest v slot := by
  cases he : entered rest ((v.get? slot).getD .missing) with
  | false =>
    rw [editedSlot_of_not_entered _ he, editedSlot_of_not_entered _ he,
      editedSlot_of_not_entered _ he]
  | true =>
    obtain ⟨hentered, heq, hgives⟩ := hplace he
    have hcontent := Value.get?_store_self hslot (f' ((v.get? slot).getD .missing))
    rw [editedSlot_of_entered _ he, editedSlot_of_entered _ he, editedSlot_of_entered]
    · rw [hcontent, Slot.getD_kept, ← heq]
      apply Value.store_store
      by_cases hgone : f' ((v.get? slot).getD .missing) = .missing
      · right
        rcases hgives with hgives | hgives | hgives
        · exact absurd hgone hgives
        · exact Or.inl (Value.content_of_get? hv hslot hgives).1
        · right
          intro hkept
          rw [heq, hgone, ← Slot.getD_kept, hkept]
          exact hgives
      · exact Or.inl hgone
    · rw [hcontent, Slot.getD_kept]
      exact hentered

/--
Walks along the same segments, one after the other, do what one walk does.
-/
theorem remade_remade (hfuses : ∀ a, a ≠ [] → Fuses f g h a) {segments : List String}
    (hne : segments ≠ []) (hv : v.Fills .present)
    : remade g segments (remade f segments v) = remade h segments v := by
  induction segments generalizing f g h v with
  | nil => exact absurd rfl hne
  | cons segment rest ih =>
    rcases hv with rfl | hv
    · rfl
    have hframe := frame_remade f segment rest v
    have hfans' := Value.fans_congr hframe segment
    cases hfans : v.fans segment with
    | true =>
      obtain ⟨rfl, items, rfl⟩ := Value.eq_list_of_fans hfans
      rw [remade_elements, remade_elements, remade_elements, List.mapIdx_mapIdx, Value.list.injEq,
        List.mapIdx_eq_mapIdx_iff]
      intro i hi
      have hpresent := Value.madeOf_list.mp hv items[i] (List.getElem_mem hi)
      have hne := Value.ne_missing_of_present hpresent
      rw [Function.comp_apply]
      cases he : entered rest items[i] with
      | false =>
        rw [if_neg Bool.false_ne_true, if_neg Bool.false_ne_true, he, if_neg Bool.false_ne_true]
      | true =>
        obtain ⟨hentered, heq, -⟩ := remade_settle (.index i) hfuses ih (Or.inr hpresent)
          (fun hmissing => absurd hmissing hne) he
        rw [if_pos rfl, if_pos rfl, heq]
        exact if_pos hentered
    | false =>
      rw [hfans] at hfans'
      have hslot' := Value.slot?_congr hframe segment
      cases hslot : v.slot? segment with
      | none =>
        rw [remade_of_no_slot hfans hslot, remade_of_no_slot hfans hslot,
          remade_of_no_slot hfans hslot]
      | some slot =>
        rw [hslot] at hslot'
        have hhas := Value.hasSlot_of_slot? hslot
        rw [remade_of_slot hfans' hslot', remade_of_slot hfans hslot, remade_of_slot hfans hslot]
        apply editedSlot_editedSlot hhas hv
        exact remade_settle slot hfuses ih (Value.fills_content hv slot)
          fun hcontent => (Value.content_of_get? hv hhas hcontent).2

theorem remade_id (segments : List String) (hv : v.Fills .present)
    : remade (fun _ w => w) segments v = v := by
  induction segments generalizing v with
  | nil => rfl
  | cons segment rest ih =>
    rcases hv with rfl | hv
    · rfl
    cases hfans : v.fans segment with
    | true =>
      obtain ⟨rfl, items, rfl⟩ := Value.eq_list_of_fans hfans
      rw [remade_elements, Value.list.injEq]
      apply List.ext_getElem List.length_mapIdx
      intro i hi hi'
      have hpresent := Value.madeOf_list.mp hv items[i] (List.getElem_mem hi')
      rw [List.getElem_mapIdx, ih (Or.inr hpresent),
        Value.orNull_of_ne (Value.ne_missing_of_present hpresent), ite_self]
    | false =>
      cases hslot : v.slot? segment with
      | none => exact remade_of_no_slot hfans hslot _ rest
      | some slot =>
        rw [remade_of_slot hfans hslot]
        cases he : entered rest ((v.get? slot).getD .missing) with
        | false => exact editedSlot_of_not_entered _ he
        | true =>
          rw [editedSlot_of_entered _ he, ih (Value.fills_content hv slot)]
          cases hget : v.get? slot with
          | none => exact Value.clear_of_get?_eq_none hget
          | some w =>
            have hw := Value.ne_missing_of_present (Value.madeOf_of_get? hv hget)
            rw [Option.getD_some, Value.store_of_ne hw, Value.put_of_get? hget]

end Twice

section ApplyAt

/--
A walk along a path with a function that cannot fail.
-/
def applyPure (path : Path) (f : Address → Value → Value) (root : Value) : Except Error Value :=
  applyAt path (fun a v => .ok (f a v)) root

variable {f g h : Address → Value → Value} {path : Path} {root : Value}

theorem applyPure_root (hpath : path.segments = []) (f : Address → Value → Value) (root : Value)
    : applyPure path f root = .ok (f [] root).orNull := by
  unfold applyPure applyAt
  rw [hpath]
  rfl

theorem applyPure_of_ne (hpath : path.segments ≠ []) (f : Address → Value → Value) (root : Value)
    : applyPure path f root =
        unlessBalked (balks path.segments root) (remade f path.segments root) := by
  rw [← walk_ok]
  unfold applyPure applyAt
  cases hsegments : path.segments with
  | nil => exact absurd hsegments hpath
  | cons segment rest => rfl

theorem applyPure_bind (hfuses : ∀ a, Fuses f g h a) (hroot : root.madeOf .present = true)
    : (applyPure path f root >>= applyPure path g) = applyPure path h root := by
  by_cases hpath : path.segments = []
  · have hne := Value.ne_missing_of_present hroot
    obtain ⟨heq, -⟩ := hfuses [] root fun hmissing => absurd hmissing hne
    rw [applyPure_root hpath, applyPure_root hpath, heq]
    exact applyPure_root hpath g _
  · have hbind := bind_unlessBalked (applyPure_of_ne hpath g (remade f path.segments root))
      (balks path.segments root)
    rw [balks_remade, Bool.or_self,
      remade_remade (fun a _ => hfuses a) hpath (Or.inr hroot)] at hbind
    rw [applyPure_of_ne hpath f, applyPure_of_ne hpath h]
    exact hbind

theorem applyPure_id (hroot : root.madeOf .present = true)
    : applyPure path (fun _ v => v) root = unlessBalked (balks path.segments root) root := by
  by_cases hpath : path.segments = []
  · rw [applyPure_root hpath, hpath, Value.orNull_of_ne (Value.ne_missing_of_present hroot)]
    rfl
  · rw [applyPure_of_ne hpath, remade_id _ (Or.inr hroot)]

/--
A walk meets nothing in fields of objects only.
-/
theorem applyPure_congr
    (hfg : ∀ (a : Address) (v : Value), (v = .missing → a.isField = true) → f a v = g a v)
    (hroot : root.madeOf .present = true)
    : applyPure path f root = applyPure path g root := by
  have hfuses {k : Address → Value → Value}
      (hk : ∀ (a : Address) (v : Value), (v = .missing → a.isField = true) → k a v = f a v)
      : ∀ a, Fuses (fun _ v => v) f k a := by
    intro a v hv
    rw [Address.settle_of_met hv]
    refine ⟨hk a v hv, ?_⟩
    by_cases hmissing : v = .missing
    · exact Or.inr (Or.inl hmissing)
    · exact Or.inl hmissing
  rw [← applyPure_bind (hfuses fun a v _ => rfl) hroot,
    applyPure_bind (hfuses fun a v hv => (hfg a v hv).symm) hroot]

end ApplyAt

section All

variable {ι : Type} {items : List ι} {f : ι → Value → Value} {path : Path} {root : Value}

/--
Walks along one path, one after the other, are one walk if none of the later ones makes fields anew.
-/
theorem applyPure_foldlM (habsent : ∀ i ∈ items, f i .missing = .missing)
    (hroot : root.madeOf .present = true) (g : Address → Value → Value)
    : (applyPure path g root >>= items.foldlM fun u i => applyPure path (fun _ => f i) u) =
        applyPure path (fun a v => items.foldl (fun u i => f i (a.settle u)) (g a v)) root := by
  induction items generalizing g with
  | nil => exact bind_pure _
  | cons i items ih =>
    have hfuses (a : Address) : Fuses g (fun _ => f i) (fun a v => f i (a.settle (g a v))) a := by
      intro v _
      exact ⟨rfl, Or.inr (Or.inr (habsent i List.mem_cons_self))⟩
    simp only [List.foldlM_cons, List.foldl_cons]
    rw [← bind_assoc, applyPure_bind hfuses hroot]
    apply ih
    intro i hi
    exact habsent i (List.mem_cons_of_mem _ hi)

theorem applyPure_of_balks (hbalks : balks path.segments root = true) (f : Address → Value → Value)
    : applyPure path f root = .error .tooManyDigits := by
  have hpath : path.segments ≠ [] := by
    intro hnil
    rw [hnil] at hbalks
    cases hbalks
  rw [applyPure_of_ne hpath, hbalks]
  rfl

theorem foldlM_applyPure (habsent : ∀ i ∈ items, f i .missing = .missing)
    (hroot : root.madeOf .present = true)
    (hempty : items = [] → balks path.segments root = false)
    : items.foldlM (fun u i => applyPure path (fun _ => f i) u) root =
        applyPure path (fun a v => items.foldl (fun u i => f i (a.settle u)) v) root := by
  cases hbalks : balks path.segments root with
  | false =>
    rw [← applyPure_foldlM habsent hroot, applyPure_id hroot, hbalks]
    rfl
  | true =>
    cases items with
    | nil => cases (hempty rfl).symm.trans hbalks
    | cons i items =>
      rw [List.foldlM_cons, applyPure_of_balks hbalks, applyPure_of_balks hbalks]
      rfl

theorem foldl_settle (hretains : ∀ i ∈ items.dropLast, Retains (f i)) {a : Address} {v : Value}
    (hv : v = .missing → a.isField = true)
    : items.foldl (fun u i => f i (a.settle u)) v = items.foldl (fun u i => f i u) v := by
  induction items generalizing v with
  | nil => rfl
  | cons i items ih =>
    rw [List.foldl_cons, List.foldl_cons, Address.settle_of_met hv]
    cases items with
    | nil => rfl
    | cons next items =>
      rw [List.dropLast_cons_of_ne_nil (List.cons_ne_nil next items)] at hretains
      apply ih
      · intro i hi
        exact hretains i (List.mem_cons_of_mem _ hi)
      · intro hgone
        apply hv
        by_contra hne
        exact hretains i List.mem_cons_self v hne hgone

end All

section Outcome

theorem ofExcept_simulation
    : Simulation fun α (x : Except Error α) (y : Outcome α) => y = Outcome.ofExcept x where
  pure a := rfl
  bind := by
    rintro α β x _ f k rfl hf
    cases x with
    | error e => rfl
    | ok a =>
      rw [Outcome.bind_of_ok (a := a) rfl, hf a]
      rfl
  refusal := rfl

theorem result_simulation
    : Simulation fun α (x : Except Error α) (y : Outcome α) => y.result = x where
  pure a := rfl
  bind := by
    rintro α β _ y f k rfl hf
    cases hy : y.result with
    | error e =>
      rw [Outcome.bind_of_error hy]
      rfl
    | ok a =>
      rw [Outcome.bind_of_ok hy]
      exact hf a
  refusal := rfl

theorem Edit.applyAt_eq {edit : Edit} {f : Value → Value} (h : ∀ v, edit.apply v = .ok (f v))
    (path : Path) (root : Value)
    : edit.applyAt path root = Outcome.ofExcept (applyPure path (fun _ => f) root) := by
  apply ofExcept_simulation.applyAt
  intro a v
  rw [h]

theorem ofExcept_bind {α β : Type} (x : Except Error α) (k : α → Except Error β)
    : (Outcome.ofExcept x >>= fun a => Outcome.ofExcept (k a)) = Outcome.ofExcept (x >>= k) :=
  ofExcept_simulation.bind rfl fun _ => rfl

theorem Direct.editAt_of_ok {edit : Edit} {f : Value → Value} (h : ∀ v, edit.apply v = .ok (f v))
    {path : Value} {parsed : Path} (hpath : Path.ofValue path = .ok parsed) (root : Value)
    : editAt (.ok edit) path root = Outcome.ofExcept (applyPure parsed (fun _ => f) root) := by
  rw [← Edit.applyAt_eq h]
  unfold editAt
  rw [hpath]
  rfl

theorem Direct.editAt_of_error {edit : Edit} {path : Value} {cause : OperationError}
    (hpath : Path.ofValue path = .error cause) (root : Value)
    : editAt (.ok edit) path root = Outcome.fail (.operation cause) := by
  unfold editAt
  rw [hpath]
  rfl

variable {visit : Value → Outcome Value}

/--
What a visit of what is present makes of a value, if it does not fail.
-/
def made (visit : Value → Outcome Value) (v : Value) : Value :=
  match (skipMissing visit v).result with
  | .ok w => w
  | .error _ => v

theorem made_missing (visit : Value → Outcome Value) : made visit .missing = .missing := rfl

theorem result_skipMissing (h : ∀ v, v ≠ .missing → ∃ w, (visit v).result = .ok w) (v : Value)
    : (skipMissing visit v).result = .ok (made visit v) := by
  by_cases hv : v = .missing
  · subst hv
    rfl
  · obtain ⟨w, hw⟩ := h v hv
    have hskip : (skipMissing visit v).result = .ok w := by
      rw [skipMissing_of_ne hv, hw]
    rw [made, hskip]

theorem ofStep_names {op : Op} (hop : op = .procedure ∨ op = .model) (path : String)
    {listed : Value} {names : List String} (hlisted : Instruction.texts? listed = some names)
    (record : Nat)
    : Instruction.ofStep ⟨op, .object [(.str path, listed)], record⟩ =
        names.map .require ++ names.map (.invoke ⟨path⟩) := by
  have hitems : Instruction.items op (.object [(.str path, listed)]) = .ok [(path, listed)] := rfl
  rw [Instruction.ofStep_of_invokes hop, Instruction.ofProcedures, Instruction.perItem, hitems]
  show [(path, listed)].flatMap _ = _
  rw [List.flatMap_cons, List.flatMap_nil, List.append_nil]
  dsimp only
  rw [hlisted]
  rfl

theorem foldlM_require (s : Surroundings) (invoke : String → Value → Outcome Value)
    {names : List String} (hnames : ∀ name ∈ names, (s.procedure? name).isSome = true) (v : Value)
    : (names.map Instruction.require).foldlM (s.runInstruction invoke) v = Outcome.ok v := by
  induction names with
  | nil => rfl
  | cons name names ih =>
    obtain ⟨hname, hnames⟩ := List.forall_mem_cons.mp hnames
    obtain ⟨steps, hsteps⟩ := Option.isSome_iff_exists.mp hname
    have hpassed : s.runInstruction invoke v (.require name) = Outcome.ok v := by
      rw [Surroundings.runInstruction, hsteps]
    rw [List.map_cons, List.foldlM_cons, hpassed, Outcome.bind_eq, Outcome.bind_ok]
    exact ih hnames

/--
A step that lists names for one field makes one walk along the path for every name.
-/
theorem result_runStep (s : Surroundings) (invoke : String → Value → Outcome Value) (depth : Nat)
    {op : Op} (hop : op = .procedure ∨ op = .model) (path : String) {listed : Value}
    {names : List String} (hlisted : Instruction.texts? listed = some names)
    (hnames : ∀ name ∈ names, (s.procedure? name).isSome = true)
    (hok : ∀ name ∈ names, ∀ v, v ≠ .missing → ∃ w, (invoke name v).result = .ok w) (record : Nat)
    (root : Value)
    : (s.runStep invoke depth root ⟨op, .object [(.str path, listed)], record⟩).result =
        names.foldlM (fun u name => applyPure ⟨path⟩ (fun _ => made (invoke name)) u) root := by
  have hinvoke : ((names.map (.invoke ⟨path⟩)).foldlM (s.runInstruction invoke) root).result =
      names.foldlM (fun u name => applyPure ⟨path⟩ (fun _ => made (invoke name)) u) root := by
    rw [List.foldlM_map]
    apply result_simulation.foldlM
    intro name hname u
    apply result_simulation.applyAt
    intro a v
    exact result_skipMissing (hok name hname) v
  show (Outcome.note _ >>= fun _ => _).result = _
  rw [Outcome.bind_of_ok (a := ()) rfl, ofStep_names hop path hlisted, List.foldlM_append,
    foldlM_require s invoke hnames, Outcome.bind_eq, Outcome.bind_ok, hinvoke]

theorem result_applyAt_foldlM {invoke : String → Value → Outcome Value} {names : List String}
    (hok : ∀ name ∈ names, ∀ v, v ≠ .missing → ∃ w, (invoke name v).result = .ok w)
    (settle : Address → Value → Value) (path : Path) (root : Value)
    : (applyAt path
          (fun a v => names.foldlM (fun u name => skipMissing (invoke name) (settle a u)) v)
          root).result =
        applyPure path
          (fun a v => names.foldl (fun u name => made (invoke name) (settle a u)) v) root := by
  apply result_simulation.applyAt
  intro a v
  refine Eq.trans (b := names.foldlM (fun u name => pure (made (invoke name) (settle a u))) v) ?_
    List.foldlM_pure
  apply result_simulation.foldlM
  intro name hname u
  exact result_skipMissing (hok name hname) (settle a u)

end Outcome

/--
Two walks along one path with functions that cannot fail, the first of which gives nothing up, are
one walk with both functions, also as far as the order of keys is concerned. So only the second of two
values that are set at one path is left, and nothing is left of a value that is set and removed. A
step that invokes several procedures at a path, none of which fails, makes one walk for each of them
and does what one walk does that runs all of them at every place, each of them on what the one before
has left there. That is what the one before has yielded, unless it has taken an element of a list or
the whole value away, which leaves null behind.
-/
theorem applyAt_fusion {root : Value} (hroot : root.madeOf .present = true)
    : (∀ (path : Path) (f g : Value → Value), Retains f →
        (do
          let u ← applyPure path (fun _ => f) root
          applyPure path (fun _ => g) u) = applyPure path (fun _ => g ∘ f) root) ∧
      (∀ path v w : Value, v ≠ .missing →
        (do
          let u ← Direct.setAt root path v
          Direct.setAt u path w) = Direct.setAt root path w ∧
        (do
          let u ← Direct.setAt root path v
          Direct.unsetAt u path) = Direct.unsetAt root path) ∧
      ∀ (s : Surroundings) (remaining depth record : Nat) (op : Op) (path : String) (listed : Value)
        (names : List String), op = .procedure ∨ op = .model →
        Instruction.texts? listed = some names →
        (∀ name ∈ names, (s.procedure? name).isSome = true) →
        (names = [] → balks (Path.segments ⟨path⟩) root = false) →
        let invoke := s.invoke remaining depth
        let broadcast := s.runStep invoke depth root ⟨op, .object [(.str path, listed)], record⟩
        (∀ name ∈ names, ∀ v, v ≠ .missing → ∃ w, (invoke name v).result = .ok w) →
        broadcast.result =
            (applyAt ⟨path⟩
              (fun a v => names.foldlM (fun u name => skipMissing (invoke name) (a.settle u)) v)
              root).result ∧
          ((∀ name ∈ names.dropLast, ∀ v, v ≠ .missing → (invoke name v).result ≠ .ok .missing) →
            broadcast.result =
              (applyAt ⟨path⟩
                (fun _ v => names.foldlM (fun u name => skipMissing (invoke name) u) v)
                root).result) := by
  have fuse (path : Path) {f : Value → Value} (hf : Retains f) (g : Value → Value)
      : (applyPure path (fun _ => f) root >>= applyPure path fun _ => g) =
          applyPure path (fun _ => g ∘ f) root := by
    apply applyPure_bind _ hroot
    intro a v hv
    by_cases hmissing : v = .missing
    · rw [Address.settle_of_isField (hv hmissing)]
      exact ⟨rfl, Or.inr (Or.inl hmissing)⟩
    · rw [Address.settle_of_ne (hf v hmissing)]
      exact ⟨rfl, Or.inl (hf v hmissing)⟩
  refine ⟨fun path f g hf => fuse path hf g, ?_, ?_⟩
  · intro path v w hv
    have edits (edit : Edit) (new : Value) (hedit : ∀ u, edit.apply u = .ok new) :
        (do
          let u ← Direct.setAt root path v
          Direct.editAt (.ok edit) path u) = Direct.editAt (.ok edit) path root := by
      unfold Direct.setAt
      cases hpath : Path.ofValue path with
      | error cause =>
        rw [Direct.editAt_of_error hpath, Direct.editAt_of_error hpath]
        rfl
      | ok parsed =>
        have hfuse := fuse parsed (fun _ _ => hv : Retains fun _ => v) fun _ => new
        have hput : ∀ u, (Edit.put v).apply u = .ok v := fun _ => rfl
        simp only [Direct.editAt_of_ok hput hpath, Direct.editAt_of_ok hedit hpath, ofExcept_bind]
        exact congrArg Outcome.ofExcept hfuse
    exact ⟨edits (.put w) w fun _ => rfl, edits .erase .missing fun _ => rfl⟩
  · intro s remaining depth record op path listed names hop hlisted hnames hempty invoke broadcast
      hok
    have hbroadcast : broadcast.result = _ :=
      result_runStep s invoke depth hop path hlisted hnames hok record root
    have hall := foldlM_applyPure (fun name _ => made_missing (invoke name)) hroot hempty
    rw [hbroadcast, hall, result_applyAt_foldlM hok, result_applyAt_foldlM hok fun _ u => u]
    refine ⟨rfl, ?_⟩
    intro hkeeps
    apply applyPure_congr _ hroot
    intro a v hv
    apply foldl_settle _ hv
    intro name hname u hu hgone
    apply hkeeps name hname u hu
    have hresult := result_skipMissing (hok name (List.dropLast_subset _ hname)) u
    rw [skipMissing_of_ne hu, hgone] at hresult
    exact hresult

theorem applyAt_fusion_elements
    : let root : Value := .object [(.str "a", .list [.int 1, .object []])]
      let s : Surroundings :=
        { host := .standard
          procedure? := fun name => some [⟨.func, .function name, 0⟩] }
      root.madeOf .present = true ∧
        (do
          let u ← Direct.setAt root (.str "a.$.b") .null
          Direct.unsetAt u (.str "a.$.b")).result = .ok root ∧
        (s.runStep (s.invoke 1 0) 0 root
          ⟨.procedure, .object [(.str "a.$", .list [.str "drop", .str "box"])], 0⟩).result =
            .ok (.object [(.str "a", .list [.list [.null], .list [.null]])]) := by
  intro root s
  have hroot : root.madeOf .present = true := by decide +kernel
  obtain ⟨-, hedits, hprocedures⟩ := applyAt_fusion hroot
  refine ⟨hroot, ?_, ?_⟩
  · have hne : Value.null ≠ .missing := by decide
    rw [(hedits (.str "a.$.b") .null .null hne).2]
    decide +kernel
  · have hok : ∀ name ∈ ["drop", "box"], ∀ v : Value, v ≠ .missing →
        ∃ w, (s.invoke 1 0 name v).result = .ok w := by
      intro name hname v hv
      simp only [List.mem_cons, List.not_mem_nil, or_false] at hname
      rcases hname with rfl | rfl
      · exact ⟨.missing, rfl⟩
      · exact ⟨.list [v], rfl⟩
    have hbroadcast := (hprocedures s 1 0 0 .procedure "a.$" (.list [.str "drop", .str "box"])
      ["drop", "box"] (Or.inl rfl) rfl (fun _ _ => rfl) (by decide) hok).1
    rw [hbroadcast]
    decide +kernel

end Reshape
