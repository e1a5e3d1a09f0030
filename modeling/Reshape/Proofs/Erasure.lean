import Reshape.Proofs.Independence

/-!
This module contains the removal of what paths resolve to. It is idempotent, and removals along two
paths may be made in any order, however the paths lie to one another. The main statement,
`runStep_unset`, concludes that what a step removes depends on the set of its paths alone. Only the
order decides whether the step fails, because a list that cannot look up a segment of one path may
have been removed along another one before.
-/

namespace Reshape

/--
What is left of a value once all that segments resolve to has been removed.
-/
def erased (segments : List String) (v : Value) : Value :=
  remade (fun _ _ => .missing) segments v

/--
What is left of what a path enters in a place that stays, given the segments that follow.
-/
def hollow : List String → Value → Value
  | [], _ => .null
  | segment :: rest, item => inward (fun _ _ => .missing) (segment :: rest) item

/--
Whether a segment enters the element of a list at a position.
-/
def selects (segment : String) (i : Nat) : Bool :=
  decide (segment = Path.wildcard ∨ listIndex? segment = some i)

def Path.cleared (path : Path) (v : Value) : Value :=
  if path.segments = [] then .null else erased path.segments v

/--
Whether removing paths, one after the other, meets a list that cannot look up a segment.
-/
def halts : List Path → Value → Bool
  | [], _ => false
  | path :: paths, v => balks path.segments v || halts paths (path.cleared v)

section Element

variable {p q rest : List String} {segment : String}

theorem hollow_null (rest : List String) : hollow rest .null = .null := by
  cases rest <;> rfl

theorem hollow_of_ne_nil (hrest : rest ≠ []) (v : Value)
    : hollow rest v = if v.isContainer then erased rest v else v := by
  obtain ⟨segment, rest, rfl⟩ := List.exists_cons_of_ne_nil hrest
  rfl

theorem hollow_eq (rest : List String) (v : Value)
    : hollow rest v = if entered rest v then (erased rest v).orNull else v := by
  cases rest with
  | nil => rfl
  | cons segment rest =>
    have hne : segment :: rest ≠ [] := List.cons_ne_nil segment rest
    rw [hollow_of_ne_nil hne, entered_of_ne_nil hne]
    split
    · next hc =>
      symm
      apply Value.orNull_of_ne
      apply remade_ne_missing _ hne
      rw [entered_of_ne_nil hne, hc]
    · rfl

theorem hollow_hollow (hp : p ≠ []) (hq : q ≠ []) (v : Value)
    : hollow q (hollow p v) = if v.isContainer then erased q (erased p v) else v := by
  obtain ⟨a, p, rfl⟩ := List.exists_cons_of_ne_nil hp
  obtain ⟨b, q, rfl⟩ := List.exists_cons_of_ne_nil hq
  exact inward_inward hp _ _ (b :: q) v

theorem hollow_comm (h : ∀ v, erased q (erased p v) = erased p (erased q v)) (v : Value)
    : hollow q (hollow p v) = hollow p (hollow q v) := by
  by_cases hp : p = []
  · rw [hp]
    exact hollow_null q
  · by_cases hq : q = []
    · rw [hq]
      exact (hollow_null p).symm
    · rw [hollow_hollow hp hq, hollow_hollow hq hp, h]

theorem hollow_idem (h : ∀ v, erased p (erased p v) = erased p v) (v : Value)
    : hollow p (hollow p v) = hollow p v := by
  by_cases hp : p = []
  · rw [hp]
    rfl
  · rw [hollow_hollow hp hp, hollow_of_ne_nil hp, h]

theorem selects_iff (h : segment ≠ Path.wildcard) (i : Nat)
    : selects segment i = true ↔ listIndex? segment = some i := by
  rw [selects, decide_eq_true_iff]
  exact or_iff_right h

end Element

section Erased

variable {p q : List String} {segment : String} {v : Value} {k : Key}

theorem erased_null (h : p ≠ []) : erased p .null = .null := by
  obtain ⟨segment, rest, rfl⟩ := List.exists_cons_of_ne_nil h
  rfl

theorem erased_missing (segments : List String) : erased segments .missing = .missing := by
  cases segments <;> rfl

theorem erased_of_object (h : v.frame = .object) (segment : String) (rest : List String)
    : erased (segment :: rest) v = editedSlot (erased rest) rest v (.key (.str segment)) := by
  cases v with
  | object fields => rfl
  | _ => cases h

theorem frame_erased (segment : String) (rest : List String) (v : Value)
    : (erased (segment :: rest) v).frame = v.frame :=
  frame_remade _ segment rest v

theorem editedSlot_erased_list {items : List Value} {i : Nat} (hi : i < items.length)
    (rest : List String)
    : editedSlot (erased rest) rest (.list items) (.index i) =
        .list (items.set i (hollow rest items[i])) := by
  have hget : (Value.list items).get? (.index i) = some items[i] := List.getElem?_eq_getElem hi
  unfold editedSlot
  rw [hget, Option.getD_some, hollow_eq]
  dsimp only
  split
  · generalize erased rest items[i] = w
    cases w <;> rfl
  · rw [List.set_getElem_self]

theorem erased_list (segment : String) (rest : List String) (items : List Value)
    : erased (segment :: rest) (.list items) =
        .list (items.mapIdx fun i item => if selects segment i then hollow rest item else item) := by
  by_cases hw : segment = Path.wildcard
  · have hall (i : Nat) : selects segment i = true := decide_eq_true (Or.inl hw)
    simp only [hall, if_true, hollow_eq]
    rw [hw, erased, remade_elements]
    rfl
  · have hfans := Value.not_fans hw (.list items)
    cases hslot : (Value.list items).slot? segment with
    | none =>
      rw [erased, remade_of_no_slot hfans hslot, Value.list.injEq]
      apply List.ext_getElem
      · rw [List.length_mapIdx]
      · intro i hi _
        rw [List.getElem_mapIdx, if_neg]
        rw [selects_iff hw]
        intro hindex
        rw [Value.slot?, hindex, Option.bind_some, if_pos hi] at hslot
        cases hslot
    | some slot =>
      obtain ⟨i, hindex, hif⟩ := Option.bind_eq_some_iff.mp hslot
      obtain ⟨hi, heq⟩ := Option.ite_none_right_eq_some.mp hif
      cases heq
      rw [erased, remade_of_slot hfans hslot]
      refine (editedSlot_erased_list hi rest).trans ?_
      rw [Value.list.injEq]
      apply List.ext_getElem
      · rw [List.length_mapIdx, List.length_set]
      · intro j _ hj
        rw [List.getElem_mapIdx, List.getElem_set]
        by_cases hij : i = j
        · subst hij
          rw [if_pos rfl, if_pos ((selects_iff hw i).mpr hindex)]
        · rw [if_neg hij, if_neg]
          rw [selects_iff hw, hindex]
          exact fun hsome => hij (Option.some.inj hsome)

theorem clear_editedSlot (edit : Value → Value) (rest : List String) (v : Value) (slot : Slot)
    : (editedSlot edit rest v slot).clear slot = v.clear slot := by
  unfold editedSlot
  dsimp only
  split
  · generalize edit _ = w
    by_cases hw : w = .missing
    · rw [hw]
      exact Value.clear_clear
    · rw [Value.store_of_ne hw]
      exact Value.clear_put w
  · rfl

/--
Nothing is left to remove from a field that has been removed.
-/
theorem editedSlot_clear (h : v.hasSlot (.key k) = true) (rest : List String)
    : editedSlot (erased rest) rest (v.clear (.key k)) (.key k) = v.clear (.key k) := by
  cases rest with
  | nil => exact (editedSlot_of_entered _ rfl).trans Value.clear_clear
  | cons segment rest =>
    apply editedSlot_of_not_entered
    rw [Value.get?_clear_self h]
    rfl

theorem erased_of_object_nil (h : v.frame = .object) (segment : String)
    : erased [segment] v = v.clear (.key (.str segment)) :=
  erased_of_object h segment []

/--
Removing a field leaves nothing to remove in it, and does not depend on what has been removed there.
-/
theorem erased_field_absorb (fields : List (Key × Value)) (segment : String) (rest : List String)
    : erased (segment :: rest) (erased [segment] (.object fields)) =
          erased [segment] (.object fields) ∧
        erased [segment] (erased (segment :: rest) (.object fields)) =
          erased [segment] (.object fields) := by
  have hframe (rest : List String) : (erased (segment :: rest) (.object fields)).frame = .object :=
    frame_erased segment rest (.object fields)
  constructor
  · rw [erased_of_object (hframe []), erased_of_object_nil rfl]
    exact editedSlot_clear rfl rest
  · rw [erased_of_object_nil (hframe rest), erased_of_object_nil rfl, erased_of_object rfl]
    apply clear_editedSlot

theorem erased_field (fields : List (Key × Value)) (segment : String) (hp : p ≠ [])
    : erased (segment :: p) (.object fields) =
        ((Value.object fields).get? (.key (.str segment))).elim (.object fields) fun content =>
          (Value.object fields).put (.key (.str segment)) (hollow p content) := by
  have hslot : (Value.object fields).slot? segment = some (.key (.str segment)) := rfl
  obtain ⟨a, p, rfl⟩ := List.exists_cons_of_ne_nil hp
  exact remade_slot_inward rfl hslot _ hp

theorem erased_erased_field (fields : List (Key × Value)) (segment : String) (hp : p ≠ [])
    (hq : q ≠ [])
    : erased (segment :: q) (erased (segment :: p) (.object fields)) =
        ((Value.object fields).get? (.key (.str segment))).elim (.object fields) fun content =>
          (Value.object fields).put (.key (.str segment)) (hollow q (hollow p content)) := by
  have hslot : (Value.object fields).slot? segment = some (.key (.str segment)) := rfl
  obtain ⟨a, p, rfl⟩ := List.exists_cons_of_ne_nil hp
  obtain ⟨b, q, rfl⟩ := List.exists_cons_of_ne_nil hq
  exact remade_remade_slot rfl hslot _ _ hp hq

theorem erased_comm_field (fields : List (Key × Value)) (segment : String)
    (h : ∀ v, erased q (erased p v) = erased p (erased q v))
    : erased (segment :: q) (erased (segment :: p) (.object fields)) =
        erased (segment :: p) (erased (segment :: q) (.object fields)) := by
  by_cases hp : p = []
  · rw [hp, (erased_field_absorb fields segment q).1, (erased_field_absorb fields segment q).2]
  · by_cases hq : q = []
    · rw [hq, (erased_field_absorb fields segment p).1, (erased_field_absorb fields segment p).2]
    · rw [erased_erased_field fields segment hp hq, erased_erased_field fields segment hq hp]
      simp only [hollow_comm h]

theorem erased_comm (p q : List String) (v : Value)
    : erased q (erased p v) = erased p (erased q v) := by
  induction p generalizing q v with
  | nil => exact erased_missing q
  | cons a p ih =>
    cases q with
    | nil => exact (erased_missing (a :: p)).symm
    | cons b q =>
      cases v with
      | list items =>
        rw [erased_list, erased_list, erased_list, erased_list, List.mapIdx_mapIdx,
          List.mapIdx_mapIdx, Value.list.injEq, List.mapIdx_eq_mapIdx_iff]
        intro i hi
        rw [Function.comp_apply, Function.comp_apply]
        -- Elements keep their positions, so each is met by those paths that select it.
        cases selects a i with
        | false => rfl
        | true =>
          cases selects b i with
          | false => rfl
          | true => exact hollow_comm (ih q) items[i]
      | object fields =>
        by_cases hab : a = b
        · rw [hab]
          exact erased_comm_field fields b (ih q)
        · have hslot : Slot.key (.str a) ≠ Slot.key (.str b) := by
            intro h
            cases h
            exact hab rfl
          rw [erased_of_object (frame_erased a p (.object fields)), erased_of_object rfl,
            erased_of_object (frame_erased b q (.object fields)), erased_of_object rfl]
          -- No removal makes a field, so the order of keys stays the same as well.
          apply (editedSlot_comm hslot _ : Value.SameUnless False _ _).2 id
          intro hget _ hmade
          rw [hget, Option.getD_none, erased_missing] at hmade
          exact absurd rfl hmade
      | _ => rfl

theorem erased_idem (p : List String) (v : Value) : erased p (erased p v) = erased p v := by
  induction p generalizing v with
  | nil => rfl
  | cons a p ih =>
    cases v with
    | list items =>
      rw [erased_list, erased_list, List.mapIdx_mapIdx, Value.list.injEq,
        List.mapIdx_eq_mapIdx_iff]
      intro i hi
      rw [Function.comp_apply]
      cases selects a i with
      | false => rfl
      | true => exact hollow_idem ih items[i]
    | object fields =>
      by_cases hp : p = []
      · rw [hp, (erased_field_absorb fields a []).1]
      · rw [erased_erased_field fields a hp hp, erased_field fields a hp]
        simp only [hollow_idem ih]
    | _ => rfl

end Erased

section Halts

variable {p q : List String} {segment : String} {v content former : Value} {slot : Slot}

theorem eq_erased_of_hollow (h : hollow p former = content) (hc : content.isContainer = true)
    : former.isContainer = true ∧ (content = former ∨ content = erased p former) := by
  by_cases hp : p = []
  · rw [← h, hp] at hc
    cases hc
  · rw [hollow_of_ne_nil hp] at h
    split at h
    · next hformer => exact ⟨hformer, Or.inr h.symm⟩
    · rw [h]
      exact ⟨hc, Or.inl rfl⟩

/--
Where a removal leaves a container there was one before, which at most has lost something.
-/
theorem get?_erased (hget : (erased (segment :: p) v).get? slot = some content)
    (hc : content.isContainer = true)
    : ∃ former, v.get? slot = some former ∧ former.isContainer = true ∧
        (content = former ∨ content = erased p former) := by
  have same (h : v.get? slot = some content)
      : ∃ former, v.get? slot = some former ∧ former.isContainer = true ∧
          (content = former ∨ content = erased p former) :=
    ⟨content, h, hc, Or.inl rfl⟩
  cases v with
  | list items =>
    rw [erased_list] at hget
    cases slot with
    | key k => cases hget
    | index i =>
      rw [Value.get?, List.getElem?_mapIdx, Option.map_eq_some_iff] at hget
      obtain ⟨former, hformer, hcontent⟩ := hget
      split at hcontent
      · exact ⟨former, hformer, eq_erased_of_hollow hcontent hc⟩
      · rw [hcontent] at hformer
        exact same hformer
  | object fields =>
    by_cases hslot : slot = .key (.str segment)
    · subst hslot
      by_cases hp : p = []
      · rw [hp, erased_of_object_nil rfl, Value.get?_clear_self rfl] at hget
        cases hget
      · rw [erased_field fields segment hp] at hget
        cases hformer : (Value.object fields).get? (.key (.str segment)) with
        | none =>
          rw [hformer, Option.elim_none, hformer] at hget
          cases hget
        | some former =>
          rw [hformer, Option.elim_some, Value.get?_put_self rfl, Option.some.injEq] at hget
          exact ⟨former, rfl, eq_erased_of_hollow hget hc⟩
    · rw [erased_of_object rfl, get?_editedSlot_of_ne hslot] at hget
      exact same hget
  | _ => exact same hget

/--
A removal does not lead any path to a list that cannot look up its segment.
-/
theorem balks_of_balks_erased (h : balks q (erased p v) = true) : balks q v = true := by
  induction q generalizing p v with
  | nil => cases h
  | cons b q ih =>
    cases p with
    | nil => cases h
    | cons a p =>
      have hframe := frame_erased a p v
      rw [balks, Bool.or_eq_true, List.any_eq_true] at h
      rw [balks, Bool.or_eq_true, List.any_eq_true]
      rcases h with hrefuses | ⟨⟨slot, content⟩, hbranch, hbalks⟩
      · rw [Value.refuses_congr hframe] at hrefuses
        exact Or.inl hrefuses
      · obtain ⟨he, hbalks⟩ := Bool.and_eq_true_iff.mp hbalks
        have hq : q ≠ [] := by
          rintro rfl
          cases hbalks
        obtain ⟨hget, hc⟩ := get?_of_entered hbranch hq he
        obtain ⟨former, hformer, hfc, heq⟩ := get?_erased hget hc
        refine Or.inr ⟨(slot, former), mem_branches_congr hframe hbranch hformer, ?_⟩
        rw [entered_of_ne_nil hq, hfc, Bool.true_and]
        rcases heq with rfl | rfl
        · exact hbalks
        · exact ih hbalks

end Halts

namespace Path

variable {paths others : List Path} {path : Path}

theorem cleared_of_ne (h : path.segments ≠ []) (v : Value)
    : path.cleared v = erased path.segments v :=
  if_neg h

theorem cleared_of_root (h : path.segments = []) (v : Value) : path.cleared v = .null :=
  if_pos h

theorem cleared_null (path : Path) : path.cleared .null = .null := by
  by_cases h : path.segments = []
  · exact cleared_of_root h .null
  · rw [cleared_of_ne h, erased_null h]

theorem cleared_comm (path other : Path) (v : Value)
    : other.cleared (path.cleared v) = path.cleared (other.cleared v) := by
  by_cases hpath : path.segments = []
  · rw [cleared_of_root hpath, cleared_of_root hpath, cleared_null]
  · by_cases hother : other.segments = []
    · rw [cleared_of_root hother, cleared_of_root hother, cleared_null]
    · rw [cleared_of_ne hpath, cleared_of_ne hother, cleared_of_ne hother, cleared_of_ne hpath]
      apply erased_comm

theorem cleared_idem (path : Path) (v : Value) : path.cleared (path.cleared v) = path.cleared v := by
  by_cases hpath : path.segments = []
  · rw [cleared_of_root hpath, cleared_of_root hpath]
  · rw [cleared_of_ne hpath, cleared_of_ne hpath]
    apply erased_idem

/--
What is left of a value once everything that some paths resolve to has been removed.
-/
def clearedAll (paths : List Path) (v : Value) : Value :=
  paths.foldl (fun v path => path.cleared v) v

theorem clearedAll_cleared (path : Path) (paths : List Path) (v : Value)
    : clearedAll paths (path.cleared v) = path.cleared (clearedAll paths v) := by
  apply List.foldl_hom path.cleared
  intro v other
  exact cleared_comm path other v

theorem cleared_clearedAll_of_mem (h : path ∈ paths) (v : Value)
    : path.cleared (clearedAll paths v) = clearedAll paths v := by
  induction paths generalizing v with
  | nil => cases h
  | cons other paths ih =>
    show path.cleared (clearedAll paths (other.cleared v)) = clearedAll paths (other.cleared v)
    cases h with
    | head => rw [← clearedAll_cleared, cleared_idem]
    | tail _ h => exact ih h (other.cleared v)

theorem clearedAll_clearedAll_of_subset (h : ∀ path ∈ others, path ∈ paths) (v : Value)
    : clearedAll others (clearedAll paths v) = clearedAll paths v := by
  induction others with
  | nil => rfl
  | cons path others ih =>
    show clearedAll others (path.cleared (clearedAll paths v)) = _
    rw [cleared_clearedAll_of_mem (h path List.mem_cons_self)]
    apply ih
    intro other hother
    exact h other (List.mem_cons_of_mem path hother)

theorem clearedAll_comm (paths others : List Path) (v : Value)
    : clearedAll others (clearedAll paths v) = clearedAll paths (clearedAll others v) := by
  apply List.foldl_hom (clearedAll paths)
  intro v other
  exact (clearedAll_cleared other paths v).symm

theorem clearedAll_congr (h : ∀ path, path ∈ others ↔ path ∈ paths) (v : Value)
    : clearedAll others v = clearedAll paths v := by
  calc clearedAll others v
    _ = clearedAll paths (clearedAll others v) :=
      (clearedAll_clearedAll_of_subset (fun path hpath => (h path).mpr hpath) v).symm
    _ = clearedAll others (clearedAll paths v) := clearedAll_comm others paths v
    _ = clearedAll paths v := clearedAll_clearedAll_of_subset (fun path hpath => (h path).mp hpath) v

end Path

section Step

variable {path : Path} {paths : List Path} {v : Value}

theorem balks_of_balks_cleared {q : List String} (h : balks q (path.cleared v) = true)
    : balks q v = true := by
  by_cases hpath : path.segments = []
  · rw [Path.cleared_of_root hpath] at h
    cases q <;> cases h
  · rw [Path.cleared_of_ne hpath] at h
    exact balks_of_balks_erased h

theorem exists_balks_of_halts (h : halts paths v = true)
    : ∃ path ∈ paths, balks path.segments v = true := by
  induction paths generalizing v with
  | nil => cases h
  | cons path paths ih =>
    rw [halts, Bool.or_eq_true] at h
    rcases h with hbalks | hhalts
    · exact ⟨path, List.mem_cons_self, hbalks⟩
    · obtain ⟨other, hother, hbalks⟩ := ih hhalts
      exact ⟨other, List.mem_cons_of_mem path hother, balks_of_balks_cleared hbalks⟩

theorem applyPure_erase (path : Path) (v : Value)
    : applyPure path (fun _ _ => .missing) v =
        unlessBalked (balks path.segments v) (path.cleared v) := by
  by_cases hpath : path.segments = []
  · rw [applyPure_root hpath, Path.cleared_of_root hpath, hpath]
    rfl
  · rw [applyPure_of_ne hpath, Path.cleared_of_ne hpath]
    rfl

theorem foldlM_applyPure_erase (paths : List Path) (v : Value)
    : paths.foldlM (fun v path => applyPure path (fun _ _ => .missing) v) v =
        unlessBalked (halts paths v) (Path.clearedAll paths v) := by
  induction paths generalizing v with
  | nil => rfl
  | cons path paths ih =>
    rw [List.foldlM_cons, applyPure_erase]
    apply bind_unlessBalked
    exact ih (path.cleared v)

theorem ofStep_unset {listed : Value} {names : List String}
    (hlisted : Instruction.texts? listed = some names) (record : Nat)
    : Instruction.ofStep ⟨.unset, listed, record⟩ =
        (names.map Path.mk).map fun path => .edit path .erase := by
  show Instruction.ofUnset listed = _
  rw [Instruction.ofUnset, hlisted, List.map_map]
  rfl

/--
A step that lists paths removes what they resolve to. What is left is the same for all lists of the
same paths, in any order and with any of them repeated. If the step fails, then because one of the
paths leads to a list of the original value that cannot look up a segment.
-/
theorem runStep_unset (s : Surroundings) (invoke : String → Value → Outcome Value)
    (depth record : Nat) (root : Value) (paths : List Path) {listed : Value} {names : List String}
    (hlisted : Instruction.texts? listed = some names)
    (hnames : ∀ path, path ∈ names.map Path.mk ↔ path ∈ paths)
    : s.runStep invoke depth root ⟨.unset, listed, record⟩ =
          ⟨[.running .unset record depth],
            unlessBalked (halts (names.map Path.mk) root) (Path.clearedAll paths root)⟩ ∧
        (halts (names.map Path.mk) root = true →
          ∃ path ∈ paths, balks path.segments root = true) := by
  constructor
  · have hfold : ((names.map Path.mk).map fun path => Instruction.edit path .erase).foldlM
        (s.runInstruction invoke) root =
          Outcome.ofExcept
            (unlessBalked (halts (names.map Path.mk) root) (Path.clearedAll paths root)) := by
      rw [List.foldlM_map, ← Path.clearedAll_congr hnames, ← foldlM_applyPure_erase]
      apply ofExcept_simulation.foldlM
      intro path _ v
      exact Edit.applyAt_eq (fun _ => rfl) path v
    show (Outcome.note _ >>= fun _ => _) = _
    rw [ofStep_unset hlisted, hfold]
    rfl
  · intro h
    obtain ⟨path, hpath, hbalks⟩ := exists_balks_of_halts h
    exact ⟨path, (hnames path).mp hpath, hbalks⟩

theorem runStep_unset_overlap
    : let s : Surroundings := { host := .standard, procedure? := fun _ => none }
      let root : Value :=
        .object [(.str "a", .list [.object [(.str "b", .int 1)], .int 2]), (.str "c", .int 3)]
      let listed : Value := .list [.str "a.$", .str "c", .str "a.00.b", .str "c", .str "a.0"]
      s.runStep (s.invoke 1 0) 0 root ⟨.unset, listed, 0⟩ =
        ⟨[.running .unset 0 0], .ok (.object [(.str "a", .list [.null, .null])])⟩ := by
  intro s root listed
  have hstep := runStep_unset s (s.invoke 1 0) 0 0 root [⟨"c"⟩, ⟨"a.0"⟩, ⟨"a.00.b"⟩, ⟨"a.$"⟩]
    (show Instruction.texts? listed = some ["a.$", "c", "a.00.b", "c", "a.0"] from rfl) (by grind)
  rw [hstep.1]
  have hhalts : halts (["a.$", "c", "a.00.b", "c", "a.0"].map Path.mk) root = false := by
    decide +kernel
  rw [hhalts, Outcome.mk.injEq]
  refine ⟨rfl, ?_⟩
  decide +kernel

end Step

end Reshape
