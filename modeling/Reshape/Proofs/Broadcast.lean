import Reshape.Proofs.Legible
import Reshape.Proofs.PathText
import Reshape.Proofs.Remaking

/-!
This module contains the wildcard as a shorthand. The main statement, `applyAt_wildcard`, says that a
walk that fans out over a list is the sequence of the walks to its elements, which are named by their
indices.
-/

namespace Reshape

/--
The segment that names an element of a list by its index.
-/
def indexText (i : Nat) : String :=
  String.ofList (Decimal.natText i)

section Elements

variable {m : Type → Type} [Monad m]

/--
The visit of an element of a list, which stays where it is.
-/
def visitElement (visit : Value → m Value) (rest : List String) (item : Value) : m Value :=
  if entered rest item then do
    let new ← visit item
    pure new.orNull
  else
    pure item

/--
Visits the element at one position.
-/
def visitAt (visit : Nat → Value → m Value) (items : List Value) (i : Nat) : m (List Value) :=
  match items[i]? with
  | some item => do
    let new ← visit i item
    pure (items.set i new)
  | none => pure items

variable [LawfulMonad m]

theorem foldlM_visitAt (visit : Nat → Value → m Value) (front items : List Value)
    : (List.range' front.length items.length).foldlM (visitAt visit) (front ++ items) =
        (front ++ ·) <$> visitItems visit front.length items := by
  induction items generalizing front with
  | nil => simp [visitItems]
  | cons item items ih =>
    have hitem : (front ++ item :: items)[front.length]? = some item := by
      rw [List.getElem?_append_right (Nat.le_refl _), Nat.sub_self]
      rfl
    have hset (new : Value)
        : (front ++ item :: items).set front.length new = front ++ new :: items := by
      rw [List.set_append_right _ _ (Nat.le_refl _), Nat.sub_self, List.set_cons_zero]
    -- What has been visited already stands in front, so the rest starts one position later.
    have hrest (new : Value) := ih (front ++ [new])
    simp only [List.length_append, List.length_singleton, List.append_assoc,
      List.singleton_append] at hrest
    rw [List.length_cons, List.range'_succ, List.foldlM_cons, visitAt, hitem, visitItems]
    simp only [bind_assoc, pure_bind, hset, hrest, map_eq_pure_bind]

/--
Visiting the elements of a list from the first to the last one is visiting its positions one after the
other.
-/
theorem visitItems_eq_foldlM (visit : Nat → Value → m Value) (items : List Value)
    : visitItems visit 0 items = (List.range items.length).foldlM (visitAt visit) items := by
  have h := foldlM_visitAt visit [] items
  simp only [List.length_nil, List.nil_append, id_map'] at h
  rw [List.range_eq_range', h]

theorem foldlM_hom {σ τ ι : Type} {f : σ → τ} {g : σ → ι → m σ} {g' : τ → ι → m τ} {is : List ι}
    (h : ∀ i ∈ is, ∀ s, g' (f s) i = f <$> g s i) (s : σ)
    : is.foldlM g' (f s) = f <$> is.foldlM g s := by
  induction is generalizing s with
  | nil => simp
  | cons i is ih =>
    rw [List.forall_mem_cons] at h
    simp only [List.foldlM_cons, h.1, map_bind, bind_map_left, ih h.2]

end Elements

section IndexText

theorem listIndex?_indexText (i : Nat) : listIndex? (indexText i) = some i := by
  have hdigits : Numeral.isDigits (Decimal.natText i) = true := by
    rw [Numeral.isDigits, Bool.and_eq_true, List.all_eq_true]
    constructor
    · simpa using Decimal.natText_ne_nil i
    · intro c hc
      exact Decimal.isAsciiDigit_of_mem_natText hc
  rw [listIndex?, indexText, String.toList_ofList, if_pos hdigits, Decimal.readNat_natText]

theorem indexText_ne_empty (i : Nat) : indexText i ≠ "" := by
  rw [indexText, ne_eq, ← String.toList_eq_nil_iff, String.toList_ofList]
  exact Decimal.natText_ne_nil i

theorem not_mem_indexText (i : Nat) : '.' ∉ (indexText i).toList := by
  rw [indexText, String.toList_ofList]
  intro h
  have hdigit := Decimal.isAsciiDigit_of_mem_natText h
  cases hdigit

theorem indexText_ne_wildcard (i : Nat) : indexText i ≠ Path.wildcard := by
  intro h
  have hindex := listIndex?_indexText i
  rw [h] at hindex
  cases hindex

theorem refuses_indexText {i : Nat} (h : i < 10 ^ Decimal.maxDigits) (v : Value)
    : v.refuses (indexText i) = false := by
  have hlength : (indexText i).length ≤ Decimal.maxDigits := by
    rw [indexText, String.length_ofList]
    exact Decimal.length_natText_le (by decide) h
  cases v with
  | list items => simp [Value.refuses, hlength]
  | _ => rfl

/--
The path to an element, in place of the path with the wildcard.
-/
theorem segments_element {path : Path} {p q : List String}
    (hpath : path.segments = p ++ Path.wildcard :: q) (i : Nat)
    : (Path.ofSegments (p ++ indexText i :: q)).segments = p ++ indexText i :: q := by
  have hmem : indexText i ∈ p ++ indexText i :: q := List.mem_append_right p List.mem_cons_self
  have hne {segments : List String} (h : ∀ segment ∈ segments, segment = "")
      : p ++ indexText i :: q ≠ segments := by
    rintro rfl
    exact indexText_ne_empty i (h _ hmem)
  apply Path.segments_ofSegments (List.ne_nil_of_mem hmem) (hne (by simp)) (hne (by simp))
  intro segment hsegment
  by_cases heq : segment = indexText i
  · rw [heq]
    exact not_mem_indexText i
  · have hkept : segment ∈ path.segments := by
      rw [hpath]
      simp only [List.mem_append, List.mem_cons, heq, false_or] at hsegment ⊢
      exact hsegment.imp_right Or.inr
    exact Path.not_mem_of_mem_segments hkept

end IndexText

section Walk

variable {m : Type → Type} [Monad m] [MonadExcept Error m]
variable {visit : Address → Value → m Value} {p q : List String} {items : List Value} {v : Value}

theorem applyAt_of_segments {path : Path} {segment : String}
    (h : path.segments = p ++ segment :: q) (visit : Address → Value → m Value) (v : Value)
    : applyAt path visit v = walk visit (p ++ segment :: q) v := by
  rw [applyAt_of_ne_root, h]
  rw [Path.isRoot, h]
  cases p <;> rfl

variable [LawfulMonad m]

theorem walk_wildcard (visit : Address → Value → m Value) (q : List String) (items : List Value)
    : walk visit (Path.wildcard :: q) (.list items) =
        Value.list <$> visitItems (fun i => visitElement (walk (fun a => visit (.index i :: a)) q) q)
          0 items := by
  rw [walk, if_pos rfl, map_eq_pure_bind]
  rfl

theorem walk_element {i : Nat} (hi : i < 10 ^ Decimal.maxDigits)
    (visit : Address → Value → m Value) (q : List String) (items : List Value)
    : walk visit (indexText i :: q) (.list items) =
        Value.list <$>
          visitAt (fun i => visitElement (walk (fun a => visit (.index i :: a)) q) q) items i := by
  rw [walk_of_not_fans (Value.not_fans (indexText_ne_wildcard i) _), refuses_indexText hi,
    if_neg Bool.false_ne_true, Value.slot?, listIndex?_indexText, Option.bind_some, visitAt]
  by_cases hlt : i < items.length
  · have hitem : items[i]? = some items[i] := List.getElem?_eq_getElem hlt
    rw [if_pos hlt, hitem, Option.elim_some]
    unfold visitSlot visitElement
    simp only [Value.get?, hitem, Option.getD_some]
    split
    · have hstore (new : Value) : (Value.list items).store (.index i) new =
          .list (items.set i new.orNull) := by
        cases new <;> rfl
      simp only [hstore, map_bind, map_pure, bind_assoc, pure_bind]
    · simp
  · have hnone : items[i]? = none := List.getElem?_eq_none (Nat.le_of_not_lt hlt)
    rw [if_neg hlt, hnone]
    simp

/--
A walk that comes to a list changes what it makes of the list and nothing around it.
-/
theorem walk_through {segment : String} (h : v.leads p (.list items))
    {x : m (List Value)}
    (hx : walk (fun a => visit (v.address p ++ a)) (segment :: q) (.list items) = Value.list <$> x)
    : walk visit (p ++ segment :: q) v = (fun new => v.replace (.list new) p) <$> x := by
  induction p generalizing visit v with
  | nil =>
    rw [Value.leads_nil] at h
    rw [← h]
    exact hx
  | cons first p ih =>
    have hchild := Value.child_ne_of_leads h
    obtain ⟨slot, hslot⟩ := Value.slot?_of_child_ne hchild
    obtain ⟨hr, hc, hp⟩ := Value.leads_cons.mp h
    have hfans : v.fans first = false := by
      cases v with
      | list items =>
        rw [Value.fans, decide_eq_false_iff_not]
        rintro rfl
        cases hslot
      | _ => rfl
    rw [Value.address, hslot] at hx
    have hrest : walk (fun a => visit (slot :: a)) (p ++ segment :: q) (v.child first) = _ :=
      ih hp hx
    have hentered : entered (p ++ segment :: q) (v.child first) = true := by
      rw [entered, hc, Bool.or_true]
    have hstore (new : List Value)
        : v.store slot ((v.child first).replace (.list new) p) =
            v.replace (.list new) (first :: p) := by
      have hcontainer : ((v.child first).replace (.list new) p).isContainer = _ :=
        Value.isContainer_replace hp rfl
      rw [Value.replace, Value.assign_of_slot? hslot, Value.store_of_ne]
      apply Value.ne_missing_of_isContainer
      rw [hcontainer, hc]
    rw [List.cons_append, walk_of_not_fans hfans, hr, if_neg Bool.false_ne_true, hslot,
      Option.elim_some, visitSlot, ← Value.child_of_slot? hslot, if_pos hentered, hrest]
    simp only [map_eq_pure_bind, bind_assoc, pure_bind, hstore]

theorem walk_element_through (h : v.leads p (.list items)) {i : Nat}
    (hi : i < 10 ^ Decimal.maxDigits) (visit : Address → Value → m Value) (q : List String)
    (former : List Value)
    : let element := fun i =>
        visitElement (walk (fun a => visit (v.address p ++ .index i :: a)) q) q
      walk visit (p ++ indexText i :: q) (v.replace (.list former) p) =
        (fun new => v.replace (.list new) p) <$> visitAt element former i := by
  intro element
  have hleads : (v.replace (.list former) p).leads p (.list former) :=
    Value.leads_replace_of_isContainer h rfl
  rw [walk_through hleads (walk_element hi _ q former), address_replace h]
  simp only [Value.replace_replace h]
  rfl

end Walk

/--
Applying visits at a path with a wildcard is applying them at the positions of the list that the
wildcard meets, one after the other from the first to the last one. The visits are those of any monad,
so they are made of the same values, at the same places and in the same order.
-/
theorem applyAt_wildcard {m : Type → Type} [Monad m] [LawfulMonad m] [MonadExcept Error m]
    (visit : Address → Value → m Value) {path : Path} {p q : List String} {root : Value}
    {items : List Value} (hpath : path.segments = p ++ Path.wildcard :: q)
    (hleads : root.leads p (.list items)) (hlength : items.length ≤ 10 ^ Decimal.maxDigits)
    : applyAt path visit root =
        (List.range items.length).foldlM
          (fun u i => applyAt (.ofSegments (p ++ indexText i :: q)) visit u) root := by
  let element := fun i =>
    visitElement (walk (fun a => visit (root.address p ++ .index i :: a)) q) q
  have hfold := @foldlM_hom m _ _ _ _ _ (fun new => root.replace (.list new) p) (visitAt element)
    (fun u i => applyAt (.ofSegments (p ++ indexText i :: q)) visit u) (List.range items.length)
  -- Every walk to an element leaves the value as it is but for the list, so the list alone is folded.
  rw [applyAt_of_segments hpath, walk_through hleads (walk_wildcard _ q items),
    visitItems_eq_foldlM, ← hfold, Value.replace_self hleads]
  intro i hi former
  rw [List.mem_range] at hi
  rw [applyAt_of_segments (segments_element hpath i)]
  exact walk_element_through hleads (Nat.lt_of_lt_of_le hi hlength) visit q former

theorem applyAt_wildcard_nested
    : let items : List Value := [.list [.int 1, .int 2], .int 3, .list [.int 4]]
      let root : Value := .object [(.str "a", .list items)]
      let visit := recording fun _ => .missing
      Path.segments ⟨"a.$.$"⟩ = ["a"] ++ Path.wildcard :: [Path.wildcard] ∧
        root.leads ["a"] (.list items) ∧ items.length ≤ 10 ^ Decimal.maxDigits ∧
        applyAt ⟨"a.$.$"⟩ visit root =
          (List.range items.length).foldlM
            (fun u i => applyAt (.ofSegments (["a"] ++ indexText i :: [Path.wildcard])) visit u)
            root ∧
        (applyAt ⟨"a.$.$"⟩ visit root).run.run [] =
          (.ok (.object [(.str "a", .list [.list [.null, .null], .int 3, .list [.null]])]),
            [([.key (.str "a"), .index 0, .index 0], .int 1),
              ([.key (.str "a"), .index 0, .index 1], .int 2),
              ([.key (.str "a"), .index 2, .index 0], .int 4)]) := by
  intro items root visit
  have hpath : Path.segments ⟨"a.$.$"⟩ = ["a"] ++ Path.wildcard :: [Path.wildcard] := by
    decide +kernel
  have hleads : root.leads ["a"] (.list items) := rfl
  have hlength : items.length ≤ 10 ^ Decimal.maxDigits :=
    Nat.le_trans (by decide : 3 ≤ 10) (Nat.le_self_pow (by decide) 10)
  have happly := applyAt_wildcard visit hpath hleads hlength
  refine ⟨hpath, hleads, hlength, happly, ?_⟩
  rw [applyAt, hpath]
  rfl

end Reshape
