import Reshape.Proofs.Duality
import Reshape.Proofs.Parts
import Reshape.Proofs.PathText

/-!
This module contains the wrapping of a field and the way back. The main statement, `wrap_then_move`,
says that a wrapping is undone by moving what has been wrapped out of its wrapper to where the wrapper
stands, so that the source of the move lies below its target.
-/

namespace Reshape

section Wrap

variable {root found : Value} {segments p : List String} {name last : String}

/--
The segment that leads out of a wrapper to what has been wrapped.
-/
def Wrapper.segment : Wrapper → String
  | .field name => name
  | .list => "0"

theorem Wrapper.wrap_ne_missing (wrapper : Wrapper) (v : Value) : wrapper.wrap v ≠ .missing := by
  cases wrapper <;> simp [wrap]

theorem Wrapper.child_wrap (wrapper : Wrapper) (v : Value)
    : (wrapper.wrap v).child wrapper.segment = v := by
  cases wrapper with
  | field name => simp [wrap, segment, Value.child, Value.slot?, Value.get?, Assoc.get?]
  | list => rfl

theorem Wrapper.refuses_wrap (wrapper : Wrapper) (v : Value)
    : (wrapper.wrap v).refuses wrapper.segment = false := by
  cases wrapper <;> rfl

/--
Editing what is found at the end of a path replaces it there.
-/
theorem edited_of_found {f : Value → Value} (hw : Path.wildcard ∉ segments)
    (hfound : root.seek segments ≠ .missing) (hf : f (root.seek segments) ≠ .missing)
    : edited f segments root = root.replace (f (root.seek segments)) segments := by
  induction segments generalizing root with
  | nil => rfl
  | cons segment rest ih =>
    rw [List.mem_cons, not_or] at hw
    have hchild := Value.child_ne_of_seek_ne hfound
    obtain ⟨slot, hslot⟩ := Value.slot?_of_child_ne hchild
    have hentered : entered rest (root.child segment) = true := by
      by_contra hnot
      rw [entered, Bool.or_eq_true, not_or, List.isEmpty_iff, Bool.not_eq_true] at hnot
      apply hfound
      exact Value.seek_of_not_container hnot.2 hnot.1
    have hne : edited f rest (root.child segment) ≠ .missing := by
      by_cases hrest : rest = []
      · subst hrest
        exact hf
      · apply edited_ne_missing f hrest
        rw [entered, List.isEmpty_eq_false_iff.mpr hrest] at hentered
        exact hentered
    have hcontent : (root.get? slot).getD .missing = root.child segment :=
      (Value.child_of_slot? hslot).symm
    rw [(edited_of_slot? f rest (Ne.symm hw.1) hslot).2, editedSlot_of_entered, hcontent,
      Value.store_of_ne hne, ih hw.2 hfound hf, Value.replace, Value.assign_of_slot? hslot]
    · rfl
    · rw [hcontent]
      exact hentered

theorem Direct.wrapAt_of_found {field wrapper : Value} {path : Path} {kind : Wrapper}
    (hfield : Path.ofValue field = .ok path) (hwrapper : Wrapper.ofValue wrapper = .ok kind)
    (hw : Path.wildcard ∉ path.segments) (hb : root.blocked path.segments = false)
    (hfound : root.seek path.segments ≠ .missing)
    : wrapAt root field wrapper =
        Outcome.ok (root.replace (kind.wrap (root.seek path.segments)) path.segments) := by
  have hedit : ∀ v, (Edit.wrap kind).apply v = .ok (kind.wrap v.orNull) := fun _ => rfl
  have hwrap : wrapAt root field wrapper = editAt (.ok (.wrap kind)) field root := by
    unfold wrapAt
    rw [hwrapper]
    rfl
  have hmade : kind.wrap (root.seek path.segments).orNull = kind.wrap (root.seek path.segments) := by
    rw [Value.orNull_of_ne hfound]
  rw [hwrap, editAt_of_ok hedit hfield]
  by_cases hpath : path.segments = []
  · rw [hpath] at hmade ⊢
    rw [applyPure_root hpath, Value.orNull_of_ne (kind.wrap_ne_missing _)]
    exact congrArg Outcome.ok hmade
  · rw [applyPure_of_ne hpath, balks_eq_blocked hw, hb, remade_const,
      @edited_of_found _ _ (fun v => kind.wrap v.orNull) hw hfound (kind.wrap_ne_missing _), hmade]
    rfl

theorem pivot_of_below (p : List String) (last name : String)
    : pivot (p ++ [last, name]) (p ++ [last]) = p ∧
        fork (p ++ [last, name]) (p ++ [last]) = last := by
  have hpivot : pivot (p ++ [last, name]) (p ++ [last]) = p := by
    rw [pivot, sharedStart_append, sharedStart, if_pos rfl, sharedStart_comm]
    simp [sharedStart]
  rw [fork, hpivot, List.drop_left]
  exact ⟨rfl, rfl⟩

/--
Moving a part of what stands at a place to the place itself puts it in its stead.
-/
theorem relocate_up {v w : Value} (h : v.leads p w) (hr : w.refuses last = false)
    (hr' : (w.child last).refuses name = false) (hfound : (w.child last).child name ≠ .missing)
    : (relocate false (p ++ [last, name]) (p ++ [last]) v).outcome =
        Outcome.ok (v.replace (w.assign last ((w.child last).child name)) p) := by
  have hchild : w.child last ≠ .missing := by
    intro hmissing
    rw [hmissing] at hfound
    exact hfound rfl
  have haccepts := Value.accepts_of_child_ne hchild
  obtain ⟨hpivot, hfork⟩ := pivot_of_below p last name
  have hseek := Value.seek_of_leads h
  have hs : p ++ [last, name] ≠ [] := by simp
  have ht : p ++ [last] ≠ [] := by simp
  have hb : v.blocked (p ++ [last, name]) = false := by
    rw [Value.blocked_append, Value.blocked_of_leads h, hseek]
    simp [Value.blocked, hr, hr']
  have hsource : v.seek (p ++ [last, name]) = (w.child last).child name := by
    rw [Value.seek_append, hseek]
    rfl
  obtain ⟨-, hmove⟩ := relocate_of_open false hs ht hb (by rw [hsource]; exact hfound)
    (by rw [hpivot, hfork, hseek, hr]) (by rw [hpivot, hfork, hseek, haccepts])
  have hplaced : (w.detach [last, name]).placeAt [last] ((w.child last).child name) =
      .ok (w.assign last ((w.child last).child name), []) := by
    show Except.ok ((w.assign last _).assign last _, []) = _
    rw [Value.assign_assign]
  rw [hmove, hpivot, hseek, hsource, if_neg Bool.false_ne_true, List.drop_left, List.drop_left,
    hplaced]
  rfl

/--
What has been wrapped is moved from the wrapper to where the wrapper stands.
-/
theorem relocate_wrapped (wrapper : Wrapper) (hb : root.blocked segments = false)
    (hfound : root.seek segments ≠ .missing)
    : (relocate false (segments ++ [wrapper.segment]) segments
        (root.replace (wrapper.wrap (root.seek segments)) segments)).outcome = Outcome.ok root := by
  have hwrap := wrapper.child_wrap (root.seek segments)
  have hrefuses := wrapper.refuses_wrap (root.seek segments)
  rcases List.eq_nil_or_concat segments with rfl | ⟨p, last, rfl⟩
  · have hb' : (wrapper.wrap root).blocked [wrapper.segment] = false := by
      rw [Value.blocked, show (wrapper.wrap root).refuses wrapper.segment = false from hrefuses]
      rfl
    have hmove := relocate_to_root false (List.cons_ne_nil wrapper.segment []) (wrapper.wrap root)
    rw [hb', show (wrapper.wrap root).seek [wrapper.segment] = root from hwrap,
      if_neg Bool.false_ne_true, if_neg (show root ≠ .missing from hfound)] at hmove
    show (relocate false [wrapper.segment] [] (wrapper.wrap root)).outcome = _
    rw [hmove]
    rfl
  · rw [List.concat_eq_append] at *
    obtain ⟨hleads, hr, hchild⟩ := Value.parent_of_found hb hfound
    have hne : (root.seek p).child last ≠ .missing := by
      rw [hchild]
      exact hfound
    have hself := Value.assign_child hne
    have haccepts := Value.accepts_of_child_ne hne
    rw [hchild] at hself
    generalize root.seek (p ++ [last]) = found at *
    generalize wrapper.wrap found = wrapped at *
    have hinner := Value.child_assign haccepts wrapped
    have hframe : ((root.seek p).assign last wrapped).frame = (root.seek p).frame :=
      Value.frame_assign wrapped
    rw [← Value.refuses_congr hframe] at hr
    rw [← hinner] at hrefuses hwrap
    have hmove := relocate_up (Value.leads_replace hleads hframe) hr hrefuses
      (by rw [hwrap]; exact hfound)
    rw [hwrap, Value.assign_assign, Value.replace_replace hleads, hself,
      Value.replace_self hleads] at hmove
    rw [Value.replace_append, List.append_assoc]
    exact hmove

end Wrap

/--
Moving what has been wrapped out of its wrapper, to where the wrapper stands, undoes the wrapping.
-/
theorem wrap_then_move {root found field : Value} {path : Path}
    (hfield : Path.ofValue field = .ok path) (hw : path.hasWildcard = false)
    (hread : root.read path.segments = .ok found) (hfound : found ≠ .missing)
    : (∀ (k : String) (inner : Value), '.' ∉ k.toList → k ≠ Path.wildcard →
        (path.isRoot = true → k ≠ "") → Path.ofValue inner = .ok (path.field k) →
        (do
          let wrapped ← Direct.wrapAt root field (.str k)
          Direct.relocateTo false wrapped inner field) = Outcome.ok root) ∧
      ∀ (items : List Value) (inner : Value), Path.ofValue inner = .ok (path.field "0") →
        (do
          let wrapped ← Direct.wrapAt root field (.list items)
          Direct.relocateTo false wrapped inner field) = Outcome.ok root := by
  rw [Value.read_eq] at hread
  split at hread
  · cases hread
  · next hb =>
    cases hread
    rw [Bool.not_eq_true] at hb
    have hmem : Path.wildcard ∉ path.segments := by simpa [Path.hasWildcard] using hw
    have undo (wrapper inner : Value) {kind : Wrapper} (hwrapper : Wrapper.ofValue wrapper = .ok kind)
        (hdots : '.' ∉ kind.segment.toList) (hne : kind.segment ≠ Path.wildcard)
        (hroot : path.isRoot = true → kind.segment ≠ "")
        (hinner : Path.ofValue inner = .ok (path.field kind.segment))
        : (do
            let wrapped ← Direct.wrapAt root field wrapper
            Direct.relocateTo false wrapped inner field) = Outcome.ok root := by
      have hsegments := Path.segments_field hdots hroot
      have hinnerWildcard : (path.field kind.segment).hasWildcard = false := by
        rw [Path.hasWildcard, hsegments]
        simpa [hmem] using hne.symm
      rw [Direct.wrapAt_of_found hfield hwrapper hmem hb hfound, Outcome.bind_eq, Outcome.bind_ok,
        Direct.relocateTo_of_path false _ hinner hfield hinnerWildcard hw, hsegments]
      exact relocate_wrapped kind hb hfound
    constructor
    · intro k inner hdots hne hroot hinner
      exact undo (.str k) inner rfl hdots hne hroot hinner
    · intro items inner hinner
      exact undo (.list items) inner rfl (by decide) (by decide) (fun _ => by decide) hinner

theorem wrap_then_move_element
    : let found : Value := .object [(.str "x", .int 1)]
      let root : Value := .object [(.str "a", .list [.int 0, found]), (.str "b", .null)]
      Path.hasWildcard ⟨"a.1"⟩ = false ∧ root.read (Path.segments ⟨"a.1"⟩) = .ok found ∧
        '.' ∉ "w".toList ∧ Path.ofValue (.str "a.1.w") = .ok (Path.field ⟨"a.1"⟩ "w") ∧
        Path.ofValue (.str "a.1.0") = .ok (Path.field ⟨"a.1"⟩ "0") ∧
        (do
          let wrapped ← Direct.wrapAt root (.str "a.1") (.str "w")
          Direct.relocateTo false wrapped (.str "a.1.w") (.str "a.1")) = Outcome.ok root ∧
        (do
          let wrapped ← Direct.wrapAt root (.str "a.1") (.list [])
          Direct.relocateTo false wrapped (.str "a.1.0") (.str "a.1")) = Outcome.ok root := by
  intro found root
  have hw : Path.hasWildcard ⟨"a.1"⟩ = false := by decide +kernel
  have hread : root.read (Path.segments ⟨"a.1"⟩) = .ok found := by
    rw [show Path.segments ⟨"a.1"⟩ = ["a", "1"] by decide +kernel]
    rfl
  have hisRoot : Path.isRoot ⟨"a.1"⟩ = false := by decide +kernel
  have hfield : Path.ofValue (.str "a.1.w") = .ok (Path.field ⟨"a.1"⟩ "w") := by
    rw [Path.field, hisRoot]
    rfl
  have helement : Path.ofValue (.str "a.1.0") = .ok (Path.field ⟨"a.1"⟩ "0") := by
    rw [Path.field, hisRoot]
    rfl
  have hdots : '.' ∉ "w".toList := by decide
  obtain ⟨hkey, hlist⟩ := @wrap_then_move root found (.str "a.1") ⟨"a.1"⟩ rfl hw hread (by simp [found])
  refine ⟨hw, hread, hdots, hfield, helement, ?_, hlist [] _ helement⟩
  apply hkey "w" _ hdots (by decide) _ hfield
  simp [hisRoot]

end Reshape
