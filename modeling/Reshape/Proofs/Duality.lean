import Reshape.Proofs.Fusion
import Reshape.Proofs.PlainRelocation

/-!
This module contains the two orders in which a move can be made. It gives its source up first and
then places it, and a copy that is followed by a removal places it first. The main statement,
`copy_then_unset`, says that both leave the same behind if the two paths part before either of them
ends.
-/

namespace Reshape

/--
A walk along segments without a wildcard meets the same lists as the way that they lead.
-/
theorem balks_eq_blocked {segments : List String} (hw : Path.wildcard ∉ segments) (v : Value)
    : balks segments v = v.blocked segments := by
  induction segments generalizing v with
  | nil => rfl
  | cons segment rest ih =>
    rw [List.mem_cons, not_or] at hw
    have hfans := Value.not_fans (Ne.symm hw.1) v
    rw [Value.blocked]
    cases hslot : v.slot? segment with
    | none =>
      rw [balks_of_no_slot hfans hslot, Value.child_of_slot?_eq_none hslot, Value.blocked_missing,
        Bool.or_false]
    | some slot =>
      rw [balks_of_slot hfans hslot, ← Value.child_of_slot? hslot, ih hw.2]
      congr 1
      cases hc : (v.child segment).isContainer with
      | true => rw [entered, hc, Bool.or_true, Bool.true_and]
      | false => rw [Value.blocked_of_not_container hc, Bool.and_false]

namespace Value

section Apart

variable {v : Value} {a b : String} {rest : List String} {slot : Slot}

theorem detach_singleton (h : v.slot? a = some slot) : v.detach [a] = v.clear slot := by
  rw [detach, h]

theorem detach_cons (h : v.slot? a = some slot) (hrest : rest ≠ [])
    : v.detach (a :: rest) = v.put slot ((v.child a).detach rest) := by
  obtain ⟨next, rest, rfl⟩ := List.exists_cons_of_ne_nil hrest
  rw [detach, assign_of_slot? h]
  exact List.cons_ne_nil next rest

theorem child_congr_of_get? {w : Value} (hframe : w.frame = v.frame)
    (h : ∀ slot, v.slot? a = some slot → w.get? slot = v.get? slot)
    : w.child a = v.child a := by
  have hslot := slot?_congr hframe a
  unfold child
  rw [hslot]
  cases hv : v.slot? a with
  | none => rfl
  | some slot => rw [Option.bind_some, Option.bind_some, h slot hv]

theorem child_assign_of_apart (hab : a ≠ b) (hi : ¬ SameIndex a b) (new : Value)
    : (v.assign b new).child a = v.child a := by
  apply child_congr_of_get? (frame_assign new)
  intro other hother
  cases hb : v.slot? b with
  | none =>
    unfold assign
    rw [hb]
  | some slot =>
    rw [assign_of_slot? hb]
    apply get?_put_of_ne
    exact slot?_ne_of_not_sameIndex hab hi hother hb

theorem get?_detach_of_ne (h : v.slot? a = some slot) {other : Slot} (ho : other ≠ slot)
    (rest : List String)
    : (v.detach (a :: rest)).get? other = v.get? other := by
  by_cases hrest : rest = []
  · rw [hrest, detach_singleton h, get?_clear_of_ne ho]
  · rw [detach_cons h hrest, get?_put_of_ne ho]

theorem child_detach_of_apart (hab : a ≠ b) (hi : ¬ SameIndex a b) (hc : v.child a ≠ .missing)
    (rest : List String)
    : (v.detach (a :: rest)).child b = v.child b := by
  obtain ⟨slot, ha⟩ := slot?_of_child_ne hc
  apply child_congr_of_get? (frame_detach (List.cons_ne_nil a rest) v)
  intro other hb
  exact get?_detach_of_ne ha (slot?_ne_of_not_sameIndex hab hi ha hb).symm rest

/--
A place is given up and another one is filled in any order, where what is given up is there.
-/
theorem detach_assign (hab : a ≠ b) (hi : ¬ SameIndex a b) (hc : v.child a ≠ .missing) (new : Value)
    : (v.assign b new).detach (a :: rest) = (v.detach (a :: rest)).assign b new := by
  obtain ⟨other, ha⟩ := slot?_of_child_ne hc
  have ha' : (v.assign b new).slot? a = some other := by
    rw [slot?_congr (frame_assign new), ha]
  have hchild := child_assign_of_apart (v := v) hab hi new
  have hframe := frame_detach (List.cons_ne_nil a rest) v
  cases hb : v.slot? b with
  | none =>
    unfold assign
    rw [slot?_congr hframe, hb]
  | some slot =>
    have hne := slot?_ne_of_not_sameIndex hab hi ha hb
    rw [assign_of_slot? (v := v.detach (a :: rest)) (by rw [slot?_congr hframe, hb])]
    by_cases hrest : rest = []
    · rw [hrest, detach_singleton ha', detach_singleton ha, assign_of_slot? hb,
        clear_put_of_ne hne]
    · rw [detach_cons ha' hrest, detach_cons ha hrest, hchild, assign_of_slot? hb]
      apply (put_comm_of_get? hne _ _ _).symm
      rw [get?_of_child_ne ha hc]
      exact Option.some_ne_none _

/--
What has been given up at one place makes no difference to a placement that goes to another one.
-/
theorem place_detach (hab : a ≠ b) (hi : ¬ SameIndex a b) (hc : v.child a ≠ .missing)
    (new : Value) (destination : String) (s t : List String)
    : place new destination (b :: t) (v.detach (a :: s)) =
        (place new destination (b :: t) v).map fun placed =>
          (placed.1.detach (a :: s), placed.2) := by
  cases t with
  | nil =>
    rw [place, place, ← detach_assign hab hi hc]
    rfl
  | cons next t =>
    rw [place_cons, place_cons, child_detach_of_apart hab hi hc]
    split
    · rfl
    · split
      · cases place new destination (next :: t) (v.child b) with
        | error e => rfl
        | ok placed =>
          simp only [Except.map, detach_assign hab hi hc]
      · simp only [Except.map, detach_assign hab hi hc]

end Apart

end Value

theorem relocationEnd_of_path {keep : Bool} {side : Side} {v : Value} {path : Path}
    (h : Path.ofValue v = .ok path) (hw : path.hasWildcard = false)
    : relocationEnd keep side v = .ok path := by
  have hcheck : relocationEnd.check side path = .ok path := by
    rw [relocationEnd.check, hw]
    rfl
  cases v <;> cases h <;> exact hcheck

theorem Direct.relocateTo_of_path (keep : Bool) (root : Value) {sourceEnd targetEnd : Value}
    {source target : Path} (hsource : Path.ofValue sourceEnd = .ok source)
    (htarget : Path.ofValue targetEnd = .ok target) (hs : source.hasWildcard = false)
    (ht : target.hasWildcard = false)
    : relocateTo keep root sourceEnd targetEnd =
        (relocate keep source.segments target.segments root).outcome := by
  unfold relocateTo
  rw [relocationEnd_of_path hsource hs, relocationEnd_of_path htarget ht]
  rfl

/--
Removing what stands at a path gives up the place that the path leads to.
-/
theorem Direct.unsetAt_of_found {root source : Value} {path : Path}
    (hsource : Path.ofValue source = .ok path) (hne : path.segments ≠ [])
    (hw : Path.wildcard ∉ path.segments) (hb : root.blocked path.segments = false)
    (hfound : root.seek path.segments ≠ .missing)
    : unsetAt root source = Outcome.ok (root.detach path.segments) := by
  have hedit : ∀ v, Edit.erase.apply v = .ok .missing := fun _ => rfl
  rw [unsetAt, editAt_of_ok hedit hsource, applyPure_of_ne hne, balks_eq_blocked hw, hb,
    remade_const, ← (detach_eq_edited hne hw hfound).1]
  rfl

/--
A relocation that has a source and a place for the target where both paths are followed from.
-/
theorem relocate_of_open (keep : Bool) {root : Value} {source target : List String} (hs : source ≠ [])
    (ht : target ≠ []) (hb : root.blocked source = false) (hfound : root.seek source ≠ .missing)
    (hr : (root.seek (pivot source target)).refuses (fork source target) = false)
    (ha : (root.seek (pivot source target)).accepts (fork source target) = true)
    : let shared := pivot source target
      let start := root.seek shared
      let left := if keep then start else start.detach (source.drop shared.length)
      root.leads shared start ∧
        relocate keep source target root =
          .ofPlaced (root.replace left shared) (root.replace · shared)
            (left.placeAt (target.drop shared.length) (root.seek source)) := by
  intro shared start left
  have hlookup := relocated?_eq hs ht root
  dsimp only at hlookup
  rw [if_neg (by simp [hb, hr]), if_neg (by simp [hfound, ha])] at hlookup
  exact ⟨leads_pivot hs ht hb ha hfound, relocate_of_reached keep hs ht hlookup⟩

section Parted

variable {root start : Value} {p s t : List String} {a b : String}

/--
What a relocation between two paths that part comes to, unless a list refuses one of the segments up
to where they part.
-/
theorem relocate_of_parted (keep : Bool) (hab : a ≠ b) (hb : root.blocked (p ++ a :: s) = false)
    (hfound : root.seek (p ++ a :: s) ≠ .missing) (hr : (root.seek p).refuses b = false)
    (ha : (root.seek p).accepts b = true)
    : let left := if keep then root.seek p else (root.seek p).detach (a :: s)
      root.leads p (root.seek p) ∧
        relocate keep (p ++ a :: s) (p ++ b :: t) root =
          .ofPlaced (root.replace left p) (root.replace · p)
            (left.placeAt (b :: t) (root.seek (p ++ a :: s))) := by
  have hs : p ++ a :: s ≠ [] := by simp
  have ht : p ++ b :: t ≠ [] := by simp
  have hpivot : pivot (p ++ a :: s) (p ++ b :: t) = p := pivot_of_diverge hab
  have hopen := relocate_of_open keep hs ht hb hfound
  dsimp only at hopen
  rw [hpivot, fork_of_diverge hab, List.drop_left, List.drop_left] at hopen
  exact hopen hr ha

/--
Nothing is given up or placed if a list refuses one of the segments up to where the paths part.
-/
theorem relocate_of_parted_refused (keep : Bool) (hab : a ≠ b)
    (hfound : root.seek (p ++ a :: s) ≠ .missing)
    (h : root.blocked (p ++ a :: s) = true ∨ (root.seek p).refuses b = true)
    : relocate keep (p ++ a :: s) (p ++ b :: t) root = .fail root .tooManyDigits := by
  have hs : p ++ a :: s ≠ [] := by simp
  have ht : p ++ b :: t ≠ [] := by simp
  apply relocate_of_refused keep hs ht
  rw [pivot_of_diverge hab, fork_of_diverge hab]
  exact h.imp_right fun hr => ⟨hfound, hr⟩

/--
The source of a copy is still there when the copy has been made.
-/
theorem source_of_copied (hleads : root.leads p start) (hab : a ≠ b) (hi : ¬ SameIndex a b)
    (hb : root.blocked (p ++ a :: s) = false) (new : Value)
    : let copied := root.replace (start.assign b new) p
      copied.blocked (p ++ a :: s) = false ∧
        copied.seek (p ++ a :: s) = root.seek (p ++ a :: s) ∧
        copied.detach (p ++ a :: s) = root.replace ((start.assign b new).detach (a :: s)) p := by
  intro copied
  have hcopied : copied.leads p (start.assign b new) :=
    Value.leads_replace hleads (Value.frame_assign new)
  have hchild := Value.child_assign_of_apart (v := start) hab hi new
  rw [Value.blocked_append, Value.blocked_of_leads hleads, Value.seek_of_leads hleads] at hb
  refine ⟨?_, ?_, ?_⟩
  · rw [Value.blocked_append, Value.blocked_of_leads hcopied, Value.seek_of_leads hcopied,
      Value.blocked, Value.refuses_congr (Value.frame_assign new), hchild]
    exact hb
  · rw [Value.seek_append, Value.seek_append, Value.seek_of_leads hcopied,
      Value.seek_of_leads hleads, Value.seek, Value.seek, hchild]
  · rw [Value.detach_append (List.cons_ne_nil a s), Value.seek_of_leads hcopied]
    exact Value.replace_replace hleads _ _

end Parted

/--
What follows a placement changes nothing but the value.
-/
theorem Relocation.outcome_bind {x : Except Error (Value × List Event)} {g whole whole' : Value → Value}
    {k : Value → Outcome Value}
    (h : ∀ v log, x = .ok (v, log) → k (whole v) = Outcome.ok (whole' (g v))) (left left' : Value)
    : ((ofPlaced left whole x).outcome >>= k) =
        (ofPlaced left' whole' (x.map fun placed => (g placed.1, placed.2))).outcome := by
  cases x with
  | error e => rfl
  | ok placed =>
    rw [Outcome.bind_of_ok (a := whole placed.1) rfl, h placed.1 placed.2 rfl]
    show (⟨placed.2 ++ [], _⟩ : Outcome Value) = _
    rw [List.append_nil]
    rfl

/--
A copy and then the removal of its source come to a move, also as far as the order of keys and the
report are concerned, if the paths first differ at segments that name different places, there is
something at the source and the container where they part accepts the target. Both fail if a list on
the way of one of the paths cannot look up its segment, and otherwise neither does.
-/
theorem copy_then_unset {root sourceEnd targetEnd : Value} {source target : Path}
    {p s t : List String} {a b : String} (hsource : Path.ofValue sourceEnd = .ok source)
    (htarget : Path.ofValue targetEnd = .ok target) (hs : source.hasWildcard = false)
    (ht : target.hasWildcard = false) (hfrom : source.segments = p ++ a :: s)
    (hto : target.segments = p ++ b :: t) (hab : a ≠ b) (hi : ¬ SameIndex a b)
    (hfound : root.seek source.segments ≠ .missing) (haccepts : (root.seek p).accepts b = true)
    : (do
        let copied ← Direct.relocateTo true root sourceEnd targetEnd
        Direct.unsetAt copied sourceEnd) = Direct.relocateTo false root sourceEnd targetEnd ∧
      (root.blocked source.segments = false → root.blocked target.segments = false →
        ∃ new, (Direct.relocateTo false root sourceEnd targetEnd).result = .ok new) := by
  have hw : Path.wildcard ∉ source.segments := by simpa [Path.hasWildcard] using hs
  have hne : source.segments ≠ [] := by
    rw [hfrom]
    simp
  have hunset (copied : Value) := @Direct.unsetAt_of_found copied sourceEnd source hsource hne hw
  rw [Direct.relocateTo_of_path true root hsource htarget hs ht,
    Direct.relocateTo_of_path false root hsource htarget hs ht]
  rw [hfrom] at hfound hunset ⊢
  rw [hto]
  by_cases hrefused : root.blocked (p ++ a :: s) = true ∨ (root.seek p).refuses b = true
  · rw [relocate_of_parted_refused true hab hfound hrefused,
      relocate_of_parted_refused false hab hfound hrefused]
    refine ⟨rfl, ?_⟩
    intro hb hb'
    rw [Value.blocked_append, Value.blocked] at hb'
    simp_all
  · rw [not_or, Bool.not_eq_true, Bool.not_eq_true] at hrefused
    obtain ⟨hb, hr⟩ := hrefused
    obtain ⟨hleads, hcopy⟩ := relocate_of_parted (t := t) true hab hb hfound hr haccepts
    obtain ⟨-, hmove⟩ := relocate_of_parted (t := t) false hab hb hfound hr haccepts
    have hchild : (root.seek p).child a ≠ .missing := by
      intro hmissing
      apply hfound
      rw [Value.seek_append, Value.seek, hmissing, Value.seek_missing]
    obtain ⟨log, hplace⟩ := @Value.place_eq (root.seek p) (root.seek (p ++ a :: s)) b t
      (String.intercalate "." (b :: t)) hr
    rw [hcopy, hmove, if_pos rfl, if_neg Bool.false_ne_true, Value.placeAt, Value.placeAt,
      Value.place_detach hab hi hchild]
    constructor
    · apply Relocation.outcome_bind (g := fun v => v.detach (a :: s))
      intro placed log' hplaced
      rw [hplaced] at hplace
      split at hplace
      · cases hplace
      · cases hplace
        obtain ⟨hfree, hseek, hdetach⟩ := source_of_copied hleads hab hi hb
          (Value.placed (root.seek (p ++ a :: s)) t (((root.seek p).child b).room t))
        rw [← hseek] at hfound
        have hremoved := hunset _ hfree hfound
        rw [hdetach] at hremoved
        exact hremoved
    · intro _ hfree
      rw [Value.blocked_append, Value.blocked_of_leads hleads, Bool.false_or] at hfree
      rw [hplace, hfree]
      exact ⟨_, rfl⟩

theorem copy_then_unset_element
    : let root : Value := .object [(.str "l", .list [.int 1, .int 2])]
      Path.hasWildcard ⟨"l.0"⟩ = false ∧ Path.hasWildcard ⟨"l.1.x"⟩ = false ∧
        Path.segments ⟨"l.0"⟩ = ["l"] ++ "0" :: [] ∧
        Path.segments ⟨"l.1.x"⟩ = ["l"] ++ "1" :: ["x"] ∧ ¬ SameIndex "0" "1" ∧
        (do
          let copied ← Direct.relocateTo true root (.str "l.0") (.str "l.1.x")
          Direct.unsetAt copied (.str "l.0")) =
            Direct.relocateTo false root (.str "l.0") (.str "l.1.x") ∧
        ∃ new, (Direct.relocateTo false root (.str "l.0") (.str "l.1.x")).result = .ok new := by
  intro root
  have hs : Path.hasWildcard ⟨"l.0"⟩ = false := by decide +kernel
  have ht : Path.hasWildcard ⟨"l.1.x"⟩ = false := by decide +kernel
  have hsource : Path.segments ⟨"l.0"⟩ = ["l"] ++ "0" :: [] := by decide +kernel
  have htarget : Path.segments ⟨"l.1.x"⟩ = ["l"] ++ "1" :: ["x"] := by decide +kernel
  have hi : ¬ SameIndex "0" "1" := by
    rintro ⟨i, hzero, hone⟩
    have hne : listIndex? "0" ≠ listIndex? "1" := by decide +kernel
    exact hne (hzero.trans hone.symm)
  obtain ⟨hsame, hreturns⟩ := @copy_then_unset root (.str "l.0") (.str "l.1.x") ⟨"l.0"⟩ ⟨"l.1.x"⟩
    ["l"] [] ["x"] "0" "1" rfl rfl hs ht hsource htarget (by decide) hi (by decide +kernel)
    (by decide +kernel)
  exact ⟨hs, ht, hsource, htarget, hi, hsame, hreturns (by decide +kernel) (by decide +kernel)⟩

end Reshape
