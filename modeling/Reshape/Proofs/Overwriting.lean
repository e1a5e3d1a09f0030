import Reshape.Proofs.Duality
import Reshape.Proofs.Parts

/-!
This module contains what a relocation reports. The main statement, `relocate_reports`, says that it
reports the value of the original that an object has taken the place of, and nothing else, except
that a move takes the null that it has left in a list itself for such a value.
-/

namespace Reshape

/--
Segments lead to something from where the next segment cannot be followed.
-/
structure Value.EndsAt (v : Value) (p : List String) (next : String) : Prop where
  stands : v.seek p ≠ .missing
  closed : (v.seek p).accepts next = false

/--
A report of what makes way for an object when something is put under segments.
-/
def Value.Reports (v : Value) (segments : List String) (log : List Event) : Prop :=
  match v.obstacle? segments with
  | none => log = []
  | some o => ∃ segment destination, log = [.overwrote (v.look o).typeName segment destination]

/--
Whether a relocation gets as far as to put something at its target. The value itself can always be
moved below a fresh object. Otherwise the source leads to something, the container from which both
paths are followed takes the target, and no list on the way fails to look up its segment.
-/
def Writes (keep : Bool) (source target : List String) (root : Value) : Prop :=
  source = [] ∧ keep = false ∨
    root.blocked source = false ∧ root.seek source ≠ .missing ∧
      (root.seek (pivot source target)).refuses (fork source target) = false ∧
      (root.seek (pivot source target)).accepts (fork source target) = true ∧
      (root.remainder keep source).blocked target = false

/--
What stands at the end of a proper prefix of the target is lost to a relocation: the target cannot
be followed from there, so an object takes its place, and it is not part of what a move carries
away.
-/
structure Discards (keep : Bool) (source target : List String) (root result : Value)
    (p : List String) : Prop where
  nonempty : p ≠ []
  proper : ∃ next rest, target = p ++ next :: rest ∧ root.EndsAt p next
  stays : keep = false → ¬ root.address source <+: root.address p
  replaced : ∃ fields, result.at? (root.address p) = some (.object fields)

/--
A move takes an element out of a list and leads on through the place of that element.
-/
structure Reenters (keep : Bool) (source target : List String) (root : Value) : Prop where
  moves : keep = false
  element : ∃ a i, root.address source = a ++ [.index i]
  through : ∃ p next rest, target = p ++ next :: rest ∧ root.seek p ≠ .missing ∧
    root.address p = root.address source

namespace Value

section Obstacle

variable {v w new : Value} {segment : String} {rest : List String} {slot : Slot}

theorem address_singleton (h : v.slot? segment = some slot) : v.address [segment] = [slot] := by
  rw [address, h]
  rfl

theorem address_cons (h : v.slot? segment = some slot) (rest : List String)
    : v.address (segment :: rest) = slot :: (v.child segment).address rest := by
  rw [address, h]

theorem obstacle?_of_admits (h : (v.child segment).admits rest = true)
    : v.obstacle? (segment :: rest) =
        ((v.child segment).obstacle? rest).map (v.address [segment] ++ ·) := by
  rw [obstacle?, if_pos h]

theorem obstacle?_of_closed (h : ¬ (v.child segment).admits rest = true)
    : v.obstacle? (segment :: rest) =
        if v.child segment = .missing then none else some (v.address [segment]) := by
  rw [obstacle?, if_neg h]

theorem obstacle?_eq_some_iff {segments : List String} {v : Value} {o : Address}
    : v.obstacle? segments = some o ↔
        ∃ p next rest, segments = p ++ next :: rest ∧ p ≠ [] ∧ v.EndsAt p next ∧
          o = v.address p := by
  induction segments generalizing v o with
  | nil => simp [obstacle?]
  | cons segment rest ih =>
    by_cases hadmits : (v.child segment).admits rest = true
    · rw [obstacle?_of_admits hadmits, Option.map_eq_some_iff]
      constructor
      · rintro ⟨o, ho, rfl⟩
        obtain ⟨p, next, rest, rfl, -, hends, rfl⟩ := ih.mp ho
        have hstands : v.seek (segment :: p) ≠ .missing := hends.stands
        obtain ⟨slot, hslot⟩ := slot?_of_child_ne (child_ne_of_seek_ne hstands)
        have hends' : v.EndsAt (segment :: p) next := ⟨hends.stands, hends.closed⟩
        refine ⟨segment :: p, next, rest, rfl, List.cons_ne_nil _ _, hends', ?_⟩
        rw [address_singleton hslot, address_cons hslot]
        rfl
      · rintro ⟨p, next, tail, heq, hp, hends, rfl⟩
        obtain ⟨first, p, rfl⟩ := List.exists_cons_of_ne_nil hp
        rw [List.cons_append, List.cons.injEq] at heq
        obtain ⟨rfl, rfl⟩ := heq
        obtain ⟨slot, hslot⟩ := slot?_of_child_ne (child_ne_of_seek_ne hends.stands)
        have hp : p ≠ [] := by
          rintro rfl
          have hclosed : (v.child segment).accepts next = false := hends.closed
          rw [List.nil_append, admits, hclosed] at hadmits
          cases hadmits
        refine ⟨_, ih.mpr ⟨p, next, tail, rfl, hp, ⟨hends.stands, hends.closed⟩, rfl⟩, ?_⟩
        rw [address_singleton hslot, address_cons hslot]
        rfl
    · rw [obstacle?_of_closed hadmits]
      obtain ⟨next, rest, rfl⟩ : ∃ next tail, rest = next :: tail := by
        cases rest with
        | nil => exact absurd rfl hadmits
        | cons next tail => exact ⟨next, tail, rfl⟩
      have hclosed : ¬ (v.child segment).accepts next = true := hadmits
      have hfalse : (v.child segment).accepts next = false := by simpa using hclosed
      constructor
      · intro h
        split at h
        · cases h
        · next hstands =>
          cases h
          exact ⟨[segment], next, rest, rfl, List.cons_ne_nil _ _, ⟨hstands, hfalse⟩, rfl⟩
      · rintro ⟨p, next', tail, heq, hp, hends, rfl⟩
        obtain ⟨first, p, rfl⟩ := List.exists_cons_of_ne_nil hp
        rw [List.cons_append, List.cons.injEq] at heq
        obtain ⟨rfl, heq⟩ := heq
        rw [if_neg (child_ne_of_seek_ne hends.stands)]
        cases p with
        | nil => rfl
        | cons first p =>
          -- Nothing is found beyond the value that ends the way.
          rw [List.cons_append, List.cons.injEq] at heq
          obtain ⟨rfl, -⟩ := heq
          refine absurd ?_ hends.stands
          rw [seek, seek, child_of_not_accepts hclosed, seek_missing]

theorem Reports.inward {log : List Event} (h : (v.child segment).Reports rest log)
    (hslot : v.slot? segment = some slot) (hadmits : (v.child segment).admits rest = true)
    : v.Reports (segment :: rest) log := by
  unfold Reports at h ⊢
  rw [obstacle?_of_admits hadmits]
  cases ho : (v.child segment).obstacle? rest with
  | none =>
    rw [ho] at h
    exact h
  | some o =>
    rw [ho] at h
    have hlook : v.look (v.address [segment] ++ o) = (v.child segment).look o := by
      rw [address_singleton hslot, List.singleton_append, look_cons, child_of_slot? hslot]
    dsimp only [Option.map_some] at h ⊢
    rw [hlook]
    exact h

theorem Reports.append {p : List String} {log : List Event} (h : w.Reports rest log)
    (hleads : v.leads p w) (hadmits : w.admits rest = true) : v.Reports (p ++ rest) log := by
  induction p generalizing v with
  | nil =>
    rw [leads_nil] at hleads
    rw [← hleads]
    exact h
  | cons segment p ih =>
    obtain ⟨slot, hslot⟩ := slot?_of_child_ne (child_ne_of_leads hleads)
    have hp := (leads_cons.mp hleads).2.2
    exact (ih hp).inward hslot (admits_of_leads hp hadmits)

theorem reports_place {destination : String} {placed : Value × List Event}
    (h : place new destination (segment :: rest) v = .ok placed)
    : v.Reports (segment :: rest) placed.2 := by
  induction rest generalizing v segment placed with
  | nil =>
    cases h
    rfl
  | cons next rest ih =>
    rw [place_cons] at h
    split at h
    · cases h
    · split at h
      · next hadmits =>
        rw [except_map_eq_ok_iff] at h
        obtain ⟨inner, hinner, rfl⟩ := h
        have hchild : v.child segment ≠ .missing := by
          intro hmissing
          rw [hmissing] at hadmits
          cases hadmits
        obtain ⟨slot, hslot⟩ := slot?_of_child_ne hchild
        exact (ih hinner).inward hslot hadmits
      · next hclosed =>
        cases h
        have hclosed : ¬ (v.child segment).admits (next :: rest) = true := hclosed
        unfold Reports
        rw [obstacle?_of_closed hclosed]
        show match (if v.child segment = .missing then none else some (v.address [segment])) with
          | none => notice destination segment (v.child segment) = []
          | some o => _
        unfold notice
        by_cases hstands : v.child segment = .missing
        · rw [if_pos hstands, if_pos hstands]
        · obtain ⟨slot, hslot⟩ := slot?_of_child_ne hstands
          rw [if_neg hstands, if_neg hstands, address_singleton hslot]
          refine ⟨segment, destination, ?_⟩
          rw [look_cons, ← child_of_slot? hslot]
          rfl

theorem at?_placed_obstacle (new : Value) {segments : List String} {v : Value} {o : Address}
    (h : v.admits segments = true) (ho : v.obstacle? segments = some o)
    : ∃ fields, (placed new segments v).at? o = some (.object fields) := by
  induction segments generalizing v o with
  | nil => cases ho
  | cons segment rest ih =>
    obtain ⟨slot, hslot⟩ := Option.isSome_iff_exists.mp h
    by_cases hadmits : (v.child segment).admits rest = true
    · rw [obstacle?_of_admits hadmits, Option.map_eq_some_iff] at ho
      obtain ⟨o, ho, rfl⟩ := ho
      rw [address_singleton hslot, List.singleton_append, at?_placed_self hslot,
        room_of_admits hadmits]
      exact ih hadmits ho
    · rw [obstacle?_of_closed hadmits, address_singleton hslot] at ho
      split at ho
      · cases ho
      · cases ho
        rw [at?_placed_self hslot, room_of_not_admits hadmits]
        cases rest with
        | nil => exact absurd rfl hadmits
        | cons next rest => exact ⟨_, rfl⟩

end Obstacle

section Detach

variable {v : Value} {source p : List String} {first segment next : String} {slot : Slot}

/--
What is there in a slot after it has given up its content.
-/
def hole (slot : Slot) : Value :=
  (slot.kept .missing).getD .missing

theorem seek_hole (hp : p ≠ []) : (hole slot).seek p = .missing := by
  apply seek_of_not_container _ hp
  cases slot <;> rfl

theorem child_clear (h : v.slot? first = some slot) : (v.clear slot).child first = hole slot := by
  have hclear : (v.clear slot).slot? first = some slot := (slot?_congr frame_clear first).trans h
  rw [child_of_slot? hclear, get?_clear_self (hasSlot_of_slot? h)]
  rfl

/--
What is found under segments after something has been given up: the same as before apart from it,
what is left in its place, and nothing beyond its place.
-/
inductive Vacated (v : Value) (source p : List String) : Prop where
  | apart (outside : ¬ v.address source <+: v.address p)
      (address : (v.detach source).address p = v.address p)
      (frame : ((v.detach source).seek p).frame = (v.seek p).frame)
      (kind : ((v.detach source).seek p).typeName = (v.seek p).typeName)
      (stands : (v.detach source).seek p = .missing ↔ v.seek p = .missing)
  | place (stood : v.seek p ≠ .missing) (a : Address) (slot : Slot)
      (ends : v.address source = a ++ [slot]) (same : v.address p = v.address source)
      (address : (v.detach source).address p = v.address p)
      (left : (v.detach source).seek p = hole slot)
  | beyond (inside : v.address source <+: v.address p)
      (below : v.seek p ≠ .missing → v.address p ≠ v.address source)
      (gone : (v.detach source).seek p = .missing)

theorem typeName_of_frame {w : Value} (h : w.frame = v.frame) (hv : v.isContainer = true)
    : w.typeName = v.typeName := by
  cases v with
  | list items => cases w <;> first | rfl | cases h
  | object fields => cases w <;> first | rfl | cases h
  | _ => cases hv

theorem vacated_nil (hs : source ≠ []) (hfound : v.seek source ≠ .missing)
    : v.Vacated source [] := by
  obtain ⟨segment, rest, rfl⟩ := List.exists_cons_of_ne_nil hs
  obtain ⟨slot, hslot⟩ := slot?_of_child_ne (child_ne_of_seek_ne hfound)
  have hframe := frame_detach hs v
  have hv := isContainer_of_slot? hslot
  apply Vacated.apart
  · rw [address_cons hslot]
    simp [address]
  · rfl
  · exact hframe
  · exact typeName_of_frame hframe hv
  · have hleft := (isContainer_congr hframe).trans hv
    exact iff_of_false (ne_missing_of_isContainer hleft) (ne_missing_of_isContainer hv)

theorem vacated_of_slot?_ne {rest : List String} (hslot : v.slot? segment = some slot)
    (hfirst : v.slot? first ≠ some slot) (p : List String)
    : v.Vacated (segment :: rest) (first :: p) := by
  have hframe := frame_detach (List.cons_ne_nil segment rest) v
  have hchild : (v.detach (segment :: rest)).child first = v.child first := by
    apply child_congr_of_get? hframe
    intro other hother
    apply get?_detach_of_ne hslot
    rintro rfl
    exact hfirst hother
  apply Vacated.apart
  · rw [address_cons hslot]
    cases hother : v.slot? first with
    | none => simp [address, hother]
    | some other =>
      rw [address_cons hother, List.cons_prefix_cons]
      rintro ⟨rfl, -⟩
      exact hfirst hother
  · rw [address, address, slot?_congr hframe, hchild]
  · rw [seek, seek, hchild]
  · rw [seek, seek, hchild]
  · rw [seek, seek, hchild]

theorem Vacated.inward {rest : List String} (hslot : v.slot? segment = some slot)
    (hfirst : v.slot? first = some slot) (hrest : rest ≠ [])
    (h : (v.child segment).Vacated rest p) : v.Vacated (segment :: rest) (first :: p) := by
  have hframe := frame_detach (List.cons_ne_nil segment rest) v
  have hfirst' := (slot?_congr hframe first).trans hfirst
  have hsame : v.child first = v.child segment := by
    rw [child_of_slot? hfirst, child_of_slot? hslot]
  have hchild : (v.detach (segment :: rest)).child first = (v.child segment).detach rest := by
    rw [child_of_slot? hfirst', detach_cons hslot hrest, get?_put_self (hasSlot_of_slot? hslot)]
    rfl
  cases h with
  | apart outside address frame kind stands =>
    apply Vacated.apart
    · rw [address_cons hslot, address_cons hfirst, hsame, List.cons_prefix_cons]
      exact fun h => outside h.2
    · rw [address_cons hfirst', address_cons hfirst, hchild, hsame, address]
    · rw [seek, seek, hchild, hsame, frame]
    · rw [seek, seek, hchild, hsame, kind]
    · rw [seek, seek, hchild, hsame, stands]
  | place stood a last ends same address left =>
    apply Vacated.place _ (slot :: a) last
    · rw [address_cons hslot, ends, List.cons_append]
    · rw [address_cons hslot, address_cons hfirst, hsame, same]
    · rw [address_cons hfirst', address_cons hfirst, hchild, hsame, address]
    · rw [seek, hchild, left]
    · rw [seek, hsame]
      exact stood
  | beyond inside below gone =>
    apply Vacated.beyond
    · rw [address_cons hslot, address_cons hfirst, hsame, List.cons_prefix_cons]
      exact ⟨rfl, inside⟩
    · rw [address_cons hslot, address_cons hfirst, seek, hsame]
      intro stood heq
      exact below stood (List.cons.inj heq).2
    · rw [seek, hchild, gone]

theorem vacated_last (hslot : v.slot? segment = some slot) (hfound : v.child segment ≠ .missing)
    (hfirst : v.slot? first = some slot) : v.Vacated [segment] (first :: p) := by
  have hsame : v.child first = v.child segment := by
    rw [child_of_slot? hfirst, child_of_slot? hslot]
  have hleft : (v.detach [segment]).seek (first :: p) = (hole slot).seek p := by
    rw [seek, detach_singleton hslot, child_clear hfirst]
  by_cases hp : p = []
  · subst hp
    apply Vacated.place _ [] slot
    · exact address_singleton hslot
    · rw [address_singleton hslot, address_singleton hfirst]
    · rw [detach_singleton hslot, address_singleton hfirst, address_singleton]
      rw [slot?_congr frame_clear, hfirst]
    · exact hleft
    · rw [seek, hsame]
      exact hfound
  · apply Vacated.beyond
    · rw [address_singleton hslot, address_cons hfirst, List.cons_prefix_cons]
      exact ⟨rfl, List.nil_prefix⟩
    · obtain ⟨second, p, rfl⟩ := List.exists_cons_of_ne_nil hp
      rw [address_singleton hslot, address_cons hfirst]
      intro stood heq
      have stood : (v.child first).seek (second :: p) ≠ .missing := stood
      obtain ⟨other, hother⟩ := slot?_of_child_ne (child_ne_of_seek_ne stood)
      rw [address_cons hother] at heq
      cases heq
    · rw [hleft, seek_hole hp]

theorem vacated (hs : source ≠ []) (hfound : v.seek source ≠ .missing) (p : List String)
    : v.Vacated source p := by
  induction source generalizing v p with
  | nil => exact absurd rfl hs
  | cons segment rest ih =>
    obtain ⟨slot, hslot⟩ := slot?_of_child_ne (child_ne_of_seek_ne hfound)
    cases p with
    | nil => exact vacated_nil hs hfound
    | cons first p =>
      by_cases hfirst : v.slot? first = some slot
      · by_cases hrest : rest = []
        · subst hrest
          exact vacated_last hslot hfound hfirst
        · exact (ih hrest hfound p).inward hslot hfirst hrest
      · exact vacated_of_slot?_ne hslot hfirst p

/--
What can stop the way into a value that has given something up: what stopped it before, apart from
what was given up, or the null that is left of an element.
-/
theorem endsAt_detach_iff (hs : source ≠ []) (hfound : v.seek source ≠ .missing)
    : (v.detach source).EndsAt p next ↔
        (v.EndsAt p next ∧ ¬ v.address source <+: v.address p) ∨
          v.seek p ≠ .missing ∧ v.address p = v.address source ∧
            ∃ a i, v.address source = a ++ [.index i] := by
  cases vacated hs hfound p with
  | apart outside address frame kind stands =>
    have haccepts := accepts_congr frame next
    constructor
    · rintro ⟨hstands, hclosed⟩
      exact Or.inl ⟨⟨(stands.not).mp hstands, haccepts.symm.trans hclosed⟩, outside⟩
    · rintro (⟨⟨hstands, hclosed⟩, -⟩ | ⟨-, hsame, -⟩)
      · exact ⟨(stands.not).mpr hstands, haccepts.trans hclosed⟩
      · rw [hsame] at outside
        exact absurd List.prefix_rfl outside
  | place stood a slot ends same address left =>
    have hinside : v.address source <+: v.address p := ⟨[], by rw [List.append_nil, same]⟩
    constructor
    · rintro ⟨hstands, -⟩
      refine Or.inr ⟨stood, same, ?_⟩
      cases slot with
      | key k => exact absurd left hstands
      | index i => exact ⟨a, i, ends⟩
    · rintro (⟨-, houtside⟩ | ⟨-, -, b, i, hindex⟩)
      · exact absurd hinside houtside
      · rw [ends, List.append_singleton_inj] at hindex
        obtain ⟨-, rfl⟩ := hindex
        refine ⟨?_, ?_⟩
        · rw [left]
          exact nofun
        · rw [left]
          rfl
  | beyond inside below gone =>
    constructor
    · rintro ⟨hstands, -⟩
      exact absurd gone hstands
    · rintro (⟨-, houtside⟩ | ⟨hstood, hsame, -⟩)
      · exact absurd inside houtside
      · exact absurd hsame (below hstood)

theorem address_detach (hs : source ≠ []) (hfound : v.seek source ≠ .missing)
    (hp : (v.detach source).seek p ≠ .missing) : (v.detach source).address p = v.address p := by
  cases vacated hs hfound p with
  | apart outside address frame kind stands => exact address
  | place stood a slot ends same address left => exact address
  | beyond inside below gone => exact absurd gone hp

/--
The null that an element has left stands where the way goes on through the place of the element.
-/
theorem seek_detach_of_same (hs : source ≠ []) (hfound : v.seek source ≠ .missing)
    (hstood : v.seek p ≠ .missing) (hsame : v.address p = v.address source) {a : Address} {i : Nat}
    (hindex : v.address source = a ++ [.index i]) : (v.detach source).seek p = .null := by
  cases vacated hs hfound p with
  | apart outside address frame kind stands =>
    rw [hsame] at outside
    exact absurd List.prefix_rfl outside
  | place stood b slot ends same address left =>
    rw [ends, List.append_singleton_inj] at hindex
    obtain ⟨-, rfl⟩ := hindex
    exact left
  | beyond inside below gone => exact absurd hsame (below hstood)

end Detach

end Value

section Relocate

variable {keep : Bool} {source target : List String} {root : Value}

theorem written_of_root (ht : target ≠ []) (hr : root.refuses (fork [] target) = false)
    (ha : root.accepts (fork [] target) = true) (hblocked : root.blocked target = false)
    : ∃ log, relocate true [] target root = ⟨Value.placed root target root, log, none⟩ ∧
        root.admits target = true ∧ root.Reports target log := by
  obtain ⟨segment, rest, rfl⟩ := List.exists_cons_of_ne_nil ht
  have hr : root.refuses segment = false := hr
  have ha : root.accepts segment = true := ha
  obtain ⟨log, hplace⟩ :=
    @Value.place_eq root root segment rest (String.intercalate "." (segment :: rest)) hr
  rw [hblocked, if_neg Bool.false_ne_true] at hplace
  refine ⟨log, ?_, ha, Value.reports_place hplace⟩
  simp [relocate, relocateRoot, hr, ha, Value.placeAt, hplace, Relocation.ofPlaced]

theorem written_of_found (hs : source ≠ []) (ht : target ≠ [])
    (hr : ¬ (root.blocked source ∨
      root.seek source ≠ .missing ∧ (root.seek (pivot source target)).refuses (fork source target)))
    (h : ¬ (root.seek source = .missing ∨
      (root.seek (pivot source target)).accepts (fork source target) = false))
    (hblocked : (root.remainder keep source).blocked target = false)
    : ∃ log, relocate keep source target root =
          ⟨Value.placed (root.seek source) target (root.remainder keep source), log, none⟩ ∧
        (root.remainder keep source).admits target = true ∧
        (root.remainder keep source).Reports target log := by
  obtain ⟨hadmits, log, hx⟩ := relocate_of_found keep hs ht hr h
  rw [hblocked, if_neg Bool.false_ne_true] at hx
  refine ⟨log, hx, hadmits, ?_⟩
  simp only [not_or, not_and, Bool.not_eq_true, Bool.not_eq_false] at hr h
  obtain ⟨hleads, hopen⟩ := relocate_of_open keep hs ht hr.1 h.1 (hr.2 h.1) h.2
  obtain ⟨q, t, hq, hsource, htarget⟩ := pivot_spec hs ht
  have haccepts := h.2
  generalize pivot source target = p at *
  generalize fork source target = next at *
  subst hsource htarget
  rw [List.drop_left, List.drop_left] at hopen
  -- The report is made below the pivot, to which the remainder still leads.
  obtain ⟨hleft, -⟩ := leads_remainder keep hq hleads
  rw [← Value.accepts_congr (frame_ite_detach keep hq (root.seek p))] at haccepts
  generalize (if keep then root.seek p else (root.seek p).detach q) = left at *
  rw [hopen] at hx
  cases hplaced : left.placeAt (next :: t) (root.seek (p ++ q)) with
  | error e =>
    rw [hplaced] at hx
    cases congrArg Relocation.failure hx
  | ok placed =>
    rw [hplaced] at hx
    have hlog : placed.2 = log := congrArg Relocation.log hx
    rw [← hlog]
    exact (Value.reports_place hplaced).append hleft haccepts

theorem Writes.written (h : Writes keep source target root) (ht : target ≠ [])
    (hmove : ¬ (source = [] ∧ keep = false))
    : ∃ log, relocate keep source target root =
          ⟨Value.placed (root.seek source) target (root.remainder keep source), log, none⟩ ∧
        (root.remainder keep source).admits target = true ∧
        (root.remainder keep source).Reports target log := by
  obtain ⟨hb, hfound, hr, ha, hblocked⟩ := h.resolve_left hmove
  by_cases hs : source = []
  · subst hs
    cases keep with
    | true =>
      have hpivot : pivot [] target = [] := rfl
      rw [hpivot] at hr ha
      exact written_of_root ht hr ha hblocked
    | false => exact absurd ⟨rfl, rfl⟩ hmove
  · exact written_of_found hs ht (by simp [hb, hr]) (by simp [hfound, ha]) hblocked

theorem unwritten (h : ¬ Writes keep source target root) (ht : target ≠ [])
    : let x := relocate keep source target root
      x.log = [] ∧ (x.failure = none → x.value = root) := by
  intro x
  have hfail (left : Value) (e : Error) (hx : x = .fail left e)
      : x.log = [] ∧ (x.failure = none → x.value = root) := by
    rw [hx]
    exact ⟨rfl, nofun⟩
  have hstay (hx : x = .stay root) : x.log = [] ∧ (x.failure = none → x.value = root) := by
    rw [hx]
    exact ⟨rfl, fun _ => rfl⟩
  by_cases hs : source = []
  · subst hs
    cases keep with
    | true =>
      obtain ⟨segment, rest, rfl⟩ := List.exists_cons_of_ne_nil ht
      have hx : x = relocateRoot true (segment :: rest) root := rfl
      simp only [relocateRoot, Bool.not_true, Bool.false_eq_true, ↓reduceIte] at hx
      by_cases hr : root.refuses segment = true
      · rw [if_pos hr] at hx
        exact hfail _ _ hx
      · rw [if_neg hr] at hx
        by_cases ha : root.accepts segment = true
        · obtain ⟨log, hplace⟩ := @Value.place_eq root root segment rest
            (String.intercalate "." (segment :: rest)) (by simpa using hr)
          have hblocked : root.blocked (segment :: rest) = true := by
            apply Decidable.of_not_not
            intro hfree
            rw [Bool.not_eq_true] at hfree hr
            refine h (Or.inr ⟨rfl, ?_, hr, ha, hfree⟩)
            rintro rfl
            cases ha
          rw [if_pos ha, Value.placeAt, hplace, if_pos hblocked] at hx
          exact hfail _ _ hx
        · rw [if_neg ha] at hx
          exact hstay hx
    | false => exact absurd (Or.inl ⟨rfl, rfl⟩) h
  · by_cases hr : root.blocked source ∨ root.seek source ≠ .missing ∧
        (root.seek (pivot source target)).refuses (fork source target)
    · exact hfail _ _ (relocate_of_refused keep hs ht hr)
    · by_cases hu : root.seek source = .missing ∨
          (root.seek (pivot source target)).accepts (fork source target) = false
      · exact hstay (relocate_of_unreachable keep hs ht hr hu)
      · obtain ⟨-, log, hx⟩ := relocate_of_found keep hs ht hr hu
        simp only [not_or, not_and, Bool.not_eq_true, Bool.not_eq_false] at hr hu
        have hblocked : (root.remainder keep source).blocked target = true := by
          apply Decidable.of_not_not
          intro hfree
          exact h (Or.inr ⟨hr.1, hu.1, hr.2 hu.1, hu.2, by simpa using hfree⟩)
        rw [if_pos hblocked] at hx
        exact hfail _ _ hx

/--
What makes way for an object is lost to the relocation, or else it is the null that a move has left.
-/
theorem obstacle?_remainder_iff (hs : keep = false → source ≠ [])
    (hfound : root.seek source ≠ .missing) {o : Address}
    : (root.remainder keep source).obstacle? target = some o ↔
        ∃ p next rest, target = p ++ next :: rest ∧ p ≠ [] ∧ o = root.address p ∧
          ((root.EndsAt p next ∧ (keep = false → ¬ root.address source <+: root.address p)) ∨
            keep = false ∧ root.seek p ≠ .missing ∧ root.address p = root.address source ∧
              ∃ a i, root.address source = a ++ [.index i]) := by
  rw [Value.obstacle?_eq_some_iff]
  cases keep with
  | true => simp [Value.remainder, and_comm]
  | false =>
    have hs := hs rfl
    simp only [Value.remainder, Bool.false_eq_true, ↓reduceIte, forall_const, true_and]
    constructor
    · rintro ⟨p, next, rest, htarget, hp, hends, rfl⟩
      exact ⟨p, next, rest, htarget, hp, Value.address_detach hs hfound hends.stands,
        (Value.endsAt_detach_iff hs hfound).mp hends⟩
    · rintro ⟨p, next, rest, htarget, hp, rfl, h⟩
      have hends := (Value.endsAt_detach_iff hs hfound).mpr h
      exact ⟨p, next, rest, htarget, hp, hends, (Value.address_detach hs hfound hends.stands).symm⟩

theorem Value.Reports.of_endsAt {v : Value} {p : List String} {next : String} {rest : List String}
    {log : List Event} (h : v.Reports (p ++ next :: rest) log) (hp : p ≠ [])
    (hends : v.EndsAt p next)
    : ∃ key destination, log = [.overwrote (v.seek p).typeName key destination] := by
  unfold Reports at h
  rw [obstacle?_eq_some_iff.mpr ⟨p, next, rest, rfl, hp, hends, rfl⟩] at h
  dsimp only at h
  rw [look, at?_address hends.stands] at h
  exact h

theorem Discards.endsAt_remainder {result : Value} {p : List String}
    (h : Discards keep source target root result p) (hs : keep = false → source ≠ [])
    (hfound : root.seek source ≠ .missing)
    : ∃ next rest, target = p ++ next :: rest ∧ (root.remainder keep source).EndsAt p next ∧
        ((root.remainder keep source).seek p).typeName = (root.seek p).typeName := by
  obtain ⟨next, rest, htarget, hends⟩ := h.proper
  refine ⟨next, rest, htarget, ?_⟩
  cases keep with
  | true => exact ⟨hends, rfl⟩
  | false =>
    have hs := hs rfl
    have hstays := h.stays rfl
    refine ⟨(Value.endsAt_detach_iff hs hfound).mpr (Or.inl ⟨hends, hstays⟩), ?_⟩
    cases Value.vacated hs hfound p with
    | apart outside address frame kind stands => exact kind
    | place stood a slot ends same address left =>
      rw [same] at hstays
      exact absurd List.prefix_rfl hstays
    | beyond inside below gone => exact absurd inside hstays

theorem Discards.reported {result : Value} {p : List String} {log : List Event}
    (h : Discards keep source target root result p) (hs : keep = false → source ≠ [])
    (hfound : root.seek source ≠ .missing)
    (hreports : (root.remainder keep source).Reports target log)
    : ∃ key destination, log = [.overwrote (root.seek p).typeName key destination] := by
  obtain ⟨next, rest, rfl, hends, hkind⟩ := h.endsAt_remainder hs hfound
  rw [← hkind]
  exact hreports.of_endsAt h.nonempty hends

theorem Reenters.endsAt_remainder (h : Reenters keep source target root) (hs : source ≠ [])
    (hfound : root.seek source ≠ .missing)
    : ∃ p next rest, target = p ++ next :: rest ∧ p ≠ [] ∧ root.address p = root.address source ∧
        (root.remainder keep source).EndsAt p next ∧
        (root.remainder keep source).seek p = .null := by
  obtain ⟨rfl, ⟨a, i, hindex⟩, p, next, rest, htarget, hstood, hsame⟩ := h
  have hleft := Value.seek_detach_of_same hs hfound hstood hsame hindex
  have hends : (root.detach source).EndsAt p next :=
    (Value.endsAt_detach_iff hs hfound).mpr (Or.inr ⟨hstood, hsame, a, i, hindex⟩)
  refine ⟨p, next, rest, htarget, ?_, hsame, hends, hleft⟩
  rintro rfl
  rw [hindex] at hsame
  simp [Value.address] at hsame

theorem Reenters.reported {log : List Event} (h : Reenters keep source target root)
    (hs : source ≠ []) (hfound : root.seek source ≠ .missing)
    (hreports : (root.remainder keep source).Reports target log)
    : ∃ key destination, log = [.overwrote Value.null.typeName key destination] := by
  obtain ⟨p, next, rest, rfl, hp, -, hends, hleft⟩ := h.endsAt_remainder hs hfound
  rw [← hleft]
  exact hreports.of_endsAt hp hends

/--
There is one obstacle on the way, so nothing is lost where the null of a move is in the way.
-/
theorem Reenters.not_discards (h : Reenters keep source target root) (hs : source ≠ [])
    (hfound : root.seek source ≠ .missing) (result : Value) (p : List String)
    : ¬ Discards keep source target root result p := by
  intro hdiscards
  obtain ⟨q, next, rest, htarget, hq, hsame, hends, -⟩ := h.endsAt_remainder hs hfound
  obtain ⟨next', rest', htarget', hends', -⟩ := hdiscards.endsAt_remainder (fun _ => hs) hfound
  have hleft := h.moves
  subst hleft
  have ho := Value.obstacle?_eq_some_iff.mpr ⟨q, next, rest, htarget, hq, hends, rfl⟩
  have ho' := Value.obstacle?_eq_some_iff.mpr
    ⟨p, next', rest', htarget', hdiscards.nonempty, hends', rfl⟩
  have haddress : root.address p = root.address q := by
    rw [← Value.address_detach hs hfound hends.stands,
      ← Value.address_detach hs hfound hends'.stands]
    exact Option.some.inj (ho'.symm.trans ho)
  exact hdiscards.stays rfl ⟨[], by rw [List.append_nil, haddress, hsame]⟩

theorem discards_or_reenters {log : List Event} (hs : keep = false → source ≠ [])
    (hfound : root.seek source ≠ .missing)
    (hadmits : (root.remainder keep source).admits target = true)
    (hreports : (root.remainder keep source).Reports target log) (hlog : log ≠ [])
    : let result := Value.placed (root.seek source) target (root.remainder keep source)
      (∃ p, Discards keep source target root result p) ∨ Reenters keep source target root := by
  intro result
  unfold Value.Reports at hreports
  split at hreports
  · exact absurd hreports hlog
  · next o ho =>
    obtain ⟨p, next, rest, htarget, hp, rfl, h | ⟨hmove, hstood, hsame, helement⟩⟩ :=
      (obstacle?_remainder_iff hs hfound).mp ho
    · exact Or.inl ⟨p, hp, ⟨next, rest, htarget, h.1⟩, h.2, Value.at?_placed_obstacle _ hadmits ho⟩
    · exact Or.inr ⟨hmove, helement, p, next, rest, htarget, hstood, hsame⟩

theorem Value.Reports.single {v : Value} {segments : List String} {log : List Event}
    (h : v.Reports segments log)
    : log.length ≤ 1 ∧ ∀ event ∈ log, event.isWarning = true := by
  unfold Reports at h
  split at h
  · rw [h]
    exact ⟨Nat.zero_le 1, nofun⟩
  · obtain ⟨key, destination, rfl⟩ := h
    refine ⟨Nat.le_refl 1, ?_⟩
    intro event hevent
    rw [List.mem_singleton] at hevent
    rw [hevent]
    rfl

theorem not_discards_of_nil {result : Value} {p : List String}
    : ¬ Discards false [] target root result p := fun h =>
  h.stays rfl List.nil_prefix

theorem not_reenters_of_nil : ¬ Reenters keep [] target root := by
  rintro ⟨-, ⟨a, i, hindex⟩, -⟩
  simp [Value.address] at hindex

end Relocate

/--
A relocation that does not write reports nothing and leaves the value as it is unless it fails. One
that writes reports at most one event, a warning. It reports that an object has taken the place of
what stood in the original at the end of a proper prefix of the target, if the target could not be
followed from there and a move has not carried it away, and else only, if a move takes an element
out of a list and leads on through its place, the null that the move itself has left there.
-/
theorem relocate_reports (keep : Bool) (source target : Path) (root : Value)
    (ht : target.isRoot = false)
    : let s := source.segments
      let t := target.segments
      let x := relocate keep s t root
      x.log.length ≤ 1 ∧ (∀ event ∈ x.log, event.isWarning = true) ∧
        (¬ Writes keep s t root → x.log = [] ∧ (x.failure = none → x.value = root)) ∧
        (Writes keep s t root →
          x.failure = none ∧ x.value.seek t = root.seek s ∧
            (∀ p, Discards keep s t root x.value p → ∃ key destination,
              x.log = [.overwrote (root.seek p).typeName key destination]) ∧
            (Reenters keep s t root → (∀ p, ¬ Discards keep s t root x.value p) ∧
              ∃ key destination, x.log = [.overwrote Value.null.typeName key destination]) ∧
            (x.log ≠ [] → (∃ p, Discards keep s t root x.value p) ∨ Reenters keep s t root)) := by
  intro s t x
  have ht : t ≠ [] := by simpa [Path.isRoot] using ht
  clear_value s t
  have hnone : ∀ event ∈ ([] : List Event), event.isWarning = true := fun _ hevent =>
    absurd hevent List.not_mem_nil
  by_cases hwrites : Writes keep s t root
  · by_cases hmove : s = [] ∧ keep = false
    · obtain ⟨rfl, rfl⟩ := hmove
      obtain ⟨segment, rest, rfl⟩ := List.exists_cons_of_ne_nil ht
      refine ⟨Nat.zero_le 1, hnone, absurd hwrites, fun _ => ⟨rfl, ?_, ?_, ?_, absurd rfl⟩⟩
      · show (root.nest (segment :: rest)).seek (segment :: rest) = root
        rw [Value.nest_eq]
        apply Value.seek_placed
        rfl
      · intro p hdiscards
        exact absurd hdiscards not_discards_of_nil
      · intro hreenters
        exact absurd hreenters not_reenters_of_nil
    · have hfound := (hwrites.resolve_left hmove).2.1
      have hs : keep = false → s ≠ [] := fun hkeep hnil => hmove ⟨hnil, hkeep⟩
      obtain ⟨log, hx, hadmits, hreports⟩ := hwrites.written ht hmove
      have hx : x = _ := hx
      rw [hx]
      refine ⟨hreports.single.1, hreports.single.2, absurd hwrites, fun _ => ⟨rfl, ?_, ?_, ?_, ?_⟩⟩
      · exact Value.seek_placed _ hadmits
      · intro p hdiscards
        exact hdiscards.reported hs hfound hreports
      · intro hreenters
        have hs := hs hreenters.moves
        exact ⟨hreenters.not_discards hs hfound _, hreenters.reported hs hfound hreports⟩
      · exact discards_or_reenters hs hfound hadmits hreports
  · obtain ⟨hlog, hvalue⟩ := unwritten hwrites ht
    have hlog : x.log = [] := hlog
    rw [hlog]
    exact ⟨Nat.zero_le 1, hnone, fun _ => ⟨rfl, hvalue⟩, fun h => absurd h hwrites⟩

example
    : let root : Value := .object [(.str "a", .int 1), (.str "b", .str "text")]
      (relocate false ["a"] ["b", "c"] root).log = [.overwrote "str" "b" "b.c"] := by
  decide +kernel

theorem relocate_reports_element
    : let root : Value := .object [(.str "a", .list [.int 1])]
      let x := relocate false ["a", "0"] ["a", "0", "b"] root
      Path.isRoot ⟨"a.0.b"⟩ = false ∧ Writes false ["a", "0"] ["a", "0", "b"] root ∧
        Reenters false ["a", "0"] ["a", "0", "b"] root ∧ x.failure = none ∧
        x.value.seek ["a", "0", "b"] = .int 1 ∧
        (∀ p, ¬ Discards false ["a", "0"] ["a", "0", "b"] root x.value p) ∧
        ∃ key destination, x.log = [.overwrote "NoneType" key destination] := by
  intro root x
  have ht : Path.isRoot ⟨"a.0.b"⟩ = false := by decide +kernel
  have hsource : Path.segments ⟨"a.0"⟩ = ["a", "0"] := by decide +kernel
  have htarget : Path.segments ⟨"a.0.b"⟩ = ["a", "0", "b"] := by decide +kernel
  have hwrites : Writes false ["a", "0"] ["a", "0", "b"] root := by
    refine Or.inr ⟨?_, ?_, ?_, ?_, ?_⟩ <;> decide +kernel
  have hreenters : Reenters false ["a", "0"] ["a", "0", "b"] root := by
    refine ⟨rfl, ⟨[.key (.str "a")], 0, ?_⟩, ["a", "0"], "b", [], rfl, ?_, rfl⟩ <;> decide +kernel
  have h := relocate_reports false ⟨"a.0"⟩ ⟨"a.0.b"⟩ root ht
  dsimp only at h
  rw [hsource, htarget] at h
  obtain ⟨-, -, -, h⟩ := h
  obtain ⟨hreturns, hreads, -, hleft, -⟩ := h hwrites
  have hfound : root.seek ["a", "0"] = .int 1 := by decide +kernel
  rw [hfound] at hreads
  exact ⟨ht, hwrites, hreenters, hreturns, hreads, hleft hreenters⟩

end Reshape
