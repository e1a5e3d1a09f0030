import Reshape.Proofs.Duality
import Reshape.Proofs.Independence

/-!
This module contains what happens if a field is moved into an object and then back again. The main
statement, `move_then_back`, says that the value is the same as before but for the order of the keys
of the object that the field has come from.
-/

namespace Reshape

/--
No object has two fields with one key, at any depth of a value.
-/
inductive Value.KeysDistinct : Value → Prop where
  | leaf {v : Value} (h : v.isContainer = false) : KeysDistinct v
  | list {items : List Value} (h : ∀ item ∈ items, item.KeysDistinct) : KeysDistinct (.list items)
  | object {fields : List (Key × Value)} (hnodup : (fields.map (·.1)).Nodup)
    (h : ∀ field ∈ fields, field.2.KeysDistinct) : KeysDistinct (.object fields)

theorem Value.KeysDistinct.nodup {fields : List (Key × Value)}
    (h : (Value.object fields).KeysDistinct)
    : (fields.map (·.1)).Nodup := by
  cases h with
  | leaf h => cases h
  | object hnodup _ => exact hnodup

theorem Value.KeysDistinct.of_get? {v w : Value} {slot : Slot} (h : v.KeysDistinct)
    (hget : v.get? slot = some w)
    : w.KeysDistinct := by
  cases h with
  | leaf h =>
    cases v with
    | list _ | object _ => cases h
    | _ => cases slot <;> cases hget
  | list h =>
    cases slot with
    | key k => cases hget
    | index i => exact h w (List.mem_of_getElem? hget)
  | object _ h =>
    cases slot with
    | index i => cases hget
    | key k => exact h (k, w) (Assoc.mem_of_get? hget)

theorem Value.KeysDistinct.seek {v : Value} {segments : List String} (h : v.KeysDistinct)
    (hfound : v.seek segments ≠ .missing)
    : (v.seek segments).KeysDistinct := by
  induction segments generalizing v with
  | nil => exact h
  | cons segment rest ih =>
    have hchild := child_ne_of_seek_ne hfound
    obtain ⟨slot, hslot⟩ := slot?_of_child_ne hchild
    exact ih (h.of_get? (get?_of_child_ne hslot hchild)) hfound

theorem Address.isField_append {b : Address} (h : b ≠ []) (a : Address)
    : isField (a ++ b) = b.isField := by
  obtain ⟨last, hlast⟩ := Option.isSome_iff_exists.mp (List.getLast?_isSome.mpr h)
  unfold isField
  rw [List.getLast?_append, hlast]
  rfl

theorem Assoc.insert_erase_perm {κ α : Type} [DecidableEq κ] {k : κ} {a : α} {entries : Assoc κ α}
    (hnodup : (entries.map (·.1)).Nodup) (h : get? k entries = some a)
    : (insert k a (erase k entries)).Perm entries := by
  have habsent : k ∉ (erase k entries).map (·.1) := by
    rw [← get?_eq_none_iff, get?_erase_self]
  rw [insert_of_not_mem habsent]
  induction entries with
  | nil => cases h
  | cons entry rest ih =>
    rw [List.map_cons, List.nodup_cons] at hnodup
    by_cases hk : entry.1 = k
    · have hrest : get? k rest = none := by
        rw [get?_eq_none_iff, ← hk]
        exact hnodup.1
      rw [get?, if_pos hk, Option.some.injEq] at h
      have herase : erase k (entry :: rest) = rest := by
        rw [← erase_of_get?_eq_none hrest]
        simp [erase, hk]
      rw [herase, ← h, ← hk]
      exact List.perm_append_singleton entry rest
    · rw [get?, if_neg hk] at h
      have herase : erase k (entry :: rest) = entry :: erase k rest := by
        simp [erase, hk]
      rw [herase] at habsent ⊢
      rw [List.map_cons, List.mem_cons, not_or] at habsent
      exact (ih hnodup.2 h habsent.2).cons entry

namespace Value

section Through

variable {v w : Value} {p : List String} {k : String} {slot : Slot}

/--
Nothing has to make way for what is put into a container that the segments before the last one lead
to.
-/
theorem placeAt_of_leads (h : v.leads p w) (hr : w.refuses k = false) (ha : w.accepts k = true)
    (new : Value)
    : v.placeAt (p ++ [k]) new = .ok (v.replace (w.assign k new) p, []) := by
  rw [placeAt, place_append h new _ hr ha]
  rfl

theorem detach_of_leads (h : v.leads p w) (hslot : w.slot? k = some slot)
    : v.detach (p ++ [k]) = v.replace (w.clear slot) p := by
  rw [detach_append (List.cons_ne_nil k []), seek_of_leads h, detach_singleton hslot]

/--
What has been put into a container where nothing was is given up without a trace.
-/
theorem detach_placed (h : v.leads p w) (hslot : w.slot? k = some slot) (hnone : w.get? slot = none)
    (new : Value)
    : (v.replace (w.assign k new) p).detach (p ++ [k]) = v := by
  have hframe : (w.assign k new).frame = w.frame := frame_assign new
  have hleads := leads_replace h hframe
  rw [detach_of_leads hleads ((slot?_congr hframe k).trans hslot), replace_replace h,
    assign_of_slot? hslot, clear_put, clear_of_get?_eq_none hnone, replace_self h]

/--
What is put back where it has been given up.
-/
theorem placeAt_detach (h : v.leads p w) (hr : w.refuses k = false) (hslot : w.slot? k = some slot)
    (new : Value)
    : (v.detach (p ++ [k])).placeAt (p ++ [k]) new =
        .ok (v.replace ((w.clear slot).put slot new) p, []) := by
  have hframe : (w.clear slot).frame = w.frame := frame_clear
  have hslot' := (slot?_congr hframe k).trans hslot
  have haccepts : (w.clear slot).accepts k = true := by
    rw [accepts, hslot']
    rfl
  rw [detach_of_leads h hslot, placeAt_of_leads (leads_replace h hframe) _ haccepts,
    replace_replace h, assign_of_slot? hslot']
  rw [refuses_congr hframe, hr]

end Through

section Reordered

variable {v a b : Value} {slot : Slot}

theorem Reordered.replace (h : a.Reordered b) (v : Value) (p : List String)
    : (v.replace a p).Reordered (v.replace b p) := by
  induction p generalizing v with
  | nil => exact h
  | cons segment p ih =>
    rw [Value.replace, Value.replace]
    unfold assign
    split
    · exact .place v _ (ih _)
    · exact .refl v

/--
A field that is made again where it has been given up comes last, and an element keeps its position.
-/
theorem put_clear_reordered (hget : v.get? slot = some a)
    (hkeys : ∀ fields, v = .object fields → (fields.map (·.1)).Nodup)
    : ((v.clear slot).put slot a).Reordered v ∧
        (∀ i, slot = .index i → (v.clear slot).put slot a = v) := by
  have hindex (i : Nat) (hslot : slot = .index i) : (v.clear slot).put slot a = v := by
    have hnull : v.clear slot = v.put slot .null := by
      rw [hslot]
      cases v <;> rfl
    rw [hnull, put_put, put_of_get? hget]
  refine ⟨?_, hindex⟩
  cases slot with
  | index i => exact Reordered.of_eq (hindex i rfl)
  | key k =>
    cases v with
    | object fields => exact .fields (Assoc.insert_erase_perm (hkeys fields rfl) hget)
    | _ => cases hget

end Reordered

section Apart

variable {v : Value} {a b : String}

/--
Two places that part are given up in any order.
-/
theorem detach_comm (hab : a ≠ b) (hi : ¬ SameIndex a b) (ha : v.child a ≠ .missing)
    (hb : v.child b ≠ .missing) (s t : List String)
    : (v.detach (a :: s)).detach (b :: t) = (v.detach (b :: t)).detach (a :: s) := by
  have hi' : ¬ SameIndex b a := fun ⟨i, hb, ha⟩ => hi ⟨i, ha, hb⟩
  -- Below a place that stays the rest is given up within what is assigned to the place.
  have inner {a b : String} (hab : a ≠ b) (hi : ¬ SameIndex a b) (ha : v.child a ≠ .missing)
      (s : List String) (next : String) (t : List String)
      : (v.detach (a :: s)).detach (b :: next :: t) = (v.detach (b :: next :: t)).detach (a :: s) := by
    have hdetach (u : Value)
        : u.detach (b :: next :: t) = u.assign b ((u.child b).detach (next :: t)) := rfl
    rw [hdetach, hdetach, child_detach_of_apart hab hi ha, detach_assign hab hi ha]
  cases t with
  | cons next t => exact inner hab hi ha s next t
  | nil =>
    cases s with
    | cons next s => exact (inner hab.symm hi' hb [] next s).symm
    | nil =>
      obtain ⟨slot, hslot⟩ := slot?_of_child_ne ha
      obtain ⟨other, hother⟩ := slot?_of_child_ne hb
      rw [detach_singleton hslot, detach_singleton hother, detach_singleton, detach_singleton,
        clear_comm]
      · rw [slot?_congr frame_clear, hslot]
      · rw [slot?_congr frame_clear, hother]

end Apart

end Value

namespace Value

section Exchange

variable {v content : Value} {fields : List (Key × Value)} {q s t : List String} {a b k : String}

/--
What leads to a container below a place leads past the place itself first.
-/
theorem passes_of_leads (h : v.leads q (.object fields)) (hcons : q ++ [k] = b :: t)
    : v.refuses b = false ∧ v.accepts b = true := by
  obtain ⟨next, tail, hnext, hr, ha⟩ := @head_of_leads _ _ _ h k rfl rfl []
  rw [hcons, List.cons.injEq] at hnext
  rw [hnext.1]
  exact ⟨hr, ha⟩

/--
A value with a new field in one of its objects.
-/
def withField (v : Value) (q : List String) (fields : List (Key × Value)) (k : String)
    (content : Value) : Value :=
  v.replace (.object (Assoc.insert (.str k) content fields)) q

theorem withField_eq_placed (h : v.leads q (.object fields)) (hcons : q ++ [k] = b :: t)
    : v.withField q fields k content = placed content (b :: t) v := by
  rw [← hcons, placed_append h]
  · rfl
  · rfl

theorem frame_withField (h : v.leads q (.object fields))
    : (v.withField q fields k content).frame = v.frame :=
  frame_replace h rfl

theorem child_withField (h : v.leads q (.object fields)) (hcons : q ++ [k] = b :: t)
    (hab : a ≠ b) (hi : ¬ SameIndex a b)
    : (v.withField q fields k content).child a = v.child a := by
  rw [withField_eq_placed h hcons, placed]
  exact child_assign_of_apart hab hi _

theorem seek_withField (h : v.leads q (.object fields)) (hcons : q ++ [k] = b :: t)
    : (v.withField q fields k content).seek (b :: t) = content := by
  rw [withField_eq_placed h hcons]
  exact seek_placed content (passes_of_leads h hcons).2

theorem blocked_withField (h : v.leads q (.object fields)) (hcons : q ++ [k] = b :: t)
    : (v.withField q fields k content).blocked (b :: t) = false := by
  have hleads : (v.withField q fields k content).leads q _ := leads_replace h rfl
  rw [← hcons, blocked_append, blocked_of_leads hleads, seek_of_leads hleads]
  rfl

/--
A field that comes from elsewhere in the value: it has been placed, and it is still there when its
source has been given up, where it can be given up in turn.
-/
theorem detach_withField (h : v.leads q (.object fields)) (hcons : q ++ [k] = b :: t) (hab : a ≠ b)
    (hi : ¬ SameIndex a b) (hc : v.child a ≠ .missing)
    (hnew : Assoc.get? (.str k) fields = none) (hcontent : content ≠ .missing)
    : let moved := (v.withField q fields k content).detach (a :: s)
      (v.detach (a :: s)).placeAt (b :: t) content = .ok (moved, []) ∧
        moved.frame = v.frame ∧ moved.seek (b :: t) = content ∧ moved.blocked (b :: t) = false ∧
        moved.detach (b :: t) = v.detach (a :: s) := by
  intro moved
  have hchild : (v.withField q fields k content).child a ≠ .missing := by
    rw [child_withField h hcons hab hi]
    exact hc
  have hseek : (v.withField q fields k content).seek (b :: t) = content := seek_withField h hcons
  have hblocked : (v.withField q fields k content).blocked (b :: t) = false :=
    blocked_withField h hcons
  have hframe : moved.frame = (v.withField q fields k content).frame :=
    frame_detach (List.cons_ne_nil a s) _
  have hsame : moved.child b = (v.withField q fields k content).child b :=
    child_detach_of_apart hab hi hchild s
  refine ⟨?_, hframe.trans (frame_withField h), ?_, ?_, ?_⟩
  · have hplace := @placeAt_of_leads _ _ _ k h rfl rfl content
    rw [hcons] at hplace
    rw [placeAt] at hplace ⊢
    rw [place_detach hab hi hc, hplace]
    rfl
  · rw [seek, hsame]
    exact hseek
  · rw [blocked, hsame, refuses_congr hframe]
    exact hblocked
  · rw [← hseek] at hcontent
    have hplaced := child_ne_of_seek_ne hcontent
    have hremoved : (v.withField q fields k content).detach (b :: t) = v := by
      rw [← hcons]
      exact @detach_placed _ _ _ k _ h rfl hnew content
    rw [detach_comm hab hi hchild hplaced, hremoved]

end Exchange

end Value

section Back

variable {root : Value} {p q s t : List String} {a b k : String} {fields : List (Key × Value)}

/--
A move into an object where nothing was, and the move back.
-/
theorem relocate_back (hab : a ≠ b) (hi : ¬ SameIndex a b) (hb : root.blocked (p ++ a :: s) = false)
    (hfound : root.seek (p ++ a :: s) ≠ .missing)
    (hparent : (root.seek p).leads q (.object fields)) (hcons : q ++ [k] = b :: t)
    (hnew : Assoc.get? (.str k) fields = none)
    : ∃ moved, root.leads p (root.seek p) ∧
        (relocate false (p ++ a :: s) (p ++ b :: t) root).outcome = Outcome.ok moved ∧
        relocate false (p ++ b :: t) (p ++ a :: s) moved =
          .ofPlaced (root.replace ((root.seek p).detach (a :: s)) p) (root.replace · p)
            (((root.seek p).detach (a :: s)).placeAt (a :: s) (root.seek (p ++ a :: s))) := by
  obtain ⟨hr, ha⟩ := Value.passes_of_leads hparent hcons
  obtain ⟨hleads, hmove⟩ := relocate_of_parted (t := t) false hab hb hfound hr ha
  have hchild : (root.seek p).child a ≠ .missing := by
    rw [Value.seek_append] at hfound
    exact Value.child_ne_of_seek_ne hfound
  rw [Value.blocked_append, Bool.or_eq_false_iff, Value.blocked, Bool.or_eq_false_iff] at hb
  obtain ⟨hplace, hframe, hseek, hblocked, hdetach⟩ :=
    Value.detach_withField (s := s) hparent hcons hab hi hchild hnew hfound
  generalize root.seek (p ++ a :: s) = content at *
  generalize ((root.seek p).withField q fields k content).detach (a :: s) = start at *
  have hmoved : (root.replace start p).leads p start := Value.leads_replace hleads hframe
  have hstart := Value.seek_of_leads hmoved
  have hfrom : (root.replace start p).seek (p ++ b :: t) = content := by
    rw [Value.seek_append, hstart, hseek]
  have hback := @relocate_of_parted (root.replace start p) p t s b a false hab.symm
    (by rw [Value.blocked_append, Value.blocked_of_leads hmoved, hstart, hblocked]; rfl)
    (by rw [hfrom]; exact hfound)
    (by rw [hstart, Value.refuses_congr hframe]; exact hb.2.1)
    (by rw [hstart, Value.accepts_congr hframe]; exact Value.accepts_of_child_ne hchild)
  obtain ⟨-, hback⟩ := hback
  refine ⟨root.replace start p, hleads, ?_, ?_⟩
  · rw [hmove, if_neg Bool.false_ne_true, hplace]
    rfl
  · rw [hback, hstart, if_neg Bool.false_ne_true, hdetach, hfrom]
    simp only [Value.replace_replace hleads]

/--
A field that is given up and put back, told from the container that it stands in.
-/
theorem placeAt_back {v : Value} {segments : List String} (hne : segments ≠ [])
    (hb : v.blocked segments = false) (hfound : v.seek segments ≠ .missing)
    (hkeys : v.KeysDistinct)
    : ∃ back, (v.detach segments).placeAt segments (v.seek segments) = .ok (back, []) ∧
        back.Reordered v ∧ ((v.address segments).isField = false → back = v) := by
  rcases List.eq_nil_or_concat segments with rfl | ⟨q, k, rfl⟩
  · exact absurd rfl hne
  · rw [List.concat_eq_append] at *
    obtain ⟨hleads, hr, hchild⟩ := Value.parent_of_found hb hfound
    rw [← hchild] at hfound ⊢
    obtain ⟨slot, hslot⟩ := Value.slot?_of_child_ne hfound
    have hdistinct (fields : List (Key × Value)) (hw : v.seek q = .object fields)
        : (fields.map (·.1)).Nodup := by
      apply Value.KeysDistinct.nodup
      rw [← hw]
      apply hkeys.seek
      rw [hw]
      exact Value.ne_missing_of_isContainer rfl
    obtain ⟨hreordered, hsame⟩ :=
      Value.put_clear_reordered (Value.get?_of_child_ne hslot hfound) hdistinct
    have hself := Value.replace_self hleads
    refine ⟨_, Value.placeAt_detach hleads hr hslot _, ?_, ?_⟩
    · have hreplaced := hreordered.replace v q
      rw [hself] at hreplaced
      exact hreplaced
    · intro hfield
      have haddress : v.address (q ++ [k]) = v.address q ++ [slot] := by
        rw [Value.address_append hleads, Value.address, hslot]
        rfl
      rw [haddress, Address.isField, List.getLast?_concat] at hfield
      cases slot with
      | key name => cases hfield
      | index i => rw [hsame i rfl, hself]

/--
The two moves, told from the segments where the paths part.
-/
theorem relocate_round_trip (hab : a ≠ b) (hi : ¬ SameIndex a b)
    (hb : root.blocked (p ++ a :: s) = false) (hfound : root.seek (p ++ a :: s) ≠ .missing)
    (hparent : (root.seek p).leads q (.object fields)) (hcons : q ++ [k] = b :: t)
    (hnew : Assoc.get? (.str k) fields = none) (hkeys : root.KeysDistinct)
    : ∃ moved back,
        (relocate false (p ++ a :: s) (p ++ b :: t) root).outcome = Outcome.ok moved ∧
        (relocate false (p ++ b :: t) (p ++ a :: s) moved).outcome = Outcome.ok back ∧
        back.Reordered root ∧ ((root.address (p ++ a :: s)).isField = false → back = root) := by
  obtain ⟨moved, hleads, hmove, hback⟩ := relocate_back hab hi hb hfound hparent hcons hnew
  have hbelow : root.seek (p ++ a :: s) = (root.seek p).seek (a :: s) := Value.seek_append root p _
  have hself := Value.replace_self hleads
  rw [Value.blocked_append, Bool.or_eq_false_iff] at hb
  rw [hbelow] at hback hfound
  have hcontainer : root.seek p ≠ .missing := by
    intro hmissing
    rw [hmissing, Value.seek_missing] at hfound
    exact hfound rfl
  obtain ⟨inner, hplace, hreordered, hsame⟩ :=
    placeAt_back (List.cons_ne_nil a s) hb.2 hfound (hkeys.seek hcontainer)
  refine ⟨moved, root.replace inner p, hmove, ?_, ?_, ?_⟩
  · rw [hback, hplace]
    rfl
  · have hreplaced := hreordered.replace root p
    rw [hself] at hreplaced
    exact hreplaced
  · intro hfield
    have hne := Value.address_ne_nil
      (Value.accepts_of_child_ne (Value.child_ne_of_seek_ne hfound)) s
    rw [Value.address_append hleads, Address.isField_append hne] at hfield
    rw [hsame hfield, hself]

end Back

/--
Moving a field into an object that does not have the key, where the paths part at different places, and
moving it back restores a value but for the order of the keys of one object. That order stays too if
the field is an element of a list.
-/
theorem move_then_back {root found sourceEnd targetEnd : Value} {source target : Path}
    {parent : List String} {k : String} {fields : List (Key × Value)}
    (hsource : Path.ofValue sourceEnd = .ok source) (htarget : Path.ofValue targetEnd = .ok target)
    (hs : source.hasWildcard = false) (ht : target.hasWildcard = false)
    (hd : Diverge source.segments target.segments) (hread : root.read source.segments = .ok found)
    (hfound : found ≠ .missing) (hto : target.segments = parent ++ [k])
    (hparent : root.leads parent (.object fields)) (hnew : Assoc.get? (.str k) fields = none)
    (hkeys : root.KeysDistinct)
    : ∃ back,
        (do
          let moved ← Direct.relocateTo false root sourceEnd targetEnd
          Direct.relocateTo false moved targetEnd sourceEnd) = Outcome.ok back ∧
        back.Reordered root ∧ ((root.address source.segments).isField = false → back = root) := by
  rw [Value.read_eq] at hread
  split at hread
  · cases hread
  · next hb =>
    cases hread
    rw [Bool.not_eq_true] at hb
    rw [Direct.relocateTo_of_path false root hsource htarget hs ht]
    simp only [Direct.relocateTo_of_path false _ htarget hsource ht hs]
    obtain ⟨p, a, b, s, t, hfrom, hto', hab, hi⟩ := hd
    rw [hfrom] at hb hfound ⊢
    rw [hto'] at hto ⊢
    -- The object of the last segment lies below where the paths part, or is it.
    obtain ⟨q, k', hcons⟩ : ∃ q k', b :: t = q ++ [k'] := by
      rcases List.eq_nil_or_concat (b :: t) with h | ⟨q, k', h⟩
      · cases h
      · exact ⟨q, k', by rw [h, List.concat_eq_append]⟩
    rw [hcons, ← List.append_assoc] at hto
    obtain ⟨rfl, hk⟩ := List.append_inj' hto rfl
    cases hk
    obtain ⟨start, hstart, hparent⟩ := Value.leads_append.mp hparent
    rw [← Value.seek_of_leads hstart] at hparent
    obtain ⟨moved, back, hmove, hback, hreordered, hsame⟩ :=
      relocate_round_trip hab hi hb hfound hparent hcons.symm hnew hkeys
    refine ⟨back, ?_, hreordered, hsame⟩
    rw [hmove, Outcome.bind_eq, Outcome.bind_ok, hback]

theorem move_then_back_field
    : let fields : List (Key × Value) := [(.str "y", .int 3)]
      let root : Value := .object
        [(.str "a", .object [(.str "x", .int 1), (.str "z", .int 2)]), (.str "b", .object fields)]
      Diverge (Path.segments ⟨"a.x"⟩) (Path.segments ⟨"b.x"⟩) ∧
        root.read (Path.segments ⟨"a.x"⟩) = .ok (.int 1) ∧
        Path.segments ⟨"b.x"⟩ = ["b"] ++ ["x"] ∧ root.leads ["b"] (.object fields) ∧
        Assoc.get? (.str "x") fields = none ∧ root.KeysDistinct ∧
        ∃ back,
          (do
            let moved ← Direct.relocateTo false root (.str "a.x") (.str "b.x")
            Direct.relocateTo false moved (.str "b.x") (.str "a.x")) = Outcome.ok back ∧
          back.Reordered root := by
  intro fields root
  have hsource : Path.segments ⟨"a.x"⟩ = ["a", "x"] := by decide +kernel
  have htarget : Path.segments ⟨"b.x"⟩ = ["b", "x"] := by decide +kernel
  have hd : Diverge (Path.segments ⟨"a.x"⟩) (Path.segments ⟨"b.x"⟩) := by
    rw [hsource, htarget]
    refine ⟨[], "a", "b", ["x"], ["x"], rfl, rfl, by decide, ?_⟩
    rintro ⟨i, hi, -⟩
    cases hi
  have hread : root.read (Path.segments ⟨"a.x"⟩) = .ok (.int 1) := by
    rw [hsource]
    rfl
  have hkeys : root.KeysDistinct := by
    apply Value.KeysDistinct.object (by decide)
    have hleaf (n : Int) : (Value.int n).KeysDistinct := .leaf rfl
    simp only [List.forall_mem_cons, List.not_mem_nil, false_imp_iff, implies_true, and_true]
    constructor
    · apply Value.KeysDistinct.object (by decide)
      simp [hleaf]
    · apply Value.KeysDistinct.object (by decide)
      simp [fields, hleaf]
  obtain ⟨back, hback, hreordered, -⟩ := @move_then_back root (.int 1) (.str "a.x") (.str "b.x")
    ⟨"a.x"⟩ ⟨"b.x"⟩ ["b"] "x" fields rfl rfl (by decide +kernel) (by decide +kernel) hd hread
    (by simp) htarget rfl rfl hkeys
  exact ⟨hd, hread, htarget, rfl, rfl, hkeys, back, hback, hreordered⟩

end Reshape
