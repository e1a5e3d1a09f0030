import Reshape.Direct
import Reshape.Proofs.Fusion
import Reshape.Proofs.Lookup
import Reshape.Proofs.Walk

/-!
This module contains the substitution of fields through a table. The main statement,
`Direct.mapAt_substitutes`, says what becomes of the fields that a path resolves to, and which
changes of the table make no difference. Walks may fail on the contents that they meet, so they are
compared with walks that cannot.
-/

namespace Reshape

section Walk

variable {fails : Value → Bool} {f : Value → Value}

/--
The visit that fails on some contents and replaces the others by a function.
-/
def replacing (fails : Value → Bool) (f : Value → Value) (v : Value) : Except Error Value :=
  if fails v then .error .tooManyDigits else .ok (f v)

/--
A computation fails as soon as another one notes a content that fails, and else ends as that one.
-/
def Judged (fails : Value → Bool) (α : Type) (x : Except Error α) (y : Recording α) : Prop :=
  ∃ (calls : List (Address × Value)) (result : Except Error α),
    (∀ log, y.run.run log = (result, log ++ calls)) ∧
      x = if calls.any fun call => fails call.2 then .error .tooManyDigits else result

theorem Judged.of_result (fails : Value → Bool) {α : Type} {y : Recording α}
    {result : Except Error α} (h : ∀ log, y.run.run log = (result, log))
    : Judged fails α result y := by
  refine ⟨[], result, ?_, rfl⟩
  intro log
  rw [h, List.append_nil]

theorem judged_simulation (fails : Value → Bool) : Simulation (Judged fails) where
  pure a := .of_result fails fun log => rfl
  bind := by
    rintro α β _ y g k ⟨calls, result, hrun, rfl⟩ hk
    cases result with
    | error e =>
      have hbind (log : List (Address × Value))
          : (y >>= k).run.run log = (.error e, log ++ calls) := by
        rw [run_bind, hrun]
      refine ⟨calls, .error e, hbind, ?_⟩
      split
      · rfl
      · rfl
    | ok a =>
      obtain ⟨calls', result', hrun', hk⟩ := hk a
      have hbind (log : List (Address × Value))
          : (y >>= k).run.run log = (result', log ++ (calls ++ calls')) := by
        rw [run_bind, hrun, ← List.append_assoc]
        exact hrun' (log ++ calls)
      refine ⟨calls ++ calls', result', hbind, ?_⟩
      rw [List.any_append]
      cases calls.any fun call => fails call.2 with
      | true => rfl
      | false => exact hk
  refusal := .of_result fails fun log => rfl

theorem judged_recording (fails : Value → Bool) (f : Value → Value) (a : Address) (v : Value)
    : Judged fails Value (replacing fails f v) (recording f a v) := by
  refine ⟨[(a, v)], .ok (f v), fun log => rfl, ?_⟩
  rw [List.any_cons, List.any_nil, Bool.or_false]
  rfl

/--
A walk fails on the contents that its visits fail on, and on lists that cannot look up a segment.
-/
theorem walk_replacing (fails : Value → Bool) (f : Value → Value) (segments : List String)
    (v : Value)
    : walk (fun _ => replacing fails f) segments v =
        if balks segments v || (resolved segments v).any fun a => fails (v.look a) then
          .error .tooManyDigits
        else
          .ok (edited f segments v) := by
  obtain ⟨calls, result, hrun, hwalk⟩ :=
    (judged_simulation fails).walk segments (judged_recording fails f) v
  have hperforms := @walk_performs _ f id (Performs.recording f) segments v []
  rw [hrun] at hperforms
  rw [hwalk]
  cases hb : balks segments v with
  | true =>
    rw [hb, if_pos rfl] at hperforms
    obtain ⟨seen, -, hseen⟩ := hperforms
    rw [(Prod.mk.inj hseen).1]
    split
    · rfl
    · rfl
  | false =>
    rw [hb, if_neg Bool.false_ne_true, Prod.mk.injEq, List.nil_append,
      List.nil_append] at hperforms
    rw [hperforms.1, hperforms.2, List.any_map, Bool.false_or]
    rfl

theorem applyAt_replacing (fails : Value → Bool) (f : Value → Value) (path : Path) (root : Value)
    : applyAt path (fun _ => replacing fails f) root =
        if balks path.segments root ||
            (resolved path.segments root).any fun a => fails (root.look a) then
          .error .tooManyDigits
        else
          .ok (if path.isRoot then (f root).orNull else edited f path.segments root) := by
  cases hroot : path.isRoot with
  | true =>
    have hsegments : path.segments = [] := List.isEmpty_iff.mp hroot
    have hresolved : ((resolved [] root).any fun a => fails (root.look a)) = fails root :=
      Bool.or_false _
    unfold applyAt replacing
    rw [hsegments, hresolved]
    dsimp only
    cases fails root with
    | false => rfl
    | true => rfl
  | false =>
    rw [applyAt_of_ne_root hroot, walk_replacing]
    rfl

end Walk

namespace Table

variable {table : Table}

/--
What a substitution makes of a content.
-/
def image (table : Table) : Value → Value
  | .missing => .missing
  | v => (table.find? v.text).getD v

theorem image_of_ne {v : Value} (h : v ≠ .missing)
    : table.image v = (table.find? v.text).getD v := by
  cases v with
  | missing => exact absurd rfl h
  | _ => rfl

theorem image_congr {table' : Table} (h : ∀ text, Assoc.get? text table = Assoc.get? text table')
    : table.image = table'.image := by
  funext v
  by_cases hv : v = .missing
  · rw [hv]
    rfl
  · rw [image_of_ne hv, image_of_ne hv, find?, find?, h, h]

theorem substitute_eq (table : Table) (v : Value)
    : table.substitute v =
        if v.isWritable then .ok ((table.find? v.text).getD v) else .error .tooManyDigits := by
  unfold substitute Value.toText
  split
  · rfl
  · rfl

theorem apply_substitute (table : Table) (v : Value)
    : (Edit.substitute table).apply v = replacing (fun v => !v.isWritable) table.image v := by
  by_cases hv : v = .missing
  · rw [hv]
    rfl
  · have happly : (Edit.substitute table).apply v = table.substitute v := by
      cases v with
      | missing => exact absurd rfl hv
      | _ => rfl
    rw [happly, substitute_eq, replacing, image_of_ne hv]
    cases v.isWritable with
    | false => rfl
    | true => rfl

theorem applyAt_substitute (table : Table) (path : Path) (root : Value)
    : (Edit.substitute table).applyAt path root =
        if balks path.segments root ||
            (resolved path.segments root).any fun a => !(root.look a).isWritable then
          .fail .tooManyDigits
        else
          .ok (if path.isRoot then (table.image root).orNull
            else edited table.image path.segments root) := by
  have hwalk : (Edit.substitute table).applyAt path root =
      Outcome.ofExcept
        (applyAt path (fun _ => replacing (fun v => !v.isWritable) table.image) root) := by
    apply ofExcept_simulation.applyAt
    intro a v
    rw [apply_substitute]
  rw [hwalk, applyAt_replacing]
  split
  · rfl
  · rfl

end Table

namespace Direct

variable {path : Value} {parsed : Path} {fields fields' : List (Key × Value)}

theorem mapAt_object (hpath : Path.ofValue path = .ok parsed) (root : Value)
    (fields : List (Key × Value))
    : mapAt root path (.object fields) =
        if fields.all fun field => field.1.toValue.isWritable then
          (Edit.substitute (Assoc.ofList (fields.map Table.entry))).applyAt parsed root
        else
          .fail .tooManyDigits := by
  unfold mapAt editAt
  rw [hpath, Table.ofValue_object]
  split
  · rfl
  · rfl

theorem any_not_writable (fields : List (Key × Value))
    : (fields.any fun field => !field.1.toValue.isWritable) =
        !fields.all fun field => field.1.toValue.isWritable :=
  List.not_all_eq_any_not.symm

theorem mapAt_eq (hpath : Path.ofValue path = .ok parsed) (root : Value)
    (fields : List (Key × Value))
    : let table := Assoc.ofList (fields.map Table.entry)
      mapAt root path (.object fields) =
        if balks parsed.segments root || fields.any (fun field => !field.1.toValue.isWritable) ||
            (resolved parsed.segments root).any fun a => !(root.look a).isWritable then
          .fail .tooManyDigits
        else
          .ok (if parsed.isRoot then (Table.image table root).orNull
            else edited (Table.image table) parsed.segments root) := by
  intro table
  rw [mapAt_object hpath, Table.applyAt_substitute, any_not_writable]
  cases fields.all fun field => field.1.toValue.isWritable with
  | false =>
    rw [Bool.not_false, Bool.or_true, Bool.true_or]
    rfl
  | true =>
    rw [Bool.not_true, Bool.or_false]
    rfl

/--
A substitution depends on what its table leads to alone.
-/
theorem mapAt_congr (hpath : Path.ofValue path = .ok parsed) (root : Value)
    (hwritable : (fields.all fun field => field.1.toValue.isWritable) =
      fields'.all fun field => field.1.toValue.isWritable)
    (hget : (∀ field ∈ fields, field.1.toValue.isWritable = true) → ∀ text,
      Assoc.get? text (Assoc.ofList (fields.map Table.entry)) =
        Assoc.get? text (Assoc.ofList (fields'.map Table.entry)))
    : mapAt root path (.object fields) = mapAt root path (.object fields') := by
  rw [mapAt_object hpath, mapAt_object hpath, ← hwritable]
  split
  · next hall =>
    rw [Table.applyAt_substitute, Table.applyAt_substitute,
      Table.image_congr (hget (List.all_eq_true.mp hall))]
  · rfl

theorem pairwise_entries (hwritable : ∀ field ∈ fields, field.1.toValue.isWritable = true)
    (h : fields.Pairwise fun x y => x.1.toValue.toText ≠ y.1.toValue.toText)
    : (fields.map Table.entry).Pairwise fun x y => x.1 ≠ y.1 := by
  rw [List.pairwise_map]
  refine h.imp_of_mem ?_
  intro x y hx hy hne heq
  exact hne ((Value.toText_eq_iff (hwritable x hx) (hwritable y hy)).mpr heq)

theorem mapAt_perm (hpath : Path.ofValue path = .ok parsed) (root : Value)
    (hperm : fields.Perm fields')
    (h : fields.Pairwise fun x y => x.1.toValue.toText ≠ y.1.toValue.toText)
    : mapAt root path (.object fields) = mapAt root path (.object fields') := by
  apply mapAt_congr hpath root hperm.all_eq
  intro hwritable
  exact Assoc.get?_ofList_perm (hperm.map Table.entry) (pairwise_entries hwritable h)

theorem mapAt_swap (hpath : Path.ofValue path = .ok parsed) (root : Value)
    (front back : List (Key × Value)) {x y : Key × Value}
    (h : x.1.toValue.toText ≠ y.1.toValue.toText)
    : mapAt root path (.object (front ++ x :: y :: back)) =
        mapAt root path (.object (front ++ y :: x :: back)) := by
  have hperm : (front ++ x :: y :: back).Perm (front ++ y :: x :: back) :=
    (List.Perm.swap y x back).append_left front
  apply mapAt_congr hpath root hperm.all_eq
  intro hwritable text
  have hne : (Table.entry x).1 ≠ (Table.entry y).1 := by
    intro heq
    exact h ((Value.toText_eq_iff (hwritable x (by simp)) (hwritable y (by simp))).mpr heq)
  simp only [List.map_append, List.map_cons]
  rw [Assoc.get?_ofList_append, Assoc.get?_ofList_swap hne, ← Assoc.get?_ofList_append]

theorem mapAt_casts (hpath : Path.ofValue path = .ok parsed) (root : Value)
    {casts : List (Key × Value)}
    (h : (fields.mapM fun field => do pure (Key.str (← field.1.toValue.toText), field.2)) =
      .ok casts)
    : mapAt root path (.object (Assoc.ofList casts)) = mapAt root path (.object fields) := by
  rw [Table.mapM_toText fun text v => (Key.str text, v)] at h
  split at h
  · next hwritable =>
    obtain rfl := Except.ok.inj h
    have hcasts : (fields.map fun field => (Key.str field.1.toValue.text, field.2)) =
        (fields.map Table.entry).map (Prod.map Key.str id) := by
      rw [List.map_map]
      rfl
    have hentries (entries : Table)
        : (entries.map (Prod.map Key.str id)).map Table.entry = entries := by
      rw [List.map_map]
      exact List.map_id entries
    rw [hcasts, Assoc.ofList_map fun s t => Key.str.inj]
    apply mapAt_congr hpath root
    · rw [hwritable, List.all_map]
      exact List.all_eq_true.mpr fun _ _ => rfl
    · intro _ text
      rw [hentries]
      exact Assoc.get?_ofList_of_pairwise (Assoc.pairwise_ofList _) text
  · cases h

/--
Substituting through a table replaces the fields that a path resolves to, where there are any, by
what the table says of them. It fails only if an integer that is to be written, as a key or in a
field, or a segment that is to be looked up in a list, has too many digits. What comes of it does
not depend on the order of entries whose keys have different string casts, nor on the types of the
keys.
-/
theorem mapAt_substitutes (hpath : Path.ofValue path = .ok parsed) (root : Value)
    (fields : List (Key × Value))
    : let addresses := resolved parsed.segments root
      (if balks parsed.segments root || fields.any (fun field => !field.1.toValue.isWritable) ||
          addresses.any fun a => !(root.look a).isWritable then
        mapAt root path (.object fields) = .fail .tooManyDigits
      else
        ∃ (f : Value → Value) (new : Value), mapAt root path (.object fields) = .ok new ∧
          f .missing = .missing ∧
          (∀ v, v ≠ .missing → v.isWritable = true → Substitutes fields v (f v)) ∧
          if parsed.isRoot then new = (f root).orNull else Applied f addresses root new) ∧
      (∀ fields', fields.Perm fields' →
        (fields.Pairwise fun x y => x.1.toValue.toText ≠ y.1.toValue.toText) →
          mapAt root path (.object fields) = mapAt root path (.object fields')) ∧
      (∀ front back x y, fields = front ++ x :: y :: back →
        x.1.toValue.toText ≠ y.1.toValue.toText →
          mapAt root path (.object fields) =
            mapAt root path (.object (front ++ y :: x :: back))) ∧
      ∀ casts,
        (fields.mapM fun field => do pure (Key.str (← field.1.toValue.toText), field.2)) =
            .ok casts →
          mapAt root path (.object (Assoc.ofList casts)) = mapAt root path (.object fields) := by
  intro addresses
  refine ⟨?_, ?_, ?_, ?_⟩
  · have hmap := mapAt_eq hpath root fields
    dsimp only at hmap
    split
    · next hfails => rw [hmap, if_pos hfails]
    · next hfails =>
      rw [if_neg hfails] at hmap
      refine ⟨Table.image (Assoc.ofList (fields.map Table.entry)), _, hmap, rfl, ?_, ?_⟩
      · intro v hv hwritable
        rw [Bool.not_eq_true, Bool.or_eq_false_iff, Bool.or_eq_false_iff, any_not_writable,
          Bool.not_eq_false'] at hfails
        have htable := Table.ofValue_object fields
        rw [if_pos hfails.1.2] at htable
        rw [Table.image_of_ne hv]
        exact Table.substitutes_of_ofValue htable hwritable
      · split
        · rfl
        · exact edited_applied _ _ _
  · intro fields' hperm hpairwise
    exact mapAt_perm hpath root hperm hpairwise
  · rintro front back x y rfl hne
    exact mapAt_swap hpath root front back hne
  · intro casts hcasts
    exact mapAt_casts hpath root hcasts

theorem mapAt_substitutes_elements
    : let root : Value := .object [(.str "a", .list [.int 6, .bool true, .str "null"])]
      let fields : List (Key × Value) :=
        [(.int 6, .str "six"), (.str "6", .str "SIX"), (.null, .int 0)]
      let addresses : List Address := [[.key (.str "a"), .index 0], [.key (.str "a"), .index 1],
        [.key (.str "a"), .index 2]]
      Path.ofValue (.str "a.$") = .ok ⟨"a.$"⟩ ∧
        ∃ (f : Value → Value) (new : Value),
          mapAt root (.str "a.$") (.object fields) = .ok new ∧ f .missing = .missing ∧
          (∀ v, v ≠ .missing → v.isWritable = true → Substitutes fields v (f v)) ∧
          Applied f addresses root new := by
  intro root fields addresses
  have hpath : Path.ofValue (.str "a.$") = .ok ⟨"a.$"⟩ := rfl
  have h := (mapAt_substitutes hpath root fields).1
  have hsegments : Path.segments ⟨"a.$"⟩ = ["a", "$"] := by decide +kernel
  have hroot : Path.isRoot ⟨"a.$"⟩ = false := by decide +kernel
  have hresolved : resolved ["a", "$"] root = addresses := by decide +kernel
  have hfails : (balks ["a", "$"] root || fields.any (fun field => !field.1.toValue.isWritable) ||
      addresses.any fun a => !(root.look a).isWritable) = false := by decide +kernel
  rw [hsegments, hresolved, hfails, hroot, if_neg Bool.false_ne_true] at h
  obtain ⟨f, new, hmap, hmissing, hsubstitutes, happlied⟩ := h
  exact ⟨hpath, f, new, hmap, hmissing, hsubstitutes, happlied⟩

end Direct

end Reshape
