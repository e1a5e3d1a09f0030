import Reshape.Proofs.Legible

/-!
This module contains what the table of an object says about its fields. The main statement,
`Table.substitutes_of_ofValue`, says that a value is substituted by the content of the last field
whose key has the same string cast, else by that of the empty text, and else by itself.
-/

namespace Reshape

namespace Assoc

variable {κ α : Type} [DecidableEq κ] {k : κ} {a : α} {entries entries' : List (κ × α)}

theorem get?_insert (k k' : κ) (a : α) (entries : Assoc κ α)
    : get? k (insert k' a entries) = (get? k [(k', a)]).or (get? k entries) := by
  by_cases h : k' = k
  · rw [h, get?_insert_self, get?, if_pos rfl]
    rfl
  · rw [get?_insert_of_ne (Ne.symm h), get?, if_neg h]
    rfl

/--
Of the maps that are inserted into each other, the later one is asked first.
-/
theorem get?_foldl_insert (k : κ) (new : List (κ × α)) (old : Assoc κ α)
    : get? k (new.foldl (fun acc entry => insert entry.1 entry.2 acc) old) =
        (get? k (ofList new)).or (get? k old) := by
  induction new generalizing old with
  | nil => rfl
  | cons entry rest ih =>
    unfold ofList
    rw [List.foldl_cons, List.foldl_cons, ih, ih (insert entry.1 entry.2 []), get?_insert, insert,
      Option.or_assoc]

theorem get?_ofList_append (k : κ) (front back : List (κ × α))
    : get? k (ofList (front ++ back)) = (get? k (ofList back)).or (get? k (ofList front)) := by
  rw [ofList, List.foldl_append]
  apply get?_foldl_insert

theorem get?_ofList_cons (k : κ) (entry : κ × α) (rest : List (κ × α))
    : get? k (ofList (entry :: rest)) = (get? k (ofList rest)).or (get? k [entry]) :=
  get?_ofList_append k [entry] rest

theorem get?_ofList_eq_none_iff
    : get? k (ofList entries) = none ↔ ∀ entry ∈ entries, entry.1 ≠ k := by
  induction entries with
  | nil => simp [ofList, get?]
  | cons entry rest ih =>
    rw [get?_ofList_cons, Option.or_eq_none_iff, ih, List.forall_mem_cons, and_comm, get?]
    apply and_congr_left'
    split
    · next hk => simp [hk]
    · next hk => simp [hk, get?]

/--
A key leads to the last entry that has it.
-/
theorem exists_last_of_get?_ofList (h : get? k (ofList entries) = some a)
    : ∃ front back, entries = front ++ (k, a) :: back ∧ ∀ entry ∈ back, entry.1 ≠ k := by
  induction entries with
  | nil => cases h
  | cons entry rest ih =>
    rw [get?_ofList_cons, Option.or_eq_some_iff] at h
    rcases h with h | ⟨hrest, h⟩
    · obtain ⟨front, back, rfl, hback⟩ := ih h
      exact ⟨entry :: front, back, rfl, hback⟩
    · rw [get?_ofList_eq_none_iff] at hrest
      obtain rfl := List.mem_singleton.mp (mem_of_get? h)
      exact ⟨[], rest, rfl, hrest⟩

theorem get?_ofList_swap {x y : κ × α} (h : x.1 ≠ y.1) (k : κ) (rest : List (κ × α))
    : get? k (ofList (x :: y :: rest)) = get? k (ofList (y :: x :: rest)) := by
  have hpair : (get? k [y]).or (get? k [x]) = (get? k [x]).or (get? k [y]) := by
    by_cases hx : x.1 = k
    · have hy : y.1 ≠ k := fun hy => h (hx.trans hy.symm)
      simp [get?, hx, hy]
    · simp [get?, hx]
  rw [get?_ofList_cons, get?_ofList_cons, get?_ofList_cons, get?_ofList_cons, Option.or_assoc,
    Option.or_assoc, hpair]

theorem get?_ofList_perm (hperm : entries.Perm entries')
    (h : entries.Pairwise fun x y => x.1 ≠ y.1) (k : κ)
    : get? k (ofList entries) = get? k (ofList entries') := by
  induction hperm with
  | nil => rfl
  | cons entry _ ih =>
    rw [get?_ofList_cons, get?_ofList_cons, ih (List.pairwise_cons.mp h).2]
  | swap x y rest =>
    apply get?_ofList_swap
    exact (List.pairwise_cons.mp h).1 x List.mem_cons_self
  | trans hperm _ ih ih' => exact (ih h).trans (ih' (h.perm hperm Ne.symm))

theorem pairwise_ofList (entries : List (κ × α))
    : (ofList entries).Pairwise fun x y => x.1 ≠ y.1 := by
  have hfold (old : Assoc κ α) (h : (old.map (·.1)).Nodup)
      : ((entries.foldl (fun acc entry => insert entry.1 entry.2 acc) old).map (·.1)).Nodup := by
    induction entries generalizing old with
    | nil => exact h
    | cons entry rest ih =>
      apply ih
      rw [keys_insert]
      split
      · exact h
      · next hnew =>
        refine List.nodup_append.mpr ⟨h, List.pairwise_singleton _ _, ?_⟩
        rintro k hk _ hentry rfl
        rw [List.mem_singleton.mp hentry] at hk
        exact hnew hk
  exact List.pairwise_map.mp (hfold [] List.nodup_nil)

theorem insert_map {κ' : Type} [DecidableEq κ'] {g : κ → κ'} (hg : Function.Injective g) (k : κ)
    (a : α) (entries : Assoc κ α)
    : insert (g k) a (entries.map (Prod.map g id)) = (insert k a entries).map (Prod.map g id) := by
  induction entries with
  | nil => rfl
  | cons entry rest ih =>
    obtain ⟨k', a'⟩ := entry
    by_cases h : k' = k
    · simp [insert, h]
    · have hne : ¬g k' = g k := fun heq => h (hg heq)
      simp [insert, h, hne, ih]

/--
Keys that are told apart may be exchanged for others that are.
-/
theorem ofList_map {κ' : Type} [DecidableEq κ'] {g : κ → κ'} (hg : Function.Injective g)
    (entries : List (κ × α))
    : ofList (entries.map (Prod.map g id)) = (ofList entries).map (Prod.map g id) := by
  have hfold (old : Assoc κ α)
      : (entries.map (Prod.map g id)).foldl (fun acc entry => insert entry.1 entry.2 acc)
          (old.map (Prod.map g id)) =
        (entries.foldl (fun acc entry => insert entry.1 entry.2 acc) old).map (Prod.map g id) := by
    induction entries generalizing old with
    | nil => rfl
    | cons entry rest ih =>
      rw [List.map_cons, List.foldl_cons, List.foldl_cons, ← ih, ← insert_map hg]
      rfl
  exact hfold []

theorem get?_ofList_of_pairwise (h : entries.Pairwise fun x y => x.1 ≠ y.1) (k : κ)
    : get? k (ofList entries) = get? k entries := by
  induction entries with
  | nil => rfl
  | cons entry rest ih =>
    obtain ⟨hentry, hrest⟩ := List.pairwise_cons.mp h
    rw [get?_ofList_cons, ih hrest]
    by_cases hk : entry.1 = k
    · have hnone : get? k rest = none := by
        rw [← ih hrest, get?_ofList_eq_none_iff]
        rintro other hother rfl
        exact hentry other hother hk
      rw [hnone, Option.none_or]
      simp [get?, hk]
    · simp [get?, hk]

end Assoc

namespace Binary64

theorem magnitudeText_ne_nil (layout : Layout) (rank : Nat) : magnitudeText layout rank ≠ [] := by
  unfold magnitudeText
  extract_lets x
  split
  · exact List.ne_nil_of_mem (mem_positional x)
  · exact List.ne_nil_of_mem (mem_scientific _ x)

theorem json_text_ne_empty (x : Binary64) : x.text .json ≠ "" := by
  cases x with
  | nan => decide
  | infinite negative => cases negative <;> decide
  | finite negative rank =>
    intro h
    rw [text, ← String.toList_inj, String.toList_ofList] at h
    exact magnitudeText_ne_nil .json rank (List.append_eq_nil_iff.mp h).2

end Binary64

theorem intString_ne_empty (n : Int) : intString n ≠ "" := by
  intro h
  rw [intString, ← String.toList_inj, String.toList_ofList, Decimal.intText] at h
  split at h
  · cases h
  · exact Decimal.natText_ne_nil _ h

/--
The empty text is the string cast of no other key.
-/
theorem Key.eq_of_text_empty {k : Key} (h : k.toValue.text = "") : k = .str "" := by
  cases k with
  | null => exact absurd h (by decide)
  | bool b => cases b <;> exact absurd h (by decide)
  | int n => exact absurd h (intString_ne_empty n)
  | float x =>
    rw [Key.toValue, Value.text] at h
    split at h
    · exact absurd h (intString_ne_empty _)
    · exact absurd h x.json_text_ne_empty
  | str s =>
    rw [← h]
    rfl

namespace Value

variable {v w : Value}

theorem toText_of_writable (h : v.isWritable = true) : v.toText = .ok v.text := if_pos h

theorem toText_eq_iff (hv : v.isWritable = true) (hw : w.isWritable = true)
    : v.toText = w.toText ↔ v.text = w.text := by
  rw [toText_of_writable hv, toText_of_writable hw, Except.ok.injEq]

end Value

/--
Whether fields make a table that substitutes a value by another one.
-/
inductive Substitutes (fields : List (Key × Value)) (v : Value) : Value → Prop where
  /-- The last field whose key has the same string cast. -/
  | own {front back : List (Key × Value)} {k : Key} {w : Value}
      (hfields : fields = front ++ (k, w) :: back) (hkey : k.toValue.toText = v.toText)
      (hback : ∀ field ∈ back, field.1.toValue.toText ≠ v.toText) : Substitutes fields v w
  /-- The field of the empty text, if no key has the same string cast. -/
  | fallback {front back : List (Key × Value)} {w : Value}
      (hfields : fields = front ++ (.str "", w) :: back)
      (hback : ∀ field ∈ back, field.1 ≠ .str "")
      (hother : ∀ field ∈ fields, field.1.toValue.toText ≠ v.toText) : Substitutes fields v w
  | none (hempty : ∀ field ∈ fields, field.1 ≠ .str "")
      (hother : ∀ field ∈ fields, field.1.toValue.toText ≠ v.toText) : Substitutes fields v v

namespace Table

variable {fields : List (Key × Value)} {table : Table}

/--
The field under the string cast of its key.
-/
def entry (field : Key × Value) : String × Value :=
  (field.1.toValue.text, field.2)

theorem mapM_toText {α : Type} (g : String → Value → α) (fields : List (Key × Value))
    : (fields.mapM fun field => do pure (g (← field.1.toValue.toText) field.2)) =
        if fields.all fun field => field.1.toValue.isWritable then
          .ok (fields.map fun field => g field.1.toValue.text field.2)
        else
          .error Error.tooManyDigits := by
  induction fields with
  | nil => rfl
  | cons field rest ih =>
    rw [List.mapM_cons, ih, List.all_cons, Value.toText]
    cases field.1.toValue.isWritable with
    | false => rfl
    | true =>
      cases rest.all fun field => field.1.toValue.isWritable with
      | false => rfl
      | true => rfl

theorem ofValue_object (fields : List (Key × Value))
    : ofValue (.object fields) =
        if fields.all fun field => field.1.toValue.isWritable then
          .ok (Assoc.ofList (fields.map entry))
        else
          .error .tooManyDigits := by
  unfold ofValue
  dsimp only
  rw [mapM_toText Prod.mk]
  split
  · rfl
  · rfl

theorem of_ofValue (h : ofValue (.object fields) = .ok table)
    : (∀ field ∈ fields, field.1.toValue.isWritable = true) ∧
        table = Assoc.ofList (fields.map entry) := by
  rw [ofValue_object] at h
  split at h
  · next hwritable =>
    cases h
    exact ⟨List.all_eq_true.mp hwritable, rfl⟩
  · cases h

theorem get?_eq_none_iff (h : ofValue (.object fields) = .ok table) {text : String}
    : Assoc.get? text table = none ↔ ∀ field ∈ fields, field.1.toValue.text ≠ text := by
  rw [(of_ofValue h).2, Assoc.get?_ofList_eq_none_iff, List.forall_mem_map]
  rfl

theorem exists_last_of_get? (h : ofValue (.object fields) = .ok table) {text : String} {w : Value}
    (hget : Assoc.get? text table = some w)
    : ∃ front k back, fields = front ++ (k, w) :: back ∧ k.toValue.text = text ∧
        ∀ field ∈ back, field.1.toValue.text ≠ text := by
  rw [(of_ofValue h).2] at hget
  obtain ⟨front, back, hfields, hback⟩ := Assoc.exists_last_of_get?_ofList hget
  obtain ⟨front, rest, rfl, rfl, hrest⟩ := List.map_eq_append_iff.mp hfields
  obtain ⟨⟨k, w'⟩, back, rfl, hfield, rfl⟩ := List.map_eq_cons_iff.mp hrest
  obtain ⟨rfl, rfl⟩ := Prod.mk.inj hfield
  refine ⟨front, k, back, rfl, rfl, ?_⟩
  intro field hfield
  exact hback (entry field) (List.mem_map_of_mem hfield)

theorem substitutes_of_ofValue (h : ofValue (.object fields) = .ok table) {v : Value}
    (hv : v.isWritable = true) : Substitutes fields v ((table.find? v.text).getD v) := by
  have hcast {field : Key × Value} (hfield : field ∈ fields)
      : field.1.toValue.toText = v.toText ↔ field.1.toValue.text = v.text :=
    Value.toText_eq_iff ((of_ofValue h).1 field hfield) hv
  unfold find?
  cases hown : Assoc.get? v.text table with
  | some w =>
    obtain ⟨front, k, back, rfl, hk, hback⟩ := exists_last_of_get? h hown
    have hmem : (k, w) ∈ front ++ (k, w) :: back := by simp
    refine .own rfl ((hcast hmem).mpr hk) ?_
    intro field hfield heq
    exact hback field hfield ((hcast (by simp [hfield])).mp heq)
  | none =>
    have hother : ∀ field ∈ fields, field.1.toValue.toText ≠ v.toText := by
      intro field hfield heq
      exact (get?_eq_none_iff h).mp hown field hfield ((hcast hfield).mp heq)
    cases hfallback : Assoc.get? "" table with
    | some w =>
      obtain ⟨front, k, back, rfl, hk, hback⟩ := exists_last_of_get? h hfallback
      rw [Key.eq_of_text_empty hk] at hother ⊢
      refine .fallback rfl ?_ hother
      rintro field hfield heq
      exact hback field hfield (congrArg (fun k => k.toValue.text) heq)
    | none =>
      refine .none ?_ hother
      rintro field hfield heq
      exact (get?_eq_none_iff h).mp hfallback field hfield
        (congrArg (fun k => k.toValue.text) heq)

end Table
end Reshape
