/-!
This module contains finite maps that keep their entries in the order of insertion. Replacing the
value of a key keeps the place of the key. Removing a key and inserting it again moves it to the
end.
-/

namespace Reshape

/--
A map as the list of its entries, oldest first.
-/
abbrev Assoc (κ α : Type) := List (κ × α)

namespace Assoc

variable {κ α : Type} [DecidableEq κ]

def get? (k : κ) : Assoc κ α → Option α
  | [] => none
  | (k', a) :: rest => if k' = k then some a else get? k rest

def insert (k : κ) (a : α) : Assoc κ α → Assoc κ α
  | [] => [(k, a)]
  | (k', a') :: rest => if k' = k then (k', a) :: rest else (k', a') :: insert k a rest

def erase (k : κ) (entries : Assoc κ α) : Assoc κ α :=
  entries.filter fun entry => decide (entry.1 ≠ k)

/--
Inserts entries one after the other, so that the last of several entries with one key wins.
-/
def ofList (entries : List (κ × α)) : Assoc κ α :=
  entries.foldl (fun acc entry => insert entry.1 entry.2 acc) []

@[simp]
theorem get?_insert_self (k : κ) (a : α) (entries : Assoc κ α) :
    get? k (insert k a entries) = some a := by
  induction entries with
  | nil => simp [insert, get?]
  | cons entry rest ih =>
    by_cases h : entry.1 = k
    · simp [insert, get?, h]
    · simp [insert, get?, h, ih]

theorem get?_insert_of_ne {k k' : κ} (h : k' ≠ k) (a : α) (entries : Assoc κ α) :
    get? k' (insert k a entries) = get? k' entries := by
  induction entries with
  | nil => simp [insert, get?, h.symm]
  | cons entry rest ih =>
    by_cases hk : entry.1 = k
    · simp [insert, get?, hk, h.symm]
    · simp [insert, get?, hk, ih]

@[simp]
theorem get?_erase_self (k : κ) (entries : Assoc κ α) : get? k (erase k entries) = none := by
  induction entries with
  | nil => rfl
  | cons entry rest ih =>
    by_cases h : entry.1 = k
    · simpa [erase, h] using ih
    · simpa [erase, get?, h] using ih

theorem get?_erase_of_ne {k k' : κ} (h : k' ≠ k) (entries : Assoc κ α) :
    get? k' (erase k entries) = get? k' entries := by
  induction entries with
  | nil => rfl
  | cons entry rest ih =>
    by_cases hk : entry.1 = k
    · have hne : ¬k = k' := fun e => h e.symm
      simpa [erase, get?, hk, hne] using ih
    · by_cases hk' : entry.1 = k'
      · simp [erase, get?, hk']
        simp [← hk', hk, get?]
      · simpa [erase, get?, hk, hk'] using ih

theorem insert_insert (k : κ) (a b : α) (entries : Assoc κ α) :
    insert k b (insert k a entries) = insert k b entries := by
  induction entries with
  | nil => simp [insert]
  | cons entry rest ih =>
    by_cases h : entry.1 = k
    · simp [insert, h]
    · simp [insert, h, ih]

theorem erase_insert (k : κ) (a : α) (entries : Assoc κ α) :
    erase k (insert k a entries) = erase k entries := by
  induction entries with
  | nil => simp [insert, erase]
  | cons entry rest ih =>
    by_cases h : entry.1 = k
    · simp [insert, erase, h]
    · simpa [insert, erase, h] using ih

theorem erase_erase (k : κ) (entries : Assoc κ α) : erase k (erase k entries) = erase k entries := by
  simp [erase, List.filter_filter]

theorem erase_comm (k k' : κ) (entries : Assoc κ α)
    : erase k (erase k' entries) = erase k' (erase k entries) := by
  unfold erase
  rw [List.filter_filter, List.filter_filter]
  simp only [Bool.and_comm]

theorem erase_insert_of_ne {k k' : κ} (h : k ≠ k') (a : α) (entries : Assoc κ α)
    : erase k (insert k' a entries) = insert k' a (erase k entries) := by
  induction entries with
  | nil => simp [insert, erase, h.symm]
  | cons entry rest ih =>
    by_cases hk : entry.1 = k
    · simpa [insert, erase, hk, h] using ih
    · by_cases hk' : entry.1 = k'
      · simp [insert, erase, hk', h.symm]
      · simpa [insert, erase, hk, hk'] using ih

theorem get?_eq_none_iff (k : κ) (entries : Assoc κ α)
    : get? k entries = none ↔ k ∉ entries.map (·.1) := by
  induction entries with
  | nil => simp [get?]
  | cons entry rest ih =>
    by_cases h : entry.1 = k
    · simp [get?, h]
    · have hne : ¬k = entry.1 := fun e => h e.symm
      simpa [get?, h, hne] using ih

theorem insert_of_not_mem {k : κ} {entries : Assoc κ α} (h : k ∉ entries.map (·.1)) (a : α)
    : insert k a entries = entries ++ [(k, a)] := by
  induction entries with
  | nil => rfl
  | cons entry rest ih =>
    rw [List.map_cons, List.mem_cons, not_or] at h
    have hne : ¬entry.1 = k := fun e => h.1 e.symm
    simp [insert, hne, ih h.2]

theorem insert_of_get? {k : κ} {a : α} {entries : Assoc κ α} (h : get? k entries = some a)
    : insert k a entries = entries := by
  induction entries with
  | nil => simp [get?] at h
  | cons entry rest ih =>
    obtain ⟨k', a'⟩ := entry
    by_cases hk : k' = k
    · simp [get?, hk] at h
      simp [insert, hk, h]
    · simp [get?, hk] at h
      simp [insert, hk, ih h]

/--
Insertions under different keys commute, but for the order of keys that are new.
-/
theorem insert_comm_perm {k k' : κ} (h : k ≠ k') (a b : α) (entries : Assoc κ α)
    : (insert k a (insert k' b entries)).Perm (insert k' b (insert k a entries)) := by
  induction entries with
  | nil =>
    simp only [insert, h, h.symm, ↓reduceIte]
    apply List.Perm.swap
  | cons entry rest ih =>
    by_cases hk : entry.1 = k
    · have hne : entry.1 ≠ k' := fun e => h (hk.symm.trans e)
      simp [insert, hk, h]
    · by_cases hk' : entry.1 = k'
      · simp [insert, hk', h.symm]
      · simpa [insert, hk, hk'] using ih

theorem insert_comm_of_mem {k k' : κ} (h : k ≠ k') {entries : Assoc κ α}
    (hk : get? k entries ≠ none) (a b : α)
    : insert k a (insert k' b entries) = insert k' b (insert k a entries) := by
  induction entries with
  | nil => exact absurd rfl hk
  | cons entry rest ih =>
    by_cases hentry : entry.1 = k
    · simp [insert, hentry, h]
    · by_cases hk' : entry.1 = k'
      · simp [insert, hk', h.symm]
      · rw [get?, if_neg hentry] at hk
        simp [insert, hentry, hk', ih hk]

theorem erase_of_get?_eq_none {k : κ} {entries : Assoc κ α} (h : get? k entries = none)
    : erase k entries = entries := by
  rw [get?_eq_none_iff] at h
  unfold erase
  rw [List.filter_eq_self]
  intro entry hentry
  rw [decide_eq_true_eq]
  rintro rfl
  exact h (List.mem_map_of_mem hentry)

/--
Inserting keeps the order of the keys. A new key is the last one.
-/
theorem keys_insert (k : κ) (a : α) (entries : Assoc κ α)
    : (insert k a entries).map (·.1) =
        if k ∈ entries.map (·.1) then entries.map (·.1) else entries.map (·.1) ++ [k] := by
  induction entries with
  | nil => simp [insert]
  | cons entry rest ih =>
    by_cases h : entry.1 = k
    · simp [insert, h]
    · have hne : ¬k = entry.1 := fun e => h e.symm
      simp only [insert, h, ↓reduceIte, List.map_cons, ih, List.mem_cons, hne, false_or]
      split
      · rfl
      · rfl

theorem keys_erase (k : κ) (entries : Assoc κ α)
    : (erase k entries).map (·.1) = (entries.map (·.1)).filter (fun k' => decide (k' ≠ k)) := by
  unfold erase
  rw [List.filter_map]
  rfl

theorem mem_of_get? {k : κ} {a : α} {entries : Assoc κ α} (h : get? k entries = some a)
    : (k, a) ∈ entries := by
  induction entries with
  | nil => cases h
  | cons entry rest ih =>
    rw [get?] at h
    split at h
    · next hk =>
      cases h
      rw [← hk]
      apply List.mem_cons_self
    · exact List.mem_cons_of_mem _ (ih h)

theorem mem_of_mem_insert {k : κ} {a : α} {entries : Assoc κ α} {entry : κ × α}
    (h : entry ∈ insert k a entries) : entry = (k, a) ∨ entry ∈ entries := by
  induction entries with
  | nil =>
    rw [insert, List.mem_singleton] at h
    exact Or.inl h
  | cons first rest ih =>
    rw [insert] at h
    split at h
    · next hk =>
      rw [List.mem_cons, hk] at h
      rcases h with h | h
      · exact Or.inl h
      · exact Or.inr (List.mem_cons_of_mem _ h)
    · rw [List.mem_cons] at h
      rcases h with h | h
      · rw [h]
        exact Or.inr List.mem_cons_self
      · rcases ih h with h | h
        · exact Or.inl h
        · exact Or.inr (List.mem_cons_of_mem _ h)

theorem mem_of_mem_ofList {entries : List (κ × α)} {entry : κ × α} (h : entry ∈ ofList entries)
    : entry ∈ entries := by
  -- The map that entries are inserted into grows, so the induction is for all of them.
  have hfold (new : List (κ × α)) (acc : Assoc κ α)
      : entry ∈ new.foldl (fun acc entry => insert entry.1 entry.2 acc) acc →
          entry ∈ acc ∨ entry ∈ new := by
    induction new generalizing acc with
    | nil => exact Or.inl
    | cons first rest ih =>
      intro hmem
      rcases ih (insert first.1 first.2 acc) hmem with hmem | hmem
      · rcases mem_of_mem_insert hmem with hmem | hmem
        · rw [hmem]
          exact Or.inr List.mem_cons_self
        · exact Or.inl hmem
      · exact Or.inr (List.mem_cons_of_mem _ hmem)
  rcases hfold entries [] h with h | h
  · cases h
  · exact h

/--
Dropping entries, and changing what the others hold, keeps what each key leads to.
-/
theorem get?_filterMap {β : Type} (f : α → Option β) {entries : Assoc κ α}
    (h : (entries.map (·.1)).Nodup) (k : κ)
    : get? k (entries.filterMap fun entry => (f entry.2).map fun b => (entry.1, b)) =
        (get? k entries).bind f := by
  induction entries with
  | nil => rfl
  | cons entry rest ih =>
    rw [List.map_cons, List.nodup_cons] at h
    have ih := ih h.2
    by_cases hk : entry.1 = k
    · have hrest : get? k rest = none := by
        rw [get?_eq_none_iff, ← hk]
        exact h.1
      rw [hrest] at ih
      cases hf : f entry.2 with
      | none => simpa [get?, hk, hf] using ih
      | some b => simp [get?, hk, hf]
    · cases hf : f entry.2 with
      | none => simpa [get?, hk, hf] using ih
      | some b => simpa [get?, hk, hf] using ih

end Assoc
end Reshape
