import Reshape.Edit
import Reshape.Proofs.Parts

/-!
This module contains what edits and relocations fail with. They fail because of too many digits
alone, and that only if a text or an integer that is read or written, or a segment of a path, has so
many.
-/

namespace Reshape

def FailsOnly {ε α : Type} (p : ε → Prop) (x : Except ε α) : Prop :=
  ∀ e, x = .error e → p e

namespace FailsOnly

variable {ε α β : Type} {p q : ε → Prop}

theorem ok (a : α) : FailsOnly p (.ok a) := by
  intro e h
  cases h

theorem error {e : ε} (h : p e) : FailsOnly p (.error e : Except ε α) := by
  intro e' h'
  cases h'
  exact h

theorem bind {x : Except ε α} {f : α → Except ε β} (hx : FailsOnly p x)
    (hf : ∀ a, FailsOnly p (f a)) : FailsOnly p (x >>= f) := by
  cases x with
  | error e =>
    apply error
    exact hx e rfl
  | ok a => exact hf a

theorem map (f : α → β) {x : Except ε α} (h : FailsOnly p x) : FailsOnly p (x.map f) := by
  cases x with
  | error e =>
    apply error
    exact h e rfl
  | ok a => apply ok

theorem mapM {f : α → Except ε β} {items : List α} (hf : ∀ item ∈ items, FailsOnly p (f item))
    : FailsOnly p (items.mapM f) := by
  induction items with
  | nil => apply ok
  | cons item items ih =>
    rw [List.mapM_cons]
    apply bind (hf item List.mem_cons_self)
    intro b
    apply bind
    · apply ih
      intro item' hitem
      exact hf item' (List.mem_cons_of_mem _ hitem)
    · intro bs
      apply ok

theorem mono {x : Except ε α} (h : FailsOnly p x) (hpq : ∀ e, p e → q e) : FailsOnly q x := by
  intro e he
  exact hpq e (h e he)

end FailsOnly

/--
Whether a segment has more digits than a list can look up.
-/
def overlong (segment : String) : Bool :=
  Numeral.isDigits segment.toList && decide (Decimal.maxDigits < segment.length)

/--
Whether a text does not denote an integer of more digits than are read.
-/
def Text.isLegible (text : List Char) : Bool :=
  match Numeral.read? (Text.strip text) with
  | some (.integer _ digits) => decide (digits.length ≤ Decimal.maxDigits)
  | _ => true

namespace Value

/--
Whether the number cast reads a value.
-/
def isReadable : Value → Bool
  | .str s => Text.isLegible s.toList
  | _ => true

end Value

section Edit

theorem numberOfText_fails (text : List Char)
    : FailsOnly (fun e => e = .tooManyDigits ∧ Text.isLegible text = false)
        (numberOfText text) := by
  unfold numberOfText
  dsimp only
  split
  · apply FailsOnly.ok
  · split
    · next negative digits hread =>
      split
      · next hlong =>
        apply FailsOnly.error
        refine ⟨rfl, ?_⟩
        simp only [Text.isLegible, hread]
        simpa using hlong
      · apply FailsOnly.ok
    · apply FailsOnly.ok
    · apply FailsOnly.ok
    · apply FailsOnly.ok

theorem Value.toNumber_fails (v : Value)
    : FailsOnly (fun e => e = .tooManyDigits ∧ v.isReadable = false) v.toNumber := by
  cases v with
  | float x => cases x <;> apply FailsOnly.ok
  | str s => exact numberOfText_fails s.toList
  | _ => apply FailsOnly.ok

theorem Value.toText_fails (v : Value)
    : FailsOnly (fun e => e = .tooManyDigits ∧ v.isWritable = false) v.toText := by
  unfold Value.toText
  split
  · apply FailsOnly.ok
  · next h =>
    apply FailsOnly.error
    exact ⟨rfl, by simpa using h⟩

theorem Cast.apply_fails (cast : Cast) (v : Value)
    : FailsOnly (fun e => e = .tooManyDigits ∧ (v.isReadable = false ∨ v.isWritable = false))
        (cast.apply v) := by
  cases cast with
  | number => exact v.toNumber_fails.mono fun e h => ⟨h.1, Or.inl h.2⟩
  | string =>
    apply FailsOnly.map
    exact v.toText_fails.mono fun e h => ⟨h.1, Or.inr h.2⟩
  | boolean => apply FailsOnly.ok

theorem Edit.apply_fails (edit : Edit) (v : Value)
    : FailsOnly (fun e => e = .tooManyDigits ∧ (v.isReadable = false ∨ v.isWritable = false))
        (edit.apply v) := by
  unfold Edit.apply
  split
  · apply FailsOnly.ok
  · apply FailsOnly.ok
  · apply FailsOnly.ok
  · apply Cast.apply_fails
  · apply FailsOnly.ok
  · apply FailsOnly.bind
    · exact (Value.toText_fails _).mono fun e h => ⟨h.1, Or.inr h.2⟩
    · intro s
      apply FailsOnly.ok
  · apply FailsOnly.ok

end Edit

section Relocate

variable {v root : Value} {segment : String} {segments source target : List String}

theorem overlong_of_refuses (h : v.refuses segment = true) : overlong segment = true := by
  cases v with
  | list items => exact h
  | _ => cases h

theorem overlong_of_blocked (h : v.blocked segments = true)
    : ∃ segment ∈ segments, overlong segment = true := by
  induction segments generalizing v with
  | nil => cases h
  | cons segment rest ih =>
    rw [Value.blocked, Bool.or_eq_true] at h
    rcases h with h | h
    · exact ⟨segment, List.mem_cons_self, overlong_of_refuses h⟩
    · obtain ⟨segment', hmem, hlong⟩ := ih h
      exact ⟨segment', List.mem_cons_of_mem _ hmem, hlong⟩

/--
A relocation fails only at a list that cannot look up a segment of one of its ends.
-/
theorem relocate_failure (keep : Bool) (source target : List String) (root : Value) {e : Error}
    (h : (relocate keep source target root).failure = some e)
    : e = .tooManyDigits ∧ ∃ segment ∈ source ++ target, overlong segment = true := by
  have in_source (hb : root.blocked source = true)
      : ∃ segment ∈ source ++ target, overlong segment = true := by
    obtain ⟨segment, hmem, hlong⟩ := overlong_of_blocked hb
    exact ⟨segment, List.mem_append_left _ hmem, hlong⟩
  have in_target {w : Value} (hb : w.blocked target = true)
      : ∃ segment ∈ source ++ target, overlong segment = true := by
    obtain ⟨segment, hmem, hlong⟩ := overlong_of_blocked hb
    exact ⟨segment, List.mem_append_right _ hmem, hlong⟩
  by_cases hs : source = []
  · subst hs
    obtain ⟨log, hrelocate⟩ := relocate_of_root keep target root
    rw [hrelocate] at h
    split at h
    · next hb =>
      cases h
      exact ⟨rfl, in_target hb.2.2⟩
    · split at h
      · cases h
      · split at h <;> cases h
  · by_cases ht : target = []
    · subst ht
      rw [relocate_to_root keep hs] at h
      split at h
      · next hb =>
        cases h
        exact ⟨rfl, in_source hb⟩
      · cases h
    · by_cases hr : root.blocked source ∨ root.seek source ≠ .missing ∧
          (root.seek (pivot source target)).refuses (fork source target)
      · rw [relocate_of_refused keep hs ht hr] at h
        cases h
        refine ⟨rfl, ?_⟩
        rcases hr with hb | ⟨-, hr⟩
        · exact in_source hb
        · obtain ⟨-, t, -, -, htarget⟩ := pivot_spec hs ht
          have hmem : fork source target ∈ pivot source target ++ fork source target :: t := by
            simp
          rw [← htarget] at hmem
          exact ⟨_, List.mem_append_right _ hmem, overlong_of_refuses hr⟩
      · by_cases hu : root.seek source = .missing ∨
            (root.seek (pivot source target)).accepts (fork source target) = false
        · rw [relocate_of_unreachable keep hs ht hr hu] at h
          cases h
        · obtain ⟨-, log, hrelocate⟩ := relocate_of_found keep hs ht hr hu
          rw [hrelocate] at h
          split at h
          · next hb =>
            cases h
            exact ⟨rfl, in_target hb⟩
          · cases h

end Relocate

end Reshape
