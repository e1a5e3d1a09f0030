import Reshape.Proofs.Slot
import Reshape.Walk

/-!
This module contains the addresses that a path resolves to in a value. They are found by following
the segments alone, without visiting or changing anything. The main statement, `resolved_pairwise`,
says that they come in the order of the document, so that none of them lies inside another one.
-/

namespace Reshape

/--
The slots of a value that a segment enters, with what stands there. The wildcard enters all elements
of a list. Every other segment, and a wildcard that meets an object, enters the slot that it names.
-/
def branches (segment : String) (v : Value) : List (Slot × Value) :=
  match v with
  | .list items =>
    if segment = Path.wildcard then
      items.zipIdx.map fun p => (.index p.2, p.1)
    else
      named (.list items)
  | v => named v
where
  named (v : Value) : List (Slot × Value) :=
    (v.slot? segment).toList.map fun slot => (slot, (v.get? slot).getD .missing)

/--
The addresses that segments resolve to. All segments but the last one lead into containers only.
-/
def resolved : List String → Value → List Address
  | [], _ => [[]]
  | segment :: rest, v =>
    (branches segment v).flatMap fun branch =>
      if entered rest branch.2 then (resolved rest branch.2).map (branch.1 :: ·) else []

/--
Whether following the segments meets a list that cannot look its segment up.
-/
def balks : List String → Value → Bool
  | [], _ => false
  | segment :: rest, v =>
    v.refuses segment ||
      (branches segment v).any fun branch => entered rest branch.2 && balks rest branch.2

/--
An address comes before another one in the document: where they part both lead to elements of one
list, and the first one to an earlier element.
-/
def Address.Before (a b : Address) : Prop :=
  ∃ p i j s t, a = p ++ .index i :: s ∧ b = p ++ .index j :: t ∧ i < j

/--
What an address holds once a value has been stored there.
-/
def Address.kept : Address → Value → Option Value
  | [], v => some v
  | [slot], v => slot.kept v
  | _ :: rest, v => Address.kept rest v

theorem Address.Before.cons {a b : Address} (h : Address.Before a b) (slot : Slot)
    : Address.Before (slot :: a) (slot :: b) := by
  obtain ⟨p, i, j, s, t, ha, hb, hlt⟩ := h
  refine ⟨slot :: p, i, j, s, t, ?_, ?_, hlt⟩
  · rw [ha]
    rfl
  · rw [hb]
    rfl

theorem refuses_wildcard (v : Value) : v.refuses Path.wildcard = false := by
  cases v with
  | list items => rfl
  | _ => rfl

theorem branches_list (segment : String) (items : List Value)
    : branches segment (.list items) =
        if segment = Path.wildcard then items.zipIdx.map fun p => (.index p.2, p.1)
        else branches.named segment (.list items) := by
  rfl

theorem branches.named_of_slot? {segment : String} {v : Value} {slot : Slot}
    (h : v.slot? segment = some slot)
    : branches.named segment v = [(slot, (v.get? slot).getD .missing)] := by
  simp [branches.named, h]

theorem branches.named_of_none {segment : String} {v : Value} (h : v.slot? segment = none)
    : branches.named segment v = [] := by
  simp [branches.named, h]

theorem branches.mem_named {segment : String} {v : Value} {branch : Slot × Value}
    (h : branch ∈ branches.named segment v)
    : v.hasSlot branch.1 = true ∧ branch.2 = (v.get? branch.1).getD .missing := by
  cases hs : v.slot? segment with
  | none => simp [named_of_none hs] at h
  | some slot =>
    simp only [named_of_slot? hs, List.mem_singleton] at h
    rw [h]
    exact ⟨Value.hasSlot_of_slot? hs, rfl⟩

theorem mem_branches {segment : String} {v : Value} {branch : Slot × Value}
    (h : branch ∈ branches segment v)
    : v.hasSlot branch.1 = true ∧ branch.2 = (v.get? branch.1).getD .missing := by
  cases v with
  | list items =>
    rw [branches_list] at h
    split at h
    · simp only [List.mem_map, Prod.exists, List.mk_mem_zipIdx_iff_getElem?] at h
      obtain ⟨item, i, hi, rfl⟩ := h
      obtain ⟨hlt, heq⟩ := List.getElem?_eq_some_iff.mp hi
      simp [Value.hasSlot, Value.get?, hlt, heq]
    · apply branches.mem_named h
  | _ => apply branches.mem_named h

theorem branches_pairwise (segment : String) (v : Value)
    : (branches segment v).Pairwise fun b c => ∃ i j, b.1 = .index i ∧ c.1 = .index j ∧ i < j := by
  have named : (branches.named segment v).Pairwise
      fun b c => ∃ i j, b.1 = .index i ∧ c.1 = .index j ∧ i < j := by
    cases hs : v.slot? segment with
    | none => simp [branches.named_of_none hs]
    | some slot => simp [branches.named_of_slot? hs]
  cases v with
  | list items =>
    rw [branches_list]
    split
    · rw [List.pairwise_map]
      have hlt : (items.zipIdx.map (·.2)).Pairwise (· < ·) := by
        rw [List.zipIdx_map_snd]
        exact List.pairwise_lt_range'
      rw [List.pairwise_map] at hlt
      apply hlt.imp
      intro p q hpq
      exact ⟨p.2, q.2, rfl, rfl, hpq⟩
    · exact named
  | _ => exact named

theorem get?_of_entered {segment : String} {rest : List String} {v : Value} {branch : Slot × Value}
    (h : branch ∈ branches segment v) (hr : rest ≠ []) (he : entered rest branch.2 = true)
    : v.get? branch.1 = some branch.2 ∧ branch.2.isContainer = true := by
  have hc : branch.2.isContainer = true := by
    cases rest with
    | nil => exact absurd rfl hr
    | cons => simpa [entered] using he
  refine ⟨?_, hc⟩
  obtain ⟨-, heq⟩ := mem_branches h
  cases hg : v.get? branch.1 with
  | none =>
    rw [hg] at heq
    rw [heq] at hc
    cases hc
  | some c =>
    rw [hg] at heq
    simp [heq]

/--
The addresses that segments resolve to come in the order of the document.
-/
theorem resolved_pairwise (segments : List String) (v : Value)
    : (resolved segments v).Pairwise Address.Before := by
  induction segments generalizing v with
  | nil => simp [resolved]
  | cons segment rest ih =>
    unfold resolved
    -- Within one branch the addresses part further down, in two branches they part here.
    rw [List.pairwise_flatMap]
    constructor
    · intro branch hbranch
      split
      · rw [List.pairwise_map]
        apply (ih branch.2).imp
        intro a b hab
        exact hab.cons branch.1
      · exact List.Pairwise.nil
    · apply (branches_pairwise segment v).imp
      intro b c hbc x hx y hy
      obtain ⟨i, j, hb, hc, hlt⟩ := hbc
      rw [hb] at hx
      rw [hc] at hy
      split at hx
      · split at hy
        · simp only [List.mem_map] at hx hy
          obtain ⟨s, -, rfl⟩ := hx
          obtain ⟨t, -, rfl⟩ := hy
          exact ⟨[], i, j, s, t, rfl, rfl, hlt⟩
        · cases hy
      · cases hx

theorem mem_resolved_cons {segment : String} {rest : List String} {v : Value} {a : Address}
    : a ∈ resolved (segment :: rest) v ↔
        ∃ branch ∈ branches segment v, entered rest branch.2 = true ∧
          ∃ b ∈ resolved rest branch.2, a = branch.1 :: b := by
  rw [resolved, List.mem_flatMap]
  constructor
  · rintro ⟨branch, hbranch, ha⟩
    split at ha
    · next he =>
      simp only [List.mem_map] at ha
      obtain ⟨b, hb, rfl⟩ := ha
      exact ⟨branch, hbranch, he, b, hb, rfl⟩
    · cases ha
  · rintro ⟨branch, hbranch, he, b, hb, rfl⟩
    refine ⟨branch, hbranch, ?_⟩
    rw [if_pos he]
    exact List.mem_map_of_mem hb

end Reshape
