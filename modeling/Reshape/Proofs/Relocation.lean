import Reshape.Proofs.PathText
import Reshape.Proofs.Placement
import Reshape.Proofs.Walk

/-!
This module contains what a relocation leaves behind. It either leaves the value as it is, or fails
at a list that cannot look up a segment, or is a removal followed by a placement. The main statement,
`relocate_cases`, says which of them happens when.
-/

namespace Reshape

/--
Whether two segments denote one position of a list, like `1` and `01`.
-/
def SameIndex (a b : String) : Prop :=
  ∃ i, listIndex? a = some i ∧ listIndex? b = some i

/--
Two paths diverge if they first differ at segments that name different places in any container.
-/
def Diverge (source target : List String) : Prop :=
  ∃ p a b s t, source = p ++ a :: s ∧ target = p ++ b :: t ∧ a ≠ b ∧ ¬ SameIndex a b

/--
The first segment of the target from where on two paths are followed separately.
-/
def fork (source target : List String) : String :=
  (target.drop (pivot source target).length).headD ""

/--
What is there of a value when a placement into it begins.
-/
def Value.remainder (keep : Bool) (source : List String) (root : Value) : Value :=
  if keep then root else root.detach source

/--
What a relocation that takes place leaves behind.
-/
structure Relocated (keep : Bool) (source target : List String) (root result : Value) : Prop where
  /-- The target leads to what the source led to. -/
  reads : result.seek target = root.seek source
  /-- A copy leaves the source as it is, and a move leaves no field or a null there. -/
  left : Diverge source target → result.at? (root.address source) =
    if keep then some (root.seek source) else Address.kept (root.address source) .missing
  /-- What is neither above, at nor below one of the ends and has not made way stays as it is. -/
  untouched : ∀ a,
    (keep = false → ¬ root.address source <+: a ∧ ¬ a <+: root.address source) →
    ¬ result.address target <+: a → ¬ a <+: result.address target →
    (∀ o, (root.remainder keep source).obstacle? target = some o → ¬ o <+: a) →
    result.at? a = root.at? a
  /--
  Lists keep their length, and objects their keys but for the one that was moved away and a new one
  that leads to the target.
  -/
  containers : ∀ a w, root.at? a = some w → w.isContainer = true →
    (keep = false → ¬ root.address source <+: a) → ¬ result.address target <+: a →
    (∀ o, (root.remainder keep source).obstacle? target = some o → ¬ o <+: a) →
    ∃ w', result.at? a = some w' ∧ w'.frame = w.frame ∧ w'.keys? = w.keys?.map fun keys =>
      Slot.gained (Address.next? a (result.address target))
        (keys.filter fun k => keep || decide (a ++ [.key k] ≠ root.address source))

section Pivot

variable {source target : List String}

theorem pivot_length_le (source target : List String)
    : (pivot source target).length ≤ min source.length target.length - 1 := by
  rw [pivot, List.length_take]
  omega

theorem pivot_spec (hs : source ≠ []) (ht : target ≠ [])
    : ∃ q t, q ≠ [] ∧ source = pivot source target ++ q ∧
        target = pivot source target ++ fork source target :: t := by
  have hlength := pivot_length_le source target
  have hs := List.length_pos_iff.mpr hs
  have ht := List.length_pos_iff.mpr ht
  have hsource : pivot source target <+: source := by
    apply (List.take_prefix _ _).trans
    apply sharedStart_prefix_left
  have htarget : pivot source target <+: target := by
    apply (List.take_prefix _ _).trans
    rw [sharedStart_comm]
    apply sharedStart_prefix_left
  obtain ⟨q, hq⟩ := hsource
  obtain ⟨t, ht'⟩ := htarget
  have hqlength := congrArg List.length hq
  have htlength := congrArg List.length ht'
  rw [List.length_append] at hqlength htlength
  have hdrop : target.drop (pivot source target).length = t := by
    conv =>
      lhs
      arg 2
      rw [← ht']
    apply List.drop_left
  cases t with
  | nil =>
    simp only [List.length_nil] at htlength
    omega
  | cons next t =>
    refine ⟨q, t, ?_, hq.symm, ?_⟩
    · intro hnil
      rw [hnil] at hqlength
      simp only [List.length_nil] at hqlength
      omega
    · rw [fork, hdrop]
      exact ht'.symm

theorem pivot_of_diverge {p s t : List String} {a b : String} (h : a ≠ b)
    : pivot (p ++ a :: s) (p ++ b :: t) = p := by
  rw [pivot, sharedStart_append, sharedStart, if_neg h, List.append_nil]
  apply List.take_of_length_le
  simp only [List.length_append, List.length_cons]
  omega

theorem fork_of_diverge {p s t : List String} {a b : String} (h : a ≠ b)
    : fork (p ++ a :: s) (p ++ b :: t) = b := by
  rw [fork, pivot_of_diverge h, List.drop_left]
  rfl

end Pivot

theorem relocated?_eq {source target : List String} (hs : source ≠ []) (ht : target ≠ [])
    (root : Value)
    : let start := root.seek (pivot source target)
      relocated? source target root =
        if root.blocked source ∨
            root.seek source ≠ .missing ∧ start.refuses (fork source target) then
          .error .tooManyDigits
        else if root.seek source = .missing ∨ start.accepts (fork source target) = false then
          .ok none
        else
          .ok (some (start, root.seek source)) := by
  obtain ⟨q, t, hq, hsource, htarget⟩ := pivot_spec hs ht
  dsimp only
  unfold relocated?
  dsimp only
  generalize pivot source target = p at *
  generalize fork source target = next at *
  subst hsource htarget
  rw [List.drop_left, List.drop_left, Value.seek_append, Value.blocked_append]
  by_cases hroot : root.isContainer
  · rw [Value.descend_eq hroot]
    by_cases hp : root.blocked p
    · simp [hroot, hp, bind, Except.bind]
    · by_cases hstart : (root.seek p).isContainer
      · simp only [hroot, hp, hstart, Value.read_eq, bind, Except.bind, pure, Except.pure]
        by_cases hb : (root.seek p).blocked q
        · simp [hb]
        · by_cases hfound : (root.seek p).seek q = .missing
          · simp [hb, hfound]
          · by_cases hr : (root.seek p).refuses next
            · simp [hb, hfound, hr]
            · by_cases ha : (root.seek p).accepts next
              · simp [hb, hfound, hr, ha]
              · simp [hb, hfound, hr, ha]
      · have hleaf : (root.seek p).isContainer = false := by simpa using hstart
        simp [hroot, hp, hleaf, Value.blocked_of_not_container hleaf,
          Value.seek_of_not_container hleaf hq, bind, Except.bind, pure, Except.pure]
  · have hleaf : root.isContainer = false := by simpa using hroot
    have hseek := Value.seek_of_not_container hleaf hs
    rw [Value.seek_append] at hseek
    have hblocked := Value.blocked_of_not_container hleaf (p ++ q)
    rw [Value.blocked_append] at hblocked
    simp [hleaf, hseek, hblocked]

section Relocate

variable {source target : List String} {root : Value}

theorem leads_pivot (hs : source ≠ []) (ht : target ≠ []) (hb : root.blocked source = false)
    (ha : (root.seek (pivot source target)).accepts (fork source target) = true)
    (hfound : root.seek source ≠ .missing)
    : root.leads (pivot source target) (root.seek (pivot source target)) := by
  obtain ⟨q, t, -, hsource, -⟩ := pivot_spec hs ht
  have hroot := Value.isContainer_of_seek_ne hfound hs
  have hstart : (root.seek (pivot source target)).isContainer = true := by
    obtain ⟨slot, hslot⟩ := Option.isSome_iff_exists.mp ha
    apply Value.isContainer_of_slot? hslot
  have hp : root.blocked (pivot source target) = false := by
    rw [hsource, Value.blocked_append, Bool.or_eq_false_iff] at hb
    exact hb.1
  rw [Value.leads, Value.descend_eq hroot]
  simp [hstart, hp]

theorem leads_remainder (keep : Bool) {p q : List String} (hq : q ≠ []) {start : Value}
    (h : root.leads p start)
    : (root.remainder keep (p ++ q)).leads p (if keep then start else start.detach q) ∧
        root.remainder keep (p ++ q) = root.replace (if keep then start else start.detach q) p := by
  cases keep with
  | true => exact ⟨h, (Value.replace_self h).symm⟩
  | false =>
    have hleft : root.remainder false (p ++ q) = root.replace (start.detach q) p := by
      rw [← Value.seek_of_leads h]
      apply Value.detach_append hq
    refine ⟨?_, hleft⟩
    rw [hleft]
    apply Value.leads_replace h
    apply Value.frame_detach hq

theorem frame_ite_detach (keep : Bool) {q : List String} (hq : q ≠ []) (start : Value)
    : (if keep then start else start.detach q).frame = start.frame := by
  split
  · rfl
  · apply Value.frame_detach hq

theorem relocate_of_refused (keep : Bool) (hs : source ≠ []) (ht : target ≠ [])
    (h : root.blocked source ∨
      root.seek source ≠ .missing ∧ (root.seek (pivot source target)).refuses (fork source target))
    : relocate keep source target root = .fail root .tooManyDigits := by
  have hlookup := relocated?_eq hs ht root
  dsimp only at hlookup
  rw [if_pos h] at hlookup
  unfold relocate
  simp only [List.isEmpty_iff, hs, ↓reduceIte, hlookup]

theorem relocate_of_unreachable (keep : Bool) (hs : source ≠ []) (ht : target ≠ [])
    (hr : ¬ (root.blocked source ∨
      root.seek source ≠ .missing ∧ (root.seek (pivot source target)).refuses (fork source target)))
    (h : root.seek source = .missing ∨
      (root.seek (pivot source target)).accepts (fork source target) = false)
    : relocate keep source target root = .stay root := by
  have hlookup := relocated?_eq hs ht root
  dsimp only at hlookup
  rw [if_neg hr, if_pos h] at hlookup
  unfold relocate
  simp only [List.isEmpty_iff, hs, ↓reduceIte, hlookup]

theorem relocate_of_found (keep : Bool) (hs : source ≠ []) (ht : target ≠ [])
    (hr : ¬ (root.blocked source ∨
      root.seek source ≠ .missing ∧ (root.seek (pivot source target)).refuses (fork source target)))
    (h : ¬ (root.seek source = .missing ∨
      (root.seek (pivot source target)).accepts (fork source target) = false))
    : (root.remainder keep source).admits target = true ∧ ∃ log,
        relocate keep source target root =
          if (root.remainder keep source).blocked target then
            .fail (root.remainder keep source) .tooManyDigits
          else
            ⟨Value.placed (root.seek source) target (root.remainder keep source), log, none⟩ := by
  have hlookup := relocated?_eq hs ht root
  dsimp only at hlookup
  rw [if_neg hr, if_neg h] at hlookup
  unfold relocate
  simp only [List.isEmpty_iff, hs, ht, ↓reduceIte, hlookup]
  simp only [not_or, not_and, Bool.not_eq_true, Bool.not_eq_false] at hr h
  -- Removing the source leaves the container at the pivot in place, and its frame as it was. So
  -- the check that was made before still holds when the placement begins.
  have hleads := leads_pivot hs ht hr.1 h.2 h.1
  obtain ⟨q, t, hq, hsource, htarget⟩ := pivot_spec hs ht
  have hrefuses := hr.2 h.1
  have haccepts := h.2
  generalize pivot source target = p at *
  generalize fork source target = next at *
  subst hsource htarget
  rw [List.drop_left, List.drop_left]
  obtain ⟨hleft, hreplace⟩ := leads_remainder keep hq hleads
  have hframe := frame_ite_detach keep hq (root.seek p)
  generalize (if keep then root.seek p else (root.seek p).detach q) = start at *
  rw [← Value.refuses_congr hframe] at hrefuses
  rw [← Value.accepts_congr hframe] at haccepts
  obtain ⟨log, hplace⟩ := @Value.place_eq start (root.seek (p ++ q)) next t
    (String.intercalate "." (next :: t)) hrefuses
  have hadmits : start.admits (next :: t) = true := haccepts
  refine ⟨Value.admits_of_leads hleft hadmits, log, ?_⟩
  rw [Value.placeAt, hplace, Value.blocked_append, Value.blocked_of_leads hleft,
    Value.seek_of_leads hleft, Bool.false_or, Value.placed_append hleft hadmits]
  split
  · rw [hreplace]
    rfl
  · rw [hreplace, Value.replace_replace hleads]
    rfl

end Relocate

section Detach

theorem detach_eq_edited {segments : List String} {v : Value} (hne : segments ≠ [])
    (hw : Path.wildcard ∉ segments) (hv : v.seek segments ≠ .missing)
    : v.detach segments = edited (fun _ => .missing) segments v ∧
        resolved segments v = [v.address segments] := by
  induction segments generalizing v with
  | nil => exact absurd rfl hne
  | cons segment rest ih =>
    have hchild := Value.child_ne_of_seek_ne hv
    have hsegment : segment ≠ Path.wildcard := by
      intro h
      apply hw
      rw [h]
      apply List.mem_cons_self
    obtain ⟨slot, hslot⟩ := Value.slot?_of_child_ne hchild
    obtain ⟨hbranches, hedited⟩ := edited_of_slot? (fun _ => .missing) rest hsegment hslot
    have hcontent : (v.get? slot).getD .missing = v.child segment := by
      rw [Value.child_of_slot? hslot]
    rw [hedited, resolved, hbranches, List.flatMap_singleton, Value.address, hslot, editedSlot,
      hcontent]
    cases rest with
    | nil =>
      refine ⟨?_, rfl⟩
      rw [Value.detach, hslot]
      rfl
    | cons next rest =>
      have hcontainer : (v.child segment).isContainer = true :=
        Value.isContainer_of_seek_ne hv (List.cons_ne_nil next rest)
      have he : entered (next :: rest) (v.child segment) = true := hcontainer
      have hrest : Path.wildcard ∉ next :: rest := by
        intro hmem
        apply hw
        apply List.mem_cons_of_mem _ hmem
      obtain ⟨hdetach, hresolved⟩ := ih (List.cons_ne_nil next rest) hrest hv
      rw [if_pos he, if_pos he, hresolved]
      refine ⟨?_, rfl⟩
      have hne := edited_ne_missing (fun _ => .missing) (List.cons_ne_nil next rest) hcontainer
      rw [Value.detach, Value.assign_of_slot? hslot, hdetach, Value.store_of_ne hne]
      simp

theorem at?_address {segments : List String} {v : Value} (h : v.seek segments ≠ .missing)
    : v.at? (v.address segments) = some (v.seek segments) := by
  induction segments generalizing v with
  | nil => rfl
  | cons segment rest ih =>
    have hchild := Value.child_ne_of_seek_ne h
    obtain ⟨slot, hslot⟩ := Value.slot?_of_child_ne hchild
    rw [Value.address, hslot]
    dsimp only
    rw [Value.at?_cons_of_child_ne hslot hchild]
    apply ih h

end Detach

section Diverge

variable {v start : Value} {p : List String}

theorem slot?_ne_of_not_sameIndex {a b : String} {slot other : Slot} (hab : a ≠ b)
    (hi : ¬ SameIndex a b) (ha : v.slot? a = some other) (hb : v.slot? b = some slot)
    : other ≠ slot := by
  cases v with
  | object fields =>
    cases ha
    cases hb
    simpa using hab
  | list items =>
    simp only [Value.slot?, Option.bind_eq_some_iff] at ha hb
    obtain ⟨i, hia, ha⟩ := ha
    obtain ⟨j, hjb, hb⟩ := hb
    split at ha
    · split at hb
      · cases ha
        cases hb
        intro hij
        cases hij
        exact hi ⟨i, hia, hjb⟩
      · cases hb
    · cases ha
  | _ => cases ha

theorem address_replace (h : v.leads p start) (new : Value)
    : (v.replace new p).address p = v.address p := by
  induction p generalizing v with
  | nil => rfl
  | cons segment p ih =>
    have hs := Value.accepts_of_child_ne (Value.child_ne_of_leads h)
    have hp := (Value.leads_cons.mp h).2.2
    rw [Value.replace, Value.address, Value.address, Value.slot?_congr (Value.frame_assign _),
      Value.child_assign hs, ih hp]

theorem at?_placed_of_diverge (h : v.leads p start) {segment : String} {slot other : Slot}
    (hs : start.slot? segment = some slot) (ho : other ≠ slot) (new : Value) (rest : List String)
    (a : Address)
    : (Value.placed new (p ++ segment :: rest) v).at? (v.address p ++ other :: a) =
        v.at? (v.address p ++ other :: a) := by
  induction p generalizing v with
  | nil =>
    rw [Value.leads_nil] at h
    rw [h] at hs
    apply Value.at?_placed_of_ne hs _ ho
  | cons segment' p ih =>
    have hchild := Value.child_ne_of_leads h
    have hp := (Value.leads_cons.mp h).2.2
    have hadmits : (v.child segment').admits (p ++ segment :: rest) = true := by
      apply Value.admits_of_leads hp
      simp [Value.admits, Value.accepts, hs]
    obtain ⟨slot', hslot'⟩ := Value.slot?_of_child_ne hchild
    rw [Value.address, hslot']
    dsimp only
    rw [List.cons_append, List.cons_append, Value.at?_placed_self hslot',
      Value.room_of_admits hadmits, ih hp, Value.at?_cons_of_child_ne hslot' hchild]

end Diverge

section Remainder

variable {keep : Bool} {source : List String} {root : Value} {a : Address}

theorem detach_applied (hs : source ≠ []) (hw : Path.wildcard ∉ source)
    (hfound : root.seek source ≠ .missing)
    : Applied (fun _ => .missing) [root.address source] root (root.detach source) := by
  obtain ⟨hdetach, hresolved⟩ := detach_eq_edited hs hw hfound
  rw [hdetach, ← hresolved]
  apply edited_applied

theorem at?_remainder (hs : source ≠ []) (hw : Path.wildcard ∉ source)
    (hfound : root.seek source ≠ .missing)
    (ha : keep = false → ¬ root.address source <+: a ∧ ¬ a <+: root.address source)
    : (root.remainder keep source).at? a = root.at? a := by
  cases keep with
  | true => rfl
  | false =>
    apply (detach_applied hs hw hfound).untouched
    intro r hr
    rw [List.mem_singleton] at hr
    rw [hr]
    exact ha rfl

theorem map_filter_of_forall {stays : Key → Bool} (h : ∀ k, stays k = true)
    (keys? : Option (List Key)) : (keys?.map fun keys => keys.filter stays) = keys? := by
  cases keys? with
  | none => rfl
  | some keys =>
    rw [Option.map_some, List.filter_eq_self.mpr]
    intro k hk
    apply h

theorem containers_remainder (hs : source ≠ []) (hw : Path.wildcard ∉ source)
    (hfound : root.seek source ≠ .missing) {w : Value} (hroot : root.at? a = some w)
    (ha : keep = false → ¬ root.address source <+: a)
    : ∃ w', (root.remainder keep source).at? a = some w' ∧ w'.frame = w.frame ∧
        w'.keys? = w.keys?.map fun keys =>
          keys.filter fun k => keep || decide (a ++ [.key k] ≠ root.address source) := by
  cases keep with
  | true =>
    refine ⟨w, hroot, rfl, ?_⟩
    rw [map_filter_of_forall]
    simp
  | false =>
    have happlied := detach_applied hs hw hfound
    have hnot : ∀ r ∈ [root.address source], ¬ r <+: a := by
      intro r hr
      rw [List.mem_singleton] at hr
      rw [hr]
      exact ha rfl
    have hframe := happlied.frames a hnot
    rw [hroot, Option.map_some, Option.map_eq_some_iff] at hframe
    obtain ⟨w', hw', hframe⟩ := hframe
    refine ⟨w', hw', hframe, ?_⟩
    by_cases hkey : ∃ k, a ++ [.key k] = root.address source
    · obtain ⟨k, hk⟩ := hkey
      have hkeys := happlied.keysAfter a k (by rw [hk]; apply List.mem_singleton_self)
      rw [hroot, hw'] at hkeys
      have hkeys : w'.keys? = w.keys?.map (keysAfter k .missing) := hkeys
      rw [hkeys, ← hk]
      congr 1
      funext keys
      simp [keysAfter, keysWithout]
    · have hkeys := happlied.keys a hnot (by simpa using hkey)
      rw [hroot, hw'] at hkeys
      have hkeys : w'.keys? = w.keys? := hkeys
      rw [hkeys]
      simp only [not_exists] at hkey
      rw [map_filter_of_forall]
      simpa using hkey

end Remainder

theorem at?_source_of_diverge (keep : Bool) {source target : List String} {root : Value}
    (hb : root.blocked source = false) (hfound : root.seek source ≠ .missing)
    (ha : (root.seek (pivot source target)).accepts (fork source target) = true)
    (hd : Diverge source target) (new : Value)
    : (Value.placed new target (root.remainder keep source)).at? (root.address source) =
        (root.remainder keep source).at? (root.address source) := by
  obtain ⟨p, a, b, s, t, rfl, rfl, hab, hi⟩ := hd
  have hleads := leads_pivot (by simp) (by simp) hb ha hfound
  have hfork : fork (p ++ a :: s) (p ++ b :: t) = b := by
    rw [fork, pivot_of_diverge hab, List.drop_left]
    rfl
  rw [hfork] at ha
  rw [pivot_of_diverge hab] at ha hleads
  have hchild : (root.seek p).child a ≠ .missing := by
    rw [Value.seek_append] at hfound
    exact Value.child_ne_of_seek_ne hfound
  obtain ⟨other, hother⟩ := Value.slot?_of_child_ne hchild
  obtain ⟨slot, hslot⟩ := Option.isSome_iff_exists.mp ha
  -- The paths part at the pivot, into two slots of one container.
  have hne := slot?_ne_of_not_sameIndex hab hi hother hslot
  have haddress : root.address (p ++ a :: s) =
      root.address p ++ other :: ((root.seek p).child a).address s := by
    rw [Value.address_append hleads, Value.address, hother]
  obtain ⟨hleft, hreplace⟩ := leads_remainder keep (List.cons_ne_nil a s) hleads
  have hframe := frame_ite_detach keep (List.cons_ne_nil a s) (root.seek p)
  rw [← Value.slot?_congr hframe] at hslot
  have hprefix : (root.remainder keep (p ++ a :: s)).address p = root.address p := by
    rw [hreplace, address_replace hleads]
  rw [haddress, ← hprefix]
  apply at?_placed_of_diverge hleft hslot hne

theorem relocated_placed (keep : Bool) {source target : List String} {root : Value}
    (hs : source ≠ []) (hw : Path.wildcard ∉ source)
    (hb : root.blocked source = false) (hfound : root.seek source ≠ .missing)
    (ha : (root.seek (pivot source target)).accepts (fork source target) = true)
    (hadmits : (root.remainder keep source).admits target = true)
    : Relocated keep source target root
        (Value.placed (root.seek source) target (root.remainder keep source)) := by
  have placement := @Value.placement_placed (root.remainder keep source) (root.seek source) _ hadmits
  refine ⟨placement.reads, ?_, ?_, ?_⟩
  · intro hd
    rw [at?_source_of_diverge keep hb hfound ha hd]
    cases keep with
    | true => exact at?_address hfound
    | false =>
      apply (detach_applied hs hw hfound).stored
      apply List.mem_singleton_self
  · intro a hsource hbelow habove hobstacle
    rw [placement.untouched a hbelow habove hobstacle]
    apply at?_remainder hs hw hfound hsource
  · intro a w hroot hc hsource hbelow hobstacle
    obtain ⟨w₁, hw₁, hframe₁, hkeys₁⟩ := containers_remainder hs hw hfound hroot hsource
    have hc₁ : w₁.isContainer = true := by
      rw [Value.isContainer_congr hframe₁]
      exact hc
    obtain ⟨w₂, hw₂, hframe₂, hkeys₂⟩ := placement.containers a w₁ hw₁ hc₁ hbelow hobstacle
    refine ⟨w₂, hw₂, hframe₂.trans hframe₁, ?_⟩
    rw [hkeys₂, hkeys₁, Option.map_map]
    rfl

/--
A relocation between two paths leaves the value as it is if there is nothing to relocate or no place
for it. Otherwise it takes place. Only a list that cannot look up a segment, because it has too many
digits, makes it fail. If that list stands on the way of the target, below its first segment, then a
move has given its source up by then.
-/
theorem relocate_cases (keep : Bool) (source target : Path) (root : Value)
    (hs : source.isRoot = false) (ht : target.isRoot = false) (hw : source.hasWildcard = false)
    : let start := root.seek (pivot source.segments target.segments)
      let next := fork source.segments target.segments
      let left := root.remainder keep source.segments
      let x := relocate keep source.segments target.segments root
      if root.blocked source.segments ∨
          root.seek source.segments ≠ .missing ∧ start.refuses next then
        x = .fail root .tooManyDigits
      else if root.isContainer = false ∨ root.seek source.segments = .missing ∨
          start.accepts next = false then
        x = .stay root
      else if left.blocked target.segments then
        x = .fail left .tooManyDigits
      else
        x.failure = none ∧ Relocated keep source.segments target.segments root x.value := by
  have hs : source.segments ≠ [] := by simpa [Path.isRoot] using hs
  have ht : target.segments ≠ [] := by simpa [Path.isRoot] using ht
  have hw : Path.wildcard ∉ source.segments := by simpa [Path.hasWildcard] using hw
  generalize source.segments = source at *
  generalize target.segments = target at *
  dsimp only
  split
  · next hr => apply relocate_of_refused keep hs ht hr
  · next hr =>
    split
    · next hstay =>
      apply relocate_of_unreachable keep hs ht hr
      rcases hstay with hleaf | hstay
      · exact Or.inl (Value.seek_of_not_container hleaf hs)
      · exact hstay
    · next hstay =>
      have hstay : ¬ (_ ∨ _) := fun h => hstay (Or.inr h)
      obtain ⟨hadmits, log, hx⟩ := relocate_of_found keep hs ht hr hstay
      rw [hx]
      split
      · rfl
      · refine ⟨rfl, ?_⟩
        simp only [not_or, not_and, Bool.not_eq_true, Bool.not_eq_false] at hr hstay
        apply relocated_placed keep hs hw hr.1 hstay.1 hstay.2 hadmits

theorem relocate_cases_move
    : let root : Value := .object [(.str "a", .list [.int 1, .int 2]), (.str "b", .int 3)]
      let x := relocate false ["a", "0"] ["c", "d"] root
      Path.isRoot ⟨"a.0"⟩ = false ∧ Path.isRoot ⟨"c.d"⟩ = false ∧
        Path.hasWildcard ⟨"a.0"⟩ = false ∧ x.failure = none ∧
        Relocated false ["a", "0"] ["c", "d"] root x.value := by
  intro root x
  have hs : Path.isRoot ⟨"a.0"⟩ = false := by decide +kernel
  have ht : Path.isRoot ⟨"c.d"⟩ = false := by decide +kernel
  have hw : Path.hasWildcard ⟨"a.0"⟩ = false := by decide +kernel
  have hsource : Path.segments ⟨"a.0"⟩ = ["a", "0"] := by decide +kernel
  have htarget : Path.segments ⟨"c.d"⟩ = ["c", "d"] := by decide +kernel
  have h := relocate_cases false ⟨"a.0"⟩ ⟨"c.d"⟩ root hs ht hw
  dsimp only at h
  rw [hsource, htarget, if_neg (by decide +kernel), if_neg (by decide +kernel),
    if_neg (by decide +kernel)] at h
  exact ⟨hs, ht, hw, h⟩

end Reshape
