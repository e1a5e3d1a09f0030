import Reshape.Proofs.Broadcast
import Reshape.Proofs.Duality
import Reshape.Proofs.Parts

/-!
This module contains the texts of a list index, which may have leading zeros. The main statement,
`respelled_index`, says when such texts are interchangeable in a path, and `respelled_index_apart`
shows where they are not: objects take them as keys, and what two paths share is told by their texts.
-/

namespace Reshape

/--
Two texts of one list index, neither of which has more digits than are read.
-/
structure Respells (a b : String) : Prop where
  sameIndex : SameIndex a b
  left_le : a.length ≤ Decimal.maxDigits
  right_le : b.length ≤ Decimal.maxDigits

/--
Whether a relocation goes on to give up its source and to place it: there is something at the source,
and the container where the paths are followed from takes the next segment of the target. A list that
cannot look this segment up fails then.
-/
def attempted (source target : List String) (root : Value) : Bool :=
  let start := root.seek (pivot source target)
  let next := fork source target
  decide (root.seek source ≠ .missing) &&
    (target.isEmpty || start.refuses next || start.accepts next)

section Segment

variable {a b : String} {v : Value}

theorem Respells.ne_wildcard (h : Respells a b) : a ≠ Path.wildcard ∧ b ≠ Path.wildcard := by
  obtain ⟨i, ha, hb⟩ := h.sameIndex
  constructor
  · rintro rfl
    cases ha
  · rintro rfl
    cases hb

theorem Respells.slot? (h : Respells a b) (hv : v.frame ≠ .object) : v.slot? a = v.slot? b := by
  obtain ⟨i, ha, hb⟩ := h.sameIndex
  cases v with
  | list items => rw [Value.slot?, Value.slot?, ha, hb]
  | object fields => exact absurd rfl hv
  | _ => rfl

theorem Respells.refuses (h : Respells a b) (v : Value)
    : v.refuses a = false ∧ v.refuses b = false := by
  cases v with
  | list items => simp [Value.refuses, h.left_le, h.right_le]
  | _ => exact ⟨rfl, rfl⟩

theorem Respells.child (h : Respells a b) (hv : v.frame ≠ .object) : v.child a = v.child b := by
  rw [Value.child, Value.child, h.slot? hv]

theorem Respells.accepts (h : Respells a b) (hv : v.frame ≠ .object)
    : v.accepts a = v.accepts b := by
  rw [Value.accepts, Value.accepts, h.slot? hv]

theorem Respells.assign (h : Respells a b) (hv : v.frame ≠ .object) (new : Value)
    : v.assign a new = v.assign b new := by
  unfold Value.assign
  rw [h.slot? hv]

end Segment

section Segments

variable {v w : Value} {p : List String} {a b : String}

theorem Respells.seek (h : Respells a b) (hv : (v.seek p).frame ≠ .object) (s : List String)
    : v.seek (p ++ a :: s) = v.seek (p ++ b :: s) := by
  rw [Value.seek_append, Value.seek_append, Value.seek, Value.seek, h.child hv]

theorem Respells.blocked (h : Respells a b) (hv : (v.seek p).frame ≠ .object) (s : List String)
    : v.blocked (p ++ a :: s) = v.blocked (p ++ b :: s) := by
  obtain ⟨ha, hb⟩ := h.refuses (v.seek p)
  rw [Value.blocked_append, Value.blocked_append, Value.blocked, Value.blocked, h.child hv, ha, hb]

theorem Respells.detach (h : Respells a b) (hv : (v.seek p).frame ≠ .object) (s : List String)
    : v.detach (p ++ a :: s) = v.detach (p ++ b :: s) := by
  have hinner : (v.seek p).detach (a :: s) = (v.seek p).detach (b :: s) := by
    cases s with
    | nil => rw [Value.detach, Value.detach, h.slot? hv]
    | cons next s =>
      have hbelow (segment : String) : (v.seek p).detach (segment :: next :: s) =
          (v.seek p).assign segment (((v.seek p).child segment).detach (next :: s)) := rfl
      rw [hbelow, hbelow, h.child hv, h.assign hv]
  rw [Value.detach_append (List.cons_ne_nil a s), Value.detach_append (List.cons_ne_nil b s), hinner]

theorem Respells.placed (h : Respells a b) (hleads : v.leads p w) (hw : w.frame ≠ .object)
    (ha : w.accepts a = true) (new : Value) (s : List String)
    : Value.placed new (p ++ a :: s) v = Value.placed new (p ++ b :: s) v := by
  have hb : w.accepts b = true := by
    rw [← h.accepts hw, ha]
  rw [Value.placed_append hleads (show w.admits (a :: s) = true from ha),
    Value.placed_append hleads (show w.admits (b :: s) = true from hb), Value.placed, Value.placed,
    h.child hw, h.assign hw]

/--
What leads to a container still leads to it when something has been given up that is neither the
container itself nor around it.
-/
theorem leads_detach {source : List String} (h : v.leads p w)
    (hs : ¬ v.address source <+: v.address p)
    : ∃ w', (v.detach source).leads p w' ∧ w'.frame = w.frame := by
  induction p generalizing v source with
  | nil =>
    rw [Value.leads_nil] at h
    have hne : source ≠ [] := by
      rintro rfl
      exact hs List.nil_prefix
    rw [h]
    exact ⟨v.detach source, Value.leads_nil.mpr rfl, Value.frame_detach hne v⟩
  | cons segment p ih =>
    obtain ⟨slot, hslot⟩ := Value.slot?_of_child_ne (Value.child_ne_of_leads h)
    obtain ⟨hr, hc, hp⟩ := Value.leads_cons.mp h
    rw [Value.address, hslot] at hs
    cases source with
    | nil => exact absurd List.nil_prefix hs
    | cons first rest =>
      have hframe : (v.detach (first :: rest)).frame = v.frame :=
        Value.frame_detach (List.cons_ne_nil first rest) v
      have hchild : (v.detach (first :: rest)).child segment =
          ((v.detach (first :: rest)).get? slot).getD .missing := by
        apply Value.child_of_slot?
        rw [Value.slot?_congr hframe, hslot]
      -- The container still leads on if what is found in the slot does.
      have lead {inner w' : Value}
          (hinner : ((v.detach (first :: rest)).get? slot).getD .missing = inner)
          (hcontainer : inner.isContainer = true) (hrest : inner.leads p w')
          : (v.detach (first :: rest)).leads (segment :: p) w' := by
        rw [Value.leads_cons, Value.refuses_congr hframe, hchild, hinner]
        exact ⟨hr, hcontainer, hrest⟩
      rw [Value.address] at hs
      cases hother : v.slot? first with
      | none =>
        rw [hother] at hs
        exact absurd List.nil_prefix hs
      | some other =>
        rw [hother] at hs
        by_cases heq : slot = other
        · subst heq
          have hsame : v.child first = v.child segment := by
            rw [Value.child_of_slot? hother, Value.child_of_slot? hslot]
          rw [List.cons_prefix_cons, hsame] at hs
          have hrest : rest ≠ [] := by
            rintro rfl
            exact hs ⟨rfl, List.nil_prefix⟩
          obtain ⟨w', hw', hframe'⟩ := ih hp fun hprefix => hs ⟨rfl, hprefix⟩
          refine ⟨w', lead ?_ ?_ hw', hframe'⟩
          · rw [Value.detach_cons hother hrest, Value.get?_put_self (Value.hasSlot_of_slot? hother),
              hsame]
            rfl
          · rw [Value.isContainer_congr (Value.frame_detach hrest _), hc]
        · refine ⟨w, lead ?_ hc hp, rfl⟩
          rw [Value.get?_detach_of_ne hother heq, ← Value.child_of_slot? hslot]

end Segments

section Walk

variable {m : Type → Type} [Monad m] {a b : String}

theorem visitItems_congr {f g : Nat → Value → m Value} {start : Nat} {items : List Value}
    (h : ∀ i (hi : i < items.length), f (start + i) items[i] = g (start + i) items[i])
    : visitItems f start items = visitItems g start items := by
  induction items generalizing start with
  | nil => rfl
  | cons item items ih =>
    have hrest : visitItems f (start + 1) items = visitItems g (start + 1) items := by
      apply ih
      intro i hi
      have hnext := h (i + 1) (Nat.succ_lt_succ hi)
      rw [List.getElem_cons_succ, Nat.add_comm i, ← Nat.add_assoc] at hnext
      exact hnext
    rw [visitItems, visitItems, hrest]
    congr 1
    exact h 0 (Nat.zero_lt_succ _)

theorem visitSlot_congr {f g : Value → m Value} {rest rest' : List String} {v : Value} {slot : Slot}
    (hentered : let content := (v.get? slot).getD .missing
      entered rest content = entered rest' content)
    (h : let content := (v.get? slot).getD .missing
      entered rest content = true → f content = g content)
    : visitSlot f rest v slot = visitSlot g rest' v slot := by
  unfold visitSlot
  dsimp only at hentered h ⊢
  rw [← hentered]
  split
  · next he => rw [h he]
  · rfl

variable [MonadExcept Error m]

theorem walk_respelled (h : Respells a b) (visit : Address → Value → m Value) {p : List String}
    {v : Value} (hmet : ∀ r ∈ resolved p v, (v.look r).frame ≠ .object) (s : List String)
    : walk visit (p ++ a :: s) v = walk visit (p ++ b :: s) v := by
  induction p generalizing visit v with
  | nil =>
    have hv : v.frame ≠ .object := hmet [] (List.mem_singleton.mpr rfl)
    obtain ⟨ha, hb⟩ := h.ne_wildcard
    obtain ⟨hra, hrb⟩ := h.refuses v
    rw [List.nil_append, List.nil_append, walk_of_not_fans (Value.not_fans ha v),
      walk_of_not_fans (Value.not_fans hb v), hra, hrb, h.slot? hv]
  | cons first p ih =>
    -- What the first segment enters is walked alike by the hypothesis of the induction.
    have hbranch : ∀ branch ∈ branches first v, ∀ visit : Address → Value → m Value,
        entered (p ++ a :: s) branch.2 = entered (p ++ b :: s) branch.2 ∧
          (entered (p ++ a :: s) branch.2 = true →
            walk visit (p ++ a :: s) branch.2 = walk visit (p ++ b :: s) branch.2) := by
      intro branch hmem visit
      have hentered (segment : String)
          : entered (p ++ segment :: s) branch.2 = branch.2.isContainer := by
        cases p <;> rfl
      rw [hentered, hentered]
      refine ⟨rfl, ?_⟩
      intro hc
      apply ih
      intro r hr
      rw [← look_of_mem hmem]
      apply hmet
      apply cons_mem_resolved hmem _ hr
      rw [entered, hc, Bool.or_true]
    cases hfans : v.fans first with
    | true =>
      obtain ⟨rfl, items, rfl⟩ := Value.eq_list_of_fans hfans
      rw [List.cons_append, List.cons_append, walk, walk, if_pos rfl, if_pos rfl]
      congr 1
      apply visitItems_congr
      intro i hi
      have hmem : (Slot.index (0 + i), items[i]) ∈ branches Path.wildcard (.list items) := by
        rw [branches_list, if_pos rfl, List.mem_map]
        refine ⟨(items[i], 0 + i), ?_, rfl⟩
        rw [List.mk_mem_zipIdx_iff_getElem?, Nat.zero_add, List.getElem?_eq_getElem hi]
      obtain ⟨hentered, hwalk⟩ := hbranch _ hmem fun r => visit (.index (0 + i) :: r)
      rw [← hentered]
      split
      · next he => rw [hwalk he]
      · rfl
    | false =>
      rw [List.cons_append, List.cons_append, walk_of_not_fans hfans, walk_of_not_fans hfans]
      cases hslot : v.slot? first with
      | none => rfl
      | some slot =>
        have hmem : (slot, (v.get? slot).getD .missing) ∈ branches first v := by
          rw [branches_of_not_fans hfans, branches.named_of_slot? hslot]
          exact List.mem_singleton.mpr rfl
        obtain ⟨hentered, hwalk⟩ := hbranch _ hmem fun r => visit (slot :: r)
        rw [Option.elim_some, Option.elim_some, visitSlot_congr hentered hwalk]

end Walk

section Relocate

variable {root : Value} {source target p s : List String} {a b : String} {items : List Value}

/--
What a relocation comes to that does not move the value itself.
-/
def yielded (keep : Bool) (source target : List String) (root : Value) : Except Error Value :=
  if root.blocked source then .error .tooManyDigits
  else if attempted source target root = false then .ok root
  else if (root.remainder keep source).blocked target then .error .tooManyDigits
  else .ok (Value.placed (root.seek source) target (root.remainder keep source))

theorem attempted_of_ne (ht : target ≠ [])
    : attempted source target root = true ↔ root.seek source ≠ .missing ∧
        ((root.seek (pivot source target)).refuses (fork source target) = true ∨
          (root.seek (pivot source target)).accepts (fork source target) = true) := by
  simp [attempted, ht]

/--
A list that cannot look up the segment where the paths part is still there for the placement.
-/
theorem blocked_remainder (keep : Bool) (hs : source ≠ []) (ht : target ≠ [])
    (hb : root.blocked source = false)
    (hr : (root.seek (pivot source target)).refuses (fork source target) = true)
    : (root.remainder keep source).blocked target = true := by
  obtain ⟨q, t, hq, hsource, htarget⟩ := pivot_spec hs ht
  generalize pivot source target = p at *
  generalize fork source target = next at *
  subst hsource htarget
  rw [Value.blocked_append, Bool.or_eq_false_iff] at hb
  have hcontainer : (root.seek p).isContainer = true := by
    by_contra hleaf
    rw [Value.refuses_of_not_container (by simpa using hleaf)] at hr
    cases hr
  obtain ⟨hleads, -⟩ := leads_remainder keep hq (Value.leads_seek hb.1 hcontainer)
  rw [Value.blocked_append, Value.seek_of_leads hleads, Value.blocked,
    Value.refuses_congr (frame_ite_detach keep hq (root.seek p)), hr]
  simp

theorem yielded_of_blocked {keep : Bool} (h : root.blocked source = true)
    : yielded keep source target root = .error .tooManyDigits := if_pos h

theorem yielded_of_not_attempted {keep : Bool} (hb : root.blocked source = false)
    (ha : attempted source target root = false)
    : yielded keep source target root = .ok root := by
  rw [yielded, hb, ha]
  rfl

theorem yielded_of_attempted {keep : Bool} (hb : root.blocked source = false)
    (ha : attempted source target root = true)
    : yielded keep source target root =
        if (root.remainder keep source).blocked target then .error .tooManyDigits
        else .ok (Value.placed (root.seek source) target (root.remainder keep source)) := by
  rw [yielded, hb, ha]
  rfl

theorem result_relocate_to_root (keep : Bool) (source : List String) (root : Value)
    : (relocate keep source [] root).result = yielded keep source [] root := by
  have hrelocate : relocate keep source [] root =
      if root.blocked source then .fail root .tooManyDigits
      else .stay (if root.seek source = .missing then root else root.seek source) := by
    by_cases hs : source = []
    · subst hs
      show Relocation.stay root = .stay (if root = .missing then root else root)
      rw [ite_self]
    · exact relocate_to_root keep hs root
  have hattempted : attempted source [] root = decide (root.seek source ≠ .missing) := by
    simp [attempted]
  rw [hrelocate]
  cases hb : root.blocked source with
  | true => exact (yielded_of_blocked hb).symm
  | false =>
    by_cases hfound : root.seek source = .missing
    · rw [yielded_of_not_attempted hb (by simp [hattempted, hfound]), if_pos hfound]
      rfl
    · rw [yielded_of_attempted hb (by simp [hattempted, hfound]), if_neg hfound]
      rfl

theorem result_copy_root (ht : target ≠ []) (root : Value)
    : (relocate true [] target root).result = yielded true [] target root := by
  obtain ⟨next, rest, rfl⟩ := List.exists_cons_of_ne_nil ht
  obtain ⟨log, hroot⟩ := relocate_of_root true (next :: rest) root
  have hattempted : attempted [] (next :: rest) root = true ↔
      root.refuses next = true ∨ root.accepts next = true := by
    rw [attempted_of_ne ht]
    refine ⟨And.right, ?_⟩
    intro h
    refine ⟨?_, h⟩
    rintro rfl
    rcases h with h | h <;> cases h
  have hb : root.blocked [] = false := rfl
  have hadmits : root.admits (next :: rest) = root.accepts next := rfl
  have hblocked : root.blocked (next :: rest) =
      (root.refuses next || (root.child next).blocked rest) := rfl
  rw [hroot, hadmits]
  cases ha : attempted [] (next :: rest) root with
  | true =>
    rw [yielded_of_attempted hb ha]
    rw [hattempted] at ha
    by_cases hrefused : root.blocked (next :: rest) = true
    · rw [if_pos ⟨rfl, ht, hrefused⟩]
      exact (if_pos hrefused).symm
    · have haccepts : root.accepts next = true := by
        apply ha.resolve_left
        intro hr
        rw [hblocked, hr] at hrefused
        exact hrefused rfl
      rw [if_neg fun h => hrefused h.2.2, if_neg (by simp [haccepts])]
      exact (if_neg hrefused).symm
  | false =>
    rw [yielded_of_not_attempted hb ha]
    rw [← Bool.not_eq_true, hattempted, not_or] at ha
    rw [hblocked, Value.child_of_not_accepts ha.2, Value.blocked_missing, Bool.or_false,
      if_neg fun h => ha.1 h.2.2, if_pos (by simp [ha.2])]
    rfl

theorem result_relocate_of_ne (keep : Bool) (hs : source ≠ []) (ht : target ≠ []) (root : Value)
    : (relocate keep source target root).result = yielded keep source target root := by
  by_cases hr : root.blocked source = true ∨ root.seek source ≠ .missing ∧
      (root.seek (pivot source target)).refuses (fork source target) = true
  · rw [relocate_of_refused keep hs ht hr]
    cases hb : root.blocked source with
    | true => exact (yielded_of_blocked hb).symm
    | false =>
      obtain ⟨hfound, hrefuses⟩ := hr.resolve_left (by simp [hb])
      rw [yielded_of_attempted hb ((attempted_of_ne ht).mpr ⟨hfound, Or.inl hrefuses⟩),
        blocked_remainder keep hs ht hb hrefuses]
      rfl
  · have hfree := hr
    rw [not_or, Bool.not_eq_true, not_and, Bool.not_eq_true] at hfree
    by_cases hstays : root.seek source = .missing ∨
        (root.seek (pivot source target)).accepts (fork source target) = false
    · have hattempted : attempted source target root = false := by
        rw [← Bool.not_eq_true, attempted_of_ne ht]
        rintro ⟨hfound, htakes⟩
        have haccepts := htakes.resolve_left (by simp [hfree.2 hfound])
        simp [hfound, haccepts] at hstays
      rw [relocate_of_unreachable keep hs ht hr hstays,
        yielded_of_not_attempted hfree.1 hattempted]
      rfl
    · obtain ⟨-, log, hfound⟩ := relocate_of_found keep hs ht hr hstays
      rw [not_or, Bool.not_eq_false] at hstays
      have hattempted := (attempted_of_ne ht).mpr ⟨hstays.1, Or.inr hstays.2⟩
      rw [hfound, yielded_of_attempted hfree.1 hattempted]
      split
      · rfl
      · rfl

/--
What a relocation yields, unless it moves the value itself below a fresh object.
-/
theorem result_relocate (keep : Bool) (source target : List String) (root : Value)
    (h : source = [] → keep = true)
    : (relocate keep source target root).result = yielded keep source target root := by
  by_cases ht : target = []
  · rw [ht]
    exact result_relocate_to_root keep source root
  · by_cases hs : source = []
    · rw [h hs, hs]
      exact result_copy_root ht root
    · exact result_relocate_of_ne keep hs ht root

/--
A respelled segment of the source that does not meet an object.
-/
theorem relocate_source_respelled (hab : Respells a b) (keep : Bool)
    (hp : (root.seek p).frame ≠ .object)
    (hsame : attempted (p ++ a :: s) target root = attempted (p ++ b :: s) target root)
    : (relocate keep (p ++ a :: s) target root).result =
        (relocate keep (p ++ b :: s) target root).result := by
  have hne (segment : String) : p ++ segment :: s = [] → keep = true := by simp
  rw [result_relocate keep _ target root (hne a), result_relocate keep _ target root (hne b),
    yielded, yielded, hsame, hab.blocked hp, hab.seek hp, Value.remainder, Value.remainder,
    hab.detach hp]

/--
A respelled segment of the target that names an element of a list, which the source does not take
away.
-/
theorem relocate_target_respelled (hab : Respells a b) (keep : Bool)
    (hp : root.leads p (.list items))
    (hsource : keep = false → ¬ root.address source <+: root.address p)
    (hslot : attempted source (p ++ a :: s) root = true → (Value.list items).accepts a = true)
    (hsame : attempted source (p ++ a :: s) root = attempted source (p ++ b :: s) root)
    : (relocate keep source (p ++ a :: s) root).result =
        (relocate keep source (p ++ b :: s) root).result := by
  have hne : source = [] → keep = true := by
    rintro rfl
    by_contra hkeep
    exact hsource (by simpa using hkeep) List.nil_prefix
  obtain ⟨w, hw, hframe⟩ : ∃ w, (root.remainder keep source).leads p w ∧
      w.frame = (Value.list items).frame := by
    cases keep with
    | true => exact ⟨_, hp, rfl⟩
    | false => exact leads_detach hp (hsource rfl)
  have hlist : w.frame ≠ .object := by
    rw [hframe]
    rintro ⟨⟩
  have hseek : ((root.remainder keep source).seek p).frame ≠ .object := by
    rw [Value.seek_of_leads hw]
    exact hlist
  rw [result_relocate keep source _ root hne, result_relocate keep source _ root hne, yielded,
    yielded, ← hsame, hab.blocked hseek]
  split
  · rfl
  · split
    · rfl
    · next hattempted =>
      rw [Bool.not_eq_false] at hattempted
      have haccepts : w.accepts a = true := by
        rw [Value.accepts_congr hframe]
        exact hslot hattempted
      rw [hab.placed hw hlist haccepts]

end Relocate

section Shared

variable {root : Value} {p q s : List String} {a b : String}

/--
What two paths share does not depend on a segment that they do not share.
-/
theorem sharedStart_of_not_prefix (h : ¬ p ++ [a] <+: q) (s : List String)
    : sharedStart (p ++ a :: s) q = sharedStart p q := by
  induction p generalizing q with
  | nil =>
    cases q with
    | nil => rfl
    | cons c q =>
      have hne : a ≠ c := by
        rintro rfl
        exact h (List.cons_prefix_cons.mpr ⟨rfl, List.nil_prefix⟩)
      exact if_neg hne
  | cons first p ih =>
    cases q with
    | nil => rfl
    | cons c q =>
      rw [List.cons_append, sharedStart, sharedStart]
      split
      · next heq =>
        rw [ih]
        intro hprefix
        apply h
        rw [List.cons_append, List.cons_prefix_cons]
        exact ⟨heq, hprefix⟩
      · rfl

theorem pivot_respelled (ha : ¬ p ++ [a] <+: q) (hb : ¬ p ++ [b] <+: q) (s : List String)
    : pivot (p ++ a :: s) q = pivot (p ++ b :: s) q ∧
        pivot q (p ++ a :: s) = pivot q (p ++ b :: s) ∧ pivot q (p ++ a :: s) <+: p := by
  have hlength : (p ++ a :: s).length = (p ++ b :: s).length := by simp
  have hshared (segment : String) := sharedStart_comm q (p ++ segment :: s)
  unfold pivot
  rw [hshared, hshared, sharedStart_of_not_prefix ha, sharedStart_of_not_prefix hb, hlength]
  exact ⟨rfl, rfl, (List.take_prefix _ _).trans (sharedStart_prefix_left p q)⟩

theorem fork_respelled {shared : List String} (h : shared <+: p)
    : shared = p ∨ ∀ a b s, ((p ++ a :: s).drop shared.length).headD "" =
        ((p ++ b :: s).drop shared.length).headD "" := by
  obtain ⟨rest, rfl⟩ := h
  cases rest with
  | nil =>
    left
    rw [List.append_nil]
  | cons next rest =>
    right
    intro a b s
    rw [List.append_assoc, List.append_assoc, List.drop_left, List.drop_left]
    rfl

/--
How a segment is spelled has no say in whether a relocation is attempted if the other path does not go
on with it in either of the spellings.
-/
theorem attempted_respelled (hab : Respells a b) (hp : (root.seek p).frame ≠ .object)
    (ha : ¬ p ++ [a] <+: q) (hb : ¬ p ++ [b] <+: q) (s : List String)
    : attempted (p ++ a :: s) q root = attempted (p ++ b :: s) q root ∧
        attempted q (p ++ a :: s) root = attempted q (p ++ b :: s) root := by
  obtain ⟨hsource, htarget, hprefix⟩ := pivot_respelled ha hb s
  constructor
  · unfold attempted fork
    rw [hab.seek hp, hsource]
  · have hempty (segment : String) : (p ++ segment :: s).isEmpty = false := by
      cases p <;> rfl
    unfold attempted fork
    rw [hempty, hempty, ← htarget]
    rcases fork_respelled hprefix with hpivot | hnext
    · have hhead (segment : String) : ((p ++ segment :: s).drop p.length).headD "" = segment := by
        rw [List.drop_left]
        rfl
      obtain ⟨hra, hrb⟩ := hab.refuses (root.seek p)
      rw [hpivot, hhead, hhead]
      dsimp only
      rw [hra, hrb, hab.accepts hp]
    · rw [hnext a b s]

end Shared

section Ends

variable {v w : Value} {source target : List String}

/--
Whether a value can be the end of a relocation, and names the place that the segments lead to.
-/
def Value.Names (v : Value) (segments : List String) : Prop :=
  ∃ path, Path.ofValue v = .ok path ∧ path.segments = segments ∧ path.hasWildcard = false

theorem Direct.result_relocateTo (keep : Bool) (root : Value) (hs : v.Names source)
    (ht : w.Names target)
    : (relocateTo keep root v w).result = (relocate keep source target root).result := by
  obtain ⟨path, hpath, rfl, hw⟩ := hs
  obtain ⟨path', hpath', rfl, hw'⟩ := ht
  rw [relocateTo_of_path keep root hpath hpath' hw hw']
  rfl

end Ends

/--
When the texts of a list index are interchangeable. A walk tells them apart only at an object, which
takes them as keys. A relocation tells them apart only

- if the segment belongs to the target and, by the time the target is reached, there is no element of a
  list that it names, because the index is too high or because the list has gone with the source, and
- if the other path goes on with one of the texts, so that the paths are followed from further below.
  That makes a difference only if what stands there does not take the rest of the target, and the value
  stays as it is then.
-/
theorem respelled_index {p s : List String} {a b : String} (hab : Respells a b) (root : Value)
    : (∀ (m : Type → Type) [Monad m] [MonadExcept Error m] (visit : Address → Value → m Value)
        (path path' : Path), path.segments = p ++ a :: s → path'.segments = p ++ b :: s →
        (∀ r ∈ resolved p root, (root.look r).frame ≠ .object) →
        applyAt path visit root = applyAt path' visit root) ∧
      (∀ (keep : Bool) (source source' target : Value) (items : List Value) (q : List String),
        source.Names (p ++ a :: s) → source'.Names (p ++ b :: s) → target.Names q →
        root.leads p (.list items) →
        attempted (p ++ a :: s) q root = attempted (p ++ b :: s) q root →
        (Direct.relocateTo keep root source target).result =
          (Direct.relocateTo keep root source' target).result) ∧
      (∀ (keep : Bool) (source target target' : Value) (items : List Value) (q : List String),
        source.Names q → target.Names (p ++ a :: s) → target'.Names (p ++ b :: s) →
        root.leads p (.list items) →
        (keep = false → ¬ root.address q <+: root.address p) →
        (attempted q (p ++ a :: s) root = true → (Value.list items).accepts a = true) →
        attempted q (p ++ a :: s) root = attempted q (p ++ b :: s) root →
        (Direct.relocateTo keep root source target).result =
          (Direct.relocateTo keep root source target').result) ∧
      (∀ (items : List Value) (q : List String), root.leads p (.list items) →
        ¬ p ++ [a] <+: q → ¬ p ++ [b] <+: q →
        attempted (p ++ a :: s) q root = attempted (p ++ b :: s) q root ∧
          attempted q (p ++ a :: s) root = attempted q (p ++ b :: s) root) ∧
      (∀ (keep : Bool) (source target : Value) (q t : List String),
        source.Names q → target.Names t → (q = [] → keep = true) → root.blocked q = false →
        attempted q t root = false →
        (Direct.relocateTo keep root source target).result = .ok root) := by
  have hlist {items : List Value} (hp : root.leads p (.list items))
      : (root.seek p).frame ≠ .object := by
    rw [Value.seek_of_leads hp]
    rintro ⟨⟩
  refine ⟨?_, ?_, ?_, ?_, ?_⟩
  · intro m _ _ visit path path' hpath hpath' hmet
    rw [applyAt_of_segments hpath, applyAt_of_segments hpath']
    exact walk_respelled hab visit hmet s
  · intro keep source source' target items q hsource hsource' htarget hp hsame
    rw [Direct.result_relocateTo keep root hsource htarget,
      Direct.result_relocateTo keep root hsource' htarget]
    exact relocate_source_respelled hab keep (hlist hp) hsame
  · intro keep source target target' items q hsource htarget htarget' hp hkept hslot hsame
    rw [Direct.result_relocateTo keep root hsource htarget,
      Direct.result_relocateTo keep root hsource htarget']
    exact relocate_target_respelled hab keep hp hkept hslot hsame
  · intro items q hp ha hb
    exact attempted_respelled hab (hlist hp) ha hb s
  · intro keep source target q t hsource htarget hroot hb hattempted
    rw [Direct.result_relocateTo keep root hsource htarget, result_relocate keep q t root hroot]
    exact yielded_of_not_attempted hb hattempted

theorem respelled_index_element
    : let root : Value := .object [(.str "x", .list [.int 1, .int 2]), (.str "y", .int 3)]
      let items : List Value := [.int 1, .int 2]
      let visit := recording fun _ => .null
      Respells "1" "01" ∧ root.leads ["x"] (.list items) ∧
        (∀ r ∈ resolved ["x"] root, (root.look r).frame ≠ .object) ∧
        applyAt ⟨"x.1"⟩ visit root = applyAt ⟨"x.01"⟩ visit root ∧
        (Direct.relocateTo false root (.str "x.1") (.str "y")).result =
          (Direct.relocateTo false root (.str "x.01") (.str "y")).result ∧
        (Direct.relocateTo false root (.str "y") (.str "x.1")).result =
          (Direct.relocateTo false root (.str "y") (.str "x.01")).result ∧
        (Direct.relocateTo false root (.str "z") (.str "y")).result = .ok root := by
  intro root items visit
  have hab : Respells "1" "01" := ⟨⟨1, rfl, rfl⟩, by decide, by decide⟩
  have hone : Path.segments ⟨"x.1"⟩ = ["x"] ++ "1" :: [] := by decide +kernel
  have hother : Path.segments ⟨"x.01"⟩ = ["x"] ++ "01" :: [] := by decide +kernel
  have hp : root.leads ["x"] (.list items) := rfl
  have hmet : ∀ r ∈ resolved ["x"] root, (root.look r).frame ≠ .object := by
    have hresolved : resolved ["x"] root = [[.key (.str "x")]] := rfl
    rw [hresolved]
    intro r hr
    rw [List.mem_singleton.mp hr]
    rintro ⟨⟩
  have names {text : String} {segments : List String} (h : Path.segments ⟨text⟩ = segments)
      (hw : Path.hasWildcard ⟨text⟩ = false) : (Value.str text).Names segments :=
    ⟨⟨text⟩, rfl, h, hw⟩
  have hx := names hone (by decide +kernel)
  have hx' := names hother (by decide +kernel)
  have hy : (Value.str "y").Names ["y"] := names (by decide +kernel) (by decide +kernel)
  have hz : (Value.str "z").Names ["z"] := names (by decide +kernel) (by decide +kernel)
  obtain ⟨happly, hsource, htarget, hattempted, hstays⟩ :=
    @respelled_index ["x"] [] "1" "01" hab root
  obtain ⟨hfrom, hto⟩ := hattempted items ["y"] hp (by decide) (by decide)
  exact ⟨hab, hp, hmet, happly _ _ _ _ hone hother hmet,
    hsource false _ _ _ items _ hx hx' hy hp hfrom,
    htarget false _ _ _ items _ hy hx hx' hp (fun _ => by decide) (fun _ => rfl) hto,
    hstays false _ _ _ _ hz hy (by decide) rfl (by decide)⟩

/--
Texts of one list index that come to different results: where the paths share the text or do not share
it, where the index is too high, where the list itself is moved, and where a path fans out.
-/
theorem respelled_index_apart
    : let nested : Value := .object [(.str "x", .list [.list [.int 1, .int 2]])]
      let flat : Value := .object [(.str "x", .list [.int 1]), (.str "y", .int 5)]
      let mixed : Value := .list [.list [.int 1], .object [(.str "0", .int 2)]]
      let move := Direct.relocateTo false
      Respells "0" "00" ∧ Respells "7" "07" ∧
        nested.leads ["x"] (.list [.list [.int 1, .int 2]]) ∧
        (move nested (.str "x.0.1") (.str "x.0.b")).result = .ok nested ∧
        (move nested (.str "x.0.1") (.str "x.00.b")).result =
          .ok (.object [(.str "x", .list [.object [(.str "b", .int 2)]])]) ∧
        (move nested (.str "x.0.1") (.str "x.0.b")).result ≠
          (move nested (.str "x.0.1") (.str "x.00.b")).result ∧
        flat.leads ["x"] (.list [.int 1]) ∧
        (move flat (.str "y") (.str "x.7")).result =
          .ok (.object [(.str "x", .object [(.str "7", .int 5)])]) ∧
        (move flat (.str "y") (.str "x.07")).result =
          .ok (.object [(.str "x", .object [(.str "07", .int 5)])]) ∧
        (move flat (.str "x") (.str "x.0")).result =
          .ok (.object [(.str "y", .int 5), (.str "x", .object [(.str "0", .list [.int 1])])]) ∧
        (move flat (.str "x") (.str "x.00")).result =
          .ok (.object [(.str "y", .int 5), (.str "x", .object [(.str "00", .list [.int 1])])]) ∧
        Direct.unsetAt mixed (.str "$.0") = Outcome.ok (.list [.list [.null], .object []]) ∧
        Direct.unsetAt mixed (.str "$.00") =
          Outcome.ok (.list [.list [.null], .object [(.str "0", .int 2)]]) := by
  intro nested flat mixed move
  have h0 : Respells "0" "00" := ⟨⟨0, rfl, rfl⟩, by decide, by decide⟩
  have h7 : Respells "7" "07" := ⟨⟨7, rfl, rfl⟩, by decide, by decide⟩
  refine ⟨h0, h7, rfl, rfl, rfl, ?_, rfl, rfl, rfl, rfl, rfl, rfl, rfl⟩
  show Except.ok nested ≠ .ok (.object [(.str "x", .list [.object [(.str "b", .int 2)]])])
  simp [nested]

end Reshape
