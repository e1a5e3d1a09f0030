import Mathlib.Data.List.Induction
import Reshape.Proofs.Soundness

/-!
This module contains what the history of a registry tells of it, the registrations and removals
that have succeeded. Names are bound to the sets of their last registrations, and they stand in the
order in which they have come in: replacing a name keeps its place, and a name that has been given
up comes in anew. The main statement, `Follows.append`, says that a registry follows its history.
-/

namespace Reshape

/--
A registration that has succeeded: the name, the procedure as it was given and the set that the
procedure is.
-/
structure Binding where
  name : String
  procedure : Value
  handle : Nat

inductive Change where
  | bind (binding : Binding)
  | drop (name : String)

namespace Change

def name : Change → String
  | .bind binding => binding.name
  | .drop name => name

/--
The last registration of a name in a history, if the name has not been given up since.
-/
def LastBound (history : List Change) (binding : Binding) : Prop :=
  ∃ before after, history = before ++ .bind binding :: after ∧ ∀ c ∈ after, c.name ≠ binding.name

/--
The position in a history at which a name has come in: it was not bound before, and it has not been
given up since.
-/
def Entered (history : List Change) (name : String) (n : Nat) : Prop :=
  ∃ before binding after, history = before ++ .bind binding :: after ∧ binding.name = name ∧
    before.length = n ∧ (∀ other, other.name = name → ¬ LastBound before other) ∧
    .drop name ∉ after

variable {history : List Change} {binding : Binding} {c : Change} {name : String} {n : Nat}

theorem not_lastBound_nil : ¬ LastBound [] binding := by
  rintro ⟨before, after, h, -⟩
  simp at h

theorem lastBound_concat
    : LastBound (history ++ [c]) binding ↔
        c = .bind binding ∨ c.name ≠ binding.name ∧ LastBound history binding := by
  constructor
  · rintro ⟨before, after, h, hafter⟩
    rcases List.eq_nil_or_concat after with rfl | ⟨after, last, rfl⟩
    · obtain ⟨-, hc⟩ := List.append_inj' h rfl
      exact Or.inl (List.singleton_inj.mp hc)
    · rw [List.concat_eq_append] at h hafter
      rw [← List.cons_append, ← List.append_assoc] at h
      obtain ⟨hhistory, hc⟩ := List.append_inj' h rfl
      rw [List.singleton_inj.mp hc]
      refine Or.inr ⟨hafter last (by simp), before, after, hhistory, ?_⟩
      intro c hc
      exact hafter c (by simp [hc])
  · rintro (rfl | ⟨hc, before, after, rfl, hafter⟩)
    · exact ⟨history, [], rfl, nofun⟩
    · refine ⟨before, after ++ [c], by simp, ?_⟩
      intro c' hc'
      rcases List.mem_append.mp hc' with hc' | hc'
      · exact hafter c' hc'
      · rw [List.mem_singleton.mp hc']
        exact hc

/--
A name that has been registered and not been given up is bound.
-/
theorem exists_lastBound {after : List Change} (h : .drop binding.name ∉ after)
    (before : List Change)
    : ∃ other, other.name = binding.name ∧ LastBound (before ++ .bind binding :: after) other := by
  induction after using List.reverseRecOn with
  | nil => exact ⟨binding, rfl, before, [], rfl, nofun⟩
  | append_singleton after c ih =>
    rw [List.mem_append, not_or, List.mem_singleton] at h
    rw [← List.cons_append, ← List.append_assoc]
    by_cases hname : c.name = binding.name
    · cases c with
      | bind last => exact ⟨last, hname, lastBound_concat.mpr (Or.inl rfl)⟩
      | drop other =>
        have hname : other = binding.name := hname
        rw [hname] at h
        exact absurd rfl h.2
    · obtain ⟨other, hother, hlast⟩ := ih h.1
      rw [← hother] at hname
      exact ⟨other, hother, lastBound_concat.mpr (Or.inr ⟨hname, hlast⟩)⟩

theorem Entered.unique {m : Nat} (hm : Entered history name m) (hn : Entered history name n)
    : m = n := by
  have hlt {m n : Nat} (hm : Entered history name m) (hn : Entered history name n) : ¬ m < n := by
    intro hmn
    obtain ⟨before, binding, after, rfl, rfl, rfl, -, hkept⟩ := hm
    obtain ⟨before', binding', after', heq, -, rfl, hnew, -⟩ := hn
    -- The later one comes after the earlier one, so the name is bound by then.
    obtain ⟨between, rfl, hafter⟩ : ∃ between, before' = before ++ .bind binding :: between ∧
        after = between ++ .bind binding' :: after' := by
      rcases List.append_eq_append_iff.mp heq with ⟨between, rfl, h⟩ | ⟨between, rfl, h⟩
      · cases between with
        | nil => simp at hmn
        | cons first between =>
          rw [List.cons_append, List.cons.injEq] at h
          obtain ⟨rfl, hafter⟩ := h
          exact ⟨between, rfl, hafter⟩
      · rw [List.length_append] at hmn
        omega
    have hdrop : .drop binding.name ∉ between := by
      intro hmem
      apply hkept
      rw [hafter]
      exact List.mem_append_left _ hmem
    obtain ⟨other, hother, hlast⟩ := exists_lastBound hdrop before
    exact hnew other hother hlast
  have h₁ := hlt hm hn
  have h₂ := hlt hn hm
  omega

theorem Entered.lt (h : Entered history name n) : n < history.length := by
  obtain ⟨before, binding, after, rfl, -, rfl, -⟩ := h
  simp

theorem Entered.concat (h : Entered history name n) (hc : c ≠ .drop name)
    : Entered (history ++ [c]) name n := by
  obtain ⟨before, binding, after, rfl, hname, hn, hnew, hkept⟩ := h
  refine ⟨before, binding, after ++ [c], by simp, hname, hn, hnew, ?_⟩
  rw [List.mem_append, List.mem_singleton, not_or]
  exact ⟨hkept, hc.symm⟩

theorem entered_concat (h : ∀ other, other.name = binding.name → ¬ LastBound history other)
    : Entered (history ++ [.bind binding]) binding.name history.length :=
  ⟨history, binding, [], rfl, rfl, rfl, h, List.not_mem_nil⟩

end Change

namespace Registry

def applied (registry : Registry) : Change → Registry
  | .bind binding => ⟨Assoc.insert binding.name binding.handle registry.procedures⟩
  | .drop name => ⟨Assoc.erase name registry.procedures⟩

/--
The state that a history of changes leads to. Names are bound to the sets of their last
registrations, and they stand in the order in which they have come in.
-/
structure Follows (registry : Registry) (history : List Change) : Prop where
  nodup : registry.names.Nodup
  nonempty : "" ∉ registry.names
  bound : ∀ name handle, registry.find? (.str name) = some handle ↔
    ∃ procedure, Change.LastBound history ⟨name, procedure, handle⟩
  entered : ∀ name ∈ registry.names, ∃ n, Change.Entered history name n
  order : registry.names.Pairwise fun a b =>
    ∀ m n, Change.Entered history a m → Change.Entered history b n → m < n

variable {registry : Registry} {history : List Change}

theorem follows_nil : Follows {} [] where
  nodup := List.nodup_nil
  nonempty := List.not_mem_nil
  bound := by
    intro name handle
    constructor
    · rintro ⟨⟩
    · rintro ⟨procedure, h⟩
      exact absurd h Change.not_lastBound_nil
  entered := by
    rintro name ⟨⟩
  order := List.Pairwise.nil

theorem mem_names_iff {name : String}
    : name ∈ registry.names ↔ ∃ handle, registry.find? (.str name) = some handle := by
  rw [← Option.isSome_iff_exists, ← Option.ne_none_iff_isSome]
  exact (Decidable.not_iff_comm.mp (Assoc.get?_eq_none_iff name registry.procedures).symm).symm

theorem not_mem_names_iff (h : registry.Follows history) {name : String}
    : name ∉ registry.names ↔ ∀ binding : Binding, binding.name = name →
        ¬ Change.LastBound history binding := by
  rw [mem_names_iff]
  constructor
  · rintro hname ⟨name, procedure, handle⟩ rfl hlast
    exact hname ⟨handle, (h.bound name handle).mpr ⟨procedure, hlast⟩⟩
  · rintro hname ⟨handle, hhandle⟩
    obtain ⟨procedure, hlast⟩ := (h.bound name handle).mp hhandle
    exact hname _ rfl hlast

section Applied

variable {c : Change}

theorem bound_applied (h : registry.Follows history) (c : Change) (name : String) (handle : Nat)
    : (registry.applied c).find? (.str name) = some handle ↔
        ∃ procedure, Change.LastBound (history ++ [c]) ⟨name, procedure, handle⟩ := by
  simp only [Change.lastBound_concat]
  by_cases hname : c.name = name
  · subst hname
    cases c with
    | bind binding =>
      have hfind : (registry.applied (.bind binding)).find? (.str binding.name) =
          some binding.handle := by
        apply Assoc.get?_insert_self
      rw [Change.name, hfind]
      constructor
      · rintro ⟨⟩
        exact ⟨binding.procedure, Or.inl rfl⟩
      · rintro ⟨procedure, heq | ⟨hne, -⟩⟩
        · injection heq with heq
          rw [heq]
        · exact absurd rfl hne
    | drop name =>
      have hfind : (registry.applied (.drop name)).find? (.str name) = none := by
        apply Assoc.get?_erase_self
      rw [Change.name, hfind]
      constructor
      · rintro ⟨⟩
      · rintro ⟨procedure, heq | ⟨hne, -⟩⟩
        · cases heq
        · exact absurd rfl hne
  · have hfind : (registry.applied c).find? (.str name) = registry.find? (.str name) := by
      cases c with
      | bind binding => exact Assoc.get?_insert_of_ne (Ne.symm hname) _ _
      | drop dropped => exact Assoc.get?_erase_of_ne (Ne.symm hname) _
    rw [hfind, h.bound]
    constructor
    · rintro ⟨procedure, hlast⟩
      exact ⟨procedure, Or.inr ⟨hname, hlast⟩⟩
    · rintro ⟨procedure, rfl | ⟨-, hlast⟩⟩
      · exact absurd rfl hname
      · exact ⟨procedure, hlast⟩

theorem names_applied_bind (registry : Registry) (binding : Binding)
    : (registry.applied (.bind binding)).names =
        if binding.name ∈ registry.names then registry.names
        else registry.names ++ [binding.name] :=
  Assoc.keys_insert _ _ _

theorem names_applied_drop (registry : Registry) (name : String)
    : (registry.applied (.drop name)).names =
        registry.names.filter fun other => decide (other ≠ name) :=
  Assoc.keys_erase _ _

/--
The names that stay are where they were.
-/
theorem order_concat (h : registry.Follows history) {names : List String}
    (hnames : names.Sublist registry.names) (hc : ∀ name ∈ names, c ≠ .drop name)
    : names.Pairwise fun a b => ∀ m n,
        Change.Entered (history ++ [c]) a m → Change.Entered (history ++ [c]) b n → m < n := by
  have hentered {name : String} (hname : name ∈ names) {n : Nat}
      (hn : Change.Entered (history ++ [c]) name n) : Change.Entered history name n := by
    obtain ⟨m, hm⟩ := h.entered name (hnames.subset hname)
    rw [← (hm.concat (hc name hname)).unique hn]
    exact hm
  refine (h.order.sublist hnames).imp_of_mem ?_
  intro a b ha hb hab m n hm hn
  exact hab m n (hentered ha hm) (hentered hb hn)

theorem Follows.bind (h : registry.Follows history) {binding : Binding} (hname : binding.name ≠ "")
    : (registry.applied (.bind binding)).Follows (history ++ [.bind binding]) := by
  have hsound := insert_sound ⟨h.nodup, h.nonempty⟩ hname binding.handle
  have hstay : ∀ name ∈ registry.names, Change.bind binding ≠ .drop name := by
    rintro name - ⟨⟩
  have hentered : ∀ name ∈ registry.names,
      ∃ n, Change.Entered (history ++ [.bind binding]) name n := by
    intro name hmem
    obtain ⟨n, hn⟩ := h.entered name hmem
    exact ⟨n, hn.concat (hstay name hmem)⟩
  have horder := order_concat h (List.Sublist.refl _) hstay
  by_cases hmem : binding.name ∈ registry.names
  · have hnames := names_applied_bind registry binding
    rw [if_pos hmem] at hnames
    refine ⟨hsound.nodup, hsound.nonempty, bound_applied h _, ?_, ?_⟩
    · rw [hnames]
      exact hentered
    · rw [hnames]
      exact horder
  · have hnames := names_applied_bind registry binding
    rw [if_neg hmem] at hnames
    -- A name that comes in comes in last.
    have hlast := Change.entered_concat ((not_mem_names_iff h).mp hmem)
    refine ⟨hsound.nodup, hsound.nonempty, bound_applied h _, ?_, ?_⟩
    · rw [hnames]
      intro name hname
      rcases List.mem_append.mp hname with hname | hname
      · exact hentered name hname
      · rw [List.mem_singleton.mp hname]
        exact ⟨_, hlast⟩
    · rw [hnames, List.pairwise_append]
      refine ⟨horder, List.pairwise_singleton _ _, ?_⟩
      intro a ha b hb m n hm hn
      rw [List.mem_singleton.mp hb] at hn
      obtain ⟨m', hm'⟩ := h.entered a ha
      rw [← (hm'.concat (hstay a ha)).unique hm, ← hlast.unique hn]
      exact hm'.lt

theorem Follows.drop (h : registry.Follows history) (name : String)
    : (registry.applied (.drop name)).Follows (history ++ [.drop name]) := by
  have hsound := erase_sound ⟨h.nodup, h.nonempty⟩ name
  have hnames := names_applied_drop registry name
  have hstay : ∀ other ∈ (registry.applied (.drop name)).names, Change.drop name ≠ .drop other := by
    intro other hother
    rw [hnames, List.mem_filter, decide_eq_true_eq] at hother
    rintro ⟨⟩
    exact hother.2 rfl
  have hsublist : (registry.applied (.drop name)).names.Sublist registry.names := by
    rw [hnames]
    exact List.filter_sublist
  refine ⟨hsound.nodup, hsound.nonempty, bound_applied h _, ?_, order_concat h hsublist hstay⟩
  intro other hother
  obtain ⟨n, hn⟩ := h.entered other (hsublist.subset hother)
  exact ⟨n, hn.concat (hstay other hother)⟩

/--
Changes are followed one after the other. Nothing is registered under the empty name.
-/
theorem Follows.append (h : registry.Follows history) {changes : List Change}
    (hnames : ∀ binding, .bind binding ∈ changes → binding.name ≠ "")
    : (changes.foldl applied registry).Follows (history ++ changes) := by
  induction changes generalizing registry history with
  | nil =>
    rw [List.append_nil]
    exact h
  | cons c changes ih =>
    have hrest : ∀ binding, .bind binding ∈ changes → binding.name ≠ "" := fun binding hmem =>
      hnames binding (List.mem_cons_of_mem _ hmem)
    rw [List.append_cons]
    apply ih _ hrest
    cases c with
    | bind binding => exact h.bind (hnames binding List.mem_cons_self)
    | drop name => exact h.drop name

example
    : let set (name : String) (handle : Nat) : Change := .bind ⟨name, .null, handle⟩
      let history := [set "a" 0, set "b" 1, set "a" 2, .drop "b", set "c" 3, set "b" 4]
      (history.foldl applied {}).procedures = [("a", 2), ("c", 3), ("b", 4)] := by
  decide

end Applied

end Registry
end Reshape
