import Mathlib.Control.Monad.Basic
import Reshape.Proofs.InPlace
import Reshape.Proofs.Quiet

/-!
This module contains the bound on the nesting of procedures. A run with a bound is compared with the
run of the same steps with a greater one: they are the same run, up to where the first one attempts
an invocation beyond its bound. The main statements are `processSet_nesting`, which says when a run
fails because of nesting, and `processSet_of_maxDepth_le`, which says what a greater bound changes.
-/

namespace Reshape

/--
The depth that an event is reported at. Events that tell none count as those of the outermost level.
-/
def Event.depth : Event → Nat
  | .overwrote _ _ _ => 0
  | .running _ _ depth => depth
  | .invoking _ depth => depth

/--
A run stays within a bound and does not fail because of it.
-/
structure Calm {α : Type} (bound : Nat) (x : Outcome α) : Prop where
  depth : ∀ event ∈ x.log, event.depth ≤ bound
  failure : Plain x.result

/--
A run within a bound fails where the other run, which may go on, invokes a procedure beyond it.
-/
def Overruns {α : Type} (bound : Nat) (x y : Outcome α) : Prop :=
  ∃ name, x.result = .error (.operation (.tooDeep name bound)) ∧
    (∀ event ∈ x.log, event.depth ≤ bound) ∧ x.log ++ [.invoking name (bound + 1)] <+: y.log

/--
A run with a bound either is the run without it, or it fails because of the bound.
-/
def Bounded (bound : Nat) (α : Type) (x y : Outcome α) : Prop :=
  x = y ∧ Calm bound x ∨ Overruns bound x y

section Calm

variable {α β : Type} {bound : Nat}

theorem Outcome.log_prefix_bind (x : Outcome α) (f : α → Outcome β) : x.log <+: (x >>= f).log := by
  cases h : x.result with
  | error e => simp [Outcome.bind_of_error h]
  | ok a =>
    rw [Outcome.bind_of_ok h]
    apply List.prefix_append

theorem Quiet.calm {x : Outcome α} (h : Quiet x) : Calm bound x where
  depth := by
    intro event hevent
    have hwarning := h.log event hevent
    cases event with
    | overwrote typeName key destination => apply Nat.zero_le
    | _ => cases hwarning
  failure := h.failure

theorem calm_note {event : Event} (h : event.depth ≤ bound) : Calm bound (Outcome.note event) where
  depth := by
    intro event' hevent
    rw [Outcome.note, List.mem_singleton] at hevent
    rw [hevent]
    exact h
  failure := FailsOnly.ok ()

theorem Calm.bounded {x : Outcome α} (h : Calm bound x) : Bounded bound α x x :=
  Or.inl ⟨rfl, h⟩

theorem bounded_simulation (bound : Nat) : Simulation (Bounded bound) where
  pure a := (quiet_ofExcept (FailsOnly.ok a)).calm.bounded
  bind := by
    -- Two equal runs may part in what follows, a run that has overrun ignores what follows.
    rintro α β x y f g (⟨rfl, hx⟩ | ⟨name, hresult, hdepth, hprefix⟩) hf
    · cases hresult : x.result with
      | error e =>
        left
        rw [Outcome.bind_of_error hresult, Outcome.bind_of_error hresult]
        refine ⟨rfl, hx.depth, ?_⟩
        apply FailsOnly.error
        exact hx.failure e hresult
      | ok a =>
        have happend {log : List Event} (h : ∀ event ∈ log, event.depth ≤ bound)
            : ∀ event ∈ x.log ++ log, event.depth ≤ bound := by
          intro event hevent
          rcases List.mem_append.mp hevent with hevent | hevent
          · exact hx.depth event hevent
          · exact h event hevent
        rw [Outcome.bind_of_ok hresult, Outcome.bind_of_ok hresult]
        rcases hf a with ⟨heq, hcalm⟩ | ⟨name, hresult', hdepth, hprefix⟩
        · left
          rw [← heq]
          exact ⟨rfl, happend hcalm.depth, hcalm.failure⟩
        · right
          refine ⟨name, hresult', happend hdepth, ?_⟩
          rw [List.append_assoc, List.prefix_append_right_inj]
          exact hprefix
    · right
      refine ⟨name, ?_, ?_, ?_⟩
      · rw [Outcome.bind_of_error hresult]
      · rw [Outcome.bind_of_error hresult]
        exact hdepth
      · rw [Outcome.bind_of_error hresult]
        exact hprefix.trans (Outcome.log_prefix_bind y g)
  refusal := (quiet_ofExcept (FailsOnly.error rfl)).calm.bounded

theorem bounded_congruence (bound : Nat) : RunCongruence (Bounded bound) where
  toSimulation := bounded_simulation bound
  quiet h := h.calm.bounded

end Calm

section Run

variable (s : Surroundings)

theorem bounded_invoke (remaining more depth : Nat) (name : String) (v : Value)
    : Bounded (depth + remaining) _ (s.invoke remaining depth name v)
        (s.invoke (remaining + more + 1) depth name v) := by
  induction remaining generalizing depth name v with
  | zero =>
    right
    -- The first run refuses the invocation that the second one reports and goes on with.
    refine ⟨name, rfl, ?_, ?_⟩
    · intro event hevent
      cases hevent
    · apply Outcome.log_prefix_bind (Outcome.note (.invoking name (depth + 1)))
  | succ remaining ih =>
    -- One level down the depth has grown by what the remaining levels have lost.
    have cong := bounded_congruence (depth + (remaining + 1))
    have hsum : depth + (remaining + 1) = depth + 1 + remaining := by omega
    have hmore : remaining + 1 + more + 1 = remaining + more + 1 + 1 := by omega
    rw [hmore]
    apply cong.bind
    · apply Calm.bounded
      apply calm_note
      show depth + 1 ≤ depth + (remaining + 1)
      omega
    · intro u
      apply cong.runSteps
      · intro name' v'
        rw [hsum]
        apply ih
      · intro op record
        apply Calm.bounded
        apply calm_note
        show depth + 1 ≤ depth + (remaining + 1)
        omega

theorem bounded_process (bound more : Nat) (steps : List Step) (v : Value)
    : Bounded bound _ (s.process bound steps v) (s.process (bound + more + 1) steps v) := by
  apply (bounded_congruence bound).runSteps
  · intro name w
    have h := bounded_invoke s bound more 0 name w
    rw [Nat.zero_add] at h
    exact h
  · intro op record
    apply Calm.bounded
    apply calm_note
    apply Nat.zero_le

end Run

/--
Procedures nest at most as deep as the bound of the set that is run, whichever procedures there are.
What a run attempts beyond its bound is told by a run with a greater bound, which does the same up
to there. So a run fails because of nesting exactly if it attempts an invocation from the depth of
its bound, and the failure tells the depth of that invocation and the name.
-/
theorem Workspace.processSet_nesting (host : InPlaceHost) (store : Store) (set : OperationSet)
    (v : Value) (more : Nat)
    : let m := set.maxDepth
      let x := (processSet host store set v).outcome
      let y := (processSet host store { set with maxDepth := m + more + 1 } v).outcome
      (∀ event ∈ x.log, event.depth ≤ m) ∧
        ((∃ e, x.result = .error e ∧ e.isNesting = true) ↔ ∃ name, .invoking name (m + 1) ∈ y.log) ∧
        (∀ e, x.result = .error e → e.isNesting = true → ∃ name,
          e = .operation (.tooDeep name m) ∧
            (OperationError.tooDeep name m).context =
              [("name", .str name), ("depth", .int (m + 1))] ∧
            x.log ++ [.invoking name (m + 1)] <+: y.log) ∧
        ((∀ name, .invoking name (m + 1) ∉ y.log) → x = y) := by
  dsimp only
  rw [outcome_processSet, outcome_processSet]
  rcases bounded_process ⟨host.toHost, store.procedureSteps? set.registry⟩ set.maxDepth more
    set.steps v with ⟨heq, hcalm⟩ | ⟨name, hresult, hdepth, hprefix⟩
  · have hnone (name : String) : Event.invoking name (set.maxDepth + 1) ∉
        (Surroundings.process ⟨host.toHost, store.procedureSteps? set.registry⟩
          (set.maxDepth + more + 1) set.steps v).log := by
      rw [← heq]
      intro hmem
      have hle := hcalm.depth _ hmem
      simp only [Event.depth] at hle
      omega
    refine ⟨hcalm.depth, ⟨?_, ?_⟩, ?_, fun _ => heq⟩
    · rintro ⟨e, he, hnesting⟩
      rw [hcalm.failure e he] at hnesting
      cases hnesting
    · rintro ⟨name, hmem⟩
      exact absurd hmem (hnone name)
    · intro e he hnesting
      rw [hcalm.failure e he] at hnesting
      cases hnesting
  · have hmem : Event.invoking name (set.maxDepth + 1) ∈
        (Surroundings.process ⟨host.toHost, store.procedureSteps? set.registry⟩
          (set.maxDepth + more + 1) set.steps v).log := by
      apply hprefix.subset
      apply List.mem_append_right
      apply List.mem_singleton_self
    refine ⟨hdepth, ⟨fun _ => ⟨name, hmem⟩, fun _ => ⟨_, hresult, rfl⟩⟩, ?_, ?_⟩
    · intro e he _
      rw [hresult] at he
      cases he
      exact ⟨name, rfl, rfl, hprefix⟩
    · intro hnone
      exact absurd hmem (hnone name)

/--
A greater bound takes failures because of nesting away and changes nothing else. What a run returns,
or fails with otherwise, it returns or fails with under the greater bound too, with the same report;
and it fails because of nesting under the greater bound only if it does so under the smaller one.
-/
theorem Workspace.processSet_of_maxDepth_le (host : InPlaceHost) (store : Store) (set : OperationSet)
    (v : Value) {bound : Nat} (h : set.maxDepth ≤ bound)
    : let x := (processSet host store set v).outcome
      let y := (processSet host store { set with maxDepth := bound } v).outcome
      (∀ w, x.result = .ok w → y.result = .ok w ∧ y.log = x.log) ∧
        (∀ e, x.result = .error e → e.isNesting = false →
          y.result = .error e ∧ y.log = x.log) ∧
        (∀ e, y.result = .error e → e.isNesting = true →
          ∃ e', x.result = .error e' ∧ e'.isNesting = true) := by
  dsimp only
  rw [outcome_processSet, outcome_processSet]
  rcases Nat.eq_or_lt_of_le h with rfl | hlt
  · exact ⟨fun w hw => ⟨hw, rfl⟩, fun e he _ => ⟨he, rfl⟩, fun e he hnesting => ⟨e, he, hnesting⟩⟩
  · obtain ⟨more, rfl⟩ := Nat.exists_eq_add_of_lt hlt
    rcases bounded_process ⟨host.toHost, store.procedureSteps? set.registry⟩ set.maxDepth more
      set.steps v with ⟨heq, hcalm⟩ | ⟨name, hresult, -, -⟩
    · have heq := heq.symm
      refine ⟨?_, ?_, ?_⟩
      · intro w hw
        exact ⟨heq ▸ hw, congrArg _ heq⟩
      · intro e he _
        exact ⟨heq ▸ he, congrArg _ heq⟩
      · intro e he hnesting
        rw [hcalm.failure e (heq ▸ he)] at hnesting
        cases hnesting
    · -- The run with the smaller bound has failed because of it, so the first two cases are void.
      refine ⟨?_, ?_, ?_⟩
      · intro w hw
        rw [hresult] at hw
        cases hw
      · intro e he hnesting
        rw [hresult] at he
        cases he
        cases hnesting
      · intro e _ _
        exact ⟨_, hresult, rfl⟩

theorem Workspace.processSet_of_maxDepth_le_nested
    : let again : Record := ⟨[.operation .sigil .procedure (.object [(.str "$", .str "again")])]⟩
      let store : Store :=
        { sets := [⟨[again], 0, true, 64⟩], registries := [⟨[("again", 0)]⟩] }
      let v : Value := .list [.list [.list []]]
      let run (bound : Nat) := (processSet .standard store ⟨[again], 0, true, bound⟩ v).outcome
      (run 2).result = .ok v ∧ (run 4).result = .ok v ∧ (run 4).log = (run 2).log ∧
        (run 1).result = .error (.operation (.tooDeep "again" 1)) ∧
        ∃ e, (run 0).result = .error e ∧ e.isNesting = true := by
  intro again store v run
  have hfour := processSet_of_maxDepth_le .standard store ⟨[again], 0, true, 2⟩ v
    (show 2 ≤ 4 by decide)
  have hone := processSet_of_maxDepth_le .standard store ⟨[again], 0, true, 0⟩ v
    (show 0 ≤ 1 by decide)
  have htwo : (run 2).result = .ok v := by decide +kernel
  have hfails : (run 1).result = .error (.operation (.tooDeep "again" 1)) := by
    decide +kernel
  obtain ⟨hresult, hlog⟩ := hfour.1 v htwo
  exact ⟨htwo, hresult, hlog, hfails, hone.2.2 _ hfails rfl⟩

end Reshape
