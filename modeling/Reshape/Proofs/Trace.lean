import Reshape.Proofs.InPlace
import Reshape.Proofs.Quiet
import Reshape.Proofs.Report

/-!
This module contains the reports of the runs that there are. A run reports what the grammar of reports
allows, by induction on the levels that are left for procedures. The main statement, `processSet_trace`,
says of the report of a set which steps it tells, inside which step every invocation takes place and
which steps follow on it.
-/

namespace Reshape

namespace Instruction

/--
Whether every invocation comes after the check that its procedure is registered.
-/
def Guarded (instructions : List Instruction) : Prop :=
  ∀ before path name after, instructions = before ++ .invoke path name :: after →
    .require name ∈ before

section Guarded

variable {as bs : List Instruction} {step : Step}

theorem guarded_of_no_invoke (h : ∀ path name, .invoke path name ∉ as) : Guarded as := by
  intro before path name after has
  refine absurd ?_ (h path name)
  rw [has]
  exact List.mem_append_cons_self

theorem Guarded.append (ha : Guarded as) (hb : Guarded bs) : Guarded (as ++ bs) := by
  intro before path name after h
  rcases append_eq_append_cons h with ⟨rest, has, -⟩ | ⟨rest, rfl, hbs⟩
  · exact ha _ _ _ _ has
  · exact List.mem_append_right _ (hb _ _ _ _ hbs)

theorem guarded_flatMap {α : Type} {items : List α} {f : α → List Instruction}
    (h : ∀ item, Guarded (f item)) : Guarded (items.flatMap f) := by
  induction items with
  | nil =>
    apply guarded_of_no_invoke
    rintro path name ⟨⟩
  | cons item items ih => exact (h item).append ih

theorem guarded_names (path : Path) (names : List String)
    : Guarded (names.map .require ++ names.map (.invoke path)) := by
  intro before path' name after h
  rcases append_eq_append_cons h with ⟨rest, hrequire, -⟩ | ⟨rest, rfl, hinvoke⟩
  · have hmem : .invoke path' name ∈ names.map Instruction.require := by
      rw [hrequire]
      exact List.mem_append_cons_self
    obtain ⟨_, -, ⟨⟩⟩ := List.mem_map.mp hmem
  · have hmem : .invoke path' name ∈ names.map (Instruction.invoke path) := by
      rw [hinvoke]
      exact List.mem_append_cons_self
    obtain ⟨_, hname, ⟨⟩⟩ := List.mem_map.mp hmem
    exact List.mem_append_left _ (List.mem_map_of_mem hname)

theorem guarded_ofProcedures (op : Op) (payload : Value) : Guarded (ofProcedures op payload) := by
  unfold ofProcedures perItem
  cases items op payload with
  | error cause =>
    apply guarded_of_no_invoke
    intro path name hmem
    cases List.mem_singleton.mp hmem
  | ok fields =>
    apply guarded_flatMap
    intro field
    dsimp only
    split
    · exact guarded_names _ _
    · apply guarded_of_no_invoke
      intro path name hmem
      cases List.mem_singleton.mp hmem

theorem invokes_of_mem {path : Path} {name : String} (h : .invoke path name ∈ ofStep step)
    : step.op = .procedure ∨ step.op = .model := by
  cases arises_of_mem_ofStep h with
  | invoke _ _ hop => exact hop

theorem guarded_ofStep (step : Step) : Guarded (ofStep step) := by
  by_cases hop : step.op = .procedure ∨ step.op = .model
  · rw [ofStep_of_invokes hop]
    apply guarded_ofProcedures
  · apply guarded_of_no_invoke
    intro path name hmem
    exact hop (invokes_of_mem hmem)

theorem calls_of_mem {path : Path} {name : String} (h : .invoke path name ∈ ofStep step)
    : step.Calls name := by
  have hop := invokes_of_mem h
  refine ⟨hop, ?_⟩
  rw [ofStep_of_invokes hop] at h
  rcases mem_perItem h with ⟨cause, -, ⟨⟩⟩ | ⟨fields, field, listed, hpayload, hfield, hmem⟩
  split at hmem
  · next names htexts =>
    refine ⟨field, listed, names, ⟨fields, hpayload, hfield⟩, htexts, ?_⟩
    simp only [orReject, List.mem_append, List.mem_map] at hmem
    rcases hmem with ⟨_, -, ⟨⟩⟩ | ⟨_, hname, ⟨⟩⟩
    exact hname
  · cases List.mem_singleton.mp hmem

end Guarded

end Instruction

/--
Whether a computation reports a part of the run of a step: the report goes on in the step if the
computation returns, and ends there if it fails.
-/
structure Contributes (procedure? : String → Option (List Step)) (depth : Nat) (step : Step)
    {α : Type} (x : Outcome α) : Prop where
  goesOn : ∀ a, x.result = .ok a → ∀ rest complete log,
    Report procedure? depth (some step) rest complete log →
    Report procedure? depth (some step) rest complete (x.log ++ log)
  ends : ∀ e, x.result = .error e → ∀ rest, Report procedure? depth (some step) rest false x.log

section Contributes

variable {procedure? : String → Option (List Step)} {depth : Nat} {step : Step} {α β : Type}

theorem Contributes.bind {x : Outcome α} {f : α → Outcome β}
    (hx : Contributes procedure? depth step x)
    (hf : ∀ a, x.result = .ok a → Contributes procedure? depth step (f a))
    : Contributes procedure? depth step (x >>= f) := by
  cases hresult : x.result with
  | error e =>
    rw [Outcome.bind_of_error hresult]
    constructor
    · rintro a ⟨⟩
    · rintro _ ⟨⟩
      exact hx.ends e hresult
  | ok a =>
    have hf := hf a hresult
    rw [Outcome.bind_of_ok hresult]
    constructor
    · intro b hb rest complete log h
      rw [List.append_assoc]
      exact hx.goesOn a hresult _ _ _ (hf.goesOn b hb _ _ _ h)
    · intro e he rest
      exact hx.goesOn a hresult _ _ _ (hf.ends e he rest)

theorem Quiet.contributes {x : Outcome α} (h : Quiet x) : Contributes procedure? depth step x := by
  have warn {events log : List Event} {rest : List Step} {complete : Bool}
      (hevents : ∀ event ∈ events, event.isWarning = true)
      (hlog : Report procedure? depth (some step) rest complete log)
      : Report procedure? depth (some step) rest complete (events ++ log) := by
    induction events with
    | nil => exact hlog
    | cons event events ih =>
      rw [List.forall_mem_cons] at hevents
      exact .warning hevents.1 (ih hevents.2)
  constructor
  · intro a _ rest complete log hlog
    exact warn h.log hlog
  · intro e _ rest
    rw [← List.append_nil x.log]
    exact warn h.log (.failed depth step rest)

theorem Contributes.invoked {steps : List Step} {name : String} {x : Outcome α}
    (hcalls : step.Calls name) (hname : procedure? name = some steps)
    (h : Report procedure? (depth + 1) none steps x.result.toBool x.log)
    : Contributes procedure? depth step
        (Outcome.note (.invoking name (depth + 1)) >>= fun _ => x) := by
  have hx : (Outcome.note (.invoking name (depth + 1)) >>= fun _ => x) =
      ⟨.invoking name (depth + 1) :: x.log, x.result⟩ := rfl
  rw [hx]
  constructor
  · intro a ha rest complete log hlog
    have ha : x.result = .ok a := ha
    rw [ha] at h
    exact .call hcalls hname h hlog
  · intro e he rest
    have he : x.result = .error e := he
    rw [he] at h
    exact .callFailed hcalls hname h

theorem contributes_congruence (procedure? : String → Option (List Step)) (depth : Nat) (step : Step)
    : RunCongruence fun _ x y => x = y ∧ Contributes procedure? depth step x where
  pure a := ⟨rfl, (quiet_ofExcept (FailsOnly.ok a)).contributes⟩
  bind := by
    rintro α β x _ f g ⟨rfl, hx⟩ hf
    have hfg : f = g := funext fun a => (hf a).1
    rw [hfg]
    exact ⟨rfl, hx.bind fun a _ => hfg ▸ (hf a).2⟩
  refusal := ⟨rfl, (quiet_ofExcept (FailsOnly.error rfl)).contributes⟩
  quiet h := ⟨rfl, h.contributes⟩

end Contributes

/--
A loop that fails stops at an item that fails on what the items before have made of the value.
-/
theorem Outcome.exists_of_foldlM_error {α β : Type} {f : β → α → Outcome β} {items : List α} {b : β}
    {e : Error} (h : (items.foldlM f b).result = .error e)
    : ∃ before item after b', items = before ++ item :: after ∧
        (before.foldlM f b).result = .ok b' ∧ (f b' item).result = .error e ∧
        (items.foldlM f b).log = (before.foldlM f b).log ++ (f b' item).log := by
  induction items generalizing b with
  | nil => cases h
  | cons item items ih =>
    rw [List.foldlM_cons] at h ⊢
    cases hresult : (f b item).result with
    | error e' =>
      rw [bind_of_error hresult] at h ⊢
      cases h
      exact ⟨[], item, items, b, rfl, rfl, hresult, rfl⟩
    | ok b' =>
      rw [bind_of_ok hresult] at h ⊢
      obtain ⟨before, bad, after, last, rfl, hbefore, hbad, hlog⟩ := ih h
      refine ⟨item :: before, bad, after, last, rfl, ?_, hbad, ?_⟩
      · rw [List.foldlM_cons, bind_of_ok hresult]
        exact hbefore
      · rw [List.foldlM_cons, bind_of_ok hresult, hlog, List.append_assoc]

namespace Surroundings

variable (s : Surroundings) {depth : Nat} {invoke : String → Value → Outcome Value}

/--
Whether invocations from a depth report what a step that lists their name may report.
-/
def Announces (s : Surroundings) (depth : Nat) (invoke : String → Value → Outcome Value) : Prop :=
  ∀ (step : Step) (name : String), step.Calls name → (s.procedure? name).isSome = true →
    ∀ v, Contributes s.procedure? depth step (invoke name v)

theorem contributes_runInstruction {step : Step} {instruction : Instruction}
    (hmem : instruction ∈ Instruction.ofStep step)
    (hinvoke : ∀ path name, instruction = .invoke path name →
      ∀ v, Contributes s.procedure? depth step (invoke name v)) (v : Value)
    : Contributes s.procedure? depth step (s.runInstruction invoke v instruction) := by
  have cong := contributes_congruence s.procedure? depth step
  have hreject (cause : Error) (heq : instruction = .reject cause) : cause.isNesting = false := by
    rw [heq] at hmem
    exact not_isNesting_of_reject hmem
  -- What is no invocation does the same whatever invocations do.
  have hquiet := cong.runInstruction s (fun _ w => cong.pure w) hreject v
  cases instruction with
  | invoke path name =>
    have hvisit (a : Address) (w : Value)
        : skipMissing (invoke name) w = skipMissing (invoke name) w ∧
            Contributes s.procedure? depth step (skipMissing (invoke name) w) := by
      apply cong.skipMissing
      intro w
      exact ⟨rfl, hinvoke path name rfl w⟩
    exact (cong.applyAt path hvisit v).2
  | _ => exact hquiet.2

theorem contributes_foldlM {step : Step} (hinvoke : s.Announces depth invoke)
    {done rest : List Instruction} (hparts : Instruction.ofStep step = done ++ rest)
    (hdone : ∀ name, .require name ∈ done → (s.procedure? name).isSome = true) (v : Value)
    : Contributes s.procedure? depth step (rest.foldlM (s.runInstruction invoke) v) := by
  induction rest generalizing done v with
  | nil => exact (quiet_ofExcept (FailsOnly.ok v)).contributes
  | cons instruction rest ih =>
    have hmem : instruction ∈ Instruction.ofStep step := by
      rw [hparts]
      exact List.mem_append_cons_self
    rw [List.foldlM_cons]
    apply Contributes.bind
    · apply s.contributes_runInstruction hmem
      rintro path name rfl
      apply hinvoke step name (Instruction.calls_of_mem hmem)
      exact hdone name (Instruction.guarded_ofStep step _ _ _ _ hparts)
    · intro w hw
      apply ih
      · rw [hparts, List.append_cons]
      · intro name hname
        rcases List.mem_append.mp hname with hname | hname
        · exact hdone name hname
        · -- The check has been passed, since the run has gone on.
          rw [← List.mem_singleton.mp hname] at hw
          cases hfound : s.procedure? name with
          | some steps => rfl
          | none =>
            rw [runInstruction, hfound] at hw
            cases hw

/--
A run of steps reports what the grammar allows if invocations do.
-/
theorem report_runSteps (hinvoke : s.Announces depth invoke) (current : Option Step)
    (steps : List Step) (v : Value)
    : let x := s.runSteps invoke depth steps v
      Report s.procedure? depth current steps x.result.toBool x.log := by
  induction steps generalizing current v with
  | nil => exact .done depth current
  | cons step steps ih =>
    have hstep := s.contributes_foldlM hinvoke (List.nil_append (Instruction.ofStep step)).symm
      nofun v
    unfold runSteps
    rw [List.foldlM_cons]
    cases hresult : (s.runStep invoke depth v step).result with
    | error e =>
      rw [Outcome.bind_of_error hresult]
      exact .run (hstep.ends e hresult steps)
    | ok w =>
      rw [Outcome.bind_of_ok hresult]
      exact .run (hstep.goesOn w hresult _ _ _ (ih (some step) w))

/--
An invocation reports itself and then what the run of its procedure reports.
-/
theorem announces_invoke (remaining depth : Nat) : s.Announces depth (s.invoke remaining depth) := by
  induction remaining generalizing depth with
  | zero =>
    intro step name _ _ v
    constructor
    · rintro a ⟨⟩
    · intro e _ rest
      exact .failed depth step rest
  | succ remaining ih =>
    intro step name hcalls hname v
    obtain ⟨steps, hsteps⟩ := Option.isSome_iff_exists.mp hname
    unfold Surroundings.invoke
    rw [hsteps, Option.getD_some]
    exact .invoked hcalls hsteps (s.report_runSteps (ih (depth + 1)) none steps v)

theorem report_process (bound : Nat) (steps : List Step) (v : Value)
    : let x := s.process bound steps v
      Report s.procedure? 0 none steps x.result.toBool x.log :=
  s.report_runSteps (s.announces_invoke bound 0) none steps v

theorem stepLines_of_ok {bound : Nat} {steps : List Step} {v w : Value}
    (h : (s.process bound steps v).result = .ok w)
    : stepLines 0 (s.process bound steps v).log = steps.map (Step.line 0) := by
  apply (s.report_process bound steps v).stepLines_cases.1
  rw [h]
  rfl

theorem stepLines_of_error {bound : Nat} {step : Step} {v : Value} {e : Error}
    (h : (s.process bound [step] v).result = .error e)
    : stepLines 0 (s.process bound [step] v).log = [step.line 0] := by
  have hfailed : (s.process bound [step] v).result.toBool = false := by
    rw [h]
    rfl
  obtain ⟨hfirst, hne⟩ := (s.report_process bound [step] v).stepLines_cases.2 hfailed
  apply hfirst.eq_of_length_le
  exact List.length_pos_iff.mpr (hne rfl)

end Surroundings

/--
The report of a set is the listing of a call tree in pre-order. At the outermost depth it tells the
steps of the set in their order: all of them if the run returns, and those up to the one that fails
otherwise. Every invocation is announced inside a step, of the set or of the procedure that is being
run at its depth, that lists its name among the procedures to invoke. After it, up to the next
invocation at its depth or the next step above, the steps of the procedure follow in their order: all
of them, or the first ones if the run has failed before the invocation was over.
-/
theorem Workspace.processSet_trace (host : InPlaceHost) (store : Store) (set : OperationSet)
    (v : Value)
    : let procedure? := store.procedureSteps? set.registry
      let run := Surroundings.process ⟨host.toHost, procedure?⟩ set.maxDepth
      let x := (processSet host store set v).outcome
      Report procedure? 0 none set.steps x.result.toBool x.log ∧
        (∀ w, x.result = .ok w → stepLines 0 x.log = set.steps.map (Step.line 0)) ∧
        (∀ e, x.result = .error e → ∃ before step after w,
          set.steps = before ++ step :: after ∧
            stepLines 0 x.log = (before ++ [step]).map (Step.line 0) ∧
            (run before v).result = .ok w ∧ (run [step] w).result = .error e) ∧
        ∀ past name depth future, x.log = past ++ .invoking name depth :: future →
          ∃ k caller steps, depth = k + 1 ∧ PartOf procedure? set.steps past k steps ∧
            caller ∈ steps ∧ caller.Calls name ∧ Inside (caller.line k) past ∧
            Called procedure? name depth future x.result.toBool := by
  intro procedure? run x
  let s : Surroundings := ⟨host.toHost, procedure?⟩
  have hx : x = s.process set.maxDepth set.steps v := outcome_processSet ..
  have hreport : Report procedure? 0 none set.steps x.result.toBool x.log := by
    rw [hx]
    exact s.report_process set.maxDepth set.steps v
  refine ⟨hreport, ?_, ?_, ?_⟩
  · intro w hw
    rw [hx] at hw ⊢
    exact s.stepLines_of_ok hw
  · intro e he
    rw [hx] at he
    obtain ⟨before, step, after, w, hsteps, hbefore, hstep, hlog⟩ := Outcome.exists_of_foldlM_error he
    have hsingle : s.process set.maxDepth [step] w = s.runStep (s.invoke set.maxDepth 0) 0 w step :=
      bind_pure _
    rw [← hsingle] at hstep
    refine ⟨before, step, after, w, hsteps, ?_, hbefore, ?_⟩
    · have hprocess : x.log =
          (s.process set.maxDepth before v).log ++ (s.process set.maxDepth [step] w).log := by
        rw [hx, hsingle]
        exact hlog
      rw [hprocess, stepLines_append, s.stepLines_of_ok hbefore, s.stepLines_of_error hstep,
        List.map_append, List.map_singleton]
    · exact hstep
  · intro past name depth future hlog
    have hpos : 0 < depth := hreport.depth_lt (hlog ▸ List.mem_append_cons_self)
    obtain ⟨k, rfl⟩ := Nat.exists_eq_succ_of_ne_zero hpos.ne'
    have hstart : PartOf procedure? set.steps [] 0 set.steps := rfl
    obtain ⟨caller, steps, hpart, hmem, hcalls, hinside⟩ :=
      hreport.caller hstart nofun (fun _ hmem => hmem) hlog
    exact ⟨k, caller, steps, rfl, hpart, hmem, hcalls, hinside, hreport.called hlog⟩

theorem Workspace.processSet_trace_failed
    : let again : Record := ⟨[.operation .sigil .procedure (.object [(.str "$", .str "again")])]⟩
      let store : Store :=
        { sets := [⟨[again], 0, true, 64⟩], registries := [⟨[("again", 0)]⟩] }
      let x := (processSet .standard store ⟨[again], 0, true, 1⟩ (.list [.list [.null]])).outcome
      x.result = .error (.operation (.tooDeep "again" 1)) ∧
        x.log = [.running .procedure 0 0, .invoking "again" 1, .running .procedure 0 1] ∧
        (∃ caller : Step, caller.Calls "again" ∧ caller.line 0 = .running .procedure 0 0) ∧
        Called (store.procedureSteps? 0) "again" 1 [.running .procedure 0 1] false := by
  intro again store x
  have hresult : x.result = .error (.operation (.tooDeep "again" 1)) := by decide +kernel
  have hlog : x.log = [.running .procedure 0 0, .invoking "again" 1, .running .procedure 0 1] := by
    decide +kernel
  obtain ⟨-, -, -, hinvoked⟩ :=
    processSet_trace .standard store ⟨[again], 0, true, 1⟩ (.list [.list [.null]])
  obtain ⟨k, caller, steps, hk, -, -, hcalls, hinside, hcalled⟩ := hinvoked
    [.running .procedure 0 0] "again" 1 [.running .procedure 0 1] hlog
  have hzero : k = 0 := by omega
  subst hzero
  refine ⟨hresult, hlog, ⟨caller, hcalls, ?_⟩, ?_⟩
  · obtain ⟨before, between, hpast, -⟩ := hinside
    cases before with
    | nil => exact (List.cons.inj hpast).1.symm
    | cons first before => simp at hpast
  · rw [hresult] at hcalled
    exact hcalled

end Reshape
