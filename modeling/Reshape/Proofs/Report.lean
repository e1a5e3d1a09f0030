import Mathlib.Data.List.TakeWhile
import Reshape.Outcome
import Reshape.Proofs.Provenance

/-!
This module contains the reports of runs: `Report` is the grammar of what a run may report, with the
call tree as the derivation and the report as its listing in pre-order. The other statements read the
tree off the flat report, where steps and invocations are told apart by their depth alone:
`Report.stepLines_cases` says which steps are reported at the depth of a run, `Report.caller` inside
which step an invocation takes place, and `Report.called` which steps follow on it.
-/

namespace Reshape

/--
Whether a step invokes procedures and lists a name for one of its fields.
-/
def Step.Calls (step : Step) (name : String) : Prop :=
  (step.op = .procedure ∨ step.op = .model) ∧
    ∃ field listed names, step.Lists field listed ∧ Instruction.texts? listed = some names ∧
      name ∈ names

/--
The event that announces a step.
-/
def Step.line (depth : Nat) (step : Step) : Event :=
  .running step.op step.record depth

namespace Event

def runsAt (depth : Nat) : Event → Bool
  | .running _ _ depth' => depth' = depth
  | _ => false

/--
Whether an event tells that an invocation to a depth is over.
-/
def closes (depth : Nat) : Event → Bool
  | .invoking _ depth' => depth' = depth
  | .running _ _ depth' => depth' < depth
  | .overwrote _ _ _ => false

/--
How far down in the call tree an event is. Invocations and the steps that they run alternate.
-/
def level : Event → Nat
  | .invoking _ depth => 2 * depth
  | .running _ _ depth => 2 * depth + 1
  | .overwrote _ _ _ => 0

/--
Whether an event takes place below a level of the call tree, or is a warning, which has none.
-/
def Below (level : Nat) (event : Event) : Prop :=
  event.isWarning = true ∨ level < event.level

end Event

/--
The steps that a report announces at a depth.
-/
def stepLines (depth : Nat) (log : List Event) : List Event :=
  log.filter (Event.runsAt depth)

/--
The part of a report up to where an invocation to a depth is over.
-/
def untilClosed (depth : Nat) (log : List Event) : List Event :=
  log.takeWhile fun event => !event.closes depth

/--
The reports of runs at a depth, given the step that is being run, if any, and the steps that come
after it. A report is complete if the run returns. If it does not, it ends within a step.
-/
inductive Report (procedure? : String → Option (List Step)) :
    Nat → Option Step → List Step → Bool → List Event → Prop where
  | done (depth : Nat) (current : Option Step) : Report procedure? depth current [] true []
  | failed (depth : Nat) (step : Step) (rest : List Step) :
    Report procedure? depth (some step) rest false []
  | warning {depth : Nat} {step : Step} {rest : List Step} {complete : Bool} {event : Event}
    {log : List Event} (hevent : event.isWarning = true)
    (h : Report procedure? depth (some step) rest complete log) :
    Report procedure? depth (some step) rest complete (event :: log)
  | run {depth : Nat} {current : Option Step} {step : Step} {rest : List Step} {complete : Bool}
    {log : List Event} (h : Report procedure? depth (some step) rest complete log) :
    Report procedure? depth current (step :: rest) complete (step.line depth :: log)
  | call {depth : Nat} {step : Step} {rest steps : List Step} {complete : Bool} {name : String}
    {inner log : List Event} (hcalls : step.Calls name) (hname : procedure? name = some steps)
    (hinner : Report procedure? (depth + 1) none steps true inner)
    (h : Report procedure? depth (some step) rest complete log) :
    Report procedure? depth (some step) rest complete
      (.invoking name (depth + 1) :: (inner ++ log))
  | callFailed {depth : Nat} {step : Step} {rest steps : List Step} {name : String}
    {inner : List Event} (hcalls : step.Calls name) (hname : procedure? name = some steps)
    (hinner : Report procedure? (depth + 1) none steps false inner) :
    Report procedure? depth (some step) rest false (.invoking name (depth + 1) :: inner)

/--
Whether what comes next takes place inside what an event has announced: nothing has been reported
since then that is not below it.
-/
def Inside (event : Event) (past : List Event) : Prop :=
  ∃ before between, past = before ++ event :: between ∧ ∀ e ∈ between, e.Below event.level

/--
Whether what comes next, at a depth, is part of the run of some steps: the outermost ones, or those
of the procedure inside whose invocation it takes place.
-/
def PartOf (procedure? : String → Option (List Step)) (outermost : List Step) (past : List Event) :
    Nat → List Step → Prop
  | 0, steps => steps = outermost
  | depth + 1, steps =>
    ∃ name, Inside (.invoking name (depth + 1)) past ∧ procedure? name = some steps

/--
What follows on an invocation up to where it is over: the steps of the procedure, or the first ones of
them if the run has failed and nothing but what is inside the invocation has been reported until then.
-/
def Called (procedure? : String → Option (List Step)) (name : String) (depth : Nat)
    (future : List Event) (complete : Bool) : Prop :=
  ∃ steps, procedure? name = some steps ∧
    let lines := stepLines depth (untilClosed depth future)
    lines = steps.map (Step.line depth) ∨
      complete = false ∧ (∀ event ∈ future, event.Below (2 * depth)) ∧ lines ≠ [] ∧
        lines <+: steps.map (Step.line depth)

section Events

variable {depth : Nat} {event : Event}

theorem Event.runsAt_line (depth : Nat) (step : Step) : (step.line depth).runsAt depth = true := by
  simp [Step.line, runsAt]

theorem Event.Below.mono {level level' : Nat} (h : event.Below level) (hle : level' ≤ level)
    : event.Below level' := by
  rcases h with h | h
  · exact Or.inl h
  · exact Or.inr (Nat.lt_of_le_of_lt hle h)

theorem Event.Below.not_runsAt (h : event.Below (2 * depth + 1)) : event.runsAt depth = false := by
  cases event <;> simp_all [Below, isWarning, level, runsAt]
  omega

theorem Event.Below.not_closes (h : event.Below (2 * depth)) : event.closes depth = false := by
  rcases h with hwarning | hbelow
  · cases event with
    | overwrote typeName key destination => rfl
    | _ => cases hwarning
  · cases event with
    | overwrote typeName key destination => rfl
    | running op record depth' | invoking name depth' =>
      simp only [level] at hbelow
      simp only [closes, decide_eq_false_iff_not]
      omega

/--
What an invocation reports, its announcement included, is below the step that it takes place in.
-/
theorem below_invocation {inner : List Event} (h : ∀ event ∈ inner, event.Below (2 * (depth + 1)))
    (name : String)
    : ∀ event ∈ .invoking name (depth + 1) :: inner, event.Below (2 * depth + 1) := by
  refine List.forall_mem_cons.mpr ⟨Or.inr ?_, ?_⟩
  · show 2 * depth + 1 < 2 * (depth + 1)
    omega
  · intro event hevent
    apply (h event hevent).mono
    omega

theorem stepLines_append (depth : Nat) (log log' : List Event)
    : stepLines depth (log ++ log') = stepLines depth log ++ stepLines depth log' := by
  apply List.filter_append

theorem stepLines_cons_of_not (h : event.runsAt depth = false) (log : List Event)
    : stepLines depth (event :: log) = stepLines depth log := by
  apply List.filter_cons_of_neg
  simp [h]

theorem stepLines_cons_line (depth : Nat) (step : Step) (log : List Event)
    : stepLines depth (step.line depth :: log) = step.line depth :: stepLines depth log := by
  apply List.filter_cons_of_pos
  exact Event.runsAt_line depth step

theorem stepLines_of_below {log : List Event} (h : ∀ event ∈ log, event.Below (2 * depth + 1))
    : stepLines depth log = [] := by
  rw [stepLines, List.filter_eq_nil_iff]
  intro event hevent
  simp [(h event hevent).not_runsAt]

theorem untilClosed_of_below {log : List Event} (h : ∀ event ∈ log, event.Below (2 * depth))
    : untilClosed depth log = log := by
  rw [untilClosed, List.takeWhile_eq_self_iff]
  intro event hevent
  simp [(h event hevent).not_closes]

theorem untilClosed_cons_of_open (h : event.closes depth = false) (log : List Event)
    : untilClosed depth (event :: log) = event :: untilClosed depth log := by
  apply List.takeWhile_cons_of_pos
  simp [h]

theorem untilClosed_cons_of_closes (h : event.closes depth = true) (log : List Event)
    : untilClosed depth (event :: log) = [] := by
  apply List.takeWhile_cons_of_neg
  simp [h]

/--
What follows on an invocation that is over adds nothing to its steps.
-/
theorem stepLines_untilClosed_append {log' : List Event}
    (h : stepLines depth (untilClosed depth log') = []) (log : List Event)
    : stepLines depth (untilClosed depth (log ++ log')) =
        stepLines depth (untilClosed depth log) := by
  unfold untilClosed
  rw [List.takeWhile_append]
  split
  · next hlength =>
    have hopen := (List.takeWhile_prefix fun event => !Event.closes depth event).eq_of_length hlength
    rw [stepLines_append, hopen]
    unfold untilClosed at h
    rw [h, List.append_nil]
  · rfl

theorem cons_eq_append_cons {α : Type} {bs past future : List α} {a b : α}
    (h : b :: bs = past ++ a :: future)
    : past = [] ∧ b = a ∧ bs = future ∨ ∃ rest, past = b :: rest ∧ bs = rest ++ a :: future := by
  cases past with
  | nil =>
    cases h
    exact Or.inl ⟨rfl, rfl, rfl⟩
  | cons first rest =>
    cases h
    exact Or.inr ⟨rest, rfl, rfl⟩

/--
An element of two lists in a row stands in the first or in the second one.
-/
theorem append_eq_append_cons {α : Type} {as bs past future : List α} {a : α}
    (h : as ++ bs = past ++ a :: future)
    : (∃ rest, as = past ++ a :: rest ∧ future = rest ++ bs) ∨
        ∃ rest, past = as ++ rest ∧ bs = rest ++ a :: future := by
  rcases List.append_eq_append_iff.mp h with ⟨rest, hpast, hbs⟩ | ⟨rest, has, hfuture⟩
  · exact Or.inr ⟨rest, hpast, hbs⟩
  · cases rest with
    | nil =>
      refine Or.inr ⟨[], ?_, hfuture.symm⟩
      rw [has, List.append_nil, List.append_nil]
    | cons first rest =>
      cases hfuture
      exact Or.inl ⟨rest, has, rfl⟩

end Events

section Inside

variable {event : Event} {past more : List Event}

theorem inside_self (event : Event) (past : List Event) : Inside event (past ++ [event]) :=
  ⟨past, [], rfl, nofun⟩

theorem Inside.append (h : Inside event past) (hmore : ∀ e ∈ more, e.Below event.level)
    : Inside event (past ++ more) := by
  obtain ⟨before, between, rfl, hbetween⟩ := h
  refine ⟨before, between ++ more, ?_, ?_⟩
  · rw [List.append_assoc, List.cons_append]
  · intro e he
    rcases List.mem_append.mp he with he | he
    · exact hbetween e he
    · exact hmore e he

theorem PartOf.append {procedure? : String → Option (List Step)} {outermost steps : List Step}
    {depth : Nat} (h : PartOf procedure? outermost past depth steps)
    (hmore : ∀ e ∈ more, e.Below (2 * depth))
    : PartOf procedure? outermost (past ++ more) depth steps := by
  cases depth with
  | zero => exact h
  | succ depth =>
    obtain ⟨name, hinside, hname⟩ := h
    exact ⟨name, hinside.append hmore, hname⟩

end Inside

namespace Report

variable {procedure? : String → Option (List Step)} {depth : Nat} {current : Option Step}
variable {rest : List Step} {complete : Bool} {log : List Event}

theorem forall_below (h : Report procedure? depth current rest complete log)
    : ∀ event ∈ log, event.Below (2 * depth) := by
  have weaken {depth : Nat} {log : List Event} (h : ∀ event ∈ log, event.Below (2 * depth + 1))
      : ∀ event ∈ log, event.Below (2 * depth) := by
    intro event hevent
    exact (h event hevent).mono (Nat.le_succ _)
  induction h with
  | done => nofun
  | failed => nofun
  | warning hevent _ ih => exact List.forall_mem_cons.mpr ⟨Or.inl hevent, ih⟩
  | run _ ih => exact List.forall_mem_cons.mpr ⟨Or.inr (Nat.lt_succ_self _), ih⟩
  | @call _ _ _ _ _ name _ _ _ _ _ _ ihinner ih =>
    rw [← List.cons_append]
    exact List.forall_mem_append.mpr ⟨weaken (below_invocation ihinner name), ih⟩
  | @callFailed _ _ _ _ name _ _ _ _ ihinner => exact weaken (below_invocation ihinner name)

theorem depth_lt (h : Report procedure? depth current rest complete log) {name : String}
    {deeper : Nat} (hmem : .invoking name deeper ∈ log) : depth < deeper := by
  rcases h.forall_below _ hmem with ⟨⟨⟩⟩ | hlt
  simp only [Event.level] at hlt
  omega

/--
The steps that are reported at the depth of a run are those that it has begun: all of them if it
returns, and otherwise the first ones.
-/
theorem stepLines_cases (h : Report procedure? depth current rest complete log)
    : (complete = true → stepLines depth log = rest.map (Step.line depth)) ∧
        (complete = false → stepLines depth log <+: rest.map (Step.line depth) ∧
          (current = none → stepLines depth log ≠ [])) := by
  induction h with
  | done => exact ⟨fun _ => rfl, nofun⟩
  | failed => exact ⟨nofun, fun _ => ⟨List.nil_prefix, nofun⟩⟩
  | warning hevent _ ih =>
    rw [stepLines_cons_of_not (Event.Below.not_runsAt (Or.inl hevent))]
    exact ih
  | run _ ih =>
    rw [stepLines_cons_line]
    constructor
    · intro hcomplete
      rw [ih.1 hcomplete]
      rfl
    · intro hfailed
      exact ⟨List.cons_prefix_cons.mpr ⟨rfl, (ih.2 hfailed).1⟩, nofun⟩
  | call _ _ hinner _ _ ih =>
    have hbelow := below_invocation hinner.forall_below
    rw [← List.cons_append, stepLines_append, stepLines_of_below (hbelow _), List.nil_append]
    exact ih
  | callFailed _ _ hinner _ =>
    rw [stepLines_of_below (below_invocation hinner.forall_below _)]
    exact ⟨nofun, fun _ => ⟨List.nil_prefix, nofun⟩⟩

/--
What a run reports until it goes on with a step or an invocation has no steps of deeper ones.
-/
theorem stepLines_untilClosed (h : Report procedure? depth current rest complete log) {deeper : Nat}
    (hdeeper : depth < deeper)
    : stepLines deeper (untilClosed deeper log) = [] := by
  -- Where the run invokes a procedure itself it either closes the deeper one or stays above it.
  have invocation {depth : Nat} (hdeeper : depth < deeper) (name : String) {log : List Event}
      (hlog : depth + 1 < deeper → stepLines deeper (untilClosed deeper log) = [])
      : stepLines deeper (untilClosed deeper (.invoking name (depth + 1) :: log)) = [] := by
    by_cases heq : depth + 1 = deeper
    · have hcloses : (Event.invoking name (depth + 1)).closes deeper = true := decide_eq_true heq
      rw [untilClosed_cons_of_closes hcloses]
      rfl
    · have hopen : (Event.invoking name (depth + 1)).closes deeper = false := decide_eq_false heq
      rw [untilClosed_cons_of_open hopen, stepLines_cons_of_not rfl]
      apply hlog
      omega
  induction h with
  | done => rfl
  | failed => rfl
  | warning hevent _ ih =>
    have hbelow (level : Nat) : Event.Below level _ := Or.inl hevent
    rw [untilClosed_cons_of_open (hbelow _).not_closes, stepLines_cons_of_not (hbelow _).not_runsAt]
    exact ih hdeeper
  | @run depth _ step _ _ _ _ _ =>
    have hcloses : (step.line depth).closes deeper = true := decide_eq_true hdeeper
    rw [untilClosed_cons_of_closes hcloses]
    rfl
  | call _ _ _ _ ihinner ih =>
    apply invocation hdeeper
    intro hinner
    rw [stepLines_untilClosed_append (ih hdeeper)]
    exact ihinner hinner
  | callFailed _ _ _ ihinner =>
    apply invocation hdeeper
    exact ihinner

/--
An invocation takes place inside a step that lists its name.
-/
theorem caller {outermost steps : List Step} {before : List Event}
    (h : Report procedure? depth current rest complete log)
    (hpart : PartOf procedure? outermost before depth steps)
    (hcurrent : ∀ step, current = some step → step ∈ steps ∧ Inside (step.line depth) before)
    (hrest : ∀ step ∈ rest, step ∈ steps) {past future : List Event} {name : String} {k : Nat}
    (hlog : log = past ++ .invoking name (k + 1) :: future)
    : ∃ caller steps, PartOf procedure? outermost (before ++ past) k steps ∧ caller ∈ steps ∧
        caller.Calls name ∧ Inside (caller.line k) (before ++ past) := by
  induction h generalizing before steps past future with
  | done => simp at hlog
  | failed => simp at hlog
  | @warning _ _ _ _ event _ hevent _ ih =>
    rcases cons_eq_append_cons hlog with ⟨-, rfl, -⟩ | ⟨past, rfl, hpast⟩
    · cases hevent
    · have hbelow (level : Nat) : ∀ e ∈ [event], e.Below level :=
        List.forall_mem_singleton.mpr (Or.inl hevent)
      rw [List.append_cons]
      apply ih (hpart.append (hbelow _)) _ hrest hpast
      intro step hstep
      obtain ⟨hmem, hinside⟩ := hcurrent step hstep
      exact ⟨hmem, hinside.append (hbelow _)⟩
  | @run depth _ step _ _ _ _ ih =>
    rcases cons_eq_append_cons hlog with ⟨-, heq, -⟩ | ⟨past, rfl, hpast⟩
    · cases heq
    · have hbelow : ∀ e ∈ [step.line depth], e.Below (2 * depth) :=
        List.forall_mem_singleton.mpr (Or.inr (Nat.lt_succ_self _))
      rw [List.append_cons]
      apply ih (hpart.append hbelow) _ (fun step hstep => hrest step (List.mem_cons_of_mem _ hstep))
        hpast
      rintro _ ⟨⟩
      exact ⟨hrest step List.mem_cons_self, inside_self _ _⟩
  | @call depth step _ called _ name' inner _ hcalls hname hinner h ihinner ih =>
    obtain ⟨hmem, hinside⟩ := hcurrent step rfl
    rcases cons_eq_append_cons hlog with ⟨rfl, heq, -⟩ | ⟨past, rfl, hpast⟩
    · cases heq
      rw [List.append_nil]
      exact ⟨step, steps, hpart, hmem, hcalls, hinside⟩
    · rcases append_eq_append_cons hpast with ⟨left, hleft, -⟩ | ⟨between, rfl, hbetween⟩
      · rw [List.append_cons]
        exact ihinner ⟨name', inside_self _ _, hname⟩ nofun (fun _ hmem => hmem) hleft
      · have hbelow := below_invocation hinner.forall_below name'
        rw [← List.cons_append, ← List.append_assoc]
        apply ih (hpart.append fun e he => (hbelow e he).mono (Nat.le_succ _)) _ hrest hbetween
        rintro _ ⟨⟩
        exact ⟨hmem, hinside.append hbelow⟩
  | @callFailed depth step _ called name' inner hcalls hname hinner ihinner =>
    obtain ⟨hmem, hinside⟩ := hcurrent step rfl
    rcases cons_eq_append_cons hlog with ⟨rfl, heq, -⟩ | ⟨past, rfl, hpast⟩
    · cases heq
      rw [List.append_nil]
      exact ⟨step, steps, hpart, hmem, hcalls, hinside⟩
    · rw [List.append_cons]
      exact ihinner ⟨name', inside_self _ _, hname⟩ nofun (fun _ hmem => hmem) hpast

/--
After an invocation has been announced the steps of its procedure follow.
-/
theorem called (h : Report procedure? depth current rest complete log) {past future : List Event}
    {name : String} {deeper : Nat} (hlog : log = past ++ .invoking name deeper :: future)
    : Called procedure? name deeper future complete := by
  induction h generalizing past future with
  | done => simp at hlog
  | failed => simp at hlog
  | warning hevent _ ih =>
    rcases cons_eq_append_cons hlog with ⟨-, rfl, -⟩ | ⟨past, -, hlog⟩
    · cases hevent
    · exact ih hlog
  | run _ ih =>
    rcases cons_eq_append_cons hlog with ⟨-, heq, -⟩ | ⟨past, -, hlog⟩
    · cases heq
    · exact ih hlog
  | @call depth _ _ steps _ _ _ _ _ hname hinner h ihinner ih =>
    rcases cons_eq_append_cons hlog with ⟨-, heq, rfl⟩ | ⟨past, -, hlog⟩
    · cases heq
      refine ⟨steps, hname, Or.inl ?_⟩
      rw [stepLines_untilClosed_append (h.stepLines_untilClosed (Nat.lt_succ_self depth)),
        untilClosed_of_below hinner.forall_below, hinner.stepLines_cases.1 rfl]
    · rcases append_eq_append_cons hlog with ⟨left, hleft, rfl⟩ | ⟨between, -, hbetween⟩
      · -- What follows on the inner invocation goes on after the outer one, without any of its steps.
        have hdeeper := hinner.depth_lt (hleft ▸ List.mem_append_cons_self)
        obtain ⟨steps, hname, hsteps | ⟨⟨⟩, -⟩⟩ := ihinner hleft
        refine ⟨steps, hname, Or.inl ?_⟩
        rw [stepLines_untilClosed_append (h.stepLines_untilClosed (Nat.lt_of_succ_lt hdeeper)),
          hsteps]
      · exact ih hbetween
  | @callFailed _ _ _ steps _ _ _ hname hinner ihinner =>
    rcases cons_eq_append_cons hlog with ⟨-, heq, rfl⟩ | ⟨past, -, hlog⟩
    · cases heq
      obtain ⟨hfirst, hne⟩ := hinner.stepLines_cases.2 rfl
      refine ⟨steps, hname, Or.inr ⟨rfl, hinner.forall_below, ?_⟩⟩
      rw [untilClosed_of_below hinner.forall_below]
      exact ⟨hne rfl, hfirst⟩
    · exact ihinner hlog

end Report

end Reshape
