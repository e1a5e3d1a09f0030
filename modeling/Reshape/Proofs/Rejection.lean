import Reshape.Proofs.Contract
import Reshape.Proofs.InPlace
import Reshape.Proofs.Legible

/-!
This module contains the failures that steps are rejected with. Where nothing is called and no
numeral has too many digits, a run fails if and only if one of its steps is rejected, whatever the
data, so that one value shows all that is wrong with the payloads.
-/

namespace Reshape

/--
Whether an operation neither calls functions nor invokes procedures.
-/
def Op.isSelfContained : Op → Bool
  | .func => false
  | .procedure => false
  | .model => false
  | _ => true

/--
Whether no text and no integer of a step has more digits than are read and written, and no segment
of its paths more than are looked up.
-/
def Step.isLegible (step : Step) : Bool :=
  step.payload.madeOf .legible &&
    (Instruction.ofStep step).all fun instruction =>
      instruction.paths.all fun path => path.segments.all fun segment => !overlong segment

/--
The contract of runs on legible values.
-/
def Contract.legible (fails : Error → Prop) : Contract where
  parts := .legible
  fails := fails
  casts _ _ _ hv h := Cast.legible_of_apply hv h
  digits v hv h := by
    rw [Value.isReadable_of_legible hv, Value.isWritable_of_legible hv] at h
    rcases h with h | h <;> cases h

def Instruction.rejection? : Instruction → Option Error
  | .reject cause => some cause
  | _ => none

def Step.rejection? (step : Step) : Option Error :=
  (Instruction.ofStep step).findSome? Instruction.rejection?

/--
What the first rejected one of some steps is rejected with.
-/
def rejection? (steps : List Step) : Option Error :=
  steps.findSome? Step.rejection?

theorem OperationError.isWritable_of_isShape {cause : OperationError} (h : cause.isShape = true)
    : cause.isWritable = true := by
  cases cause <;> first | rfl | cases h

theorem Error.shown_operation {cause : OperationError} (h : cause.isWritable = true)
    : (Error.operation cause).shown = .operation cause :=
  if_pos h

section Step

variable {step : Step} {instruction : Instruction}

theorem Key.isWritable_of_legible {k : Key} (h : Parts.legible.key k = true)
    : k.toValue.isWritable = true := by
  cases k with
  | int n => exact h
  | _ => rfl

/--
Legible steps are rejected for what their messages can tell.
-/
theorem Instruction.Arises.operation_of_reject {e : Error} (h : Arises step (.reject e))
    (hpayload : step.payload.madeOf .legible = true)
    : ∃ cause, e = .operation cause ∧ cause.isWritable = true := by
  cases h with
  | rejectShape hshape => exact ⟨_, rfl, OperationError.isWritable_of_isShape hshape⟩
  | rejectCast hlists =>
    exact ⟨_, rfl, Value.isWritable_of_legible (hlists.madeOf hpayload)⟩
  | rejectTable hlists htable =>
    rcases table_fails _ _ htable with rfl | ⟨-, fields, k, w, rfl, hmem, hlong⟩
    · exact ⟨_, rfl, rfl⟩
    · have hv := hlists.madeOf hpayload
      rw [Value.madeOf_object] at hv
      rw [Key.isWritable_of_legible (hv _ hmem).1] at hlong
      cases hlong

theorem Step.passes_of_isLegible {fails : Error → Prop} (h : step.isLegible = true)
    (hmem : instruction ∈ Instruction.ofStep step) {path : Path} (hpath : path ∈ instruction.paths)
    : (Contract.legible fails).Passes path := by
  intro segment hsegment hlong
  rw [isLegible, Bool.and_eq_true] at h
  have hshort := List.all_eq_true.mp (List.all_eq_true.mp (List.all_eq_true.mp h.2 _ hmem) _ hpath)
    _ hsegment
  rw [hlong] at hshort
  cases hshort

theorem Step.payload_of_isLegible (h : step.isLegible = true)
    : step.payload.madeOf .legible = true := by
  rw [isLegible, Bool.and_eq_true] at h
  exact h.1

end Step

/--
A run that a verdict, if there is one, decides, and that otherwise comes to a value as told.
-/
def Settled (done : Value → Prop) (verdict : Option Error) (x : Outcome Value) : Prop :=
  match verdict with
  | some e => x.result = .error e
  | none => ∃ w, x.result = .ok w ∧ done w

namespace Settled

variable {done : Value → Prop} {verdict : Option Error} {x : Outcome Value}

theorem of_agree (h : Agree done (fun _ => False) x x) : Settled done none x := by
  cases hresult : x.result with
  | error e => exact absurd (h.fails e hresult) not_false
  | ok w => exact ⟨w, hresult, h.done w hresult⟩

theorem result_eq_error_iff (h : Settled done verdict x) (e : Error)
    : x.result = .error e ↔ verdict = some e := by
  cases verdict with
  | some e' =>
    have hresult : x.result = .error e' := h
    rw [hresult, Except.error.injEq, Option.some.injEq]
  | none =>
    obtain ⟨w, hresult, -⟩ := h
    simp [hresult]

theorem note (event : Event) (h : Settled done verdict x)
    : Settled done verdict (Outcome.note event >>= fun _ => x) := by
  cases verdict with
  | some e => exact h
  | none => exact h

/--
The first verdict of the items decides a run through them.
-/
theorem foldlM {α : Type} {items : List α} {run : Value → α → Outcome Value}
    {verdict : α → Option Error}
    (h : ∀ item ∈ items, ∀ v, done v → Settled done (verdict item) (run v item)) {v : Value}
    (hv : done v) : Settled done (items.findSome? verdict) (items.foldlM run v) := by
  induction items generalizing v with
  | nil => exact ⟨v, rfl, hv⟩
  | cons item items ih =>
    have hitem := h item List.mem_cons_self v hv
    rw [List.foldlM_cons, List.findSome?_cons]
    cases hverdict : verdict item with
    | some e =>
      rw [hverdict] at hitem
      rw [Outcome.bind_of_error hitem]
      rfl
    | none =>
      rw [hverdict] at hitem
      obtain ⟨w, hresult, hw⟩ := hitem
      rw [Outcome.bind_of_ok hresult]
      apply ih _ hw
      intro item' hmem
      exact h item' (List.mem_cons_of_mem _ hmem)

end Settled

namespace Surroundings

variable (s : Surroundings) {invoke : String → Value → Outcome Value} {v : Value}

theorem settled_runInstruction {step : Step} (hop : step.op.isSelfContained = true)
    (hlegible : step.isLegible = true) {instruction : Instruction}
    (hmem : instruction ∈ Instruction.ofStep step) (hv : v.madeOf .legible = true)
    : Settled (fun w => w.madeOf .legible = true) instruction.rejection?
        (s.runInstruction invoke v instruction) := by
  have harises := Instruction.arises_of_mem_ofStep hmem
  have passes {path : Path} (hpath : path ∈ instruction.paths)
      : (Contract.legible fun _ => False).Passes path :=
    Step.passes_of_isLegible hlegible hmem hpath
  have not_procedures : ¬ (step.op = .procedure ∨ step.op = .model) := by
    rintro (h | h)
    · rw [h] at hop
      cases hop
    · rw [h] at hop
      cases hop
  cases instruction with
  | edit path edit =>
    apply Settled.of_agree
    rw [runInstruction, Edit.applyAt]
    apply Agree.applyAt _ (passes (by simp [Instruction.paths])) hv
    intro a w hw
    exact (Contract.legible _).edit (harises.edit_fits (Step.payload_of_isLegible hlegible)) hw
  | relocate keep source target =>
    apply Settled.of_agree
    exact (Contract.legible _).relocate keep (passes (by simp [Instruction.paths]))
      (passes (by simp [Instruction.paths])) hv
  | callWhole function =>
    cases harises with
    | callWhole hfunc =>
      rw [hfunc] at hop
      cases hop
  | call path function =>
    cases harises with
    | call hfunc =>
      rw [hfunc] at hop
      cases hop
  | require name =>
    cases harises with
    | require _ hprocedures => exact absurd hprocedures not_procedures
  | invoke path name =>
    cases harises with
    | invoke _ _ hprocedures => exact absurd hprocedures not_procedures
  | reject cause => rfl

theorem settled_runSteps (depth : Nat) {steps : List Step}
    (hops : ∀ step ∈ steps, step.op.isSelfContained = true)
    (hlegible : ∀ step ∈ steps, step.isLegible = true) (hv : v.madeOf .legible = true)
    : Settled (fun w => w.madeOf .legible = true) (rejection? steps)
        (s.runSteps invoke depth steps v) := by
  refine Settled.foldlM ?_ hv
  intro step hstep w hw
  apply Settled.note
  refine Settled.foldlM ?_ hw
  intro instruction hmem u hu
  exact s.settled_runInstruction (hops step hstep) (hlegible step hstep) hmem hu

end Surroundings

/--
Failures do not depend on the data. Where a set neither calls functions nor invokes procedures and
no numeral has too many digits, two runs fail alike or not at all: a run fails exactly with what the
first rejected step is rejected with, a failure of the operations whose message can be made. So a
dry run on any one value, null among them, shows it.
-/
theorem Workspace.processSet_rejection (host : InPlaceHost) (store : Store) (set : OperationSet)
    (hops : ∀ step ∈ set.steps, step.op.isSelfContained = true)
    (hlegible : ∀ step ∈ set.steps, step.isLegible = true) {v w : Value}
    (hv : v.madeOf .legible = true) (hw : w.madeOf .legible = true)
    : let run (v : Value) := (processSet host store set v).outcome.result
      (∀ e, run v = .error e ↔ run w = .error e) ∧
        (∀ e, run v = .error e ↔ run .null = .error e) ∧
        (∀ e, run v = .error e ↔ rejection? set.steps = some e) ∧
        (∀ e, run v = .error e → ∃ cause, e = .operation cause ∧ e.shown = e) := by
  intro run
  have decided {u : Value} (hu : u.madeOf .legible = true) (e : Error)
      : run u = .error e ↔ rejection? set.steps = some e := by
    have hsettled : Settled (fun w => w.madeOf .legible = true) (rejection? set.steps)
        (processSet host store set u).outcome := by
      rw [outcome_processSet]
      exact Surroundings.settled_runSteps _ 0 hops hlegible hu
    exact hsettled.result_eq_error_iff e
  refine ⟨?_, ?_, decided hv, ?_⟩
  · intro e
    rw [decided hv, decided hw]
  · intro e
    rw [decided hv, decided Value.madeOf_null]
  · intro e he
    rw [decided hv, rejection?, List.findSome?_eq_some_iff] at he
    obtain ⟨_, step, _, hsteps, he, -⟩ := he
    have hstep : step ∈ set.steps := by
      rw [hsteps]
      simp
    rw [Step.rejection?, List.findSome?_eq_some_iff] at he
    obtain ⟨_, instruction, _, hinstructions, he, -⟩ := he
    have hmem : instruction ∈ Instruction.ofStep step := by
      rw [hinstructions]
      simp
    cases instruction with
    | reject cause =>
      cases he
      obtain ⟨cause, rfl, hwritable⟩ :=
        (Instruction.arises_of_mem_ofStep hmem).operation_of_reject
          (Step.payload_of_isLegible (hlegible step hstep))
      exact ⟨cause, rfl, Error.shown_operation hwritable⟩
    | _ => cases he

theorem Workspace.processSet_rejection_cast
    : let set : OperationSet := ⟨[⟨[.operation .sigil .set (.object [(.str "a", .int 5)])]⟩,
        ⟨[.operation .sigil .cast (.object [(.str "a", .str "number"), (.str "$", .str "text")])]⟩],
        0, false, 1⟩
      let run (v : Value) := (processSet .standard {} set v).outcome.result
      (∀ step ∈ set.steps, step.op.isSelfContained = true) ∧
        (∀ step ∈ set.steps, step.isLegible = true) ∧
        rejection? set.steps = some (.operation (.badCast (.str "text"))) ∧
        run .null = .error (.operation (.badCast (.str "text"))) ∧
        ∀ e, run (.object [(.str "a", .null)]) = .error e ↔ run (.list [.str "x"]) = .error e := by
  intro set run
  have hsteps : set.steps = [⟨.set, .object [(.str "a", .int 5)], 0⟩,
      ⟨.cast, .object [(.str "a", .str "number"), (.str "$", .str "text")], 1⟩] := by
    decide +kernel
  have hops : ∀ step ∈ set.steps, step.op.isSelfContained = true := by
    rw [hsteps]
    decide
  have hlegible : ∀ step ∈ set.steps, step.isLegible = true := by
    rw [hsteps]
    decide +kernel
  have hrejection : rejection? set.steps = some (.operation (.badCast (.str "text"))) := by
    rw [hsteps, rejection?]
    rfl
  obtain ⟨hsame, hdry, hdecided, -⟩ := processSet_rejection .standard {} set hops hlegible
    (v := .object [(.str "a", .null)]) (w := .list [.str "x"]) (by decide +kernel) (by decide +kernel)
  have hfails := (hdry _).mp ((hdecided _).mpr hrejection)
  exact ⟨hops, hlegible, hrejection, hfails, hsame⟩

end Reshape
