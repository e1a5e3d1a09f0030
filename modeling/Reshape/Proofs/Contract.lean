import Reshape.Proofs.Agreement

/-!
This module contains contracts of runs: the parts that all values have and the failures that are
foreseen. A run of steps keeps a contract if its instructions and those of all procedures fit it.
The run then agrees with one that is watched, in which functions and procedures answer in any other
way whatever to values that do not have the parts. So they are never called with such a value.
-/

namespace Reshape

/--
The parts that the values of a run have and the failures that it may end with. Casts keep the parts,
and numerals with too many digits are not among them unless such a failure is foreseen.
-/
structure Contract where
  parts : Parts
  fails : Error → Prop
  casts : ∀ (cast : Cast) (v w : Value), v.madeOf parts = true → cast.apply v = .ok w →
    w.madeOf parts = true
  digits : ∀ v : Value, v.madeOf parts = true → v.isReadable = false ∨ v.isWritable = false →
    fails .tooManyDigits

namespace Contract

variable (c : Contract)

/--
The agreement of runs on a whole value, which does not go away.
-/
abbrev Whole (x y : Outcome Value) : Prop :=
  Agree (fun w => w.madeOf c.parts = true) c.fails x y

/--
The agreement of runs on a field, which may be given up.
-/
abbrev Field (x y : Outcome Value) : Prop :=
  Agree (Value.Fills c.parts) c.fails x y

def Passes (path : Path) : Prop :=
  ∀ segment ∈ path.segments, overlong segment = true → c.fails .tooManyDigits

end Contract

theorem Edit.apply_cast {v : Value} (h : v ≠ .missing) (c : Cast)
    : (Edit.cast c).apply v = c.apply v := by
  cases v with
  | missing => exact absurd rfl h
  | _ => rfl

theorem Edit.apply_substitute {v : Value} (h : v ≠ .missing) (table : Table)
    : (Edit.substitute table).apply v = table.substitute v := by
  cases v with
  | missing => exact absurd rfl h
  | _ => rfl

theorem Wrapper.madeOf_wrap {p : Parts} (wrapper : Wrapper) {v : Value} (hv : v.madeOf p = true)
    : (wrapper.wrap v).madeOf p = true := by
  cases wrapper with
  | field name =>
    rw [wrap, Value.madeOf_object]
    exact List.forall_mem_singleton.mpr ⟨p.key_str name, hv⟩
  | list =>
    rw [wrap, Value.madeOf_list]
    exact List.forall_mem_singleton.mpr hv

/--
Whether an edit puts nothing in that has other parts.
-/
def Edit.Fits (p : Parts) : Edit → Prop
  | .put v => v.madeOf p = true
  | .substitute table => ∀ entry ∈ table, entry.2.madeOf p = true
  | _ => True

theorem Step.Lists.madeOf {p : Parts} {step : Step} {field : String} {v : Value}
    (h : step.Lists field v) (hpayload : step.payload.madeOf p = true) : v.madeOf p = true := by
  obtain ⟨fields, hfields, hmem⟩ := h
  rw [hfields, Value.madeOf_object] at hpayload
  exact (hpayload _ hmem).2

theorem Table.madeOf_of_ofValue {p : Parts} {v : Value} {table : Table}
    (h : Table.ofValue v = .ok table) (hv : v.madeOf p = true)
    : ∀ entry ∈ table, entry.2.madeOf p = true := by
  cases v with
  | object fields =>
    rw [Value.madeOf_object] at hv
    unfold Table.ofValue at h
    rw [except_bind_eq_ok_iff] at h
    obtain ⟨entries, hentries, h⟩ := h
    cases h
    intro entry hentry
    obtain ⟨field, hfield, hentry⟩ := mem_of_mapM hentries (Assoc.mem_of_mem_ofList hentry)
    rw [except_bind_eq_ok_iff] at hentry
    obtain ⟨text, -, hentry⟩ := hentry
    cases hentry
    exact (hv field hfield).2
  | _ => cases h

namespace Instruction

def paths : Instruction → List Path
  | .edit path _ => [path]
  | .relocate _ source target => [source, target]
  | .call path _ => [path]
  | .invoke path _ => [path]
  | _ => []

/--
Whether an instruction keeps a contract, if the procedures do.
-/
def Fits (c : Contract) (s : Surroundings) : Instruction → Prop
  | .edit path change => c.Passes path ∧ change.Fits c.parts
  | .relocate _ source target => c.Passes source ∧ c.Passes target
  | .callWhole function =>
    ∀ v : Value, v.madeOf c.parts = true → c.Whole (s.callHost function v) (s.callHost function v)
  | .call path function =>
    c.Passes path ∧
      ∀ v : Value, v.madeOf c.parts = true → c.Field (s.callHost function v) (s.callHost function v)
  | .require name => s.procedure? name = none → c.fails (.operation (.unregistered (.str name)))
  | .invoke path _ => c.Passes path
  | .reject cause => c.fails cause

theorem Arises.edit_fits {p : Parts} {step : Step} {path : Path} {change : Edit}
    (h : Arises step (.edit path change)) (hpayload : step.payload.madeOf p = true)
    : change.Fits p := by
  cases h with
  | put hlists => exact hlists.madeOf hpayload
  | erase path => trivial
  | cast path cast => trivial
  | wrap path wrapper => trivial
  | substitute hlists htable => exact Table.madeOf_of_ofValue htable (hlists.madeOf hpayload)

end Instruction

def Step.Fits (c : Contract) (s : Surroundings) (step : Step) : Prop :=
  ∀ instruction ∈ Instruction.ofStep step, instruction.Fits c s

/--
Whether all procedures that a run can invoke keep a contract.
-/
def Surroundings.Keeps (c : Contract) (s : Surroundings) : Prop :=
  ∀ name steps, s.procedure? name = some steps → ∀ step ∈ steps, step.Fits c s

namespace Surroundings

/--
What functions and procedures answer to values that a watched run keeps from them.
-/
structure Alarm where
  call : String → Value → Except String Value
  invoke : String → Value → Outcome Value

def guarded {α : Type} (p : Parts) (alarm run : String → Value → α) (name : String) (v : Value)
    : α :=
  if v.madeOf p then run name v else alarm name v

variable (s : Surroundings) (p : Parts) (alarm : Alarm)

def watched : Surroundings where
  host := ⟨guarded p alarm.call s.host.call⟩
  procedure? := s.procedure?

/--
Runs a procedure, which, as all functions and procedures that it calls, is kept from values that do
not have the given parts.
-/
def invokeWatched : (remaining depth : Nat) → String → Value → Outcome Value
  | 0, depth => guarded p alarm.invoke fun name _ => .fail (.operation (.tooDeep name depth))
  | remaining + 1, depth => guarded p alarm.invoke fun name v => do
    Outcome.note (.invoking name (depth + 1))
    (s.watched p alarm).runSteps (invokeWatched remaining (depth + 1)) (depth + 1)
      ((s.procedure? name).getD []) v

@[inherit_doc invokeWatched]
def processWatched (bound : Nat) (steps : List Step) (v : Value) : Outcome Value :=
  (s.watched p alarm).runSteps (s.invokeWatched p alarm bound 0) 0 steps v

end Surroundings

namespace Contract

open Surroundings

variable (c : Contract) {s : Surroundings} (alarm : Alarm) {v : Value}

theorem fills_edit {edit : Edit} (hfits : edit.Fits c.parts) (hv : v.Fills c.parts) {w : Value}
    (h : edit.apply v = .ok w) : w.Fills c.parts := by
  by_cases hmissing : v = .missing
  · subst hmissing
    cases edit with
    | put new =>
      cases h
      exact Or.inr hfits
    | wrap wrapper =>
      cases h
      exact Or.inr (wrapper.madeOf_wrap Value.madeOf_null)
    | _ =>
      cases h
      exact Or.inl rfl
  · have hparts := hv.madeOf_of_ne hmissing
    cases edit with
    | put new =>
      cases h
      exact Or.inr hfits
    | erase =>
      cases h
      exact Or.inl rfl
    | cast cast =>
      rw [Edit.apply_cast hmissing] at h
      exact Or.inr (c.casts cast v w hparts h)
    | substitute table =>
      rw [Edit.apply_substitute hmissing] at h
      unfold Table.substitute at h
      rw [except_bind_eq_ok_iff] at h
      obtain ⟨text, -, h⟩ := h
      cases h
      cases hfind : table.find? text with
      | none => exact hv
      | some new =>
        rw [Table.find?, Option.or_eq_some_iff] at hfind
        rcases hfind with hfind | ⟨-, hfind⟩
        · exact Or.inr (hfits _ (Assoc.mem_of_get? hfind))
        · exact Or.inr (hfits _ (Assoc.mem_of_get? hfind))
    | wrap wrapper =>
      cases h
      exact Or.inr (wrapper.madeOf_wrap hv.orNull)

theorem edit {edit : Edit} (hfits : edit.Fits c.parts) (hv : v.Fills c.parts)
    : c.Field (Outcome.ofExcept (edit.apply v)) (Outcome.ofExcept (edit.apply v)) where
  same := rfl
  done w hw := c.fills_edit hfits hv hw
  fails := by
    refine (Edit.apply_fails edit v).mono ?_
    rintro e ⟨rfl, hlong⟩
    rcases hv with rfl | hv
    · rcases hlong with hlong | hlong <;> cases hlong
    · exact c.digits v hv hlong

theorem relocate (keep : Bool) {source target : Path} (hsource : c.Passes source)
    (htarget : c.Passes target) (hv : v.madeOf c.parts = true)
    : c.Whole (Reshape.relocate keep source.segments target.segments v).outcome
        (Reshape.relocate keep source.segments target.segments v).outcome := by
  have hkept := madeOf_relocate keep source.segments target.segments hv
  have hfailure := @relocate_failure keep source.segments target.segments v
  cases hresult : (Reshape.relocate keep source.segments target.segments v).failure with
  | none =>
    refine ⟨rfl, ?_, ?_⟩
    · intro w hw
      rw [Relocation.outcome, Relocation.result, hresult] at hw
      cases hw
      exact hkept hresult
    · rw [Relocation.outcome, Relocation.result, hresult]
      apply FailsOnly.ok
  | some e =>
    obtain ⟨rfl, segment, hsegment, hlong⟩ := hfailure hresult
    refine ⟨rfl, ?_, ?_⟩
    · intro w hw
      rw [Relocation.outcome, Relocation.result, hresult] at hw
      cases hw
    · rw [Relocation.outcome, Relocation.result, hresult]
      apply FailsOnly.error
      rcases List.mem_append.mp hsegment with hmem | hmem
      · exact hsource segment hmem hlong
      · exact htarget segment hmem hlong

theorem callHost_watched (function : String) (hv : v.madeOf c.parts = true)
    : (s.watched c.parts alarm).callHost function v = s.callHost function v := by
  have hcall : (s.watched c.parts alarm).host.call function v = s.host.call function v :=
    if_pos hv
  rw [callHost, callHost, hcall]

section Run

variable {invoke invoke' : String → Value → Outcome Value}

theorem runInstruction {instruction : Instruction} (hfits : instruction.Fits c s)
    (hinvoke : ∀ path name, instruction = .invoke path name → ∀ w, w.madeOf c.parts = true →
      c.Whole (invoke' name w) (invoke name w))
    (hv : v.madeOf c.parts = true)
    : c.Whole ((s.watched c.parts alarm).runInstruction invoke' v instruction)
        (s.runInstruction invoke v instruction) := by
  cases instruction with
  | edit path edit =>
    rw [Surroundings.runInstruction, Surroundings.runInstruction, Edit.applyAt]
    apply Agree.applyAt _ hfits.1 hv
    intro a w hw
    exact c.edit hfits.2 hw
  | relocate keep source target => exact c.relocate keep hfits.1 hfits.2 hv
  | callWhole function =>
    rw [Surroundings.runInstruction, Surroundings.runInstruction,
      c.callHost_watched alarm function hv]
    exact hfits v hv
  | call path function =>
    rw [Surroundings.runInstruction, Surroundings.runInstruction]
    apply Agree.applyAt _ hfits.1 hv
    intro a w hw
    apply Agree.skipMissing _ hw
    intro u hu
    rw [c.callHost_watched alarm function hu]
    exact hfits.2 u hu
  | require name =>
    unfold Surroundings.runInstruction watched
    dsimp only
    cases hprocedure : s.procedure? name with
    | none => exact Agree.fail (hfits hprocedure)
    | some steps => exact Agree.ok hv
  | invoke path name =>
    rw [Surroundings.runInstruction, Surroundings.runInstruction]
    apply Agree.applyAt _ hfits hv
    intro a w hw
    apply Agree.skipMissing _ hw
    intro u hu
    exact (hinvoke path name rfl u hu).mono fun w hw => Or.inr hw
  | reject cause => exact Agree.fail hfits

theorem runStep (depth : Nat) {step : Step} (hfits : step.Fits c s)
    (hinvoke : ∀ name w, w.madeOf c.parts = true → c.Whole (invoke' name w) (invoke name w))
    (hv : v.madeOf c.parts = true)
    : c.Whole ((s.watched c.parts alarm).runStep invoke' depth v step)
        (s.runStep invoke depth v step) := by
  apply Agree.bind (Agree.note _)
  intro _ _
  refine Agree.foldlM ?_ hv
  intro instruction hmem w hw
  exact c.runInstruction alarm (hfits instruction hmem) (fun _ name _ => hinvoke name) hw

theorem runSteps (depth : Nat) {steps : List Step}
    (hfits : ∀ step ∈ steps, step.Fits c s)
    (hinvoke : ∀ name w, w.madeOf c.parts = true → c.Whole (invoke' name w) (invoke name w))
    (hv : v.madeOf c.parts = true)
    : c.Whole ((s.watched c.parts alarm).runSteps invoke' depth steps v)
        (s.runSteps invoke depth steps v) := by
  refine Agree.foldlM ?_ hv
  intro step hstep w hw
  exact c.runStep alarm depth (hfits step hstep) hinvoke hw

end Run

/--
Procedures keep the contract, with the failure of nesting too deep at the bound. The induction is on
the levels that remain.
-/
theorem invoke (hkeeps : s.Keeps c) (remaining depth : Nat)
    (hdeep : ∀ name, c.fails (.operation (.tooDeep name (remaining + depth)))) (name : String)
    (hv : v.madeOf c.parts = true)
    : c.Whole (s.invokeWatched c.parts alarm remaining depth name v)
        (s.invoke remaining depth name v) := by
  induction remaining generalizing depth name v with
  | zero =>
    rw [invokeWatched, guarded, if_pos hv]
    rw [Nat.zero_add] at hdeep
    exact Agree.fail (hdeep name)
  | succ remaining ih =>
    rw [invokeWatched, guarded, if_pos hv, Surroundings.invoke]
    apply Agree.bind (Agree.note _)
    intro _ _
    apply c.runSteps alarm (depth + 1) _ _ hv
    · intro step hstep
      cases hprocedure : s.procedure? name with
      | none =>
        rw [hprocedure] at hstep
        cases hstep
      | some steps =>
        rw [hprocedure] at hstep
        exact hkeeps name steps hprocedure step hstep
    · intro name w hw
      apply ih _ _ _ hw
      intro name
      rw [Nat.add_comm depth 1, ← Nat.add_assoc]
      exact hdeep name

section Process

variable {bound : Nat} {steps : List Step} (hkeeps : s.Keeps c)
  (hsteps : ∀ step ∈ steps, step.Fits c s)
  (hdeep : ∀ name, c.fails (.operation (.tooDeep name bound))) (hv : v.madeOf c.parts = true)

include hkeeps hsteps hdeep hv

/--
A run of steps keeps a contract that the instructions of its steps and of all procedures fit.
-/
theorem process
    : c.Whole (s.processWatched c.parts alarm bound steps v) (s.process bound steps v) := by
  apply c.runSteps alarm 0 hsteps _ hv
  intro name w hw
  exact c.invoke alarm hkeeps bound 0 hdeep name hw

theorem process_fails : FailsOnly c.fails (s.process bound steps v).result := by
  let alarm : Alarm := ⟨fun _ _ => .error "", fun _ _ => .fail .tooManyDigits⟩
  exact (c.process alarm hkeeps hsteps hdeep hv).right.fails

end Process

end Contract
end Reshape
