import Reshape.Proofs.Contract
import Reshape.Proofs.InPlace

/-!
This module contains what a run in place leaves when an operation fails: what the steps before the
failing one have done, and in the failing step what its instructions have done before the one that
fails. Steps whose checks all come first leave nothing of their own.
-/

namespace Reshape

namespace Shadow

mutual

theorem follow_follow (f g : Movement)
    : ∀ s : Shadow, (s.follow f).follow g = s.follow fun a => (f a).follow g
  | .within _ => rfl
  | .apart _ => rfl
  | .shallow fields => by
    rw [follow, follow, follow, followFields_followFields f g fields]

theorem followFields_followFields (f g : Movement)
    : ∀ fields : List (Key × Shadow), followFields g (followFields f fields) =
        followFields (fun a => (f a).follow g) fields
  | [] => rfl
  | (k, s) :: fields => by
    rw [followFields, followFields, followFields, follow_follow f g s,
      followFields_followFields f g fields]

end

mutual

theorem follow_still : ∀ s : Shadow, s.follow .still = s
  | .within _ => rfl
  | .apart _ => rfl
  | .shallow fields => by
    rw [follow, followFields_still fields]

theorem followFields_still : ∀ fields : List (Key × Shadow), followFields .still fields = fields
  | [] => rfl
  | (k, s) :: fields => by
    rw [followFields, follow_still s, followFields_still fields]

end

end Shadow

namespace Passage

theorem andThen_assoc (x : Passage) (f g : Value → Passage)
    : (x.andThen f).andThen g = x.andThen fun v => (f v).andThen g := by
  cases hx : x.failure with
  | some e =>
    rw [andThen_of_failure hx, andThen_of_failure hx, andThen_of_failure hx]
  | none =>
    rw [andThen_of_none hx, andThen_of_none hx]
    cases hy : (f x.value).failure with
    | some e =>
      rw [andThen_of_failure (e := e) rfl, andThen_of_failure hy]
      rw [hy]
    | none =>
      rw [andThen_of_none rfl, andThen_of_none hy]
      simp only [List.append_assoc, Shadow.follow_follow]

/--
A passage that leaves a value as it was, whether or not it fails.
-/
def Idle (v : Value) (x : Passage) : Prop :=
  x.value = v ∧ x.moved = .still

theorem left_andThen_of_idle {x : Passage} {next : Value → Passage}
    (h : Idle x.value (next x.value)) (v : Value) : (x.andThen next).left v = x.left v := by
  cases hx : x.failure with
  | some e => rw [andThen_of_failure hx]
  | none =>
    rw [andThen_of_none hx, left, left, leftAt, leftAt]
    dsimp only
    rw [h.1, h.2, Shadow.follow_still]

section RunAll

variable {α : Type} (next : α → Value → Passage)

/--
Goes on with one passage after the other, up to the first failing one.
-/
def runAll (items : List α) (x : Passage) : Passage :=
  items.foldl (fun x item => x.andThen (next item)) x

variable {items : List α} {x : Passage}

theorem runAll_of_failure {e : Error} (h : x.failure = some e) : runAll next items x = x := by
  induction items with
  | nil => rfl
  | cons item items ih =>
    rw [runAll, List.foldl_cons, andThen_of_failure h]
    exact ih

theorem andThen_runAll (items : List α) (x : Passage) (start : Value → Passage)
    : x.andThen (fun v => runAll next items (start v)) = runAll next items (x.andThen start) := by
  induction items generalizing start with
  | nil => rfl
  | cons item items ih =>
    have hassoc := ih fun v => (start v).andThen (next item)
    rw [← andThen_assoc] at hassoc
    exact hassoc

theorem left_runAll_of_idle (h : ∀ item ∈ items, ∀ w, Idle w (next item w)) (v : Value)
    : (runAll next items x).left v = x.left v := by
  induction items generalizing x with
  | nil => rfl
  | cons item items ih =>
    rw [runAll, List.foldl_cons]
    have hrest : (runAll next items (x.andThen (next item))).left v =
        (x.andThen (next item)).left v := by
      apply ih
      intro item' hmem
      exact h item' (List.mem_cons_of_mem _ hmem)
    have hitem := left_andThen_of_idle (h item List.mem_cons_self x.value) v
    exact hrest.trans hitem

/--
A run that fails does so at one of its items, and the later ones have no part in it.
-/
theorem exists_of_runAll_failure {e : Error} (hx : x.failure = none)
    (h : (runAll next items x).failure = some e)
    : ∃ done bad rest, items = done ++ bad :: rest ∧ (runAll next done x).failure = none ∧
        (next bad (runAll next done x).value).failure = some e ∧
        runAll next items x = (runAll next done x).andThen (next bad) := by
  induction items generalizing x with
  | nil =>
    have hsame : x.failure = some e := h
    rw [hx] at hsame
    cases hsame
  | cons item items ih =>
    have hcons : runAll next (item :: items) x = runAll next items (x.andThen (next item)) := rfl
    cases hitem : (x.andThen (next item)).failure with
    | some e' =>
      have hbad : (next item x.value).failure = some e' := by
        rw [andThen_of_none hx] at hitem
        exact hitem
      rw [hcons, runAll_of_failure next hitem, hitem] at h
      refine ⟨[], item, items, rfl, hx, ?_, ?_⟩
      · rw [← h]
        exact hbad
      · rw [hcons, runAll_of_failure next hitem]
        rfl
    | none =>
      rw [hcons] at h
      obtain ⟨done, bad, rest, rfl, hdone, hbad, hrun⟩ := ih hitem h
      exact ⟨item :: done, bad, rest, rfl, hdone, hbad, hrun⟩

end RunAll

end Passage

namespace Instruction

/--
Whether an instruction does nothing but fail or not.
-/
def isCheck : Instruction → Bool
  | .require _ => true
  | .reject _ => true
  | _ => false

def isInvocation : Instruction → Bool
  | .invoke _ _ => true
  | _ => false

theorem perItem_single (op : Op) (payload : Value) (instruct : String → Value → Instruction)
    : (∃ e, perItem op payload (fun field v => .ok [instruct field v]) = [.reject e]) ∨
        ∀ i ∈ perItem op payload (fun field v => .ok [instruct field v]),
          ∃ field v, i = instruct field v := by
  unfold perItem
  cases items op payload with
  | error cause => exact Or.inl ⟨_, rfl⟩
  | ok named =>
    refine Or.inr ?_
    intro i hi
    obtain ⟨item, -, hmem⟩ := List.mem_flatMap.mp hi
    exact ⟨item.1, item.2, List.mem_singleton.mp hmem⟩

/--
Setting and removing check the whole payload first.
-/
theorem ofStep_set_or_unset {step : Step} (h : step.op = .set ∨ step.op = .unset)
    : (∃ e, ofStep step = [.reject e]) ∨ ∀ i ∈ ofStep step, ∃ path edit, i = .edit path edit := by
  unfold ofStep
  rcases h with h | h
  · rw [h]
    rcases perItem_single .set step.payload (fun field v => .edit ⟨field⟩ (.put v)) with h | h
    · exact Or.inl h
    · refine Or.inr ?_
      intro i hi
      obtain ⟨field, v, rfl⟩ := h i hi
      exact ⟨_, _, rfl⟩
  · rw [h]
    dsimp only
    unfold ofUnset
    split
    · refine Or.inr ?_
      intro i hi
      obtain ⟨field, -, rfl⟩ := List.mem_map.mp hi
      exact ⟨_, _, rfl⟩
    · exact Or.inl ⟨_, rfl⟩

theorem first_of_set_or_unset {step : Step} (h : step.op = .set ∨ step.op = .unset)
    {done rest : List Instruction} {bad : Instruction} (hparts : ofStep step = done ++ bad :: rest)
    (hbad : bad.isCheck = true ∨ bad.isInvocation = true) : bad.isCheck = true ∧ done = [] := by
  rcases ofStep_set_or_unset h with ⟨e, hreject⟩ | hedits
  · rw [hreject] at hparts
    cases done with
    | nil =>
      cases hparts
      exact ⟨rfl, rfl⟩
    | cons i done => simp at hparts
  · have hmem : bad ∈ ofStep step := by
      rw [hparts]
      simp
    obtain ⟨path, edit, rfl⟩ := hedits bad hmem
    rcases hbad with hbad | hbad <;> cases hbad

end Instruction

/--
The contract of runs that do not fail because of an operation.
-/
def Contract.unchecked : Contract where
  parts := .any
  fails e := ∀ cause, e ≠ .operation cause
  casts _ _ w _ _ := w.madeOf_any
  digits := by
    rintro v - - cause ⟨⟩

namespace InPlaceHost

variable (host : InPlaceHost) (procedure? : String → Option (List Step))
variable {invoke : String → Value → Passage}

theorem idle_runInstruction {instruction : Instruction} (h : instruction.isCheck = true) (v : Value)
    : Passage.Idle v (host.runInstruction procedure? invoke v instruction) := by
  cases instruction with
  | require name =>
    rw [runInstruction]
    cases procedure? name <;> exact ⟨rfl, rfl⟩
  | reject cause => exact ⟨rfl, rfl⟩
  | _ => cases h

/--
An operation fails in a check or in a procedure.
-/
theorem isCheck_of_failure {instruction : Instruction} {v : Value} {cause : OperationError}
    (h : (host.runInstruction procedure? invoke v instruction).failure = some (.operation cause))
    : instruction.isCheck = true ∨ instruction.isInvocation = true := by
  let s : Surroundings := ⟨host.toHost, procedure?⟩
  let run (name : String) (w : Value) := (invoke name w).outcome
  have hresult : (s.runInstruction run v instruction).result = .error (.operation cause) := by
    rw [← outcome_runInstruction, Passage.outcome, Passage.result, h]
  have passes (path : Path) : Contract.unchecked.Passes path := by
    rintro _ - - cause ⟨⟩
  have calls {done : Value → Prop} (hdone : ∀ w, done w) (function : String) (w : Value)
      : Agree done Contract.unchecked.fails (s.callHost function w) (s.callHost function w) := by
    apply s.agree_callHost fun w _ => hdone w
    rintro message cause ⟨⟩
  have refute (hfits : instruction.Fits .unchecked s)
      (hinvoke : ∀ path name, instruction ≠ .invoke path name) : False := by
    let alarm : Surroundings.Alarm := ⟨fun _ _ => .error "", fun _ _ => .fail .tooManyDigits⟩
    have hagree : Contract.unchecked.Whole
        ((s.watched .any alarm).runInstruction run v instruction)
        (s.runInstruction run v instruction) :=
      Contract.unchecked.runInstruction alarm hfits
        (fun path name h => absurd h (hinvoke path name)) v.madeOf_any
    exact hagree.right.fails _ hresult cause rfl
  cases instruction with
  | edit path edit =>
    have hfits : edit.Fits Parts.any := by
      cases edit with
      | put w => exact w.madeOf_any
      | substitute table => exact fun entry _ => entry.2.madeOf_any
      | _ => trivial
    exact (refute ⟨passes path, hfits⟩ nofun).elim
  | relocate keep source target => exact (refute ⟨passes source, passes target⟩ nofun).elim
  | callWhole function =>
    exact (refute (fun w _ => calls Value.madeOf_any function w) nofun).elim
  | call path function =>
    exact (refute ⟨passes path, fun w _ => calls (fun u => Or.inr u.madeOf_any) function w⟩ nofun).elim
  | require name => exact Or.inl rfl
  | invoke path name => exact Or.inr rfl
  | reject cause => exact Or.inl rfl

/--
A run that fails stops at an instruction of a step: it is what the steps before, the instructions
before and that instruction make of the value.
-/
theorem exists_of_process_failure {bound : Nat} {steps : List Step} {v : Value} {e : Error}
    (h : (host.process procedure? bound steps v).failure = some e)
    : let run (steps : List Step) := host.process procedure? bound steps v
      let apply (instruction : Instruction) (w : Value) :=
        host.runInstruction procedure? (host.invoke procedure? bound 0) w instruction
      ∃ before step after done bad rest,
        steps = before ++ step :: after ∧ (run before).failure = none ∧
          run (before ++ [step]) = run steps ∧ Instruction.ofStep step = done ++ bad :: rest ∧
          let start := (run before).andThen (.note (.running step.op step.record 0))
          let x := Passage.runAll apply done start
          x.failure = none ∧ (apply bad x.value).failure = some e ∧
            run steps = x.andThen (apply bad) := by
  intro run apply
  let advance (step : Step) (w : Value) :=
    host.runStep procedure? (host.invoke procedure? bound 0) 0 w step
  obtain ⟨before, step, after, hsteps, hbefore, -, hlast⟩ :=
    Passage.exists_of_runAll_failure advance (x := .stay v) rfl h
  have hnone : (run before).failure = none := hbefore
  have hwhole : run steps = (run before).andThen (advance step) := hlast
  have happend : run (before ++ [step]) = (run before).andThen (advance step) := by
    show Passage.runAll advance (before ++ [step]) (.stay v) = _
    rw [Passage.runAll, List.foldl_append]
    rfl
  -- A step is announced and then runs its instructions, so it is cut at one of them in turn.
  have hinstructions : (run before).andThen (advance step) =
      Passage.runAll apply (Instruction.ofStep step)
        ((run before).andThen (.note (.running step.op step.record 0))) :=
    Passage.andThen_runAll apply (Instruction.ofStep step) (run before)
      (.note (.running step.op step.record 0))
  have hstart : ((run before).andThen (.note (.running step.op step.record 0))).failure = none := by
    rw [Passage.andThen_of_none hnone]
    rfl
  have hfailure : (run steps).failure = some e := h
  rw [hwhole, hinstructions] at hfailure
  obtain ⟨done, bad, rest, hparts, hdone, hbad, hlast⟩ :=
    Passage.exists_of_runAll_failure apply hstart hfailure
  refine ⟨before, step, after, done, bad, rest, hsteps, hnone, ?_, hparts, hdone, hbad, ?_⟩
  · rw [happend, hwhole]
  · rw [hwhole, hinstructions, hlast]

end InPlaceHost

/--
What an operation that fails leaves of a value that is changed in place. The steps before the
failing one have run and the later ones have no part in it. Of the failing step itself the
instructions before the bad one have run, those of the items before it in the payload, and the bad
one changes nothing unless it invokes a procedure. So a step leaves nothing of its own where checks
alone stand before the bad one, and steps that set or remove fields never do.
-/
theorem Workspace.processSet_abort (host : InPlaceHost) (store : Store) (set : OperationSet)
    (hcopy : set.copyInput = false) (v : Value) {cause : OperationError}
    (h : (processSet host store set v).outcome.result = .error (.operation cause))
    : let procedure? := store.procedureSteps? set.registry
      let run (steps : List Step) := host.process procedure? set.maxDepth steps v
      let apply (instruction : Instruction) (w : Value) :=
        host.runInstruction procedure? (host.invoke procedure? set.maxDepth 0) w instruction
      let left := (processSet host store set v).left
      ∃ before step after done bad rest,
        set.steps = before ++ step :: after ∧ (run before).failure = none ∧
          (run (before ++ [step])).failure = some (.operation cause) ∧
          Instruction.ofStep step = done ++ bad :: rest ∧
          let start := (run before).andThen (.note (.running step.op step.record 0))
          let x := Passage.runAll apply done start
          x.failure = none ∧ left = some ((x.andThen (apply bad)).left v) ∧
            (bad.isCheck = true ∨ bad.isInvocation = true) ∧
            (bad.isCheck = true → left = some (x.left v)) ∧
            (bad.isCheck = true → (∀ i ∈ done, i.isCheck = true) →
              left = some ((run before).left v)) ∧
            (step.op = .set ∨ step.op = .unset → left = some ((run before).left v)) := by
  intro procedure? run apply left
  have hleft : left = some ((run set.steps).left v) := by
    show (processSet host store set v).left = _
    rw [processSet, hcopy]
    rfl
  have hfailure : (run set.steps).failure = some (.operation cause) := by
    rw [processSet, hcopy] at h
    have hresult : (run set.steps).result = .error (.operation cause) := h
    unfold Passage.result at hresult
    split at hresult
    · next e he =>
      cases hresult
      exact he
    · cases hresult
  obtain ⟨before, step, after, done, bad, rest, hsteps, hbefore, hcut, hparts, hdone, hbad, hlast⟩ :=
    host.exists_of_process_failure procedure? hfailure
  have hkind := host.isCheck_of_failure procedure? hbad
  have hpassage : left = some (((Passage.runAll apply done ((run before).andThen
      (.note (.running step.op step.record 0)))).andThen (apply bad)).left v) := by
    rw [hleft]
    exact congrArg (fun x : Passage => some (x.left v)) hlast
  have hcheck (hbad : bad.isCheck = true) : left = some ((Passage.runAll apply done
      ((run before).andThen (.note (.running step.op step.record 0)))).left v) := by
    rw [hpassage, Passage.left_andThen_of_idle (host.idle_runInstruction procedure? hbad _)]
  have hchecks (hbad : bad.isCheck = true) (hdone : ∀ i ∈ done, i.isCheck = true)
      : left = some ((run before).left v) := by
    rw [hcheck hbad, Passage.left_runAll_of_idle apply fun i hi w =>
      host.idle_runInstruction procedure? (hdone i hi) w,
      Passage.left_andThen_of_idle ⟨rfl, rfl⟩]
  refine ⟨before, step, after, done, bad, rest, hsteps, hbefore, ?_, hparts, hdone, hpassage, hkind,
    hcheck, hchecks, ?_⟩
  · exact (congrArg Passage.failure hcut).trans hfailure
  · intro hop
    obtain ⟨hfirst, rfl⟩ := Instruction.first_of_set_or_unset hop hparts hkind
    exact hchecks hfirst nofun

theorem Workspace.processSet_abort_set
    : let set : OperationSet := ⟨[⟨[.operation .sigil .unset (.str "a")]⟩,
        ⟨[.operation .sigil .set (.int 5)]⟩], 0, false, 1⟩
      let v : Value := .object [(.str "a", .null), (.str "b", .null)]
      let x := processSet .standard {} set v
      let run (steps : List Step) := InPlaceHost.standard.process (Store.procedureSteps? {} 0) 1 steps v
      x.outcome.result = .error (.operation (.badPayload .set (.int 5))) ∧
        x.left = some (.object [(.str "b", .null)]) ∧
        ∃ before step after, set.steps = before ++ step :: after ∧ (run before).failure = none ∧
          x.left = some ((run before).left v) := by
  intro set v x run
  have hresult : x.outcome.result = .error (.operation (.badPayload .set (.int 5))) := by
    rfl
  have hops : ∀ step ∈ set.steps, step.op = .set ∨ step.op = .unset := by
    decide +kernel
  obtain ⟨before, step, after, _, _, _, hsteps, hbefore, -, -, -, -, -, -, -, hleft⟩ :=
    processSet_abort .standard {} set rfl v hresult
  refine ⟨hresult, by decide +kernel, before, step, after, hsteps, hbefore, ?_⟩
  apply hleft
  apply hops step
  rw [hsteps]
  simp

-- What the first item has cast is left, though the second one is rejected.
example : let casts : Value := .object [(.str "a", .str "number"), (.str "b", .str "text")]
    let set : OperationSet := ⟨[⟨[.operation .sigil .cast casts]⟩], 0, false, 1⟩
    (Workspace.processSet .standard {} set (.object [(.str "a", .str "1")])).left =
      some (.object [(.str "a", .int 1)]) := by
  decide +kernel

end Reshape
