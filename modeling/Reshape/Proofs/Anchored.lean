import Reshape.Proofs.Addressed
import Reshape.Proofs.InPlace
import Reshape.Proofs.Relocation

/-!
This module contains runs in place that end with the value that was passed in. The main statement,
`processSet_inPlace`, says that a run in place comes to what a run on a copy comes to, and that the
value that was passed in has become the result where no operation of the set itself addresses the
root.
-/

namespace Reshape

namespace Movement

theorem split_nil {address : Address} (h : address ≠ []) (inner outer : Movement)
    : split address inner outer [] = outer [] := by
  obtain ⟨slot, rest, rfl⟩ := List.exists_cons_of_ne_nil h
  rfl

theorem cut_nil {address : Address} (h : address ≠ []) (v : Value)
    : cut v address [] = .within [] :=
  split_nil h _ _

end Movement

theorem Outcome.exists_of_bind {α β : Type} {x : Outcome α} {f : α → Outcome β} {b : β}
    (h : (x >>= f).result = .ok b) : ∃ a, x.result = .ok a ∧ (f a).result = .ok b := by
  cases hresult : x.result with
  | error e =>
    rw [bind_of_error hresult] at h
    cases h
  | ok a =>
    rw [bind_of_ok hresult] at h
    exact ⟨a, rfl, h⟩

namespace Passage

/--
A passage that leaves the whole value where it stood: a container is still there, with what has
become of it, and another value has not changed.
-/
structure Anchored (v : Value) (x : Passage) : Prop where
  moved : x.moved [] = .within []
  value : x.value = v ∨ v.isContainer = true ∧ x.value.isContainer = true

theorem of_result_eq_ok {x : Passage} {v : Value} (h : x.result = .ok v)
    : x.failure = none ∧ x.value = v := by
  unfold result at h
  cases hfailure : x.failure with
  | some e =>
    rw [hfailure] at h
    cases h
  | none =>
    rw [hfailure] at h
    cases h
    exact ⟨rfl, rfl⟩

namespace Anchored

variable {v : Value} {x : Passage}

theorem of_still (hvalue : x.value = v) (hmoved : x.moved = .still) : Anchored v x where
  moved := by
    rw [hmoved]
    rfl
  value := Or.inl hvalue

theorem left (h : Anchored v x) : x.left v = x.value := by
  have hlook (w : Value) : w.look [] = w := rfl
  rw [Passage.left, leftAt, h.moved, hlook, Shadow.content, hlook]
  split
  · rfl
  · next hleaf =>
    rcases h.value with hvalue | ⟨hcontainer, -⟩
    · exact hvalue.symm
    · exact absurd hcontainer hleaf

theorem andThen {next : Value → Passage} (h : Anchored v x)
    (hnext : Anchored x.value (next x.value)) : Anchored v (x.andThen next) := by
  cases hx : x.failure with
  | some e =>
    rw [andThen_of_failure hx]
    exact h
  | none =>
    rw [andThen_of_none hx]
    refine ⟨?_, ?_⟩
    · dsimp only
      rw [h.moved, Shadow.follow, hnext.moved]
    · rcases hnext.value with hsame | ⟨hcontainer, hcontainer'⟩
      · dsimp only
        rw [hsame]
        exact h.value
      · rcases h.value with hsame | ⟨hv, -⟩
        · rw [hsame] at hcontainer
          exact Or.inr ⟨hcontainer, hcontainer'⟩
        · exact Or.inr ⟨hv, hcontainer'⟩

end Anchored

/--
A passage that is anchored unless it fails.
-/
def Retains (v : Value) (x : Passage) : Prop :=
  x.failure = none → Anchored v x

theorem Retains.andThen {v : Value} {x : Passage} {next : Value → Passage} (h : x.Retains v)
    (hnext : ∀ w, (next w).Retains w) : (x.andThen next).Retains v := by
  intro hnone
  cases hx : x.failure with
  | some e =>
    rw [andThen_of_failure hx, hx] at hnone
    cases hnone
  | none =>
    rw [andThen_of_none hx] at hnone
    exact (h hx).andThen (hnext x.value hnone)

theorem Retains.foldl {α : Type} {next : α → Value → Passage} {items : List α} {v : Value}
    {x : Passage} (hnext : ∀ item ∈ items, ∀ w, (next item w).Retains w) (h : x.Retains v)
    : (items.foldl (fun x item => x.andThen (next item)) x).Retains v := by
  induction items generalizing x with
  | nil => exact h
  | cons item items ih =>
    rw [List.forall_mem_cons] at hnext
    exact ih hnext.2 (h.andThen hnext.1)

theorem retains_stay (v : Value) : Retains v (stay v) :=
  fun _ => .of_still rfl rfl

theorem retains_note (event : Event) (v : Value) : Retains v (note event v) :=
  fun _ => .of_still rfl rfl

theorem retains_fail (v : Value) (e : Error) : Retains v (fail v e) := by
  intro hnone
  cases hnone

section Along

/--
A computation that only visits places inside the whole value.
-/
def SparesRoot (α : Type) (x : Recorder α) : Prop :=
  ∀ journal, (∀ visit ∈ journal.visits, visit.address ≠ []) →
    ∀ visit ∈ (x.run.run journal).2.visits, visit.address ≠ []

theorem sparesRoot_simulation
    : Simulation (m := Recorder) (n := Recorder) fun α x _ => SparesRoot α x where
  pure _ _ h := h
  bind := by
    intro α β x _ f _ hx hf journal h
    have hx := hx journal h
    rw [run_bind]
    cases hrun : x.run.run journal with
    | mk r journal' =>
      rw [hrun] at hx
      cases r with
      | error e => exact hx
      | ok a => exact hf a journal' hx
  refusal _ h := h

theorem sparesRoot_walk {visit : Address → Value → Recorder Value} {segment : String}
    {rest : List String} (hvisit : ∀ slot a v, SparesRoot Value (visit (slot :: a) v)) (v : Value)
    : SparesRoot Value (walk visit (segment :: rest) v) := by
  apply @Simulation.walk_cons _ _ _ _ _ _ _ sparesRoot_simulation _ _ visit visit
  intro slot w
  apply @Simulation.walk _ _ _ _ _ _ _ sparesRoot_simulation _ _ (fun a => visit (slot :: a))
  exact hvisit slot

theorem sparesRoot_visit (change : Value → Passage) (slot : Slot) (a : Address) (v : Value)
    : SparesRoot Value (visit change (slot :: a) v) := by
  intro journal h
  have added (last : Visit) (hlast : last.address = slot :: a)
      : ∀ visit ∈ journal.visits ++ [last], visit.address ≠ [] := by
    intro visit hvisit
    rcases List.mem_append.mp hvisit with hvisit | hvisit
    · exact h visit hvisit
    · rw [List.mem_singleton.mp hvisit, hlast]
      exact List.cons_ne_nil slot a
  unfold Passage.visit
  dsimp only
  split
  · exact added _ rfl
  · exact added _ rfl

theorem moved_nil {journal : Journal} (h : ∀ visit ∈ journal.visits, visit.address ≠ [])
    : journal.moved [] = .within [] := by
  obtain ⟨log, visits⟩ := journal
  unfold Journal.moved
  induction visits with
  | nil => rfl
  | cons visit visits ih =>
    obtain ⟨hvisit, hvisits⟩ := List.forall_mem_cons.mp h
    rw [List.foldr_cons, Movement.split_nil hvisit]
    exact ih hvisits

theorem visitSlot_result {visit : Value → Outcome Value} {rest : List String} {v new : Value}
    {slot : Slot} (h : (visitSlot visit rest v slot).result = .ok new) : new.frame = v.frame := by
  unfold visitSlot at h
  dsimp only at h
  split at h
  · obtain ⟨content, -, h⟩ := Outcome.exists_of_bind h
    cases h
    apply Value.frame_store
  · cases h
    rfl

/--
What a walk below the root leaves of a container is a container, and other values stay as they are.
-/
theorem walk_result {visit : Address → Value → Outcome Value} {segment : String}
    {rest : List String} {v new : Value} (h : (walk visit (segment :: rest) v).result = .ok new)
    : new = v ∨ v.isContainer = true ∧ new.isContainer = true := by
  cases v with
  | list items =>
    unfold walk at h
    split at h
    · obtain ⟨items', -, h⟩ := Outcome.exists_of_bind h
      cases h
      exact Or.inr ⟨rfl, rfl⟩
    · split at h
      · cases h
      · split at h
        · exact Or.inr ⟨rfl, Value.isContainer_congr (visitSlot_result h)⟩
        · cases h
          exact Or.inl rfl
  | object fields => exact Or.inr ⟨rfl, Value.isContainer_congr (visitSlot_result h)⟩
  | _ =>
    cases h
    exact Or.inl rfl

theorem retains_along {path : Path} (h : path.isRoot = false) (change : Value → Passage) (v : Value)
    : Retains v (along path change v) := by
  obtain ⟨segment, rest, hsegments⟩ : ∃ segment rest, path.segments = segment :: rest := by
    apply List.exists_cons_of_ne_nil
    intro hnil
    rw [Path.isRoot, hnil] at h
    cases h
  have hvisits : SparesRoot Value (applyAt path (visit change) v) := by
    rw [applyAt_of_ne_root h, hsegments]
    exact sparesRoot_walk (sparesRoot_visit change) v
  -- The journal tells where the value has gone, and the walk that keeps none what it has become.
  have houtcome := outcome_along path change v
  rw [applyAt_of_ne_root h, hsegments] at houtcome
  intro hnone
  have hresult : (walk (fun _ w => (change w).outcome) (segment :: rest) v).result =
      .ok (along path change v).value := by
    rw [← houtcome, outcome, result, hnone]
  refine ⟨?_, walk_result hresult⟩
  have hjournal := hvisits ⟨[], []⟩ (by simp)
  unfold along
  cases hrun : (applyAt path (visit change) v).run.run ⟨[], []⟩ with
  | mk r journal =>
    rw [hrun] at hjournal
    cases r with
    | ok new => exact moved_nil hjournal
    | error e => exact moved_nil hjournal

end Along
end Passage

section Relocate

theorem Value.overwritten_ne_nil {v : Value} {segment : String} (h : v.accepts segment = true)
    (rest : List String) : v.overwritten (segment :: rest) ≠ [] := by
  have hfirst := Value.address_ne_nil h []
  cases rest with
  | nil => exact hfirst
  | cons next rest =>
    unfold overwritten
    dsimp only
    split
    · exact List.append_ne_nil_of_left_ne_nil hfirst _
    · exact hfirst

theorem relocationMoved_nil (keep : Bool) {source target : List String} {root : Value}
    {lookup : Value × Value} (hlookup : relocated? source target root = .ok (some lookup))
    (hfailure : (relocate keep source target root).failure = none) (hs : source ≠ [])
    (ht : target ≠ []) (hfound : root.seek source ≠ .missing)
    (hadmits : (root.remainder keep source).admits target = true)
    : relocationMoved keep source target root [] = .within [] := by
  have houter (rest : Value) (h : rest.admits target = true)
      : Movement.cut rest (rest.overwritten target) [] = .within [] := by
    obtain ⟨segment, segments, rfl⟩ := List.exists_cons_of_ne_nil ht
    exact Movement.cut_nil (Value.overwritten_ne_nil h segments) rest
  have hsource : root.address source ≠ [] := by
    obtain ⟨segment, segments, rfl⟩ := List.exists_cons_of_ne_nil hs
    exact Value.address_ne_nil (Value.accepts_of_child_ne (Value.child_ne_of_seek_ne hfound)) _
  unfold relocationMoved
  simp only [List.isEmpty_iff, hs, ht, hlookup, hfailure, ↓reduceIte, Option.isSome_none]
  cases keep with
  | true => exact houter root hadmits
  | false =>
    exact (Movement.split_nil hsource _ _).trans (houter _ hadmits)

/--
A relocation between two places inside a value keeps the value itself where it is.
-/
theorem retains_relocate (keep : Bool) {source target : List String} (hs : source ≠ [])
    (ht : target ≠ []) (root : Value)
    : let x := relocate keep source target root
      Passage.Retains root ⟨x.log, x.value, relocationMoved keep source target root, x.failure⟩ := by
  intro x hnone
  have hlookup := relocated?_eq hs ht root
  dsimp only at hlookup hnone
  by_cases hr : root.blocked source ∨ root.seek source ≠ .missing ∧
      (root.seek (pivot source target)).refuses (fork source target)
  · have hx : x = .fail root .tooManyDigits := relocate_of_refused keep hs ht hr
    rw [hx] at hnone
    cases hnone
  · rw [if_neg hr] at hlookup
    by_cases hstay : root.seek source = .missing ∨
        (root.seek (pivot source target)).accepts (fork source target) = false
    · have hx : x = .stay root := relocate_of_unreachable keep hs ht hr hstay
      rw [if_pos hstay] at hlookup
      apply Passage.Anchored.of_still
      · rw [hx]
        rfl
      · simp [relocationMoved, hs, hlookup]
    · rw [if_neg hstay] at hlookup
      obtain ⟨hadmits, log, hplaced⟩ := relocate_of_found keep hs ht hr hstay
      have hx : x = _ := hplaced
      by_cases hb : (root.remainder keep source).blocked target
      · rw [hx, if_pos hb] at hnone
        cases hnone
      · rw [if_neg hb] at hx
        have hfound : root.seek source ≠ .missing := fun h => hstay (Or.inl h)
        have hroot := Value.isContainer_of_seek_ne hfound hs
        refine ⟨relocationMoved_nil keep hlookup hnone hs ht hfound hadmits, Or.inr ⟨hroot, ?_⟩⟩
        obtain ⟨segment, segments, rfl⟩ := List.exists_cons_of_ne_nil ht
        have hframe : x.value.frame = root.frame := by
          rw [hx]
          exact (Value.frame_assign _).trans (frame_ite_detach keep hs root)
        rw [Value.isContainer_congr hframe]
        exact hroot

end Relocate

namespace InPlaceHost

variable (host : InPlaceHost) (procedure? : String → Option (List Step))
variable (invoke : String → Value → Passage)

/--
An instruction that does not work at the root keeps the value where it is, whatever the procedures
do with the fields that they are invoked on.
-/
theorem retains_runInstruction (v : Value) {instruction : Instruction}
    (h : ∀ path ∈ instruction.reach, path.isRoot = false)
    : (host.runInstruction procedure? invoke v instruction).Retains v := by
  cases instruction with
  | edit path edit =>
    apply Passage.retains_along
    apply h path (List.mem_singleton_self path)
  | relocate keep source target =>
    have hs := h source (List.mem_cons_self)
    have ht := h target (List.mem_cons_of_mem _ (List.mem_singleton_self target))
    rw [Path.isRoot, List.isEmpty_eq_false_iff] at hs ht
    exact retains_relocate keep hs ht v
  | callWhole function =>
    have hroot := h .root (List.mem_singleton_self Path.root)
    cases hroot
  | call path function =>
    apply Passage.retains_along
    apply h path (List.mem_singleton_self path)
  | require name =>
    unfold runInstruction
    dsimp only
    cases procedure? name with
    | some steps => apply Passage.retains_stay
    | none => apply Passage.retains_fail
  | invoke path name =>
    apply Passage.retains_along
    apply h path (List.mem_singleton_self path)
  | reject cause => apply Passage.retains_fail

theorem retains_runStep (depth : Nat) (v : Value) {step : Step}
    (h : ∀ path ∈ step.addressed, path.isRoot = false)
    : (host.runStep procedure? invoke depth v step).Retains v := by
  apply @Passage.Retains.foldl _ fun instruction v =>
    host.runInstruction procedure? invoke v instruction
  · intro instruction hinstruction w
    apply retains_runInstruction
    intro path hpath
    apply h path (Instruction.reach_of_mem_ofStep hinstruction hpath)
  · apply Passage.retains_note

theorem retains_runSteps (depth : Nat) (v : Value) {steps : List Step}
    (h : ∀ step ∈ steps, ∀ path ∈ step.addressed, path.isRoot = false)
    : (host.runSteps procedure? invoke depth steps v).Retains v := by
  apply @Passage.Retains.foldl _ fun step v => host.runStep procedure? invoke depth v step
  · intro step hstep w
    apply retains_runStep
    exact h step hstep
  · apply Passage.retains_stay

end InPlaceHost

/--
A set that works in place comes to what it comes to on a copy. If none of its own operations
addresses the root and it returns, then the value that was passed in has become the value returned,
also where procedures replace the fields that they are invoked on.
-/
theorem Workspace.processSet_inPlace (host : InPlaceHost) (store : Store) (set : OperationSet)
    (v : Value)
    : let inPlace := processSet host store { set with copyInput := false } v
      inPlace.outcome = (processSet host store { set with copyInput := true } v).outcome ∧
        ((∀ step ∈ set.steps, ∀ path ∈ step.addressed, path.isRoot = false) →
          ∀ w, inPlace.outcome.result = .ok w → inPlace.left = some w) := by
  intro inPlace
  refine ⟨?_, ?_⟩
  · rw [outcome_processSet, outcome_processSet]
    rfl
  · intro h w hresult
    let procedure? := store.procedureSteps? set.registry
    have hretains : (host.process procedure? set.maxDepth set.steps v).Retains v :=
      host.retains_runSteps procedure? (host.invoke procedure? set.maxDepth 0) 0 v h
    have hinPlace : inPlace = ⟨(host.process procedure? set.maxDepth set.steps v).outcome,
        some ((host.process procedure? set.maxDepth set.steps v).left v)⟩ := rfl
    rw [hinPlace] at hresult ⊢
    obtain ⟨hfailure, hvalue⟩ := Passage.of_result_eq_ok hresult
    rw [(hretains hfailure).left, hvalue]

/--
A procedure that replaces the whole of what it is given, below the value itself.
-/
theorem Workspace.processSet_inPlace_replaced
    : let whole : OperationSet :=
        ⟨[⟨[.operation .sigil .set (.object [(.str ".", .int 7)])]⟩], 0, true, 4⟩
      let store : Store := { sets := [whole], registries := [⟨[("reset", 0)]⟩] }
      let set : OperationSet :=
        ⟨[⟨[.operation .sigil .procedure (.object [(.str "a", .str "reset")])]⟩,
          ⟨[.operation .sigil .move (.object [(.str "b.0", .str "c.d")])]⟩], 0, false, 4⟩
      let v : Value := .object [(.str "a", .list [.int 0]), (.str "b", .list [.int 1])]
      let w : Value := .object [(.str "a", .int 7), (.str "b", .list [.null]),
        (.str "c", .object [(.str "d", .int 1)])]
      let x := processSet .standard store set v
      (∀ step ∈ set.steps, ∀ path ∈ step.addressed, path.isRoot = false) ∧
        x.outcome.result = .ok w ∧ x.left = some w := by
  intro whole store set v w x
  have haddressed : ∀ step ∈ set.steps, ∀ path ∈ step.addressed, path.isRoot = false := by
    decide +kernel
  have hresult : x.outcome.result = .ok w := by
    rfl
  exact ⟨haddressed, hresult,
    (processSet_inPlace .standard store set v).2 haddressed w hresult⟩

end Reshape
