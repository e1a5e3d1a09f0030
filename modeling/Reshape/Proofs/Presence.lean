import Reshape.Proofs.Contract
import Reshape.Proofs.InPlace
import Reshape.Proofs.Legible

/-!
This module contains the statement that what stands for absent fields stays inside of runs: it is in
no result, and no function or procedure is called with a value that has it at any depth.
-/

namespace Reshape

/--
All leaves but the one that stands for the content of an absent field.
-/
def Parts.present : Parts where
  leaf
    | .missing => false
    | _ => true
  key _ := true
  leaf_null := rfl
  key_str _ := rfl

theorem Cast.present_of_apply {cast : Cast} {v w : Value} (h : cast.apply v = .ok w)
    : w.madeOf .present = true := by
  rcases apply_cases h with h | rfl | ⟨b, rfl⟩
  · rcases Value.toNumber_cases h with rfl | ⟨x, rfl⟩ | ⟨n, rfl, -⟩ <;> rfl
  · rfl
  · rfl

def Contract.present : Contract where
  parts := .present
  fails _ := True
  casts _ _ _ _ h := Cast.present_of_apply h
  digits _ _ _ := trivial

/--
A step that brings in no absent content: its payload has none, and its functions return none for a
value without it, except that a function on a field may return nothing in order to remove the field.
-/
structure Host.Supplies (host : Host) (step : Step) : Prop where
  payload : step.payload.madeOf .present = true
  onWhole : ∀ function, step.op = .func → step.payload = .function function →
    ∀ v w, v.madeOf .present = true → host.call function v = .ok w → w.madeOf .present = true
  onField : ∀ field function, step.op = .func → step.Lists field (.function function) →
    ∀ v w, v.madeOf .present = true → host.call function v = .ok w →
      w = .missing ∨ w.madeOf .present = true

theorem Host.Supplies.fits {s : Surroundings} {step : Step} (h : s.host.Supplies step)
    : step.Fits .present s := by
  intro instruction hmem
  have passes (path : Path) : Contract.present.Passes path := fun _ _ _ => trivial
  have harises := Instruction.arises_of_mem_ofStep hmem
  cases instruction with
  | edit path edit => exact ⟨passes path, harises.edit_fits h.payload⟩
  | relocate keep source target => exact ⟨passes source, passes target⟩
  | callWhole function =>
    cases harises with
    | callWhole hop hpayload =>
      intro v hv
      apply s.agree_callHost _ fun _ => trivial
      intro w hw
      exact h.onWhole function hop hpayload v w hv hw
  | call path function =>
    cases harises with
    | call hop hlists =>
      refine ⟨passes _, ?_⟩
      intro v hv
      apply s.agree_callHost _ fun _ => trivial
      intro w hw
      exact h.onField _ function hop hlists v w hv hw
  | require name => exact fun _ => trivial
  | invoke path name => exact passes path
  | reject cause => trivial

/--
Nothing absent leaks. If neither the payloads of a set and of the registered procedures nor the
given value have absent content in them, and their functions do not make any but to remove a field,
then no result has any. The run also is the one in which functions and procedures answer in any
other way to values with absent content in them: they are never called with one.
-/
theorem Workspace.processSet_present (host : InPlaceHost) (store : Store) (set : OperationSet)
    (hset : ∀ step ∈ set.steps, host.Supplies step)
    (hprocedures : ∀ name steps, store.procedureSteps? set.registry name = some steps →
      ∀ step ∈ steps, host.Supplies step)
    {v : Value} (hv : v.madeOf .present = true) (alarm : Surroundings.Alarm)
    : let x := (processSet host store set v).outcome
      (∀ w, x.result = .ok w → w.madeOf .present = true) ∧
        x = Surroundings.processWatched ⟨host.toHost, store.procedureSteps? set.registry⟩ .present
          alarm set.maxDepth set.steps v := by
  let s : Surroundings := ⟨host.toHost, store.procedureSteps? set.registry⟩
  intro x
  have hx : x = s.process set.maxDepth set.steps v := outcome_processSet host store set v
  have hagree : Contract.present.Whole
      (s.processWatched .present alarm set.maxDepth set.steps v)
      (s.process set.maxDepth set.steps v) := by
    apply Contract.present.process alarm
    · intro name steps hsteps step hstep
      exact (hprocedures name steps hsteps step hstep).fits
    · intro step hstep
      exact (hset step hstep).fits
    · intro name
      trivial
    · exact hv
  rw [hx]
  exact ⟨hagree.right.done, hagree.same.symm⟩

theorem Workspace.processSet_present_removal
    : let clean : Record := ⟨[.operation .sigil .func (.object [(.str "a", .function "drop")])]⟩
      let store : Store :=
        { sets := [⟨[clean], 0, true, 64⟩], registries := [⟨[("clean", 0)]⟩] }
      let set : OperationSet := ⟨[⟨[.operation .sigil .wrap (.object [(.str "y", .str "z")]),
        .operation .sigil .procedure (.object [(.str "x", .str "clean")])]⟩], 0, true, 1⟩
      let v : Value := .object [(.str "x", .object [(.str "a", .int 1), (.str "b", .null)])]
      let w : Value := .object [(.str "x", .object [(.str "b", .null)]),
        (.str "y", .object [(.str "z", .null)])]
      let alarm : Surroundings.Alarm := ⟨fun _ _ => .error "", fun _ _ => .fail (.raised "")⟩
      let x := (processSet .standard store set v).outcome
      x.result = .ok w ∧ w.madeOf .present = true ∧
        x = Surroundings.processWatched ⟨Host.standard, store.procedureSteps? 0⟩ .present alarm 1
          set.steps v := by
  intro clean store set v w alarm x
  have hset : ∀ step ∈ set.steps, Host.standard.Supplies step := by
    have hsteps : set.steps = [⟨.wrap, .object [(.str "y", .str "z")], 0⟩,
        ⟨.procedure, .object [(.str "x", .str "clean")], 0⟩] := by
      decide +kernel
    rw [hsteps]
    intro step hstep
    simp only [List.mem_cons, List.not_mem_nil, or_false] at hstep
    rcases hstep with rfl | rfl
    · exact ⟨rfl, nofun, nofun⟩
    · exact ⟨rfl, nofun, nofun⟩
  have hclean : Host.standard.Supplies ⟨.func, .object [(.str "a", .function "drop")], 0⟩ := by
    refine ⟨rfl, ?_, ?_⟩
    · rintro function - ⟨⟩
    · rintro field function - ⟨fields, hfields, hmem⟩ u w - hcall
      cases hfields
      rw [List.mem_singleton] at hmem
      cases hmem
      have hdrop : Host.standard.call "drop" u = .ok .missing := by
        have hname : CommonFunction.ofName? "drop" = some .drop := by decide +kernel
        simp only [Host.standard, hname]
        cases u <;> rfl
      rw [hdrop] at hcall
      cases hcall
      exact Or.inl rfl
  have hprocedures : ∀ name steps, store.procedureSteps? 0 name = some steps →
      ∀ step ∈ steps, Host.standard.Supplies step := by
    intro name steps hsteps step hstep
    rw [Store.procedureSteps?, Option.bind_eq_some_iff] at hsteps
    obtain ⟨handle, hhandle, hsteps⟩ := hsteps
    have hzero : handle = 0 := by
      have hmem := Assoc.mem_of_get? (show Assoc.get? name [("clean", 0)] = some handle from hhandle)
      rw [List.mem_singleton] at hmem
      exact congrArg Prod.snd hmem
    subst hzero
    have hsole : (store.set? 0).map OperationSet.steps =
        some [⟨.func, .object [(.str "a", .function "drop")], 0⟩] := by
      decide +kernel
    rw [hsole] at hsteps
    cases hsteps
    rw [List.mem_singleton.mp hstep]
    exact hclean
  have hresult : x.result = .ok w := by decide +kernel
  obtain ⟨hpresent, hwatched⟩ := processSet_present .standard store set hset hprocedures
    (v := v) rfl alarm
  exact ⟨hresult, hpresent w hresult, hwatched⟩

end Reshape
