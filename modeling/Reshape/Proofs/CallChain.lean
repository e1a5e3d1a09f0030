import Reshape.Proofs.Nesting
import Reshape.Proofs.Trace

/-!
This module contains the chains of names that steps and procedures list, one after the other. How deep
a run nests is bounded by their length, whatever it is that the run works on. The main statement is
`processSet_shallow`: a bound that no chain exceeds is never hit.
-/

namespace Reshape

/--
The chains of names that start with a name that one of the steps lists, and continue with a name that
the procedure of the name before lists.
-/
inductive CallChain (procedure? : String → Option (List Step)) : List Step → List String → Prop where
  | nil (steps : List Step) : CallChain procedure? steps []
  | cons {steps : List Step} {step : Step} {name : String} {names : List String}
    (hstep : step ∈ steps) (hcalls : step.Calls name)
    (h : CallChain procedure? ((procedure? name).getD []) names) :
    CallChain procedure? steps (name :: names)

section Chain

variable {procedure? : String → Option (List Step)}

theorem CallChain.enter {steps called : List Step} {step : Step} {name : String} {depth deeper : Nat}
    (hstep : step ∈ steps) (hcalls : step.Calls name) (hname : procedure? name = some called)
    (h : ∃ names, CallChain procedure? called names ∧ deeper = depth + 1 + names.length)
    : ∃ names, CallChain procedure? steps names ∧ deeper = depth + names.length := by
  obtain ⟨names, hchain, hlength⟩ := h
  refine ⟨name :: names, .cons hstep hcalls ?_, ?_⟩
  · rw [hname]
    exact hchain
  · rw [hlength, List.length_cons]
    omega

/--
The names of the invocations around a place in a report, the one that is announced there included, are
a chain.
-/
theorem Report.chain {depth : Nat} {current : Option Step} {rest steps : List Step} {complete : Bool}
    {log : List Event} (h : Report procedure? depth current rest complete log)
    (hcurrent : ∀ step, current = some step → step ∈ steps) (hrest : ∀ step ∈ rest, step ∈ steps)
    {name : String} {deeper : Nat} (hmem : .invoking name deeper ∈ log)
    : ∃ names, CallChain procedure? steps names ∧ deeper = depth + names.length := by
  induction h generalizing steps with
  | done => cases hmem
  | failed => cases hmem
  | warning hevent _ ih =>
    rcases List.mem_cons.mp hmem with rfl | hmem
    · cases hevent
    · exact ih hcurrent hrest hmem
  | @run _ _ step _ _ _ _ ih =>
    rcases List.mem_cons.mp hmem with heq | hmem
    · cases heq
    · apply ih _ (fun step hstep => hrest step (List.mem_cons_of_mem _ hstep)) hmem
      rintro _ ⟨⟩
      exact hrest step List.mem_cons_self
  | call hcalls hname _ _ ihinner ih =>
    have hstep := hcurrent _ rfl
    rcases List.mem_cons.mp hmem with heq | hmem
    · cases heq
      exact CallChain.enter hstep hcalls hname ⟨[], .nil _, rfl⟩
    · rcases List.mem_append.mp hmem with hmem | hmem
      · exact CallChain.enter hstep hcalls hname (ihinner nofun (fun _ hstep => hstep) hmem)
      · exact ih hcurrent hrest hmem
  | callFailed hcalls hname _ ihinner =>
    have hstep := hcurrent _ rfl
    rcases List.mem_cons.mp hmem with heq | hmem
    · cases heq
      exact CallChain.enter hstep hcalls hname ⟨[], .nil _, rfl⟩
    · exact CallChain.enter hstep hcalls hname (ihinner nofun (fun _ hstep => hstep) hmem)

end Chain

section Steps

variable {procedure? : String → Option (List Step)} {names : List String}

theorem CallChain.eq_nil {steps : List Step}
    (hsteps : ∀ step ∈ steps, step.op ≠ .procedure ∧ step.op ≠ .model)
    (h : CallChain procedure? steps names)
    : names = [] := by
  cases h with
  | nil => rfl
  | cons hstep hcalls _ =>
    obtain ⟨hprocedure, hmodel⟩ := hsteps _ hstep
    rcases hcalls.1 with hop | hop
    · exact absurd hop hprocedure
    · exact absurd hop hmodel

theorem CallChain.of_single {path name : String} {record : Nat}
    (h : CallChain procedure? [⟨.procedure, .object [(.str path, .str name)], record⟩] names)
    : names = [] ∨ ∃ rest, names = name :: rest ∧
        CallChain procedure? ((procedure? name).getD []) rest := by
  cases h with
  | nil => exact Or.inl rfl
  | cons hstep hcalls h =>
    obtain ⟨-, field, listed, texts, ⟨fields, hpayload, hfield⟩, htexts, hname⟩ := hcalls
    rw [List.mem_singleton] at hstep
    subst hstep
    cases hpayload
    cases List.mem_singleton.mp hfield
    cases htexts
    cases List.mem_singleton.mp hname
    exact Or.inr ⟨_, rfl, h⟩

end Steps

/--
A set none of whose chains of names is longer than its bound on nesting never fails because of it.
-/
theorem Workspace.processSet_shallow (host : InPlaceHost) (store : Store) (set : OperationSet)
    (h : ∀ names, CallChain (store.procedureSteps? set.registry) set.steps names →
      names.length ≤ set.maxDepth) (v : Value)
    : ¬∃ e, (processSet host store set v).outcome.result = .error e ∧ e.isNesting = true := by
  let s : Surroundings := ⟨host.toHost, store.procedureSteps? set.registry⟩
  rw [outcome_processSet]
  rintro ⟨e, he, hnesting⟩
  rcases bounded_process s set.maxDepth 0 set.steps v with ⟨-, hcalm⟩ | ⟨name, -, -, hfirst⟩
  · rw [hcalm.failure e he] at hnesting
    cases hnesting
  · -- The run with a greater bound tells an invocation that is deeper than any chain is long.
    have hreport := s.report_process (set.maxDepth + 1) set.steps v
    have hmem : Event.invoking name (set.maxDepth + 1) ∈
        (s.process (set.maxDepth + 1) set.steps v).log := by
      apply hfirst.subset
      apply List.mem_append_right
      apply List.mem_singleton_self
    obtain ⟨names, hchain, hlength⟩ := hreport.chain nofun (fun _ hstep => hstep) hmem
    have hle := h names hchain
    omega

theorem Workspace.processSet_shallow_nested
    : let call (name : String) : Record :=
        ⟨[.operation .sigil .procedure (.object [(.str "$", .str name)])]⟩
      let store : Store :=
        { sets := [⟨[call "inner"], 0, true, 64⟩, ⟨[⟨[.operation .bare .unset (.str "a")]⟩], 0, true, 64⟩]
          registries := [⟨[("outer", 0), ("inner", 1)]⟩] }
      let set (bound : Nat) : OperationSet := ⟨[call "outer"], 0, true, bound⟩
      let v : Value := .list [.list [.object [(.str "a", .null)]]]
      let run (bound : Nat) := (processSet .standard store (set bound) v).outcome
      (∀ names, CallChain (store.procedureSteps? 0) (set 2).steps names → names.length ≤ 2) ∧
        (¬∃ e, (run 2).result = .error e ∧ e.isNesting = true) ∧
        (run 2).result = .ok (.list [.list [.object []]]) ∧
        (run 1).result = .error (.operation (.tooDeep "inner" 1)) := by
  intro call store set v run
  have houter : store.procedureSteps? 0 "outer" =
      some [⟨.procedure, .object [(.str "$", .str "inner")], 0⟩] := by decide +kernel
  have hinner : store.procedureSteps? 0 "inner" = some [⟨.unset, .str "a", 0⟩] := by
    decide +kernel
  have hset : (set 2).steps = [⟨.procedure, .object [(.str "$", .str "outer")], 0⟩] := by
    decide +kernel
  have hchains (names : List String)
      (hchain : CallChain (store.procedureSteps? 0) (set 2).steps names) : names.length ≤ 2 := by
    rw [hset] at hchain
    rcases hchain.of_single with rfl | ⟨names, rfl, hrest⟩
    · decide
    · rw [houter] at hrest
      rcases hrest.of_single with rfl | ⟨names, rfl, hlast⟩
      · decide
      · rw [hinner] at hlast
        rw [hlast.eq_nil (by decide)]
        decide
  refine ⟨hchains, processSet_shallow .standard store (set 2) hchains v, ?_, ?_⟩
  · decide +kernel
  · decide +kernel

end Reshape
