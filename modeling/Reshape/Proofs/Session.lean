import Reshape.Proofs.InPlace
import Reshape.Proofs.Refresh
import Reshape.Proofs.Registries

/-!
This module contains what a run of a set depends on, whatever has happened in a session before. The
main statement, `execute_eq_rebuilt`, compares it with a session that has done nothing but build a
registry and a set of the present records.
-/

namespace Reshape

/--
What the names of a registry are bound to at present: the records of their sets.
-/
def Store.bindings (store : Store) (registry : Nat) : List (String × List Record) :=
  (store.registry registry).procedures.filterMap fun entry =>
    (store.set? entry.2).map fun set => (entry.1, set.records)

namespace Workspace

/--
The set that a command runs and the value that it is run on.
-/
def target? (w : Workspace) : Command → Option (OperationSet × Value)
  | .process id v => (w.set? id).map fun set => (set, v)
  | .callProcedure id name v => do
    let registry ← w.registry? id
    let set ← (registry.find? name).bind w.store.set?
    pure (set, v)
  | .processMedium id phase medium v => do
    let endpoint ← w.endpoint? id
    let set ← (endpoint.medium phase medium).toOption.bind w.store.set?
    pure (set, v)
  | _ => none

/--
The commands that build a registry of procedures and a set, and run the set on a value.
-/
def rebuild (bindings : List (String × List Record)) (records : List Record) (maxDepth : Nat)
    (v : Value) : List Command :=
  [.newRegistry "procedures" (.object (bindings.map fun binding =>
      (.str binding.1, .list (binding.2.map Record.toValue)))),
    .newSet "set" (.list (records.map Record.toValue)) (some "procedures") true (.int maxDepth),
    .process "set" v]

end Workspace

section Rebuilt

def rebuiltStore (start : Nat) (bindings : List (String × List Record)) : Store where
  start := start
  sets := bindings.map fun binding => ⟨binding.2, 0, true, 64⟩
  registries := [⟨bindings.zipIdx.map fun item => (item.1.1, start + item.2)⟩]

variable {start : Nat} {bindings : List (String × List Record)}

theorem rebuiltStore_names (start : Nat) (bindings : List (String × List Record))
    : ((rebuiltStore start bindings).registry 0).names = bindings.map (·.1) := by
  show ((bindings.zipIdx.map fun item => (item.1.1, start + item.2)).map fun x => x.1) = _
  rw [List.map_map]
  conv =>
    rhs
    rw [← List.zipIdx_map_fst 0 bindings, List.map_map]
  rfl

theorem DepthBound.resolve_int (setting : Option String) {n : Nat} (h : 1 ≤ n)
    : DepthBound.resolve setting (.int n) = .ok n := by
  show (if 1 ≤ (n : Int) then Except.ok (n : Int).toNat else _) = _
  rw [if_pos (by omega)]
  rfl

theorem register_rebuilt {name : String} {records : List Record}
    (hname : name ≠ "") (hnew : name ∉ bindings.map (·.1))
    (hrecords : ∀ record ∈ records, record.Distinct)
    : (rebuiltStore start bindings).register 0 (.str name) (.list (records.map Record.toValue)) =
        .ok (start + bindings.length, rebuiltStore start (bindings ++ [(name, records)])) := by
  unfold Store.register
  dsimp only
  rw [if_neg hname, Store.procedureSet, Store.buildSet, declaredRecords_toValue hrecords]
  have hresolve : DepthBound.resolve (rebuiltStore start bindings).depthSetting .null = .ok 64 :=
    DepthBound.resolve_default
  rw [hresolve]
  rw [← rebuiltStore_names start bindings] at hnew
  have hlength : (rebuiltStore start bindings).sets.length = bindings.length := List.length_map _
  show Except.ok (start + (rebuiltStore start bindings).sets.length,
    Store.putRegistry
      { rebuiltStore start bindings with
        sets := (rebuiltStore start bindings).sets ++ [⟨records, 0, true, 64⟩] } 0
      ⟨Assoc.insert name (start + (rebuiltStore start bindings).sets.length)
        ((rebuiltStore start bindings).registry 0).procedures⟩) = _
  rw [hlength, Assoc.insert_of_not_mem hnew]
  simp [rebuiltStore, Store.putRegistry, Store.registry, List.zipIdx_append]

theorem registerAll_rebuilt {rest : List (String × List Record)}
    (hnodup : ((bindings ++ rest).map (·.1)).Nodup) (hnames : "" ∉ rest.map (·.1))
    (hrecords : ∀ binding ∈ rest, ∀ record ∈ binding.2, record.Distinct)
    : (rebuiltStore start bindings).registerAll 0
        (rest.map fun binding => .ok (.str binding.1, .list (binding.2.map Record.toValue))) =
        (rebuiltStore start (bindings ++ rest), .ok ()) := by
  induction rest generalizing bindings with
  | nil =>
    rw [List.append_nil]
    rfl
  | cons binding rest ih =>
    rw [List.map_cons, List.mem_cons, not_or] at hnames
    have hnew : binding.1 ∉ bindings.map (·.1) := by
      intro hmem
      rw [List.map_append, List.nodup_append] at hnodup
      exact hnodup.2.2 _ hmem _ (List.mem_cons_self) rfl
    rw [List.map_cons, Store.registerAll,
      register_rebuilt (fun e => hnames.1 e.symm) hnew (hrecords binding List.mem_cons_self)]
    -- The next handle is the number of bindings so far, so they grow at their end.
    rw [List.append_cons] at hnodup
    have hrest := ih hnodup hnames.2 fun other hother => hrecords other (List.mem_cons_of_mem _ hother)
    rw [← List.append_cons] at hrest
    exact hrest

theorem buildRegistry_rebuilt (hnodup : (bindings.map (·.1)).Nodup)
    (hnames : "" ∉ bindings.map (·.1))
    (hrecords : ∀ binding ∈ bindings, ∀ record ∈ binding.2, record.Distinct)
    : Store.buildRegistry { start := start } (.object (bindings.map fun binding =>
        (.str binding.1, .list (binding.2.map Record.toValue)))) =
        .ok (0, rebuiltStore start bindings) := by
  have hall := @registerAll_rebuilt start [] bindings hnodup hnames hrecords
  have hpairs : Store.fieldPairs (.object (bindings.map fun binding =>
      (.str binding.1, .list (binding.2.map Record.toValue)))) =
      bindings.map fun binding =>
        .ok (.str binding.1, .list (binding.2.map Record.toValue)) := by
    rw [Store.fieldPairs, List.map_map]
    rfl
  unfold Store.buildRegistry
  rw [hpairs]
  have hempty : Store.addRegistry { start := start } = (0, rebuiltStore start []) := rfl
  rw [hempty]
  dsimp only
  rw [hall]
  rfl

def rebuiltSession (start : Nat) (bindings : List (String × List Record)) (set : OperationSet)
    : Store :=
  { rebuiltStore start bindings with sets := (rebuiltStore start bindings).sets ++ [set] }

theorem settled_rebuilt {set : OperationSet}
    (hbindings : ∀ binding ∈ bindings, ∀ record ∈ binding.2, ∀ handle ∈ record.handles,
      handle < start)
    (hset : ∀ record ∈ set.records, ∀ handle ∈ record.handles, handle < start)
    : (rebuiltSession start bindings set).Settled := by
  intro other hother
  rcases List.mem_append.mp hother with hother | hother
  · rw [rebuiltStore, List.mem_map] at hother
    obtain ⟨binding, hbinding, rfl⟩ := hother
    exact hbindings binding hbinding
  · rw [List.mem_singleton] at hother
    rw [hother]
    exact hset

theorem get?_zipIdx (name : String) (before after : List OperationSet)
    : (Assoc.get? name ((bindings.zipIdx before.length).map fun item =>
          (item.1.1, start + item.2))).bind
        (fun handle => if start ≤ handle then
          (before ++ (bindings.map fun binding => (⟨binding.2, 0, true, 64⟩ : OperationSet)) ++
            after)[handle - start]? else none) =
        (Assoc.get? name bindings).map fun records => ⟨records, 0, true, 64⟩ := by
  -- Handles count from the sets before the bindings, which the induction moves on.
  induction bindings generalizing before with
  | nil => rfl
  | cons binding rest ih =>
    rw [List.zipIdx_cons, List.map_cons, Assoc.get?, Assoc.get?]
    split
    · simp
    · have h := ih (before ++ [⟨binding.2, 0, true, 64⟩])
      simpa using h

theorem procedureSteps?_rebuilt {set : OperationSet}
    (hsettled : (rebuiltSession start bindings set).Settled) (name : String)
    : (rebuiltSession start bindings set).procedureSteps? 0 name =
        (Assoc.get? name bindings).map compiledSteps := by
  have h := @get?_zipIdx start bindings name [] [set]
  unfold Store.procedureSteps?
  simp only [Store.set?_of_settled hsettled]
  have hheld : ((Assoc.get? name (bindings.zipIdx.map fun item => (item.1.1, start + item.2))).bind
      fun handle => (rebuiltSession start bindings set).held? handle) =
      (Assoc.get? name bindings).map fun records => ⟨records, 0, true, 64⟩ := h
  have hsteps := congrArg (Option.map OperationSet.steps) hheld
  rw [Option.map_bind, Option.map_map] at hsteps
  exact hsteps

theorem held?_rebuilt (set : OperationSet)
    : (rebuiltSession start bindings set).held? (start + bindings.length) = some set := by
  simp [Store.held?, rebuiltSession, rebuiltStore]

theorem buildSet_rebuilt {records : List Record} {maxDepth : Nat}
    (hrecords : ∀ record ∈ records, record.Distinct) (hmaxDepth : 1 ≤ maxDepth)
    : (rebuiltStore start bindings).buildSet (.list (records.map Record.toValue)) 0 true
        (.int maxDepth) =
        .ok (start + bindings.length,
          rebuiltSession start bindings ⟨records, 0, true, maxDepth⟩) := by
  have hlength : (rebuiltStore start bindings).sets.length = bindings.length := List.length_map _
  unfold Store.buildSet
  rw [declaredRecords_toValue hrecords, DepthBound.resolve_int _ hmaxDepth]
  show Except.ok (start + (rebuiltStore start bindings).sets.length, _) = _
  rw [hlength]
  rfl

theorem run_rebuild (host : InPlaceHost) {records : List Record} {maxDepth : Nat} (v : Value)
    (hnodup : (bindings.map (·.1)).Nodup) (hnames : "" ∉ bindings.map (·.1))
    (hbindings : ∀ binding ∈ bindings, ∀ record ∈ binding.2, record.Distinct)
    (hrecords : ∀ record ∈ records, record.Distinct) (hmaxDepth : 1 ≤ maxDepth)
    (hstart : ∀ binding ∈ bindings, ∀ record ∈ binding.2, ∀ handle ∈ record.handles, handle < start)
    (hstart' : ∀ record ∈ records, ∀ handle ∈ record.handles, handle < start)
    : (Workspace.run host { store := { start := start } }
        (Workspace.rebuild bindings records maxDepth v)).1.map Reply.outcome =
        [.ok .null, .ok (.int maxDepth),
          Surroundings.process
            ⟨host.toHost, fun name => (Assoc.get? name bindings).map compiledSteps⟩ maxDepth
            (compiledSteps records) v] := by
  have hsettled : (rebuiltSession start bindings ⟨records, 0, true, maxDepth⟩).Settled :=
    settled_rebuilt hstart hstart'
  have hset := Store.set?_of_settled hsettled (start + bindings.length)
  rw [held?_rebuilt] at hset
  have hregistry : Workspace.execute host { store := { start := start } }
      (.newRegistry "procedures" (.object (bindings.map fun binding =>
        (.str binding.1, .list (binding.2.map Record.toValue))))) =
      (.ok .null,
        { store := rebuiltStore start bindings, registries := [("procedures", 0)] }) := by
    unfold Workspace.execute
    dsimp only
    rw [buildRegistry_rebuilt hnodup hnames hbindings]
    rfl
  have hbuild : Workspace.execute host
      { store := rebuiltStore start bindings, registries := [("procedures", 0)] }
      (.newSet "set" (.list (records.map Record.toValue)) (some "procedures") true
        (.int maxDepth)) =
      (.ok (.int maxDepth),
        { store := rebuiltSession start bindings ⟨records, 0, true, maxDepth⟩
          sets := [("set", start + bindings.length)], registries := [("procedures", 0)] }) := by
    have hchoose : Workspace.chooseRegistry
        { store := rebuiltStore start bindings, registries := [("procedures", 0)] }
        (some "procedures") = .ok (0, rebuiltStore start bindings) := by
      simp [Workspace.chooseRegistry, Assoc.get?]
    unfold Workspace.execute
    dsimp only
    unfold Workspace.newSet
    rw [hchoose]
    show Workspace.commit _ ((rebuiltStore start bindings).buildSet _ 0 true (.int maxDepth)) _ = _
    rw [buildSet_rebuilt hrecords hmaxDepth]
    unfold Workspace.commit
    dsimp only
    rw [hset]
    rfl
  have hprocess : (Workspace.execute host
      { store := rebuiltSession start bindings ⟨records, 0, true, maxDepth⟩
        sets := [("set", start + bindings.length)], registries := [("procedures", 0)] }
      (.process "set" v)).1.outcome =
      Surroundings.process
        ⟨host.toHost, fun name => (Assoc.get? name bindings).map compiledSteps⟩ maxDepth
        (compiledSteps records) v := by
    unfold Workspace.execute
    dsimp only
    unfold Workspace.withSet Workspace.withId
    have hid : Assoc.get? "set" [("set", start + bindings.length)] =
        some (start + bindings.length) := by
      simp [Assoc.get?]
    rw [hid]
    dsimp only
    rw [hset]
    dsimp only
    rw [Workspace.outcome_processSet]
    have hprocedures : (rebuiltSession start bindings ⟨records, 0, true, maxDepth⟩).procedureSteps? 0 =
        fun name => (Assoc.get? name bindings).map compiledSteps := by
      funext name
      apply procedureSteps?_rebuilt hsettled
    rw [hprocedures]
    rfl
  unfold Workspace.rebuild
  simp only [Workspace.run, hregistry, hbuild, List.map_cons, List.map_nil, hprocess]
  rfl

end Rebuilt

section Bindings

variable {store : Store}

theorem bindings_names (store : Store) (registry : Nat)
    : ((store.bindings registry).map (·.1)).Sublist (store.registry registry).names := by
  unfold Store.bindings Registry.names
  induction (store.registry registry).procedures with
  | nil => exact List.Sublist.slnil
  | cons entry rest ih =>
    rw [List.filterMap_cons, List.map_cons]
    cases store.set? entry.2 with
    | none => exact ih.cons _
    | some set => exact ih.cons_cons _

theorem bindings_distinct (h : store.Sound) (registry : Nat)
    : ∀ binding ∈ store.bindings registry, ∀ record ∈ binding.2, record.Distinct := by
  intro binding hbinding
  unfold Store.bindings at hbinding
  rw [List.mem_filterMap] at hbinding
  obtain ⟨entry, -, hentry⟩ := hbinding
  rw [Option.map_eq_some_iff] at hentry
  obtain ⟨set, hset, rfl⟩ := hentry
  exact (Store.set?_sound h hset).distinct

theorem get?_bindings (h : store.Sound) (registry : Nat) (name : String)
    : Assoc.get? name (store.bindings registry) =
        ((store.registry registry).find? (.str name)).bind fun handle =>
          (store.set? handle).map OperationSet.records := by
  have hget := Assoc.get?_filterMap
    (fun handle => (store.set? handle).map OperationSet.records)
    (Store.registry_sound h registry).nodup name
  unfold Store.bindings
  simp only [Option.map_map, Function.comp_def] at hget
  exact hget

theorem procedureSteps?_eq (h : store.Sound) (registry : Nat)
    : store.procedureSteps? registry = fun name =>
        (Assoc.get? name (store.bindings registry)).map compiledSteps := by
  funext name
  rw [get?_bindings h, Store.procedureSteps?, Option.map_bind]
  congr 1
  funext handle
  rw [Function.comp_apply, Option.map_map]
  rfl

end Bindings

namespace Workspace

variable {w : Workspace}

theorem outcome_processHandle (host : InPlaceHost) {handle : Nat} {set : OperationSet}
    (hset : w.store.set? handle = some set) (v : Value)
    : (processHandle host w.store handle v).outcome = (processSet host w.store set v).outcome := by
  unfold processHandle
  rw [hset]

theorem execute_target (host : InPlaceHost) {command : Command} {set : OperationSet} {v : Value}
    (h : w.target? command = some (set, v))
    : (∃ handle, w.store.set? handle = some set) ∧
        (w.execute host command).1.outcome = (processSet host w.store set v).outcome := by
  cases command with
  | process id v' =>
    simp only [target?, set?, Option.map_eq_some_iff, Option.bind_eq_some_iff, Prod.mk.injEq] at h
    obtain ⟨set', ⟨handle, hid, hset⟩, rfl, rfl⟩ := h
    refine ⟨⟨handle, hset⟩, ?_⟩
    simp only [execute, withSet, withId, hid, hset]
  | callProcedure id name v' =>
    simp only [target?, registry?, Option.bind_eq_bind, Option.bind_eq_some_iff,
      Option.map_eq_some_iff, Option.pure_def, Option.some.injEq, Prod.mk.injEq] at h
    obtain ⟨registry, ⟨handle, hid, rfl⟩, set', ⟨procedure, hname, hset⟩, rfl, rfl⟩ := h
    refine ⟨⟨procedure, hset⟩, ?_⟩
    simp only [execute, withId, hid, withProcedure, hname]
    apply outcome_processHandle host hset
  | processMedium id phase medium v' =>
    simp only [target?, endpoint?, Option.bind_eq_bind, Option.bind_eq_some_iff, Option.pure_def,
      Option.some.injEq, Prod.mk.injEq] at h
    obtain ⟨endpoint, hid, set', ⟨handle, hmedium, hset⟩, rfl, rfl⟩ := h
    have hmedium : endpoint.medium phase medium = .ok handle := by
      cases hm : endpoint.medium phase medium with
      | error e =>
        rw [hm] at hmedium
        cases hmedium
      | ok handle' =>
        rw [hm] at hmedium
        cases hmedium
        rfl
    refine ⟨⟨handle, hset⟩, ?_⟩
    simp only [execute, withId, hid, hmedium]
    apply outcome_processHandle host hset
  | _ => cases h

theorem outcome_eq_process (host : InPlaceHost) (hsound : w.store.Sound) {command : Command}
    {set : OperationSet} {v : Value} (h : w.target? command = some (set, v))
    : (w.execute host command).1.outcome =
        Surroundings.process
          ⟨host.toHost, fun name =>
            (Assoc.get? name (w.store.bindings set.registry)).map compiledSteps⟩
          set.maxDepth (compiledSteps set.records) v := by
  rw [(execute_target host h).2, outcome_processSet, procedureSteps?_eq hsound]
  rfl

theorem outcome_eq_rebuilt (host : InPlaceHost) (hsound : w.store.Sound) {command : Command}
    {set : OperationSet} {v : Value} (h : w.target? command = some (set, v)) {start : Nat}
    (hbindings : ∀ binding ∈ w.store.bindings set.registry, ∀ record ∈ binding.2,
      ∀ handle ∈ record.handles, handle < start)
    (hset : ∀ record ∈ set.records, ∀ handle ∈ record.handles, handle < start)
    : (run host { store := { start := start } }
        (rebuild (w.store.bindings set.registry) set.records set.maxDepth v)).1.map Reply.outcome =
        [.ok .null, .ok (.int set.maxDepth), (w.execute host command).1.outcome] := by
  obtain ⟨⟨handle, hhandle⟩, -⟩ := execute_target host h
  have hset_sound := Store.set?_sound hsound hhandle
  have hregistry := Store.registry_sound hsound set.registry
  have hnames := bindings_names w.store set.registry
  rw [outcome_eq_process host hsound h]
  apply run_rebuild
  · exact hnames.nodup hregistry.nodup
  · exact fun hmem => hregistry.nonempty (hnames.subset hmem)
  · exact bindings_distinct hsound set.registry
  · exact hset_sound.distinct
  · exact hset_sound.bound
  · exact hbindings
  · exact hset

/--
The set that a command adds records to or removes one from, and what becomes of it.
-/
def changed? (w : Workspace) : Command → Option (Nat × OperationSet)
  | .addRecords id operations position => do
    let handle ← Assoc.get? id w.sets
    let set ← w.store.set? handle
    let added ← (set.add operations position).toOption
    pure (handle, added.2)
  | .removeRecord id key => do
    let handle ← Assoc.get? id w.sets
    let set ← w.store.set? handle
    let removed ← (set.remove key).toOption
    pure (handle, removed.2)
  | _ => none

theorem eq_ok_of_toOption {ε α : Type} {x : Except ε α} {a : α} (h : x.toOption = some a)
    : x = .ok a := by
  cases x with
  | error e => cases h
  | ok b =>
    cases h
    rfl

theorem execute_changed (host : InPlaceHost) {command : Command} {handle : Nat} {set : OperationSet}
    (h : w.changed? command = some (handle, set))
    : (w.execute host command).2 = { w with store := w.store.putSet handle set } ∧
        ∃ old, w.store.set? handle = some old := by
  cases command with
  | addRecords id operations position =>
    simp only [changed?, Option.bind_eq_bind, Option.bind_eq_some_iff, Option.pure_def,
      Option.some.injEq, Prod.mk.injEq] at h
    obtain ⟨handle', hid, old, hold, added, hadded, rfl, rfl⟩ := h
    refine ⟨?_, old, hold⟩
    simp only [execute, addRecords, withSet, withId, hid, hold, eq_ok_of_toOption hadded]
  | removeRecord id key =>
    simp only [changed?, Option.bind_eq_bind, Option.bind_eq_some_iff, Option.pure_def,
      Option.some.injEq, Prod.mk.injEq] at h
    obtain ⟨handle', hid, old, hold, removed, hremoved, rfl, rfl⟩ := h
    refine ⟨?_, old, hold⟩
    simp only [execute, removeRecord, withSet, withId, hid, hold, eq_ok_of_toOption hremoved]
  | _ => cases h

/--
All who hold the handle of a set see the set as told.
-/
structure Shows (w : Workspace) (handle : Nat) (set : OperationSet) : Prop where
  ids : ∀ id v, Assoc.get? id w.sets = some handle → w.target? (.process id v) = some (set, v)
  mediums : ∀ id endpoint phase medium v, w.endpoint? id = some endpoint →
    endpoint.medium phase medium = .ok handle →
    w.target? (.processMedium id phase medium v) = some (set, v)
  procedures : ∀ id registry name v, w.registry? id = some registry →
    registry.find? name = some handle → w.target? (.callProcedure id name v) = some (set, v)
  bindings : ∀ registry name, (w.store.registry registry).find? (.str name) = some handle →
    Assoc.get? name (w.store.bindings registry) = some set.records

/--
A command registers a given set under a name that is not empty, in a registry or at an endpoint.
-/
inductive Refers (w : Workspace) : Command → Nat → String → Nat → Prop where
  | register {id name : String} {registry handle : Nat} {records : List Value}
    (hid : Assoc.get? id w.registries = some registry) (hname : name ≠ "") :
    Refers w (.register id (.str name) (.operationSet handle records)) registry name handle
  | assign {id name : String} {registry handle : Nat} {records : List Value}
    (hid : Assoc.get? id w.registries = some registry) (hname : name ≠ "") :
    Refers w (.assign id (.str name) (.operationSet handle records)) registry name handle
  | registerAt {id name : String} {endpoint : Endpoint} {handle : Nat} {records : List Value}
    (hid : Assoc.get? id w.endpoints = some endpoint) (hname : name ≠ "") :
    Refers w (.registerAt id (.str name) (.operationSet handle records)) endpoint.registry name
      handle

theorem find?_of_refers (host : InPlaceHost) (h : w.Linked) {command : Command}
    {registry handle : Nat} {name : String} (hrefers : w.Refers command registry name handle)
    : ((w.execute host command).2.store.registry registry).find? (.str name) = some handle := by
  cases hrefers with
  | register hid hname | assign hid hname =>
    show ((w.withId w.registries _ _).2.store.registry registry).find? _ = _
    rw [withId_of_get? hid, Store.register_operationSet hname]
    exact Store.find?_putRegistry_insert (h.registries _ _ hid) name handle
  | registerAt hid hname =>
    show ((w.withId w.endpoints _ _).2.store.registry _).find? _ = _
    rw [withId_of_get? hid, Store.register_operationSet hname]
    exact Store.find?_putRegistry_insert (h.endpoints _ _ hid) name handle

theorem shows_of_set? (hsound : w.store.Sound) {handle : Nat} {set : OperationSet}
    (h : w.store.set? handle = some set) : w.Shows handle set where
  ids := by
    intro id v hid
    simp [target?, set?, hid, h]
  mediums := by
    intro id endpoint phase medium v hid hmedium
    simp [target?, hid, hmedium, h, Except.toOption]
  procedures := by
    intro id registry name v hid hname
    simp [target?, hid, hname, h]
  bindings := by
    intro registry name hname
    rw [get?_bindings hsound, hname, Option.bind_some, h]
    rfl

end Workspace

theorem Store.held?_putSet {store : Store} {handle : Nat} {old : OperationSet}
    (h : store.set? handle = some old) (set : OperationSet)
    : (store.putSet handle set).held? handle = some set := by
  unfold set? at h
  rw [Option.map_eq_some_iff] at h
  obtain ⟨held, hheld, -⟩ := h
  unfold held? at hheld
  split at hheld
  · next hstart =>
    obtain ⟨hlength, -⟩ := List.getElem?_eq_some_iff.mp hheld
    simp [held?, putSet, hstart, hlength]
  · cases hheld

/--
The present set behind a handle, given what is stored there.
-/
def Store.present (store : Store) (set : OperationSet) : OperationSet :=
  { set with
    records := set.records.map
      (Record.mapPayloads (Value.refresh (store.recordValues? store.sets.length))) }

/--
At every point of a session, whatever commands have come before and whether they have failed or not,
a run of a set depends on the present alone. It comes to the outcome that it has in a session that
has only built a registry of the procedures by their present records, and a set of the present
records with that registry and the same bound. Runs that agree in these have one outcome. A set that
is registered is itself what its name is bound to, no copy of it. And a set to which records are
added, or from which one is removed, is seen changed by all who hold it.
-/
theorem Workspace.execute_eq_rebuilt (host : InPlaceHost) (commands : List Command)
    : let w := (run host {} commands).2
      (∀ command set v, w.target? command = some (set, v) → ∀ start,
        (∀ records ∈ set.records :: (w.store.bindings set.registry).map (·.2), ∀ record ∈ records,
          ∀ handle ∈ record.handles, handle < start) →
        (run host { store := { start := start } }
          (rebuild (w.store.bindings set.registry) set.records set.maxDepth v)).1.map Reply.outcome =
          [.ok .null, .ok (.int set.maxDepth), (w.execute host command).1.outcome]) ∧
      (∀ commands' command command' set set' v, w.target? command = some (set, v) →
        let w' := (run host {} commands').2
        w'.target? command' = some (set', v) → set'.records = set.records →
        set'.maxDepth = set.maxDepth →
        w'.store.bindings set'.registry = w.store.bindings set.registry →
        (w'.execute host command').1.outcome = (w.execute host command).1.outcome) ∧
      (∀ command registry name handle, w.Refers command registry name handle →
        ((w.execute host command).2.store.registry registry).find? (.str name) = some handle) ∧
      (∀ command handle set, w.changed? command = some (handle, set) →
        let w' := (w.execute host command).2
        w'.Shows handle (w'.store.present set)) := by
  intro w
  have hsound : w.store.Sound := run_sound host (Store.empty_sound 0) commands
  refine ⟨?_, ?_, ?_, ?_⟩
  · intro command set v h start hstart
    apply outcome_eq_rebuilt host hsound h
    · intro binding hbinding
      apply hstart
      apply List.mem_cons_of_mem
      exact List.mem_map_of_mem hbinding
    · apply hstart
      apply List.mem_cons_self
  · intro commands' command command' set set' v h w' h' hrecords hmaxDepth hbindings
    have hsound' : w'.store.Sound := run_sound host (Store.empty_sound 0) commands'
    rw [outcome_eq_process host hsound h, outcome_eq_process host hsound' h', hrecords, hmaxDepth,
      hbindings]
  · intro command registry name handle hrefers
    exact find?_of_refers host (run_linked host commands) hrefers
  · intro command handle set h
    have hsound' := execute_sound host hsound command
    obtain ⟨hexecute, old, hold⟩ := execute_changed host h
    apply shows_of_set? hsound'
    rw [hexecute]
    dsimp only
    rw [Store.set?, Store.held?_putSet hold]
    rfl

theorem Workspace.execute_eq_rebuilt_shared
    : let before : List Command :=
        [.newRegistry "r" (.object []),
          .newSet "p" (.object [(.str "$func", .function "inc")]) none true .null]
      let register : Command := .register "r" (.str "step") (.operationSet 0 [])
      let commands (bound : Value) : List Command :=
        [.newRegistry "r" (.object []),
          .newSet "p" (.object [(.str "$func", .function "inc")]) none true bound, register,
          .newSet "x" (.object [(.str "$procedure", .object [(.str "a", .str "step")])]) (some "r")
            false .null]
      let w := (run .standard {} (commands .null)).2
      let w' := (run .standard {} (commands (.int 1))).2
      let call : Command := .process "x" (.object [(.str "a", .int 1)])
      let add : Command := .addRecords "p" (.object [(.str "$func", .function "box")]) {}
      let set : OperationSet :=
        ⟨[⟨[.operation .sigil .procedure (.object [(.str "a", .str "step")])]⟩], 0, false, 64⟩
      let grown : OperationSet :=
        ⟨[⟨[.operation .sigil .func (.function "inc")]⟩,
          ⟨[.operation .sigil .func (.function "box")]⟩], 1, true, 64⟩
      (run .standard {} (rebuild (w.store.bindings set.registry) set.records set.maxDepth
          (.object [(.str "a", .int 1)]))).1.map Reply.outcome =
          [.ok .null, .ok (.int set.maxDepth), (w.execute .standard call).1.outcome] ∧
        (w'.execute .standard call).1.outcome = (w.execute .standard call).1.outcome ∧
        (((run .standard {} before).2.execute .standard register).2.store.registry 0).find?
          (.str "step") = some 0 ∧
        (w.execute .standard add).2.Shows 0 ((w.execute .standard add).2.store.present grown) ∧
        Assoc.get? "step" ((w.execute .standard add).2.store.bindings 0) =
          some ((w.execute .standard add).2.store.present grown).records := by
  intro before register commands w w' call add set grown
  obtain ⟨hrebuilt, hagree, -, hshows⟩ := execute_eq_rebuilt .standard (commands .null)
  obtain ⟨-, -, hrefers, -⟩ := execute_eq_rebuilt .standard before
  have htarget : w.target? call = some (set, .object [(.str "a", .int 1)]) := by decide +kernel
  have htarget' : w'.target? call = some (set, .object [(.str "a", .int 1)]) := by decide +kernel
  have hid : Assoc.get? "r" (run .standard {} before).2.registries = some 0 := by decide +kernel
  have hadd := hshows add 0 grown (by decide +kernel)
  refine ⟨?_, ?_, ?_, hadd, ?_⟩
  · exact hrebuilt call set _ htarget 0 (by decide +kernel)
  · exact hagree (commands (.int 1)) call call set set _ htarget htarget' rfl rfl (by decide +kernel)
  · exact hrefers register 0 "step" 0 (.register hid (by decide))
  · exact hadd.bindings 0 "step" (by decide +kernel)

end Reshape
