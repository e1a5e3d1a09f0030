import Reshape.Proofs.History

/-!
This module contains what it takes to register procedures in a store. A registration finds or builds
the set that the procedure stands for and then changes the registry, if the name is a text that is
not empty and the procedure stands for a set (`Registrable`). The main statement,
`registerAll_registered`, says what a list of registrations comes to, up to the first one that cannot
be made.
-/

namespace Reshape

namespace Store

/--
Whether a store has come out of another one by adding sets, whatever has become of registries.
-/
structure Extends (before after : Store) : Prop where
  start : after.start = before.start
  setting : after.depthSetting = before.depthSetting
  sets : before.sets <+: after.sets
  registries : before.registries.length ≤ after.registries.length

/--
A set has been built of operations, for a registry and with the bound that the setting asks for.
-/
def Built (before after : Store) (registry : Nat) (operations : Value) (handle : Nat) : Prop :=
  ∃ records bound, declaredRecords operations = .ok records ∧
    DepthBound.resolve before.depthSetting .null = .ok bound ∧
    before.held? handle = none ∧ after.held? handle = some ⟨records, registry, true, bound⟩

/--
The set behind a handle is the one that a procedure stands for: the given set itself, or else a new
one. That of a function has a single step.
-/
def Stands (before after : Store) (registry : Nat) (procedure : Value) (handle : Nat) : Prop :=
  match procedure with
  | .operationSet given _ => handle = given
  | .function _ =>
    Built before after registry (.object [(.str Op.func.key, procedure)]) handle ∧
      (after.held? handle).map OperationSet.steps = some [⟨.func, procedure, 0⟩]
  | procedure => Built before after registry procedure handle

/--
Whether there is a set that a procedure stands for: a given one, or else one that can be built with
the bound that the setting asks for, of operations that compile or of a function.
-/
def Buildable (setting : Option String) (procedure : Value) : Prop :=
  match procedure with
  | .operationSet _ _ => True
  | .object _ | .list _ | .tuple _ =>
    procedure.Compiles ∧ ∃ bound, DepthBound.resolve setting .null = .ok bound
  | .function _ => ∃ bound, DepthBound.resolve setting .null = .ok bound
  | _ => False

/--
Whether a procedure can be registered under a name, which is a text that is not empty.
-/
structure Registrable (setting : Option String) (name procedure : Value) : Prop where
  named : ∃ label, name = .str label ∧ label ≠ ""
  buildable : Buildable setting procedure

section Extends

variable {before mid after : Store} {registry handle : Nat} {procedure : Value}

theorem Extends.refl (store : Store) : store.Extends store :=
  ⟨rfl, rfl, List.prefix_rfl, Nat.le_refl _⟩

theorem Extends.trans (h : before.Extends mid) (h' : mid.Extends after) : before.Extends after where
  start := h'.start.trans h.start
  setting := h'.setting.trans h.setting
  sets := h.sets.trans h'.sets
  registries := Nat.le_trans h.registries h'.registries

theorem Extends.held? (h : before.Extends after) {set : OperationSet}
    (hset : before.held? handle = some set) : after.held? handle = some set := by
  unfold Store.held? at hset ⊢
  rw [h.start]
  split at hset
  · next hstart =>
    rw [if_pos hstart]
    obtain ⟨more, hmore⟩ := h.sets
    obtain ⟨hlt, -⟩ := List.getElem?_eq_some_iff.mp hset
    rw [← hmore, List.getElem?_append_left hlt]
    exact hset
  · cases hset

theorem Extends.fresh (h : before.Extends after) (hset : after.held? handle = none)
    : before.held? handle = none := by
  cases hbefore : before.held? handle with
  | none => rfl
  | some set =>
    rw [h.held? hbefore] at hset
    cases hset

theorem Built.mono {operations : Value} {before' after' : Store}
    (h : Built before after registry operations handle) (hbefore : before'.Extends before)
    (hafter : after.Extends after') : Built before' after' registry operations handle := by
  obtain ⟨records, bound, hrecords, hbound, hfresh, hset⟩ := h
  rw [hbefore.setting] at hbound
  exact ⟨records, bound, hrecords, hbound, hbefore.fresh hfresh, hafter.held? hset⟩

theorem Stands.mono {before' after' : Store} (h : Stands before after registry procedure handle)
    (hbefore : before'.Extends before) (hafter : after.Extends after')
    : Stands before' after' registry procedure handle := by
  cases procedure with
  | operationSet given records => exact h
  | function name =>
    obtain ⟨hbuilt, hsteps⟩ := h
    refine ⟨hbuilt.mono hbefore hafter, ?_⟩
    rw [Option.map_eq_some_iff] at hsteps ⊢
    obtain ⟨set, hset, hsteps⟩ := hsteps
    exact ⟨set, hafter.held? hset, hsteps⟩
  | _ => exact Built.mono h hbefore hafter

theorem Built.buildable {operations : Value} (h : Built before after registry operations handle)
    : operations.Compiles ∧ ∃ bound, DepthBound.resolve before.depthSetting .null = .ok bound := by
  obtain ⟨records, bound, hrecords, hbound, -, -⟩ := h
  exact ⟨exists_declaredRecords_iff.mp ⟨records, hrecords⟩, bound, hbound⟩

end Extends

section Build

variable {store store' : Store} {handle : Nat}

theorem extends_addSet (store : Store) (set : OperationSet) : store.Extends (store.addSet set).2 :=
  ⟨rfl, rfl, List.prefix_append _ _, Nat.le_refl _⟩

theorem held?_addSet (store : Store) (set : OperationSet)
    : store.held? (store.addSet set).1 = none ∧
        (store.addSet set).2.held? (store.addSet set).1 = some set := by
  unfold held? addSet
  simp

theorem buildSet_spec {operations maxDepth : Value} {registry : Nat} {copyInput : Bool}
    (h : store.buildSet operations registry copyInput maxDepth = .ok (handle, store'))
    : store.Extends store' ∧ store'.registries = store.registries ∧
        ∃ records bound, declaredRecords operations = .ok records ∧
          DepthBound.resolve store.depthSetting maxDepth = .ok bound ∧
          store.held? handle = none ∧
          store'.held? handle = some ⟨records, registry, copyInput, bound⟩ := by
  unfold buildSet at h
  obtain ⟨records, hrecords, h⟩ := except_bind_eq_ok_iff.mp h
  obtain ⟨bound, hbound, h⟩ := except_bind_eq_ok_iff.mp h
  rw [except_mapError_eq_ok_iff] at hrecords
  cases h
  have hheld := held?_addSet store ⟨records, registry, copyInput, bound⟩
  exact ⟨extends_addSet _ _, rfl, records, bound, hrecords, hbound, hheld⟩

theorem buildSet_eq_ok {operations maxDepth : Value} {registry bound : Nat} {copyInput : Bool}
    {records : List Record} (hrecords : declaredRecords operations = .ok records)
    (hbound : DepthBound.resolve store.depthSetting maxDepth = .ok bound)
    : store.buildSet operations registry copyInput maxDepth =
        .ok (store.addSet ⟨records, registry, copyInput, bound⟩) := by
  unfold buildSet
  rw [hrecords, hbound]
  rfl

theorem buildSet_eq_error {operations maxDepth : Value} {registry bound : Nat} {copyInput : Bool}
    {e : Error} (hbound : DepthBound.resolve store.depthSetting maxDepth = .ok bound)
    (h : store.buildSet operations registry copyInput maxDepth = .error e)
    : ∃ cause, declaredRecords operations = .error cause ∧ e = .format cause := by
  unfold buildSet at h
  rcases except_bind_eq_error_iff.mp h with hrecords | ⟨records, -, h⟩
  · obtain ⟨cause, hcause, rfl⟩ := except_mapError_eq_error_iff.mp hrecords
    exact ⟨cause, hcause, rfl⟩
  · rw [hbound] at h
    cases h

theorem procedureSet_spec {registry : Nat} {name : String} {procedure : Value}
    (h : store.procedureSet registry name procedure = .ok (handle, store'))
    : store.Extends store' ∧ store'.registries = store.registries ∧
        Buildable store.depthSetting procedure ∧
        Stands store store' registry procedure handle := by
  cases procedure with
  | operationSet given records =>
    cases h
    exact ⟨Extends.refl _, rfl, trivial, rfl⟩
  | object fields | list items | tuple items =>
    obtain ⟨hextends, hregistries, hbuilt⟩ := buildSet_spec h
    exact ⟨hextends, hregistries, Built.buildable hbuilt, hbuilt⟩
  | function name =>
    obtain ⟨hextends, hregistries, hbuilt⟩ := buildSet_spec h
    refine ⟨hextends, hregistries, (Built.buildable hbuilt).2, hbuilt, ?_⟩
    obtain ⟨records, bound, hrecords, -, -, hset⟩ := hbuilt
    rw [hset]
    cases hrecords
    rfl
  | _ => cases h

theorem procedureSet_eq_error {registry : Nat} {name : String} {procedure : Value} {e : Error}
    (h : store.procedureSet registry name procedure = .error e)
    : ¬Buildable store.depthSetting procedure := by
  cases procedure with
  | operationSet given records => cases h
  | object fields | list items | tuple items =>
    rintro ⟨hcompiles, bound, hbound⟩
    obtain ⟨records, hrecords⟩ := exists_declaredRecords_iff.mpr hcompiles
    cases h.symm.trans (buildSet_eq_ok hrecords hbound)
  | function function =>
    rintro ⟨bound, hbound⟩
    cases h.symm.trans (buildSet_eq_ok rfl hbound)
  | _ => exact id

theorem registry_putRegistry_self (h : handle < store.registries.length) (registry : Registry)
    : (store.putRegistry handle registry).registry handle = registry := by
  unfold Store.registry putRegistry
  simp [h]

theorem registry_putRegistry_of_ne {other : Nat} (h : other ≠ handle) (registry : Registry)
    : (store.putRegistry handle registry).registry other = store.registry other := by
  unfold Store.registry putRegistry
  simp [List.getElem?_set_ne h.symm]

theorem extends_putRegistry (store : Store) (handle : Nat) (registry : Registry)
    : store.Extends (store.putRegistry handle registry) :=
  ⟨rfl, rfl, List.prefix_rfl, Nat.le_of_eq List.length_set.symm⟩

theorem registry_addRegistry (store : Store) (handle : Nat)
    : store.addRegistry.2.registry handle = store.registry handle := by
  unfold Store.registry addRegistry
  dsimp only
  rw [List.getElem?_append]
  split
  · rfl
  · next hlt =>
    rw [List.getElem?_eq_none (Nat.le_of_not_lt hlt), List.getElem?_singleton]
    split
    · rfl
    · rfl

theorem register_operationSet {registry : Nat} {name : String} (h : name ≠ "")
    (records : List Value)
    : store.register registry (.str name) (.operationSet handle records) =
        .ok (handle, store.putRegistry registry
          ⟨Assoc.insert name handle (store.registry registry).procedures⟩) := by
  unfold register
  dsimp only
  rw [if_neg h]
  rfl

theorem find?_putRegistry_insert (h : handle < store.registries.length) (name : String)
    (bound : Nat)
    : ((store.putRegistry handle
        ⟨Assoc.insert name bound (store.registry handle).procedures⟩).registry handle).find?
          (.str name) = some bound := by
  rw [registry_putRegistry_self h]
  exact Assoc.get?_insert_self _ _ _

end Build

/--
The registrations in a list of names with procedures that succeed, up to the first one that does
not.
-/
def registrations (store : Store) (registry : Nat) :
    List (Except Error (Value × Value)) → List Binding
  | .ok (.str name, procedure) :: rest =>
    match store.register registry (.str name) procedure with
    | .ok (handle, store) => ⟨name, procedure, handle⟩ :: store.registrations registry rest
    | .error _ => []
  | _ => []

/--
Where registering stops. It comes to an end without a failure if nothing is left over, and else at
what cannot be registered, with a failure in the store that has been reached.
-/
def Stops (store : Store) (registry : Nat) (result : Except Error Unit) :
    List (Except Error (Value × Value)) → Prop
  | [] => result = .ok ()
  | .error e :: _ => result = .error e
  | .ok (name, procedure) :: _ => ¬Registrable store.depthSetting name procedure ∧
    ∃ e, store.register registry name procedure = .error e ∧ result = .error e

/--
What a list of registrations in a registry comes to.
-/
structure Registered (before : Store) (registry : Nat) (pairs : List (Except Error (Value × Value)))
    (bindings : List Binding) (after : Store) (result : Except Error Unit) : Prop where
  grown : before.Extends after
  changed : after.registry registry =
    bindings.foldl (fun r binding => r.applied (.bind binding)) (before.registry registry)
  others : ∀ other, other ≠ registry → after.registry other = before.registry other
  stand : ∀ binding ∈ bindings, binding.name ≠ "" ∧
    Buildable before.depthSetting binding.procedure ∧
    before.Stands after registry binding.procedure binding.handle
  stops : ∃ rest,
    pairs = bindings.map (fun binding => .ok (.str binding.name, binding.procedure)) ++ rest ∧
      after.Stops registry result rest

theorem register_cases (store : Store) {registry : Nat} (h : registry < store.registries.length)
    (name procedure : Value)
    : (∃ label handle after, name = .str label ∧ label ≠ "" ∧
        store.register registry name procedure = .ok (handle, after) ∧ store.Extends after ∧
        Buildable store.depthSetting procedure ∧ store.Stands after registry procedure handle ∧
        after.registry registry =
          (store.registry registry).applied (.bind ⟨label, procedure, handle⟩) ∧
        ∀ other, other ≠ registry → after.registry other = store.registry other) ∨
      ¬Registrable store.depthSetting name procedure ∧
        ∃ e, store.register registry name procedure = .error e := by
  unfold register
  split
  · next label =>
    split
    · next hlabel =>
      refine Or.inr ⟨?_, _, rfl⟩
      rintro ⟨⟨label, ⟨⟩, hne⟩, -⟩
      exact hne hlabel
    · next hlabel =>
      cases hset : store.procedureSet registry label procedure with
      | error e => exact Or.inr ⟨fun h => procedureSet_eq_error hset h.buildable, e, rfl⟩
      | ok built =>
        obtain ⟨handle, built⟩ := built
        obtain ⟨hextends, hregistries, hbuildable, hstands⟩ := procedureSet_spec hset
        have hsame (other : Nat) : built.registry other = store.registry other := by
          unfold Store.registry
          rw [hregistries]
        refine Or.inl ⟨label, handle, _, rfl, hlabel, rfl, ?_, hbuildable, ?_, ?_, ?_⟩
        · exact hextends.trans (extends_putRegistry _ _ _)
        · exact hstands.mono (Extends.refl _) (extends_putRegistry _ _ _)
        · rw [registry_putRegistry_self, hsame]
          · rfl
          · rw [hregistries]
            exact h
        · intro other hother
          rw [registry_putRegistry_of_ne hother, hsame]
  · next hname =>
    refine Or.inr ⟨?_, _, rfl⟩
    rintro ⟨⟨label, rfl, -⟩, -⟩
    exact hname label rfl

theorem registered_nil (store : Store) (registry : Nat)
    {pairs : List (Except Error (Value × Value))} {result : Except Error Unit}
    (hstops : store.Stops registry result pairs)
    : Registered store registry pairs [] store result where
  grown := Extends.refl store
  changed := rfl
  others _ _ := rfl
  stand := nofun
  stops := ⟨pairs, rfl, hstops⟩

theorem registrations_of_error {store : Store} {registry : Nat} {name procedure : Value} {e : Error}
    (h : store.register registry name procedure = .error e)
    (rest : List (Except Error (Value × Value)))
    : store.registrations registry (.ok (name, procedure) :: rest) = [] := by
  cases name with
  | str label => rw [registrations, h]
  | _ => rfl

theorem registerAll_registered (store : Store) {registry : Nat}
    (h : registry < store.registries.length) (pairs : List (Except Error (Value × Value)))
    : Registered store registry pairs (store.registrations registry pairs)
        (store.registerAll registry pairs).1 (store.registerAll registry pairs).2 := by
  induction pairs generalizing store with
  | nil => exact registered_nil store registry rfl
  | cons pair rest ih =>
    cases pair with
    | error e => exact registered_nil store registry rfl
    | ok pair =>
      obtain ⟨name, procedure⟩ := pair
      rw [registerAll]
      rcases store.register_cases h name procedure with
        ⟨label, handle, after, rfl, hlabel, hregister, hgrown, hbuildable, hstands, hchanged,
          hothers⟩ | ⟨hrefused, e, he⟩
      · rw [registrations, hregister]
        have hrest := ih after (Nat.lt_of_lt_of_le h hgrown.registries)
        refine ⟨hgrown.trans hrest.grown, ?_, ?_, ?_, ?_⟩
        · rw [hrest.changed, hchanged, List.foldl_cons]
        · intro other hother
          rw [hrest.others other hother, hothers other hother]
        · intro binding hbinding
          rcases List.mem_cons.mp hbinding with rfl | hbinding
          · exact ⟨hlabel, hbuildable, hstands.mono (Extends.refl _) hrest.grown⟩
          · obtain ⟨hname, hbuildable, hstands⟩ := hrest.stand binding hbinding
            rw [hgrown.setting] at hbuildable
            exact ⟨hname, hbuildable, hstands.mono hgrown (Extends.refl _)⟩
        · obtain ⟨left, hleft, hstops⟩ := hrest.stops
          refine ⟨left, ?_, hstops⟩
          rw [List.map_cons, List.cons_append, ← hleft]
      · rw [registrations_of_error he, he]
        exact registered_nil store registry ⟨hrefused, e, he, rfl⟩

/--
A list of registrations comes to its end if and only if everything in it can be registered.
-/
theorem Registered.result_eq_ok_iff {before after : Store} {registry : Nat}
    {pairs : List (Except Error (Value × Value))} {bindings : List Binding}
    {result : Except Error Unit} (h : Registered before registry pairs bindings after result)
    : result = .ok () ↔ ∀ pair ∈ pairs, ∃ name procedure, pair = .ok (name, procedure) ∧
        Registrable before.depthSetting name procedure := by
  obtain ⟨rest, rfl, hstops⟩ := h.stops
  constructor
  · rintro rfl pair hpair
    cases rest with
    | nil =>
      rw [List.append_nil] at hpair
      obtain ⟨binding, hbinding, rfl⟩ := List.mem_map.mp hpair
      obtain ⟨hname, hbuildable, -⟩ := h.stand binding hbinding
      exact ⟨_, _, rfl, ⟨_, rfl, hname⟩, hbuildable⟩
    | cons first rest =>
      cases first with
      | error e => cases hstops
      | ok first =>
        obtain ⟨-, e, -, ⟨⟩⟩ := hstops
  · intro hall
    cases rest with
    | nil => exact hstops
    | cons first rest =>
      obtain ⟨name, procedure, rfl, hregistrable⟩ :=
        hall first (List.mem_append_right _ List.mem_cons_self)
      rw [← h.grown.setting] at hregistrable
      exact absurd hregistrable hstops.1

end Store
end Reshape
