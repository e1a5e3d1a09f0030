import Reshape.Proofs.Registration

/-!
This module contains what commands do to registries. Every command adds to the history of a registry
the registrations and removals in which it succeeds. The main statement, `run_registries`, says that
after any session all registries follow their histories, which further commands succeed and what
their names are bound to, and that what fails leaves nothing behind.
-/

namespace Reshape

/--
A list of registrations that a command makes in a registry.
-/
structure Attempt where
  store : Store
  registry : Nat
  pairs : List (Except Error (Value × Value))
  /-- Whether what has been registered before a failure stays. -/
  stays : Bool := false
  /-- The id of the registry if it is a new one. -/
  id? : Option String := none

namespace Attempt

/--
The registrations that are made, up to the first one that fails.
-/
def bindings (a : Attempt) : List Binding :=
  a.store.registrations a.registry a.pairs

def after (a : Attempt) : Store :=
  (a.store.registerAll a.registry a.pairs).1

def result (a : Attempt) : Except Error Unit :=
  (a.store.registerAll a.registry a.pairs).2

def kept (a : Attempt) : Bool :=
  a.stays || a.result.isOk

/--
The ids of registries where the registrations are kept.
-/
def ids (a : Attempt) (table : Assoc String Nat) : Assoc String Nat :=
  match a.id? with
  | some id => Assoc.insert id a.registry table
  | none => table

end Attempt

namespace Workspace

/--
What a command registers. A new registry is given up if it cannot be filled.
-/
def attempt? (w : Workspace) : Command → Option Attempt
  | .newRegistry id procedures =>
    let (registry, store) := w.store.addRegistry
    some { store, registry, pairs := Store.fieldPairs procedures, id? := some id }
  | .register id name procedure | .assign id name procedure =>
    (Assoc.get? id w.registries).map fun registry =>
      { store := w.store, registry, pairs := [.ok (name, procedure)] }
  | .registerAll id procedures =>
    (Assoc.get? id w.registries).map fun registry =>
      { store := w.store, registry, pairs := Store.listedPairs procedures, stays := true }
  | .registerAt id name procedure =>
    (Assoc.get? id w.endpoints).map fun endpoint =>
      { store := w.store, registry := endpoint.registry, pairs := [.ok (name, procedure)] }
  | _ => none

/--
The registry in which a command gives a name up, and the name.
-/
def removal? (w : Workspace) : Command → Option (Nat × Value)
  | .deleteItem id name | .popItem id name =>
    (Assoc.get? id w.registries).map fun registry => (registry, name)
  | _ => none

/--
What a command adds to the history of a registry.
-/
def changes (w : Workspace) (registry : Nat) (command : Command) : List Change :=
  match w.attempt? command, w.removal? command with
  | some a, _ => if a.registry = registry ∧ a.kept = true then a.bindings.map .bind else []
  | none, some (target, .str name) =>
    if target = registry ∧ name ∈ (w.store.registry registry).names then [.drop name] else []
  | _, _ => []

/--
The history of a registry in a session.
-/
def history (host : InPlaceHost) (w : Workspace) (registry : Nat) : List Command → List Change
  | [] => []
  | command :: commands =>
    w.changes registry command ++ history host (w.execute host command).2 registry commands

/--
The ids of registries after a command with a result. A new registry comes in if it could be filled.
-/
def idsAfter (w : Workspace) : Command → Except Error Value → Assoc String Nat
  | .newRegistry id _, .ok _ => Assoc.insert id w.store.addRegistry.1 w.registries
  | _, _ => w.registries

/--
What a command does to registries, whether it fails or not.
-/
structure Changed (w : Workspace) (command : Command) (reply : Reply) (w' : Workspace) : Prop where
  /-- The changes that the command adds to their histories are made, and no others. -/
  made : ∀ registry, w'.store.registry registry =
    (w.changes registry command).foldl Registry.applied (w.store.registry registry)
  /-- Registries are found under the same ids as before, and a new one under its id. -/
  ids : w'.registries = w.idsAfter command reply.outcome.result
  /-- Names, which are not empty, are bound to the sets that the procedures stand for. -/
  stand : ∀ registry binding, .bind binding ∈ w.changes registry command → binding.name ≠ "" ∧
    Store.Buildable w.store.depthSetting binding.procedure ∧
    w.store.Stands w'.store registry binding.procedure binding.handle
  /-- A command that fails leaves everything as it was, unless it registers one by one. -/
  atomic : ∀ e, reply.outcome.result = .error e →
    (∀ id procedures, command ≠ .registerAll id procedures) → w' = w
  /-- Registrations are made up to the first one that fails, and then the command fails with it. -/
  stops : ∀ a, w.attempt? command = some a → ∃ rest,
    a.pairs = a.bindings.map (fun binding => .ok (.str binding.name, binding.procedure)) ++ rest ∧
      a.after.Stops a.registry (reply.outcome.result.map fun _ => ()) rest
  /-- A command that registers succeeds if and only if all that it lists can be registered. -/
  complete : ∀ a, w.attempt? command = some a →
    ((∃ v, reply.outcome.result = .ok v) ↔ ∀ pair ∈ a.pairs, ∃ name procedure,
      pair = .ok (name, procedure) ∧ Store.Registrable w.store.depthSetting name procedure)
  /-- A name is given up if it is bound, and else the command fails. -/
  removed : ∀ registry name, w.removal? command = some (registry, name) →
    (∃ label v, name = .str label ∧ w.changes registry command = [.drop label] ∧
        reply.outcome.result = .ok v) ∨
      (w.store.registry registry).find? name = none ∧ w.changes registry command = [] ∧
        reply.outcome.result = .error (.notFound name (.unknownName name))

/--
Ids and endpoints lead to registries that are there.
-/
structure Linked (w : Workspace) : Prop where
  registries : ∀ id registry, Assoc.get? id w.registries = some registry →
    registry < w.store.registries.length
  endpoints : ∀ id endpoint, Assoc.get? id w.endpoints = some endpoint →
    endpoint.registry < w.store.registries.length

variable {w w' : Workspace} {command : Command}

theorem empty_linked : Linked {} where
  registries := nofun
  endpoints := nofun

theorem Linked.mono (h : w.Linked) (hregistries : w'.registries = w.registries)
    (hendpoints : w'.endpoints = w.endpoints)
    (hlength : w.store.registries.length ≤ w'.store.registries.length) : w'.Linked where
  registries id registry hid := by
    rw [hregistries] at hid
    exact Nat.lt_of_lt_of_le (h.registries id registry hid) hlength
  endpoints id endpoint hid := by
    rw [hendpoints] at hid
    exact Nat.lt_of_lt_of_le (h.endpoints id endpoint hid) hlength

theorem withId_of_get? {α : Type} {table : Assoc String α} {id : String} {a : α}
    (h : Assoc.get? id table = some a) (go : α → Reply × Workspace)
    : w.withId table id go = go a := by
  unfold withId
  rw [h]

section Attempt

variable {a : Attempt}

theorem attempt_room (h : w.Linked) (ha : w.attempt? command = some a)
    : a.registry < a.store.registries.length := by
  cases command with
  | newRegistry id procedures =>
    cases ha
    simp
  | register id name procedure | assign id name procedure | registerAll id procedures =>
    obtain ⟨registry, hid, rfl⟩ := Option.map_eq_some_iff.mp ha
    exact h.registries id registry hid
  | registerAt id name procedure =>
    obtain ⟨endpoint, hid, rfl⟩ := Option.map_eq_some_iff.mp ha
    exact h.endpoints id endpoint hid
  | _ => cases ha

theorem attempt_store (ha : w.attempt? command = some a)
    : w.store.Extends a.store ∧
        ∀ registry, a.store.registry registry = w.store.registry registry := by
  cases command with
  | newRegistry id procedures =>
    cases ha
    refine ⟨⟨rfl, rfl, List.prefix_rfl, ?_⟩, w.store.registry_addRegistry⟩
    simp
  | register id name procedure | assign id name procedure | registerAll id procedures
  | registerAt id name procedure =>
    obtain ⟨_, -, rfl⟩ := Option.map_eq_some_iff.mp ha
    exact ⟨Store.Extends.refl _, fun _ => rfl⟩
  | _ => cases ha

theorem attempt_stays (ha : w.attempt? command = some a) (hstays : a.stays = true)
    : ∃ id procedures, command = .registerAll id procedures := by
  cases command with
  | newRegistry id procedures =>
    cases ha
    cases hstays
  | register id name procedure | assign id name procedure | registerAt id name procedure =>
    obtain ⟨_, -, rfl⟩ := Option.map_eq_some_iff.mp ha
    cases hstays
  | registerAll id procedures => exact ⟨id, procedures, rfl⟩
  | _ => cases ha

theorem attempt_grown (h : w.Linked) (ha : w.attempt? command = some a)
    : w.store.Extends a.after :=
  (attempt_store ha).1.trans (a.store.registerAll_registered (attempt_room h ha) a.pairs).grown

/--
How a command ends that registers something.
-/
structure Ends (w : Workspace) (a : Attempt) (reply : Reply) (w' : Workspace) : Prop where
  result : (reply.outcome.result.map fun _ => ()) = a.result
  kept : a.kept = true → w'.store = a.after ∧ w'.registries = a.ids w.registries
  dropped : a.kept = false → w' = w
  endpoints : w'.endpoints = w.endpoints

theorem register_ends (w : Workspace) (registry : Nat) (name procedure : Value)
    {go : Nat → Workspace → Reply × Workspace}
    (hgo : ∀ handle w', (∃ v, (go handle w').1.outcome.result = .ok v) ∧ (go handle w').2 = w')
    : w.Ends { store := w.store, registry, pairs := [.ok (name, procedure)] }
        (w.commit (w.store.register registry name procedure) go).1
        (w.commit (w.store.register registry name procedure) go).2 := by
  unfold commit
  cases hregister : w.store.register registry name procedure with
  | error e =>
    have hall : w.store.registerAll registry [.ok (name, procedure)] = (w.store, .error e) := by
      rw [Store.registerAll, hregister]
    refine ⟨?_, fun _ => ⟨?_, rfl⟩, fun _ => rfl, rfl⟩
    · rw [Attempt.result, hall]
      rfl
    · rw [Attempt.after, hall]
  | ok registered =>
    obtain ⟨handle, store⟩ := registered
    obtain ⟨⟨v, hv⟩, hw'⟩ := hgo handle { w with store := store }
    have hall : w.store.registerAll registry [.ok (name, procedure)] = (store, .ok ()) := by
      rw [Store.registerAll, hregister]
      rfl
    dsimp only
    rw [hw']
    refine ⟨?_, fun _ => ⟨?_, rfl⟩, fun hdropped => ?_, rfl⟩
    · rw [hv, Attempt.result, hall]
      rfl
    · rw [Attempt.after, hall]
    · rw [Attempt.kept, Attempt.result, hall] at hdropped
      cases hdropped

theorem registerAll_ends (w : Workspace) (registry : Nat) (procedures : Value)
    : w.Ends { store := w.store, registry, pairs := Store.listedPairs procedures, stays := true }
        (w.registerAll registry procedures).1 (w.registerAll registry procedures).2 := by
  unfold registerAll
  cases hall : w.store.registerAll registry (Store.listedPairs procedures) with
  | mk after result =>
    cases result <;> refine ⟨?_, fun _ => ⟨?_, rfl⟩, nofun, rfl⟩
    · rw [Attempt.result, hall]
      rfl
    · rw [Attempt.after, hall]
    · rw [Attempt.result, hall]
      rfl
    · rw [Attempt.after, hall]

theorem newRegistry_ends (w : Workspace) (id : String) (procedures : Value)
    : let built := w.commit (w.store.buildRegistry procedures) fun handle w =>
        (.ok .null, { w with registries := Assoc.insert id handle w.registries })
      w.Ends ⟨w.store.addRegistry.2, w.store.addRegistry.1, Store.fieldPairs procedures, false,
        some id⟩ built.1 built.2 := by
  intro built
  have hbuilt : built = w.commit (w.store.buildRegistry procedures) fun handle w =>
      (.ok .null, { w with registries := Assoc.insert id handle w.registries }) := rfl
  unfold commit Store.buildRegistry at hbuilt
  dsimp only at hbuilt
  cases hall : w.store.addRegistry.2.registerAll w.store.addRegistry.1
      (Store.fieldPairs procedures) with
  | mk after result =>
    rw [hall] at hbuilt
    rw [hbuilt]
    cases result with
    | error e =>
      refine ⟨?_, fun hkept => ?_, fun _ => rfl, rfl⟩
      · rw [Attempt.result, hall]
        rfl
      · rw [Attempt.kept, Attempt.result, hall] at hkept
        cases hkept
    | ok _ =>
      refine ⟨?_, fun _ => ⟨?_, rfl⟩, fun hdropped => ?_, rfl⟩
      · rw [Attempt.result, hall]
        rfl
      · rw [Attempt.after, hall]
      · rw [Attempt.kept, Attempt.result, hall] at hdropped
        cases hdropped

theorem execute_attempt (host : InPlaceHost) (ha : w.attempt? command = some a)
    : w.Ends a (w.execute host command).1 (w.execute host command).2 := by
  cases command with
  | newRegistry id procedures =>
    cases ha
    exact newRegistry_ends w id procedures
  | register id name procedure | assign id name procedure =>
    obtain ⟨registry, hid, rfl⟩ := Option.map_eq_some_iff.mp ha
    show w.Ends _ (w.withId w.registries id _).1 (w.withId w.registries id _).2
    rw [withId_of_get? hid]
    exact register_ends w registry name procedure fun _ _ => ⟨⟨_, rfl⟩, rfl⟩
  | registerAll id procedures =>
    obtain ⟨registry, hid, rfl⟩ := Option.map_eq_some_iff.mp ha
    show w.Ends _ (w.withId w.registries id _).1 (w.withId w.registries id _).2
    rw [withId_of_get? hid]
    exact registerAll_ends w registry procedures
  | registerAt id name procedure =>
    obtain ⟨endpoint, hid, rfl⟩ := Option.map_eq_some_iff.mp ha
    show w.Ends _ (w.withId w.endpoints id _).1 (w.withId w.endpoints id _).2
    rw [withId_of_get? hid]
    exact register_ends w endpoint.registry name procedure fun _ _ => ⟨⟨_, rfl⟩, rfl⟩
  | _ => cases ha

theorem Ends.linked {reply : Reply} (hends : w.Ends a reply w') (h : w.Linked)
    (ha : w.attempt? command = some a) : w'.Linked := by
  cases hkept : a.kept with
  | false =>
    rw [hends.dropped hkept]
    exact h
  | true =>
    have hlength := (attempt_grown h ha).registries
    have hroom := (a.store.registerAll_registered (attempt_room h ha) a.pairs).grown.registries
    obtain ⟨hstore, hregistries⟩ := hends.kept hkept
    rw [← Attempt.after, ← hstore] at hroom
    rw [← hstore] at hlength
    refine ⟨?_, ?_⟩
    · intro id registry hid
      rw [hregistries, Attempt.ids] at hid
      split at hid
      · next new _ =>
        by_cases hnew : id = new
        · rw [hnew, Assoc.get?_insert_self] at hid
          cases hid
          exact Nat.lt_of_lt_of_le (attempt_room h ha) hroom
        · rw [Assoc.get?_insert_of_ne hnew] at hid
          exact Nat.lt_of_lt_of_le (h.registries id registry hid) hlength
      · exact Nat.lt_of_lt_of_le (h.registries id registry hid) hlength
    · intro id endpoint hid
      rw [hends.endpoints] at hid
      exact Nat.lt_of_lt_of_le (h.endpoints id endpoint hid) hlength

theorem changes_of_attempt (ha : w.attempt? command = some a) (registry : Nat)
    : w.changes registry command =
        if a.registry = registry ∧ a.kept = true then a.bindings.map .bind else [] := by
  unfold changes
  rw [ha]

theorem removal?_of_attempt (ha : w.attempt? command = some a) : w.removal? command = none := by
  cases command with
  | deleteItem id name | popItem id name => cases ha
  | _ => rfl

theorem Ends.ids {reply : Reply} (hends : w.Ends a reply w') (ha : w.attempt? command = some a)
    : w'.registries = w.idsAfter command reply.outcome.result := by
  cases command with
  | newRegistry id procedures =>
    cases ha
    have hresult := hends.result
    cases hreply : reply.outcome.result with
    | ok v =>
      rw [hreply] at hresult
      apply (hends.kept _).2
      rw [Attempt.kept, ← hresult]
      rfl
    | error e =>
      rw [hreply] at hresult
      rw [hends.dropped]
      · rfl
      · rw [Attempt.kept, ← hresult]
        rfl
  | register id name procedure | assign id name procedure | registerAll id procedures
  | registerAt id name procedure =>
    obtain ⟨_, -, rfl⟩ := Option.map_eq_some_iff.mp ha
    cases hkept : Attempt.kept _ with
    | true => exact (hends.kept hkept).2
    | false =>
      rw [hends.dropped hkept]
      rfl
  | _ => cases ha

theorem Ends.changed {reply : Reply} (hends : w.Ends a reply w') (h : w.Linked)
    (ha : w.attempt? command = some a) : w.Changed command reply w' := by
  have hregistered := a.store.registerAll_registered (attempt_room h ha) a.pairs
  obtain ⟨hextends, hsame⟩ := attempt_store ha
  refine ⟨?_, hends.ids ha, ?_, ?_, ?_, ?_, ?_⟩
  · intro registry
    rw [changes_of_attempt ha]
    cases hkept : a.kept with
    | false => simp [hends.dropped hkept]
    | true =>
      rw [(hends.kept hkept).1, ← hsame]
      by_cases hregistry : a.registry = registry
      · subst hregistry
        rw [if_pos ⟨rfl, rfl⟩, List.foldl_map]
        exact hregistered.changed
      · rw [if_neg fun hand => hregistry hand.1]
        exact hregistered.others registry (Ne.symm hregistry)
  · intro registry binding hbinding
    rw [changes_of_attempt ha] at hbinding
    split at hbinding
    · next hand =>
      obtain ⟨rfl, hkept⟩ := hand
      obtain ⟨binding', hmem, ⟨⟩⟩ := List.mem_map.mp hbinding
      obtain ⟨hname, hbuildable, hstands⟩ := hregistered.stand binding hmem
      rw [hextends.setting] at hbuildable
      rw [(hends.kept hkept).1]
      exact ⟨hname, hbuildable, hstands.mono hextends (Store.Extends.refl _)⟩
    · cases hbinding
  · intro e he hcommand
    apply hends.dropped
    have hresult := hends.result
    rw [he] at hresult
    cases hstays : a.stays with
    | true =>
      obtain ⟨id, procedures, rfl⟩ := attempt_stays ha hstays
      exact absurd rfl (hcommand id procedures)
    | false =>
      rw [Attempt.kept, hstays, ← hresult]
      rfl
  · intro a' ha'
    rw [ha] at ha'
    cases ha'
    rw [hends.result]
    exact hregistered.stops
  · intro a' ha'
    rw [ha] at ha'
    cases ha'
    rw [← hextends.setting, ← hregistered.result_eq_ok_iff, ← Attempt.result, ← hends.result]
    cases reply.outcome.result with
    | ok v => simp [Except.map]
    | error e => simp [Except.map]
  · intro registry name hr
    rw [removal?_of_attempt ha] at hr
    cases hr

end Attempt

section Removal

/--
How a command ends that gives a name up.
-/
def Removes (w : Workspace) (registry : Nat) (name : Value) (reply : Reply) (w' : Workspace)
    : Prop :=
  (∃ label handle v, name = .str label ∧
      (w.store.registry registry).find? (.str label) = some handle ∧ reply.outcome.result = .ok v ∧
      w' = { w with store :=
        w.store.putRegistry registry ((w.store.registry registry).applied (.drop label)) }) ∨
    (w.store.registry registry).find? name = none ∧
      reply.outcome.result = .error (.notFound name (.unknownName name)) ∧ w' = w

theorem unregister_removes (w : Workspace) (registry : Nat) (name : Value)
    {go : Nat → Workspace → Reply × Workspace}
    (hgo : ∀ handle w', (∃ v, (go handle w').1.outcome.result = .ok v) ∧ (go handle w').2 = w')
    : w.Removes registry name (w.commit (w.store.unregister registry name) go).1
        (w.commit (w.store.unregister registry name) go).2 := by
  unfold Removes commit Store.unregister
  cases name with
  | str label =>
    cases hfind : (w.store.registry registry).find? (.str label) with
    | none => exact Or.inr ⟨rfl, rfl, rfl⟩
    | some handle =>
      let store := w.store.putRegistry registry ((w.store.registry registry).applied (.drop label))
      obtain ⟨⟨v, hv⟩, hw'⟩ := hgo handle { w with store := store }
      exact Or.inl ⟨label, handle, v, rfl, hfind, hv, hw'⟩
  | _ => exact Or.inr ⟨rfl, rfl, rfl⟩

variable {target : Nat} {name : Value}

theorem execute_removal (host : InPlaceHost) (hr : w.removal? command = some (target, name))
    : w.Removes target name (w.execute host command).1 (w.execute host command).2 := by
  cases command with
  | deleteItem id name | popItem id name =>
    obtain ⟨registry, hid, ⟨⟩⟩ := Option.map_eq_some_iff.mp hr
    show w.Removes _ _ (w.withId w.registries id _).1 (w.withId w.registries id _).2
    rw [withId_of_get? hid]
    exact unregister_removes w target name fun _ _ => ⟨⟨_, rfl⟩, rfl⟩
  | _ => cases hr

theorem removal_room (h : w.Linked) (hr : w.removal? command = some (target, name))
    : target < w.store.registries.length := by
  cases command with
  | deleteItem id name | popItem id name =>
    obtain ⟨registry, hid, ⟨⟩⟩ := Option.map_eq_some_iff.mp hr
    exact h.registries id _ hid
  | _ => cases hr

theorem attempt?_of_removal (hr : w.removal? command = some (target, name))
    : w.attempt? command = none := by
  cases command with
  | deleteItem id name | popItem id name => rfl
  | _ => cases hr

theorem idsAfter_of_attempt? (ha : w.attempt? command = none) (result : Except Error Value)
    : w.idsAfter command result = w.registries := by
  cases command with
  | newRegistry id procedures => cases ha
  | _ => rfl

theorem Removes.linked {reply : Reply} (hremoves : w.Removes target name reply w') (h : w.Linked)
    : w'.Linked := by
  rcases hremoves with ⟨label, handle, v, -, -, -, rfl⟩ | ⟨-, -, rfl⟩
  · exact h.mono rfl rfl (Store.extends_putRegistry _ _ _).registries
  · exact h

theorem changes_of_removal {label : String} (hr : w.removal? command = some (target, .str label))
    (registry : Nat)
    : w.changes registry command =
        if target = registry ∧ label ∈ (w.store.registry registry).names then [.drop label]
        else [] := by
  unfold changes
  rw [attempt?_of_removal hr, hr]

/--
Nothing is given up where a name is not bound.
-/
theorem changes_of_unbound (hr : w.removal? command = some (target, name))
    (hfind : (w.store.registry target).find? name = none) (registry : Nat)
    : w.changes registry command = [] := by
  cases name with
  | str label =>
    rw [changes_of_removal hr, if_neg]
    rintro ⟨rfl, hmem⟩
    obtain ⟨handle, hhandle⟩ := Registry.mem_names_iff.mp hmem
    rw [hfind] at hhandle
    cases hhandle
  | _ =>
    unfold changes
    rw [attempt?_of_removal hr, hr]

theorem Removes.changed {reply : Reply} (hremoves : w.Removes target name reply w') (h : w.Linked)
    (hr : w.removal? command = some (target, name)) : w.Changed command reply w' := by
  have hattempt (a : Attempt) (ha : w.attempt? command = some a) : False := by
    rw [attempt?_of_removal hr] at ha
    cases ha
  have hids : w.registries = w.idsAfter command reply.outcome.result :=
    (idsAfter_of_attempt? (attempt?_of_removal hr) _).symm
  rcases hremoves with ⟨label, handle, v, rfl, hfind, hreply, rfl⟩ | ⟨hfind, hreply, rfl⟩
  · have hmem : label ∈ (w.store.registry target).names :=
      Registry.mem_names_iff.mpr ⟨handle, hfind⟩
    refine ⟨?_, hids, ?_, ?_, fun a ha => (hattempt a ha).elim,
      fun a ha => (hattempt a ha).elim, ?_⟩
    · intro registry
      rw [changes_of_removal hr]
      by_cases htarget : target = registry
      · subst htarget
        rw [if_pos ⟨rfl, hmem⟩]
        exact Store.registry_putRegistry_self (removal_room h hr) _
      · rw [if_neg fun hand => htarget hand.1]
        exact Store.registry_putRegistry_of_ne (Ne.symm htarget) _
    · intro registry binding hbinding
      rw [changes_of_removal hr] at hbinding
      split at hbinding
      · rw [List.mem_singleton] at hbinding
        cases hbinding
      · cases hbinding
    · intro e he
      rw [hreply] at he
      cases he
    · intro registry name hr'
      rw [hr] at hr'
      cases hr'
      exact Or.inl ⟨label, v, rfl, by rw [changes_of_removal hr, if_pos ⟨rfl, hmem⟩], hreply⟩
  · have hnone := changes_of_unbound hr hfind
    refine ⟨?_, hids, ?_, fun _ _ _ => rfl, fun a ha => (hattempt a ha).elim,
      fun a ha => (hattempt a ha).elim, ?_⟩
    · intro registry
      rw [hnone]
      rfl
    · intro registry binding hbinding
      rw [hnone] at hbinding
      cases hbinding
    · intro registry name' hr'
      rw [hr] at hr'
      cases hr'
      exact Or.inr ⟨hfind, hnone target, hreply⟩

end Removal

end Workspace

theorem Store.registry_congr {before after : Store} (h : after.registries = before.registries)
    (handle : Nat) : after.registry handle = before.registry handle := by
  unfold Store.registry
  rw [h]

theorem Store.registries_putSet (store : Store) (handle : Nat) (set : OperationSet)
    : (store.putSet handle set).registries = store.registries := by
  unfold putSet
  split
  · rfl
  · rfl

namespace Endpoint

variable {store store' : Store} {registry : Nat} {sets : Assoc String Nat}

theorem buildMediums_registries {fields : List (Key × Value)} {mediums : List String}
    (h : buildMediums store registry fields mediums = .ok (sets, store'))
    : store'.registries = store.registries := by
  induction mediums generalizing store sets with
  | nil =>
    cases h
    rfl
  | cons medium rest ih =>
    unfold buildMediums at h
    obtain ⟨⟨handle, mid⟩, hbuilt, h⟩ := except_bind_eq_ok_iff.mp h
    obtain ⟨⟨sets, after⟩, hrest, h⟩ := except_bind_eq_ok_iff.mp h
    cases h
    exact (ih hrest).trans (Store.buildSet_spec hbuilt).2.1

theorem buildPhase_registries {phase : Phase} {operations : Value}
    (h : buildPhase store registry phase operations = .ok (sets, store'))
    : store'.registries = store.registries := by
  obtain ⟨fields, -, h⟩ := except_bind_eq_ok_iff.mp h
  exact buildMediums_registries h

theorem build_spec {description request response error : Value} {endpoint : Endpoint}
    (h : build store registry description request response error = .ok (endpoint, store'))
    : store'.registries = store.registries ∧ endpoint.registry = registry := by
  unfold build at h
  obtain ⟨⟨request, store₁⟩, hrequest, h⟩ := except_bind_eq_ok_iff.mp h
  obtain ⟨⟨response, store₂⟩, hresponse, h⟩ := except_bind_eq_ok_iff.mp h
  obtain ⟨⟨error, store₃⟩, herror, h⟩ := except_bind_eq_ok_iff.mp h
  cases h
  refine ⟨?_, rfl⟩
  rw [buildPhase_registries herror, buildPhase_registries hresponse,
    buildPhase_registries hrequest]

end Endpoint

namespace Workspace

variable {w w' : Workspace} {command : Command}

section Other

/--
A command leaves all registries as they are, and everything if it fails.
-/
structure Spares (w : Workspace) (reply : Reply) (w' : Workspace) : Prop where
  same : ∀ registry, w'.store.registry registry = w.store.registry registry
  ids : w'.registries = w.registries
  atomic : ∀ e, reply.outcome.result = .error e → w' = w
  linked : w.Linked → w'.Linked

theorem spares_of_eq {reply : Reply} (h : w' = w) : w.Spares reply w' := by
  rw [h]
  exact ⟨fun _ => rfl, rfl, fun _ _ => rfl, id⟩

theorem spares_of_ok {v : Value} (h : w'.store.registries = w.store.registries)
    (hregistries : w'.registries = w.registries) (hendpoints : w'.endpoints = w.endpoints)
    : w.Spares (.ok v) w' where
  same := Store.registry_congr h
  ids := hregistries
  atomic := nofun
  linked hw := hw.mono hregistries hendpoints (Nat.le_of_eq (congrArg List.length h).symm)

theorem withId_spares {α : Type} {table : Assoc String α} {id : String} {go : α → Reply × Workspace}
    (hgo : ∀ a, Assoc.get? id table = some a → w.Spares (go a).1 (go a).2)
    : w.Spares (w.withId table id go).1 (w.withId table id go).2 := by
  unfold withId
  split
  · next a ha => exact hgo a ha
  · exact spares_of_eq rfl

theorem withSet_spares {id : String} {go : Nat → OperationSet → Reply × Workspace}
    (hgo : ∀ handle set, w.Spares (go handle set).1 (go handle set).2)
    : w.Spares (w.withSet id go).1 (w.withSet id go).2 := by
  apply withId_spares
  intro handle _
  split
  · exact hgo _ _
  · exact spares_of_eq rfl

theorem withProcedure_spares (registry : Nat) (name : Value) (e : Error) (go : Nat → Reply)
    : w.Spares (w.withProcedure registry name e go).1 (w.withProcedure registry name e go).2 := by
  unfold withProcedure
  split
  · exact spares_of_eq rfl
  · exact spares_of_eq rfl

theorem commit_spares {α : Type} {change : Except Error (α × Store)}
    {go : α → Workspace → Reply × Workspace}
    (hgo : ∀ a store, change = .ok (a, store) →
      w.Spares (go a { w with store := store }).1 (go a { w with store := store }).2)
    : w.Spares (w.commit change go).1 (w.commit change go).2 := by
  unfold commit
  split
  · next a store => exact hgo a store rfl
  · exact spares_of_eq rfl

theorem chooseRegistry_spec {id : Option String} {registry : Nat} {store : Store}
    (h : w.chooseRegistry id = .ok (registry, store))
    : (∀ other, store.registry other = w.store.registry other) ∧
        w.store.registries.length ≤ store.registries.length ∧
        (w.Linked → registry < store.registries.length) := by
  unfold chooseRegistry at h
  split at h
  · cases h
    refine ⟨w.store.registry_addRegistry, ?_, fun _ => ?_⟩
    · simp
    · simp
  · next id =>
    split at h
    · next handle hid =>
      cases h
      exact ⟨fun _ => rfl, Nat.le_refl _, fun hlinked => hlinked.registries id _ hid⟩
    · cases h

theorem newSet_spares (id : String) (operations : Value) (registry : Option String)
    (copyInput : Bool) (maxDepth : Value)
    : w.Spares (w.newSet id operations registry copyInput maxDepth).1
        (w.newSet id operations registry copyInput maxDepth).2 := by
  apply commit_spares
  intro handle store h
  obtain ⟨⟨chosen, mid⟩, hchosen, hbuilt⟩ := except_bind_eq_ok_iff.mp h
  obtain ⟨hsame, hlength, -⟩ := chooseRegistry_spec hchosen
  have hregistries := (Store.buildSet_spec hbuilt).2.1
  refine ⟨?_, rfl, nofun, fun hw => hw.mono rfl rfl ?_⟩
  · intro registry
    exact (Store.registry_congr hregistries registry).trans (hsame registry)
  · show _ ≤ store.registries.length
    rw [hregistries]
    exact hlength

theorem newEndpoint_spares (id : String) (request response error : Value)
    (registry : Option String) (description : Value)
    : w.Spares (w.newEndpoint id request response error registry description).1
        (w.newEndpoint id request response error registry description).2 := by
  apply commit_spares
  intro endpoint store h
  obtain ⟨⟨chosen, mid⟩, hchosen, hbuilt⟩ := except_bind_eq_ok_iff.mp h
  obtain ⟨hsame, hlength, hroom⟩ := chooseRegistry_spec hchosen
  obtain ⟨hregistries, hregistry⟩ := Endpoint.build_spec hbuilt
  rw [← hregistries] at hlength hroom
  refine ⟨?_, rfl, nofun, fun hw => ?_⟩
  · intro registry
    exact (Store.registry_congr hregistries registry).trans (hsame registry)
  · have hstore : Linked { w with store := store } := hw.mono rfl rfl hlength
    refine ⟨hstore.registries, ?_⟩
    intro other endpoint' hid
    have hid : Assoc.get? other (Assoc.insert id endpoint w.endpoints) = some endpoint' := hid
    by_cases hother : other = id
    · rw [hother, Assoc.get?_insert_self] at hid
      cases hid
      rw [hregistry]
      exact hroom hw
    · rw [Assoc.get?_insert_of_ne hother] at hid
      exact hstore.endpoints other endpoint' hid

theorem execute_spares (host : InPlaceHost) (ha : w.attempt? command = none)
    (hr : w.removal? command = none)
    : w.Spares (w.execute host command).1 (w.execute host command).2 := by
  cases command with
  | setDepthSetting setting => exact spares_of_ok rfl rfl rfl
  | resolveDepth preference =>
    unfold execute
    dsimp only
    split
    · exact spares_of_eq rfl
    · exact spares_of_eq rfl
  | newSet id operations registry copyInput maxDepth => apply newSet_spares
  | newEndpoint id request response error registry description => apply newEndpoint_spares
  | process id v | getRecord id index | indexOfTag id tag | describeSet id =>
    exact withSet_spares fun _ _ => spares_of_eq rfl
  | addRecords id operations position =>
    apply withSet_spares
    intro handle set
    split
    · exact spares_of_ok (Store.registries_putSet _ _ _) rfl rfl
    · exact spares_of_eq rfl
  | removeRecord id key =>
    apply withSet_spares
    intro handle set
    split
    · exact spares_of_ok (Store.registries_putSet _ _ _) rfl rfl
    · exact spares_of_eq rfl
  | newRegistry id procedures => cases ha
  | register id name procedure | assign id name procedure | registerAll id procedures
  | registerAt id name procedure =>
    apply withId_spares
    intro a hid
    simp [attempt?, hid] at ha
  | deleteItem id name | popItem id name =>
    apply withId_spares
    intro registry hid
    simp [removal?, hid] at hr
  | getProcedure id name | getItem id name | callProcedure id name v =>
    exact withId_spares fun _ _ => withProcedure_spares _ _ _ _
  | hasItem id name | describeRegistry id | getMedium id phase medium =>
    exact withId_spares fun _ _ => spares_of_eq rfl
  | processMedium id phase medium v =>
    apply withId_spares
    intro endpoint _
    dsimp only
    split
    · exact spares_of_eq rfl
    · exact spares_of_eq rfl

theorem Spares.changed {reply : Reply} (hspares : w.Spares reply w')
    (ha : w.attempt? command = none) (hr : w.removal? command = none)
    : w.Changed command reply w' := by
  have hnone (registry : Nat) : w.changes registry command = [] := by
    unfold changes
    rw [ha, hr]
  have hattempt (a : Attempt) (ha' : w.attempt? command = some a) : False := by
    rw [ha] at ha'
    cases ha'
  have hids : w'.registries = w.idsAfter command reply.outcome.result :=
    hspares.ids.trans (idsAfter_of_attempt? ha _).symm
  refine ⟨?_, hids, ?_, fun e he _ => hspares.atomic e he, fun a ha => (hattempt a ha).elim,
    fun a ha => (hattempt a ha).elim, ?_⟩
  · intro registry
    rw [hnone]
    exact hspares.same registry
  · intro registry binding hbinding
    rw [hnone] at hbinding
    cases hbinding
  · intro registry name hr'
    rw [hr] at hr'
    cases hr'

end Other

theorem execute_registries (host : InPlaceHost) (h : w.Linked) (command : Command)
    : w.Changed command (w.execute host command).1 (w.execute host command).2 ∧
        (w.execute host command).2.Linked := by
  cases ha : w.attempt? command with
  | some a =>
    have hends := execute_attempt host ha
    exact ⟨hends.changed h ha, hends.linked h ha⟩
  | none =>
    cases hr : w.removal? command with
    | some removal =>
      have hremoves := execute_removal host hr
      exact ⟨hremoves.changed h hr, hremoves.linked h⟩
    | none =>
      have hspares := execute_spares host ha hr
      exact ⟨hspares.changed ha hr, hspares.linked h⟩

theorem run_follows (host : InPlaceHost) (h : w.Linked) {registry : Nat} {past : List Change}
    (hfollows : (w.store.registry registry).Follows past) (commands : List Command)
    : ((w.run host commands).2.store.registry registry).Follows
          (past ++ w.history host registry commands) ∧
        (w.run host commands).2.Linked := by
  induction commands generalizing w past with
  | nil =>
    rw [history, List.append_nil]
    exact ⟨hfollows, h⟩
  | cons command commands ih =>
    obtain ⟨hchanged, hlinked⟩ := execute_registries host h command
    have hnext := hfollows.append fun binding hmem => (hchanged.stand registry binding hmem).1
    rw [← hchanged.made] at hnext
    rw [history, ← List.append_assoc]
    exact ih hlinked hnext

theorem run_linked (host : InPlaceHost) (commands : List Command) : (run host {} commands).2.Linked :=
  (@run_follows _ host empty_linked 0 [] Registry.follows_nil commands).2

/--
After any session, whatever has failed in it, every registry holds what its history tells: distinct
names that are not empty, each bound to the set of its last registration, in the order in which they
have come in. A further command adds to the histories the registrations and removals in which it
succeeds. It succeeds in registering if and only if each name is a text that is not empty and each
procedure a set, operations that compile or a function, which take a valid bound on nesting. Names
are bound to the given set or to a new one for the registry, built of the records or with the
function as its only step. A command that fails leaves everything as it was, unless it registers one
by one: then what has been registered before stays.
-/
theorem run_registries (host : InPlaceHost) (commands : List Command)
    : let w := (run host {} commands).2
      (∀ registry, (w.store.registry registry).Follows (history host {} registry commands)) ∧
        ∀ command, w.Changed command (w.execute host command).1 (w.execute host command).2 := by
  intro w
  refine ⟨?_, ?_⟩
  · intro registry
    exact (@run_follows _ host empty_linked registry [] Registry.follows_nil commands).1
  · intro command
    exact (execute_registries host (run_linked host commands) command).1

theorem run_registries_mixed
    : let commands : List Command :=
        [.newRegistry "r" .null, .register "r" (.str "a") (.list []),
          .assign "r" (.str "b") (.function "inc"),
          .register "r" (.str "a") (.object [(.str "$wrap", .str "w")]),
          .register "r" (.str "") (.list []), .deleteItem "r" (.str "a"),
          .popItem "r" (.str "a"), .register "r" (.str "a") (.operationSet 0 [])]
      let w := (run .standard {} commands).2
      let register : Command := .register "r" (.str "d") (.function "id")
      let update : Command := .registerAll "r" (.object [(.str "c", .list []), (.str "b", .int 1),
        (.str "d", .list [])])
      (w.store.registry 0).procedures = [("b", 1), ("a", 0)] ∧
        (∃ procedure, Change.LastBound (history .standard {} 0 commands) ⟨"a", procedure, 0⟩) ∧
        (∃ v, (w.execute .standard register).1.outcome.result = .ok v) ∧
        (¬∃ v, (w.execute .standard update).1.outcome.result = .ok v) ∧
        ((w.execute .standard update).2.store.registry 0).names = ["b", "a", "c"] := by
  intro commands w register update
  obtain ⟨hfollows, hchanged⟩ := run_registries .standard commands
  have hprocedures : (w.store.registry 0).procedures = [("b", 1), ("a", 0)] := by decide +kernel
  have hid : Assoc.get? "r" w.registries = some 0 := by decide +kernel
  have hsetting : w.store.depthSetting = none := by decide +kernel
  have hregister : w.attempt? register =
      some { store := w.store, registry := 0, pairs := [.ok (.str "d", .function "id")] } := by
    rw [attempt?, hid]
    rfl
  have hupdate : ∃ a, w.attempt? update = some a ∧ .ok (.str "b", .int 1) ∈ a.pairs := by
    rw [attempt?, hid]
    exact ⟨_, rfl, by decide +kernel⟩
  obtain ⟨a, hupdate, hpair⟩ := hupdate
  refine ⟨hprocedures, ((hfollows 0).bound "a" 0).mp (by decide +kernel), ?_, ?_, ?_⟩
  · rw [(hchanged register).complete _ hregister, List.forall_mem_singleton]
    refine ⟨_, _, rfl, ⟨_, rfl, by decide⟩, ?_⟩
    rw [hsetting]
    exact ⟨64, DepthBound.resolve_default⟩
  · rw [(hchanged update).complete _ hupdate]
    intro hall
    obtain ⟨_, _, ⟨⟩, -, hbuildable⟩ := hall _ hpair
    exact hbuildable
  · rw [(hchanged update).made 0, Registry.names]
    decide +kernel

end Workspace
end Reshape
