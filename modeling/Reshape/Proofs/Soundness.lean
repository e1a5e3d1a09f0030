import Reshape.Proofs.Position
import Reshape.Workspace

/-!
This module contains what holds of every store that commands lead to: the records of its sets are
read back from their values, bounds on nesting are positive, and registries know each name once. A
session is a run of commands, whether they fail or not; the main statement, `run_sound`, says that
sessions keep stores sound.
-/

namespace Reshape

structure OperationSet.Sound (set : OperationSet) : Prop where
  distinct : ∀ record ∈ set.records, record.Distinct
  bound : 1 ≤ set.maxDepth

structure Registry.Sound (registry : Registry) : Prop where
  nodup : registry.names.Nodup
  nonempty : "" ∉ registry.names

structure Store.Sound (store : Store) : Prop where
  sets : ∀ set ∈ store.sets, set.Sound
  registries : ∀ registry ∈ store.registries, registry.Sound

/--
A change of a store only ever yields sound stores.
-/
def Keeps {α : Type} (x : Except Error (α × Store)) : Prop :=
  ∀ p, x = .ok p → p.2.Sound

section Keeps

variable {α β : Type}

theorem keeps_ok {p : α × Store} (h : p.2.Sound) : Keeps (.ok p) := by
  rintro _ ⟨⟩
  exact h

theorem keeps_error (e : Error) : Keeps (.error e : Except Error (α × Store)) := by
  rintro _ ⟨⟩

theorem Keeps.bind {x : Except Error (α × Store)} {f : α × Store → Except Error (β × Store)}
    (hx : Keeps x) (hf : ∀ p, p.2.Sound → Keeps (f p)) : Keeps (x >>= f) := by
  cases x with
  | error e => apply keeps_error
  | ok p => exact hf p (hx p rfl)

theorem keeps_bind {γ : Type} {x : Except Error γ} {f : γ → Except Error (β × Store)}
    (hf : ∀ c, x = .ok c → Keeps (f c)) : Keeps (x >>= f) := by
  cases x with
  | error e => apply keeps_error
  | ok c => exact hf c rfl

end Keeps

namespace OperationSet

variable {set : OperationSet}

theorem add_sound (h : set.Sound) {operations : Value} {position : Position} {i : Nat}
    {set' : OperationSet} (hadd : set.add operations position = .ok (i, set')) : set'.Sound := by
  obtain ⟨added, hadded, -, rfl⟩ := add_eq_ok_iff.mp hadd
  refine ⟨?_, h.bound⟩
  intro record hrecord
  rw [List.mem_append, List.mem_append] at hrecord
  rcases hrecord with (hrecord | hrecord) | hrecord
  · exact h.distinct record (List.mem_of_mem_take hrecord)
  · exact distinct_of_declaredRecords hadded record hrecord
  · exact h.distinct record (List.mem_of_mem_drop hrecord)

theorem remove_sound (h : set.Sound) {key : Value} {removed : Option Record} {set' : OperationSet}
    (hremove : set.remove key = .ok (removed, set')) : set'.Sound := by
  rcases set.remove_cases key with ⟨i, record, -, -, hfound⟩ | hnothing | ⟨cause, hrefused⟩
  · rw [hfound] at hremove
    cases hremove
    refine ⟨?_, h.bound⟩
    intro record hrecord
    exact h.distinct record (List.mem_of_mem_eraseIdx hrecord)
  · rw [hnothing] at hremove
    cases hremove
    exact h
  · rw [hrefused] at hremove
    cases hremove

end OperationSet

theorem Registry.empty_sound : Registry.Sound {} where
  nodup := List.nodup_nil
  nonempty := List.not_mem_nil

theorem Registry.insert_sound {registry : Registry} (h : registry.Sound) {name : String}
    (hname : name ≠ "") (handle : Nat)
    : Registry.Sound ⟨Assoc.insert name handle registry.procedures⟩ := by
  have hkeys : Registry.names ⟨Assoc.insert name handle registry.procedures⟩ =
      if name ∈ registry.names then registry.names else registry.names ++ [name] :=
    Assoc.keys_insert name handle registry.procedures
  constructor
  · rw [hkeys]
    split
    · exact h.nodup
    · next hmem =>
      rw [List.nodup_append]
      refine ⟨h.nodup, by simp, ?_⟩
      intro other hother name' hname' heq
      rw [List.mem_singleton] at hname'
      apply hmem
      rw [← hname', ← heq]
      exact hother
  · rw [hkeys]
    split
    · exact h.nonempty
    · rw [List.mem_append, List.mem_singleton, not_or]
      exact ⟨h.nonempty, fun heq => hname heq.symm⟩

theorem Registry.erase_sound {registry : Registry} (h : registry.Sound) (name : String)
    : Registry.Sound ⟨Assoc.erase name registry.procedures⟩ := by
  have hkeys : (Registry.names ⟨Assoc.erase name registry.procedures⟩).Sublist registry.names := by
    unfold Registry.names
    rw [Assoc.keys_erase]
    apply List.filter_sublist
  constructor
  · exact hkeys.nodup h.nodup
  · intro hmem
    exact h.nonempty (hkeys.subset hmem)

theorem DepthBound.one_le_of_resolve {setting : Option String} {preference : Value} {n : Nat}
    (h : DepthBound.resolve setting preference = .ok n) : 1 ≤ n := by
  unfold DepthBound.resolve at h
  dsimp only at h
  split at h
  · split at h
    · cases h
      omega
    · cases h
  · cases h

theorem DepthBound.resolve_default : DepthBound.resolve none .null = .ok 64 := by
  have hrequested : DepthBound.requested? (DepthBound.request none .null) = some 64 := by
    decide +kernel
  unfold DepthBound.resolve
  dsimp only
  rw [hrequested]
  rfl

namespace Store

variable {store : Store}

theorem empty_sound (start : Nat) : Sound { start := start } where
  sets := by simp
  registries := by simp

theorem held?_sound (h : store.Sound) {handle : Nat} {set : OperationSet}
    (hset : store.held? handle = some set) : set.Sound := by
  unfold held? at hset
  split at hset
  · apply h.sets
    exact List.mem_of_getElem? hset
  · cases hset

theorem set?_sound (h : store.Sound) {handle : Nat} {set : OperationSet}
    (hset : store.set? handle = some set) : set.Sound := by
  unfold set? at hset
  rw [Option.map_eq_some_iff] at hset
  obtain ⟨held, hheld, rfl⟩ := hset
  have hsound := held?_sound h hheld
  refine ⟨?_, hsound.bound⟩
  intro record hrecord
  rw [List.mem_map] at hrecord
  obtain ⟨record', hrecord', rfl⟩ := hrecord
  apply Record.distinct_mapPayloads
  exact hsound.distinct record' hrecord'

theorem registry_sound (h : store.Sound) (handle : Nat) : (store.registry handle).Sound := by
  unfold registry
  cases hregistry : store.registries[handle]? with
  | none => exact Registry.empty_sound
  | some registry => exact h.registries registry (List.mem_of_getElem? hregistry)

theorem addSet_sound (h : store.Sound) {set : OperationSet} (hset : set.Sound)
    : (store.addSet set).2.Sound where
  sets := by
    intro other hother
    rcases List.mem_append.mp hother with hother | hother
    · exact h.sets other hother
    · rw [List.mem_singleton] at hother
      rw [hother]
      exact hset
  registries := h.registries

theorem putSet_sound (h : store.Sound) (handle : Nat) {set : OperationSet} (hset : set.Sound)
    : (store.putSet handle set).Sound := by
  unfold putSet
  split
  · refine ⟨?_, h.registries⟩
    intro other hother
    rcases List.mem_or_eq_of_mem_set hother with hother | rfl
    · exact h.sets other hother
    · exact hset
  · exact h

theorem addRegistry_sound (h : store.Sound) : store.addRegistry.2.Sound where
  sets := h.sets
  registries := by
    intro registry hregistry
    rcases List.mem_append.mp hregistry with hregistry | hregistry
    · exact h.registries registry hregistry
    · rw [List.mem_singleton] at hregistry
      rw [hregistry]
      exact Registry.empty_sound

theorem putRegistry_sound (h : store.Sound) (handle : Nat) {registry : Registry}
    (hregistry : registry.Sound) : (store.putRegistry handle registry).Sound where
  sets := h.sets
  registries := by
    intro other hother
    rcases List.mem_or_eq_of_mem_set hother with hother | rfl
    · exact h.registries other hother
    · exact hregistry

theorem buildSet_keeps (h : store.Sound) (operations : Value) (registry : Nat) (copyInput : Bool)
    (maxDepth : Value) : Keeps (store.buildSet operations registry copyInput maxDepth) := by
  unfold buildSet
  apply keeps_bind
  intro records hrecords
  apply keeps_bind
  intro bound hbound
  apply keeps_ok
  apply addSet_sound h
  rw [except_mapError_eq_ok_iff] at hrecords
  exact ⟨distinct_of_declaredRecords hrecords, DepthBound.one_le_of_resolve hbound⟩

theorem procedureSet_keeps (h : store.Sound) (registry : Nat) (name : String) (procedure : Value)
    : Keeps (store.procedureSet registry name procedure) := by
  unfold procedureSet
  split
  · exact keeps_ok h
  · apply buildSet_keeps h
  · apply buildSet_keeps h
  · apply buildSet_keeps h
  · apply buildSet_keeps h
  · apply keeps_error

theorem register_keeps (h : store.Sound) (registry : Nat) (name procedure : Value)
    : Keeps (store.register registry name procedure) := by
  unfold register
  split
  · split
    · apply keeps_error
    · next hlabel =>
      apply (procedureSet_keeps h _ _ _).bind
      intro p hp
      apply keeps_ok
      apply putRegistry_sound hp
      apply Registry.insert_sound _ hlabel
      apply registry_sound hp
  · apply keeps_error

theorem registerAll_sound (h : store.Sound) (registry : Nat)
    (procedures : List (Except Error (Value × Value)))
    : (store.registerAll registry procedures).1.Sound := by
  induction procedures generalizing store with
  | nil => exact h
  | cons item procedures ih =>
    cases item with
    | error e => exact h
    | ok pair =>
      obtain ⟨name, procedure⟩ := pair
      unfold registerAll
      have hkeeps := register_keeps h registry name procedure
      split
      · next handle store' hregister => exact ih (hkeeps _ hregister)
      · exact h

theorem buildRegistry_keeps (h : store.Sound) (procedures : Value)
    : Keeps (store.buildRegistry procedures) := by
  unfold buildRegistry
  dsimp only
  have hall := registerAll_sound (addRegistry_sound h) store.addRegistry.1 (fieldPairs procedures)
  split
  · next store' hregister =>
    apply keeps_ok
    rw [hregister] at hall
    exact hall
  · apply keeps_error

theorem unregister_keeps (h : store.Sound) (registry : Nat) (name : Value)
    : Keeps (store.unregister registry name) := by
  unfold unregister
  split
  · apply keeps_ok
    apply putRegistry_sound h
    apply Registry.erase_sound
    apply registry_sound h
  · apply keeps_error

end Store

namespace Endpoint

theorem buildMediums_keeps {store : Store} (h : store.Sound) (registry : Nat)
    (fields : List (Key × Value)) (mediums : List String)
    : Keeps (buildMediums store registry fields mediums) := by
  induction mediums generalizing store with
  | nil => exact keeps_ok h
  | cons medium rest ih =>
    unfold buildMediums
    apply (Store.buildSet_keeps h _ _ _ _).bind
    intro p hp
    apply (ih hp).bind
    intro q hq
    exact keeps_ok hq

theorem buildPhase_keeps {store : Store} (h : store.Sound) (registry : Nat) (phase : Phase)
    (operations : Value) : Keeps (buildPhase store registry phase operations) := by
  unfold buildPhase
  apply keeps_bind
  intro fields _
  apply buildMediums_keeps h

theorem build_keeps {store : Store} (h : store.Sound) (registry : Nat)
    (description request response error : Value)
    : Keeps (build store registry description request response error) := by
  unfold build
  apply (buildPhase_keeps h _ _ _).bind
  intro p hp
  apply (buildPhase_keeps hp _ _ _).bind
  intro q hq
  apply (buildPhase_keeps hq _ _ _).bind
  intro r hr
  exact keeps_ok hr

end Endpoint

namespace Workspace

/--
Executes commands one after the other and tells what each of them answers.
-/
def run (host : InPlaceHost) (w : Workspace) : List Command → List Reply × Workspace
  | [] => ([], w)
  | command :: commands =>
    let (reply, w) := w.execute host command
    let (replies, w) := run host w commands
    (reply :: replies, w)

variable {w : Workspace}

theorem withId_sound (h : w.store.Sound) {α : Type} (table : Assoc String α) (id : String)
    {go : α → Reply × Workspace} (hgo : ∀ a, (go a).2.store.Sound)
    : (w.withId table id go).2.store.Sound := by
  unfold withId
  split
  · apply hgo
  · exact h

theorem withSet_sound (h : w.store.Sound) (id : String)
    {go : Nat → OperationSet → Reply × Workspace}
    (hgo : ∀ handle set, w.store.set? handle = some set → (go handle set).2.store.Sound)
    : (w.withSet id go).2.store.Sound := by
  apply withId_sound h
  intro handle
  split
  · next set hset => exact hgo handle set hset
  · exact h

theorem commit_sound (h : w.store.Sound) {α : Type} {change : Except Error (α × Store)}
    (hchange : Keeps change) {go : α → Workspace → Reply × Workspace}
    (hgo : ∀ a (w' : Workspace), w'.store.Sound → (go a w').2.store.Sound)
    : (w.commit change go).2.store.Sound := by
  unfold commit
  split
  · next a store => exact hgo a _ (hchange (a, store) rfl)
  · exact h

theorem withProcedure_sound (h : w.store.Sound) (registry : Nat) (name : Value) (e : Error)
    (go : Nat → Reply) : (w.withProcedure registry name e go).2.store.Sound := by
  unfold withProcedure
  split
  · exact h
  · exact h

theorem chooseRegistry_keeps (h : w.store.Sound) (id : Option String)
    : Keeps (w.chooseRegistry id) := by
  unfold chooseRegistry
  split
  · apply keeps_ok
    apply Store.addRegistry_sound h
  · split
    · exact keeps_ok h
    · apply keeps_error

theorem newSet_sound (h : w.store.Sound) (id : String) (operations : Value)
    (registry : Option String) (copyInput : Bool) (maxDepth : Value)
    : (w.newSet id operations registry copyInput maxDepth).2.store.Sound := by
  unfold newSet
  apply commit_sound h
  · apply (chooseRegistry_keeps h registry).bind
    intro p hp
    apply Store.buildSet_keeps hp
  · intro handle w' hw'
    exact hw'

theorem addRecords_sound (h : w.store.Sound) (id : String) (operations : Value)
    (position : Position) : (w.addRecords id operations position).2.store.Sound := by
  unfold addRecords
  apply withSet_sound h
  intro handle set hset
  split
  · next hadd =>
    apply Store.putSet_sound h
    exact OperationSet.add_sound (Store.set?_sound h hset) hadd
  · exact h

theorem removeRecord_sound (h : w.store.Sound) (id : String) (key : Value)
    : (w.removeRecord id key).2.store.Sound := by
  unfold removeRecord
  apply withSet_sound h
  intro handle set hset
  split
  · next hremove =>
    apply Store.putSet_sound h
    exact OperationSet.remove_sound (Store.set?_sound h hset) hremove
  · exact h

theorem newEndpoint_sound (h : w.store.Sound) (id : String) (request response error : Value)
    (registry : Option String) (description : Value)
    : (w.newEndpoint id request response error registry description).2.store.Sound := by
  unfold newEndpoint
  apply commit_sound h
  · apply (chooseRegistry_keeps h registry).bind
    intro p hp
    apply Endpoint.build_keeps hp
  · intro endpoint w' hw'
    exact hw'

theorem execute_sound (host : InPlaceHost) (h : w.store.Sound) (command : Command)
    : (w.execute host command).2.store.Sound := by
  cases command with
  -- The setting is no part of a sound store, it only bounds what is built later.
  | setDepthSetting setting => exact ⟨h.sets, h.registries⟩
  | resolveDepth preference =>
    unfold execute
    dsimp only
    split
    · exact h
    · exact h
  | newSet id operations registry copyInput maxDepth => apply newSet_sound h
  | process id v => exact withSet_sound h id fun _ _ _ => h
  | addRecords id operations position => apply addRecords_sound h
  | removeRecord id key => apply removeRecord_sound h
  | getRecord id index => exact withSet_sound h id fun _ _ _ => h
  | indexOfTag id tag => exact withSet_sound h id fun _ _ _ => h
  | describeSet id => exact withSet_sound h id fun _ _ _ => h
  | newRegistry id procedures =>
    exact commit_sound h (Store.buildRegistry_keeps h procedures) fun _ _ hw' => hw'
  | register id name procedure =>
    apply withId_sound h
    intro registry
    exact commit_sound h (Store.register_keeps h registry name procedure) fun _ _ hw' => hw'
  | assign id name procedure =>
    apply withId_sound h
    intro registry
    exact commit_sound h (Store.register_keeps h registry name procedure) fun _ _ hw' => hw'
  | registerAll id procedures =>
    apply withId_sound h
    intro registry
    unfold registerAll
    dsimp only
    split
    · exact Store.registerAll_sound h registry _
    · exact Store.registerAll_sound h registry _
  | getProcedure id name =>
    apply withId_sound h
    intro registry
    apply withProcedure_sound h
  | getItem id name =>
    apply withId_sound h
    intro registry
    apply withProcedure_sound h
  | deleteItem id name =>
    apply withId_sound h
    intro registry
    exact commit_sound h (Store.unregister_keeps h registry name) fun _ _ hw' => hw'
  | popItem id name =>
    apply withId_sound h
    intro registry
    exact commit_sound h (Store.unregister_keeps h registry name) fun _ _ hw' => hw'
  | hasItem id name => exact withId_sound h _ id fun _ => h
  | describeRegistry id => exact withId_sound h _ id fun _ => h
  | callProcedure id name v =>
    apply withId_sound h
    intro registry
    apply withProcedure_sound h
  | newEndpoint id request response error registry description => apply newEndpoint_sound h
  | getMedium id phase medium => exact withId_sound h _ id fun _ => h
  | processMedium id phase medium v =>
    apply withId_sound h
    intro endpoint
    dsimp only
    split
    · exact h
    · exact h
  | registerAt id name procedure =>
    apply withId_sound h
    intro endpoint
    exact commit_sound h (Store.register_keeps h _ name procedure) fun _ _ hw' => hw'

/--
Sessions keep stores sound.
-/
theorem run_sound (host : InPlaceHost) (h : w.store.Sound) (commands : List Command)
    : (w.run host commands).2.store.Sound := by
  induction commands generalizing w with
  | nil => exact h
  | cons command commands ih => exact ih (execute_sound host h command)

end Workspace
end Reshape
