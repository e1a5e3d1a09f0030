import Reshape.Proofs.Compilation
import Reshape.Proofs.Registration
import Reshape.Proofs.Session

/-!
This module contains which values an endpoint can be built of. A phase takes a bundle, which is an
object of operations by medium, and everything that counts as false. The main statement,
`build_bundles`, says that an endpoint is built if and only if all of its phases take what they are
given, which phase tells what is wrong otherwise, and what the sets of the endpoint are.
-/

namespace Reshape

/--
What operations by medium say for a medium. It is null where they do not mention it.
-/
def Value.forMedium (operations : Value) (medium : String) : Value :=
  match operations with
  | .object fields => (Assoc.get? (.str medium) fields).getD .null
  | _ => .null

theorem Value.forMedium_of_falsy {operations : Value} (h : operations.truthy = false)
    (medium : String) : operations.forMedium medium = .null := by
  cases operations with
  | object fields =>
    cases fields with
    | nil => rfl
    | cons field fields => cases h
  | _ => rfl

namespace Phase

/--
The phases in the order in which an endpoint builds them.
-/
def all : List Phase := [.request, .response, .error]

/--
The keys that are no mediums of the phase.
-/
def unknown (phase : Phase) (fields : List (Key × Value)) : List Key :=
  (fields.map (·.1)).filter fun key => !(phase.mediums.any fun medium => key == .str medium)

/--
Operations by medium, for no other mediums than those of the phase.
-/
structure Bundle (phase : Phase) (operations : Value) : Prop where
  known : ∃ fields, operations = .object fields ∧
    ∀ field ∈ fields, ∃ medium ∈ phase.mediums, field.1 = .str medium
  compiles : ∀ medium ∈ phase.mediums, (operations.forMedium medium).Compiles

/--
Whether a phase takes what it is given. What counts as false passes for an empty bundle, of whatever
type it is.
-/
def Accepts (phase : Phase) (operations : Value) : Prop :=
  phase.Bundle operations ∨ operations.truthy = false

/--
What is wrong with what a phase is given: that it is no object, or else its unknown mediums, or else
the operations of the first medium that do not compile.
-/
inductive Rejects (phase : Phase) (operations : Value) : FormatError → Prop where
  | shape (htruthy : operations.truthy = true) (h : ∀ fields, operations ≠ .object fields) :
    Rejects phase operations (.badPhase phase operations)
  | mediums {fields : List (Key × Value)} (h : operations = .object fields)
    (hunknown : phase.unknown fields ≠ []) :
    Rejects phase operations (.unknownMediums phase operations (phase.unknown fields))
  | records {fields : List (Key × Value)} {before after : List String} {medium : String}
    {cause : FormatError} (h : operations = .object fields) (hknown : phase.unknown fields = [])
    (hmediums : phase.mediums = before ++ medium :: after)
    (hbefore : ∀ other ∈ before, (operations.forMedium other).Compiles)
    (hcause : declaredRecords (operations.forMedium medium) = .error cause) :
    Rejects phase operations cause

theorem unknown_eq_nil_iff {phase : Phase} {fields : List (Key × Value)}
    : phase.unknown fields = [] ↔
        ∀ field ∈ fields, ∃ medium ∈ phase.mediums, field.1 = .str medium := by
  simp [unknown, List.filter_eq_nil_iff]

theorem Rejects.truthy {phase : Phase} {operations : Value} {cause : FormatError}
    (h : phase.Rejects operations cause) : operations.truthy = true := by
  cases h with
  | shape htruthy _ => exact htruthy
  | @mediums fields hobject hunknown =>
    subst hobject
    cases fields with
    | nil => exact absurd rfl hunknown
    | cons field fields => rfl
  | records hobject _ _ _ hcause =>
    apply Decidable.of_not_not
    intro hfalsy
    rw [Value.forMedium_of_falsy (by simpa using hfalsy)] at hcause
    cases hcause

theorem Rejects.not_accepts {phase : Phase} {operations : Value} {cause : FormatError}
    (h : phase.Rejects operations cause) : ¬phase.Accepts operations := by
  rintro (⟨⟨fields, hfields, hknown⟩, hcompiles⟩ | hfalsy)
  · cases h with
    | shape _ hobject => exact hobject fields hfields
    | mediums hobject hunknown =>
      rw [hfields] at hobject
      cases hobject
      exact hunknown (unknown_eq_nil_iff.mpr hknown)
    | @records _ before _ medium _ _ _ hmediums _ hcause =>
      have hmedium : medium ∈ phase.mediums := by
        rw [hmediums]
        exact List.mem_append_right before List.mem_cons_self
      obtain ⟨records, hok⟩ := exists_declaredRecords_iff.mpr (hcompiles medium hmedium)
      rw [hcause] at hok
      cases hok
  · rw [h.truthy] at hfalsy
    cases hfalsy

end Phase

section Messages

/--
The keys that a message shows.
-/
def FormatError.keys : FormatError → List Key
  | .unknownOperation _ key => [key]
  | .unknownMediums _ _ unknown => unknown
  | _ => []

/--
Whether a failure can be told as such, if no key in its message is an integer of too many digits.
-/
def FormatError.Told (cause : FormatError) : Prop :=
  (Error.format cause).shown = .format cause ∨
    ∃ n : Int, .int n ∈ cause.keys ∧ Decimal.isWritable n = false

theorem told_of_declaredRecords (operations : Value)
    : FailsOnly FormatError.Told (declaredRecords operations) := by
  apply FailsOnly.bind
  · cases operations with
    | null => apply FailsOnly.ok
    | object fields => apply FailsOnly.ok
    | list items => apply FailsOnly.ok
    | tuple items => apply FailsOnly.ok
    | _ => exact FailsOnly.error (Or.inl rfl)
  · intro values
    apply FailsOnly.mapM
    intro v _
    refine (Record.message_of_ofValue v).mono ?_
    rintro cause (hshown | ⟨n, rfl, hlong⟩)
    · exact Or.inl hshown
    · exact Or.inr ⟨n, List.mem_singleton_self _, hlong⟩

theorem Phase.Rejects.told {phase : Phase} {operations : Value} {cause : FormatError}
    (h : phase.Rejects operations cause) : cause.Told := by
  cases h with
  | shape _ _ => exact Or.inl rfl
  | @mediums fields _ _ =>
    by_cases hwritable : (phase.unknown fields).all fun key => key.toValue.isWritable
    · exact Or.inl (Error.shown_format hwritable)
    · simp only [List.all_eq_true, not_forall, Bool.not_eq_true] at hwritable
      obtain ⟨key, hkey, hlong⟩ := hwritable
      cases key with
      | int n => exact Or.inr ⟨n, hkey, hlong⟩
      | _ => cases hlong
  | records _ _ _ _ hcause => exact told_of_declaredRecords _ _ hcause

end Messages

section Build

variable {store store' : Store} {registry bound : Nat} {sets : Assoc String Nat} {e : Error}

namespace Endpoint

theorem buildMediums_eq_ok {fields : List (Key × Value)} {mediums : List String}
    (h : buildMediums store registry fields mediums = .ok (sets, store'))
    : store.Extends store' ∧ ∀ medium ∈ mediums, ∃ handle, Assoc.get? medium sets = some handle ∧
        Store.Built store store' registry ((Value.object fields).forMedium medium) handle := by
  induction mediums generalizing store sets with
  | nil =>
    cases h
    exact ⟨.refl _, List.forall_mem_nil _⟩
  | cons first rest ih =>
    unfold buildMediums at h
    obtain ⟨⟨handle, mid⟩, hbuilt, h⟩ := except_bind_eq_ok_iff.mp h
    obtain ⟨⟨sets', after⟩, hrest, h⟩ := except_bind_eq_ok_iff.mp h
    cases h
    obtain ⟨hextends, -, hset⟩ := Store.buildSet_spec hbuilt
    obtain ⟨hextends', hsets⟩ := ih hrest
    refine ⟨hextends.trans hextends', ?_⟩
    intro medium hmedium
    rw [Assoc.get?]
    split
    · next heq =>
      subst heq
      have hset : Store.Built store mid registry ((Value.object fields).forMedium first) handle :=
        hset
      exact ⟨handle, rfl, hset.mono (.refl store) hextends'⟩
    · next hne =>
      rcases List.mem_cons.mp hmedium with heq | hmedium
      · exact absurd heq.symm hne
      · obtain ⟨handle', hget, hbuilt'⟩ := hsets medium hmedium
        exact ⟨handle', hget, hbuilt'.mono hextends (.refl store')⟩

theorem buildMediums_eq_error {fields : List (Key × Value)} {mediums : List String}
    (hbound : DepthBound.resolve store.depthSetting .null = .ok bound)
    (h : buildMediums store registry fields mediums = .error e)
    : ∃ before medium after cause, mediums = before ++ medium :: after ∧
        (∀ other ∈ before, ((Value.object fields).forMedium other).Compiles) ∧
        declaredRecords ((Value.object fields).forMedium medium) = .error cause ∧
        e = .format cause := by
  induction mediums generalizing store with
  | nil => cases h
  | cons first rest ih =>
    unfold buildMediums at h
    rcases except_bind_eq_error_iff.mp h with hfirst | ⟨⟨handle, mid⟩, hfirst, h⟩
    · obtain ⟨cause, hcause, rfl⟩ := Store.buildSet_eq_error hbound hfirst
      exact ⟨[], first, rest, cause, rfl, List.forall_mem_nil _, hcause, rfl⟩
    · obtain ⟨hextends, -, records, -, hrecords, -⟩ := Store.buildSet_spec hfirst
      rw [← hextends.setting] at hbound
      rcases except_bind_eq_error_iff.mp h with hrest | ⟨_, -, h⟩
      · obtain ⟨before, medium, after, cause, rfl, hbefore, hcause, rfl⟩ := ih hbound hrest
        refine ⟨first :: before, medium, after, cause, rfl, ?_, hcause, rfl⟩
        rw [List.forall_mem_cons]
        exact ⟨exists_declaredRecords_iff.mp ⟨records, hrecords⟩, hbefore⟩
      · cases h

theorem phaseFields_eq_ok {phase : Phase} {operations : Value} {fields : List (Key × Value)}
    (h : phaseFields phase operations = .ok fields)
    : operations.truthy = false ∧ fields = [] ∨
        operations = .object fields ∧ phase.unknown fields = [] := by
  unfold phaseFields at h
  split at h
  · split at h
    · dsimp only at h
      split at h
      · next fields' hunknown =>
        cases h
        exact Or.inr ⟨rfl, List.isEmpty_iff.mp hunknown⟩
      · cases h
    · cases h
  · next hfalsy =>
    cases h
    exact Or.inl ⟨by simpa using hfalsy, rfl⟩

theorem phaseFields_eq_error {phase : Phase} {operations : Value} {cause : FormatError}
    (h : phaseFields phase operations = .error cause) : phase.Rejects operations cause := by
  unfold phaseFields at h
  split at h
  · next htruthy =>
    split at h
    · next fields =>
      dsimp only at h
      split at h
      · cases h
      · next hunknown =>
        cases h
        refine .mediums rfl ?_
        intro hnil
        exact hunknown (List.isEmpty_iff.mpr hnil)
    · next hobject =>
      cases h
      exact .shape htruthy hobject
  · cases h

theorem forMedium_of_phaseFields {phase : Phase} {operations : Value}
    {fields : List (Key × Value)} (h : phaseFields phase operations = .ok fields) (medium : String)
    : (Value.object fields).forMedium medium = operations.forMedium medium := by
  rcases phaseFields_eq_ok h with ⟨hfalsy, rfl⟩ | ⟨rfl, -⟩
  · rw [Value.forMedium_of_falsy hfalsy]
    rfl
  · rfl

/--
A phase that has been built has taken what it was given, and there is a set for each of its mediums.
-/
theorem buildPhase_eq_ok {phase : Phase} {operations : Value}
    (h : buildPhase store registry phase operations = .ok (sets, store'))
    : phase.Accepts operations ∧ store.Extends store' ∧
        ∀ medium ∈ phase.mediums, ∃ handle, Assoc.get? medium sets = some handle ∧
          Store.Built store store' registry (operations.forMedium medium) handle := by
  obtain ⟨fields, hfields, h⟩ := except_bind_eq_ok_iff.mp h
  rw [except_mapError_eq_ok_iff] at hfields
  obtain ⟨hextends, hsets⟩ := buildMediums_eq_ok h
  simp only [forMedium_of_phaseFields hfields] at hsets
  refine ⟨?_, hextends, hsets⟩
  rcases phaseFields_eq_ok hfields with ⟨hfalsy, -⟩ | ⟨hobject, hunknown⟩
  · exact Or.inr hfalsy
  · refine Or.inl ⟨⟨fields, hobject, Phase.unknown_eq_nil_iff.mp hunknown⟩, ?_⟩
    intro medium hmedium
    obtain ⟨handle, -, records, bound, hrecords, -⟩ := hsets medium hmedium
    exact exists_declaredRecords_iff.mp ⟨records, hrecords⟩

/--
What is wrong with what a phase is given is told if it cannot be built.
-/
theorem buildPhase_eq_error {phase : Phase} {operations : Value}
    (hbound : DepthBound.resolve store.depthSetting .null = .ok bound)
    (h : buildPhase store registry phase operations = .error e)
    : ∃ cause, phase.Rejects operations cause ∧ e = .format cause := by
  rcases except_bind_eq_error_iff.mp h with hfields | ⟨fields, hfields, h⟩
  · obtain ⟨cause, hcause, rfl⟩ := except_mapError_eq_error_iff.mp hfields
    exact ⟨cause, phaseFields_eq_error hcause, rfl⟩
  · rw [except_mapError_eq_ok_iff] at hfields
    obtain ⟨before, medium, after, cause, hmediums, hbefore, hcause, rfl⟩ :=
      buildMediums_eq_error hbound h
    refine ⟨cause, ?_, rfl⟩
    rcases phaseFields_eq_ok hfields with ⟨-, rfl⟩ | ⟨rfl, hknown⟩
    · cases hcause
    · exact .records rfl hknown hmediums hbefore hcause

theorem medium_of_get? {endpoint : Endpoint} {phase : Phase} {medium : String} {handle : Nat}
    (h : Assoc.get? medium (endpoint.mediums phase) = some handle)
    : endpoint.medium phase (.str medium) = .ok handle := by
  unfold Endpoint.medium
  dsimp only
  rw [h]

/--
The sets that a phase has built are still there when the other phases have been built.
-/
theorem exists_medium {endpoint : Endpoint} {phase : Phase} {operations : Value}
    {before after : Store} (hbefore : store.Extends before) (hafter : after.Extends store')
    (hsets : ∀ medium ∈ phase.mediums, ∃ handle,
      Assoc.get? medium (endpoint.mediums phase) = some handle ∧
        Store.Built before after registry (operations.forMedium medium) handle)
    : ∀ medium ∈ phase.mediums, ∃ handle, endpoint.medium phase (.str medium) = .ok handle ∧
        Store.Built store store' registry (operations.forMedium medium) handle := by
  intro medium hmedium
  obtain ⟨handle, hget, hbuilt⟩ := hsets medium hmedium
  exact ⟨handle, medium_of_get? hget, hbuilt.mono hbefore hafter⟩

theorem build_eq_ok {description : Value} {given : Phase → Value} {endpoint : Endpoint}
    (h : build store registry description (given .request) (given .response) (given .error) =
      .ok (endpoint, store'))
    : endpoint.registry = registry ∧ store.Extends store' ∧
        ∀ phase : Phase, phase.Accepts (given phase) ∧
          ∀ medium ∈ phase.mediums, ∃ handle, endpoint.medium phase (.str medium) = .ok handle ∧
            Store.Built store store' registry ((given phase).forMedium medium) handle := by
  obtain ⟨⟨request, store₁⟩, hrequest, h⟩ := except_bind_eq_ok_iff.mp h
  obtain ⟨⟨response, store₂⟩, hresponse, h⟩ := except_bind_eq_ok_iff.mp h
  obtain ⟨⟨error, store₃⟩, herror, h⟩ := except_bind_eq_ok_iff.mp h
  cases h
  obtain ⟨haccepts₁, hextends₁, hsets₁⟩ := buildPhase_eq_ok hrequest
  obtain ⟨haccepts₂, hextends₂, hsets₂⟩ := buildPhase_eq_ok hresponse
  obtain ⟨haccepts₃, hextends₃, hsets₃⟩ := buildPhase_eq_ok herror
  refine ⟨rfl, hextends₁.trans (hextends₂.trans hextends₃), ?_⟩
  intro phase
  cases phase with
  | request => exact ⟨haccepts₁, exists_medium (.refl _) (hextends₂.trans hextends₃) hsets₁⟩
  | response => exact ⟨haccepts₂, exists_medium hextends₁ hextends₃ hsets₂⟩
  | error => exact ⟨haccepts₃, exists_medium (hextends₁.trans hextends₂) (.refl _) hsets₃⟩

theorem build_eq_error {description : Value} {given : Phase → Value}
    (hbound : DepthBound.resolve store.depthSetting .null = .ok bound)
    (h : build store registry description (given .request) (given .response) (given .error) =
      .error e)
    : ∃ before phase after cause, Phase.all = before ++ phase :: after ∧
        (∀ earlier ∈ before, earlier.Accepts (given earlier)) ∧
        phase.Rejects (given phase) cause ∧ e = .format cause := by
  rcases except_bind_eq_error_iff.mp h with hrequest | ⟨⟨request, store₁⟩, hrequest, h⟩
  · obtain ⟨cause, hcause, rfl⟩ := buildPhase_eq_error hbound hrequest
    exact ⟨[], .request, _, cause, rfl, List.forall_mem_nil _, hcause, rfl⟩
  obtain ⟨haccepts₁, hextends₁, -⟩ := buildPhase_eq_ok hrequest
  rw [← hextends₁.setting] at hbound
  rcases except_bind_eq_error_iff.mp h with hresponse | ⟨⟨response, store₂⟩, hresponse, h⟩
  · obtain ⟨cause, hcause, rfl⟩ := buildPhase_eq_error hbound hresponse
    refine ⟨[.request], .response, _, cause, rfl, ?_, hcause, rfl⟩
    exact List.forall_mem_singleton.mpr haccepts₁
  obtain ⟨haccepts₂, hextends₂, -⟩ := buildPhase_eq_ok hresponse
  rw [← hextends₂.setting] at hbound
  rcases except_bind_eq_error_iff.mp h with herror | ⟨⟨error, store₃⟩, -, h⟩
  · obtain ⟨cause, hcause, rfl⟩ := buildPhase_eq_error hbound herror
    refine ⟨[.request, .response], .error, _, cause, rfl, ?_, hcause, rfl⟩
    exact List.forall_mem_cons.mpr ⟨haccepts₁, List.forall_mem_singleton.mpr haccepts₂⟩
  · cases h

end Endpoint
end Build

/--
Two handles of equal sets are processed alike.
-/
theorem Workspace.processHandle_congr {store : Store} {handle other : Nat}
    (h : store.held? handle = store.held? other) (host : InPlaceHost) (v : Value)
    : processHandle host store handle v = processHandle host store other v := by
  unfold processHandle Store.set?
  rw [h]

/--
With a valid bound on nesting, an endpoint is built if and only if every phase takes what it is
given: operations by medium, all for mediums of the phase and none that does not compile, or anything
that counts as false. Otherwise the first phase that does not tells what is wrong with it. The set
of every medium holds the records that are given for it, which are none where the medium is not
mentioned. At any later time, whatever has been built or registered since, it does the same with all
values as a set that is built by itself of these operations for the registry of the endpoint.
-/
theorem Endpoint.build_bundles (store : Store) {bound : Nat}
    (hbound : DepthBound.resolve store.depthSetting .null = .ok bound) (registry : Nat)
    (description : Value) (given : Phase → Value)
    : let built := build store registry description (given .request) (given .response)
        (given .error)
      ((∃ endpoint store', built = .ok (endpoint, store')) ↔
          ∀ phase : Phase, phase.Accepts (given phase)) ∧
        (∀ e, built = .error e → ∃ before phase after cause,
          Phase.all = before ++ phase :: after ∧
            (∀ earlier ∈ before, earlier.Accepts (given earlier)) ∧
            ¬phase.Accepts (given phase) ∧ phase.Rejects (given phase) cause ∧
            e = .format cause ∧ cause.Told) ∧
        ∀ endpoint store', built = .ok (endpoint, store') →
          endpoint.registry = registry ∧
            ∀ phase : Phase, ∀ medium ∈ phase.mediums,
              let operations := (given phase).forMedium medium
              ∃ handle set, endpoint.medium phase (.str medium) = .ok handle ∧
                store'.held? handle = some set ∧ set.registry = registry ∧
                recordValues operations = .ok set.recordValues ∧
                ∀ later, store'.Extends later → ∃ alone later',
                  later.buildSet operations registry true .null = .ok (alone, later') ∧
                    ∀ host v, Workspace.processHandle host later' handle v =
                      Workspace.processHandle host later' alone v := by
  intro built
  have herror (e : Error) (he : built = .error e) := build_eq_error hbound he
  refine ⟨⟨?_, ?_⟩, ?_, ?_⟩
  · rintro ⟨endpoint, store', hok⟩ phase
    exact ((build_eq_ok hok).2.2 phase).1
  · intro haccepts
    cases hbuilt : built with
    | ok result => exact ⟨result.1, result.2, rfl⟩
    | error e =>
      obtain ⟨before, phase, after, cause, -, -, hrejects, -⟩ := herror e hbuilt
      exact absurd (haccepts phase) hrejects.not_accepts
  · intro e he
    obtain ⟨before, phase, after, cause, hphases, hbefore, hrejects, rfl⟩ := herror e he
    exact ⟨before, phase, after, cause, hphases, hbefore, hrejects.not_accepts, hrejects, rfl,
      hrejects.told⟩
  · intro endpoint store' hok
    obtain ⟨hregistry, hextends, hphases⟩ := build_eq_ok hok
    refine ⟨hregistry, ?_⟩
    intro phase medium hmedium operations
    obtain ⟨handle, hget, records, bound', hrecords, hbound', -, hheld⟩ :=
      (hphases phase).2 medium hmedium
    refine ⟨handle, _, hget, hheld, rfl, (declaredRecords_eq_ok_iff.mp hrecords).1, ?_⟩
    intro later hlater
    rw [← hextends.setting, ← hlater.setting] at hbound'
    have halone := Store.held?_addSet later ⟨records, registry, true, bound'⟩
    have hlater' := Store.extends_addSet later ⟨records, registry, true, bound'⟩
    refine ⟨_, _, Store.buildSet_eq_ok hrecords hbound', ?_⟩
    intro host v
    apply Workspace.processHandle_congr
    exact (hlater'.held? (hlater.held? hheld)).trans halone.2.symm

/--
An empty list is no bundle, but passes for an empty one.
-/
theorem Endpoint.build_bundles_falsy
    : let operations : Value := .object [(.str "$set", .object [(.str "a", .int 1)])]
      let given : Phase → Value
        | .request => .list []
        | .response => .object [(.str "body", operations)]
        | .error => .null
      DepthBound.resolve none .null = .ok 64 ∧ ¬Phase.request.Bundle (given .request) ∧
        (∀ phase : Phase, phase.Accepts (given phase)) ∧
        ∃ endpoint store', build {} 0 .null (given .request) (given .response) (given .error) =
            .ok (endpoint, store') ∧
          ∃ handle set, endpoint.medium .response (.str "body") = .ok handle ∧
            store'.held? handle = some set ∧ set.recordValues = [operations] := by
  intro operations given
  have hbundle : ¬Phase.request.Bundle (given .request) := by
    rintro ⟨⟨fields, hfields, -⟩, -⟩
    cases hfields
  have hresponse : (given .response).forMedium "body" = operations := by
    rfl
  have hnull : Value.null.Compiles := exists_declaredRecords_iff.mp ⟨[], rfl⟩
  have hoperations : operations.Compiles := exists_declaredRecords_iff.mp ⟨_, rfl⟩
  have haccepts (phase : Phase) : phase.Accepts (given phase) := by
    cases phase with
    | response =>
      refine Or.inl ⟨⟨_, rfl, ?_⟩, ?_⟩
      · exact List.forall_mem_singleton.mpr ⟨"body", List.mem_cons_self, rfl⟩
      · exact List.forall_mem_cons.mpr ⟨hoperations, List.forall_mem_singleton.mpr hnull⟩
    | _ => exact Or.inr rfl
  have hbuild := build_bundles {} DepthBound.resolve_default 0 .null given
  obtain ⟨endpoint, store', hok⟩ := hbuild.1.mpr haccepts
  obtain ⟨handle, set, hmedium, hheld, -, hrecords, -⟩ :=
    (hbuild.2.2 endpoint store' hok).2 .response "body" List.mem_cons_self
  refine ⟨DepthBound.resolve_default, hbundle, haccepts, endpoint, store', hok, handle, set, hmedium,
    hheld, ?_⟩
  rw [hresponse] at hrecords
  exact (Except.ok.inj hrecords).symm

end Reshape
