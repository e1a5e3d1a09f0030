import Reshape.Proofs.Factorization
import Reshape.Proofs.Invocation
import Reshape.Proofs.Registration

/-!
This module contains the ways to call a function on a whole value: as the payload of the operation,
at the path of the whole value, and by a procedure there that is bound to the function. The main
statement, `processDeclared_function`, says what they come to and where they part.
-/

namespace Reshape

/--
The set that a name is bound to does nothing but call a function on the whole value.
-/
def Store.Binds (store : Store) (registry : Nat) (name function : String) : Prop :=
  store.procedureSteps? registry name = some [⟨.func, .function function, 0⟩]

section Binds

variable {store after : Store} {registry handle : Nat} {name function : String}

theorem Store.set?_of_stands (h : store.Stands after registry (.function function) handle)
    : (after.set? handle).map OperationSet.steps = some [⟨.func, .function function, 0⟩] := by
  obtain ⟨⟨records, bound, hrecords, -, -, hset⟩, -⟩ := h
  cases hrecords
  unfold Store.set?
  rw [hset]
  rfl

/--
Registering a function binds the name to it.
-/
theorem Store.binds_of_register (hregistry : registry < store.registries.length)
    (h : store.register registry (.str name) (.function function) = .ok (handle, after))
    : after.Binds registry name function := by
  rcases store.register_cases hregistry (.str name) (.function function) with
    ⟨label, found, grown, hname, -, hregister, -, -, hstands, hchanged, -⟩ | ⟨-, e, he⟩
  · cases hname
    rw [h] at hregister
    cases hregister
    have hfind : (after.registry registry).find? (.str name) = some handle := by
      rw [hchanged]
      exact Assoc.get?_insert_self _ _ _
    unfold Binds procedureSteps?
    rw [hfind, Option.bind_some, set?_of_stands hstands]
  · rw [h] at he
    cases he

end Binds

/--
A walk that goes nowhere visits the whole value, and never leaves it missing.
-/
theorem applyAt_whole {path : Path} (h : path.segments = [])
    (visit : Address → Value → Outcome Value) (root : Value)
    : applyAt path visit root = Value.orNull <$> visit [] root := by
  unfold applyAt
  rw [h]
  rfl

theorem segments_point : (⟨"."⟩ : Path).segments = [] := by
  decide +kernel

theorem Value.eq_orNull_iff {v : Value} : v = v.orNull ↔ v ≠ .missing := by
  constructor
  · rintro h rfl
    cases h
  · intro h
    exact (orNull_of_ne h).symm

namespace Surroundings

variable (s : Surroundings) (bound : Nat) {name function : String} {v : Value}

/--
How a call of a function ends that stands alone.
-/
def reply (function : String) (v : Value) : Except Error Value :=
  (s.host.call function v).mapError .raised

theorem callHost_eq : s.callHost function v = Outcome.ofExcept (s.reply function v) := by
  unfold callHost reply
  cases s.host.call function v with
  | error message => rfl
  | ok w => rfl

theorem process_step (instruction : Instruction) {op : Op} {payload : Value}
    (h : Instruction.ofStep ⟨op, payload, 0⟩ = [instruction])
    : s.process bound [⟨op, payload, 0⟩] v =
        Outcome.note (.running op 0 0) >>= fun _ =>
          s.runInstruction (s.invoke bound 0) v instruction := by
  rw [process, runSteps, List.foldlM_cons, runStep, h, List.foldlM_cons]
  simp only [List.foldlM_nil, bind_pure]

theorem process_whole
    : s.process bound [⟨.func, .function function, 0⟩] v =
        ⟨[.running .func 0 0], s.reply function v⟩ := by
  have hcall : s.runInstruction (s.invoke bound 0) v (.callWhole function) =
      Outcome.ofExcept (s.reply function v) := s.callHost_eq
  rw [s.process_step bound (.callWhole function) rfl, hcall]
  rfl

theorem process_root (hv : v ≠ .missing)
    : s.process bound [⟨.func, .object [(.str ".", .function function)], 0⟩] v =
        ⟨[.running .func 0 0], (s.reply function v).map Value.orNull⟩ := by
  have hcall : s.runInstruction (s.invoke bound 0) v (.call ⟨"."⟩ function) =
      Value.orNull <$> Outcome.ofExcept (s.reply function v) := by
    rw [runInstruction, applyAt_whole segments_point, skipMissing_of_ne hv, callHost_eq]
  rw [s.process_step bound (.call ⟨"."⟩ function) rfl, hcall]
  cases s.reply function v with
  | error e => rfl
  | ok w => rfl

theorem process_invoked (h : s.procedure? name = some [⟨.func, .function function, 0⟩])
    (hv : v ≠ .missing)
    : s.process (bound + 1) [⟨.procedure, .object [(.str ".", .str name)], 0⟩] v =
        ⟨[.running .procedure 0 0, .invoking name 1, .running .func 0 1],
          (s.reply function v).map Value.orNull⟩ := by
  rw [s.process_procedure h, applyAt_whole segments_point, skipMissing_of_ne hv, process_whole]
  unfold reply
  -- The failure of a function tells no depth, so it is the same one a level deeper.
  cases s.host.call function v with
  | error message => rfl
  | ok w => rfl

theorem reply_eq_orNull_iff
    : s.reply function v = (s.reply function v).map Value.orNull ↔
        s.host.call function v ≠ .ok .missing := by
  unfold reply
  cases s.host.call function v with
  | error message => exact ⟨fun _ => nofun, fun _ => rfl⟩
  | ok w =>
    show Except.ok w = Except.ok w.orNull ↔ _
    rw [Except.ok.injEq, ne_eq, Except.ok.injEq]
    exact Value.eq_orNull_iff

end Surroundings

namespace Workspace

/--
A function that is called on a whole value may be the payload of the operation, stand at the path of
the whole value, or be what a procedure there is bound to. All three fail as the function fails, and
yield what it yields if that is a value. Where the function removes what it is given, the first one
yields what is missing and the other two yield null.
-/
theorem processDeclared_function (host : InPlaceHost) (store : Store) {registry bound : Nat}
    {name function : String} {v : Value} (hname : store.Binds registry name function)
    (hbound : 1 ≤ bound) (hv : v ≠ .missing)
    : let run (operations : Value) := processDeclared host store registry bound operations v
      let whole := run (.object [(.str "$func", .function function)])
      let atRoot := run (.object [(.str "$func", .object [(.str ".", .function function)])])
      let called := run (.object [(.str "$procedure", .object [(.str ".", .str name)])])
      let reply := (host.call function v).mapError Error.raised
      whole = ⟨[.running .func 0 0], reply⟩ ∧
        atRoot = ⟨[.running .func 0 0], reply.map Value.orNull⟩ ∧
        called = ⟨[.running .procedure 0 0, .invoking name 1, .running .func 0 1],
          reply.map Value.orNull⟩ ∧
        (whole.result = called.result ↔ host.call function v ≠ .ok .missing) := by
  intro run whole atRoot called reply
  obtain ⟨bound, rfl⟩ := Nat.exists_eq_add_of_le' hbound
  let s : Surroundings := ⟨host.toHost, store.procedureSteps? registry⟩
  have hsingle := processDeclared_single host store registry (bound + 1) fun _ => .sigil
  have hwhole : whole = ⟨[.running .func 0 0], s.reply function v⟩ :=
    (hsingle (.func, .function function) v).trans (s.process_whole (bound + 1))
  have hroot : atRoot = ⟨[.running .func 0 0], (s.reply function v).map Value.orNull⟩ :=
    (hsingle (.func, .object [(.str ".", .function function)]) v).trans
      (s.process_root (bound + 1) hv)
  have hcalled : called = ⟨[.running .procedure 0 0, .invoking name 1, .running .func 0 1],
      (s.reply function v).map Value.orNull⟩ :=
    (hsingle (.procedure, .object [(.str ".", .str name)]) v).trans
      (s.process_invoked bound hname hv)
  refine ⟨hwhole, hroot, hcalled, ?_⟩
  rw [hwhole, hcalled]
  exact s.reply_eq_orNull_iff

theorem processDeclared_function_registered
    : let before : Store := { registries := [{}] }
      let after (function : String) : Store :=
        { sets := [⟨[⟨[.operation .sigil .func (.function function)]⟩], 0, true, 64⟩],
          registries := [⟨[("f", 0)]⟩] }
      let run (function : String) (operations : Value) :=
        (processDeclared .standard (after function) 0 64 operations (.int 1)).result
      let whole (function : String) := run function (.object [(.str "$func", .function function)])
      let called (function : String) :=
        run function (.object [(.str "$procedure", .object [(.str ".", .str "f")])])
      (∀ function ∈ ["inc", "fail", "drop"],
        before.register 0 (.str "f") (.function function) = .ok (0, after function)) ∧
        whole "inc" = .ok (.int 2) ∧ called "inc" = .ok (.int 2) ∧
        whole "fail" = .error (.raised "boom") ∧ called "fail" = .error (.raised "boom") ∧
        whole "drop" = .ok .missing ∧ called "drop" = .ok .null := by
  intro before after run whole called
  have hregister : ∀ function ∈ ["inc", "fail", "drop"],
      before.register 0 (.str "f") (.function function) = .ok (0, after function) := by
    decide +kernel
  have hends (function : String) (h : function ∈ ["inc", "fail", "drop"])
      : whole function = (Host.standard.call function (.int 1)).mapError .raised ∧
          called function = ((Host.standard.call function (.int 1)).mapError .raised).map
            Value.orNull := by
    have hname := Store.binds_of_register (by decide) (hregister function h)
    obtain ⟨hwhole, -, hcalled, -⟩ :=
      processDeclared_function .standard (after function) hname
        (show 1 ≤ 64 by decide) (show Value.int 1 ≠ .missing by decide)
    exact ⟨congrArg Outcome.result hwhole, congrArg Outcome.result hcalled⟩
  obtain ⟨hinc, hinc'⟩ := hends "inc" (by decide)
  obtain ⟨hfail, hfail'⟩ := hends "fail" (by decide)
  obtain ⟨hdrop, hdrop'⟩ := hends "drop" (by decide)
  exact ⟨hregister, hinc, hinc', hfail, hfail', hdrop, hdrop'⟩

end Workspace
end Reshape
