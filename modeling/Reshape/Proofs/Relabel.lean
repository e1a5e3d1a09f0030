import Reshape.Proofs.Quiet

/-!
This module contains the relabelling of what runs report and fail with. It respects sequencing, so a
run whose invocations are relabelled is relabelled as a whole.
-/

namespace Reshape

def Outcome.relabel {α : Type} (f : Event → Event) (g : Error → Error) (x : Outcome α) : Outcome α :=
  ⟨x.log.map f, x.result.mapError g⟩

def Relabelled (f : Event → Event) (g : Error → Error) (α : Type) (x y : Outcome α) : Prop :=
  y = x.relabel f g

section Relabel

variable {α β : Type} {f : Event → Event} {g : Error → Error}

theorem Outcome.relabel_bind (x : Outcome α) (k : α → Outcome β)
    : (x >>= k).relabel f g = x.relabel f g >>= fun a => (k a).relabel f g := by
  cases h : x.result with
  | error e =>
    have hrelabel : (x.relabel f g).result = .error (g e) := by
      rw [relabel, h]
      rfl
    rw [Outcome.bind_of_error h, Outcome.bind_of_error hrelabel]
    rfl
  | ok a =>
    have hrelabel : (x.relabel f g).result = .ok a := by
      rw [relabel, h]
      rfl
    rw [Outcome.bind_of_ok h, Outcome.bind_of_ok hrelabel]
    simp [relabel]

theorem Quiet.relabel {x : Outcome α} (h : Quiet x)
    (hf : ∀ event : Event, event.isWarning = true → f event = event)
    (hg : ∀ e : Error, e.isNesting = false → g e = e) : x.relabel f g = x := by
  apply Outcome.ext
  · refine (List.map_congr_left ?_).trans (List.map_id x.log)
    intro event hevent
    exact hf event (h.log event hevent)
  · show x.result.mapError g = x.result
    cases hresult : x.result with
    | ok a => rfl
    | error e =>
      show Except.error (g e) = _
      rw [hg e (h.failure e hresult)]

theorem relabelled_congruence (hf : ∀ event : Event, event.isWarning = true → f event = event)
    (hg : ∀ e : Error, e.isNesting = false → g e = e) : RunCongruence (Relabelled f g) where
  pure a := rfl
  bind := by
    rintro α β x y k l rfl hk
    unfold Relabelled
    rw [Outcome.relabel_bind]
    congr 1
    funext a
    exact hk a
  refusal := by
    intro α
    exact ((quiet_ofExcept (FailsOnly.error rfl)).relabel hf hg).symm
  quiet h := (h.relabel hf hg).symm

end Relabel
end Reshape
