import Reshape.Proofs.Slot
import Reshape.Walk

/-!
This module contains the comparison of two walks along one path in different monads. A relation
between computations that respects their sequencing holds of the walks if it holds of the visits.
-/

namespace Reshape

/--
A relation between the computations of two monads that respects what walks are made of.
-/
structure Simulation {m n : Type → Type} [Monad m] [MonadExcept Error m] [Monad n]
    [MonadExcept Error n] (rel : (α : Type) → m α → n α → Prop) : Prop where
  pure : ∀ {α : Type} (a : α), rel _ (pure a) (pure a)
  bind : ∀ {α β : Type} {x : m α} {y : n α} {f : α → m β} {g : α → n β},
    rel _ x y → (∀ a, rel _ (f a) (g a)) → rel _ (x >>= f) (y >>= g)
  refusal : ∀ {α : Type}, rel _ (throw .tooManyDigits : m α) (throw .tooManyDigits : n α)

namespace Simulation

variable {m n : Type → Type} [Monad m] [MonadExcept Error m] [Monad n] [MonadExcept Error n]
variable {rel : (α : Type) → m α → n α → Prop}

theorem visitItems (sim : Simulation rel) {visit : Nat → Value → m Value}
    {visit' : Nat → Value → n Value} (hvisit : ∀ i v, rel _ (visit i v) (visit' i v)) (i : Nat)
    (items : List Value)
    : rel _ (Reshape.visitItems visit i items) (Reshape.visitItems visit' i items) := by
  induction items generalizing i with
  | nil => exact sim.pure []
  | cons item items ih =>
    apply sim.bind (hvisit i item)
    intro new
    apply sim.bind (ih (i + 1))
    intro news
    apply sim.pure

theorem visitSlot (sim : Simulation rel) {visit : Value → m Value} {visit' : Value → n Value}
    (hvisit : ∀ v, rel _ (visit v) (visit' v)) (rest : List String) (v : Value) (slot : Slot)
    : rel _ (Reshape.visitSlot visit rest v slot) (Reshape.visitSlot visit' rest v slot) := by
  unfold Reshape.visitSlot
  dsimp only
  split
  · apply sim.bind (hvisit _)
    intro new
    apply sim.pure
  · apply sim.pure

/--
One segment of a walk: what holds of the walks of the branches along the rest holds of the whole.
-/
theorem walk_cons (sim : Simulation rel) {segment : String} {rest : List String}
    {visit : Address → Value → m Value} {visit' : Address → Value → n Value}
    (hrest : ∀ slot v, rel _ (Reshape.walk (fun a => visit (slot :: a)) rest v)
      (Reshape.walk (fun a => visit' (slot :: a)) rest v))
    (v : Value)
    : rel _ (Reshape.walk visit (segment :: rest) v) (Reshape.walk visit' (segment :: rest) v) := by
  have enter (v : Value) (slot : Slot)
      : rel _ (Reshape.visitSlot (Reshape.walk (fun a => visit (slot :: a)) rest) rest v slot)
          (Reshape.visitSlot (Reshape.walk (fun a => visit' (slot :: a)) rest) rest v slot) := by
    apply sim.visitSlot
    apply hrest
  cases v with
  | list items =>
    unfold Reshape.walk
    split
    · apply sim.bind
      · apply sim.visitItems
        intro i item
        split
        · apply sim.bind
          · apply hrest
          · intro new
            apply sim.pure
        · apply sim.pure
      · intro news
        apply sim.pure
    · split
      · apply sim.refusal
      · cases (Value.list items).slot? segment with
        | none => exact sim.pure _
        | some slot => exact enter _ slot
  | object fields => exact enter _ _
  | _ => exact sim.pure _

theorem walk (sim : Simulation rel) (segments : List String) {visit : Address → Value → m Value}
    {visit' : Address → Value → n Value} (hvisit : ∀ a v, rel _ (visit a v) (visit' a v)) (v : Value)
    : rel _ (Reshape.walk visit segments v) (Reshape.walk visit' segments v) := by
  induction segments generalizing visit visit' v with
  | nil => apply hvisit
  | cons segment rest ih =>
    apply sim.walk_cons
    intro slot w
    apply ih
    intro a
    apply hvisit

theorem applyAt (sim : Simulation rel) (path : Path) {visit : Address → Value → m Value}
    {visit' : Address → Value → n Value} (hvisit : ∀ a v, rel _ (visit a v) (visit' a v))
    (root : Value)
    : rel _ (Reshape.applyAt path visit root) (Reshape.applyAt path visit' root) := by
  unfold Reshape.applyAt
  split
  · apply sim.bind (hvisit _ _)
    intro new
    apply sim.pure
  · apply sim.walk _ hvisit

theorem foldlM (sim : Simulation rel) {α β : Type} {items : List α} {f : β → α → m β}
    {g : β → α → n β} (h : ∀ item ∈ items, ∀ b, rel _ (f b item) (g b item)) (b : β)
    : rel _ (items.foldlM f b) (items.foldlM g b) := by
  induction items generalizing b with
  | nil => exact sim.pure b
  | cons item items ih =>
    rw [List.foldlM_cons, List.foldlM_cons]
    apply sim.bind
    · apply h item
      apply List.mem_cons_self
    · intro b
      apply ih
      intro item hitem
      apply h item
      apply List.mem_cons_of_mem _ hitem

theorem skipMissing (sim : Simulation rel) {visit : Value → m Value} {visit' : Value → n Value}
    (hvisit : ∀ v, rel _ (visit v) (visit' v)) (v : Value)
    : rel _ (Reshape.skipMissing visit v) (Reshape.skipMissing visit' v) := by
  cases v with
  | missing => apply sim.pure
  | _ => apply hvisit

end Simulation
end Reshape
