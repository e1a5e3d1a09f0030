import Reshape.Proofs.Provenance
import Reshape.Run

/-!
This module contains a logic of runs that keep a condition on the parts of values. Two runs agree if
they are the same, come to a value that meets the condition and fail only as foreseen. Walks and
runs of steps agree if their visits, calls and instructions do so on the values that meet the
condition, whatever these do on others.
-/

namespace Reshape

/--
Two runs that are the same. What they come to, or fail with, is as told.
-/
structure Agree {α : Type} (done : α → Prop) (fails : Error → Prop) (x y : Outcome α) : Prop where
  same : x = y
  done : ∀ a, x.result = .ok a → done a
  fails : FailsOnly fails x.result

namespace Agree

variable {α β : Type} {done : α → Prop} {fails : Error → Prop} {x y : Outcome α}

theorem ok {a : α} (h : done a) : Agree done fails (.ok a) (.ok a) where
  same := rfl
  done := by
    rintro _ ⟨⟩
    exact h
  fails := FailsOnly.ok a

theorem fail {e : Error} (h : fails e) : Agree done fails (.fail e) (.fail e) where
  same := rfl
  done := by
    rintro _ ⟨⟩
  fails := FailsOnly.error h

theorem note (event : Event)
    : Agree (fun _ => True) fails (Outcome.note event) (Outcome.note event) where
  same := rfl
  done := by
    rintro _ ⟨⟩
    trivial
  fails := FailsOnly.ok ()

theorem bind {mid : β → Prop} {x y : Outcome β} {f g : β → Outcome α} (hx : Agree mid fails x y)
    (hf : ∀ b, mid b → Agree done fails (f b) (g b)) : Agree done fails (x >>= f) (y >>= g) := by
  obtain ⟨rfl, hdone, hfails⟩ := hx
  cases hresult : x.result with
  | error e =>
    rw [Outcome.bind_of_error hresult, Outcome.bind_of_error hresult]
    refine ⟨rfl, ?_, ?_⟩
    · rintro _ ⟨⟩
    · exact FailsOnly.error (hfails e hresult)
  | ok b =>
    obtain ⟨hsame, hdone', hfails'⟩ := hf b (hdone b hresult)
    rw [Outcome.bind_of_ok hresult, Outcome.bind_of_ok hresult]
    refine ⟨?_, hdone', hfails'⟩
    rw [hsame]

theorem mono {done' : α → Prop} (h : Agree done fails x y) (hdone : ∀ a, done a → done' a)
    : Agree done' fails x y where
  same := h.same
  done := by
    intro a ha
    exact hdone a (h.done a ha)
  fails := h.fails

/--
A run that agrees with another one agrees with itself.
-/
theorem right (h : Agree done fails x y) : Agree done fails y y := by
  obtain ⟨rfl, hdone, hfails⟩ := h
  exact ⟨rfl, hdone, hfails⟩

theorem foldlM {items : List β} {f g : α → β → Outcome α}
    (h : ∀ item ∈ items, ∀ a, done a → Agree done fails (f a item) (g a item)) {a : α} (ha : done a)
    : Agree done fails (items.foldlM f a) (items.foldlM g a) := by
  induction items generalizing a with
  | nil => exact ok ha
  | cons item items ih =>
    rw [List.foldlM_cons, List.foldlM_cons]
    apply bind (h item List.mem_cons_self a ha)
    intro b hb
    apply ih _ hb
    intro item' hitem
    exact h item' (List.mem_cons_of_mem _ hitem)

section Walk

variable {p : Parts} {visit visit' : Address → Value → Outcome Value} {segments : List String}

theorem visitItems {visit visit' : Nat → Value → Outcome Value} {items : List Value}
    (hvisit : ∀ i v, v.madeOf p = true →
      Agree (fun w => w.madeOf p = true) fails (visit i v) (visit' i v))
    (hitems : ∀ v ∈ items, v.madeOf p = true) (i : Nat)
    : Agree (fun news => ∀ v ∈ news, v.madeOf p = true) fails (Reshape.visitItems visit i items)
        (Reshape.visitItems visit' i items) := by
  induction items generalizing i with
  | nil =>
    apply ok
    rintro v ⟨⟩
  | cons item items ih =>
    apply bind (hvisit i item (hitems item List.mem_cons_self))
    intro new hnew
    apply bind
    · apply ih
      intro v hv
      exact hitems v (List.mem_cons_of_mem _ hv)
    · intro news hnews
      apply ok
      exact List.forall_mem_cons.mpr ⟨hnew, hnews⟩

theorem visitSlot {visit visit' : Value → Outcome Value} {v : Value} {segment : String} {slot : Slot}
    (hvisit : ∀ w, w.Fills p → Agree (Value.Fills p) fails (visit w) (visit' w))
    (hv : v.madeOf p = true) (hslot : v.slot? segment = some slot) (rest : List String)
    : Agree (fun w => w.madeOf p = true) fails (Reshape.visitSlot visit rest v slot)
        (Reshape.visitSlot visit' rest v slot) := by
  unfold Reshape.visitSlot
  dsimp only
  split
  · apply bind (hvisit _ (Value.fills_content hv slot))
    intro new hnew
    exact ok (Value.madeOf_store hv hslot hnew)
  · exact ok hv

/--
One segment of a walk: what holds of the walks of the branches along the rest holds of the whole.
-/
theorem walk_cons {segment : String} {rest : List String}
    (hrest : ∀ slot w, w.Fills p → Agree (Value.Fills p) fails
      (Reshape.walk (fun a => visit (slot :: a)) rest w)
      (Reshape.walk (fun a => visit' (slot :: a)) rest w))
    (hsegment : overlong segment = true → fails .tooManyDigits) {v : Value} (hv : v.madeOf p = true)
    : Agree (fun w => w.madeOf p = true) fails (Reshape.walk visit (segment :: rest) v)
        (Reshape.walk visit' (segment :: rest) v) := by
  cases v with
  | list items =>
    unfold Reshape.walk
    split
    · refine bind (visitItems (p := p) ?_ (Value.madeOf_list.mp hv) 0) ?_
      · intro i item hitem
        split
        · apply bind (hrest (.index i) item (Or.inr hitem))
          intro new hnew
          exact ok hnew.orNull
        · exact ok hitem
      · intro news hnews
        exact ok (Value.madeOf_list.mpr hnews)
    · split
      · next hrefuses => exact fail (hsegment (overlong_of_refuses hrefuses))
      · cases hslot : (Value.list items).slot? segment with
        | none => exact ok hv
        | some slot => exact visitSlot (hrest slot) hv hslot rest
  | object fields => exact visitSlot (hrest (.key (.str segment))) hv rfl rest
  | _ => exact ok hv

theorem walk (hvisit : ∀ a w, w.Fills p → Agree (Value.Fills p) fails (visit a w) (visit' a w))
    (hsegments : ∀ segment ∈ segments, overlong segment = true → fails .tooManyDigits) {v : Value}
    (hv : v.Fills p)
    : Agree (Value.Fills p) fails (Reshape.walk visit segments v)
        (Reshape.walk visit' segments v) := by
  induction segments generalizing visit visit' v with
  | nil => exact hvisit [] v hv
  | cons segment rest ih =>
    rcases hv with rfl | hv
    · exact ok (Or.inl rfl)
    · refine mono (walk_cons ?_ (hsegments segment List.mem_cons_self) hv) fun w hw => Or.inr hw
      intro slot w hw
      apply ih _ _ hw
      · intro a u hu
        exact hvisit (slot :: a) u hu
      · intro segment' hmem
        exact hsegments segment' (List.mem_cons_of_mem _ hmem)

theorem applyAt {path : Path}
    (hvisit : ∀ a w, w.Fills p → Agree (Value.Fills p) fails (visit a w) (visit' a w))
    (hpath : ∀ segment ∈ path.segments, overlong segment = true → fails .tooManyDigits) {v : Value}
    (hv : v.madeOf p = true)
    : Agree (fun w => w.madeOf p = true) fails (Reshape.applyAt path visit v)
        (Reshape.applyAt path visit' v) := by
  unfold Reshape.applyAt
  split
  · apply bind (hvisit [] v (Or.inr hv))
    intro new hnew
    exact ok hnew.orNull
  · next segments hne =>
    cases hsegments : path.segments with
    | nil => exact absurd hsegments hne
    | cons segment rest =>
      rw [hsegments] at hpath
      refine walk_cons ?_ (hpath segment List.mem_cons_self) hv
      intro slot w hw
      apply walk _ _ hw
      · intro a u hu
        exact hvisit (slot :: a) u hu
      · intro segment' hmem
        exact hpath segment' (List.mem_cons_of_mem _ hmem)

theorem skipMissing {visit visit' : Value → Outcome Value}
    (hvisit : ∀ w, w.madeOf p = true → Agree (Value.Fills p) fails (visit w) (visit' w)) {v : Value}
    (hv : v.Fills p)
    : Agree (Value.Fills p) fails (Reshape.skipMissing visit v) (Reshape.skipMissing visit' v) := by
  cases v with
  | missing => exact ok (Or.inl rfl)
  | _ => exact hvisit _ (hv.madeOf_of_ne (by rintro ⟨⟩))

end Walk

end Agree

theorem Surroundings.agree_callHost (s : Surroundings) {function : String} {v : Value}
    {done : Value → Prop} {fails : Error → Prop}
    (hdone : ∀ w, s.host.call function v = .ok w → done w)
    (hfails : ∀ message, fails (.raised message))
    : Agree done fails (s.callHost function v) (s.callHost function v) := by
  unfold callHost
  split
  · next w hw => exact Agree.ok (hdone w hw)
  · exact Agree.fail (hfails _)

end Reshape
