import Reshape.Proofs.Relocation

/-!
This module contains relocation without a pivot, which follows both paths from the value itself. The
main statement, `relocate_eq_plain`, says that following them from the pivot instead changes nothing
but how a report names its destination.
-/

namespace Reshape

/--
An event with another destination.
-/
def Event.toward (destination : String) : Event → Event
  | .overwrote typeName key _ => .overwrote typeName key destination
  | event => event

theorem Event.isWarning_toward (destination : String) (event : Event)
    : (event.toward destination).isWarning = event.isWarning := by
  cases event <;> rfl

namespace Value

/--
Puts a value under segments, if there is a place for the first one of them.
-/
def placeFromRoot (v : Value) (segments : List String) (new : Value) :
    Except Error (Value × List Event) :=
  match segments with
  | [] => .ok (new, [])
  | segment :: _ =>
    if v.refuses segment then .error .tooManyDigits
    else if v.accepts segment then v.placeAt segments new
    else .ok (v, [])

end Value

/--
Looks the source up from the value itself, gives it up there unless it is kept, and puts it under all
segments of the target.
-/
def relocatePlain (keep : Bool) (source target : List String) (root : Value) : Relocation :=
  match root.read source with
  | .error e => .fail root e
  | .ok found =>
    if found = .missing then
      .stay root
    else
      let left := root.remainder keep source
      .ofPlaced left id (left.placeFromRoot target found)

namespace Value

section Place

variable {v w new : Value} {p : List String}

/--
What is reported when the content of a place makes way for an object.
-/
def notice (destination segment : String) (content : Value) : List Event :=
  if content = .missing then [] else [.overwrote content.typeName segment destination]

theorem place_cons (new : Value) (destination segment next : String) (rest : List String)
    (v : Value)
    : place new destination (segment :: next :: rest) v =
        if (v.child segment).refuses next then
          .error .tooManyDigits
        else if (v.child segment).accepts next then
          (place new destination (next :: rest) (v.child segment)).map fun placed =>
            (v.assign segment placed.1, placed.2)
        else
          .ok (v.assign segment (new.nest (next :: rest)),
            notice destination segment (v.child segment)) := by
  rw [place]
  dsimp only
  split
  · rfl
  · split
    · cases place new destination (next :: rest) (v.child segment) <;> rfl
    · rfl

theorem notice_toward (destination destination' segment : String) (content : Value)
    : notice destination' segment content =
        (notice destination segment content).map (Event.toward destination') := by
  unfold notice
  split <;> rfl

/--
The destination that a placement is given is that of its report and nothing else.
-/
theorem place_toward (new : Value) (destination destination' : String) (segments : List String)
    (v : Value)
    : place new destination' segments v =
        (place new destination segments v).map fun placed =>
          (placed.1, placed.2.map (Event.toward destination')) := by
  induction segments generalizing v with
  | nil => rfl
  | cons segment rest ih =>
    cases rest with
    | nil => rfl
    | cons next rest =>
      rw [place_cons, place_cons]
      split
      · rfl
      · split
        · rw [ih]
          cases place new destination (next :: rest) (v.child segment) <;> rfl
        · rw [notice_toward destination destination']
          rfl

theorem head_of_leads (h : v.leads p w) {segment : String} (hr : w.refuses segment = false)
    (ha : w.accepts segment = true) (rest : List String)
    : ∃ next tail, p ++ segment :: rest = next :: tail ∧ v.refuses next = false ∧
        v.accepts next = true := by
  cases p with
  | nil =>
    rw [leads_nil] at h
    rw [h] at hr ha
    exact ⟨segment, rest, rfl, hr, ha⟩
  | cons first p =>
    exact ⟨first, p ++ segment :: rest, rfl, (leads_cons.mp h).1,
      accepts_of_child_ne (child_ne_of_leads h)⟩

/--
A placement leaves the containers that it goes through as they are.
-/
theorem place_append (h : v.leads p w) (new : Value) (destination : String) {segment : String}
    (hr : w.refuses segment = false) (ha : w.accepts segment = true) (rest : List String)
    : place new destination (p ++ segment :: rest) v =
        (place new destination (segment :: rest) w).map fun placed =>
          (v.replace placed.1 p, placed.2) := by
  induction p generalizing v with
  | nil =>
    rw [leads_nil] at h
    rw [h, List.nil_append]
    cases place new destination (segment :: rest) v <;> rfl
  | cons first p ih =>
    obtain ⟨-, -, hp⟩ := leads_cons.mp h
    obtain ⟨next, tail, hcons, hrefuses, haccepts⟩ := head_of_leads hp hr ha rest
    rw [List.cons_append, hcons, place_cons, if_neg (by simp [hrefuses]), if_pos haccepts, ← hcons,
      ih hp]
    cases place new destination (segment :: rest) w <;> rfl

end Place

end Value

section Relocate

variable {source target : List String} {root start found : Value}

theorem relocate_of_reached (keep : Bool) (hs : source ≠ []) (ht : target ≠ [])
    (h : relocated? source target root = .ok (some (start, found)))
    : let shared := pivot source target
      let left := if keep then start else start.detach (source.drop shared.length)
      relocate keep source target root =
        .ofPlaced (root.replace left shared) (root.replace · shared)
          (left.placeAt (target.drop shared.length) found) := by
  unfold relocate
  simp only [List.isEmpty_iff, hs, ht, ↓reduceIte, h]

theorem reached_spec (hs : source ≠ []) (ht : target ≠ [])
    (h : relocated? source target root = .ok (some (start, found)))
    : start = root.seek (pivot source target) ∧ found = root.seek source ∧ found ≠ .missing ∧
        root.blocked source = false ∧ start.refuses (fork source target) = false ∧
        start.accepts (fork source target) = true := by
  have hlookup := relocated?_eq hs ht root
  dsimp only at hlookup
  rw [h] at hlookup
  split at hlookup
  · cases hlookup
  · next hr =>
    split at hlookup
    · cases hlookup
    · next hstay =>
      simp only [Except.ok.injEq, Option.some.injEq, Prod.mk.injEq] at hlookup
      simp only [not_or, not_and, Bool.not_eq_true, Bool.not_eq_false] at hr hstay
      obtain ⟨rfl, rfl⟩ := hlookup
      exact ⟨rfl, rfl, hstay.1, hr.1, hr.2 hstay.1, hstay.2⟩

/--
Following both paths from the pivot comes to the same as following them from the value itself, as soon
as there is something to relocate and a place for it at the pivot. The two reports tell of the same
event, or of none, but the one from the pivot names the destination as it is seen from there.
-/
theorem relocate_eq_plain (keep : Bool) (source target : Path) (root start found : Value)
    (hs : source.isRoot = false) (ht : target.isRoot = false)
    (h : relocated? source.segments target.segments root = .ok (some (start, found)))
    : let x := relocate keep source.segments target.segments root
      let plain := relocatePlain keep source.segments target.segments root
      plain.value = x.value ∧ plain.failure = x.failure ∧
        plain.log = x.log.map (Event.toward (String.intercalate "." target.segments)) ∧
        (plain.log.any Event.isWarning = x.log.any Event.isWarning) := by
  have hs : source.segments ≠ [] := by simpa [Path.isRoot] using hs
  have ht : target.segments ≠ [] := by simpa [Path.isRoot] using ht
  generalize source.segments = source at *
  generalize target.segments = target at *
  intro x plain
  obtain ⟨hstart, hfound, hpresent, hb, hr, ha⟩ := reached_spec hs ht h
  have hx : x = _ := relocate_of_reached keep hs ht h
  have hleads : root.leads (pivot source target) start := by
    rw [hstart] at ha ⊢
    apply leads_pivot hs ht hb ha
    rw [← hfound]
    exact hpresent
  obtain ⟨q, t, hq, hsource, htarget⟩ := pivot_spec hs ht
  generalize pivot source target = p at *
  generalize fork source target = next at *
  subst hsource htarget
  rw [List.drop_left, List.drop_left] at hx
  -- The source is given up below the pivot, so the containers above it are there for the target.
  obtain ⟨hleft, hreplace⟩ := leads_remainder keep hq hleads
  have hframe := frame_ite_detach keep hq start
  generalize (if keep then start else start.detach q) = left at *
  rw [← Value.refuses_congr hframe] at hr
  rw [← Value.accepts_congr hframe] at ha
  obtain ⟨first, tail, hcons, hrefuses, haccepts⟩ := Value.head_of_leads hleft hr ha t
  have hplain : plain = .ofPlaced (root.remainder keep (p ++ q)) id
      ((root.remainder keep (p ++ q)).placeAt (p ++ next :: t) found) := by
    have hread : root.read (p ++ q) = .ok found := by
      rw [Value.read_eq, hb, hfound]
      rfl
    show relocatePlain keep (p ++ q) (p ++ next :: t) root = _
    rw [relocatePlain, hread, hcons]
    simp [Value.placeFromRoot, hpresent, hrefuses, haccepts]
  rw [hplain, hx, Value.placeAt, Value.placeAt,
    Value.place_toward found (String.intercalate "." (next :: t)), Value.place_append hleft _ _ hr ha,
    hreplace]
  cases Value.place found (String.intercalate "." (next :: t)) (next :: t) left with
  | error e => exact ⟨rfl, rfl, rfl, rfl⟩
  | ok placed =>
    refine ⟨Value.replace_replace hleads _ _, rfl, rfl, ?_⟩
    show (placed.2.map _).any _ = placed.2.any _
    rw [List.any_map]
    congr 1
    funext event
    exact event.isWarning_toward _

theorem relocate_eq_plain_overlap
    : let root : Value := .object [(.str "x", .list [.int 1])]
      let x := relocate false ["x", "0"] ["x", "00", "d"] root
      let plain := relocatePlain false ["x", "0"] ["x", "00", "d"] root
      Path.isRoot ⟨"x.0"⟩ = false ∧ Path.isRoot ⟨"x.00.d"⟩ = false ∧
        relocated? ["x", "0"] ["x", "00", "d"] root = .ok (some (.list [.int 1], .int 1)) ∧
        plain.value = x.value ∧ plain.failure = x.failure ∧
        plain.log = x.log.map (Event.toward "x.00.d") ∧
        (plain.log.any Event.isWarning = x.log.any Event.isWarning) := by
  intro root x plain
  have hs : Path.isRoot ⟨"x.0"⟩ = false := by decide +kernel
  have ht : Path.isRoot ⟨"x.00.d"⟩ = false := by decide +kernel
  have hsource : Path.segments ⟨"x.0"⟩ = ["x", "0"] := by decide +kernel
  have htarget : Path.segments ⟨"x.00.d"⟩ = ["x", "00", "d"] := by decide +kernel
  have hreached : relocated? ["x", "0"] ["x", "00", "d"] root =
      .ok (some (.list [.int 1], .int 1)) := by rfl
  have h := relocate_eq_plain false ⟨"x.0"⟩ ⟨"x.00.d"⟩ root (.list [.int 1]) (.int 1) hs ht
  rw [hsource, htarget] at h
  have hjoined : String.intercalate "." ["x", "00", "d"] = "x.00.d" := by decide +kernel
  rw [hjoined] at h
  exact ⟨hs, ht, hreached, h hreached⟩

end Relocate

end Reshape
