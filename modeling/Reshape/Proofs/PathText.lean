import Reshape.Walk

/-!
This module contains the text of paths. Paths that are put together have the segments that they were
made of (`segments_ofSegments` and `segments_field`). The main statement, `text_segments`, says that
text and segments determine each other, and what two paths share.
-/

namespace Reshape

/--
The path with the given segments.
-/
def Path.ofSegments (segments : List String) : Path :=
  ⟨String.ofList (joinDots (segments.map String.toList))⟩

/--
The path to a field of what a path leads to.
-/
def Path.field (path : Path) (name : String) : Path :=
  if path.isRoot then ⟨name⟩ else ⟨path.raw ++ "." ++ name⟩

section Dots

theorem splitDots_append (a b : List Char)
    : splitDots (a ++ '.' :: b) = splitDots a ++ splitDots b := by
  induction a with
  | nil => simp [splitDots]
  | cons c a ih =>
    rw [List.cons_append, splitDots, splitDots, ih]
    split
    · rfl
    · obtain ⟨piece, pieces, hpieces⟩ := List.exists_cons_of_ne_nil (splitDots_ne_nil a)
      rw [hpieces]
      rfl

theorem splitDots_of_not_mem {cs : List Char} (h : '.' ∉ cs) : splitDots cs = [cs] := by
  induction cs with
  | nil => rfl
  | cons c cs ih =>
    rw [List.mem_cons, not_or] at h
    rw [splitDots, if_neg (Ne.symm h.1), ih h.2]

/--
Joining pieces and splitting the text again gives them back.
-/
theorem splitDots_joinDots {pieces : List (List Char)} (hne : pieces ≠ [])
    (h : ∀ piece ∈ pieces, '.' ∉ piece)
    : splitDots (joinDots pieces) = pieces := by
  induction pieces with
  | nil => exact absurd rfl hne
  | cons piece pieces ih =>
    rw [List.forall_mem_cons] at h
    cases pieces with
    | nil => exact splitDots_of_not_mem h.1
    | cons next pieces =>
      rw [joinDots, splitDots_append, splitDots_of_not_mem h.1, ih (List.cons_ne_nil _ _) h.2]
      · rfl
      · exact List.cons_ne_nil next pieces

theorem intercalate_dot (segments : List String)
    : String.intercalate "." segments =
        String.ofList (joinDots (segments.map String.toList)) := by
  induction segments with
  | nil => rfl
  | cons segment segments ih =>
    cases segments with
    | nil => rw [String.intercalate_singleton, List.map_singleton, joinDots, String.ofList_toList]
    | cons next segments =>
      rw [String.intercalate_cons_cons, ih, ← String.toList_inj]
      simp [joinDots]

end Dots

section SharedStart

theorem sharedStart_prefix_left (as bs : List String) : sharedStart as bs <+: as := by
  induction as generalizing bs with
  | nil => simp [sharedStart]
  | cons a as ih =>
    cases bs with
    | nil => simp [sharedStart]
    | cons b bs =>
      rw [sharedStart]
      split
      · rw [List.cons_prefix_cons]
        exact ⟨rfl, ih bs⟩
      · apply List.nil_prefix

theorem sharedStart_comm (as bs : List String) : sharedStart as bs = sharedStart bs as := by
  induction as generalizing bs with
  | nil => cases bs <;> rfl
  | cons a as ih =>
    cases bs with
    | nil => rfl
    | cons b bs =>
      rw [sharedStart, sharedStart]
      by_cases h : a = b
      · rw [if_pos h, if_pos h.symm, ih, h]
      · rw [if_neg h, if_neg fun e => h e.symm]

theorem sharedStart_append (p as bs : List String)
    : sharedStart (p ++ as) (p ++ bs) = p ++ sharedStart as bs := by
  induction p with
  | nil => rfl
  | cons segment p ih =>
    rw [List.cons_append, List.cons_append, sharedStart, if_pos rfl, ih]
    rfl

/--
Whatever two lists both start with, what they share starts with it too.
-/
theorem prefix_sharedStart {shared as bs : List String} (has : shared <+: as) (hbs : shared <+: bs)
    : shared <+: sharedStart as bs := by
  obtain ⟨as, rfl⟩ := has
  obtain ⟨bs, rfl⟩ := hbs
  rw [sharedStart_append]
  apply List.prefix_append

end SharedStart

namespace Path

variable {path : Path} {segments : List String} {name : String}

theorem not_mem_of_mem_segments {segment : String} (h : segment ∈ path.segments)
    : '.' ∉ segment.toList := by
  unfold Path.segments at h
  split at h
  · cases h
  · obtain ⟨piece, hpiece, rfl⟩ := List.mem_map.mp h
    rw [String.toList_ofList]
    exact not_mem_of_mem_splitDots hpiece

theorem segments_of_raw {raw : String} (hempty : raw ≠ "") (hdot : raw ≠ ".")
    : Path.segments ⟨raw⟩ = (splitDots raw.toList).map String.ofList := by
  rw [Path.segments, if_neg]
  rw [not_or]
  exact ⟨hempty, hdot⟩

/--
Dot-free segments have a path, unless their text would be one of the two for no segments at all.
-/
theorem segments_ofSegments (hne : segments ≠ []) (hempty : segments ≠ [""])
    (hdot : segments ≠ ["", ""]) (h : ∀ segment ∈ segments, '.' ∉ segment.toList)
    : (ofSegments segments).segments = segments := by
  have hsplit : splitDots (joinDots (segments.map String.toList)) = segments.map String.toList := by
    apply splitDots_joinDots
    · rw [ne_eq, List.map_eq_nil_iff]
      exact hne
    · rw [List.forall_mem_map]
      exact h
  have hback : (segments.map String.toList).map String.ofList = segments := by
    rw [List.map_map]
    conv =>
      rhs
      rw [← List.map_id segments]
    apply List.map_congr_left
    intro segment _
    exact String.ofList_toList
  -- The text tells the segments, so it is neither of the two texts of the root.
  have hraw (raw : String) (hpieces : (splitDots raw.toList).map String.ofList ≠ segments)
      : String.ofList (joinDots (segments.map String.toList)) ≠ raw := by
    rintro rfl
    rw [String.toList_ofList, hsplit] at hpieces
    exact hpieces hback
  rw [ofSegments, segments_of_raw, String.toList_ofList, hsplit, hback]
  · exact hraw "" hempty.symm
  · exact hraw "." hdot.symm

theorem segments_single (h : '.' ∉ name.toList) (hne : name ≠ "")
    : Path.segments ⟨name⟩ = [name] := by
  have hdot : name ≠ "." := by
    rintro rfl
    exact h (by decide)
  rw [segments_of_raw hne hdot, splitDots_of_not_mem h, List.map_singleton, String.ofList_toList]

theorem segments_of_isRoot (h : path.isRoot = true) : path.segments = [] :=
  List.isEmpty_iff.mp h

/--
The path to a dot-free field goes on by one segment. Only below the root the name must not be empty,
since its text alone would be that of the root again.
-/
theorem segments_field (h : '.' ∉ name.toList) (hroot : path.isRoot = true → name ≠ "")
    : (path.field name).segments = path.segments ++ [name] := by
  cases hpath : path.isRoot with
  | true =>
    rw [field, if_pos hpath, segments_single h (hroot hpath), segments_of_isRoot hpath]
    rfl
  | false =>
    have hraw : ¬ (path.raw = "" ∨ path.raw = ".") := by
      intro hraw
      rw [Path.isRoot, Path.segments, if_pos hraw] at hpath
      cases hpath
    have htext : (path.raw ++ "." ++ name).toList = path.raw.toList ++ '.' :: name.toList := by
      simp
    obtain ⟨c, cs, hcs⟩ : ∃ c cs, path.raw.toList = c :: cs := by
      apply List.exists_cons_of_ne_nil
      rw [ne_eq, String.toList_eq_nil_iff]
      exact fun hempty => hraw (Or.inl hempty)
    rw [field, if_neg (by simp [hpath]), segments_of_raw, htext, splitDots_append,
      splitDots_of_not_mem h, List.map_append, Path.segments, if_neg hraw, List.map_singleton,
      String.ofList_toList]
    · intro hempty
      simp [hempty, hcs] at htext
    · intro hdot
      simp [hdot, hcs] at htext

/--
The segments of a path, joined by dots, are its text again, but for the second text of the root.
-/
theorem intercalate_segments {raw : String} (hdot : raw ≠ ".")
    : String.intercalate "." (Path.segments ⟨raw⟩) = raw := by
  by_cases hempty : raw = ""
  · rw [hempty, Path.segments, if_pos (Or.inl rfl), String.intercalate_nil]
  · have hback (pieces : List (List Char))
        : (pieces.map String.ofList).map String.toList = pieces := by
      simp [Function.comp_def]
    rw [segments_of_raw hempty hdot, intercalate_dot, hback, joinDots_splitDots,
      String.ofList_toList]

theorem segments_eq_nil_iff {raw : String} : Path.segments ⟨raw⟩ = [] ↔ raw = "" ∨ raw = "." := by
  unfold Path.segments
  split
  · next h => exact ⟨fun _ => h, fun _ => rfl⟩
  · next h =>
    refine ⟨fun hnil => ?_, fun h' => absurd h' h⟩
    exact absurd (List.map_eq_nil_iff.mp hnil) (splitDots_ne_nil _)

/--
The text of a path and its segments determine each other. Every text but the two of the root has
segments, none of which contains a dot, and joined by dots they are the text again. Every list of
such segments is read from its joined text, unless that is one of the two of the root. So no two
texts but these have the same segments. What two paths share is the greatest common start of their
segments, in whichever order they are compared.
-/
theorem text_segments
    : let read (raw : String) := (Path.ofValue (.str raw)).map Path.segments
      (∀ raw, raw ≠ "" → raw ≠ "." → ∃ segments, read raw = .ok segments ∧ segments ≠ [] ∧
        (∀ segment ∈ segments, '.' ∉ segment.toList) ∧ String.intercalate "." segments = raw) ∧
      (∀ segments, segments ≠ [] → segments ≠ [""] → segments ≠ ["", ""] →
        (∀ segment ∈ segments, '.' ∉ segment.toList) →
        read (String.intercalate "." segments) = .ok segments) ∧
      (∀ raw raw', raw ≠ "" → raw ≠ "." → raw' ≠ "" → raw' ≠ "." → read raw = read raw' →
        raw = raw') ∧
      ∀ left right : Path,
        left.commonStart right <+: left.segments ∧ left.commonStart right <+: right.segments ∧
          (∀ shared, shared <+: left.segments → shared <+: right.segments →
            shared <+: left.commonStart right) ∧
          right.commonStart left = left.commonStart right := by
  intro read
  have hread (raw : String) : read raw = .ok (Path.segments ⟨raw⟩) := rfl
  refine ⟨?_, ?_, ?_, ?_⟩
  · intro raw hempty hdot
    refine ⟨_, hread raw, ?_, fun _ => not_mem_of_mem_segments, intercalate_segments hdot⟩
    rw [ne_eq, segments_eq_nil_iff, not_or]
    exact ⟨hempty, hdot⟩
  · intro segments hne hempty hdot hfree
    rw [hread, intercalate_dot]
    exact congrArg Except.ok (segments_ofSegments hne hempty hdot hfree)
  · intro raw raw' _ hdot _ hdot' hsame
    rw [hread, hread, Except.ok.injEq] at hsame
    rw [← intercalate_segments hdot, hsame, intercalate_segments hdot']
  · intro left right
    refine ⟨sharedStart_prefix_left _ _, ?_, fun _ => prefix_sharedStart, sharedStart_comm _ _⟩
    rw [commonStart, sharedStart_comm]
    apply sharedStart_prefix_left

theorem text_segments_repeated
    : let read (raw : String) := (Path.ofValue (.str raw)).map Path.segments
      let segments := ["", "a", "", "$"]
      ".a..$" ≠ "" ∧ ".a..$" ≠ "." ∧ (∀ segment ∈ segments, '.' ∉ segment.toList) ∧
        String.intercalate "." segments = ".a..$" ∧ read ".a..$" = .ok segments ∧
        (∀ raw, raw ≠ "" → raw ≠ "." → read raw = .ok segments → raw = ".a..$") ∧
        Path.commonStart ⟨".a..$"⟩ ⟨".a.b.$"⟩ = ["", "a"] ∧
        ∀ shared, shared <+: segments → shared <+: ["", "a", "b", "$"] → shared <+: ["", "a"] := by
  intro read segments
  obtain ⟨-, hback, hinj, hshared⟩ := text_segments
  have hempty : ".a..$" ≠ "" := by decide
  have hdot : ".a..$" ≠ "." := by decide
  have hfree : ∀ segment ∈ segments, '.' ∉ segment.toList := by decide
  have hjoin : String.intercalate "." segments = ".a..$" := by decide +kernel
  have hread : read ".a..$" = .ok segments := by
    rw [← hjoin]
    exact hback segments (by decide) (by decide) (by decide) hfree
  have hleft : Path.segments ⟨".a..$"⟩ = segments := by decide +kernel
  have hright : Path.segments ⟨".a.b.$"⟩ = ["", "a", "b", "$"] := by decide +kernel
  have hcommon : Path.commonStart ⟨".a..$"⟩ ⟨".a.b.$"⟩ = ["", "a"] := by decide +kernel
  obtain ⟨-, -, hgreatest, -⟩ := hshared ⟨".a..$"⟩ ⟨".a.b.$"⟩
  rw [hleft, hright, hcommon] at hgreatest
  refine ⟨hempty, hdot, hfree, hjoin, hread, ?_, hcommon, hgreatest⟩
  intro raw hraw hraw' hsame
  exact hinj raw ".a..$" hraw hraw' hempty hdot (hsame.trans hread.symm)

end Path

end Reshape
