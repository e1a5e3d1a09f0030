/-!
This module contains paths, the dot separated locators of fields. The main statement
about their text, `joinDots_splitDots`, says that joining its pieces gives it back.
-/

namespace Reshape

/--
Splits a text at every dot. There is one piece more than there are dots.
-/
def splitDots : List Char → List (List Char)
  | [] => [[]]
  | c :: cs =>
    if c = '.' then
      [] :: splitDots cs
    else
      match splitDots cs with
      | [] => [[c]]
      | piece :: pieces => (c :: piece) :: pieces

def joinDots : List (List Char) → List Char
  | [] => []
  | [piece] => piece
  | piece :: pieces => piece ++ '.' :: joinDots pieces

theorem splitDots_ne_nil (cs : List Char) : splitDots cs ≠ [] := by
  cases cs with
  | nil => simp [splitDots]
  | cons c cs =>
    simp only [splitDots]
    split
    · simp
    · split <;> simp

theorem joinDots_splitDots (cs : List Char) : joinDots (splitDots cs) = cs := by
  induction cs with
  | nil => rfl
  | cons c cs ih =>
    simp only [splitDots]
    split
    · next h =>
      match hs : splitDots cs with
      | [] => exact absurd hs (splitDots_ne_nil cs)
      | piece :: pieces =>
        rw [hs] at ih
        simp [joinDots, ih, h]
    · match hs : splitDots cs with
      | [] => exact absurd hs (splitDots_ne_nil cs)
      | [piece] =>
        rw [hs] at ih
        simpa [joinDots] using ih
      | piece :: next :: pieces =>
        rw [hs] at ih
        simpa [joinDots] using ih

theorem not_mem_of_mem_splitDots {cs piece : List Char} (h : piece ∈ splitDots cs) :
    '.' ∉ piece := by
  induction cs generalizing piece with
  | nil => simp_all [splitDots]
  | cons c cs ih =>
    simp only [splitDots] at h
    split at h
    · simp only [List.mem_cons] at h
      rcases h with rfl | h
      · simp
      · exact ih h
    · next hc =>
      match hs : splitDots cs with
      | [] => exact absurd hs (splitDots_ne_nil cs)
      | first :: pieces =>
        simp only [hs, List.mem_cons] at h ih
        rcases h with rfl | h
        · simpa [eq_comm, hc] using ih (Or.inl rfl)
        · exact ih (Or.inr h)

/--
A path is known by its text.
-/
structure Path where
  raw : String
  deriving DecidableEq, Inhabited

namespace Path

/--
The segment that stands for every element of a list.
-/
def wildcard : String := "$"

def root : Path := ⟨"."⟩

/--
The segments of a path, outermost first. The empty text and the lone dot have none.
-/
def segments (path : Path) : List String :=
  if path.raw = "" ∨ path.raw = "." then [] else (splitDots path.raw.toList).map String.ofList

def isRoot (path : Path) : Bool :=
  path.segments.isEmpty

def hasWildcard (path : Path) : Bool :=
  path.segments.contains wildcard

def length (path : Path) : Nat :=
  path.segments.length

end Path

def sharedStart {α : Type} [DecidableEq α] : List α → List α → List α
  | a :: as, b :: bs => if a = b then a :: sharedStart as bs else []
  | _, _ => []

def Path.commonStart (left right : Path) : List String :=
  sharedStart left.segments right.segments

end Reshape
