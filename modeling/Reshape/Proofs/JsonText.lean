import Mathlib.Tactic.SplitIfs
import Reshape.Proofs.JsonString
import Reshape.Proofs.Lookup

/-!
This module contains what the compact JSON text of a value tells about the value. No such text is
the start of another one, up to what can follow a value. So the main statement,
`containers_of_toText`, says that no two containers of plain data share their string cast, and that
no key but the text itself is cast to the text of a container.
-/

namespace Reshape

open Text

/--
Whether what follows a text can follow a JSON value: nothing, or a separator, or the end of a
container.
-/
def Closes (rest : List Char) : Prop :=
  ∀ c, rest.head? = some c → c = ',' ∨ c = ']' ∨ c = '\x7d'

namespace Closes

theorem nil : Closes [] := nofun

theorem comma (rest : List Char) : Closes (',' :: rest) := by
  rintro c ⟨⟩
  exact Or.inl rfl

theorem bracket (rest : List Char) : Closes (']' :: rest) := by
  rintro c ⟨⟩
  exact Or.inr (Or.inl rfl)

theorem brace (rest : List Char) : Closes ('\x7d' :: rest) := by
  rintro c ⟨⟩
  exact Or.inr (Or.inr rfl)

theorem takeWhile_digits {rest : List Char} (h : Closes rest)
    : rest.takeWhile isAsciiDigit = [] := by
  cases rest with
  | nil => rfl
  | cons c rest =>
    rcases h c rfl with rfl | rfl | rfl
    · rfl
    · rfl
    · rfl

end Closes

namespace Decimal

variable {rest rest' : List Char}

theorem natText_append_inj {m n : Nat} (hrest : Closes rest) (hrest' : Closes rest')
    (h : natText m ++ rest = natText n ++ rest') : m = n ∧ rest = rest' := by
  have hdigits (n : Nat) {rest : List Char} (hrest : Closes rest)
      : (natText n ++ rest).takeWhile isAsciiDigit = natText n := by
    rw [List.takeWhile_append_of_pos fun _ => isAsciiDigit_of_mem_natText, hrest.takeWhile_digits,
      List.append_nil]
  have htext : natText m = natText n := by
    rw [← hdigits m hrest, h, hdigits n hrest']
  rw [htext] at h
  refine ⟨?_, List.append_cancel_left h⟩
  rw [← readNat_natText m, htext, readNat_natText]

theorem exists_natText (n : Nat) : ∃ c cs, natText n = c :: cs ∧ isAsciiDigit c = true := by
  obtain ⟨c, cs, h⟩ := List.exists_cons_of_ne_nil (natText_ne_nil n)
  refine ⟨c, cs, h, isAsciiDigit_of_mem_natText (n := n) ?_⟩
  rw [h]
  exact List.mem_cons_self

theorem minus_ne_natText (n : Nat) : '-' :: rest ≠ natText n ++ rest' := by
  obtain ⟨c, cs, htext, hc⟩ := exists_natText n
  rw [htext, List.cons_append]
  intro h
  rw [← (List.cons.inj h).1] at hc
  cases hc

theorem intText_append_inj {m n : Int} (hrest : Closes rest) (hrest' : Closes rest')
    (h : intText m ++ rest = intText n ++ rest') : m = n ∧ rest = rest' := by
  unfold intText at h
  split at h
  · next hm =>
    split at h
    · next hn =>
      obtain ⟨habs, hrest⟩ := natText_append_inj hrest hrest' (List.cons.inj h).2
      exact ⟨by omega, hrest⟩
    · exact absurd h (minus_ne_natText _)
  · next hm =>
    split at h
    · exact absurd h.symm (minus_ne_natText _)
    · next hn =>
      obtain ⟨habs, hrest⟩ := natText_append_inj hrest hrest' h
      exact ⟨by omega, hrest⟩

end Decimal

namespace Value

mutual

/--
Whether a value is made of null, booleans, integers, texts, lists and objects with text keys alone.
-/
def isPlain : Value → Bool
  | .null | .bool _ | .int _ | .str _ => true
  | .list items => itemsPlain items
  | .object fields => fieldsPlain fields
  | _ => false

@[inherit_doc isPlain]
def itemsPlain : List Value → Bool
  | [] => true
  | v :: vs => isPlain v && itemsPlain vs

@[inherit_doc isPlain]
def fieldsPlain : List (Key × Value) → Bool
  | [] => true
  | (.str _, v) :: fields => isPlain v && fieldsPlain fields
  | _ :: _ => false

end

inductive Kind where
  | null
  | boolean
  | number
  | string
  | array
  | object

/--
What kind of JSON a plain value is written as.
-/
def kind : Value → Kind
  | .null => .null
  | .bool _ => .boolean
  | .str _ => .string
  | .list _ => .array
  | .object _ => .object
  | _ => .number

/--
The kind of JSON that a text is, told by its first character. The ends of containers start none.
-/
def kindOf (c : Char) : Option Kind :=
  if c = 'n' then some .null
  else if c = 't' ∨ c = 'f' then some .boolean
  else if c = '"' then some .string
  else if c = '[' then some .array
  else if c = '\x7b' then some .object
  else if c = '-' ∨ isAsciiDigit c = true then some .number
  else none

theorem kindOf_digit {c : Char} (h : isAsciiDigit c = true) : kindOf c = some .number := by
  unfold kindOf
  split_ifs with hn hb hs ha ho
  · rw [hn] at h
    cases h
  · rcases hb with rfl | rfl
    · cases h
    · cases h
  · rw [hs] at h
    cases h
  · rw [ha] at h
    cases h
  · rw [ho] at h
    cases h
  · rfl
  · next hnumber => exact absurd (Or.inr h) hnumber

theorem exists_jsonText {v : Value} (h : v.isPlain = true)
    : ∃ c cs, v.jsonText = c :: cs ∧ kindOf c = some v.kind := by
  cases v with
  | null => exact ⟨_, _, rfl, rfl⟩
  | bool b => cases b <;> exact ⟨_, _, rfl, rfl⟩
  | int n =>
    unfold jsonText Decimal.intText
    split
    · exact ⟨_, _, rfl, rfl⟩
    · obtain ⟨c, cs, htext, hc⟩ := Decimal.exists_natText n.natAbs
      exact ⟨c, cs, htext, kindOf_digit hc⟩
  | str s => exact ⟨_, _, rfl, rfl⟩
  | list items =>
    rw [jsonText]
    exact ⟨_, _, rfl, rfl⟩
  | object fields =>
    rw [jsonText]
    exact ⟨_, _, rfl, rfl⟩
  | _ => cases h

section Inj

variable {a b : Value} {rest rest' : List Char}

theorem kind_eq (ha : a.isPlain = true) (hb : b.isPlain = true)
    (h : a.jsonText ++ rest = b.jsonText ++ rest') : a.kind = b.kind := by
  obtain ⟨c, cs, htext, hc⟩ := exists_jsonText ha
  obtain ⟨d, ds, htext', hd⟩ := exists_jsonText hb
  rw [htext, htext'] at h
  rw [(List.cons.inj h).1, hd] at hc
  exact (Option.some.inj hc).symm

theorem bracket_ne_jsonText (hb : b.isPlain = true) : ']' :: rest ≠ b.jsonText ++ rest' := by
  obtain ⟨d, ds, htext, hd⟩ := exists_jsonText hb
  rw [htext]
  intro h
  rw [← (List.cons.inj h).1] at hd
  cases hd

/--
What follows the first item of an array up to its end.
-/
def jsonRest : List Value → List Char
  | [] => []
  | v :: vs => ',' :: jsonItems (v :: vs)

/--
What follows the first field of an object up to its end.
-/
def jsonFieldsRest : List (Key × Value) → List Char
  | [] => []
  | field :: fields => ',' :: jsonFields (field :: fields)

theorem jsonItems_cons (v : Value) (vs : List Value)
    : jsonItems (v :: vs) = jsonText v ++ jsonRest vs := by
  cases vs with
  | nil =>
    rw [jsonRest, List.append_nil]
    rfl
  | cons w ws => rfl

theorem jsonFields_cons (k : Key) (v : Value) (fields : List (Key × Value))
    : jsonFields ((k, v) :: fields) =
        jsonString k.jsonName ++ ':' :: (jsonText v ++ jsonFieldsRest fields) := by
  cases fields with
  | nil =>
    rw [jsonFieldsRest, List.append_nil]
    rfl
  | cons field fields => rfl

theorem closes_jsonRest (vs : List Value) (rest : List Char)
    : Closes (jsonRest vs ++ ']' :: rest) := by
  cases vs with
  | nil => exact Closes.bracket rest
  | cons v vs => exact Closes.comma _

theorem closes_jsonFieldsRest (fields : List (Key × Value)) (rest : List Char)
    : Closes (jsonFieldsRest fields ++ '\x7d' :: rest) := by
  cases fields with
  | nil => exact Closes.brace rest
  | cons field fields => exact Closes.comma _

theorem exists_fieldsPlain {k : Key} {v : Value} {fields : List (Key × Value)}
    (h : fieldsPlain ((k, v) :: fields) = true)
    : ∃ s, k = .str s ∧ v.isPlain = true ∧ fieldsPlain fields = true := by
  cases k with
  | str s =>
    rw [fieldsPlain, Bool.and_eq_true] at h
    exact ⟨s, rfl, h⟩
  | _ => cases h

mutual

/--
No JSON text is the start of another one, up to what can follow a value.
-/
theorem jsonText_append_inj : ∀ (a : Value) {b : Value} {rest rest' : List Char},
    a.isPlain = true → b.isPlain = true → Closes rest → Closes rest' →
    a.jsonText ++ rest = b.jsonText ++ rest' → a = b ∧ rest = rest'
  | .null, b, _, _, ha, hb, _, _, h => by
    have hkind := kind_eq ha hb h
    cases b with
    | null => exact ⟨rfl, List.append_cancel_left h⟩
    | _ => first | exact absurd hb Bool.false_ne_true | cases hkind
  | .bool x, b, _, _, ha, hb, _, _, h => by
    have hkind := kind_eq ha hb h
    cases b with
    | bool y =>
      cases x <;> cases y
      · exact ⟨rfl, List.append_cancel_left h⟩
      · cases (List.cons.inj h).1
      · cases (List.cons.inj h).1
      · exact ⟨rfl, List.append_cancel_left h⟩
    | _ => first | exact absurd hb Bool.false_ne_true | cases hkind
  | .int m, b, _, _, ha, hb, hrest, hrest', h => by
    have hkind := kind_eq ha hb h
    cases b with
    | int n =>
      obtain ⟨rfl, hrest⟩ := Decimal.intText_append_inj hrest hrest' h
      exact ⟨rfl, hrest⟩
    | _ => first | exact absurd hb Bool.false_ne_true | cases hkind
  | .str s, b, _, _, ha, hb, _, _, h => by
    have hkind := kind_eq ha hb h
    cases b with
    | str t =>
      obtain ⟨hs, hrest⟩ := jsonString_append_inj h
      rw [String.toList_inj.mp hs]
      exact ⟨rfl, hrest⟩
    | _ => first | exact absurd hb Bool.false_ne_true | cases hkind
  | .list items, b, _, _, ha, hb, _, _, h => by
    have hkind := kind_eq ha hb h
    cases b with
    | list items' =>
      rw [jsonText, jsonText, List.cons_append, List.cons_append, List.append_assoc,
        List.append_assoc] at h
      obtain ⟨rfl, hrest⟩ := jsonItems_append_inj items ha hb (List.cons.inj h).2
      exact ⟨rfl, hrest⟩
    | _ => first | exact absurd hb Bool.false_ne_true | cases hkind
  | .object fields, b, _, _, ha, hb, _, _, h => by
    have hkind := kind_eq ha hb h
    cases b with
    | object fields' =>
      rw [jsonText, jsonText, List.cons_append, List.cons_append, List.append_assoc,
        List.append_assoc] at h
      obtain ⟨rfl, hrest⟩ := jsonFields_append_inj fields ha hb (List.cons.inj h).2
      exact ⟨rfl, hrest⟩
    | _ => first | exact absurd hb Bool.false_ne_true | cases hkind

theorem jsonItems_append_inj : ∀ (as : List Value) {bs : List Value} {rest rest' : List Char},
    itemsPlain as = true → itemsPlain bs = true →
    jsonItems as ++ ']' :: rest = jsonItems bs ++ ']' :: rest' → as = bs ∧ rest = rest'
  | [], [], _, _, _, _, h => ⟨rfl, (List.cons.inj h).2⟩
  | [], b :: bs, _, _, _, hb, h => by
    rw [itemsPlain, Bool.and_eq_true] at hb
    rw [jsonItems_cons, List.append_assoc] at h
    exact absurd h (bracket_ne_jsonText hb.1)
  | a :: as, [], _, _, ha, _, h => by
    rw [itemsPlain, Bool.and_eq_true] at ha
    rw [jsonItems_cons, List.append_assoc] at h
    exact absurd h.symm (bracket_ne_jsonText ha.1)
  | a :: as, b :: bs, _, _, ha, hb, h => by
    rw [itemsPlain, Bool.and_eq_true] at ha hb
    rw [jsonItems_cons, jsonItems_cons, List.append_assoc, List.append_assoc] at h
    obtain ⟨rfl, hafter⟩ := jsonText_append_inj a ha.1 hb.1 (closes_jsonRest as _)
      (closes_jsonRest bs _) h
    cases as with
    | nil =>
      cases bs with
      | nil => exact ⟨rfl, (List.cons.inj hafter).2⟩
      | cons b bs => cases (List.cons.inj hafter).1
    | cons a as =>
      cases bs with
      | nil => cases (List.cons.inj hafter).1
      | cons b bs =>
        obtain ⟨heq, hrest⟩ := jsonItems_append_inj (a :: as) ha.2 hb.2 (List.cons.inj hafter).2
        exact ⟨by rw [heq], hrest⟩

theorem jsonFields_append_inj : ∀ (as : List (Key × Value)) {bs : List (Key × Value)}
    {rest rest' : List Char}, fieldsPlain as = true → fieldsPlain bs = true →
    jsonFields as ++ '\x7d' :: rest = jsonFields bs ++ '\x7d' :: rest' → as = bs ∧ rest = rest'
  | [], [], _, _, _, _, h => ⟨rfl, (List.cons.inj h).2⟩
  | [], (k, b) :: bs, _, _, _, hb, h => by
    rw [jsonFields_cons] at h
    cases (List.cons.inj h).1
  | (k, a) :: as, [], _, _, ha, _, h => by
    rw [jsonFields_cons] at h
    cases (List.cons.inj h).1
  | (k, a) :: as, (k', b) :: bs, _, _, ha, hb, h => by
    obtain ⟨s, rfl, ha, has⟩ := exists_fieldsPlain ha
    obtain ⟨t, rfl, hb, hbs⟩ := exists_fieldsPlain hb
    rw [jsonFields_cons, jsonFields_cons, List.append_assoc, List.append_assoc] at h
    obtain ⟨hname, hcolon⟩ := jsonString_append_inj h
    have hs : s = t := String.toList_inj.mp hname
    rw [List.cons_append, List.cons_append, List.append_assoc, List.append_assoc] at hcolon
    obtain ⟨rfl, hafter⟩ := jsonText_append_inj a ha hb (closes_jsonFieldsRest as _)
      (closes_jsonFieldsRest bs _) (List.cons.inj hcolon).2
    cases as with
    | nil =>
      cases bs with
      | nil => exact ⟨by rw [hs], (List.cons.inj hafter).2⟩
      | cons b bs => cases (List.cons.inj hafter).1
    | cons a as =>
      cases bs with
      | nil => cases (List.cons.inj hafter).1
      | cons b bs =>
        obtain ⟨heq, hrest⟩ := jsonFields_append_inj (a :: as) has hbs (List.cons.inj hafter).2
        exact ⟨by rw [hs, heq], hrest⟩

end

end Inj

end Value
section Opens

/--
Whether a character is the first one of the texts of containers.
-/
def opens (c : Char) : Bool :=
  c == '[' || c == '\x7b'

theorem opens_of_isAsciiDigit {c : Char} (h : isAsciiDigit c = true) : opens c = false := by
  rw [opens, Bool.or_eq_false_iff, beq_eq_false_iff_ne, beq_eq_false_iff_ne]
  constructor
  · rintro rfl
    cases h
  · rintro rfl
    cases h

namespace Binary64

variable {c : Char}

theorem isAsciiDigit_of_mem_ofNat {digits : Nat} {power : Int}
    (h : c ∈ (Scientific.ofNat digits power).digits) : isAsciiDigit c = true := by
  unfold Scientific.ofNat at h
  have h := (List.dropWhile_sublist _).subset (List.mem_reverse.mp h)
  exact Decimal.isAsciiDigit_of_mem_natText (List.mem_reverse.mp h)

theorem isAsciiDigit_of_mem_shortest {rank : Nat} (h : c ∈ (shortest rank).digits)
    : isAsciiDigit c = true := by
  have hgo (tries : Nat) (power : Int) (h : c ∈ (shortest.go rank tries power).digits)
      : isAsciiDigit c = true := by
    induction tries generalizing power with
    | zero => exact isAsciiDigit_of_mem_ofNat h
    | succ tries ih =>
      unfold shortest.go at h
      split at h
      · exact isAsciiDigit_of_mem_ofNat h
      · exact ih _ h
  exact hgo _ _ h

theorem opens_of_mem_replicate {n : Nat} (h : c ∈ List.replicate n '0') : opens c = false := by
  rw [List.eq_of_mem_replicate h]
  rfl

variable {x : Scientific}

theorem opens_positional (hx : ∀ c ∈ x.digits, opens c = false) (h : c ∈ positional x)
    : opens c = false := by
  unfold positional at h
  split at h
  · simp only [List.mem_cons, List.mem_append] at h
    rcases h with rfl | rfl | h | h
    · rfl
    · rfl
    · exact opens_of_mem_replicate h
    · exact hx c h
  · extract_lets front digits at h
    have hdigits : ∀ c ∈ digits, opens c = false := by
      intro c hc
      rcases List.mem_append.mp hc with hc | hc
      · exact hx c hc
      · exact opens_of_mem_replicate hc
    split at h
    · simp only [List.mem_cons, List.mem_append, List.not_mem_nil, or_false] at h
      rcases h with h | rfl | rfl
      · exact hdigits c h
      · rfl
      · rfl
    · next hrest =>
      simp only [List.mem_cons, List.mem_append] at h
      rcases h with h | rfl | h
      · exact hdigits c (List.mem_of_mem_take h)
      · rfl
      · exact hdigits c (List.mem_of_mem_drop h)

theorem opens_scientific {width : Nat} (hx : ∀ c ∈ x.digits, opens c = false)
    (h : c ∈ scientific width x) : opens c = false := by
  unfold scientific at h
  extract_lets power mantissa at h
  have hmantissa : ∀ c ∈ mantissa, opens c = false := by
    intro c hc
    unfold mantissa at hc
    split at hc
    · next first second rest hdigits =>
      rw [hdigits, List.forall_mem_cons] at hx
      rcases List.mem_cons.mp hc with rfl | hc
      · exact hx.1
      · rcases List.mem_cons.mp hc with rfl | hc
        · rfl
        · exact hx.2 c hc
    · exact hx c hc
  simp only [List.mem_cons, List.mem_append] at h
  rcases h with h | rfl | h | h | h
  · exact hmantissa c h
  · rfl
  · rw [h]
    split
    · rfl
    · rfl
  · exact opens_of_mem_replicate h
  · exact opens_of_isAsciiDigit (Decimal.isAsciiDigit_of_mem_natText h)

theorem opens_magnitudeText {layout : Layout} {rank : Nat} (h : c ∈ magnitudeText layout rank)
    : opens c = false := by
  unfold magnitudeText at h
  extract_lets x at h
  have hx : ∀ c ∈ x.digits, opens c = false := by
    intro c hc
    apply opens_of_isAsciiDigit
    unfold x at hc
    split at hc
    · rw [List.mem_singleton.mp hc]
      rfl
    · exact isAsciiDigit_of_mem_shortest hc
  split at h
  · exact opens_positional hx h
  · exact opens_scientific hx h

end Binary64

variable {c : Char}

theorem Decimal.opens_intText {n : Int} (h : c ∈ intText n) : opens c = false := by
  unfold intText at h
  split at h
  · rcases List.mem_cons.mp h with rfl | h
    · rfl
    · exact opens_of_isAsciiDigit (isAsciiDigit_of_mem_natText h)
  · exact opens_of_isAsciiDigit (isAsciiDigit_of_mem_natText h)

theorem opens_of_mem_word (word : String) (hword : word.toList.any opens = false)
    (h : c ∈ word.toList) : opens c = false := by
  rw [List.any_eq_false] at hword
  exact Bool.eq_false_iff.mpr (hword c h)

theorem Binary64.opens_text {x : Binary64} (h : c ∈ (x.text .json).toList) : opens c = false := by
  cases x with
  | nan => exact opens_of_mem_word "NaN" (by decide) h
  | infinite negative =>
    cases negative with
    | false => exact opens_of_mem_word "Infinity" (by decide) h
    | true => exact opens_of_mem_word "-Infinity" (by decide) h
  | finite negative rank =>
    rw [text, String.toList_ofList] at h
    rcases List.mem_append.mp h with h | h
    · split at h
      · rw [List.mem_singleton.mp h]
        rfl
      · cases h
    · exact opens_magnitudeText h

/--
No bracket stands in the string cast of a key that is no text.
-/
theorem Key.opens_text {k : Key} (hk : ∀ s, k ≠ .str s) (h : c ∈ k.toValue.text.toList)
    : opens c = false := by
  cases k with
  | null => exact opens_of_mem_word "null" (by decide) h
  | bool b =>
    cases b with
    | false => exact opens_of_mem_word "false" (by decide) h
    | true => exact opens_of_mem_word "true" (by decide) h
  | int n =>
    change c ∈ (intString n).toList at h
    rw [intString, String.toList_ofList] at h
    exact Decimal.opens_intText h
  | float x =>
    rw [Key.toValue, Value.text] at h
    split at h
    · rw [intString, String.toList_ofList] at h
      exact Decimal.opens_intText h
    · exact Binary64.opens_text h
  | str s => exact absurd rfl (hk s)

end Opens

section Container

variable {a : Value} {s : String}

theorem Value.text_of_isContainer (h : a.isContainer = true)
    : a.text.toList = a.jsonText ∧ ∃ c ∈ a.jsonText, opens c = true := by
  cases a with
  | list items =>
    refine ⟨String.toList_ofList, '[', ?_, rfl⟩
    rw [jsonText]
    exact List.mem_cons_self
  | object fields =>
    refine ⟨String.toList_ofList, '\x7b', ?_, rfl⟩
    rw [jsonText]
    exact List.mem_cons_self
  | _ => cases h

theorem Value.eq_text_of_toText (h : a.toText = .ok s) : s = a.text := by
  unfold toText at h
  split at h
  · cases h
    rfl
  · cases h

theorem Key.eq_of_text_container {k : Key} (ha : a.isContainer = true)
    (hk : k.toValue.text = a.text) : k = .str a.text := by
  obtain ⟨htext, c, hc, hopens⟩ := Value.text_of_isContainer ha
  rw [← htext, ← hk] at hc
  cases k with
  | str t =>
    rw [← hk]
    rfl
  | _ =>
    rw [Key.opens_text (by rintro _ ⟨⟩) hc] at hopens
    cases hopens

theorem Value.eq_of_text_eq {b : Value} (ha : a.isPlain = true) (hb : b.isPlain = true)
    (hcontainer : a.isContainer = true) (hcontainer' : b.isContainer = true)
    (h : a.text = b.text) : a = b := by
  rw [← String.toList_inj, (text_of_isContainer hcontainer).1,
    (text_of_isContainer hcontainer').1] at h
  have happend : a.jsonText ++ [] = b.jsonText ++ [] := by rw [h]
  exact (jsonText_append_inj a ha hb Closes.nil Closes.nil happend).1

/--
The string cast of a container of plain data is that of no other one, and of no key but itself. So
the look-up of a container in a table finds what stands under its own text, or what stands under the
empty text.
-/
theorem containers_of_toText (hplain : a.isPlain = true) (hcontainer : a.isContainer = true)
    (ha : a.toText = .ok s)
    : (∀ b : Value, b.isPlain = true → b.isContainer = true → b.toText = .ok s → a = b) ∧
        (∀ k : Key, k.toValue.toText = .ok s → k = .str s) ∧
        ∀ (fields : List (Key × Value)) (table : Table) (w : Value),
          Table.ofValue (.object fields) = .ok table → table.find? s = some w →
            (.str s, w) ∈ fields ∨
              (.str "", w) ∈ fields ∧ ∀ field ∈ fields, field.1 ≠ .str s := by
  obtain rfl := Value.eq_text_of_toText ha
  refine ⟨?_, ?_, ?_⟩
  · intro b hplain' hcontainer' hb
    exact Value.eq_of_text_eq hplain hplain' hcontainer hcontainer' (Value.eq_text_of_toText hb)
  · intro k hk
    exact Key.eq_of_text_container hcontainer (Value.eq_text_of_toText hk).symm
  · intro fields table w htable hfind
    rw [Table.find?, Option.or_eq_some_iff] at hfind
    rcases hfind with hown | ⟨hown, hfallback⟩
    · obtain ⟨front, k, back, hfields, hk, -⟩ := Table.exists_last_of_get? htable hown
      rw [hfields, Key.eq_of_text_container hcontainer hk]
      exact Or.inl (List.mem_append_right _ List.mem_cons_self)
    · obtain ⟨front, k, back, hfields, hk, -⟩ := Table.exists_last_of_get? htable hfallback
      refine Or.inr ⟨?_, ?_⟩
      · rw [hfields, Key.eq_of_text_empty hk]
        exact List.mem_append_right _ List.mem_cons_self
      · intro field hfield heq
        refine (Table.get?_eq_none_iff htable).mp hown field hfield ?_
        rw [heq]
        rfl

theorem containers_of_toText_nested
    : let a : Value := .list [.int (-1), .object [(.str "é", .null)], .str "\""]
      let s := "[-1,\x7b\"\\u00e9\":null\x7d,\"\\\"\"]"
      a.isPlain = true ∧ a.isContainer = true ∧ a.toText = .ok s ∧
        (∀ b : Value, b.isPlain = true → b.isContainer = true → b.toText = .ok s → a = b) ∧
        ∀ k : Key, k.toValue.toText = .ok s → k = .str s := by
  intro a s
  have hplain : a.isPlain = true := by decide +kernel
  have hcontainer : a.isContainer = true := by decide +kernel
  have htext : a.toText = .ok s := by decide +kernel
  obtain ⟨hcontainers, hkeys, -⟩ := containers_of_toText hplain hcontainer htext
  exact ⟨hplain, hcontainer, htext, hcontainers, hkeys⟩

end Container

end Reshape
