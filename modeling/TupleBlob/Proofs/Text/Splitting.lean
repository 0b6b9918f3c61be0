import Mathlib.Data.List.DropRight
import TupleBlob.Proofs.Text.Fields

/-! # Splitting is exact

The scanner that divides a text keeps one bit: whether the run of backslashes that it has just read
is odd. Main statement: what a text is divided into joins to the text again, and fields come back
from the text that they join to exactly where every colon in them has an odd run of backslashes
before it, and every field but the last ends in an even run, which may be empty. A text is divided
at its delimiters, and so has one field more than it has of these.
-/

namespace TupleBlob.Fields

/-! ## Runs of backslashes -/

/-- The number of backslashes at the end of the text. -/
def run (text : List Char) : Nat :=
  (text.rtakeWhile (· = '\\')).length

theorem run_concat (text : List Char) (c : Char) :
    run (text ++ [c]) = if c = '\\' then run text + 1 else 0 := by
  rw [run, List.rtakeWhile_concat]
  by_cases backslash : c = '\\'
  · simp [backslash, run]
  · simp [backslash]

theorem endsOdd_concat (odd : Bool) (text : List Char) (c : Char) :
    endsOdd odd (text ++ [c]) = (c = '\\' && !endsOdd odd text) := by
  induction text generalizing odd with
  | nil => rfl
  | cons d text ih => exact ih _

theorem endsOdd_iff {text : List Char} : endsOdd false text = true ↔ run text % 2 = 1 := by
  induction text using List.reverseRecOn with
  | nil => simp [endsOdd, run]
  | append_singleton text c ih =>
      rw [endsOdd_concat, run_concat]
      by_cases backslash : c = '\\'
      · simp only [backslash, decide_true, Bool.true_and, Bool.not_eq_true', if_true,
          ← Bool.not_eq_true, ih]
        omega
      · simp [backslash]

theorem endsOdd_eq_false_iff {text : List Char} :
    endsOdd false text = false ↔ run text % 2 = 0 := by
  rw [← Bool.not_eq_true, endsOdd_iff]
  omega

/-! ## Fields that come back -/

variable {odd : Bool} {field : List Char} {fields : List (List Char)}

theorem undelimited_iff :
    Undelimited odd field ↔ ∀ front, front ++ [':'] <+: field → endsOdd odd front = true := by
  induction field generalizing odd with
  | nil => simp [Undelimited]
  | cons c field ih => simp only [forall_before_colon_cons, Undelimited, ih, endsOdd]

theorem undelimited_iff_odd :
    Undelimited false field ↔ ∀ front, front ++ [':'] <+: field → run front % 2 = 1 := by
  simp only [undelimited_iff, endsOdd_iff]

theorem forall_mem_dropLast_cons {α : Type} {p : α → Prop} {first : α} {others : List α} :
    (∀ a ∈ (first :: others).dropLast, p a) ↔
      (others ≠ [] → p first) ∧ ∀ a ∈ others.dropLast, p a := by
  cases others <;> simp

theorem separable_cons_iff :
    Separable (field :: fields) ↔
      Undelimited false field ∧
        (fields ≠ [] → endsOdd false field = false ∧ Separable fields) := by
  constructor
  · intro separable
    cases separable with
    | last whole => exact ⟨whole, fun more => absurd rfl more⟩
    | cons whole closed others => exact ⟨whole, fun _ => ⟨closed, others⟩⟩
  · rintro ⟨whole, others⟩
    exact .of_cons whole (fun more => (others more).1) fun more => (others more).2

theorem separable_iff :
    Separable fields ↔
      fields ≠ [] ∧ (∀ field ∈ fields, Undelimited false field) ∧
        ∀ field ∈ fields.dropLast, endsOdd false field = false := by
  induction fields with
  | nil =>
      constructor
      · intro separable
        cases separable
      · rintro ⟨present, -⟩
        exact absurd rfl present
  | cons field others ih =>
      rw [separable_cons_iff, List.forall_mem_cons, forall_mem_dropLast_cons, ih]
      cases others with
      | nil => simp
      | cons next rest => simp [and_assoc, and_left_comm]

/-- Joining what a text is divided into gives the text back. Dividing what fields join to gives them
back exactly where there is a field, every colon in one comes after an odd run of backslashes in it,
and every field but the last ends in an even run. -/
theorem split_join_exact (text : List Char) (fields : List (List Char)) :
    join (split text) = text ∧
    (split (join fields) = fields ↔
      fields ≠ [] ∧
      (∀ field ∈ fields, ∀ front, front ++ [':'] <+: field → run front % 2 = 1) ∧
      ∀ field ∈ fields.dropLast, run field % 2 = 0) := by
  refine ⟨join_split text, ?_⟩
  simp only [split_join_iff, separable_iff, undelimited_iff_odd, endsOdd_eq_false_iff]

/-- A colon divides behind two backslashes, but behind one or three it does not. -/
example : split ("é\\\\:b:éü\\:\\\\\\:".toList) =
    ["é\\\\".toList, "b".toList, "éü\\:\\\\\\:".toList] := by
  decide

/-! ## Delimiters -/

/-- The number of colons that an even run of backslashes comes right before. -/
def delimiters (text : List Char) : Nat :=
  (List.range text.length).countP fun place =>
    text[place]? = some ':' && run (text.take place) % 2 = 0

theorem delimiters_concat (text : List Char) (c : Char) :
    delimiters (text ++ [c]) =
      delimiters text + if c = ':' ∧ run text % 2 = 0 then 1 else 0 := by
  have before : delimiters text =
      (List.range text.length).countP fun place =>
        (text ++ [c])[place]? = some ':' && run ((text ++ [c]).take place) % 2 = 0 := by
    refine List.countP_congr fun place inside => ?_
    rw [List.mem_range] at inside
    rw [List.getElem?_append_left inside, List.take_append_of_le_length (Nat.le_of_lt inside)]
  rw [before, delimiters, List.length_append, List.length_singleton, List.range_succ,
    List.countP_append]
  simp

theorem length_splitFrom_cons (odd : Bool) (c : Char) (text : List Char) :
    (splitFrom odd (c :: text)).2.length =
      (splitFrom (c = '\\' && !odd) text).2.length + if c = ':' ∧ odd = false then 1 else 0 := by
  by_cases backslash : c = '\\'
  · simp [splitFrom, backslash]
  · by_cases delimiter : c = ':' ∧ odd = false
    · simp [splitFrom, delimiter]
    · have plain : (decide (c = ':') && !odd) = false := by
        simpa using delimiter
      simp [splitFrom, backslash, plain, delimiter]

theorem length_splitFrom_concat (odd : Bool) (text : List Char) (c : Char) :
    (splitFrom odd (text ++ [c])).2.length =
      (splitFrom odd text).2.length + if c = ':' ∧ endsOdd odd text = false then 1 else 0 := by
  induction text generalizing odd with
  | nil => exact length_splitFrom_cons odd c []
  | cons d text ih =>
      rw [List.cons_append, length_splitFrom_cons, length_splitFrom_cons, ih, endsOdd,
        Nat.add_right_comm]

theorem separable_split (text : List Char) : Separable (split text) := by
  rw [← split_join_iff, join_split]

theorem length_split (text : List Char) : (split text).length = 1 + delimiters text := by
  have others : (splitFrom false text).2.length = delimiters text := by
    induction text using List.reverseRecOn with
    | nil => rfl
    | append_singleton text c ih =>
        simp only [length_splitFrom_concat, delimiters_concat, endsOdd_eq_false_iff, ih]
  rw [split, List.length_cons, others, Nat.add_comm]

end TupleBlob.Fields
