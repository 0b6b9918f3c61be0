import TupleBlob.Proofs.Text.RoundTrip
import TupleBlob.Proofs.Text.Splitting

/-! # Tuple literals that are read

A literal is divided before any field is looked at, a null is told by the field as it stands in the
literal, and only what is no null is unescaped. Main statements: unescaping undoes escaping, and its
two passes are one; a literal has one field more than it has colons after an even run of
backslashes; more fields than components are refused whatever they hold, and otherwise the literal
is written from what its fields give, or fails with the first fault among them.
-/

namespace TupleBlob.Fields

/-! ## Backslashes before marks -/

/-- Drops every backslash right before a colon or an at sign. -/
def bareMarks : List Char → List Char
  | [] => []
  | c :: rest =>
    if c = '\\' ∧ (rest.head? = some ':' ∨ rest.head? = some '@') then bareMarks rest
    else c :: bareMarks rest

theorem head?_bareMark {mark other : Char} (plain : other ≠ '\\') (differ : mark ≠ other)
    (text : List Char) : (bareMark mark text).head? = some other ↔ text.head? = some other := by
  induction text with
  | nil => rfl
  | cons c text ih =>
      rw [bareMark]
      split
      · rename_i guarded
        simp only [Bool.and_eq_true, decide_eq_true_eq] at guarded
        simp [ih, guarded.1, guarded.2, differ, plain.symm]
      · simp only [List.head?_cons]

/-- Dropping backslashes before colons neither brings a backslash before an at sign nor takes one
away. -/
theorem unescape_eq_bareMarks (field : List Char) : unescape field = bareMarks field := by
  have head (text : List Char) :
      (bareMark ':' text).head? = some '@' ↔ text.head? = some '@' :=
    head?_bareMark (by decide) (by decide) text
  induction field with
  | nil => rfl
  | cons c field ih =>
      rw [unescape] at ih
      rw [unescape, bareMark, bareMarks]
      by_cases backslash : c = '\\'
      · by_cases colon : field.head? = some ':'
        · simp [backslash, colon, ih]
        · by_cases atSign : field.head? = some '@'
          · simp [backslash, atSign, bareMark, head, ih]
          · simp [backslash, colon, atSign, bareMark, head, ih]
      · simp [backslash, bareMark, ih]

theorem bareMark_comm {a b : Char} (plainA : a ≠ '\\') (plainB : b ≠ '\\') (differ : a ≠ b)
    (text : List Char) : bareMark a (bareMark b text) = bareMark b (bareMark a text) := by
  induction text with
  | nil => rfl
  | cons c text ih =>
      have beforeA := head?_bareMark plainA differ.symm text
      have beforeB := head?_bareMark plainB differ text
      rw [bareMark, bareMark]
      by_cases backslash : c = '\\'
      · by_cases nextA : text.head? = some a
        · simp [backslash, nextA, bareMark, beforeA, ih, differ]
        · by_cases nextB : text.head? = some b
          · simp [backslash, nextB, bareMark, beforeB, ih, differ.symm]
          · simp [backslash, nextA, nextB, bareMark, beforeA, beforeB, ih]
      · simp [backslash, bareMark, ih]

/-- Unescaping gives back a text that was escaped, which is never an at sign alone. Of any field it
drops the backslashes right before marks in one pass, so which marks come first does not matter. -/
theorem unescape_undoes_escape (text field : List Char) :
    unescape (escape text) = text ∧ escape text ≠ ['@'] ∧
    unescape field = bareMarks field ∧ unescape field = bareMark ':' (bareMark '@' field) := by
  refine ⟨unescape_escape text, escape_ne_atSign text, unescape_eq_bareMarks field, ?_⟩
  exact bareMark_comm (by decide) (by decide) (by decide) field

end TupleBlob.Fields

namespace TupleBlob.Ty

open Fields

variable {S : Type} [ScalarType S]

/-! ## Fields -/

/-- What a field gives: a null if it is an at sign as it stands, and otherwise what the type reads
from it without the backslashes before marks. -/
def readField (t : Ty S) (field : List Char) : Except Fault Segment :=
  if field = ['@'] then .ok none else (t.ofText (String.ofList (bareMarks field))).map some

theorem ofFields_nil_left (fields : List (List Char)) :
    ofFields ([] : List (Ty S)) fields = .ok [] := by
  rw [ofFields]
  simp

theorem ofFields_nil_right (ts : List (Ty S)) : ofFields ts [] = .ok [] := by
  rw [ofFields]
  simp

theorem ofFields_cons (t : Ty S) (ts : List (Ty S)) (field : List Char)
    (fields : List (List Char)) : ofFields (t :: ts) (field :: fields) =
      (t.readField field).bind fun segment => (ofFields ts fields).map (segment :: ·) := by
  rw [ofFields, readField, nullField, unescape_eq_bareMarks]
  split
  · rfl
  · cases t.ofText (String.ofList (bareMarks field)) <;> rfl

theorem collects_ofFields (ts : List (Ty S)) (fields : List (List Char)) :
    Collects (List.zipWith readField ts fields) (ofFields ts fields) :=
  .zipWith ofFields_nil_left ofFields_nil_right ofFields_cons ts fields

theorem ofText_of_few {ts : List (Ty S)} {text : String}
    (few : (Fields.split text.toList).length ≤ ts.length) :
    (Ty.tuple ts).ofText text =
      (ofFields ts (Fields.split text.toList)).bind encodeSegments := by
  rw [← ofText_join (separable_split _) few, join_split, String.ofList_toList]

theorem length_of_ofFields {ts : List (Ty S)} {fields : List (List Char)}
    {segments : List Segment} (few : fields.length ≤ ts.length)
    (read : ofFields ts fields = .ok segments) : segments.length = fields.length := by
  have collects := collects_ofFields ts fields
  rw [read] at collects
  rw [collects.length_eq, List.length_zipWith, Nat.min_eq_right few]

/-- Even the empty text has a field. -/
theorem ofText_ne_nil (ts : List (Ty S)) (text : String) : (Ty.tuple ts).ofText text ≠ .ok [] := by
  intro read
  by_cases few : (Fields.split text.toList).length ≤ ts.length
  · rw [ofText_of_few few] at read
    obtain ⟨segments, found, written⟩ := bind_eq_ok_iff.mp read
    have same := length_of_ofFields few found
    rw [(spells_of_encodeSegments written).eq_nil_iff.mp rfl, length_split] at same
    cases (Nat.add_comm _ _).trans same.symm
  · rw [ofText, if_pos (Nat.lt_of_not_le few)] at read
    cases read

/-- The fields of a literal are the one way to divide it at its delimiters. If there are more of
them than components, their number is all that is reported. Otherwise each field is null or read by
its component, all that is read makes up the blob, and the first field that cannot be read is
reported. Even the empty text has a field, so no blob is empty. -/
theorem ofText_reads_fields (ts : List (Ty S)) (text : String) :
    ∃ fields, join fields = text.toList ∧ Separable fields ∧
      (∀ others, Separable others → join others = text.toList → others = fields) ∧
      fields.length = 1 + delimiters text.toList ∧ (text = "" → fields = [[]]) ∧
      (ts.length < fields.length →
        (Ty.tuple ts).ofText text =
          .error (.tooManyFields (Ty.tuple ts).name ts.length fields.length)) ∧
      (fields.length ≤ ts.length →
        ∃ found, Collects (List.zipWith readField ts fields) found ∧
          (∀ segments, found = .ok segments → segments.length = fields.length) ∧
          (Ty.tuple ts).ofText text = found.bind encodeSegments) ∧
      (Ty.tuple ts).ofText text ≠ .ok [] := by
  refine ⟨Fields.split text.toList, join_split _, separable_split _, ?_, length_split _, ?_, ?_, ?_,
    ofText_ne_nil ts text⟩
  · intro others separable same
    rw [← same, split_join separable]
  · rintro rfl
    rfl
  · intro many
    rw [ofText]
    exact if_pos many
  · intro few
    exact ⟨_, collects_ofFields ts _, fun _ => length_of_ofFields few, ofText_of_few few⟩

/-- An at sign behind a backslash is a text. The inner tuple is read from its field without the
backslash, so the at sign in it is a null. -/
example :
    (Ty.tuple [.scalar Scalar.utf8, .tuple [.scalar .utf8, .scalar .int32], .scalar .bytes]).ofText
      "\\@:x\\:@" = .ok [0, 0, 0, 1, 64, 0, 0, 0, 9, 0, 0, 0, 1, 120, 255, 255, 255, 255] := by
  decide +kernel

end TupleBlob.Ty
