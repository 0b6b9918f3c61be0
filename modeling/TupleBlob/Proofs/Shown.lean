import TupleBlob.Proofs.Json.Items
import TupleBlob.Proofs.Text.RoundTrip

/-! # Bytes that can be shown

The validator walks a blob by itself, while text and JSON are printed for the segments that the
blob is split into, whatever follows them. Main statements: values have a JSON form, and bytes that
have one are a value or go on behind a last component; nothing but such bytes has a text, and they
have one unless a component's text could not be split off again.
-/

namespace TupleBlob

open LengthWord

/-- Bytes follow the last component of a tuple. -/
def Fault.IsTrailing (fault : Fault) : Prop := ∃ remaining, fault = .trailingData remaining

/-- The text of a component would not be split off again. -/
def Fault.IsAmbiguous (fault : Fault) : Prop := ∃ index text, fault = .ambiguousText index text

namespace Ty

variable {t : Ty Scalar} {ts : List (Ty Scalar)} {segments : List Segment} {bytes : Bytes}

/-! ## Bytes with a JSON form -/

/-- The type accepts the bytes, or refuses them for what follows a last component. -/
def RefusesTrailing (t : Ty Scalar) (bytes : Bytes) : Prop :=
  FailsOnly (fun failure => failure.fault.IsTrailing) (t.validate bytes)

/-- The validator reads the segments that splitting reads, so it fails at none of them. -/
theorem validateFrom_of_segments {whole : Ty Scalar} {index offset : Nat} {blob : Bytes}
    (read : Reader.segments ts.length ⟨offset, blob⟩ = .ok segments)
    (inside : Aligned RefusesTrailing ts segments) :
    FailsOnly (fun failure => failure.fault.IsTrailing)
      (validateFrom whole index ts ⟨offset, blob⟩) := by
  induction ts generalizing index offset blob segments with
  | nil =>
      rw [validateFrom]
      split
      · exact .error ⟨_, rfl⟩
      · exact .ok ()
  | cons t ts ih =>
      have step := Reader.readsSegment ⟨offset, blob⟩
      simp only [List.length_cons, Reader.segments, Reader.next] at read
      simp only [validateFrom]
      generalize Reader.readSegment ⟨offset, blob⟩ = found at read step
      cases step with
      | shortWord | shortPayload => cases read
      | atEnd => exact .ok ()
      | item =>
          obtain ⟨others, later, rfl⟩ := map_eq_ok_iff.mp read
          cases inside with
          | null inside => exact ih later inside
          | @payload _ _ payload _ first inside =>
              dsimp only
              cases checked : t.validate payload with
              | ok => exact ih later inside
              | error failure => exact .error (first failure checked)

theorem refusesTrailing_of_hasJson (shown : t.HasJson bytes) : t.RefusesTrailing bytes := by
  induction t generalizing bytes with
  | scalar s =>
      obtain ⟨json, shown⟩ := shown
      rw [toJson] at shown
      have valid : (Ty.scalar s).Valid bytes :=
        valid_scalar_iff.mpr (Scalar.validate_of_toJson shown)
      rw [RefusesTrailing, valid]
      exact .ok ()
  | tuple ts ih =>
      obtain ⟨segments, read, inside⟩ := hasJson_tuple_iff.mp shown
      rw [RefusesTrailing, validate]
      exact validateFrom_of_segments read (inside.mono fun t ht _ => ih t ht)

/-! ## Bytes with a text -/

/-- The bytes can be shown as text. -/
def HasText (t : Ty Scalar) (bytes : Bytes) : Prop := ∃ text, t.toText bytes = .ok text

/-- The bytes are printed, or refused for a text that would not be split off again. -/
def RefusesAmbiguous (t : Ty Scalar) (bytes : Bytes) : Prop :=
  FailsOnly Fault.IsAmbiguous (t.toText bytes)

theorem aligned_of_fieldsFrom {index : Nat} {fields : List (List Char)}
    (few : segments.length ≤ ts.length) (shown : fieldsFrom index ts segments = .ok fields) :
    Aligned HasText ts segments := by
  induction ts generalizing segments index fields with
  | nil =>
      cases segments with
      | nil => exact .nil
      | cons => simp at few
  | cons t ts ih =>
      rcases segments with _ | ⟨_ | payload, segments⟩
      · exact .nil
      · obtain ⟨others, rest, -⟩ := fieldsFrom_null shown
        exact .null (ih (Nat.le_of_succ_le_succ few) rest)
      · obtain ⟨text, others, printed, -, rest, -⟩ := fieldsFrom_payload shown
        exact .payload ⟨text, printed⟩ (ih (Nat.le_of_succ_le_succ few) rest)

theorem fieldsFrom_of_aligned (index : Nat) (inside : Aligned RefusesAmbiguous ts segments) :
    FailsOnly Fault.IsAmbiguous (fieldsFrom index ts segments) := by
  induction inside generalizing index with
  | nil =>
      rw [fieldsFrom]
      exact .ok []
  | null _ ih =>
      rw [fieldsFrom]
      exact (ih (index + 1)).map
  | @payload t _ payload _ first _ ih =>
      rw [fieldsFrom]
      cases printed : t.toText payload with
      | error fault => exact .error (first fault printed)
      | ok text =>
          dsimp only
          split
          · exact .error ⟨index, text, rfl⟩
          · exact (ih (index + 1)).map

theorem hasJson_of_hasText (shown : t.HasText bytes) : t.HasJson bytes := by
  induction t generalizing bytes with
  | scalar s =>
      obtain ⟨text, shown⟩ := shown
      rw [toText] at shown
      exact hasJson_of_valid (valid_scalar_iff.mpr (Scalar.validate_of_toText shown))
  | tuple ts ih =>
      obtain ⟨text, shown⟩ := shown
      rw [toText] at shown
      split at shown
      · cases shown
      · rename_i segments read
        obtain ⟨fields, printed, -⟩ := map_eq_ok_iff.mp shown
        have inside := aligned_of_fieldsFrom (length_le_of_split read) printed
        exact hasJson_tuple_iff.mpr ⟨segments, read, inside.mono fun t ht _ => ih t ht⟩

theorem refusesAmbiguous_of_hasJson (shown : t.HasJson bytes) : t.RefusesAmbiguous bytes := by
  induction t generalizing bytes with
  | scalar s =>
      obtain ⟨json, shown⟩ := shown
      rw [toJson] at shown
      obtain ⟨text, printed⟩ := Scalar.exists_toText (Scalar.validate_of_toJson shown)
      rw [RefusesAmbiguous, toText, ScalarType.toText_eq, printed]
      exact .ok text
  | tuple ts ih =>
      obtain ⟨segments, read, inside⟩ := hasJson_tuple_iff.mp shown
      rw [RefusesAmbiguous, toText, read]
      exact (fieldsFrom_of_aligned 0 (inside.mono fun t ht _ => ih t ht)).map

/-- Values have a JSON form. Bytes that have one are a value, or are refused for what follows a
last component, there or in an inner tuple. Bytes that have a text have a JSON form; bytes that
have a JSON form have a text, or are refused for a text that is ambiguous. -/
theorem validate_toJson_toText_agree (t : Ty Scalar) (bytes : Bytes) :
    (t.validate bytes = .ok () → ∃ json, t.toJson bytes = .ok json) ∧
    ((∃ json, t.toJson bytes = .ok json) →
      t.validate bytes = .ok () ∨
        ∃ path remaining, t.validate bytes = .error ⟨path, .trailingData remaining⟩) ∧
    ((∃ text, t.toText bytes = .ok text) → ∃ json, t.toJson bytes = .ok json) ∧
    ((∃ json, t.toJson bytes = .ok json) →
      (∃ text, t.toText bytes = .ok text) ∨
        ∃ index text, t.toText bytes = .error (.ambiguousText index text)) := by
  refine ⟨hasJson_of_valid, ?_, hasJson_of_hasText, ?_⟩
  · intro shown
    rcases (refusesTrailing_of_hasJson shown).ok_or_error with
      ⟨_, valid⟩ | ⟨⟨path, fault⟩, refused, remaining, rfl⟩
    · exact .inl valid
    · exact .inr ⟨path, remaining, refused⟩
  · intro shown
    rcases (refusesAmbiguous_of_hasJson shown).ok_or_error with
      printed | ⟨fault, refused, index, text, rfl⟩
    · exact .inl printed
    · exact .inr ⟨index, text, refused⟩

/-- The second blob has a byte too many inside its inner tuple, and a backslash before a colon. -/
theorem validate_toJson_toText_agree_nested :
    (∃ json, (Ty.tuple [.scalar Scalar.utf8, .tuple [.scalar .int32]]).toJson
      [0, 0, 0, 1, 97, 0, 0, 0, 8, 0, 0, 0, 4, 0, 0, 0, 7] = .ok json) ∧
    ((Ty.tuple [.scalar Scalar.utf8, .tuple [.scalar .int32]]).validate
        [0, 0, 0, 1, 92, 0, 0, 0, 9, 0, 0, 0, 4, 0, 0, 0, 7, 255] = .ok () ∨
      ∃ path remaining, (Ty.tuple [.scalar Scalar.utf8, .tuple [.scalar .int32]]).validate
        [0, 0, 0, 1, 92, 0, 0, 0, 9, 0, 0, 0, 4, 0, 0, 0, 7, 255] =
          .error ⟨path, .trailingData remaining⟩) ∧
    (∃ json, (Ty.tuple [.scalar Scalar.utf8, .tuple [.scalar .int32]]).toJson
      [255, 255, 255, 254, 0, 0, 0, 9, 0, 0, 0, 4, 0, 0, 0, 7, 255] = .ok json) ∧
    ((∃ text, (Ty.tuple [.scalar Scalar.utf8, .tuple [.scalar .int32]]).toText
        [0, 0, 0, 1, 92, 0, 0, 0, 9, 0, 0, 0, 4, 0, 0, 0, 7, 255] = .ok text) ∨
      ∃ index text, (Ty.tuple [.scalar Scalar.utf8, .tuple [.scalar .int32]]).toText
        [0, 0, 0, 1, 92, 0, 0, 0, 9, 0, 0, 0, 4, 0, 0, 0, 7, 255] =
          .error (.ambiguousText index text)) := by
  have agree := validate_toJson_toText_agree (.tuple [.scalar .utf8, .tuple [.scalar .int32]])
  have shown : (Ty.tuple [.scalar Scalar.utf8, .tuple [.scalar .int32]]).toJson
      [0, 0, 0, 1, 92, 0, 0, 0, 9, 0, 0, 0, 4, 0, 0, 0, 7, 255] =
        .ok (.arr [.str "\\", .arr [.int 7]]) := by
    decide +kernel
  have printed : (Ty.tuple [.scalar Scalar.utf8, .tuple [.scalar .int32]]).toText
      [255, 255, 255, 254, 0, 0, 0, 9, 0, 0, 0, 4, 0, 0, 0, 7, 255] = .ok "@:7" := by
    decide +kernel
  obtain ⟨valued, -, -, -⟩ := agree [0, 0, 0, 1, 97, 0, 0, 0, 8, 0, 0, 0, 4, 0, 0, 0, 7]
  obtain ⟨-, overlong, -, ambiguous⟩ :=
    agree [0, 0, 0, 1, 92, 0, 0, 0, 9, 0, 0, 0, 4, 0, 0, 0, 7, 255]
  obtain ⟨-, -, texted, -⟩ := agree [255, 255, 255, 254, 0, 0, 0, 9, 0, 0, 0, 4, 0, 0, 0, 7, 255]
  exact ⟨valued rfl, overlong ⟨_, shown⟩, texted ⟨_, printed⟩, ambiguous ⟨_, shown⟩⟩

end Ty

end TupleBlob
