import TupleBlob.Proofs.Json.RoundTrip
import TupleBlob.Proofs.Text.RoundTrip

/-! # Values that are read

Nothing checks a value after it was read from a text or from JSON. What makes it valid is how it is
put together: each scalar is read as one of its own values, and a tuple is written from the payloads
that were read for its components. Main statement: whatever is read is a value whose nulls are all
the written one. A text never gives an empty tuple, and JSON gives every tuple all its components.
-/

namespace TupleBlob.Ty

open LengthWord

/-- The bytes are put together from values of scalars. Each tuple, the inner ones too, is the
spelling of segments that fit its components and have the given shape. -/
inductive Built (shape : List (Ty Scalar) → List Segment → Prop) : Ty Scalar → Bytes → Prop
  | scalar {s bytes} (valid : s.validate bytes = .ok ()) : Built shape (.scalar s) bytes
  | tuple {ts segments blob} (written : Spells WrittenAsNull segments blob)
      (shaped : shape ts segments) (inside : Aligned (Built shape) ts segments) :
      Built shape (.tuple ts) blob

/-- Every tuple has a segment for each of its components. -/
def FullThroughout : Ty Scalar → Bytes → Prop :=
  Throughout fun ts blob =>
    ∃ segments, Spells WrittenAsNull segments blob ∧ segments.length = ts.length

namespace Built

variable {shape : List (Ty Scalar) → List Segment → Prop} {t : Ty Scalar} {bytes : Bytes}

theorem valid (h : Built shape t bytes) : t.Valid bytes := by
  induction t generalizing bytes with
  | scalar s =>
      cases h with
      | scalar valid => exact valid_scalar_iff.mpr valid
  | tuple ts ih =>
      cases h with
      | tuple written _ inside =>
          exact valid_tuple_iff.mpr ⟨_, written.readable, inside.mono fun t ht _ => ih t ht⟩

theorem throughout {p : List (Ty Scalar) → Bytes → Prop} (h : Built shape t bytes)
    (step : ∀ ts segments blob, Spells WrittenAsNull segments blob → shape ts segments →
      p ts blob) :
    Throughout p t bytes := by
  induction t generalizing bytes with
  | scalar s => exact .scalar
  | tuple ts ih =>
      cases h with
      | tuple written shaped inside =>
          have here := step ts _ bytes written shaped
          exact .tuple here written.readable (inside.mono fun t ht _ => ih t ht)

theorem written (h : Built shape t bytes) : WrittenThroughout t bytes :=
  h.throughout fun _ segments _ written _ => ⟨segments, written⟩

theorem exists_spells {ts : List (Ty Scalar)} {blob : Bytes} (h : Built shape (.tuple ts) blob) :
    ∃ segments, Spells WrittenAsNull segments blob ∧ segments.length ≤ ts.length := by
  cases h with
  | tuple written _ inside => exact ⟨_, written, inside.length_le⟩

end Built

variable {holds : Ty Scalar → Bytes → Prop} {ts : List (Ty Scalar)} {segments : List Segment}

/-! ## From texts -/

theorem aligned_of_ofFields {fields : List (List Char)}
    (reads : ∀ t ∈ ts, ∀ text payload, t.ofText text = .ok payload → holds t payload)
    (few : fields.length ≤ ts.length) (read : ofFields ts fields = .ok segments) :
    Aligned holds ts segments ∧ segments.length = fields.length := by
  induction ts generalizing fields segments with
  | nil =>
      cases fields with
      | nil =>
          cases read
          exact ⟨.nil, rfl⟩
      | cons => cases few
  | cons t ts ih =>
      cases fields with
      | nil =>
          cases read
          exact ⟨.nil, rfl⟩
      | cons field fields =>
          obtain ⟨first, later⟩ := List.forall_mem_cons.mp reads
          have fewer := Nat.le_of_succ_le_succ few
          rw [ofFields] at read
          split at read
          · obtain ⟨others, rest, rfl⟩ := map_eq_ok_iff.mp read
            obtain ⟨aligned, same⟩ := ih later fewer rest
            exact ⟨.null aligned, congrArg Nat.succ same⟩
          · split at read
            · cases read
            · rename_i payload readFirst
              obtain ⟨others, rest, rfl⟩ := map_eq_ok_iff.mp read
              obtain ⟨aligned, same⟩ := ih later fewer rest
              exact ⟨.payload (first _ _ readFirst) aligned, congrArg Nat.succ same⟩

theorem built_of_ofText {t : Ty Scalar} {text : String} {bytes : Bytes}
    (read : t.ofText text = .ok bytes) : Built (fun _ segments => segments ≠ []) t bytes := by
  induction t generalizing text bytes with
  | scalar s =>
      rw [ofText] at read
      exact .scalar (Scalar.validate_of_ofText read)
  | tuple ts ih =>
      simp only [ofText] at read
      split at read
      · cases read
      · rename_i few
        split at read
        · cases read
        · rename_i segments readFields
          obtain ⟨aligned, same⟩ :=
            aligned_of_ofFields (fun t ht _ _ => ih t ht) (Nat.le_of_not_lt few) readFields
          refine .tuple (spells_of_encodeSegments read) ?_ aligned
          rw [← List.length_pos_iff, same]
          exact Nat.succ_pos _

theorem filled_of_ofText {t : Ty Scalar} {text : String} {bytes : Bytes}
    (read : t.ofText text = .ok bytes) : FilledThroughout t bytes := by
  apply (built_of_ofText read).throughout
  intro ts segments blob written some empty
  exact some (written.eq_nil_iff.mp empty)

/-- What was read from a text is read again from its own text, if it has one. -/
theorem ofText_toText_of_ofText {t : Ty Scalar} {text again : String} {bytes : Bytes}
    (read : t.ofText text = .ok bytes) (shown : t.toText bytes = .ok again) :
    t.ofText again = .ok bytes := by
  have built := built_of_ofText read
  obtain ⟨after, readAgain, same⟩ :=
    returns t bytes again built.valid (filled_of_ofText read) shown
  rw [readAgain, ← same.eq_of_written built.written]

/-! ## From JSON -/

theorem aligned_of_ofItems {items : List Json}
    (reads : ∀ t ∈ ts, ∀ json payload, t.ofJson json = .ok payload → holds t payload)
    (same : items.length = ts.length) (read : ofItems ts items = .ok segments) :
    Aligned holds ts segments ∧ segments.length = ts.length := by
  induction ts generalizing items segments with
  | nil =>
      cases items with
      | cons => cases same
      | nil =>
          cases read
          exact ⟨.nil, rfl⟩
  | cons t ts ih =>
      cases items with
      | nil => cases same
      | cons item items =>
          obtain ⟨first, later⟩ := List.forall_mem_cons.mp reads
          have others := Nat.succ.inj same
          by_cases null : item = .null
          · subst null
            rw [ofItems_null] at read
            obtain ⟨_, rest, rfl⟩ := map_eq_ok_iff.mp read
            obtain ⟨aligned, full⟩ := ih later others rest
            exact ⟨.null aligned, congrArg Nat.succ full⟩
          · rw [ofItems_cons t null] at read
            obtain ⟨payload, readFirst, read⟩ := bind_eq_ok_iff.mp read
            obtain ⟨_, rest, rfl⟩ := map_eq_ok_iff.mp read
            obtain ⟨aligned, full⟩ := ih later others rest
            exact ⟨.payload (first _ _ readFirst) aligned, congrArg Nat.succ full⟩

theorem built_of_ofJson {t : Ty Scalar} {json : Json} {bytes : Bytes}
    (read : t.ofJson json = .ok bytes) :
    Built (fun ts segments => segments.length = ts.length) t bytes := by
  induction t generalizing json bytes with
  | scalar s =>
      rw [ofJson] at read
      exact .scalar (Scalar.validate_of_ofJson read)
  | tuple ts ih =>
      obtain ⟨items, segments, -, same, readItems, written⟩ := exists_items_of_ofJson read
      obtain ⟨aligned, full⟩ := aligned_of_ofItems (fun t ht _ _ => ih t ht) same readItems
      exact .tuple written full aligned

theorem full_of_ofJson {t : Ty Scalar} {json : Json} {bytes : Bytes}
    (read : t.ofJson json = .ok bytes) : FullThroughout t bytes :=
  (built_of_ofJson read).throughout fun _ segments _ written full => ⟨segments, written, full⟩

/-- Whatever is read is a value, and the only nulls in it are the one word that is written. From a
text, no tuple is empty and the value comes back from its own text if it has one; from JSON, every
tuple has all its components. -/
theorem canonical_of_parsed (ts : List (Ty Scalar)) :
    (∀ text blob, (Ty.tuple ts).ofText text = .ok blob →
      (Ty.tuple ts).Valid blob ∧ WrittenThroughout (.tuple ts) blob ∧
      FilledThroughout (.tuple ts) blob ∧
      (∃ segments, Spells WrittenAsNull segments blob ∧ segments.length ≤ ts.length) ∧
      ∀ again, (Ty.tuple ts).toText blob = .ok again → (Ty.tuple ts).ofText again = .ok blob) ∧
    ∀ json blob, (Ty.tuple ts).ofJson json = .ok blob →
      (Ty.tuple ts).Valid blob ∧ WrittenThroughout (.tuple ts) blob ∧
      FullThroughout (.tuple ts) blob := by
  constructor
  · intro text blob read
    have built := built_of_ofText read
    exact ⟨built.valid, built.written, filled_of_ofText read, built.exists_spells,
      fun _ => ofText_toText_of_ofText read⟩
  · intro json blob read
    have built := built_of_ofJson read
    exact ⟨built.valid, built.written, full_of_ofJson read⟩

/-- The text has a padded number in an inner tuple that stops early; the JSON has the text of an
inner tuple. -/
theorem canonical_of_parsed_nested :
    ((Ty.tuple [.tuple [.scalar Scalar.int32, .scalar .bytes], .scalar .ascii]).Valid
        [0, 0, 0, 8, 0, 0, 0, 4, 0, 0, 0, 7, 255, 255, 255, 255] ∧
      FilledThroughout (.tuple [.tuple [.scalar .int32, .scalar .bytes], .scalar .ascii])
        [0, 0, 0, 8, 0, 0, 0, 4, 0, 0, 0, 7, 255, 255, 255, 255]) ∧
    (Ty.tuple [.tuple [.scalar Scalar.int32, .scalar .bytes], .scalar .ascii]).Valid
        [0, 0, 0, 9, 255, 255, 255, 255, 0, 0, 0, 1, 10, 255, 255, 255, 255] ∧
      FullThroughout (.tuple [.tuple [.scalar .int32, .scalar .bytes], .scalar .ascii])
        [0, 0, 0, 9, 255, 255, 255, 255, 0, 0, 0, 1, 10, 255, 255, 255, 255] := by
  obtain ⟨fromText, fromJson⟩ :=
    canonical_of_parsed [.tuple [.scalar .int32, .scalar .bytes], .scalar .ascii]
  have text : (Ty.tuple [.tuple [.scalar Scalar.int32, .scalar .bytes], .scalar .ascii]).ofText
      " +07 :@" = .ok [0, 0, 0, 8, 0, 0, 0, 4, 0, 0, 0, 7, 255, 255, 255, 255] := by
    decide +kernel
  have json : (Ty.tuple [.tuple [.scalar Scalar.int32, .scalar .bytes], .scalar .ascii]).ofJson
      (.arr [.str "[null, \"0x0A\"]", .null]) =
        .ok [0, 0, 0, 9, 255, 255, 255, 255, 0, 0, 0, 1, 10, 255, 255, 255, 255] := by
    decide +kernel
  obtain ⟨validText, -, filled, -⟩ := fromText _ _ text
  obtain ⟨validJson, -, full⟩ := fromJson _ _ json
  exact ⟨⟨validText, filled⟩, validJson, full⟩

end TupleBlob.Ty
