import TupleBlob.Proofs.Canonical
import TupleBlob.Proofs.Encoding
import TupleBlob.Proofs.Text.Fields
import TupleBlob.Proofs.Text.Scalars

/-! # Values printed and read again

The text of a tuple nests: the text of an inner tuple is a component of the outer one, and is
escaped once more. Main statements: a value whose tuples all have a component is printed, if it can
be printed, as a text that is read as the same value with its nulls rewritten. Where the type of a
tuple has no components the text may not be read, but it is never read as anything else.
-/

namespace TupleBlob.Ty

open LengthWord

/-! ## Fields -/

section Fields

variable {S : Type} [ScalarType S] {holds : Ty S → Bytes → Prop} {ts : List (Ty S)}
  {segments : List Segment} {index : Nat} {fields : List (List Char)}

theorem fieldsFrom_null {t : Ty S}
    (shown : fieldsFrom index (t :: ts) (none :: segments) = .ok fields) :
    ∃ others, fieldsFrom (index + 1) ts segments = .ok others ∧ nullField :: others = fields :=
  map_eq_ok_iff.mp shown

theorem fieldsFrom_payload {t : Ty S} {payload : Bytes}
    (shown : fieldsFrom index (t :: ts) (some payload :: segments) = .ok fields) :
    ∃ text others, t.toText payload = .ok text ∧
      Fields.isAmbiguous text.toList segments.isEmpty = false ∧
      fieldsFrom (index + 1) ts segments = .ok others ∧
      Fields.escape text.toList :: others = fields := by
  simp only [fieldsFrom] at shown
  split at shown
  · cases shown
  · rename_i text printed
    split at shown
    · cases shown
    · rename_i clear
      obtain ⟨others, rest, same⟩ := map_eq_ok_iff.mp shown
      exact ⟨text, others, printed, by simpa using clear, rest, same⟩

theorem length_fieldsFrom (aligned : Aligned holds ts segments)
    (shown : fieldsFrom index ts segments = .ok fields) : fields.length = segments.length := by
  induction aligned generalizing index fields with
  | nil =>
      simp only [fieldsFrom] at shown
      cases shown
      rfl
  | null _ ih =>
      obtain ⟨others, rest, rfl⟩ := fieldsFrom_null shown
      simp only [List.length_cons, ih rest]
  | payload _ _ ih =>
      obtain ⟨text, others, -, -, rest, rfl⟩ := fieldsFrom_payload shown
      simp only [List.length_cons, ih rest]

theorem ne_nil_of_fieldsFrom (aligned : Aligned holds ts segments)
    (shown : fieldsFrom index ts segments = .ok fields) (present : fields ≠ []) :
    segments ≠ [] := by
  rw [← List.length_pos_iff] at present ⊢
  rwa [← length_fieldsFrom aligned shown]

/-- A text that would not be split off again is refused, hence the fields can be told apart. -/
theorem separable_fieldsFrom (aligned : Aligned holds ts segments)
    (shown : fieldsFrom index ts segments = .ok fields) (present : segments ≠ []) :
    Fields.Separable fields := by
  induction aligned generalizing index fields with
  | nil => exact absurd rfl present
  | null aligned ih =>
      obtain ⟨others, rest, rfl⟩ := fieldsFrom_null shown
      apply Fields.Separable.of_cons
      · simp [nullField, Fields.Undelimited]
      · intro _
        rfl
      · intro more
        exact ih rest (ne_nil_of_fieldsFrom aligned rest more)
  | payload _ aligned ih =>
      obtain ⟨text, others, -, clear, rest, rfl⟩ := fieldsFrom_payload shown
      simp only [Fields.isAmbiguous, Bool.or_eq_false_iff] at clear
      apply Fields.Separable.of_cons
      · apply Fields.undelimited_escape clear.1
        intro _
        rfl
      · intro more
        apply Fields.endsOdd_escape
        have continued := ne_nil_of_fieldsFrom aligned rest more
        simpa [continued] using clear.2
      · intro more
        exact ih rest (ne_nil_of_fieldsFrom aligned rest more)

theorem ofFields_null (t : Ty S) (ts : List (Ty S)) (fields : List (List Char)) :
    ofFields (t :: ts) (nullField :: fields) = (ofFields ts fields).map (none :: ·) := by
  simp only [ofFields, if_true]

/-- A field that is an escaped text is no null, and is read as that text. -/
theorem ofFields_escape (t : Ty S) (ts : List (Ty S)) (text : String)
    (fields : List (List Char)) : ofFields (t :: ts) (Fields.escape text.toList :: fields) =
      (t.ofText text).bind fun payload => (ofFields ts fields).map (some payload :: ·) := by
  have present : Fields.escape text.toList ≠ nullField := Fields.escape_ne_atSign text.toList
  simp only [ofFields, if_neg present, Fields.unescape_escape, String.ofList_toList]
  cases t.ofText text <;> rfl

theorem ofText_join (separable : Fields.Separable fields) (few : fields.length ≤ ts.length) :
    (Ty.tuple ts).ofText (String.ofList (Fields.join fields)) =
      (ofFields ts fields).bind encodeSegments := by
  simp only [ofText, String.toList_ofList, Fields.split_join separable,
    if_neg (Nat.not_lt.mpr few)]
  cases ofFields ts fields <;> rfl

end Fields

/-! ## Values with a component in every tuple -/

variable {ts : List (Ty Scalar)} {segments : List Segment}

/-- No tuple is the empty blob. That blob and a tuple of one empty text print alike. -/
def FilledThroughout : Ty Scalar → Bytes → Prop :=
  Throughout fun _ blob => blob ≠ []

/-- The text of a value of the type is read as that value with its nulls rewritten. -/
def Returns (t : Ty Scalar) : Prop :=
  ∀ bytes text, t.Valid bytes → FilledThroughout t bytes →
    t.toText bytes = .ok text → ∃ after, t.ofText text = .ok after ∧ Canonizes t bytes after

theorem ofFields_fieldsFrom {index : Nat} {fields : List (List Char)}
    (returns : ∀ t ∈ ts, Returns t) (valid : Aligned Valid ts segments)
    (filled : Aligned FilledThroughout ts segments)
    (shown : fieldsFrom index ts segments = .ok fields) :
    ∃ after, ofFields ts fields = .ok after ∧ Matched Canonizes ts segments after := by
  induction valid generalizing index fields with
  | nil =>
      simp only [fieldsFrom] at shown
      cases shown
      exact ⟨[], by rw [ofFields]; simp, .nil⟩
  | null _ ih =>
      obtain ⟨others, rest, rfl⟩ := fieldsFrom_null shown
      cases filled with
      | null filled =>
          obtain ⟨-, later⟩ := List.forall_mem_cons.mp returns
          obtain ⟨after, read, same⟩ := ih later filled rest
          refine ⟨none :: after, ?_, .null same⟩
          simp only [ofFields_null, read, Except.map]
  | payload hvalid _ ih =>
      obtain ⟨text, others, printed, -, rest, rfl⟩ := fieldsFrom_payload shown
      cases filled with
      | payload hfilled filled =>
          obtain ⟨first, later⟩ := List.forall_mem_cons.mp returns
          obtain ⟨after, read, same⟩ := ih later filled rest
          obtain ⟨payload', readPayload, samePayload⟩ := first _ _ hvalid hfilled printed
          refine ⟨some payload' :: after, ?_, .payload samePayload same⟩
          simp only [ofFields_escape, readPayload, read, Except.map, Except.bind]

theorem returns (t : Ty Scalar) : Returns t := by
  induction t with
  | scalar s =>
      intro bytes text _ _ shown
      rw [toText] at shown
      refine ⟨bytes, ?_, .scalar⟩
      rw [ofText]
      exact Scalar.ofText_toText shown
  | tuple ts ih =>
      intro blob text valid filled shown
      obtain ⟨segments, spelled, aligned⟩ := valid_tuple_iff.mp valid
      have present : segments ≠ [] := by
        intro empty
        exact filled.here (spelled.eq_nil_iff.mpr empty)
      rw [toText, spelled.split_eq aligned.length_le] at shown
      obtain ⟨fields, rest, rfl⟩ := map_eq_ok_iff.mp shown
      obtain ⟨after, read, same⟩ :=
        ofFields_fieldsFrom ih aligned (filled.inside_of_spells spelled) rest
      have sizes := same.mono fun _ _ _ _ => Canonizes.length_eq
      obtain ⟨canonical, written, -⟩ := sizes.exists_written spelled
      have few : fields.length ≤ ts.length := by
        rw [length_fieldsFrom aligned rest]
        exact aligned.length_le
      refine ⟨canonical, ?_, .tuple spelled written same⟩
      rw [ofText_join (separable_fieldsFrom aligned rest present) few, read]
      exact written.encodeSegments_eq

/-- A value that is printed is read again from its text with its nulls rewritten. The value read
is the same where only the written null occurs, and has the same place in the order anyway. -/
theorem text_round_trip {blob : Bytes} {text : String}
    (valid : (Ty.tuple ts).Valid blob) (filled : FilledThroughout (.tuple ts) blob)
    (shown : (Ty.tuple ts).toText blob = .ok text) :
    ∃ after, (Ty.tuple ts).ofText text = .ok after ∧ Canonizes (.tuple ts) blob after ∧
      (WrittenThroughout (.tuple ts) blob → after = blob) ∧
      (Ty.tuple ts).order blob after = .ok .eq := by
  obtain ⟨after, read, same⟩ := returns (.tuple ts) blob text valid filled shown
  refine ⟨after, read, same, ?_, same.order_eq valid⟩
  intro written
  exact (same.eq_of_written written).symm

/-- The texts of the components are a colon, and a tuple of an at sign and a null. -/
theorem text_round_trip_nested :
    ∃ after,
      (Ty.tuple [.scalar Scalar.utf8, .tuple [.scalar .utf8, .scalar .int32]]).ofText
        "\\::\\\\@\\:\\@" = .ok after ∧
      Canonizes (.tuple [.scalar .utf8, .tuple [.scalar .utf8, .scalar .int32]])
        [0, 0, 0, 1, 58, 0, 0, 0, 9, 0, 0, 0, 1, 64, 255, 255, 255, 254] after ∧
      (WrittenThroughout (.tuple [.scalar .utf8, .tuple [.scalar .utf8, .scalar .int32]])
          [0, 0, 0, 1, 58, 0, 0, 0, 9, 0, 0, 0, 1, 64, 255, 255, 255, 254] →
        after = [0, 0, 0, 1, 58, 0, 0, 0, 9, 0, 0, 0, 1, 64, 255, 255, 255, 254]) ∧
      (Ty.tuple [.scalar Scalar.utf8, .tuple [.scalar .utf8, .scalar .int32]]).order
        [0, 0, 0, 1, 58, 0, 0, 0, 9, 0, 0, 0, 1, 64, 255, 255, 255, 254] after = .ok .eq := by
  have valid : (Ty.tuple [.scalar Scalar.utf8, .tuple [.scalar .utf8, .scalar .int32]]).Valid
      [0, 0, 0, 1, 58, 0, 0, 0, 9, 0, 0, 0, 1, 64, 255, 255, 255, 254] := rfl
  have validInside : (Ty.tuple [.scalar Scalar.utf8, .scalar .int32]).Valid
      [0, 0, 0, 1, 64, 255, 255, 255, 254] := rfl
  obtain ⟨spelled, -⟩ := spells_of_split valid rfl
  obtain ⟨spelledInside, -⟩ := spells_of_split validInside rfl
  apply text_round_trip valid
  · apply Throughout.tuple (List.cons_ne_nil _ _) spelled
    apply Aligned.payload .scalar
    apply Aligned.payload _ .nil
    apply Throughout.tuple (List.cons_ne_nil _ _) spelledInside
    exact .payload .scalar (.null .nil)
  · decide +kernel

/-! ## Texts that can be read -/

/-- Where the text of a value can be read, it is read as that value with its nulls rewritten. -/
def Rereads (t : Ty Scalar) : Prop :=
  ∀ bytes text after, t.Valid bytes → t.BegunThroughout bytes → t.toText bytes = .ok text →
    t.ofText text = .ok after → Canonizes t bytes after

theorem matched_of_ofFields {segments read : List Segment} {index : Nat}
    {fields : List (List Char)} (rereads : ∀ t ∈ ts, Rereads t)
    (valid : Aligned Valid ts segments) (begun : Aligned BegunThroughout ts segments)
    (shown : fieldsFrom index ts segments = .ok fields) (found : ofFields ts fields = .ok read) :
    Matched Canonizes ts segments read := by
  induction valid generalizing index fields read with
  | @nil ts =>
      simp only [fieldsFrom] at shown
      cases shown
      cases ts <;> cases found <;> exact .nil
  | null _ ih =>
      obtain ⟨others, rest, rfl⟩ := fieldsFrom_null shown
      rw [ofFields_null] at found
      obtain ⟨others, found', rfl⟩ := map_eq_ok_iff.mp found
      cases begun with
      | null begun =>
          obtain ⟨-, later⟩ := List.forall_mem_cons.mp rereads
          exact .null (ih later begun rest found')
  | payload hvalid _ ih =>
      obtain ⟨text, others, printed, -, rest, rfl⟩ := fieldsFrom_payload shown
      rw [ofFields_escape] at found
      obtain ⟨payload, readFirst, found⟩ := bind_eq_ok_iff.mp found
      obtain ⟨others, found', rfl⟩ := map_eq_ok_iff.mp found
      cases begun with
      | payload hbegun begun =>
          obtain ⟨first, later⟩ := List.forall_mem_cons.mp rereads
          refine .payload ?_ (ih later begun rest found')
          exact first _ _ _ hvalid hbegun printed readFirst

theorem rereads (t : Ty Scalar) : Rereads t := by
  induction t with
  | scalar s =>
      intro bytes text after _ _ shown read
      rw [toText, ScalarType.toText_eq] at shown
      rw [ofText, ScalarType.ofText_eq, Scalar.ofText_toText shown] at read
      cases read
      exact .scalar
  | tuple ts ih =>
      intro blob text after valid begun shown read
      obtain ⟨segments, spelled, aligned⟩ := valid_tuple_iff.mp valid
      rw [toText, spelled.split_eq aligned.length_le] at shown
      obtain ⟨fields, rest, rfl⟩ := map_eq_ok_iff.mp shown
      by_cases present : segments = []
      · have noType : ts = [] := by
          by_contra components
          exact begun.here components (spelled.eq_nil_iff.mpr present)
        subst present noType
        cases rest
        cases read
      · have few : fields.length ≤ ts.length := by
          rw [length_fieldsFrom aligned rest]
          exact aligned.length_le
        rw [ofText_join (separable_fieldsFrom aligned rest present) few] at read
        obtain ⟨found, inside, written⟩ := bind_eq_ok_iff.mp read
        refine .tuple spelled (spells_of_encodeSegments written) ?_
        exact matched_of_ofFields ih aligned (begun.inside_of_spells spelled) rest inside

end TupleBlob.Ty
