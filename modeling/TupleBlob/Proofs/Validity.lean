import TupleBlob.Proofs.Outcome
import TupleBlob.Proofs.Spelling
import TupleBlob.Ty.Order

/-! # Segments in line with types

A tuple type asks something of each payload by the type at its place. Main statements: the valid
blobs of a tuple type are the spellings of segments, at most one for each component, whose
payloads are valid for the types at their places.
-/

namespace TupleBlob

open LengthWord

variable {S : Type}

/-- There is a type for every segment, and each payload is in the relation `holds` to the type at
its place. -/
inductive Aligned (holds : Ty S → Bytes → Prop) : List (Ty S) → List Segment → Prop
  | nil {ts} : Aligned holds ts []
  | null {t ts segments} (others : Aligned holds ts segments) :
      Aligned holds (t :: ts) (none :: segments)
  | payload {t ts payload segments} (first : holds t payload)
      (others : Aligned holds ts segments) :
      Aligned holds (t :: ts) (some payload :: segments)

namespace Aligned

variable {holds : Ty S → Bytes → Prop} {ts : List (Ty S)} {segments : List Segment}

theorem length_le (h : Aligned holds ts segments) : segments.length ≤ ts.length := by
  induction h with
  | nil => exact Nat.zero_le _
  | null _ ih | payload _ _ ih => exact Nat.succ_le_succ ih

theorem mono {holds' : Ty S → Bytes → Prop} (h : Aligned holds ts segments)
    (step : ∀ t ∈ ts, ∀ payload, holds t payload → holds' t payload) :
    Aligned holds' ts segments := by
  induction h with
  | nil => exact .nil
  | null _ ih => exact .null (ih fun t ht => step t (List.mem_cons_of_mem _ ht))
  | payload first _ ih =>
      apply Aligned.payload
      · exact step _ List.mem_cons_self _ first
      · exact ih fun t ht => step t (List.mem_cons_of_mem _ ht)

theorem head {t : Ty S} {payload : Bytes} (h : Aligned holds (t :: ts) segments)
    (first : segments.head?.join = some payload) : holds t payload := by
  cases h with
  | nil | null => cases first
  | payload hpayload =>
      cases first
      exact hpayload

theorem tail {t : Ty S} (h : Aligned holds (t :: ts) segments) :
    Aligned holds ts segments.tail := by
  cases h with
  | nil => exact .nil
  | null others | payload _ others => exact others

theorem take (h : Aligned holds ts segments) (count : Nat) :
    Aligned holds ts (segments.take count) := by
  induction h generalizing count with
  | nil =>
      rw [List.take_nil]
      exact .nil
  | null _ ih =>
      cases count with
      | zero => exact .nil
      | succ count => exact .null (ih count)
  | payload first _ ih =>
      cases count with
      | zero => exact .nil
      | succ count => exact .payload first (ih count)

end Aligned

namespace Ty

/-! ## What holds at any depth -/

/-- The blob of a tuple has the property `p`, and so have the blobs of the tuples inside it, at
any depth. -/
inductive Throughout (p : List (Ty S) → Bytes → Prop) : Ty S → Bytes → Prop
  | scalar {s bytes} : Throughout p (.scalar s) bytes
  | tuple {ts segments blob} (here : p ts blob) (spelled : Spells ReadAsNull segments blob)
      (inside : Aligned (Throughout p) ts segments) : Throughout p (.tuple ts) blob

theorem Throughout.inside_of_spells {p : List (Ty S) → Bytes → Prop} {ts : List (Ty S)}
    {segments : List Segment} {blob : Bytes} (h : Throughout p (.tuple ts) blob)
    (spelled : Spells ReadAsNull segments blob) : Aligned (Throughout p) ts segments := by
  cases h with
  | tuple _ spelled' inside =>
      rw [spelled.unique spelled']
      exact inside

theorem Throughout.here {p : List (Ty S) → Bytes → Prop} {ts : List (Ty S)} {blob : Bytes}
    (h : Throughout p (.tuple ts) blob) : p ts blob := by
  cases h with
  | tuple here _ _ => exact here

/-- No tuple with components is the empty blob. That blob comes before a tuple of nulls. -/
def BegunThroughout : Ty S → Bytes → Prop :=
  Throughout fun ts blob => ts ≠ [] → blob ≠ []

/-- Two begun tuples of one type are empty alike: both are, where the type has no components. -/
theorem isEmpty_eq_of_begun {ts : List (Ty S)} {left right : Bytes}
    (begunLeft : BegunThroughout (.tuple ts) left)
    (begunRight : BegunThroughout (.tuple ts) right) : left.isEmpty = right.isEmpty := by
  by_cases components : ts = []
  · subst components
    cases begunLeft with
    | tuple _ spellsLeft insideLeft =>
        cases begunRight with
        | tuple _ spellsRight insideRight =>
            cases insideLeft
            cases insideRight
            rw [spellsLeft.isEmpty_eq, spellsRight.isEmpty_eq]
  · rw [List.isEmpty_eq_false_iff.mpr (begunLeft.here components),
      List.isEmpty_eq_false_iff.mpr (begunRight.here components)]

/-! ## Valid values -/

variable [ScalarType S]

/-- The bytes are a value of the type. -/
def Valid (t : Ty S) (bytes : Bytes) : Prop := t.validate bytes = .ok ()

theorem valid_scalar_iff {s : S} {bytes : Bytes} :
    (Ty.scalar s).Valid bytes ↔ ScalarType.validate s bytes = .ok () := by
  rw [Valid, validate]
  exact mapError_eq_ok_iff

theorem exists_spells_of_validateFrom {whole : Ty S} {index offset : Nat} {ts : List (Ty S)}
    {blob : Bytes} (h : validateFrom whole index ts ⟨offset, blob⟩ = .ok ()) :
    ∃ segments, Spells ReadAsNull segments blob ∧ Aligned Valid ts segments := by
  induction ts generalizing index offset blob with
  | nil =>
      cases blob with
      | nil => exact ⟨[], .nil, .nil⟩
      | cons byte rest => simp [validateFrom, Reader.hasRemaining] at h
  | cons t ts ih =>
      have step := Reader.readsSegment ⟨offset, blob⟩
      simp only [validateFrom] at h
      generalize Reader.readSegment ⟨offset, blob⟩ = found at h step
      cases step with
      | shortWord | shortPayload => cases h
      | atEnd => exact ⟨[], .nil, .nil⟩
      | @item _ segment front rest first =>
          cases segment with
          | none =>
              obtain ⟨segments, others, aligned⟩ := ih h
              exact ⟨none :: segments, .cons first others, .null aligned⟩
          | some payload =>
              dsimp only at h
              split at h
              · cases h
              · rename_i valid
                obtain ⟨segments, others, aligned⟩ := ih h
                exact ⟨some payload :: segments, .cons first others, .payload valid aligned⟩

theorem validateFrom_atEnd (whole : Ty S) (index offset : Nat) (ts : List (Ty S)) :
    validateFrom whole index ts ⟨offset, []⟩ = .ok () := by
  cases ts <;> rfl

/-- Segments whose payloads are valid are passed over, whatever follows them. -/
theorem validateFrom_append {whole : Ty S} {index offset : Nat} {ts : List (Ty S)}
    {segments : List Segment} {front : Bytes} (spelled : Spells ReadAsNull segments front)
    (aligned : Aligned Valid ts segments) (rest : Bytes) :
    validateFrom whole index ts ⟨offset, front ++ rest⟩ =
      validateFrom whole (index + segments.length) (ts.drop segments.length)
        ⟨offset + front.length, rest⟩ := by
  induction aligned generalizing index offset front with
  | nil =>
      cases spelled
      rfl
  | null _ ih =>
      cases spelled with
      | cons first others =>
          simp only [List.append_assoc, validateFrom, first.readSegment, ih others,
            List.length_cons, List.drop_succ_cons, List.length_append, Nat.add_assoc,
            Nat.add_comm 1]
  | payload valid _ ih =>
      cases spelled with
      | cons first others =>
          rw [Valid] at valid
          simp only [List.append_assoc, validateFrom, first.readSegment, valid, ih others,
            List.length_cons, List.drop_succ_cons, List.length_append, Nat.add_assoc,
            Nat.add_comm 1]

theorem validateFrom_of_spells {whole : Ty S} {index offset : Nat} {ts : List (Ty S)}
    {segments : List Segment} {blob : Bytes} (spelled : Spells ReadAsNull segments blob)
    (aligned : Aligned Valid ts segments) :
    validateFrom whole index ts ⟨offset, blob⟩ = .ok () := by
  rw [← List.append_nil blob, validateFrom_append spelled aligned, validateFrom_atEnd]

/-- The grammar of the valid blobs of a tuple type. -/
theorem valid_tuple_iff {ts : List (Ty S)} {blob : Bytes} :
    (Ty.tuple ts).Valid blob ↔
      ∃ segments, Spells ReadAsNull segments blob ∧ Aligned Valid ts segments := by
  rw [Valid, validate]
  constructor
  · exact exists_spells_of_validateFrom
  · rintro ⟨segments, spelled, aligned⟩
    exact validateFrom_of_spells spelled aligned

/-- The segments that a valid blob is split into are the ones that it spells. -/
theorem spells_of_split {ts : List (Ty S)} {segments : List Segment} {blob : Bytes}
    (valid : (Ty.tuple ts).Valid blob) (read : split ts.length blob = .ok segments) :
    Spells ReadAsNull segments blob ∧ Aligned Valid ts segments := by
  obtain ⟨segments', spelled, aligned⟩ := valid_tuple_iff.mp valid
  rw [spelled.split_eq aligned.length_le] at read
  cases read
  exact ⟨spelled, aligned⟩

end Ty

end TupleBlob
