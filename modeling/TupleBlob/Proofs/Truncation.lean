import TupleBlob.Proofs.Encoding
import TupleBlob.Proofs.Validity
import TupleBlob.Scalar

/-! # Blobs cut short

A blob that is cut after any of its bytes ends between two segments or inside one. Between two of
them it is a shorter blob. Inside one, reading fails there: at the offset where the segment begins,
if its length word is cut, and at the one where its payload begins otherwise. Main statement: this
holds for every cut of a blob that was written, for splitting and for validation alike.
-/

namespace TupleBlob

open LengthWord

variable {S : Type} [ScalarType S]

/-! ## Bytes that are no whole segment -/

/-- The bytes, which stand at an offset, end inside the segment that they begin with. -/
inductive Unreadable (offset : Nat) : Bytes → Fault → Prop
  /-- They end inside the length word. -/
  | word {bytes} (begun : bytes ≠ []) (short : bytes.length < width) :
      Unreadable offset bytes (.truncatedLength offset bytes.length)
  /-- They end inside the payload that the length word announces. -/
  | payload {word size bytes} (present : payloadSize? word = some size)
      (short : bytes.length < size) :
      Unreadable offset (word.toBytes ++ bytes)
        (.truncatedPayload (offset + width) size bytes.length)

theorem readSegment_eq_error_iff {offset : Nat} {bytes : Bytes} {fault : Fault} :
    (Reader.readSegment ⟨offset, bytes⟩).1 = .error fault ↔ Unreadable offset bytes fault := by
  constructor
  · intro read
    have step := Reader.readsSegment ⟨offset, bytes⟩
    generalize Reader.readSegment ⟨offset, bytes⟩ = found at read step
    cases step with
    | atEnd | item => cases read
    | shortWord begun short =>
        cases read
        exact .word begun short
    | shortPayload present short =>
        cases read
        exact .payload present short
  · intro cut
    cases cut with
    | word begun short =>
        rw [Reader.readSegment, Reader.readLength_eq_iff.mpr (.short begun short)]
    | payload present short => rw [Reader.readSegment_of_broken present short rfl]

/-- No segment can be read from the bytes: there are none left, or they end inside one. -/
inductive Stops (offset : Nat) : Bytes → Except Fault Unit → Prop
  | atEnd : Stops offset [] (.ok ())
  | cut {bytes fault} (cut : Unreadable offset bytes fault) : Stops offset bytes (.error fault)

theorem Stops.exists_readSegment {offset : Nat} {bytes : Bytes} {stop : Except Fault Unit}
    (h : Stops offset bytes stop) :
    ∃ r, Reader.readSegment ⟨offset, bytes⟩ = (stop.map fun () => .atEnd, r) := by
  cases h with
  | atEnd => exact ⟨_, rfl⟩
  | cut cut => exact ⟨_, Prod.ext (readSegment_eq_error_iff.mpr cut) rfl⟩

/-! ## Whole segments, and then none -/

section Front

variable {segments : List Segment} {front bytes : Bytes} {stop : Except Fault Unit}

theorem Spells.segments_append (h : Spells ReadAsNull segments front) (count offset : Nat)
    (rest : Bytes) :
    Reader.segments (segments.length + count) ⟨offset, front ++ rest⟩ =
      (Reader.segments count ⟨offset + front.length, rest⟩).map (segments ++ ·) := by
  induction h generalizing offset with
  | nil =>
      simp only [List.length_nil, Nat.zero_add, List.nil_append, Nat.add_zero]
      cases Reader.segments count ⟨offset, rest⟩ <;> rfl
  | cons first _ ih =>
      simp only [List.length_cons, Nat.succ_add, Reader.segments, Reader.next, List.append_assoc,
        first.readSegment, ih, List.length_append, Nat.add_assoc]
      cases Reader.segments count ⟨_, rest⟩ <;> rfl

/-- Splitting gives the segments up to the place where no other can be read. -/
theorem Spells.split_of_stops {arity : Nat} (h : Spells ReadAsNull segments front)
    (stops : Stops front.length bytes stop) (few : segments.length < arity) :
    split arity (front ++ bytes) = stop.map fun () => segments := by
  obtain ⟨count, rfl⟩ := Nat.exists_eq_add_of_lt few
  obtain ⟨r, read⟩ := stops.exists_readSegment
  rw [split, Reader.start, Nat.add_assoc, h.segments_append, Nat.zero_add]
  cases stops with
  | atEnd | cut =>
      simp only [Reader.segments, Reader.next, read, Except.map, List.append_nil]

/-- Where the payloads are valid, the validator fails for what splitting fails for. -/
theorem Ty.validate_of_stops {ts : List (Ty S)} (h : Spells ReadAsNull segments front)
    (aligned : Aligned Ty.Valid ts segments) (stops : Stops front.length bytes stop)
    (few : segments.length < ts.length) :
    ((Ty.tuple ts).validate (front ++ bytes)).mapError Failure.fault = stop := by
  obtain ⟨t, later, rest⟩ := List.exists_cons_of_length_pos
    (List.length_drop ▸ Nat.sub_pos_of_lt few : 0 < (ts.drop segments.length).length)
  obtain ⟨r, read⟩ := stops.exists_readSegment
  rw [Ty.validate, Reader.start, Ty.validateFrom_append h aligned, rest, Nat.zero_add,
    Nat.zero_add]
  cases stops with
  | atEnd | cut =>
      simp only [Ty.validateFrom, read, Except.map]
      rfl

end Front

/-! ## Cuts -/

/-- The number of bytes that the segment takes. -/
def segmentSize (segment : Segment) : Nat := width + segment.elim 0 List.length

/-- The number of bytes before the segment with the given index. -/
def startOf (segments : List Segment) (index : Nat) : Nat :=
  ((segments.take index).map segmentSize).sum

/-- What is left of a blob of the segments that is cut after some number of bytes: the segments
before the cut if it lies between two of them, and otherwise the fault that locates it. -/
inductive CutAfter (segments : List Segment) : Nat → Except Fault (List Segment) → Prop
  | between {index} (within : index < segments.length) :
      CutAfter segments (startOf segments index) (.ok (segments.take index))
  | inWord {index kept} (within : index < segments.length) (begun : 0 < kept)
      (short : kept < width) :
      CutAfter segments (startOf segments index + kept)
        (.error (.truncatedLength (startOf segments index) kept))
  | inPayload {index payload kept} (present : segments[index]? = some (some payload))
      (short : kept < payload.length) :
      CutAfter segments (startOf segments index + width + kept)
        (.error (.truncatedPayload (startOf segments index + width) payload.length kept))

section Cuts

variable {segments : List Segment} {blob : Bytes} {kept : Nat}

theorem startOf_succ (first : Segment) (others : List Segment) (index : Nat) :
    startOf (first :: others) (index + 1) = segmentSize first + startOf others index := by
  simp only [startOf, List.take_succ_cons, List.map_cons, List.sum_cons]

theorem Spells.length_eq_startOf {nulls : LengthWord → Prop} (h : Spells nulls segments blob) :
    blob.length = startOf segments segments.length := by
  induction h with
  | nil => rfl
  | cons first _ ih =>
      rw [List.length_append, List.length_cons, startOf_succ, ih]
      cases first with
      | null => rfl
      | payload => rw [List.length_append]; rfl

/-- Every byte belongs to a segment. -/
theorem exists_segment_at (inside : kept < startOf segments segments.length) :
    ∃ index segment, segments[index]? = some segment ∧ startOf segments index ≤ kept ∧
      kept < startOf segments index + segmentSize segment := by
  induction segments generalizing kept with
  | nil => exact absurd inside (Nat.not_lt_zero _)
  | cons first others ih =>
      by_cases early : kept < segmentSize first
      · exact ⟨0, first, rfl, Nat.zero_le _, by simpa [startOf] using early⟩
      · rw [List.length_cons, startOf_succ] at inside
        obtain ⟨index, segment, here, above, below⟩ :=
          @ih (kept - segmentSize first) (by omega)
        refine ⟨index + 1, segment, here, ?_, ?_⟩ <;> rw [startOf_succ] <;> omega

theorem exists_cutAfter (inside : kept < startOf segments segments.length) :
    ∃ outcome, CutAfter segments kept outcome := by
  obtain ⟨index, segment, here, above, below⟩ := exists_segment_at inside
  obtain ⟨within, -⟩ := List.getElem?_eq_some_iff.mp here
  obtain ⟨left, rfl⟩ := Nat.exists_eq_add_of_le above
  by_cases whole : left = 0
  · subst whole
    exact ⟨_, .between within⟩
  · by_cases word : left < width
    · exact ⟨_, .inWord within (Nat.pos_of_ne_zero whole) word⟩
    · obtain ⟨passed, rfl⟩ := Nat.exists_eq_add_of_le (Nat.le_of_not_lt word)
      rw [← Nat.add_assoc]
      cases segment with
      | none =>
          simp only [segmentSize, Option.elim_none] at below
          omega
      | some payload =>
          simp only [segmentSize, Option.elim_some] at below
          exact ⟨_, .inPayload here (by omega)⟩

theorem Spells.exists_segment {nulls : LengthWord → Prop} (h : Spells nulls segments blob)
    {index : Nat} {segment : Segment} (here : segments[index]? = some segment) :
    ∃ front bytes rest, blob = front ++ (bytes ++ rest) ∧
      front.length = startOf segments index ∧ Spells nulls (segments.take index) front ∧
      SpellsSegment nulls segment bytes := by
  obtain ⟨within, rfl⟩ := List.getElem?_eq_some_iff.mp here
  have whole := h
  rw [← List.take_append_drop index segments, List.drop_eq_getElem_cons within] at whole
  obtain ⟨front, behind, rfl, before, others⟩ := whole.exists_append
  cases others with
  | cons first _ =>
      refine ⟨front, _, _, rfl, ?_, before, first⟩
      rw [before.length_eq_startOf, startOf, startOf, List.length_take, List.take_take,
        Nat.min_eq_left (Nat.le_of_lt within), Nat.min_self]

/-- A segment that is cut can no longer be read. -/
theorem SpellsSegment.unreadable_take {segment : Segment} {bytes : Bytes}
    (first : SpellsSegment ReadAsNull segment bytes) (offset : Nat) (rest : Bytes)
    (begun : 0 < kept) (short : kept < width) :
    Unreadable offset ((bytes ++ rest).take kept) (.truncatedLength offset kept) := by
  have long : width ≤ bytes.length := by
    cases first with
    | null => exact Nat.le_refl _
    | payload => rw [List.length_append]; exact Nat.le_add_right _ _
  have left : ((bytes ++ rest).take kept).length = kept := by
    rw [List.length_take, List.length_append]
    omega
  generalize (bytes ++ rest).take kept = taken at left
  subst left
  exact .word (List.length_pos_iff.mp begun) short

theorem SpellsSegment.unreadable_take_payload {payload bytes : Bytes}
    (first : SpellsSegment ReadAsNull (some payload) bytes) (offset : Nat) (rest : Bytes)
    (short : kept < payload.length) :
    Unreadable offset ((bytes ++ rest).take (width + kept))
      (.truncatedPayload (offset + width) payload.length kept) := by
  cases first with
  | @payload _ word fits =>
      have left : (payload.take kept).length = kept := by
        rw [List.length_take]
        omega
      have taken : (word.toBytes ++ payload ++ rest).take (width + kept) =
          word.toBytes ++ payload.take kept := by
        rw [List.append_assoc, ← length_toBytes word, List.take_length_add_append,
          List.take_append_of_le_length (Nat.le_of_lt short)]
      have fewer : (payload.take kept).length < payload.length := by rwa [left]
      have unread : Unreadable offset (word.toBytes ++ payload.take kept) _ :=
        .payload (payloadSize?_of_ofSize? fits) fewer
      rw [left] at unread
      rwa [taken]

/-- A blob that is cut is the segments before the cut, and then bytes that are no segment. -/
theorem CutAfter.exists_stops (h : Spells ReadAsNull segments blob)
    {outcome : Except Fault (List Segment)} (cut : CutAfter segments kept outcome) :
    ∃ index front bytes stop, index < segments.length ∧ blob.take kept = front ++ bytes ∧
      Spells ReadAsNull (segments.take index) front ∧ Stops front.length bytes stop ∧
      outcome = stop.map fun () => segments.take index := by
  cases cut with
  | @between index within =>
      obtain ⟨front, bytes, rest, rfl, start, before, -⟩ :=
        h.exists_segment (List.getElem?_eq_getElem within)
      refine ⟨index, front, [], .ok (), within, ?_, before, .atEnd, rfl⟩
      rw [← start, List.take_left, List.append_nil]
  | @inWord index kept within begun short =>
      obtain ⟨front, bytes, rest, rfl, start, before, first⟩ :=
        h.exists_segment (List.getElem?_eq_getElem within)
      have unread := first.unreadable_take front.length rest begun short
      refine ⟨index, front, _, _, within, ?_, before, .cut unread, ?_⟩
      · rw [← start, List.take_length_add_append]
      · rw [start]
        rfl
  | @inPayload index payload kept present short =>
      obtain ⟨front, bytes, rest, rfl, start, before, first⟩ := h.exists_segment present
      obtain ⟨within, -⟩ := List.getElem?_eq_some_iff.mp present
      have unread := first.unreadable_take_payload front.length rest short
      refine ⟨index, front, _, _, within, ?_, before, .cut unread, ?_⟩
      · rw [← start, Nat.add_assoc, List.take_length_add_append]
      · rw [start]
        rfl

end Cuts

/-- Payloads that fit their length words, at most one for each component, are written as a blob.
Cut after any of its bytes but the last, the blob is split into the segments before the cut, where
it lies between two of them, and is refused otherwise, with the place where the segment or its
payload begins. The validator, if it accepts the payloads, accepts and refuses the same cuts, for
the same faults. -/
theorem split_of_cut {ts : List (Ty S)} {segments : List Segment}
    (few : segments.length ≤ ts.length)
    (fits : ∀ payload, some payload ∈ segments → payload.length ≤ maxPayload) :
    ∃ blob, encodeSegments segments = .ok blob ∧ ∀ kept, kept < blob.length →
      (∃ outcome, CutAfter segments kept outcome) ∧
      ∀ outcome, CutAfter segments kept outcome →
        split ts.length (blob.take kept) = outcome ∧
        (Aligned Ty.Valid ts segments →
          ((Ty.tuple ts).validate (blob.take kept)).mapError Failure.fault =
            outcome.map fun _ => ()) := by
  obtain ⟨blob, written⟩ := exists_spells_of_fits fits
  have spelled := written.readable
  refine ⟨blob, written.encodeSegments_eq, fun kept inside => ⟨?_, fun outcome cut => ?_⟩⟩
  · exact exists_cutAfter (spelled.length_eq_startOf ▸ inside)
  · obtain ⟨index, front, bytes, stop, within, left, before, stops, rfl⟩ :=
      cut.exists_stops spelled
    have fewer : (segments.take index).length < ts.length := by
      rw [List.length_take]
      omega
    rw [left]
    refine ⟨before.split_of_stops stops fewer, fun aligned => ?_⟩
    rw [Ty.validate_of_stops before (aligned.take index) stops fewer]
    cases stop <;> rfl

/-- Cuts behind a null and behind an empty payload, three bytes into a length word, and before the
first and the last byte of a payload. -/
theorem split_of_cut_at_edges :
    (∀ payload : Bytes, some payload ∈ [none, some [], some [0, 0, 0, 1, 97]] →
      payload.length ≤ maxPayload) ∧
    ∃ blob, encodeSegments [none, some [], some [0, 0, 0, 1, 97]] = .ok blob ∧
      split 3 (blob.take 4) = .ok [none] ∧
      split 3 (blob.take 8) = .ok [none, some []] ∧
      split 3 (blob.take 11) = .error (.truncatedLength 8 3) ∧
      split 3 (blob.take 12) = .error (.truncatedPayload 12 5 0) ∧
      ((Ty.tuple [.scalar Scalar.int32, .scalar .bytes, .tuple [.scalar .utf8]]).validate
        (blob.take 16)).mapError Failure.fault = .error (.truncatedPayload 12 5 4) := by
  have fits : ∀ payload : Bytes, some payload ∈ [none, some [], some [0, 0, 0, 1, 97]] →
      payload.length ≤ maxPayload := by
    simp [maxPayload]
  have few : [none, some [], some [0, 0, 0, 1, 97]].length ≤
      [Ty.scalar Scalar.int32, .scalar .bytes, .tuple [.scalar .utf8]].length := Nat.le_refl 3
  have aligned : Aligned Ty.Valid [.scalar Scalar.int32, .scalar .bytes, .tuple [.scalar .utf8]]
      [none, some [], some [0, 0, 0, 1, 97]] := .null (.payload rfl (.payload rfl .nil))
  obtain ⟨blob, written, cuts⟩ := split_of_cut few fits
  have size : blob.length = 17 := by
    cases written
    rfl
  have cut (kept : Nat) (inside : kept < 17) := (cuts kept (size.symm ▸ inside)).2
  have behindNull := cut 4 (by decide) _ (@CutAfter.between _ 1 (by decide))
  have behindEmpty := cut 8 (by decide) _ (@CutAfter.between _ 2 (by decide))
  have inWord := cut 11 (by decide) _ (@CutAfter.inWord _ 2 3 (by decide) (by decide) (by decide))
  have first := cut 12 (by decide) _ (@CutAfter.inPayload _ 2 _ 0 rfl (by decide))
  have last := cut 16 (by decide) _ (@CutAfter.inPayload _ 2 _ 4 rfl (by decide))
  exact ⟨fits, blob, written, behindNull.1, behindEmpty.1, inWord.1, first.1, last.2 aligned⟩

end TupleBlob
