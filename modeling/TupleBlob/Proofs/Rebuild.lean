import TupleBlob.Proofs.Encoding
import TupleBlob.Proofs.Order.Reference
import TupleBlob.Scalar

/-! # Blobs taken apart and built again

A blob that is split and written again keeps its segments and gets the one written word for every
null. Main statements: this, and that a blob may be given another spelling of the same segments
without a change in its order to any bytes at all, valid or not.
-/

namespace TupleBlob

open LengthWord

variable {segments : List Segment} {blob : Bytes}

/-- What is spelled can be written. -/
theorem Spells.exists_written {nulls : LengthWord → Prop} (h : Spells nulls segments blob) :
    ∃ canonical, Spells WrittenAsNull segments canonical := by
  induction h with
  | nil => exact ⟨[], .nil⟩
  | cons first _ ih =>
      obtain ⟨canonical, written⟩ := ih
      cases first with
      | null => exact ⟨_, .cons (.null rfl) written⟩
      | payload fits => exact ⟨_, .cons (.payload fits) written⟩

/-- The bytes of the first `count` segments, with four bytes `FF` for every negative length
word. -/
def rewriteNulls : (count : Nat) → Bytes → Bytes
  | count + 1, a :: b :: c :: d :: rest =>
    match (LengthWord.ofBytes a b c d).payloadSize? with
    | none => [0xFF, 0xFF, 0xFF, 0xFF] ++ rewriteNulls count rest
    | some size =>
      a :: b :: c :: d :: rest.take size ++ rewriteNulls count (rest.drop size)
  | _, _ => []

theorem rewriteNulls_toBytes (count : Nat) (word : LengthWord) (rest : Bytes) :
    rewriteNulls (count + 1) (word.toBytes ++ rest) =
      match word.payloadSize? with
      | none => LengthWord.null.toBytes ++ rewriteNulls count rest
      | some size => word.toBytes ++ rest.take size ++ rewriteNulls count (rest.drop size) := by
  obtain ⟨a, b, c, d, bytes, same⟩ := word.ofBytes_toBytes
  simp only [bytes, List.cons_append, List.nil_append, rewriteNulls, same]
  rfl

theorem rewriteNulls_eq {front canonical : Bytes} (spelled : Spells ReadAsNull segments front)
    (written : Spells WrittenAsNull segments canonical) (rest : Bytes) :
    rewriteNulls segments.length (front ++ rest) = canonical := by
  induction spelled generalizing canonical with
  | nil =>
      cases written
      rfl
  | cons first _ ih =>
      cases written with
      | cons first' written =>
          cases first with
          | null null =>
              cases first' with
              | null null' =>
                  rw [List.length_cons, List.append_assoc, rewriteNulls_toBytes,
                    payloadSize?_eq_none_iff.mpr null, null', ih written]
          | payload fits =>
              cases first' with
              | payload fits' =>
                  obtain rfl := Option.some.inj (fits.symm.trans fits')
                  simp only [List.length_cons, List.append_assoc, rewriteNulls_toBytes,
                    payloadSize?_of_ofSize? fits, List.take_left, List.drop_left, ih written]

namespace Ty

variable {S : Type} [ScalarType S]

/-! ## Two spellings of the same segments -/

section Respelled

variable {blob' : Bytes}

theorem orderRest_congr (h : Spells ReadAsNull segments blob)
    (h' : Spells ReadAsNull segments blob') (i : Nat) (r : Reader) :
    orderRest ⟨i, blob⟩ r = orderRest ⟨i, blob'⟩ r ∧
      orderRest r ⟨i, blob⟩ = orderRest r ⟨i, blob'⟩ := by
  simp only [orderRest, Reader.hasRemaining, h.isEmpty_eq, h'.isEmpty_eq, h.skipNulls_eq,
    h'.skipNulls_eq, and_self]

/-- The length word of a segment tells its payload apart, whatever stands for a null. -/
theorem readLength_of_spells {segment : Segment} {front : Bytes}
    (first : SpellsSegment ReadAsNull segment front) (offset : Nat) (rest : Bytes) :
    ∃ word, word.payloadSize? = segment.map List.length ∧
      Reader.readLength ⟨offset, front ++ rest⟩ =
        (.ok (.item width word), ⟨offset + width, segment.getD [] ++ rest⟩) := by
  cases first with
  | null null =>
      exact ⟨_, payloadSize?_eq_none_iff.mpr null, Reader.readLength_toBytes offset _ rest⟩
  | payload fits =>
      refine ⟨_, payloadSize?_of_ofSize? fits, ?_⟩
      rw [List.append_assoc]
      exact Reader.readLength_toBytes offset _ _

/-- The other reader may stand before anything, so the cases are what its reads give, and they are
the same on either side. -/
theorem orderFrom_congr {ts : List (Ty S)} (h : Spells ReadAsNull segments blob)
    (h' : Spells ReadAsNull segments blob') (i : Nat) (r : Reader) :
    orderFrom ts ⟨i, blob⟩ r = orderFrom ts ⟨i, blob'⟩ r ∧
      orderFrom ts r ⟨i, blob⟩ = orderFrom ts r ⟨i, blob'⟩ := by
  induction ts generalizing segments blob blob' i r with
  | nil => exact orderRest_congr h h' i r
  | cons t ts ih =>
      have rests := orderRest_congr h h' i r
      cases h with
      | nil =>
          cases h'
          exact ⟨rfl, rfl⟩
      | @cons segment _ _ rest first others =>
          cases h' with
          | @cons _ _ _ rest' first' others' =>
              obtain ⟨word, announced, reads⟩ := readLength_of_spells first i rest
              obtain ⟨word', announced', reads'⟩ := readLength_of_spells first' i rest'
              constructor
              all_goals
                simp only [orderFrom, reads, reads']
                rcases r.readLength with ⟨fault | _ | ⟨_, other⟩, next⟩
                · rfl
                · simp only [rests]
                · dsimp only
                  rw [announced, announced']
                  cases segment with
                  | none =>
                      cases other.payloadSize? with
                      | none =>
                          simp only [Option.map_none, Option.getD_none, List.nil_append,
                            ih others others']
                      | some => rfl
                  | some payload =>
                      cases other.payloadSize? with
                      | none => rfl
                      | some size =>
                          simp only [Option.map_some, Option.getD_some, Reader.readBytes_append]
                          rcases next.readBytes size with ⟨fault | bytes, after⟩
                          · rfl
                          · simp only [ih others others']

/-- A blob may be spelled anew on either side, whatever bytes it is compared with. -/
theorem order_congr {ts : List (Ty S)} (h : Spells ReadAsNull segments blob)
    (h' : Spells ReadAsNull segments blob') (other : Bytes) :
    (Ty.tuple ts).order blob other = (Ty.tuple ts).order blob' other ∧
      (Ty.tuple ts).order other blob = (Ty.tuple ts).order other blob' := by
  simp only [order_tuple, h.isEmpty_eq, h'.isEmpty_eq, Reader.start, orderFrom_congr h h',
    and_self]

end Respelled

/-- Writing the segments that a blob is split into rewrites the nulls among them and drops what
follows them, and nothing else. Where nothing follows, the blob written is ordered like the given
one against any bytes, fault for fault. -/
theorem encodeSegments_of_split {ts : List (Ty S)}
    (read : split ts.length blob = .ok segments) :
    ∃ front rest canonical, blob = front ++ rest ∧ Spells ReadAsNull segments front ∧
      encodeSegments segments = .ok canonical ∧
      canonical = rewriteNulls segments.length blob ∧
      split ts.length canonical = .ok segments ∧
      (split ts.length canonical).bind encodeSegments = .ok canonical ∧
      (rest = [] → ∀ other,
        (Ty.tuple ts).order canonical other = (Ty.tuple ts).order blob other ∧
        (Ty.tuple ts).order other canonical = (Ty.tuple ts).order other blob) := by
  obtain ⟨few, front, rest, rfl, spelled⟩ := spells_of_segments read
  obtain ⟨canonical, written⟩ := spelled.exists_written
  have encoded := written.encodeSegments_eq
  have again := written.readable.split_eq few
  refine ⟨front, rest, canonical, rfl, spelled, encoded, ?_, again, ?_, ?_⟩
  · exact (rewriteNulls_eq spelled written rest).symm
  · rw [again]
    exact encoded
  · rintro rfl other
    rw [List.append_nil]
    exact order_congr written.readable spelled other

/-- A null spelled unusually in a blob that goes on past the arity with half a length word, and in
one that ends there. -/
theorem encodeSegments_of_split_overlong :
    (∃ front rest canonical,
      [128, 0, 0, 0, 0, 0, 0, 1, 97, 0, 0] = front ++ rest ∧
      Spells ReadAsNull [none, some [97]] front ∧
      encodeSegments [none, some [97]] = .ok canonical ∧
      canonical = rewriteNulls 2 [128, 0, 0, 0, 0, 0, 0, 1, 97, 0, 0] ∧
      split 2 canonical = .ok [none, some [97]] ∧
      (split 2 canonical).bind encodeSegments = .ok canonical ∧
      (rest = [] → ∀ other,
        (Ty.tuple [.scalar Scalar.int32, .scalar .utf8]).order canonical other =
          (Ty.tuple [.scalar Scalar.int32, .scalar .utf8]).order
            [128, 0, 0, 0, 0, 0, 0, 1, 97, 0, 0] other ∧
        (Ty.tuple [.scalar Scalar.int32, .scalar .utf8]).order other canonical =
          (Ty.tuple [.scalar Scalar.int32, .scalar .utf8]).order other
            [128, 0, 0, 0, 0, 0, 0, 1, 97, 0, 0])) ∧
    encodeSegments [none, some [97]] = .ok [255, 255, 255, 255, 0, 0, 0, 1, 97] ∧
    ∀ other,
      (Ty.tuple [.scalar Scalar.int32, .scalar .utf8]).order
          [255, 255, 255, 255, 0, 0, 0, 1, 97] other =
        (Ty.tuple [.scalar Scalar.int32, .scalar .utf8]).order
          [128, 0, 0, 0, 0, 0, 0, 1, 97] other ∧
      (Ty.tuple [.scalar Scalar.int32, .scalar .utf8]).order other
          [255, 255, 255, 255, 0, 0, 0, 1, 97] =
        (Ty.tuple [.scalar Scalar.int32, .scalar .utf8]).order other
          [128, 0, 0, 0, 0, 0, 0, 1, 97] := by
  have longer : split [Ty.scalar Scalar.int32, .scalar .utf8].length
      [128, 0, 0, 0, 0, 0, 0, 1, 97, 0, 0] = .ok [none, some [97]] := rfl
  have whole : split [Ty.scalar Scalar.int32, .scalar .utf8].length
      [128, 0, 0, 0, 0, 0, 0, 1, 97] = .ok [none, some [97]] := rfl
  refine ⟨encodeSegments_of_split longer, ?_⟩
  obtain ⟨front, rest, canonical, parts, spelled, encoded, rewritten, -, -, ordered⟩ :=
    encodeSegments_of_split whole
  have nothing : rest = [] := by
    cases spelled with
    | cons null others =>
        cases null
        cases others with
        | cons payload others =>
            cases payload
            cases others
            have size := congrArg List.length parts
            simp [LengthWord.width] at size
            exact List.eq_nil_of_length_eq_zero (by omega)
  subst rewritten
  exact ⟨encoded, ordered nothing⟩

end Ty

end TupleBlob
