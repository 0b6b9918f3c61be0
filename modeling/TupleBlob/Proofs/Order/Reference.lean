import Mathlib.Data.List.DropRight
import TupleBlob.Proofs.Validity

/-! # The order of segments

The order of tuples, told of their segments and not of their bytes. A tuple without segments comes
first; nulls at the end do not count; what is left is compared place by place. Main statement: blobs
are ordered like the segments that they spell, fault for fault.
-/

namespace TupleBlob.Ty

open LengthWord

variable {S : Type} [ScalarType S]

/-- The order of two segments of one component. A null comes before every payload. -/
def orderSegments (t : Ty S) : (left right : Segment) → Except Fault Ordering
  | none, none => .ok .eq
  | none, some _ => .ok .lt
  | some _, none => .ok .gt
  | some left, some right => t.order left right

/-- The lexicographic order of segments, a proper prefix first. Segments that have no type are not
looked at. -/
def orderLists : List (Ty S) → (left right : List Segment) → Except Fault Ordering
  | _, [], [] => .ok .eq
  | _, [], _ :: _ => .ok .lt
  | _, _ :: _, [] => .ok .gt
  | [], _ :: _, _ :: _ => .ok .eq
  | t :: ts, left :: lefts, right :: rights =>
    match t.orderSegments left right with
    | .ok .eq => orderLists ts lefts rights
    | decided => decided

/-- The segments without the nulls at their end. -/
def trimNulls (segments : List Segment) : List Segment :=
  segments.rdropWhile Option.isNone

/-- The order of tuples by all their segments. -/
def orderTuples (ts : List (Ty S)) (left right : List Segment) : Except Fault Ordering :=
  match left.isEmpty, right.isEmpty with
  | true, true => .ok .eq
  | true, false => .ok .lt
  | false, true => .ok .gt
  | false, false => orderLists ts (trimNulls left) (trimNulls right)

@[simp] theorem trimNulls_nil : trimNulls [] = [] := rfl

@[simp] theorem trimNulls_null (segments : List Segment) :
    trimNulls (none :: segments) =
      if trimNulls segments = [] then [] else none :: trimNulls segments := by
  simp only [trimNulls, List.rdropWhile, List.reverse_cons, List.dropWhile_append,
    List.isEmpty_iff, List.reverse_eq_nil_iff]
  split <;> simp

@[simp] theorem trimNulls_payload (payload : Bytes) (segments : List Segment) :
    trimNulls (some payload :: segments) = some payload :: trimNulls segments := by
  simp only [trimNulls, List.rdropWhile, List.reverse_cons, List.dropWhile_append,
    List.isEmpty_iff]
  split
  · rename_i h
    simp [h]
  · simp

theorem trimNulls_eq_nil_iff {segments : List Segment} :
    trimNulls segments = [] ↔ segments.all Option.isNone := by
  rw [trimNulls, List.rdropWhile_eq_nil_iff, List.all_eq_true]

@[simp] theorem orderLists_nil_left (ts : List (Ty S)) (segments : List Segment) :
    orderLists ts [] segments = .ok (if segments = [] then .eq else .lt) := by
  cases segments <;> simp [orderLists]

@[simp] theorem orderLists_nil_right (ts : List (Ty S)) (segments : List Segment) :
    orderLists ts segments [] = .ok (if segments = [] then .eq else .gt) := by
  cases segments <;> simp [orderLists]

/-- Nulls at the end may be dropped before or after a place is compared. -/
theorem orderLists_trimNulls_cons (t : Ty S) (ts : List (Ty S)) (left right : Segment)
    (lefts rights : List Segment) :
    orderLists (t :: ts) (trimNulls (left :: lefts)) (trimNulls (right :: rights)) =
      match t.orderSegments left right with
      | .ok .eq => orderLists ts (trimNulls lefts) (trimNulls rights)
      | decided => decided := by
  cases left with
  | some left =>
      cases right with
      | some right => simp only [trimNulls_payload, orderLists]
      | none =>
          rw [trimNulls_payload, trimNulls_null]
          split <;> rfl
  | none =>
      cases right with
      | some right =>
          rw [trimNulls_payload, trimNulls_null]
          split <;> rfl
      | none =>
          simp only [trimNulls_null, orderSegments]
          split
          · rename_i hleft
            rw [hleft, orderLists_nil_left, orderLists_nil_left]
            split <;> simp_all
          · rename_i hleft
            split
            · rename_i hright
              rw [hright, orderLists_nil_right, orderLists_nil_right]
              simp [hleft]
            · simp only [orderLists, orderSegments]

/-- The same for any two lists: where one has ended, it goes on like nulls. -/
theorem orderLists_trimNulls (t : Ty S) (ts : List (Ty S)) (lefts rights : List Segment) :
    orderLists (t :: ts) (trimNulls lefts) (trimNulls rights) =
      match t.orderSegments lefts.head?.join rights.head?.join with
      | .ok .eq => orderLists ts (trimNulls lefts.tail) (trimNulls rights.tail)
      | decided => decided := by
  cases lefts with
  | nil =>
      cases rights with
      | nil => exact orderLists_trimNulls_cons t ts none none [] []
      | cons right rights => exact orderLists_trimNulls_cons t ts none right [] rights
  | cons left lefts =>
      cases rights with
      | nil => exact orderLists_trimNulls_cons t ts left none lefts []
      | cons right rights => exact orderLists_trimNulls_cons t ts left right lefts rights

section Blobs

variable {lefts rights : List Segment} {left right : Bytes}

theorem orderRest_nil_left (spelled : Spells ReadAsNull rights right) (i j : Nat) :
    orderRest ⟨i, []⟩ ⟨j, right⟩ = .ok (if trimNulls rights = [] then .eq else .lt) := by
  simp only [orderRest, Reader.hasRemaining, List.isEmpty_nil, spelled.isEmpty_eq,
    spelled.skipNulls_eq, trimNulls_eq_nil_iff, Except.map]
  cases rights <;> simp

theorem orderRest_nil_right (spelled : Spells ReadAsNull lefts left) (i j : Nat) :
    orderRest ⟨i, left⟩ ⟨j, []⟩ = .ok (if trimNulls lefts = [] then .eq else .gt) := by
  simp only [orderRest, Reader.hasRemaining, List.isEmpty_nil, spelled.isEmpty_eq,
    spelled.skipNulls_eq, trimNulls_eq_nil_iff, Except.map]
  cases lefts <;> simp

/-- Where the right blob has ended, the left one is not read by components any more. -/
theorem orderFrom_nil_right (ts : List (Ty S)) (left : Reader) (j : Nat) :
    orderFrom ts left ⟨j, []⟩ = orderRest left ⟨j, []⟩ := by
  have ended : Reader.readLength ⟨j, []⟩ = (.ok .atEnd, ⟨j, []⟩) := rfl
  cases ts with
  | nil => rfl
  | cons t ts =>
      have first := left.readsLength
      simp only [orderFrom, ended]
      generalize left.readLength = found at first
      cases first with
      | atEnd | item | short => rfl

/-- One step of the readers: both words, then both payloads, decide like the two segments. -/
theorem orderFrom_cons {leftSegment rightSegment : Segment} {leftFront rightFront : Bytes}
    (hleft : SpellsSegment ReadAsNull leftSegment leftFront)
    (hright : SpellsSegment ReadAsNull rightSegment rightFront) (t : Ty S) (ts : List (Ty S))
    (leftRest rightRest : Bytes) (i j : Nat) :
    orderFrom (t :: ts) ⟨i, leftFront ++ leftRest⟩ ⟨j, rightFront ++ rightRest⟩ =
      match t.orderSegments leftSegment rightSegment with
      | .ok .eq => orderFrom ts ⟨i + leftFront.length, leftRest⟩ ⟨j + rightFront.length, rightRest⟩
      | decided => decided := by
  cases hleft with
  | null hleft =>
      cases hright with
      | null hright =>
          simp only [orderFrom, Reader.readLength_toBytes, payloadSize?_eq_none_iff.mpr hleft,
            payloadSize?_eq_none_iff.mpr hright, orderSegments, length_toBytes]
      | payload hright =>
          simp only [orderFrom, List.append_assoc, Reader.readLength_toBytes,
            payloadSize?_eq_none_iff.mpr hleft, payloadSize?_of_ofSize? hright, orderSegments]
  | @payload leftPayload _ hleft =>
      cases hright with
      | null hright =>
          simp only [orderFrom, List.append_assoc, Reader.readLength_toBytes,
            payloadSize?_of_ofSize? hleft, payloadSize?_eq_none_iff.mpr hright, orderSegments]
      | @payload rightPayload _ hright =>
          rcases decided : t.order leftPayload rightPayload with _ | _ | _ | _ <;>
            simp only [orderFrom, List.append_assoc, Reader.readLength_toBytes,
              payloadSize?_of_ofSize? hleft, payloadSize?_of_ofSize? hright,
              Reader.readBytes_append, orderSegments, decided, List.length_append,
              length_toBytes, Nat.add_assoc]

/-- The readers walk both blobs in step, so the induction is on the types. -/
theorem orderFrom_eq {ts : List (Ty S)} (hleft : Spells ReadAsNull lefts left)
    (hright : Spells ReadAsNull rights right) (fewLeft : lefts.length ≤ ts.length)
    (fewRight : rights.length ≤ ts.length) (i j : Nat) :
    orderFrom ts ⟨i, left⟩ ⟨j, right⟩ = orderLists ts (trimNulls lefts) (trimNulls rights) := by
  induction ts generalizing lefts rights left right i j with
  | nil =>
      cases hleft with
      | nil =>
          rw [trimNulls_nil, orderLists_nil_left]
          exact orderRest_nil_left hright i j
      | cons => simp at fewLeft
  | cons t ts ih =>
      cases hleft with
      | nil =>
          rw [trimNulls_nil, orderLists_nil_left]
          exact orderRest_nil_left hright i j
      | cons leftFirst leftOthers =>
          cases hright with
          | nil =>
              rw [orderFrom_nil_right, trimNulls_nil, orderLists_nil_right]
              exact orderRest_nil_right (.cons leftFirst leftOthers) i j
          | cons rightFirst rightOthers =>
              rw [orderFrom_cons leftFirst rightFirst, orderLists_trimNulls_cons,
                ih leftOthers rightOthers (Nat.le_of_succ_le_succ fewLeft)
                  (Nat.le_of_succ_le_succ fewRight)]

theorem order_tuple (ts : List (Ty S)) (left right : Bytes) :
    (Ty.tuple ts).order left right =
      match left.isEmpty, right.isEmpty with
      | true, true => .ok .eq
      | true, false => .ok .lt
      | false, true => .ok .gt
      | false, false => orderFrom ts (Reader.start left) (Reader.start right) := by
  cases left <;> cases right <;> rfl

theorem order_of_ne_nil (ts : List (Ty S)) (someLeft : left ≠ []) (someRight : right ≠ []) :
    (Ty.tuple ts).order left right = orderFrom ts (Reader.start left) (Reader.start right) := by
  rw [order_tuple, List.isEmpty_eq_false_iff.mpr someLeft, List.isEmpty_eq_false_iff.mpr someRight]

/-- Blobs are ordered like the segments that they spell, also where that is a fault. -/
theorem order_eq_orderTuples {ts : List (Ty S)} (hleft : Spells ReadAsNull lefts left)
    (hright : Spells ReadAsNull rights right) (fewLeft : lefts.length ≤ ts.length)
    (fewRight : rights.length ≤ ts.length) :
    (Ty.tuple ts).order left right = orderTuples ts lefts rights := by
  rw [order_tuple, orderTuples, hleft.isEmpty_eq, hright.isEmpty_eq, Reader.start, Reader.start,
    orderFrom_eq hleft hright fewLeft fewRight]

end Blobs

end TupleBlob.Ty
