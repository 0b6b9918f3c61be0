import TupleBlob.Proofs.Order.Reference
import TupleBlob.Scalar

/-! # The order as a total preorder

The order can fail, on bytes that are no values. A rank cannot: it compares any two byte strings,
and is put together from the ranks of scalars, optional payloads and truth values, first by whether
there is a segment at all and then place by place. Main statements: where the valid values of
scalars are ordered by rank, all valid values are; hence the order of segments is the order of their
spellings, and the order is a total preorder on valid values.
-/

namespace TupleBlob

open LengthWord

/-- The valid values of scalars are ordered by a total preorder. -/
class LawfulScalarType (S : Type) [ScalarType S] where
  rank : S → Bytes → Bytes → Ordering
  transCmp_rank : ∀ s, Std.TransCmp (rank s)
  order_eq_rank : ∀ {s left right}, ScalarType.validate s left = .ok () →
    ScalarType.validate s right = .ok () →
    ScalarType.order s left right = .ok (rank s left right)

namespace Ty

/-- Nulls rank before payloads. -/
def rankSegments (rank : Bytes → Bytes → Ordering) : (left right : Segment) → Ordering
  | none, none => .eq
  | none, some _ => .lt
  | some _, none => .gt
  | some left, some right => rank left right

/-- The segments of a blob, or none where they cannot be read. -/
def segmentsOf (arity : Nat) (blob : Bytes) : List Segment :=
  (split arity blob).toOption.getD []

variable {S : Type} [ScalarType S] [LawfulScalarType S]

mutual

/-- The rank of two byte strings under a type. -/
def rank : Ty S → Bytes → Bytes → Ordering
  | .scalar s => LawfulScalarType.rank s
  | .tuple ts =>
    compareLex (compareOn fun blob : Bytes => !blob.isEmpty)
      fun left right => rankLists ts (segmentsOf ts.length left) (segmentsOf ts.length right)

/-- The rank of two lists of segments, where one that has ended goes on like nulls. -/
def rankLists : List (Ty S) → List Segment → List Segment → Ordering
  | [] => fun _ _ => .eq
  | t :: ts =>
    compareLex (fun left right => rankSegments t.rank left.head?.join right.head?.join)
      fun left right => rankLists ts left.tail right.tail

end

/-! ## Ranks are total preorders -/

section Laws

variable {α β : Type} {cmp : α → α → Ordering}

theorem transCmp_comap (h : Std.TransCmp cmp) (f : β → α) :
    Std.TransCmp fun left right => cmp (f left) (f right) where
  eq_swap := h.eq_swap
  isLE_trans := h.isLE_trans

theorem transCmp_rankSegments {rank : Bytes → Bytes → Ordering} (h : Std.TransCmp rank) :
    Std.TransCmp (rankSegments rank) where
  eq_swap {left right} := by
    cases left <;> cases right <;> simp only [rankSegments, Ordering.swap]
    exact h.eq_swap
  isLE_trans {first second third} := by
    cases first <;> cases second <;> cases third <;>
      simp only [rankSegments, Ordering.isLE, imp_self, implies_true, Bool.false_eq_true,
        false_implies]
    exact h.isLE_trans

theorem transCmp_rankLists_of_components {ts : List (Ty S)} (h : ∀ t ∈ ts, Std.TransCmp t.rank) :
    Std.TransCmp (rankLists ts) := by
  induction ts with
  | nil =>
      rw [rankLists]
      exact { eq_swap := rfl, isLE_trans := fun _ _ => rfl }
  | cons t ts ih =>
      have first := transCmp_comap (transCmp_rankSegments (h t List.mem_cons_self))
        fun segments : List Segment => segments.head?.join
      have others := transCmp_comap (ih fun t ht => h t (List.mem_cons_of_mem _ ht))
        fun segments : List Segment => segments.tail
      rw [rankLists]
      infer_instance

instance transCmp_rank (t : Ty S) : Std.TransCmp t.rank := by
  induction t with
  | scalar s =>
      rw [rank]
      exact LawfulScalarType.transCmp_rank s
  | tuple ts ih =>
      have lists := transCmp_comap (transCmp_rankLists_of_components ih) (segmentsOf ts.length)
      rw [rank]
      infer_instance

instance transCmp_rankLists (ts : List (Ty S)) : Std.TransCmp (rankLists ts) :=
  transCmp_rankLists_of_components fun t _ => transCmp_rank t

end Laws

/-! ## Valid values are ordered by rank -/

/-- Blobs rank by whether they spell any segment, and then by the segments. -/
theorem rank_of_spells {ts : List (Ty S)} {lefts rights : List Segment} {left right : Bytes}
    (spellsLeft : Spells ReadAsNull lefts left) (spellsRight : Spells ReadAsNull rights right)
    (fewLeft : lefts.length ≤ ts.length) (fewRight : rights.length ≤ ts.length) :
    (Ty.tuple ts).rank left right =
      (compare (!lefts.isEmpty) (!rights.isEmpty)).then (rankLists ts lefts rights) := by
  rw [rank, compareLex, compareOn, spellsLeft.isEmpty_eq, spellsRight.isEmpty_eq, segmentsOf,
    segmentsOf, spellsLeft.split_eq fewLeft, spellsRight.split_eq fewRight]
  rfl

theorem orderSegments_eq_rank {t : Ty S} {left right : Segment}
    (h : ∀ l r, left = some l → right = some r → t.order l r = .ok (t.rank l r)) :
    t.orderSegments left right = .ok (rankSegments t.rank left right) := by
  cases left with
  | none => cases right <;> rfl
  | some l =>
      cases right with
      | none => rfl
      | some r => exact h l r rfl rfl

theorem orderLists_eq_rank {ts : List (Ty S)} {lefts rights : List Segment}
    (h : ∀ t ∈ ts, ∀ l r, t.Valid l → t.Valid r → t.order l r = .ok (t.rank l r))
    (hlefts : Aligned Valid ts lefts) (hrights : Aligned Valid ts rights) :
    orderLists ts (trimNulls lefts) (trimNulls rights) = .ok (rankLists ts lefts rights) := by
  induction ts generalizing lefts rights with
  | nil =>
      cases hlefts
      cases hrights
      rfl
  | cons t ts ih =>
      have first : t.orderSegments lefts.head?.join rights.head?.join =
          .ok (rankSegments t.rank lefts.head?.join rights.head?.join) :=
        orderSegments_eq_rank fun l r hl hr =>
          h t List.mem_cons_self l r (hlefts.head hl) (hrights.head hr)
      have others := ih (fun t ht => h t (List.mem_cons_of_mem _ ht)) hlefts.tail hrights.tail
      rw [orderLists_trimNulls, first, others, rankLists, compareLex]
      cases rankSegments t.rank lefts.head?.join rights.head?.join <;> rfl

/-- Valid values are ordered by rank, so the order of valid values never fails. -/
theorem order_eq_rank {t : Ty S} {left right : Bytes} (hleft : t.Valid left)
    (hright : t.Valid right) : t.order left right = .ok (t.rank left right) := by
  induction t generalizing left right with
  | scalar s =>
      rw [order, rank]
      exact LawfulScalarType.order_eq_rank (valid_scalar_iff.mp hleft) (valid_scalar_iff.mp hright)
  | tuple ts ih =>
      obtain ⟨lefts, spellsLeft, alignedLeft⟩ := valid_tuple_iff.mp hleft
      obtain ⟨rights, spellsRight, alignedRight⟩ := valid_tuple_iff.mp hright
      have lists : orderLists ts (trimNulls lefts) (trimNulls rights) =
          .ok (rankLists ts lefts rights) :=
        orderLists_eq_rank (fun t ht l r hl hr => ih t ht hl hr) alignedLeft alignedRight
      have ended : rankLists ts [] [] = .eq := Std.ReflCmp.compare_self
      rw [order_eq_orderTuples spellsLeft spellsRight alignedLeft.length_le
        alignedRight.length_le, orderTuples, lists,
        rank_of_spells spellsLeft spellsRight alignedLeft.length_le alignedRight.length_le]
      cases lefts with
      | nil =>
          cases rights with
          | nil =>
              rw [ended]
              rfl
          | cons => rfl
      | cons => cases rights <;> rfl

end Ty

/-! ## The ranks of scalars -/

namespace Scalar

/-- Words rank by value; all other bytes rank as they are. -/
def rank : Scalar → Bytes → Bytes → Ordering
  | .int32 => compareOn fun bytes => (wordOf bytes).toOption.map Int32.toInt
  | _ => compare

theorem transCmp_rank (s : Scalar) : Std.TransCmp s.rank := by
  cases s with
  | int32 => exact inferInstanceAs (Std.TransCmp (compareOn _))
  | utf8 | ascii | bytes | probe => exact inferInstanceAs (Std.TransOrd Bytes)

theorem order_eq_rank {s : Scalar} {left right : Bytes} (hleft : s.validate left = .ok ())
    (hright : s.validate right = .ok ()) : s.order left right = .ok (s.rank left right) := by
  cases s with
  | utf8 | ascii | bytes | probe => rfl
  | int32 =>
      simp only [Scalar.validate] at hleft hright
      cases hl : wordOf left with
      | error => simp [hl, Except.map] at hleft
      | ok l =>
          cases hr : wordOf right with
          | error => simp [hr, Except.map] at hright
          | ok r =>
              simp only [Scalar.order, Scalar.rank, compareOn, hl, hr]
              rfl

end Scalar

instance : LawfulScalarType Scalar where
  rank := Scalar.rank
  transCmp_rank := Scalar.transCmp_rank
  order_eq_rank := Scalar.order_eq_rank

namespace Ty

variable {S : Type} [ScalarType S] [LawfulScalarType S]

/-- The order of blobs is the order of the segments that they spell, and it never fails on
segments whose payloads are valid. -/
theorem order_of_spelled {ts : List (Ty S)} {lefts rights : List Segment} {left right : Bytes}
    (alignedLeft : Aligned Valid ts lefts) (alignedRight : Aligned Valid ts rights)
    (spellsLeft : Spells ReadAsNull lefts left) (spellsRight : Spells ReadAsNull rights right) :
    ∃ o, orderTuples ts lefts rights = .ok o ∧ (Ty.tuple ts).order left right = .ok o := by
  have validLeft := valid_tuple_iff.mpr ⟨lefts, spellsLeft, alignedLeft⟩
  have validRight := valid_tuple_iff.mpr ⟨rights, spellsRight, alignedRight⟩
  have total := order_eq_rank validLeft validRight
  refine ⟨_, ?_, total⟩
  rw [← total, order_eq_orderTuples spellsLeft spellsRight alignedLeft.length_le
    alignedRight.length_le]

/-- Nulls at the end do not count, whichever word they are, nor inside an inner tuple. -/
theorem order_of_spelled_nested :
    ∃ o,
      orderTuples [.tuple [.scalar Scalar.int32, .scalar .utf8], .scalar .utf8]
        [some [0, 0, 0, 4, 0, 0, 0, 7], none]
        [some [0, 0, 0, 4, 0, 0, 0, 7, 255, 255, 255, 254]] = .ok o ∧
      (Ty.tuple [.tuple [.scalar Scalar.int32, .scalar .utf8], .scalar .utf8]).order
        [0, 0, 0, 8, 0, 0, 0, 4, 0, 0, 0, 7, 255, 255, 255, 254]
        [0, 0, 0, 12, 0, 0, 0, 4, 0, 0, 0, 7, 255, 255, 255, 254] = .ok o := by
  have validLeft : (Ty.tuple [.tuple [.scalar Scalar.int32, .scalar .utf8], .scalar .utf8]).Valid
      [0, 0, 0, 8, 0, 0, 0, 4, 0, 0, 0, 7, 255, 255, 255, 254] := rfl
  have validRight : (Ty.tuple [.tuple [.scalar Scalar.int32, .scalar .utf8], .scalar .utf8]).Valid
      [0, 0, 0, 12, 0, 0, 0, 4, 0, 0, 0, 7, 255, 255, 255, 254] := rfl
  obtain ⟨spellsLeft, alignedLeft⟩ := spells_of_split validLeft rfl
  obtain ⟨spellsRight, alignedRight⟩ := spells_of_split validRight rfl
  exact order_of_spelled alignedLeft alignedRight spellsLeft spellsRight

/-- The order is a total preorder on the valid values of a tuple type. -/
theorem order_preorder {ts : List (Ty S)} {a b c : Bytes} (ha : (Ty.tuple ts).Valid a)
    (hb : (Ty.tuple ts).Valid b) (hc : (Ty.tuple ts).Valid c) :
    ∃ ab bc ac,
      (Ty.tuple ts).order a b = .ok ab ∧ (Ty.tuple ts).order b c = .ok bc ∧
      (Ty.tuple ts).order a c = .ok ac ∧
      (Ty.tuple ts).order a a = .ok .eq ∧
      (Ty.tuple ts).order b a = .ok ab.swap ∧
      (ab = bc → ac = ab) ∧ (ab = .eq → ac = bc) ∧ (bc = .eq → ac = ab) := by
  have trans := transCmp_rank (.tuple ts)
  refine ⟨_, _, _, order_eq_rank ha hb, order_eq_rank hb hc, order_eq_rank ha hc, ?_, ?_, ?_,
    fun h => trans.congr_left h, fun h => (trans.congr_right h).symm⟩
  · have same : (Ty.tuple ts).rank a a = .eq := Std.ReflCmp.compare_self
    rw [order_eq_rank ha ha, same]
  · rw [order_eq_rank hb ha, trans.eq_swap]
  · intro same
    cases hab : (Ty.tuple ts).rank a b with
    | lt => exact trans.lt_trans hab (same ▸ hab)
    | eq => exact trans.eq_trans hab (same ▸ hab)
    | gt => exact trans.gt_trans hab (same ▸ hab)

/-- The empty inner tuple comes before one of a null, which is spelled in two ways. -/
theorem order_preorder_nested :
    (Ty.tuple [.tuple [.scalar Scalar.int32], .scalar .utf8]).order
        [0, 0, 0, 0] [0, 0, 0, 4, 255, 255, 255, 254] = .ok .lt ∧
      (Ty.tuple [.tuple [.scalar Scalar.int32], .scalar .utf8]).order
        [0, 0, 0, 4, 255, 255, 255, 254]
        [0, 0, 0, 4, 255, 255, 255, 255, 255, 255, 255, 255] = .ok .eq ∧
      (Ty.tuple [.tuple [.scalar Scalar.int32], .scalar .utf8]).order
        [0, 0, 0, 0] [0, 0, 0, 4, 255, 255, 255, 255, 255, 255, 255, 255] = .ok .lt ∧
      (Ty.tuple [.tuple [.scalar Scalar.int32], .scalar .utf8]).order
        [0, 0, 0, 0] [0, 0, 0, 0] = .ok .eq ∧
      (Ty.tuple [.tuple [.scalar Scalar.int32], .scalar .utf8]).order
        [0, 0, 0, 4, 255, 255, 255, 254] [0, 0, 0, 0] = .ok .gt := by
  have first : (Ty.tuple [.tuple [.scalar Scalar.int32], .scalar .utf8]).order
      [0, 0, 0, 0] [0, 0, 0, 4, 255, 255, 255, 254] = .ok .lt := rfl
  have second : (Ty.tuple [.tuple [.scalar Scalar.int32], .scalar .utf8]).order
      [0, 0, 0, 4, 255, 255, 255, 254]
      [0, 0, 0, 4, 255, 255, 255, 255, 255, 255, 255, 255] = .ok .eq := rfl
  obtain ⟨ab, bc, ac, hab, hbc, hac, haa, hba, -, -, through⟩ :=
    @order_preorder Scalar _ _ [.tuple [.scalar .int32], .scalar .utf8] [0, 0, 0, 0]
      [0, 0, 0, 4, 255, 255, 255, 254]
      [0, 0, 0, 4, 255, 255, 255, 255, 255, 255, 255, 255] rfl rfl rfl
  cases first.symm.trans hab
  cases second.symm.trans hbc
  rw [through rfl] at hac
  exact ⟨first, second, hac, haa, hba⟩

end Ty

end TupleBlob
