import TupleBlob.Proofs.Identity
import TupleBlob.Proofs.Json.Items
import TupleBlob.Proofs.Order.Reference
import TupleBlob.Scalar

/-! # Values under a changed type

A tuple type that covers a prior one has at least its components, and covers them place by place.
Whatever holds of scalars and passes from components to tuples therefore holds of all types that
cover one another. Main statements: where a type keeps the order of a prior one, the values of the
prior type are values of it, and both types order them alike; where it keeps the values only, they
are values of it still and are shown with nulls for the components it has gained.
-/

namespace TupleBlob.Ty

open LengthWord

/-- At every place of the prior types there is a type that stands in the relation to it. -/
inductive Overlays (r : Ty Scalar → Ty Scalar → Prop) : List (Ty Scalar) → List (Ty Scalar) → Prop
  | nil {ts} : Overlays r ts []
  | cons {t ts prior priors} (first : r t prior) (others : Overlays r ts priors) :
      Overlays r (t :: ts) (prior :: priors)

theorem Overlays.mono {r r' : Ty Scalar → Ty Scalar → Prop} {ts priors : List (Ty Scalar)}
    (h : Overlays r ts priors) (step : ∀ t prior, r t prior → r' t prior) :
    Overlays r' ts priors := by
  induction h with
  | nil => exact .nil
  | cons first _ ih => exact .cons (step _ _ first) ih

theorem overlays_of_coversShared {accepts : Scalar → Ty Scalar → Bool}
    {r : Ty Scalar → Ty Scalar → Prop} {ts priors : List (Ty Scalar)}
    (step : ∀ t ∈ ts, ∀ prior, covers accepts t prior → r t prior)
    (longer : priors.length ≤ ts.length) (shared : coversShared accepts ts priors) :
    Overlays r ts priors := by
  induction ts generalizing priors with
  | nil =>
      cases priors with
      | nil => exact .nil
      | cons => simp at longer
  | cons t ts ih =>
      cases priors with
      | nil => exact .nil
      | cons prior priors =>
          simp only [coversShared, Bool.and_eq_true] at shared
          apply Overlays.cons
          · exact step t List.mem_cons_self prior shared.1
          · apply ih
            · exact fun t ht => step t (List.mem_cons_of_mem _ ht)
            · exact Nat.le_of_succ_le_succ longer
            · exact shared.2

/-- A relation holds of types that cover one another if it holds of accepted scalars and passes
from the components that two tuples share to the tuples. -/
theorem rel_of_covers {accepts : Scalar → Ty Scalar → Bool} {r : Ty Scalar → Ty Scalar → Prop}
    (scalar : ∀ s prior, accepts s prior → r (.scalar s) prior)
    (tuple : ∀ ts priors, Overlays r ts priors → r (.tuple ts) (.tuple priors))
    {t prior : Ty Scalar} (h : covers accepts t prior) : r t prior := by
  induction t generalizing prior with
  | scalar s => exact scalar s prior h
  | tuple ts ih =>
      cases prior with
      | scalar => simp [covers] at h
      | tuple priors =>
          simp only [covers, Bool.and_eq_true, decide_eq_true_eq] at h
          apply tuple
          exact overlays_of_coversShared (fun t ht prior => ih t ht) h.1 h.2

/-- The values of the prior type are values of the type. -/
def Accepts (t prior : Ty Scalar) : Prop := ∀ bytes, prior.Valid bytes → t.Valid bytes

/-- The values of the prior type are values of the type, in the same order. -/
structure Carries (t prior : Ty Scalar) : Prop where
  valid {bytes : Bytes} : prior.Valid bytes → t.Valid bytes
  order {left right : Bytes} : prior.Valid left → prior.Valid right →
    t.order left right = prior.order left right

theorem Carries.accepts {t prior : Ty Scalar} (h : Carries t prior) : Accepts t prior :=
  fun _ => h.valid

theorem Carries.refl (t : Ty Scalar) : Carries t t where
  valid h := h
  order _ _ := rfl

/-! ## Scalars -/

/-- The values of the second scalar are values of the first, which sorts them the same. -/
inductive Widens : Scalar → Scalar → Prop
  | refl {s} : Widens s s
  | asciiToUtf8 : Widens .utf8 .ascii
  | asciiToBytes : Widens .bytes .ascii
  | utf8ToBytes : Widens .bytes .utf8

theorem scalarKeepsOrder_iff {s : Scalar} {prior : Ty Scalar} :
    scalarKeepsOrder s prior ↔ ∃ s', prior = .scalar s' ∧ Widens s s' := by
  constructor
  · intro keeps
    simp only [scalarKeepsOrder, Bool.or_eq_true] at keeps
    rcases keeps with same | wider
    · exact ⟨s, (same_iff.mp same).symm, .refl⟩
    · cases s with
      | int32 | ascii | probe => cases wider
      | utf8 => exact ⟨.ascii, beq_iff_eq.mp wider, .asciiToUtf8⟩
      | bytes =>
          simp only [Bool.or_eq_true, beq_iff_eq] at wider
          rcases wider with rfl | rfl
          · exact ⟨.ascii, rfl, .asciiToBytes⟩
          · exact ⟨.utf8, rfl, .utf8ToBytes⟩
  · rintro ⟨s', rfl, widens⟩
    cases widens with
    | refl => simp only [scalarKeepsOrder, same_iff.mpr rfl, Bool.true_or]
    | asciiToUtf8 | asciiToBytes | utf8ToBytes => simp [scalarKeepsOrder]

theorem scalarKeepsValues_iff {s : Scalar} {prior : Ty Scalar} :
    scalarKeepsValues s prior ↔ s = .bytes ∨ ∃ s', prior = .scalar s' ∧ Widens s s' := by
  rw [← scalarKeepsOrder_iff]
  cases s <;> simp [scalarKeepsValues]

theorem valid_utf8_of_ascii {bytes : Bytes} (h : (Ty.scalar Scalar.ascii).Valid bytes) :
    (Ty.scalar Scalar.utf8).Valid bytes := by
  rw [valid_scalar_iff] at h ⊢
  obtain ⟨checked, ascii, -⟩ := map_eq_ok_iff.mp h
  obtain ⟨text, read⟩ := exists_textOf_of_isAscii (asciiOf_eq_ok_iff.mp ascii).1
  exact map_eq_ok_iff.mpr ⟨text, read, rfl⟩

theorem valid_bytes (bytes : Bytes) : (Ty.scalar Scalar.bytes).Valid bytes := rfl

theorem carries_of_widens {s s' : Scalar} (h : Widens s s') :
    Carries (.scalar s) (.scalar s') := by
  cases h with
  | refl => exact Carries.refl _
  | asciiToUtf8 => exact ⟨valid_utf8_of_ascii, fun _ _ => rfl⟩
  | asciiToBytes | utf8ToBytes => exact ⟨fun _ => valid_bytes _, fun _ _ => rfl⟩

theorem carries_of_scalarKeepsOrder {s : Scalar} {prior : Ty Scalar}
    (h : scalarKeepsOrder s prior) : Carries (.scalar s) prior := by
  obtain ⟨s', rfl, widens⟩ := scalarKeepsOrder_iff.mp h
  exact carries_of_widens widens

/-! ## Tuples -/

variable {ts priors : List (Ty Scalar)}

theorem aligned_of_overlays (h : Overlays Accepts ts priors) {segments : List Segment}
    (aligned : Aligned Valid priors segments) : Aligned Valid ts segments := by
  induction h generalizing segments with
  | nil =>
      cases aligned
      exact .nil
  | cons first _ ih =>
      cases aligned with
      | nil => exact .nil
      | null aligned => exact .null (ih aligned)
      | payload valid aligned => exact .payload (first _ valid) (ih aligned)

theorem orderSegments_of_carries {t prior : Ty Scalar} (h : Carries t prior) {left right : Segment}
    (validLeft : ∀ l, left = some l → prior.Valid l)
    (validRight : ∀ r, right = some r → prior.Valid r) :
    t.orderSegments left right = prior.orderSegments left right := by
  cases left with
  | none => cases right <;> rfl
  | some l =>
      cases right with
      | none => rfl
      | some r => exact h.order (validLeft l rfl) (validRight r rfl)

theorem orderLists_of_overlays (h : Overlays Carries ts priors) {lefts rights : List Segment}
    (alignedLeft : Aligned Valid priors lefts) (alignedRight : Aligned Valid priors rights) :
    orderLists ts (trimNulls lefts) (trimNulls rights) =
      orderLists priors (trimNulls lefts) (trimNulls rights) := by
  induction h generalizing lefts rights with
  | nil =>
      cases alignedLeft
      cases alignedRight
      simp
  | cons first _ ih =>
      have same := orderSegments_of_carries first (fun _ => alignedLeft.head)
        fun _ => alignedRight.head
      rw [orderLists_trimNulls, orderLists_trimNulls, same,
        ih alignedLeft.tail alignedRight.tail]

theorem accepts_of_overlays (h : Overlays Accepts ts priors) :
    Accepts (.tuple ts) (.tuple priors) := by
  intro blob valid
  obtain ⟨segments, spelled, aligned⟩ := valid_tuple_iff.mp valid
  exact valid_tuple_iff.mpr ⟨segments, spelled, aligned_of_overlays h aligned⟩

theorem carries_of_overlays (h : Overlays Carries ts priors) :
    Carries (.tuple ts) (.tuple priors) where
  valid := accepts_of_overlays (h.mono fun _ _ => Carries.accepts) _
  order validLeft validRight := by
    have accepts := h.mono fun _ _ => Carries.accepts
    obtain ⟨lefts, spellsLeft, alignedLeft⟩ := valid_tuple_iff.mp validLeft
    obtain ⟨rights, spellsRight, alignedRight⟩ := valid_tuple_iff.mp validRight
    rw [order_eq_orderTuples spellsLeft spellsRight alignedLeft.length_le
        alignedRight.length_le,
      order_eq_orderTuples spellsLeft spellsRight
        (aligned_of_overlays accepts alignedLeft).length_le
        (aligned_of_overlays accepts alignedRight).length_le,
      orderTuples, orderTuples, orderLists_of_overlays h alignedLeft alignedRight]

/-- Values written under a prior type are values of a type that keeps its order, and neither
widened components nor new ones at the end of a tuple re-sort them. -/
theorem order_of_keepsOrder {t prior : Ty Scalar} (keeps : t.keepsOrder prior) {left right : Bytes}
    (validLeft : prior.Valid left) (validRight : prior.Valid right) :
    t.Valid left ∧ t.Valid right ∧ t.order left right = prior.order left right := by
  have carries : Carries t prior :=
    rel_of_covers (fun _ _ => carries_of_scalarKeepsOrder) (fun _ _ => carries_of_overlays) keeps
  exact ⟨carries.valid validLeft, carries.valid validRight, carries.order validLeft validRight⟩

/-- ASCII becomes UTF-8, and both the inner and the outer tuple gain a component. -/
theorem order_of_keepsOrder_nested :
    (Ty.tuple [.tuple [.scalar Scalar.utf8, .scalar .int32], .scalar .bytes]).Valid
      [0, 0, 0, 5, 0, 0, 0, 1, 97] ∧
    (Ty.tuple [.tuple [.scalar Scalar.utf8, .scalar .int32], .scalar .bytes]).Valid
      [0, 0, 0, 6, 0, 0, 0, 2, 97, 98] ∧
    (Ty.tuple [.tuple [.scalar Scalar.ascii]]).order
        [0, 0, 0, 5, 0, 0, 0, 1, 97] [0, 0, 0, 6, 0, 0, 0, 2, 97, 98] = .ok .lt ∧
    (Ty.tuple [.tuple [.scalar Scalar.utf8, .scalar .int32], .scalar .bytes]).order
        [0, 0, 0, 5, 0, 0, 0, 1, 97] [0, 0, 0, 6, 0, 0, 0, 2, 97, 98] = .ok .lt := by
  have keeps : (Ty.tuple [.tuple [.scalar Scalar.utf8, .scalar .int32], .scalar .bytes]).keepsOrder
      (.tuple [.tuple [.scalar .ascii]]) := by
    decide +kernel
  have before : (Ty.tuple [.tuple [.scalar Scalar.ascii]]).order
      [0, 0, 0, 5, 0, 0, 0, 1, 97] [0, 0, 0, 6, 0, 0, 0, 2, 97, 98] = .ok .lt := rfl
  obtain ⟨validLeft, validRight, same⟩ := @order_of_keepsOrder _ _ keeps
    [0, 0, 0, 5, 0, 0, 0, 1, 97] [0, 0, 0, 6, 0, 0, 0, 2, 97, 98] rfl rfl
  exact ⟨validLeft, validRight, before, same.trans before⟩

/-! ## Values kept without their order -/

theorem accepts_of_scalarKeepsValues {s : Scalar} {prior : Ty Scalar}
    (h : scalarKeepsValues s prior) : Accepts (.scalar s) prior := by
  rcases scalarKeepsValues_iff.mp h with rfl | ⟨s', rfl, widens⟩
  · exact fun bytes _ => valid_bytes bytes
  · exact (carries_of_widens widens).accepts

/-- Values written under a prior type are values of a type that keeps them, and have a JSON form.
Where both are tuples, they are split alike, and shown with nulls for the new components. -/
theorem toJson_of_keepsValues {t prior : Ty Scalar} (keeps : t.keepsValues prior) {bytes : Bytes}
    (valid : prior.Valid bytes) :
    t.Valid bytes ∧ (∃ json, t.toJson bytes = .ok json) ∧
    ∀ ts priors, t = .tuple ts → prior = .tuple priors →
      ∃ segments items, split ts.length bytes = .ok segments ∧
        split priors.length bytes = .ok segments ∧
        t.toJson bytes = .ok (.arr items) ∧ items.length = ts.length ∧
        ∀ i, priors.length ≤ i → i < ts.length → items[i]? = some .null := by
  have accepts : Accepts t prior :=
    rel_of_covers (fun _ _ => accepts_of_scalarKeepsValues) (fun _ _ => accepts_of_overlays) keeps
  have accepted := accepts bytes valid
  refine ⟨accepted, hasJson_of_valid accepted, ?_⟩
  rintro ts priors rfl rfl
  obtain ⟨segments, spelled, alignedPrior⟩ := valid_tuple_iff.mp valid
  obtain ⟨segments', spelled', aligned⟩ := valid_tuple_iff.mp accepted
  obtain rfl := spelled.unique spelled'
  obtain ⟨items, shows'⟩ := exists_shows (aligned.mono fun _ _ _ => hasJson_of_valid)
  refine ⟨segments, items, spelled.split_eq aligned.length_le,
    spelled.split_eq alignedPrior.length_le, shows'.toJson_eq spelled, shows'.length_eq, ?_⟩
  intro i past reached
  have absent : segments[i]? = none :=
    List.getElem?_eq_none (Nat.le_trans alignedPrior.length_le past)
  rw [shows'.null_iff reached, absent, Option.join_none]

/-- An inner tuple becomes plain bytes, ASCII becomes UTF-8, and a word is new. -/
theorem toJson_of_keepsValues_nested :
    (Ty.tuple [.scalar Scalar.bytes, .scalar .utf8, .scalar .int32]).Valid
      [0, 0, 0, 8, 0, 0, 0, 4, 0, 0, 0, 7, 0, 0, 0, 1, 97] ∧
    (∃ json, (Ty.tuple [.scalar Scalar.bytes, .scalar .utf8, .scalar .int32]).toJson
      [0, 0, 0, 8, 0, 0, 0, 4, 0, 0, 0, 7, 0, 0, 0, 1, 97] = .ok json) ∧
    ∃ segments items,
      split 3 [0, 0, 0, 8, 0, 0, 0, 4, 0, 0, 0, 7, 0, 0, 0, 1, 97] = .ok segments ∧
      split 2 [0, 0, 0, 8, 0, 0, 0, 4, 0, 0, 0, 7, 0, 0, 0, 1, 97] = .ok segments ∧
      (Ty.tuple [.scalar Scalar.bytes, .scalar .utf8, .scalar .int32]).toJson
        [0, 0, 0, 8, 0, 0, 0, 4, 0, 0, 0, 7, 0, 0, 0, 1, 97] = .ok (.arr items) ∧
      items.length = 3 ∧ ∀ i, 2 ≤ i → i < 3 → items[i]? = some .null := by
  have keeps : (Ty.tuple [.scalar Scalar.bytes, .scalar .utf8, .scalar .int32]).keepsValues
      (.tuple [.tuple [.scalar .int32], .scalar .ascii]) := by
    decide +kernel
  obtain ⟨valid, shown, gained⟩ := toJson_of_keepsValues keeps
    (show (Ty.tuple [.tuple [.scalar Scalar.int32], .scalar .ascii]).Valid
      [0, 0, 0, 8, 0, 0, 0, 4, 0, 0, 0, 7, 0, 0, 0, 1, 97] from rfl)
  exact ⟨valid, shown, gained _ _ rfl rfl⟩

end TupleBlob.Ty
