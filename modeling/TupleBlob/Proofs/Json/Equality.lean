import TupleBlob.Proofs.Json.Items
import TupleBlob.Proofs.Order.Rank

/-! # Values with the same JSON form

Two walks over the bytes of two values may find them equal: the order, which stops at the first
place that decides and takes what is not reached for nulls, and the JSON form, which goes to the
end. Main statements: values that the order takes for equal have the same JSON form, and values
with the same JSON form are equal in the order unless a tuple with components is empty.
-/

namespace TupleBlob

namespace Scalar

variable {s : Scalar} {left right : Bytes} {json : Json}

/-- Scalar values that rank equal are the same bytes. -/
theorem eq_of_rank_eq (validLeft : s.validate left = .ok ())
    (validRight : s.validate right = .ok ()) (same : s.rank left right = .eq) : left = right := by
  cases s with
  | int32 =>
      obtain ⟨l, readLeft, -⟩ := map_eq_ok_iff.mp validLeft
      obtain ⟨r, readRight, -⟩ := map_eq_ok_iff.mp validRight
      simp only [rank, compareOn, readLeft, readRight, Except.toOption, Option.map_some,
        Std.LawfulEqCmp.compare_eq_iff_eq, Option.some.injEq, Int32.toInt_inj] at same
      rw [← toBytes_of_wordOf readLeft, same, toBytes_of_wordOf readRight]
  | utf8 | ascii | bytes | probe =>
      have bytewise : compare left right = .eq := same
      exact Std.LawfulEqCmp.eq_of_compare bytewise

/-- Scalars that are shown alike are the same bytes, since what is shown can be read again. -/
theorem eq_of_toJson_eq (shownLeft : s.toJson left = .ok json)
    (shownRight : s.toJson right = .ok json) : left = right := by
  have read := ofJson_toJson shownLeft
  rw [ofJson_toJson shownRight] at read
  exact (Except.ok.inj read).symm

end Scalar

namespace Ty

variable {t : Ty Scalar} {ts : List (Ty Scalar)} {lefts rights : List Segment} {left right : Bytes}

/-! ## From the order to JSON -/

/-- Values of the type that rank equal are shown alike. -/
def ShowsEquals (t : Ty Scalar) : Prop :=
  ∀ left right, t.Valid left → t.Valid right → t.rank left right = .eq →
    t.toJson left = t.toJson right

theorem itemOf_eq_of_rank_eq {left right : Segment} (shows' : t.ShowsEquals)
    (validLeft : ∀ l, left = some l → t.Valid l) (validRight : ∀ r, right = some r → t.Valid r)
    (same : rankSegments t.rank left right = .eq) : t.itemOf left = t.itemOf right := by
  cases left with
  | none =>
      cases right with
      | none => rfl
      | some r => cases same
  | some l =>
      cases right with
      | none => cases same
      | some r => exact shows' l r (validLeft l rfl) (validRight r rfl) same

/-- The walk over ranks and the walk over items both take what is not reached for nulls. -/
theorem itemsOf_eq_of_rank_eq (shows' : ∀ t ∈ ts, t.ShowsEquals)
    (validLeft : Aligned Valid ts lefts) (validRight : Aligned Valid ts rights)
    (same : rankLists ts lefts rights = .eq) : itemsOf ts lefts = itemsOf ts rights := by
  induction ts generalizing lefts rights with
  | nil => rfl
  | cons t ts ih =>
      obtain ⟨showsFirst, showsLater⟩ := List.forall_mem_cons.mp shows'
      rw [rankLists, compareLex, Ordering.then_eq_eq] at same
      have first : t.itemOf lefts.head?.join = t.itemOf rights.head?.join :=
        itemOf_eq_of_rank_eq showsFirst (fun _ => validLeft.head) (fun _ => validRight.head) same.1
      have others := ih showsLater validLeft.tail validRight.tail same.2
      rw [itemsOf_cons, itemsOf_cons, first, others]

theorem showsEquals (t : Ty Scalar) : t.ShowsEquals := by
  induction t with
  | scalar s =>
      intro left right validLeft validRight same
      rw [rank] at same
      rw [Scalar.eq_of_rank_eq (valid_scalar_iff.mp validLeft) (valid_scalar_iff.mp validRight)
        same]
  | tuple ts ih =>
      intro left right validLeft validRight same
      obtain ⟨lefts, spellsLeft, alignedLeft⟩ := valid_tuple_iff.mp validLeft
      obtain ⟨rights, spellsRight, alignedRight⟩ := valid_tuple_iff.mp validRight
      have fewLeft := alignedLeft.length_le
      have fewRight := alignedRight.length_le
      rw [rank_of_spells spellsLeft spellsRight fewLeft fewRight, Ordering.then_eq_eq] at same
      have items := itemsOf_eq_of_rank_eq ih alignedLeft alignedRight same.2
      rw [toJson, toJson, spellsLeft.split_eq fewLeft, spellsRight.split_eq fewRight]
      simp only [items]

/-! ## From JSON to the order -/

/-- What is shown alike ranks equal, if no tuple with components is empty. -/
def RanksShown (t : Ty Scalar) : Prop :=
  ∀ left right json, t.BegunThroughout left → t.BegunThroughout right →
    t.toJson left = .ok json → t.toJson right = .ok json → t.rank left right = .eq

/-- A null is shown as null and no payload is. -/
theorem rankSegments_eq_of_itemOf {left right : Segment} {item : Json} (ranks : t.RanksShown)
    (begunLeft : ∀ l, left = some l → t.BegunThroughout l)
    (begunRight : ∀ r, right = some r → t.BegunThroughout r)
    (shownLeft : t.itemOf left = .ok item) (shownRight : t.itemOf right = .ok item) :
    rankSegments t.rank left right = .eq := by
  cases left with
  | none =>
      cases right with
      | none => rfl
      | some r =>
          cases shownLeft
          exact absurd rfl (toJson_ne_null shownRight)
  | some l =>
      cases right with
      | none =>
          cases shownRight
          exact absurd rfl (toJson_ne_null shownLeft)
      | some r => exact ranks l r item (begunLeft l rfl) (begunRight r rfl) shownLeft shownRight

theorem rankLists_eq_of_itemsOf {items : List Json} (ranks : ∀ t ∈ ts, t.RanksShown)
    (begunLeft : Aligned BegunThroughout ts lefts)
    (begunRight : Aligned BegunThroughout ts rights) (shownLeft : itemsOf ts lefts = .ok items)
    (shownRight : itemsOf ts rights = .ok items) : rankLists ts lefts rights = .eq := by
  induction ts generalizing lefts rights items with
  | nil => rfl
  | cons t ts ih =>
      obtain ⟨ranksFirst, ranksLater⟩ := List.forall_mem_cons.mp ranks
      rw [itemsOf_cons] at shownLeft shownRight
      obtain ⟨item, firstLeft, shownLeft⟩ := bind_eq_ok_iff.mp shownLeft
      obtain ⟨others, restLeft, rfl⟩ := map_eq_ok_iff.mp shownLeft
      obtain ⟨item', firstRight, shownRight⟩ := bind_eq_ok_iff.mp shownRight
      obtain ⟨others', restRight, same⟩ := map_eq_ok_iff.mp shownRight
      obtain ⟨rfl, rfl⟩ := List.cons.inj same
      rw [rankLists, compareLex, Ordering.then_eq_eq]
      constructor
      · exact rankSegments_eq_of_itemOf ranksFirst (fun _ => begunLeft.head)
          (fun _ => begunRight.head) firstLeft firstRight
      · exact ih ranksLater begunLeft.tail begunRight.tail restLeft restRight

theorem ranksShown (t : Ty Scalar) : t.RanksShown := by
  induction t with
  | scalar s =>
      intro left right json _ _ shownLeft shownRight
      rw [toJson] at shownLeft shownRight
      rw [Scalar.eq_of_toJson_eq shownLeft shownRight]
      exact Std.ReflCmp.compare_self
  | tuple ts ih =>
      intro left right json begunLeft begunRight shownLeft shownRight
      have empty := isEmpty_eq_of_begun begunLeft begunRight
      cases begunLeft with
      | tuple _ spellsLeft insideLeft =>
          cases begunRight with
          | tuple _ spellsRight insideRight =>
              have fewLeft := insideLeft.length_le
              have fewRight := insideRight.length_le
              rw [toJson, spellsLeft.split_eq fewLeft] at shownLeft
              rw [toJson, spellsRight.split_eq fewRight] at shownRight
              obtain ⟨items, itemsLeft, rfl⟩ := map_eq_ok_iff.mp shownLeft
              obtain ⟨items', itemsRight, same⟩ := map_eq_ok_iff.mp shownRight
              cases same
              have places := rankLists_eq_of_itemsOf ih insideLeft insideRight itemsLeft itemsRight
              rw [rank_of_spells spellsLeft spellsRight fewLeft fewRight, ← spellsLeft.isEmpty_eq,
                ← spellsRight.isEmpty_eq, empty, places, Std.compare_self]
              rfl

/-- Values that the order takes for equal are shown as the same JSON. The converse holds where no
tuple with components is empty, since an empty tuple is shown like one of nulls and comes before
it. -/
theorem order_matches_toJson {t : Ty Scalar} {left right : Bytes} (validLeft : t.Valid left)
    (validRight : t.Valid right) :
    (t.order left right = .ok .eq →
      ∃ json, t.toJson left = .ok json ∧ t.toJson right = .ok json) ∧
    (t.BegunThroughout left → t.BegunThroughout right → t.toJson left = t.toJson right →
      t.order left right = .ok .eq) := by
  obtain ⟨json, shown⟩ := hasJson_of_valid validLeft
  rw [order_eq_rank validLeft validRight]
  constructor
  · intro same
    rw [Except.ok.injEq] at same
    refine ⟨json, shown, ?_⟩
    rw [← showsEquals t left right validLeft validRight same, shown]
  · intro begunLeft begunRight same
    rw [shown] at same
    rw [ranksShown t left right json begunLeft begunRight shown same.symm]

/-- The first value stops early in both tuples, and the second has a null of each kind. -/
theorem order_matches_toJson_nested :
    (∃ json,
      (Ty.tuple [.tuple [.scalar Scalar.int32, .scalar .utf8], .scalar .utf8]).toJson
        [0, 0, 0, 8, 0, 0, 0, 4, 0, 0, 0, 7] = .ok json ∧
      (Ty.tuple [.tuple [.scalar Scalar.int32, .scalar .utf8], .scalar .utf8]).toJson
        [0, 0, 0, 12, 0, 0, 0, 4, 0, 0, 0, 7, 255, 255, 255, 254, 255, 255, 255, 255] =
          .ok json) ∧
    (Ty.tuple [.tuple [.scalar Scalar.int32, .scalar .utf8], .scalar .utf8]).order
        [0, 0, 0, 8, 0, 0, 0, 4, 0, 0, 0, 7]
        [0, 0, 0, 12, 0, 0, 0, 4, 0, 0, 0, 7, 255, 255, 255, 254, 255, 255, 255, 255] =
      .ok .eq := by
  have validLeft : (Ty.tuple [.tuple [.scalar Scalar.int32, .scalar .utf8], .scalar .utf8]).Valid
      [0, 0, 0, 8, 0, 0, 0, 4, 0, 0, 0, 7] := rfl
  have validRight : (Ty.tuple [.tuple [.scalar Scalar.int32, .scalar .utf8], .scalar .utf8]).Valid
      [0, 0, 0, 12, 0, 0, 0, 4, 0, 0, 0, 7, 255, 255, 255, 254, 255, 255, 255, 255] := rfl
  have validInLeft : (Ty.tuple [.scalar Scalar.int32, .scalar .utf8]).Valid
      [0, 0, 0, 4, 0, 0, 0, 7] := rfl
  have validInRight : (Ty.tuple [.scalar Scalar.int32, .scalar .utf8]).Valid
      [0, 0, 0, 4, 0, 0, 0, 7, 255, 255, 255, 254] := rfl
  obtain ⟨spellsLeft, -⟩ := spells_of_split validLeft rfl
  obtain ⟨spellsRight, -⟩ := spells_of_split validRight rfl
  obtain ⟨spellsInLeft, -⟩ := spells_of_split validInLeft rfl
  obtain ⟨spellsInRight, -⟩ := spells_of_split validInRight rfl
  obtain ⟨shown, ordered⟩ := order_matches_toJson validLeft validRight
  refine ⟨shown (by decide +kernel), ordered ?_ ?_ (by decide +kernel)⟩
  · refine .tuple (fun _ => List.cons_ne_nil _ _) spellsLeft (.payload ?_ .nil)
    exact .tuple (fun _ => List.cons_ne_nil _ _) spellsInLeft (.payload .scalar .nil)
  · refine .tuple (fun _ => List.cons_ne_nil _ _) spellsRight (.payload ?_ (.null .nil))
    exact .tuple (fun _ => List.cons_ne_nil _ _) spellsInRight (.payload .scalar (.null .nil))

example :
    (Ty.tuple [.scalar Scalar.int32]).toJson [] =
      (Ty.tuple [.scalar Scalar.int32]).toJson [255, 255, 255, 255] ∧
    (Ty.tuple [.scalar Scalar.int32]).order [] [255, 255, 255, 255] = .ok .lt := by
  decide +kernel

end Ty

end TupleBlob
