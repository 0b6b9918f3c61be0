import TupleBlob.Proofs.Json.Scalars
import TupleBlob.Proofs.Validity
import TupleBlob.Ty.Json

/-! # The items of an array

The array for a tuple has an item for each component of its type, and the nulls among them are the
nulls of the tuple and the components that it does not reach. Main statement: a blob has a JSON
form when it can be split and the payloads have one, whatever follows the last component; values
always have one.
-/

namespace TupleBlob.Ty

open LengthWord

variable {ts : List (Ty Scalar)} {segments : List Segment} {items : List Json}

/-- There is an item for every type: the JSON form of a payload, and else null. -/
inductive Shows : List (Ty Scalar) → List Segment → List Json → Prop
  | nil : Shows [] [] []
  | absent {t ts items} (others : Shows ts [] items) : Shows (t :: ts) [] (.null :: items)
  | null {t ts segments items} (others : Shows ts segments items) :
      Shows (t :: ts) (none :: segments) (.null :: items)
  | payload {t ts payload item segments items} (first : t.toJson payload = .ok item)
      (others : Shows ts segments items) :
      Shows (t :: ts) (some payload :: segments) (item :: items)

theorem toJson_ne_null {t : Ty Scalar} {bytes : Bytes} {json : Json}
    (shown : t.toJson bytes = .ok json) : json ≠ .null := by
  cases t with
  | scalar s =>
      rw [toJson] at shown
      exact Scalar.toJson_ne_null shown
  | tuple ts =>
      rw [toJson] at shown
      split at shown
      · cases shown
      · obtain ⟨items, -, rfl⟩ := map_eq_ok_iff.mp shown
        exact Json.noConfusion

namespace Shows

theorem itemsOf_eq (h : Shows ts segments items) : itemsOf ts segments = .ok items := by
  induction h with
  | nil => rfl
  | absent _ ih | null _ ih =>
      rw [itemsOf, ih]
      rfl
  | payload first _ ih => simp only [itemsOf, first, ih, Except.map]

theorem length_eq (h : Shows ts segments items) : items.length = ts.length := by
  induction h with
  | nil => rfl
  | absent _ ih | null _ ih | payload _ _ ih => rw [List.length_cons, ih, List.length_cons]

theorem length_le (h : Shows ts segments items) : segments.length ≤ ts.length := by
  induction h with
  | nil | absent => exact Nat.zero_le _
  | null _ ih | payload _ _ ih => exact Nat.succ_le_succ ih

/-- The nulls are the items of nulls and of components that are not reached. -/
theorem null_iff (h : Shows ts segments items) {i : Nat} (reached : i < ts.length) :
    items[i]? = some .null ↔ segments[i]?.join = none := by
  induction h generalizing i with
  | nil => cases reached
  | absent _ ih =>
      cases i with
      | zero => exact ⟨fun _ => rfl, fun _ => rfl⟩
      | succ i => exact ih (Nat.lt_of_succ_lt_succ reached)
  | null _ ih =>
      cases i with
      | zero => exact ⟨fun _ => rfl, fun _ => rfl⟩
      | succ i => exact ih (Nat.lt_of_succ_lt_succ reached)
  | payload first _ ih =>
      cases i with
      | zero => simpa using toJson_ne_null first
      | succ i => exact ih (Nat.lt_of_succ_lt_succ reached)

theorem toJson_of_split (h : Shows ts segments items) {blob : Bytes}
    (read : split ts.length blob = .ok segments) :
    (Ty.tuple ts).toJson blob = .ok (.arr items) := by
  rw [toJson, read]
  simp only [h.itemsOf_eq, Except.map]

theorem toJson_eq (h : Shows ts segments items) {blob : Bytes}
    (spelled : Spells ReadAsNull segments blob) :
    (Ty.tuple ts).toJson blob = .ok (.arr items) :=
  h.toJson_of_split (spelled.split_eq h.length_le)

end Shows

/-- The bytes can be shown as JSON. -/
def HasJson (t : Ty Scalar) (bytes : Bytes) : Prop := ∃ json, t.toJson bytes = .ok json

/-- The item of one segment. -/
def itemOf (t : Ty Scalar) : Segment → Except Fault Json
  | none => .ok .null
  | some payload => t.toJson payload

/-- Where the segments have ended, items go on as if for nulls. -/
theorem itemsOf_cons (t : Ty Scalar) (ts : List (Ty Scalar)) (segments : List Segment) :
    itemsOf (t :: ts) segments =
      (t.itemOf segments.head?.join).bind fun item =>
        (itemsOf ts segments.tail).map (item :: ·) := by
  rcases segments with _ | ⟨_ | payload, segments⟩
  · rfl
  · rfl
  · simp only [itemsOf, itemOf, List.head?_cons, Option.join_some, List.tail_cons]
    cases t.toJson payload <;> rfl

theorem exists_shows (inside : Aligned HasJson ts segments) : ∃ items, Shows ts segments items := by
  induction ts generalizing segments with
  | nil =>
      cases inside
      exact ⟨[], .nil⟩
  | cons t ts ih =>
      cases inside with
      | nil =>
          obtain ⟨items, others⟩ := ih .nil
          exact ⟨_, .absent others⟩
      | null inside =>
          obtain ⟨items, others⟩ := ih inside
          exact ⟨_, .null others⟩
      | payload first inside =>
          obtain ⟨item, shown⟩ := first
          obtain ⟨items, others⟩ := ih inside
          exact ⟨_, .payload shown others⟩

theorem aligned_of_itemsOf (few : segments.length ≤ ts.length)
    (shown : itemsOf ts segments = .ok items) : Aligned HasJson ts segments := by
  induction ts generalizing segments items with
  | nil =>
      cases segments with
      | nil => exact .nil
      | cons => simp at few
  | cons t ts ih =>
      rw [itemsOf_cons] at shown
      obtain ⟨item, first, shown⟩ := bind_eq_ok_iff.mp shown
      obtain ⟨others, rest, -⟩ := map_eq_ok_iff.mp shown
      rcases segments with _ | ⟨_ | payload, segments⟩
      · exact .nil
      · exact .null (ih (Nat.le_of_succ_le_succ few) rest)
      · exact .payload ⟨item, first⟩ (ih (Nat.le_of_succ_le_succ few) rest)

theorem hasJson_tuple_iff {blob : Bytes} :
    (Ty.tuple ts).HasJson blob ↔
      ∃ segments, split ts.length blob = .ok segments ∧ Aligned HasJson ts segments := by
  constructor
  · rintro ⟨json, shown⟩
    rw [toJson] at shown
    split at shown
    · cases shown
    · rename_i segments read
      obtain ⟨items, inside, -⟩ := map_eq_ok_iff.mp shown
      exact ⟨segments, read, aligned_of_itemsOf (length_le_of_split read) inside⟩
  · rintro ⟨segments, read, inside⟩
    obtain ⟨items, shows'⟩ := exists_shows inside
    exact ⟨_, shows'.toJson_of_split read⟩

theorem hasJson_of_valid {t : Ty Scalar} {bytes : Bytes} (valid : t.Valid bytes) :
    t.HasJson bytes := by
  induction t generalizing bytes with
  | scalar s =>
      rw [HasJson, toJson]
      exact Scalar.exists_toJson (valid_scalar_iff.mp valid)
  | tuple ts ih =>
      obtain ⟨segments, spelled, aligned⟩ := valid_tuple_iff.mp valid
      have inside := aligned.mono fun t ht _ => ih t ht
      exact hasJson_tuple_iff.mpr ⟨segments, spelled.split_eq aligned.length_le, inside⟩

end TupleBlob.Ty
