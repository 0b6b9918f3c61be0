import Mathlib.Data.List.Forall2
import TupleBlob.Proofs.Json.RoundTrip

/-! # Arrays that are read

What stands for a tuple is decoded, must be an array, must have an item for each component, and
must have items that the components read, and is looked at in this order. Main statement: exactly
the arrays that pass are read, item by item, and whatever does not pass is refused for the first of
these reasons that applies, also where a later one does.
-/

namespace TupleBlob.Ty

variable {S : Type} [ScalarType S] {ts : List (Ty S)} {items : List Json}

/-! ## Items -/

/-- What an item gives: a null if it is null, and otherwise what the type reads from it. -/
def readItem (t : Ty S) (item : Json) : Except Fault Segment :=
  if item = .null then .ok none else (t.ofJson item).map some

/-- The item is null, or one that the type reads. -/
def Readable (t : Ty S) (item : Json) : Prop :=
  item = .null ∨ ∃ payload, t.ofJson item = .ok payload

theorem exists_readItem_iff {t : Ty S} {item : Json} :
    (∃ segment, t.readItem item = .ok segment) ↔ t.Readable item := by
  rw [readItem, Readable]
  split
  · simp [*]
  · simp [*, map_eq_ok_iff]

theorem ofItems_nil_left (items : List Json) : ofItems ([] : List (Ty S)) items = .ok [] := by
  rw [ofItems] <;> simp

theorem ofItems_nil_right (ts : List (Ty S)) : ofItems ts [] = .ok [] := by
  rw [ofItems] <;> simp

theorem ofItems_eq_bind (t : Ty S) (ts : List (Ty S)) (item : Json) (items : List Json) :
    ofItems (t :: ts) (item :: items) =
      (t.readItem item).bind fun segment => (ofItems ts items).map (segment :: ·) := by
  rw [readItem]
  split
  · rename_i null
    rw [null, ofItems_null]
    rfl
  · rename_i present
    rw [ofItems_cons t present]
    cases t.ofJson item <;> rfl

theorem collects_ofItems (ts : List (Ty S)) (items : List Json) :
    Collects (List.zipWith readItem ts items) (ofItems ts items) :=
  .zipWith ofItems_nil_left ofItems_nil_right ofItems_eq_bind ts items

theorem forall₂_readable_iff :
    List.Forall₂ Readable ts items ↔ ts.length = items.length ∧
      ∀ read ∈ List.zipWith readItem ts items, ∃ segment, read = .ok segment := by
  rw [List.forall₂_iff_zip, ← List.map_uncurry_zip_eq_zipWith]
  simp only [List.forall_mem_map, Prod.forall, Function.uncurry, exists_readItem_iff]

/-! ## Arrays -/

theorem termsOfJson_of_decoded {json value : Json} (decoded : decodeOnce json = .ok value) :
    termsOfJson ts json = (listOf ts.length value).bind (ofItems ts) := by
  rw [termsOfJson, decoded]
  rfl

theorem listOf_of_ne_arr {arity : Nat} {value : Json} (other : ∀ items, value ≠ .arr items) :
    listOf arity value = .error (.notAList value) := by
  cases value with
  | arr items => exact absurd rfl (other items)
  | null | bool | num | str | obj => rfl

theorem listOf_extra {arity : Nat} (many : arity < items.length) :
    listOf arity (.arr items) = .error (.extraItems arity items) := by
  rw [listOf, if_pos many]

theorem listOf_missing {arity : Nat} (few : items.length < arity) :
    listOf arity (.arr items) = .error (.missingItems arity items) := by
  rw [listOf, if_neg (Nat.lt_asymm few), if_pos few]

theorem exists_termsOfJson_iff {json value : Json} (decoded : decodeOnce json = .ok value) :
    (∃ terms, termsOfJson ts json = .ok terms) ↔
      ∃ items, value = .arr items ∧ List.Forall₂ Readable ts items := by
  rw [termsOfJson_of_decoded decoded]
  constructor
  · intro ⟨terms, read⟩
    obtain ⟨items, listed, readItems⟩ := bind_eq_ok_iff.mp read
    obtain ⟨shape, same⟩ := listOf_eq_ok_iff.mp listed
    have each := (collects_ofItems ts items).exists_ok_iff.mp ⟨terms, readItems⟩
    exact ⟨items, shape, forall₂_readable_iff.mpr ⟨same.symm, each⟩⟩
  · intro ⟨items, shape, readable⟩
    subst shape
    obtain ⟨same, each⟩ := forall₂_readable_iff.mp readable
    obtain ⟨terms, read⟩ := (collects_ofItems ts items).exists_ok_iff.mpr each
    exact ⟨terms, bind_eq_ok_iff.mpr ⟨items, listOf_eq_ok_iff.mpr ⟨rfl, same.symm⟩, read⟩⟩

/-- A text that is no JSON is refused as such, and otherwise the JSON that was decoded is read just
if it is an array with one item for each component, null or read by it. The array then gives what
its items give, place by place, and the blob is written from that. Anything else than an array is
refused, then an array of another length, whatever its items are, and then the first item that its
component does not read. -/
theorem termsOfJson_reads_items (ts : List (Ty S)) (json : Json) :
    (∀ cause, decodeOnce json = .error cause → termsOfJson ts json = .error cause) ∧
    (∀ value, decodeOnce json = .ok value →
      ((∃ terms, termsOfJson ts json = .ok terms) ↔
        ∃ items, value = .arr items ∧ List.Forall₂ Readable ts items) ∧
      ((∀ items, value ≠ .arr items) → termsOfJson ts json = .error (.notAList value)) ∧
      ∀ items, value = .arr items →
        (ts.length < items.length →
          termsOfJson ts json = .error (.extraItems ts.length items)) ∧
        (items.length < ts.length →
          termsOfJson ts json = .error (.missingItems ts.length items)) ∧
        (items.length = ts.length →
          Collects (List.zipWith readItem ts items) (termsOfJson ts json) ∧
          ∀ terms, termsOfJson ts json = .ok terms → terms.length = ts.length)) ∧
    (Ty.tuple ts).ofJson json = (termsOfJson ts json).bind encodeSegments := by
  refine ⟨?_, ?_, ofJson_eq_bind_termsOfJson ts json⟩
  · intro cause undecoded
    rw [termsOfJson, undecoded]
    rfl
  · intro value decoded
    have terms : termsOfJson ts json = (listOf ts.length value).bind (ofItems ts) :=
      termsOfJson_of_decoded decoded
    refine ⟨exists_termsOfJson_iff decoded, ?_, ?_⟩
    · intro other
      rw [terms, listOf_of_ne_arr other]
      rfl
    · intro items shape
      subst shape
      refine ⟨?_, ?_, ?_⟩
      · intro many
        rw [terms, listOf_extra many]
        rfl
      · intro few
        rw [terms, listOf_missing few]
        rfl
      · intro same
        have each : Collects (List.zipWith readItem ts items) (termsOfJson ts json) := by
          rw [terms, listOf_eq_ok_iff.mpr ⟨rfl, same⟩]
          exact collects_ofItems ts items
        refine ⟨each, ?_⟩
        intro found read
        rw [read] at each
        rw [each.length_eq, List.length_zipWith, same, Nat.min_self]

/-- An array given by its text, one that is too short and has an item that is not read, and an
object. -/
theorem termsOfJson_reads_items_nested :
    (∃ terms, termsOfJson [.scalar Scalar.int32, .tuple [.scalar .utf8]] (.str "[7,[null]]") =
      .ok terms ∧ terms.length = 2) ∧
    termsOfJson [.scalar Scalar.int32, .tuple [.scalar .utf8]] (.arr [.bool true]) =
      .error (.missingItems 2 [.bool true]) ∧
    termsOfJson [.scalar Scalar.int32, .tuple [.scalar .utf8]] (.obj []) =
      .error (.notAList (.obj [])) := by
  have reads := termsOfJson_reads_items [.scalar Scalar.int32, .tuple [.scalar .utf8]]
  refine ⟨?_, ?_, ?_⟩
  · have decoded : decodeOnce (.str "[7,[null]]") = .ok (.arr [.int 7, .arr [.null]]) := by
      decide +kernel
    obtain ⟨accepted, -, lists⟩ := (reads _).2.1 _ decoded
    have readable : List.Forall₂ Readable [.scalar Scalar.int32, .tuple [.scalar .utf8]]
        [.int 7, .arr [.null]] :=
      .cons (.inr ⟨[0, 0, 0, 7], rfl⟩) (.cons (.inr ⟨[255, 255, 255, 255], rfl⟩) .nil)
    obtain ⟨terms, read⟩ := accepted.mpr ⟨_, rfl, readable⟩
    exact ⟨terms, read, ((lists _ rfl).2.2 rfl).2 terms read⟩
  · exact (((reads (.arr [.bool true])).2.1 _ rfl).2.2 _ rfl).2.1 (by decide)
  · exact ((reads (.obj [])).2.1 _ rfl).2.1 fun _ => Json.noConfusion

/-- Of two items that are not read, the first is reported. -/
example : termsOfJson [.scalar Scalar.int32, .scalar .utf8] (.arr [.str "x", .bool true]) =
    .error (.badNumeral .badDigit) := by
  decide +kernel

end TupleBlob.Ty
