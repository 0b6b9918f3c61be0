import Mathlib.Logic.Relation
import TupleBlob.Proofs.Identity
import TupleBlob.Proofs.Json.Quoting

/-! # Types inside types

To look for a type in another one is to compare kinds and names all the way down, and a name tells
its type. Main statements: a type is found exactly where it stands, as the type itself or as a
component at some depth, so types are partially ordered by what they are found in, and none is found
in a type that is nested less deep; and nothing that is found in a tuple is multi-cell, although a
tuple freezes nothing but its own components.
-/

namespace TupleBlob.Ty

variable {part t whole : Ty Scalar}

/-- The type is the other one, or a component of it, or of a component of it, and so on. -/
def PartOf : (part whole : Ty Scalar) → Prop :=
  Relation.ReflTransGen fun part whole => part ∈ whole.components

theorem partOf_iff : PartOf part t ↔ t = part ∨ ∃ c ∈ t.components, PartOf part c := by
  unfold PartOf
  rw [Relation.ReflTransGen.cases_tail_iff]
  constructor
  · intro h
    rcases h with same | ⟨c, inside, member⟩
    · exact .inl same
    · exact .inr ⟨c, member, inside⟩
  · intro h
    rcases h with same | ⟨c, member, inside⟩
    · exact .inl same
    · exact .inr ⟨c, inside, member⟩

/-! ## References -/

theorem anyReferences_iff {ts : List (Ty Scalar)} :
    anyReferences ts part ↔ ∃ c ∈ ts, c.references part := by
  induction ts with
  | nil => simp [anyReferences]
  | cons t ts ih => simp [anyReferences, ih]

/-- A scalar has no components, so one equation does for both sorts of types. -/
theorem references_iff : t.references part ↔ t = part ∨ ∃ c ∈ t.components, c.references part := by
  cases t with
  | scalar s => simp [references, components, same_iff]
  | tuple ts => simp [references, components, same_iff, anyReferences_iff]

theorem references_iff_partOf : t.references part ↔ PartOf part t := by
  rw [references_iff, partOf_iff]
  induction t with
  | scalar s => simp [components]
  | tuple ts ih =>
      have inside (c : Ty Scalar) (member : c ∈ ts) : c.references part ↔ PartOf part c := by
        rw [references_iff, partOf_iff]
        exact ih c member
      exact or_congr_right (exists_congr fun c => and_congr_right (inside c))

/-! ## Depth -/

theorem depth_lt_of_mem (member : part ∈ whole.components) : part.depth < whole.depth := by
  cases whole with
  | scalar s => cases member
  | tuple ts =>
      rw [depth]
      exact Nat.lt_succ_of_le (depth_le_depthList member)

namespace PartOf

theorem depth_le (h : PartOf part whole) : part.depth ≤ whole.depth := by
  induction h with
  | refl => exact Nat.le_refl _
  | tail _ member ih => exact Nat.le_trans ih (Nat.le_of_lt (depth_lt_of_mem member))

/-- What stands properly inside a type is nested less deep. -/
theorem eq_of_depth_le (h : PartOf part whole) (deep : whole.depth ≤ part.depth) :
    part = whole := by
  cases h with
  | refl => rfl
  | tail inside member =>
      have less := Nat.lt_of_le_of_lt (depth_le inside) (depth_lt_of_mem member)
      exact absurd deep (Nat.not_le_of_lt less)

theorem antisymm (h : PartOf part whole) (h' : PartOf whole part) : part = whole :=
  h.eq_of_depth_le h'.depth_le

end PartOf

/-- A type references another one just where that one is the type itself or stands in it, as a
component at some depth. So every type references itself, and what is referenced by a type it
references; two types that reference each other are the same; and no type references one that is
nested deeper. -/
theorem references_subtree :
    (∀ t part : Ty Scalar, t.references part ↔ PartOf part t) ∧
    (∀ t : Ty Scalar, t.references t) ∧
    (∀ whole t part : Ty Scalar, whole.references t → t.references part → whole.references part) ∧
    (∀ t u : Ty Scalar, t.references u → u.references t → t.same u) ∧
    ∀ t part : Ty Scalar, t.references part → part.depth ≤ t.depth := by
  refine ⟨fun t part => references_iff_partOf, ?_, ?_, ?_, ?_⟩
  · intro t
    exact references_iff_partOf.mpr .refl
  · intro whole t part outer inner
    rw [references_iff_partOf] at outer inner ⊢
    exact inner.trans outer
  · intro t u found found'
    rw [references_iff_partOf] at found found'
    exact same_iff.mpr (found'.antisymm found)
  · intro t part found
    exact (references_iff_partOf.mp found).depth_le

/-- A word stands two levels down, and nothing that is nested deeper stands in a tuple of words. -/
theorem references_subtree_nested :
    (Ty.tuple [.tuple [.scalar Scalar.int32], .scalar .utf8]).references (.scalar .int32) ∧
    ¬ (Ty.tuple [.scalar Scalar.int32]).references (.tuple [.tuple [.scalar .int32]]) := by
  obtain ⟨-, -, through, -, shallow⟩ := references_subtree
  constructor
  · apply through _ (.tuple [.scalar .int32])
    · decide +kernel
    · decide +kernel
  · intro found
    exact absurd (shallow _ _ found) (by decide)

/-! ## Frozen types -/

/-- The types that there are: scalars, and the tuples that are built of such types. -/
inductive Formed : Ty Scalar → Prop
  | scalar (s : Scalar) : Formed (.scalar s)
  | built {ts : List (Ty Scalar)} (inside : ∀ t ∈ ts, Formed t) : Formed (tupleOf ts)

theorem freeze_eq_iff_of_scalar (s : Scalar) : s.freeze = s ↔ s.isMultiCell = false := by
  cases s with
  | int32 | utf8 | ascii | bytes => simp [Scalar.freeze, Scalar.isMultiCell]
  | probe frozen => cases frozen <;> simp [Scalar.freeze, Scalar.isMultiCell]

theorem freeze_eq_iff : t.freeze = t ↔ t.isMultiCell = false := by
  cases t with
  | scalar s => simp [Ty.freeze, isMultiCell, freeze_eq_iff_of_scalar]
  | tuple ts => simp [Ty.freeze, isMultiCell]

namespace Formed

theorem freeze (formed : Formed t) : Formed t.freeze := by
  cases formed with
  | scalar s => exact .scalar s.freeze
  | built inside => exact .built inside

theorem of_mem (formed : Formed whole) (member : part ∈ whole.components) :
    Formed part ∧ part.isMultiCell = false := by
  cases formed with
  | scalar s => cases member
  | built inside =>
      obtain ⟨t, given, rfl⟩ := List.mem_map.mp member
      exact ⟨(inside t given).freeze, isMultiCell_freeze t⟩

/-- A tuple in a tuple freezes nothing any more, but was built itself. -/
theorem isMultiCell_of_partOf (formed : Formed whole) (frozen : whole.isMultiCell = false)
    (inside : PartOf part whole) : part.isMultiCell = false := by
  induction inside with
  | refl => exact frozen
  | tail _ member ih =>
      obtain ⟨formed, frozen⟩ := formed.of_mem member
      exact ih formed frozen

theorem map_freeze_components (formed : Formed whole) :
    whole.components.map Ty.freeze = whole.components := by
  have kept (c : Ty Scalar) (member : c ∈ whole.components) : c.freeze = id c :=
    freeze_eq_iff.mpr (formed.of_mem member).2
  rw [List.map_congr_left kept, List.map_id]

end Formed

/-- Whatever a tuple references is frozen, so no tuple references a probe that is not. To freeze a
type again changes nothing, and to freeze it changes nothing just if it is not multi-cell. So a
tuple may as well be built of frozen types, and a tuple that is built of the components of a tuple
is that one again. -/
theorem tupleOf_frozen_throughout :
    (∀ ts : List (Ty Scalar), (∀ t ∈ ts, Formed t) →
      (∀ part, (tupleOf ts).references part → part.isMultiCell = false) ∧
      ¬ (tupleOf ts).references (.scalar (Scalar.probe false))) ∧
    (∀ t : Ty Scalar, t.freeze.freeze = t.freeze ∧ (t.freeze.same t ↔ t.isMultiCell = false)) ∧
    (∀ ts : List (Ty Scalar),
      sameAll (tupleOf ts).components (tupleOf (ts.map freeze)).components) ∧
    ∀ ts : List (Ty Scalar), Formed (.tuple ts) →
      sameAll (tupleOf ts).components (Ty.tuple ts).components := by
  refine ⟨?_, ?_, ?_, ?_⟩
  · intro ts inside
    have frozen (part : Ty Scalar) (found : (tupleOf ts).references part) :
        part.isMultiCell = false :=
      (Formed.built inside).isMultiCell_of_partOf rfl (references_iff_partOf.mp found)
    refine ⟨frozen, ?_⟩
    intro found
    exact absurd (frozen _ found) (by decide)
  · intro t
    exact ⟨freeze_freeze t, same_iff.trans freeze_eq_iff⟩
  · intro ts
    rw [sameAll_iff]
    simp [tupleOf, components, Function.comp_def]
  · intro ts formed
    rw [sameAll_iff]
    exact formed.map_freeze_components

/-- A probe is frozen by the tuple that it is given to, and stays so in the tuple around that. -/
theorem tupleOf_frozen_throughout_nested :
    (tupleOf [tupleOf [.scalar (Scalar.probe false)], .scalar (Scalar.probe false)]).references
      (.scalar (Scalar.probe true)) ∧
    ¬ (tupleOf [tupleOf [.scalar (Scalar.probe false)], .scalar (Scalar.probe false)]).references
      (.scalar (Scalar.probe false)) ∧
    sameAll (tupleOf [tupleOf [.scalar (Scalar.probe false)]]).components
      [tupleOf [.scalar (Scalar.probe false)]] := by
  have probe : ∀ t ∈ [Ty.scalar (Scalar.probe false)], Formed t :=
    List.forall_mem_singleton.mpr (.scalar _)
  have inner : Formed (tupleOf [.scalar (Scalar.probe false)]) := .built probe
  obtain ⟨frozen, -, -, again⟩ := tupleOf_frozen_throughout
  refine ⟨by decide +kernel, ?_, ?_⟩
  · exact (frozen _ (List.forall_mem_cons.mpr ⟨inner, probe⟩)).2
  · exact again _ (.built (List.forall_mem_singleton.mpr inner))

end TupleBlob.Ty
