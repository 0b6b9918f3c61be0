import Mathlib.Logic.Relation
import TupleBlob.Proofs.Evolution

/-! # Types ordered by what they keep

Whether a type keeps the order, or the values, of a prior one is decided for scalars and passes to
tuples by their shared places, where a longer tuple may cover a shorter one. Whatever is lawful for
scalars is therefore lawful for all types. Main statements: both relations are partial orders, so
changes that are accepted one by one are accepted as one change, and a tuple may gain components
but not lose them.
-/

namespace TupleBlob.Ty

/-! ## Tuples place by place -/

namespace Overlays

variable {r r' r'' : Ty Scalar → Ty Scalar → Prop} {ts us vs : List (Ty Scalar)}

theorem refl (same : ∀ t ∈ ts, r t t) : Overlays r ts ts := by
  induction ts with
  | nil => exact .nil
  | cons t ts ih =>
      obtain ⟨first, others⟩ := List.forall_mem_cons.mp same
      exact .cons first (ih others)

theorem comp (h : Overlays r ts us) (h' : Overlays r' us vs)
    (step : ∀ t u v, r t u → r' u v → r'' t v) : Overlays r'' ts vs := by
  induction h generalizing vs with
  | nil =>
      cases h'
      exact .nil
  | cons first _ ih =>
      cases h' with
      | nil => exact .nil
      | cons first' others' => exact .cons (step _ _ _ first first') (ih others')

/-- Lists that overlay each other have the same length. -/
theorem antisymm (h : Overlays r ts us) (h' : Overlays r' us ts)
    (step : ∀ t u, r t u → r' u t → t = u) : ts = us := by
  induction h with
  | nil =>
      cases h'
      rfl
  | cons first _ ih =>
      cases h' with
      | cons first' others' => rw [step _ _ first first', ih others']

theorem append_left (h : Overlays r ts us) (extras : List (Ty Scalar)) :
    Overlays r (ts ++ extras) us := by
  induction h with
  | nil => exact .nil
  | cons first _ ih => exact .cons first ih

theorem length_le (h : Overlays r ts us) : us.length ≤ ts.length := by
  induction h with
  | nil => exact Nat.zero_le _
  | cons _ _ ih => exact Nat.succ_le_succ ih

end Overlays

variable {accepts : Scalar → Ty Scalar → Bool}

theorem covers_tuple_iff {ts priors : List (Ty Scalar)} :
    covers accepts (.tuple ts) (.tuple priors) ↔
      Overlays (fun t prior => covers accepts t prior) ts priors := by
  simp only [covers, Bool.and_eq_true, decide_eq_true_eq]
  constructor
  · rintro ⟨longer, shared⟩
    exact overlays_of_coversShared (fun _ _ _ step => step) longer shared
  · intro overlays
    refine ⟨overlays.length_le, ?_⟩
    induction overlays with
    | @nil ts => cases ts <;> rfl
    | cons first _ ih => simp only [coversShared, first, ih, Bool.and_self]

/-! ## From scalars to all types -/

/-- What a scalar accepts makes a partial order on types. A tuple accepts no scalar, so only the
chains that begin with a scalar are asked for. -/
structure LawfulScalars (accepts : Scalar → Ty Scalar → Bool) : Prop where
  refl (s : Scalar) : accepts s (.scalar s)
  trans {s : Scalar} {t prior : Ty Scalar} : accepts s t → covers accepts t prior → accepts s prior
  antisymm {s : Scalar} {t : Ty Scalar} : accepts s t → covers accepts t (.scalar s) → t = .scalar s

/-- A relation between types is a partial order, up to the identity of types, along which changes
may be made one after the other, and tuples may be extended but not shortened. -/
structure Succession (keeps : Ty Scalar → Ty Scalar → Bool) : Prop where
  refl (t : Ty Scalar) : keeps t t
  trans (t prior first : Ty Scalar) : keeps t prior → keeps prior first → keeps t first
  antisymm (t prior : Ty Scalar) : keeps t prior → keeps prior t → t.same prior
  chain (first last : Ty Scalar) :
    Relation.ReflTransGen (fun prior t => keeps t prior) first last → keeps last first
  extension (ts extras : List (Ty Scalar)) : extras ≠ [] →
    keeps (tupleOf (ts ++ extras)) (tupleOf ts) ∧ ¬ keeps (tupleOf ts) (tupleOf (ts ++ extras))

namespace LawfulScalars

variable (lawful : LawfulScalars accepts)

include lawful

theorem covers_refl (t : Ty Scalar) : covers accepts t t := by
  induction t with
  | scalar s => exact lawful.refl s
  | tuple ts ih => exact covers_tuple_iff.mpr (.refl ih)

theorem covers_trans {t prior first : Ty Scalar} (h : covers accepts t prior)
    (h' : covers accepts prior first) : covers accepts t first := by
  have passes : ∀ first, covers accepts prior first → covers accepts t first := by
    apply rel_of_covers (r := fun t prior =>
      ∀ first, covers accepts prior first → covers accepts t first) _ _ h
    · intro s prior accepted first
      exact lawful.trans accepted
    · intro ts priors overlays first covered
      cases first with
      | scalar => simp [covers] at covered
      | tuple firsts =>
          rw [covers_tuple_iff] at covered ⊢
          exact overlays.comp covered fun _ _ first pass => pass first
  exact passes first h'

theorem covers_antisymm {t prior : Ty Scalar} (h : covers accepts t prior)
    (h' : covers accepts prior t) : t = prior := by
  have settles : covers accepts prior t → t = prior := by
    apply rel_of_covers (r := fun t prior => covers accepts prior t → t = prior) _ _ h
    · intro s prior accepted covered
      exact (lawful.antisymm accepted covered).symm
    · intro ts priors overlays covered
      rw [overlays.antisymm (covers_tuple_iff.mp covered) fun _ _ settle => settle]
  exact settles h'

theorem covers_chain {first last : Ty Scalar}
    (steps : Relation.ReflTransGen (fun prior t => covers accepts t prior) first last) :
    covers accepts last first := by
  induction steps with
  | refl => exact lawful.covers_refl first
  | tail _ step ih => exact lawful.covers_trans step ih

theorem covers_append (ts extras : List (Ty Scalar)) :
    covers accepts (.tuple (ts ++ extras)) (.tuple ts) := by
  rw [covers_tuple_iff]
  exact (Overlays.refl fun t _ => lawful.covers_refl t).append_left extras

theorem succession : Succession (covers accepts) where
  refl := lawful.covers_refl
  trans _ _ _ := lawful.covers_trans
  antisymm t prior h h' := by
    exact same_iff.mpr (lawful.covers_antisymm h h')
  chain _ _ := lawful.covers_chain
  extension ts extras more := by
    rw [tupleOf, tupleOf, List.map_append]
    refine ⟨lawful.covers_append _ _, ?_⟩
    intro covered
    have shorter := (covers_tuple_iff.mp covered).length_le
    rw [← List.length_pos_iff] at more
    simp only [List.length_append, List.length_map] at shorter
    omega

end LawfulScalars

/-! ## Scalars -/

namespace Widens

variable {s s' s'' : Scalar}

theorem trans (h : Widens s s') (h' : Widens s' s'') : Widens s s'' := by
  cases h <;> cases h' <;> constructor

theorem antisymm (h : Widens s s') (h' : Widens s' s) : s' = s := by
  cases h with
  | refl => rfl
  | asciiToUtf8 | asciiToBytes | utf8ToBytes => cases h'

/-- Nothing is wider than plain bytes. -/
theorem eq_bytes (h : Widens s .bytes) : s = .bytes := by
  cases h
  rfl

end Widens

theorem lawful_scalarKeepsOrder : LawfulScalars scalarKeepsOrder where
  refl s := scalarKeepsOrder_iff.mpr ⟨s, rfl, .refl⟩
  trans keeps covered := by
    obtain ⟨s', rfl, widens⟩ := scalarKeepsOrder_iff.mp keeps
    obtain ⟨s'', rfl, widens'⟩ := scalarKeepsOrder_iff.mp covered
    exact scalarKeepsOrder_iff.mpr ⟨s'', rfl, widens.trans widens'⟩
  antisymm keeps covered := by
    obtain ⟨s', rfl, widens⟩ := scalarKeepsOrder_iff.mp keeps
    obtain ⟨s'', same, widens'⟩ := scalarKeepsOrder_iff.mp covered
    cases same
    rw [widens.antisymm widens']

/-- Plain bytes keep the values of every type, and no other type keeps theirs. -/
theorem eq_bytes_of_covers {t : Ty Scalar} (covered : covers scalarKeepsValues t (.scalar .bytes)) :
    t = .scalar .bytes := by
  cases t with
  | tuple ts => simp [covers] at covered
  | scalar s =>
      rcases scalarKeepsValues_iff.mp covered with rfl | ⟨s', same, widens⟩
      · rfl
      · cases same
        rw [widens.eq_bytes]

theorem lawful_scalarKeepsValues : LawfulScalars scalarKeepsValues where
  refl s := scalarKeepsValues_iff.mpr (.inr ⟨s, rfl, .refl⟩)
  trans keeps covered := by
    rw [scalarKeepsValues_iff]
    rcases scalarKeepsValues_iff.mp keeps with rfl | ⟨s', rfl, widens⟩
    · exact .inl rfl
    · rcases scalarKeepsValues_iff.mp covered with rfl | ⟨s'', rfl, widens'⟩
      · exact .inl widens.eq_bytes
      · exact .inr ⟨s'', rfl, widens.trans widens'⟩
  antisymm keeps covered := by
    rcases scalarKeepsValues_iff.mp keeps with rfl | ⟨s', rfl, widens⟩
    · exact eq_bytes_of_covers covered
    · rcases scalarKeepsValues_iff.mp covered with rfl | ⟨s'', same, widens'⟩
      · rw [widens.eq_bytes]
      · cases same
        rw [widens.antisymm widens']

theorem keepsValues_of_keepsOrder {t prior : Ty Scalar} (keeps : t.keepsOrder prior) :
    t.keepsValues prior := by
  apply rel_of_covers (r := fun t prior => t.keepsValues prior) _ _ keeps
  · intro s prior accepted
    exact scalarKeepsValues_iff.mpr (.inr (scalarKeepsOrder_iff.mp accepted))
  · intro ts priors overlays
    exact covers_tuple_iff.mpr overlays

/-- To keep the order of values and to keep the values are partial orders on types: accepted
changes make up an accepted change, a tuple may gain components at its end, and never lose them.
Where the order is kept, so are the values. -/
theorem keepsOrder_keepsValues_succession :
    Succession keepsOrder ∧ Succession keepsValues ∧
      ∀ t prior : Ty Scalar, t.keepsOrder prior → t.keepsValues prior :=
  ⟨lawful_scalarKeepsOrder.succession, lawful_scalarKeepsValues.succession,
    fun _ _ => keepsValues_of_keepsOrder⟩

/-- An inner tuple is widened and extended in one change, and the outer one gains a probe in the
next. -/
theorem keepsOrder_keepsValues_succession_widening :
    ((tupleOf [tupleOf [.scalar .bytes, .scalar .int32], .scalar (.probe true)]).keepsOrder
        (tupleOf [tupleOf [.scalar .ascii]]) = true) ∧
      (tupleOf [tupleOf [.scalar .bytes, .scalar .int32], .scalar (.probe true)]).keepsValues
        (tupleOf [tupleOf [.scalar .ascii]]) = true ∧
      ¬ (tupleOf [.scalar .utf8]).keepsOrder (tupleOf [.scalar .utf8, .scalar .int32]) := by
  obtain ⟨order, -, weaker⟩ := keepsOrder_keepsValues_succession
  have widened : (tupleOf [tupleOf [.scalar .bytes, .scalar .int32]]).keepsOrder
      (tupleOf [tupleOf [.scalar .ascii]]) := by
    decide +kernel
  have gained :
      (tupleOf [tupleOf [.scalar .bytes, .scalar .int32], .scalar (.probe true)]).keepsOrder
        (tupleOf [tupleOf [.scalar .bytes, .scalar .int32]]) := by
    decide +kernel
  have changed := order.chain _ _ (.tail (.single widened) gained)
  exact ⟨changed, weaker _ _ changed, (order.extension [.scalar .utf8] [.scalar .int32] nofun).2⟩

end TupleBlob.Ty
