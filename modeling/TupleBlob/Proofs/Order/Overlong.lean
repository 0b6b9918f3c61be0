import TupleBlob.Proofs.Order.Deciding
import TupleBlob.Proofs.Order.Rank

/-! # Blobs that go on behind the last component

A blob of a longer type has segments that a shorter type has no components for. They are looked at
only for whether one of them is no null, and where both blobs go on so, only those of the left blob
are. Main statement: the order of two blobs is the reverse of their order the other way round,
unless both go on behind components that are all equal, and not by nulls alone.
-/

namespace TupleBlob.Ty

open LengthWord

variable {S : Type} [ScalarType S]

/-- Both lists go on behind the last component, and are equal up to there. -/
structure Outruns (ts : List (Ty S)) (lefts rights : List Segment) : Prop where
  left : ts.length < lefts.length
  right : ts.length < rights.length
  tied : Tied ts (lefts.take ts.length) (rights.take ts.length)

/-- What segments behind the last component decide for the blob that they are in. -/
def suffixOrder (segments : List Segment) : Ordering :=
  if segments.all Option.isNone then .eq else .gt

/-- Two comparisons succeed, and one gives the reverse of the other. -/
def Mirrored (forward backward : Except Fault Ordering) : Prop :=
  ∃ o, forward = .ok o ∧ backward = .ok o.swap

variable {t : Ty S} {ts : List (Ty S)} {lefts rights : List Segment} {left right : Bytes}

/-! ## Segments behind the last component -/

theorem suffixOrder_eq_swap_iff :
    suffixOrder rights = (suffixOrder lefts).swap ↔
      (lefts ++ rights).any Option.isSome = false := by
  have nulls (segments : List Segment) :
      segments.any Option.isSome = false ↔ segments.all Option.isNone = true := by
    simp
  rw [List.any_append, Bool.or_eq_false_iff, nulls, nulls, suffixOrder, suffixOrder]
  cases lefts.all Option.isNone <;> cases rights.all Option.isNone <;> simp

theorem Outruns.cons {first first' : Segment} (tie : t.orderSegments first first' = .ok .eq)
    (h : Outruns ts lefts rights) : Outruns (t :: ts) (first :: lefts) (first' :: rights) :=
  ⟨Nat.succ_lt_succ h.left, Nat.succ_lt_succ h.right, .cons tie h.tied⟩

/-- The right blob is not looked at. -/
theorem orderRest_of_spells (spelled : Spells ReadAsNull lefts left) (present : lefts ≠ [])
    (offset : Nat) (r : Reader) : orderRest ⟨offset, left⟩ r = .ok (suffixOrder lefts) := by
  have remains : lefts.isEmpty = false := List.isEmpty_eq_false_iff.mpr present
  simp only [orderRest, Reader.hasRemaining, spelled.isEmpty_eq, remains, Bool.not_false,
    spelled.skipNulls_eq, Except.map, suffixOrder]

theorem Outruns.order_eq (h : Outruns ts lefts rights) (spellsLeft : Spells ReadAsNull lefts left)
    (spellsRight : Spells ReadAsNull rights right) :
    (Ty.tuple ts).order left right = .ok (suffixOrder (lefts.drop ts.length)) := by
  have someLeft : left ≠ [] := by
    rw [ne_eq, spellsLeft.eq_nil_iff, ← ne_eq, ← List.length_pos_iff]
    exact Nat.zero_lt_of_lt h.left
  have someRight : right ≠ [] := by
    rw [ne_eq, spellsRight.eq_nil_iff, ← ne_eq, ← List.length_pos_iff]
    exact Nat.zero_lt_of_lt h.right
  rw [← List.take_append_drop ts.length lefts] at spellsLeft
  rw [← List.take_append_drop ts.length rights] at spellsRight
  obtain ⟨frontLeft, restLeft, rfl, beforeLeft, behindLeft⟩ := spellsLeft.exists_append
  obtain ⟨frontRight, restRight, rfl, beforeRight, -⟩ := spellsRight.exists_append
  have walk := h.tied.orderFrom_append beforeLeft beforeRight [] restLeft restRight 0 0
  rw [List.append_nil] at walk
  rw [order_of_ne_nil ts someLeft someRight, Reader.start, Reader.start, walk, orderFrom]
  apply orderRest_of_spells behindLeft
  rw [← List.length_pos_iff, List.length_drop]
  exact Nat.sub_pos_of_lt h.left

/-! ## Comparisons that mirror each other -/

variable [LawfulScalarType S]

theorem mirrored_orderSegments {left right : Segment} (validLeft : ∀ l, left = some l → t.Valid l)
    (validRight : ∀ r, right = some r → t.Valid r) :
    Mirrored (t.orderSegments left right) (t.orderSegments right left) := by
  refine ⟨rankSegments t.rank left right, ?_, ?_⟩
  · apply orderSegments_eq_rank
    intro l r hl hr
    exact order_eq_rank (validLeft l hl) (validRight r hr)
  · rw [← (transCmp_rankSegments (transCmp_rank t)).eq_swap]
    apply orderSegments_eq_rank
    intro r l hr hl
    exact order_eq_rank (validRight r hr) (validLeft l hl)

/-- Where one blob has ended, the rest of the other decides. -/
theorem mirrored_orderRest (spellsLeft : Spells ReadAsNull lefts left)
    (spellsRight : Spells ReadAsNull rights right) (ended : lefts = [] ∨ rights = [])
    (i j : Nat) : Mirrored (orderRest ⟨i, left⟩ ⟨j, right⟩) (orderRest ⟨j, right⟩ ⟨i, left⟩) := by
  rcases ended with rfl | rfl
  · cases spellsLeft
    rw [orderRest_nil_left spellsRight, orderRest_nil_right spellsRight]
    split <;> exact ⟨_, rfl, rfl⟩
  · cases spellsRight
    rw [orderRest_nil_left spellsLeft, orderRest_nil_right spellsLeft]
    split <;> exact ⟨_, rfl, rfl⟩

theorem mirrored_orderFrom (alignedLeft : Aligned Valid ts (lefts.take ts.length))
    (alignedRight : Aligned Valid ts (rights.take ts.length))
    (spellsLeft : Spells ReadAsNull lefts left) (spellsRight : Spells ReadAsNull rights right)
    (notBoth : ¬ Outruns ts lefts rights) (i j : Nat) :
    Mirrored (orderFrom ts ⟨i, left⟩ ⟨j, right⟩) (orderFrom ts ⟨j, right⟩ ⟨i, left⟩) := by
  induction ts generalizing lefts rights left right i j with
  | nil =>
      have ended : lefts = [] ∨ rights = [] := by
        by_contra more
        rw [not_or, ← ne_eq, ← ne_eq, ← List.length_pos_iff, ← List.length_pos_iff] at more
        exact notBoth ⟨more.1, more.2, .nil⟩
      exact mirrored_orderRest spellsLeft spellsRight ended i j
  | cons t ts ih =>
      cases spellsLeft with
      | nil =>
          rw [orderFrom_nil_right]
          exact mirrored_orderRest .nil spellsRight (.inl rfl) i j
      | @cons first _ _ _ firstLeft othersLeft =>
          cases spellsRight with
          | nil =>
              rw [orderFrom_nil_right]
              exact mirrored_orderRest (.cons firstLeft othersLeft) .nil (.inr rfl) i j
          | @cons first' _ _ _ firstRight othersRight =>
              obtain ⟨o, forward, backward⟩ :
                  Mirrored (t.orderSegments first first') (t.orderSegments first' first) :=
                mirrored_orderSegments (fun _ => alignedLeft.head) (fun _ => alignedRight.head)
              rw [orderFrom_cons firstLeft firstRight, orderFrom_cons firstRight firstLeft,
                forward, backward]
              cases o with
              | lt | gt => exact ⟨_, rfl, rfl⟩
              | eq =>
                  apply ih alignedLeft.tail alignedRight.tail othersLeft othersRight
                  intro outruns
                  exact notBoth (outruns.cons forward)

theorem mirrored_order (alignedLeft : Aligned Valid ts (lefts.take ts.length))
    (alignedRight : Aligned Valid ts (rights.take ts.length))
    (spellsLeft : Spells ReadAsNull lefts left) (spellsRight : Spells ReadAsNull rights right)
    (notBoth : ¬ Outruns ts lefts rights) :
    Mirrored ((Ty.tuple ts).order left right) ((Ty.tuple ts).order right left) := by
  cases left with
  | nil => cases right <;> exact ⟨_, rfl, rfl⟩
  | cons =>
      cases right with
      | nil => exact ⟨_, rfl, rfl⟩
      | cons => exact mirrored_orderFrom alignedLeft alignedRight spellsLeft spellsRight notBoth 0 0

theorem Tied.symm (tied : Tied ts lefts rights) (alignedLeft : Aligned Valid ts lefts)
    (alignedRight : Aligned Valid ts rights) : Tied ts rights lefts := by
  induction tied with
  | nil => exact .nil
  | @cons t _ left right _ _ first _ ih =>
      obtain ⟨o, forward, backward⟩ :
          Mirrored (t.orderSegments left right) (t.orderSegments right left) :=
        mirrored_orderSegments (fun _ => alignedLeft.head) (fun _ => alignedRight.head)
      cases first.symm.trans forward
      exact .cons backward (ih alignedLeft.tail alignedRight.tail)

theorem Outruns.symm (h : Outruns ts lefts rights)
    (alignedLeft : Aligned Valid ts (lefts.take ts.length))
    (alignedRight : Aligned Valid ts (rights.take ts.length)) : Outruns ts rights lefts :=
  ⟨h.right, h.left, h.tied.symm alignedLeft alignedRight⟩

/-- Blobs of whole segments whose payloads are valid as far as there are components can always be
compared. The order is the reverse of the order the other way round, unless both blobs go on behind
components that are all equal, and there is a payload in what follows. Then each blob comes after
the other one or is equal to it, by its own payloads there alone. -/
theorem order_swap_iff (alignedLeft : Aligned Valid ts (lefts.take ts.length))
    (alignedRight : Aligned Valid ts (rights.take ts.length))
    (spellsLeft : Spells ReadAsNull lefts left) (spellsRight : Spells ReadAsNull rights right) :
    ∃ o o', (Ty.tuple ts).order left right = .ok o ∧ (Ty.tuple ts).order right left = .ok o' ∧
      (o' = o.swap ↔ ¬ (Outruns ts lefts rights ∧
        (lefts.drop ts.length ++ rights.drop ts.length).any Option.isSome)) ∧
      (Outruns ts lefts rights →
        o = suffixOrder (lefts.drop ts.length) ∧ o' = suffixOrder (rights.drop ts.length)) := by
  by_cases both : Outruns ts lefts rights
  · have forward := both.order_eq spellsLeft spellsRight
    have backward := (both.symm alignedLeft alignedRight).order_eq spellsRight spellsLeft
    refine ⟨_, _, forward, backward, ?_, fun _ => ⟨rfl, rfl⟩⟩
    rw [suffixOrder_eq_swap_iff, ← Bool.not_eq_true]
    simp only [both, true_and]
  · obtain ⟨o, forward, backward⟩ :=
      mirrored_order alignedLeft alignedRight spellsLeft spellsRight both
    refine ⟨o, o.swap, forward, backward, ?_, fun outruns => absurd outruns both⟩
    simp only [both, false_and, not_false_eq_true]

/-- Behind an equal inner tuple there is a payload on one side and a null on the other: the first
blob comes after the second one, which is equal to it. -/
theorem order_swap_iff_suffixes :
    Outruns [.tuple [.scalar Scalar.int32]] [some [], some [97]] [some [], none] ∧
      (Ty.tuple [.tuple [.scalar Scalar.int32]]).order
        [0, 0, 0, 0, 0, 0, 0, 1, 97] [0, 0, 0, 0, 255, 255, 255, 254] = .ok .gt ∧
      (Ty.tuple [.tuple [.scalar Scalar.int32]]).order
        [0, 0, 0, 0, 255, 255, 255, 254] [0, 0, 0, 0, 0, 0, 0, 1, 97] = .ok .eq := by
  have aligned : Aligned Valid [.tuple [.scalar Scalar.int32]] [some []] := .payload rfl .nil
  have spellsLeft : Spells ReadAsNull [some [], some [97]] [0, 0, 0, 0, 0, 0, 0, 1, 97] :=
    .cons (@SpellsSegment.payload ReadAsNull [] ⟨0⟩ rfl)
      (.cons (@SpellsSegment.payload ReadAsNull [97] ⟨1⟩ rfl) .nil)
  have spellsRight : Spells ReadAsNull [some [], none] [0, 0, 0, 0, 255, 255, 255, 254] :=
    .cons (@SpellsSegment.payload ReadAsNull [] ⟨0⟩ rfl)
      (.cons (@SpellsSegment.null ReadAsNull ⟨-2⟩ rfl) .nil)
  have both : Outruns [.tuple [.scalar Scalar.int32]] [some [], some [97]] [some [], none] :=
    ⟨by decide, by decide, .cons rfl .nil⟩
  obtain ⟨o, o', forward, backward, -, suffixes⟩ :=
    order_swap_iff aligned aligned spellsLeft spellsRight
  obtain ⟨rfl, rfl⟩ := suffixes both
  exact ⟨both, forward, backward⟩

end TupleBlob.Ty
