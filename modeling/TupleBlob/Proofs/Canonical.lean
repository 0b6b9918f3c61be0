import TupleBlob.Proofs.Order.Rank

/-! # Canonical nulls

Every negative word is read as a null and one is written. A blob whose nulls are rewritten by that
word, in the tuples inside it too, is as long as before, valid if it was, and has the same place
in the order. Main statements: these three, and that a blob without other nulls stays as it is.
-/

namespace TupleBlob

open LengthWord

/-- Two lists of segments have their nulls at the same places, and at every other place the
payloads are in the relation `r` to the type there. -/
inductive Matched (r : Ty Scalar → Bytes → Bytes → Prop) :
    List (Ty Scalar) → (before after : List Segment) → Prop
  | nil {ts} : Matched r ts [] []
  | null {t ts before after} (others : Matched r ts before after) :
      Matched r (t :: ts) (none :: before) (none :: after)
  | payload {t ts payload payload' before after} (first : r t payload payload')
      (others : Matched r ts before after) :
      Matched r (t :: ts) (some payload :: before) (some payload' :: after)

namespace Matched

variable {r : Ty Scalar → Bytes → Bytes → Prop} {ts : List (Ty Scalar)}
  {before after : List Segment}

theorem mono {r' : Ty Scalar → Bytes → Bytes → Prop} (h : Matched r ts before after)
    (step : ∀ t ∈ ts, ∀ a b, r t a b → r' t a b) : Matched r' ts before after := by
  induction h with
  | nil => exact .nil
  | null _ ih => exact .null (ih fun t ht => step t (List.mem_cons_of_mem _ ht))
  | payload first _ ih =>
      apply Matched.payload
      · exact step _ List.mem_cons_self _ _ first
      · exact ih fun t ht => step t (List.mem_cons_of_mem _ ht)

theorem length_le (h : Matched r ts before after) :
    before.length ≤ ts.length ∧ after.length ≤ ts.length := by
  induction h with
  | nil => exact ⟨Nat.zero_le _, Nat.zero_le _⟩
  | null _ ih | payload _ _ ih =>
      exact ⟨Nat.succ_le_succ ih.1, Nat.succ_le_succ ih.2⟩

theorem isEmpty_eq (h : Matched r ts before after) : before.isEmpty = after.isEmpty := by
  cases h <;> rfl

/-- Payloads of the same size leave the blob at its size, so the blob can be written again. -/
theorem exists_written (h : Matched (fun _ a b => a.length = b.length) ts before after)
    {blob : Bytes} (spelled : Spells ReadAsNull before blob) :
    ∃ canonical, Spells WrittenAsNull after canonical ∧ blob.length = canonical.length := by
  induction h generalizing blob with
  | nil =>
      cases spelled
      exact ⟨[], .nil, rfl⟩
  | null _ ih =>
      cases spelled with
      | cons first others =>
          obtain ⟨rest, written, same⟩ := ih others
          cases first
          refine ⟨_, .cons (.null rfl) written, ?_⟩
          simp only [List.length_append, length_toBytes, same]
  | payload size _ ih =>
      cases spelled with
      | cons first others =>
          obtain ⟨rest, written, same⟩ := ih others
          cases first with
          | payload fits =>
              refine ⟨_, .cons (.payload (size ▸ fits)) written, ?_⟩
              simp only [List.length_append, length_toBytes, same, size]

theorem aligned {p : Ty Scalar → Bytes → Prop}
    (h : Matched (fun t a b => p t a → p t b) ts before after) (all : Aligned p ts before) :
    Aligned p ts after := by
  induction h with
  | nil => exact .nil
  | null _ ih =>
      cases all with
      | null others => exact .null (ih others)
  | payload first _ ih =>
      cases all with
      | payload hpayload others => exact .payload (first hpayload) (ih others)

theorem rankLists_eq (h : Matched (fun t a b => t.rank a b = .eq) ts before after) :
    Ty.rankLists ts before after = .eq := by
  induction h with
  | nil => exact Std.ReflCmp.compare_self
  | null _ ih => simpa [Ty.rankLists, compareLex, Ty.rankSegments] using ih
  | payload first _ ih => simpa [Ty.rankLists, compareLex, Ty.rankSegments, first] using ih

theorem segments_eq {p : Ty Scalar → Bytes → Prop}
    (h : Matched (fun t a b => p t a → a = b) ts before after) (all : Aligned p ts before) :
    before = after := by
  induction h with
  | nil => rfl
  | null _ ih =>
      cases all with
      | null others => rw [ih others]
  | payload first _ ih =>
      cases all with
      | payload hpayload others => rw [first hpayload, ih others]

end Matched

namespace Ty

/-- The second bytes are the first with every null written by the one word for it. -/
inductive Canonizes : Ty Scalar → (before after : Bytes) → Prop
  | scalar {s bytes} : Canonizes (.scalar s) bytes bytes
  | tuple {ts segments segments' before after} (spelled : Spells ReadAsNull segments before)
      (written : Spells WrittenAsNull segments' after)
      (inside : Matched Canonizes ts segments segments') : Canonizes (.tuple ts) before after

/-- The only nulls are the one word that is written, in the tuples inside too. -/
def WrittenThroughout : Ty Scalar → Bytes → Prop :=
  Throughout fun _ blob => ∃ segments, Spells WrittenAsNull segments blob

namespace Canonizes

variable {t : Ty Scalar} {before after : Bytes}

theorem length_eq (h : Canonizes t before after) : before.length = after.length := by
  induction t generalizing before after with
  | scalar =>
      cases h
      rfl
  | tuple ts ih =>
      cases h with
      | tuple spelled written inside =>
          have sizes := inside.mono fun t ht _ _ => ih t ht
          obtain ⟨canonical, written', same⟩ := sizes.exists_written spelled
          rw [same, written.eq_of_written written']

theorem valid (h : Canonizes t before after) (valid : t.Valid before) : t.Valid after := by
  induction t generalizing before after with
  | scalar =>
      cases h
      exact valid
  | tuple ts ih =>
      cases h with
      | tuple spelled written inside =>
          obtain ⟨segments, spelled', aligned⟩ := valid_tuple_iff.mp valid
          obtain rfl := spelled.unique spelled'
          have kept := inside.mono fun t ht _ _ => ih t ht
          exact valid_tuple_iff.mpr ⟨_, written.readable, kept.aligned aligned⟩

theorem rank_eq (h : Canonizes t before after) : t.rank before after = .eq := by
  induction t generalizing before after with
  | scalar =>
      cases h
      exact Std.ReflCmp.compare_self
  | tuple ts ih =>
      cases h with
      | tuple spelled written inside =>
          have places := (inside.mono fun t ht _ _ => ih t ht).rankLists_eq
          obtain ⟨fewBefore, fewAfter⟩ := inside.length_le
          rw [rank_of_spells spelled written.readable fewBefore fewAfter, inside.isEmpty_eq, places,
            Std.compare_self]
          rfl

theorem begun (h : Canonizes t before after) (begun : t.BegunThroughout before) :
    t.BegunThroughout after := by
  induction t generalizing before after with
  | scalar => exact .scalar
  | tuple ts ih =>
      cases h with
      | tuple spelled written inside =>
          have payloads := inside.mono fun t ht _ _ => ih t ht
          refine .tuple (fun components => ?_) written.readable
            (payloads.aligned (begun.inside_of_spells spelled))
          rw [Ne, ← List.isEmpty_iff, written.isEmpty_eq, ← inside.isEmpty_eq,
            ← spelled.isEmpty_eq, List.isEmpty_iff]
          exact begun.here components

/-- Rewriting nulls does not move a value in the order. -/
theorem order_eq (h : Canonizes t before after) (valid : t.Valid before) :
    t.order before after = .ok .eq := by
  rw [order_eq_rank valid (h.valid valid), h.rank_eq]

theorem eq_of_written (h : Canonizes t before after) (written : WrittenThroughout t before) :
    before = after := by
  induction t generalizing before after with
  | scalar =>
      cases h
      rfl
  | tuple ts ih =>
      cases h with
      | tuple spelled spelled' inside =>
          obtain ⟨segments, already⟩ := written.here
          obtain rfl := spelled.unique already.readable
          have fixed := inside.mono fun t ht _ _ => ih t ht
          have same := fixed.segments_eq (written.inside_of_spells spelled)
          exact already.eq_of_written (same ▸ spelled')

end Canonizes

end Ty

end TupleBlob
