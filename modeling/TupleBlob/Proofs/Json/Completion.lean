import TupleBlob.Proofs.Order.Rank
import TupleBlob.Ty.Json

/-! # Completed values

A value may stop before the last component of its type. It is completed by nulls for the
components that it does not reach, in the tuples inside it too, and every null becomes the one
word that is written. Main statements: a completed value is valid if the value was, has the same
JSON form, and has the same place in the order unless a tuple with components was empty.
-/

namespace TupleBlob

open LengthWord

/-- The second list has a segment for every type. It is a payload in the relation `r` to the first
list's where that has one, and a null where the first list has a null or has ended. -/
inductive Completed (r : Ty Scalar → Bytes → Bytes → Prop) :
    List (Ty Scalar) → (before after : List Segment) → Prop
  | nil : Completed r [] [] []
  | absent {t ts after} (others : Completed r ts [] after) :
      Completed r (t :: ts) [] (none :: after)
  | null {t ts before after} (others : Completed r ts before after) :
      Completed r (t :: ts) (none :: before) (none :: after)
  | payload {t ts payload payload' before after} (first : r t payload payload')
      (others : Completed r ts before after) :
      Completed r (t :: ts) (some payload :: before) (some payload' :: after)

namespace Completed

variable {r : Ty Scalar → Bytes → Bytes → Prop} {ts : List (Ty Scalar)}
  {before after : List Segment}

theorem mono {r' : Ty Scalar → Bytes → Bytes → Prop} (h : Completed r ts before after)
    (step : ∀ t ∈ ts, ∀ a b, r t a b → r' t a b) : Completed r' ts before after := by
  induction h with
  | nil => exact .nil
  | absent _ ih => exact .absent (ih fun t ht => step t (List.mem_cons_of_mem _ ht))
  | null _ ih => exact .null (ih fun t ht => step t (List.mem_cons_of_mem _ ht))
  | payload first _ ih =>
      apply Completed.payload
      · exact step _ List.mem_cons_self _ _ first
      · exact ih fun t ht => step t (List.mem_cons_of_mem _ ht)

theorem length_le (h : Completed r ts before after) : before.length ≤ ts.length := by
  induction h with
  | nil | absent => exact Nat.zero_le _
  | null _ ih | payload _ _ ih => exact Nat.succ_le_succ ih

theorem length_eq (h : Completed r ts before after) : after.length = ts.length := by
  induction h with
  | nil => rfl
  | absent _ ih | null _ ih | payload _ _ ih => rw [List.length_cons, ih, List.length_cons]

/-- What holds of the payloads before may be used of them. -/
theorem of_aligned {p : Ty Scalar → Bytes → Prop}
    (h : Completed (fun t a b => p t a → r t a b) ts before after) (all : Aligned p ts before) :
    Completed r ts before after := by
  induction h with
  | nil => exact .nil
  | absent _ ih => exact .absent (ih .nil)
  | null _ ih =>
      cases all with
      | null others => exact .null (ih others)
  | payload first _ ih =>
      cases all with
      | payload hpayload others => exact .payload (first hpayload) (ih others)

theorem aligned {p : Ty Scalar → Bytes → Prop}
    (h : Completed (fun t _ b => p t b) ts before after) : Aligned p ts after := by
  induction h with
  | nil => exact .nil
  | absent _ ih | null _ ih => exact .null ih
  | payload first _ ih => exact .payload first ih

theorem rankLists_eq (h : Completed (fun t a b => t.rank a b = .eq) ts before after) :
    Ty.rankLists ts before after = .eq := by
  induction h with
  | nil => exact Std.ReflCmp.compare_self
  | absent _ ih | null _ ih => simpa [Ty.rankLists, compareLex, Ty.rankSegments] using ih
  | payload first _ ih => simpa [Ty.rankLists, compareLex, Ty.rankSegments, first] using ih

theorem itemsOf_eq (h : Completed (fun t a b => t.toJson a = t.toJson b) ts before after) :
    Ty.itemsOf ts before = Ty.itemsOf ts after := by
  induction h with
  | nil => rfl
  | absent _ ih | null _ ih => rw [Ty.itemsOf, Ty.itemsOf, ih]
  | payload first _ ih => rw [Ty.itemsOf, Ty.itemsOf, first, ih]

/-- Every payload after comes from one before, at the same place. -/
theorem getElem?_payload (h : Completed r ts before after) {i : Nat} {payload' : Bytes}
    (present : after[i]? = some (some payload')) :
    ∃ t payload, ts[i]? = some t ∧ before[i]? = some (some payload) ∧ r t payload payload' := by
  induction h generalizing i with
  | nil => cases present
  | absent _ ih =>
      cases i with
      | zero => cases present
      | succ i =>
          obtain ⟨t, payload, -, inside, -⟩ := ih present
          cases inside
  | null _ ih =>
      cases i with
      | zero => cases present
      | succ i => exact ih present
  | payload first _ ih =>
      cases i with
      | zero =>
          cases present
          exact ⟨_, _, rfl, rfl, first⟩
      | succ i => exact ih present

end Completed

namespace Ty

/-- The second bytes are the first with nulls for the components that are not reached, in the
tuples inside too, and with every null written by the one word for it. -/
inductive Completes : Ty Scalar → (before after : Bytes) → Prop
  | scalar {s bytes} : Completes (.scalar s) bytes bytes
  | tuple {ts segments segments' before after} (spelled : Spells ReadAsNull segments before)
      (written : Spells WrittenAsNull segments' after)
      (inside : Completed Completes ts segments segments') : Completes (.tuple ts) before after

namespace Completes

variable {t : Ty Scalar} {before after : Bytes}

theorem valid (h : Completes t before after) (valid : t.Valid before) : t.Valid after := by
  induction t generalizing before after with
  | scalar =>
      cases h
      exact valid
  | tuple ts ih =>
      cases h with
      | tuple spelled written inside =>
          obtain ⟨segments, spelled', aligned⟩ := valid_tuple_iff.mp valid
          obtain rfl := spelled.unique spelled'
          have kept := inside.mono fun t ht _ _ => ih t ht
          exact valid_tuple_iff.mpr ⟨_, written.readable, (kept.of_aligned aligned).aligned⟩

/-- A completed tuple has a segment for each component, so it is empty only without any. -/
theorem begun (h : Completes t before after) : t.BegunThroughout after := by
  induction t generalizing before after with
  | scalar => exact .scalar
  | tuple ts ih =>
      cases h with
      | tuple spelled written inside =>
          have payloads := inside.mono fun t ht _ _ => ih t ht
          refine .tuple ?_ written.readable payloads.aligned
          intro components empty
          have size := inside.length_eq
          rw [written.eq_nil_iff.mp empty, List.length_nil, eq_comm,
            List.length_eq_zero_iff] at size
          exact components size

theorem toJson_eq (h : Completes t before after) : t.toJson before = t.toJson after := by
  induction t generalizing before after with
  | scalar =>
      cases h
      rfl
  | tuple ts ih =>
      cases h with
      | tuple spelled written inside =>
          have items := (inside.mono fun t ht _ _ => ih t ht).itemsOf_eq
          rw [toJson, toJson, spelled.split_eq inside.length_le,
            written.readable.split_eq (Nat.le_of_eq inside.length_eq)]
          simp only [items]

theorem rank_eq (h : Completes t before after) (begun : t.BegunThroughout before) :
    t.rank before after = .eq := by
  induction t generalizing before after with
  | scalar =>
      cases h
      exact Std.ReflCmp.compare_self
  | tuple ts ih =>
      have empty := isEmpty_eq_of_begun begun h.begun
      cases h with
      | tuple spelled written inside =>
          have payloads := inside.mono fun t ht _ _ => ih t ht
          have places := (payloads.of_aligned (begun.inside_of_spells spelled)).rankLists_eq
          rw [rank_of_spells spelled written.readable inside.length_le
              (Nat.le_of_eq inside.length_eq),
            ← spelled.isEmpty_eq, ← written.isEmpty_eq, empty, places, Std.compare_self]
          rfl

/-- Completing a value does not move it in the order. -/
theorem order_eq (h : Completes t before after) (valid : t.Valid before)
    (begun : t.BegunThroughout before) : t.order before after = .ok .eq := by
  rw [order_eq_rank valid (h.valid valid), h.rank_eq begun]

end Completes

/-- A tuple inside the value, at the given index of the tuple around it, has the given size once it
is completed, and that is too large for a length word. -/
inductive Outgrows : Ty Scalar → Bytes → (index size : Nat) → Prop
  | here {ts us segments blob index payload after} (spelled : Spells ReadAsNull segments blob)
      (place : ts[index]? = some (.tuple us)) (present : segments[index]? = some (some payload))
      (completes : Completes (.tuple us) payload after) (large : maxPayload < after.length) :
      Outgrows (.tuple ts) blob index after.length
  | inside {ts t segments blob payload index size} {i : Nat}
      (spelled : Spells ReadAsNull segments blob) (place : ts[i]? = some t)
      (present : segments[i]? = some (some payload)) (deeper : Outgrows t payload index size) :
      Outgrows (.tuple ts) blob index size

end Ty

end TupleBlob
