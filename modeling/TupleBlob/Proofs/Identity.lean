import TupleBlob.Proofs.Text.Utf8
import TupleBlob.Scalar

/-! # Types known by their names

The components of a tuple stand between brackets in its name, with a comma between each two, and no
name goes on where another one ends. So the name of a type can be split off the front of any text,
and tells the type. Main statement: to have one name, to be equal component by component and to
feed a hasher alike are all the same as being one type, for tuples of any nesting.
-/

namespace TupleBlob

theorem append_endMark_inj {β : Type} {mark : β} {front front' rest rest' : List β}
    (unused : mark ∉ front) (unused' : mark ∉ front')
    (same : front ++ mark :: rest = front' ++ mark :: rest') : front = front' ∧ rest = rest' := by
  induction front generalizing front' with
  | nil =>
      cases front' with
      | nil => exact ⟨rfl, List.tail_eq_of_cons_eq same⟩
      | cons c front' =>
          rw [List.head_eq_of_cons_eq same] at unused'
          exact absurd List.mem_cons_self unused'
  | cons c front ih =>
      cases front' with
      | nil =>
          rw [List.head_eq_of_cons_eq same] at unused
          exact absurd List.mem_cons_self unused
      | cons c' front' =>
          obtain ⟨rfl, others⟩ := List.cons_eq_cons.mp same
          obtain ⟨fronts, rests⟩ := ih (fun h => unused (List.mem_cons_of_mem _ h))
            (fun h => unused' (List.mem_cons_of_mem _ h)) others
          exact ⟨by rw [fronts], rests⟩

/-- What is written of a value can be split off the front of any list, and tells the value. -/
def PrefixFree {α β : Type} (f : α → List β) : Prop :=
  ∀ a b rest rest', f a ++ rest = f b ++ rest' → a = b ∧ rest = rest'

namespace PrefixFree

variable {α β : Type} {f : α → List β}

/-- Of two fronts of one list, the shorter one is a front of the longer one. -/
theorem of_isPrefix (apart : ∀ a b, f a <+: f b → a = b) : PrefixFree f := by
  intro a b rest rest' same
  have ofLeft : f a <+: f a ++ rest := List.prefix_append _ _
  have ofRight : f b <+: f a ++ rest := same ▸ List.prefix_append _ _
  have one : a = b := by
    rcases Nat.le_total (f a).length (f b).length with shorter | longer
    · exact apart a b (List.prefix_of_prefix_length_le ofLeft ofRight shorter)
    · exact (apart b a (List.prefix_of_prefix_length_le ofRight ofLeft longer)).symm
  subst one
  exact ⟨rfl, List.append_cancel_left same⟩

theorem injective (free : PrefixFree f) : Function.Injective f := by
  intro a b same
  have whole : f a ++ [] = f b ++ [] := by rw [same]
  exact (free a b [] [] whole).1

/-- Where there are two values to tell apart, none of them is written as the empty list. -/
theorem ne_nil (free : PrefixFree f) {a b : α} (differ : a ≠ b) (c : α) : f c ≠ [] := by
  intro empty
  have only (d : α) : c = d := by
    have front : f c ++ f d = f d ++ [] := by rw [empty, List.nil_append, List.append_nil]
    exact (free c d (f d) [] front).1
  exact differ ((only a).symm.trans (only b))

theorem flatMap_injective (free : PrefixFree f) (visible : ∀ a, f a ≠ []) :
    Function.Injective (List.flatMap f) := by
  intro as bs same
  induction as generalizing bs with
  | nil =>
      cases bs with
      | nil => rfl
      | cons b bs => exact absurd (List.append_eq_nil_iff.mp same.symm).1 (visible b)
  | cons a as ih =>
      cases bs with
      | nil => exact absurd (List.append_eq_nil_iff.mp same).1 (visible a)
      | cons b bs =>
          obtain ⟨rfl, others⟩ := free a b _ _ same
          rw [ih others]

/-- An end mark that is written nowhere else lets anything before it be split off. -/
theorem of_endMark {mark : β} (distinct : Function.Injective f) (unused : ∀ a, mark ∉ f a) :
    PrefixFree fun a => f a ++ [mark] := by
  intro a b rest rest' same
  rw [List.append_assoc, List.append_assoc] at same
  obtain ⟨fronts, rests⟩ := append_endMark_inj (unused a) (unused b) same
  exact ⟨distinct fronts, rests⟩

end PrefixFree

namespace Ty

variable {ts us : List (Ty Scalar)}

/-! ## Names -/

theorem prefixFree_scalar_name : PrefixFree fun s : Scalar => s.name.toList := by
  apply PrefixFree.of_isPrefix
  intro s s' front
  rcases s with _ | _ | _ | _ | (_ | _) <;> rcases s' with _ | _ | _ | _ | (_ | _) <;>
    first | rfl | exact absurd front (by decide)

theorem exists_scalar_name_cons (s : Scalar) :
    ∃ c rest, s.name.toList = c :: rest ∧ c ≠ 'T' ∧ c ≠ ')' := by
  rcases s with _ | _ | _ | _ | (_ | _) <;> exact ⟨_, _, rfl, by decide, by decide⟩

theorem toList_name_tuple (ts : List (Ty Scalar)) (rest : List Char) :
    (Ty.tuple ts).name.toList ++ rest =
      "TupleType(".toList ++ ((nameList ts).toList ++ ')' :: rest) := by
  simp [name]

theorem exists_name_cons (t : Ty Scalar) : ∃ c rest, t.name.toList = c :: rest ∧ c ≠ ')' := by
  cases t with
  | scalar s =>
      obtain ⟨c, rest, shape, -, plain⟩ := exists_scalar_name_cons s
      exact ⟨c, rest, by rw [name, ScalarType.name_eq, shape], plain⟩
  | tuple ts =>
      have shape := toList_name_tuple ts []
      rw [List.append_nil] at shape
      exact ⟨'T', _, shape, by decide⟩

/-- What stands behind the name of one component: the other components, and then the bracket. -/
def behindComponent (rest : List Char) : List (Ty Scalar) → List Char
  | [] => ')' :: rest
  | others => ',' :: ((nameList others).toList ++ ')' :: rest)

theorem toList_nameList_cons (t : Ty Scalar) (ts : List (Ty Scalar)) (rest : List Char) :
    (nameList (t :: ts)).toList ++ ')' :: rest = t.name.toList ++ behindComponent rest ts := by
  cases ts with
  | nil => rw [nameList, behindComponent]
  | cons next ts => simp [nameList, behindComponent]

/-- The names of components are told apart up to the bracket behind them, if each name is. -/
theorem nameList_append_inj
    (free : ∀ t ∈ ts, ∀ u rest rest', t.name.toList ++ rest = u.name.toList ++ rest' →
      t = u ∧ rest = rest')
    {rest rest' : List Char}
    (same : (nameList ts).toList ++ ')' :: rest = (nameList us).toList ++ ')' :: rest') :
    ts = us ∧ rest = rest' := by
  have opens (t : Ty Scalar) (others last : List Char) : t.name.toList ++ others ≠ ')' :: last := by
    obtain ⟨c, more, shape, plain⟩ := exists_name_cons t
    rw [shape]
    exact fun same => plain (List.head_eq_of_cons_eq same)
  induction ts generalizing us with
  | nil =>
      cases us with
      | nil => exact ⟨rfl, List.tail_eq_of_cons_eq same⟩
      | cons u us =>
          rw [toList_nameList_cons] at same
          exact absurd same.symm (opens u _ rest)
  | cons t ts ih =>
      obtain ⟨first, later⟩ := List.forall_mem_cons.mp free
      cases us with
      | nil =>
          rw [toList_nameList_cons] at same
          exact absurd same (opens t _ rest')
      | cons u us =>
          rw [toList_nameList_cons, toList_nameList_cons] at same
          obtain ⟨rfl, behind⟩ := first u _ _ same
          cases ts with
          | nil =>
              cases us with
              | nil => exact ⟨rfl, List.tail_eq_of_cons_eq behind⟩
              | cons => exact absurd (List.head_eq_of_cons_eq behind) (by decide)
          | cons =>
              cases us with
              | nil => exact absurd (List.head_eq_of_cons_eq behind) (by decide)
              | cons =>
                  obtain ⟨others, rests⟩ := ih later (List.tail_eq_of_cons_eq behind)
                  exact ⟨by rw [others], rests⟩

theorem prefixFree_name : PrefixFree fun t : Ty Scalar => t.name.toList := by
  have differ (s : Scalar) (us : List (Ty Scalar)) (rest rest' : List Char) :
      (Ty.scalar s).name.toList ++ rest ≠ (Ty.tuple us).name.toList ++ rest' := by
    obtain ⟨c, more, shape, plain, -⟩ := exists_scalar_name_cons s
    rw [toList_name_tuple, name, ScalarType.name_eq, shape]
    exact fun same => plain (List.head_eq_of_cons_eq same)
  intro t
  induction t with
  | scalar s =>
      intro u rest rest' same
      cases u with
      | scalar s' =>
          simp only [name] at same
          obtain ⟨rfl, rests⟩ := prefixFree_scalar_name s s' rest rest' same
          exact ⟨rfl, rests⟩
      | tuple us => exact absurd same (differ s us rest rest')
  | tuple ts ih =>
      intro u rest rest' same
      cases u with
      | scalar s' => exact absurd same.symm (differ s' ts rest' rest)
      | tuple us =>
          simp only [toList_name_tuple] at same
          obtain ⟨rfl, rests⟩ := nameList_append_inj ih (List.append_cancel_left same)
          exact ⟨rfl, rests⟩

/-- Types of one name are one type. -/
theorem name_injective : Function.Injective (name : Ty Scalar → String) := by
  intro a b same
  exact prefixFree_name.injective (congrArg String.toList same)

/-! ## Equality and hashing -/

theorem sameKind_refl (t : Ty Scalar) : t.sameKind t := by
  rcases t with (_ | _ | _ | _ | _) | _ <;> rfl

theorem same_iff {a b : Ty Scalar} : a.same b ↔ a = b := by
  rw [same, Bool.and_eq_true, beq_iff_eq, name_injective.eq_iff]
  constructor
  · intro h
    exact h.2
  · intro h
    exact ⟨h ▸ sameKind_refl a, h⟩

theorem sameAll_iff : sameAll ts us ↔ ts = us := by
  induction ts generalizing us with
  | nil => cases us <;> simp [sameAll]
  | cons t ts ih => cases us <;> simp [sameAll, same_iff, ih]

/-- The bytes that a hasher is fed for a tuple: its arity, written by `word`, and the names of its
components, each written by `text`. -/
def fed (word : Nat → Bytes) (text : String → Bytes) (t : Ty Scalar) : Bytes :=
  word t.fingerprint.1 ++ t.fingerprint.2.flatMap text

theorem fed_tuple_inj {word : Nat → Bytes} {text : String → Bytes}
    (even : ∀ m n, (word m).length = (word n).length) (free : PrefixFree text)
    (alike : (Ty.tuple ts).fed word text = (Ty.tuple us).fed word text) : ts = us := by
  have visible : ∀ s, text s ≠ [] := free.ne_nil (show "" ≠ "a" by decide)
  obtain ⟨-, names⟩ := List.append_inj alike (even _ _)
  have listed : ts.map name = us.map name := free.flatMap_injective visible names
  exact List.map_injective_iff.mpr name_injective listed

/-- Types have the same name exactly when they are one type, and so do tuples when their components
are once these are frozen. To be the same, to be equal component by component and to feed a hasher
alike, which is given words of one width and texts that can be split off, all come to this. -/
theorem name_tells_type {word : Nat → Bytes} {text : String → Bytes}
    (even : ∀ m n, (word m).length = (word n).length) (free : PrefixFree text) :
    (∀ a b : Ty Scalar, a.name = b.name ↔ a = b) ∧
    (∀ ts us : List (Ty Scalar),
      (tupleOf ts).name = (tupleOf us).name ↔ ts.map freeze = us.map freeze) ∧
    (∀ a b : Ty Scalar, a.same b ↔ a = b) ∧
    (∀ ts us : List (Ty Scalar), (Ty.tuple ts).same (.tuple us) = sameAll ts us) ∧
    Equivalence (fun ts us : List (Ty Scalar) => sameAll ts us) ∧
    ∀ ts us : List (Ty Scalar),
      (Ty.tuple ts).fed word text = (Ty.tuple us).fed word text ↔ sameAll ts us := by
  refine ⟨fun a b => name_injective.eq_iff, ?_, fun a b => same_iff, ?_, ?_, ?_⟩
  · intro ts us
    rw [name_injective.eq_iff, tupleOf, tupleOf, Ty.tuple.injEq]
  · intro ts us
    rw [Bool.eq_iff_iff, same_iff, sameAll_iff, Ty.tuple.injEq]
  · simp only [sameAll_iff]
    exact eq_equivalence
  · intro ts us
    rw [sameAll_iff]
    constructor
    · exact fed_tuple_inj even free
    · rintro rfl
      rfl

/-! ### A way of feeding

A word goes in as eight bytes, a text as its encoding and a byte that no character is encoded with.
-/

def eightBytes (n : Nat) : Bytes := (List.range 8).map fun i => .ofNat (n / 256 ^ i)

def endMarked (text : String) : Bytes := Utf8.encode text ++ [0xFF]

theorem prefixFree_endMarked : PrefixFree endMarked := by
  apply PrefixFree.of_endMark
  · intro a b same
    have read := Utf8.decode_encode a
    rw [same, Utf8.decode_encode b] at read
    exact (Except.ok.inj read).symm
  · exact fun text => Utf8.notMem_encode text

/-- Components regrouped between two levels make another type, and are fed differently. -/
theorem name_tells_type_regrouped :
    (Ty.tuple [.tuple [.scalar Scalar.int32], .scalar .utf8]).name ≠
      (Ty.tuple [.tuple [.scalar Scalar.int32, .scalar .utf8]]).name ∧
    (Ty.tuple [.tuple [.scalar Scalar.int32], .scalar .utf8]).fed eightBytes endMarked ≠
      (Ty.tuple [.tuple [.scalar Scalar.int32, .scalar .utf8]]).fed eightBytes endMarked := by
  have even (m n : Nat) : (eightBytes m).length = (eightBytes n).length := by simp [eightBytes]
  obtain ⟨names, -, -, -, -, feeds⟩ := name_tells_type even prefixFree_endMarked
  constructor
  · rw [Ne, names]
    decide
  · rw [Ne, feeds, sameAll_iff]
    decide

end Ty

end TupleBlob
