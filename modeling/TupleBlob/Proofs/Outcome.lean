/-! # Results that may be faults

A function that goes on from a result succeeds exactly where the result is no fault, and adds no
fault of its own where it only goes on by a function that cannot fail.
-/

namespace TupleBlob

variable {α β ε δ : Type} {x : Except ε α}

theorem map_eq_ok_iff {f : α → β} {b : β} : x.map f = .ok b ↔ ∃ a, x = .ok a ∧ f a = b := by
  cases x <;> simp [Except.map]

theorem bind_eq_ok_iff {f : α → Except ε β} {b : β} :
    x.bind f = .ok b ↔ ∃ a, x = .ok a ∧ f a = .ok b := by
  cases x <;> simp [Except.bind]

theorem mapError_eq_ok_iff {f : ε → δ} {a : α} : x.mapError f = .ok a ↔ x = .ok a := by
  cases x with
  | error =>
      constructor
      · intro h
        cases h
      · intro h
        cases h
  | ok =>
      constructor
      · intro h
        cases h
        rfl
      · intro h
        cases h
        rfl

theorem toOption_map (x : Except ε α) (f : α → β) : (x.map f).toOption = x.toOption.map f := by
  cases x <;> rfl

theorem toOption_bind (x : Except ε α) (f : α → Except ε β) :
    (x.bind f).toOption = x.toOption.bind fun a => (f a).toOption := by
  cases x <;> rfl

/-- The result is a fault among `p`, if it is one. -/
def FailsOnly (p : ε → Prop) (x : Except ε α) : Prop := ∀ fault, x = .error fault → p fault

namespace FailsOnly

variable {p : ε → Prop}

theorem ok (a : α) : FailsOnly p (.ok a : Except ε α) := nofun

theorem error {fault : ε} (h : p fault) : FailsOnly p (.error fault : Except ε α) := by
  intro _ same
  cases same
  exact h

theorem map {f : α → β} (h : FailsOnly p x) : FailsOnly p (x.map f) := by
  cases x with
  | ok a => exact ok (f a)
  | error fault => exact error (h fault rfl)

theorem ok_or_error (h : FailsOnly p x) :
    (∃ a, x = .ok a) ∨ ∃ fault, x = .error fault ∧ p fault := by
  cases x with
  | ok a => exact .inl ⟨a, rfl⟩
  | error fault => exact .inr ⟨fault, rfl, h fault rfl⟩

end FailsOnly

/-- What a list of results comes to: all that was found where none of them is a fault, and otherwise
the first fault. -/
inductive Collects : List (Except ε α) → Except ε (List α) → Prop
  | all (values : List α) : Collects (values.map .ok) (.ok values)
  | first (front : List α) (fault : ε) (rest : List (Except ε α)) :
      Collects (front.map .ok ++ .error fault :: rest) (.error fault)

namespace Collects

variable {results : List (Except ε α)} {found : Except ε (List α)}

theorem cons (a : α) (others : Collects results found) :
    Collects (.ok a :: results) (found.map (a :: ·)) := by
  cases others with
  | all values => exact .all (a :: values)
  | first front fault rest => exact .first (a :: front) fault rest

theorem map_ok_eq {values : List α} (h : Collects results (.ok values)) :
    values.map .ok = results := by
  cases h
  rfl

theorem length_eq {values : List α} (h : Collects results (.ok values)) :
    values.length = results.length := by
  rw [← h.map_ok_eq, List.length_map]

/-- There is no fault to report exactly where none of the results is one. -/
theorem exists_ok_iff (h : Collects results found) :
    (∃ values, found = .ok values) ↔ ∀ result ∈ results, ∃ value, result = .ok value := by
  cases h with
  | all values => simp
  | first front fault rest =>
      constructor
      · intro ⟨values, read⟩
        cases read
      · intro all
        obtain ⟨value, read⟩ := all (.error fault) (by simp)
        cases read

/-- Two lists are read place by place, up to where one of them ends. -/
theorem zipWith {ι κ : Type} {read : ι → κ → Except ε α}
    {readAll : List ι → List κ → Except ε (List α)} (noneLeft : ∀ ks, readAll [] ks = .ok [])
    (noneRight : ∀ is, readAll is [] = .ok [])
    (more : ∀ i is k ks, readAll (i :: is) (k :: ks) =
      (read i k).bind fun a => (readAll is ks).map (a :: ·)) (is : List ι) (ks : List κ) :
    Collects (List.zipWith read is ks) (readAll is ks) := by
  induction is generalizing ks with
  | nil =>
      rw [noneLeft, List.zipWith_nil_left]
      exact .all []
  | cons i is ih =>
      cases ks with
      | nil =>
          rw [noneRight, List.zipWith_nil_right]
          exact .all []
      | cons k ks =>
          rw [more, List.zipWith_cons_cons]
          cases read i k with
          | error fault => exact .first [] fault _
          | ok a => exact (ih ks).cons a

end Collects

end TupleBlob
