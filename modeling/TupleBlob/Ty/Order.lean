import TupleBlob.Reader
import TupleBlob.Ty.Basic

/-! # Valid values and their order

A tuple is valid when it is at most as many whole segments as the type has components, and every
payload is valid for the type at its place. The first fault from the left is reported, with the
components that lead to it.

Two tuples are ordered by their components, the first being the most significant. A null comes
before any payload and equals a null; payloads are ordered by their type. Where one blob ends
first, the other comes after it unless only nulls are left. The empty blob comes before every other
blob, also one of nulls. Nothing behind the component that decides is looked at.
-/

namespace TupleBlob

variable {S : Type}

/-! ## Failures of validation -/

/-- A step from a tuple type into one of its components. -/
inductive Step (S : Type)
  /-- The component's segment could not be read. -/
  | malformed (index : Nat) (type : Ty S)
  /-- The component's own type refused its payload. -/
  | invalid (index : Nat) (type : Ty S)
deriving DecidableEq, Repr

def Step.message [ScalarType S] : Step S → String
  | malformed index type => s!"Malformed component {index} of {type.name}"
  | invalid index type => s!"Invalid component {index} of {type.name}"

/-- A fault and the steps that lead to it, the outermost first. -/
structure Failure (S : Type) where
  path : List (Step S)
  fault : Fault
deriving DecidableEq, Repr

namespace Failure

/-- A fault where no step was taken. -/
def ofFault (fault : Fault) : Failure S := ⟨[], fault⟩

/-- The same failure, seen from one step further out. -/
def below (step : Step S) (failure : Failure S) : Failure S :=
  ⟨step :: failure.path, failure.fault⟩

def message [ScalarType S] (failure : Failure S) : String :=
  String.intercalate ": " (failure.path.map Step.message ++ [failure.fault.message])

end Failure

namespace Ty

variable [ScalarType S]

/-! ## Validity -/

mutual

def validate : Ty S → Bytes → Except (Failure S) Unit
  | .scalar s, bytes => (ScalarType.validate s bytes).mapError .ofFault
  | .tuple ts, blob => validateFrom (.tuple ts) 0 ts (Reader.start blob)

/-- Checks the components of `whole` from the one with the given index on. -/
def validateFrom (whole : Ty S) (index : Nat) : List (Ty S) → Reader → Except (Failure S) Unit
  | [], r => if r.hasRemaining then .error (.ofFault (.trailingData r.remaining)) else .ok ()
  | t :: ts, r =>
    match r.readSegment with
    | (.error fault, _) => .error ((Failure.ofFault fault).below (.malformed index whole))
    | (.ok .atEnd, _) => .ok ()
    | (.ok (.item _ none), r) => validateFrom whole (index + 1) ts r
    | (.ok (.item _ (some payload)), r) =>
      match t.validate payload with
      | .error failure => .error (failure.below (.invalid index whole))
      | .ok () => validateFrom whole (index + 1) ts r

end

/-! ## Order -/

/-- Decides where no component is left to look at: by the rest of the left blob if it has one, else
by the rest of the right blob. -/
def orderRest (left right : Reader) : Except Fault Ordering :=
  match left.hasRemaining, right.hasRemaining with
  | false, false => .ok .eq
  | false, true => right.skipNulls.1.map fun nulls => if nulls then .eq else .lt
  | true, _ => left.skipNulls.1.map fun nulls => if nulls then .eq else .gt

mutual

def order : Ty S → Bytes → Bytes → Except Fault Ordering
  | .scalar s, left, right => ScalarType.order s left right
  | .tuple ts, left, right =>
    match left, right with
    | [], [] => .ok .eq
    | [], _ :: _ => .ok .lt
    | _ :: _, [] => .ok .gt
    | _ :: _, _ :: _ => orderFrom ts (Reader.start left) (Reader.start right)

/-- Orders two blobs from where the readers stand, by components of the given types. Both length
words are read before either payload, and the left blob always goes first. -/
def orderFrom : List (Ty S) → Reader → Reader → Except Fault Ordering
  | [], left, right => orderRest left right
  | t :: ts, left, right =>
    match left.readLength, right.readLength with
    | (.ok .atEnd, _), _ => orderRest left right
    | _, (.ok .atEnd, _) => orderRest left right
    | (.error fault, _), _ => .error fault
    | _, (.error fault, _) => .error fault
    | (.ok (.item _ leftWord), left), (.ok (.item _ rightWord), right) =>
      match leftWord.payloadSize?, rightWord.payloadSize? with
      | none, none => orderFrom ts left right
      | none, some _ => .ok .lt
      | some _, none => .ok .gt
      | some leftSize, some rightSize =>
        match left.readBytes leftSize, right.readBytes rightSize with
        | (.error fault, _), _ => .error fault
        | _, (.error fault, _) => .error fault
        | (.ok leftPayload, left), (.ok rightPayload, right) =>
          match t.order leftPayload rightPayload with
          | .ok .eq => orderFrom ts left right
          | decided => decided

end

end Ty

end TupleBlob
