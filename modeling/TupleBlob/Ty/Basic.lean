import TupleBlob.Fault

/-! # Types of values

A type is a scalar or a tuple of types. Which scalars there are is left open: `ScalarType` tells
what they have to offer. A tuple holds frozen types only: `tupleOf` freezes what it is given, and it
is the way to build one. A type is known by its kind and its name, so two types are the same when
both agree, and a type occurs in another when one that is the same does.
-/

namespace TupleBlob

/-- What types without components have to offer. Their values are the bytes of single payloads. -/
class ScalarType (S : Type) where
  name : S → String
  /-- Types of one kind differ by their names only. -/
  sameKind : (s s' : S) → Bool
  /-- The form that a tuple may hold. -/
  freeze : S → S
  isMultiCell : S → Bool
  order : S → (left right : Bytes) → Except Fault Ordering
  validate : S → Bytes → Except Fault Unit
  toText : S → Bytes → Except Fault String
  ofText : S → String → Except Fault Bytes
  toJson : S → Bytes → Except Fault Json
  ofJson : S → Json → Except Fault Bytes

/-- A type. The components of a tuple are frozen in every type that `tupleOf` builds. -/
inductive Ty (S : Type)
  | scalar (s : S)
  | tuple (components : List (Ty S))
deriving Repr

namespace Ty

variable {S : Type}

/-- Induction on types, where a tuple has the hypothesis for each of its components. -/
@[elab_as_elim, induction_eliminator]
theorem rec_components {motive : Ty S → Prop} (scalar : ∀ s, motive (.scalar s))
    (tuple : ∀ ts, (∀ t ∈ ts, motive t) → motive (.tuple ts)) (t : Ty S) : motive t :=
  match t with
  | .scalar s => scalar s
  | .tuple ts => tuple ts fun t _ => rec_components scalar tuple t

def components : Ty S → List (Ty S)
  | .scalar _ => []
  | .tuple ts => ts

mutual

def decEq [DecidableEq S] : (a b : Ty S) → Decidable (a = b)
  | .scalar a, .scalar b =>
    if h : a = b then .isTrue (by rw [h]) else .isFalse (by simpa using h)
  | .tuple a, .tuple b =>
    match decEqList a b with
    | .isTrue h => .isTrue (by rw [h])
    | .isFalse h => .isFalse (by simpa using h)
  | .scalar _, .tuple _ | .tuple _, .scalar _ => .isFalse (by simp)

def decEqList [DecidableEq S] : (as bs : List (Ty S)) → Decidable (as = bs)
  | [], [] => .isTrue rfl
  | [], _ :: _ | _ :: _, [] => .isFalse (by simp)
  | a :: as, b :: bs =>
    match decEq a b, decEqList as bs with
    | .isTrue h, .isTrue hs => .isTrue (by rw [h, hs])
    | .isFalse h, _ => .isFalse (by simp [h])
    | _, .isFalse hs => .isFalse (by simp [hs])

end

instance [DecidableEq S] : DecidableEq (Ty S) := decEq

variable [ScalarType S]

/-- The form of a type that a tuple may hold. A tuple is its own. -/
def freeze : Ty S → Ty S
  | .scalar s => .scalar (ScalarType.freeze s)
  | .tuple ts => .tuple ts

/-- The tuple of the frozen forms of some types. -/
def tupleOf (components : List (Ty S)) : Ty S :=
  .tuple (components.map freeze)

def isMultiCell : Ty S → Bool
  | .scalar s => ScalarType.isMultiCell s
  | .tuple _ => false

mutual

def name : Ty S → String
  | .scalar s => ScalarType.name s
  | .tuple ts => "TupleType(" ++ nameList ts ++ ")"

def nameList : List (Ty S) → String
  | [] => ""
  | [t] => t.name
  | t :: next :: rest => t.name ++ "," ++ nameList (next :: rest)

end

instance : ToString (Ty S) := ⟨name⟩

/-- All tuples are of one kind. -/
def sameKind : (a b : Ty S) → Bool
  | .scalar a, .scalar b => ScalarType.sameKind a b
  | .tuple _, .tuple _ => true
  | _, _ => false

/-- Two types are the same when they are of one kind and have the same name. -/
def same (a b : Ty S) : Bool :=
  sameKind a b && a.name == b.name

/-- Whether two lists of types agree place by place, and in length. -/
def sameAll : List (Ty S) → List (Ty S) → Bool
  | [], [] => true
  | a :: as, b :: bs => a.same b && sameAll as bs
  | _, _ => false

/-- What a tuple is hashed by: its arity and the names of its components. -/
def fingerprint (t : Ty S) : Nat × List String :=
  (t.components.length, t.components.map name)

mutual

/-- Whether `target` is the type itself or stands anywhere inside it. -/
def references : (t target : Ty S) → Bool
  | .scalar s, target => (Ty.scalar s).same target
  | .tuple ts, target => (Ty.tuple ts).same target || anyReferences ts target

def anyReferences : (ts : List (Ty S)) → (target : Ty S) → Bool
  | [], _ => false
  | t :: ts, target => t.references target || anyReferences ts target

end

end Ty

end TupleBlob
