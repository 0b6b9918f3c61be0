import TupleBlob.Reader
import TupleBlob.Sink
import TupleBlob.Ty.Basic

/-! # Values as JSON

A tuple is an array with one item for each component of its type, null where the value has a null
or does not reach. A tuple may also be given as a JSON string that holds the text of such an array.
-/

namespace TupleBlob.Ty

variable {S : Type} [ScalarType S]

mutual

def toJson : Ty S → Bytes → Except Fault Json
  | .scalar s, bytes => ScalarType.toJson s bytes
  | .tuple ts, blob =>
    match split ts.length blob with
    | .error fault => .error fault
    | .ok segments => (itemsOf ts segments).map .arr

/-- One item for each type, with the payloads that there are. -/
def itemsOf : List (Ty S) → List Segment → Except Fault (List Json)
  | [], _ => .ok []
  | t :: ts, some payload :: rest =>
    match t.toJson payload with
    | .error fault => .error fault
    | .ok item => (itemsOf ts rest).map (item :: ·)
  | _ :: ts, none :: rest => (itemsOf ts rest).map (.null :: ·)
  | _ :: ts, [] => (itemsOf ts []).map (.null :: ·)

end

/-- A JSON string is replaced by the value that it is the text of, once. -/
def decodeOnce : Json → Except Fault Json
  | .str text => (Json.parse text).mapError .badJson
  | json => .ok json

/-- The items of an array that has exactly `arity` of them. -/
def listOf (arity : Nat) (json : Json) : Except Fault (List Json) :=
  match json with
  | .arr items =>
    if arity < items.length then .error (.extraItems arity items)
    else if items.length < arity then .error (.missingItems arity items)
    else .ok items
  | json => .error (.notAList json)

mutual

def ofJson : Ty S → Json → Except Fault Bytes
  | .scalar s, json => ScalarType.ofJson s json
  | .tuple ts, json =>
    match (decodeOnce json).bind (listOf ts.length) with
    | .error fault => .error fault
    | .ok items =>
      match ofItems ts items with
      | .error fault => .error fault
      | .ok segments => encodeSegments segments

/-- The segments that items stand for. A null is a null for every type. -/
def ofItems : List (Ty S) → List Json → Except Fault (List Segment)
  | _ :: ts, .null :: items => (ofItems ts items).map (none :: ·)
  | t :: ts, item :: items =>
    match t.ofJson item with
    | .error fault => .error fault
    | .ok payload => (ofItems ts items).map (some payload :: ·)
  | _, _ => .ok []

end

def termsOfJson (components : List (Ty S)) (json : Json) : Except Fault (List Segment) :=
  ((decodeOnce json).bind (listOf components.length)).bind (ofItems components)

def toJsonText (t : Ty S) (blob : Bytes) : Except Fault String :=
  (t.toJson blob).map Json.compact

end TupleBlob.Ty
