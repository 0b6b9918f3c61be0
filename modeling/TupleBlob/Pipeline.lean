import TupleBlob.Ty.Json
import TupleBlob.Ty.Literal
import TupleBlob.Ty.Order

/-! # Chains of conversions

A value of one type is carried from blob to text or JSON and back, step by step, and may be
compared with a blob marked on the way. The first step that fails ends the chain.
-/

namespace TupleBlob

namespace Pipeline

/-- The form that a value has between two steps. -/
inductive Form
  | blob (value : Bytes)
  | text (value : String)
  | json (value : Json)
deriving DecidableEq, Repr

inductive Action
  | toText
  | toJson
  | ofText
  | ofJson
  /-- Split a tuple and encode its segments again. -/
  | rebuild
  /-- Put JSON into a JSON string that holds its text. -/
  | stringify
  /-- Put a text into a JSON string. -/
  | asJson
  | validate
  /-- Remember the blob. -/
  | mark
  /-- Compare the marked blob with the present one. -/
  | compareMark
deriving DecidableEq, Repr

inductive Entry
  | form (value : Form)
  | done
  | order (value : Ordering)
deriving DecidableEq, Repr

inductive Stop (S : Type)
  | failure (cause : Failure S)
  /-- The step does not apply to the form, or to the type. -/
  | misplaced
deriving DecidableEq, Repr

end Pipeline

open Pipeline

/-- The present form of a value and the marked blob, if there is one. -/
structure Pipeline where
  form : Form
  mark : Option Bytes
deriving DecidableEq, Repr

namespace Pipeline

variable {S : Type}

/-- A chain that starts with a form, nothing being marked. -/
def start (form : Form) : Pipeline := ⟨form, none⟩

/-- Goes on with the form that a conversion gave. -/
def convert {α : Type} (p : Pipeline) (wrap : α → Form) :
    Except Fault α → Except (Stop S) (Entry × Pipeline)
  | .ok value => .ok (.form (wrap value), ⟨wrap value, p.mark⟩)
  | .error fault => .error (.failure (.ofFault fault))

variable [ScalarType S]

def step (t : Ty S) (p : Pipeline) (action : Action) : Except (Stop S) (Entry × Pipeline) :=
  match action, p.form with
  | .toText, .blob v => p.convert .text (t.toText v)
  | .toJson, .blob v => p.convert .json (t.toJson v)
  | .ofText, .text s => p.convert .blob (t.ofText s)
  | .ofJson, .json j => p.convert .blob (t.ofJson j)
  | .rebuild, .blob v =>
    match t with
    | .tuple ts => p.convert .blob ((split ts.length v).bind encodeSegments)
    | .scalar _ => .error .misplaced
  | .stringify, .json j => p.convert .json (.ok (.str j.compact))
  | .asJson, .text s => p.convert .json (.ok (.str s))
  | .validate, .blob v =>
    match t.validate v with
    | .ok () => .ok (.done, p)
    | .error failure => .error (.failure failure)
  | .mark, .blob v => .ok (.done, ⟨p.form, some v⟩)
  | .compareMark, .blob v =>
    match p.mark with
    | none => .error .misplaced
    | some marked =>
      match t.order marked v with
      | .ok order => .ok (.order order, p)
      | .error fault => .error (.failure (.ofFault fault))
  | _, _ => .error .misplaced

/-- Takes steps in turn. Gives the report of each, and why the chain ended early if it did. -/
def run (t : Ty S) (p : Pipeline) : List Action → List Entry × Option (Stop S)
  | [] => ([], none)
  | action :: rest =>
    match p.step t action with
    | .error stop => ([], some stop)
    | .ok (entry, p) =>
      let (entries, stop) := p.run t rest
      (entry :: entries, stop)

end Pipeline

end TupleBlob
